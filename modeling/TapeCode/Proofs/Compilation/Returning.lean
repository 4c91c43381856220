import TapeCode.Proofs.Compilation.Discipline
import TapeCode.Proofs.Lowering.Stream

/-!
# Calls that return

What one instruction does to the place, the values and the open calls, and what it is for a call to
return: a run goes from the `invoke` to a `return` after which the calls are open that were open before,
and up to there the call itself is open.
-/
namespace TapeCode

open Shape

namespace Program

variable {program : Program} {ending : EndOfInput} {traced following : Traced}

theorem Moves.step? {state next : ProgramState} (moves : program.Moves ending state next) :
    program.step? ending state = some next := by
  have jumps {function : Option Int} {rest body behind : Listing} {label : Int}
      {values : StackState ProgramPlace} (around : program.body? function = some body)
      (found : Listing.behindLabel? label body = some behind) :
      program.jump? ⟨function, rest⟩ label values = some ⟨⟨function, behind⟩, values⟩ := by
    simp [jump?, around, found]
  cases moves with
  | label => rfl
  | jump around found => exact jumps around found
  | branch popped holds around found => simp [Program.step?, popped, holds, jumps around found]
  | pass popped => simp [Program.step?, popped]
  | invoke found => simp [Program.step?, found]
  | leave popped => simp [Program.step?, popped]
  | @plain function instruction rest _ _ executed =>
    have behind := congrArg (Option.bind · fun after =>
      some (⟨⟨function, rest⟩, after⟩ : ProgramState)) executed
    cases instruction
    case label | jump | jumpIf | invoke | leave => cases executed
    all_goals exact behind

theorem traced?_eq_some : program.traced? ending traced = some following ↔
    program.Moves ending traced.state following.state ∧ following.calls = traced.callsAfter := by
  obtain ⟨next, calls⟩ := following
  rw [traced?, Option.map_eq_some_iff]
  constructor
  · rintro ⟨_, stepped, same⟩
    obtain ⟨rfl, rfl⟩ := Traced.mk.inj same
    exact ⟨moves_of_step? stepped, rfl⟩
  · rintro ⟨moves, rfl⟩
    exact ⟨next, moves.step?, rfl⟩

/-- Instructions that compute open and close no calls. -/
theorem callsAfter_of_executed {function : Option Int} {instruction : Instruction} {rest : Listing}
    {values after : StackState ProgramPlace} (executed : values.execute? ending instruction = some after)
    (calls : List ProgramState) :
    Traced.callsAfter ⟨⟨⟨function, instruction :: rest⟩, values⟩, calls⟩ = calls := by
  cases instruction <;> first | rfl | cases executed

/-- Only a `return` closes a call. -/
theorem leave_of_fewer (stepped : program.traced? ending traced = some following)
    (fewer : following.calls.length < traced.calls.length) :
    ∃ more, traced.state.place.rest = .leave :: more := by
  rw [(traced?_eq_some.mp stepped).2, Traced.callsAfter] at fewer
  split at fewer
  next => exact absurd fewer (by simp)
  next more here => exact ⟨more, here⟩
  next => exact absurd fewer (lt_irrefl _)

/-- A call of the function with the label, from its `invoke` until it has returned: meanwhile the call is
open, and afterwards the calls are open that were open before it. -/
structure Call (program : Program) (ending : EndOfInput) (label : Int) (call returned : Traced) :
    Prop where
  calls : ∃ rest, call.state.place.rest = .invoke label :: rest
  returns : ∃ during, Path (program.traced? ending) id call (call :: during) returned ∧
    ∀ traced ∈ during, call.state :: call.calls <:+ traced.calls
  closed : returned.calls = call.calls

/-- The function is entered with the call open. -/
theorem Call.entered {label : Int} {call returned : Traced}
    (happens : program.Call ending label call returned) : ∃ rest body entered,
      call.state.place.rest = .invoke label :: rest ∧ program.functions.get? label = some body ∧
      entered = ⟨⟨⟨some label, body⟩,
        call.state.values.push (.address ⟨call.state.place.function, rest⟩)⟩,
        call.state :: call.calls⟩ ∧
      program.traced? ending call = some entered ∧
      ∃ during, Path (program.traced? ending) id entered during returned ∧
        ∀ traced ∈ during, call.state :: call.calls <:+ traced.calls := by
  obtain ⟨⟨rest, here⟩, ⟨during, path, opened⟩, -⟩ := happens
  obtain ⟨⟨⟨function, listing⟩, values⟩, calls⟩ := call
  obtain rfl : listing = .invoke label :: rest := here
  cases path with
  | @next _ entered _ _ stepped onwards =>
    obtain ⟨state, others⟩ := entered
    obtain ⟨moves, rfl⟩ := traced?_eq_some.mp stepped
    cases moves with
    | plain executed => cases executed
    | invoke found => exact ⟨rest, _, _, rfl, found, rfl, stepped, during, onwards, opened⟩

/-- What holds when the function is entered, and what every instruction keeps while the call is open, holds
before the `return` that closes the call. -/
theorem Call.leaves {label : Int} {call returned entered : Traced} {invariant : Traced → Prop}
    (happens : program.Call ending label call returned)
    (enters : program.traced? ending call = some entered) (begins : invariant entered)
    (keeps : ∀ traced following, invariant traced → program.traced? ending traced = some following →
      call.state :: call.calls <:+ traced.calls → call.state :: call.calls <:+ following.calls →
      invariant following) :
    ∃ traced more, invariant traced ∧ call.state :: call.calls <:+ traced.calls ∧
      traced.state.place.rest = .leave :: more ∧ program.traced? ending traced = some returned := by
  obtain ⟨rest, body, _, here, found, rfl, entersToo, during, path, opened⟩ := happens.entered
  obtain rfl := Option.some.inj (enters.symm.trans entersToo)
  obtain ⟨traced, holds, inside, stepped⟩ := path.leaves begins (List.suffix_refl _) opened
    (fun still => absurd still.length_le (by simp [happens.closed])) keeps
  have fewer : returned.calls.length < traced.calls.length :=
    happens.closed ▸ inside.length_le
  obtain ⟨more, here⟩ := leave_of_fewer stepped fewer
  exact ⟨traced, more, holds, inside, here, stepped⟩

/-! Whether a call returns can be found out by following it. -/

/-- The state in which no more than so many calls are open. -/
def closes? (program : Program) (ending : EndOfInput) (depth : Nat) : Nat → Traced → Option Traced
  | 0, _ => none
  | budget + 1, traced =>
    if traced.calls.length ≤ depth then some traced
    else (program.traced? ending traced).bind (closes? program ending depth budget)

/-- The state in which the call has returned, if there is a call of the function to begin with. -/
def returned? (program : Program) (ending : EndOfInput) (label : Int) (budget : Nat) (call : Traced) :
    Option Traced :=
  if call.state.place.rest.head? = some (.invoke label) then
    (program.traced? ending call).bind (program.closes? ending call.calls.length budget)
  else none

/-- An open call is closed as the last one, or it stays open. -/
theorem callsAfter_of_open {caller : ProgramState} {calls : List ProgramState}
    (opened : caller :: calls <:+ traced.calls) :
    traced.callsAfter = calls ∨ caller :: calls <:+ traced.callsAfter := by
  rw [Traced.callsAfter]
  split
  next => exact .inr (opened.trans (List.suffix_cons _ _))
  next =>
    obtain ⟨front, same⟩ := opened
    rw [← same]
    cases front with
    | nil => exact .inl rfl
    | cons inner front => exact .inr (List.suffix_append front _)
  next => exact .inr opened

theorem path_of_closes? {caller : ProgramState} {calls : List ProgramState} {budget : Nat}
    {last : Traced} (closed : program.closes? ending calls.length budget traced = some last)
    (opened : caller :: calls <:+ traced.calls) :
    ∃ during, Path (program.traced? ending) id traced during last ∧
      (∀ between ∈ during, caller :: calls <:+ between.calls) ∧ last.calls = calls := by
  induction budget generalizing traced with
  | zero => cases closed
  | succ budget ih =>
    have deeper : ¬traced.calls.length ≤ calls.length := Nat.not_le.mpr opened.length_le
    rw [closes?, if_neg deeper] at closed
    obtain ⟨following, stepped, onwards⟩ := Option.bind_eq_some_iff.mp closed
    have behind := callsAfter_of_open opened
    rw [← (traced?_eq_some.mp stepped).2] at behind
    rcases behind with ends | still
    · cases budget with
      | zero => cases onwards
      | succ budget =>
        rw [closes?, if_pos (Nat.le_of_eq (congrArg List.length ends))] at onwards
        obtain rfl := Option.some.inj onwards
        exact ⟨[traced], .next stepped .here, List.forall_mem_singleton.mpr opened, ends⟩
    · obtain ⟨during, path, inside, same⟩ := ih onwards still
      exact ⟨traced :: during, .next stepped path, List.forall_mem_cons.mpr ⟨opened, inside⟩, same⟩

theorem Call.of_returned? {label : Int} {budget : Nat} {call returned : Traced}
    (found : program.returned? ending label budget call = some returned) :
    program.Call ending label call returned := by
  obtain ⟨here, enters⟩ := Option.ite_none_right_eq_some.mp found
  obtain ⟨entered, stepped, onwards⟩ := Option.bind_eq_some_iff.mp enters
  obtain ⟨rest, listing⟩ := List.head?_eq_some_iff.mp here
  have opened : call.state :: call.calls <:+ entered.calls := by
    simp only [(traced?_eq_some.mp stepped).2, Traced.callsAfter, listing, List.suffix_refl]
  obtain ⟨during, path, inside, closed⟩ := path_of_closes? onwards opened
  exact ⟨⟨rest, listing⟩, ⟨during, .next stepped path, inside⟩, closed⟩

end Program

/-- A run of the program keeps conforming to its frames. -/
theorem Conforms.Main.goes {tree : ScopeTree} {whole : TypedProgram} {program : Program}
    {ending : EndOfInput} {traced following : Traced} (sound : whole.IsSound tree)
    (compiled : whole.IsCompiled tree program) (conforms : Conforms.Main tree program traced)
    (stepped : program.traced? ending traced = some following) :
    Conforms.Main tree program following := by
  rcases conforms.step (compiled.wellFormed sound) (compiled.checked sound) with
    exits | ⟨other, steppedToo, conforms⟩
  · simp [Program.traced?, Program.step?, exits.finished (compiled.main_checked sound)] at stepped
  · exact Option.some.inj (stepped.symm.trans steppedToo) ▸ conforms

/-- A `return` goes behind the innermost open call and leaves the slots as they are. -/
theorem Conforms.Main.leaves {tree : ScopeTree} {program : Program} {ending : EndOfInput}
    {traced following : Traced} {more : Listing} (conforms : Conforms.Main tree program traced)
    (here : traced.state.place.rest = .leave :: more)
    (stepped : program.traced? ending traced = some following) :
    ∃ caller id rest, traced.calls = caller :: following.calls ∧
      caller.place.rest = .invoke id :: rest ∧
      following.state.place = ⟨caller.place.function, rest⟩ ∧
      following.state.values.heap = traced.state.values.heap := by
  obtain ⟨caller, others, id, called, rest, arguments, below, value, opened, waits, -, -, -, -,
    onTop⟩ := conforms.returns here
  obtain ⟨⟨⟨function, listing⟩, stack, heap, input, output⟩, calls⟩ := traced
  obtain rfl : listing = .leave :: more := here
  obtain rfl : stack = _ := onTop
  obtain rfl : calls = _ := opened
  obtain rfl := Option.some.inj stepped
  exact ⟨caller, id, rest, rfl, waits, rfl, rfl⟩

end TapeCode
