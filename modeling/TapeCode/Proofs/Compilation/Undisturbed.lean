import TapeCode.Proofs.Compilation.Returning
import TapeCode.Proofs.Compilation.Sparing

/-!
# What a call leaves alone

A call leaves every slot as it was to which no variable belongs that is declared or assigned in the
function called or in those that the call leads to. This holds of every call that returns, in runs that
end and in others. Slots are given out by where a variable is declared, so a variable of the caller may
share its slot with one of these; then the call changes it.
-/
namespace TapeCode

variable {tree : ScopeTree} {whole : TypedProgram} {program : Program} {ending : EndOfInput}
  {slot : Nat} {calls : Int → Prop} {value : StackValue ProgramPlace}

/-- The slot holds the value, or the value is on the stack on the way back into the slot, or the slot is
used for a return address and will be zero again. -/
inductive ProgramState.Keeps (slot : Nat) (value : StackValue ProgramPlace) (calls : Int → Prop)
    (state : ProgramState) : Prop
  | between (spares : state.place.rest.Spares slot calls) (holds : state.values.heap slot = value)
  | read {layout : List Int} {rest : Listing} {stack : List (StackValue ProgramPlace)}
      (here : state.place.rest = .dupInt :: .writeLocal layout :: rest)
      (addressed : StackState.slot? layout = some slot) (spares : rest.Spares slot calls)
      (onTop : state.values.stack = value :: stack)
  | doubled {layout : List Int} {rest : Listing} {stack : List (StackValue ProgramPlace)}
      (here : state.place.rest = .writeLocal layout :: rest)
      (addressed : StackState.slot? layout = some slot) (spares : rest.Spares slot calls)
      (onTop : state.values.stack = value :: stack)
  | parked {layout : List Int} {meanwhile rest : Listing}
      (here : state.place.rest = meanwhile ++ .readLocal layout :: rest)
      (addressed : StackState.slot? layout = some slot)
      (apart : ∀ instruction ∈ meanwhile, instruction.IsApart slot) (spares : rest.Spares slot calls)
      (zero : value = .byte 0)

/-- Behind the call that the state waits for, and in the body around it, the slot is left alone. -/
def ProgramState.Waits (program : Program) (slot : Nat) (calls : Int → Prop) (state : ProgramState) :
    Prop :=
  program.BodySpares slot calls state.place.function ∧
    ∃ (id : Int) (rest : Listing), state.place.rest = .invoke id :: rest ∧ rest.Spares slot calls

namespace ProgramState.Keeps

variable {function : Option Int} {instruction : Instruction} {rest : Listing}
  {values after : StackState ProgramPlace}

/-- An instruction that computes brings the value on its way. -/
theorem executes (zero : slot = 0 → value = .byte 0)
    (keeps : Keeps slot value calls ⟨⟨function, instruction :: rest⟩, values⟩)
    (executed : values.execute? ending instruction = some after) :
    Keeps slot value calls ⟨⟨function, rest⟩, after⟩ := by
  obtain ⟨stack, heap, input, output⟩ := values
  cases keeps with
  | between spares holds =>
    obtain rfl : heap slot = value := holds
    cases spares with
    | restores addressed others =>
      simp only [StackState.execute?, addressed, Option.bind_eq_bind, Option.bind_some, Option.pure_def,
        Option.some.injEq] at executed
      subst executed
      exact .read rfl addressed others rfl
    | other apart _ others =>
      exact .between others (@StackState.execute?_store _ _ _ _ _ _ (.byte 0) apart executed).2
    | parks addresses addressed apart others =>
      simp only [StackState.execute?, addressed, Option.bind_eq_bind, Option.bind_some,
        Option.bind_eq_some_iff, Option.pure_def, Option.some.injEq, Prod.exists] at executed
      exact .parked rfl addressed apart others (zero addresses)
  -- The value is on the stack and is about to be copied, then to be written back.
  | read here addressed spares onTop =>
    obtain ⟨rfl, rfl⟩ := List.cons.inj here
    obtain rfl : stack = value :: _ := onTop
    obtain rfl := Option.some.inj executed
    exact .doubled rfl addressed spares rfl
  | doubled here addressed spares onTop =>
    obtain ⟨rfl, rfl⟩ := List.cons.inj here
    obtain rfl : stack = value :: _ := onTop
    simp only [StackState.execute?, addressed, Option.bind_eq_bind, Option.bind_some] at executed
    obtain rfl := Option.some.inj executed
    exact .between spares (if_pos rfl)
  -- While an address is parked in the slot, no instruction names it until the address is taken back.
  | @parked layout meanwhile others here addressed apart spares zero =>
    cases meanwhile with
    | nil =>
      obtain ⟨rfl, rfl⟩ := List.cons.inj here
      simp only [StackState.execute?, addressed, Option.bind_eq_bind, Option.bind_some] at executed
      obtain rfl := Option.some.inj executed
      exact .between spares ((if_pos rfl).trans zero.symm)
    | cons first meanwhile =>
      obtain ⟨rfl, rfl⟩ := List.cons.inj here
      exact .parked rfl addressed (List.forall_mem_cons.mp apart).2 spares zero

/-- At an instruction that does not compute the value is in its slot. -/
theorem settled (keeps : Keeps slot value calls ⟨⟨function, instruction :: rest⟩, values⟩)
    (flow : instruction.isBody = false ∧ instruction.slot? = none) :
    Listing.Spares slot calls (instruction :: rest) ∧ values.heap slot = value := by
  obtain ⟨notBody, noSlot⟩ := flow
  cases keeps with
  | between spares holds => exact ⟨spares, holds⟩
  | read here _ _ _ =>
    obtain ⟨rfl, -⟩ := List.cons.inj here
    cases notBody
  | doubled here addressed _ _ =>
    obtain ⟨rfl, -⟩ := List.cons.inj here
    cases noSlot.symm.trans addressed
  | @parked layout meanwhile others here addressed apart _ _ =>
    cases meanwhile with
    | nil =>
      obtain ⟨rfl, -⟩ := List.cons.inj here
      cases noSlot.symm.trans addressed
    | cons first meanwhile =>
      obtain ⟨rfl, -⟩ := List.cons.inj here
      cases notBody.symm.trans (List.forall_mem_cons.mp apart).1.1

end ProgramState.Keeps

/-- The code behind an instruction that addresses nothing, and the function that it calls. -/
theorem Listing.Spares.behind {instruction : Instruction} {rest : Listing}
    (spares : Listing.Spares slot calls (instruction :: rest)) (noSlot : instruction.slot? = none) :
    rest.Spares slot calls ∧ ∀ id, instruction = .invoke id → calls id := by
  cases spares with
  | restores addressed _ => cases noSlot.symm.trans addressed
  | other _ called others => exact ⟨others, called⟩
  | parks _ addressed _ _ => cases noSlot.symm.trans addressed

/-! ## Runs -/

/-- While a call is open, its slot is kept: every function that has been entered since leaves it alone, and
the functions that it calls do so, too. -/
structure Traced.Undisturbed (tree : ScopeTree) (program : Program) (slot : Nat)
    (value : StackValue ProgramPlace) (calls : Int → Prop) (before : List ProgramState)
    (traced : Traced) : Prop where
  conforms : Conforms.Main tree program traced
  keeps : traced.state.Keeps slot value calls
  around : program.BodySpares slot calls traced.state.place.function
  waiting : ∃ inner, traced.calls = inner ++ before ∧ ∀ caller ∈ inner, caller.Waits program slot calls

namespace Traced.Undisturbed

variable {before : List ProgramState} {traced following : Traced}

/-- One instruction, unless it closes the call. -/
theorem step (sound : whole.IsSound tree) (compiled : whole.IsCompiled tree program)
    (zero : slot = 0 → value = .byte 0)
    (closed : ∀ id, calls id → program.BodySpares slot calls (some id))
    (holds : traced.Undisturbed tree program slot value calls before)
    (stepped : program.traced? ending traced = some following) (still : before <:+ following.calls) :
    following.Undisturbed tree program slot value calls before := by
  have onwards := holds.conforms.goes sound compiled stepped
  obtain ⟨next, _⟩ := following
  obtain ⟨moves, rfl⟩ := Program.traced?_eq_some.mp stepped
  obtain ⟨state, open'⟩ := traced
  obtain ⟨conforms, keeps, around, inner, rfl, waiting⟩ := holds
  cases moves with
  | label =>
    obtain ⟨spares, here⟩ := keeps.settled ⟨rfl, rfl⟩
    exact ⟨onwards, .between (spares.behind rfl).1 here, around, inner, rfl, waiting⟩
  | jump within found =>
    obtain ⟨-, here⟩ := keeps.settled ⟨rfl, rfl⟩
    exact ⟨onwards, .between ((around _ within).behindLabel? found) here, around, inner, rfl, waiting⟩
  | branch popped _ within found =>
    obtain ⟨-, here⟩ := keeps.settled ⟨rfl, rfl⟩
    obtain rfl := StackState.popByte?_eq_some _ popped
    exact ⟨onwards, .between ((around _ within).behindLabel? found) here, around, inner, rfl, waiting⟩
  | pass popped =>
    obtain ⟨spares, here⟩ := keeps.settled ⟨rfl, rfl⟩
    obtain rfl := StackState.popByte?_eq_some _ popped
    exact ⟨onwards, .between (spares.behind rfl).1 here, around, inner, rfl, waiting⟩
  | @invoke function id rest body values found =>
    obtain ⟨spares, here⟩ := keeps.settled ⟨rfl, rfl⟩
    obtain ⟨spared, called⟩ := spares.behind rfl
    have entered := closed id (called id rfl)
    exact ⟨onwards, .between (entered body found) here, entered, _ :: inner, rfl,
      List.forall_mem_cons.mpr ⟨⟨around, id, rest, rfl, spared⟩, waiting⟩⟩
  | leave popped =>
    obtain ⟨-, here⟩ := keeps.settled ⟨rfl, rfl⟩
    obtain ⟨caller, id, rest, opened, waits, place, kept⟩ := conforms.leaves rfl stepped
    cases inner with
    | nil =>
      -- The call that the `return` closes would be the one that is to stay open.
      cases before with
      | nil => cases opened
      | cons first others => exact absurd still.length_le (by simp [Traced.callsAfter])
    | cons first inner =>
      obtain ⟨rfl, -⟩ := List.cons.inj opened
      obtain ⟨⟨outside, _, _, waitsToo, spared⟩, waiting⟩ := List.forall_mem_cons.mp waiting
      obtain ⟨-, rfl⟩ := List.cons.inj (waits.symm.trans waitsToo)
      subst place
      exact ⟨onwards, .between spared (kept ▸ here), outside, inner, rfl, waiting⟩
  | plain executed =>
    rw [Program.callsAfter_of_executed executed] at onwards ⊢
    exact ⟨onwards, keeps.executes zero executed, around, inner, rfl, waiting⟩

end Traced.Undisturbed

/-- At every call the slot for return addresses is zero. -/
theorem TypedProgram.IsCompiled.address_zero (sound : whole.IsSound tree)
    (compiled : whole.IsCompiled tree program) {input : List UInt8} {passed : List Traced}
    {call : Traced} {label : Int} {rest : Listing}
    (path : Path (program.traced? ending) id ⟨program.start input, []⟩ passed call)
    (here : call.state.place.rest = .invoke label :: rest) :
    call.state.values.heap 0 = .byte 0 := by
  have around := compiled.spares_addresses sound
  have begins : Traced.Undisturbed tree program 0 (.byte 0) (fun _ => True) []
      ⟨program.start input, []⟩ :=
    ⟨compiled.conforms sound (@Path.here _ _ (program.traced? ending) id _),
      .between (around none _ rfl) rfl, around none, [], rfl, nofun⟩
  have holds : call.Undisturbed tree program 0 (.byte 0) (fun _ => True) [] :=
    path.keeps begins fun traced following holds stepped =>
      holds.step sound compiled (fun _ => rfl) (fun id _ => around (some id)) stepped List.nil_suffix
  obtain ⟨⟨⟨function, listing⟩, values⟩, calls⟩ := call
  obtain rfl : listing = .invoke label :: rest := here
  exact (holds.keeps.settled ⟨rfl, rfl⟩).2

/-- A call of a function leaves alone what the function and all those it leads to leave alone. -/
theorem Program.Call.undisturbed (sound : whole.IsSound tree)
    (compiled : whole.IsCompiled tree program) {label : Int} {call returned : Traced}
    (happens : program.Call ending label call returned) (conforms : Conforms.Main tree program call)
    (zero : slot = 0 → call.state.values.heap slot = .byte 0) (entered : calls label)
    (closed : ∀ id, calls id → program.BodySpares slot calls (some id)) :
    returned.state.values.heap slot = call.state.values.heap slot := by
  have spares := closed label entered
  obtain ⟨rest, body, _, -, found, rfl, enters, -⟩ := happens.entered
  have begins : Traced.Undisturbed tree program slot (call.state.values.heap slot) calls
      (call.state :: call.calls) _ :=
    ⟨conforms.goes sound compiled enters, .between (spares body found) rfl, spares, [], rfl, nofun⟩
  obtain ⟨traced, more, holds, -, here, stepped⟩ := happens.leaves enters begins
    fun traced following holds stepped _ still => holds.step sound compiled zero closed stepped still
  obtain ⟨-, -, -, -, -, -, kept⟩ := holds.conforms.leaves here stepped
  obtain ⟨⟨⟨function, listing⟩, values⟩, others⟩ := traced
  obtain rfl : listing = .leave :: more := here
  rw [kept]
  exact (holds.keeps.settled ⟨rfl, rfl⟩).2

/-! ## Source texts -/

namespace Build

/-- A call that returns leaves the slot of a variable as it was, if no variable in that slot is declared or
assigned in the function called or in those that the call can lead to. -/
theorem resolved_callSpares {source : String} {typed : TypedProgram} {scopes : ScopeTree}
    (resolves : Resolves source typed scopes) : ∃ program, typed.compile scopes = .ok program ∧
      ∀ (ending : EndOfInput) (input : List UInt8) (passed : List Traced) (call returned : Traced)
        (function : FunctionId) (label : Nat) (kept : VariableId) (slot : Nat),
        Compile.labelOf? scopes function = some label →
        Path (program.traced? ending) id ⟨program.start input, []⟩ passed call →
        program.Call ending label call returned →
        scopes.slot? kept = some slot →
        (∀ other, typed.Mentions function (.declares other) ∨ typed.Mentions function (.assigns other) →
          scopes.slot? other ≠ some slot) →
        returned.state.values.heap slot = call.state.values.heap slot := by
  have sound := resolves.sound
  obtain ⟨program, made⟩ := sound.compiles
  have compiled := TypedProgram.compile_eq_ok sound made
  refine ⟨program, made, fun ending input passed call returned function label kept slot has path
    happens _ apart => ?_⟩
  obtain ⟨rest, here⟩ := happens.calls
  refine happens.undisturbed sound compiled (compiled.conforms sound path) ?_
    ⟨function, label, .refl, has, rfl⟩ fun id => compiled.spares sound fun other mentioned _ =>
      apart other mentioned
  rintro rfl
  exact compiled.address_zero sound path here

/-- A variable of the main block, and a call of a function whose parameter lies behind it. -/
def framedSource : String := "func f(x: int): int \x7b return x; \x7d var a = 5; f(7);"

theorem framedSource_calls : ∃ typed scopes program passed call returned,
    Resolves framedSource typed scopes ∧ typed.compile scopes = .ok program ∧
      Path (program.traced? .zero) id ⟨program.start [], []⟩ passed call ∧
      program.Call .zero 0 call returned ∧ Compile.labelOf? scopes 11 = some 0 ∧
      scopes.slot? 2 = some 1 ∧ call.state.values.heap 1 = .byte 5 ∧
      ∀ other, typed.Mentions 11 (.declares other) ∨ typed.Mentions 11 (.assigns other) →
        scopes.slot? other ≠ some 1 := by
  obtain ⟨typed, scopes, resolves, ⟨program, made, ⟨passed, call⟩, path, returned, happens, holds⟩,
      named, has, apart⟩ : ∃ typed scopes, Resolves framedSource typed scopes ∧
      (∃ program, typed.compile scopes = .ok program ∧
        ∃ found, Path.run? (program.traced? .zero) 3 ⟨program.start [], []⟩ = some found ∧
        ∃ returned, program.returned? .zero 0 10 found.2 = some returned ∧
          found.2.state.values.heap 1 = .byte 5) ∧
      Compile.labelOf? scopes 11 = some 0 ∧ scopes.slot? 2 = some 1 ∧
      ∀ source ∈ typed.functions, ∀ other ∈ source.variables, scopes.slot? other ≠ some 1 := by
    decide +kernel
  refine ⟨typed, scopes, program, passed, call, returned, resolves, made, .of_run? 3 path,
    .of_returned? happens, named, has, holds, ?_⟩
  rintro other (⟨source, member, -, among⟩ | ⟨source, member, -, among⟩)
  all_goals exact apart source member other (TypedFunction.mem_variables among rfl)

theorem resolved_callSpares_framedSource : ∃ typed scopes program passed call returned,
    Resolves framedSource typed scopes ∧ typed.compile scopes = .ok program ∧
      Path (program.traced? .zero) id ⟨program.start [], []⟩ passed call ∧
      program.Call .zero 0 call returned ∧ scopes.slot? 2 = some 1 ∧
      (∀ other, typed.Mentions 11 (.declares other) ∨ typed.Mentions 11 (.assigns other) →
        scopes.slot? other ≠ some 1) ∧
      returned.state.values.heap 1 = .byte 5 := by
  obtain ⟨typed, scopes, program, passed, call, returned, resolves, made, path, happens, named, has,
    holds, apart⟩ := framedSource_calls
  obtain ⟨other, madeToo, spares⟩ := resolved_callSpares resolves
  obtain rfl := Except.ok.inj (made.symm.trans madeToo)
  have kept := spares .zero [] passed call returned 11 0 2 1 named path happens has apart
  exact ⟨typed, scopes, program, passed, call, returned, resolves, made, path, happens, has, apart,
    kept.trans holds⟩

/-- A variable of a block, and a function beside the block whose parameter has the same slot. -/
def sharingSource : String :=
  "func f(x: int): int \x7b return x; \x7d \x7b var a = 5; f(7); printNumber(a); \x7d"

/-- The call in the block overwrites the variable, which the function neither declares nor assigns, and
7 is printed instead of 5. -/
theorem sharingSource_disturbed : ∃ typed scopes program passed call returned,
    Resolves sharingSource typed scopes ∧ typed.compile scopes = .ok program ∧
      Path (program.traced? .zero) id ⟨program.start [], []⟩ passed call ∧
      program.Call .zero 0 call returned ∧ Compile.labelOf? scopes 11 = some 0 ∧
      2 ∈ scopes.visibleVariables 4 ∧ scopes.slot? 2 = some 1 ∧
      (¬typed.Mentions 11 (.declares 2) ∧ ¬typed.Mentions 11 (.assigns 2)) ∧
      call.state.values.heap 1 = .byte 5 ∧ returned.state.values.heap 1 = .byte 7 ∧
      typed.evaluate scopes .zero 12 [] = some [55] := by
  obtain ⟨typed, scopes, resolves,
      ⟨program, made, ⟨passed, call⟩, path, returned, happens, before, behind⟩,
      named, visible, has, silent, printed⟩ : ∃ typed scopes, Resolves sharingSource typed scopes ∧
      (∃ program, typed.compile scopes = .ok program ∧
        ∃ found, Path.run? (program.traced? .zero) 3 ⟨program.start [], []⟩ = some found ∧
        ∃ returned, program.returned? .zero 0 10 found.2 = some returned ∧
          found.2.state.values.heap 1 = .byte 5 ∧ returned.state.values.heap 1 = .byte 7) ∧
      Compile.labelOf? scopes 11 = some 0 ∧ 2 ∈ scopes.visibleVariables 4 ∧ scopes.slot? 2 = some 1 ∧
      (∀ source ∈ typed.functions, 2 ∉ source.variables) ∧
      typed.evaluate scopes .zero 12 [] = some [55] := by
    decide +kernel
  refine ⟨typed, scopes, program, passed, call, returned, resolves, made, .of_run? 3 path,
    .of_returned? happens, named, visible, has, ⟨?_, ?_⟩, before, behind, printed⟩
  all_goals
    rintro ⟨source, member, -, among⟩
    exact silent source member (TypedFunction.mem_variables among rfl)

end Build

end TapeCode
