import TapeCode.Proofs.Compilation.ShapedCode

/-!
# Calls that are open

A run of a program with a record of the calls that have not returned yet: the states in which they were
made. At every moment of a run the innermost function stands at a place of its code whose shape the stack
has above what the caller left there, and each caller stands at the call that it waits for. What can be
said so of a whole run, from the start of the main block on, can also be said of what a part of a body
does, whatever calls were open when it was entered.
-/
namespace TapeCode

open Shape

/-- A state with the states in which the open calls were made, the innermost first. -/
structure Traced where
  state : ProgramState
  calls : List ProgramState

/-- A call is open until the `return` that closes it. -/
def Traced.callsAfter (traced : Traced) : List ProgramState :=
  match traced.state.place.rest with
  | .invoke _ :: _ => traced.state :: traced.calls
  | .leave :: _ => traced.calls.tail
  | _ => traced.calls

/-- One instruction, with the calls that are open behind it. -/
def Program.traced? (program : Program) (ending : EndOfInput) (traced : Traced) : Option Traced :=
  (program.step? ending traced.state).map fun following => ⟨following, traced.callsAfter⟩

/-- The result of the function that the code of a place belongs to. -/
def ScopeTree.resultOf? (tree : ScopeTree) (function : Option Int) : Option ValueType :=
  function.bind fun id => (tree.invoked? id).map (·.result)

theorem ScopeTree.resultOf?_invoked {tree : ScopeTree} {id : Int} {called : Function}
    (known : tree.invoked? id = some called) : tree.resultOf? (some id) = some called.result := by
  rw [resultOf?, Option.bind_some, known]
  rfl

/-- A part of a body, and the shapes at its beginning and at its end. -/
structure Stretch where
  function : Option Int
  code : Listing
  rest : Listing
  first : Shape
  last : Shape

variable {tree : ScopeTree} {program : Program} {ending : EndOfInput}

namespace Stretch

/-- The code of a function up to its last `return`. -/
def ofFunction (id : Int) (called : Function) (code : Listing) : Stretch :=
  ⟨some id, code, [.leave], called.entry, leaving called.result⟩

/-- The stretch lies in the program, its jumps do not leave it, and it leads from its first shape to its
last one. -/
structure Checked (tree : ScopeTree) (program : Program) (stretch : Stretch) : Prop where
  placed : ∃ start, program.body? stretch.function = some (start ++ (stretch.code ++ stretch.rest))
  closed : ∀ label ∈ Listing.targets stretch.code, label ∈ Listing.labels stretch.code
  scanned : stretch.first.scan tree (tree.resultOf? stretch.function) stretch.code = some stretch.last

/-- The machine has `todo` of the stretch before it, and its stack has the shape of that place. -/
structure At (tree : ScopeTree) (stretch : Stretch) (place : ProgramPlace)
    (base : List (StackValue ProgramPlace)) (todo : Listing) (state : ProgramState) : Prop where
  here : state.place = ⟨stretch.function, todo ++ stretch.rest⟩
  shaped : ∃ done shape, stretch.code = done ++ todo ∧
    stretch.first.scan tree (tree.resultOf? stretch.function) done = some shape ∧
    shape.Fits place base state.values

variable {stretch : Stretch} {place : ProgramPlace} {base : List (StackValue ProgramPlace)}
  {todo : Listing} {instruction : Instruction} {state : ProgramState}

theorem At.start {values : StackState ProgramPlace} (fits : stretch.first.Fits place base values) :
    stretch.At tree place base stretch.code ⟨⟨stretch.function, stretch.code ++ stretch.rest⟩, values⟩ :=
  ⟨rfl, [], _, rfl, rfl, fits⟩

/-- Behind the whole stretch the stack has its last shape. -/
theorem At.fits_last (checked : stretch.Checked tree program)
    (standing : stretch.At tree place base [] state) : stretch.last.Fits place base state.values := by
  obtain ⟨-, done, shape, split, scanned, fits⟩ := standing
  rw [List.append_nil] at split
  obtain rfl : shape = stretch.last :=
    Option.some.inj (scanned.symm.trans (split ▸ checked.scanned))
  exact fits

theorem At.mem (standing : stretch.At tree place base (instruction :: todo) state) :
    instruction ∈ stretch.code := by
  obtain ⟨-, done, shape, split, -, -⟩ := standing
  rw [split]
  exact List.mem_append_right _ List.mem_cons_self

/-- The shapes before and behind the instruction that is executed. -/
theorem At.next (checked : stretch.Checked tree program)
    (standing : stretch.At tree place base (instruction :: todo) state) : ∃ shape next : Shape,
      shape.after? tree (tree.resultOf? stretch.function) instruction = some next ∧
      shape.Fits place base state.values ∧ ∀ values, next.Fits place base values →
        stretch.At tree place base todo ⟨⟨stretch.function, todo ++ stretch.rest⟩, values⟩ := by
  obtain ⟨here, done, shape, split, scanned, fits⟩ := standing
  have whole := checked.scanned
  rw [split, scan_append, scanned, Option.bind_some, scan] at whole
  obtain ⟨next, after, -⟩ := Option.bind_eq_some_iff.mp whole
  refine ⟨shape, next, after, fits, fun values fitsNext =>
    ⟨rfl, done ++ [instruction], next, by simp [split], ?_, fitsNext⟩⟩
  rw [scan_append, scanned, Option.bind_some, scan, after]
  rfl

/-- Jumps lead to places between statements. -/
theorem At.jump (wellFormed : program.WellFormed) (checked : stretch.Checked tree program) {label : Int}
    (leads : instruction.jumpTarget? = some label) (member : instruction ∈ stretch.code)
    {values : StackState ProgramPlace}
    (fits : (level (tree.resultOf? stretch.function)).Fits place base values) (rest : Listing) :
    ∃ behind, program.jump? ⟨stretch.function, rest⟩ label values =
        some ⟨⟨stretch.function, behind ++ stretch.rest⟩, values⟩ ∧
      stretch.At tree place base behind ⟨⟨stretch.function, behind ++ stretch.rest⟩, values⟩ := by
  have target := checked.closed label (List.mem_filterMap.mpr ⟨instruction, member, leads⟩)
  obtain ⟨before, behind, split⟩ := List.append_of_mem (Listing.mem_labels.mp target)
  obtain ⟨start, placed⟩ := checked.placed
  have here : program.body? stretch.function =
      some ((start ++ before) ++ .label label :: (behind ++ stretch.rest)) := by
    simpa [split] using placed
  refine ⟨behind, Program.jump?_of_placed wellFormed here rest values, rfl, before ++ [.label label],
    _, by simp [split], ?_, fits⟩
  have whole := checked.scanned
  rw [split, scan_append] at whole
  obtain ⟨shape, scanned, whole⟩ := Option.bind_eq_some_iff.mp whole
  obtain ⟨next, after, -⟩ := Option.bind_eq_some_iff.mp whole
  rw [scan_append, scanned, Option.bind_some, scan, after]
  obtain ⟨rfl, same⟩ := Option.ite_none_right_eq_some.mp after
  exact same.symm

end Stretch

/-- Every function that is called in the program has code that leads from its arguments to its result. -/
def Program.Checked (program : Program) (tree : ScopeTree) : Prop :=
  ∀ id called, tree.invoked? id = some called → ∃ code,
    program.functions.get? id = some (code ++ [.leave]) ∧
      (Stretch.ofFunction id called code).Checked tree program

/-- The calls that are open while a stretch of code is executed, on top of those that were open before.
Each caller waits in a stretch of its own, before the `invoke`, with the arguments on its stack; what is
below them is the stack on which the function that it calls runs. -/
inductive Frames (tree : ScopeTree) (program : Program) (bottom : Stretch) (outside : ProgramPlace)
    (floor : List (StackValue ProgramPlace)) (before : List ProgramState) :
    List ProgramState → Stretch → ProgramPlace → List (StackValue ProgramPlace) → Prop
  | bottom (checked : bottom.Checked tree program) :
      Frames tree program bottom outside floor before before bottom outside floor
  | call {calls : List ProgramState} {stretch : Stretch} {place : ProgramPlace}
      {base below : List (StackValue ProgramPlace)} {caller : ProgramState} {id : Int}
      {called : Function} {todo code : Listing} {arguments : List UInt8}
      (outer : Frames tree program bottom outside floor before calls stretch place base)
      (waits : stretch.At tree place base (.invoke id :: todo) caller)
      (known : tree.invoked? id = some called)
      (checked : (Stretch.ofFunction id called code).Checked tree program)
      (count : arguments.length = called.parameters.length)
      (given : caller.values.stack = arguments.map .byte ++ below) (above : base <:+ below) :
      Frames tree program bottom outside floor before (caller :: calls)
        (Stretch.ofFunction id called code) ⟨stretch.function, todo ++ stretch.rest⟩ below

namespace Frames

variable {bottom stretch : Stretch} {outside place : ProgramPlace}
  {floor base : List (StackValue ProgramPlace)} {before calls : List ProgramState}

theorem checked (frames : Frames tree program bottom outside floor before calls stretch place base) :
    stretch.Checked tree program := by
  cases frames with
  | bottom checked => exact checked
  | call _ _ _ checked _ _ _ => exact checked

/-- The calls that were open before are still open, and the stack below has not been touched. -/
theorem grows (frames : Frames tree program bottom outside floor before calls stretch place base) :
    before <:+ calls ∧ floor <:+ base := by
  induction frames with
  | bottom _ => exact ⟨List.suffix_refl _, List.suffix_refl _⟩
  | call _ _ _ _ _ _ above ih => exact ⟨ih.1.trans (List.suffix_cons ..), ih.2.trans above⟩

end Frames

/-- The innermost function stands in its code, and the others wait for what they have called. -/
def Conforms (tree : ScopeTree) (program : Program) (bottom : Stretch) (outside : ProgramPlace)
    (floor : List (StackValue ProgramPlace)) (before : List ProgramState) (traced : Traced) : Prop :=
  ∃ stretch place base todo,
    Frames tree program bottom outside floor before traced.calls stretch place base ∧
      stretch.At tree place base todo traced.state

/-- The machine goes on in this way. -/
def Continues (tree : ScopeTree) (program : Program) (ending : EndOfInput) (bottom : Stretch)
    (outside : ProgramPlace) (floor : List (StackValue ProgramPlace)) (before : List ProgramState)
    (traced : Traced) : Prop :=
  ∃ following, program.traced? ending traced = some following ∧
    Conforms tree program bottom outside floor before following

namespace Frames

variable {bottom stretch : Stretch} {outside place : ProgramPlace}
  {floor base : List (StackValue ProgramPlace)} {before calls : List ProgramState}
  {state : ProgramState} {todo : Listing}

/-- An instruction that computes goes on to the next one. -/
theorem body {instruction : Instruction}
    (frames : Frames tree program bottom outside floor before calls stretch place base)
    (standing : stretch.At tree place base (instruction :: todo) state)
    (body : instruction.isBody = true) :
    Continues tree program ending bottom outside floor before ⟨state, calls⟩ := by
  obtain ⟨shape, next, after, fits, goes⟩ := standing.next frames.checked
  rw [after?_body body] at after
  obtain ⟨values, executed, fitsNext⟩ := @Fits.execute? _ _ _ _ _ ending _ fits body after
  obtain ⟨here, old⟩ := state
  obtain rfl := standing.here
  refine ⟨⟨⟨⟨stretch.function, todo ++ stretch.rest⟩, values⟩, calls⟩, ?_, _, _, _, _, frames,
    goes values fitsNext⟩
  have same : Traced.callsAfter ⟨⟨⟨stretch.function, instruction :: todo ++ stretch.rest⟩, old⟩, calls⟩ =
      calls := by
    cases instruction <;> first | rfl | cases body
  rw [Program.traced?, same, List.cons_append, Program.step?_body body, executed]
  rfl

theorem label {id : Int}
    (frames : Frames tree program bottom outside floor before calls stretch place base)
    (standing : stretch.At tree place base (.label id :: todo) state) :
    Continues tree program ending bottom outside floor before ⟨state, calls⟩ := by
  obtain ⟨shape, next, after, fits, goes⟩ := standing.next frames.checked
  obtain ⟨-, same⟩ := Option.ite_none_right_eq_some.mp after
  obtain rfl := Option.some.inj same
  obtain ⟨here, values⟩ := state
  obtain rfl := standing.here
  exact ⟨⟨⟨⟨stretch.function, todo ++ stretch.rest⟩, values⟩, calls⟩, rfl, _, _, _, _, frames,
    goes values fits⟩

theorem jump (wellFormed : program.WellFormed) {target : Int}
    (frames : Frames tree program bottom outside floor before calls stretch place base)
    (standing : stretch.At tree place base (.jump target :: todo) state) :
    Continues tree program ending bottom outside floor before ⟨state, calls⟩ := by
  obtain ⟨shape, next, after, fits, -⟩ := standing.next frames.checked
  obtain ⟨rfl, -⟩ := Option.ite_none_right_eq_some.mp after
  obtain ⟨behind, jumps, there⟩ :=
    Stretch.At.jump wellFormed frames.checked rfl standing.mem fits (todo ++ stretch.rest)
  obtain ⟨here, values⟩ := state
  obtain rfl := standing.here
  exact ⟨⟨_, calls⟩, congrArg (Option.map _) jumps, _, _, _, _, frames, there⟩

theorem jumpIf (wellFormed : program.WellFormed) {target : Int}
    (frames : Frames tree program bottom outside floor before calls stretch place base)
    (standing : stretch.At tree place base (.jumpIf target :: todo) state) :
    Continues tree program ending bottom outside floor before ⟨state, calls⟩ := by
  obtain ⟨shape, next, after, fits, goes⟩ := standing.next frames.checked
  obtain ⟨⟨cells, -⟩, same⟩ := Option.ite_none_right_eq_some.mp after
  obtain rfl := Option.some.inj same
  obtain ⟨here, stack, heap, input, output⟩ := state
  obtain rfl := standing.here
  have stacked := fits.stack
  rw [cells] at stacked
  cases stacked with
  | @byte value _ rest stacked =>
    have leveled : (level (tree.resultOf? stretch.function)).Fits place base
        ⟨rest, heap, input, output⟩ := ⟨stacked, fits.slots, nofun⟩
    obtain ⟨behind, jumps, there⟩ :=
      Stretch.At.jump wellFormed frames.checked rfl standing.mem leveled (todo ++ stretch.rest)
    by_cases zero : value = 0
    · refine ⟨⟨_, calls⟩, ?_, _, _, _, _, frames, goes _ leveled⟩
      simp [Program.traced?, Program.step?, StackState.popByte?, StackState.pop?, zero,
        Traced.callsAfter]
    · refine ⟨⟨_, calls⟩, ?_, _, _, _, _, frames, there⟩
      simp [Program.traced?, Program.step?, StackState.popByte?, StackState.pop?, zero, jumps,
        Traced.callsAfter]

/-- A call opens a frame on what is below its arguments. -/
theorem invoke (checked : program.Checked tree) {id : Int}
    (frames : Frames tree program bottom outside floor before calls stretch place base)
    (standing : stretch.At tree place base (.invoke id :: todo) state) :
    Continues tree program ending bottom outside floor before ⟨state, calls⟩ := by
  obtain ⟨shape, next, after, fits, goes⟩ := standing.next frames.checked
  obtain ⟨-, after⟩ := Option.ite_none_left_eq_some.mp after
  obtain ⟨called, known, replaced⟩ := Option.bind_eq_some_iff.mp after
  obtain ⟨arguments, below, count, given, above, -⟩ := fits.replace replaced
  obtain ⟨code, there, codeChecked⟩ := checked id called known
  have inner := frames.call standing known codeChecked count given above
  obtain ⟨here, values⟩ := state
  obtain rfl := standing.here
  refine ⟨⟨⟨⟨some id, code ++ [.leave]⟩,
    values.push (.address ⟨stretch.function, todo ++ stretch.rest⟩)⟩, _⟩, ?_, _, _, _, _, inner, .start ?_⟩
  · simp [Program.traced?, Program.step?, there, Traced.callsAfter]
  · have stacked := (@Cell.Stacked.bytes_iff ⟨stretch.function, todo ++ stretch.rest⟩ below _ [] _).mpr
      ⟨arguments, below, count, given, .base⟩
    rw [List.append_nil] at stacked
    exact ⟨.address stacked, fits.slots, Bool.noConfusion⟩

/-- A `return` closes the innermost call: the address on top is the one that the call pushed, and the
caller goes on behind the call. -/
theorem returns {caller : ProgramState} {id : Int} {called : Function} {more : Listing}
    {arguments : List UInt8} {below : List (StackValue ProgramPlace)}
    (outer : Frames tree program bottom outside floor before calls stretch place base)
    (waits : stretch.At tree place base (.invoke id :: todo) caller)
    (known : tree.invoked? id = some called) (count : arguments.length = called.parameters.length)
    (given : caller.values.stack = arguments.map .byte ++ below)
    (here : state.place.rest = .leave :: more)
    (fits : (leaving called.result).Fits ⟨stretch.function, todo ++ stretch.rest⟩ below state.values) :
    Continues tree program ending bottom outside floor before ⟨state, caller :: calls⟩ := by
  obtain ⟨value, onTop⟩ := fits.result
  obtain ⟨left, pushes, same⟩ := called.result.pushed_eq value below
  obtain ⟨⟨function, listing⟩, stack, heap, input, output⟩ := state
  obtain rfl : listing = .leave :: more := here
  obtain rfl : stack = .address ⟨stretch.function, todo ++ stretch.rest⟩ ::
    called.result.pushed value below := onTop
  -- The caller has the shape behind the call, which rests on what the arguments were on.
  obtain ⟨shape, next, after, fitsCaller, goes⟩ := waits.next outer.checked
  obtain ⟨notParked, after⟩ := Option.ite_none_left_eq_some.mp after
  obtain ⟨found, knownToo, replaced⟩ := Option.bind_eq_some_iff.mp after
  obtain rfl := Option.some.inj (known.symm.trans knownToo)
  obtain ⟨taken, rest, countToo, givenToo, -, fitsNext⟩ := fitsCaller.replace replaced
  obtain ⟨-, rfl⟩ := List.append_inj (given.symm.trans givenToo) (by simp [count, countToo]; rfl)
  exact ⟨⟨⟨⟨stretch.function, todo ++ stretch.rest⟩,
    ⟨called.result.pushed value below, heap, input, output⟩⟩, calls⟩, rfl, _, _, _, _, outer,
    goes _ (fitsNext left _ pushes same fits.slots fun parked => absurd parked notParked)⟩

end Frames

/-- The machine has come to the end of the bottom stretch, or to a `return` in it. -/
def Exits (tree : ScopeTree) (bottom : Stretch) (outside : ProgramPlace)
    (floor : List (StackValue ProgramPlace)) (before : List ProgramState) (traced : Traced) : Prop :=
  traced.calls = before ∧ ∃ todo, bottom.At tree outside floor todo traced.state ∧
    (todo = [] ∨ ∃ more, todo = .leave :: more)

/-- At a `return` of a function the stack has the shape for it. -/
theorem Stretch.At.fits_leaving {id : Int} {called : Function} {code todo more : Listing}
    {place : ProgramPlace} {base : List (StackValue ProgramPlace)} {state : ProgramState}
    (known : tree.invoked? id = some called)
    (checked : (Stretch.ofFunction id called code).Checked tree program)
    (standing : (Stretch.ofFunction id called code).At tree place base todo state)
    (here : state.place.rest = .leave :: more) :
    (leaving called.result).Fits place base state.values := by
  cases todo with
  | nil => exact standing.fits_last checked
  | cons instruction todo =>
    have first : instruction :: (todo ++ [.leave]) = .leave :: more :=
      (congrArg (·.rest) standing.here).symm.trans here
    obtain ⟨rfl, -⟩ := List.cons.inj first
    obtain ⟨shape, next, after, fits, -⟩ := standing.next checked
    obtain ⟨type, result, same⟩ := Option.bind_eq_some_iff.mp after
    obtain ⟨rfl, -⟩ := Option.ite_none_right_eq_some.mp same
    obtain rfl : called.result = type :=
      Option.some.inj ((ScopeTree.resultOf?_invoked known).symm.trans result)
    exact fits

namespace Conforms

variable {bottom : Stretch} {outside : ProgramPlace} {floor : List (StackValue ProgramPlace)}
  {before : List ProgramState} {traced : Traced}

/-- Unless it has come to an exit, the machine goes on. -/
theorem step (wellFormed : program.WellFormed) (checked : program.Checked tree)
    (conforms : Conforms tree program bottom outside floor before traced) :
    Exits tree bottom outside floor before traced ∨
      Continues tree program ending bottom outside floor before traced := by
  obtain ⟨state, calls⟩ := traced
  obtain ⟨stretch, place, base, todo, frames, standing⟩ := conforms
  cases todo with
  -- The stretch is done: this is the exit of the bottom one, and behind a body there is its `return`.
  | nil =>
    cases frames with
    | bottom codeChecked => exact .inl ⟨rfl, [], standing, .inl rfl⟩
    | call outer waits known codeChecked count given above =>
      have here : state.place.rest = [.leave] := congrArg (·.rest) standing.here
      exact .inr (outer.returns waits known count given here
        (standing.fits_leaving known codeChecked here))
  | cons instruction todo =>
    by_cases body : instruction.isBody = true
    · exact .inr (frames.body standing body)
    · obtain ⟨shape, next, after, -, -⟩ := standing.next frames.checked
      cases instruction
      case label => exact .inr (frames.label standing)
      case jump => exact .inr (frames.jump wellFormed standing)
      case jumpIf => exact .inr (frames.jumpIf wellFormed standing)
      case invoke => exact .inr (frames.invoke checked standing)
      case leave =>
        have here : state.place.rest = .leave :: (todo ++ stretch.rest) :=
          congrArg (·.rest) standing.here
        cases frames with
        | bottom codeChecked => exact .inl ⟨rfl, _, standing, .inr ⟨todo, rfl⟩⟩
        | call outer waits known codeChecked count given above =>
          exact .inr (outer.returns waits known count given here
            (standing.fits_leaving known codeChecked here))
      all_goals simp [after?, body] at after

/-- As long as it does not come to an exit, the machine keeps to its frames. -/
theorem path (wellFormed : program.WellFormed) (checked : program.Checked tree)
    {passed : List Traced} {last : Traced}
    (path : Path (program.traced? ending) id traced passed last)
    (inside : ∀ traced ∈ passed, ¬Exits tree bottom outside floor before traced)
    (conforms : Conforms tree program bottom outside floor before traced) :
    Conforms tree program bottom outside floor before last := by
  induction path with
  | here => exact conforms
  | next stepped onwards ih =>
    obtain ⟨notYet, inside⟩ := List.forall_mem_cons.mp inside
    obtain ⟨following, goes, conforms⟩ := (conforms.step wellFormed checked).resolve_left notYet
    obtain rfl := Option.some.inj (stepped.symm.trans goes)
    exact ih inside conforms

theorem grows (conforms : Conforms tree program bottom outside floor before traced) :
    before <:+ traced.calls ∧ floor <:+ traced.state.values.stack := by
  obtain ⟨stretch, place, base, todo, frames, -, done, shape, -, -, fits⟩ := conforms
  exact ⟨frames.grows.1, frames.grows.2.trans fits.stack.on_base⟩

theorem slots (conforms : Conforms tree program bottom outside floor before traced) :
    ∀ slot, slot ≠ 0 → ∃ value, traced.state.values.heap slot = .byte value := by
  obtain ⟨stretch, place, base, todo, frames, -, done, shape, -, -, fits⟩ := conforms
  exact fits.slots

theorem placed (conforms : Conforms tree program bottom outside floor before traced) :
    ∃ start, program.body? traced.state.place.function = some (start ++ traced.state.place.rest) := by
  obtain ⟨stretch, place, base, todo, frames, here, done, shape, split, -, -⟩ := conforms
  obtain ⟨start, placed⟩ := frames.checked.placed
  rw [here]
  exact ⟨start ++ done, by simpa [split] using placed⟩

/-- With no other calls open than at first, the machine stands in the bottom stretch. -/
theorem at_bottom (conforms : Conforms tree program bottom outside floor before traced)
    (same : traced.calls = before) : ∃ todo, bottom.At tree outside floor todo traced.state := by
  obtain ⟨stretch, place, base, todo, frames, standing⟩ := conforms
  rw [same] at frames
  cases frames with
  | bottom _ => exact ⟨todo, standing⟩
  | call outer _ _ _ _ _ _ => exact absurd outer.grows.1.length_le (by simp)

end Conforms

end TapeCode
