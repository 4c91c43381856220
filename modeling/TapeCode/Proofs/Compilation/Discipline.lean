import TapeCode.Proofs.Acceptance
import TapeCode.Proofs.Compilation.Frames

/-!
# The discipline of compiled code

A compiled program prints what its evaluation prints, and at every moment of every one of its runs, also
of those that do not end, the stack is as the code around expects it: an expression that is begun leaves
one value above the stack that it was begun on, a statement leaves nothing, and a `return` pops the
address that the innermost open call pushed and leaves the result where the arguments of that call were.
-/
namespace TapeCode

open Shape

variable {whole : TypedProgram} {tree : ScopeTree} {program : Program} {ending : EndOfInput}

/-! ## Compiled programs -/

namespace Stretch

/-- Code that may stand anywhere and leaves so many bytes. -/
def straight (function : Option Int) (code rest : Listing) (left : Nat) : Stretch :=
  ⟨function, code, rest, ⟨[], false⟩, ⟨bytes left, false⟩⟩

/-- Code that stands between statements. -/
def between (function : Option Int) (result : Option ValueType) (code rest : Listing) : Stretch :=
  ⟨function, code, rest, level result, level result⟩

end Stretch

namespace TypedProgram.IsCompiled

theorem checked (sound : whole.IsSound tree) (compiled : whole.IsCompiled tree program) :
    program.Checked tree := by
  intro id called known
  obtain ⟨index, found⟩ := List.getElem?_of_mem (List.mem_of_find?_eq_some known)
  obtain ⟨label, has, rfl⟩ := Option.map_eq_some_iff.mp (of_decide_eq_true (List.find?_some known :))
  have user := sound.scopes.user_of_label found has
  obtain ⟨source, member, rfl⟩ := List.mem_map.mp
    (sound.complete index user (List.getElem?_eq_some_iff.mp found).1)
  obtain ⟨other, body, named, there, first, last, made⟩ := compiled.body member
  obtain rfl : other = label := by
    rw [Compile.labelOf?, found, Option.bind_some, has] at named
    exact (Option.some.inj named).symm
  obtain ⟨code, rfl, scanned⟩ := function_scan sound member found made
  have tidy := Compile.function_tidy sound.scopes made
  refine ⟨code, there, ⟨[], there⟩, fun label target => ?_, ?_⟩
  · have among := (tidy.targets label).mp (by
      rw [Compile.targets_append]
      exact List.mem_append_left _ target)
    rw [Compile.labels_append] at among
    exact (List.mem_append.mp among).resolve_right List.not_mem_nil
  · exact (congrArg (called.entry.scan tree · code) (ScopeTree.resultOf?_invoked known)).trans scanned

theorem main_checked (sound : whole.IsSound tree) (compiled : whole.IsCompiled tree program) :
    (Stretch.between none none program.main []).Checked tree program := by
  obtain ⟨last, made⟩ := compiled.main
  have tidy := Compile.blockStatements_tidy sound.scopes made
  exact ⟨⟨[], by simp [Stretch.between, Program.body?]⟩, fun label => (tidy.targets label).mp,
    (blockStatements_neutral sound sound.main made).leveled⟩

end TypedProgram.IsCompiled

/-! ## From a state to an exit -/

/-- From a state on the machine goes on, and something holds, until it comes to an exit for the first time,
where something else holds. It need not come to an exit. -/
def Program.Until (program : Program) (ending : EndOfInput) (exit during ends : Traced → Prop)
    (first : Traced) : Prop :=
  ∀ passed last, Path (program.traced? ending) id first passed last →
    (∀ traced ∈ passed, ¬exit traced) →
      (exit last → ends last) ∧
        (¬exit last → during last ∧ ∃ following, program.traced? ending last = some following)

/-- Behind the code, with the same calls open as before it. -/
def Traced.Behind (first : Traced) (place : ProgramPlace) (traced : Traced) : Prop :=
  traced.calls = first.calls ∧ traced.state.place = place

/-- At a `return` of the same activation. -/
def Traced.Returns (first traced : Traced) : Prop :=
  traced.calls = first.calls ∧ ∃ more, traced.state.place.rest = .leave :: more

/-- The calls that were open are still open, and the stack below has not been touched. -/
def Traced.Above (first : Traced) (floor : List (StackValue ProgramPlace)) (traced : Traced) : Prop :=
  first.calls <:+ traced.calls ∧ floor <:+ traced.state.values.stack

/-- The stack of a state between two statements without the return address. -/
def Traced.floor (traced : Traced) (result : Option ValueType) : List (StackValue ProgramPlace) :=
  if result.isSome then traced.state.values.stack.tail else traced.state.values.stack

/-- What can be said of every moment of a run. -/
structure Disciplined (tree : ScopeTree) (program : Program) (ending : EndOfInput) (traced : Traced) :
    Prop where
  /-- An expression that is begun leaves its value, if it has one, above the stack as it was. -/
  expression : ∀ {source : TypedExpression} {home : ScopeId} {code rest : Listing}
    {function : Option Int}, source.IsSound tree home → Compile.expression tree source = .ok code →
    traced.state.place = ⟨function, code ++ rest⟩ →
    program.Until ending (traced.Behind ⟨function, rest⟩) (traced.Above traced.state.values.stack)
      (fun behind => ∃ value,
        behind.state.values.stack = source.type.pushed value traced.state.values.stack) traced
  /-- A statement that is begun leaves the stack as it was, unless it returns. -/
  statement : ∀ {source : TypedStatement} {home : ScopeId} {first last : Nat} {code rest : Listing}
    {function : Option Int}, source.IsSound tree home (tree.resultOf? function) →
    Compile.statement tree source first = .ok (code, last) →
    traced.state.place = ⟨function, code ++ rest⟩ →
    program.Until ending (fun later => traced.Behind ⟨function, rest⟩ later ∨ traced.Returns later)
      (traced.Above (traced.floor (tree.resultOf? function)))
      (fun behind => behind.state.place = ⟨function, rest⟩ →
        behind.state.values.stack = traced.state.values.stack) traced
  /-- A `return` pops the address that the innermost open call pushed, and leaves the result of the
  function in place of the arguments of that call. -/
  returns : ∀ {more : Listing}, traced.state.place.rest = .leave :: more →
    ∃ caller others id called rest arguments below value,
      traced.calls = caller :: others ∧ caller.place.rest = .invoke id :: rest ∧
      tree.invoked? id = some called ∧ traced.state.place.function = some id ∧
      arguments.length = called.parameters.length ∧
      caller.values.stack = piled arguments below ∧
      traced.state.values.stack =
        .address ⟨caller.place.function, rest⟩ :: called.result.pushed value below
  /-- The machine is not stuck. -/
  goes : Program.hasFinished traced.state = true ∨
    ∃ following, program.traced? ending traced = some following

/-- Code that conforms to its frames until it comes to its end. -/
theorem Conforms.until (wellFormed : program.WellFormed) (checked : program.Checked tree)
    {bottom : Stretch} {outside : ProgramPlace} {floor : List (StackValue ProgramPlace)}
    {first : Traced} {exit ends : Traced → Prop}
    (conforms : Conforms tree program bottom outside floor first.calls first)
    (settled : ∀ {later : Traced} {todo : Listing}, later.calls = first.calls →
      bottom.At tree outside floor todo later.state →
      ((todo = [] ∨ ∃ more, todo = .leave :: more) ↔ exit later) ∧ (exit later → ends later))
    (inside : ∀ later, exit later → later.calls = first.calls) :
    program.Until ending exit (first.Above floor) ends first := by
  have exits {later : Traced} : Exits tree bottom outside floor first.calls later → exit later :=
    fun ⟨same, _, standing, atEnd⟩ => (settled same standing).1.mp atEnd
  intro passed last path notYet
  have there := conforms.path wellFormed checked path fun later member =>
    fun leaves => notYet later member (exits leaves)
  constructor
  · intro leaves
    have same := inside last leaves
    obtain ⟨todo, standing⟩ := there.at_bottom same
    exact (settled same standing).2 leaves
  · intro stays
    obtain ⟨following, goes, -⟩ :=
      (there.step wellFormed checked).resolve_left fun leaves => stays (exits leaves)
    exact ⟨there.grows, following, goes⟩

theorem Program.Until.mono {exit during weaker ends other : Traced → Prop} {first : Traced}
    (holds : program.Until ending exit during ends first)
    (whileInside : ∀ traced, during traced → weaker traced)
    (atExit : ∀ traced, ends traced → other traced) :
    program.Until ending exit weaker other first := by
  intro passed last path notYet
  obtain ⟨leaves, stays⟩ := holds passed last path notYet
  exact ⟨fun exits => atExit last (leaves exits), fun inside =>
    ⟨whileInside last (stays inside).1, (stays inside).2⟩⟩

/-- Where the exits of a stretch are. -/
theorem Stretch.At.exit_iff {stretch : Stretch} {place : ProgramPlace}
    {base : List (StackValue ProgramPlace)} {todo : Listing} {state : ProgramState}
    (standing : stretch.At tree place base todo state) :
    (todo = [] ↔ state.place = ⟨stretch.function, stretch.rest⟩) ∧
      ((todo = [] ∨ ∃ more, todo = .leave :: more) ↔
        state.place = ⟨stretch.function, stretch.rest⟩ ∨ ∃ more, state.place.rest = .leave :: more) := by
  have empty : todo = [] ↔ state.place = ⟨stretch.function, stretch.rest⟩ := by
    rw [standing.here, ProgramPlace.mk.injEq]
    simp
  refine ⟨empty, ?_⟩
  rw [← empty, standing.here]
  cases todo with
  | nil => simp
  | cons instruction todo => simp

/-- The code of a stretch from its beginning on. -/
theorem Stretch.Checked.until (wellFormed : program.WellFormed) (checked : program.Checked tree)
    {stretch : Stretch} {place : ProgramPlace} {base : List (StackValue ProgramPlace)} {traced : Traced}
    (codeChecked : stretch.Checked tree program)
    (here : traced.state.place = ⟨stretch.function, stretch.code ++ stretch.rest⟩)
    (fits : stretch.first.Fits place base traced.state.values) :
    program.Until ending
      (fun later => traced.Behind ⟨stretch.function, stretch.rest⟩ later ∨ traced.Returns later)
      (traced.Above base) (fun later => later.state.place = ⟨stretch.function, stretch.rest⟩ →
        stretch.last.Fits place base later.state.values) traced := by
  refine Conforms.until wellFormed checked
    ⟨_, _, _, _, .bottom codeChecked, here, [], _, rfl, rfl, fits⟩ ?_ fun later => Or.rec And.left And.left
  intro later todo same standing
  obtain ⟨behind, exit⟩ := standing.exit_iff
  refine ⟨exit.trans ?_, fun _ there => ?_⟩
  · simp only [Traced.Behind, Traced.Returns, same, true_and]
  · obtain rfl := behind.mpr there
    exact standing.fits_last codeChecked

/-- Code of instructions that go on to the next one leaves its bytes above the stack as it was. -/
theorem Conforms.straight (wellFormed : program.WellFormed) (checked : program.Checked tree)
    {bottom : Stretch} {outside : ProgramPlace} {floor : List (StackValue ProgramPlace)}
    {before : List ProgramState} {traced : Traced}
    (conforms : Conforms tree program bottom outside floor before traced)
    {code rest : Listing} {function : Option Int} {type : ValueType}
    (plain : ∀ instruction ∈ code, Compile.IsPlain tree instruction)
    (replaces : Replaces tree code 0 type.height)
    (here : traced.state.place = ⟨function, code ++ rest⟩) :
    program.Until ending (traced.Behind ⟨function, rest⟩) (traced.Above traced.state.values.stack)
      (fun behind => ∃ value,
        behind.state.values.stack = type.pushed value traced.state.values.stack) traced := by
  obtain ⟨start, placed⟩ := conforms.placed
  rw [here] at placed
  have codeChecked : (Stretch.straight function code rest type.height).Checked tree program := by
    refine ⟨⟨start, placed⟩, by simp [Stretch.straight, Compile.targets_eq_nil plain], ?_⟩
    simpa [Stretch.straight, bytes_zero] using replaces (tree.resultOf? function) []
  have begins : Conforms tree program (.straight function code rest type.height) ⟨none, []⟩
      traced.state.values.stack traced.calls traced :=
    ⟨_, _, _, code, .bottom codeChecked, here, [], _, rfl, rfl, .base, conforms.slots, nofun⟩
  refine begins.until wellFormed checked ?_ fun later => And.left
  intro later todo same standing
  -- None of these instructions is a `return`, so the only exit is the end of the code.
  have stays : ¬∃ more, todo = .leave :: more := by
    rintro ⟨more, rfl⟩
    rcases plain _ standing.mem with body | ⟨called, -, label, -, same⟩
    · cases body
    · cases same
  have behind : todo = [] ↔ later.state.place = ⟨function, rest⟩ := standing.exit_iff.1
  refine ⟨?_, fun leaves => ?_⟩
  · simp only [stays, or_false, behind, Traced.Behind, same, true_and]
  · obtain rfl := behind.mpr leaves.2
    exact (standing.fits_last codeChecked).stack.pushed

/-- The main block from its start on. -/
abbrev Conforms.Main (tree : ScopeTree) (program : Program) (traced : Traced) : Prop :=
  Conforms tree program (.between none none program.main []) ⟨none, []⟩ [] [] traced

/-- The code from any place of a function on leads from the shape of that place to a shape between
statements. -/
theorem Frames.scans {outside place : ProgramPlace} {floor base : List (StackValue ProgramPlace)}
    {stretch : Stretch} {calls : List ProgramState}
    (frames : Frames tree program (.between none none program.main []) outside floor [] calls stretch
      place base) :
    ∃ shape, stretch.last.scan tree (tree.resultOf? stretch.function) stretch.rest = some shape := by
  cases frames with
  | bottom _ => exact ⟨_, rfl⟩
  | call _ _ known _ _ _ _ =>
    simp only [Stretch.ofFunction, ScopeTree.resultOf?_invoked known]
    exact ⟨_, by simp [scan, after?]; rfl⟩

theorem Traced.floor_suffix (traced : Traced) (result : Option ValueType) :
    traced.floor result <:+ traced.state.values.stack := by
  unfold floor
  split
  · exact List.tail_suffix _
  · exact List.suffix_refl _

/-- Where the code of a statement that branches or returns begins, the machine stands between two
statements. -/
theorem Conforms.Main.leveled {traced : Traced} (conforms : Conforms.Main tree program traced)
    {code rest : Listing} {function : Option Int}
    (allowed : ∀ instruction ∈ code, Compile.IsPlain tree instruction ∨ Compile.IsFlow instruction)
    (flow : ∃ instruction ∈ code, Compile.IsFlow instruction)
    (neutral : Neutral tree (tree.resultOf? function) code)
    (here : traced.state.place = ⟨function, code ++ rest⟩) :
    ∃ place base, (level (tree.resultOf? function)).Fits place base traced.state.values := by
  obtain ⟨stretch, place, base, todo, frames, there, done, shape, split, scanned, fits⟩ := conforms
  obtain ⟨rfl, same⟩ := ProgramPlace.mk.inj (there.symm.trans here)
  obtain ⟨final, behind⟩ := frames.scans
  have onwards := frames.checked.scanned
  rw [split, scan_append, scanned, Option.bind_some] at onwards
  have whole : shape.scan tree (tree.resultOf? stretch.function) (code ++ rest) = some final := by
    rw [← same, scan_append, onwards, Option.bind_some, behind]
  rw [scan_append] at whole
  obtain ⟨next, scannedCode, -⟩ := Option.bind_eq_some_iff.mp whole
  obtain rfl := scan_unique allowed flow scannedCode neutral.leveled
  exact ⟨place, base, fits⟩

theorem Conforms.Main.statement (sound : whole.IsSound tree) (wellFormed : program.WellFormed)
    (checked : program.Checked tree) {traced : Traced} (conforms : Conforms.Main tree program traced)
    {source : TypedStatement} {home : ScopeId} {first last : Nat} {code rest : Listing}
    {function : Option Int} (typed : source.IsSound tree home (tree.resultOf? function))
    (made : Compile.statement tree source first = .ok (code, last))
    (here : traced.state.place = ⟨function, code ++ rest⟩) :
    program.Until ending (fun later => traced.Behind ⟨function, rest⟩ later ∨ traced.Returns later)
      (traced.Above (traced.floor (tree.resultOf? function)))
      (fun behind => behind.state.place = ⟨function, rest⟩ →
        behind.state.values.stack = traced.state.values.stack) traced := by
  have neutral := statement_neutral sound typed made
  have tidy := Compile.statement_tidy sound.scopes made
  have closed : ∀ label ∈ Listing.targets code, label ∈ Listing.labels code :=
    fun label => (tidy.targets label).mp
  obtain ⟨start, placed⟩ := conforms.placed
  rw [here] at placed
  -- Code that leads nowhere may stand above any bytes; code with jumps stands where statements begin.
  by_cases goes : ∀ instruction ∈ code, ¬Compile.IsFlow instruction
  · have codeChecked : (Stretch.straight function code rest 0).Checked tree program :=
      ⟨⟨start, placed⟩, closed, neutral.straight goes _ []⟩
    have fits : (Stretch.straight function code rest 0).first.Fits ⟨none, []⟩
        traced.state.values.stack traced.state.values := ⟨.base, conforms.slots, nofun⟩
    exact (codeChecked.until wellFormed checked here fits).mono
      (fun later above => ⟨above.1, (traced.floor_suffix _).trans above.2⟩)
      fun later ends there => (ends there).stack.eq_base
  · have flow : ∃ instruction ∈ code, Compile.IsFlow instruction := by simpa using goes
    obtain ⟨place, base, fits⟩ := conforms.leveled tidy.allowed flow neutral here
    have codeChecked : (Stretch.between function (tree.resultOf? function) code rest).Checked tree
        program := ⟨⟨start, placed⟩, closed, neutral.leveled⟩
    have floor : traced.floor (tree.resultOf? function) = base := by
      rw [Traced.floor, fits.leveled]
      split <;> rfl
    rw [floor]
    exact (codeChecked.until wellFormed checked here fits).mono (fun later above => above)
      fun later ends there => (ends there).leveled.trans fits.leveled.symm

theorem Conforms.Main.returns {traced : Traced} (conforms : Conforms.Main tree program traced)
    {more : Listing} (here : traced.state.place.rest = .leave :: more) :
    ∃ caller others id called rest arguments below value,
      traced.calls = caller :: others ∧ caller.place.rest = .invoke id :: rest ∧
      tree.invoked? id = some called ∧ traced.state.place.function = some id ∧
      arguments.length = called.parameters.length ∧
      caller.values.stack = piled arguments below ∧
      traced.state.values.stack =
        .address ⟨caller.place.function, rest⟩ :: called.result.pushed value below := by
  obtain ⟨state, calls⟩ := traced
  obtain ⟨stretch, place, base, todo, frames, standing⟩ := conforms
  cases frames with
  | bottom checked =>
    -- The main block has no return.
    exfalso
    cases todo with
    | nil => exact absurd (here.symm.trans (congrArg (·.rest) standing.here)) nofun
    | cons instruction todo =>
      obtain ⟨rfl, -⟩ := List.cons.inj (here.symm.trans (congrArg (·.rest) standing.here))
      obtain ⟨shape, next, after, -⟩ := standing.next checked
      cases after
  | @call calls outerStretch place outerBase _ caller id called todo' code arguments outer waits known
      checked count given above =>
    obtain ⟨value, onTop⟩ := (standing.fits_leaving known checked here).result
    refine ⟨caller, calls, id, called, todo' ++ outerStretch.rest, arguments.reverse, base, value, rfl,
      congrArg (·.rest) waits.here, known, congrArg (·.function) standing.here, by simpa using count, ?_, ?_⟩
    · simpa [piled] using given
    · rw [onTop, congrArg (·.function) waits.here]

/-- The only exit of the main block is its end. -/
theorem Exits.finished {traced : Traced}
    (checked : (Stretch.between none none program.main []).Checked tree program)
    (exits : Exits tree (.between none none program.main []) ⟨none, []⟩ [] [] traced) :
    traced.state.place = ⟨none, []⟩ := by
  obtain ⟨-, todo, standing, rfl | ⟨more, rfl⟩⟩ := exits
  · exact standing.here
  · obtain ⟨shape, next, after, -⟩ := standing.next checked
    cases after

theorem TypedProgram.IsCompiled.conforms (sound : whole.IsSound tree)
    (compiled : whole.IsCompiled tree program) {input : List UInt8} {passed : List Traced}
    {traced : Traced}
    (path : Path (program.traced? ending) id ⟨program.start input, []⟩ passed traced) :
    Conforms.Main tree program traced := by
  have mainChecked := compiled.main_checked sound
  have begins : Conforms.Main tree program ⟨program.start input, []⟩ :=
    ⟨_, _, _, program.main, .bottom mainChecked, by simp [Stretch.between, Program.start], [], _, rfl,
      rfl, .base, fun slot _ => ⟨0, rfl⟩, nofun⟩
  refine begins.path (compiled.wellFormed sound) (compiled.checked sound) path fun later member exits => ?_
  obtain ⟨following, stepped⟩ := path.goes_on later member
  simp [Program.traced?, Program.step?, exits.finished mainChecked] at stepped

/-- At every moment of a run of the program. -/
theorem TypedProgram.IsCompiled.disciplined (sound : whole.IsSound tree)
    (compiled : whole.IsCompiled tree program) {input : List UInt8} {passed : List Traced}
    {traced : Traced}
    (path : Path (program.traced? ending) id ⟨program.start input, []⟩ passed traced) :
    Disciplined tree program ending traced := by
  have wellFormed := compiled.wellFormed sound
  have checked := compiled.checked sound
  have conforms := compiled.conforms sound path
  refine ⟨fun typed made here => ?_, fun typed made here => ?_, conforms.returns, ?_⟩
  · exact conforms.straight wellFormed checked (Compile.expression_plain sound.scopes made)
      (expression_replaces sound typed made) here
  · exact conforms.statement sound wellFormed checked typed made here
  · rcases conforms.step wellFormed checked with exits | ⟨following, goes, -⟩
    · refine .inl ?_
      rw [Program.hasFinished, exits.finished (compiled.main_checked sound)]
      rfl
    · exact .inr ⟨following, goes⟩

/-! ## Source texts -/

theorem Program.runFor_of_leads {first last : ProgramState} (leads : program.Leads ending first last)
    (finished : hasFinished last = true) : ∃ turns, program.runFor ending turns first = some last := by
  obtain ⟨places, path⟩ := leads
  induction path with
  | here => exact ⟨0, if_pos finished⟩
  | @next state following last places stepped onwards ih =>
    obtain ⟨turns, runs⟩ := ih finished
    have goesOn : ¬hasFinished state = true := by
      intro already
      have none : state.place.rest = [] :=
        List.isEmpty_iff.mp (Bool.and_eq_true_iff.mp already).2
      simp [step?, none] at stepped
    exact ⟨turns + 1, by rw [runFor, if_neg goesOn, stepped, Option.bind_some, runs]⟩

namespace Build

/-- The program of a source text prints what its evaluation prints, and it keeps the discipline of the
stack at every moment of all its runs. -/
theorem resolved_keepsDiscipline {source : String} {typed : TypedProgram} {scopes : ScopeTree}
    (resolves : Resolves source typed scopes) : ∃ program, typed.compile scopes = .ok program ∧
      ∀ (ending : EndOfInput) (input : List UInt8),
        (∀ budget output, typed.evaluate scopes ending budget input = some output →
          ∃ turns last, program.runFor ending turns (program.start input) = some last ∧
            last.values.output = output) ∧
        ∀ passed traced,
          Path (program.traced? ending) id ⟨program.start input, []⟩ passed traced →
          Disciplined scopes program ending traced := by
  have sound := resolves.sound
  obtain ⟨program, made⟩ := sound.compiles
  have compiled := TypedProgram.compile_eq_ok sound made
  refine ⟨program, made, fun ending input => ⟨fun budget output evaluated => ?_, fun passed traced =>
    compiled.disciplined sound⟩⟩
  obtain ⟨last, leads, finished, same⟩ := compiled.runs sound evaluated
  obtain ⟨turns, runs⟩ := Program.runFor_of_leads leads finished
  exact ⟨turns, last, runs, same⟩

theorem resolved_keepsDiscipline_callingSource : ∃ typed scopes program,
    Resolves callingSource typed scopes ∧ typed.compile scopes = .ok program ∧
      typed.evaluate scopes .zero 10 [] = some [49] ∧
      (∃ turns last, program.runFor .zero turns (program.start []) = some last ∧
        last.values.output = [49]) ∧
      ∀ passed traced, Path (program.traced? .zero) id ⟨program.start [], []⟩ passed traced →
        Disciplined scopes program .zero traced := by
  obtain ⟨typed, scopes, resolves, evaluated⟩ := callingSource_resolves
  obtain ⟨program, made, keeps⟩ := resolved_keepsDiscipline resolves
  obtain ⟨prints, disciplined⟩ := keeps .zero []
  exact ⟨typed, scopes, program, resolves, made, evaluated, prints 10 [49] evaluated, disciplined⟩

end Build

end TapeCode
