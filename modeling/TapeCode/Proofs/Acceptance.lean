import TapeCode.Proofs.Compilation.Heights
import TapeCode.Proofs.Compilation.Total
import TapeCode.Proofs.Lowering.Contents

/-!
# What resolution accepts becomes code

After a source text has been read and resolved, no later stage refuses it for what it says: compilation,
the check of the stack and lowering succeed, and the writer refuses only a state machine with more cases
than the numbers of its dispatch can tell apart.
-/
namespace TapeCode

/-! ## Writing -/

namespace Writer

variable {style : CodeStyle} {opened : List OpenMachine}

theorem listing_emits {listing : Listing} (body : listing.all (·.isBody) = true)
    (style : CodeStyle) (opened : List OpenMachine) :
    ∃ text, Emits style opened listing text opened := by
  induction listing with
  | nil => exact ⟨[], .nil⟩
  | cons instruction rest ih =>
    simp only [List.all_cons, Bool.and_eq_true] at body
    obtain ⟨text, written, -⟩ := @instruction_runs .zero style opened instruction body.1
    obtain ⟨more, emits⟩ := ih body.2
    exact ⟨_, .cons (perform_effects style written) emits⟩

theorem case_emits {cases : List MachineCase} (few : cases.length ≤ 127) {index : Nat}
    {source : MachineCase} (found : cases[index]? = some source)
    (proper : source.isProper cases.length = true) (style : CodeStyle) :
    ∃ text, Emits style [⟨index, cases.length⟩] source.listing text
      [⟨(index + 1 : Nat), cases.length⟩] := by
  obtain ⟨inside, -⟩ := List.getElem?_eq_some_iff.mp found
  simp only [MachineCase.isProper, Bool.and_eq_true] at proper
  have begin : Emits style [⟨index, cases.length⟩] [.fsmCase] _ [⟨(index + 1 : Nat), cases.length⟩] :=
    .single (by simp [bodyEffects, caseEffects, perform]; rfl)
  obtain ⟨body, bodyEmits⟩ := listing_emits proper.1 style [⟨(index + 1 : Nat), cases.length⟩]
  obtain ⟨dispatch, performed, -⟩ :=
    dispatch_runs .zero style [] few (Nat.succ_pos index) inside proper.2
  exact ⟨_, begin.append (bodyEmits.append (.single performed))⟩

theorem cases_emit {cases : List MachineCase} (few : cases.length ≤ 127)
    (proper : ∀ source ∈ cases, source.isProper cases.length = true) (style : CodeStyle)
    (count : Nat) (within : count ≤ cases.length) :
    ∃ text, Emits style [⟨0, cases.length⟩] ((cases.take count).flatMap (·.listing)) text
      [⟨count, cases.length⟩] := by
  induction count with
  | zero => exact ⟨[], .nil⟩
  | succ count ih =>
    obtain ⟨text, emits⟩ := ih (Nat.le_of_succ_le within)
    have found := List.getElem?_eq_getElem (Nat.lt_of_succ_le within)
    obtain ⟨last, lastEmits⟩ :=
      case_emits few found (proper _ (List.getElem_mem _)) style
    refine ⟨text ++ last, ?_⟩
    rw [List.take_add_one, found, Option.toList_some, List.flatMap_append, List.flatMap_singleton]
    exact emits.append lastEmits

theorem machine_emits {cases : List MachineCase} (few : cases.length ≤ 127)
    (proper : ∀ source ∈ cases, source.isProper cases.length = true) (style : CodeStyle) :
    ∃ text, Emits style [] (machineListing cases) text [] := by
  have fewCases : ¬Dispatch.mostCases < cases.length := by
    rw [Dispatch.mostCases]
    omega
  have begin : Emits style [] [.fsmBegin cases.length] _ [⟨0, cases.length⟩] :=
    .single (by simp [bodyEffects, beginEffects, perform, fewCases]; rfl)
  have finish : Emits style [⟨cases.length, cases.length⟩] [.fsmEnd] _ [] :=
    .single (by simp [bodyEffects, endEffects, perform]; rfl)
  obtain ⟨text, emits⟩ := cases_emit few proper style cases.length (Nat.le_refl _)
  rw [List.take_length] at emits
  exact ⟨_, begin.append (emits.append finish)⟩

theorem generate_of_emits {stream : Listing} {text : List Char}
    (emits : Emits style [] stream text []) : ∃ code, generate style stream = .ok code :=
  ⟨_, by rw [generate, emits.streamCode]; rfl⟩

/-- A state machine with too many cases is refused before anything else is. -/
theorem generate_tooManyCases {cases : List MachineCase} (many : 127 < cases.length)
    (style : CodeStyle) :
    generate style (machineListing cases) = .error (.tooManyCases cases.length) := by
  have tooMany : Dispatch.mostCases < cases.length := by
    rw [Dispatch.mostCases]
    omega
  have fails : (perform [] (effects style [] (.fsmBegin cases.length))).failure =
      some (.tooManyCases cases.length) := by
    cases point : style.debugBreakpoint <;> cases info : style.debugInfo <;>
      simp [effects, commentLine, bodyEffects, beginEffects, perform, point, info, tooMany]
  have refused : streamCode style [] (machineListing cases) = .error (.tooManyCases cases.length) := by
    rw [machineListing, List.cons_append, streamCode, fails]
  rw [generate, refused]
  rfl

end Writer

/-! ## Counting cases -/

theorem count_case_of_body {listing : Listing} (body : listing.all (·.isBody) = true) :
    listing.count .fsmCase = 0 := by
  refine List.count_eq_zero.mpr fun member => ?_
  have computes := List.all_eq_true.mp body _ member
  cases computes

theorem count_machineListing {cases : List MachineCase} {count : Nat}
    (proper : ∀ source ∈ cases, source.isProper count = true) :
    (machineListing cases).count .fsmCase = cases.length := by
  have each : ∀ source ∈ cases, source.listing.count .fsmCase = 1 := by
    intro source member
    have body := proper source member
    simp only [MachineCase.isProper, Bool.and_eq_true] at body
    have none := count_case_of_body body.1
    obtain ⟨body, dispatch⟩ := source
    cases dispatch <;> simp [MachineCase.listing, CaseDispatch.instruction, none]
  have whole : (cases.flatMap (·.listing)).count .fsmCase = cases.length := by
    induction cases with
    | nil => rfl
    | cons first rest ih =>
      obtain ⟨one, others⟩ := List.forall_mem_cons.mp each
      obtain ⟨-, properRest⟩ := List.forall_mem_cons.mp proper
      rw [List.flatMap_cons, List.count_append, one, ih properRest others, List.length_cons,
        Nat.add_comm]
  simp [machineListing, whole]

/-! ## From a compiled program to its code -/

namespace TypedProgram.IsCompiled

variable {source : TypedProgram} {tree : ScopeTree} {program : Program}

theorem computes (sound : source.IsSound tree) (compiled : source.IsCompiled tree program) :
    program.Computes := by
  intro body member instruction inside ordinary
  obtain ⟨first, last, tidy⟩ := compiled.tidy sound member
  exact Compile.body_of_allowed (tidy.allowed instruction inside) ordinary

/-- Every label of the main block is jumped to. -/
theorem labels_used (sound : source.IsSound tree) (compiled : source.IsCompiled tree program) :
    ∀ label ∈ Listing.labels program.main, ∃ instruction ∈ program.main,
      instruction.jumpTarget? = some label := by
  intro label member
  obtain ⟨first, last, tidy⟩ := compiled.tidy sound List.mem_cons_self
  exact List.mem_filterMap.mp ((tidy.targets label).mpr member)

/-- The stream of a compiled program is written, unless it has too many cases. -/
theorem generates (sound : source.IsSound tree) (compiled : source.IsCompiled tree program) :
    ∃ stream, program.lower = .ok stream ∧ ∀ style : CodeStyle,
      (stream.count .fsmCase ≤ 127 → ∃ code, Writer.generate style stream = .ok code) ∧
        (127 < stream.count .fsmCase → Writer.generate style stream =
          .error (.tooManyCases (stream.count .fsmCase))) := by
  have wellFormed := compiled.wellFormed sound
  obtain ⟨stream, cases, lowered, means, ordinary⟩ := Program.lower_means wellFormed
  refine ⟨stream, lowered, fun style => ?_⟩
  rcases Program.lower_proper wellFormed (compiled.computes sound) (compiled.labels_used sound) lowered
    means ordinary with ⟨rfl, proper⟩ | ⟨body, -⟩
  · rw [count_machineListing proper]
    refine ⟨fun few => ?_, fun many => Writer.generate_tooManyCases many style⟩
    obtain ⟨text, emits⟩ := Writer.machine_emits few proper style
    exact Writer.generate_of_emits emits
  · refine ⟨fun _ => ?_, fun many => ?_⟩
    · obtain ⟨text, emits⟩ := Writer.listing_emits body style []
      exact Writer.generate_of_emits emits
    · rw [count_case_of_body body] at many
      omega

end TypedProgram.IsCompiled

namespace Build

/-- What can be read and resolved becomes code, whatever the style of the code, unless the state machine
of its stream has more than 127 cases. -/
theorem resolved_compiles {source : String} {typed : TypedProgram} {scopes : ScopeTree}
    (resolves : Resolves source typed scopes) :
    ∃ program height stream, typed.compile scopes = .ok program ∧
      StackHeight.check program.main 0 = .ok height ∧ program.lower = .ok stream ∧
      ∀ style : CodeStyle,
        (stream.count .fsmCase ≤ 127 → ∃ code, Writer.generate style stream = .ok code) ∧
          (127 < stream.count .fsmCase → Writer.generate style stream =
            .error (.tooManyCases (stream.count .fsmCase))) := by
  have sound := resolves.sound
  obtain ⟨program, made⟩ := sound.compiles
  have compiled := TypedProgram.compile_eq_ok sound made
  obtain ⟨height, checked⟩ := compiled.checks sound
  obtain ⟨stream, lowered, written⟩ := compiled.generates sound
  exact ⟨program, height, stream, made, checked, lowered, written⟩

/-- A function, and a call of it in the main block. -/
def callingSource : String := "func one(): int \x7b return 1; \x7d printNumber(one());"

theorem callingSource_resolves : ∃ typed scopes, Resolves callingSource typed scopes ∧
    typed.evaluate scopes .zero 10 [] = some [49] := by
  decide +kernel

theorem resolved_compiles_callingSource : ∃ typed scopes, Resolves callingSource typed scopes ∧
    ∃ program height stream, typed.compile scopes = .ok program ∧
      StackHeight.check program.main 0 = .ok height ∧ program.lower = .ok stream ∧
      ∀ style : CodeStyle,
        (stream.count .fsmCase ≤ 127 → ∃ code, Writer.generate style stream = .ok code) ∧
          (127 < stream.count .fsmCase → Writer.generate style stream =
            .error (.tooManyCases (stream.count .fsmCase))) := by
  obtain ⟨typed, scopes, resolves, -⟩ := callingSource_resolves
  exact ⟨typed, scopes, resolves, resolved_compiles resolves⟩

end Build

end TapeCode
