import TapeCode.Proofs.Emission
import TapeCode.Proofs.Lowering.Contents

/-!
# What lowering leaves over

The writer knows no labels and no transfers, and lowering is there to remove them. It does so whenever
it makes a state machine. A stream of a single run that ends without a transfer stays as it is, though,
and with it the label that it may start with. So the programs of which lowering leaves something over
are those whose main block is a label with a straight line of instructions behind it, and the writer
refuses exactly these as unsupported.
-/
namespace TapeCode

/-- Labels and transfers, which tell where control goes and have no tape code of their own. -/
def Instruction.isControl (instruction : Instruction) : Bool :=
  instruction.label?.isSome || instruction.isTransfer

theorem Instruction.isControl_eq_false {instruction : Instruction} :
    instruction.isControl = false ↔
      instruction.label? = none ∧ instruction.isTransfer = false := by
  simp [isControl]

/-- A label with a straight line of instructions behind it. -/
def Listing.IsLabelledLine (listing : Listing) : Prop :=
  ∃ id line, listing = .label id :: line ∧ ∀ instruction ∈ line, instruction.isControl = false

/-! ## State machines -/

namespace Cases

variable {all : List Listing} {stream code : Listing} {number : Nat}

/-- The dispatches of a state machine are no labels and no transfers, and neither is what the bodies of
its cases hold. -/
theorem cases_control {rest : List Listing} (cut : ∀ run ∈ rest, run ∈ runs stream)
    (made : cases all number rest = .ok code) :
    ∀ instruction ∈ code, instruction.isControl = false := by
  intro instruction member
  rcases mem_cases made member with ⟨run, among, inside⟩ | rfl | ⟨dispatch, rfl⟩
  · exact Instruction.isControl_eq_false.mpr (runBody_ordinary (cut run among) inside).2
  · rfl
  · cases dispatch <;> rfl

/-- A run without a transfer at its end is a straight line, perhaps behind a label. -/
theorem straight_of_run {run : Listing} (cut : run ∈ runs stream) (stops : transfer? run = none) :
    run.IsLabelledLine ∨ ∀ instruction ∈ run, instruction.isControl = false := by
  have plain : ∀ instruction ∈ unlabelled run, instruction.isControl = false := by
    intro instruction member
    refine Instruction.isControl_eq_false.mpr (runBody_ordinary cut ?_).2
    simpa [runBody, body, stops] using member
  cases labelled : label? run with
  | none =>
    rw [unlabelled_of_none labelled] at plain
    exact .inr plain
  | some id =>
    cases run with
    | nil => cases labelled
    | cons first line =>
      obtain rfl : first = .label id := Instruction.label?_eq_some.mp labelled
      exact .inl ⟨id, line, rfl, plain⟩

/-- Where a label or a transfer is left, the stream has stayed as it is. -/
theorem ofStream_control (made : ofStream stream = .ok code)
    (left : ∃ instruction ∈ code, instruction.isControl = true) :
    code = stream ∧ stream.IsLabelledLine := by
  obtain ⟨instruction, member, control⟩ := left
  rcases ofStream_eq_ok made with ⟨rfl, whole⟩ | ⟨inner, madeInner, rfl⟩
  · obtain ⟨run, others, cut⟩ :=
      List.exists_cons_of_ne_nil (runs_ne_nil (List.ne_nil_of_mem member))
    have first : run ∈ runs code := cut ▸ List.mem_cons_self
    obtain ⟨rfl, stops⟩ := whole run first
    refine ⟨rfl, (straight_of_run first stops).resolve_right fun plain => ?_⟩
    simp [plain instruction member] at control
  · have plain := cases_control (fun _ among => among) madeInner
    simp only [List.mem_append, List.mem_cons, List.not_mem_nil, or_false] at member
    rcases member with (rfl | inside) | rfl
    · cases control
    · simp [plain instruction inside] at control
    · cases control

/-- A straight line is cut nowhere. -/
theorem runs_line {first : Instruction} {line : Listing} (stays : first.isTransfer = false)
    (plain : ∀ instruction ∈ line, instruction.isControl = false) :
    runs (first :: line) = [first :: line] := by
  induction line generalizing first with
  | nil => rfl
  | cons next line ih =>
    obtain ⟨here, later⟩ := List.forall_mem_cons.mp plain
    obtain ⟨bare, nextStays⟩ := Instruction.isControl_eq_false.mp here
    have continues : endsRun first (next :: line) = false := by simp [endsRun, label?, stays, bare]
    obtain ⟨run, others, split, joined⟩ := runs_cons_continues continues
    rw [ih nextStays later, List.cons.injEq] at split
    rw [joined, ← split.1, ← split.2]

theorem ofStream_labelledLine (labelled : stream.IsLabelledLine) : ofStream stream = .ok stream := by
  obtain ⟨id, line, rfl, plain⟩ := labelled
  have stops : transfer? (.label id :: line) = none := by
    refine Option.filter_eq_none_iff.mpr fun last found => ?_
    have inside : last ∈ line := List.mem_of_getLast? found
    simpa using (Instruction.isControl_eq_false.mp (plain last inside)).2
  have single : runs (.label id :: line) = [.label id :: line] := runs_line rfl plain
  simp [ofStream, single, stops]

end Cases

/-! ## The writer -/

namespace Writer

variable {style : CodeStyle} {opened : List OpenMachine} {name : String}

/-- An effect that fails is one of those performed. -/
theorem fail_mem_of_failure {effects : List Effect} {error : EmitError}
    (failed : (perform opened effects).failure = some error) : .fail error ∈ effects := by
  induction effects generalizing opened with
  | nil => cases failed
  | cons effect rest ih =>
    cases effect with
    | write text => exact List.mem_cons_of_mem _ (ih failed)
    | machines inner => exact List.mem_cons_of_mem _ (ih failed)
    | fail other =>
      obtain rfl := Option.some.inj failed
      exact List.mem_cons_self

theorem offset_supported {other : String} {target : Int} {error : EmitError}
    (failed : offset opened other target = .error error) : error ≠ .unsupported name := by
  unfold offset at failed
  split at failed
  · cases failed
    nofun
  next machine outer =>
    cases number : Dispatch.caseOffset machine.begun target machine.count with
    | ok => rw [number] at failed; cases failed
    | error => rw [number] at failed; cases failed; nofun

theorem jump_supported {target : Int} :
    .fail (.unsupported name) ∉ jumpEffects opened target := by
  unfold jumpEffects
  split
  next failed => simpa using (offset_supported failed).symm
  next => simp

theorem heap_supported {code : Template.HeapWalk → List Char} {layout : List Int} :
    .fail (.unsupported name) ∉ heapEffects code layout := by
  unfold heapEffects
  split <;> simp

/-- Of all instructions only labels and transfers are unsupported. -/
theorem control_of_unsupported {instruction : Instruction}
    (fails : .fail (.unsupported name) ∈ bodyEffects style opened instruction) :
    instruction.isControl = true := by
  cases instruction with
  | jump | jumpIf | label | invoke | leave => rfl
  | fsmJump target => exact absurd fails jump_supported
  | fsmIf nonzero zero =>
    simp only [bodyEffects, branchEffects] at fails
    split at fails
    next failed => exact absurd (by simpa using fails) (offset_supported failed).symm
    next failed => exact absurd (by simpa using fails) (offset_supported failed).symm
    next => simp at fails
  | fsmCall target =>
    simp only [bodyEffects, callEffects] at fails
    split at fails
    · simp at fails
    · exact absurd (by simpa using fails) jump_supported
  | fsmBegin | fsmEnd | fsmCase | fsmReturn =>
    simp only [bodyEffects, beginEffects, endEffects, caseEffects, returnEffects] at fails
    repeat' split at fails
    all_goals simp at fails
  | readLocal layout | writeLocal layout | clearLocal layout => exact absurd fails heap_supported
  | _ => simp [bodyEffects] at fails

/-- The writer refuses an instruction as unsupported only if there is a label or a transfer. -/
theorem streamCode_unsupported {stream : Listing}
    (refused : streamCode style opened stream = .error (.unsupported name)) :
    ∃ instruction ∈ stream, instruction.isControl = true := by
  induction stream generalizing opened with
  | nil =>
    unfold streamCode at refused
    split at refused <;> cases refused
  | cons instruction rest ih =>
    generalize body : perform opened (bodyEffects style opened instruction) = emission
    obtain ⟨text, after, failure⟩ := emission
    cases failure with
    | some error =>
      rw [streamCode_cons_failing style body] at refused
      obtain rfl := Except.error.inj refused
      have fails := fail_mem_of_failure (congrArg Emission.failure body)
      exact ⟨instruction, List.mem_cons_self, control_of_unsupported fails⟩
    | none =>
      rw [streamCode_cons style body] at refused
      cases streamed : streamCode style after rest with
      | ok text => rw [streamed] at refused; cases refused
      | error error =>
        rw [streamed] at refused
        obtain rfl := Except.error.inj refused
        obtain ⟨other, member, control⟩ := ih streamed
        exact ⟨other, List.mem_cons_of_mem _ member, control⟩

theorem generate_label (style : CodeStyle) (id : Int) (rest : Listing) :
    generate style (.label id :: rest) = .error (.unsupported Opcode.label.name) := by
  have fails : perform [] (bodyEffects style [] (.label id)) =
    ⟨[], [], some (.unsupported Opcode.label.name)⟩ := rfl
  rw [generate_eq, streamCode_cons_failing style fails]
  rfl

end Writer

/-! ## Programs -/

namespace Program

variable {program : Program} {stream : Listing}

theorem lower_labelledLine (labelled : program.main.IsLabelledLine) :
    program.lower = .ok program.main := by
  have uncalled : program.main.calls = [] := by
    refine List.eq_nil_iff_forall_not_mem.mpr fun id found => ?_
    obtain ⟨first, line, main, plain⟩ := labelled
    have called := Listing.mem_calls.mp found
    rw [main] at called
    rcases List.mem_cons.mp called with first | later
    · cases first
    · cases plain _ later
  exact Except.bind_eq_ok.mpr ⟨program.main, Flat.flatten_uncalled uncalled,
    Cases.ofStream_labelledLine labelled⟩

/-- The jump over the bodies of functions is no part of a straight line. -/
theorem main_of_flatten_labelledLine
    (made : Flat.flatten program.main program.functions program.nextLabel = .ok stream)
    (labelled : stream.IsLabelledLine) : program.main.IsLabelledLine := by
  unfold Flat.flatten at made
  split at made
  next =>
    obtain rfl := Except.ok.inj made
    exact labelled
  next =>
    obtain ⟨bodies, -, made⟩ := Except.bind_eq_ok.mp made
    obtain ⟨id, line, split, plain⟩ := labelled
    rw [← Except.ok.inj made] at split
    have jumps : Instruction.jump program.nextLabel ∈ Instruction.label id :: line := by
      rw [← split]
      simp
    rcases List.mem_cons.mp jumps with first | later
    · cases first
    · cases plain _ later

/-- Lowering leaves no label and no transfer over, and the writer refuses nothing of what it makes as
unsupported, except where the main block is a label with a straight line behind it: such a program
stays as it is, and the writer refuses its label. -/
theorem lower_leaves_iff (lowered : program.lower = .ok stream) :
    ((∃ instruction ∈ stream, instruction.isControl = true) ↔ program.main.IsLabelledLine) ∧
      (∀ style, (∃ name, Writer.generate style stream = .error (.unsupported name)) ↔
        program.main.IsLabelledLine) ∧
      (program.main.IsLabelledLine → stream = program.main ∧
        ∀ style, Writer.generate style stream = .error (.unsupported Opcode.label.name)) := by
  have leftOver (control : ∃ instruction ∈ stream, instruction.isControl = true) :
      program.main.IsLabelledLine := by
    obtain ⟨flat, flattened, made⟩ := Except.bind_eq_ok.mp lowered
    exact main_of_flatten_labelledLine flattened (Cases.ofStream_control made control).2
  have stays (labelled : program.main.IsLabelledLine) : stream = program.main :=
    Except.ok.inj (lowered.symm.trans (lower_labelledLine labelled))
  -- The writer comes to the label first, as it is the first instruction.
  have refused (labelled : program.main.IsLabelledLine) (style : CodeStyle) :
      Writer.generate style stream = .error (.unsupported Opcode.label.name) := by
    rw [stays labelled]
    obtain ⟨id, line, main, -⟩ := labelled
    rw [main]
    exact Writer.generate_label style id line
  refine ⟨⟨leftOver, fun labelled => ?_⟩, fun style => ⟨?_, fun labelled => ?_⟩,
    fun labelled => ⟨stays labelled, refused labelled⟩⟩
  · rw [stays labelled]
    obtain ⟨id, line, main, -⟩ := labelled
    exact ⟨.label id, main ▸ List.mem_cons_self, rfl⟩
  · rintro ⟨name, failed⟩
    rw [Writer.generate_eq] at failed
    cases streamed : Writer.streamCode style [] stream with
    | ok text => rw [streamed] at failed; cases failed
    | error error =>
      rw [streamed] at failed
      obtain rfl := Except.error.inj failed
      exact leftOver (Writer.streamCode_unsupported streamed)
  · exact ⟨_, refused labelled style⟩

/-- A loop that starts at a label, with a call and a condition that is negated. -/
def leavingProgram : Program :=
  ⟨[.label 0, .readChar, .not, .jumpIf 1, .invoke 2, .jump 0, .label 1], .ofList [(2, [.leave])], 3⟩

theorem lower_leaves_iff_leavingProgram : ∃ stream, leavingProgram.lower = .ok stream ∧
    stream.count .fsmCase = 6 ∧ (∀ instruction ∈ stream, instruction.isControl = false) ∧
    ∀ style name, Writer.generate style stream ≠ .error (.unsupported name) := by
  obtain ⟨stream, lowered, six⟩ :
      ∃ stream, leavingProgram.lower = .ok stream ∧ stream.count .fsmCase = 6 := ⟨_, rfl, rfl⟩
  have jumps : ¬leavingProgram.main.IsLabelledLine := by
    rintro ⟨id, line, main, plain⟩
    obtain ⟨-, rfl⟩ := List.cons.inj main
    exact absurd (plain (.jump 0) (by decide)) (by decide)
  obtain ⟨control, refused, -⟩ := lower_leaves_iff lowered
  refine ⟨stream, lowered, six, fun instruction member => ?_, fun style name failed => ?_⟩
  · exact Bool.eq_false_iff.mpr fun left => jumps (control.mp ⟨instruction, member, left⟩)
  · exact jumps ((refused style).mp ⟨name, failed⟩)

/-- A main block that is a single label. -/
def labelOnly : Program := ⟨[.label 0], .empty, 1⟩

/-- The label is left over, and the writer refuses it. -/
theorem lower_labelOnly : ∃ stream, labelOnly.lower = .ok stream ∧
    (∃ instruction ∈ stream, instruction.isControl = true) ∧
    Writer.generate {} stream = .error (.unsupported "label") :=
  ⟨[.label 0], rfl, ⟨.label 0, List.mem_cons_self, rfl⟩, rfl⟩

end Program

end TapeCode
