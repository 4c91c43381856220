import TapeCode.Proofs.Lowering.MachineCases
import TapeCode.Proofs.Ribbon.Dispatch

/-!
# The code of a stream's state machine

A stream that calls nothing outside itself becomes the code of its state machine, and this machine is
proper: its bodies are made of ordinary instructions of the stream, and its dispatches name cases that
it has. A stream that is a single case without a transfer stays as it is.
-/
namespace TapeCode

/-- Instructions that always go on to the next one. -/
def Instruction.isOrdinary (instruction : Instruction) : Bool :=
  instruction.isIntermediate && !instruction.isTransfer && instruction.label?.isNone

/-- What a stream says as a list of cases. Without a state machine it is a single case, perhaps behind
a label, or nothing at all. -/
inductive Listing.Means : Listing → List MachineCase → Prop
  | machine (cases : List MachineCase) : Means (machineListing cases) cases
  | nothing : Means [] []
  | straight (body : Listing) : Means body [⟨body, .jump 2⟩]
  | labelled (id : Int) (body : Listing) : Means (.label id :: body) [⟨body, .jump 2⟩]

namespace Cases

variable {stream : Listing}

/-- Every label that a stream names has a case. -/
theorem leads_of_selfContained (contained : stream.SelfContained) :
    ∀ run ∈ runs stream, Leads (runs stream) run := by
  intro run member instruction inside label targets
  have there : instruction ∈ stream := by
    rw [← runs_flatten stream]
    exact List.mem_flatten.mpr ⟨run, member, inside⟩
  obtain ⟨before, rest, split⟩ :=
    List.append_of_mem (contained.targets instruction there label targets)
  exact ⟨_, caseOf_label contained.distinct split⟩

/-- A stream that is self-contained has code, and the code means its cases. -/
theorem ofStream_means (contained : stream.SelfContained) :
    ∃ code, ofStream stream = .ok code ∧ code.Means (ofRuns stream) := by
  have written := cases_eq (leads_of_selfContained contained) 1
  have flat := runs_flatten stream
  have machine : (do
      let code ← cases (runs stream) 1 (runs stream)
      return .fsmBegin (runs stream).length :: code ++ [.fsmEnd] : Except LowerError Listing) =
        .ok (machineListing (ofRuns stream)) := by
    rw [written, machineListing, length_ofRuns]
    rfl
  simp only [ofStream]
  -- No run, a single one without transfer, which needs no machine, or a machine.
  split
  next nothing =>
    rw [nothing] at flat
    obtain rfl : [] = stream := flat
    exact ⟨[], rfl, .nothing⟩
  next only single =>
    obtain rfl : only = stream := by simpa [single] using flat
    split
    next straight =>
      have stops : transfer? only = none := by simpa using straight
      refine ⟨only, rfl, ?_⟩
      have means : ofRuns only = [⟨unlabelled only, .jump 2⟩] := by
        simp [ofRuns, single, machineCases, machineCase, runBody, runDispatch, stops, body]
      rw [means, unlabelled]
      split
      next labelled =>
        cases only with
        | nil => cases labelled
        | cons first rest =>
          obtain ⟨id, rfl⟩ : ∃ id, first = .label id := by
            cases first <;> first | exact ⟨_, rfl⟩ | cases labelled
          exact .labelled id rest
      next => exact .straight only
    next =>
      exact ⟨_, by simpa [single] using machine, .machine _⟩
  next =>
    exact ⟨_, by simpa using machine, .machine _⟩

/-! ## What the cases are made of -/

private theorem runBody_single {first instruction : Instruction}
    (member : instruction ∈ runBody [first]) :
    instruction = first ∧ first.label? = none ∧ first.isTransfer = false := by
  cases labelled : first.label? with
  | some id =>
    obtain rfl := Instruction.label?_eq_some.mp labelled
    cases member
  | none =>
    cases transfers : first.isTransfer with
    | true =>
      have nothing : runBody [first] = [] := by
        cases first <;> first | rfl | cases transfers
      rw [nothing] at member
      cases member
    | false =>
      rw [(@run_single [] 0 _ labelled transfers).1] at member
      exact ⟨List.mem_singleton.mp member, rfl, rfl⟩

/-- The body of a run's case has the instructions of the run that are no labels and no transfers. -/
theorem runBody_ordinary {listing run : Listing} (cut : run ∈ runs listing)
    {instruction : Instruction} (member : instruction ∈ runBody run) :
    instruction ∈ run ∧ instruction.label? = none ∧ instruction.isTransfer = false := by
  have isRun := isRun_of_mem cut
  clear cut
  induction isRun with
  | single first =>
    obtain ⟨rfl, ordinary⟩ := runBody_single member
    exact ⟨List.mem_cons_self, ordinary⟩
  | @cons first head stays bare further ih =>
    have inHead (inside : instruction ∈ runBody head) :
        instruction ∈ first :: head ∧ instruction.label? = none ∧
          instruction.isTransfer = false := by
      obtain ⟨there, ordinary⟩ := ih inside
      exact ⟨List.mem_cons_of_mem _ there, ordinary⟩
    cases labelled : first.label? with
    | some id =>
      obtain rfl := Instruction.label?_eq_some.mp labelled
      rw [(@run_label [] 0 id _ bare).1] at member
      exact inHead member
    | none =>
      rcases @run_plain [] 0 _ _ labelled further.ne_nil bare with ⟨rfl, target, rfl⟩ | ⟨whole, -⟩
      · cases member
      · rw [whole] at member
        rcases List.mem_cons.mp member with rfl | inside
        · exact ⟨List.mem_cons_self, labelled, stays⟩
        · exact inHead inside

/-- A label that the stream names is the label of one of its cases. -/
theorem jumpNumber_within (contained : stream.SelfContained) {instruction : Instruction}
    (there : instruction ∈ stream) {label : Int} (targets : instruction.target? = some label) :
    Dispatch.isTarget (runs stream).length (jumpNumber (runs stream) label) = true := by
  obtain ⟨before, rest, split⟩ :=
    List.append_of_mem (contained.targets instruction there label targets)
  have starts := startsRun_label split
  have count : (runs before).length ≤ (runs stream).length := by
    rw [starts.split, runs_append starts.boundary, List.length_append]
    omega
  rw [jumpNumber, caseOf_label contained.distinct split, starts.caseNumber]
  simp only [Dispatch.isTarget, Bool.or_eq_true, Bool.and_eq_true, decide_eq_true_eq]
  omega

theorem runDispatch_within (contained : stream.SelfContained) {run : Listing}
    (cut : run ∈ runs stream) {next : Int}
    (follows : Dispatch.isTarget (runs stream).length next = true) :
    MachineCase.staysWithin (runs stream).length (runDispatch (runs stream) next run) = true := by
  have there {instruction : Instruction} (transfers : transfer? run = some instruction) :
      instruction ∈ stream := by
    rw [← runs_flatten stream]
    exact List.mem_flatten.mpr ⟨run, cut, mem_of_transfer? transfers⟩
  simp only [runDispatch]
  split
  next => rfl
  next target transfers => exact jumpNumber_within contained (there transfers) rfl
  next function transfers => exact jumpNumber_within contained (there transfers) rfl
  next target transfers =>
    have leads := jumpNumber_within contained (there transfers) rfl
    split <;> simp only [MachineCase.staysWithin, Bool.and_eq_true]
    · exact ⟨follows, leads⟩
    · exact ⟨leads, follows⟩
  next => exact follows

/-- The cases of a self-contained stream are made of its ordinary instructions, and lead to each
other. -/
theorem ofRuns_proper (contained : stream.SelfContained) {source : MachineCase}
    (member : source ∈ ofRuns stream) :
    (∀ instruction ∈ source.body, instruction ∈ stream ∧ instruction.isOrdinary = true) ∧
      MachineCase.staysWithin (ofRuns stream).length source.dispatch = true := by
  obtain ⟨index, found⟩ := List.mem_iff_getElem?.mp member
  rw [ofRuns, getElem?_machineCases, Option.map_eq_some_iff] at found
  obtain ⟨run, here, rfl⟩ := found
  have cut : run ∈ runs stream := List.mem_of_getElem? here
  have inside : index < (runs stream).length := (List.getElem?_eq_some_iff.mp here).1
  refine ⟨fun instruction has => ?_, ?_⟩
  · obtain ⟨inRun, ordinary, stays⟩ := runBody_ordinary cut has
    have there : instruction ∈ stream := by
      rw [← runs_flatten stream]
      exact List.mem_flatten.mpr ⟨run, cut, inRun⟩
    refine ⟨there, ?_⟩
    simp [Instruction.isOrdinary, contained.intermediate instruction there, ordinary, stays]
  · rw [length_ofRuns]
    refine runDispatch_within contained cut ?_
    simp only [Dispatch.isTarget, Bool.or_eq_true, Bool.and_eq_true, decide_eq_true_eq]
    omega

end Cases

end TapeCode
