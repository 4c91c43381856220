import TapeCode.Proofs.Lowering.Code
import TapeCode.Proofs.Monads
import TapeCode.Proofs.Ribbon.MachineCode
import TapeCode.Proofs.Writing.OpenMachines

/-!
# What a stream is made of

A stream has the instructions of the main block and of the functions, and besides them only the labels
of functions, one jump and the label that it leads to. When nothing jumps in the stream of a program
whose labels are all jumped to, there is nothing in it but instructions that compute.
-/
namespace TapeCode

/-- Of the instructions of the program, those that go on to the next one compute. -/
def Program.Computes (program : Program) : Prop :=
  ∀ body ∈ program.bodies, ∀ instruction ∈ body, instruction.isOrdinary = true →
    instruction.isBody = true

namespace Flat

variable {program : Program} {stream : Listing}

theorem mem_bodies {table : FunctionTable Listing} {turns : Nat} {seen queue : List Int}
    {laid : Listing} (made : bodies table turns seen queue = .ok laid) {instruction : Instruction}
    (member : instruction ∈ laid) :
    (∃ id, instruction = .label id) ∨ ∃ id body, table.get? id = some body ∧ instruction ∈ body := by
  induction turns generalizing seen queue laid with
  | zero =>
    cases queue with
    | nil =>
      obtain rfl := Except.ok.inj made
      cases member
    | cons id queue => cases made
  | succ turns ih =>
    cases queue with
    | nil =>
      obtain rfl := Except.ok.inj made
      cases member
    | cons id queue =>
      simp only [bodies] at made
      split at made
      next => cases made
      next body found =>
        simp only [Except.bind_eq_ok] at made
        obtain ⟨rest, madeRest, made⟩ := made
        obtain rfl := Except.ok.inj made
        rcases List.mem_append.mp member with here | later
        · rcases List.mem_cons.mp here with rfl | inside
          · exact .inl ⟨id, rfl⟩
          · exact .inr ⟨id, body, found, inside⟩
        · exact ih madeRest later

/-- Labels and jumps apart, the instructions of a stream come from the program. -/
theorem mem_flatten
    (made : flatten program.main program.functions program.nextLabel = .ok stream)
    {instruction : Instruction} (member : instruction ∈ stream) :
    (∃ id, instruction = .label id ∨ instruction = .jump id) ∨
      ∃ body ∈ program.bodies, instruction ∈ body := by
  unfold flatten at made
  split at made
  next =>
    obtain rfl := Except.ok.inj made
    exact .inr ⟨program.main, List.mem_cons_self, member⟩
  next =>
    simp only [Except.bind_eq_ok] at made
    obtain ⟨laid, madeLaid, made⟩ := made
    obtain rfl := Except.ok.inj made
    simp only [List.mem_append, List.mem_cons, List.not_mem_nil, or_false] at member
    rcases member with ((inMain | rfl) | inLaid) | rfl
    · exact .inr ⟨program.main, List.mem_cons_self, inMain⟩
    · exact .inl ⟨_, .inr rfl⟩
    · obtain ⟨id, rfl⟩ | ⟨id, body, found, inside⟩ := mem_bodies madeLaid inLaid
      · exact .inl ⟨id, .inl rfl⟩
      · exact .inr ⟨body, Program.mem_bodies found, inside⟩
    · exact .inl ⟨_, .inl rfl⟩

/-- The instructions that go on to the next one come from the program. -/
theorem mem_flatten_ordinary
    (made : flatten program.main program.functions program.nextLabel = .ok stream)
    {instruction : Instruction} (member : instruction ∈ stream)
    (ordinary : instruction.isOrdinary = true) : ∃ body ∈ program.bodies, instruction ∈ body := by
  obtain ⟨id, rfl | rfl⟩ | inside := mem_flatten made member
  · cases ordinary
  · cases ordinary
  · exact inside

/-- A stream has intermediate instructions if the program has no others. -/
theorem flatten_intermediate
    (made : flatten program.main program.functions program.nextLabel = .ok stream)
    (intermediate : ∀ body ∈ program.bodies, ∀ instruction ∈ body,
      instruction.isIntermediate = true) :
    ∀ instruction ∈ stream, instruction.isIntermediate = true := by
  intro instruction member
  obtain ⟨id, rfl | rfl⟩ | ⟨body, among, inside⟩ := mem_flatten made member
  · rfl
  · rfl
  · exact intermediate body among instruction inside

end Flat

namespace Cases

variable {all : List Listing} {run stream code : Listing} {number : Nat} {instruction : Instruction}

theorem mem_body (member : instruction ∈ body run) : instruction ∈ run := by
  have unlabelled : ∀ instruction ∈ unlabelled run, instruction ∈ run := by
    intro instruction member
    unfold Cases.unlabelled at member
    split at member
    · exact List.mem_of_mem_tail member
    · exact member
  unfold body at member
  split at member
  · exact unlabelled _ ((List.dropLast_sublist _).subset member)
  · exact unlabelled _ member

/-- The number of a label is that of a case. -/
theorem caseOf_within {label target : Int} (found : caseOf all label = .ok target) :
    1 ≤ target ∧ target ≤ all.length := by
  unfold caseOf at found
  split at found
  next run number named =>
    obtain rfl := Except.ok.inj found
    have member := List.mem_of_find?_eq_some named
    rw [List.mem_reverse] at member
    have bounds := List.mem_zipIdx member
    omega
  next => cases found

theorem mem_runBody (member : instruction ∈ runBody run) : instruction ∈ run := by
  unfold runBody at member
  split at member
  · split at member
    · exact mem_body ((List.dropLast_sublist _).subset member)
    · exact mem_body member
  · exact mem_body member

/-- A case consists of the body of its run and a dispatch to cases or behind the last one. -/
theorem caseCode_eq_ok (made : caseCode all run number = .ok code) : ∃ dispatch,
    code = .fsmCase :: runBody run ++ [CaseDispatch.instruction dispatch] ∧
      (number ≤ all.length → ∀ target ∈ dispatch.instruction.caseTargets,
        1 ≤ target ∧ target ≤ all.length + 1) := by
  have legal {label target : Int} (found : caseOf all label = .ok target) :
      1 ≤ target ∧ target ≤ all.length + 1 := by
    have within := caseOf_within found
    omega
  have next (inside : number ≤ all.length) :
      1 ≤ (number : Int) + 1 ∧ (number : Int) + 1 ≤ all.length + 1 := by
    omega
  have one {target : Int} (within : 1 ≤ target ∧ target ≤ all.length + 1) :
      ∀ other ∈ [target], 1 ≤ other ∧ other ≤ (all.length : Int) + 1 := by
    simpa using within
  have two {first second : Int} (within : 1 ≤ first ∧ first ≤ all.length + 1)
      (withinToo : 1 ≤ second ∧ second ≤ all.length + 1) :
      ∀ other ∈ [first, second], 1 ≤ other ∧ other ≤ (all.length : Int) + 1 := by
    simpa using ⟨within, withinToo⟩
  -- The dispatch follows from how the run ends: back, jump, call, a branch, or on to the next case.
  simp only [caseCode] at made
  simp only [runBody]
  split at made
  next transfers =>
    obtain rfl := Except.ok.inj made
    exact ⟨.back, by simp [transfers, CaseDispatch.instruction],
      fun _ _ member => absurd member List.not_mem_nil⟩
  next target transfers =>
    obtain ⟨place, found, made⟩ := Except.bind_eq_ok.mp made
    obtain rfl := Except.ok.inj made
    exact ⟨.jump place, by simp [transfers, CaseDispatch.instruction], fun _ => one (legal found)⟩
  next function transfers =>
    obtain ⟨place, found, made⟩ := Except.bind_eq_ok.mp made
    obtain rfl := Except.ok.inj made
    exact ⟨.call place, by simp [transfers, CaseDispatch.instruction], fun _ => one (legal found)⟩
  next target transfers =>
    obtain ⟨place, found, made⟩ := Except.bind_eq_ok.mp made
    split at made
    next negated =>
      obtain rfl := Except.ok.inj made
      exact ⟨.branch (number + 1) place, by simp [transfers, negated, CaseDispatch.instruction],
        fun inside => two (next inside) (legal found)⟩
    next plain =>
      obtain rfl := Except.ok.inj made
      exact ⟨.branch place (number + 1), by simp [transfers, plain, CaseDispatch.instruction],
        fun inside => two (legal found) (next inside)⟩
  next leave jump invoke jumpIf =>
    obtain rfl := Except.ok.inj made
    refine ⟨.jump (number + 1), ?_, fun inside => one (next inside)⟩
    split
    · exact absurd ‹_› (jumpIf _)
    · rfl

/-- The cases of a state machine, one for each run. -/
theorem cases_eq_ok {rest : List Listing} (made : cases all number rest = .ok code) :
    ∃ machine : List MachineCase, code = machine.flatMap (·.listing) ∧
      machine.map (·.body) = rest.map runBody ∧
      (number + rest.length ≤ all.length + 1 →
        ∀ source ∈ machine, ∀ target ∈ source.dispatch.instruction.caseTargets,
          1 ≤ target ∧ target ≤ all.length + 1) := by
  induction rest generalizing number code with
  | nil =>
    obtain rfl := Except.ok.inj made
    exact ⟨[], rfl, rfl, by simp⟩
  | cons run rest ih =>
    simp only [cases, Except.bind_eq_ok] at made
    obtain ⟨one, madeOne, others, madeOthers, made⟩ := made
    obtain rfl := Except.ok.inj made
    obtain ⟨dispatch, rfl, legal⟩ := caseCode_eq_ok madeOne
    obtain ⟨machine, rfl, bodies, targets⟩ := ih madeOthers
    refine ⟨⟨runBody run, dispatch⟩ :: machine, rfl, ?_, fun within => ?_⟩
    · rw [List.map_cons, List.map_cons, bodies]
    · rw [List.length_cons] at within
      exact List.forall_mem_cons.mpr ⟨legal (by omega), targets (by omega)⟩

/-- What stands in the code of the cases: their bodies, and what only state machines have. -/
theorem mem_cases {rest : List Listing} (made : cases all number rest = .ok code)
    (member : instruction ∈ code) :
    (∃ run ∈ rest, instruction ∈ runBody run) ∨ instruction = .fsmCase ∨
      ∃ dispatch : CaseDispatch, instruction = dispatch.instruction := by
  obtain ⟨machine, rfl, bodies, -⟩ := cases_eq_ok made
  obtain ⟨source, among, inside⟩ := List.mem_flatMap.mp member
  simp only [MachineCase.listing, List.mem_append, List.mem_cons, List.not_mem_nil,
    or_false] at inside
  rcases inside with (begins | inBody) | dispatches
  · exact .inr (.inl begins)
  · have body : source.body ∈ rest.map runBody := bodies ▸ List.mem_map_of_mem among
    obtain ⟨run, cut, same⟩ := List.mem_map.mp body
    exact .inl ⟨run, cut, same ▸ inBody⟩
  · exact .inr (.inr ⟨source.dispatch, dispatches⟩)

/-- A stream becomes a state machine, unless it has at most one run and this one ends without a
transfer. Such a stream stays as it is. -/
theorem ofStream_eq_ok (made : ofStream stream = .ok code) :
    code = stream ∧ (∀ run ∈ runs stream, run = stream ∧ transfer? run = none) ∨ ∃ inner,
      cases (runs stream) 1 (runs stream) = .ok inner ∧
        code = .fsmBegin (runs stream).length :: inner ++ [.fsmEnd] := by
  have machine (made : (do
      let code ← cases (runs stream) 1 (runs stream)
      return .fsmBegin (runs stream).length :: code ++ [.fsmEnd] : Except LowerError Listing) =
        .ok code) : ∃ inner,
        cases (runs stream) 1 (runs stream) = .ok inner ∧
          code = .fsmBegin (runs stream).length :: inner ++ [.fsmEnd] := by
    obtain ⟨inner, madeInner, made⟩ := Except.bind_eq_ok.mp made
    exact ⟨inner, madeInner, (Except.ok.inj made).symm⟩
  simp only [ofStream] at made
  split at made
  next nothing => exact .inl ⟨(Except.ok.inj made).symm, by simp [nothing]⟩
  next only single =>
    have whole : only = stream := by simpa [single] using runs_flatten stream
    split at made
    next straight =>
      refine .inl ⟨(Except.ok.inj made).symm, fun run member => ?_⟩
      obtain rfl : run = only := by simpa [single] using member
      exact ⟨whole, by simpa using straight⟩
    next => exact .inr (machine made)
  next => exact .inr (machine made)

theorem mem_ofStream (made : ofStream stream = .ok code) (member : instruction ∈ code)
    (intermediate : instruction.isIntermediate = true) : instruction ∈ stream := by
  rcases ofStream_eq_ok made with ⟨rfl, -⟩ | ⟨inner, madeInner, rfl⟩
  · exact member
  · simp only [List.mem_append, List.mem_cons, List.not_mem_nil, or_false] at member
    rcases member with (rfl | inside) | rfl
    · cases intermediate
    · rcases mem_cases madeInner inside with ⟨run, cut, here⟩ | rfl | ⟨dispatch, rfl⟩
      · rw [← runs_flatten stream]
        exact List.mem_flatten_of_mem cut (mem_runBody here)
      · cases intermediate
      · cases dispatch <;> cases intermediate
    · cases intermediate

end Cases

namespace Program

variable {program : Program} {stream : Listing}

/-- The stream of a well-formed program means cases of ordinary instructions, whose dispatches stay
within them. -/
theorem lower_means (wellFormed : program.WellFormed) : ∃ stream cases,
    program.lower = .ok stream ∧ stream.Means cases ∧ ∀ source ∈ cases,
      (∀ instruction ∈ source.body, instruction.isOrdinary = true) ∧
        MachineCase.staysWithin cases.length source.dispatch = true := by
  obtain ⟨flat, tail, reached, madeFlat, contained, laid⟩ := Flat.flatten_laid wellFormed
  obtain ⟨code, written, means⟩ := Cases.ofStream_means contained
  refine ⟨code, Cases.ofRuns flat, Except.bind_eq_ok.mpr ⟨flat, madeFlat, written⟩, means, ?_⟩
  intro source member
  obtain ⟨body, dispatch⟩ := Cases.ofRuns_proper contained member
  exact ⟨fun instruction has => (body instruction has).2, dispatch⟩

theorem lower_computes (computes : program.Computes) (lowered : program.lower = .ok stream)
    {instruction : Instruction} (member : instruction ∈ stream)
    (ordinary : instruction.isOrdinary = true) : instruction.isBody = true := by
  obtain ⟨flat, madeFlat, made⟩ := Except.bind_eq_ok.mp lowered
  have intermediate : instruction.isIntermediate = true := by
    simp only [Instruction.isOrdinary, Bool.and_eq_true] at ordinary
    exact ordinary.1.1
  obtain ⟨body, among, inside⟩ :=
    Flat.mem_flatten_ordinary madeFlat (Cases.mem_ofStream made member intermediate) ordinary
  exact computes body among instruction inside ordinary

/-- When every label of the main block is jumped to, no stream is a single case behind a label. -/
theorem lower_not_labelled (wellFormed : program.WellFormed)
    (used : ∀ label ∈ Listing.labels program.main, ∃ instruction ∈ program.main,
      instruction.jumpTarget? = some label) {id : Int} {body : Listing}
    (lowered : program.lower = .ok (.label id :: body))
    (ordinary : ∀ instruction ∈ body, instruction.isOrdinary = true) : False := by
  obtain ⟨flat, tail, reached, madeFlat, -, laid⟩ := Flat.flatten_laid wellFormed
  obtain ⟨other, same, made⟩ := Except.bind_eq_ok.mp lowered
  obtain rfl : flat = other := Except.ok.inj (madeFlat.symm.trans same)
  rcases Cases.ofStream_eq_ok made with ⟨stays, -⟩ | ⟨inner, -, machine⟩
  -- With bodies behind the main block there would be a jump over them.
  · have alone : tail none = [] := by
      rcases laid.finish with nothing | ⟨finish, between, jumps⟩
      · exact nothing
      · have member : Instruction.jump finish ∈ Instruction.label id :: body := by
          rw [stays, laid.start, jumps]
          simp
        rcases List.mem_cons.mp member with first | later
        · cases first
        · exact absurd (ordinary _ later) (by simp [Instruction.isOrdinary, Instruction.isTransfer,
            Instruction.opcode, Opcode.isTransfer])
    -- So the stream is the main block, in which something jumps to the label.
    have main : program.main = .label id :: body := by
      rw [stays, laid.start, alone, List.append_nil]
    obtain ⟨instruction, member, leads⟩ := used id (by
      rw [main]
      exact Listing.mem_labels.mpr List.mem_cons_self)
    rw [main] at member
    rcases List.mem_cons.mp member with rfl | later
    · cases leads
    · have stops := ordinary _ later
      cases instruction <;> first | cases leads; done | cases stops
  · cases machine

/-- The cases that a stream means are proper, and a stream without a state machine computes. -/
theorem lower_proper (wellFormed : program.WellFormed) (computes : program.Computes)
    (used : ∀ label ∈ Listing.labels program.main, ∃ instruction ∈ program.main,
      instruction.jumpTarget? = some label) (lowered : program.lower = .ok stream)
    {cases : List MachineCase} (means : stream.Means cases)
    (ordinary : ∀ source ∈ cases, (∀ instruction ∈ source.body, instruction.isOrdinary = true) ∧
      MachineCase.staysWithin cases.length source.dispatch = true) :
    stream = machineListing cases ∧ (∀ source ∈ cases, source.isProper cases.length = true) ∨
      stream.all (·.isBody) = true ∧
        (stream = [] ∧ cases = [] ∨ cases = [⟨stream, .jump 2⟩]) := by
  cases means with
  | machine cases =>
    refine .inl ⟨rfl, fun source member => ?_⟩
    obtain ⟨plain, within⟩ := ordinary source member
    simp only [MachineCase.isProper, Bool.and_eq_true, List.all_eq_true]
    refine ⟨fun instruction inside => ?_, within⟩
    refine lower_computes computes lowered ?_ (plain instruction inside)
    refine List.mem_append_left _ (List.mem_cons_of_mem _ (List.mem_flatMap.mpr ⟨source, member, ?_⟩))
    exact List.mem_append_left _ (List.mem_cons_of_mem _ inside)
  | nothing => exact .inr ⟨rfl, .inl ⟨rfl, rfl⟩⟩
  | straight =>
    refine .inr ⟨List.all_eq_true.mpr fun instruction member => ?_, .inr rfl⟩
    exact lower_computes computes lowered member ((ordinary _ List.mem_cons_self).1 _ member)
  | labelled id body =>
    exact absurd (ordinary _ List.mem_cons_self).1 fun plain =>
      lower_not_labelled wellFormed used lowered plain

end Program

end TapeCode
