import TapeCode.Proofs.Lowering.Runs

/-!
# The state machine of a stream

The machine case that a run becomes, as a value of its own beside its code, and the state machine of
all runs. The lemmas follow a run from its start: behind a label or an instruction that is no transfer
the rest of the run has the rest of the body and the same dispatch, except behind a negation that a
conditional jump takes up.
-/
namespace TapeCode

namespace Cases

/-- The number of the case with a label; zero if there is none. -/
def jumpNumber (all : List Listing) (label : Int) : Int :=
  match caseOf all label with
  | .ok number => number
  | .error _ => 0

/-- The body of a run's case, without a negation that its dispatch takes up. -/
def runBody (run : Listing) : Listing :=
  match transfer? run with
  | some (.jumpIf _) => if (body run).getLast? = some .not then (body run).dropLast else body run
  | _ => body run

def runDispatch (all : List Listing) (next : Int) (run : Listing) : CaseDispatch :=
  match transfer? run with
  | some .leave => .back
  | some (.jump target) => .jump (jumpNumber all target)
  | some (.invoke function) => .call (jumpNumber all function)
  | some (.jumpIf target) =>
    if (body run).getLast? = some .not then .branch next (jumpNumber all target)
    else .branch (jumpNumber all target) next
  | _ => .jump next

def machineCase (all : List Listing) (number : Int) (run : Listing) : MachineCase :=
  ⟨runBody run, runDispatch all (number + 1) run⟩

def machineCases (all : List Listing) (number : Nat) : List Listing → List MachineCase
  | [] => []
  | run :: rest => machineCase all number run :: machineCases all (number + 1) rest

/-- The state machine of a stream. -/
def ofRuns (stream : Listing) : List MachineCase := machineCases (runs stream) 1 (runs stream)

theorem length_machineCases (all : List Listing) (number : Nat) (rest : List Listing) :
    (machineCases all number rest).length = rest.length := by
  induction rest generalizing number with
  | nil => rfl
  | cons run rest ih => exact congrArg (· + 1) (ih (number + 1))

theorem length_ofRuns (stream : Listing) : (ofRuns stream).length = (runs stream).length :=
  length_machineCases _ _ _

theorem getElem?_machineCases (all : List Listing) (number index : Nat) (rest : List Listing) :
    (machineCases all number rest)[index]? =
      rest[index]?.map (machineCase all ((number + index : Nat) : Int)) := by
  induction rest generalizing number index with
  | nil => rfl
  | cons run rest ih =>
    cases index with
    | zero => rfl
    | succ index =>
      rw [machineCases, List.getElem?_cons_succ, List.getElem?_cons_succ, ih,
        show number + 1 + index = number + (index + 1) by omega]

/-- Where a run starts, the machine has the case of the run. -/
theorem find?_of_startsRun {stream first before : Listing}
    (starts : StartsRun stream first before) (nonempty : first ≠ []) :
    MachineCase.find? (ofRuns stream) (caseNumber stream first) =
      some (machineCase (runs stream) (caseNumber stream first) (headRun first)) := by
  obtain ⟨run, others, joined⟩ := List.exists_cons_of_ne_nil (runs_ne_nil nonempty)
  have positive : 1 ≤ caseNumber stream first := by
    rw [starts.caseNumber]
    omega
  have index : (caseNumber stream first - 1).toNat = (runs before).length := by
    rw [starts.caseNumber]
    omega
  have there : (runs stream)[(runs before).length]? = some run := by
    rw [starts.split, runs_append starts.boundary, joined,
      List.getElem?_append_right (Nat.le_refl _), Nat.sub_self]
    rfl
  rw [MachineCase.find?, if_pos positive, index, ofRuns, getElem?_machineCases, there, headRun, joined,
    starts.caseNumber]
  simp only [Option.map_some, List.headD_cons, Option.some.injEq]
  congr 1
  omega

/-! ## The code of the cases -/

theorem unlabelled_of_none {run : Listing} (bare : label? run = none) : unlabelled run = run := by
  simp [unlabelled, bare]

/-- Every label that a run's transfer leads to is the label of a run. -/
def Leads (all : List Listing) (run : Listing) : Prop :=
  ∀ instruction ∈ run, ∀ label, instruction.target? = some label → ∃ number, caseOf all label = .ok number

theorem mem_of_transfer? {run : Listing} {instruction : Instruction}
    (transfers : transfer? run = some instruction) : instruction ∈ run := by
  have last := (Option.filter_eq_some_iff.mp transfers).1
  have inside := List.mem_of_getLast? last
  simp only [unlabelled] at inside
  split at inside
  · exact List.mem_of_mem_tail inside
  · exact inside

theorem caseCode_eq {all : List Listing} {run : Listing} (leads : Leads all run) (number : Nat) :
    caseCode all run number = .ok (machineCase all number run).listing := by
  have found : ∀ {instruction label}, transfer? run = some instruction →
      instruction.target? = some label → caseOf all label = .ok (jumpNumber all label) := by
    intro instruction label transfers targets
    obtain ⟨target, has⟩ := leads instruction (mem_of_transfer? transfers) label targets
    simp [jumpNumber, has]
  simp only [caseCode, machineCase, MachineCase.listing, runBody, runDispatch]
  split
  next transfers => simp [transfers, CaseDispatch.instruction]; rfl
  next target transfers =>
    simp only [transfers, found transfers rfl]
    rfl
  next function transfers =>
    simp only [transfers, found transfers rfl]
    rfl
  next target transfers =>
    simp only [transfers, found transfers rfl]
    by_cases negated : (body run).getLast? = some .not
    · simp only [negated]
      rfl
    · simp only [negated]
      rfl
  next leave jump invoke jumpIf =>
    -- None of the transfers that the dispatch looks for can be there.
    repeat' split
    all_goals first
      | rfl
      | exact absurd (by assumption) leave
      | exact absurd (by assumption) (jump _)
      | exact absurd (by assumption) (invoke _)
      | exact absurd (by assumption) (jumpIf _)

theorem cases_eq {all : List Listing} {rest : List Listing} (leads : ∀ run ∈ rest, Leads all run)
    (number : Nat) :
    cases all number rest = .ok ((machineCases all number rest).flatMap (·.listing)) := by
  induction rest generalizing number with
  | nil => rfl
  | cons run rest ih =>
    have others := ih (fun other member => leads other (List.mem_cons_of_mem _ member)) (number + 1)
    simp only [cases, caseCode_eq (leads run List.mem_cons_self), others]
    rfl

/-! ## Along a run -/

section

variable {all : List Listing} {next : Int}

theorem runBody_jump (target : Int) : runBody [.jump target] = [] := rfl

theorem runBody_jumpIf (target : Int) : runBody [.jumpIf target] = [] := rfl

theorem runBody_invoke (function : Int) : runBody [.invoke function] = [] := rfl

theorem runBody_leave : runBody [.leave] = [] := rfl

theorem runDispatch_jump (target : Int) :
    runDispatch all next [.jump target] = .jump (jumpNumber all target) := rfl

theorem runDispatch_jumpIf (target : Int) :
    runDispatch all next [.jumpIf target] = .branch (jumpNumber all target) next := rfl

theorem runDispatch_invoke (function : Int) :
    runDispatch all next [.invoke function] = .call (jumpNumber all function) := rfl

theorem runDispatch_leave : runDispatch all next [.leave] = .back := rfl

/-- An instruction that is neither a label nor a transfer is the body of a run of its own. -/
theorem run_single {first : Instruction} (ordinary : first.label? = none)
    (stays : first.isTransfer = false) :
    runBody [first] = [first] ∧ runDispatch all next [first] = .jump next := by
  have bare : unlabelled [first] = [first] := unlabelled_of_none ordinary
  have stops : transfer? [first] = none := by simp [transfer?, bare, stays]
  exact ⟨by simp [runBody, body, stops, bare], by simp [runDispatch, stops]⟩

theorem run_label {id : Int} {run : Listing} (bare : label? run = none) :
    runBody (.label id :: run) = runBody run ∧
      runDispatch all next (.label id :: run) = runDispatch all next run := by
  have same : unlabelled (.label id :: run) = unlabelled run := by
    rw [unlabelled_of_none bare]
    rfl
  have transfers : transfer? (.label id :: run) = transfer? run := by
    simp only [transfer?, same]
  have bodies : body (.label id :: run) = body run := by
    simp only [body, transfers, same]
  exact ⟨by simp only [runBody, transfers, bodies], by simp only [runDispatch, transfers, bodies]⟩

/-- Behind an ordinary instruction of a run. -/
theorem run_plain {first : Instruction} {run : Listing} (ordinary : first.label? = none)
    (nonempty : run ≠ []) (bare : label? run = none) :
    (first = .not ∧ ∃ target, run = [.jumpIf target]) ∨
      runBody (first :: run) = first :: runBody run ∧
        runDispatch all next (first :: run) = runDispatch all next run := by
  have transfers : transfer? (first :: run) = transfer? run := by
    have bareWhole : label? (first :: run) = none := ordinary
    simp only [transfer?, unlabelled_of_none bare, unlabelled_of_none bareWhole,
      List.getLast?_cons_of_ne_nil nonempty]
  have bodies : body (first :: run) = first :: body run := by
    have bareWhole : label? (first :: run) = none := ordinary
    simp only [body, transfers, unlabelled_of_none bare, unlabelled_of_none bareWhole]
    split
    · exact List.dropLast_cons_of_ne_nil nonempty
    · rfl
  -- The dispatch looks at the end of the body: an instruction in front of more of it changes nothing.
  by_cases alone : body run = []
  · by_cases negates : first = .not
    · -- The run is a single transfer behind a negation.
      by_cases jumps : ∃ target, transfer? run = some (.jumpIf target)
      · obtain ⟨target, jumpIf⟩ := jumps
        refine .inl ⟨negates, target, ?_⟩
        have last := (Option.filter_eq_some_iff.mp jumpIf).1
        rw [unlabelled_of_none bare] at last
        have nothing : run.dropLast = [] := by
          simpa [body, jumpIf, unlabelled_of_none bare] using alone
        rw [← List.dropLast_append_getLast? _ last, nothing, List.nil_append]
      · refine .inr ⟨?_, ?_⟩
        · simp only [runBody, transfers, bodies]
          split
          next target jumpIf => exact absurd ⟨target, jumpIf⟩ jumps
          next => rfl
        · simp only [runDispatch, transfers]
          split <;> first | rfl | exact absurd ⟨_, ‹_›⟩ jumps
    · refine .inr ⟨?_, ?_⟩
      · simp only [runBody, transfers, bodies, alone, List.getLast?_singleton, Option.some.injEq,
          negates, if_false, List.getLast?_nil, reduceCtorEq]
        split <;> rfl
      · simp [runDispatch, transfers, bodies, alone, negates]
  · have last : (first :: body run).getLast? = (body run).getLast? :=
      List.getLast?_cons_of_ne_nil alone
    refine .inr ⟨?_, ?_⟩
    · simp only [runBody, transfers, bodies, last, List.dropLast_cons_of_ne_nil alone]
      split
      · split <;> rfl
      · rfl
    · simp only [runDispatch, transfers, bodies, last]

end

end Cases

end TapeCode
