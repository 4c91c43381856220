import TapeCode.Proofs.Path
import TapeCode.Proofs.StackEffects
import TapeCode.Stack.Cases

/-!
# Runs of cases

What a run of the cases of a state machine does not depend on: the cases it goes through are cases of the
machine, and slots of the heap that no case addresses stay out of it.
-/
namespace TapeCode

namespace MachineCase

variable {α : Type} {keeping : CaseKeeping α} {cases : List MachineCase} {ending : EndOfInput}

/-! ## What a step does -/

section

variable {state following : State α} {current : Int} {values : StackState α}

theorem step?_eq_some : step? keeping cases ending state = some following ↔
    ∃ current values, find? cases state.case = some current ∧
      state.values.executeAll? ending current.body = some values ∧
      select? keeping cases state.case values current.dispatch = some following := by
  simp only [step?, Option.bind_eq_bind, Option.bind_eq_some_iff, exists_and_left]

/-- A branch takes the byte on the stack. -/
theorem select?_branch_eq_some {nonzero zero : Int} :
    select? keeping cases current values (.branch nonzero zero) = some following ↔
      ∃ condition rest, values = rest.push (.byte condition) ∧
        following = ⟨target cases (if condition ≠ 0 then nonzero else zero), rest⟩ := by
  simp only [select?, Option.bind_eq_bind, Option.bind_eq_some_iff, Prod.exists, Option.pure_def,
    Option.some.injEq]
  constructor
  · rintro ⟨condition, rest, popped, rfl⟩
    exact ⟨condition, rest, values.popByte?_eq_some popped, rfl⟩
  · rintro ⟨condition, rest, rfl, rfl⟩
    exact ⟨condition, rest, rfl, rfl⟩

/-- A return takes the number of a case from the stack. -/
theorem select?_back_eq_some : select? keeping cases current values .back = some following ↔
    ∃ kept rest number, values = rest.push kept ∧ keeping.find? kept = some number ∧
      following = ⟨number, rest⟩ := by
  simp only [select?, Option.bind_eq_bind, Option.bind_eq_some_iff, Prod.exists, Option.pure_def,
    Option.some.injEq]
  constructor
  · rintro ⟨kept, rest, popped, number, found, rfl⟩
    exact ⟨kept, rest, number, values.pop?_eq_some popped, found, rfl⟩
  · rintro ⟨kept, rest, number, rfl, found, rfl⟩
    exact ⟨kept, rest, rfl, number, found, rfl⟩

end

/-! ## The numbers of the cases -/

theorem find?_within {number : Int} {current : MachineCase}
    (found : find? cases number = some current) : 1 ≤ number ∧ number ≤ cases.length := by
  unfold find? at found
  split at found
  next first =>
    have inside := (List.getElem?_eq_some_iff.mp found).1
    omega
  next => cases found

theorem mem_of_find? {number : Int} {current : MachineCase}
    (found : find? cases number = some current) : current ∈ cases := by
  unfold find? at found
  split at found
  · exact List.mem_of_getElem? found
  · cases found

/-- A case that is executed is one of the machine. -/
theorem step?_within {state following : State α}
    (stepped : step? keeping cases ending state = some following) :
    1 ≤ state.case ∧ state.case ≤ cases.length := by
  obtain ⟨current, _, found, -⟩ := step?_eq_some.mp stepped
  exact find?_within found

/-- So is every case of a run but the last one. -/
theorem first_within {first last : State α} {visited : List Int}
    (path : Path (step? keeping cases ending) (·.case) first visited last)
    (within : 1 ≤ last.case ∧ last.case ≤ cases.length + 1) :
    1 ≤ first.case ∧ first.case ≤ cases.length + 1 := by
  cases path with
  | here => exact within
  | next stepped _ =>
    have bounds := step?_within stepped
    omega

/-! ## Slots that no case addresses -/

variable {slot : Nat}

/-- The instructions of all cases, without the dispatches. -/
def bodies (cases : List MachineCase) : Listing := cases.flatMap (·.body)

def State.store (state : State α) (slot : Nat) (value : StackValue α) : State α :=
  ⟨state.case, state.values.store slot value⟩

/-- A dispatch looks at the stack only. -/
theorem select?_store {current : Int} {values : StackState α} {dispatch : CaseDispatch}
    {following : State α} (selected : select? keeping cases current values dispatch = some following)
    (value : StackValue α) : select? keeping cases current (values.store slot value) dispatch =
      some (following.store slot value) := by
  cases dispatch with
  | jump next | call next =>
    obtain rfl := Option.some.inj selected
    rfl
  | branch nonzero zero =>
    obtain ⟨condition, rest, rfl, rfl⟩ := select?_branch_eq_some.mp selected
    rfl
  | back =>
    obtain ⟨kept, rest, number, rfl, found, rfl⟩ := select?_back_eq_some.mp selected
    exact select?_back_eq_some.mpr ⟨kept, rest.store slot value, number, rfl, found, rfl⟩

theorem step?_store (apart : ∀ instruction ∈ bodies cases, instruction.slot? ≠ some slot)
    {state following : State α} (stepped : step? keeping cases ending state = some following)
    (value : StackValue α) :
    step? keeping cases ending (state.store slot value) = some (following.store slot value) := by
  obtain ⟨current, values, found, executed, selected⟩ := step?_eq_some.mp stepped
  have apartHere : ∀ instruction ∈ current.body, instruction.slot? ≠ some slot :=
    fun instruction member => apart instruction
      (List.mem_flatMap.mpr ⟨current, mem_of_find? found, member⟩)
  exact step?_eq_some.mpr ⟨current, values.store slot value, found,
    (StackState.executeAll?_store apartHere executed).1, select?_store selected value⟩

/-- A slot that no case addresses makes no difference to a run of the cases. -/
theorem path_store (apart : ∀ instruction ∈ bodies cases, instruction.slot? ≠ some slot)
    {first last : State α} {visited : List Int}
    (path : Path (step? keeping cases ending) (·.case) first visited last) (value : StackValue α) :
    Path (step? keeping cases ending) (·.case) (first.store slot value) visited
      (last.store slot value) := by
  induction path with
  | here => exact .here
  | next stepped _ ih => exact .next (step?_store apart stepped value) ih

end MachineCase

end TapeCode
