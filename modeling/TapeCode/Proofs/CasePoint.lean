import TapeCode.Proofs.Path
import TapeCode.Stack.Cases

/-!
# State machines instruction by instruction

A state machine takes a whole case as one step. Here it is run in smaller steps: an instruction of
the body of the case it is in, or, at the end of the body, the dispatch, which puts it at the start of
the case selected. Numbers of cases are addresses. A run in small steps from the start of a case until
the machine is left is a run in whole cases.
-/
namespace TapeCode

structure CasePoint where
  case : Int
  rest : Listing
  values : StackState Int

namespace CasePoint

/-- The body of a case; there is nothing to execute where the machine has no case. -/
def bodyOf (cases : List MachineCase) (number : Int) : Listing :=
  (MachineCase.find? cases number).elim [] (·.body)

/-- The start of the case that the machine is in. -/
def enter (cases : List MachineCase) (state : MachineCase.State Int) : CasePoint :=
  ⟨state.case, bodyOf cases state.case, state.values⟩

def step? (cases : List MachineCase) (ending : EndOfInput) (point : CasePoint) :
    Option CasePoint :=
  match point.rest with
  | instruction :: rest => do
    return ⟨point.case, rest, ← point.values.execute? ending instruction⟩
  | [] => do
    let current ← MachineCase.find? cases point.case
    return enter cases (← MachineCase.select? .asAddress cases point.case point.values
      current.dispatch)

def hasLeft (cases : List MachineCase) (point : CasePoint) : Bool :=
  point.case = cases.length + 1

variable {cases : List MachineCase} {ending : EndOfInput}

theorem step?_execute {number : Int} {instruction : Instruction} {rest : Listing}
    {values after : StackState Int} (executed : values.execute? ending instruction = some after) :
    step? cases ending ⟨number, instruction :: rest, values⟩ = some ⟨number, rest, after⟩ := by
  simp [step?, executed]

theorem step?_dispatch {number : Int} {values : StackState Int} {current : MachineCase}
    {next : MachineCase.State Int} (found : MachineCase.find? cases number = some current)
    (selected : MachineCase.select? .asAddress cases number values current.dispatch = some next) :
    step? cases ending ⟨number, [], values⟩ = some (enter cases next) := by
  simp [step?, found, selected]

theorem bodyOf_left (cases : List MachineCase) : bodyOf cases (cases.length + 1) = [] := by
  simp [bodyOf, MachineCase.find?]

/-- Whether what is left of a case can be executed and selects the next one. -/
def Completes (cases : List MachineCase) (ending : EndOfInput) (point : CasePoint)
    (next : MachineCase.State Int) : Prop :=
  ∃ current values, MachineCase.find? cases point.case = some current ∧
    point.values.executeAll? ending point.rest = some values ∧
    MachineCase.select? .asAddress cases point.case values current.dispatch = some next

theorem Completes.step? {state next : MachineCase.State Int}
    (completes : Completes cases ending (enter cases state) next) :
    MachineCase.step? .asAddress cases ending state = some next := by
  obtain ⟨current, values, found, ran, selected⟩ := completes
  simp only [enter] at found ran selected
  rw [bodyOf, found, Option.elim_some] at ran
  simp [MachineCase.step?, found, ran, selected]

theorem enter_injective {first second : MachineCase.State Int}
    (same : enter cases first = enter cases second) : first = second := by
  obtain ⟨firstCase, firstValues⟩ := first
  obtain ⟨secondCase, secondValues⟩ := second
  simp only [enter, CasePoint.mk.injEq] at same
  rw [same.1, same.2.2]

/-- A run in small steps is cut at its first dispatch. -/
private theorem path_split {point last : CasePoint} {marks : List Int}
    (path : Path (CasePoint.step? cases ending) (·.case) point marks last)
    (within : point.rest <:+ bodyOf cases point.case) {final : MachineCase.State Int}
    (ends : last = enter cases final) :
    point = last ∨ ∃ next visited, Completes cases ending point next ∧
      Path (MachineCase.step? .asAddress cases ending) (·.case) next visited final := by
  induction path with
  | here => exact .inl rfl
  | @next point following last marks stepped onwards ih =>
    obtain ⟨number, rest, values⟩ := point
    cases rest with
    | nil =>
      simp only [CasePoint.step?, Option.bind_eq_bind, Option.bind_eq_some_iff, Option.pure_def,
        Option.some.injEq] at stepped
      obtain ⟨current, found, next, selected, rfl⟩ := stepped
      refine .inr ⟨next, ?_⟩
      -- The dispatch is taken here; the induction hypothesis cuts the rest at the one after it.
      rcases ih (List.suffix_refl _) ends with here | ⟨behind, visited, completes, path⟩
      · obtain rfl := enter_injective (here.trans ends)
        exact ⟨[], ⟨current, values, found, rfl, selected⟩, .here⟩
      · exact ⟨_, ⟨current, values, found, rfl, selected⟩, .next completes.step? path⟩
    | cons instruction rest =>
      simp only [CasePoint.step?, Option.bind_eq_bind, Option.bind_eq_some_iff, Option.pure_def,
        Option.some.injEq] at stepped
      obtain ⟨after, executed, rfl⟩ := stepped
      have shorter : rest <:+ bodyOf cases number := (List.suffix_cons _ _).trans within
      rcases ih shorter ends with here | ⟨next, visited, ⟨current, finished, found, ran, selected⟩, path⟩
      · -- Behind an instruction of its body the machine is not at the start of a case.
        obtain ⟨sameCase, whole, -⟩ := CasePoint.mk.inj (here.trans ends)
        have length := within.length_le
        rw [List.length_cons, whole, ← sameCase] at length
        exact absurd length (Nat.not_succ_le_self _)
      · refine .inr ⟨next, visited, ⟨current, finished, found, ?_, selected⟩, path⟩
        simpa [StackState.executeAll?, executed] using ran

/-- A run in small steps from the start of one case to the start of another, or until the machine is
left, is a run in whole cases. -/
theorem path_cases {first final : MachineCase.State Int} {marks : List Int}
    (path : Path (CasePoint.step? cases ending) (·.case) (enter cases first) marks
      (enter cases final)) :
    ∃ visited, Path (MachineCase.step? .asAddress cases ending) (·.case) first visited final := by
  rcases path_split path (List.suffix_refl _) rfl with here | ⟨next, visited, completes, onwards⟩
  · obtain rfl := enter_injective here
    exact ⟨[], .here⟩
  · exact ⟨_, .next completes.step? onwards⟩

end CasePoint

end TapeCode
