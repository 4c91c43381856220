import TapeCode.Proofs.Bytes
import TapeCode.Proofs.CaseRuns
import TapeCode.Proofs.Correspondence

/-!
# Numbers of cases as bytes

On a tape the number of a case is a byte like all others. With at most 127 cases every number that a
call can leave fits, so a machine that keeps its numbers as bytes does what one does that keeps them as
addresses, case by case.
-/
namespace TapeCode

namespace MachineCase

/-- The byte that stands for a case, or for the way out behind the last one. -/
def NumberByte (cases : List MachineCase) (number : Int) (value : StackValue Empty) : Prop :=
  (1 ≤ number ∧ number ≤ cases.length + 1) ∧ value = .byte (UInt8.ofInt number)

variable {cases : List MachineCase} {ending : EndOfInput}

theorem toNat_numberByte (few : cases.length ≤ 127) {number : Int} (first : 1 ≤ number)
    (last : number ≤ cases.length + 1) : ((UInt8.ofInt number).toNat : Int) = number := by
  rw [Byte.toNat_ofInt (by omega) (by omega)]
  omega

theorem select?_byte (few : cases.length ≤ 127) {current : Int} (first : 1 ≤ current)
    (last : current ≤ cases.length) {values : StackState Int} {others : StackState Empty}
    (same : values.Corresponds (NumberByte cases) others) {dispatch : CaseDispatch}
    {next : State Int} (selected : select? .asAddress cases current values dispatch = some next) :
    ∃ after, select? .asByte cases current others dispatch = some ⟨next.case, after⟩ ∧
      next.values.Corresponds (NumberByte cases) after := by
  cases dispatch with
  | jump target =>
    obtain rfl := Option.some.inj selected
    exact ⟨others, rfl, same⟩
  | branch nonzero zero =>
    obtain ⟨condition, below, rfl, rfl⟩ := select?_branch_eq_some.mp selected
    obtain ⟨after, taken, corresponds⟩ := same.popByte? rfl
    exact ⟨after, by simp [select?, taken], corresponds⟩
  | call target =>
    obtain rfl := Option.some.inj selected
    -- Of at most 127 cases the number fits a byte.
    have kept : NumberByte cases (current + 1) (.byte (UInt8.ofInt (current + 1))) :=
      ⟨⟨by omega, by omega⟩, rfl⟩
    exact ⟨_, rfl, same.push (.address kept)⟩
  | back =>
    obtain ⟨value, below, number, rfl, found, rfl⟩ := select?_back_eq_some.mp selected
    obtain ⟨other, after, taken, kept, corresponds⟩ := same.pop? rfl
    cases kept with
    | byte => cases found
    | address kept =>
      obtain ⟨⟨low, high⟩, rfl⟩ := kept
      obtain rfl := Option.some.inj found
      refine ⟨after, ?_, corresponds⟩
      simp [select?, taken, CaseKeeping.asByte, toNat_numberByte few low high]

/-- A run with numbers as addresses is a run with numbers as bytes. -/
theorem path_byte (few : cases.length ≤ 127) {first final : State Int} {visited : List Int}
    (path : Path (step? .asAddress cases ending) (·.case) first visited final)
    {values : StackState Empty} (same : first.values.Corresponds (NumberByte cases) values) :
    ∃ after, Path (step? .asByte cases ending) (·.case) ⟨first.case, values⟩ visited
        ⟨final.case, after⟩ ∧
      final.values.Corresponds (NumberByte cases) after := by
  induction path generalizing values with
  | here => exact ⟨values, .here, same⟩
  | @next state following last marks stepped onwards ih =>
    obtain ⟨current, between, found, executed, selected⟩ := step?_eq_some.mp stepped
    obtain ⟨low, high⟩ := find?_within found
    obtain ⟨others, went, agrees⟩ := same.executeAll? executed
    obtain ⟨after, chosen, corresponds⟩ := select?_byte few low high agrees selected
    obtain ⟨finish, path, ends⟩ := ih corresponds
    have taken : step? .asByte cases ending ⟨state.case, values⟩ = some ⟨following.case, after⟩ :=
      step?_eq_some.mpr ⟨current, others, found, went, chosen⟩
    exact ⟨finish, .next taken path, ends⟩

end MachineCase

end TapeCode
