import TapeCode.Proofs.Emission
import TapeCode.Proofs.Monads

/-!
# The machines that are open

`Opens` says all that an instruction which is written can do to the open machines: one is begun, the
innermost one comes to its next case, or it ends after the cases that it declares. A stream is written
instruction by instruction, so what every instruction keeps holds at each place of the stream; and a
stream that is refused is written up to an instruction that fails, or leaves a machine open.
-/
namespace TapeCode

namespace Instruction

/-- The cases that a dispatch may lead to. -/
def caseTargets : Instruction → List Int
  | .fsmJump target | .fsmCall target => [target]
  | .fsmIf nonzero zero => [nonzero, zero]
  | _ => []

/-- Whether the instruction begins or ends a machine or begins a case. -/
def shapesMachines : Instruction → Bool
  | .fsmBegin _ | .fsmCase | .fsmEnd => true
  | _ => false

end Instruction

namespace Writer

/-- What an instruction that is written does to the open machines. -/
inductive Opens : List OpenMachine → Instruction → List OpenMachine → Prop
  | begins {opened : List OpenMachine} {count : Int} (few : count ≤ Dispatch.mostCases) :
      Opens opened (.fsmBegin count) (⟨0, count⟩ :: opened)
  | nextCase {machine : OpenMachine} {outer : List OpenMachine} :
      Opens (machine :: outer) .fsmCase (⟨machine.begun + 1, machine.count⟩ :: outer)
  | ends {machine : OpenMachine} {outer : List OpenMachine}
      (complete : machine.begun = machine.count) : Opens (machine :: outer) .fsmEnd outer
  | stays {opened : List OpenMachine} {instruction : Instruction}
      (other : instruction.shapesMachines = false) : Opens opened instruction opened

variable {style : CodeStyle} {opened between after : List OpenMachine} {instruction : Instruction}
  {stream : Listing} {text code : List Char} {error : EmitError}

/-! ## One instruction -/

/-- Effects that write or fail leave the machines as they are. -/
theorem perform_opened {actions : List Effect} (plain : ∀ machines, .machines machines ∉ actions) :
    (perform opened actions).opened = opened := by
  induction actions with
  | nil => rfl
  | cons action rest ih =>
    have others := ih fun machines member => plain machines (List.mem_cons_of_mem _ member)
    cases action with
    | write text => exact others
    | machines opened => exact absurd List.mem_cons_self (plain opened)
    | fail error => rfl

theorem jumpEffects_plain (opened : List OpenMachine) (target : Int) (machines : List OpenMachine) :
    .machines machines ∉ jumpEffects opened target := by
  unfold jumpEffects
  split <;> simp

theorem bodyEffects_plain (other : instruction.shapesMachines = false)
    (machines : List OpenMachine) : .machines machines ∉ bodyEffects style opened instruction := by
  have heap (code : Template.HeapWalk → List Char) (layout : List Int) :
      .machines machines ∉ heapEffects code layout := by
    unfold heapEffects
    split <;> simp
  cases instruction with
  | fsmBegin | fsmCase | fsmEnd => cases other
  | readLocal layout | writeLocal layout | clearLocal layout => exact heap _ layout
  | fsmJump target => exact jumpEffects_plain opened target machines
  | fsmIf nonzero zero =>
    simp only [bodyEffects, branchEffects]
    split <;> simp
  | fsmCall target =>
    simp only [bodyEffects, callEffects]
    split
    · simp
    · simpa using jumpEffects_plain _ target machines
  | fsmReturn =>
    simp only [bodyEffects, returnEffects]
    split
    · simp
    · split <;> simp
  | _ => simp [bodyEffects]

theorem opens_of_perform
    (done : perform opened (bodyEffects style opened instruction) = ⟨text, after, none⟩) :
    Opens opened instruction after := by
  by_cases other : instruction.shapesMachines = false
  · have stays := @perform_opened opened _ (@bodyEffects_plain style opened instruction other)
    rw [done] at stays
    subst stays
    exact .stays other
  -- The three instructions that are left are those that `shapesMachines` names.
  cases instruction with
  | fsmBegin count =>
    simp only [bodyEffects, beginEffects] at done
    split at done
    next => cases done
    next few =>
      obtain ⟨-, rfl, -⟩ := Emission.mk.inj done
      exact .begins (Int.not_lt.mp few)
  | fsmCase =>
    cases opened with
    | nil => cases done
    | cons machine outer =>
      obtain ⟨-, rfl, -⟩ := Emission.mk.inj done
      exact .nextCase
  | fsmEnd =>
    cases opened with
    | nil => cases done
    | cons machine outer =>
      simp only [bodyEffects, endEffects] at done
      split at done
      next complete =>
        obtain ⟨-, rfl, -⟩ := Emission.mk.inj done
        exact .ends complete
      next => cases done
  | _ => exact absurd rfl other

theorem offset_eq_ok {name : String} {target number : Int} :
    offset opened name target = .ok number ↔ ∃ machine outer, opened = machine :: outer ∧
      Dispatch.caseOffset machine.begun target machine.count = .ok number := by
  cases opened with
  | nil => exact ⟨nofun, nofun⟩
  | cons machine outer =>
    refine Except.mapError_eq_ok.trans ⟨fun found => ⟨machine, outer, rfl, found⟩, ?_⟩
    rintro ⟨_, _, same, found⟩
    obtain ⟨rfl, -⟩ := List.cons.inj same
    exact found

/-- A dispatch that is written has an offset for each of its targets. -/
theorem caseOffset_of_perform
    (done : perform opened (bodyEffects style opened instruction) = ⟨text, after, none⟩)
    {target : Int} (member : target ∈ instruction.caseTargets) :
    ∃ machine outer number, opened = machine :: outer ∧
      Dispatch.caseOffset machine.begun target machine.count = .ok number := by
  have jump {text : List Char} {target : Int}
      (done : perform opened (jumpEffects opened target) = ⟨text, after, none⟩) :
      ∃ number, offset opened Opcode.fsmJump.name target = .ok number := by
    unfold jumpEffects at done
    split at done
    next => cases done
    next number found => exact ⟨number, found⟩
  have found : ∃ name number, offset opened name target = .ok number := by
    cases instruction with
    | fsmJump other =>
      obtain rfl := List.mem_singleton.mp member
      exact ⟨_, jump done⟩
    | fsmCall other =>
      -- The return address is written first, and then the jump.
      obtain rfl := List.mem_singleton.mp member
      cases opened with
      | nil => cases done
      | cons machine outer =>
        simp only [bodyEffects, callEffects, perform, Emission.mk.injEq] at done
        obtain ⟨-, stays, ended⟩ := done
        refine ⟨_, @jump (perform (machine :: outer) (jumpEffects (machine :: outer) target)).text target ?_⟩
        rw [← stays, ← ended]
    -- A branch writes both of its offsets or none.
    | fsmIf nonzero zero =>
      simp only [bodyEffects, branchEffects] at done
      split at done
      next => cases done
      next => cases done
      next first second foundFirst foundSecond =>
        rcases List.mem_cons.mp member with rfl | member
        · exact ⟨_, first, foundFirst⟩
        · obtain rfl := List.mem_singleton.mp member
          exact ⟨_, second, foundSecond⟩
    | _ => cases member
  obtain ⟨name, number, found⟩ := found
  obtain ⟨machine, outer, same, offset⟩ := offset_eq_ok.mp found
  exact ⟨machine, outer, number, same, offset⟩

/-! ## Streams -/

theorem Emits.cons_iff {rest : Listing} : Emits style opened (instruction :: rest) code after ↔
    ∃ text between more,
      perform opened (bodyEffects style opened instruction) = ⟨text, between, none⟩ ∧
      Emits style between rest more after ∧
      code = preamble style instruction ++ text ++ postamble style ++ more := by
  constructor
  · rintro (_ | ⟨first, others⟩)
    generalize body : perform opened (bodyEffects style opened instruction) = emission at *
    obtain ⟨text, between, failure⟩ := emission
    cases failure with
    | some error =>
      rw [perform_effects_failing style body] at first
      cases first
    | none =>
      rw [perform_effects style body] at first
      obtain ⟨rfl, rfl, -⟩ := Emission.mk.inj first
      exact ⟨text, between, _, rfl, others, rfl⟩
  · rintro ⟨text, between, more, done, others, rfl⟩
    exact .cons (perform_effects style done) others

theorem Emits.append_inv {first second : Listing}
    (emits : Emits style opened (first ++ second) code after) :
    ∃ text between more, Emits style opened first text between ∧
      Emits style between second more after := by
  induction first generalizing opened code with
  | nil => exact ⟨[], opened, code, .nil, emits⟩
  | cons instruction first ih =>
    obtain ⟨text, between, more, done, others, -⟩ := Emits.cons_iff.mp emits
    obtain ⟨front, middle, back, left, right⟩ := ih others
    exact ⟨_, middle, back, Emits.cons_iff.mpr ⟨text, between, front, done, left, rfl⟩, right⟩

/-- What every instruction keeps holds behind the stream. -/
theorem Emits.keeps {invariant : Listing → List OpenMachine → Prop}
    (emits : Emits style opened stream code after) {passed : Listing}
    (begins : invariant passed opened)
    (kept : ∀ passed opened instruction after, invariant passed opened →
      Opens opened instruction after → invariant (passed ++ [instruction]) after) :
    invariant (passed ++ stream) after := by
  induction stream generalizing opened passed code with
  | nil =>
    cases emits
    rwa [List.append_nil]
  | cons instruction rest ih =>
    obtain ⟨text, between, more, done, others, -⟩ := Emits.cons_iff.mp emits
    have behind := ih others (kept passed opened instruction between begins (opens_of_perform done))
    rwa [List.append_assoc, List.singleton_append] at behind

theorem emits_of_streamCode (written : streamCode style opened stream = .ok code) :
    Emits style opened stream code [] := by
  induction stream generalizing opened code with
  | nil =>
    unfold streamCode at written
    split at written
    next closed =>
      obtain rfl := List.isEmpty_iff.mp closed
      obtain rfl := Except.ok.inj written
      exact .nil
    next => cases written
  | cons instruction rest ih =>
    obtain ⟨text, between, more, done, onwards, rfl⟩ := streamCode_cons_eq_ok written
    exact Emits.cons_iff.mpr ⟨text, between, more, done, ih onwards, rfl⟩

/-- An instruction that fails is what its stream is refused for, whatever stands behind it. -/
theorem streamCode_of_failing {before rest : Listing} (emits : Emits style opened before text between)
    (failed : (perform between (bodyEffects style between instruction)).failure = some error) :
    streamCode style opened (before ++ instruction :: rest) = .error error := by
  induction before generalizing opened text with
  | nil =>
    cases emits
    exact streamCode_cons_failing style (by rw [← failed]) rest
  | cons first before ih =>
    obtain ⟨_, middle, _, done, others, -⟩ := Emits.cons_iff.mp emits
    rw [List.cons_append, streamCode_cons style done, ih others]
    rfl

/-- A stream is refused for an instruction that fails or for the machines that it leaves open. -/
theorem streamCode_eq_error (refused : streamCode style opened stream = .error error) :
    (∃ machines, error = .unterminated machines) ∨
      ∃ before instruction rest text between, stream = before ++ instruction :: rest ∧
        Emits style opened before text between ∧
        (perform between (bodyEffects style between instruction)).failure = some error := by
  induction stream generalizing opened with
  | nil =>
    unfold streamCode at refused
    split at refused
    next => cases refused
    next => exact .inl ⟨_, (Except.error.inj refused).symm⟩
  | cons instruction rest ih =>
    generalize body : perform opened (bodyEffects style opened instruction) = emission
    obtain ⟨text, between, failure⟩ := emission
    -- The first instruction fails, or the rest does from the machines that it leaves open.
    cases failure with
    | some failure =>
      rw [streamCode_cons_failing style body] at refused
      obtain rfl := Except.error.inj refused
      exact .inr ⟨[], instruction, rest, [], opened, rfl, .nil, by rw [body]⟩
    | none =>
      rw [streamCode_cons style body] at refused
      cases streamed : streamCode style between rest with
      | ok more => rw [streamed] at refused; cases refused
      | error other =>
        rw [streamed] at refused
        obtain rfl := Except.error.inj refused
        refine (ih streamed).imp_right ?_
        rintro ⟨before, failing, behind, more, middle, rfl, emits, failed⟩
        exact ⟨instruction :: before, failing, behind, _, middle, rfl,
          Emits.cons_iff.mpr ⟨text, between, more, body, emits, rfl⟩, failed⟩

end Writer

end TapeCode
