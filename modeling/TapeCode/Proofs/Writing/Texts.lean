import TapeCode.Proofs.Emission
import TapeCode.Proofs.Monads
import TapeCode.Proofs.Ribbon.Basic

/-!
# The text of an instruction

What the writer writes for an instruction consists of commands, and how many loops it closes and leaves
open depends on the kind of the instruction alone: a condition or a case opens one that another
instruction closes, and everything else closes what it opens.
-/
namespace TapeCode

/-- Commands that close so many loops from outside, and leave so many open. -/
structure IsCode (closes opens : Nat) (text : List Char) : Prop where
  commands : text.all isCommand = true
  brackets : Balanced.depthBehind closes text = some opens

instance (closes opens : Nat) (text : List Char) : Decidable (IsCode closes opens text) :=
  decidable_of_iff (text.all isCommand = true ∧ Balanced.depthBehind closes text = some opens)
    ⟨fun both => ⟨both.1, both.2⟩, fun code => ⟨code.commands, code.brackets⟩⟩

namespace IsCode

variable {closes between opens : Nat} {first second : List Char}

theorem nil : IsCode 0 0 [] := by decide

theorem append (left : IsCode closes between first) (right : IsCode between opens second) :
    IsCode closes opens (first ++ second) where
  commands := by rw [List.all_append, left.commands, right.commands]; rfl
  brackets := by rw [Balanced.depthBehind_append left.brackets, right.brackets]

/-- The same code with further loops around it. -/
theorem within (code : IsCode closes opens first) (more : Nat) :
    IsCode (closes + more) (opens + more) first :=
  ⟨code.commands, Balanced.depthBehind_add code.brackets more⟩

theorem flatMap {α : Type} {items : List α} {text : α → List Char}
    (each : ∀ item ∈ items, IsCode 0 0 (text item)) : IsCode 0 0 (items.flatMap text) := by
  induction items with
  | nil => exact nil
  | cons item items ih =>
    obtain ⟨here, others⟩ := List.forall_mem_cons.mp each
    rw [List.flatMap_cons]
    exact here.append (ih others)

end IsCode

namespace Template

theorem pushInt_isCode (value : Int) : IsCode 0 0 (pushInt value) := by
  have step : IsCode 0 0 (stack ">") := by decide
  refine step.append ⟨?_, Balanced.depthBehind_of_all ?_ 0⟩ <;>
  · rw [List.all_replicate]
    split <;> rfl

theorem machineBegin_isCode : IsCode 0 1 machineBegin := by decide

theorem machineEnd_isCode : IsCode 1 0 machineEnd := by decide

theorem caseBegin_isCode : IsCode 0 1 caseBegin := by decide

theorem caseEnd_isCode : IsCode 1 0 caseEnd := by decide

/-! ## Ways to the heap -/

theorem cellCode_isCode {number : Int} {code : ValueType.CellCode} (found : cellCode number = .ok code) :
    IsCode 0 0 code.away.toList ∧ IsCode 0 0 code.back.toList ∧ IsCode 0 0 code.clear.toList := by
  unfold cellCode at found
  split at found
  next => cases found
  next type _ =>
    cases type
    case void => cases found
    all_goals
      obtain rfl := Except.ok.inj found
      decide

theorem cellCodes_isCode {layout : List Int} {codes : List ValueType.CellCode}
    (found : cellCodes layout = .ok codes) : ∀ code ∈ codes,
      IsCode 0 0 code.away.toList ∧ IsCode 0 0 code.back.toList ∧ IsCode 0 0 code.clear.toList := by
  induction layout generalizing codes with
  | nil =>
    obtain rfl := Except.ok.inj found
    nofun
  | cons number layout ih =>
    simp only [cellCodes, Except.bind_eq_ok] at found
    obtain ⟨first, foundFirst, rest, foundRest, same⟩ := found
    obtain rfl := Except.ok.inj same
    exact List.forall_mem_cons.mpr ⟨cellCode_isCode foundFirst, ih foundRest⟩

/-- The walk to a slot and back, and the code that clears the slot, close all their loops. -/
theorem heapWalk_isCode {layout : List Int} {walk : HeapWalk} (found : heapWalk layout = .ok walk) :
    IsCode 0 0 walk.away ∧ IsCode 0 0 walk.back ∧ IsCode 0 0 walk.clear := by
  obtain ⟨codes, foundCodes, found⟩ := Except.bind_eq_ok.mp found
  have each := cellCodes_isCode foundCodes
  cases last : codes.getLast? with
  | none => rw [last] at found; cases found
  | some target =>
    rw [last] at found
    obtain rfl := Except.ok.inj found
    -- The links are walked along in order, and back in reverse; only the slot itself is cleared.
    have before : ∀ code ∈ codes.dropLast, code ∈ codes :=
      fun _ member => (List.dropLast_sublist _).subset member
    have setsLinks : IsCode 0 0 "<+[<<+]<".toList := by decide
    have clearsLinks : IsCode 0 0 ">->>[->>]<".toList := by decide
    refine ⟨setsLinks.append (.flatMap ?_), .append (.flatMap ?_) clearsLinks,
      (each target (List.mem_of_getLast? last)).2.2⟩
    · exact fun code member => (each code (before code member)).1
    · exact fun code member => (each code (before code (List.mem_reverse.mp member))).2.1

variable {walk : HeapWalk}

theorem read_isCode (away : IsCode 0 0 walk.away) (back : IsCode 0 0 walk.back) :
    IsCode 0 0 walk.read := by
  have steps : IsCode 0 0 ">>".toList := by decide
  have opening : IsCode 0 1 "[-".toList := by decide
  have adds : IsCode 1 1 "+".toList := by decide
  have closing : IsCode 1 0 "]".toList := by decide
  exact ((((((steps.append away).append opening).append (back.within 1)).append adds).append
    (away.within 1)).append closing).append back

theorem write_isCode (away : IsCode 0 0 walk.away) (back : IsCode 0 0 walk.back) :
    IsCode 0 0 walk.write := by
  have clears : IsCode 0 0 "[-]".toList := by decide
  have opening : IsCode 0 1 "[-".toList := by decide
  have adds : IsCode 1 1 "+".toList := by decide
  have closing : IsCode 1 0 "]<<".toList := by decide
  exact ((((((away.append clears).append back).append opening).append (away.within 1)).append
    adds).append (back.within 1)).append closing

theorem erase_isCode (away : IsCode 0 0 walk.away) (back : IsCode 0 0 walk.back)
    (clear : IsCode 0 0 walk.clear) : IsCode 0 0 walk.erase :=
  (away.append clear).append back

end Template

/-! ## Instructions -/

namespace Instruction

/-- How many loops of other instructions the instruction closes. -/
def closes : Instruction → Nat
  | .ifElseElse | .ifElseEnd | .fsmEnd | .fsmJump _ | .fsmIf _ _ | .fsmCall _ | .fsmReturn => 1
  | _ => 0

/-- How many loops it leaves to others to close. -/
def opens : Instruction → Nat
  | .ifElseBegin | .ifElseElse | .fsmBegin _ | .fsmCase => 1
  | _ => 0

end Instruction

namespace Writer

variable {style : CodeStyle} {opened after : List OpenMachine} {text : List Char}

theorem heapEffects_isCode {code : Template.HeapWalk → List Char} {layout : List Int}
    (each : ∀ walk, IsCode 0 0 walk.away → IsCode 0 0 walk.back → IsCode 0 0 walk.clear →
      IsCode 0 0 (code walk))
    (done : perform opened (heapEffects code layout) = ⟨text, after, none⟩) : IsCode 0 0 text := by
  unfold heapEffects at done
  split at done
  next => cases done
  next walk found =>
    rw [perform_write] at done
    obtain ⟨rfl, -, -⟩ := Emission.mk.inj done
    obtain ⟨away, back, clear⟩ := Template.heapWalk_isCode found
    exact each walk away back clear

theorem jumpEffects_isCode {target : Int}
    (done : perform opened (jumpEffects opened target) = ⟨text, after, none⟩) : IsCode 1 0 text := by
  unfold jumpEffects at done
  split at done
  next => cases done
  next offset _ =>
    rw [perform_write] at done
    obtain ⟨rfl, -, -⟩ := Emission.mk.inj done
    exact ((Template.pushInt_isCode offset).within 1).append Template.caseEnd_isCode

theorem branchEffects_isCode {nonzero zero : Int}
    (done : perform opened (branchEffects opened nonzero zero) = ⟨text, after, none⟩) :
    IsCode 1 0 text := by
  have begins : IsCode 0 1 Template.ifElseBegin := by decide
  have between : IsCode 1 1 Template.ifElseElse := by decide
  have ends : IsCode 1 0 Template.ifElseEnd := by decide
  simp only [branchEffects] at done
  split at done
  next => cases done
  next => cases done
  next first second _ _ =>
    rw [perform_write] at done
    obtain ⟨rfl, -, -⟩ := Emission.mk.inj done
    have both := (((begins.append ((Template.pushInt_isCode first).within 1)).append between).append
      ((Template.pushInt_isCode second).within 1)).append ends
    exact (both.within 1).append Template.caseEnd_isCode

theorem callEffects_isCode {target : Int}
    (done : perform opened (callEffects opened target) = ⟨text, after, none⟩) : IsCode 1 0 text := by
  unfold callEffects at done
  split at done
  next => cases done
  next machine _ =>
    generalize leads : perform (machine :: _) (jumpEffects (machine :: _) target) = emission at done
    obtain ⟨more, between, failure⟩ := emission
    rw [perform, leads] at done
    obtain ⟨rfl, rfl, rfl⟩ := Emission.mk.inj done
    exact ((Template.pushInt_isCode _).within 1).append (jumpEffects_isCode leads)

theorem returnEffects_isCode
    (done : perform opened (returnEffects opened) = ⟨text, after, none⟩) : IsCode 1 0 text := by
  have adds : IsCode 0 0 Template.add := by decide
  unfold returnEffects at done
  split at done
  next => cases done
  next machine _ =>
    split at done
    next => cases done
    next =>
      rw [perform_write] at done
      obtain ⟨rfl, -, -⟩ := Emission.mk.inj done
      exact (((Template.pushInt_isCode _).append adds).within 1).append Template.caseEnd_isCode

theorem beginEffects_isCode {count : Int}
    (done : perform opened (beginEffects opened count) = ⟨text, after, none⟩) : IsCode 0 1 text := by
  unfold beginEffects at done
  split at done
  next => cases done
  next =>
    rw [perform, perform_write] at done
    obtain ⟨rfl, -, -⟩ := Emission.mk.inj done
    exact Template.machineBegin_isCode

theorem caseEffects_isCode
    (done : perform opened (caseEffects opened) = ⟨text, after, none⟩) : IsCode 0 1 text := by
  unfold caseEffects at done
  split at done
  next => cases done
  next =>
    rw [perform, perform_write] at done
    obtain ⟨rfl, -, -⟩ := Emission.mk.inj done
    exact Template.caseBegin_isCode

theorem endEffects_isCode
    (done : perform opened (endEffects opened) = ⟨text, after, none⟩) : IsCode 1 0 text := by
  unfold endEffects at done
  split at done
  next => cases done
  next =>
    split at done
    next =>
      rw [perform, perform, perform, List.append_nil] at done
      obtain ⟨rfl, -, -⟩ := Emission.mk.inj done
      exact Template.machineEnd_isCode
    next => cases done

/-- What is written for an instruction is code, but for the mark of a breakpoint. -/
theorem bodyEffects_isCode {instruction : Instruction} (ordinary : instruction ≠ .breakpoint)
    (done : perform opened (bodyEffects style opened instruction) = ⟨text, after, none⟩) :
    IsCode instruction.closes instruction.opens text := by
  have written {template : List Char} {closes opens : Nat} (code : IsCode closes opens template)
      (done : perform opened [.write template] = ⟨text, after, none⟩) : IsCode closes opens text := by
    rw [perform_write] at done
    obtain ⟨rfl, -, -⟩ := Emission.mk.inj done
    exact code
  cases instruction with
  | nop =>
    obtain ⟨rfl, -, -⟩ := Emission.mk.inj done
    exact .nil
  | breakpoint => exact absurd rfl ordinary
  | pushInt value => exact written (Template.pushInt_isCode value) done
  | readLocal => exact heapEffects_isCode (fun _ away back _ => Template.read_isCode away back) done
  | writeLocal => exact heapEffects_isCode (fun _ away back _ => Template.write_isCode away back) done
  | clearLocal => exact heapEffects_isCode (fun _ => Template.erase_isCode) done
  | fsmBegin => exact beginEffects_isCode done
  | fsmCase => exact caseEffects_isCode done
  | fsmEnd => exact endEffects_isCode done
  | fsmJump => exact jumpEffects_isCode done
  | fsmIf => exact branchEffects_isCode done
  | fsmCall => exact callEffects_isCode done
  | fsmReturn => exact returnEffects_isCode done
  | jump | jumpIf | label | invoke | leave => cases done
  | _ => exact written (by decide +kernel) done

end Writer

end TapeCode
