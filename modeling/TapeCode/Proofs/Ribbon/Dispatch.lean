import TapeCode.Proofs.CaseRuns

/-!
# Choices and dispatch on a ribbon

While a state machine looks for its next case, a counter lies on top of the stack. A case is tried by
lowering the counter and asking whether it has become zero. The dispatch of a case leaves the counter
that leads to the next one: around the ring of the cases and the way out, that many places further
on.
-/
namespace TapeCode

open Stream' (cons)
open Ribbon (column top)

variable {ending : EndOfInput}

namespace Template

/-! ## Choices -/

section Choices

variable (column : Stream' UInt8) (input output : List UInt8) {first second : List Char}

private theorem choice_text (first second : List Char) :
    ifElseBegin ++ first ++ ifElseElse ++ second ++ ifElseEnd =
      ">+<".toList ++ ('[' :: (">-<".toList ++ (popInt ++ (first ++ ">".toList))) ++
        ']' :: (">".toList ++ ('[' :: ("-<<<".toList ++ (second ++ ">>".toList)) ++
          ']' :: "<<".toList))) := by
  have opens : ifElseBegin = ">+<".toList ++ '[' :: (">-<".toList ++ popInt) := rfl
  have turns : ifElseElse = ">".toList ++ ']' :: (">".toList ++ '[' :: "-<<<".toList) := rfl
  have closes : ifElseEnd = ">>".toList ++ ']' :: "<<".toList := rfl
  simp only [opens, turns, closes, List.append_assoc, List.cons_append]

theorem choice_balanced (matchedFirst : Balanced first) (matchedSecond : Balanced second) :
    Balanced (ifElseBegin ++ first ++ ifElseElse ++ second ++ ifElseEnd) := by
  have popped := (@popInt_runs .zero zeros [] [] 0).balanced
  rw [choice_text]
  exact (Balanced.of_scan rfl).append (.nest ((Balanced.of_scan rfl).append (popped.append
    (matchedFirst.append (.of_scan rfl)))) ((Balanced.of_scan rfl).append (.nest
      ((Balanced.of_scan rfl).append (matchedSecond.append (.of_scan rfl))) (.of_scan rfl))))

/-- Where either piece of a choice ends, the pointer goes back to the top of the stack. -/
private theorem settle_runs {after : Stream' UInt8} (afterInput afterOutput : List UInt8) :
    Runs ending "<<".toList
      ⟨cons 0 (cons after.head after.tail), 0, zeros, afterInput, afterOutput⟩
      (top after afterInput afterOutput) := by
  have down : Runs ending "<<".toList
      ⟨cons 0 (cons after.head after.tail), 0, zeros, afterInput, afterOutput⟩
      ⟨after.tail, after.head, cons 0 (cons 0 zeros), afterInput, afterOutput⟩ :=
    .straight "<<" rfl rfl
  exact .recast rfl down (by simp [top])

/-- A condition other than zero has the first piece executed, without the condition. -/
theorem choice_nonzero_runs {condition : UInt8} (nonzero : condition ≠ 0) {after : Stream' UInt8}
    {afterInput afterOutput : List UInt8}
    (runs : Runs ending first (top column input output) (top after afterInput afterOutput))
    (matched : Balanced second) :
    Runs ending (ifElseBegin ++ first ++ ifElseElse ++ second ++ ifElseEnd)
      (top (cons condition (cons 0 column)) input output) (top after afterInput afterOutput) := by
  -- The cell behind the condition is the mark that the second piece is still to be executed.
  have marked : Runs ending ">+<".toList
      ⟨cons 0 column, condition, cons 0 zeros, input, output⟩
      ⟨cons 0 column, condition, cons 1 zeros, input, output⟩ :=
    .straight ">+<" rfl rfl
  have unmarked : Runs ending ">-<".toList
      ⟨cons 0 column, condition, cons 1 zeros, input, output⟩
      ⟨cons 0 column, condition, cons (1 - 1) zeros, input, output⟩ :=
    .straight ">-<" rfl rfl
  have popped := @popInt_runs ending column input output condition
  have right : Runs ending ">".toList (top after afterInput afterOutput)
      ⟨cons after.head after.tail, 0, zeros, afterInput, afterOutput⟩ :=
    .straight ">" rfl rfl
  -- The first loop takes back the mark, and it ends behind its first turn, on a zero link.
  have turn := unmarked.append ((Runs.recast (by simp [top]) popped rfl).append (runs.append right))
  have onwards : Runs ending ">".toList
      ⟨cons after.head after.tail, 0, zeros, afterInput, afterOutput⟩
      ⟨cons 0 (cons after.head after.tail), 0, zeros, afterInput, afterOutput⟩ :=
    .straight ">" rfl rfl
  -- So the loop around the second piece is passed over.
  have other : Balanced ("-<<<".toList ++ (second ++ ">>".toList)) :=
    (Balanced.of_scan rfl).append (matched.append (.of_scan rfl))
  rw [choice_text]
  exact .recast (by simp [top]) (marked.append (.again nonzero turn (.leave turn.balanced rfl
    (onwards.append (.leave other rfl (settle_runs afterInput afterOutput)))))) rfl

/-- A condition of zero has the second piece executed. -/
theorem choice_zero_runs {after : Stream' UInt8} {afterInput afterOutput : List UInt8}
    (matched : Balanced first)
    (runs : Runs ending second (top column input output) (top after afterInput afterOutput)) :
    Runs ending (ifElseBegin ++ first ++ ifElseElse ++ second ++ ifElseEnd)
      (top (cons 0 (cons 0 column)) input output) (top after afterInput afterOutput) := by
  have marked : Runs ending ">+<".toList ⟨cons 0 column, 0, cons 0 zeros, input, output⟩
      ⟨cons 0 column, 0, cons 1 zeros, input, output⟩ :=
    .straight ">+<" rfl rfl
  -- The condition is zero, so the loop around the first piece is passed over, and the mark is kept.
  have other : Balanced (">-<".toList ++ (popInt ++ (first ++ ">".toList))) :=
    (Balanced.of_scan rfl).append
      ((@popInt_runs .zero zeros [] [] 0).balanced.append (matched.append (.of_scan rfl)))
  have onwards : Runs ending ">".toList ⟨cons 0 column, 0, cons 1 zeros, input, output⟩
      ⟨cons 0 (cons 0 column), 1, zeros, input, output⟩ :=
    .straight ">" rfl rfl
  have down : Runs ending "-<<<".toList ⟨cons 0 (cons 0 column), 1, zeros, input, output⟩
      ⟨column.tail, column.head, cons 0 (cons 0 (cons (1 - 1) zeros)), input, output⟩ :=
    .straight "-<<<" rfl rfl
  have right : Runs ending ">>".toList (top after afterInput afterOutput)
      ⟨cons 0 (cons after.head after.tail), 0, zeros, afterInput, afterOutput⟩ :=
    .straight ">>" rfl rfl
  have set : (1 : UInt8) ≠ 0 := by decide
  -- The loop around the second piece takes back the mark and ends behind its first turn.
  have turn := (Runs.recast rfl down (by simp [top])).append (runs.append right)
  rw [choice_text]
  exact .recast (by simp [top]) (marked.append (.leave other rfl (onwards.append
    (.again set turn (.leave turn.balanced rfl (settle_runs afterInput afterOutput)))))) rfl

end Choices

/-! ## Trying a case -/

/-- The part of the code before a case that finds out whether the case is the next one. -/
def caseTest : List Char := stack "-" ++ dupInt ++ not

theorem caseBegin_text : caseBegin = caseTest ++ '[' :: '-' :: "<<<<".toList := by
  decide +kernel

theorem caseEnd_text : caseEnd = ">>".toList ++ ']' :: "<<".toList := by
  decide +kernel

/-- The counter is lowered, and above it stands whether it is zero now. -/
theorem caseTest_runs (column : Stream' UInt8) (input output : List UInt8) (counter : UInt8) :
    Runs ending caseTest (top (cons counter column) input output)
      (top (cons (Byte.ofBool (counter - 1 = 0)) (cons 0 (cons (counter - 1) column))) input
        output) := by
  have lowered : Runs ending "-".toList (top (cons counter column) input output)
      (top (cons (counter - 1) column) input output) :=
    .straight "-" rfl rfl
  exact (lowered.append (dupInt_runs column input output (counter - 1))).append
    (not_runs (cons 0 (cons (counter - 1) column)) input output (counter - 1))

end Template

/-! ## The counter that a dispatch leaves -/

/-- From a place of the ring, counted from zero, a counter leads to the case at which it is lowered
to zero. -/
def LeadsTo (count place : Nat) (counter : UInt8) (next : Int) : Prop :=
  0 < counter.toNat ∧ ((((place + counter.toNat - 1) % (count + 1) : Nat) : Int) + 1) = next

namespace Dispatch

/-- The numbers that a dispatch may name: the cases, the way out behind them, and minus one for it. -/
def isTarget (count : Nat) (target : Int) : Bool :=
  target = exitCase || (1 ≤ target && target ≤ count + 1)

/-- The forward distance, as a number to push. -/
theorem caseOffset_leads {cases : List MachineCase} (few : cases.length ≤ 127) {place : Nat}
    (placed : place ≤ cases.length) {target : Int} (legal : isTarget cases.length target = true) :
    ∃ offset, caseOffset place target cases.length = .ok offset ∧
      LeadsTo cases.length place (UInt8.ofInt offset) (MachineCase.target cases target) := by
  have legal : target = -1 ∨ 1 ≤ target ∧ target ≤ cases.length + 1 := by
    simp only [isTarget, Bool.or_eq_true, Bool.and_eq_true, decide_eq_true_eq] at legal
    exact legal
  have range : 1 ≤ MachineCase.target cases target ∧
      MachineCase.target cases target ≤ cases.length + 1 := by
    unfold MachineCase.target
    split <;> omega
  -- None of the guards of the distance applies, so the distance is a number.
  have code : caseOffset place target cases.length =
      .ok (if (place : Int) < MachineCase.target cases target
        then MachineCase.target cases target - place
        else MachineCase.target cases target - place + cases.length + 1) := by
    have named : (if target = exitCase then (cases.length : Int) + 1 else target) =
        MachineCase.target cases target := rfl
    simp only [caseOffset, largest, named]
    rw [if_neg (by omega), if_neg (by omega), if_neg (by omega), if_neg (by omega)]
    split <;> rfl
  generalize MachineCase.target cases target = next at range code
  refine ⟨_, code, ?_⟩
  unfold LeadsTo
  -- A case ahead is reached in this lap, any other in the next one.
  split
  next ahead =>
    rw [Byte.toNat_ofInt (by omega) (by omega)]
    refine ⟨by omega, ?_⟩
    rw [Nat.mod_eq_of_lt (by omega)]
    omega
  next behind =>
    rw [Byte.toNat_ofInt (by omega) (by omega)]
    refine ⟨by omega, ?_⟩
    rw [Nat.mod_eq_sub_mod (by omega), Nat.mod_eq_of_lt (by omega)]
    omega

end Dispatch

namespace MachineCase

/-- Whether all numbers in a dispatch are targets of a machine with so many cases. -/
def staysWithin (count : Nat) : CaseDispatch → Bool
  | .jump target | .call target => Dispatch.isTarget count target
  | .branch nonzero zero => Dispatch.isTarget count nonzero && Dispatch.isTarget count zero
  | .back => true

end MachineCase

namespace Writer

private theorem push_runs (values : StackState Empty) (number : Int) :
    Runs ending (Template.pushInt number) values.ribbon
      (values.push (.byte (UInt8.ofInt number))).ribbon :=
  Template.pushInt_runs _ _ _ number

/-- A number is added to the byte on top of the stack. -/
theorem addInt_runs (values : StackState Empty) (value : UInt8) (number : Int) :
    Runs ending (Template.pushInt number ++ Template.add) (values.push (.byte value)).ribbon
      (values.push (.byte (value + UInt8.ofInt number))).ribbon :=
  (push_runs (values.push (.byte value)) number).append (Template.add_runs _ _ _ _ value)

private theorem offset_eq (place count : Int) (outer : List OpenMachine) (name : String)
    {target offset : Int} (found : Dispatch.caseOffset place target count = .ok offset) :
    Writer.offset (⟨place, count⟩ :: outer) name target = .ok offset := by
  rw [Writer.offset, found]
  rfl

/-- The text of a dispatch, up to the end of its case, leaves the counter for the next case. -/
theorem dispatch_runs (ending : EndOfInput) (style : CodeStyle) (outer : List OpenMachine)
    {cases : List MachineCase} (few : cases.length ≤ 127) {place : Nat} (begun : 1 ≤ place)
    (placed : place ≤ cases.length) {dispatch : CaseDispatch}
    (legal : MachineCase.staysWithin cases.length dispatch = true) :
    ∃ text, perform (⟨place, cases.length⟩ :: outer)
        (bodyEffects style (⟨place, cases.length⟩ :: outer) dispatch.instruction) =
          ⟨text ++ Template.caseEnd, ⟨place, cases.length⟩ :: outer, none⟩ ∧
      Balanced text ∧
      ∀ (values after : StackState Empty) (next : Int),
        MachineCase.select? .asByte cases place values dispatch = some ⟨next, after⟩ →
        1 ≤ next → next ≤ cases.length + 1 →
        ∃ counter, Runs ending text values.ribbon (after.push (.byte counter)).ribbon ∧
          LeadsTo cases.length place counter next := by
  cases dispatch with
  | jump target =>
    obtain ⟨offset, found, leads⟩ := Dispatch.caseOffset_leads few placed legal
    refine ⟨Template.pushInt offset, ?_, (@push_runs .zero (.start []) offset).balanced,
      fun values after next selected _ _ => ?_⟩
    · simp [CaseDispatch.instruction, bodyEffects, jumpEffects, offset_eq _ _ outer _ found, perform]
    · obtain ⟨rfl, rfl⟩ : MachineCase.target cases target = next ∧ values = after := by
        simpa [MachineCase.select?] using selected
      exact ⟨_, push_runs values offset, leads⟩
  | branch nonzero zero =>
    simp only [MachineCase.staysWithin, Bool.and_eq_true] at legal
    obtain ⟨first, foundFirst, leadsFirst⟩ := Dispatch.caseOffset_leads few placed legal.1
    obtain ⟨second, foundSecond, leadsSecond⟩ := Dispatch.caseOffset_leads few placed legal.2
    have matched (number : Int) := (@push_runs .zero (.start []) number).balanced
    -- Whichever distance is pushed, the pointer is behind it in the end.
    have chosen (condition : UInt8) (values : StackState Empty) :
        Runs ending (Template.ifElseBegin ++ Template.pushInt first ++ Template.ifElseElse ++
            Template.pushInt second ++ Template.ifElseEnd) (values.push (.byte condition)).ribbon
          (values.push (.byte (UInt8.ofInt (if condition ≠ 0 then first else second)))).ribbon := by
      by_cases isZero : condition = 0
      · subst condition
        exact Template.choice_zero_runs _ _ _ (matched first) (push_runs values second)
      · rw [if_pos isZero]
        exact Template.choice_nonzero_runs _ _ _ isZero (push_runs values first) (matched second)
    refine ⟨_, ?_, (@chosen 0 (.start [])).balanced, fun values after next selected _ _ => ?_⟩
    · simp [CaseDispatch.instruction, bodyEffects, branchEffects, offset_eq _ _ outer _ foundFirst,
        offset_eq _ _ outer _ foundSecond, perform]
    · obtain ⟨condition, rest, rfl, same⟩ := MachineCase.select?_branch_eq_some.mp selected
      obtain ⟨rfl, rfl⟩ := MachineCase.State.mk.inj same
      refine ⟨_, chosen condition after, ?_⟩
      split
      · exact leadsFirst
      · exact leadsSecond
  | call target =>
    obtain ⟨offset, found, leads⟩ := Dispatch.caseOffset_leads few placed legal
    -- The number of the case behind this one stays below the counter.
    have both (values : StackState Empty) := (@push_runs ending values (place + 1)).append
      (push_runs (values.push (.byte (UInt8.ofInt (place + 1)))) offset)
    refine ⟨_, ?_, (both (.start [])).balanced, fun values after next selected _ _ => ?_⟩
    · simp [CaseDispatch.instruction, bodyEffects, callEffects, jumpEffects,
        offset_eq _ _ outer _ found, perform]
    · obtain ⟨rfl, rfl⟩ : MachineCase.target cases target = next ∧
          values.push (.byte (UInt8.ofInt (place + 1))) = after := by
        simpa [MachineCase.select?, CaseKeeping.asByte] using selected
      exact ⟨_, both values, leads⟩
  | back =>
    have sum := @addInt_runs ending
    refine ⟨_, ?_, (sum (.start []) 0 (cases.length - place + 1)).balanced,
      fun values after next selected low high => ?_⟩
    · have fits : ¬(cases.length : Int) - place < Dispatch.smallest := by
        rw [Dispatch.smallest]
        omega
      simp [CaseDispatch.instruction, bodyEffects, returnEffects, fits, perform]
    · obtain ⟨value, rest, number, rfl, found, same⟩ := MachineCase.select?_back_eq_some.mp selected
      obtain ⟨rfl, rfl⟩ := MachineCase.State.mk.inj same
      obtain ⟨address⟩ | ⟨nowhere⟩ := value
      · obtain rfl : (address.toNat : Int) = next := by simpa [CaseKeeping.asByte] using found
        refine ⟨_, sum after address _, ?_⟩
        -- The sum fits a byte, since both numbers are at most one more than there are cases.
        have counter : (address + UInt8.ofInt (cases.length - place + 1)).toNat =
            address.toNat + (cases.length - place + 1) := by
          rw [UInt8.toNat_add, Byte.toNat_ofInt (by omega) (by omega), Nat.mod_eq_of_lt (by omega)]
          omega
        unfold LeadsTo
        rw [counter]
        refine ⟨by omega, ?_⟩
        rw [Nat.mod_eq_sub_mod (by omega), Nat.mod_eq_of_lt (by omega)]
        omega
      · exact nowhere.elim

end Writer

end TapeCode
