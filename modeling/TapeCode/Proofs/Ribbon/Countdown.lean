import Mathlib.Logic.Function.Iterate
import TapeCode.Proofs.Ribbon.StateMachine

/-!
# Counting down to a case

The number that a dispatch leaves is lowered at every place that the loop passes: once for each case and
once at the end of each lap. Where it becomes zero for the first time the countdown lands. The places are
a ring, so where a countdown lands is known from its number by a remainder, whatever the size of the ring
and however many laps it takes. The offset of a dispatch lands at its target, and so does the sum that a
return makes of its address, which is a byte and may take a lap more.
-/
namespace TapeCode

namespace Dispatch

/-- A countdown round the cases of a machine: the place passed last, and what is left. The cases count
from one, the place behind the last case is the end of a lap, and zero is the entry of the machine, behind
which a lap begins as it does behind the end of another one. -/
structure Countdown (α : Type) where
  place : Int
  left : α

namespace Countdown

section

variable {α : Type} [Sub α] [OfNat α 0] [OfNat α 1]

/-- The next place is passed. -/
def pass (count : Int) (countdown : Countdown α) : Countdown α :=
  ⟨if countdown.place ≤ count then countdown.place + 1 else 1, countdown.left - 1⟩

/-- Nothing is left at this place, and something at all places passed before. -/
def LandsAt (count : Int) (countdown : Countdown α) (place : Int) : Prop :=
  ∃ passed, (pass count)^[passed] countdown = ⟨place, 0⟩ ∧
    ∀ fewer < passed, ((pass count)^[fewer] countdown).left ≠ 0

variable {count place other : Int} {countdown : Countdown α}

/-- A countdown that is over has landed. -/
theorem landsAt_over : LandsAt count ⟨other, (0 : α)⟩ place ↔ other = place := by
  constructor
  · rintro ⟨passed, reached, before⟩
    cases passed with
    | zero => exact congrArg Countdown.place reached
    | succ passed => exact absurd rfl (before 0 (Nat.succ_pos passed))
  · rintro rfl
    exact ⟨0, rfl, fun fewer less => absurd less (Nat.not_lt_zero fewer)⟩

/-- A countdown that is not over goes on behind the next place. -/
theorem landsAt_pass (remains : countdown.left ≠ 0) :
    countdown.LandsAt count place ↔ (countdown.pass count).LandsAt count place := by
  constructor
  · rintro ⟨passed, reached, before⟩
    cases passed with
    | zero => exact absurd (congrArg left reached) remains
    | succ passed =>
      exact ⟨passed, reached, fun fewer less => before (fewer + 1) (Nat.succ_lt_succ less)⟩
  · rintro ⟨passed, reached, before⟩
    refine ⟨passed + 1, reached, fun fewer less => ?_⟩
    cases fewer with
    | zero => exact remains
    | succ fewer => exact before fewer (Nat.lt_of_succ_lt_succ less)

/-- A countdown lands at one place only. -/
theorem LandsAt.unique (lands : countdown.LandsAt count place)
    (again : countdown.LandsAt count other) : place = other := by
  obtain ⟨passed, reached, before⟩ := lands
  obtain ⟨more, reachedToo, beforeToo⟩ := again
  rcases Nat.lt_trichotomy passed more with less | rfl | greater
  · exact absurd (congrArg left reached) (beforeToo passed less)
  · exact congrArg Countdown.place (reached.symm.trans reachedToo)
  · exact absurd (congrArg left reachedToo) (before more greater)

end

variable {count place : Int}

/-- The place behind another one, as a remainder. -/
private theorem next_eq (above : 0 ≤ place) (below : place ≤ count + 1) :
    (if place ≤ count then place + 1 else 1) = place % (count + 1) + 1 := by
  split
  next inside => rw [Int.emod_eq_of_lt above (by omega)]
  next =>
    obtain rfl : place = count + 1 := by omega
    rw [Int.emod_self, Int.zero_add]

/-- Round a ring of any size, a countdown lands where the remainder says. -/
theorem landsAt_ring (nonnegative : 0 ≤ count) (above : 0 ≤ place) (below : place ≤ count + 1)
    (further : Nat) : LandsAt count ⟨place, (further + 1 : Int)⟩
      ((place + further) % (count + 1) + 1) := by
  induction further generalizing place with
  | zero =>
    refine (landsAt_pass Int.one_ne_zero).mpr ?_
    rw [Int.natCast_zero, Int.add_zero, ← next_eq above below]
    exact landsAt_over.mpr rfl
  | succ further ih =>
    -- The next place is a place of the ring again, and the remainder does not see how it was reached.
    have remains : ((further + 1 : Nat) : Int) + 1 ≠ 0 := by omega
    refine (landsAt_pass remains).mpr ?_
    have low := Int.emod_nonneg place (show count + 1 ≠ 0 by omega)
    have high := Int.emod_lt_of_pos place (show 0 < count + 1 by omega)
    have same : (place % (count + 1) + 1 + further) % (count + 1) =
        (place + (further + 1 : Nat)) % (count + 1) := by
      rw [Int.add_assoc, Int.emod_add_emod, Int.add_comm 1, Int.natCast_succ]
    have onwards := @ih (place % (count + 1) + 1) (by omega) (by omega)
    rw [same] at onwards
    simpa only [pass, next_eq above below, Int.natCast_succ, Int.add_sub_cancel] using onwards

/-- A byte counts down as its number does. -/
theorem landsAt_byte {start : Int} {counter : UInt8} :
    LandsAt count ⟨start, counter⟩ place ↔ LandsAt count ⟨start, (counter.toNat : Int)⟩ place := by
  -- A byte that is not zero does not wrap when it is lowered, so both have the same turns to go.
  induction size : counter.toNat generalizing start counter with
  | zero =>
    obtain rfl : counter = 0 := UInt8.toNat_inj.mp size
    exact landsAt_over.trans landsAt_over.symm
  | succ smaller ih =>
    have nonzero : counter ≠ 0 := by
      rintro rfl
      cases size
    have less : (counter - 1).toNat = smaller := by
      rw [Byte.toNat_sub_one nonzero, size, Nat.add_sub_cancel]
    have positive : ((smaller + 1 : Nat) : Int) ≠ 0 := by omega
    refine (landsAt_pass nonzero).trans (Iff.trans ?_ (landsAt_pass positive).symm)
    simpa only [pass, Int.natCast_succ, Int.add_sub_cancel] using ih less

/-- By the distance to a place, and any number of laps more, a countdown lands at the place. -/
theorem landsAt_distance {start offset : Int} (above : 0 ≤ start) (below : start ≤ count + 1)
    (first : 1 ≤ place) (last : place ≤ count + 1) (positive : 1 ≤ offset) (laps : Int)
    (distance : offset = place - start + (count + 1) * laps) :
    LandsAt count ⟨start, offset⟩ place := by
  obtain ⟨further, rfl⟩ : ∃ further : Nat, offset = further + 1 := ⟨(offset - 1).toNat, by omega⟩
  -- Counted from zero, the place is what the laps leave over.
  have around : start + (further : Int) = place - 1 + (count + 1) * laps := by omega
  have lands := landsAt_ring (show 0 ≤ count by omega) above below further
  rw [around, Int.add_mul_emod_self_left, Int.emod_eq_of_lt (by omega) (by omega),
    Int.sub_add_cancel] at lands
  exact lands

/-- The counters that lead to a case are those whose countdown lands there. -/
theorem leadsTo_iff {cases start : Nat} (within : start ≤ cases) {counter : UInt8} {next : Int} :
    LeadsTo cases start counter next ↔ counter ≠ 0 ∧ LandsAt cases ⟨start, counter⟩ next := by
  by_cases spent : counter = 0
  · subst spent
    exact ⟨fun leads => absurd leads.1 (Nat.lt_irrefl 0), fun lands => absurd rfl lands.1⟩
  · have positive : 0 < counter.toNat :=
      Nat.pos_of_ne_zero fun zero => spent (UInt8.toNat_inj.mp zero)
    obtain ⟨further, size⟩ : ∃ further, counter.toNat = further + 1 :=
      ⟨counter.toNat - 1, by omega⟩
    have lands := @landsAt_ring cases start (by omega) (by omega) (by omega) further
    rw [← Int.natCast_add_one, ← size, ← landsAt_byte] at lands
    -- The remainder of natural numbers that the loop works with is the one of the ring.
    have place : (((start + counter.toNat - 1) % (cases + 1) : Nat) : Int) + 1 =
        ((start : Int) + further) % (cases + 1) + 1 := by
      rw [size, Nat.add_succ_sub_one]
      push_cast
      rfl
    refine ⟨fun leads => ⟨spent, ?_⟩, fun landsThere => ⟨positive, place.trans ?_⟩⟩
    · rw [← leads.2, place]
      exact lands
    · exact lands.unique landsThere.2

end Countdown

/-! ## Offsets -/

/-- The place at which a target is reached: the way out is the end of a lap. -/
def placeOf (count target : Int) : Int := if target = exitCase then count + 1 else target

/-- The offset is the forward distance, which is a lap more than the difference to a target that is not
ahead. -/
theorem caseOffset_eq_ok {source target count : Int} (fits : count < largest) {offset : Int} :
    caseOffset source target count = .ok offset ↔
      (0 ≤ source ∧ source ≤ count) ∧
      (1 ≤ placeOf count target ∧ placeOf count target ≤ count + 1) ∧
      offset = placeOf count target - source +
        (count + 1) * if source < placeOf count target then 0 else 1 := by
  have named : (if target = exitCase then count + 1 else target) = placeOf count target := rfl
  have small : count ≠ largest := by omega
  simp only [caseOffset, named, small, and_false, if_false]
  generalize placeOf count target = place
  -- The checks one after the other: the source, the target, and which of the two comes first.
  by_cases outside : count < 0 ∨ source < 0 ∨ count < source
  · simp only [outside, if_true, reduceCtorEq, false_iff]
    omega
  by_cases beyond : place < 1 ∨ count + 1 < place
  · simp only [outside, if_false, beyond, if_true, reduceCtorEq, false_iff]
    omega
  rw [if_neg outside, if_neg beyond]
  by_cases ahead : source < place
  · simp only [ahead, if_true, Except.ok.injEq, Int.mul_zero]
    omega
  · simp only [ahead, if_false, Except.ok.injEq, Int.mul_one]
    omega

theorem placeOf_within {target count : Int} (nonnegative : 0 ≤ count) :
    (1 ≤ placeOf count target ∧ placeOf count target ≤ count + 1) ↔
      target = exitCase ∨ 1 ≤ target ∧ target ≤ count + 1 := by
  unfold placeOf exitCase
  split <;> omega

variable {source target count case address : Int}

/-- There is an offset exactly from the entry or a case to a case or the way out. -/
theorem caseOffset_ok_iff (fits : count < largest) :
    (∃ offset, caseOffset source target count = .ok offset) ↔
      (0 ≤ source ∧ source ≤ count) ∧ (target = exitCase ∨ 1 ≤ target ∧ target ≤ count + 1) := by
  constructor
  · rintro ⟨offset, found⟩
    obtain ⟨inside, within, -⟩ := (caseOffset_eq_ok fits).mp found
    exact ⟨inside, (placeOf_within (by omega)).mp within⟩
  · rintro ⟨inside, legal⟩
    have within := (placeOf_within (by omega)).mpr legal
    exact ⟨_, (caseOffset_eq_ok fits).mpr ⟨inside, within, rfl⟩⟩

/-- An offset is no more than a lap, and the countdown from it lands at the target. -/
theorem caseOffset_lands (fits : count < largest) {offset : Int}
    (found : caseOffset source target count = .ok offset) :
    (1 ≤ offset ∧ offset ≤ count + 1) ∧
      Countdown.LandsAt count ⟨source, offset⟩ (placeOf count target) := by
  obtain ⟨inside, within, distance⟩ := (caseOffset_eq_ok fits).mp found
  have bounds : 1 ≤ offset ∧ offset ≤ count + 1 := by
    rw [distance]
    split <;> omega
  constructor
  · exact bounds
  · exact Countdown.landsAt_distance inside.1 (by omega) within.1 within.2 bounds.1 _ distance

/-! ## Returns -/

/-- What a return writes, up to the end of its case: it adds to the address what is left of the lap. -/
theorem return_effects (style : CodeStyle) (outer : List OpenMachine)
    (fits : smallest ≤ count - case) :
    Writer.bodyEffects style (⟨case, count⟩ :: outer) .fsmReturn =
      [.write (Template.pushInt (count - case + 1) ++ Template.add ++ Template.caseEnd)] := by
  have low : ¬count - case < smallest := by omega
  simp only [Writer.bodyEffects, Writer.returnEffects, low, if_false]

/-- The byte that a return leaves. -/
def returnCounter (count case address : Int) : UInt8 :=
  UInt8.ofInt address + UInt8.ofInt (count - case + 1)

theorem toNat_returnCounter (few : count ≤ mostCases) (first : 1 ≤ case) (last : case ≤ count)
    (low : 1 ≤ address) (high : address ≤ count + 1) :
    ((returnCounter count case address).toNat : Int) = address + (count - case + 1) := by
  -- At most 128 and 127: the sum of both still is a byte.
  simp only [mostCases] at few
  rw [returnCounter, UInt8.toNat_add, Byte.toNat_ofInt (by omega) (by omega),
    Byte.toNat_ofInt (by omega) (by omega), Nat.mod_eq_of_lt (by omega)]
  omega

/-- The countdown of a return lands at the address, in the next lap or in the one behind it. -/
theorem returnCounter_lands (few : count ≤ mostCases) (first : 1 ≤ case) (last : case ≤ count)
    (low : 1 ≤ address) (high : address ≤ count + 1) :
    Countdown.LandsAt count ⟨case, returnCounter count case address⟩ address := by
  rw [Countdown.landsAt_byte, toNat_returnCounter few first last low high]
  exact Countdown.landsAt_distance (by omega) (by omega) low high (by omega) 1 (by omega)

/-- There is an offset exactly between places of the ring, from the entry or a case to a case or the way
out. It is no more than a lap, and the countdown from it lands at the target and at no place before. The
number that a return leaves is the sum of its address and what is left of the lap, without a wrap for a
machine that the writer takes, and the countdown from it lands at the address, be it a lap later. -/
theorem countdown_lands :
    (∀ source target count : Int, count < largest →
      ((∃ offset, caseOffset source target count = .ok offset) ↔
        (0 ≤ source ∧ source ≤ count) ∧ (target = exitCase ∨ 1 ≤ target ∧ target ≤ count + 1)) ∧
      ∀ offset, caseOffset source target count = .ok offset →
        (1 ≤ offset ∧ offset ≤ count + 1) ∧
          Countdown.LandsAt count ⟨source, offset⟩ (placeOf count target)) ∧
    ∀ count case address : Int, count ≤ mostCases → 1 ≤ case → case ≤ count →
      1 ≤ address → address ≤ count + 1 →
      ∃ (counter : UInt8) (text : List Char),
        (∀ style outer, Writer.bodyEffects style (⟨case, count⟩ :: outer) .fsmReturn =
          [.write (text ++ Template.caseEnd)]) ∧
        (∀ ending (values : StackState Empty),
          Runs ending text (values.push (.byte (UInt8.ofInt address))).ribbon
            (values.push (.byte counter)).ribbon) ∧
        (counter.toNat : Int) = address + (count - case + 1) ∧
        Countdown.LandsAt count ⟨case, counter⟩ address := by
  constructor
  · intro source target count fits
    exact ⟨caseOffset_ok_iff fits, fun offset found => caseOffset_lands fits found⟩
  · intro count case address few first last low high
    -- A machine that the writer takes does not overflow here.
    have fits : smallest ≤ count - case := by
      rw [smallest]
      omega
    refine ⟨returnCounter count case address, _, fun style outer => return_effects style outer fits,
      fun ending values => Writer.addInt_runs values _ _, ?_, ?_⟩
    · exact toNat_returnCounter few first last low high
    · exact returnCounter_lands few first last low high

/-- In a machine as large as they may be, the last case leaves with a counter of one, and a return from the
first case leaves with the largest byte, which takes the whole of the next lap. -/
theorem countdown_lands_largestMachine :
    caseOffset 127 exitCase 127 = .ok 1 ∧ Countdown.LandsAt 127 ⟨127, (1 : Int)⟩ 128 ∧
      ∃ counter : UInt8, counter.toNat = 255 ∧ Countdown.LandsAt 127 ⟨1, counter⟩ 128 := by
  have found : caseOffset 127 exitCase 127 = .ok 1 := by decide
  have jumps := (countdown_lands.1 127 exitCase 127 (by decide)).2 1 found
  obtain ⟨counter, -, -, -, sum, lands⟩ :=
    countdown_lands.2 127 1 128 (by decide) (by decide) (by decide) (by decide) (by decide)
  exact ⟨found, jumps.2, counter, by omega, lands⟩

end Dispatch

/-! ## On a ribbon -/

/-- The loop of a state machine comes from a counter to the block at which its countdown lands, and enters
no block before. -/
theorem MachineText.Fits.counts_down {ending : EndOfInput} {cases : List MachineCase}
    {text : MachineText} (fits : text.Fits ending cases) (values : StackState Empty) {index : Nat}
    (inside : index ≤ cases.length) {counter : UInt8} (remains : counter ≠ 0) {place : Int}
    (lands : Dispatch.Countdown.LandsAt cases.length ⟨index, counter⟩ place) :
    RibbonMachine.Reaches ending text.entries
      (text.before index (values.count counter).ribbon) []
      (text.before (place - 1).toNat (values.count 1).ribbon) :=
  fits.seeks values inside ((Dispatch.Countdown.leadsTo_iff inside).mpr ⟨remains, lands⟩)

end TapeCode
