import Mathlib.Algebra.Ring.Int.Defs
import TapeCode.Proofs.Ribbon.Machine

/-!
# Ribbons on circular tapes

A tape shows a ribbon if its cells are those of the ribbon, as far as the tape reaches to either side.
As long as the pointer stays between the ends, the tape goes on showing what becomes of the ribbon, and
no cell beyond the ends is missed.
-/
namespace TapeCode

/-- The cell at a distance from the pointer, to the right if the distance is positive. -/
def Ribbon.cellAt (ribbon : Ribbon) : Int → UInt8
  | .ofNat 0 => ribbon.current
  | .ofNat (n + 1) => ribbon.right.get n
  | .negSucc n => ribbon.left.get n

namespace Ribbon

variable (left right : Stream' UInt8) (current : UInt8) (input output : List UInt8)

theorem cellAt_moveRight (offset : Int) :
    (⟨.cons current left, right.head, right.tail, input, output⟩ : Ribbon).cellAt offset =
      (⟨left, current, right, input, output⟩ : Ribbon).cellAt (offset + 1) := by
  match offset with
  | .ofNat 0 => rfl
  | .ofNat (n + 1) => rfl
  | .negSucc 0 => rfl
  | .negSucc (n + 1) => rfl

theorem cellAt_moveLeft (offset : Int) :
    (⟨left.tail, left.head, .cons current right, input, output⟩ : Ribbon).cellAt offset =
      (⟨left, current, right, input, output⟩ : Ribbon).cellAt (offset - 1) := by
  match offset with
  | .ofNat 0 => rfl
  | .ofNat 1 => rfl
  | .ofNat (n + 2) =>
    have before : (Int.ofNat (n + 2)) - 1 = Int.ofNat (n + 1) := by
      simp only [Int.ofNat_eq_natCast]
      omega
    rw [before]
    rfl
  | .negSucc n => rfl

theorem cellAt_put {offset : Int} (other : offset ≠ 0) (value : UInt8) (otherInput otherOutput : List UInt8) :
    (⟨left, value, right, otherInput, otherOutput⟩ : Ribbon).cellAt offset =
      (⟨left, current, right, input, output⟩ : Ribbon).cellAt offset := by
  match offset with
  | .ofNat 0 => exact absurd rfl other
  | .ofNat (n + 1) => rfl
  | .negSucc n => rfl

end Ribbon

/-! ## Tapes -/

/-- The tape has `low` cells to the left of its origin and `high` cells from there on, and with the
pointer at `place` its cells are those of the ribbon. -/
structure Tape.Shows (tape : Tape) (low high : Nat) (place : Int) (ribbon : Ribbon) : Prop where
  size : tape.cells.size = low + high
  pointer : tape.pointer = tape.wrap place
  cells : ∀ offset : Int, -low ≤ offset → offset < high →
    tape.cellAt offset = ribbon.cellAt (offset - place)

namespace Tape.Shows

variable {tape : Tape} {low high : Nat} {place : Int} {ribbon : Ribbon}

theorem wrap_injective (size : tape.cells.size = low + high) {first second : Int}
    (firstLow : -low ≤ first) (firstHigh : first < high) (secondLow : -low ≤ second)
    (secondHigh : second < high) (same : tape.wrap first = tape.wrap second) : first = second := by
  have positive := tape.length_pos
  have named (offset : Int) : tape.wrap offset = (offset % (tape.cells.size : Int)).toNat := rfl
  rw [named, named] at same
  have nonzero : (tape.cells.size : Int) ≠ 0 := by omega
  have firstSign := Int.emod_nonneg first nonzero
  have secondSign := Int.emod_nonneg second nonzero
  have equal : first % (tape.cells.size : Int) = second % (tape.cells.size : Int) := by omega
  have shifted : (first + low) % (tape.cells.size : Int) = (second + low) % tape.cells.size := by
    rw [Int.add_emod, equal, ← Int.add_emod]
  rw [Int.emod_eq_of_lt (by omega) (by omega), Int.emod_eq_of_lt (by omega) (by omega)] at shifted
  omega

section

variable (shows : tape.Shows low high place ribbon)
include shows

theorem current_eq (above : -low ≤ place) (below : place < high) :
    tape.current = ribbon.current := by
  have here := shows.cells place above below
  have pointer := shows.pointer
  rw [Int.sub_self] at here
  change tape.current = ribbon.cellAt 0
  rw [← here]
  obtain ⟨cells, index, inside⟩ := tape
  change cells[index] = _
  simp only [Tape.cellAt, ← pointer]

/-- Everything but the cells may differ. -/
theorem with_io (input output : List UInt8) :
    tape.Shows low high place { ribbon with input := input, output := output } := by
  refine ⟨shows.size, shows.pointer, fun offset above below => ?_⟩
  rw [shows.cells offset above below]
  obtain ⟨left, current, right, oldInput, oldOutput⟩ := ribbon
  match offset - place with
  | .ofNat 0 => rfl
  | .ofNat (n + 1) => rfl
  | .negSucc n => rfl

theorem put (above : -low ≤ place) (below : place < high) (value : UInt8) :
    (tape.put value).Shows low high place { ribbon with current := value } := by
  have size : (tape.put value).cells.size = tape.cells.size := by simp [Tape.put]
  have wrapped (offset : Int) : (tape.put value).wrap offset = tape.wrap offset := by
    rw [Tape.wrap, Tape.wrap, size]
  refine ⟨size.trans shows.size, shows.pointer.trans (wrapped place).symm,
    fun offset low' high' => ?_⟩
  have written : (tape.put value).cellAt offset =
      if tape.wrap offset = tape.pointer then value else tape.cellAt offset := by
    simp only [Tape.cellAt, wrapped]
    simp [Tape.put, Array.getElem_set, eq_comm]
  rw [written, shows.pointer]
  by_cases same : offset = place
  · subst same
    rw [if_pos rfl, Int.sub_self]
    rfl
  · rw [if_neg fun wraps => same (wrap_injective shows.size low' high' above below wraps),
      shows.cells offset low' high']
    exact (Ribbon.cellAt_put _ _ _ _ _ (by omega) value _ _).symm

theorem move (distance : Int) {moved : Ribbon}
    (cells : ∀ offset, moved.cellAt (offset - distance) = ribbon.cellAt offset) :
    (tape.move distance).Shows low high (place + distance) moved := by
  have wrapped (offset : Int) : (tape.move distance).wrap offset = tape.wrap offset := rfl
  refine ⟨shows.size, ?_, fun offset above below => ?_⟩
  · have positive := tape.length_pos
    have nonzero : (tape.cells.size : Int) ≠ 0 := by omega
    have pointer : (tape.pointer : Int) = place % tape.cells.size := by
      rw [shows.pointer]
      exact Int.toNat_of_nonneg (Int.emod_nonneg place nonzero)
    change (((tape.pointer : Int) + distance) % (tape.cells.size : Int)).toNat =
      ((place + distance) % (tape.cells.size : Int)).toNat
    rw [pointer, Int.emod_add_emod]
  · change tape.cellAt offset = _
    rw [shows.cells offset above below, ← cells]
    congr 1
    omega

theorem moveRight : (tape.move 1).Shows low high (place + 1)
    ⟨.cons ribbon.current ribbon.left, ribbon.right.head, ribbon.right.tail, ribbon.input,
      ribbon.output⟩ :=
  shows.move 1 fun offset => by
    rw [Ribbon.cellAt_moveRight, Int.sub_add_cancel]

theorem moveLeft : (tape.move (-1)).Shows low high (place + -1)
    ⟨ribbon.left.tail, ribbon.left.head, .cons ribbon.current ribbon.right, ribbon.input,
      ribbon.output⟩ :=
  shows.move (-1) fun offset => by
    rw [Ribbon.cellAt_moveLeft]
    congr 1
    omega

end

end Tape.Shows

/-! ## Machines -/

/-- The number of characters before the one to execute. -/
def CharacterMachine.place (machine : CharacterMachine) : Nat := machine.behind.length

namespace RibbonMachine

variable {low high : Nat} {pointer : Int} {ending : EndOfInput}

/-- The machine that has a tape in place of its ribbon. -/
def onTape (machine : RibbonMachine) (tape : Tape) : CharacterMachine :=
  ⟨machine.behind, machine.ahead, tape, machine.ribbon.input, machine.ribbon.output⟩

/-- By how many cells the next character moves the pointer to the right. -/
def shift (machine : RibbonMachine) : Int :=
  match machine.ahead with
  | '>' :: _ => 1
  | '<' :: _ => -1
  | _ => 0

theorem shift_bounds (machine : RibbonMachine) : -1 ≤ machine.shift ∧ machine.shift ≤ 1 := by
  unfold shift
  split <;> omega

theorem shift_eq_zero {behind ahead : List Char} {ribbon : Ribbon} {c : Char} (right : c ≠ '>')
    (left : c ≠ '<') : shift ⟨behind, c :: ahead, ribbon⟩ = 0 := by
  unfold shift
  split <;> simp_all

private theorem onTape_plain {behind ahead : List Char} {ribbon : Ribbon} {tape : Tape} {c : Char}
    (plain : isPlain c = true) (shows : tape.Shows low high pointer ribbon) (above : -low ≤ pointer)
    (below : pointer < high) :
    ∃ after, ((⟨behind, c :: ahead, ribbon⟩ : RibbonMachine).onTape tape).step ending =
        some (onTape ⟨c :: behind, ahead, ribbon.perform ending c⟩ after) ∧
      after.Shows low high (pointer + shift ⟨behind, c :: ahead, ribbon⟩)
        (ribbon.perform ending c) := by
  have current := shows.current_eq above below
  have put := shows.put above below
  obtain ⟨left, cell, right, input, output⟩ := ribbon
  by_cases moveRight : c = '>'
  · subst c
    exact ⟨tape.move 1, rfl, shows.moveRight⟩
  by_cases moveLeft : c = '<'
  · subst c
    exact ⟨tape.move (-1), rfl, shows.moveLeft⟩
  -- All other characters stay on their cell, which is within the bounds.
  rw [shift_eq_zero moveRight moveLeft, Int.add_zero]
  by_cases raise : c = '+'
  · subst c
    refine ⟨tape.put (tape.current + 1), rfl, ?_⟩
    rw [current]
    exact put (cell + 1)
  by_cases lower : c = '-'
  · subst c
    refine ⟨tape.put (tape.current - 1), rfl, ?_⟩
    rw [current]
    exact put (cell - 1)
  by_cases print : c = '.'
  · subst c
    refine ⟨tape, ?_, shows.with_io input (output ++ [cell])⟩
    simp [CharacterMachine.step, onTape, Ribbon.perform, current]
  by_cases read : c = ','
  · subst c
    cases input with
    | nil =>
      refine ⟨tape.put (ending.replace tape.current), rfl, ?_⟩
      rw [current]
      exact put (ending.replace cell)
    | cons byte input =>
      exact ⟨tape.put byte, rfl, (put byte).with_io input output⟩
  simp only [isPlain, Bool.and_eq_true, decide_eq_true_eq] at plain
  refine ⟨tape, ?_, ?_⟩
  · simp [CharacterMachine.step, onTape, Ribbon.perform, plain.1, plain.2]
  · simpa [Ribbon.perform, moveRight, moveLeft, raise, lower, print, read] using shows

/-- A character has the same effect on a tape that shows the ribbon. -/
theorem onTape_step {machine following : RibbonMachine} {tape : Tape}
    (shows : tape.Shows low high pointer machine.ribbon) (above : -low ≤ pointer)
    (below : pointer < high) (stepped : step ending machine = some following) :
    ∃ after, (machine.onTape tape).step ending = some (following.onTape after) ∧
      after.Shows low high (pointer + machine.shift) following.ribbon := by
  obtain ⟨behind, ahead, ribbon⟩ := machine
  have current : tape.current = ribbon.current := shows.current_eq above below
  cases ahead with
  | nil => simp [step] at stepped
  | cons c ahead =>
    by_cases opens : c = '['
    · subst c
      rw [shift_eq_zero (by decide) (by decide), Int.add_zero]
      -- What a bracket passes over is found from the text alone, which is the same on both sides.
      by_cases zero : ribbon.current = 0
      · obtain ⟨passed, rest, found, rfl⟩ : ∃ passed rest,
            CharacterMachine.pass '[' ']' 0 ('[' :: behind) ahead = some (passed, rest) ∧
              ⟨passed, rest, ribbon⟩ = following := by
          simpa [step, zero] using stepped
        exact ⟨tape, by simp [CharacterMachine.step, onTape, current, zero, found], shows⟩
      · rw [step_into zero] at stepped
        obtain rfl := Option.some.inj stepped
        exact ⟨tape, by simp [CharacterMachine.step, onTape, current, zero], shows⟩
    · by_cases closes : c = ']'
      · subst c
        rw [shift_eq_zero (by decide) (by decide), Int.add_zero]
        by_cases zero : ribbon.current = 0
        · rw [step_out zero] at stepped
          obtain rfl := Option.some.inj stepped
          exact ⟨tape, by simp [CharacterMachine.step, onTape, current, zero], shows⟩
        · obtain ⟨passed, rest, found, rfl⟩ : ∃ passed rest,
              CharacterMachine.pass ']' '[' 0 (']' :: ahead) behind = some (passed, rest) ∧
                ⟨rest, passed, ribbon⟩ = following := by
            simpa [step, zero] using stepped
          exact ⟨tape, by simp [CharacterMachine.step, onTape, current, zero, found], shows⟩
      · have plain : isPlain c = true := by simp [isPlain, opens, closes]
        rw [step_plain plain] at stepped
        obtain rfl := Option.some.inj stepped
        exact onTape_plain plain shows above below

/-- A pointer that moves so from its place starts every move between the ends. -/
def Stays (low high : Nat) : Int → List Int → Prop
  | _, [] => True
  | place, shift :: shifts => -low ≤ place ∧ place < high ∧ Stays low high (place + shift) shifts

theorem Stays.append {first second : List Int} (stays : Stays low high pointer first)
    (onwards : Stays low high (pointer + first.sum) second) :
    Stays low high pointer (first ++ second) := by
  induction first generalizing pointer with
  | nil =>
    rw [List.sum_nil, Int.add_zero] at onwards
    exact onwards
  | cons shift first ih =>
    rw [List.sum_cons, ← Int.add_assoc] at onwards
    exact ⟨stays.1, stays.2.1, ih stays.2.2 onwards⟩

/-- A path that is shorter than the way to either end stays between them. -/
theorem stays_of_short {first last : RibbonMachine} {shifts : List Int}
    (path : Path (step ending) shift first shifts last) (above : -low + shifts.length ≤ pointer)
    (below : pointer + shifts.length < high) : Stays low high pointer shifts := by
  induction path generalizing pointer with
  | here => trivial
  | @next machine _ _ shifts _ _ ih =>
    rw [List.length_cons] at above below
    have bounds := machine.shift_bounds
    exact ⟨by omega, by omega, ih (by omega) (by omega)⟩

/-- A path between the ends of a tape is one of the machine with the tape, too. -/
theorem onTape_path_stays {first last : RibbonMachine} {shifts : List Int}
    (path : Path (step ending) shift first shifts last) {tape : Tape} {pointer : Int}
    (shows : tape.Shows low high pointer first.ribbon) (stays : Stays low high pointer shifts) :
    ∃ after places, Path (CharacterMachine.step ending) CharacterMachine.place (first.onTape tape)
        places (last.onTape after) ∧
      after.Shows low high (pointer + shifts.sum) last.ribbon := by
  induction path generalizing tape pointer with
  | here => exact ⟨tape, [], .here, by simpa using shows⟩
  | @next machine _ _ shifts stepped _ ih =>
    obtain ⟨above, below, onwards⟩ := stays
    obtain ⟨between, first, shown⟩ := onTape_step shows above below stepped
    obtain ⟨after, places, rest, finish⟩ := ih shown onwards
    refine ⟨after, _, .next first rest, ?_⟩
    rw [List.sum_cons, ← Int.add_assoc]
    exact finish

/-- A path that is shorter than the way to either end is one of the machine with a tape, too. -/
theorem onTape_path_shift {first last : RibbonMachine} {shifts : List Int}
    (path : Path (step ending) shift first shifts last) {tape : Tape} {pointer : Int}
    (shows : tape.Shows low high pointer first.ribbon) (above : -low + shifts.length ≤ pointer)
    (below : pointer + shifts.length < high) :
    ∃ after places, Path (CharacterMachine.step ending) CharacterMachine.place (first.onTape tape)
        places (last.onTape after) ∧
      after.Shows low high (pointer + shifts.sum) last.ribbon :=
  onTape_path_stays path shows (stays_of_short path above below)

theorem onTape_path {first last : RibbonMachine} {places : List Nat}
    (path : Path (step ending) place first places last) {tape : Tape} {pointer : Int}
    (shows : tape.Shows low high pointer first.ribbon) (above : -low + places.length ≤ pointer)
    (below : pointer + places.length < high) :
    ∃ after moved, Path (CharacterMachine.step ending) CharacterMachine.place (first.onTape tape)
        places (last.onTape after) ∧
      after.Shows low high moved last.ribbon := by
  induction path generalizing tape pointer with
  | here => exact ⟨tape, pointer, .here, shows⟩
  | @next machine _ _ _ stepped _ ih =>
    rw [List.length_cons] at above below
    have bounds := machine.shift_bounds
    obtain ⟨between, first, shown⟩ := onTape_step shows (by omega) (by omega) stepped
    obtain ⟨after, moved, onwards, finish⟩ := ih shown (by omega) (by omega)
    exact ⟨after, moved, .next first onwards, finish⟩

end RibbonMachine

end TapeCode
