import Mathlib.Data.List.Basic
import TapeCode.Proofs.Bytes
import TapeCode.Proofs.TextParts
import TapeCode.Tape.Window

/-!
# Reading a window

The text of a window can be read in one way only: it determines the distance that each line begins with, the
value of each cell, and which cells are marked. In a window that can be counted, the lines follow each other
without a gap, the values are those of the tape, however often its cells are shown, and one cell is marked,
at the pointer's distance from the origin.
-/
namespace TapeCode

/-- The distance of the pointer leads back to it. -/
theorem Tape.wrap_relativePointer (tape : Tape) : tape.wrap tape.relativePointer = tape.pointer := by
  have inside := tape.inside
  have size : tape.length = tape.cells.size := rfl
  have named : tape.wrap tape.relativePointer =
    (tape.relativePointer % (tape.cells.size : Int)).toNat := rfl
  rw [named, relativePointer, relative, size]
  split
  · rw [Int.sub_emod_right, Int.emod_eq_of_lt (by omega) (by omega), Int.toNat_natCast]
  · rw [Int.emod_eq_of_lt (by omega) (by omega), Int.toNat_natCast]

/-! ## What a text shows -/

/-- A line of a window: the distance of its first cell, and the value of each cell with a mark or without. -/
structure TapeLine where
  first : Int
  cells : List (UInt8 × Bool)
  deriving DecidableEq, Repr

def TapeLine.text (window : TapeWindow) (line : TapeLine) : String :=
  Text.padLeft ' ' 6 (toString line.first) ++ " |" ++
    String.join (line.cells.map fun cell => window.cellText cell.1 cell.2) ++ " | " ++
    String.ofList (line.cells.map fun cell => TapeWindow.character cell.1)

namespace TapeWindow

/-- The text consists of these lines, each with its end. -/
def Shows (window : TapeWindow) (text : String) (lines : List TapeLine) : Prop :=
  Text.split (· = '\n') text.toList = (lines.map fun line => (line.text window).toList) ++ [[]]

/-! ## One reading -/

/-- The value as it stands in a cell. -/
def numeral (value : UInt8) : List Char := (Text.padLeft ' ' 3 (toString value.toNat)).toList

theorem length_numeral : ∀ value, (numeral value).length = 3 :=
  Byte.forall_of_lt (by decide +kernel)

theorem mem_numeral {value : UInt8} {c : Char} (member : c ∈ numeral value) :
    c = ' ' ∨ c.isDigit = true :=
  (Text.mem_padLeft member).imp_right Text.isDigit_of_mem_toString

theorem numeral_injective : Function.Injective numeral := by
  intro value other same
  have solid (value : UInt8) : ∀ c ∈ (toString value.toNat).toList, c ≠ ' ' := by
    rintro c member rfl
    exact absurd (Text.isDigit_of_mem_toString member) (by decide)
  have texts := Text.padLeft_inj (solid value) (solid other) same
  rw [Nat.toString_eq_repr, Nat.toString_eq_repr, Nat.toList_repr, Nat.toList_repr] at texts
  have numbers := congrArg Text.digitsValue texts
  rw [Text.digitsValue_toDigits, Text.digitsValue_toDigits] at numbers
  exact UInt8.toNat_inj.mp numbers

variable {window : TapeWindow}

theorem toList_cellText (window : TapeWindow) (value : UInt8) (marked : Bool) :
    (window.cellText value marked).toList =
      if marked then
        if window.coloured then
          ' ' :: '\x1b' :: '[' :: '7' :: 'm' :: numeral value ++ ['\x1b', '[', '0', 'm', ' ']
        else '[' :: numeral value ++ [']']
      else if value = 0 ∧ window.coloured then
        ' ' :: '\x1b' :: '[' :: '2' :: 'm' :: numeral value ++ ['\x1b', '[', '0', 'm', ' ']
      else ' ' :: numeral value ++ [' '] := by
  unfold cellText
  split_ifs <;> simp [numeral, inverted, plain, dimmed, String.toList_append, toString]

/-- The number takes three characters, the first of which neither begins a colour nor ends the cells. -/
theorem numeral_shape (value : UInt8) :
    ∃ a b c, numeral value = [a, b, c] ∧ a ≠ '\x1b' ∧ a ≠ '|' := by
  obtain ⟨a, b, c, shape⟩ := List.length_eq_three.mp (length_numeral value)
  have first : a = ' ' ∨ a.isDigit = true := mem_numeral (shape ▸ List.mem_cons_self)
  refine ⟨a, b, c, shape, ?_, ?_⟩ <;> rintro rfl <;> exact absurd first (by decide)

/-- The text of a cell can be told from what follows it. -/
theorem cellText_append_inj {value other : UInt8} {marked otherMarked : Bool} {rest behind : List Char}
    (same : (window.cellText value marked).toList ++ rest =
      (window.cellText other otherMarked).toList ++ behind) :
    (value, marked) = (other, otherMarked) ∧ rest = behind := by
  obtain ⟨a, b, c, shape, noColour, -⟩ := numeral_shape value
  obtain ⟨d, e, f, otherShape, otherNoColour, -⟩ := numeral_shape other
  rw [toList_cellText, toList_cellText, shape, otherShape] at same
  -- What stands before the number tells a mark, a dimmed zero and a plain number apart, and the three of
  -- them are of one length each.
  have equal : [a, b, c] = [d, e, f] ∧ marked = otherMarked ∧ rest = behind := by
    split_ifs at same <;> simp_all
  have values : value = other := numeral_injective (by rw [shape, otherShape, equal.1])
  exact ⟨by rw [values, equal.2.1], equal.2.2⟩

theorem cellText_append_ne (value : UInt8) (marked : Bool) (rest behind : List Char) :
    (window.cellText value marked).toList ++ rest ≠ ' ' :: '|' :: behind := by
  obtain ⟨a, b, c, shape, -, noEnd⟩ := numeral_shape value
  rw [toList_cellText, shape]
  split_ifs <;> simp [noEnd]

theorem join_cellText_inj {cells others : List (UInt8 × Bool)} {rest behind : List Char}
    (same : (cells.flatMap fun cell => (window.cellText cell.1 cell.2).toList) ++ ' ' :: '|' :: rest =
      (others.flatMap fun cell => (window.cellText cell.1 cell.2).toList) ++ ' ' :: '|' :: behind) :
    cells = others := by
  induction cells generalizing others with
  | nil =>
    cases others with
    | nil => rfl
    | cons other others =>
      rw [List.flatMap_cons, List.append_assoc] at same
      exact absurd same.symm (cellText_append_ne _ _ _ _)
  | cons cell cells ih =>
    cases others with
    | nil =>
      rw [List.flatMap_cons, List.append_assoc] at same
      exact absurd same (cellText_append_ne _ _ _ _)
    | cons other others =>
      rw [List.flatMap_cons, List.flatMap_cons, List.append_assoc, List.append_assoc] at same
      obtain ⟨here, there⟩ := cellText_append_inj same
      rw [ih there, show cell = other from here]

theorem mem_heading {first : Int} {c : Char} (member : c ∈ (Text.padLeft ' ' 6 (toString first)).toList) :
    c = ' ' ∨ c = '-' ∨ c.isDigit = true :=
  (Text.mem_padLeft member).imp_right fun number => Text.mem_repr (Int.toString_eq_repr ▸ number)

theorem heading_injective {first other : Int}
    (same : (Text.padLeft ' ' 6 (toString first)).toList = (Text.padLeft ' ' 6 (toString other)).toList) :
    first = other := by
  have solid (number : Int) : ∀ c ∈ (toString number).toList, c ≠ ' ' := by
    rintro c member rfl
    rw [Int.toString_eq_repr] at member
    exact absurd (Text.mem_repr member) (by decide)
  have texts := Text.padLeft_inj (solid first) (solid other) same
  rw [Int.toString_eq_repr, Int.toString_eq_repr] at texts
  have numbers := congrArg Text.readInteger? texts
  rw [Text.readInteger?_repr, Text.readInteger?_repr] at numbers
  exact Option.some.inj numbers

theorem toList_text (window : TapeWindow) (line : TapeLine) :
    (line.text window).toList = (Text.padLeft ' ' 6 (toString line.first)).toList ++ [' '] ++ '|' ::
      ((line.cells.flatMap fun cell => (window.cellText cell.1 cell.2).toList) ++ ' ' :: '|' ::
        ' ' :: line.cells.map fun cell => character cell.1) := by
  simp [TapeLine.text, String.toList_append, String.toList_join, List.flatMap_map]

theorem text_injective (window : TapeWindow) : Function.Injective (TapeLine.text window) := by
  intro line other same
  -- The first bar ends the heading: there is none in a number.
  have texts := congrArg (fun text => Text.splitOnce? '|' text.toList) same
  have apart (first : Int) : ∀ c ∈ (Text.padLeft ' ' 6 (toString first)).toList ++ [' '], c ≠ '|' := by
    rintro c member rfl
    rcases List.mem_append.mp member with heading | gap
    · exact absurd (mem_heading heading) (by decide)
    · exact absurd gap (by decide)
  simp only [toList_text] at texts
  rw [Text.splitOnce?_append (apart _), Text.splitOnce?_append (apart _)] at texts
  obtain ⟨headings, cells⟩ := Prod.mk.inj (Option.some.inj texts)
  obtain ⟨first, cellsOf⟩ := line
  obtain ⟨otherFirst, otherCells⟩ := other
  rw [show first = otherFirst from heading_injective (List.append_cancel_right headings),
    show cellsOf = otherCells from join_cellText_inj cells]

/-- There is only one way to read a text. -/
theorem Shows.unique {text : String} {lines others : List TapeLine} (shows : window.Shows text lines)
    (same : window.Shows text others) : others = lines := by
  rw [Shows] at shows same
  have texts := List.append_cancel_right (same.symm.trans shows)
  have distinct : Function.Injective fun line : TapeLine => (line.text window).toList :=
    fun line other equal => text_injective window (String.toList_inj.mp equal)
  exact List.map_injective_iff.mpr distinct texts

/-! ## The lines of a window -/

variable {tape : Tape} {rows columns : Nat}

def lineAt (window : TapeWindow) (tape : Tape) (first : Int) : TapeLine :=
  ⟨first, (List.range window.shownColumns).map fun (column : Nat) =>
    (tape.cellAt (first + column), first + column = tape.relativePointer)⟩

def lines (window : TapeWindow) (tape : Tape) : List TapeLine :=
  (List.range window.rows).map fun (row : Nat) =>
    window.lineAt tape (window.start tape.relativePointer + ((row * window.columns : Nat) : Int))

/-- A row is written as what is shown in it. -/
theorem rowText_eq (window : TapeWindow) (tape : Tape) (first : Int) :
    window.rowText tape first = (window.lineAt tape first).text window ++ "\n" := by
  simp [rowText, lineAt, TapeLine.text, Function.comp_def]

theorem newline_not_mem_cellText (window : TapeWindow) (value : UInt8) (marked : Bool) :
    '\n' ∉ (window.cellText value marked).toList := by
  have noNumber : '\n' ∉ numeral value := fun member =>
    absurd (mem_numeral member) (by decide)
  rw [toList_cellText]
  split_ifs <;> simp [noNumber]

theorem character_ne_newline : ∀ value, character value ≠ '\n' :=
  Byte.forall_of_lt (by decide +kernel)

/-- Nothing in a line ends it. -/
theorem text_ne_newline (window : TapeWindow) (line : TapeLine) :
    ∀ c ∈ (line.text window).toList, decide (c = '\n') = false := by
  intro c member
  refine decide_eq_false ?_
  rintro rfl
  rw [toList_text] at member
  simp only [List.mem_append, List.mem_cons, List.mem_flatMap, List.mem_map] at member
  rcases member with (heading | gap) | bar | ⟨cell, -, inCell⟩ | blank | bar | blank | ⟨cell, -, shown⟩
  · exact absurd (mem_heading heading) (by decide)
  · exact absurd gap (by decide)
  · exact absurd bar (by decide)
  · exact newline_not_mem_cellText window _ _ inCell
  · exact absurd blank (by decide)
  · exact absurd bar (by decide)
  · exact absurd blank (by decide)
  · exact character_ne_newline _ shown

theorem shows_text (window : TapeWindow) (tape : Tape) :
    window.Shows (window.text tape) (window.lines tape) := by
  have pieces : (window.text tape).toList =
      ((window.lines tape).map fun line => (line.text window).toList).flatMap (· ++ ['\n']) := by
    simp [text, lines, rowText_eq, String.toList_join, List.flatMap_map]
  rw [Shows, pieces]
  refine Text.split_terminated rfl fun piece member => ?_
  obtain ⟨line, -, rfl⟩ := List.mem_map.mp member
  exact text_ne_newline window line

/-! ## Where the pointer is shown -/

/-- The window has cells, and their number fits a distance. -/
structure Fits (window : TapeWindow) : Prop where
  rows : 0 < window.rows
  columns : 0 < window.columns
  cells : window.columns * window.rows < Word.signedLimit

theorem withSize_fits (window : TapeWindow) (fits : max rows 1 * max columns 1 < Word.signedLimit) :
    (window.withSize rows columns).Fits :=
  ⟨Nat.le_max_right rows 1, Nat.le_max_right columns 1, Nat.mul_comm _ _ ▸ fits⟩

namespace Fits

variable (fits : window.Fits)
include fits

theorem columns_lt : window.columns < Word.signedLimit :=
  Nat.lt_of_le_of_lt (Nat.le_mul_of_pos_right _ fits.rows) fits.cells

theorem shownColumns_eq : window.shownColumns = window.columns := if_pos fits.columns_lt

theorem textOfAny_eq (tape : Tape) : window.textOfAny tape = .ok (window.text tape) := by
  have upper : window.columns * (window.rows / 2) ≤ window.columns * window.rows :=
    Nat.mul_le_mul_left _ (Nat.div_le_self _ _)
  have cells := fits.cells
  have wider : Word.signedLimit < Word.limit := by decide
  have none : window.overflow? tape.relativePointer = none := by
    simp only [overflow?, Word.signed_eq cells]
    rw [if_neg (by omega), if_neg (by omega), if_neg (by omega), if_neg (by omega)]
  rw [textOfAny, none]

/-- Wherever the pointer is, the window starts at it or before it and reaches past it. -/
theorem start_bounds (pointer : Int) : window.start pointer ≤ pointer ∧
    pointer < window.start pointer + ((window.rows * window.columns : Nat) : Int) := by
  have cells := fits.cells
  have row : window.columns ≤ window.columns * window.rows := Nat.le_mul_of_pos_right _ fits.rows
  have positive : (0 : Int) < window.columns := Int.natCast_pos.mpr fits.columns
  have nonnegative := Int.emod_nonneg pointer (Int.ne_of_gt positive)
  have inRow := Int.emod_lt_of_pos pointer positive
  rw [start, Word.signed_eq cells, Word.signed_eq fits.columns_lt, Nat.mul_comm window.rows]
  change 0 ≤ pointer.emod window.columns at nonnegative
  change pointer.emod window.columns < window.columns at inRow
  -- Either the pointer's row comes first, or the window is kept because the pointer is in it.
  split <;> omega

/-- A distance in the window is that of one cell of one row. -/
theorem existsUnique_place {pointer start : Int} (low : start ≤ pointer)
    (high : pointer < start + ((window.rows * window.columns : Nat) : Int)) :
    ∃! place : Nat × Nat, place.1 < window.rows ∧ place.2 < window.columns ∧
      start + ((place.1 * window.columns : Nat) : Int) + place.2 = pointer := by
  have positive := fits.columns
  refine ⟨((pointer - start).toNat / window.columns, (pointer - start).toNat % window.columns),
    ⟨Nat.div_lt_of_lt_mul (by rw [Nat.mul_comm]; omega), Nat.mod_lt _ positive, ?_⟩, ?_⟩
  · have parts := Nat.div_add_mod' (pointer - start).toNat window.columns
    dsimp only
    omega
  · rintro ⟨row, column⟩ ⟨-, inside, same⟩
    have distance : (pointer - start).toNat = column + row * window.columns := by
      dsimp only at same
      omega
    rw [distance, Nat.add_mul_div_right _ _ positive, Nat.add_mul_mod_self_right,
      Nat.div_eq_of_lt inside, Nat.mod_eq_of_lt inside, Nat.zero_add]

end Fits

theorem getElem?_lines {row : Nat} {line : TapeLine} :
    (window.lines tape)[row]? = some line ↔ row < window.rows ∧
      window.lineAt tape
        (window.start tape.relativePointer + ((row * window.columns : Nat) : Int)) = line := by
  simp [lines, List.getElem?_eq_some_iff]

theorem getElem?_lineAt {first : Int} {column : Nat} {cell : UInt8 × Bool} :
    (window.lineAt tape first).cells[column]? = some cell ↔ column < window.shownColumns ∧
      (tape.cellAt (first + column), decide (first + column = tape.relativePointer)) = cell := by
  simp [lineAt, List.getElem?_eq_some_iff]

/-- One cell is marked. -/
theorem Fits.existsUnique_marked (fits : window.Fits) (tape : Tape) :
    ∃! place : Nat × Nat, ∃ line value,
      (window.lines tape)[place.1]? = some line ∧ line.cells[place.2]? = some (value, true) := by
  obtain ⟨low, high⟩ := fits.start_bounds tape.relativePointer
  refine (existsUnique_congr fun place => ?_).mp (fits.existsUnique_place low high)
  constructor
  · rintro ⟨row, column, same⟩
    exact ⟨_, _, getElem?_lines.mpr ⟨row, rfl⟩, getElem?_lineAt.mpr
      ⟨fits.shownColumns_eq ▸ column, Prod.ext rfl (decide_eq_true same)⟩⟩
  · rintro ⟨line, value, here, marked⟩
    obtain ⟨row, rfl⟩ := getElem?_lines.mp here
    obtain ⟨column, cell⟩ := getElem?_lineAt.mp marked
    exact ⟨row, fits.shownColumns_eq ▸ column, of_decide_eq_true (congrArg Prod.snd cell)⟩

/-- The text of a window that can be counted shows as many lines as the window has rows, and as many cells in
each of them as it has columns. The distances continue from line to line, each value is that of the cell at
its distance, and of all the cells exactly one is marked. It stands at the pointer's distance, from which the
pointer is found on the tape. -/
theorem textOfAny_marks_pointer (window : TapeWindow) (tape : Tape)
    (fits : max rows 1 * max columns 1 < Word.signedLimit) :
    ∃ text lines start, (window.withSize rows columns).textOfAny tape = .ok text ∧
      (∀ others, (window.withSize rows columns).Shows text others ↔ others = lines) ∧
      lines.length = max rows 1 ∧
      (∀ row line, lines[row]? = some line →
        line.first = start + ((row * max columns 1 : Nat) : Int) ∧
          line.cells.length = max columns 1 ∧
            ∀ (column : Nat) value marked, line.cells[column]? = some (value, marked) →
              value = tape.cellAt (line.first + column) ∧
                (marked = true ↔ line.first + column = tape.relativePointer)) ∧
      (∃! place : Nat × Nat, ∃ line value,
        lines[place.1]? = some line ∧ line.cells[place.2]? = some (value, true)) ∧
      tape.wrap tape.relativePointer = tape.pointer := by
  have fits := withSize_fits window fits
  have shows := shows_text (window.withSize rows columns) tape
  refine ⟨_, (window.withSize rows columns).lines tape,
    (window.withSize rows columns).start tape.relativePointer, fits.textOfAny_eq tape,
    fun others => ⟨shows.unique, fun same => same ▸ shows⟩, by simp [lines, withSize],
    fun row line here => ?_, fits.existsUnique_marked tape, tape.wrap_relativePointer⟩
  obtain ⟨-, rfl⟩ := getElem?_lines.mp here
  refine ⟨rfl, ?_, fun column value marked shown => ?_⟩
  · rw [lineAt, List.length_map, List.length_range, fits.shownColumns_eq, withSize]
  · obtain ⟨-, cell⟩ := getElem?_lineAt.mp shown
    obtain ⟨rfl, rfl⟩ := Prod.mk.inj cell
    exact ⟨rfl, decide_eq_true_iff⟩

/-- A tape with the pointer two cells left of the origin. -/
def leftOfOrigin : Tape := ⟨#[7, 65, 0, 9, 33], 3, by decide⟩

/-- The pointer's cell is shown twice, but marked once. -/
theorem textOfAny_marks_pointer_leftOfOrigin :
    ∃ text, (TapeWindow.withSize { coloured := false } 1 7).textOfAny leftOfOrigin = .ok text ∧
      text = "    -7 |   9   33    7   65    0 [  9]  33  | .!.A..!\n" ∧
      leftOfOrigin.relativePointer = -2 ∧
      leftOfOrigin.wrap leftOfOrigin.relativePointer = leftOfOrigin.pointer := by
  obtain ⟨text, lines, start, written, -, -, -, -, place⟩ :=
    @textOfAny_marks_pointer 1 7 { coloured := false } leftOfOrigin (by decide)
  refine ⟨text, written, Except.ok.inj (written.symm.trans ?_), by decide, place⟩
  decide +kernel

end TapeWindow

end TapeCode
