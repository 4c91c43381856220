import TapeCode.Tape.Basic
import TapeCode.Text.Column
import TapeCode.Word

/-!
# Showing a tape

A window of the tape, one row per line: the distance of its first cell from the origin, the values,
and the characters they stand for. The window surrounds the origin as long as the pointer is in it,
and otherwise starts with the pointer's row. The pointer's cell is marked. The cells of a window are
counted with 64 bits, and a window with more of them may have no text.
-/
namespace TapeCode

structure TapeWindow where
  coloured : Bool := true
  rows : Nat := 4
  columns : Nat := 16
  deriving DecidableEq, Repr

namespace TapeWindow

/-- A window has at least one row and one column. -/
def withSize (window : TapeWindow) (rows columns : Nat) : TapeWindow :=
  ⟨window.coloured, max rows 1, max columns 1⟩

/-- The first cell shown. Half of the rows lie left of the origin. -/
def start (window : TapeWindow) (pointer : Int) : Int :=
  let first : Int := -((window.columns * (window.rows / 2) : Nat) : Int)
  let size := Word.signed (window.columns * window.rows)
  if pointer < first ∨ first + size ≤ pointer then
    pointer - pointer.emod (Word.signed window.columns)
  else first

/-- The cells that a row shows. A row that is too long for distances within it shows none. -/
def shownColumns (window : TapeWindow) : Nat :=
  if window.columns < Word.signedLimit then window.columns else 0

def plain : String := "\x1b[0m"

def inverted : String := "\x1b[7m"

def dimmed : String := "\x1b[2m"

def cellText (window : TapeWindow) (value : UInt8) (marked : Bool) : String :=
  let number := Text.padLeft ' ' 3 (toString value.toNat)
  if marked then
    if window.coloured then s!" {inverted}{number}{plain} " else s!"[{number}]"
  else if value = 0 ∧ window.coloured then s!" {dimmed}{number}{plain} "
  else s!" {number} "

/-- Visible ASCII characters are shown as themselves, everything else as a point. -/
def character (value : UInt8) : Char :=
  if 0x20 ≤ value ∧ value ≤ 0x7e then Char.ofNat value.toNat else '.'

def rowText (window : TapeWindow) (tape : Tape) (first : Int) : String :=
  let offsets := (List.range window.shownColumns).map fun (column : Nat) => first + (column : Int)
  let cells := offsets.map fun offset =>
    window.cellText (tape.cellAt offset) (offset = tape.relativePointer)
  let characters := offsets.map fun offset => character (tape.cellAt offset)
  Text.padLeft ' ' 6 (toString first) ++ " |" ++ String.join cells ++ " | " ++
    String.ofList characters ++ "\n"

def text (window : TapeWindow) (tape : Tape) : String :=
  let start := window.start tape.relativePointer
  String.join <| (List.range window.rows).map fun (row : Nat) =>
    window.rowText tape (start + ((row * window.columns : Nat) : Int))

/-- What goes wrong with the numbers of cells in the upper rows and in all rows. -/
def overflow? (window : TapeWindow) (pointer : Int) : Option Overflow :=
  let upper := window.columns * (window.rows / 2)
  let all := window.columns * window.rows
  let finish := Word.signed all - upper
  if Word.limit ≤ upper then some .multiplication
  else if upper = Word.signedLimit then some .negation
  else if Word.limit ≤ all then some .multiplication
  else if -(upper : Int) ≤ pointer ∧ finish < -(Word.signedLimit : Int) then some .addition
  else none

/-- The text of a window of any size. -/
def textOfAny (window : TapeWindow) (tape : Tape) : Except Overflow String :=
  match window.overflow? tape.relativePointer with
  | some cause => .error cause
  | none => .ok (window.text tape)

end TapeWindow

end TapeCode
