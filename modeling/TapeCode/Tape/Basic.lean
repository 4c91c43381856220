import TapeCode.Word

/-!
# Tapes

A circular tape of byte cells with a pointer on one of them. Cells are also named by their distance
from the origin, the first cell, with the cells left of it counted negatively.
-/
namespace TapeCode

structure Tape where
  cells : Array UInt8
  pointer : Nat
  inside : pointer < cells.size
  deriving Repr

namespace Tape

/-- An empty tape has no cell for the pointer. -/
def blank (length : Nat) (positive : 0 < length) : Tape :=
  ⟨Array.replicate length 0, 0, by simpa using positive⟩

def length (tape : Tape) : Nat := tape.cells.size

theorem length_pos (tape : Tape) : 0 < tape.cells.size :=
  Nat.lt_of_le_of_lt (Nat.zero_le _) tape.inside

/-- The index of the cell at a distance from the origin. -/
def wrap (tape : Tape) (offset : Int) : Nat := (offset.emod tape.cells.size).toNat

theorem wrap_lt (tape : Tape) (offset : Int) : tape.wrap offset < tape.cells.size := by
  have positive := tape.length_pos
  have bound := Int.emod_lt_of_pos offset (Int.natCast_pos.mpr positive)
  have nonnegative := Int.emod_nonneg offset (Int.natCast_ne_zero.mpr (Nat.ne_of_gt positive))
  have named : tape.wrap offset = (offset % (tape.cells.size : Int)).toNat := rfl
  omega

/-- The distance of a cell from the origin, in the direction that is shorter. -/
def relative (tape : Tape) (index : Nat) : Int :=
  if tape.length / 2 < index then (index : Int) - tape.length else index

/-- The distance for an index that need not lie on the tape. In the second half of the tape and behind
its end, the bits of the index are read as a distance, and what is left of it has to fit as well. -/
def distance (tape : Tape) (index : Nat) : Except Overflow Int :=
  if tape.length / 2 < index then
    let distance := Word.signed index - tape.length
    if distance < -(Word.signedLimit : Int) then .error .subtraction else .ok distance
  else .ok index

def relativePointer (tape : Tape) : Int := tape.relative tape.pointer

/-- The cell at a distance from the origin. -/
def cellAt (tape : Tape) (offset : Int) : UInt8 :=
  have _bound := tape.wrap_lt offset
  tape.cells[tape.wrap offset]

def current : Tape → UInt8
  | ⟨cells, pointer, _⟩ => cells[pointer]

def put (tape : Tape) (value : UInt8) : Tape :=
  ⟨tape.cells.set tape.pointer value tape.inside, tape.pointer, by simpa using tape.inside⟩

def move (tape : Tape) (distance : Int) : Tape :=
  ⟨tape.cells, tape.wrap (tape.pointer + distance), tape.wrap_lt _⟩

/-- The cells that are not zero, with their distances, from left to right. -/
def nonzeroCells (tape : Tape) : List (Int × UInt8) :=
  let indexed := tape.cells.toList.zipIdx.filter fun (value, _) => value ≠ 0
  let placed := indexed.map fun (value, index) => (tape.relative index, value)
  placed.filter (·.1 < 0) ++ placed.filter (0 ≤ ·.1)

end Tape

end TapeCode
