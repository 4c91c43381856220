/-!
# Positions in a source text

Lines and columns count from one; a column counts characters, and a newline ends its line.
-/
namespace TapeCode

structure Position where
  line : Nat
  column : Nat
  deriving DecidableEq, Repr, Inhabited

namespace Position

def start : Position := ⟨1, 1⟩

/-- The position behind `c`, when `c` stands at `position`. -/
def after (position : Position) (c : Char) : Position :=
  if c = '\n' then ⟨position.line + 1, 1⟩ else ⟨position.line, position.column + 1⟩

def advance (position : Position) (text : List Char) : Position := text.foldl after position

/-- A message about the place, as all messages about the source are written. -/
def message (position : Position) (text : String) : String :=
  s!"{position.line}:{position.column}: {text}"

end Position

end TapeCode
