/-!
# Value types

The types of the language. A value of every type but `void` can live in a heap slot, and each such
type knows the tape code that steps over one value and that clears it.
-/
namespace TapeCode

inductive ValueType
  | void
  | int
  | laxBool
  | bool
  | fsm
  | string
  deriving DecidableEq, Repr, Inhabited

namespace ValueType

/-- All types in the order of their numbers. -/
def all : List ValueType := [.void, .int, .laxBool, .bool, .fsm, .string]

def number : ValueType → Nat
  | .void => 0
  | .int => 1
  | .laxBool => 2
  | .bool => 3
  | .fsm => 4
  | .string => 5

def ofNumber? (number : Int) : Option ValueType :=
  all.find? fun type => (type.number : Int) = number

def name : ValueType → String
  | .void => "void"
  | .int => "int"
  | .laxBool => "lbool"
  | .bool => "bool"
  | .fsm => "fsm"
  | .string => "string"

def ofName? (name : String) : Option ValueType := all.find? (·.name = name)

/-- Tape code for one value of the type: the steps away from the stack and back, and the code that
zeroes the value. -/
structure CellCode where
  away : String
  back : String
  clear : String

/-- Values that fill one cell. -/
def CellCode.single : CellCode := ⟨"<", ">", "[-]"⟩

/-- Values that fill a run of nonzero cells between two zero cells. -/
def CellCode.run : CellCode := ⟨"<[<]<", ">>[>]", "[[-]<]"⟩

def cellCode? : ValueType → Option CellCode
  | .void => none
  | .int | .laxBool | .bool | .fsm => some .single
  | .string => some .run

/-- A type can live in a heap slot when there is code to step over its values. -/
def isStorable (type : ValueType) : Bool := type.cellCode?.isSome

/-- Whether a value of the type may stand where `expected` is declared: every truth value or number
may be taken as a lax truth value, and any other type only as itself. -/
def acceptsAs (type expected : ValueType) : Bool :=
  type = expected || (expected = .laxBool && (type = .int || type = .bool))

end ValueType

end TapeCode
