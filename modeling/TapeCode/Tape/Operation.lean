import TapeCode.Tape.Basic

/-!
# Tape code as operations

Tape code is a text of eight commands; all other characters are ignored, except one that marks
breakpoints. For execution, runs of moves and runs of increments are each folded into one operation,
and the ends of every loop know each other's place.
-/
namespace TapeCode

inductive TapeOperation
  | move (distance : Int)
  | add (amount : UInt8)
  | output
  | input
  | loopStart (finish : Nat)
  | loopEnd (start : Nat)
  | breakpoint
  deriving DecidableEq, Repr, Inhabited

/-- A bracket without partner, with its place among the characters of the code. -/
inductive BracketError
  | unmatchedOpen (offset : Nat)
  | unmatchedClose (offset : Nat)
  deriving DecidableEq, Repr

namespace TapeOperation

/-- The operations read so far, and the loops still open, the innermost first: the place of each one
among the operations and among the characters. -/
structure Decoding where
  operations : Array TapeOperation
  opened : List (Nat × Nat)
  deriving Repr

namespace Decoding

def push (decoding : Decoding) (operation : TapeOperation) : Decoding :=
  { decoding with operations := decoding.operations.push operation }

/-- A move is added to the moves directly before it. -/
def pushMove (decoding : Decoding) (distance : Int) : Decoding :=
  match decoding.operations.back? with
  | some (.move before) =>
    { decoding with operations := decoding.operations.pop.push (.move (before + distance)) }
  | _ => decoding.push (.move distance)

/-- An increment is added to the increments directly before it. -/
def pushAdd (decoding : Decoding) (amount : UInt8) : Decoding :=
  match decoding.operations.back? with
  | some (.add before) =>
    { decoding with operations := decoding.operations.pop.push (.add (before + amount)) }
  | _ => decoding.push (.add amount)

def openLoop (decoding : Decoding) (offset : Nat) : Decoding :=
  ⟨decoding.operations.push (.loopStart 0), (decoding.operations.size, offset) :: decoding.opened⟩

def closeLoop (decoding : Decoding) (offset : Nat) : Except BracketError Decoding :=
  match decoding with
  | ⟨_, []⟩ => .error (.unmatchedClose offset)
  | ⟨operations, (start, _) :: opened⟩ =>
    let finish := operations.size
    .ok ⟨(operations.setIfInBounds start (.loopStart finish)).push (.loopEnd start), opened⟩

/-- The next character of the code; a command is a command even if it also marks breakpoints. -/
def take (breakpoint : Option Char) (decoding : Decoding) (offset : Nat) (c : Char) :
    Except BracketError Decoding :=
  match c with
  | '>' => .ok (decoding.pushMove 1)
  | '<' => .ok (decoding.pushMove (-1))
  | '+' => .ok (decoding.pushAdd 1)
  | '-' => .ok (decoding.pushAdd 255)
  | '.' => .ok (decoding.push .output)
  | ',' => .ok (decoding.push .input)
  | '[' => .ok (decoding.openLoop offset)
  | ']' => decoding.closeLoop offset
  | c => .ok (if breakpoint = some c then decoding.push .breakpoint else decoding)

def takeAll (breakpoint : Option Char) (decoding : Decoding) (offset : Nat) :
    List Char → Except BracketError Decoding
  | [] => .ok decoding
  | c :: rest =>
    match decoding.take breakpoint offset c with
    | .error error => .error error
    | .ok decoding => decoding.takeAll breakpoint (offset + 1) rest

end Decoding

/-- The operations of tape code. Every closing bracket needs a partner before every opening one
does. -/
def decode (breakpoint : Option Char) (code : List Char) :
    Except BracketError (Array TapeOperation) :=
  match Decoding.takeAll breakpoint ⟨#[], []⟩ 0 code with
  | .error error => .error error
  | .ok ⟨operations, []⟩ => .ok operations
  | .ok ⟨_, (_, offset) :: _⟩ => .error (.unmatchedOpen offset)

end TapeOperation

end TapeCode
