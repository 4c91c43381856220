import TapeCode.Program.Basic

/-!
# One stream for a whole program

Every function that the main block can reach is put behind it, once each, in the order in which a
breadth-first search over the calls discovers them:

    main ; jump[end] ; label[f] ; body of f ; label[g] ; body of g ; … ; label[end]

The label behind the last body must be one that nothing else uses.
-/
namespace TapeCode

inductive LowerError
  | unknownFunction (id : Int)
  | unknownLabel (id : Int)
  deriving DecidableEq, Repr

def LowerError.message : LowerError → String
  | .unknownFunction id => s!"pass error: invoke of unknown function {id}"
  | .unknownLabel id => s!"pass error: jump to unknown label {id}"

namespace Flat

/-- The functions that a listing invokes and that are not in `seen`, each once, in the order of
their first call. -/
def discover (seen : List Int) : Listing → List Int
  | [] => []
  | .invoke id :: rest => if id ∈ seen then discover seen rest else id :: discover (id :: seen) rest
  | _ :: rest => discover seen rest

/-- The labelled bodies of the functions in `queue` and of those discovered through them. Every
turn takes another function from the table, so when `turns` bodies have been taken and the table
has no more of them, the next function in the queue cannot be in the table. -/
def bodies (table : FunctionTable Listing) (turns : Nat) (seen queue : List Int) :
    Except LowerError Listing :=
  match queue, turns with
  | [], _ => .ok []
  | id :: _, 0 => .error (.unknownFunction id)
  | id :: queue, turns + 1 =>
    match table.get? id with
    | none => .error (.unknownFunction id)
    | some body => do
      let found := discover seen body
      let rest ← bodies table turns (found ++ seen) (queue ++ found)
      return .label id :: body ++ rest

/-- The main stream with all functions it can reach. -/
def flatten (main : Listing) (table : FunctionTable Listing) (finish : Int) :
    Except LowerError Listing :=
  match discover [] main with
  | [] => .ok main
  | called => do
    let bodies ← bodies table table.entries.length called called
    return main ++ [.jump finish] ++ bodies ++ [.label finish]

end Flat

end TapeCode
