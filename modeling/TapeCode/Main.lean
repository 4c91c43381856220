import TapeCode.CommandLine

/-!
# The program

Performs the effects of a command on the real files and streams.
-/
namespace TapeCode.Main

open CommandLine

def fileError : IO.Error → FileError
  | .noFileOrDirectory .. => .notFound
  | .permissionDenied .. => .permissionDenied
  | .inappropriateType _ 21 _ => .isDirectory
  | .inappropriateType .. => .notDirectory
  | .invalidArgument .. => .nameTooLong
  | error => .other (toString error)

def readFile (path : String) : IO Contents := do
  try
    let bytes ← IO.FS.readBinFile path
    return .ok bytes.toList
  catch error => return .error (fileError error)

/-- Performs effects up to the first that fails; answers whether all succeeded. -/
def performAll : List Effect → IO Bool
  | [] => return true
  | .print bytes :: rest => do
    let output ← IO.getStdout
    output.write (ByteArray.mk bytes.toArray)
    output.flush
    performAll rest
  | .report text :: rest => do
    IO.eprint text
    performAll rest
  | .writeFile path bytes :: rest => do
    let failure : Option FileError ←
      try
        IO.FS.writeBinFile path (ByteArray.mk bytes.toArray)
        pure none
      catch error => pure (some (fileError error))
    match failure with
    | none => performAll rest
    | some error =>
      IO.eprint (writeFailure path error)
      return false

/-- All that is left of the standard input. -/
partial def readAll (input : IO.FS.Stream) (before : ByteArray) : IO ByteArray := do
  let bytes ← input.read 65536
  if bytes.isEmpty then return before else readAll input (before ++ bytes)

partial def continueRun (effects : List Effect) (next : Continuation) : IO UInt32 := do
  if ← performAll effects then
    match next with
    | .exit code => return code.toUInt32
    | .run session =>
      let (effects, next) := session.advance 1000000
      continueRun effects next
  else return 1

end TapeCode.Main

open TapeCode TapeCode.CommandLine TapeCode.Main in
def main (arguments : List String) : IO UInt32 := do
  let contents ← match inputFile? arguments with
    | some path => if asksForHelp arguments then pure (.error .notFound) else readFile path
    | none => pure (.error .notFound)
  let (effects, next) := perform arguments contents
  match next with
  | .exit _ => continueRun effects next
  | .run session =>
    let input ← readAll (← IO.getStdin) .empty
    continueRun effects (.run (session.withInput input.toList))
