import TapeCode.Emit.Writer
import TapeCode.Instruction.StackHeight
import TapeCode.Program.Cases
import TapeCode.Program.OfTyped
import TapeCode.Token.Lexer
import TapeCode.Tree.Parser
import TapeCode.Typed.Resolve

/-!
# From source text to tape code

The stages joined: a source text becomes tokens, a tree, a resolved tree, an intermediate program, a
single stream of instructions and at last tape code. Each stage may refuse what the one before it
made.
-/
namespace TapeCode

inductive BuildError
  | lex (error : LexError)
  | parse (error : ParseError)
  | resolve (error : ResolveError)
  | compile (error : CompileError)
  | stack (error : StackUnderflow)
  | lower (error : LowerError)
  | emit (error : EmitError)
  deriving DecidableEq, Repr

def BuildError.message : BuildError → String
  | .lex error => s!"syntax error: {error.message}"
  | .parse error => s!"parse error: {error.message}"
  | .resolve error => s!"error: {error.message}"
  | .compile error => error.message
  | .stack error => error.message
  | .lower error => error.message
  | .emit error => error.message

namespace Build

def tree (source : String) : Except BuildError (List Statement) := do
  let lexemes ← (tokenize source).mapError .lex
  (parse lexemes).mapError .parse

/-- The main stream must find the values it needs on the stack, up to its first call. -/
def program (source : String) : Except BuildError Program := do
  let tree ← tree source
  let (typed, scopes) ← (resolve tree).mapError .resolve
  let program ← (typed.compile scopes).mapError .compile
  let _ ← (StackHeight.check program.main 0).mapError .stack
  return program

def stream (program : Program) : Except BuildError Listing := program.lower.mapError .lower

def code (style : CodeStyle) (stream : Listing) : Except BuildError (List Char) :=
  (Writer.generate style stream).mapError .emit

/-- The tape code of a source text. -/
def compileSource (style : CodeStyle) (source : String) : Except BuildError (List Char) := do
  code style (← stream (← program source))

end Build

end TapeCode
