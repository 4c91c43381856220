import TapeCode.Main
import TapeCode.Build
import TapeCode.Directory
import TapeCode.Emit.Writer
import TapeCode.Instruction.StackHeight
import TapeCode.Program.Binary
import TapeCode.Program.Cases
import TapeCode.Program.OfTyped
import TapeCode.Program.Report
import TapeCode.Proofs.Ribbon.Basic
import TapeCode.Stack.Branches
import TapeCode.Stack.Cases
import TapeCode.Stack.Program
import TapeCode.Tape.Characters
import TapeCode.Tape.Machine
import TapeCode.Tape.Window
import TapeCode.Token.Dump
import TapeCode.Token.Spelling
import TapeCode.Tree.Parser
import TapeCode.Tree.Printer
import TapeCode.Tree.Rename
import TapeCode.Typed.Evaluation
import TapeCode.Typed.Resolve
import TapeCode.Proofs.Ribbon.Templates
import TapeCode.Proofs.Ribbon.Arithmetic
import TapeCode.Proofs.CaseExecution
import TapeCode.Proofs.CaseNumbers
import TapeCode.Proofs.CasePoint
import TapeCode.Proofs.Compilation.Calls
import TapeCode.Proofs.Compilation.Simulation
import TapeCode.Proofs.Folding.Decoding
import TapeCode.Proofs.Folding.Machine
import TapeCode.Proofs.Lowering
import TapeCode.Proofs.Resolution.Extension
import TapeCode.Proofs.Resolution.Names
import TapeCode.Proofs.Resolution.Resolved
import TapeCode.Proofs.Compilation.Total
import TapeCode.Proofs.Acceptance
import TapeCode.Proofs.Evaluation.Budget
import TapeCode.Proofs.Ribbon.Whole
import TapeCode.Proofs.Correctness
import TapeCode.Proofs.Ribbon.Displacement
import TapeCode.Proofs.StraightCode
import TapeCode.Proofs.Compilation.Shapes
import TapeCode.Proofs.Assignment
import TapeCode.Proofs.Evaluation.Forgetting
import TapeCode.Proofs.Compilation.ShapedCode
import TapeCode.Proofs.Compilation.Frames
import TapeCode.Proofs.Compilation.Discipline
import TapeCode.Proofs.Compilation.Sparing
import TapeCode.Proofs.Compilation.Returning
import TapeCode.Proofs.Compilation.Undisturbed
import TapeCode.Proofs.Compilation.Numbering
import TapeCode.Proofs.Compilation.Renaming
import TapeCode.Proofs.Folding.Equivalence
import TapeCode.Proofs.Writing.Styles
import TapeCode.Proofs.Writing.Breakpoints
import TapeCode.Proofs.Writing.Loading
import TapeCode.Proofs.Binary.Readers
import TapeCode.Proofs.Binary.Programs
import TapeCode.Proofs.Parsing.Rules
import TapeCode.Proofs.Parsing.Soundness
import TapeCode.Proofs.Parsing.PrintedExpressions
import TapeCode.Proofs.Parsing.PrintedPrograms
import TapeCode.Proofs.Lowering.Leftovers
import TapeCode.Proofs.Lowering.CallOrder
import TapeCode.Proofs.Scope.History
import TapeCode.Proofs.Resolution.StoredScopes
import TapeCode.Proofs.Resolution.Elaborated
import TapeCode.Proofs.Choices
import TapeCode.Proofs.Lexing.Places
import TapeCode.Proofs.StringSlots
import TapeCode.Proofs.HeightThreshold
import TapeCode.Proofs.Sessions
import TapeCode.Proofs.Folding.Loops
import TapeCode.Proofs.InstructionText
import TapeCode.Proofs.Writing.Overflow
import TapeCode.Proofs.Disassembly
import TapeCode.Proofs.TapeWindow
import TapeCode.Proofs.Ribbon.HeapWalk
import TapeCode.Proofs.Lowering.Partition
import TapeCode.Proofs.Ribbon.Countdown
