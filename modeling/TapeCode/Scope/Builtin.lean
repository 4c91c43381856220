import TapeCode.Scope.Basic

/-!
# Built-in functions

The root scope: the functions that every program may call, each replaced by its instructions, and
one variable that no program can name, the slot in which a function parks its return address.
-/
namespace TapeCode

namespace Function

def builtin (name : String) (parameters : List ValueType) (result : ValueType)
    (instructions : List Instruction) : Function :=
  ⟨name, parameters, result, ScopeTree.root, .inPlace instructions⟩

/-- An operator on two numbers. -/
def operator (symbol : String) (instructions : List Instruction) : Function :=
  builtin symbol [.int, .int] .int instructions

def builtins : List Function :=
  [builtin "print" [.int] .void [.printChar, .popInt],
    builtin "read" [] .int [.readChar],
    builtin "printNumber" [.int] .void [.printInt, .popInt],
    operator "==" [.sub, .not],
    operator ">" [.greater],
    operator "+" [.add],
    operator "-" [.sub],
    operator "*" [.mul],
    operator "/" [.div],
    operator "=" [],
    builtin "readDigit" [] .int [.readChar, .pushInt 48, .sub]]

end Function

namespace ScopeTree

def returnAddress : VariableId := 0

/-- The scope tree in which every compilation starts. -/
def initial : ScopeTree :=
  ⟨[[root]], [⟨"<return_address>", .fsm, root⟩], Function.builtins, 0⟩

end ScopeTree

end TapeCode
