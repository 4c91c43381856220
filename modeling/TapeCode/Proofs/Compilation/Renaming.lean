import TapeCode.Program.OfTyped
import TapeCode.Proofs.Resolution.Renaming

/-!
# Compilation does not look at names

The instructions of a resolved program say where its variables lie and which labels its functions have.
Both come from the order of the declarations. So the programs that differ in their names alone become
the same intermediate program, with the same labels, or none of them becomes one.
-/
namespace TapeCode

variable {image : String → String} {tree : ScopeTree}

namespace ScopeTree

theorem visibleVariables_rename (scope : ScopeId) :
    (tree.rename image).visibleVariables scope = tree.visibleVariables scope := by
  have same : (tree.rename image).variablesIn = tree.variablesIn := funext variablesIn_rename
  rw [visibleVariables, visibleVariables, path_rename, same]

theorem slot?_rename (id : VariableId) : (tree.rename image).slot? id = tree.slot? id := by
  simp only [slot?, getElem?_variables_rename, visibleVariables_rename]
  cases tree.declaredVariables[id]? <;> rfl

theorem layout?_rename (id : VariableId) : (tree.rename image).layout? id = tree.layout? id := by
  simp only [layout?, getElem?_variables_rename, visibleVariables_rename, slot?_rename,
    Option.map_map]
  cases tree.declaredVariables[id]? <;> rfl

end ScopeTree

namespace Compile

theorem layout_rename (id : VariableId) {code : List Int} :
    layout (tree.rename image) id = .ok code ↔ layout tree id = .ok code := by
  simp only [layout, ScopeTree.layout?_rename]
  cases tree.layout? id <;> simp

theorem numberLayout_rename (id : VariableId) (context : ValueContext) {code : List Int} :
    numberLayout (tree.rename image) id context = .ok code ↔
      numberLayout tree id context = .ok code := by
  simp only [numberLayout, ScopeTree.getElem?_variables_rename]
  rcases tree.declaredVariables[id]? with _ | ⟨name, type, scope⟩
  · exact layout_rename id
  · cases type <;> first | exact layout_rename id | rfl

theorem callInstructions_rename (id : FunctionId) :
    callInstructions (tree.rename image) id = callInstructions tree id := by
  simp only [callInstructions, ScopeTree.getElem?_functions_rename]
  cases tree.functions[id]? <;> rfl

mutual

theorem expression_rename : ∀ (source : TypedExpression) {code : Listing},
    expression (tree.rename image) source = .ok code ↔ expression tree source = .ok code
  | .number value type, code => Iff.rfl
  | .variable id type, code => by
    simp only [expression, Except.bind_eq_ok, numberLayout_rename]
  | .assign id value type, code => by
    simp only [expression, Except.bind_eq_ok, numberLayout_rename, expression_rename value]
  | .call function arguments type, code => by
    simp only [expression, Except.bind_eq_ok, callInstructions_rename,
      expressions_rename arguments]

theorem expressions_rename : ∀ (sources : List TypedExpression) {code : Listing},
    expressions (tree.rename image) sources = .ok code ↔ expressions tree sources = .ok code
  | [], code => Iff.rfl
  | first :: rest, code => by
    simp only [expressions, Except.bind_eq_ok, expression_rename first, expressions_rename rest]

end

mutual

theorem statement_rename : ∀ (source : TypedStatement) {before after : Nat} {code : Listing},
    statement (tree.rename image) source before = .ok (code, after) ↔
      statement tree source before = .ok (code, after)
  | .block statements, before, after, code => by
    simp only [statement, blockStatements_rename statements]
  | .declare id value, before, after, code => by
    simp only [statement, stateExcept_bind, stateExcept_lift, numberLayout_rename,
      expression_rename]
  | .evaluate value, before, after, code => by
    simp only [statement, stateExcept_bind, stateExcept_lift, expression_rename]
  | .ifThen condition consequence, before, after, code => by
    simp only [statement, stateExcept_bind, stateExcept_lift, expression_rename,
      statement_rename consequence]
  | .ifThenElse condition consequence alternative, before, after, code => by
    simp only [statement, stateExcept_bind, stateExcept_lift, expression_rename,
      statement_rename consequence, statement_rename alternative]
  | .whileDo condition body, before, after, code => by
    simp only [statement, stateExcept_bind, stateExcept_lift, expression_rename,
      statement_rename body]
  | .doWhile body condition, before, after, code => by
    simp only [statement, stateExcept_bind, stateExcept_lift, expression_rename,
      statement_rename body]
  | .result none, before, after, code => Iff.rfl
  | .result (some value), before, after, code => by
    simp only [statement, stateExcept_bind, stateExcept_lift, expression_rename]

theorem blockStatements_rename : ∀ (sources : List TypedStatement) {before after : Nat}
    {code : Listing}, blockStatements (tree.rename image) sources before = .ok (code, after) ↔
      blockStatements tree sources before = .ok (code, after)
  | [], before, after, code => Iff.rfl
  | first :: rest, before, after, code => by
    simp only [blockStatements, stateExcept_bind, statement_rename first,
      blockStatements_rename rest]

end

theorem storeParameters_rename (ids : List VariableId) {code : Listing} :
    storeParameters (tree.rename image) ids = .ok code ↔ storeParameters tree ids = .ok code := by
  induction ids generalizing code with
  | nil => rfl
  | cons first rest ih =>
    simp only [storeParameters, Except.bind_eq_ok, numberLayout_rename, ih]

theorem function_rename (source : TypedFunction) {before after : Nat} {code : Listing} :
    function (tree.rename image) source before = .ok (code, after) ↔
      function tree source before = .ok (code, after) := by
  simp only [function, stateExcept_bind, stateExcept_lift, layout_rename, storeParameters_rename,
    statement_rename]

theorem functions_rename (sources : List TypedFunction) {table made : FunctionTable Listing}
    {before after : Nat} :
    functions (tree.rename image) table sources before = .ok (made, after) ↔
      functions tree table sources before = .ok (made, after) := by
  induction sources generalizing table before with
  | nil => rfl
  | cons first rest ih =>
    have label : ((tree.rename image).functions[first.function]?).bind (·.label?) =
        (tree.functions[first.function]?).bind (·.label?) := by
      rw [ScopeTree.getElem?_functions_rename]
      cases tree.functions[first.function]? <;> rfl
    simp only [functions, label]
    cases (tree.functions[first.function]?).bind (·.label?) with
    | none => rfl
    | some label => simp only [stateExcept_bind, function_rename, ih]

end Compile

/-- A scope tree with other names leads to the same program. -/
theorem TypedProgram.compile_rename (source : TypedProgram) {program : Program} :
    source.compile (tree.rename image) = .ok program ↔ source.compile tree = .ok program := by
  simp only [compile, StateT.run, Except.bind_eq_ok, Prod.exists, stateExcept_bind,
    Compile.blockStatements_rename, Compile.functions_rename]
  rfl

/-- The syntax tree becomes this intermediate program. -/
def Statement.Compiles (tree : List Statement) (program : Program) : Prop :=
  ∃ typed scopes, resolve tree = .ok (typed, scopes) ∧ typed.compile scopes = .ok program

/-- Programs that differ in the names of their variables, parameters and functions alone become the
same intermediate program, with the same function table and the same labels, or none of them becomes
one. -/
theorem Statement.renameAll_compiles {image : String → String} (injective : Function.Injective image)
    (builtins : ∀ function ∈ Function.builtins, image function.name = function.name)
    (address : image "<return_address>" = "<return_address>") (tree : List Statement)
    (program : Program) :
    Statement.Compiles (Statement.renameAll image tree) program ↔ Statement.Compiles tree program := by
  have resolves := resolve_renameAll ⟨injective, builtins, address⟩ tree
  unfold Statement.Compiles
  cases resolved : resolve tree with
  | error error => simp [resolves, resolved, Except.map, Except.mapError]
  | ok made =>
    obtain ⟨typed, scopes⟩ := made
    simp [resolves, resolved, Except.map, Except.mapError, TypedProgram.compile_rename]

/-- The names `f` and `x`, each in place of the other. -/
def exchanged (name : String) : String :=
  if name = "x" then "f" else if name = "f" then "x" else name

theorem exchanged_injective : Function.Injective exchanged := by
  intro first second same
  unfold exchanged at same
  grind

/-- A function of one parameter, another of two with the name of a built-in one, and calls of both. -/
def overloadingTree : List Statement :=
  [.function "f" [⟨"x", .int, ⟨1, 8⟩⟩] .int (.result (some (.variable "x" ⟨1, 30⟩)) ⟨1, 23⟩) ⟨1, 1⟩,
    .function "print" [⟨"x", .int, ⟨2, 12⟩⟩, ⟨"y", .int, ⟨2, 20⟩⟩] .void
      (.evaluate (.call "print" [.variable "y" ⟨2, 38⟩] ⟨2, 32⟩)) ⟨2, 1⟩,
    .declare "x" (.call "f" [.number 7 ⟨3, 11⟩] ⟨3, 9⟩) ⟨3, 1⟩,
    .evaluate (.call "print" [.variable "x" ⟨4, 7⟩, .number 1 ⟨4, 10⟩] ⟨4, 1⟩)]

theorem Statement.renameAll_compiles_overloadingTree :
    Function.Injective exchanged ∧
      (∀ function ∈ Function.builtins, exchanged function.name = function.name) ∧
      exchanged "<return_address>" = "<return_address>" ∧
      ∃ program, Statement.Compiles (Statement.renameAll exchanged overloadingTree) program ∧
        Statement.Compiles overloadingTree program ∧ program.functions.entries.length = 2 := by
  have builtins : ∀ function ∈ Function.builtins, exchanged function.name = function.name := by
    decide
  have address : exchanged "<return_address>" = "<return_address>" := by decide
  obtain ⟨resolved, resolves, program, compiles, size⟩ : ∃ resolved,
      resolve overloadingTree = .ok resolved ∧ ∃ program,
        resolved.1.compile resolved.2 = .ok program ∧ program.functions.entries.length = 2 := by
    decide +kernel
  have compiled : Statement.Compiles overloadingTree program := ⟨_, _, resolves, compiles⟩
  exact ⟨exchanged_injective, builtins, address, program,
    (Statement.renameAll_compiles exchanged_injective builtins address overloadingTree program).mpr
      compiled, compiled, size⟩

end TapeCode
