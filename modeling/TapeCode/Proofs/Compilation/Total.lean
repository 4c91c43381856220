import TapeCode.Proofs.Compilation.WellFormed
import TapeCode.Proofs.Resolution.Resolved

/-!
# Sound programs compile

Every variable of a sound tree has a slot, every number among them has a layout, and every function
has a label or instructions. So compilation cannot fail: not for the type of a value, and not for a
slot or a label that is missing.
-/
namespace TapeCode

namespace ScopeTree.IsSound

variable {tree : ScopeTree}

theorem slot?_isSome (sound : tree.IsSound) {id : VariableId} {declared : Variable}
    (found : tree.declaredVariables[id]? = some declared) : ∃ slot, tree.slot? id = some slot := by
  have inside : declared.scope < tree.paths.length := by
    rcases sound.type_of_mem (List.mem_of_getElem? found) with ⟨-, inRoot⟩ | ⟨-, inside⟩
    · rw [inRoot]
      exact (List.getElem?_eq_some_iff.mp sound.root).1
    · exact inside
  have visible : id ∈ tree.visibleVariables declared.scope := by
    refine List.mem_flatMap.mpr ⟨declared.scope, List.mem_reverse.mpr (sound.rooted.mem_path inside), ?_⟩
    exact mem_variablesIn.mpr (by simp [found])
  have some : ((tree.visibleVariables declared.scope).findIdx? (· = id)).isSome = true := by
    rw [List.findIdx?_isSome]
    exact List.any_eq_true.mpr ⟨id, visible, by simp⟩
  obtain ⟨slot, place⟩ := Option.isSome_iff_exists.mp some
  exact ⟨slot, by simp [slot?, found, place]⟩

end ScopeTree.IsSound

namespace Compile

variable {tree : ScopeTree}

theorem layout_total (sound : tree.IsSound) {id : VariableId} {declared : Variable}
    (found : tree.declaredVariables[id]? = some declared) : ∃ layout,
      Compile.layout tree id = .ok layout := by
  obtain ⟨slot, has⟩ := sound.slot?_isSome found
  exact ⟨_, by simp [Compile.layout, ScopeTree.layout?, found, has]; rfl⟩

theorem numberLayout_total (sound : tree.IsSound) {id : VariableId} {declared : Variable}
    (found : tree.declaredVariables[id]? = some declared) (number : declared.type = .int)
    (context : ValueContext) : ∃ layout, numberLayout tree id context = .ok layout := by
  obtain ⟨layout, made⟩ := layout_total sound found
  obtain ⟨name, type, scope⟩ := declared
  obtain rfl := number
  exact ⟨layout, by simp [numberLayout, found, made]⟩

theorem callInstructions_total {id : FunctionId} {called : Function}
    (found : tree.functions[id]? = some called) : ∃ code, callInstructions tree id = .ok code := by
  cases body : called.body with
  | inPlace instructions => exact ⟨instructions, by simp [callInstructions, found, body]⟩
  | labelled label => exact ⟨[.invoke label], by simp [callInstructions, found, body]⟩

mutual

theorem expression_total (sound : tree.IsSound) {home : ScopeId} : ∀ {source : TypedExpression},
    source.IsSound tree home → ∃ code, expression tree source = .ok code
  | .number value type, typed => ⟨_, rfl⟩
  | .variable id type, typed => by
    obtain ⟨⟨declared, found, number, -⟩, -⟩ := typed
    obtain ⟨layout, made⟩ := numberLayout_total sound found number .variableRead
    exact ⟨[.readLocal layout, .dupInt, .writeLocal layout],
      Except.bind_eq_ok.mpr ⟨layout, made, rfl⟩⟩
  | .assign id value type, typed => by
    obtain ⟨typedValue, -, -, declared, found, number, -⟩ := typed
    obtain ⟨inner, madeInner⟩ := expression_total sound typedValue
    obtain ⟨layout, made⟩ := numberLayout_total sound found number .assignment
    exact ⟨inner ++ [.dupInt, .writeLocal layout],
      Except.bind_eq_ok.mpr ⟨inner, madeInner, Except.bind_eq_ok.mpr ⟨layout, made, rfl⟩⟩⟩
  | .call function arguments type, typed => by
    obtain ⟨typedArguments, called, found, -⟩ := typed
    obtain ⟨before, madeBefore⟩ := expressions_total sound typedArguments
    obtain ⟨call, madeCall⟩ := callInstructions_total found
    exact ⟨before ++ call,
      Except.bind_eq_ok.mpr ⟨before, madeBefore, Except.bind_eq_ok.mpr ⟨call, madeCall, rfl⟩⟩⟩

theorem expressions_total (sound : tree.IsSound) {home : ScopeId} :
    ∀ {sources : List TypedExpression}, TypedExpression.AreSound tree home sources →
      ∃ code, expressions tree sources = .ok code
  | [], typed => ⟨[], rfl⟩
  | first :: rest, typed => by
    obtain ⟨one, madeOne⟩ := expression_total sound typed.1
    obtain ⟨others, madeOthers⟩ := expressions_total sound typed.2
    exact ⟨one ++ others,
      Except.bind_eq_ok.mpr ⟨one, madeOne, Except.bind_eq_ok.mpr ⟨others, madeOthers, rfl⟩⟩⟩

end

/-- Values without a type of their own are dropped as numbers are, or there is nothing to drop. -/
theorem dropValue_total {type : ValueType} (returns : type = .void ∨ type = .int) :
    ∃ code, dropValue type = .ok code := by
  rcases returns with rfl | rfl
  · exact ⟨_, rfl⟩
  · exact ⟨_, rfl⟩

/-- A compiler that succeeds from every label number. -/
def Succeeds {α : Type} (action : Compiler α) : Prop :=
  ∀ first, ∃ result last, action first = .ok (result, last)

theorem Succeeds.bind {α β : Type} {action : Compiler α} {next : α → Compiler β}
    (succeeds : Succeeds action) (onwards : ∀ value, Succeeds (next value)) :
    Succeeds (action >>= next) := by
  intro first
  obtain ⟨value, between, made⟩ := succeeds first
  obtain ⟨result, last, madeNext⟩ := onwards value between
  exact ⟨result, last, stateExcept_bind.mpr ⟨value, between, made, madeNext⟩⟩

theorem Succeeds.pure {α : Type} (value : α) : Succeeds (pure value : Compiler α) :=
  fun first => ⟨value, first, rfl⟩

theorem Succeeds.lift {α : Type} {failing : Except CompileError α}
    (succeeds : ∃ value, failing = .ok value) : Succeeds (liftM failing : Compiler α) := by
  intro first
  obtain ⟨value, made⟩ := succeeds
  exact ⟨value, first, stateExcept_lift.mpr ⟨made, rfl⟩⟩

theorem newLabel_succeeds : Succeeds newLabel := fun _ => ⟨_, _, newLabel_eq_ok.mpr ⟨rfl, rfl⟩⟩

mutual

theorem statement_succeeds (sound : tree.IsSound) {home : ScopeId} {result : Option ValueType} :
    ∀ {source : TypedStatement}, source.IsSound tree home result → Succeeds (statement tree source)
  | .block statements, typed => by
    rw [statement]
    exact blockStatements_succeeds sound typed
  | .declare id value, typed => by
    obtain ⟨typedValue, -, declared, found, number, -⟩ := typed
    rw [statement]
    apply (Succeeds.lift (expression_total sound typedValue)).bind
    intro inner
    apply (Succeeds.lift (numberLayout_total sound found number .declaration)).bind
    intro layout
    exact .pure _
  | .evaluate value, typed => by
    rw [statement]
    apply (Succeeds.lift (expression_total sound typed)).bind
    intro inner
    apply (Succeeds.lift (dropValue_total (Resolve.type_of_sound sound typed))).bind
    intro drop
    exact .pure _
  | .ifThen condition consequence, typed => by
    rw [statement]
    apply newLabel_succeeds.bind
    intro behind
    apply (Succeeds.lift (expression_total sound typed.1)).bind
    intro test
    apply (statement_succeeds sound typed.2.2).bind
    intro inner
    exact .pure _
  | .ifThenElse condition consequence alternative, typed => by
    rw [statement]
    apply newLabel_succeeds.bind
    intro nonzero
    apply newLabel_succeeds.bind
    intro behind
    apply (Succeeds.lift (expression_total sound typed.1)).bind
    intro test
    apply (statement_succeeds sound typed.2.2.2).bind
    intro other
    apply (statement_succeeds sound typed.2.2.1).bind
    intro inner
    exact .pure _
  | .whileDo condition body, typed => by
    rw [statement]
    apply newLabel_succeeds.bind
    intro start
    apply newLabel_succeeds.bind
    intro behind
    apply (Succeeds.lift (expression_total sound typed.1)).bind
    intro test
    apply (statement_succeeds sound typed.2.2).bind
    intro inner
    exact .pure _
  | .doWhile body condition, typed => by
    rw [statement]
    apply newLabel_succeeds.bind
    intro start
    apply (statement_succeeds sound typed.2.2).bind
    intro inner
    apply (Succeeds.lift (expression_total sound typed.1)).bind
    intro test
    exact .pure _
  | .result none, typed => by
    rw [statement]
    exact .pure _
  | .result (some value), typed => by
    rw [statement]
    apply (Succeeds.lift (expression_total sound typed.2.1)).bind
    intro inner
    exact .pure _

theorem blockStatements_succeeds (sound : tree.IsSound) {home : ScopeId}
    {result : Option ValueType} : ∀ {sources : List TypedStatement},
      TypedStatement.AreSound tree home result sources → Succeeds (blockStatements tree sources)
  | [], typed => by
    rw [blockStatements]
    exact .pure _
  | first :: rest, typed => by
    rw [blockStatements]
    apply (statement_succeeds sound typed.1).bind
    intro one
    apply (blockStatements_succeeds sound typed.2).bind
    intro others
    exact .pure _

end

theorem storeParameters_total (sound : tree.IsSound) {ids : List VariableId}
    (numbers : ∀ id ∈ ids, ∃ declared, tree.declaredVariables[id]? = some declared ∧
      declared.type = .int) : ∃ code, storeParameters tree ids = .ok code := by
  induction ids with
  | nil => exact ⟨[], rfl⟩
  | cons first rest ih =>
    obtain ⟨⟨declared, found, number⟩, others⟩ := List.forall_mem_cons.mp numbers
    obtain ⟨layout, made⟩ := numberLayout_total sound found number .parameter
    obtain ⟨code, madeOthers⟩ := ih others
    exact ⟨.writeLocal layout :: code,
      Except.bind_eq_ok.mpr ⟨layout, made, Except.bind_eq_ok.mpr ⟨code, madeOthers, rfl⟩⟩⟩

theorem ending_total {type : ValueType} (returns : type = .void ∨ type = .int) :
    ∃ code, ending type = .ok code := by
  rcases returns with rfl | rfl
  · exact ⟨_, rfl⟩
  · exact ⟨_, rfl⟩

theorem function_succeeds (sound : tree.IsSound) {source : TypedFunction}
    (typed : source.IsSound tree) : Succeeds (function tree source) := by
  obtain ⟨address, foundAddress, -⟩ := sound.address
  obtain ⟨-, -, frame, -, -, -, numbers, body⟩ := typed.framed
  have parameters : ∃ code, storeParameters tree source.parameters.reverse = .ok code := by
    apply storeParameters_total sound
    intro id member
    obtain ⟨declared, found, number, -⟩ := numbers id (List.mem_reverse.mp member)
    exact ⟨declared, found, number⟩
  rw [function]
  apply (Succeeds.lift (layout_total sound foundAddress)).bind
  intro layout
  apply (Succeeds.lift parameters).bind
  intro stores
  apply (statement_succeeds sound body).bind
  intro code
  apply (Succeeds.lift (ending_total typed.result)).bind
  intro finish
  exact .pure _

theorem functions_succeed (sound : tree.IsSound) {sources : List TypedFunction}
    (typed : ∀ source ∈ sources, source.IsSound tree) (table : FunctionTable Listing) :
    Succeeds (functions tree table sources) := by
  induction sources generalizing table with
  | nil =>
    rw [functions]
    exact .pure _
  | cons first rest ih =>
    obtain ⟨typedFirst, others⟩ := List.forall_mem_cons.mp typed
    obtain ⟨called, found, -⟩ := typedFirst.declared
    -- A function of a program is none of the built-in ones, so it has a label.
    have labelled : called.label?.isSome = true := by
      obtain ⟨users, functions, all⟩ := sound.functions
      rw [functions, List.getElem?_append_right typedFirst.user] at found
      exact (all called (List.mem_of_getElem? found)).2.1
    obtain ⟨label, has⟩ := Option.isSome_iff_exists.mp labelled
    simp only [functions, found, Option.bind_some, has]
    apply (function_succeeds sound typedFirst).bind
    intro body
    exact ih others _

end Compile

/-- A sound program compiles. -/
theorem TypedProgram.IsSound.compiles {program : TypedProgram} {tree : ScopeTree}
    (sound : program.IsSound tree) : ∃ compiled, program.compile tree = .ok compiled := by
  have main := Compile.blockStatements_succeeds sound.scopes sound.main
  have functions := Compile.functions_succeed sound.scopes sound.functions .empty
  obtain ⟨code, middle, madeMain⟩ := main tree.nextLabel
  obtain ⟨table, last, madeTable⟩ := functions middle
  refine ⟨⟨code, table, last⟩, Except.bind_eq_ok.mpr ⟨((code, table), last), ?_, rfl⟩⟩
  exact stateExcept_bind.mpr ⟨code, middle, madeMain,
    stateExcept_bind.mpr ⟨table, last, madeTable, rfl⟩⟩

end TapeCode
