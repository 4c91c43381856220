import TapeCode.Proofs.Monads
import TapeCode.Proofs.Resolution.Extension
import TapeCode.Proofs.Resolution.Names
import TapeCode.Typed.Resolve

/-!
# Resolution makes sound trees

Every expression and statement that resolution makes is sound in the scope tree that it leaves, and so
is every function. A block promises its functions before their bodies are resolved, and by the end of
resolution each function that was ever promised has been completed once.
-/
namespace TapeCode

namespace ScopeTree

variable {tree : ScopeTree}

theorem IsSound.result_type (sound : tree.IsSound) {id : FunctionId} {called : Function}
    (found : tree.functions[id]? = some called) :
    called.result = .void ∨ called.result = .int := by
  obtain ⟨users, known, labelled⟩ := sound.functions
  have among := List.mem_of_getElem? found
  rw [known] at among
  rcases List.mem_append.mp among with builtin | user
  · have all : ∀ called ∈ Function.builtins, called.result = .void ∨ called.result = .int := by
      decide
    exact all called builtin
  · exact (labelled called user).2.2

/-- Around every scope lie scopes of the tree, itself among them. -/
theorem IsSound.near_of_mem (sound : tree.IsSound) {scope around : ScopeId}
    (member : around ∈ tree.path scope) : tree.Near scope around := by
  have among := path_mem_of_mem member
  cases here : tree.paths[scope]? with
  | none => simp [path, here] at member
  | some whole =>
    have inside := (List.getElem?_eq_some_iff.mp here).1
    exact ⟨tree.path scope, among, sound.rooted.mem_path inside, member⟩

theorem findVariable?_eq_some {scope : ScopeId} {name : String} {id : VariableId}
    (found : tree.findVariable? scope name = some id) : ∃ declared,
      tree.declaredVariables[id]? = some declared ∧ declared.name = name ∧
        declared.scope ∈ tree.path scope := by
  obtain ⟨around, member, here⟩ := List.exists_of_findSome?_eq_some found
  have named := List.find?_some here
  obtain ⟨declared, known, same⟩ :=
    Option.map_eq_some_iff.mp (mem_variablesIn.mp (List.mem_of_find?_eq_some here))
  refine ⟨declared, known, ?_, same ▸ member⟩
  simpa [variableName?, known] using named

theorem findFunction?_eq_some {scope : ScopeId} {name : String} {types : List ValueType}
    {id : FunctionId} (found : tree.findFunction? scope name types = some id) : ∃ called,
      tree.functions[id]? = some called ∧ called.name = name ∧ called.accepts types = true ∧
        called.scope ∈ tree.path scope := by
  obtain ⟨around, member, here⟩ := List.exists_of_findSome?_eq_some found
  have fits := List.find?_some here
  obtain ⟨called, known, same⟩ :=
    Option.map_eq_some_iff.mp (mem_functionsIn.mp (List.mem_of_find?_eq_some here))
  simp only [known, Option.any_some, Bool.and_eq_true, decide_eq_true_eq] at fits
  exact ⟨called, known, fits.1, fits.2, same ▸ member⟩

end ScopeTree

theorem ValueType.acceptsAs_int {type : ValueType} (accepted : type.acceptsAs .int = true) :
    type = .int := by
  simpa [acceptsAs] using accepted

namespace Resolve

variable {tree : ScopeTree} {scope : ScopeId}

/-! ## Expressions -/

theorem expectType_eq_ok {found expected : ValueType} {position : Position} {done : Unit}
    (checked : expectType found expected position = .ok done) :
    found.acceptsAs expected = true := by
  unfold expectType at checked
  split at checked
  next accepted => exact accepted
  next => cases checked

theorem variableUse_eq_ok (sound : tree.IsSound) {name : String} {position : Position}
    {id : VariableId} {type : ValueType} (starts : StartsAsName name)
    (used : variableUse tree scope name position = .ok (id, type)) :
    tree.IsNumber scope id ∧ type = .int := by
  unfold variableUse at used
  split at used
  next => cases used
  next other found =>
    obtain ⟨rfl, rfl⟩ := Prod.mk.inj (Except.ok.inj used)
    obtain ⟨declared, known, named, member⟩ := ScopeTree.findVariable?_eq_some found
    have number : declared.type = .int := by
      obtain ⟨rest, all, numbers⟩ := sound.numbers
      have among := List.mem_of_getElem? known
      rw [all] at among
      rcases List.mem_cons.mp among with rfl | later
      · exact absurd named.symm starts.ne_returnAddress
      · exact (numbers declared later).1
    exact ⟨⟨declared, known, number, sound.near_of_mem member⟩, by simp [known, number]⟩

/-- A call that resolution makes, and the function that it calls. -/
theorem call_eq_ok {name : String} {arguments : List TypedExpression} {position : Position}
    {typed : TypedExpression} (made : call tree scope name arguments position = .ok typed) :
    ∃ id called, typed = .call id arguments called.result ∧ tree.functions[id]? = some called ∧
      called.name = name ∧ called.accepts (arguments.map (·.type)) = true ∧
      called.scope ∈ tree.path scope := by
  simp only [call] at made
  split at made
  next => cases made
  next id found =>
    obtain rfl := Except.ok.inj made
    obtain ⟨called, known, rest⟩ := ScopeTree.findFunction?_eq_some found
    exact ⟨id, called, by simp [known], known, rest⟩

theorem call_sound (sound : tree.IsSound) {name : String} {arguments : List TypedExpression}
    {position : Position} {typed : TypedExpression} (other : name ≠ assignment)
    (arguments_sound : TypedExpression.AreSound tree scope arguments)
    (made : call tree scope name arguments position = .ok typed) : typed.IsSound tree scope := by
  obtain ⟨id, called, rfl, found, rfl, accepts, member⟩ := call_eq_ok made
  exact ⟨arguments_sound, called, found, other, accepts, rfl, sound.near_of_mem member⟩

/-- Only numbers are assigned, for no function of a program is named as assignment is. -/
theorem assignment_type (sound : tree.IsSound) {arguments : List TypedExpression}
    {position : Position} {typed : TypedExpression}
    (made : call tree scope assignment arguments position = .ok typed) :
    typed.type = .int ∧ ∀ argument ∈ arguments, argument.type = .int := by
  obtain ⟨id, called, rfl, found, named, accepts, -⟩ := call_eq_ok made
  have builtin : called = Function.operator "=" [] := by
    obtain ⟨users, known, labelled⟩ := sound.functions
    have among := List.mem_of_getElem? found
    rw [known] at among
    rcases List.mem_append.mp among with builtin | user
    · have only : ∀ called ∈ Function.builtins, called.name = assignment →
          called = Function.operator "=" [] := by decide
      exact only called builtin named
    · exact absurd named (labelled called user).1
  subst builtin
  refine ⟨rfl, ?_⟩
  match arguments, accepts with
  | [first, second], accepts =>
    simp only [Function.accepts, Function.operator, Function.builtin, List.map_cons, List.map_nil,
      List.zip_cons_cons, List.zip_nil_right, List.all_cons, List.all_nil, Bool.and_true,
      Bool.and_eq_true] at accepts
    simp only [List.forall_mem_cons, List.not_mem_nil, false_implies, implies_true, and_true]
    exact ⟨ValueType.acceptsAs_int accepts.2.1, ValueType.acceptsAs_int accepts.2.2⟩

theorem symbol_ne_assignment {operator : BinaryOperator} (other : operator ≠ .assign) :
    operator.symbol ≠ assignment := by
  cases operator <;> first | exact absurd rfl other | decide

theorem expression_operator {operator : BinaryOperator} (other : operator ≠ .assign)
    (left right : Expression) (position : Position) :
    expression tree scope (.binary operator left right position) = (do
      let left ← expression tree scope left
      let right ← expression tree scope right
      call tree scope operator.symbol [left, right] position) := by
  cases operator <;> first | exact absurd rfl other | simp only [expression]

mutual

theorem expression_sound (sound : tree.IsSound) : ∀ {source : Expression}
    {typed : TypedExpression}, source.Names StartsAsName →
      expression tree scope source = .ok typed → typed.IsSound tree scope
  | .number value position, typed, named, made => by
    obtain rfl := Except.ok.inj made
    rfl
  | .variable name position, typed, named, made => by
    simp only [expression, Except.bind_eq_ok] at made
    obtain ⟨⟨id, type⟩, used, made⟩ := made
    obtain rfl := Except.ok.inj made
    exact variableUse_eq_ok sound named used
  | .call name arguments position, typed, named, made => by
    simp only [expression, Except.bind_eq_ok] at made
    obtain ⟨typedArguments, madeArguments, made⟩ := made
    exact call_sound sound named.1.ne_assignment (expressions_sound sound named.2 madeArguments) made
  | .binary operator left right position, typed, named, made => by
    -- An assignment looks its target up by itself; every other operator is resolved like a call.
    by_cases assigns : operator = .assign
    · subst assigns
      cases left with
      | «variable» name place =>
        simp only [expression, Except.bind_eq_ok] at made
        obtain ⟨⟨id, type⟩, used, value, madeValue, assigned, called, made⟩ := made
        obtain rfl := Except.ok.inj made
        obtain ⟨number, rfl⟩ := variableUse_eq_ok sound named.1 used
        obtain ⟨result, numbers⟩ := assignment_type sound called
        simp only [List.forall_mem_cons] at numbers
        exact ⟨expression_sound sound named.2 madeValue, numbers.2.1, result, number⟩
      | _ => simp [expression] at made
    · rw [expression_operator assigns] at made
      simp only [Except.bind_eq_ok] at made
      obtain ⟨typedLeft, madeLeft, typedRight, madeRight, made⟩ := made
      refine call_sound sound (symbol_ne_assignment assigns) ?_ made
      exact ⟨expression_sound sound named.1 madeLeft, expression_sound sound named.2 madeRight,
        trivial⟩

theorem expressions_sound (sound : tree.IsSound) : ∀ {sources : List Expression}
    {typed : List TypedExpression}, Expression.AllName StartsAsName sources →
      expressions tree scope sources = .ok typed → TypedExpression.AreSound tree scope typed
  | [], typed, named, made => by
    obtain rfl := Except.ok.inj made
    exact trivial
  | first :: rest, typed, named, made => by
    simp only [expressions, Except.bind_eq_ok] at made
    obtain ⟨one, madeOne, others, madeOthers, made⟩ := made
    obtain rfl := Except.ok.inj made
    exact ⟨expression_sound sound named.1 madeOne, expressions_sound sound named.2 madeOthers⟩

end

theorem type_of_sound (sound : tree.IsSound) {typed : TypedExpression}
    (typedSound : typed.IsSound tree scope) : typed.type = .void ∨ typed.type = .int := by
  cases typed with
  | number value type => exact .inr typedSound
  | «variable» id type => exact .inr typedSound.2
  | assign id value type => exact .inr typedSound.2.2.1
  | call id arguments type =>
    obtain ⟨-, called, found, -, -, rfl, -⟩ := typedSound
    exact sound.result_type found

theorem condition_sound (sound : tree.IsSound) {source : Expression} {typed : TypedExpression}
    (named : source.Names StartsAsName) (made : condition tree scope source = .ok typed) :
    typed.IsSound tree scope ∧ typed.type = .int := by
  simp only [condition, Except.bind_eq_ok] at made
  obtain ⟨value, madeValue, _, checked, made⟩ := made
  obtain rfl := Except.ok.inj made
  have valueSound := expression_sound sound named madeValue
  have accepted := expectType_eq_ok checked
  refine ⟨valueSound, ?_⟩
  rcases type_of_sound sound valueSound with void | number
  · rw [void] at accepted
    cases accepted
  · exact number

/-! ## Growing states -/

/-- The functions that were completed from one state to another. Those that were still owed before, or
have been declared since, are completed or still owed afterwards. -/
structure Completes (owed : List FunctionId) (before : State) (added : List TypedFunction)
    (owing : List FunctionId) (after : State) : Prop where
  functions : after.functions = before.functions ++ added
  ids : (added.map (·.function) ++ owing).Perm (owed ++ List.range' before.tree.functions.length
    (after.tree.functions.length - before.tree.functions.length))

variable {first before after last : State} {owed owing left : List FunctionId}

namespace Completes

variable {added more : List TypedFunction}

/-- A change of the tree alone that leaves its functions as they are. -/
theorem of_tree {grown : ScopeTree} (same : grown.functions = before.tree.functions)
    (owed : List FunctionId) : Completes owed before [] owed { before with tree := grown } :=
  ⟨(List.append_nil _).symm, by simp [same]⟩

theorem trans (one : Completes owed first added owing before)
    (other : Completes owing before more left after)
    (low : first.tree.functions.length ≤ before.tree.functions.length)
    (high : before.tree.functions.length ≤ after.tree.functions.length) :
    Completes owed first (added ++ more) left after := by
  refine ⟨by rw [other.functions, one.functions, List.append_assoc], ?_⟩
  have range : List.range' first.tree.functions.length
      (after.tree.functions.length - first.tree.functions.length) =
      List.range' first.tree.functions.length
          (before.tree.functions.length - first.tree.functions.length) ++
        List.range' before.tree.functions.length
          (after.tree.functions.length - before.tree.functions.length) := by
    have split := @List.range'_append first.tree.functions.length
      (before.tree.functions.length - first.tree.functions.length)
      (after.tree.functions.length - before.tree.functions.length) 1
    rw [show first.tree.functions.length +
        1 * (before.tree.functions.length - first.tree.functions.length) =
          before.tree.functions.length by omega,
      show before.tree.functions.length - first.tree.functions.length +
        (after.tree.functions.length - before.tree.functions.length) =
          after.tree.functions.length - first.tree.functions.length by omega] at split
    exact split.symm
  rw [range, List.map_append, List.append_assoc, ← List.append_assoc owed]
  -- What is still owed in the middle is what the second part starts from.
  refine (other.ids.append_left _).trans ?_
  rw [← List.append_assoc]
  exact one.ids.append_right _

/-- It does not matter in which order functions are owed. -/
theorem of_perm (completes : Completes owed before added owing after) (same : owing.Perm left) :
    Completes owed before added left after :=
  ⟨completes.functions, (same.symm.append_left _).trans completes.ids⟩

/-- A function that is declared is owed. -/
theorem of_declared {grown : ScopeTree} {function : Function}
    (more : grown.functions = before.tree.functions ++ [function]) (owed : List FunctionId) :
    Completes owed before [] (before.tree.functions.length :: owed)
      { before with tree := grown } :=
  ⟨(List.append_nil _).symm, by simpa [more] using (List.perm_append_singleton _ owed).symm⟩

/-- A function that is completed is no longer owed. -/
theorem of_completed (before : State) (function : TypedFunction) (owed : List FunctionId) :
    Completes (function.function :: owed) before [function] owed
      { before with functions := before.functions ++ [function] } :=
  ⟨rfl, by simp⟩

end Completes

/-- What resolution has done from one state to another: the tree has grown and is sound, and functions
were completed. -/
structure Grows (owed : List FunctionId) (before : State) (owing : List FunctionId) (after : State) :
    Prop where
  extended : before.tree.Extends after.tree
  sound : after.tree.IsSound
  completed : ∃ added, Completes owed before added owing after ∧
    ∀ source ∈ added, source.IsSound after.tree

theorem Grows.of_tree {grown : ScopeTree} (extended : before.tree.Extends grown)
    (sound : grown.IsSound) (same : grown.functions = before.tree.functions)
    (owed : List FunctionId) : Grows owed before owed { before with tree := grown } :=
  ⟨extended, sound, [], .of_tree same owed, nofun⟩

theorem Grows.refl (sound : before.tree.IsSound) (owed : List FunctionId) :
    Grows owed before owed before :=
  .of_tree (.refl _) sound rfl owed

theorem Grows.trans (one : Grows owed first owing before) (other : Grows owing before left after) :
    Grows owed first left after := by
  obtain ⟨added, firstCompletes, firstSound⟩ := one.completed
  obtain ⟨more, completes, sound⟩ := other.completed
  refine ⟨one.extended.trans other.extended, other.sound, added ++ more,
    firstCompletes.trans completes one.extended.functions.length_le
      other.extended.functions.length_le, ?_⟩
  simp only [List.forall_mem_append]
  exact ⟨fun source member => (firstSound source member).extends other.extended, sound⟩

theorem Grows.of_perm (grows : Grows owed before owing after) (same : owing.Perm left) :
    Grows owed before left after := by
  obtain ⟨extended, sound, added, completes, sounds⟩ := grows
  exact ⟨extended, sound, added, completes.of_perm same, sounds⟩

/-! ## Declarations -/

theorem newScope_eq_ok {parent scope : ScopeId} :
    newScope parent before = .ok (scope, after) ↔ scope = before.tree.paths.length ∧
      after = { before with tree := (before.tree.newScope parent).1 } := by
  simp only [newScope, stateExcept_bind, stateExcept_get, stateExcept_set, stateExcept_pure]
  constructor
  · rintro ⟨_, _, ⟨rfl, rfl⟩, _, _, rfl, rfl, rfl⟩
    exact ⟨rfl, rfl⟩
  · rintro ⟨rfl, rfl⟩
    exact ⟨_, _, ⟨rfl, rfl⟩, ⟨⟩, _, rfl, rfl, rfl⟩

theorem newScope_grows (sound : before.tree.IsSound) {parent scope : ScopeId}
    (inside : parent < before.tree.paths.length)
    (opened : newScope parent before = .ok (scope, after)) (owed : List FunctionId) :
    Grows owed before owed after ∧
      after.tree.paths[scope]? = some (scope :: before.tree.path parent) := by
  obtain ⟨rfl, rfl⟩ := newScope_eq_ok.mp opened
  exact ⟨.of_tree (ScopeTree.newScope_extends parent) (sound.newScope inside) rfl owed,
    ScopeTree.newScope_path parent⟩

theorem declareVariable_eq_ok {scope : ScopeId} {name : String} {type : ValueType}
    {position : Position} {id : VariableId}
    (declared : declareVariable scope name type position before = .ok (id, after)) :
    before.tree.declareVariable scope name type = (after.tree, .ok id) ∧
      after = { before with tree := after.tree } := by
  simp only [declareVariable, stateExcept_bind, stateExcept_get] at declared
  obtain ⟨_, _, ⟨rfl, rfl⟩, declared⟩ := declared
  rcases found : before.tree.declareVariable scope name type with ⟨grown, error | made⟩
  · simp only [found] at declared
    exact absurd declared stateExcept_throw
  · simp only [found, stateExcept_bind, stateExcept_set, stateExcept_pure] at declared
    obtain ⟨_, _, rfl, rfl, rfl⟩ := declared
    exact ⟨rfl, rfl⟩

theorem declareVariable_grows (sound : before.tree.IsSound) {scope : ScopeId} {name : String}
    {position : Position} {id : VariableId} (inside : scope < before.tree.paths.length)
    (declared : declareVariable scope name .int position before = .ok (id, after))
    (owed : List FunctionId) : Grows owed before owed after ∧
      after.tree.declaredVariables[id]? = some ⟨name, .int, scope⟩ := by
  obtain ⟨inTree, only⟩ := declareVariable_eq_ok declared
  rw [only]
  obtain ⟨same, -⟩ := ScopeTree.declareVariable_eq_ok inTree
  exact ⟨.of_tree (ScopeTree.declareVariable_extends inTree)
    (sound.declareVariable inside inTree) (congrArg (·.functions) same) owed,
    ScopeTree.declareVariable_found inTree⟩

/-- The parameters of a function become numbers in its frame, each of them a new one. -/
theorem declareParameters_grows (sound : before.tree.IsSound) {frame : ScopeId}
    {parameters : List Parameter} {ids : List VariableId}
    (inside : frame < before.tree.paths.length)
    (declared : declareParameters frame parameters before = .ok (ids, after))
    (owed : List FunctionId) : Grows owed before owed after ∧
      ids = List.range' before.tree.declaredVariables.length parameters.length ∧
      (∀ parameter ∈ parameters, parameter.type = .int) ∧
      ∀ id ∈ ids, ∃ known, after.tree.declaredVariables[id]? = some known ∧ known.type = .int ∧
        known.scope = frame := by
  induction parameters generalizing ids before with
  | nil =>
    obtain ⟨rfl, rfl⟩ := stateExcept_pure.mp declared
    exact ⟨.refl sound owed, rfl, nofun, nofun⟩
  | cons parameter rest ih =>
    simp only [declareParameters, stateExcept_check, stateExcept_bind, stateExcept_pure,
      not_not] at declared
    obtain ⟨number, id, middle, first, others, _, more, rfl, rfl⟩ := declared
    rw [number] at first
    obtain ⟨same, -⟩ := ScopeTree.declareVariable_eq_ok (declareVariable_eq_ok first).1
    obtain ⟨firstGrows, known⟩ := declareVariable_grows sound inside first owed
    have within := Nat.lt_of_lt_of_le inside firstGrows.extended.paths.length_le
    obtain ⟨grows, rfl, numbers, all⟩ := ih firstGrows.sound within more
    refine ⟨firstGrows.trans grows, ?_, ?_, ?_⟩
    · obtain rfl := (ScopeTree.declareVariable_eq_ok (declareVariable_eq_ok first).1).2
      rw [same, List.length_append, List.length_singleton, List.length_cons, List.range'_succ]
    · exact List.forall_mem_cons.mpr ⟨number, numbers⟩
    · exact List.forall_mem_cons.mpr
        ⟨⟨_, List.IsPrefix.getElem?_eq_some grows.extended.declared known, rfl, rfl⟩, all⟩

/-- A function of the tree as it was declared in a scope. -/
def IsDeclared (tree : ScopeTree) (scope : ScopeId) (parameters : List Parameter)
    (type : ValueType) (id : FunctionId) : Prop :=
  Function.builtins.length ≤ id ∧ (type = .void ∨ type = .int) ∧ ∃ called,
    tree.functions[id]? = some called ∧ called.scope = scope ∧
      called.parameters = parameters.map (·.type) ∧ called.result = type

theorem IsDeclared.extends {before after : ScopeTree} (grows : before.Extends after)
    {parameters : List Parameter} {type : ValueType} {id : FunctionId}
    (declared : IsDeclared before scope parameters type id) :
    IsDeclared after scope parameters type id := by
  obtain ⟨user, returns, called, found, same⟩ := declared
  exact ⟨user, returns, called, List.IsPrefix.getElem?_eq_some grows.functions found, same⟩

theorem declareFunction_eq_ok {name : String} {parameters : List Parameter} {type : ValueType}
    {position : Position} {id : FunctionId}
    (declared : declareFunction scope name parameters type position before = .ok (id, after)) :
    (type = .void ∨ type = .int) ∧
      before.tree.declareFunction scope name (parameters.map (·.type)) type =
        (after.tree, .ok id) ∧
      after = { before with tree := after.tree } := by
  simp only [declareFunction, stateExcept_check, stateExcept_bind, stateExcept_get] at declared
  obtain ⟨supported, _, _, ⟨rfl, rfl⟩, declared⟩ := declared
  have returns : type = .void ∨ type = .int := by
    by_contra other
    rw [not_or] at other
    exact supported other
  rcases found : before.tree.declareFunction scope name (parameters.map (·.type)) type with
    ⟨grown, error | made⟩
  · simp only [found] at declared
    exact absurd declared stateExcept_throw
  · simp only [found, stateExcept_bind, stateExcept_set, stateExcept_pure] at declared
    obtain ⟨_, _, rfl, rfl, rfl⟩ := declared
    exact ⟨returns, found, rfl⟩

theorem declareFunction_grows (sound : before.tree.IsSound) {name : String}
    {parameters : List Parameter} {type : ValueType} {position : Position} {id : FunctionId}
    (named : StartsAsName name)
    (declared : declareFunction scope name parameters type position before = .ok (id, after))
    (owed : List FunctionId) :
    Grows owed before (id :: owed) after ∧ IsDeclared after.tree scope parameters type id := by
  obtain ⟨returns, found, only⟩ := declareFunction_eq_ok declared
  have extended := ScopeTree.declareFunction_extends found
  have grownSound := sound.declareFunction named.ne_assignment returns found
  obtain ⟨same, rfl⟩ := ScopeTree.declareFunction_eq_ok found
  obtain ⟨users, known, -⟩ := sound.functions
  rw [only]
  refine ⟨⟨extended, grownSound, [], .of_declared (congrArg (·.functions) same) owed, nofun⟩, ?_,
    returns, before.tree.declaration scope name (parameters.map (·.type)) type, ?_, rfl, rfl, rfl⟩
  · simp [known]
  · rw [same]
    exact List.getElem?_concat_length

/-- The functions declared for the statements of a block, in order. -/
def Promised (tree : ScopeTree) (scope : ScopeId) : List FunctionId → List Statement → Prop
  | declared, [] => declared = []
  | declared, .function _ parameters type _ _ :: rest => ∃ id others, declared = id :: others ∧
      IsDeclared tree scope parameters type id ∧ Promised tree scope others rest
  | declared, _ :: rest => Promised tree scope declared rest

theorem promised_cons {first : Statement} {rest : List Statement} {declared : List FunctionId}
    (other : ∀ name parameters type body position,
      first ≠ .function name parameters type body position) :
    Promised tree scope declared (first :: rest) ↔ Promised tree scope declared rest := by
  cases first <;> first | rfl | exact absurd rfl (other _ _ _ _ _)

theorem Promised.extends {before after : ScopeTree} (grows : before.Extends after)
    {declared : List FunctionId} {sources : List Statement}
    (promised : Promised before scope declared sources) :
    Promised after scope declared sources := by
  induction sources generalizing declared with
  | nil => exact promised
  | cons first rest ih =>
    by_cases function : ∃ name parameters type body position,
        first = .function name parameters type body position
    · obtain ⟨name, parameters, type, body, position, rfl⟩ := function
      obtain ⟨id, others, rfl, here, later⟩ := promised
      exact ⟨id, others, rfl, here.extends grows, ih later⟩
    · simp only [not_exists] at function
      rw [promised_cons function] at promised ⊢
      exact ih promised

theorem declareFunctions_cons {first : Statement} {rest : List Statement}
    (other : ∀ name parameters type body position,
      first ≠ .function name parameters type body position) :
    declareFunctions scope (first :: rest) = declareFunctions scope rest := by
  cases first <;> first | rfl | exact absurd rfl (other _ _ _ _ _)

theorem declareFunctions_grows (sound : before.tree.IsSound) {sources : List Statement}
    {declared : List FunctionId} (named : Statement.AllName StartsAsName sources)
    (made : declareFunctions scope sources before = .ok (declared, after))
    (owed : List FunctionId) :
    Grows owed before (declared ++ owed) after ∧ Promised after.tree scope declared sources := by
  induction sources generalizing declared before owed with
  | nil =>
    obtain ⟨rfl, rfl⟩ := stateExcept_pure.mp made
    exact ⟨.refl sound owed, rfl⟩
  | cons first rest ih =>
    by_cases function : ∃ name parameters type body position,
        first = .function name parameters type body position
    · obtain ⟨name, parameters, type, body, position, rfl⟩ := function
      simp only [declareFunctions, stateExcept_bind, stateExcept_pure] at made
      obtain ⟨id, middle, madeFirst, others, _, madeOthers, rfl, rfl⟩ := made
      obtain ⟨firstGrows, here⟩ := declareFunction_grows sound named.1.1 madeFirst owed
      obtain ⟨grows, later⟩ := ih firstGrows.sound named.2 madeOthers (id :: owed)
      exact ⟨(firstGrows.trans grows).of_perm List.perm_middle, id, others, rfl,
        here.extends grows.extended, later⟩
    · simp only [not_exists] at function
      rw [declareFunctions_cons function] at made
      rw [promised_cons function]
      exact ih sound named.2 made owed

/-! ## Statements -/

/-- A place in the tree, within a function that returns nothing or a number if it is in one. -/
structure Place.IsWithin (place : Place) (tree : ScopeTree) : Prop where
  scope : place.scope < tree.paths.length
  result : ∀ type ∈ place.result, type = .void ∨ type = .int

theorem Place.IsWithin.extends {place : Place} {before after : ScopeTree}
    (grows : before.Extends after) (within : place.IsWithin before) : place.IsWithin after :=
  ⟨Nat.lt_of_lt_of_le within.scope grows.paths.length_le, within.result⟩

theorem inTree_eq_ok {α : Type} {action : ScopeTree → Except ResolveError α} {value : α} :
    inTree action before = .ok (value, after) ↔
      action before.tree = .ok value ∧ before = after := by
  simp only [inTree, stateExcept_bind, stateExcept_get, stateExcept_lift]
  constructor
  · rintro ⟨_, _, ⟨rfl, rfl⟩, done, rfl⟩
    exact ⟨done, rfl⟩
  · rintro ⟨done, rfl⟩
    exact ⟨_, _, ⟨rfl, rfl⟩, done, rfl⟩

/-- What a `return` comes to: nothing in a function that returns nothing, else a number. -/
theorem result_eq_ok {place : Place} (within : place.IsWithin before.tree)
    {value : Option Expression} {position : Position} {typed : TypedStatement}
    (made : result place value position before = .ok (typed, after)) : before = after ∧
      ((place.result = some .void ∧ value = none ∧ typed = .result none) ∨
        ∃ source inner, place.result = some .int ∧ value = some source ∧
          typed = .result (some inner) ∧
          expression before.tree place.scope source = .ok inner ∧ inner.type = .int) := by
  cases returns : place.result with
  | none =>
    simp only [result, returns] at made
    exact absurd made stateExcept_throw
  | some type =>
    rcases within.result type returns with rfl | rfl
    · cases value with
      | none =>
        simp only [result, returns] at made
        obtain ⟨rfl, rfl⟩ := stateExcept_pure.mp made
        exact ⟨rfl, .inl ⟨rfl, rfl, rfl⟩⟩
      | some value =>
        simp only [result, returns] at made
        exact absurd made stateExcept_throw
    · cases value with
      | none =>
        simp only [result, returns] at made
        exact absurd made stateExcept_throw
      | some value =>
        simp only [result, returns, stateExcept_bind, inTree_eq_ok, stateExcept_lift,
          stateExcept_pure] at made
        obtain ⟨inner, _, ⟨madeInner, rfl⟩, _, _, ⟨checked, rfl⟩, rfl, rfl⟩ := made
        exact ⟨rfl, .inr ⟨value, inner, rfl, rfl, rfl, madeInner,
          ValueType.acceptsAs_int (expectType_eq_ok checked)⟩⟩

theorem result_sound {place : Place} (sound : before.tree.IsSound)
    (within : place.IsWithin before.tree) {value : Option Expression} {position : Position}
    {typed : TypedStatement} (named : (Statement.result value position).Names StartsAsName)
    (made : result place value position before = .ok (typed, after)) :
    before = after ∧ typed.IsSound after.tree place.scope place.result := by
  obtain ⟨rfl, ⟨returns, rfl, rfl⟩ | ⟨source, inner, returns, rfl, rfl, madeInner, number⟩⟩ :=
    result_eq_ok within made
  · exact ⟨rfl, returns⟩
  · exact ⟨rfl, returns, expression_sound sound named madeInner, number⟩

/-- A function is completed: its parameters are declared in a frame of its own, its body is resolved
there, and then it is no longer owed. -/
theorem function_grows {first second third : State} (sound : before.tree.IsSound)
    (inside : scope < before.tree.paths.length) {parameters : List Parameter} {type : ValueType}
    {id : FunctionId} (declared : IsDeclared before.tree scope parameters type id)
    {frame : ScopeId} (opened : newScope scope before = .ok (frame, first))
    {ids : List VariableId} (given : declareParameters frame parameters first = .ok (ids, second))
    {body : TypedStatement} (bodyGrows : second.tree.IsSound →
      Place.IsWithin ⟨frame, some type⟩ second.tree → (∀ owed, Grows owed second owed third) ∧
        body.IsSound third.tree frame (some type)) (owed : List FunctionId) :
    Grows (id :: owed) before owed
      { third with functions := third.functions ++ [⟨id, ids, type, body⟩] } := by
  obtain ⟨frameGrows, here⟩ := newScope_grows sound inside opened (id :: owed)
  have within := (List.getElem?_eq_some_iff.mp here).1
  obtain ⟨parametersGrow, new, numbers, all⟩ :=
    declareParameters_grows frameGrows.sound within given (id :: owed)
  obtain ⟨user, returns, called, found, rfl, types, rfl⟩ := declared
  obtain ⟨bodyGrow, bodySound⟩ := bodyGrows parametersGrow.sound
    ⟨Nat.lt_of_lt_of_le within parametersGrow.extended.paths.length_le, by
      intro type member
      obtain rfl := Option.some.inj member
      exact returns⟩
  have grows := (frameGrows.trans parametersGrow).trans (bodyGrow (id :: owed))
  -- What was declared before the body is found in the tree behind it, which extends all others.
  have later := parametersGrow.extended.trans (bodyGrow owed).extended
  have foundLast := List.IsPrefix.getElem?_eq_some grows.extended.functions found
  have completes := Completes.of_completed third ⟨id, ids, called.result, body⟩ owed
  refine grows.trans ⟨.refl _, grows.sound, _, completes, ?_⟩
  rw [List.forall_mem_singleton]
  refine ⟨⟨called, foundLast, rfl, ?_⟩, user, returns, new ▸ List.nodup_range' .., called,
    before.tree.path called.scope, frame, foundLast, ?_, ?_, ?_, bodySound⟩
  · rw [types]
    have lengths : parameters.length = ids.length := by rw [new, List.length_range']
    refine List.ext_getElem (by simpa using lengths) fun index low high => ?_
    rw [List.getElem_map, List.getElem_map, numbers _ (List.getElem_mem _)]
  · refine List.IsPrefix.getElem?_eq_some grows.extended.paths ?_
    simp [ScopeTree.path, List.getElem?_eq_getElem inside]
  · exact List.IsPrefix.getElem?_eq_some later.paths here
  · intro other member
    obtain ⟨known, foundHere, same⟩ := all other member
    exact ⟨known, List.IsPrefix.getElem?_eq_some (bodyGrow owed).extended.declared foundHere, same⟩

mutual

theorem statement_sound : ∀ {source : Statement} {place : Place} {before after : State}
    {typed : TypedStatement}, before.tree.IsSound → place.IsWithin before.tree →
      source.Names StartsAsName → statement place source before = .ok (typed, after) →
      (∀ owed, Grows owed before owed after) ∧ typed.IsSound after.tree place.scope place.result
  | .block statements, place, before, after, typed, sound, within, named, made => by
    simp only [statement, stateExcept_bind, stateExcept_pure] at made
    obtain ⟨inner, opened, madeOpened, declared, promising, madeDeclared, sources, last, madeInner,
      rfl, rfl⟩ := made
    obtain ⟨openedGrows, here⟩ := newScope_grows sound within.scope madeOpened []
    obtain ⟨declaredGrows, promised⟩ := declareFunctions_grows openedGrows.sound named madeDeclared []
    have inside := (List.getElem?_eq_some_iff.mp here).1
    have innerWithin : Place.IsWithin ⟨inner, place.result⟩ promising.tree :=
      ⟨Nat.lt_of_lt_of_le inside declaredGrows.extended.paths.length_le, within.result⟩
    obtain ⟨grows, innerSound⟩ :=
      blockStatements_sound declaredGrows.sound innerWithin named promised madeInner
    refine ⟨fun owed => ?_, ?_⟩
    · exact ((newScope_grows sound within.scope madeOpened owed).1.trans
        (declareFunctions_grows openedGrows.sound named madeDeclared owed).1).trans (grows owed)
    -- The scope around the block is on the path of the inner one, so what is sound inside is sound here.
    · have later := declaredGrows.extended.trans (grows []).extended
      have path : last.tree.path inner = inner :: before.tree.path place.scope := by
        simp [ScopeTree.path, List.IsPrefix.getElem?_eq_some later.paths here]
      have around : place.scope ∈ last.tree.path inner := by
        rw [path]
        exact List.mem_cons_of_mem _ (sound.rooted.mem_path within.scope)
      exact ((grows []).sound.carries around).statements innerSound
  | .declare name value position, place, before, after, typed, sound, within, named, made => by
    simp only [statement, stateExcept_bind, inTree_eq_ok, stateExcept_lift,
      stateExcept_pure] at made
    obtain ⟨inner, _, ⟨madeInner, rfl⟩, _, _, ⟨checked, rfl⟩, id, _, declared, rfl, rfl⟩ := made
    have number := ValueType.acceptsAs_int (expectType_eq_ok checked)
    rw [number] at declared
    have known := (declareVariable_grows sound within.scope declared []).2
    have grows := fun owed => (declareVariable_grows sound within.scope declared owed).1
    have inner := ((grows []).extended.carries _).expression (expression_sound sound named.2 madeInner)
    refine ⟨grows, inner, number, _, known, rfl, ?_⟩
    exact (grows []).sound.near_of_mem ((grows []).sound.rooted.mem_path
      (within.extends (grows []).extended).scope)
  | .evaluate value, place, before, after, typed, sound, within, named, made => by
    simp only [statement, stateExcept_bind, inTree_eq_ok, stateExcept_pure] at made
    obtain ⟨inner, _, ⟨madeInner, rfl⟩, rfl, rfl⟩ := made
    exact ⟨.refl sound, expression_sound sound named madeInner⟩
  | .ifThen test consequence, place, before, after, typed, sound, within, named, made => by
    simp only [statement, stateExcept_bind, inTree_eq_ok, stateExcept_pure] at made
    obtain ⟨condition, _, ⟨madeTest, rfl⟩, inner, _, madeInner, rfl, rfl⟩ := made
    obtain ⟨testSound, number⟩ := condition_sound sound named.1 madeTest
    obtain ⟨grows, innerSound⟩ := statement_sound sound within named.2 madeInner
    exact ⟨grows, ((grows []).extended.carries _).expression testSound, number, innerSound⟩
  | .ifThenElse test consequence alternative, place, before, after, typed, sound, within, named,
      made => by
    simp only [statement, stateExcept_bind, inTree_eq_ok, stateExcept_pure] at made
    obtain ⟨condition, _, ⟨madeTest, rfl⟩, first, middle, madeFirst, second, _, madeSecond, rfl,
      rfl⟩ := made
    obtain ⟨testSound, number⟩ := condition_sound sound named.1 madeTest
    obtain ⟨firstGrows, firstSound⟩ := statement_sound sound within named.2.1 madeFirst
    obtain ⟨secondGrows, secondSound⟩ := statement_sound (firstGrows []).sound
      (within.extends (firstGrows []).extended) named.2.2 madeSecond
    have later := (secondGrows []).extended
    exact ⟨fun owed => (firstGrows owed).trans (secondGrows owed),
      (later.carries _).expression (((firstGrows []).extended.carries _).expression testSound),
      number, (later.carries _).statement firstSound, secondSound⟩
  | .whileDo test body, place, before, after, typed, sound, within, named, made => by
    simp only [statement, stateExcept_bind, inTree_eq_ok, stateExcept_pure] at made
    obtain ⟨condition, _, ⟨madeTest, rfl⟩, inner, _, madeInner, rfl, rfl⟩ := made
    obtain ⟨testSound, number⟩ := condition_sound sound named.1 madeTest
    obtain ⟨grows, innerSound⟩ := statement_sound sound within named.2 madeInner
    exact ⟨grows, ((grows []).extended.carries _).expression testSound, number, innerSound⟩
  | .doWhile body test, place, before, after, typed, sound, within, named, made => by
    simp only [statement, stateExcept_bind, inTree_eq_ok, stateExcept_pure] at made
    obtain ⟨inner, middle, madeInner, condition, _, ⟨madeTest, rfl⟩, rfl, rfl⟩ := made
    obtain ⟨grows, innerSound⟩ := statement_sound sound within named.1 madeInner
    obtain ⟨testSound, number⟩ := condition_sound (grows []).sound named.2 madeTest
    exact ⟨grows, testSound, number, innerSound⟩
  | .result value position, place, before, after, typed, sound, within, named, made => by
    rw [statement] at made
    obtain ⟨rfl, typedSound⟩ := result_sound sound within named made
    exact ⟨.refl sound, typedSound⟩
  | .function name parameters type body position, place, before, after, typed, sound, within, named,
      made => by
    simp only [statement, stateExcept_bind, stateExcept_modify, stateExcept_pure] at made
    obtain ⟨id, declared, madeDeclared, frame, opened, madeOpened, ids, given, madeGiven, inner,
      third, madeInner, _, _, rfl, rfl, rfl⟩ := made
    refine ⟨fun owed => ?_, trivial⟩
    obtain ⟨declaredGrows, isDeclared⟩ := declareFunction_grows sound named.1 madeDeclared owed
    have inside := Nat.lt_of_lt_of_le within.scope declaredGrows.extended.paths.length_le
    exact declaredGrows.trans (function_grows declaredGrows.sound inside isDeclared madeOpened
      madeGiven (fun sound within => statement_sound sound within named.2 madeInner) owed)

theorem blockStatements_sound : ∀ {sources : List Statement} {place : Place}
    {before after : State} {declared : List FunctionId} {typed : List TypedStatement},
      before.tree.IsSound → place.IsWithin before.tree →
      Statement.AllName StartsAsName sources → Promised before.tree place.scope declared sources →
      blockStatements place declared sources before = .ok (typed, after) →
      (∀ owed, Grows (declared ++ owed) before owed after) ∧
        TypedStatement.AreSound after.tree place.scope place.result typed
  | [], place, before, after, declared, typed, sound, within, named, promised, made => by
    obtain rfl := promised
    obtain ⟨rfl, rfl⟩ := stateExcept_pure.mp made
    exact ⟨.refl sound, trivial⟩
  | first :: rest, place, before, after, declared, typed, sound, within, named, promised,
      made => by
    cases first with
    | function name parameters type body position =>
      obtain ⟨id, others, rfl, isDeclared, later⟩ := promised
      simp only [blockStatements, stateExcept_bind, stateExcept_modify] at made
      obtain ⟨frame, opened, madeOpened, ids, given, madeGiven, inner, third, madeInner, _, _, rfl,
        made⟩ := made
      have firstGrows := function_grows sound within.scope isDeclared madeOpened madeGiven
        fun sound within => statement_sound sound within named.1.2 madeInner
      obtain ⟨grows, typedSound⟩ := blockStatements_sound (firstGrows []).sound
        (within.extends (firstGrows []).extended) named.2 (later.extends (firstGrows []).extended)
        made
      exact ⟨fun owed => (firstGrows (others ++ owed)).trans (grows owed), typedSound⟩
    | _ =>
      simp only [blockStatements, stateExcept_bind, stateExcept_pure] at made
      obtain ⟨one, middle, madeFirst, more, _, madeOthers, rfl, rfl⟩ := made
      obtain ⟨firstGrows, firstSound⟩ := statement_sound sound within named.1 madeFirst
      obtain ⟨grows, typedSound⟩ := blockStatements_sound (firstGrows []).sound
        (within.extends (firstGrows []).extended) named.2
        (Promised.extends (firstGrows []).extended promised) madeOthers
      exact ⟨fun owed => (firstGrows (declared ++ owed)).trans (grows owed),
        ((grows []).extended.carries _).statement firstSound, typedSound⟩

end

end Resolve

/-- What resolution accepts is sound. -/
theorem resolve_sound {source : List Statement} {program : TypedProgram} {tree : ScopeTree}
    (named : Statement.AllName StartsAsName source)
    (resolved : resolve source = .ok (program, tree)) : program.IsSound tree := by
  simp only [resolve, StateT.run, Except.bind_eq_ok, Prod.exists, stateExcept_bind] at resolved
  obtain ⟨main, last, ⟨declared, promising, madeDeclared, made⟩, resolved⟩ := resolved
  obtain ⟨rfl, rfl⟩ := Prod.mk.inj (Except.ok.inj resolved)
  have inside : ScopeTree.root < ScopeTree.initial.paths.length := by decide
  have sound := ScopeTree.initial_sound.newScope inside
  obtain ⟨declaredGrows, promised⟩ := Resolve.declareFunctions_grows sound named madeDeclared []
  have scope := @ScopeTree.newScope_path ScopeTree.initial ScopeTree.root
  have within : Resolve.Place.IsWithin ⟨1, none⟩ promising.tree :=
    ⟨Nat.lt_of_lt_of_le (List.getElem?_eq_some_iff.mp scope).1
      declaredGrows.extended.paths.length_le, nofun⟩
  obtain ⟨grows, mainSound⟩ :=
    Resolve.blockStatements_sound declaredGrows.sound within named promised made
  have whole := declaredGrows.trans (grows [])
  obtain ⟨added, ⟨functions, ids⟩, sounds⟩ := whole.completed
  obtain rfl : last.functions = added := functions
  rw [List.append_nil, List.nil_append] at ids
  refine ⟨whole.sound, List.IsPrefix.getElem?_eq_some whole.extended.paths scope, mainSound, sounds,
    ?_, ids.nodup_iff.mpr (List.nodup_range' ..)⟩
  intro id low high
  refine ids.mem_iff.mpr (List.mem_range'_1.mpr ⟨low, ?_⟩)
  change id < Function.builtins.length + (last.tree.functions.length - Function.builtins.length)
  rw [Nat.add_sub_cancel' (Nat.le_of_lt (Nat.lt_of_le_of_lt low high))]
  exact high

namespace Build

/-- A source text can be read and resolved, into this program and this scope tree. -/
def Resolves (source : String) (program : TypedProgram) (tree : ScopeTree) : Prop :=
  ∃ statements, Build.tree source = .ok statements ∧ resolve statements = .ok (program, tree)

theorem Resolves.sound {source : String} {program : TypedProgram} {tree : ScopeTree}
    (resolves : Resolves source program tree) : program.IsSound tree := by
  obtain ⟨statements, read, resolved⟩ := resolves
  exact resolve_sound (tree_names read) resolved

theorem Resolves.unique {source : String} {first second : TypedProgram} {scopes others : ScopeTree}
    (one : Resolves source first scopes) (other : Resolves source second others) :
    first = second ∧ scopes = others := by
  obtain ⟨statements, read, resolved⟩ := one
  obtain ⟨same, readAgain, resolvedAgain⟩ := other
  obtain rfl := Except.ok.inj (read.symm.trans readAgain)
  exact Prod.mk.inj (Except.ok.inj (resolved.symm.trans resolvedAgain))

/-- What holds of the program of a source text can be found out by resolving the text. -/
instance {source : String} {holds : TypedProgram → ScopeTree → Prop}
    [∀ typed scopes, Decidable (holds typed scopes)] :
    Decidable (∃ typed scopes, Resolves source typed scopes ∧ holds typed scopes) :=
  decidable_of_iff (∃ statements, tree source = .ok statements ∧
      ∃ pair, resolve statements = .ok pair ∧ holds pair.1 pair.2) <| by
    constructor
    · rintro ⟨statements, read, ⟨typed, scopes⟩, resolved, has⟩
      exact ⟨typed, scopes, ⟨statements, read, resolved⟩, has⟩
    · rintro ⟨typed, scopes, ⟨statements, read, resolved⟩, has⟩
      exact ⟨statements, read, ⟨typed, scopes⟩, resolved, has⟩

end Build

end TapeCode
