import Mathlib.Data.List.Forall2
import TapeCode.Proofs.Resolution.Elaboration
import TapeCode.Proofs.Scope.Operations

/-!
# Resolution elaborates programs

Resolution follows the rules for what resolved programs mean. A statement declares variables in its own
scope, under names that nothing visible from there has, and in scopes that it opens; these do not lie
around any older scope. So the names visible from the scope of a statement stay different.
-/
namespace TapeCode

namespace ScopeTree

variable {tree before after : ScopeTree} {scope : ScopeId}

/-! ## Distinct names -/

theorem IsTree.seesDistinct_iff (whole : tree.IsTree) (inside : scope < tree.paths.length) :
    tree.SeesDistinct scope ↔ ∀ (first second : VariableId) (one other : Variable),
      tree.declaredVariables[first]? = some one → tree.declaredVariables[second]? = some other →
      one.scope ∈ tree.path scope → other.scope ∈ tree.path scope → one.name = other.name →
      first = second := by
  rw [SeesDistinct, List.nodup_map_iff_inj_on (whole.visibleVariables_nodup inside)]
  simp only [mem_visibleVariables]
  constructor
  · intro apart first second one other found foundOther among amongOther same
    exact apart first ⟨one, found, among⟩ second ⟨other, foundOther, amongOther⟩
      (by simp [variableName?, found, foundOther, same])
  · rintro apart first ⟨one, found, among⟩ second ⟨other, foundOther, amongOther⟩ same
    exact apart first second one other found foundOther among amongOther
      (by simpa [variableName?, found, foundOther] using same)

/-- Variables in new scopes are not seen from old ones. -/
theorem Extends.seesDistinct (grows : before.Extends after) (wholeBefore : before.IsTree)
    (whole : after.IsTree) (inside : scope < before.paths.length) {more : List Variable}
    (known : after.declaredVariables = before.declaredVariables ++ more)
    (late : ∀ declared ∈ more, before.paths.length ≤ declared.scope)
    (distinct : before.SeesDistinct scope) : after.SeesDistinct scope := by
  have old {id : VariableId} {one : Variable} (found : after.declaredVariables[id]? = some one)
      (among : one.scope ∈ before.path scope) : before.declaredVariables[id]? = some one := by
    rw [known] at found
    rcases Nat.lt_or_ge id before.declaredVariables.length with low | high
    · rwa [List.getElem?_append_left low] at found
    · rw [List.getElem?_append_right high] at found
      have new := late one (List.mem_of_getElem? found)
      exact absurd (wholeBefore.inside_of_mem among) (Nat.not_lt_of_le new)
  rw [wholeBefore.seesDistinct_iff inside] at distinct
  rw [whole.seesDistinct_iff (Nat.lt_of_lt_of_le inside grows.paths.length_le), grows.path_eq inside]
  intro first second one other found foundOther among amongOther
  exact distinct first second one other (old found among) (old foundOther amongOther) among
    amongOther

theorem IsTree.seesDistinct_newScope (whole : tree.IsTree) {parent : ScopeId}
    (inside : parent < tree.paths.length) (distinct : tree.SeesDistinct parent) :
    (tree.newScope parent).1.SeesDistinct tree.paths.length := by
  have opened := whole.newScope inside
  have within : tree.paths.length < (tree.newScope parent).1.paths.length := by
    simp [ScopeTree.newScope]
  rw [whole.seesDistinct_iff inside] at distinct
  rw [opened.seesDistinct_iff within, path_newScope]
  -- Nothing is declared in the new scope yet, so all that it sees its parent sees too.
  have old {id : VariableId} {one : Variable} (found : tree.declaredVariables[id]? = some one)
      (among : one.scope ∈ tree.paths.length :: tree.path parent) :
      one.scope ∈ tree.path parent := by
    rcases List.mem_cons.mp among with here | around
    · have inside := whole.housed one (List.mem_of_getElem? found)
      exact absurd here (Nat.ne_of_lt inside)
    · exact around
  intro first second one other found foundOther among amongOther
  exact distinct first second one other found foundOther (old found among)
    (old foundOther amongOther)

theorem findVariable?_eq_none {name : String} (missing : tree.findVariable? scope name = none)
    {id : VariableId} {declared : Variable} (found : tree.declaredVariables[id]? = some declared)
    (among : declared.scope ∈ tree.path scope) : declared.name ≠ name := by
  rintro rfl
  have here := List.find?_eq_none.mp (List.findSome?_eq_none_iff.mp missing declared.scope among) id
    (mem_variablesIn.mpr (by simp [found]))
  simp [variableName?, found] at here

theorem IsTree.seesDistinct_declareVariable (whole : tree.IsTree)
    (inside : scope < tree.paths.length) {name : String} {type : ValueType} {id : VariableId}
    (declared : tree.declareVariable scope name type = (after, .ok id))
    (distinct : tree.SeesDistinct scope) : after.SeesDistinct scope := by
  have wholeAfter := whole.declareVariable inside declared
  have missing : tree.findVariable? scope name = none := by
    unfold ScopeTree.declareVariable at declared
    split at declared
    next => cases declared
    next missing => exact Option.not_isSome_iff_eq_none.mp missing
  obtain ⟨rfl, rfl⟩ := declareVariable_eq_ok declared
  rw [whole.seesDistinct_iff inside] at distinct
  rw [wholeAfter.seesDistinct_iff inside]
  -- The new variable is the last one, and nothing visible before has its name.
  have old_or_new {id : VariableId} {one : Variable}
      (found : (tree.declaredVariables ++ [⟨name, type, scope⟩])[id]? = some one) :
      tree.declaredVariables[id]? = some one ∨
        id = tree.declaredVariables.length ∧ one.name = name := by
    rcases List.getElem?_concat_eq_some.mp found with old | ⟨rfl, rfl⟩
    · exact .inl old
    · exact .inr ⟨rfl, rfl⟩
  intro first second one other found foundOther among amongOther same
  rcases old_or_new found with old | ⟨rfl, named⟩ <;>
    rcases old_or_new foundOther with oldOther | ⟨rfl, namedOther⟩
  · exact distinct first second one other old oldOther among amongOther same
  · exact absurd (same.trans namedOther) (findVariable?_eq_none missing old among)
  · exact absurd (same.symm.trans named) (findVariable?_eq_none missing oldOther amongOther)
  · rfl

/-- Functions have names of their own. -/
theorem addFunctions_seesDistinct {around : ScopeId} {signatures : List Signature} :
    (tree.addFunctions around signatures).SeesDistinct scope ↔ tree.SeesDistinct scope := by
  induction signatures generalizing tree with
  | nil => rfl
  | cons first rest ih => exact ih.trans Iff.rfl

/-! ## Frames -/

theorem Extends.variablesIn_prefix (grows : before.Extends after) :
    before.variablesIn scope <+: after.variablesIn scope := by
  obtain ⟨more, known⟩ := grows.declared
  rw [variablesIn, variablesIn, ← known, List.zipIdx_append, List.filter_append, List.map_append]
  exact List.prefix_append _ _

/-- Variables added to a new scope are those which it declares. -/
theorem IsTree.variablesIn_new (whole : tree.IsTree) {parent : ScopeId}
    (named : List (String × ValueType)) :
    (((tree.newScope parent).1.addVariables tree.paths.length named).variablesIn
      tree.paths.length) = List.range' tree.declaredVariables.length named.length := by
  let added : List Variable := named.map fun one => ⟨one.1, one.2, tree.paths.length⟩
  have none_before : tree.declaredVariables.zipIdx.filter (·.1.scope = tree.paths.length) = [] := by
    refine List.filter_eq_nil_iff.mpr fun pair member => ?_
    have housed := whole.housed pair.1 (List.fst_mem_of_mem_zipIdx member)
    simpa using Nat.ne_of_lt housed
  have all_new : (added.zipIdx tree.declaredVariables.length).filter
      (·.1.scope = tree.paths.length) = added.zipIdx tree.declaredVariables.length := by
    refine List.filter_eq_self.mpr fun pair member => ?_
    obtain ⟨one, -, same⟩ := List.mem_map.mp (List.fst_mem_of_mem_zipIdx member)
    simp [← same]
  change ((tree.declaredVariables ++ added).zipIdx.filter _).map _ = _
  rw [List.zipIdx_append, List.filter_append, none_before, List.nil_append, Nat.zero_add, all_new,
    List.zipIdx_map_snd, List.length_map]

end ScopeTree

theorem ScopeTree.Declares.extends {before after : ScopeTree} (grows : before.Extends after)
    {scope : ScopeId} {id : FunctionId} {signature : Signature}
    (declares : before.Declares scope id signature) : after.Declares scope id signature := by
  obtain ⟨⟨label, found⟩, supported⟩ := declares
  exact ⟨⟨label, List.IsPrefix.getElem?_eq_some grows.functions found⟩, supported⟩

/-- A function that is as it was declared stays so. -/
theorem TypedFunction.Corresponds.extends {before after : ScopeTree} (grows : before.Extends after)
    {function : TypedFunction} (corresponds : function.Corresponds before) :
    function.Corresponds after := by
  obtain ⟨called, frame, around, found, result, outside, inside, starts, types⟩ := corresponds
  refine ⟨called, frame, around, List.IsPrefix.getElem?_eq_some grows.functions found, result,
    List.IsPrefix.getElem?_eq_some grows.paths outside,
    List.IsPrefix.getElem?_eq_some grows.paths inside,
    starts.trans grows.variablesIn_prefix, types.imp ?_⟩
  rintro id type ⟨declared, known, same⟩
  exact ⟨declared, List.IsPrefix.getElem?_eq_some grows.declared known, same⟩

/-- A function corresponds to its declaration as soon as its parameters are in a new frame. -/
theorem TypedFunction.corresponds_framed {tree : ScopeTree} {scope : ScopeId} (whole : tree.IsTree)
    (inside : scope < tree.paths.length) {id : FunctionId} {name : String}
    {parameters : List Parameter} {type : ValueType}
    (declared : tree.Declares scope id ⟨name, parameters.map (·.type), type⟩)
    (body : TypedStatement) : TypedFunction.Corresponds
      ((tree.newScope scope).1.addVariables tree.paths.length
        (parameters.map fun parameter => (parameter.name, parameter.type)))
      ⟨id, List.range' tree.declaredVariables.length parameters.length, type, body⟩ := by
  obtain ⟨label, found⟩ := declared.found
  refine ⟨_, tree.paths.length, tree.path scope, found, rfl, ?_, ScopeTree.newScope_path scope, ?_, ?_⟩
  · refine List.IsPrefix.getElem?_eq_some (ScopeTree.newScope_extends scope).paths ?_
    simp [ScopeTree.path, List.getElem?_eq_getElem inside]
  · simp only [whole.variablesIn_new, List.length_map, List.prefix_rfl]
  · refine List.forall₂_iff_get.mpr ⟨by simp, fun index low high => ?_⟩
    rw [List.length_range'] at low
    refine ⟨⟨parameters[index].name, parameters[index].type, tree.paths.length⟩, ?_, by simp⟩
    simp [ScopeTree.addVariables, ScopeTree.newScope, low]

namespace Resolve

variable {tree : ScopeTree} {scope : ScopeId}

/-! ## Expressions -/

theorem variableUse_sees {name : String} {position : Position} {id : VariableId} {type : ValueType}
    (used : variableUse tree scope name position = .ok (id, type)) :
    tree.Sees scope name id type := by
  unfold variableUse at used
  split at used
  next => cases used
  next other found =>
    obtain ⟨rfl, rfl⟩ := Prod.mk.inj (Except.ok.inj used)
    obtain ⟨declared, known, named, member⟩ := ScopeTree.findVariable?_eq_some found
    exact ⟨declared, known, named, by simp [known], member⟩

theorem call_offers {name : String} {arguments : List TypedExpression} {position : Position}
    {typed : TypedExpression} (made : call tree scope name arguments position = .ok typed) :
    ∃ id result, typed = .call id arguments result ∧
      tree.Offers scope name (arguments.map (·.type)) id result := by
  obtain ⟨id, called, rfl, found, named, accepts, member⟩ := call_eq_ok made
  exact ⟨id, called.result, rfl, called, found, named, accepts, rfl, member⟩

mutual

theorem expression_denotes : ∀ {source : Expression} {typed : TypedExpression},
    expression tree scope source = .ok typed → Denotes tree scope source typed
  | .number value position, typed, made => by
    obtain rfl := Except.ok.inj made
    exact .number
  | .variable name position, typed, made => by
    simp only [expression, Except.bind_eq_ok] at made
    obtain ⟨⟨id, type⟩, used, made⟩ := made
    obtain rfl := Except.ok.inj made
    exact .variable (variableUse_sees used)
  | .call name sources position, typed, made => by
    simp only [expression, Except.bind_eq_ok] at made
    obtain ⟨arguments, madeArguments, made⟩ := made
    obtain ⟨id, result, rfl, offered⟩ := call_offers made
    exact .call (expressions_denote madeArguments) offered
  | .binary operator left right position, typed, made => by
    by_cases assigns : operator = .assign
    · subst assigns
      cases left with
      | «variable» name place =>
        simp only [expression, Except.bind_eq_ok] at made
        obtain ⟨⟨target, type⟩, used, value, madeValue, assigned, called, made⟩ := made
        obtain rfl := Except.ok.inj made
        obtain ⟨id, result, rfl, offered⟩ := call_offers called
        exact .assignment (variableUse_sees used) (expression_denotes madeValue) offered
      | _ => simp [expression] at made
    · rw [expression_operator assigns] at made
      simp only [Except.bind_eq_ok] at made
      obtain ⟨first, madeLeft, second, madeRight, made⟩ := made
      obtain ⟨id, result, rfl, offered⟩ := call_offers made
      exact .operation assigns (expression_denotes madeLeft) (expression_denotes madeRight) offered

theorem expressions_denote : ∀ {sources : List Expression} {typed : List TypedExpression},
    expressions tree scope sources = .ok typed → DenoteAll tree scope sources typed
  | [], typed, made => by
    obtain rfl := Except.ok.inj made
    exact .nil
  | first :: rest, typed, made => by
    simp only [expressions, Except.bind_eq_ok] at made
    obtain ⟨one, madeOne, others, madeOthers, made⟩ := made
    obtain rfl := Except.ok.inj made
    exact .cons (expression_denotes madeOne) (expressions_denote madeOthers)

end

theorem condition_denotes {source : Expression} {typed : TypedExpression}
    (made : condition tree scope source = .ok typed) : IsCondition tree scope source typed := by
  simp only [condition, Except.bind_eq_ok] at made
  obtain ⟨value, madeValue, _, checked, made⟩ := made
  obtain rfl := Except.ok.inj made
  exact ⟨expression_denotes madeValue, expectType_eq_ok checked⟩

theorem Elaborates.stillDistinct {place : Place} {before after : State} {source : Statement}
    {typed : TypedStatement} (elaborates : Elaborates place before source typed after) :
    after.tree.SeesDistinct place.scope := by
  cases elaborates with
  | intro distinct rule stillDistinct => exact stillDistinct

/-! ## Declarations -/

/-- What resolution has done at a scope from one state to another. New variables are in the scope itself
or in new scopes, and the functions that were completed are as they were declared. -/
structure Proceeds (scope : ScopeId) (owed : List FunctionId) (before : State)
    (owing : List FunctionId) (after : State) : Prop where
  extended : before.tree.Extends after.tree
  whole : after.tree.IsTree
  declared : ∃ more, after.tree.declaredVariables = before.tree.declaredVariables ++ more ∧
    ∀ one ∈ more, one.scope = scope ∨ before.tree.paths.length ≤ one.scope
  completed : ∃ added, Completes owed before added owing after ∧
    ∀ function ∈ added, function.Corresponds after.tree

variable {first before after last : State} {inner : ScopeId} {owed owing left : List FunctionId}

namespace Proceeds

theorem of_tree {grown : ScopeTree} (extended : before.tree.Extends grown) (whole : grown.IsTree)
    (declared : grown.declaredVariables = before.tree.declaredVariables)
    (functions : grown.functions = before.tree.functions) (owed : List FunctionId) :
    Proceeds scope owed before owed { before with tree := grown } :=
  ⟨extended, whole, ⟨[], by simp [declared], List.forall_mem_nil _⟩, [],
    .of_tree functions owed, List.forall_mem_nil _⟩

theorem refl (whole : before.tree.IsTree) (owed : List FunctionId) :
    Proceeds scope owed before owed before :=
  .of_tree (.refl _) whole rfl rfl owed

theorem trans (one : Proceeds scope owed first owing before)
    (other : Proceeds scope owing before left after) : Proceeds scope owed first left after := by
  obtain ⟨some, someKnown, someNew⟩ := one.declared
  obtain ⟨more, moreKnown, moreNew⟩ := other.declared
  obtain ⟨added, firstCompletes, firstCorrespond⟩ := one.completed
  obtain ⟨others, completes, correspond⟩ := other.completed
  refine ⟨one.extended.trans other.extended, other.whole, ⟨some ++ more, ?_, ?_⟩, added ++ others,
    firstCompletes.trans completes one.extended.functions.length_le
      other.extended.functions.length_le, ?_⟩
  · rw [moreKnown, someKnown, List.append_assoc]
  · simp only [List.forall_mem_append]
    refine ⟨someNew, fun declared member => (moreNew declared member).imp_right fun late => ?_⟩
    exact Nat.le_trans one.extended.paths.length_le late
  · simp only [List.forall_mem_append]
    exact ⟨fun function member => (firstCorrespond function member).extends other.extended,
      correspond⟩

theorem of_perm (proceeds : Proceeds scope owed before owing after) (same : owing.Perm left) :
    Proceeds scope owed before left after := by
  obtain ⟨extended, whole, declared, added, completes, correspond⟩ := proceeds
  exact ⟨extended, whole, declared, added, completes.of_perm same, correspond⟩

theorem of_completed (whole : before.tree.IsTree) {function : TypedFunction}
    (corresponds : function.Corresponds before.tree) (owed : List FunctionId) :
    Proceeds scope (function.function :: owed) before owed
      { before with functions := before.functions ++ [function] } :=
  ⟨.refl _, whole, ⟨[], by simp, List.forall_mem_nil _⟩, [function], .of_completed before function owed,
    by simpa using corresponds⟩

/-- What happens at a new scope happens at new scopes only. -/
theorem late (proceeds : Proceeds inner owed before owing after)
    (opened : before.tree.paths.length ≤ inner) : ∃ more,
      after.tree.declaredVariables = before.tree.declaredVariables ++ more ∧
        ∀ one ∈ more, before.tree.paths.length ≤ one.scope := by
  obtain ⟨more, known, new⟩ := proceeds.declared
  refine ⟨more, known, fun one member => (new one member).elim ?_ id⟩
  rintro rfl
  exact opened

theorem outer (proceeds : Proceeds inner owed before owing after)
    (opened : before.tree.paths.length ≤ inner) : Proceeds scope owed before owing after := by
  obtain ⟨more, known, late⟩ := proceeds.late opened
  exact ⟨proceeds.extended, proceeds.whole, ⟨more, known, fun one member => .inr (late one member)⟩,
    proceeds.completed⟩

theorem seesDistinct (proceeds : Proceeds inner owed before owing after)
    (opened : before.tree.paths.length ≤ inner) (whole : before.tree.IsTree)
    (inside : scope < before.tree.paths.length) (distinct : before.tree.SeesDistinct scope) :
    after.tree.SeesDistinct scope := by
  obtain ⟨more, known, late⟩ := proceeds.late opened
  exact proceeds.extended.seesDistinct whole proceeds.whole inside known late distinct

end Proceeds

theorem newScope_proceeds (whole : before.tree.IsTree) {parent : ScopeId}
    (inside : parent < before.tree.paths.length) (owed : List FunctionId) :
    Proceeds scope owed before owed { before with tree := (before.tree.newScope parent).1 } :=
  .of_tree (ScopeTree.newScope_extends parent) (whole.newScope inside) rfl rfl owed

theorem declareVariable_proceeds (whole : before.tree.IsTree)
    (inside : scope < before.tree.paths.length) (distinct : before.tree.SeesDistinct scope)
    {name : String} {type : ValueType} {position : Position} {id : VariableId}
    (declared : declareVariable scope name type position before = .ok (id, after))
    (owed : List FunctionId) : Proceeds scope owed before owed after ∧
      after.tree.SeesDistinct scope ∧ id = before.tree.declaredVariables.length ∧
      after = { before with tree := before.tree.addVariables scope [(name, type)] } := by
  obtain ⟨inTree, only⟩ := declareVariable_eq_ok declared
  have extended := ScopeTree.declareVariable_extends inTree
  have wholeAfter := whole.declareVariable inside inTree
  have stillDistinct := whole.seesDistinct_declareVariable inside inTree distinct
  obtain ⟨same, rfl⟩ := ScopeTree.declareVariable_eq_ok inTree
  rw [only]
  refine ⟨⟨extended, wholeAfter, ⟨_, congrArg (·.declaredVariables) same, by simp⟩, [],
    .of_tree (congrArg (·.functions) same) owed, List.forall_mem_nil _⟩, stillDistinct, rfl, ?_⟩
  rw [same]
  rfl

theorem declareParameters_proceeds (whole : before.tree.IsTree) {frame : ScopeId}
    (inside : frame < before.tree.paths.length) (distinct : before.tree.SeesDistinct frame)
    {parameters : List Parameter} {ids : List VariableId}
    (declared : declareParameters frame parameters before = .ok (ids, after))
    (owed : List FunctionId) : Proceeds frame owed before owed after ∧
      after.tree.SeesDistinct frame ∧ (∀ parameter ∈ parameters, parameter.type = .int) ∧
      ids = List.range' before.tree.declaredVariables.length parameters.length ∧
      after = { before with
        tree := before.tree.addVariables frame
          (parameters.map fun parameter => (parameter.name, parameter.type)) } := by
  induction parameters generalizing ids before with
  | nil =>
    obtain ⟨rfl, rfl⟩ := stateExcept_pure.mp declared
    exact ⟨.refl whole owed, distinct, List.forall_mem_nil _, rfl, by simp [ScopeTree.addVariables]⟩
  | cons parameter rest ih =>
    simp only [declareParameters, stateExcept_check, stateExcept_bind, stateExcept_pure,
      not_not] at declared
    obtain ⟨number, id, middle, first, others, _, more, rfl, rfl⟩ := declared
    obtain ⟨one, stillDistinct, rfl, rfl⟩ :=
      declareVariable_proceeds whole inside distinct first owed
    obtain ⟨all, lastDistinct, numbers, rfl, rfl⟩ := ih one.whole inside stillDistinct more
    refine ⟨one.trans all, lastDistinct, List.forall_mem_cons.mpr ⟨number, numbers⟩, ?_, ?_⟩
    · simp [ScopeTree.addVariables, List.range'_succ]
    · simp [ScopeTree.addVariables]

theorem declareFunction_proceeds (whole : before.tree.IsTree) {name : String}
    {parameters : List Parameter} {type : ValueType} {position : Position} {id : FunctionId}
    (declared : declareFunction scope name parameters type position before = .ok (id, after))
    (owed : List FunctionId) : Proceeds scope owed before (id :: owed) after ∧
      after.tree.Declares scope id ⟨name, parameters.map (·.type), type⟩ ∧
      id = before.tree.functions.length ∧
      after = { before with
        tree := before.tree.addFunction scope ⟨name, parameters.map (·.type), type⟩ } := by
  obtain ⟨returns, found, only⟩ := declareFunction_eq_ok declared
  have extended := ScopeTree.declareFunction_extends found
  have wholeAfter := whole.declareFunction found
  obtain ⟨same, rfl⟩ := ScopeTree.declareFunction_eq_ok found
  have known : after.tree.declaredVariables = before.tree.declaredVariables :=
    congrArg (·.declaredVariables) same
  rw [only]
  refine ⟨⟨extended, wholeAfter, ⟨[], by simp [known], List.forall_mem_nil _⟩, [],
    .of_declared (congrArg (·.functions) same) owed, List.forall_mem_nil _⟩,
    ⟨⟨before.tree.nextLabel, ?_⟩, returns⟩, rfl, ?_⟩
  · rw [same]
    exact List.getElem?_concat_length
  · rw [same]
    rfl

/-- The functions among the statements of a block, declared in order. -/
def AreDeclared (tree : ScopeTree) (scope : ScopeId) (declared : List FunctionId)
    (sources : List Statement) : Prop :=
  List.Forall₂ (tree.Declares scope) declared (sources.filterMap Statement.signature?)

theorem AreDeclared.extends {before after : ScopeTree} (grows : before.Extends after)
    {declared : List FunctionId} {sources : List Statement}
    (areDeclared : AreDeclared before scope declared sources) :
    AreDeclared after scope declared sources :=
  areDeclared.imp fun _ _ declares => declares.extends grows

theorem declareFunctions_proceeds (whole : before.tree.IsTree) {sources : List Statement}
    {declared : List FunctionId}
    (made : declareFunctions scope sources before = .ok (declared, after))
    (owed : List FunctionId) : Proceeds scope owed before (declared ++ owed) after ∧
      AreDeclared after.tree scope declared sources ∧
      declared = List.range' before.tree.functions.length
        (sources.filterMap Statement.signature?).length ∧
      after = { before with
        tree := before.tree.addFunctions scope (sources.filterMap Statement.signature?) } := by
  induction sources generalizing declared before owed with
  | nil =>
    obtain ⟨rfl, rfl⟩ := stateExcept_pure.mp made
    exact ⟨.refl whole owed, .nil, rfl, rfl⟩
  | cons first rest ih =>
    -- Statements that are no functions are passed over.
    by_cases function : ∃ name parameters type body position,
        first = .function name parameters type body position
    · obtain ⟨name, parameters, type, body, position, rfl⟩ := function
      simp only [declareFunctions, stateExcept_bind, stateExcept_pure] at made
      obtain ⟨id, middle, madeFirst, others, _, madeOthers, rfl, rfl⟩ := made
      obtain ⟨one, here, rfl, rfl⟩ := declareFunction_proceeds whole madeFirst owed
      obtain ⟨all, areDeclared, rfl, rfl⟩ := ih one.whole madeOthers (_ :: owed)
      refine ⟨(one.trans all).of_perm List.perm_middle, ?_, ?_, ?_⟩
      · exact .cons (here.extends all.extended) areDeclared
      · simp [Statement.signature?, ScopeTree.addFunction, List.range'_succ]
      · simp [Statement.signature?, ScopeTree.addFunctions]
    · simp only [not_exists] at function
      have none_here : first.signature? = none := by
        cases first <;> first | rfl | exact absurd rfl (function _ _ _ _ _)
      rw [declareFunctions_cons function] at made
      rw [AreDeclared, List.filterMap_cons_none none_here]
      exact ih whole made owed

/-! ## Statements -/

/-- A function is completed: the frame is new, so what is declared in it and below is not seen from the
scope of the function. -/
theorem function_elaborates {first second third : State} (whole : before.tree.IsTree)
    (inside : scope < before.tree.paths.length) (distinct : before.tree.SeesDistinct scope)
    {id : FunctionId} {name : String} {parameters : List Parameter} {type : ValueType}
    (declared : before.tree.Declares scope id ⟨name, parameters.map (·.type), type⟩)
    {frame : ScopeId} (opened : newScope scope before = .ok (frame, first))
    {ids : List VariableId} (given : declareParameters frame parameters first = .ok (ids, second))
    {body : Statement} {typed : TypedStatement}
    (elaborates : second.tree.IsTree → Place.IsWithin ⟨frame, some type⟩ second.tree →
      second.tree.SeesDistinct frame → Elaborates ⟨frame, some type⟩ second body typed third ∧
        ∀ owed, Proceeds frame owed second owed third) :
    let last := { third with functions := third.functions ++ [⟨id, ids, type, typed⟩] }
    ElaboratesFunction scope before id name parameters type body last ∧
      last.tree.SeesDistinct scope ∧ ∀ owed, Proceeds scope (id :: owed) before owed last := by
  obtain ⟨rfl, rfl⟩ := newScope_eq_ok.mp opened
  have openedWhole := whole.newScope inside
  have within : before.tree.paths.length < (before.tree.newScope scope).1.paths.length := by
    simp [ScopeTree.newScope]
  have parametersProceed := declareParameters_proceeds openedWhole within
    (whole.seesDistinct_newScope inside distinct) given
  obtain ⟨proceeds, frameDistinct, numbers, rfl, rfl⟩ := parametersProceed []
  have supported : type = .void ∨ type = .int := declared.supported
  obtain ⟨bodyElaborates, bodyProceeds⟩ := elaborates proceeds.whole
    ⟨Nat.lt_of_lt_of_le within proceeds.extended.paths.length_le, by
      intro type member
      obtain rfl := Option.some.inj member
      exact supported⟩ frameDistinct
  -- All of this happens at the frame, and so where the scope of the function does not look.
  have all (owed : List FunctionId) : Proceeds before.tree.paths.length owed before owed third :=
    ((newScope_proceeds whole inside owed).trans (parametersProceed owed).1).trans
      (bodyProceeds owed)
  refine ⟨.intro distinct declared numbers bodyElaborates,
    (all []).seesDistinct (Nat.le_refl _) whole inside distinct, fun owed => ?_⟩
  have corresponds := TypedFunction.corresponds_framed whole inside declared typed
  exact ((all (id :: owed)).outer (Nat.le_refl _)).trans
    (.of_completed (all []).whole (corresponds.extends (bodyProceeds []).extended) owed)

mutual

theorem statement_elaborates : ∀ {source : Statement} {place : Place} {before after : State}
    {typed : TypedStatement}, before.tree.IsTree → place.IsWithin before.tree →
      before.tree.SeesDistinct place.scope → statement place source before = .ok (typed, after) →
      Elaborates place before source typed after ∧
        ∀ owed, Proceeds place.scope owed before owed after
  | .block statements, place, before, after, typed, whole, within, distinct, made => by
    simp only [statement, stateExcept_bind, stateExcept_pure] at made
    obtain ⟨inner, opened, madeOpened, declared, hoisted, madeDeclared, sources, last, madeInner,
      rfl, rfl⟩ := made
    obtain ⟨rfl, rfl⟩ := newScope_eq_ok.mp madeOpened
    have openedWhole := whole.newScope within.scope
    -- First the functions of the block are declared in its scope, then its statements follow.
    have hoists := declareFunctions_proceeds openedWhole madeDeclared
    obtain ⟨hoisted, areDeclared, rfl, rfl⟩ := hoists []
    have innerWithin : Place.IsWithin ⟨before.tree.paths.length, place.result⟩ _ :=
      Place.IsWithin.extends hoisted.extended ⟨by simp [ScopeTree.newScope], within.result⟩
    obtain ⟨elaborate, proceeds⟩ := blockStatements_elaborate hoisted.whole innerWithin
      (ScopeTree.addFunctions_seesDistinct.mpr (whole.seesDistinct_newScope within.scope distinct))
      areDeclared madeInner
    have all (owed : List FunctionId) : Proceeds before.tree.paths.length owed before owed last :=
      ((newScope_proceeds whole within.scope owed).trans (hoists owed).1).trans (proceeds owed)
    exact ⟨.intro distinct (.block elaborate)
      ((all []).seesDistinct (Nat.le_refl _) whole within.scope distinct),
      fun owed => (all owed).outer (Nat.le_refl _)⟩
  | .declare name value position, place, before, after, typed, whole, within, distinct, made => by
    simp only [statement, stateExcept_bind, inTree_eq_ok, stateExcept_lift,
      stateExcept_pure] at made
    obtain ⟨inner, _, ⟨madeInner, rfl⟩, _, _, ⟨checked, rfl⟩, id, _, declared, rfl, rfl⟩ := made
    have number := ValueType.acceptsAs_int (expectType_eq_ok checked)
    rw [number] at declared
    have proceeds := declareVariable_proceeds whole within.scope distinct declared
    obtain ⟨-, stillDistinct, rfl, rfl⟩ := proceeds []
    exact ⟨.intro distinct (.declare (expression_denotes madeInner) number) stillDistinct,
      fun owed => (proceeds owed).1⟩
  | .evaluate value, place, before, after, typed, whole, within, distinct, made => by
    simp only [statement, stateExcept_bind, inTree_eq_ok, stateExcept_pure] at made
    obtain ⟨inner, _, ⟨madeInner, rfl⟩, rfl, rfl⟩ := made
    exact ⟨.intro distinct (.evaluate (expression_denotes madeInner)) distinct, .refl whole⟩
  | .ifThen test consequence, place, before, after, typed, whole, within, distinct, made => by
    simp only [statement, stateExcept_bind, inTree_eq_ok, stateExcept_pure] at made
    obtain ⟨condition, _, ⟨madeTest, rfl⟩, inner, _, madeInner, rfl, rfl⟩ := made
    obtain ⟨elaborates, proceeds⟩ := statement_elaborates whole within distinct madeInner
    exact ⟨.intro distinct (.ifThen (condition_denotes madeTest) elaborates)
      elaborates.stillDistinct, proceeds⟩
  | .ifThenElse test consequence alternative, place, before, after, typed, whole, within, distinct,
      made => by
    simp only [statement, stateExcept_bind, inTree_eq_ok, stateExcept_pure] at made
    obtain ⟨condition, _, ⟨madeTest, rfl⟩, first, middle, madeFirst, second, _, madeSecond, rfl,
      rfl⟩ := made
    obtain ⟨elaborates, proceeds⟩ := statement_elaborates whole within distinct madeFirst
    obtain ⟨otherwise, finishes⟩ := statement_elaborates (proceeds []).whole
      (within.extends (proceeds []).extended) elaborates.stillDistinct madeSecond
    exact ⟨.intro distinct (.ifThenElse (condition_denotes madeTest) elaborates otherwise)
      otherwise.stillDistinct, fun owed => (proceeds owed).trans (finishes owed)⟩
  | .whileDo test body, place, before, after, typed, whole, within, distinct, made => by
    simp only [statement, stateExcept_bind, inTree_eq_ok, stateExcept_pure] at made
    obtain ⟨condition, _, ⟨madeTest, rfl⟩, inner, _, madeInner, rfl, rfl⟩ := made
    obtain ⟨elaborates, proceeds⟩ := statement_elaborates whole within distinct madeInner
    exact ⟨.intro distinct (.whileDo (condition_denotes madeTest) elaborates)
      elaborates.stillDistinct, proceeds⟩
  | .doWhile body test, place, before, after, typed, whole, within, distinct, made => by
    simp only [statement, stateExcept_bind, inTree_eq_ok, stateExcept_pure] at made
    obtain ⟨inner, middle, madeInner, condition, _, ⟨madeTest, rfl⟩, rfl, rfl⟩ := made
    obtain ⟨elaborates, proceeds⟩ := statement_elaborates whole within distinct madeInner
    exact ⟨.intro distinct (.doWhile elaborates (condition_denotes madeTest))
      elaborates.stillDistinct, proceeds⟩
  | .result value position, place, before, after, typed, whole, within, distinct, made => by
    rw [statement] at made
    obtain ⟨rfl, ⟨returns, rfl, rfl⟩ | ⟨source, inner, returns, rfl, rfl, madeInner, number⟩⟩ :=
      result_eq_ok within made
    · exact ⟨.intro distinct (.nothing returns) distinct, .refl whole⟩
    · exact ⟨.intro distinct (.result returns (expression_denotes madeInner) number) distinct,
        .refl whole⟩
  | .function name parameters type body position, place, before, after, typed, whole, within,
      distinct, made => by
    simp only [statement, stateExcept_bind, stateExcept_modify, stateExcept_pure] at made
    obtain ⟨id, declared, madeDeclared, frame, opened, madeOpened, ids, given, madeGiven, inner,
      third, madeInner, _, _, rfl, rfl, rfl⟩ := made
    have declares := declareFunction_proceeds whole madeDeclared
    obtain ⟨hoisted, here, rfl, rfl⟩ := declares []
    obtain ⟨completes, stillDistinct, proceeds⟩ := function_elaborates hoisted.whole
      (within.extends hoisted.extended).scope distinct here madeOpened madeGiven
        fun whole within distinct => statement_elaborates whole within distinct madeInner
    exact ⟨.intro distinct (.function completes) stillDistinct,
      fun owed => (declares owed).1.trans (proceeds owed)⟩

theorem blockStatements_elaborate : ∀ {sources : List Statement} {place : Place}
    {before after : State} {declared : List FunctionId} {typed : List TypedStatement},
      before.tree.IsTree → place.IsWithin before.tree → before.tree.SeesDistinct place.scope →
      AreDeclared before.tree place.scope declared sources →
      blockStatements place declared sources before = .ok (typed, after) →
      ElaborateAll place before declared sources typed after ∧
        ∀ owed, Proceeds place.scope (declared ++ owed) before owed after
  | [], place, before, after, declared, typed, whole, within, distinct, areDeclared, made => by
    obtain rfl := List.forall₂_nil_right_iff.mp areDeclared
    obtain ⟨rfl, rfl⟩ := stateExcept_pure.mp made
    exact ⟨.nil distinct, .refl whole⟩
  | first :: rest, place, before, after, declared, typed, whole, within, distinct, areDeclared,
      made => by
    cases first with
    | function name parameters type body position =>
      obtain ⟨id, others, declares, later, rfl⟩ := List.forall₂_cons_right_iff.mp areDeclared
      simp only [blockStatements, stateExcept_bind, stateExcept_modify] at made
      obtain ⟨frame, opened, madeOpened, ids, given, madeGiven, inner, third, madeInner, _, _, rfl,
        made⟩ := made
      obtain ⟨completes, stillDistinct, proceeds⟩ := function_elaborates whole within.scope distinct
        declares madeOpened madeGiven fun whole within distinct =>
          statement_elaborates whole within distinct madeInner
      obtain ⟨elaborate, finish⟩ := blockStatements_elaborate (proceeds []).whole
        (within.extends (proceeds []).extended) stillDistinct
        (AreDeclared.extends (proceeds []).extended later) made
      exact ⟨.function completes elaborate,
        fun owed => (proceeds (others ++ owed)).trans (finish owed)⟩
    | _ =>
      simp only [blockStatements, stateExcept_bind, stateExcept_pure] at made
      obtain ⟨one, middle, madeFirst, more, _, madeOthers, rfl, rfl⟩ := made
      obtain ⟨elaborates, proceeds⟩ := statement_elaborates whole within distinct madeFirst
      have later : AreDeclared before.tree place.scope declared rest := areDeclared
      obtain ⟨elaborate, finish⟩ := blockStatements_elaborate (proceeds []).whole
        (within.extends (proceeds []).extended) elaborates.stillDistinct
        (later.extends (proceeds []).extended) madeOthers
      exact ⟨.statement rfl elaborates elaborate,
        fun owed => (proceeds (declared ++ owed)).trans (finish owed)⟩

end

end Resolve

/-- A program is resolved as a block in the root is. -/
theorem resolve_eq_ok {source : List Statement} {program : TypedProgram} {tree : ScopeTree}
    (resolved : resolve source = .ok (program, tree)) :
    Resolve.statement ⟨ScopeTree.root, none⟩ (.block source) ⟨ScopeTree.initial, []⟩ =
      .ok (.block program.main, ⟨tree, program.functions⟩) := by
  simp only [resolve, StateT.run, Except.bind_eq_ok, Prod.exists, stateExcept_bind] at resolved
  obtain ⟨main, last, ⟨declared, hoisted, madeDeclared, made⟩, resolved⟩ := resolved
  obtain ⟨rfl, rfl⟩ := Prod.mk.inj (Except.ok.inj resolved)
  simp only [Resolve.statement, stateExcept_bind, stateExcept_pure]
  exact ⟨_, _, Resolve.newScope_eq_ok.mpr ⟨rfl, rfl⟩, declared, hoisted, madeDeclared, main, last,
    made, rfl, rfl⟩

/-- **What resolution accepts is well scoped and well typed.** The rules hold at every statement, and the
functions of the program are those that were declared. -/
theorem resolve_elaborates {source : List Statement} {program : TypedProgram} {tree : ScopeTree}
    (resolved : resolve source = .ok (program, tree)) : program.IsElaborated source tree := by
  have within : Resolve.Place.IsWithin ⟨ScopeTree.root, none⟩ ScopeTree.initial :=
    ⟨by decide, fun type member => nomatch member⟩
  have distinct : ScopeTree.initial.SeesDistinct ScopeTree.root := by
    rw [ScopeTree.SeesDistinct]
    decide
  obtain ⟨elaborates, proceeds⟩ := Resolve.statement_elaborates ScopeTree.initial_isTree within
    distinct (resolve_eq_ok resolved)
  obtain ⟨added, ⟨functions, ids⟩, correspond⟩ := (proceeds []).completed
  obtain rfl : program.functions = added := functions
  rw [List.append_nil, List.nil_append] at ids
  exact ⟨elaborates, (proceeds []).extended.functions, ids, correspond⟩

/-- A call before the declaration, a function within another one, and one as a branch. -/
def nestingFunctions : String :=
  "var x = f(1); func f(a: int): int \x7b func g(b: int): int return a + b; if (a) func h() return; " ++
    "while (a) \x7b var y = g(a); a = y - 1; \x7d return a; \x7d"

theorem resolve_elaborates_nestingFunctions : ∃ source program tree,
    Build.tree nestingFunctions = .ok source ∧ resolve source = .ok (program, tree) ∧
      program.functions.map (·.function) = [12, 13, 11] ∧ program.IsElaborated source tree := by
  obtain ⟨source, read, ⟨program, tree⟩, resolved, ids⟩ : ∃ source,
      Build.tree nestingFunctions = .ok source ∧ ∃ pair, resolve source = .ok pair ∧
        pair.1.functions.map (·.function) = [12, 13, 11] := by
    decide +kernel
  exact ⟨source, program, tree, read, resolved, ids, resolve_elaborates resolved⟩

end TapeCode
