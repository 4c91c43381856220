import TapeCode.Scope.Builtin

/-!
# Growing scope trees

A scope tree only grows: by a scope, by a variable or by a function with a fresh label. However it has
grown, the paths of its scopes fit together: each starts with its scope, each ends with the root, and
the path of every scope on it is a rest of it.
-/
namespace TapeCode

theorem List.IsPrefix.getElem?_eq_some {α : Type} {shorter longer : List α}
    (starts : shorter <+: longer) {index : Nat} {value : α} (has : shorter[index]? = some value) :
    longer[index]? = some value := by
  obtain ⟨more, rfl⟩ := starts
  rwa [List.getElem?_append_left (List.getElem?_eq_some_iff.mp has).1]

theorem List.getElem?_concat_eq_some {α : Type} {items : List α} {item value : α} {index : Nat} :
    (items ++ [item])[index]? = some value ↔
      items[index]? = some value ∨ index = items.length ∧ value = item := by
  rcases Nat.lt_trichotomy index items.length with old | rfl | beyond
  · simp [List.getElem?_append_left old, Nat.ne_of_lt old]
  · simp [eq_comm]
  · have outside : (items ++ [item])[index]? = none :=
      List.getElem?_eq_none (by rwa [List.length_append, List.length_singleton])
    have absent : items[index]? = none := List.getElem?_eq_none (Nat.le_of_lt beyond)
    simp [outside, absent, Nat.ne_of_gt beyond]

/-- The places of the items with a property. -/
private theorem mem_places {α : Type} {items : List α} (has : α → Bool) {place : Nat} :
    place ∈ (items.zipIdx.filter (has ·.1)).map (·.2) ↔
      ∃ item, items[place]? = some item ∧ has item = true := by
  simp only [List.mem_map, List.mem_filter]
  constructor
  · rintro ⟨⟨item, index⟩, ⟨member, holds⟩, rfl⟩
    exact ⟨item, List.mem_zipIdx_iff_getElem?.mp member, holds⟩
  · rintro ⟨item, found, holds⟩
    exact ⟨(item, place), ⟨List.mem_zipIdx_iff_getElem?.mpr found, holds⟩, rfl⟩

/-- An item that is added has the last place. -/
private theorem places_concat {α : Type} (items : List α) (item : α) (has : α → Bool) :
    ((items ++ [item]).zipIdx.filter (has ·.1)).map (·.2) =
      (items.zipIdx.filter (has ·.1)).map (·.2) ++ if has item then [items.length] else [] := by
  rw [List.zipIdx_append, List.filter_append, List.map_append]
  cases here : has item <;> simp [here]

namespace ScopeTree

/-- The first tree is what the second one was at an earlier time. -/
structure Extends (before after : ScopeTree) : Prop where
  paths : before.paths <+: after.paths
  declared : before.declaredVariables <+: after.declaredVariables
  functions : before.functions <+: after.functions

namespace Extends

variable {first before after last : ScopeTree}

theorem refl (tree : ScopeTree) : Extends tree tree :=
  ⟨List.prefix_rfl, List.prefix_rfl, List.prefix_rfl⟩

theorem trans (one : Extends first before) (other : Extends before last) : Extends first last :=
  ⟨one.paths.trans other.paths, one.declared.trans other.declared,
    one.functions.trans other.functions⟩

/-- An old scope keeps its path. -/
theorem path_eq (grows : Extends before after) {scope : ScopeId}
    (inside : scope < before.paths.length) : after.path scope = before.path scope := by
  have here := List.getElem?_eq_getElem inside
  simp [path, here, List.IsPrefix.getElem?_eq_some grows.paths here]

end Extends

variable {tree grown : ScopeTree}

/-! ## Scopes -/

theorem path_mem {scope : ScopeId} (inside : scope < tree.paths.length) :
    tree.path scope ∈ tree.paths := by
  simp [path, List.getElem?_eq_getElem inside]

theorem path_mem_of_mem {scope around : ScopeId} (member : around ∈ tree.path scope) :
    tree.path scope ∈ tree.paths := by
  cases here : tree.paths[scope]? with
  | none => simp [path, here] at member
  | some whole =>
    rw [path, here]
    exact List.mem_of_getElem? here

theorem newScope_extends (parent : ScopeId) : tree.Extends (tree.newScope parent).1 :=
  ⟨List.prefix_append _ _, List.prefix_rfl, List.prefix_rfl⟩

theorem newScope_path (parent : ScopeId) : (tree.newScope parent).1.paths[tree.paths.length]? =
    some (tree.paths.length :: tree.path parent) := by
  simp [newScope]

theorem path_newScope (parent : ScopeId) :
    (tree.newScope parent).1.path tree.paths.length = tree.paths.length :: tree.path parent := by
  rw [path, newScope_path]
  rfl

/-- How the paths of a tree fit together. -/
structure IsRooted (tree : ScopeTree) : Prop where
  heads : ∀ (scope : ScopeId) (path : List ScopeId), tree.paths[scope]? = some path →
    path.head? = some scope
  nested : ∀ path ∈ tree.paths, ∀ scope ∈ path, ∃ outer, tree.paths[scope]? = some outer ∧
    outer <:+ path
  ends : ∀ path ∈ tree.paths, path.getLast? = some root
  root : tree.paths[root]? = some [root]

theorem initial_isRooted : initial.IsRooted where
  heads := by
    intro scope path here
    obtain ⟨inside, rfl⟩ := List.getElem?_eq_some_iff.mp here
    obtain rfl : scope = 0 := Nat.lt_one_iff.mp inside
    rfl
  nested := by
    intro path member scope within
    obtain rfl := List.mem_singleton.mp member
    obtain rfl := List.mem_singleton.mp within
    exact ⟨_, rfl, List.suffix_rfl⟩
  ends := by decide
  root := rfl

namespace IsRooted

theorem newScope (rooted : tree.IsRooted) {parent : ScopeId}
    (inside : parent < tree.paths.length) : (tree.newScope parent).1.IsRooted where
  heads := by
    intro scope path here
    rcases List.getElem?_concat_eq_some.mp here with old | ⟨rfl, rfl⟩
    · exact rooted.heads scope path old
    · rfl
  nested := by
    -- A scope keeps its place when scopes are added, so the old paths are as nested as before.
    have still : ∀ path ∈ tree.paths, ∀ scope ∈ path, ∃ outer,
        (tree.newScope parent).1.paths[scope]? = some outer ∧ outer <:+ path := by
      intro path member scope within
      obtain ⟨outer, here, ends⟩ := rooted.nested path member scope within
      exact ⟨outer, List.IsPrefix.getElem?_eq_some (newScope_extends parent).paths here, ends⟩
    intro path member scope within
    rcases List.mem_append.mp member with old | new
    · exact still path old scope within
    · obtain rfl := List.mem_singleton.mp new
      rcases List.mem_cons.mp within with rfl | around
      · exact ⟨_, newScope_path parent, List.suffix_rfl⟩
      · obtain ⟨outer, here, ends⟩ := still _ (path_mem inside) scope around
        exact ⟨outer, here, ends.trans (List.suffix_cons _ _)⟩
  ends := by
    intro path member
    rcases List.mem_append.mp member with old | new
    · exact rooted.ends path old
    · obtain rfl := List.mem_singleton.mp new
      have ends := rooted.ends _ (path_mem inside)
      rw [List.getLast?_cons, ends]
      rfl
  root := List.IsPrefix.getElem?_eq_some (newScope_extends parent).paths rooted.root

theorem mem_path (rooted : tree.IsRooted) {scope : ScopeId} (inside : scope < tree.paths.length) :
    scope ∈ tree.path scope := by
  have here := List.getElem?_eq_getElem inside
  have same : tree.path scope = tree.paths[scope] := by simp [path, here]
  rw [same]
  exact List.mem_of_head? (rooted.heads scope _ here)

/-- The path of a scope around another one is a rest of the other's path. -/
theorem path_suffix (rooted : tree.IsRooted) {scope around : ScopeId}
    (member : around ∈ tree.path scope) : tree.path around <:+ tree.path scope := by
  obtain ⟨outer, here, ends⟩ := rooted.nested _ (path_mem_of_mem member) around member
  rw [path, here]
  exact ends

theorem inside_of_mem (rooted : tree.IsRooted) {scope around : ScopeId}
    (member : around ∈ tree.path scope) : around < tree.paths.length := by
  obtain ⟨outer, here, -⟩ := rooted.nested _ (path_mem_of_mem member) around member
  exact (List.getElem?_eq_some_iff.mp here).1

end IsRooted

/-! ## Variables and functions -/

theorem mem_variablesIn {scope : ScopeId} {id : VariableId} :
    id ∈ tree.variablesIn scope ↔
      (tree.declaredVariables[id]?).map (·.scope) = some scope := by
  simp only [variablesIn, mem_places fun declared : Variable => declared.scope = scope,
    decide_eq_true_eq, Option.map_eq_some_iff]

theorem mem_functionsIn {scope : ScopeId} {id : FunctionId} :
    id ∈ tree.functionsIn scope ↔ (tree.functions[id]?).map (·.scope) = some scope := by
  simp only [functionsIn, mem_places fun function : Function => function.scope = scope,
    decide_eq_true_eq, Option.map_eq_some_iff]

theorem variablesIn_concat (tree : ScopeTree) (declared : Variable) (scope : ScopeId) :
    { tree with declaredVariables := tree.declaredVariables ++ [declared] }.variablesIn scope =
      tree.variablesIn scope ++
        if declared.scope = scope then [tree.declaredVariables.length] else [] := by
  simp only [variablesIn, places_concat tree.declaredVariables declared (·.scope = scope),
    decide_eq_true_eq]

theorem functionsIn_concat (tree : ScopeTree) (function : Function) (scope : ScopeId) (next : Nat) :
    { tree with functions := tree.functions ++ [function], nextLabel := next }.functionsIn scope =
      tree.functionsIn scope ++ if function.scope = scope then [tree.functions.length] else [] := by
  simp only [functionsIn, places_concat tree.functions function (·.scope = scope),
    decide_eq_true_eq]

theorem declareVariable_eq_ok {scope : ScopeId} {name : String} {type : ValueType}
    {id : VariableId} (declared : tree.declareVariable scope name type = (grown, .ok id)) :
    grown = { tree with declaredVariables := tree.declaredVariables ++ [⟨name, type, scope⟩] } ∧
      id = tree.declaredVariables.length := by
  unfold declareVariable at declared
  split at declared
  · cases declared
  · obtain ⟨rfl, answer⟩ := Prod.mk.inj declared
    exact ⟨rfl, (Except.ok.inj answer).symm⟩

/-- A refused declaration leaves the tree as it is. -/
theorem declareVariable_eq_error {scope : ScopeId} {name : String} {type : ValueType}
    {error : ScopeError} (refused : tree.declareVariable scope name type = (grown, .error error)) :
    grown = tree := by
  unfold declareVariable at refused
  split at refused
  · exact (Prod.mk.inj refused).1.symm
  · cases refused

theorem declareVariable_extends {scope : ScopeId} {name : String} {type : ValueType}
    {id : VariableId} (declared : tree.declareVariable scope name type = (grown, .ok id)) :
    tree.Extends grown := by
  obtain ⟨rfl, -⟩ := declareVariable_eq_ok declared
  exact ⟨List.prefix_rfl, List.prefix_append _ _, List.prefix_rfl⟩

theorem declareVariable_found {scope : ScopeId} {name : String} {type : ValueType}
    {id : VariableId} (declared : tree.declareVariable scope name type = (grown, .ok id)) :
    grown.declaredVariables[id]? = some ⟨name, type, scope⟩ := by
  obtain ⟨rfl, rfl⟩ := declareVariable_eq_ok declared
  simp

/-- The function that a declaration adds, under the next label. -/
def declaration (tree : ScopeTree) (scope : ScopeId) (name : String) (parameters : List ValueType)
    (result : ValueType) : Function :=
  ⟨name, parameters, result, scope, .labelled tree.nextLabel⟩

theorem declareFunction_eq_ok {scope : ScopeId} {name : String} {parameters : List ValueType}
    {result : ValueType} {id : FunctionId}
    (declared : tree.declareFunction scope name parameters result = (grown, .ok id)) :
    grown = { tree with
      functions := tree.functions ++ [tree.declaration scope name parameters result]
      nextLabel := tree.nextLabel + 1 } ∧ id = tree.functions.length := by
  unfold declareFunction at declared
  split at declared
  · cases declared
  · obtain ⟨rfl, answer⟩ := Prod.mk.inj declared
    exact ⟨rfl, (Except.ok.inj answer).symm⟩

theorem declareFunction_eq_error {scope : ScopeId} {name : String} {parameters : List ValueType}
    {result : ValueType} {error : ScopeError}
    (refused : tree.declareFunction scope name parameters result = (grown, .error error)) :
    grown = tree := by
  unfold declareFunction at refused
  split at refused
  · exact (Prod.mk.inj refused).1.symm
  · cases refused

theorem declareFunction_extends {scope : ScopeId} {name : String} {parameters : List ValueType}
    {result : ValueType} {id : FunctionId}
    (declared : tree.declareFunction scope name parameters result = (grown, .ok id)) :
    tree.Extends grown := by
  obtain ⟨rfl, -⟩ := declareFunction_eq_ok declared
  exact ⟨List.prefix_rfl, List.prefix_rfl, List.prefix_append _ _⟩

/-! ## Labels -/

/-- The labels of the functions are distinct, and all labels not yet given away are free. -/
structure IsLabelled (tree : ScopeTree) : Prop where
  labels : (tree.functions.filterMap (·.label?)).Nodup
  fresh : ∀ label ∈ tree.functions.filterMap (·.label?), label < tree.nextLabel

namespace IsLabelled

theorem declareFunction (labelled : tree.IsLabelled) {scope : ScopeId} {name : String}
    {parameters : List ValueType} {result : ValueType} {id : FunctionId}
    (declared : tree.declareFunction scope name parameters result = (grown, .ok id)) :
    grown.IsLabelled := by
  obtain ⟨rfl, -⟩ := declareFunction_eq_ok declared
  have more : (tree.functions ++ [tree.declaration scope name parameters result]).filterMap
      (·.label?) = tree.functions.filterMap (·.label?) ++ [tree.nextLabel] := by
    simp [declaration, Function.label?]
  constructor <;> rw [more]
  · refine List.nodup_append.mpr ⟨labelled.labels, by simp, ?_⟩
    intro label old other new
    obtain rfl := List.mem_singleton.mp new
    exact Nat.ne_of_lt (labelled.fresh label old)
  · simp only [List.forall_mem_append, List.forall_mem_singleton]
    exact ⟨fun label old => Nat.lt_succ_of_lt (labelled.fresh label old), Nat.lt_succ_self _⟩

/-- Two functions with one label are the same. -/
theorem unique (labelled : tree.IsLabelled) {first second : FunctionId} {one other : Function}
    {label : Nat} (firstFound : tree.functions[first]? = some one)
    (secondFound : tree.functions[second]? = some other) (firstLabel : one.label? = some label)
    (secondLabel : other.label? = some label) : first = second := by
  have apart := List.pairwise_iff_getElem.mp (List.pairwise_filterMap.mp labelled.labels)
  obtain ⟨firstInside, rfl⟩ := List.getElem?_eq_some_iff.mp firstFound
  obtain ⟨secondInside, rfl⟩ := List.getElem?_eq_some_iff.mp secondFound
  rcases Nat.lt_trichotomy first second with below | same | above
  · exact absurd rfl (apart first second firstInside secondInside below _ firstLabel _ secondLabel)
  · exact same
  · exact absurd rfl (apart second first secondInside firstInside above _ secondLabel _ firstLabel)

end IsLabelled

end ScopeTree

end TapeCode
