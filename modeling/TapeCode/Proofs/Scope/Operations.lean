import Mathlib.Data.List.Nodup
import TapeCode.Proofs.Resolution.Slots
import TapeCode.Scope.Arena

/-!
# Any sequence of declarations

Scopes, variables, functions and labels are added to a scope tree in any order: to scopes that are
complete as well as to those below which others hold variables already, and also in vain, when a name is
taken. Whatever the history of a tree, the variables visible from a scope occupy the slots in which they
stand there, the same from every scope.
-/
namespace TapeCode

namespace ScopeTree

variable {tree grown : ScopeTree}

/-! ## Slots -/

theorem variablesIn_nodup {scope : ScopeId} : (tree.variablesIn scope).Nodup := by
  have places : (tree.declaredVariables.zipIdx.map (·.2)).Nodup := by
    rw [List.zipIdx_map_snd]
    exact List.nodup_range'
  exact places.sublist (List.Sublist.map _ List.filter_sublist)

/-- A tree whose paths fit together, each from newer scopes to older ones, whose variables are declared in
its scopes, and whose first variable is the return address. -/
structure IsTree (tree : ScopeTree) : Prop extends tree.IsRooted where
  descending : ∀ path ∈ tree.paths, path.Pairwise (· > ·)
  housed : ∀ declared ∈ tree.declaredVariables, declared.scope < tree.paths.length
  address : ∃ rest, tree.declaredVariables = ⟨"<return_address>", .fsm, ScopeTree.root⟩ :: rest

theorem initial_isTree : initial.IsTree where
  toIsRooted := initial_isRooted
  descending := by decide
  housed := by decide
  address := ⟨[], rfl⟩

namespace IsTree

theorem newScope (whole : tree.IsTree) {parent : ScopeId} (inside : parent < tree.paths.length) :
    (tree.newScope parent).1.IsTree where
  toIsRooted := whole.toIsRooted.newScope inside
  descending := by
    intro path member
    rcases List.mem_append.mp member with old | new
    · exact whole.descending path old
    · obtain rfl := List.mem_singleton.mp new
      refine List.pairwise_cons.mpr ⟨fun around among => ?_, whole.descending _ (path_mem inside)⟩
      exact whole.inside_of_mem among
  housed := by
    intro declared member
    exact Nat.lt_of_lt_of_le (whole.housed declared member) (newScope_extends parent).paths.length_le
  address := whole.address

theorem declareVariable (whole : tree.IsTree) {scope : ScopeId} {name : String} {type : ValueType}
    {id : VariableId} (inside : scope < tree.paths.length)
    (declared : tree.declareVariable scope name type = (grown, .ok id)) : grown.IsTree := by
  obtain ⟨rfl, -⟩ := declareVariable_eq_ok declared
  refine ⟨⟨whole.heads, whole.nested, whole.ends, whole.root⟩, whole.descending, ?_, ?_⟩
  · simp only [List.forall_mem_append, List.forall_mem_singleton]
    exact ⟨whole.housed, inside⟩
  · obtain ⟨rest, known⟩ := whole.address
    exact ⟨_, congrArg (· ++ _) known⟩

theorem declareFunction (whole : tree.IsTree) {scope : ScopeId} {name : String}
    {parameters : List ValueType} {result : ValueType} {id : FunctionId}
    (declared : tree.declareFunction scope name parameters result = (grown, .ok id)) :
    grown.IsTree := by
  obtain ⟨rfl, -⟩ := declareFunction_eq_ok declared
  exact ⟨⟨whole.heads, whole.nested, whole.ends, whole.root⟩, whole.descending, whole.housed,
    whole.address⟩

/-- What is visible from a scope starts with all that is visible from a scope around it. -/
theorem visibleVariables_prefix (whole : tree.IsTree) {scope around : ScopeId}
    (member : around ∈ tree.path scope) :
    tree.visibleVariables around <+: tree.visibleVariables scope := by
  obtain ⟨inner, split⟩ := whole.path_suffix member
  refine ⟨inner.reverse.flatMap tree.variablesIn, ?_⟩
  rw [visibleVariables, visibleVariables, ← split, List.reverse_append, List.flatMap_append]

theorem visibleVariables_nodup (whole : tree.IsTree) {scope : ScopeId}
    (inside : scope < tree.paths.length) : (tree.visibleVariables scope).Nodup := by
  refine List.nodup_flatMap.mpr ⟨fun around _ => variablesIn_nodup, ?_⟩
  refine List.pairwise_reverse.mpr ((whole.descending _ (path_mem inside)).imp ?_)
  intro first second later
  refine List.disjoint_left.mpr fun id inSecond inFirst => ?_
  rw [mem_variablesIn] at inFirst inSecond
  exact Nat.ne_of_gt later (Option.some.inj (inFirst.symm.trans inSecond))

variable {scope : ScopeId} {index : Nat} {id : VariableId}

/-- A variable stands at the same place in what its own scope sees as in what an inner scope sees. -/
theorem visible_at (whole : tree.IsTree) (inside : scope < tree.paths.length)
    (visible : (tree.visibleVariables scope)[index]? = some id) : ∃ declared,
      tree.declaredVariables[id]? = some declared ∧
        (tree.visibleVariables declared.scope)[index]? = some id ∧
        tree.visibleVariables declared.scope <+: tree.visibleVariables scope := by
  obtain ⟨declared, found, among⟩ := mem_visibleVariables.mp (List.mem_of_getElem? visible)
  have starts := whole.visibleVariables_prefix among
  have own := whole.mem_path (whole.inside_of_mem among)
  obtain ⟨place, there⟩ := List.getElem?_of_mem (mem_visibleVariables.mpr ⟨declared, found, own⟩)
  -- Nothing stands at two places of what the inner scope sees.
  have same : place = index := by
    have distinct := whole.visibleVariables_nodup inside
    have here := List.IsPrefix.getElem?_eq_some starts there
    have within := (List.getElem?_eq_some_iff.mp here).1
    exact (List.getElem?_inj within distinct).mp (here.trans visible.symm)
  exact ⟨declared, found, same ▸ there, starts⟩

theorem slot?_eq (whole : tree.IsTree) (inside : scope < tree.paths.length)
    (visible : (tree.visibleVariables scope)[index]? = some id) : tree.slot? id = some index := by
  obtain ⟨declared, found, own, starts⟩ := whole.visible_at inside visible
  have distinct := (whole.visibleVariables_nodup inside).sublist starts.sublist
  obtain ⟨within, here⟩ := List.getElem?_eq_some_iff.mp own
  simp only [slot?, found, Option.bind_eq_bind, Option.bind_some]
  refine List.findIdx?_eq_some_iff_getElem.mpr ⟨within, decide_eq_true here, fun other before => ?_⟩
  rw [Bool.not_eq_true, decide_eq_false_iff_not]
  intro same
  exact Nat.ne_of_lt before ((distinct.getElem_inj_iff).mp (same.trans here.symm))

theorem layout?_eq (whole : tree.IsTree) (inside : scope < tree.paths.length)
    (visible : (tree.visibleVariables scope)[index]? = some id) :
    ∃ types, tree.layout? id = some types ∧
      types.map some = ((tree.visibleVariables scope).take (index + 1)).map fun other =>
        (tree.declaredVariables[other]?).map (·.type) := by
  obtain ⟨declared, found, own, more, split⟩ := whole.visible_at inside visible
  have within := (List.getElem?_eq_some_iff.mp own).1
  refine ⟨_, by simp only [layout?, found, whole.slot?_eq inside visible]; rfl, ?_⟩
  rw [← split, List.take_append_of_le_length within, List.map_filterMap, ← List.filterMap_eq_map]
  refine List.filterMap_congr fun other member => ?_
  obtain ⟨known, there, -⟩ := mem_visibleVariables.mp (List.mem_of_mem_take member)
  simp [there]

end IsTree

end ScopeTree

/-! ## Operations and their history -/

namespace ScopeArena

/-- The scope that an operation names is one of the first `count`. -/
def Operation.IsWithin (count : Nat) : Operation → Prop
  | .newScope scope | .declareVariable scope _ _ | .declareFunction scope _ => scope < count
  | .newLabel => True

instance (count : Nat) : (operation : Operation) → Decidable (operation.IsWithin count)
  | .newScope _ | .declareVariable _ _ _ | .declareFunction _ _ =>
    inferInstanceAs (Decidable (_ < _))
  | .newLabel => inferInstanceAs (Decidable True)

/-- What was asked and what was answered. -/
structure Event where
  operation : Operation
  answer : Except ScopeFailure Answer

/-- The event that the labels are used up. -/
def Event.isOverflow (event : Event) : Bool :=
  match event.answer with
  | .error (.overflow _) => true
  | _ => false

end ScopeArena

namespace ScopeTree

open ScopeArena (Operation Answer Event)

variable {tree : ScopeTree}

/-- The tree that an operation leaves behind, and its answer. Of a function a tree keeps what a call has
to know. -/
def perform (tree : ScopeTree) : Operation → ScopeTree × Except ScopeFailure Answer
  | .newScope parent =>
    let (tree, scope) := tree.newScope parent
    (tree, .ok (.scope scope))
  | .declareVariable scope name type =>
    let (tree, answer) := tree.declareVariable scope name type
    (tree, (answer.mapError .refused).map .variable)
  | .declareFunction scope function =>
    let (tree, answer) :=
      tree.declareFunction scope function.name function.parameters function.result
    (tree, (answer.mapError .refused).map .function)
  | .newLabel =>
    let (tree, label) := tree.newLabel
    (tree, .ok (.label label))

/-- The trees that operations on existing scopes make of the initial one, with all that was asked and
answered on the way. -/
inductive Reached : List Event → ScopeTree → Prop
  | initial : Reached [] ScopeTree.initial
  | step {history : List Event} {tree : ScopeTree} (operation : Operation)
      (before : Reached history tree) (within : operation.IsWithin tree.paths.length) :
      Reached (history ++ [⟨operation, (tree.perform operation).2⟩]) (tree.perform operation).1

/-- What an operation comes to: it adds a scope, a variable, a function or a label, or it is refused
and nothing changes. -/
theorem perform_cases (tree : ScopeTree) (operation : Operation) :
    (∃ parent, operation = .newScope parent ∧
      tree.perform operation = ((tree.newScope parent).1, .ok (.scope tree.paths.length))) ∨
    (∃ scope name type grown id, operation = .declareVariable scope name type ∧
      tree.declareVariable scope name type = (grown, .ok id) ∧
      tree.perform operation = (grown, .ok (.variable id))) ∨
    (∃ scope function grown id, operation = .declareFunction scope function ∧
      tree.declareFunction scope function.name function.parameters function.result =
        (grown, .ok id) ∧
      tree.perform operation = (grown, .ok (.function id))) ∨
    (operation = .newLabel ∧
      tree.perform operation = (tree.newLabel.1, .ok (.label tree.nextLabel))) ∨
    ∃ error, tree.perform operation = (tree, .error (.refused error)) := by
  cases operation with
  | newScope parent => exact .inl ⟨parent, rfl, rfl⟩
  | declareVariable scope name type =>
    rcases made : tree.declareVariable scope name type with ⟨after, error | id⟩ <;>
      simp only [perform, made]
    · obtain rfl := declareVariable_eq_error made
      exact .inr (.inr (.inr (.inr ⟨error, rfl⟩)))
    · exact .inr (.inl ⟨scope, name, type, after, id, rfl, made, rfl⟩)
  | declareFunction scope function =>
    rcases made : tree.declareFunction scope function.name function.parameters function.result with
      ⟨after, error | id⟩ <;> simp only [perform, made]
    · obtain rfl := declareFunction_eq_error made
      exact .inr (.inr (.inr (.inr ⟨error, rfl⟩)))
    · exact .inr (.inr (.inl ⟨scope, function, after, id, rfl, made, rfl⟩))
  | newLabel => exact .inr (.inr (.inr (.inl ⟨rfl, rfl⟩)))

/-- A tree does not run out of labels. -/
theorem perform_not_overflow (tree : ScopeTree) (operation : Operation) :
    Event.isOverflow ⟨operation, (tree.perform operation).2⟩ = false := by
  rcases perform_cases tree operation with ⟨parent, rfl, made⟩ |
    ⟨scope, name, type, grown, id, rfl, -, made⟩ | ⟨scope, function, grown, id, rfl, -, made⟩ |
    ⟨rfl, made⟩ | ⟨error, made⟩ <;> rw [made] <;> rfl

theorem perform_nextLabel_le (tree : ScopeTree) (operation : Operation) :
    tree.nextLabel ≤ (tree.perform operation).1.nextLabel := by
  rcases perform_cases tree operation with ⟨parent, rfl, made⟩ |
    ⟨scope, name, type, grown, id, rfl, declared, made⟩ |
    ⟨scope, function, grown, id, rfl, declared, made⟩ | ⟨rfl, made⟩ | ⟨error, made⟩ <;> rw [made]
  · exact Nat.le_refl _
  · rw [(declareVariable_eq_ok declared).1]
  · rw [(declareFunction_eq_ok declared).1]
    exact Nat.le_succ _
  · exact Nat.le_succ _

theorem perform_extends (tree : ScopeTree) (operation : Operation) :
    tree.Extends (tree.perform operation).1 := by
  rcases perform_cases tree operation with ⟨parent, rfl, made⟩ |
    ⟨scope, name, type, grown, id, rfl, declared, made⟩ |
    ⟨scope, function, grown, id, rfl, declared, made⟩ | ⟨rfl, made⟩ | ⟨error, made⟩ <;> rw [made]
  · exact newScope_extends parent
  · exact declareVariable_extends declared
  · exact declareFunction_extends declared
  · exact ⟨List.prefix_rfl, List.prefix_rfl, List.prefix_rfl⟩
  · exact .refl tree

theorem IsTree.perform (whole : tree.IsTree) {operation : Operation}
    (within : operation.IsWithin tree.paths.length) : (tree.perform operation).1.IsTree := by
  rcases perform_cases tree operation with ⟨parent, rfl, made⟩ |
    ⟨scope, name, type, grown, id, rfl, declared, made⟩ |
    ⟨scope, function, grown, id, rfl, declared, made⟩ | ⟨rfl, made⟩ | ⟨error, made⟩ <;> rw [made]
  · exact whole.newScope within
  · exact whole.declareVariable within declared
  · exact whole.declareFunction declared
  · exact ⟨⟨whole.heads, whole.nested, whole.ends, whole.root⟩, whole.descending, whole.housed,
      whole.address⟩
  · exact whole

theorem Reached.isTree {history : List Event} (reached : Reached history tree) : tree.IsTree := by
  induction reached with
  | initial => exact initial_isTree
  | step operation before within whole => exact whole.perform within

end ScopeTree

end TapeCode
