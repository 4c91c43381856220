import TapeCode.Proofs.Resolution.Slots

/-!
# Sound trees stay sound

What is sound in a scope tree stays so when the tree grows. The three ways in which resolution makes it
grow keep the tree itself sound: a new scope, a number in a scope, and a function whose label is fresh.
-/
namespace TapeCode

namespace ScopeTree

theorem Extends.near {before after : ScopeTree} (grows : Extends before after)
    {home other : ScopeId} (near : before.Near home other) : after.Near home other := by
  obtain ⟨path, member, both⟩ := near
  exact ⟨path, grows.paths.subset member, both⟩

/-- What code in a scope of one tree may name, code in a scope of another tree may name too. -/
structure Carries (before : ScopeTree) (home : ScopeId) (after : ScopeTree) (place : ScopeId) :
    Prop where
  declared : before.declaredVariables <+: after.declaredVariables
  functions : before.functions <+: after.functions
  near : ∀ {other : ScopeId}, before.Near home other → after.Near place other

theorem Extends.carries {before after : ScopeTree} (grows : Extends before after) (home : ScopeId) :
    Carries before home after home :=
  ⟨grows.declared, grows.functions, grows.near⟩

/-- Code in an inner scope counts as code in a scope around it. -/
theorem IsSound.carries {tree : ScopeTree} (sound : tree.IsSound) {inner around : ScopeId}
    (member : around ∈ tree.path inner) : Carries tree inner tree around := by
  refine ⟨List.prefix_rfl, List.prefix_rfl, ?_⟩
  rintro other ⟨path, among, here, there⟩
  obtain ⟨outer, found, ends⟩ := sound.nested path among inner here
  have same : tree.path inner = outer := by simp [ScopeTree.path, found]
  exact ⟨path, among, ends.subset (same ▸ member), there⟩

namespace Carries

variable {before after : ScopeTree} {home place : ScopeId}

theorem isNumber (carries : Carries before home after place) {id : VariableId}
    (number : before.IsNumber home id) : after.IsNumber place id := by
  obtain ⟨declared, found, type, near⟩ := number
  exact ⟨declared, List.IsPrefix.getElem?_eq_some carries.declared found, type, carries.near near⟩

mutual

theorem expression (carries : Carries before home after place) : ∀ {source : TypedExpression},
    source.IsSound before home → source.IsSound after place
  | .number _ _, sound => sound
  | .variable _ _, sound => ⟨carries.isNumber sound.1, sound.2⟩
  | .assign _ _ _, sound =>
    ⟨carries.expression sound.1, sound.2.1, sound.2.2.1, carries.isNumber sound.2.2.2⟩
  | .call function arguments type, sound => by
    obtain ⟨sounds, called, found, other, accepts, same, near⟩ := sound
    exact ⟨carries.expressions sounds, called,
      List.IsPrefix.getElem?_eq_some carries.functions found, other, accepts, same,
      carries.near near⟩

theorem expressions (carries : Carries before home after place) :
    ∀ {sources : List TypedExpression}, TypedExpression.AreSound before home sources →
      TypedExpression.AreSound after place sources
  | [], _ => trivial
  | _ :: _, sounds => ⟨carries.expression sounds.1, carries.expressions sounds.2⟩

end

mutual

theorem statement (carries : Carries before home after place) {result : Option ValueType} :
    ∀ {source : TypedStatement}, source.IsSound before home result →
      source.IsSound after place result
  | .block _, sound => carries.statements sound
  | .declare _ _, sound => ⟨carries.expression sound.1, sound.2.1, carries.isNumber sound.2.2⟩
  | .evaluate _, sound => carries.expression sound
  | .ifThen _ _, sound => ⟨carries.expression sound.1, sound.2.1, carries.statement sound.2.2⟩
  | .ifThenElse _ _ _, sound =>
    ⟨carries.expression sound.1, sound.2.1, carries.statement sound.2.2.1,
      carries.statement sound.2.2.2⟩
  | .whileDo _ _, sound => ⟨carries.expression sound.1, sound.2.1, carries.statement sound.2.2⟩
  | .doWhile _ _, sound => ⟨carries.expression sound.1, sound.2.1, carries.statement sound.2.2⟩
  | .result none, sound => sound
  | .result (some _), sound => ⟨sound.1, carries.expression sound.2.1, sound.2.2⟩

theorem statements (carries : Carries before home after place) {result : Option ValueType} :
    ∀ {sources : List TypedStatement}, TypedStatement.AreSound before home result sources →
      TypedStatement.AreSound after place result sources
  | [], _ => trivial
  | _ :: _, sounds => ⟨carries.statement sounds.1, carries.statements sounds.2⟩

end

end Carries

/-! ## Growing -/

variable {tree grown : ScopeTree}

theorem initial_sound : initial.IsSound where
  functions := ⟨[], rfl, nofun⟩
  labels := by decide
  fresh := by decide
  numbers := ⟨[], rfl, nofun⟩
  paths := initial_isRooted.ends
  heads := initial_isRooted.heads
  nested := initial_isRooted.nested
  root := initial_isRooted.root

theorem IsSound.newScope (sound : tree.IsSound) {parent : ScopeId}
    (inside : parent < tree.paths.length) : (tree.newScope parent).1.IsSound where
  functions := sound.functions
  labels := sound.labels
  fresh := sound.fresh
  numbers := by
    obtain ⟨rest, known, numbers⟩ := sound.numbers
    refine ⟨rest, known, fun declared member => ⟨(numbers declared member).1, ?_⟩⟩
    exact Nat.lt_of_lt_of_le (numbers declared member).2 (newScope_extends parent).paths.length_le
  paths := (sound.rooted.newScope inside).ends
  heads := (sound.rooted.newScope inside).heads
  nested := (sound.rooted.newScope inside).nested
  root := (sound.rooted.newScope inside).root

theorem IsSound.declareVariable (sound : tree.IsSound) {scope : ScopeId} {name : String}
    {id : VariableId} (inside : scope < tree.paths.length)
    (declared : tree.declareVariable scope name .int = (grown, .ok id)) : grown.IsSound := by
  obtain ⟨rfl, -⟩ := declareVariable_eq_ok declared
  refine ⟨sound.functions, sound.labels, sound.fresh, ?_, sound.paths, sound.heads, sound.nested,
    sound.root⟩
  obtain ⟨rest, known, numbers⟩ := sound.numbers
  refine ⟨rest ++ [⟨name, .int, scope⟩], by simp [known], ?_⟩
  intro declared member
  rcases List.mem_append.mp member with old | new
  · exact numbers declared old
  · obtain rfl := List.mem_singleton.mp new
    exact ⟨rfl, inside⟩

theorem IsSound.declareFunction (sound : tree.IsSound) {scope : ScopeId} {name : String}
    {parameters : List ValueType} {result : ValueType} {id : FunctionId}
    (named : name ≠ assignment) (returns : result = .void ∨ result = .int)
    (declared : tree.declareFunction scope name parameters result = (grown, .ok id)) :
    grown.IsSound := by
  have labelled := sound.labelled.declareFunction declared
  obtain ⟨rfl, -⟩ := declareFunction_eq_ok declared
  refine ⟨?_, labelled.labels, labelled.fresh, sound.numbers, sound.paths, sound.heads, sound.nested,
    sound.root⟩
  obtain ⟨users, known, labelled⟩ := sound.functions
  refine ⟨users ++ [tree.declaration scope name parameters result], by simp [known], ?_⟩
  simp only [List.forall_mem_append, List.forall_mem_singleton]
  exact ⟨labelled, named, rfl, returns⟩

end ScopeTree

theorem TypedFunction.IsSound.extends {before after : ScopeTree} (grows : before.Extends after)
    {source : TypedFunction} (function : source.IsSound before) : source.IsSound after := by
  have paths {scope : ScopeId} {path : List ScopeId} (here : before.paths[scope]? = some path) :
      after.paths[scope]? = some path := List.IsPrefix.getElem?_eq_some grows.paths here
  obtain ⟨⟨called, found, same⟩, user, result, distinct, other, around, frame, foundOther, outside,
    here, numbers, body⟩ := function
  refine ⟨⟨called, List.IsPrefix.getElem?_eq_some grows.functions found, same⟩, user, result,
    distinct, other, around, frame, List.IsPrefix.getElem?_eq_some grows.functions foundOther,
    paths outside, paths here, fun id member => ?_, (grows.carries frame).statement body⟩
  obtain ⟨declared, known, same⟩ := numbers id member
  exact ⟨declared, List.IsPrefix.getElem?_eq_some grows.declared known, same⟩

end TapeCode
