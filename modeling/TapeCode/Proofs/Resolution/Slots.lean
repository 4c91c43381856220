import TapeCode.Emit.Template
import TapeCode.Program.OfTyped
import TapeCode.Proofs.Resolution.Sound
import TapeCode.Proofs.Ribbon.Heap
import TapeCode.Proofs.Scope.Growth
import TapeCode.Stack.Basic

/-!
# Slots of variables

In a sound scope tree the first slot is the one for return addresses and no variable of a program has
it. The layouts that the compiler makes address the slots that the evaluation uses, and two variables
of one scope never share a slot.
-/
namespace TapeCode

namespace ScopeTree

variable {tree : ScopeTree}

/-- The variables visible from a scope are those declared in it or around it. -/
theorem mem_visibleVariables {scope : ScopeId} {id : VariableId} :
    id ∈ tree.visibleVariables scope ↔ ∃ declared,
      tree.declaredVariables[id]? = some declared ∧ declared.scope ∈ tree.path scope := by
  simp only [visibleVariables, List.mem_flatMap, List.mem_reverse, mem_variablesIn,
    Option.map_eq_some_iff]
  constructor
  · rintro ⟨around, among, declared, found, rfl⟩
    exact ⟨declared, found, among⟩
  · rintro ⟨declared, found, among⟩
    exact ⟨declared.scope, among, declared, found, rfl⟩

/-- A slot is the place of its variable among those visible where it is declared. -/
theorem slot?_eq_some {id : VariableId} {slot : Nat} (has : tree.slot? id = some slot) :
    ∃ declared, tree.declaredVariables[id]? = some declared ∧
      (tree.visibleVariables declared.scope)[slot]? = some id := by
  simp only [slot?, Option.bind_eq_bind, Option.bind_eq_some_iff] at has
  obtain ⟨declared, found, place⟩ := has
  refine ⟨declared, found, ?_⟩
  obtain ⟨inside, here, -⟩ := List.findIdx?_eq_some_iff_getElem.mp place
  rw [List.getElem?_eq_getElem inside, of_decide_eq_true here]

/-- Variables of one scope have slots of their own. -/
theorem slot?_injective {first second : VariableId} {scope : ScopeId} {slot : Nat}
    (firstHere : (tree.declaredVariables[first]?).map (·.scope) = some scope)
    (secondHere : (tree.declaredVariables[second]?).map (·.scope) = some scope)
    (firstSlot : tree.slot? first = some slot) (secondSlot : tree.slot? second = some slot) :
    first = second := by
  obtain ⟨one, foundOne, visibleOne⟩ := slot?_eq_some firstSlot
  obtain ⟨two, foundTwo, visibleTwo⟩ := slot?_eq_some secondSlot
  obtain rfl : one.scope = scope := by simpa [foundOne] using firstHere
  have same : two.scope = one.scope := by simpa [foundTwo] using secondHere
  rw [same, visibleOne] at visibleTwo
  exact Option.some.inj visibleTwo

private theorem length_filterMap {α β : Type} {function : α → Option β} {list : List α}
    (total : ∀ value ∈ list, (function value).isSome = true) :
    (list.filterMap function).length = list.length := by
  induction list with
  | nil => rfl
  | cons first rest ih =>
    obtain ⟨value, has⟩ := Option.isSome_iff_exists.mp (total first List.mem_cons_self)
    rw [List.filterMap_cons_some has, List.length_cons, List.length_cons,
      ih fun other member => total other (List.mem_cons_of_mem _ member)]

/-- The layout of a variable names the types of all slots up to its own. -/
theorem layout?_eq_some {id : VariableId} {types : List ValueType}
    (has : tree.layout? id = some types) :
    ∃ slot, tree.slot? id = some slot ∧ types.length = slot + 1 ∧
      ∀ type ∈ types, ∃ declared ∈ tree.declaredVariables, declared.type = type := by
  simp only [layout?, Option.bind_eq_bind, Option.bind_eq_some_iff, Option.pure_def,
    Option.some.injEq] at has
  obtain ⟨declared, found, slot, place, rfl⟩ := has
  obtain ⟨same, foundSame, visible⟩ := slot?_eq_some place
  obtain rfl : declared = same := Option.some.inj (found.symm.trans foundSame)
  have inside := (List.getElem?_eq_some_iff.mp visible).1
  refine ⟨slot, place, ?_, fun type member => ?_⟩
  · have total : ∀ other ∈ (tree.visibleVariables declared.scope).take (slot + 1),
        ((tree.declaredVariables[other]?).map (·.type)).isSome = true := by
      intro other member
      obtain ⟨there, found, -⟩ := mem_visibleVariables.mp (List.mem_of_mem_take member)
      simp [found]
    rw [length_filterMap total, List.length_take]
    omega
  · obtain ⟨other, -, named⟩ := List.mem_filterMap.mp member
    obtain ⟨declared, found, rfl⟩ := Option.map_eq_some_iff.mp named
    exact ⟨declared, List.mem_of_getElem? found, rfl⟩

/-- The variable seen first from everywhere is the return address. -/
theorem IsRooted.visible_first (rooted : tree.IsRooted)
    (address : ∃ rest,
      tree.declaredVariables = ⟨"<return_address>", .fsm, ScopeTree.root⟩ :: rest)
    {scope : ScopeId} (inside : scope < tree.paths.length) :
    (tree.visibleVariables scope)[0]? = some returnAddress := by
  obtain ⟨outer, ends⟩ := List.getLast?_eq_some_iff.mp (rooted.ends _ (path_mem inside))
  obtain ⟨rest, known⟩ := address
  have first : (tree.variablesIn ScopeTree.root)[0]? = some returnAddress := by
    simp [variablesIn, known, returnAddress]
  rw [visibleVariables, ends, List.reverse_append, List.reverse_singleton, List.singleton_append,
    List.flatMap_cons, List.getElem?_append_left (List.getElem?_eq_some_iff.mp first).1, first]

namespace IsSound

theorem address (sound : tree.IsSound) : ∃ declared,
    tree.declaredVariables[returnAddress]? = some declared ∧ declared.type = .fsm ∧
      declared.scope = ScopeTree.root := by
  obtain ⟨rest, known, -⟩ := sound.numbers
  exact ⟨⟨"<return_address>", .fsm, ScopeTree.root⟩, by rw [known]; rfl, rfl, rfl⟩

/-- All variables fill one cell, and those that are numbers are declared in a scope of the tree. -/
theorem type_of_mem (sound : tree.IsSound) {declared : Variable}
    (member : declared ∈ tree.declaredVariables) :
    declared.type = .fsm ∧ declared.scope = ScopeTree.root ∨
      declared.type = .int ∧ declared.scope < tree.paths.length := by
  obtain ⟨rest, known, numbers⟩ := sound.numbers
  rw [known] at member
  rcases List.mem_cons.mp member with rfl | later
  · exact .inl ⟨rfl, rfl⟩
  · exact .inr (numbers declared later)

theorem rooted (sound : tree.IsSound) : tree.IsRooted :=
  ⟨sound.heads, sound.nested, sound.paths, sound.root⟩

theorem labelled (sound : tree.IsSound) : tree.IsLabelled := ⟨sound.labels, sound.fresh⟩

theorem visible_first (sound : tree.IsSound) {scope : ScopeId} (inside : scope < tree.paths.length) :
    (tree.visibleVariables scope)[0]? = some returnAddress := by
  obtain ⟨rest, known, -⟩ := sound.numbers
  exact sound.rooted.visible_first ⟨rest, known⟩ inside

theorem slot_ne_zero (sound : tree.IsSound) {id : VariableId} {slot : Nat} {declared : Variable}
    (found : tree.declaredVariables[id]? = some declared) (number : declared.type = .int)
    (has : tree.slot? id = some slot) : slot ≠ 0 := by
  rintro rfl
  obtain ⟨same, foundSame, visible⟩ := slot?_eq_some has
  obtain rfl : declared = same := Option.some.inj (found.symm.trans foundSame)
  have inside : declared.scope < tree.paths.length := by
    rcases sound.type_of_mem (List.mem_of_getElem? found) with ⟨other, -⟩ | ⟨-, inside⟩
    · rw [number] at other
      cases other
    · exact inside
  -- The variable in the first slot is the return address, which is no number.
  rw [sound.visible_first inside] at visible
  obtain rfl := Option.some.inj visible
  obtain ⟨address, foundAddress, type, -⟩ := sound.address
  obtain rfl : declared = address := Option.some.inj (found.symm.trans foundAddress)
  rw [number] at type
  cases type

theorem slot_address (sound : tree.IsSound) : tree.slot? returnAddress = some 0 := by
  obtain ⟨address, found, -, inRoot⟩ := sound.address
  have inside : ScopeTree.root < tree.paths.length :=
    (List.getElem?_eq_some_iff.mp sound.root).1
  have first := sound.visible_first inside
  obtain ⟨behind, starts⟩ : ∃ behind, tree.visibleVariables ScopeTree.root =
      returnAddress :: behind := by
    cases visible : tree.visibleVariables ScopeTree.root with
    | nil => simp [visible] at first
    | cons head behind =>
      obtain rfl : head = returnAddress := by simpa [visible] using first
      exact ⟨behind, rfl⟩
  simp [slot?, found, inRoot, starts, List.findIdx?_cons]

end IsSound

end ScopeTree

namespace TypedFunction.IsSound

variable {tree : ScopeTree} {source : TypedFunction}

theorem together (sound : source.IsSound tree) : ∃ scope, ∀ id ∈ source.parameters,
    (tree.declaredVariables[id]?).map (·.scope) = some scope := by
  obtain ⟨-, -, frame, -, -, -, numbers, -⟩ := sound.framed
  refine ⟨frame, fun id member => ?_⟩
  obtain ⟨declared, found, -, rfl⟩ := numbers id member
  simp [found]

theorem body (sound : source.IsSound tree) : ∃ home,
    source.body.IsSound tree home (some source.result) := by
  obtain ⟨-, -, frame, -, -, -, -, body⟩ := sound.framed
  exact ⟨frame, body⟩

end TypedFunction.IsSound

namespace Compile

variable {tree : ScopeTree} {id : VariableId} {layout : List Int}

theorem layout_eq_ok (sound : tree.IsSound) (made : Compile.layout tree id = .ok layout) :
    ∃ slot, tree.slot? id = some slot ∧ StackState.slot? layout = some slot ∧
      (!layout.isEmpty && layout.all Template.fillsCell) = true := by
  unfold Compile.layout at made
  split at made
  next types has =>
    obtain rfl := Except.ok.inj made
    obtain ⟨slot, place, length, known⟩ := ScopeTree.layout?_eq_some has
    obtain ⟨first, rest, rfl⟩ : ∃ first rest, types = first :: rest := by
      cases types with
      | nil => simp at length
      | cons first rest => exact ⟨first, rest, rfl⟩
    refine ⟨slot, place, ?_, ?_⟩
    · simpa [StackState.slot?] using length
    · simp only [List.map_cons, List.isEmpty_cons, Bool.not_false, Bool.true_and, List.all_eq_true]
      intro number member
      rw [← List.map_cons (f := fun type : ValueType => (type.number : Int))] at member
      obtain ⟨type, has, rfl⟩ := List.mem_map.mp member
      obtain ⟨declared, among, rfl⟩ := known type has
      rcases sound.type_of_mem among with ⟨type, -⟩ | ⟨type, -⟩ <;> rw [type] <;> rfl
  next => cases made

theorem numberLayout_eq_ok (sound : tree.IsSound) {context : ValueContext}
    (made : numberLayout tree id context = .ok layout) :
    ∃ slot, tree.slot? id = some slot ∧ slot ≠ 0 ∧ StackState.slot? layout = some slot ∧
      (!layout.isEmpty && layout.all Template.fillsCell) = true := by
  unfold numberLayout at made
  split at made
  next name scope found =>
    obtain ⟨slot, place, addressed, cells⟩ := layout_eq_ok sound made
    exact ⟨slot, place, sound.slot_ne_zero found rfl place, addressed, cells⟩
  next missing =>
    obtain ⟨slot, place, -⟩ := layout_eq_ok sound made
    obtain ⟨declared, found, -⟩ := ScopeTree.slot?_eq_some place
    rw [missing] at found
    cases found
  next => cases made

theorem addressLayout (sound : tree.IsSound)
    (made : Compile.layout tree ScopeTree.returnAddress = .ok layout) :
    StackState.slot? layout = some 0 ∧
      (!layout.isEmpty && layout.all Template.fillsCell) = true := by
  obtain ⟨slot, place, addressed, cells⟩ := layout_eq_ok sound made
  rw [sound.slot_address] at place
  obtain rfl := Option.some.inj place
  exact ⟨addressed, cells⟩

end Compile

end TapeCode
