import TapeCode.Proofs.Scope.Arena

/-!
# What a history leaves behind

An arena may be given scopes, variables, functions and labels in any order, also in vain. Its variables
occupy the slots of the tree that it represents. Its labels are told from its history: they have been
given away one after another, and the map leads from the label of a function to the entry that was declared
with it. A declaration that fails has done nothing before.
-/
namespace TapeCode

namespace ScopeArena

variable {arena : ScopeArena} {history : List Event} {scope : ScopeId}

/-! ## Operations -/

/-- The arena after a function has been declared. -/
def withFunction (arena : ScopeArena) (scope : ScopeId) (function : FunctionEntry) : ScopeArena :=
  let counted := { arena with nextLabel := arena.nextLabel + 1 }
  let (grown, id) := counted.pushFunction scope { function with label := some arena.nextLabel }
  { grown with labels := grown.labels.insert arena.nextLabel id }

theorem functionsIn_withFunction (within : scope < arena.scopes.length) (function : FunctionEntry)
    (other : ScopeId) : (arena.withFunction scope function).functionsIn other =
      arena.functionsIn other ++ if scope = other then [arena.functions.length] else [] :=
  @functionsIn_pushFunction { arena with nextLabel := arena.nextLabel + 1 } scope within _ other

/-- What an operation comes to: it adds a scope, a variable, a function or a label, or it fails and the
arena that it leaves behind is the one that it found. -/
theorem perform_cases (arena : ScopeArena) (operation : Operation) :
    (∃ parent, operation = .newScope parent ∧
      arena.perform operation = ((arena.newScope parent).1, .ok (.scope arena.scopes.length))) ∨
    (∃ scope name type, operation = .declareVariable scope name type ∧
      arena.perform operation = ((arena.pushVariable ⟨name, type, scope⟩).1,
        .ok (.variable arena.declaredVariables.length))) ∨
    (∃ scope function, operation = .declareFunction scope function ∧
      arena.perform operation = (arena.withFunction scope function,
        .ok (.function arena.functions.length))) ∨
    (operation = .newLabel ∧
      arena.perform operation = ({ arena with nextLabel := arena.nextLabel + 1 },
        .ok (.label arena.nextLabel))) ∨
    ∃ failure, arena.perform operation = (arena, .error failure) := by
  cases operation with
  | newScope parent => exact .inl ⟨parent, rfl, rfl⟩
  | declareVariable scope name type =>
    simp only [perform, declareVariable]
    split
    · exact .inr (.inr (.inr (.inr ⟨_, rfl⟩)))
    · exact .inr (.inl ⟨scope, name, type, rfl, rfl⟩)
  | declareFunction scope function =>
    simp only [perform, declareFunction]
    split
    · exact .inr (.inr (.inr (.inr ⟨_, rfl⟩)))
    · by_cases fits : fitsArgument (arena.nextLabel + 1) = true
      · rw [newLabel_of_fits fits]
        exact .inr (.inr (.inl ⟨scope, function, rfl, rfl⟩))
      · rw [newLabel_of_full fits]
        exact .inr (.inr (.inr (.inr ⟨_, rfl⟩)))
  | newLabel =>
    by_cases fits : fitsArgument (arena.nextLabel + 1) = true
    · have given := newLabel_of_fits fits
      exact .inr (.inr (.inr (.inl ⟨rfl, by rw [perform, given]; rfl⟩)))
    · have refused := newLabel_of_full fits
      exact .inr (.inr (.inr (.inr ⟨_, by rw [perform, refused]; rfl⟩)))

/-- An operation that fails leaves the arena as it is. -/
theorem perform_failed {operation : Operation} {failure : ScopeFailure}
    (failed : (arena.perform operation).2 = .error failure) : (arena.perform operation).1 = arena := by
  rcases perform_cases arena operation with ⟨parent, rfl, made⟩ | ⟨scope, name, type, rfl, made⟩ |
    ⟨scope, function, rfl, made⟩ | ⟨rfl, made⟩ | ⟨other, made⟩ <;>
    rw [made] at failed ⊢ <;> cases failed

/-! ## Slots -/

/-- The variables visible from a scope, each in the slot in which it stands there, with the types of
the slots up to its own as its layout. -/
structure AddressesSlots (arena : ScopeArena) (scope : ScopeId) : Prop where
  distinct : (arena.visibleVariables scope).Nodup
  first : (arena.visibleVariables scope).head? = some arena.returnAddress
  slots : ∀ (index : Nat) (id : VariableId), (arena.visibleVariables scope)[index]? = some id →
    arena.slot? id = some index
  apart : ∀ first ∈ arena.visibleVariables scope, ∀ second ∈ arena.visibleVariables scope,
    arena.slot? first = arena.slot? second → first = second
  layouts : ∀ (index : Nat) (id : VariableId), (arena.visibleVariables scope)[index]? = some id →
    ∃ types, arena.layout? id = some types ∧
      types.map some = ((arena.visibleVariables scope).take (index + 1)).map fun other =>
        (arena.declaredVariables[other]?).map (·.type)

theorem Represents.addressesSlots {tree : ScopeTree} (represents : arena.Represents tree)
    (whole : tree.IsTree) (within : scope < arena.scopes.length) : arena.AddressesSlots scope := by
  have inside : scope < tree.paths.length := represents.scopes ▸ within
  have visible := represents.visibleVariables_eq within
  have slots (index : Nat) (id : VariableId)
      (here : (arena.visibleVariables scope)[index]? = some id) : arena.slot? id = some index :=
    (represents.slot?_eq id).trans (whole.slot?_eq inside (visible ▸ here))
  refine ⟨visible ▸ whole.visibleVariables_nodup inside, ?_, slots, ?_, ?_⟩
  · rw [visible, represents.returnAddress, List.head?_eq_getElem?]
    exact whole.visible_first whole.address inside
  · intro first firstVisible second secondVisible same
    obtain ⟨place, firstAt⟩ := List.getElem?_of_mem firstVisible
    obtain ⟨other, secondAt⟩ := List.getElem?_of_mem secondVisible
    rw [slots place first firstAt, slots other second secondAt] at same
    obtain rfl := Option.some.inj same
    exact Option.some.inj (firstAt.symm.trans secondAt)
  · intro index id here
    rw [represents.layout?_eq, visible, represents.declared]
    exact whole.layout?_eq inside (visible ▸ here)

/-! ## Labels -/

/-- The label that an event gave away, if it did. -/
def Event.label? (arena : ScopeArena) (event : Event) : Option Int :=
  match event.answer with
  | .ok (.label label) => some label
  | .ok (.function id) => (arena.functions[id]?).bind (·.label)
  | _ => none

/-- The labels given away, in this order. -/
def labelsGiven (arena : ScopeArena) (history : List Event) : List Int :=
  history.filterMap (Event.label? arena)

/-- The declaration of a function that got the number `id`. -/
def Event.declaration (scope : ScopeId) (function : FunctionEntry) (id : FunctionId) : Event :=
  ⟨.declareFunction scope function, .ok (.function id)⟩

/-- What an arena says about its labels, given the history that made it: the numbers below the next label
have been given away, in order, and so none of them twice; a declared function is kept as it was given,
with a label, and the function with a label is the one declared with it. -/
structure KeepsLabels (arena : ScopeArena) (history : List Event) : Prop where
  fits : fitsArgument arena.nextLabel = true
  given : ∃ count : Nat, arena.nextLabel = count ∧
    arena.labelsGiven history = (List.range count).map fun label : Nat => (label : Int)
  distinct : (arena.labelsGiven history).Nodup
  declared : ∀ (scope : ScopeId) (function : FunctionEntry) (id : FunctionId),
    Event.declaration scope function id ∈ history → id ∈ arena.functionsIn scope ∧
      ∃ label, arena.functions[id]? = some { function with label := some label }
  labelled : ∀ (label : Int) (function : FunctionEntry),
    arena.functionWithLabel? label = some function ↔ ∃ scope given id,
      Event.declaration scope given id ∈ history ∧
        function = { given with label := some label } ∧ arena.functions[id]? = some function

/-- The map leads from the label of each function to its number, and the next label is free. -/
structure IsIndexed (arena : ScopeArena) : Prop where
  fresh : ∀ function ∈ arena.functions, ∀ label, function.label = some label →
    label < arena.nextLabel
  indexed : ∀ (label : Int) (id : FunctionId), arena.labels.get? label = some id ↔
    ∃ function, arena.functions[id]? = some function ∧ function.label = some label

namespace IsIndexed

theorem generate : ScopeArena.generate.IsIndexed where
  fresh := by decide
  indexed := by
    have unlabelled : ∀ function ∈ ScopeArena.generate.functions, function.label = none := by decide
    intro label id
    refine ⟨nofun, fun ⟨function, found, labelled⟩ => ?_⟩
    rw [unlabelled function (List.mem_of_getElem? found)] at labelled
    cases labelled

theorem newLabel (indexed : arena.IsIndexed) :
    { arena with nextLabel := arena.nextLabel + 1 }.IsIndexed where
  fresh := fun function member label labelled =>
    Int.lt_trans (indexed.fresh function member label labelled) (Int.lt_succ _)
  indexed := indexed.indexed

theorem withFunction (indexed : arena.IsIndexed) (scope : ScopeId) (function : FunctionEntry) :
    (arena.withFunction scope function).IsIndexed where
  fresh := by
    intro other member label labelled
    rcases List.mem_append.mp member with old | new
    · exact Int.lt_trans (indexed.fresh other old label labelled) (Int.lt_succ _)
    · obtain rfl := List.mem_singleton.mp new
      obtain rfl := Option.some.inj labelled
      exact Int.lt_succ _
  indexed := by
    intro label id
    show (arena.labels.insert arena.nextLabel arena.functions.length).get? label = some id ↔
      ∃ other, (arena.functions ++ [{ function with label := some arena.nextLabel }])[id]? =
        some other ∧ other.label = some label
    rw [FunctionTable.get?_insert]
    simp only [List.getElem?_concat_eq_some]
    split
    next new =>
      subst new
      constructor
      · intro same
        obtain rfl := Option.some.inj same
        exact ⟨_, .inr ⟨rfl, rfl⟩, rfl⟩
      · rintro ⟨other, found | ⟨rfl, -⟩, labelled⟩
        · -- The labels of older functions are below the next one.
          exact absurd (indexed.fresh other (List.mem_of_getElem? found) _ labelled) (Int.lt_irrefl _)
        · rfl
    next old =>
      rw [indexed.indexed]
      constructor
      · rintro ⟨other, found, labelled⟩
        exact ⟨other, .inl found, labelled⟩
      · rintro ⟨other, found | ⟨-, rfl⟩, labelled⟩
        · exact ⟨other, found, labelled⟩
        · exact absurd (Option.some.inj labelled).symm old

/-- The function with a label is the one that has the label. -/
theorem functionWithLabel?_eq_some (indexed : arena.IsIndexed) {label : Int}
    {function : FunctionEntry} : arena.functionWithLabel? label = some function ↔
      ∃ id : FunctionId, arena.functions[id]? = some function ∧ function.label = some label := by
  simp only [functionWithLabel?, Option.bind_eq_some_iff, indexed.indexed]
  constructor
  · rintro ⟨id, ⟨other, found, labelled⟩, there⟩
    obtain rfl := Option.some.inj (found.symm.trans there)
    exact ⟨id, found, labelled⟩
  · rintro ⟨id, found, labelled⟩
    exact ⟨id, ⟨function, found, labelled⟩, found⟩

end IsIndexed

/-- What a history leaves behind in its arena. -/
structure Records (arena : ScopeArena) (history : List Event) : Prop extends arena.IsIndexed where
  given : ∃ count : Nat, arena.nextLabel = count ∧
    arena.labelsGiven history = (List.range count).map fun label : Nat => (label : Int)
  answered : ∀ event ∈ history, ∀ id, event.answer = .ok (.function id) →
    ∃ scope function label, event = Event.declaration scope function id ∧
      id ∈ arena.functionsIn scope ∧
      arena.functions[id]? = some { function with label := some label }
  recorded : ∀ (id : FunctionId) (function : FunctionEntry) (label : Int),
    arena.functions[id]? = some function → function.label = some label →
      ∃ scope given, Event.declaration scope given id ∈ history ∧
        function = { given with label := some label }

namespace Records

variable {grown : ScopeArena}

theorem generate : ScopeArena.generate.Records [] where
  toIsIndexed := .generate
  given := ⟨0, rfl, rfl⟩
  answered := nofun
  recorded := by
    have unlabelled : ∀ function ∈ ScopeArena.generate.functions, function.label = none := by decide
    intro id function label found labelled
    rw [unlabelled function (List.mem_of_getElem? found)] at labelled
    cases labelled

/-- Old events keep their labels, and a new one takes the next label or none. -/
theorem given_append (records : arena.Records history)
    (grows : arena.functions <+: grown.functions) {event : Event}
    (next : event.label? grown = none ∧ grown.nextLabel = arena.nextLabel ∨
      event.label? grown = some arena.nextLabel ∧ grown.nextLabel = arena.nextLabel + 1) :
    ∃ count : Nat, grown.nextLabel = count ∧
      grown.labelsGiven (history ++ [event]) = (List.range count).map fun label : Nat => (label : Int) := by
  obtain ⟨count, counted, given⟩ := records.given
  -- The functions that old events answered are still there, with their labels.
  have before : history.filterMap (Event.label? grown) = arena.labelsGiven history := by
    refine List.filterMap_congr fun old member => ?_
    rcases old with ⟨operation, _ | answer⟩
    · rfl
    cases answer with
    | function id =>
      obtain ⟨scope, function, label, -, -, found⟩ := records.answered _ member id rfl
      simp [Event.label?, found, List.IsPrefix.getElem?_eq_some grows found]
    | _ => rfl
  rw [labelsGiven, List.filterMap_append, before, given]
  rcases next with ⟨silent, same⟩ | ⟨labelled, further⟩
  · exact ⟨count, same.trans counted, by simp [silent]⟩
  · refine ⟨count + 1, by rw [further, counted]; rfl, ?_⟩
    simp [labelled, counted, List.range_succ]

/-- An event that declares no function. -/
theorem other (records : arena.Records history) {event : Event}
    (functions : grown.functions = arena.functions)
    (functionsIn : ∀ scope, grown.functionsIn scope = arena.functionsIn scope)
    (indexed : grown.IsIndexed) (silent : ∀ id, event.answer ≠ .ok (.function id))
    (next : event.label? grown = none ∧ grown.nextLabel = arena.nextLabel ∨
      event.label? grown = some arena.nextLabel ∧ grown.nextLabel = arena.nextLabel + 1) :
    grown.Records (history ++ [event]) where
  toIsIndexed := indexed
  given := records.given_append (functions ▸ List.prefix_rfl) next
  answered := by
    intro either member id answer
    rw [functions]
    rcases List.mem_append.mp member with old | new
    · simpa only [functionsIn] using records.answered either old id answer
    · obtain rfl := List.mem_singleton.mp new
      exact absurd answer (silent id)
  recorded := by
    intro id function label found labelled
    rw [functions] at found
    obtain ⟨scope, given, member, same⟩ := records.recorded id function label found labelled
    exact ⟨scope, given, List.mem_append_left _ member, same⟩

theorem withFunction (records : arena.Records history) (within : scope < arena.scopes.length)
    (function : FunctionEntry) : (arena.withFunction scope function).Records
      (history ++ [Event.declaration scope function arena.functions.length]) := by
  have new : (arena.withFunction scope function).functions[arena.functions.length]? =
      some { function with label := some arena.nextLabel } :=
    List.getElem?_concat_eq_some.mpr (.inr ⟨rfl, rfl⟩)
  have grows : arena.functions <+: (arena.withFunction scope function).functions :=
    List.prefix_append _ _
  refine ⟨records.toIsIndexed.withFunction scope function,
    records.given_append grows (.inr ⟨by simp [Event.label?, Event.declaration, new], rfl⟩), ?_, ?_⟩
  · intro event member id answer
    simp only [functionsIn_withFunction within]
    rcases List.mem_append.mp member with old | last
    · obtain ⟨home, given, label, same, listed, found⟩ := records.answered event old id answer
      exact ⟨home, given, label, same, List.mem_append_left _ listed,
        List.IsPrefix.getElem?_eq_some grows found⟩
    · obtain rfl := List.mem_singleton.mp last
      obtain rfl := Answer.function.inj (Except.ok.inj answer)
      exact ⟨scope, function, arena.nextLabel, rfl, by simp, new⟩
  · intro id other label found labelled
    rcases List.getElem?_concat_eq_some.mp found with old | ⟨rfl, rfl⟩
    · obtain ⟨home, given, member, same⟩ := records.recorded id other label old labelled
      exact ⟨home, given, List.mem_append_left _ member, same⟩
    · obtain rfl := Option.some.inj labelled
      exact ⟨scope, function, List.mem_append_right _ (List.mem_singleton_self _), rfl⟩

theorem perform (records : arena.Records history) {operation : Operation}
    (within : operation.IsWithin arena.scopes.length) :
    (arena.perform operation).1.Records
      (history ++ [⟨operation, (arena.perform operation).2⟩]) := by
  have indexed := records.toIsIndexed
  rcases perform_cases arena operation with ⟨parent, rfl, made⟩ | ⟨scope, name, type, rfl, made⟩ |
    ⟨scope, function, rfl, made⟩ | ⟨rfl, made⟩ | ⟨failure, made⟩ <;> rw [made]
  · exact records.other rfl (functionsIn_newScope parent) ⟨indexed.fresh, indexed.indexed⟩ nofun
      (.inl ⟨rfl, rfl⟩)
  · exact records.other rfl (functionsIn_pushVariable _) ⟨indexed.fresh, indexed.indexed⟩ nofun
      (.inl ⟨rfl, rfl⟩)
  · exact records.withFunction within function
  · exact records.other rfl (fun _ => rfl) indexed.newLabel nofun (.inr ⟨rfl, rfl⟩)
  · exact records.other rfl (fun _ => rfl) indexed nofun (.inl ⟨rfl, rfl⟩)

theorem keepsLabels (records : arena.Records history) (fits : fitsArgument arena.nextLabel = true) :
    arena.KeepsLabels history where
  fits := fits
  given := records.given
  distinct := by
    obtain ⟨count, -, given⟩ := records.given
    rw [given]
    exact List.nodup_range.map fun first second same => Int.ofNat.inj same
  declared := by
    intro scope function id member
    obtain ⟨home, given, label, same, listed, found⟩ := records.answered _ member id rfl
    obtain ⟨rfl, rfl⟩ := Operation.declareFunction.inj (congrArg Event.operation same)
    exact ⟨listed, label, found⟩
  labelled := by
    intro label function
    rw [records.functionWithLabel?_eq_some]
    constructor
    · rintro ⟨id, found, labelled⟩
      obtain ⟨scope, given, member, same⟩ := records.recorded id function label found labelled
      exact ⟨scope, given, id, member, same, found⟩
    · rintro ⟨scope, given, id, -, rfl, found⟩
      exact ⟨id, found, rfl⟩

end Records

/-! ## All histories -/

def Event.isFailure (event : Event) : Bool :=
  match event.answer with
  | .ok _ => false
  | .error _ => true

namespace Reached

theorem records (reached : Reached history arena) : arena.Records history := by
  induction reached with
  | generate => exact .generate
  | step operation before within records => exact records.perform within

/-- Without its failures a history leads to the same arena. -/
theorem accepted (reached : Reached history arena) :
    Reached (history.filter fun event => !event.isFailure) arena := by
  induction reached with
  | generate => exact .generate
  | @step history arena operation before within ih =>
    rw [List.filter_append]
    cases answer : (arena.perform operation).2 with
    | error failure =>
      rw [perform_failed answer]
      simpa [Event.isFailure] using ih
    | ok given =>
      have more := ih.step operation within
      rw [answer] at more
      simpa [Event.isFailure] using more

end Reached

/-- **Whatever has been declared, slots and labels are in order.** In every arena made by operations on
existing scopes, each scope sees its variables in their slots, the labels given away are distinct and
lead to the functions declared with them, and operations that failed have left no trace. -/
theorem Reached.inOrder (reached : Reached history arena) :
    (∀ scope < arena.scopes.length, arena.AddressesSlots scope) ∧ arena.KeepsLabels history ∧
      (∀ operation failure, (arena.perform operation).2 = .error failure →
        (arena.perform operation).1 = arena) ∧
      Reached (history.filter fun event => !event.isFailure) arena := by
  obtain ⟨tree, made, represents⟩ := reached.represents
  exact ⟨fun _ within => represents.addressesSlots made.isTree within,
    reached.records.keepsLabels represents.room, fun _ _ => perform_failed, reached.accepted⟩

/-- Two scopes, one within the other, that are given variables and functions in turn. The outer one gets
its second variable when the inner one has a variable already, which moves that to the next slot; a
variable and a function are declared in vain. -/
theorem Reached.inOrder_interleaved : ∃ history arena, Reached history arena ∧
    arena.visibleVariables 2 = [0, 1, 3, 2] ∧ arena.slot? 2 = some 3 ∧
    arena.layout? 3 = some [.fsm, .int, .int] ∧
    (history.filter (·.isFailure)).map (·.answer) =
      [.error (.refused (.duplicateVariable "a")), .error (.refused (.duplicateFunction "f"))] ∧
    arena.labelsGiven history = [0, 1, 2] ∧
    (arena.functionWithLabel? 2).map (·.parameters) = some [.int] ∧
    arena.AddressesSlots 2 ∧ arena.KeepsLabels history ∧
    (arena.perform (.declareFunction 2 (.user "f" [.int] .void))).1 = arena := by
  have reached := Reached.generate
    |>.step (.newScope ScopeTree.root) (by decide)
    |>.step (.declareVariable 1 "a" .int) (by decide)
    |>.step (.newScope 1) (by decide)
    |>.step (.declareVariable 2 "b" .int) (by decide)
    |>.step (.declareVariable 1 "c" .int) (by decide)
    |>.step (.declareVariable 2 "a" .int) (by decide)
    |>.step (.declareFunction 1 (.user "f" [.int] .int)) (by decide)
    |>.step .newLabel (by decide)
    |>.step (.declareFunction 1 (.user "f" [.int] .void)) (by decide)
    |>.step (.declareFunction 2 (.user "f" [.int] .int)) (by decide)
  have ⟨slots, labels, failures, _⟩ := Reached.inOrder reached
  exact ⟨_, _, reached, by decide, by decide, by decide, by decide, by decide, by decide,
    slots 2 (by decide), labels, failures _ (.refused (.duplicateFunction "f")) (by decide)⟩

end ScopeArena

end TapeCode
