import Mathlib.Data.List.Forall2
import TapeCode.Proofs.Scope.Operations

/-!
# Arenas and trees

An arena of scopes represents a scope tree if it stores the tree's scopes, variables and functions: the
list of each scope is what a search of the tree finds for it. A new arena represents the initial tree, and
every operation keeps this up and answers the same on both sides, unless the arena has no label left; and
whatever is asked of the two, they tell the same.
-/
namespace TapeCode

private theorem forall₂_getElem? {α β : Type} {relation : α → β → Prop} {first : List α}
    {second : List β} (related : List.Forall₂ relation first second) (index : Nat) :
    Option.Rel relation first[index]? second[index]? := by
  induction related generalizing index with
  | nil => exact .none
  | cons here _ ih =>
    cases index with
    | zero => exact .some here
    | succ index => exact ih index

namespace ScopeArena

variable {arena : ScopeArena} {tree : ScopeTree}

/-! ## A growing arena -/

theorem newLabel_of_fits (fits : fitsArgument (arena.nextLabel + 1) = true) :
    arena.newLabel = ({ arena with nextLabel := arena.nextLabel + 1 }, .ok arena.nextLabel) :=
  if_pos fits

theorem newLabel_of_full (full : ¬fitsArgument (arena.nextLabel + 1) = true) :
    arena.newLabel = (arena, .error (.overflow .addition)) :=
  if_neg full

theorem scopes_pushVariable (declared : Variable) (scope : ScopeId) :
    (arena.pushVariable declared).1.scopes[scope]? = (arena.scopes[scope]?).map fun entry =>
      if declared.scope = scope then
        { entry with variableIds := entry.variableIds ++ [arena.declaredVariables.length] }
      else entry := by
  simp only [pushVariable, List.getElem?_modify]
  by_cases here : declared.scope = scope <;> simp [here]

theorem scopes_pushFunction (home : ScopeId) (function : FunctionEntry) (scope : ScopeId) :
    (arena.pushFunction home function).1.scopes[scope]? = (arena.scopes[scope]?).map fun entry =>
      if home = scope then
        { entry with functionIds := entry.functionIds ++ [arena.functions.length] }
      else entry := by
  simp only [pushFunction, List.getElem?_modify]
  by_cases here : home = scope <;> simp [here]

theorem length_newScope (parent : ScopeId) :
    (arena.newScope parent).1.scopes.length = arena.scopes.length + 1 := by
  simp [newScope]

theorem scopes_newScope (parent scope : ScopeId) :
    (arena.newScope parent).1.scopes[scope]? =
      if scope = arena.scopes.length then some ⟨some parent, [], []⟩ else arena.scopes[scope]? := by
  simp only [newScope, List.getElem?_append]
  rcases Nat.lt_trichotomy scope arena.scopes.length with old | rfl | beyond
  · simp [old, Nat.ne_of_lt old]
  · simp
  · simp [Nat.lt_asymm beyond, Nat.ne_of_gt beyond, Nat.sub_ne_zero_of_lt beyond]

theorem parent?_pushVariable (declared : Variable) (scope : ScopeId) :
    (arena.pushVariable declared).1.parent? scope = arena.parent? scope := by
  rw [parent?, parent?, scopes_pushVariable]
  cases arena.scopes[scope]? with
  | none => rfl
  | some entry => by_cases here : declared.scope = scope <;> simp [here]

theorem variablesIn_pushVariable {declared : Variable}
    (inside : declared.scope < arena.scopes.length) (scope : ScopeId) :
    (arena.pushVariable declared).1.variablesIn scope = arena.variablesIn scope ++
      if declared.scope = scope then [arena.declaredVariables.length] else [] := by
  rw [variablesIn, variablesIn, scopes_pushVariable]
  by_cases here : declared.scope = scope
  · subst here
    simp [List.getElem?_eq_getElem inside]
  · simp [here]

theorem functionsIn_pushVariable (declared : Variable) (scope : ScopeId) :
    (arena.pushVariable declared).1.functionsIn scope = arena.functionsIn scope := by
  rw [functionsIn, functionsIn, scopes_pushVariable]
  cases arena.scopes[scope]? <;> simp [apply_ite]

theorem parent?_pushFunction (home : ScopeId) (function : FunctionEntry) (scope : ScopeId) :
    (arena.pushFunction home function).1.parent? scope = arena.parent? scope := by
  rw [parent?, parent?, scopes_pushFunction]
  cases arena.scopes[scope]? with
  | none => rfl
  | some entry => by_cases here : home = scope <;> simp [here]

theorem variablesIn_pushFunction (home : ScopeId) (function : FunctionEntry) (scope : ScopeId) :
    (arena.pushFunction home function).1.variablesIn scope = arena.variablesIn scope := by
  rw [variablesIn, variablesIn, scopes_pushFunction]
  cases arena.scopes[scope]? <;> simp [apply_ite]

theorem functionsIn_pushFunction {home : ScopeId} (inside : home < arena.scopes.length)
    (function : FunctionEntry) (scope : ScopeId) :
    (arena.pushFunction home function).1.functionsIn scope = arena.functionsIn scope ++
      if home = scope then [arena.functions.length] else [] := by
  rw [functionsIn, functionsIn, scopes_pushFunction]
  by_cases here : home = scope
  · subst here
    simp [List.getElem?_eq_getElem inside]
  · simp [here]

theorem parent?_newScope (parent scope : ScopeId) :
    (arena.newScope parent).1.parent? scope =
      if scope = arena.scopes.length then some parent else arena.parent? scope := by
  rw [parent?, parent?, scopes_newScope]
  split <;> rfl

theorem variablesIn_newScope (parent scope : ScopeId) :
    (arena.newScope parent).1.variablesIn scope = arena.variablesIn scope := by
  rw [variablesIn, variablesIn, scopes_newScope]
  split
  next new => simp [new]
  next => rfl

theorem functionsIn_newScope (parent scope : ScopeId) :
    (arena.newScope parent).1.functionsIn scope = arena.functionsIn scope := by
  rw [functionsIn, functionsIn, scopes_newScope]
  split
  next new => simp [new]
  next => rfl

end ScopeArena

/-! ## The relation -/

/-- An entry stores a function of a tree; the bodies of functions with labels are compiled elsewhere. -/
structure FunctionEntry.Matches (entry : FunctionEntry) (function : Function) : Prop where
  name : entry.name = function.name
  parameters : entry.parameters = function.parameters
  result : entry.result = function.result
  label : entry.label = function.label?.map fun label : Nat => (label : Int)
  body : ∀ instructions, function.body = .inPlace instructions →
    entry.body = instructions ∧ entry.isBuiltin = true

namespace ScopeArena

variable {arena : ScopeArena} {tree : ScopeTree}

/-- The arena stores the scopes, variables and functions of the tree. The path of a scope is what one
finds by going from parent to parent, and each of them is older than the one before. -/
structure Represents (arena : ScopeArena) (tree : ScopeTree) : Prop where
  scopes : arena.scopes.length = tree.paths.length
  paths : ∀ scope < arena.scopes.length,
    tree.path scope = scope :: ((arena.parent? scope).map tree.path).getD []
  older : ∀ scope parent, arena.parent? scope = some parent → parent < scope
  variablesIn : ∀ scope, arena.variablesIn scope = tree.variablesIn scope
  functionsIn : ∀ scope, arena.functionsIn scope = tree.functionsIn scope
  declared : arena.declaredVariables = tree.declaredVariables
  functions : List.Forall₂ FunctionEntry.Matches arena.functions tree.functions
  nextLabel : arena.nextLabel = tree.nextLabel
  room : fitsArgument arena.nextLabel = true
  returnAddress : arena.returnAddress = ScopeTree.returnAddress

theorem generate_represents : generate.Represents ScopeTree.initial where
  scopes := rfl
  paths := by decide
  older := by
    intro scope parent around
    cases scope <;> cases around
  variablesIn := by rintro (_ | scope) <;> rfl
  functionsIn := by rintro (_ | scope) <;> rfl
  declared := rfl
  functions := by
    have unlabelled : ∀ function ∈ Function.builtins, function.label? = none := by decide
    show List.Forall₂ FunctionEntry.Matches FunctionEntry.builtins Function.builtins
    refine List.forall₂_map_left_iff.mpr (List.forall₂_same.mpr fun function member => ?_)
    refine ⟨rfl, rfl, rfl, by simp [unlabelled function member, FunctionEntry.builtin], ?_⟩
    intro instructions body
    exact ⟨by simp [FunctionEntry.builtin, body], rfl⟩
  nextLabel := rfl
  room := rfl
  returnAddress := rfl

/-- An outcome in an arena and one in a tree: they are the same if the next label of the tree fits 32 bits;
if it does not, the arena is left as it was for want of a label. -/
structure Agrees {α : Type} (arena : ScopeArena) (outcome : ScopeArena × Except ScopeFailure α)
    (other : ScopeTree × Except ScopeFailure α) : Prop where
  fits : fitsArgument other.1.nextLabel = true →
    outcome.1.Represents other.1 ∧ outcome.2 = other.2
  full : fitsArgument other.1.nextLabel = false → outcome = (arena, .error (.overflow .addition))

namespace Agrees

variable {α β : Type} {outcome : ScopeArena × Except ScopeFailure α}
  {other : ScopeTree × Except ScopeFailure α}

theorem of_represents (represents : outcome.1.Represents other.1) (same : outcome.2 = other.2) :
    Agrees arena outcome other where
  fits := fun _ => ⟨represents, same⟩
  full := by
    intro full
    rw [← represents.nextLabel, represents.room] at full
    cases full

theorem map (agrees : Agrees arena outcome other) (wrap : α → β) :
    Agrees arena (outcome.1, outcome.2.map wrap) (other.1, other.2.map wrap) where
  fits := fun fits => ⟨(agrees.fits fits).1, congrArg (Except.map wrap) (agrees.fits fits).2⟩
  full := by
    intro full
    rw [agrees.full full]
    rfl

end Agrees

namespace Represents

/-! ## What is asked -/

section Questions

variable {scope : ScopeId}

theorem ancestorsWithin_eq (represents : arena.Represents tree) :
    ∀ (bound : Nat) (scope : ScopeId), scope < bound → scope < arena.scopes.length →
      arena.ancestorsWithin bound scope = tree.path scope
  | bound + 1, scope, below, inside => by
    rw [ancestorsWithin, represents.paths scope inside]
    -- The scope around is older, so the bound still suffices for it.
    cases around : arena.parent? scope with
    | none => rfl
    | some parent =>
      have older := represents.older scope parent around
      have within := Nat.lt_of_lt_of_le older (Nat.le_of_lt_succ below)
      exact congrArg _ (represents.ancestorsWithin_eq bound parent within
        (Nat.lt_trans older inside))

theorem ancestors_eq (represents : arena.Represents tree) (inside : scope < arena.scopes.length) :
    arena.ancestors scope = tree.path scope :=
  represents.ancestorsWithin_eq (scope + 1) scope (Nat.lt_succ_self scope) inside

theorem visibleVariables_eq (represents : arena.Represents tree)
    (inside : scope < arena.scopes.length) :
    arena.visibleVariables scope = tree.visibleVariables scope := by
  rw [visibleVariables, ScopeTree.visibleVariables, represents.ancestors_eq inside,
    funext represents.variablesIn]

theorem findVariable?_eq (represents : arena.Represents tree)
    (inside : scope < arena.scopes.length) (name : String) :
    arena.findVariable? scope name = tree.findVariable? scope name := by
  have named (id : VariableId) : arena.variableName? id = tree.variableName? id := by
    rw [variableName?, ScopeTree.variableName?, represents.declared]
  simp only [findVariable?, ScopeTree.findVariable?, represents.ancestors_eq inside,
    represents.variablesIn, named]

/-- The scope of a variable exists, as it lists the variable. -/
theorem housed (represents : arena.Represents tree) {id : VariableId} {declared : Variable}
    (found : tree.declaredVariables[id]? = some declared) :
    declared.scope < arena.scopes.length := by
  have listed : id ∈ arena.variablesIn declared.scope := by
    rw [represents.variablesIn, ScopeTree.mem_variablesIn, found]
    rfl
  by_contra beyond
  simp [ScopeArena.variablesIn, Nat.le_of_not_lt beyond] at listed

theorem slot?_eq (represents : arena.Represents tree) (id : VariableId) :
    arena.slot? id = tree.slot? id := by
  rw [slot?, ScopeTree.slot?, represents.declared]
  cases found : tree.declaredVariables[id]? with
  | none => rfl
  | some declared =>
    simp [represents.visibleVariables_eq (represents.housed found)]

theorem layout?_eq (represents : arena.Represents tree) (id : VariableId) :
    arena.layout? id = tree.layout? id := by
  rw [layout?, ScopeTree.layout?, ScopeTree.slot?, represents.declared]
  cases found : tree.declaredVariables[id]? with
  | none => rfl
  | some declared =>
    simp [represents.visibleVariables_eq (represents.housed found)]

/-- What is checked of a stored function may be checked of the function itself. -/
theorem any_function (represents : arena.Represents tree) (ofEntry : FunctionEntry → Bool)
    (ofFunction : Function → Bool)
    (alike : ∀ {entry function}, entry.Matches function → ofEntry entry = ofFunction function)
    (id : FunctionId) : arena.functions[id]?.any ofEntry = tree.functions[id]?.any ofFunction := by
  have related := forall₂_getElem? represents.functions id
  generalize arena.functions[id]? = stored, tree.functions[id]? = known at related ⊢
  cases related with
  | none => rfl
  | some matching => exact alike matching

theorem findFunction?_eq (represents : arena.Represents tree)
    (inside : scope < arena.scopes.length) (name : String) (arguments : List ValueType) :
    arena.findFunction? scope name arguments = tree.findFunction? scope name arguments := by
  have suits := represents.any_function
    (fun function => function.name = name && function.accepts arguments)
    (fun function => function.name = name && function.accepts arguments)
    fun matching => by
      simp [FunctionEntry.accepts, Function.accepts, matching.name, matching.parameters]
  simp only [findFunction?, ScopeTree.findFunction?, represents.ancestors_eq inside,
    represents.functionsIn, suits]

/-- A scope has a function of that name and with these parameters. -/
theorem clashes_eq (represents : arena.Represents tree) (name : String)
    (parameters : List ValueType) :
    ((arena.functionsIn scope).any fun id => arena.functions[id]?.any fun other =>
      other.name = name && other.parameters = parameters) =
    tree.functions.any fun other =>
      other.scope = scope && other.name = name && other.parameters = parameters := by
  have alike := represents.any_function
    (fun other => other.name = name && other.parameters = parameters)
    (fun other => other.name = name && other.parameters = parameters)
    fun matching => by rw [matching.name, matching.parameters]
  simp only [represents.functionsIn, alike]
  rw [Bool.eq_iff_iff]
  simp only [List.any_eq_true, Option.any_eq_true, ScopeTree.mem_functionsIn, Bool.and_eq_true,
    decide_eq_true_eq, and_assoc, Option.map_eq_some_iff]
  constructor
  · rintro ⟨id, ⟨other, found, home⟩, same, there, named⟩
    obtain rfl := Option.some.inj (found.symm.trans there)
    exact ⟨other, List.mem_of_getElem? found, home, named⟩
  · rintro ⟨other, member, home, named⟩
    obtain ⟨id, found⟩ := List.getElem?_of_mem member
    exact ⟨id, ⟨other, found, home⟩, other, found, named⟩

end Questions

/-! ## What is done -/

section Steps

variable {scope : ScopeId}

theorem newScope (represents : arena.Represents tree) {parent : ScopeId}
    (inside : parent < arena.scopes.length) :
    (arena.newScope parent).1.Represents (tree.newScope parent).1 where
  scopes := by simp [length_newScope, ScopeTree.newScope, represents.scopes]
  paths := by
    intro scope within
    have still {old : ScopeId} (known : old < arena.scopes.length) :
        (tree.newScope parent).1.path old = tree.path old :=
      (ScopeTree.newScope_extends parent).path_eq (represents.scopes ▸ known)
    rw [parent?_newScope]
    split
    next new =>
      rw [new, represents.scopes, ScopeTree.path_newScope, Option.map_some, Option.getD_some,
        still inside]
    next other =>
      have old : scope < arena.scopes.length := by
        rw [length_newScope] at within
        exact Nat.lt_of_le_of_ne (Nat.le_of_lt_succ within) other
      rw [still old, represents.paths scope old]
      -- The scope around an old one is old too, so its path is the same.
      cases around : arena.parent? scope with
      | none => rfl
      | some outer =>
        rw [Option.map_some, Option.map_some,
          still (Nat.lt_trans (represents.older scope outer around) old)]
  older := by
    intro scope outer around
    rw [parent?_newScope] at around
    split at around
    next new =>
      obtain rfl := Option.some.inj around
      exact new ▸ inside
    next => exact represents.older scope outer around
  variablesIn := fun scope => (variablesIn_newScope parent scope).trans (represents.variablesIn scope)
  functionsIn := fun scope => (functionsIn_newScope parent scope).trans (represents.functionsIn scope)
  declared := represents.declared
  functions := represents.functions
  nextLabel := represents.nextLabel
  room := represents.room
  returnAddress := represents.returnAddress

theorem pushVariable (represents : arena.Represents tree) {declared : Variable}
    (inside : declared.scope < arena.scopes.length) :
    (arena.pushVariable declared).1.Represents
      { tree with declaredVariables := tree.declaredVariables ++ [declared] } where
  scopes := by simp [ScopeArena.pushVariable, represents.scopes]
  paths := by
    intro scope within
    rw [parent?_pushVariable]
    exact represents.paths scope (by simpa [ScopeArena.pushVariable] using within)
  older := by simpa only [parent?_pushVariable] using represents.older
  variablesIn := by
    intro scope
    rw [variablesIn_pushVariable inside, tree.variablesIn_concat, represents.variablesIn,
      represents.declared]
  functionsIn := by
    intro scope
    rw [functionsIn_pushVariable]
    exact represents.functionsIn scope
  declared := congrArg (· ++ [declared]) represents.declared
  functions := represents.functions
  nextLabel := represents.nextLabel
  room := represents.room
  returnAddress := represents.returnAddress

theorem declareVariable (represents : arena.Represents tree)
    (inside : scope < arena.scopes.length) (name : String) (type : ValueType) :
    (arena.declareVariable scope name type).1.Represents
        (tree.declareVariable scope name type).1 ∧
      (arena.declareVariable scope name type).2 =
        (tree.declareVariable scope name type).2.mapError .refused := by
  simp only [ScopeArena.declareVariable, ScopeTree.declareVariable,
    represents.findVariable?_eq inside]
  split
  · exact ⟨represents, rfl⟩
  · exact ⟨represents.pushVariable inside,
      congrArg (fun known => Except.ok (List.length known)) represents.declared⟩

theorem newLabel (represents : arena.Represents tree) :
    Agrees arena arena.newLabel (tree.newLabel.1, .ok (tree.newLabel.2 : Int)) := by
  have next : arena.nextLabel + 1 = (tree.newLabel.1.nextLabel : Int) := by
    rw [represents.nextLabel]
    rfl
  constructor
  · intro fits
    rw [newLabel_of_fits (next ▸ fits)]
    exact ⟨⟨represents.scopes, represents.paths, represents.older, represents.variablesIn,
      represents.functionsIn, represents.declared, represents.functions, next, next ▸ fits,
      represents.returnAddress⟩, congrArg Except.ok represents.nextLabel⟩
  · intro full
    exact newLabel_of_full (by rw [next, full]; exact Bool.false_ne_true)

theorem pushFunction (represents : arena.Represents tree) (inside : scope < arena.scopes.length)
    {entry : FunctionEntry} {function : Function} (matching : entry.Matches function)
    (home : function.scope = scope) :
    (arena.pushFunction scope entry).1.Represents
      { tree with functions := tree.functions ++ [function] } where
  scopes := by simp [ScopeArena.pushFunction, represents.scopes]
  paths := by
    intro scope within
    rw [parent?_pushFunction]
    exact represents.paths scope (by simpa [ScopeArena.pushFunction] using within)
  older := by simpa only [parent?_pushFunction] using represents.older
  variablesIn := by
    intro scope
    rw [variablesIn_pushFunction]
    exact represents.variablesIn scope
  functionsIn := by
    intro scope
    rw [functionsIn_pushFunction inside, tree.functionsIn_concat, represents.functionsIn,
      represents.functions.length_eq, home]
  declared := represents.declared
  functions := List.rel_append represents.functions (.cons matching .nil)
  nextLabel := represents.nextLabel
  room := represents.room
  returnAddress := represents.returnAddress

theorem declareFunction (represents : arena.Represents tree)
    (inside : scope < arena.scopes.length) (function : FunctionEntry) :
    Agrees arena (arena.declareFunction scope function)
      ((tree.declareFunction scope function.name function.parameters function.result).1,
        (tree.declareFunction scope function.name function.parameters function.result).2.mapError
          .refused) := by
  simp only [ScopeArena.declareFunction, ScopeTree.declareFunction, represents.clashes_eq]
  split
  · exact .of_represents represents rfl
  · have labelled := represents.newLabel
    constructor
    · -- The function is pushed into the arena that has given the label away.
      intro fits
      obtain ⟨next, given⟩ := labelled.fits fits
      generalize arena.newLabel = outcome at next given
      obtain ⟨labelledArena, answer⟩ := outcome
      obtain rfl : answer = .ok (tree.nextLabel : Int) := given
      have still : scope < labelledArena.scopes.length :=
        Nat.lt_of_lt_of_eq inside (represents.scopes.trans next.scopes.symm)
      have matching : FunctionEntry.Matches { function with label := some (tree.nextLabel : Int) }
          (tree.declaration scope function.name function.parameters function.result) :=
        ⟨rfl, rfl, rfl, rfl, nofun⟩
      have pushed := next.pushFunction still matching rfl
      exact ⟨⟨pushed.scopes, pushed.paths, pushed.older, pushed.variablesIn, pushed.functionsIn,
        pushed.declared, pushed.functions, pushed.nextLabel, pushed.room, pushed.returnAddress⟩,
        congrArg Except.ok next.functions.length_eq⟩
    · intro full
      rw [labelled.full full]

/-- What one operation does to an arena and to the tree it represents. -/
theorem perform (represents : arena.Represents tree) {operation : Operation}
    (within : operation.IsWithin arena.scopes.length) :
    Agrees arena (arena.perform operation) (tree.perform operation) := by
  cases operation with
  | newScope parent =>
    exact .of_represents (represents.newScope within)
      (congrArg (fun count => Except.ok (Answer.scope count)) represents.scopes)
  | declareVariable scope name type =>
    obtain ⟨grown, same⟩ := represents.declareVariable within name type
    exact .of_represents grown (congrArg (Except.map Answer.variable) same)
  | declareFunction scope function =>
    exact (represents.declareFunction within function).map Answer.function
  | newLabel => exact represents.newLabel.map Answer.label

end Steps

end Represents

/-! ## All histories -/

/-- The arenas that operations on existing scopes make of a new one, with all that was asked and answered
on the way. -/
inductive Reached : List Event → ScopeArena → Prop
  | generate : Reached [] ScopeArena.generate
  | step {history : List Event} {arena : ScopeArena} (operation : Operation)
      (before : Reached history arena) (within : operation.IsWithin arena.scopes.length) :
      Reached (history ++ [⟨operation, (arena.perform operation).2⟩]) (arena.perform operation).1

/-- **Every arena represents a tree.** What operations make of an arena represents what those of them that
did not want for a label make of a tree, with the same answers. -/
theorem Reached.represents {history : List Event} (reached : Reached history arena) :
    ∃ tree, ScopeTree.Reached (history.filter fun event => !event.isOverflow) tree ∧
      arena.Represents tree := by
  induction reached with
  | generate => exact ⟨_, .initial, generate_represents⟩
  | @step history arena operation before within ih =>
    obtain ⟨tree, reached, represents⟩ := ih
    have agrees := represents.perform within
    rw [List.filter_append]
    cases fits : fitsArgument (tree.perform operation).1.nextLabel with
    | true =>
      obtain ⟨grown, same⟩ := agrees.fits fits
      have more := reached.step operation (represents.scopes ▸ within)
      refine ⟨_, ?_, grown⟩
      rw [same]
      -- A tree never wants for a label, so the event is among those that count.
      have kept : Event.isOverflow ⟨operation, (tree.perform operation).2⟩ = false :=
        tree.perform_not_overflow operation
      simpa [kept] using more
    | false =>
      -- The arena is still the one before, and the tree goes without the operation.
      rw [agrees.full fits]
      exact ⟨tree, by simpa [Event.isOverflow] using reached, represents⟩

end ScopeArena

/-- **Every tree is represented by an arena.** As long as the labels fit 32 bits, what operations make of a
tree is represented by what they make of an arena, with the same answers. -/
theorem ScopeTree.Reached.represented {history : List ScopeArena.Event} {tree : ScopeTree}
    (reached : ScopeTree.Reached history tree) (fits : fitsArgument tree.nextLabel = true) :
    ∃ arena, ScopeArena.Reached history arena ∧ arena.Represents tree := by
  induction reached with
  | initial => exact ⟨_, .generate, ScopeArena.generate_represents⟩
  | @step history tree operation before within ih =>
    have earlier : fitsArgument tree.nextLabel = true := by
      have grows := tree.perform_nextLabel_le operation
      simp only [fitsArgument, Bool.and_eq_true, decide_eq_true_eq] at fits ⊢
      omega
    obtain ⟨arena, reached, represents⟩ := ih earlier
    have inside : operation.IsWithin arena.scopes.length := represents.scopes ▸ within
    obtain ⟨grown, same⟩ := (represents.perform inside).fits fits
    exact ⟨_, same ▸ reached.step operation inside, grown⟩

end TapeCode
