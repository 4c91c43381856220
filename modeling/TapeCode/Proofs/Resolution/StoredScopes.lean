import TapeCode.Proofs.Resolution.Resolved
import TapeCode.Proofs.Scope.Arena

/-!
# The scopes of a resolved program as they are stored

Resolution changes its scope tree by operations on existing scopes only: it opens a scope below one that
it knows, and it declares variables and functions in scopes that it knows. So the tree of a resolved
program is represented by an arena on which the same operations were performed.
-/
namespace TapeCode

namespace ScopeTree

open ScopeArena (Operation Event)

/-- Operations make the second tree of the first one. -/
structure LeadsTo (before after : ScopeTree) : Prop where
  scopes : before.paths.length ≤ after.paths.length
  reached : ∀ history, Reached history before → ∃ more, Reached (history ++ more) after

namespace LeadsTo

variable {first before after : ScopeTree}

theorem refl (tree : ScopeTree) : tree.LeadsTo tree where
  scopes := Nat.le_refl _
  reached := fun history reached => ⟨[], by simpa using reached⟩

theorem trans (one : first.LeadsTo before) (other : before.LeadsTo after) : first.LeadsTo after where
  scopes := Nat.le_trans one.scopes other.scopes
  reached := by
    intro history reached
    obtain ⟨more, between⟩ := one.reached history reached
    obtain ⟨further, last⟩ := other.reached _ between
    exact ⟨more ++ further, by rwa [← List.append_assoc]⟩

theorem perform (tree : ScopeTree) {operation : Operation}
    (within : operation.IsWithin tree.paths.length) :
    tree.LeadsTo (tree.perform operation).1 where
  scopes := (tree.perform_extends operation).paths.length_le
  reached := fun _ reached => ⟨_, reached.step operation within⟩

end LeadsTo

end ScopeTree

namespace Resolve

variable {α β : Type} {known : List ScopeId}

/-- As long as the scopes that it knows exist, the computation changes the tree by operations only. -/
def Operates (known : List ScopeId) (action : Resolver α) : Prop :=
  ∀ before value after, (∀ scope ∈ known, scope < before.tree.paths.length) →
    action before = .ok (value, after) → before.tree.LeadsTo after.tree

namespace Operates

theorem bind {action : Resolver α} {next : α → Resolver β} (first : Operates known action)
    (rest : ∀ value, Operates known (next value)) : Operates known (action >>= next) := by
  intro before value after exist ran
  obtain ⟨middle, between, ranFirst, ranNext⟩ := stateExcept_bind.mp ran
  have begins := first before middle between exist ranFirst
  refine begins.trans (rest middle between value after (fun scope member => ?_) ranNext)
  exact Nat.lt_of_lt_of_le (exist scope member) begins.scopes

theorem pure (value : α) : Operates known (pure value : Resolver α) := by
  intro before result after _ ran
  obtain ⟨rfl, rfl⟩ := stateExcept_pure.mp ran
  exact .refl _

theorem throw (error : ResolveError) : Operates known (throw error : Resolver α) :=
  fun _ _ _ _ ran => absurd ran stateExcept_throw

theorem lift (computed : Except ResolveError α) : Operates known (liftM computed : Resolver α) := by
  intro before result after _ ran
  obtain ⟨-, rfl⟩ := stateExcept_lift.mp ran
  exact .refl _

theorem inTree (read : ScopeTree → Except ResolveError α) : Operates known (Resolve.inTree read) := by
  intro before result after exist ran
  exact lift (read before.tree) before result after exist ran

theorem check {condition : Prop} [Decidable condition] {error : ResolveError}
    {checked : α → Resolver β} {rest : Resolver β} (passed : Operates known rest) :
    Operates known (if condition then MonadExcept.throw error >>= checked else rest) := by
  intro before result after exist ran
  exact passed before result after exist (stateExcept_check.mp ran).2

/-- A function that is completed is no change of the tree. -/
theorem complete (function : TypedFunction) : Operates known
    (modify fun state => { state with functions := state.functions ++ [function] }) := by
  intro before result after _ ran
  obtain rfl := stateExcept_modify.mp ran
  exact .refl _

/-- What follows knows the new scope too. -/
theorem newScope {parent : ScopeId} (member : parent ∈ known) {next : ScopeId → Resolver α}
    (rest : ∀ scope, Operates (scope :: known) (next scope)) :
    Operates known (Resolve.newScope parent >>= next) := by
  intro before result after exist ran
  obtain ⟨scope, between, opened, ranNext⟩ := stateExcept_bind.mp ran
  obtain ⟨rfl, rfl⟩ := newScope_eq_ok.mp opened
  have within : (ScopeArena.Operation.newScope parent).IsWithin before.tree.paths.length :=
    exist parent member
  have begins := ScopeTree.LeadsTo.perform before.tree within
  refine begins.trans (rest _ _ result after (fun scope among => ?_) ranNext)
  -- The new scope is the last one; the others have not gone.
  rcases List.mem_cons.mp among with rfl | old
  · simp [ScopeTree.newScope]
  · exact Nat.lt_of_lt_of_le (exist scope old) begins.scopes

theorem declareVariable {scope : ScopeId} (member : scope ∈ known) (name : String)
    (type : ValueType) (position : Position) :
    Operates known (Resolve.declareVariable scope name type position) := by
  intro before id after exist ran
  obtain ⟨declared, -⟩ := declareVariable_eq_ok ran
  have within : (ScopeArena.Operation.declareVariable scope name type).IsWithin
      before.tree.paths.length := exist scope member
  have performed : (before.tree.perform (.declareVariable scope name type)).1 = after.tree := by
    simp only [ScopeTree.perform, declared]
  exact performed ▸ .perform before.tree within

theorem declareFunction {scope : ScopeId} (member : scope ∈ known) (name : String)
    (parameters : List Parameter) (result : ValueType) (position : Position) :
    Operates known (Resolve.declareFunction scope name parameters result position) := by
  intro before id after exist ran
  obtain ⟨-, declared, -⟩ := declareFunction_eq_ok ran
  let function : FunctionEntry := .user name (parameters.map (·.type)) result
  have within : (ScopeArena.Operation.declareFunction scope function).IsWithin
      before.tree.paths.length := exist scope member
  have performed : (before.tree.perform (.declareFunction scope function)).1 = after.tree := by
    simp only [ScopeTree.perform, function, FunctionEntry.user, declared]
  exact performed ▸ .perform before.tree within

theorem declareFunctions {scope : ScopeId} (member : scope ∈ known) (statements : List Statement) :
    Operates known (Resolve.declareFunctions scope statements) := by
  induction statements with
  | nil => exact .pure []
  | cons first rest ih =>
    cases first with
    | function name parameters result body position =>
      exact (declareFunction member name parameters result position).bind fun function =>
        ih.bind fun functions => .pure _
    | _ => exact ih

theorem declareParameters {frame : ScopeId} (member : frame ∈ known) (parameters : List Parameter) :
    Operates known (Resolve.declareParameters frame parameters) := by
  induction parameters with
  | nil => exact .pure []
  | cons parameter rest ih =>
    exact .check ((declareVariable member parameter.name parameter.type parameter.position).bind
      fun id => ih.bind fun ids => .pure _)

/-- Results are read from the tree. -/
theorem result (place : Place) (value : Option Expression) (position : Position) :
    Operates known (Resolve.result place value position) := by
  unfold Resolve.result
  cases place.result with
  | none => exact .throw _
  | some type =>
    cases value with
    | none => cases type <;> first | exact .pure _ | exact .throw _
    | some value =>
      cases type <;> first
        | exact .throw _
        | exact (inTree _).bind fun typed => (lift _).bind fun _ => .pure _

/-- A body is resolved in a frame of its own. -/
theorem body {place : Place} (member : place.scope ∈ known) (parameters : List Parameter)
    (type : ValueType) {body : Place → Resolver TypedStatement}
    (inside : ∀ known place, place.scope ∈ known → Operates known (body place)) (id : FunctionId)
    {next : Resolver α} (rest : ∀ known, place.scope ∈ known → Operates known next) :
    Operates known (do
      let frame ← Resolve.newScope place.scope
      let parameterIds ← Resolve.declareParameters frame parameters
      let body ← body ⟨frame, some type⟩
      modify fun state =>
        { state with functions := state.functions ++ [⟨id, parameterIds, type, body⟩] }
      next) :=
  newScope member fun frame =>
    (declareParameters List.mem_cons_self parameters).bind fun parameterIds =>
      (inside _ ⟨frame, some type⟩ List.mem_cons_self).bind fun body =>
        (complete ⟨id, parameterIds, type, body⟩).bind fun _ =>
          rest _ (List.mem_cons_of_mem frame member)

end Operates

mutual

theorem statement_operates : ∀ (source : Statement) (known : List ScopeId) (place : Place),
    place.scope ∈ known → Operates known (statement place source)
  | .block statements, known, place, member => by
    rw [statement]
    exact .newScope member fun inner =>
      (Operates.declareFunctions List.mem_cons_self statements).bind fun declared =>
        (blockStatements_operates statements _ ⟨inner, place.result⟩ declared
          List.mem_cons_self).bind fun typed => .pure _
  | .declare name value position, known, place, member => by
    rw [statement]
    exact (Operates.inTree _).bind fun typed => (Operates.lift _).bind fun _ =>
      (Operates.declareVariable member name typed.type position).bind fun id => .pure _
  | .evaluate value, known, place, member => by
    rw [statement]
    exact (Operates.inTree _).bind fun typed => .pure _
  | .ifThen test consequence, known, place, member => by
    rw [statement]
    exact (Operates.inTree _).bind fun test =>
      (statement_operates consequence known place member).bind fun _ => .pure _
  | .ifThenElse test consequence alternative, known, place, member => by
    rw [statement]
    exact (Operates.inTree _).bind fun test =>
      (statement_operates consequence known place member).bind fun _ =>
        (statement_operates alternative known place member).bind fun _ => .pure _
  | .whileDo test body, known, place, member => by
    rw [statement]
    exact (Operates.inTree _).bind fun test =>
      (statement_operates body known place member).bind fun _ => .pure _
  | .doWhile body test, known, place, member => by
    rw [statement]
    exact (statement_operates body known place member).bind fun _ =>
      (Operates.inTree _).bind fun test => .pure _
  | .result value position, known, place, member => by
    rw [statement]
    exact .result place value position
  | .function name parameters type body position, known, place, member => by
    rw [statement]
    exact (Operates.declareFunction member name parameters type position).bind fun id =>
      .body member parameters type (statement_operates body) id fun _ _ => .pure _

theorem blockStatements_operates : ∀ (sources : List Statement) (known : List ScopeId)
    (place : Place) (declared : List FunctionId), place.scope ∈ known →
      Operates known (blockStatements place declared sources)
  | [], _, _, _, _ => .pure []
  | first :: rest, known, place, declared, member => by
    have ordinary := (statement_operates first known place member).bind fun typed =>
      (blockStatements_operates rest known place declared member).bind fun others =>
        .pure (typed :: others)
    cases first with
    | function name parameters type body position =>
      -- It was declared ahead; here its body gets a frame, which the rest of the block knows as well.
      rw [blockStatements]
      exact .body member parameters type (statement_operates body) (declared.headD 0)
        fun known member => blockStatements_operates rest known place declared.tail member
    | _ => exact ordinary

end

end Resolve

/-- **Resolution performs operations.** The tree of a resolved program is made of the initial one by
operations on existing scopes. -/
theorem resolve_reached {program : List Statement} {typed : TypedProgram} {tree : ScopeTree}
    (resolved : resolve program = .ok (typed, tree)) :
    ∃ history, ScopeTree.Reached history tree := by
  let start : Resolve.State := ⟨(ScopeTree.initial.newScope ScopeTree.root).1, []⟩
  let place : Resolve.Place := ⟨(ScopeTree.initial.newScope ScopeTree.root).2, none⟩
  let action : Resolve.Resolver (List TypedStatement) := do
    Resolve.blockStatements place (← Resolve.declareFunctions place.scope program) program
  have runs : resolve program =
      action start >>= fun made => .ok (⟨made.1, made.2.functions⟩, made.2.tree) := rfl
  rw [runs] at resolved
  obtain ⟨⟨main, state⟩, ran, same⟩ := Except.bind_eq_ok.mp resolved
  obtain ⟨-, rfl⟩ := Prod.mk.inj (Except.ok.inj same)
  have operates : Resolve.Operates [place.scope] action :=
    (Resolve.Operates.declareFunctions (List.mem_singleton_self _) program).bind fun declared =>
      Resolve.blockStatements_operates program _ place declared (List.mem_singleton_self _)
  have leads := operates start main state (by decide) ran
  -- The scope of the main block is the first one that is opened.
  have opened := ScopeTree.Reached.initial.step (.newScope ScopeTree.root) (by decide)
  obtain ⟨more, reached⟩ := leads.reached _ opened
  exact ⟨_, reached⟩

/-- **The scopes of a resolved program can be stored.** If its labels fit 32 bits, an arena represents its
tree. -/
theorem resolve_represented {program : List Statement} {typed : TypedProgram} {tree : ScopeTree}
    (resolved : resolve program = .ok (typed, tree)) (fits : fitsArgument tree.nextLabel = true) :
    ∃ history arena, ScopeArena.Reached history arena ∧ arena.Represents tree := by
  obtain ⟨history, reached⟩ := resolve_reached resolved
  exact ⟨history, reached.represented fits⟩

end TapeCode
