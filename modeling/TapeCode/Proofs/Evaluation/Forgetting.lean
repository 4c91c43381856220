import TapeCode.Proofs.Assignment
import TapeCode.Proofs.Compilation.Simulation
import TapeCode.Proofs.Evaluation.Budget
import TapeCode.Proofs.Resolution.Resolved

/-!
# Calls that depend on their arguments alone

All activations of a function share its slots, and no slot is cleared when a function is entered. So a
call can find there what an earlier one has left behind. It does not if every variable is assigned
before it is read, whichever way is taken through the function; then two calls with equal arguments
return equal values.

Two evaluations of the same code are followed side by side. The variables on which their worlds agree
become more and more, and what is read is always among them, so both take the same way.
-/
namespace TapeCode

/-! ## Two evaluations side by side -/

variable {tree : ScopeTree}

/-- The variables that have the same value in both worlds. -/
def ScopeTree.agreed (tree : ScopeTree) (one other : World) : Set VariableId :=
  {id | one.heap ((tree.slot? id).getD 0) = other.heap ((tree.slot? id).getD 0)}

/-- From worlds that agree on what is known, the second evaluation ends as the first one does. Worlds that
agree on a variable do so ever after, and they agree on what has been assigned. -/
def Evaluator.Repeats {α : Type} (tree : ScopeTree) (known : Set VariableId)
    (assigned : α → Set VariableId) (first second : Evaluator α) : Prop :=
  ∀ ⦃one other after : World⦄ ⦃value : α⦄, known ⊆ tree.agreed one other →
    first one = some (value, after) → ∃ behind, second other = some (value, behind) ∧
      tree.agreed one other ⊆ tree.agreed after behind ∧ assigned value ⊆ tree.agreed after behind

/-- What has been assigned where a statement ends. Behind a `return` nothing of it matters. -/
def Flow.assigned (behind : Set VariableId) : Flow → Set VariableId
  | .next => behind
  | .returned _ => ∅

theorem Flow.assigned_mono {behind more : Set VariableId} (fewer : behind ⊆ more) :
    ∀ flow : Flow, flow.assigned behind ⊆ flow.assigned more
  | .next => fewer
  | .returned _ => subset_rfl

theorem Flow.assigned_subset {behind : Set VariableId} : ∀ flow : Flow, flow.assigned behind ⊆ behind
  | .next => subset_rfl
  | .returned _ => Set.empty_subset _

namespace Evaluator.Repeats

variable {α β : Type} {known more : Set VariableId} {assigned : α → Set VariableId}
  {first second : Evaluator α}

theorem pure {value : α} (fewer : assigned value ⊆ known) :
    Repeats tree known assigned (Pure.pure value) (Pure.pure value) := by
  intro one other after result agree ended
  obtain ⟨rfl, rfl⟩ := stateOption_pure.mp ended
  exact ⟨other, rfl, subset_rfl, fewer.trans agree⟩

theorem weaken (repeats : Repeats tree known assigned first second) (larger : known ⊆ more) :
    Repeats tree more assigned first second :=
  fun _ _ _ _ agree ended => repeats (larger.trans agree) ended

/-- What was known before is known behind, too. -/
theorem fewer {part : α → Set VariableId} (repeats : Repeats tree known assigned first second)
    (less : ∀ value, part value ⊆ known ∪ assigned value) :
    Repeats tree known part first second := by
  intro one other after value agree ended
  obtain ⟨behind, endedToo, kept, agrees⟩ := repeats agree ended
  exact ⟨behind, endedToo, kept, (less value).trans (Set.union_subset (agree.trans kept) agrees)⟩

/-- What follows may use what was known before and what has been assigned since. -/
theorem bind {later : β → Set VariableId} {next nextToo : α → Evaluator β}
    (start : Repeats tree known assigned first second)
    (onwards : ∀ value world between, first world = some (value, between) →
      Repeats tree (known ∪ assigned value) later (next value) (nextToo value)) :
    Repeats tree known later (first >>= next) (second >>= nextToo) := by
  intro one other after result agree ended
  obtain ⟨value, between, started, finished⟩ := stateOption_bind.mp ended
  obtain ⟨betweenToo, startedToo, kept, agrees⟩ := start agree started
  obtain ⟨behind, finishedToo, keptToo, agreesToo⟩ := onwards value one between started
    (Set.union_subset (agree.trans kept) agrees) finished
  exact ⟨behind, stateOption_bind.mpr ⟨value, betweenToo, startedToo, finishedToo⟩,
    kept.trans keptToo, agreesToo⟩

theorem discard {behind : Set VariableId}
    (repeats : Repeats tree known (fun _ => behind) first second) :
    Repeats tree known (fun _ => behind) (Functor.discard first) (Functor.discard second) := by
  intro one other after done agree ended
  obtain ⟨value, ran⟩ := stateOption_discard.mp ended
  obtain ⟨afterToo, ranToo, kept⟩ := repeats agree ran
  exact ⟨afterToo, stateOption_discard.mpr ⟨value, ranToo⟩, kept⟩

theorem ite {condition : Prop} [Decidable condition] {other another : Evaluator α}
    (holds : Repeats tree known assigned first second)
    (fails : Repeats tree known assigned other another) :
    Repeats tree known assigned (if condition then first else other)
      (if condition then second else another) := by
  split
  · exact holds
  · exact fails

end Evaluator.Repeats

namespace Evaluation

open Evaluator (Repeats)

variable {whole : TypedProgram} {ending other : EndOfInput} {known : Set VariableId}

theorem print_repeats (bytes : List UInt8) :
    Repeats tree known (fun _ => known) (print bytes) (print bytes) := by
  intro one another after done agree ended
  obtain ⟨-, rfl⟩ := Prod.mk.inj (Option.some.inj ended)
  exact ⟨_, rfl, subset_rfl, agree⟩

theorem load_repeats {id : VariableId} (among : id ∈ known) :
    Repeats tree known (fun _ => known) (load (whole.setting tree ending) id)
      (load (whole.setting tree other) id) := by
  intro one another after value agree ended
  obtain ⟨rfl, rfl⟩ := Prod.mk.inj (Option.some.inj ended)
  have same : one.heap (slot (whole.setting tree ending) id) = another.heap _ := agree among
  exact ⟨another, congrArg (fun value => some (value, another)) same.symm, subset_rfl, agree⟩

/-- The same value in the same slot: the worlds agree on all variables that have the slot. -/
theorem store_repeats (id : VariableId) (value : UInt8) :
    Repeats tree known (fun _ => insert id known) (store (whole.setting tree ending) id value)
      (store (whole.setting tree other) id value) := by
  intro one another after done agree ended
  obtain ⟨-, rfl⟩ := Prod.mk.inj (Option.some.inj ended)
  have agrees : insert id (tree.agreed one another) ⊆
      tree.agreed (one.store (slot (whole.setting tree ending) id) value)
        (another.store (slot (whole.setting tree other) id) value) := by
    intro place among
    change (if _ then _ else _) = (if _ then _ else _)
    by_cases here : (tree.slot? place).getD 0 = slot (whole.setting tree ending) id
    · exact (if_pos here).trans (if_pos here).symm
    · rcases among with rfl | agree
      · exact absurd rfl here
      · exact (if_neg here).trans (agree.trans (if_neg here).symm)
  exact ⟨_, rfl, (Set.subset_insert ..).trans agrees, (Set.insert_subset_insert agree).trans agrees⟩

theorem storeParameters_repeats {parameters : List VariableId} {values : List UInt8}
    (count : values.length = parameters.length) :
    Repeats tree known (fun _ => {parameter | parameter ∈ parameters})
      (storeParameters (whole.setting tree ending) parameters values)
      (storeParameters (whole.setting tree other) parameters values) := by
  induction parameters generalizing values known with
  | nil =>
    obtain rfl := List.length_eq_zero_iff.mp count
    exact .pure fun _ => nofun
  | cons parameter parameters ih =>
    cases values with
    | nil => cases count
    | cons value values =>
      refine (store_repeats parameter value).bind fun _ _ _ _ => ?_
      refine (ih (Nat.succ.inj count)).fewer fun _ stored among => ?_
      rcases List.mem_cons.mp among with rfl | later
      · exact .inl (.inr (.inl rfl))
      · exact .inr later

/-- The built-in functions that read no input. -/
theorem builtin_repeats {name : String} (inputless : ¬(name = "read" ∨ name = "readDigit"))
    (arguments : List UInt8) :
    Repeats tree known (fun _ => known) (builtin (whole.setting tree ending) name arguments)
      (builtin (whole.setting tree other) name arguments) := by
  unfold builtin
  split
  case h_1 value => exact (print_repeats _).bind fun _ _ _ _ => .pure Set.subset_union_left
  case h_2 value => exact (print_repeats _).bind fun _ _ _ _ => .pure Set.subset_union_left
  case h_3 => exact absurd (.inl rfl) inputless
  case h_4 => exact absurd (.inr rfl) inputless
  all_goals exact .pure subset_rfl

/-! ## Whole evaluations -/

/-- What holds of evaluations within a budget. The functions in `allowed` are those that a call leads
to. -/
structure Repeated (whole : TypedProgram) (tree : ScopeTree) (ending other : EndOfInput)
    (allowed : FunctionId → Prop) (budget : Nat) : Prop where
  expression : ∀ {source : TypedExpression} {home : ScopeId} {known : Set VariableId},
    source.IsSound tree home → source.ReadsAssigned known →
    (∀ id, .calls id ∈ source.mentions → allowed id) →
    Repeats tree known (fun _ => source.assigned known)
      (Evaluation.expression (whole.setting tree ending) budget source)
      (Evaluation.expression (whole.setting tree other) budget source)
  expressions : ∀ {sources : List TypedExpression} {home : ScopeId} {known : Set VariableId},
    TypedExpression.AreSound tree home sources → TypedExpression.AllReadAssigned known sources →
    (∀ id, .calls id ∈ TypedExpression.allMentions sources → allowed id) →
    Repeats tree known (fun _ => TypedExpression.allAssigned known sources)
      (Evaluation.expressions (whole.setting tree ending) budget sources)
      (Evaluation.expressions (whole.setting tree other) budget sources)
  call : ∀ {id : FunctionId} {called : Function} {arguments : List UInt8} {known : Set VariableId},
    allowed id → tree.functions[id]? = some called → arguments.length = called.parameters.length →
    Repeats tree known (fun _ => known)
      (Evaluation.call (whole.setting tree ending) budget id arguments)
      (Evaluation.call (whole.setting tree other) budget id arguments)
  statement : ∀ {source : TypedStatement} {home : ScopeId} {result : Option ValueType}
    {known : Set VariableId}, source.IsSound tree home result → source.ReadsAssigned known →
    (∀ id, .calls id ∈ source.mentions → allowed id) →
    Repeats tree known (Flow.assigned (source.assigned known))
      (Evaluation.statement (whole.setting tree ending) budget source)
      (Evaluation.statement (whole.setting tree other) budget source)
  statements : ∀ {sources : List TypedStatement} {home : ScopeId} {result : Option ValueType}
    {known : Set VariableId}, TypedStatement.AreSound tree home result sources →
    TypedStatement.AllReadAssigned known sources →
    (∀ id, .calls id ∈ TypedStatement.allMentions sources → allowed id) →
    Repeats tree known (Flow.assigned (TypedStatement.allAssigned known sources))
      (Evaluation.statements (whole.setting tree ending) budget sources)
      (Evaluation.statements (whole.setting tree other) budget sources)

theorem expressions_length {setting : Setting} {budget : Nat} {sources : List TypedExpression}
    {world after : World} {values : List UInt8}
    (ended : Evaluation.expressions setting budget sources world = some (values, after)) :
    values.length = sources.length := by
  induction sources generalizing budget world after values with
  | nil =>
    cases budget with
    | zero => cases ended
    | succ budget =>
      obtain ⟨rfl, -⟩ := stateOption_pure.mp ended
      rfl
  | cons first rest ih =>
    cases budget with
    | zero => cases ended
    | succ budget =>
      simp only [Evaluation.expressions, stateOption_bind, stateOption_pure] at ended
      obtain ⟨_, _, -, others, _, endedOthers, rfl, -⟩ := ended
      exact congrArg (· + 1) (ih endedOthers)

namespace Repeated

variable {allowed : FunctionId → Prop} {budget : Nat}

theorem zero : Repeated whole tree ending other allowed 0 where
  expression _ _ _ := nofun
  expressions _ _ _ := nofun
  call _ _ _ := nofun
  statement _ _ _ := nofun
  statements _ _ _ := nofun

theorem expression_succ (sound : whole.IsSound tree)
    (before : Repeated whole tree ending other allowed budget) {source : TypedExpression}
    {home : ScopeId} (typed : source.IsSound tree home) (reads : source.ReadsAssigned known)
    (calls : ∀ id, .calls id ∈ source.mentions → allowed id) :
    Repeats tree known (fun _ => source.assigned known)
      (Evaluation.expression (whole.setting tree ending) (budget + 1) source)
      (Evaluation.expression (whole.setting tree other) (budget + 1) source) := by
  cases source with
  | number value type => exact .pure subset_rfl
  | «variable» id type => exact load_repeats reads
  | assign id value type =>
    have inner := before.expression typed.1 reads fun id among =>
      calls id (List.mem_append_left _ among)
    refine inner.bind fun value _ _ _ => (store_repeats id value).bind fun _ _ _ _ => .pure ?_
    exact (Set.insert_subset_insert Set.subset_union_right).trans Set.subset_union_right
  | call id arguments type =>
    obtain ⟨typedArguments, called, found, -, accepts, -, -⟩ := typed
    have given := before.expressions typedArguments reads fun id among =>
      calls id (List.mem_append_left _ among)
    refine given.bind fun values _ _ ended => ?_
    have count : values.length = called.parameters.length := by
      simpa [(sound.arguments found accepts).1] using expressions_length ended
    have allows := calls id (List.mem_append_right _ (List.mem_singleton.mpr rfl))
    exact (before.call allows found count).fewer fun _ _ among => .inl (.inr among)

theorem expressions_succ (before : Repeated whole tree ending other allowed budget)
    {sources : List TypedExpression} {home : ScopeId}
    (typed : TypedExpression.AreSound tree home sources)
    (reads : TypedExpression.AllReadAssigned known sources)
    (calls : ∀ id, .calls id ∈ TypedExpression.allMentions sources → allowed id) :
    Repeats tree known (fun _ => TypedExpression.allAssigned known sources)
      (Evaluation.expressions (whole.setting tree ending) (budget + 1) sources)
      (Evaluation.expressions (whole.setting tree other) (budget + 1) sources) := by
  cases sources with
  | nil => exact .pure subset_rfl
  | cons source rest =>
    have start := before.expression typed.1 reads.1 fun id among =>
      calls id (List.mem_append_left _ among)
    have others := before.expressions typed.2 reads.2 fun id among =>
      calls id (List.mem_append_right _ among)
    refine start.bind fun _ _ _ _ => ?_
    exact (others.weaken Set.subset_union_right).bind fun _ _ _ _ => .pure Set.subset_union_right

/-- A function starts with its parameters assigned, whatever its caller has assigned. -/
theorem call_succ (sound : whole.IsSound tree)
    (before : Repeated whole tree ending other allowed budget)
    (inputless : ∀ id, allowed id → ¬tree.ReadsInput id)
    (closed : ∀ source ∈ whole.functions, allowed source.function →
      source.body.ReadsAssigned {parameter | parameter ∈ source.parameters} ∧
        ∀ id, .calls id ∈ source.body.mentions → allowed id)
    {id : FunctionId} {called : Function} {arguments : List UInt8} (allows : allowed id)
    (found : tree.functions[id]? = some called)
    (count : arguments.length = called.parameters.length) :
    Repeats tree known (fun _ => known)
      (Evaluation.call (whole.setting tree ending) (budget + 1) id arguments)
      (Evaluation.call (whole.setting tree other) (budget + 1) id arguments) := by
  rw [Evaluation.call, Evaluation.call]
  cases user : whole.functions.find? (·.function = id) with
  | some source =>
    obtain rfl : source.function = id := by simpa using List.find?_some user
    have member := List.mem_of_find?_eq_some user
    obtain ⟨reads, calls⟩ := closed source member allows
    obtain ⟨same, foundSame, -, parameters⟩ := (sound.functions source member).declared
    obtain rfl : called = same := Option.some.inj (found.symm.trans foundSame)
    obtain ⟨-, -, frame, -, -, -, -, typed⟩ := (sound.functions source member).framed
    have full : arguments.length = source.parameters.length := by simpa [parameters] using count
    have body := before.statement typed reads calls
    -- The two worlds may agree on more than the parameters, but the body does not rely on it.
    refine (storeParameters_repeats full).bind fun _ _ _ _ => ?_
    refine (body.weaken Set.subset_union_right).bind fun flow _ _ _ => ?_
    cases flow
    all_goals exact .pure (Set.subset_union_left.trans Set.subset_union_left)
  -- A function that is not of the program is a built-in one, and of these only two read the input.
  | none =>
    have missing : id ∉ whole.functions.map (·.function) := by
      simpa [List.find?_eq_none] using user
    have builtin : called ∈ Function.builtins := by
      rcases sound.builtin_or_user found with builtin | ⟨source, member, rfl⟩
      · exact List.mem_of_getElem? builtin
      · exact absurd (List.mem_map_of_mem member) missing
    have unlabelled : ∀ called ∈ Function.builtins, called.label? = none := by decide
    have silent : ¬(called.name = "read" ∨ called.name = "readDigit") := fun named =>
      inputless id allows ⟨called, found, unlabelled called builtin, named⟩
    simpa [found] using builtin_repeats silent arguments

theorem statement_succ (before : Repeated whole tree ending other allowed budget)
    {source : TypedStatement} {home : ScopeId} {result : Option ValueType}
    (typed : source.IsSound tree home result) (reads : source.ReadsAssigned known)
    (calls : ∀ id, .calls id ∈ source.mentions → allowed id) :
    Repeats tree known (Flow.assigned (source.assigned known))
      (Evaluation.statement (whole.setting tree ending) (budget + 1) source)
      (Evaluation.statement (whole.setting tree other) (budget + 1) source) := by
  cases source with
  | block sources => exact before.statements typed reads calls
  | declare id value =>
    have inner := before.expression typed.1 reads fun id among =>
      calls id (List.mem_append_left _ among)
    refine inner.bind fun value _ _ _ => (store_repeats id value).bind fun _ _ _ _ => .pure ?_
    exact (Set.insert_subset_insert Set.subset_union_right).trans Set.subset_union_right
  | evaluate value =>
    exact (before.expression typed reads calls).discard.bind fun _ _ _ _ =>
      .pure Set.subset_union_right
  | ifThen condition consequence =>
    have test := before.expression typed.1 reads.1 fun id among =>
      calls id (List.mem_append_left _ among)
    have taken := before.statement typed.2.2 reads.2 fun id among =>
      calls id (List.mem_append_right _ among)
    -- The branch may be left out, so what it assigns does not count.
    refine test.bind fun value _ _ _ => .ite ?_ (.pure Set.subset_union_right)
    refine (taken.weaken Set.subset_union_right).fewer fun flow => ?_
    exact flow.assigned_subset.trans (Set.subset_union_right.trans Set.subset_union_left)
  | ifThenElse condition consequence alternative =>
    have test := before.expression typed.1 reads.1 fun id among =>
      calls id (List.mem_append_left _ (List.mem_append_left _ among))
    have taken := before.statement typed.2.2.1 reads.2.1 fun id among =>
      calls id (List.mem_append_left _ (List.mem_append_right _ among))
    have untaken := before.statement typed.2.2.2 reads.2.2 fun id among =>
      calls id (List.mem_append_right _ among)
    refine test.bind fun value _ _ _ => .ite ?_ ?_
    · exact (taken.weaken Set.subset_union_right).fewer fun flow =>
        (flow.assigned_mono Set.inter_subset_left).trans Set.subset_union_right
    · exact (untaken.weaken Set.subset_union_right).fewer fun flow =>
        (flow.assigned_mono Set.inter_subset_right).trans Set.subset_union_right
  | whileDo condition body =>
    have test := before.expression typed.1 reads.1 fun id among =>
      calls id (List.mem_append_left _ among)
    have turn := before.statement typed.2.2 reads.2 fun id among =>
      calls id (List.mem_append_right _ among)
    refine test.bind fun value _ _ _ => .ite ?_ (.pure Set.subset_union_right)
    refine (turn.weaken Set.subset_union_right).bind fun flow _ _ _ => ?_
    cases flow with
    | next =>
      -- What was known before the first turn is still known before the next one.
      exact (@before.statement (.whileDo condition body) _ _ _ typed reads calls).weaken
        (Set.subset_union_left.trans Set.subset_union_left)
    | returned value => exact .pure (Set.empty_subset _)
  | doWhile body condition =>
    have turn := before.statement typed.2.2 reads.1 fun id among =>
      calls id (List.mem_append_left _ among)
    have test := before.expression typed.1 reads.2 fun id among =>
      calls id (List.mem_append_right _ among)
    refine turn.bind fun flow _ _ _ => ?_
    cases flow with
    | next =>
      refine (test.weaken Set.subset_union_right).bind fun value _ _ _ => .ite ?_ ?_
      · exact (@before.statement (.doWhile body condition) _ _ _ typed reads calls).weaken
          (Set.subset_union_left.trans Set.subset_union_left)
      · exact .pure Set.subset_union_right
    | returned value => exact .pure (Set.empty_subset _)
  | result value =>
    cases value with
    | none => exact .pure (Set.empty_subset _)
    | some value =>
      exact (before.expression typed.2.1 reads calls).bind fun _ _ _ _ => .pure (Set.empty_subset _)

theorem statements_succ (before : Repeated whole tree ending other allowed budget)
    {sources : List TypedStatement} {home : ScopeId} {result : Option ValueType}
    (typed : TypedStatement.AreSound tree home result sources)
    (reads : TypedStatement.AllReadAssigned known sources)
    (calls : ∀ id, .calls id ∈ TypedStatement.allMentions sources → allowed id) :
    Repeats tree known (Flow.assigned (TypedStatement.allAssigned known sources))
      (Evaluation.statements (whole.setting tree ending) (budget + 1) sources)
      (Evaluation.statements (whole.setting tree other) (budget + 1) sources) := by
  cases sources with
  | nil => exact .pure subset_rfl
  | cons first rest =>
    have start := before.statement typed.1 reads.1 fun id among =>
      calls id (List.mem_append_left _ among)
    have others := before.statements typed.2 reads.2 fun id among =>
      calls id (List.mem_append_right _ among)
    refine start.bind fun flow _ _ _ => ?_
    cases flow with
    | next => exact others.weaken Set.subset_union_right
    | returned value => exact .pure (Set.empty_subset _)

end Repeated

/-- In an independent function every evaluation is repeated by every other one. -/
theorem repeated (sound : whole.IsSound tree) {id : FunctionId}
    (independent : whole.IsIndependent tree id) (budget : Nat) :
    Repeated whole tree ending other (whole.Reaches id) budget := by
  have closed : ∀ source ∈ whole.functions, whole.Reaches id source.function →
      source.body.ReadsAssigned {parameter | parameter ∈ source.parameters} ∧
        ∀ callee, .calls callee ∈ source.body.mentions → whole.Reaches id callee :=
    fun source member reached => ⟨independent.assigned source member reached, fun callee among =>
      reached.tail ⟨source, member, rfl, List.mem_append_right _ among⟩⟩
  induction budget with
  | zero => exact .zero
  | succ budget ih =>
    exact ⟨ih.expression_succ sound, ih.expressions_succ,
      ih.call_succ sound independent.inputless closed, ih.statement_succ, ih.statements_succ⟩

/-- A call of an independent function that ends does so with the same result wherever it is made. -/
theorem call_repeats (sound : whole.IsSound tree) {function : TypedFunction}
    (member : function ∈ whole.functions) (independent : whole.IsIndependent tree function.function)
    {arguments : List UInt8} (count : arguments.length = function.parameters.length) (budget : Nat) :
    Repeats tree ∅ (fun _ => ∅)
      (call (whole.setting tree ending) budget function.function arguments)
      (call (whole.setting tree other) budget function.function arguments) := by
  obtain ⟨called, found, -, parameters⟩ := (sound.functions function member).declared
  exact (repeated sound independent budget).call .refl found (by simpa [parameters] using count)

end Evaluation

/-! ## Source texts -/

namespace Build

open Evaluation

/-- Two calls of an independent function that end return equal values if their arguments are equal,
whatever has happened before either of them. -/
theorem resolved_callForgets {source : String} {typed : TypedProgram} {scopes : ScopeTree}
    (resolves : Resolves source typed scopes) {function : TypedFunction}
    (member : function ∈ typed.functions) (independent : typed.IsIndependent scopes function.function)
    {arguments : List UInt8} (count : arguments.length = function.parameters.length)
    {ending other : EndOfInput} {budget more : Nat} {one another after behind : World}
    {value result : UInt8}
    (first : call (typed.setting scopes ending) budget function.function arguments one =
      some (value, after))
    (second : call (typed.setting scopes other) more function.function arguments another =
      some (result, behind)) : value = result := by
  have early := call_mono _ _ _ (Nat.le_max_left budget more) first
  have late := call_mono _ _ _ (Nat.le_max_right budget more) second
  obtain ⟨_, again, -⟩ := call_repeats resolves.sound member independent count _
    (Set.empty_subset _) early
  exact (Prod.mk.inj (Option.some.inj (again.symm.trans late))).1

/-- A function with a variable of its own, which it assigns before it reads it. -/
def doublingSource : String :=
  "func f(n: int): int \x7b var a = 1; while (n) \x7b a = a + a; n = n - 1; \x7d return a; \x7d"

/-- Two calls of it, in worlds that agree on nothing. -/
theorem doublingSource_calls : ∃ typed scopes function value result after behind,
    Resolves doublingSource typed scopes ∧ function ∈ typed.functions ∧
      typed.IsIndependent scopes function.function ∧ [2].length = function.parameters.length ∧
      call (typed.setting scopes .zero) 16 function.function [2] (World.start []) =
        some (value, after) ∧
      call (typed.setting scopes .max) 20 function.function [2] ⟨fun _ => 9, [1], [2]⟩ =
        some (result, behind) ∧ value = 4 := by
  obtain ⟨typed, scopes, resolves, function, member, assigned, starts, inputless, count,
      ⟨⟨value, after⟩, first, four⟩, ⟨⟨result, behind⟩, second, -⟩⟩ :
      ∃ typed scopes, Resolves doublingSource typed scopes ∧ ∃ function ∈ typed.functions,
        (∀ source ∈ typed.functions,
          source.body.ReadsAssigned {parameter | parameter ∈ source.parameters}) ∧
        ¬scopes.ReadsInput function.function ∧
        (∀ source ∈ typed.functions, ∀ callee ∈ source.callees, ¬scopes.ReadsInput callee) ∧
        [2].length = function.parameters.length ∧
        (∃ ended, call (typed.setting scopes .zero) 16 function.function [2] (World.start []) =
          some ended ∧ ended.1 = 4) ∧
        ∃ ended, call (typed.setting scopes .max) 20 function.function [2]
          ⟨fun _ => 9, [1], [2]⟩ = some ended ∧ ended.1 = 4 := by
    decide +kernel
  exact ⟨typed, scopes, function, value, result, after, behind, resolves, member,
    .of_forall assigned starts inputless, count, first, second, four⟩

theorem resolved_callForgets_doublingSource : ∃ typed scopes function value result after behind,
    Resolves doublingSource typed scopes ∧ function ∈ typed.functions ∧
      typed.IsIndependent scopes function.function ∧ [2].length = function.parameters.length ∧
      call (typed.setting scopes .zero) 16 function.function [2] (World.start []) =
        some (value, after) ∧
      call (typed.setting scopes .max) 20 function.function [2] ⟨fun _ => 9, [1], [2]⟩ =
        some (result, behind) ∧ value = 4 ∧ result = 4 := by
  obtain ⟨typed, scopes, function, value, result, after, behind, resolves, member, independent, count,
    first, second, four⟩ := doublingSource_calls
  have same := resolved_callForgets resolves member independent count first second
  exact ⟨typed, scopes, function, value, result, after, behind, resolves, member, independent, count,
    first, second, four, same.symm.trans four⟩

/-- A function that reads its variable although the way to the declaration need not have been taken. -/
def staleSource : String :=
  "func f(n: int): int \x7b if (n) var a = n; return a; \x7d " ++
    "printNumber(f(0)); f(5); printNumber(f(0));"

/-- The second call with the argument zero finds what the call with the argument five has left, so 0 and
5 are printed. The function names only its own variables and calls nothing. -/
theorem staleSource_leaks : ∃ typed scopes, Resolves staleSource typed scopes ∧
    (∀ id, typed.Mentions 11 (.reads id) ∨ typed.Mentions 11 (.assigns id) →
      typed.Mentions 11 (.declares id)) ∧
    (∀ callee, ¬typed.Mentions 11 (.calls callee)) ∧
    typed.evaluate scopes .zero 13 [] = some [48, 53] := by
  obtain ⟨typed, scopes, resolves, only, printed⟩ :
      ∃ typed scopes, Resolves staleSource typed scopes ∧
        (∀ source ∈ typed.functions, source.function = 11 ∧
          (∀ id ∈ source.variables, .declares id ∈ source.mentions) ∧ source.callees = []) ∧
        typed.evaluate scopes .zero 13 [] = some [48, 53] := by
    decide +kernel
  refine ⟨typed, scopes, resolves, ?own, ?silent, printed⟩
  case own =>
    rintro id (⟨source, member, -, among⟩ | ⟨source, member, -, among⟩)
    all_goals
      obtain ⟨here, own, -⟩ := only source member
      exact ⟨source, member, here ▸ .refl, own id (TypedFunction.mem_variables among rfl)⟩
  case silent =>
    rintro callee ⟨source, member, -, among⟩
    obtain ⟨-, -, none⟩ := only source member
    exact List.ne_nil_of_mem (TypedFunction.mem_callees among) none

end Build

end TapeCode
