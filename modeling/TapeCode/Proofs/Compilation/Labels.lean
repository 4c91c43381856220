import TapeCode.Proofs.Lowering.Code
import TapeCode.Proofs.Monads
import TapeCode.Proofs.Resolution.Slots
import TapeCode.Proofs.Ribbon.Instructions

/-!
# Labels and calls of compiled code

The code of an expression has no labels and calls functions of the scope tree. The code of a statement
has each of the labels handed out for it once, and jumps to no others. So the program of a sound tree
is well-formed.
-/
namespace TapeCode

/-- The labels that a listing jumps to. -/
def Listing.targets (listing : Listing) : List Int := listing.filterMap (·.jumpTarget?)

namespace Compile

variable {tree : ScopeTree} {code : Listing}

/-- Instructions of expressions: they compute, or call a function of the tree. -/
def IsPlain (tree : ScopeTree) (instruction : Instruction) : Prop :=
  instruction.isBody = true ∨ ∃ called ∈ tree.functions, ∃ label : Nat,
    called.label? = some label ∧ instruction = .invoke label

/-- Instructions that lead elsewhere within a function, or out of it. -/
def IsFlow : Instruction → Prop
  | .label _ | .jump _ | .jumpIf _ | .leave => True
  | _ => False

theorem IsPlain.label? {instruction : Instruction} (plain : IsPlain tree instruction) :
    instruction.label? = none := by
  rcases plain with body | ⟨called, -, label, -, rfl⟩
  · cases instruction <;> first | rfl | cases body
  · rfl

theorem IsPlain.jumpTarget? {instruction : Instruction} (plain : IsPlain tree instruction) :
    instruction.jumpTarget? = none := by
  rcases plain with body | ⟨called, -, label, -, rfl⟩
  · cases instruction <;> first | rfl | cases body
  · rfl

theorem intermediate_of_allowed {instruction : Instruction}
    (allowed : IsPlain tree instruction ∨ IsFlow instruction) :
    instruction.isIntermediate = true := by
  rcases allowed with (body | ⟨called, -, label, -, rfl⟩) | flow
  · cases instruction <;> first | rfl | cases body
  · rfl
  · cases instruction <;> first | rfl | cases flow

/-- Of the instructions of compiled code, those that go on to the next one compute. -/
theorem body_of_allowed {instruction : Instruction}
    (allowed : IsPlain tree instruction ∨ IsFlow instruction)
    (ordinary : instruction.isOrdinary = true) : instruction.isBody = true := by
  rcases allowed with (body | ⟨called, -, label, -, rfl⟩) | flow
  · exact body
  · cases ordinary
  · cases instruction <;> first | exact False.elim flow | cases ordinary

theorem invoked_of_allowed {label : Int}
    (allowed : IsPlain tree (.invoke label) ∨ IsFlow (.invoke label)) :
    ∃ called ∈ tree.functions, ∃ number : Nat, called.label? = some number ∧ label = number := by
  rcases allowed with (body | ⟨called, among, number, has, same⟩) | flow
  · cases body
  · exact ⟨called, among, number, has, Instruction.invoke.inj same⟩
  · cases flow

theorem labels_eq_nil (plain : ∀ instruction ∈ code, IsPlain tree instruction) :
    Listing.labels code = [] :=
  List.filterMap_eq_nil_iff.mpr fun instruction member => (plain instruction member).label?

theorem targets_eq_nil (plain : ∀ instruction ∈ code, IsPlain tree instruction) :
    Listing.targets code = [] :=
  List.filterMap_eq_nil_iff.mpr fun instruction member => (plain instruction member).jumpTarget?

/-! ## Expressions -/

/-- Whether a call of the function becomes instructions that compute. -/
def isComputed : FunctionBody → Bool
  | .inPlace instructions => instructions.all (·.isBody)
  | .labelled _ => false

theorem builtins_computed : ∀ function ∈ Function.builtins, isComputed function.body = true := by
  decide

theorem callInstructions_plain (sound : tree.IsSound) {id : FunctionId}
    (made : callInstructions tree id = .ok code) : ∀ instruction ∈ code, IsPlain tree instruction := by
  unfold callInstructions at made
  split at made
  next function found =>
    have among := List.mem_of_getElem? found
    split at made
    next instructions body =>
      obtain rfl := Except.ok.inj made
      obtain ⟨users, functions, labelled⟩ := sound.functions
      rw [functions] at among
      rcases List.mem_append.mp among with builtin | user
      · have computed := builtins_computed function builtin
        rw [body] at computed
        exact fun instruction member => .inl (List.all_eq_true.mp computed instruction member)
      · have named := (labelled function user).2.1
        simp [Function.label?, body] at named
    next label body =>
      obtain rfl := Except.ok.inj made
      intro instruction member
      obtain rfl := List.mem_singleton.mp member
      exact .inr ⟨function, among, label, by simp [Function.label?, body], rfl⟩
  next => cases made

theorem local_plain (sound : tree.IsSound) {id : VariableId} {context : ValueContext}
    {layout : List Int} (made : numberLayout tree id context = .ok layout) :
    IsPlain tree (.readLocal layout) ∧ IsPlain tree (.writeLocal layout) := by
  obtain ⟨slot, -, -, -, cells⟩ := numberLayout_eq_ok sound made
  exact ⟨.inl cells, .inl cells⟩

mutual

theorem expression_plain (sound : tree.IsSound) : ∀ {source : TypedExpression} {code : Listing},
    expression tree source = .ok code → ∀ instruction ∈ code, IsPlain tree instruction
  | .number value type, code, made => by
    obtain rfl := Except.ok.inj made
    intro instruction member
    obtain rfl := List.mem_singleton.mp member
    exact .inl rfl
  | .variable id type, code, made => by
    simp only [expression, Except.bind_eq_ok] at made
    obtain ⟨layout, found, made⟩ := made
    obtain rfl := Except.ok.inj made
    obtain ⟨read, write⟩ := local_plain sound found
    simp only [List.forall_mem_cons]
    exact ⟨read, .inl rfl, write, by simp⟩
  | .assign id value type, code, made => by
    simp only [expression, Except.bind_eq_ok] at made
    obtain ⟨inner, madeInner, layout, found, made⟩ := made
    obtain rfl := Except.ok.inj made
    simp only [List.forall_mem_append, List.forall_mem_cons]
    exact ⟨expression_plain sound madeInner, .inl rfl, (local_plain sound found).2, by simp⟩
  | .call function arguments type, code, made => by
    simp only [expression, Except.bind_eq_ok] at made
    obtain ⟨inner, madeInner, call, madeCall, made⟩ := made
    obtain rfl := Except.ok.inj made
    simp only [List.forall_mem_append]
    exact ⟨expressions_plain sound madeInner, callInstructions_plain sound madeCall⟩

theorem expressions_plain (sound : tree.IsSound) : ∀ {sources : List TypedExpression}
    {code : Listing}, expressions tree sources = .ok code →
      ∀ instruction ∈ code, IsPlain tree instruction
  | [], code, made => by
    obtain rfl := Except.ok.inj made
    simp
  | first :: rest, code, made => by
    simp only [expressions, Except.bind_eq_ok] at made
    obtain ⟨one, madeOne, others, madeOthers, made⟩ := made
    obtain rfl := Except.ok.inj made
    simp only [List.forall_mem_append]
    exact ⟨expression_plain sound madeOne, expressions_plain sound madeOthers⟩

end

/-! ## Statements -/

/-- The code of statements for which labels were handed out from one number up to another. -/
structure Tidy (tree : ScopeTree) (first last : Nat) (code : Listing) : Prop where
  grows : first ≤ last
  labels : (Listing.labels code).Perm ((List.range' first (last - first)).map Int.ofNat)
  targets : ∀ label, label ∈ Listing.targets code ↔ label ∈ Listing.labels code
  allowed : ∀ instruction ∈ code, IsPlain tree instruction ∨ IsFlow instruction

theorem Tidy.of_plain {number : Nat} (plain : ∀ instruction ∈ code, IsPlain tree instruction) :
    Tidy tree number number code where
  grows := Nat.le_refl _
  labels := by simp [labels_eq_nil plain]
  targets := by simp [targets_eq_nil plain, labels_eq_nil plain]
  allowed := fun instruction member => .inl (plain instruction member)

theorem range_append {first middle last : Nat} (low : first ≤ middle) (high : middle ≤ last) :
    List.range' first (last - first) =
      List.range' first (middle - first) ++ List.range' middle (last - middle) := by
  have split := @List.range'_append first (middle - first) (last - middle) 1
  rw [show first + 1 * (middle - first) = middle by omega,
    show middle - first + (last - middle) = last - first by omega] at split
  exact split.symm

theorem range_cons {first last : Nat} (below : first + 1 ≤ last) :
    List.range' first (last - first) = first :: List.range' (first + 1) (last - (first + 1)) := by
  rw [show last - first = last - (first + 1) + 1 by omega, List.range'_succ]

theorem Tidy.append {first middle last : Nat} {more : Listing} (left : Tidy tree first middle code)
    (right : Tidy tree middle last more) : Tidy tree first last (code ++ more) where
  grows := Nat.le_trans left.grows right.grows
  labels := by
    rw [range_append left.grows right.grows, List.map_append, Listing.labels,
      List.filterMap_append]
    exact left.labels.append right.labels
  targets := by
    intro label
    simp only [Listing.targets, Listing.labels, List.filterMap_append, List.mem_append]
    exact or_congr (left.targets label) (right.targets label)
  allowed := by
    simp only [List.forall_mem_append]
    exact ⟨left.allowed, right.allowed⟩

theorem dropValue_plain {type : ValueType} (made : dropValue type = .ok code) :
    ∀ instruction ∈ code, IsPlain tree instruction := by
  unfold dropValue at made
  split at made
  case h_1 | h_2 =>
    obtain rfl := Except.ok.inj made
    simp [IsPlain, Instruction.isBody]
  case h_3 => cases made

theorem newLabel_eq_ok {first last : Nat} {label : Int} :
    newLabel first = .ok (label, last) ↔ label = first ∧ last = first + 1 := by
  have runs : newLabel first = .ok ((first : Int), first + 1) := rfl
  simp [runs, eq_comm]

theorem labels_nil : Listing.labels [] = [] := rfl

theorem labels_cons (instruction : Instruction) (rest : Listing) :
    Listing.labels (instruction :: rest) = instruction.label?.toList ++ Listing.labels rest := by
  cases named : instruction.label? <;> simp [Listing.labels, named]

theorem labels_append (first second : Listing) : Listing.labels (first ++ second) =
    Listing.labels first ++ Listing.labels second := List.filterMap_append

theorem targets_nil : Listing.targets [] = [] := rfl

theorem targets_cons (instruction : Instruction) (rest : Listing) :
    Listing.targets (instruction :: rest) =
      instruction.jumpTarget?.toList ++ Listing.targets rest := by
  cases leads : instruction.jumpTarget? <;> simp [Listing.targets, leads]

theorem targets_append (first second : Listing) : Listing.targets (first ++ second) =
    Listing.targets first ++ Listing.targets second := List.filterMap_append

theorem allowed_plain (plain : ∀ instruction ∈ code, IsPlain tree instruction) :
    ∀ instruction ∈ code, IsPlain tree instruction ∨ IsFlow instruction :=
  fun instruction member => .inl (plain instruction member)

theorem Tidy.of_leave {number : Nat} {before : Listing}
    (plain : ∀ instruction ∈ before, IsPlain tree instruction) :
    Tidy tree number number (before ++ [.leave]) where
  grows := Nat.le_refl _
  labels := by
    simp [labels_append, labels_cons, labels_nil, labels_eq_nil plain, Instruction.label?]
  targets := by
    simp [targets_append, targets_cons, targets_nil, targets_eq_nil plain, labels_append,
      labels_cons, labels_nil, labels_eq_nil plain, Instruction.label?, Instruction.jumpTarget?]
  allowed := by
    simp only [List.forall_mem_append, List.forall_mem_singleton]
    exact ⟨allowed_plain plain, .inr trivial⟩

/-! ### Code around jumps -/

section

variable {test inner other : Listing} {number middle last : Nat}

theorem Tidy.ifThen (plain : ∀ instruction ∈ test, IsPlain tree instruction)
    (tidy : Tidy tree (number + 1) last inner) :
    Tidy tree number last (test ++ [.not, .jumpIf number] ++ inner ++ [.label number]) where
  grows := Nat.le_of_succ_le tidy.grows
  labels := by
    rw [range_cons tidy.grows]
    simpa [labels_append, labels_cons, labels_nil, labels_eq_nil plain, Instruction.label?] using
      (List.perm_append_singleton _ _).trans (tidy.labels.cons _)
  targets := by
    simp [targets_append, targets_cons, targets_nil, targets_eq_nil plain, labels_append,
      labels_cons, labels_nil, labels_eq_nil plain, Instruction.label?, Instruction.jumpTarget?,
      tidy.targets, or_comm]
  allowed := by
    simp only [List.forall_mem_append, List.forall_mem_singleton, List.forall_mem_cons]
    exact ⟨⟨⟨allowed_plain plain, .inl (.inl rfl), .inr trivial⟩, tidy.allowed⟩, .inr trivial⟩

theorem Tidy.ifThenElse (plain : ∀ instruction ∈ test, IsPlain tree instruction)
    (left : Tidy tree (number + 1 + 1) middle other) (right : Tidy tree middle last inner) :
    Tidy tree number last (test ++ [.jumpIf number] ++ other ++
      [.jump ((number + 1 : Nat) : Int), .label number] ++ inner ++
        [.label ((number + 1 : Nat) : Int)]) where
  grows := Nat.le_of_succ_le (Nat.le_of_succ_le (left.append right).grows)
  labels := by
    have both := left.append right
    rw [range_cons (Nat.le_of_succ_le both.grows), range_cons both.grows]
    have labels := both.labels
    rw [labels_append] at labels
    simp only [labels_append, labels_cons, labels_nil, labels_eq_nil plain, Instruction.label?,
      Option.toList_some, Option.toList_none, List.nil_append, List.append_nil, List.append_assoc,
      List.cons_append, List.map_cons]
    -- The label between the two parts was handed out first, and the one behind them second.
    refine List.perm_middle.trans (.cons _ ?_)
    rw [← List.append_assoc]
    exact (List.perm_append_singleton _ _).trans (labels.cons _)
  targets := by
    intro label
    simp only [targets_append, targets_cons, targets_nil, targets_eq_nil plain, labels_append,
      labels_cons, labels_nil, labels_eq_nil plain, Instruction.label?, Instruction.jumpTarget?,
      List.mem_append, Option.mem_toList, left.targets, right.targets]
    tauto
  allowed := by
    simp only [List.forall_mem_append, List.forall_mem_singleton, List.forall_mem_cons]
    exact ⟨⟨⟨⟨⟨allowed_plain plain, .inr trivial⟩, left.allowed⟩, .inr trivial, .inr trivial⟩,
      right.allowed⟩, .inr trivial⟩

theorem Tidy.whileDo (plain : ∀ instruction ∈ test, IsPlain tree instruction)
    (tidy : Tidy tree (number + 1 + 1) last inner) :
    Tidy tree number last ([.label number] ++ test ++ [.not, .jumpIf ((number + 1 : Nat) : Int)] ++
      inner ++ [.jump number, .label ((number + 1 : Nat) : Int)]) where
  grows := Nat.le_of_succ_le (Nat.le_of_succ_le tidy.grows)
  labels := by
    rw [range_cons (Nat.le_of_succ_le tidy.grows), range_cons tidy.grows]
    simpa [labels_append, labels_cons, labels_nil, labels_eq_nil plain, Instruction.label?] using
      (List.perm_append_singleton _ _).trans (tidy.labels.cons _)
  targets := by
    intro label
    simp only [targets_append, targets_cons, targets_nil, targets_eq_nil plain, labels_append,
      labels_cons, labels_nil, labels_eq_nil plain, Instruction.label?, Instruction.jumpTarget?,
      List.mem_append, Option.mem_toList, tidy.targets]
    tauto
  allowed := by
    simp only [List.forall_mem_append, List.forall_mem_singleton, List.forall_mem_cons]
    exact ⟨⟨⟨⟨.inr trivial, allowed_plain plain⟩, .inl (.inl rfl), .inr trivial⟩, tidy.allowed⟩,
      .inr trivial, .inr trivial⟩

theorem Tidy.doWhile (plain : ∀ instruction ∈ test, IsPlain tree instruction)
    (tidy : Tidy tree (number + 1) last inner) :
    Tidy tree number last ([.label number] ++ inner ++ test ++ [.jumpIf number]) where
  grows := Nat.le_of_succ_le tidy.grows
  labels := by
    rw [range_cons tidy.grows]
    simpa [labels_append, labels_cons, labels_nil, labels_eq_nil plain, Instruction.label?] using
      tidy.labels
  targets := by
    simp [targets_append, targets_cons, targets_nil, targets_eq_nil plain, labels_append,
      labels_cons, labels_nil, labels_eq_nil plain, Instruction.label?, Instruction.jumpTarget?,
      tidy.targets, or_comm]
  allowed := by
    simp only [List.forall_mem_append, List.forall_mem_singleton]
    exact ⟨⟨⟨.inr trivial, tidy.allowed⟩, allowed_plain plain⟩, .inr trivial⟩

end

/-! ### All statements -/

mutual

theorem statement_tidy (sound : tree.IsSound) : ∀ {source : TypedStatement} {code : Listing}
    {first last : Nat}, statement tree source first = .ok (code, last) → Tidy tree first last code
  | .block statements, code, first, last, made => blockStatements_tidy sound made
  | .declare id value, code, first, last, made => by
    simp only [statement, stateExcept_bind, stateExcept_lift, stateExcept_pure] at made
    obtain ⟨inner, _, ⟨madeInner, rfl⟩, layout, _, ⟨found, rfl⟩, rfl, rfl⟩ := made
    refine .of_plain ?_
    simp only [List.forall_mem_append, List.forall_mem_cons]
    exact ⟨expression_plain sound madeInner, (local_plain sound found).2, by simp⟩
  | .evaluate value, code, first, last, made => by
    simp only [statement, stateExcept_bind, stateExcept_lift, stateExcept_pure] at made
    obtain ⟨inner, _, ⟨madeInner, rfl⟩, drop, _, ⟨dropped, rfl⟩, rfl, rfl⟩ := made
    refine .of_plain ?_
    simp only [List.forall_mem_append]
    exact ⟨expression_plain sound madeInner, dropValue_plain dropped⟩
  | .ifThen condition consequence, code, first, last, made => by
    simp only [statement, stateExcept_bind, stateExcept_lift, stateExcept_pure,
      newLabel_eq_ok] at made
    obtain ⟨_, _, ⟨rfl, rfl⟩, test, _, ⟨madeTest, rfl⟩, inner, _, madeInner, rfl, rfl⟩ := made
    exact .ifThen (expression_plain sound madeTest) (statement_tidy sound madeInner)
  | .ifThenElse condition consequence alternative, code, first, last, made => by
    simp only [statement, stateExcept_bind, stateExcept_lift, stateExcept_pure,
      newLabel_eq_ok] at made
    obtain ⟨_, _, ⟨rfl, rfl⟩, _, _, ⟨rfl, rfl⟩, test, _, ⟨madeTest, rfl⟩, other, middle, madeOther,
      inner, _, madeInner, rfl, rfl⟩ := made
    exact .ifThenElse (expression_plain sound madeTest) (statement_tidy sound madeOther)
      (statement_tidy sound madeInner)
  | .whileDo condition body, code, first, last, made => by
    simp only [statement, stateExcept_bind, stateExcept_lift, stateExcept_pure,
      newLabel_eq_ok] at made
    obtain ⟨_, _, ⟨rfl, rfl⟩, _, _, ⟨rfl, rfl⟩, test, _, ⟨madeTest, rfl⟩, inner, _, madeInner, rfl,
      rfl⟩ := made
    exact .whileDo (expression_plain sound madeTest) (statement_tidy sound madeInner)
  | .doWhile body condition, code, first, last, made => by
    simp only [statement, stateExcept_bind, stateExcept_lift, stateExcept_pure,
      newLabel_eq_ok] at made
    obtain ⟨_, _, ⟨rfl, rfl⟩, inner, _, madeInner, test, _, ⟨madeTest, rfl⟩, rfl, rfl⟩ := made
    exact .doWhile (expression_plain sound madeTest) (statement_tidy sound madeInner)
  | .result none, code, first, last, made => by
    simp only [statement, stateExcept_pure] at made
    obtain ⟨rfl, rfl⟩ := made
    exact @Tidy.of_leave tree first [] (by simp)
  | .result (some value), code, first, last, made => by
    simp only [statement, stateExcept_bind, stateExcept_lift, stateExcept_pure] at made
    obtain ⟨inner, _, ⟨madeInner, rfl⟩, rfl, rfl⟩ := made
    have plain := expression_plain sound madeInner
    rw [← List.singleton_append, ← List.append_assoc]
    refine .of_leave ?_
    simp only [List.forall_mem_append, List.forall_mem_singleton]
    exact ⟨plain, .inl rfl⟩

theorem blockStatements_tidy (sound : tree.IsSound) : ∀ {sources : List TypedStatement}
    {code : Listing} {first last : Nat}, blockStatements tree sources first = .ok (code, last) →
      Tidy tree first last code
  | [], code, first, last, made => by
    simp only [blockStatements, stateExcept_pure] at made
    obtain ⟨rfl, rfl⟩ := made
    exact .of_plain (by simp)
  | source :: rest, code, first, last, made => by
    simp only [blockStatements, stateExcept_bind, stateExcept_pure] at made
    obtain ⟨one, middle, madeOne, others, _, madeOthers, rfl, rfl⟩ := made
    exact (statement_tidy sound madeOne).append (blockStatements_tidy sound madeOthers)

end

end Compile

end TapeCode
