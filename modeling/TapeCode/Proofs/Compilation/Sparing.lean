import TapeCode.Proofs.Compilation.WellFormed
import TapeCode.Proofs.Mentions
import TapeCode.Proofs.StackEffects

/-!
# Code that leaves a slot alone

Reading a variable empties its slot for a moment, and the value is written back at once. So compiled code
leaves every slot as it is to which no variable belongs that the code declares or assigns. The slot for
return addresses is used by every function, and every function leaves zero there.
-/
namespace TapeCode

/-- Whether an instruction names neither a slot nor a function. -/
def Instruction.isNameless (instruction : Instruction) : Bool :=
  instruction.slot?.isNone && instruction.invoked?.isNone

/-- An instruction that goes on to the next one and does not address the slot. -/
def Instruction.IsApart (slot : Nat) (instruction : Instruction) : Prop :=
  instruction.isBody = true ∧ instruction.slot? ≠ some slot

/-- Code that leaves a slot as it is: it reads it only to write the value back at once. The slot for
return addresses is zero, and a return address that is parked there is brought back. All functions that
the code calls are among those given. -/
inductive Listing.Spares (slot : Nat) (calls : Int → Prop) : Listing → Prop
  | nil : Spares slot calls []
  | restores {layout : List Int} {rest : Listing} (addressed : StackState.slot? layout = some slot)
      (others : Spares slot calls rest) :
      Spares slot calls (.readLocal layout :: .dupInt :: .writeLocal layout :: rest)
  | other {instruction : Instruction} {rest : Listing} (apart : instruction.slot? ≠ some slot)
      (called : ∀ id, instruction = .invoke id → calls id) (others : Spares slot calls rest) :
      Spares slot calls (instruction :: rest)
  | parks {layout : List Int} {meanwhile rest : Listing} (addresses : slot = 0)
      (addressed : StackState.slot? layout = some slot)
      (apart : ∀ instruction ∈ meanwhile, instruction.IsApart slot) (others : Spares slot calls rest) :
      Spares slot calls (.writeLocal layout :: (meanwhile ++ .readLocal layout :: rest))

/-- What code may mention if it is to leave the slot alone. No variable of a program has the slot for
return addresses. -/
def Mention.Spares (tree : ScopeTree) (slot : Nat) (calls : Int → Prop) : Mention → Prop
  | .declares id | .assigns id => slot ≠ 0 → tree.slot? id ≠ some slot
  | .reads _ => True
  | .calls id => ∀ label : Nat, Compile.labelOf? tree id = some label → calls label

variable {tree : ScopeTree} {slot : Nat} {calls : Int → Prop} {code : Listing}

namespace Listing.Spares

theorem append {more : Listing} (first : Spares slot calls code) (second : Spares slot calls more) :
    Spares slot calls (code ++ more) := by
  induction first with
  | nil => exact second
  | restores addressed _ ih => exact .restores addressed ih
  | other apart called _ ih => exact .other apart called ih
  | parks addresses addressed apart _ ih =>
    simpa using parks addresses addressed apart ih

/-- Instructions that name neither a slot nor a function. -/
theorem of_nameless (nameless : code.all (·.isNameless) = true) : Spares slot calls code := by
  induction code with
  | nil => exact .nil
  | cons instruction rest ih =>
    simp only [List.all_cons, Bool.and_eq_true, Instruction.isNameless,
      Option.isNone_iff_eq_none] at nameless
    obtain ⟨⟨noSlot, noCall⟩, nameless⟩ := nameless
    refine .other (by simp [noSlot]) (fun id same => ?_)
        (ih (by simpa [Instruction.isNameless] using nameless))
    subst same
    cases noCall

theorem of_apart (apart : ∀ instruction ∈ code, instruction.IsApart slot) : Spares slot calls code := by
  induction code with
  | nil => exact .nil
  | cons instruction rest ih =>
    obtain ⟨⟨body, here⟩, apart⟩ := List.forall_mem_cons.mp apart
    refine .other here (fun id same => ?_) (ih apart)
    subst same
    cases body

theorem write {layout : List Int} {place : Nat} {id : VariableId} (has : tree.slot? id = some place)
    (own : place ≠ 0) (addressed : StackState.slot? layout = some place)
    (allowed : slot ≠ 0 → tree.slot? id ≠ some slot) : Spares slot calls [.writeLocal layout] := by
  refine .other (fun same => ?_) nofun .nil
  obtain rfl : place = slot := Option.some.inj (addressed.symm.trans same)
  exact allowed own has

/-- Behind a label the slot is left alone, too. -/
theorem behindLabel? {label : Int} {rest : Listing} (spares : Spares slot calls code)
    (found : Listing.behindLabel? label code = some rest) : Spares slot calls rest := by
  induction spares with
  | nil => cases found
  | restores addressed _ ih => exact ih (by simpa [Listing.behindLabel?] using found)
  | @other instruction others _ _ spared ih =>
    rw [Listing.behindLabel?] at found
    split at found
    · obtain rfl := Option.some.inj found
      exact spared
    · exact ih found
  | @parks layout meanwhile others addresses addressed apart _ ih =>
    rw [Listing.behindLabel?, if_neg nofun] at found
    induction meanwhile with
    | nil => exact ih (by simpa [Listing.behindLabel?] using found)
    | cons instruction meanwhile inner =>
      obtain ⟨⟨body, -⟩, apart⟩ := List.forall_mem_cons.mp apart
      rw [List.cons_append, Listing.behindLabel?, if_neg (by rintro rfl; cases body)] at found
      exact inner apart found

end Listing.Spares

/-! ## Compiled code -/

namespace Compile

theorem builtins_nameless : ∀ function ∈ Function.builtins, (match function.body with
    | .inPlace instructions => instructions.all (·.isNameless)
    | .labelled _ => false) = true := by
  decide

theorem callInstructions_spares (sound : tree.IsSound) {id : FunctionId}
    (made : callInstructions tree id = .ok code) (allowed : (Mention.calls id).Spares tree slot calls) :
    code.Spares slot calls := by
  unfold callInstructions at made
  split at made
  next function found =>
    split at made
    next instructions body =>
      obtain rfl := Except.ok.inj made
      obtain ⟨users, functions, labelled⟩ := sound.functions
      have among := List.mem_of_getElem? found
      rw [functions] at among
      rcases List.mem_append.mp among with builtin | user
      · have nameless := builtins_nameless function builtin
        rw [body] at nameless
        exact .of_nameless nameless
      · have named := (labelled function user).2.1
        simp [Function.label?, body] at named
    next label body =>
      obtain rfl := Except.ok.inj made
      refine .other (by simp [Instruction.slot?]) (fun called same => ?_) .nil
      obtain rfl := Instruction.invoke.inj same
      exact allowed label (by simp [labelOf?, found, Function.label?, body])
  next => cases made

mutual

theorem expression_spares (sound : tree.IsSound) : ∀ {source : TypedExpression} {code : Listing},
    expression tree source = .ok code →
      (∀ mention ∈ source.mentions, mention.Spares tree slot calls) → code.Spares slot calls
  | .number value type, code, made, _ => by
    obtain rfl := Except.ok.inj made
    exact .of_nameless rfl
  | .variable id type, code, made, _ => by
    simp only [expression, Except.bind_eq_ok] at made
    obtain ⟨layout, found, made⟩ := made
    obtain rfl := Except.ok.inj made
    obtain ⟨place, -, -, addressed, -⟩ := numberLayout_eq_ok sound found
    -- Reading takes the value out of the slot and writes it back: if it is this slot, it is restored.
    by_cases same : place = slot
    · exact .restores (same ▸ addressed) .nil
    · have apart : StackState.slot? layout ≠ some slot := by simpa [addressed] using same
      exact .other apart nofun (.other nofun nofun (.other apart nofun .nil))
  | .assign id value type, code, made, allowed => by
    simp only [expression, Except.bind_eq_ok] at made
    obtain ⟨inner, madeInner, layout, found, made⟩ := made
    obtain rfl := Except.ok.inj made
    obtain ⟨place, has, own, addressed, -⟩ := numberLayout_eq_ok sound found
    simp only [TypedExpression.mentions, List.forall_mem_append, List.forall_mem_singleton] at allowed
    exact (expression_spares sound madeInner allowed.1).append
      (.other nofun nofun (.write has own addressed allowed.2))
  | .call function arguments type, code, made, allowed => by
    simp only [expression, Except.bind_eq_ok] at made
    obtain ⟨before, madeBefore, call, madeCall, made⟩ := made
    obtain rfl := Except.ok.inj made
    simp only [TypedExpression.mentions, List.forall_mem_append, List.forall_mem_singleton] at allowed
    exact (expressions_spare sound madeBefore allowed.1).append
      (callInstructions_spares sound madeCall allowed.2)

theorem expressions_spare (sound : tree.IsSound) : ∀ {sources : List TypedExpression}
    {code : Listing}, expressions tree sources = .ok code →
      (∀ mention ∈ TypedExpression.allMentions sources, mention.Spares tree slot calls) →
      code.Spares slot calls
  | [], code, made, _ => by
    obtain rfl := Except.ok.inj made
    exact .nil
  | first :: rest, code, made, allowed => by
    simp only [expressions, Except.bind_eq_ok] at made
    obtain ⟨one, madeOne, others, madeOthers, made⟩ := made
    obtain rfl := Except.ok.inj made
    simp only [TypedExpression.allMentions, List.forall_mem_append] at allowed
    exact (expression_spares sound madeOne allowed.1).append
      (expressions_spare sound madeOthers allowed.2)

end

theorem dropValue_spares {type : ValueType} (made : dropValue type = .ok code) :
    code.Spares slot calls := by
  unfold dropValue at made
  split at made
  case h_1 =>
    obtain rfl := Except.ok.inj made
    exact .nil
  case h_2 =>
    obtain rfl := Except.ok.inj made
    exact .of_nameless rfl
  case h_3 => cases made

theorem ending_spares {type : ValueType} (made : ending type = .ok code) : code.Spares slot calls := by
  unfold ending at made
  split at made
  case h_1 =>
    obtain rfl := Except.ok.inj made
    exact .of_nameless rfl
  case h_2 =>
    obtain rfl := Except.ok.inj made
    exact .of_nameless rfl
  case h_3 => cases made

theorem storeParameters_apart (sound : tree.IsSound) {ids : List VariableId}
    (made : storeParameters tree ids = .ok code)
    (allowed : ∀ id ∈ ids, slot ≠ 0 → tree.slot? id ≠ some slot) :
    ∀ instruction ∈ code, instruction.IsApart slot := by
  induction ids generalizing code with
  | nil =>
    obtain rfl := Except.ok.inj made
    nofun
  | cons first rest ih =>
    simp only [storeParameters, Except.bind_eq_ok] at made
    obtain ⟨layout, found, others, madeOthers, made⟩ := made
    obtain rfl := Except.ok.inj made
    obtain ⟨here, allowed⟩ := List.forall_mem_cons.mp allowed
    obtain ⟨place, has, own, addressed, cells⟩ := numberLayout_eq_ok sound found
    refine List.forall_mem_cons.mpr ⟨⟨by simpa [Instruction.isBody] using cells, fun same => ?_⟩,
      ih madeOthers allowed⟩
    obtain rfl : place = slot := Option.some.inj (addressed.symm.trans same)
    exact here own has

mutual

theorem statement_spares (sound : tree.IsSound) : ∀ {source : TypedStatement} {code : Listing}
    {first last : Nat}, statement tree source first = .ok (code, last) →
      (∀ mention ∈ source.mentions, mention.Spares tree slot calls) → code.Spares slot calls
  | .block statements, code, first, last, made, allowed => blockStatements_spare sound made allowed
  | .declare id value, code, first, last, made, allowed => by
    simp only [statement, stateExcept_bind, stateExcept_lift, stateExcept_pure] at made
    obtain ⟨inner, _, ⟨madeInner, rfl⟩, layout, _, ⟨found, rfl⟩, rfl, rfl⟩ := made
    obtain ⟨place, has, own, addressed, -⟩ := numberLayout_eq_ok sound found
    simp only [TypedStatement.mentions, List.forall_mem_append, List.forall_mem_singleton] at allowed
    exact (expression_spares sound madeInner allowed.1).append (.write has own addressed allowed.2)
  | .evaluate value, code, first, last, made, allowed => by
    simp only [statement, stateExcept_bind, stateExcept_lift, stateExcept_pure] at made
    obtain ⟨inner, _, ⟨madeInner, rfl⟩, drop, _, ⟨dropped, rfl⟩, rfl, rfl⟩ := made
    exact (expression_spares sound madeInner allowed).append (dropValue_spares dropped)
  | .ifThen condition consequence, code, first, last, made, allowed => by
    simp only [statement, stateExcept_bind, stateExcept_lift, stateExcept_pure,
      newLabel_eq_ok] at made
    obtain ⟨_, _, ⟨rfl, rfl⟩, test, _, ⟨madeTest, rfl⟩, inner, _, madeInner, rfl, rfl⟩ := made
    simp only [TypedStatement.mentions, List.forall_mem_append] at allowed
    have tests := expression_spares sound madeTest allowed.1
    have inside := statement_spares sound madeInner allowed.2
    exact ((tests.append (.of_nameless rfl)).append inside).append (.of_nameless rfl)
  | .ifThenElse condition consequence alternative, code, first, last, made, allowed => by
    simp only [statement, stateExcept_bind, stateExcept_lift, stateExcept_pure,
      newLabel_eq_ok] at made
    obtain ⟨_, _, ⟨rfl, rfl⟩, _, _, ⟨rfl, rfl⟩, test, _, ⟨madeTest, rfl⟩, other, middle, madeOther,
      inner, _, madeInner, rfl, rfl⟩ := made
    simp only [TypedStatement.mentions, List.forall_mem_append] at allowed
    obtain ⟨⟨allowedTest, allowedInner⟩, allowedOther⟩ := allowed
    have tests := expression_spares sound madeTest allowedTest
    have left := statement_spares sound madeOther allowedOther
    have right := statement_spares sound madeInner allowedInner
    exact ((((tests.append (.of_nameless rfl)).append left).append (.of_nameless rfl)).append
      right).append (.of_nameless rfl)
  | .whileDo condition body, code, first, last, made, allowed => by
    simp only [statement, stateExcept_bind, stateExcept_lift, stateExcept_pure,
      newLabel_eq_ok] at made
    obtain ⟨_, _, ⟨rfl, rfl⟩, _, _, ⟨rfl, rfl⟩, test, _, ⟨madeTest, rfl⟩, inner, _, madeInner, rfl,
      rfl⟩ := made
    simp only [TypedStatement.mentions, List.forall_mem_append] at allowed
    have tests := expression_spares sound madeTest allowed.1
    have inside := statement_spares sound madeInner allowed.2
    exact ((((Listing.Spares.of_nameless rfl).append tests).append (.of_nameless rfl)).append
      inside).append (.of_nameless rfl)
  | .doWhile body condition, code, first, last, made, allowed => by
    simp only [statement, stateExcept_bind, stateExcept_lift, stateExcept_pure,
      newLabel_eq_ok] at made
    obtain ⟨_, _, ⟨rfl, rfl⟩, inner, _, madeInner, test, _, ⟨madeTest, rfl⟩, rfl, rfl⟩ := made
    simp only [TypedStatement.mentions, List.forall_mem_append] at allowed
    have tests := expression_spares sound madeTest allowed.2
    have inside := statement_spares sound madeInner allowed.1
    exact (((Listing.Spares.of_nameless rfl).append inside).append tests).append (.of_nameless rfl)
  | .result none, code, first, last, made, allowed => by
    obtain ⟨rfl, rfl⟩ := stateExcept_pure.mp made
    exact .of_nameless rfl
  | .result (some value), code, first, last, made, allowed => by
    simp only [statement, stateExcept_bind, stateExcept_lift, stateExcept_pure] at made
    obtain ⟨inner, _, ⟨madeInner, rfl⟩, rfl, rfl⟩ := made
    exact (expression_spares sound madeInner allowed).append
      (.of_nameless rfl)

theorem blockStatements_spare (sound : tree.IsSound) : ∀ {sources : List TypedStatement}
    {code : Listing} {first last : Nat}, blockStatements tree sources first = .ok (code, last) →
      (∀ mention ∈ TypedStatement.allMentions sources, mention.Spares tree slot calls) →
      code.Spares slot calls
  | [], code, first, last, made, _ => by
    obtain ⟨rfl, rfl⟩ := stateExcept_pure.mp made
    exact .nil
  | source :: rest, code, first, last, made, allowed => by
    simp only [blockStatements, stateExcept_bind, stateExcept_pure] at made
    obtain ⟨one, middle, madeOne, others, _, madeOthers, rfl, rfl⟩ := made
    simp only [TypedStatement.allMentions, List.forall_mem_append] at allowed
    exact (statement_spares sound madeOne allowed.1).append
      (blockStatements_spare sound madeOthers allowed.2)

end

/-- The code of a function declares the parameters, too. -/
theorem function_spares (sound : tree.IsSound) {source : TypedFunction} {first last : Nat}
    (made : function tree source first = .ok (code, last))
    (allowed : ∀ mention ∈ source.mentions, mention.Spares tree slot calls) :
    code.Spares slot calls := by
  simp only [function, stateExcept_bind, stateExcept_lift, stateExcept_pure] at made
  obtain ⟨address, _, ⟨found, rfl⟩, parameters, _, ⟨stored, rfl⟩, body, _, madeBody, finish, _,
    ⟨ended, rfl⟩, rfl, rfl⟩ := made
  simp only [TypedFunction.mentions, List.forall_mem_append, List.forall_mem_map] at allowed
  obtain ⟨addressed, fills⟩ := addressLayout sound found
  have apart := storeParameters_apart sound stored fun id member =>
    allowed.1 id (List.mem_reverse.mp member)
  have inside := (statement_spares sound madeBody allowed.2).append (ending_spares ended)
  by_cases addresses : slot = 0
  · simpa using Listing.Spares.parks addresses (addresses ▸ addressed) apart inside
  · have elsewhere : StackState.slot? address ≠ some slot := by
      simpa [addressed] using Ne.symm addresses
    have moved : parameters.Spares slot calls := .of_apart apart
    have back : Listing.Spares slot calls (.readLocal address :: (body ++ finish)) :=
      .other elsewhere nofun inside
    have whole : Listing.Spares slot calls
        (.writeLocal address :: (parameters ++ .readLocal address :: (body ++ finish))) :=
      .other elsewhere nofun (moved.append back)
    simpa using whole

end Compile

/-! ## Compiled programs -/

/-- The main block or a function leaves the slot alone. -/
def Program.BodySpares (program : Program) (slot : Nat) (calls : Int → Prop) (function : Option Int) :
    Prop :=
  ∀ body, program.body? function = some body → body.Spares slot calls

/-- A call of the function can lead into the code under the label. -/
def TypedProgram.Enters (whole : TypedProgram) (tree : ScopeTree) (function : FunctionId) (id : Int) :
    Prop :=
  ∃ (callee : FunctionId) (label : Nat), whole.Reaches function callee ∧
    Compile.labelOf? tree callee = some label ∧ id = label

namespace TypedProgram.IsCompiled

variable {whole : TypedProgram} {program : Program}

/-- A function leaves a slot alone if no variable in that slot is declared or assigned in the function or
in those that a call of it can lead to. -/
theorem spares (sound : whole.IsSound tree) (compiled : whole.IsCompiled tree program)
    {function : FunctionId}
    (apart : ∀ id, whole.Mentions function (.declares id) ∨ whole.Mentions function (.assigns id) →
      slot ≠ 0 → tree.slot? id ≠ some slot) {id : Int} (entered : whole.Enters tree function id) :
    program.BodySpares slot (whole.Enters tree function) (some id) := by
  intro body found
  obtain ⟨callee, label, reaches, has, rfl⟩ := entered
  obtain ⟨source, member, ⟨other, hasToo, same⟩, first, last, made⟩ :=
    compiled.only _ (FunctionTable.mem_of_get? found)
  obtain rfl : label = other := Int.ofNat.inj same
  obtain rfl := Compile.labelOf?_injective sound.scopes has hasToo
  refine Compile.function_spares sound.scopes made fun mention among => ?_
  have mentions : whole.Mentions function mention := ⟨source, member, reaches, among⟩
  cases mention with
  | declares id => exact apart id (.inl mentions)
  | assigns id => exact apart id (.inr mentions)
  | reads id => trivial
  | calls callee => exact fun label has => ⟨callee, label, mentions.reaches, has, rfl⟩

/-- The slot for return addresses is left alone by all code. -/
theorem spares_addresses (sound : whole.IsSound tree) (compiled : whole.IsCompiled tree program)
    (function : Option Int) : program.BodySpares 0 (fun _ => True) function := by
  have allowed (mention : Mention) : mention.Spares tree 0 fun _ => True := by
    cases mention <;> simp [Mention.Spares]
  intro body found
  cases function with
  | none =>
    obtain rfl := Option.some.inj found
    obtain ⟨last, made⟩ := compiled.main
    exact Compile.blockStatements_spare sound.scopes made fun mention _ => allowed mention
  | some id =>
    obtain ⟨source, member, -, first, last, made⟩ :=
      compiled.only _ (FunctionTable.mem_of_get? found)
    exact Compile.function_spares sound.scopes made fun mention _ => allowed mention

end TypedProgram.IsCompiled

end TapeCode
