import TapeCode.Proofs.Compilation.Shapes

/-!
# Shapes in compiled code

The code of an expression replaces nothing on the stack and leaves its value there, whatever else is
there. The code of a statement is entered and left with nothing but the return address above the stack of
the caller, and a statement that neither branches nor returns does not even need to find that. The code of
a function begins with the arguments below the return address and gets to its last `return` with the
result in their place.
-/
namespace TapeCode

open Shape

/-- Wherever the bytes on top stand, the code leaves others in their place. -/
def Replaces (tree : ScopeTree) (code : Listing) (taken left : Nat) : Prop :=
  ∀ (result : Option ValueType) (cells : List Cell),
    (⟨bytes taken ++ cells, false⟩ : Shape).scan tree result code = some ⟨bytes left ++ cells, false⟩

/-- A listing on bytes changes the shape as a scan of the height says. -/
theorem Shape.scan_onBytes {tree : ScopeTree} {result : Option ValueType} {code : Listing}
    (onBytes : code.all (·.isOnBytes) = true) {index taken left : Nat}
    (scanned : StackHeight.scan index taken code = .ok left) (cells : List Cell) (parked : Bool) :
    (⟨bytes taken ++ cells, parked⟩ : Shape).scan tree result code =
      some ⟨bytes left ++ cells, parked⟩ := by
  induction code generalizing index taken with
  | nil =>
    obtain rfl := Except.ok.inj scanned
    rfl
  | cons instruction rest ih =>
    simp only [List.all_cons, Bool.and_eq_true] at onBytes
    have body : instruction.isBody = true := (Bool.and_eq_true_iff.mp onBytes.1).1
    obtain ⟨effect, has⟩ := StackState.stackEffect?_of_body body
    simp only [StackHeight.scan, has] at scanned
    split at scanned
    · cases scanned
    next enough =>
      obtain ⟨below, rfl⟩ := Nat.exists_eq_add_of_le (Nat.le_of_not_lt enough)
      have replaced : (⟨bytes (effect.pops + below) ++ cells, parked⟩ : Shape).after? tree result
          instruction = some ⟨bytes (below + effect.pushes) ++ cells, parked⟩ := by
        rw [after?_body body, computed?_onBytes onBytes.1, has]
        refine replace?_eq_some.mpr ⟨bytes below ++ cells, ?_, ?_⟩
        · rw [bytes, List.replicate_add, List.append_assoc]
          rfl
        · rw [Nat.add_comm, bytes, List.replicate_add, List.append_assoc]
          rfl
      rw [Nat.add_sub_cancel_left] at scanned
      rw [scan, replaced]
      exact ih onBytes.2 scanned

namespace Replaces

variable {tree : ScopeTree} {code more : Listing} {taken between left : Nat}

theorem nil (count : Nat) : Replaces tree [] count count := fun _ _ => rfl

theorem append (first : Replaces tree code taken between) (second : Replaces tree more between left) :
    Replaces tree (code ++ more) taken left := by
  intro result cells
  rw [scan_append, first result cells]
  exact second result cells

/-- Bytes further down stay where they are. -/
theorem above (replaces : Replaces tree code taken left) (below : Nat) :
    Replaces tree code (taken + below) (left + below) := by
  intro result cells
  rw [bytes, List.replicate_add, List.append_assoc, bytes, List.replicate_add, List.append_assoc]
  exact replaces result _

theorem of_scan (onBytes : code.all (·.isOnBytes) = true) {index : Nat}
    (scanned : StackHeight.scan index taken code = .ok left) : Replaces tree code taken left :=
  fun _ cells => scan_onBytes onBytes scanned cells false

end Replaces

variable {whole : TypedProgram} {tree : ScopeTree} {code : Listing}

/-! ## Expressions -/

theorem builtins_onBytes : ∀ function ∈ Function.builtins,
    (match function.body with
      | .inPlace instructions => instructions.all (·.isOnBytes)
      | .labelled _ => false) = true := by
  decide

theorem Instruction.isOnBytes_local (sound : tree.IsSound) {id : VariableId} {context : ValueContext}
    {layout : List Int} (made : Compile.numberLayout tree id context = .ok layout) :
    (Instruction.readLocal layout).isOnBytes = true ∧
      (Instruction.writeLocal layout).isOnBytes = true := by
  obtain ⟨slot, -, own, addressed, cells⟩ := Compile.numberLayout_eq_ok sound made
  simp [isOnBytes, isBody, cells, addressed, own]

/-- A call of a labelled function is a call of that function. -/
theorem ScopeTree.IsSound.invoked? (sound : tree.IsSound) {id : FunctionId} {called : Function}
    (found : tree.functions[id]? = some called) {label : Nat} (has : called.label? = some label) :
    tree.invoked? label = some called := by
  have known : (tree.invoked? label).isSome = true :=
    List.find?_isSome.mpr ⟨called, List.mem_of_getElem? found, by simp [has]⟩
  obtain ⟨other, first⟩ := Option.isSome_iff_exists.mp known
  have named : other.label? = some label := by
    obtain ⟨number, named, same⟩ := Option.map_eq_some_iff.mp (of_decide_eq_true (List.find?_some first :))
    rw [named, Int.ofNat.inj same]
  obtain ⟨index, there⟩ := List.getElem?_of_mem (List.mem_of_find?_eq_some first)
  obtain rfl : index = id := Compile.labelOf?_injective sound
    (by rw [Compile.labelOf?, there, Option.bind_some, named])
    (by rw [Compile.labelOf?, found, Option.bind_some, has])
  rw [first, ← there, found]

theorem callInstructions_replaces (sound : whole.IsSound tree) {id : FunctionId} {called : Function}
    (found : tree.functions[id]? = some called) (other : called.name ≠ assignment)
    (made : Compile.callInstructions tree id = .ok code) :
    Replaces tree code called.parameters.length called.result.height := by
  unfold Compile.callInstructions at made
  rw [found] at made
  cases body : called.body with
  | labelled label =>
    simp only [body] at made
    obtain rfl := Except.ok.inj made
    have known := sound.scopes.invoked? found
        (show called.label? = some label by simp [Function.label?, body])
    intro result cells
    have replaced : (⟨bytes called.parameters.length ++ cells, false⟩ : Shape).replace?
        called.effect = some ⟨bytes called.result.height ++ cells, false⟩ :=
      replace?_eq_some.mpr ⟨cells, rfl, rfl⟩
    simp [scan, after?, known, replaced]
  | inPlace instructions =>
    simp only [body] at made
    obtain rfl := Except.ok.inj made
    obtain ⟨users, functions, labelled⟩ := sound.scopes.functions
    have among := List.mem_of_getElem? found
    rw [functions] at among
    rcases List.mem_append.mp among with builtin | user
    · have onBytes := builtins_onBytes called builtin
      have climbs := builtins_climb called builtin other
      simp only [Function.climbsAsDeclared, body, Bool.and_eq_true, decide_eq_true_eq] at climbs onBytes
      obtain ⟨-, scanned⟩ := climbs
      cases result : StackHeight.check instructions called.parameters.length with
      | error error => simp [result, Except.toOption] at scanned
      | ok height =>
        obtain rfl : height = _ := by simpa [result, Except.toOption] using scanned
        exact .of_scan onBytes result
    · have named := (labelled called user).2.1
      simp [Function.label?, body] at named

mutual

theorem expression_replaces (sound : whole.IsSound tree) {home : ScopeId} :
    ∀ {source : TypedExpression} {code : Listing}, source.IsSound tree home →
      Compile.expression tree source = .ok code → Replaces tree code 0 source.type.height
  | .number value type, code, typed, made => by
    obtain rfl := Except.ok.inj made
    obtain rfl := typed
    exact @Replaces.of_scan _ _ _ _ rfl 0 rfl
  | .variable id type, code, typed, made => by
    simp only [Compile.expression, Except.bind_eq_ok] at made
    obtain ⟨layout, found, made⟩ := made
    obtain rfl := Except.ok.inj made
    obtain ⟨-, rfl⟩ := typed
    obtain ⟨read, write⟩ := Instruction.isOnBytes_local sound.scopes found
    exact @Replaces.of_scan _ _ _ _ (by simp [read, write]; rfl) 0 rfl
  | .assign id value type, code, typed, made => by
    simp only [Compile.expression, Except.bind_eq_ok] at made
    obtain ⟨inner, madeInner, layout, found, made⟩ := made
    obtain rfl := Except.ok.inj made
    obtain ⟨typedInner, number, rfl, -⟩ := typed
    obtain ⟨-, write⟩ := Instruction.isOnBytes_local sound.scopes found
    have inside := expression_replaces sound typedInner madeInner
    rw [number] at inside
    exact inside.append (@Replaces.of_scan _ _ _ _ (by simp [write]; rfl) 0 rfl)
  | .call function arguments type, code, typed, made => by
    simp only [Compile.expression, Except.bind_eq_ok] at made
    obtain ⟨before, madeBefore, call, madeCall, made⟩ := made
    obtain rfl := Except.ok.inj made
    obtain ⟨typedArguments, called, found, other, accepts, rfl, -⟩ := typed
    obtain ⟨count, numbers⟩ := sound.arguments found accepts
    have given := expressions_replace sound typedArguments
      (fun argument member => numbers _ (List.mem_map_of_mem member)) madeBefore
    rw [List.length_map] at count
    exact given.append (count ▸ callInstructions_replaces sound found other madeCall)

theorem expressions_replace (sound : whole.IsSound tree) {home : ScopeId} :
    ∀ {sources : List TypedExpression} {code : Listing},
      TypedExpression.AreSound tree home sources → (∀ source ∈ sources, source.type ≠ .void) →
      Compile.expressions tree sources = .ok code → Replaces tree code 0 sources.length
  | [], code, typed, numbers, made => by
    obtain rfl := Except.ok.inj made
    exact .nil 0
  | first :: rest, code, typed, numbers, made => by
    simp only [Compile.expressions, Except.bind_eq_ok] at made
    obtain ⟨one, madeOne, others, madeOthers, made⟩ := made
    obtain rfl := Except.ok.inj made
    obtain ⟨number, numbers⟩ := List.forall_mem_cons.mp numbers
    have first := expression_replaces sound typed.1 madeOne
    rw [ValueType.height, if_neg number] at first
    have later := (expressions_replace sound typed.2 numbers madeOthers).above 1
    rw [Nat.zero_add] at later
    exact first.append later

end

theorem condition_replaces (sound : whole.IsSound tree) {home : ScopeId} {source : TypedExpression}
    (typed : source.IsSound tree home) (number : source.type = .int)
    (made : Compile.expression tree source = .ok code) : Replaces tree code 0 1 := by
  have replaces := expression_replaces sound typed made
  rwa [number] at replaces

/-! ## Statements -/

/-- Code that is entered and left between statements. If it goes straight on, it may stand anywhere. -/
structure Neutral (tree : ScopeTree) (result : Option ValueType) (code : Listing) : Prop where
  leveled : (level result).scan tree result code = some (level result)
  straight : (∀ instruction ∈ code, ¬Compile.IsFlow instruction) → Replaces tree code 0 0

namespace Neutral

variable {result : Option ValueType} {more : Listing}

theorem of_replaces (replaces : Replaces tree code 0 0) : Neutral tree result code :=
  ⟨replaces result (level result).cells, fun _ => replaces⟩

theorem append (first : Neutral tree result code) (second : Neutral tree result more) :
    Neutral tree result (code ++ more) where
  leveled := by
    rw [scan_append, first.leveled]
    exact second.leveled
  straight := fun goes => by
    simp only [List.forall_mem_append] at goes
    exact (first.straight goes.1).append (second.straight goes.2)

/-- Code with an instruction that leads elsewhere stands only between statements. -/
theorem of_flow {instruction : Instruction} (member : instruction ∈ code)
    (flow : Compile.IsFlow instruction)
    (leveled : (level result).scan tree result code = some (level result)) :
    Neutral tree result code :=
  ⟨leveled, fun goes => absurd flow (goes instruction member)⟩

theorem label (id : Int) : Neutral tree result [.label id] :=
  of_flow List.mem_cons_self trivial (by simp [scan, after?])

theorem jump (target : Int) : Neutral tree result [.jump target] :=
  of_flow List.mem_cons_self trivial (by simp [scan, after?])

/-- A condition and the jump behind it. -/
theorem branch (test : Replaces tree code 0 1) (target : Int) :
    Neutral tree result (code ++ [.jumpIf target]) := by
  refine of_flow (List.mem_append_right _ List.mem_cons_self) trivial ?_
  rw [scan_append, show level result = ⟨bytes 0 ++ (level result).cells, false⟩ from rfl, test]
  simp [scan, after?, bytes, level]

theorem branch_unless (test : Replaces tree code 0 1) (target : Int) :
    Neutral tree result (code ++ [.not, .jumpIf target]) := by
  have negated : Replaces tree (code ++ [.not]) 0 1 :=
    test.append (@Replaces.of_scan _ _ _ _ rfl 0 rfl)
  simpa using branch negated target

end Neutral

theorem dropValue_replaces {type : ValueType} (made : Compile.dropValue type = .ok code) :
    Replaces tree code type.height 0 := by
  unfold Compile.dropValue at made
  split at made
  case h_1 =>
    obtain rfl := Except.ok.inj made
    exact .nil 0
  case h_2 =>
    obtain rfl := Except.ok.inj made
    exact @Replaces.of_scan _ _ _ _ rfl 0 rfl
  case h_3 => cases made

mutual

theorem statement_neutral (sound : whole.IsSound tree) {home : ScopeId} {result : Option ValueType} :
    ∀ {source : TypedStatement} {code : Listing} {first last : Nat},
      source.IsSound tree home result → Compile.statement tree source first = .ok (code, last) →
      Neutral tree result code
  | .block statements, code, first, last, typed, made => blockStatements_neutral sound typed made
  | .declare id value, code, first, last, typed, made => by
    simp only [Compile.statement, stateExcept_bind, stateExcept_lift, stateExcept_pure] at made
    obtain ⟨inner, _, ⟨madeInner, rfl⟩, layout, _, ⟨found, rfl⟩, rfl, rfl⟩ := made
    obtain ⟨-, write⟩ := Instruction.isOnBytes_local sound.scopes found
    have inside := condition_replaces sound typed.1 typed.2.1 madeInner
    exact .of_replaces (inside.append (@Replaces.of_scan _ _ _ _ (by simp [write]) 0 rfl))
  | .evaluate value, code, first, last, typed, made => by
    simp only [Compile.statement, stateExcept_bind, stateExcept_lift, stateExcept_pure] at made
    obtain ⟨inner, _, ⟨madeInner, rfl⟩, drop, _, ⟨dropped, rfl⟩, rfl, rfl⟩ := made
    exact .of_replaces ((expression_replaces sound typed madeInner).append (dropValue_replaces dropped))
  | .ifThen condition consequence, code, first, last, typed, made => by
    simp only [Compile.statement, stateExcept_bind, stateExcept_lift, stateExcept_pure,
      Compile.newLabel_eq_ok] at made
    obtain ⟨_, _, ⟨rfl, rfl⟩, test, _, ⟨madeTest, rfl⟩, inner, _, madeInner, rfl, rfl⟩ := made
    -- The condition leaves one byte, and the branch takes it again on both ways.
    have branch : Neutral tree result _ :=
      .branch_unless (condition_replaces sound typed.1 typed.2.1 madeTest) first
    have inside := statement_neutral sound typed.2.2 madeInner
    exact (branch.append inside).append (.label _)
  | .ifThenElse condition consequence alternative, code, first, last, typed, made => by
    simp only [Compile.statement, stateExcept_bind, stateExcept_lift, stateExcept_pure,
      Compile.newLabel_eq_ok] at made
    obtain ⟨_, _, ⟨rfl, rfl⟩, _, _, ⟨rfl, rfl⟩, test, _, ⟨madeTest, rfl⟩, other, middle, madeOther,
      inner, _, madeInner, rfl, rfl⟩ := made
    have branch : Neutral tree result _ :=
      .branch (condition_replaces sound typed.1 typed.2.1 madeTest) first
    have left := statement_neutral sound typed.2.2.2 madeOther
    have right := statement_neutral sound typed.2.2.1 madeInner
    have between : Neutral tree result [.jump (first + 1 : Nat), .label first] :=
      (Neutral.jump _).append (.label _)
    exact (((branch.append left).append between).append right).append (.label _)
  | .whileDo condition body, code, first, last, typed, made => by
    simp only [Compile.statement, stateExcept_bind, stateExcept_lift, stateExcept_pure,
      Compile.newLabel_eq_ok] at made
    obtain ⟨_, _, ⟨rfl, rfl⟩, _, _, ⟨rfl, rfl⟩, test, _, ⟨madeTest, rfl⟩, inner, _, madeInner, rfl,
      rfl⟩ := made
    have branch : Neutral tree result _ :=
      .branch_unless (condition_replaces sound typed.1 typed.2.1 madeTest) (first + 1 : Nat)
    have inside := statement_neutral sound typed.2.2 madeInner
    have behind : Neutral tree result [.jump first, .label (first + 1 : Nat)] :=
      (Neutral.jump _).append (.label _)
    simpa using (((Neutral.label (first : Nat)).append branch).append inside).append behind
  | .doWhile body condition, code, first, last, typed, made => by
    simp only [Compile.statement, stateExcept_bind, stateExcept_lift, stateExcept_pure,
      Compile.newLabel_eq_ok] at made
    obtain ⟨_, _, ⟨rfl, rfl⟩, inner, _, madeInner, test, _, ⟨madeTest, rfl⟩, rfl, rfl⟩ := made
    have branch : Neutral tree result _ :=
      .branch (condition_replaces sound typed.1 typed.2.1 madeTest) first
    have inside := statement_neutral sound typed.2.2 madeInner
    simpa using ((Neutral.label first).append inside).append branch
  | .result none, code, first, last, typed, made => by
    obtain ⟨rfl, rfl⟩ := stateExcept_pure.mp made
    obtain rfl := typed
    exact .of_flow List.mem_cons_self trivial rfl
  | .result (some value), code, first, last, typed, made => by
    simp only [Compile.statement, stateExcept_bind, stateExcept_lift, stateExcept_pure] at made
    obtain ⟨inner, _, ⟨madeInner, rfl⟩, rfl, rfl⟩ := made
    obtain ⟨rfl, typedInner, number⟩ := typed
    have inside := condition_replaces sound typedInner number madeInner
    refine .of_flow (List.mem_append_right _ (List.mem_cons_of_mem _ List.mem_cons_self)) trivial ?_
    rw [scan_append, show level (some .int) = ⟨bytes 0 ++ [.address], false⟩ from rfl, inside]
    rfl

theorem blockStatements_neutral (sound : whole.IsSound tree) {home : ScopeId}
    {result : Option ValueType} : ∀ {sources : List TypedStatement} {code : Listing} {first last : Nat},
      TypedStatement.AreSound tree home result sources →
      Compile.blockStatements tree sources first = .ok (code, last) → Neutral tree result code
  | [], code, first, last, typed, made => by
    simp only [Compile.blockStatements, stateExcept_pure] at made
    obtain ⟨rfl, rfl⟩ := made
    exact .of_replaces (.nil 0)
  | source :: rest, code, first, last, typed, made => by
    simp only [Compile.blockStatements, stateExcept_bind, stateExcept_pure] at made
    obtain ⟨one, middle, madeOne, others, _, madeOthers, rfl, rfl⟩ := made
    exact (statement_neutral sound typed.1 madeOne).append
      (blockStatements_neutral sound typed.2 madeOthers)

end

/-- Where an instruction leads elsewhere, the shape before the code is settled by the code. -/
theorem scan_unique {result : Option ValueType} {shape other next another : Shape}
    (allowed : ∀ instruction ∈ code, Compile.IsPlain tree instruction ∨ Compile.IsFlow instruction)
    (flow : ∃ instruction ∈ code, Compile.IsFlow instruction)
    (one : shape.scan tree result code = some next)
    (two : other.scan tree result code = some another) : shape = other := by
  induction code generalizing shape other with
  | nil =>
    obtain ⟨instruction, member, -⟩ := flow
    cases member
  | cons first rest ih =>
    obtain ⟨afterOne, first', one⟩ := Option.bind_eq_some_iff.mp one
    obtain ⟨afterOther, firstToo, two⟩ := Option.bind_eq_some_iff.mp two
    obtain ⟨plain | leads, allowed⟩ := List.forall_mem_cons.mp allowed
    · have ordinary : first.isBody = true ∨ ∃ id, first = .invoke id :=
        plain.imp id fun ⟨_, _, label, _, same⟩ => ⟨label, same⟩
      -- A body instruction leads nowhere, so the one that does is behind it.
      have later : ∃ instruction ∈ rest, Compile.IsFlow instruction := by
        obtain ⟨instruction, member, leads⟩ := flow
        rcases List.mem_cons.mp member with rfl | behind
        · rcases ordinary with body | ⟨id, rfl⟩
          · cases instruction <;> first | exact leads.elim | cases body
          · exact leads.elim
        · exact ⟨instruction, behind, leads⟩
      obtain rfl := ih allowed later one two
      exact after?_injective ordinary first' firstToo
    · cases first with
      -- An instruction that leads elsewhere is allowed in one shape only.
      | label _ | jump _ =>
        exact (Option.ite_none_right_eq_some.mp first').1.trans
          (Option.ite_none_right_eq_some.mp firstToo).1.symm
      | jumpIf _ =>
        obtain ⟨⟨cells, parked⟩, -⟩ := Option.ite_none_right_eq_some.mp first'
        obtain ⟨⟨sameCells, sameParked⟩, -⟩ := Option.ite_none_right_eq_some.mp firstToo
        obtain ⟨_, _⟩ := shape
        obtain ⟨_, _⟩ := other
        exact congrArg₂ Shape.mk (cells.trans sameCells.symm) (parked.trans sameParked.symm)
      | leave =>
        obtain ⟨type, has, same⟩ := Option.bind_eq_some_iff.mp first'
        obtain ⟨otherType, hasToo, sameToo⟩ := Option.bind_eq_some_iff.mp firstToo
        obtain rfl := Option.some.inj (has.symm.trans hasToo)
        exact (Option.ite_none_right_eq_some.mp same).1.trans
          (Option.ite_none_right_eq_some.mp sameToo).1.symm
      | _ => exact leads.elim

/-! ## Functions -/

/-- At the start of a function its arguments lie below the return address. -/
def Function.entry (function : Function) : Shape := ⟨.address :: bytes function.parameters.length, false⟩

theorem storeParameters_scan (sound : tree.IsSound) {ids : List VariableId}
    (made : Compile.storeParameters tree ids = .ok code) : code.all (·.isOnBytes) = true ∧
      ∀ index, StackHeight.scan index ids.length code = .ok 0 := by
  induction ids generalizing code with
  | nil =>
    obtain rfl := Except.ok.inj made
    exact ⟨rfl, fun index => rfl⟩
  | cons first rest ih =>
    simp only [Compile.storeParameters, Except.bind_eq_ok] at made
    obtain ⟨layout, found, others, madeOthers, made⟩ := made
    obtain rfl := Except.ok.inj made
    obtain ⟨onBytes, scanned⟩ := ih madeOthers
    obtain ⟨-, write⟩ := Instruction.isOnBytes_local sound found
    exact ⟨by simpa [write] using onBytes, fun index => scanned (index + 1)⟩

/-- The code before the body of a function moves the arguments out of the way. -/
theorem prologue_scan (sound : tree.IsSound) {address : List Int}
    (foundAddress : Compile.layout tree ScopeTree.returnAddress = .ok address)
    {parameters : List VariableId}
    (made : Compile.storeParameters tree parameters.reverse = .ok code) (result : ValueType) :
    (⟨.address :: bytes parameters.length, false⟩ : Shape).scan tree (some result)
      (.writeLocal address :: code ++ [.readLocal address]) = some (level (some result)) := by
  obtain ⟨addressed, cells⟩ := Compile.addressLayout sound foundAddress
  obtain ⟨onBytes, scanned⟩ := storeParameters_scan sound made
  have stores := @scan_onBytes tree (some result) code onBytes 0 _ _ (scanned 0) [] true
  rw [List.length_reverse, List.append_nil] at stores
  have parks : (⟨.address :: bytes parameters.length, false⟩ : Shape).after? tree (some result)
      (.writeLocal address) = some ⟨bytes parameters.length, true⟩ := by
    rw [@after?_body tree _ _ (.writeLocal address) cells]
    simp [computed?, Instruction.isOnBytes, addressed]
  have brings : (⟨bytes 0 ++ [], true⟩ : Shape).after? tree (some result) (.readLocal address) =
      some (level (some result)) := by
    rw [@after?_body tree _ _ (.readLocal address) cells]
    simp [computed?, Instruction.isOnBytes, addressed, level, bytes]
  rw [List.cons_append, scan, parks, Option.bind_some, scan_append, stores, Option.bind_some, scan,
    brings]
  rfl

theorem ending_scan {type : ValueType} (made : Compile.ending type = .ok code) :
    ∃ before, code = before ++ [.leave] ∧
      (level (some type)).scan tree (some type) before = some (leaving type) := by
  unfold Compile.ending at made
  split at made
  case h_1 =>
    obtain rfl := Except.ok.inj made
    exact ⟨[], rfl, rfl⟩
  case h_2 =>
    obtain rfl := Except.ok.inj made
    exact ⟨[.pushInt 0, .swapInt], rfl, rfl⟩
  case h_3 => cases made

/-- The code of a function gets from its arguments to its result, where a `return` is left. -/
theorem function_scan (sound : whole.IsSound tree) {source : TypedFunction}
    (member : source ∈ whole.functions) {called : Function}
    (found : tree.functions[source.function]? = some called) {body : Listing} {first last : Nat}
    (made : Compile.function tree source first = .ok (body, last)) :
    ∃ code, body = code ++ [.leave] ∧
      called.entry.scan tree (some called.result) code = some (leaving called.result) := by
  obtain ⟨same, foundSame, result, parameters⟩ := (sound.functions source member).declared
  obtain rfl : called = same := Option.some.inj (found.symm.trans foundSame)
  simp only [Compile.function, stateExcept_bind, stateExcept_lift, stateExcept_pure] at made
  obtain ⟨address, _, ⟨foundAddress, rfl⟩, parameterCode, _, ⟨madeParameters, rfl⟩, inner, _,
    madeInner, finish, _, ⟨madeFinish, rfl⟩, rfl, rfl⟩ := made
  obtain ⟨home, typed⟩ := (sound.functions source member).body
  have begins := prologue_scan sound.scopes foundAddress madeParameters source.result
  have neutral := statement_neutral sound typed madeInner
  obtain ⟨before, rfl, ends⟩ := @ending_scan tree _ _ madeFinish
  have count : called.parameters.length = source.parameters.length := by
    rw [parameters, List.length_map]
  refine ⟨(.writeLocal address :: parameterCode ++ [.readLocal address] ++ inner) ++ before,
    by simp, ?_⟩
  rw [result, Function.entry, count, scan_append, scan_append, begins, Option.bind_some,
    neutral.leveled, Option.bind_some, ends]

end TapeCode
