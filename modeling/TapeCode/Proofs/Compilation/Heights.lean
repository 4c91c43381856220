import TapeCode.Instruction.StackHeight
import TapeCode.Proofs.Compilation.Simulation

/-!
# Heights of compiled code

A linear scan finds the code of an expression to leave one value more on the stack, or none if it has no
value, and the code of a statement of the main block to leave the stack as high as it was. So the check
of the main block never fails. A scan that meets a call ends there.
-/
namespace TapeCode

open StackHeight

/-- What an expression adds to the height of the stack. -/
def ValueType.height (type : ValueType) : Nat := if type = .void then 0 else 1

/-- Wherever the code stands and however high the stack is above the values that the code needs, the
scan ends well in the code or goes on behind it, where the values gained have taken their place. -/
def Climbs (code : Listing) (needed gained : Nat) : Prop :=
  ∀ (index height : Nat) (rest : Listing),
    (∃ final, scan index (height + needed) (code ++ rest) = .ok final) ∨
      scan index (height + needed) (code ++ rest) =
        scan (index + code.length) (height + gained) rest

namespace Climbs

variable {code more : Listing} {needed between gained : Nat}

theorem nil (height : Nat) : Climbs [] height height := fun _ _ _ => .inr rfl

theorem instruction {instruction : Instruction}
    (has : instruction.stackEffect? = some ⟨needed, gained⟩) :
    Climbs [instruction] needed gained := by
  intro index height rest
  have enough : ¬height + needed < needed := by omega
  refine .inr ?_
  simp only [List.singleton_append, scan, has, if_neg enough, Nat.add_sub_cancel,
    List.length_singleton]

/-- The scan ends at a call. -/
theorem invoke (label : Int) (needed gained : Nat) : Climbs [.invoke label] needed gained :=
  fun _ _ _ => .inl ⟨_, rfl⟩

/-- Values further down stay where they are. -/
theorem above (climbs : Climbs code needed gained) (below : Nat) :
    Climbs code (below + needed) (below + gained) := by
  intro index height rest
  rw [← Nat.add_assoc, ← Nat.add_assoc]
  exact climbs index (height + below) rest

theorem append (left : Climbs code needed between) (right : Climbs more between gained) :
    Climbs (code ++ more) needed gained := by
  intro index height rest
  rw [List.append_assoc, List.length_append, ← Nat.add_assoc]
  rcases left index height (more ++ rest) with ended | onwards
  · exact .inl ended
  · rw [onwards]
    exact right (index + code.length) height rest

/-- A listing without calls climbs as far as a scan of it says. -/
theorem of_scan {index : Nat} (known : ∀ instruction ∈ code, instruction.stackEffect?.isSome = true)
    (scanned : scan index needed code = .ok gained) : Climbs code needed gained := by
  induction code generalizing index needed with
  | nil =>
    obtain rfl := Except.ok.inj scanned
    exact .nil needed
  | cons first rest ih =>
    obtain ⟨knownFirst, others⟩ := List.forall_mem_cons.mp known
    obtain ⟨effect, has⟩ := Option.isSome_iff_exists.mp knownFirst
    simp only [scan, has] at scanned
    split at scanned
    · cases scanned
    next enough =>
      have first := (instruction has).above (needed - effect.pops)
      rw [Nat.sub_add_cancel (Nat.le_of_not_lt enough)] at first
      exact first.append (ih others scanned)

end Climbs

/-- What a scan finds of the instructions of a built-in function. -/
def Function.climbsAsDeclared (function : Function) : Bool :=
  match function.body with
  | .inPlace instructions => instructions.all (·.stackEffect?.isSome) &&
      (check instructions function.parameters.length).toOption = some function.result.height
  | .labelled _ => false

theorem builtins_climb : ∀ function ∈ Function.builtins, function.name ≠ assignment →
    function.climbsAsDeclared = true := by
  decide

variable {whole : TypedProgram} {tree : ScopeTree} {code : Listing}

theorem callInstructions_climbs (sound : whole.IsSound tree) {id : FunctionId} {called : Function}
    (found : tree.functions[id]? = some called) (other : called.name ≠ assignment)
    (made : Compile.callInstructions tree id = .ok code) :
    Climbs code called.parameters.length called.result.height := by
  unfold Compile.callInstructions at made
  rw [found] at made
  cases body : called.body with
  | labelled label =>
    simp only [body] at made
    obtain rfl := Except.ok.inj made
    exact .invoke _ _ _
  | inPlace instructions =>
    simp only [body] at made
    obtain rfl := Except.ok.inj made
    obtain ⟨users, functions, labelled⟩ := sound.scopes.functions
    have among := List.mem_of_getElem? found
    rw [functions] at among
    rcases List.mem_append.mp among with builtin | user
    · have climbs := builtins_climb called builtin other
      simp only [Function.climbsAsDeclared, body, Bool.and_eq_true, List.all_eq_true,
        decide_eq_true_eq] at climbs
      obtain ⟨known, scanned⟩ := climbs
      cases result : check instructions called.parameters.length with
      | error error => simp [result, Except.toOption] at scanned
      | ok height =>
        obtain rfl : height = _ := by simpa [result, Except.toOption] using scanned
        exact .of_scan known result
    · have named := (labelled called user).2.1
      simp [Function.label?, body] at named

mutual

theorem expression_climbs (sound : whole.IsSound tree) {home : ScopeId} :
    ∀ {source : TypedExpression} {code : Listing}, source.IsSound tree home →
      Compile.expression tree source = .ok code → Climbs code 0 source.type.height
  | .number value type, code, typed, made => by
    obtain rfl := Except.ok.inj made
    obtain rfl := typed
    exact .instruction rfl
  | .variable id type, code, typed, made => by
    simp only [Compile.expression, Except.bind_eq_ok] at made
    obtain ⟨layout, -, made⟩ := made
    obtain rfl := Except.ok.inj made
    obtain ⟨-, rfl⟩ := typed
    exact @Climbs.of_scan _ _ _ 0 (by simp; exact ⟨rfl, rfl, rfl⟩) rfl
  | .assign id value type, code, typed, made => by
    simp only [Compile.expression, Except.bind_eq_ok] at made
    obtain ⟨inner, madeInner, layout, -, made⟩ := made
    obtain rfl := Except.ok.inj made
    obtain ⟨typedInner, number, rfl, -⟩ := typed
    have inside := expression_climbs sound typedInner madeInner
    rw [number] at inside
    exact inside.append (@Climbs.of_scan _ _ _ 0 (by simp; exact ⟨rfl, rfl⟩) rfl)
  | .call function arguments type, code, typed, made => by
    simp only [Compile.expression, Except.bind_eq_ok] at made
    obtain ⟨before, madeBefore, call, madeCall, made⟩ := made
    obtain rfl := Except.ok.inj made
    obtain ⟨typedArguments, called, found, other, accepts, rfl, -⟩ := typed
    obtain ⟨count, numbers⟩ := sound.arguments found accepts
    have given := expressions_climb sound typedArguments
      (fun argument member => numbers _ (List.mem_map_of_mem member)) madeBefore
    rw [List.length_map] at count
    exact given.append (count ▸ callInstructions_climbs sound found other madeCall)

theorem expressions_climb (sound : whole.IsSound tree) {home : ScopeId} :
    ∀ {sources : List TypedExpression} {code : Listing},
      TypedExpression.AreSound tree home sources → (∀ source ∈ sources, source.type ≠ .void) →
      Compile.expressions tree sources = .ok code → Climbs code 0 sources.length
  | [], code, typed, numbers, made => by
    obtain rfl := Except.ok.inj made
    exact .nil 0
  | first :: rest, code, typed, numbers, made => by
    simp only [Compile.expressions, Except.bind_eq_ok] at made
    obtain ⟨one, madeOne, others, madeOthers, made⟩ := made
    obtain rfl := Except.ok.inj made
    obtain ⟨number, numbers⟩ := List.forall_mem_cons.mp numbers
    have first := expression_climbs sound typed.1 madeOne
    rw [ValueType.height, if_neg number] at first
    have later := (expressions_climb sound typed.2 numbers madeOthers).above 1
    rw [Nat.add_comm] at later
    simpa [Nat.add_comm] using first.append later

end

theorem condition_climbs (sound : whole.IsSound tree) {home : ScopeId} {source : TypedExpression}
    (typed : source.IsSound tree home) (number : source.type = .int)
    (made : Compile.expression tree source = .ok code) : Climbs code 0 1 := by
  have climbs := expression_climbs sound typed made
  rw [number] at climbs
  exact climbs

theorem dropValue_climbs {type : ValueType} (made : Compile.dropValue type = .ok code) :
    Climbs code type.height 0 := by
  unfold Compile.dropValue at made
  split at made
  case h_1 =>
    obtain rfl := Except.ok.inj made
    exact .nil 0
  case h_2 =>
    obtain rfl := Except.ok.inj made
    exact .instruction rfl
  case h_3 => cases made

namespace Climbs

theorem branch_unless (label : Int) : Climbs [.not, .jumpIf label] 1 0 :=
  @append [.not] _ 1 1 0 (.instruction rfl) (.instruction rfl)

theorem marks (target label : Int) : Climbs [.jump target, .label label] 0 0 :=
  @append [.jump target] _ 0 0 0 (.instruction rfl) (.instruction rfl)

end Climbs

mutual

theorem statement_climbs (sound : whole.IsSound tree) {home : ScopeId} :
    ∀ {source : TypedStatement} {code : Listing} {first last : Nat},
      source.IsSound tree home none → Compile.statement tree source first = .ok (code, last) →
      Climbs code 0 0
  | .block statements, code, first, last, typed, made => blockStatements_climb sound typed made
  | .declare id value, code, first, last, typed, made => by
    simp only [Compile.statement, stateExcept_bind, stateExcept_lift, stateExcept_pure] at made
    obtain ⟨inner, _, ⟨madeInner, rfl⟩, layout, _, -, rfl, rfl⟩ := made
    have inside := expression_climbs sound typed.1 madeInner
    rw [typed.2.1] at inside
    exact inside.append (.instruction rfl)
  | .evaluate value, code, first, last, typed, made => by
    simp only [Compile.statement, stateExcept_bind, stateExcept_lift, stateExcept_pure] at made
    obtain ⟨inner, _, ⟨madeInner, rfl⟩, drop, _, ⟨dropped, rfl⟩, rfl, rfl⟩ := made
    exact (expression_climbs sound typed madeInner).append (dropValue_climbs dropped)
  | .ifThen condition consequence, code, first, last, typed, made => by
    simp only [Compile.statement, stateExcept_bind, stateExcept_lift, stateExcept_pure,
      Compile.newLabel_eq_ok] at made
    obtain ⟨_, _, ⟨rfl, rfl⟩, test, _, ⟨madeTest, rfl⟩, inner, _, madeInner, rfl, rfl⟩ := made
    have branch := (condition_climbs sound typed.1 typed.2.1 madeTest).append (.branch_unless first)
    have inside := statement_climbs sound typed.2.2 madeInner
    exact (branch.append inside).append (.instruction rfl)
  | .ifThenElse condition consequence alternative, code, first, last, typed, made => by
    simp only [Compile.statement, stateExcept_bind, stateExcept_lift, stateExcept_pure,
      Compile.newLabel_eq_ok] at made
    obtain ⟨_, _, ⟨rfl, rfl⟩, _, _, ⟨rfl, rfl⟩, test, _, ⟨madeTest, rfl⟩, other, middle, madeOther,
      inner, _, madeInner, rfl, rfl⟩ := made
    have taken : Climbs [.jumpIf first] 1 0 := .instruction rfl
    have branch := (condition_climbs sound typed.1 typed.2.1 madeTest).append taken
    have left := statement_climbs sound typed.2.2.2 madeOther
    have right := statement_climbs sound typed.2.2.1 madeInner
    exact (((branch.append left).append (.marks _ _)).append right).append (.instruction rfl)
  | .whileDo condition body, code, first, last, typed, made => by
    simp only [Compile.statement, stateExcept_bind, stateExcept_lift, stateExcept_pure,
      Compile.newLabel_eq_ok] at made
    obtain ⟨_, _, ⟨rfl, rfl⟩, _, _, ⟨rfl, rfl⟩, test, _, ⟨madeTest, rfl⟩, inner, _, madeInner, rfl,
      rfl⟩ := made
    have start : Climbs [.label first] 0 0 := .instruction rfl
    have branch := (start.append (condition_climbs sound typed.1 typed.2.1 madeTest)).append
      (.branch_unless (first + 1 : Nat))
    have inside := statement_climbs sound typed.2.2 madeInner
    exact (branch.append inside).append (.marks _ _)
  | .doWhile body condition, code, first, last, typed, made => by
    simp only [Compile.statement, stateExcept_bind, stateExcept_lift, stateExcept_pure,
      Compile.newLabel_eq_ok] at made
    obtain ⟨_, _, ⟨rfl, rfl⟩, inner, _, madeInner, test, _, ⟨madeTest, rfl⟩, rfl, rfl⟩ := made
    have start : Climbs [.label first] 0 0 := .instruction rfl
    have inside := start.append (statement_climbs sound typed.2.2 madeInner)
    exact (inside.append (condition_climbs sound typed.1 typed.2.1 madeTest)).append
      (.instruction rfl)
  | .result none, code, first, last, typed, made => nomatch typed
  | .result (some value), code, first, last, typed, made => nomatch typed.1

theorem blockStatements_climb (sound : whole.IsSound tree) {home : ScopeId} :
    ∀ {sources : List TypedStatement} {code : Listing} {first last : Nat},
      TypedStatement.AreSound tree home none sources →
      Compile.blockStatements tree sources first = .ok (code, last) → Climbs code 0 0
  | [], code, first, last, typed, made => by
    simp only [Compile.blockStatements, stateExcept_pure] at made
    obtain ⟨rfl, rfl⟩ := made
    exact .nil 0
  | source :: rest, code, first, last, typed, made => by
    simp only [Compile.blockStatements, stateExcept_bind, stateExcept_pure] at made
    obtain ⟨one, middle, madeOne, others, _, madeOthers, rfl, rfl⟩ := made
    exact (statement_climbs sound typed.1 madeOne).append
      (blockStatements_climb sound typed.2 madeOthers)

end

/-- The check of the main block of a compiled program succeeds. -/
theorem TypedProgram.IsCompiled.checks {program : Program} (sound : whole.IsSound tree)
    (compiled : whole.IsCompiled tree program) : ∃ height, check program.main 0 = .ok height := by
  obtain ⟨last, made⟩ := compiled.main
  have climbs := blockStatements_climb sound sound.main made 0 0 []
  rw [List.append_nil] at climbs
  rcases climbs with ended | onwards
  · exact ended
  · exact ⟨0, onwards⟩

end TapeCode
