import TapeCode.Proofs.Compilation.Calls

/-!
# Compiled code does what it was compiled from

Whatever the evaluation of an expression or a statement ends with, the machine ends with too when it
has gone through the code. The induction is on the budget of the evaluation: an evaluation is made of
others with smaller budgets, the next turn of a loop and the body of a called function among them.
-/
namespace TapeCode

open Program

/-- What a program is evaluated with. -/
abbrev TypedProgram.setting (whole : TypedProgram) (tree : ScopeTree) (ending : EndOfInput) : Setting :=
  ⟨tree, whole.functions, ending⟩

variable {setting : Setting} {program : Program}

/-- Where the machine stands behind the code of a statement: at what follows it, or where the function
was called, with the result in place of the return address. -/
inductive Flow.Ends (function : Option Int) (rest : Listing) (result : Option ValueType)
    (stack : List (StackValue ProgramPlace)) (world : World) : Flow → ProgramState → Prop
  | next : Ends function rest result stack world .next ⟨⟨function, rest⟩, world.values stack⟩
  | returned {type : ValueType} {place : ProgramPlace} {below : List (StackValue ProgramPlace)}
      {value : UInt8} (within : result = some type) (calls : stack = .address place :: below) :
      Ends function rest result stack world (.returned value)
        ⟨place, world.values (type.pushed value below)⟩

/-- Within a function the return address is on top of the stack. -/
def Stands (result : Option ValueType) (stack : List (StackValue ProgramPlace)) : Prop :=
  result.isSome = true → ∃ place below, stack = .address place :: below

/-- The machine comes from one state to where the statement ends. -/
def ReachesEnd (program : Program) (ending : EndOfInput) (function : Option Int) (rest : Listing)
    (result : Option ValueType) (stack : List (StackValue ProgramPlace)) (first : ProgramState)
    (flow : Flow) (after : World) : Prop :=
  ∃ final, flow.Ends function rest result stack after final ∧ program.Leads ending first final

section

variable (setting : Setting) (program : Program) (budget : Nat)

/-- The code of an expression leaves its value on the stack. -/
def ExpressionRuns (source : TypedExpression) : Prop :=
  ∀ {code : Listing} {home : ScopeId}, source.IsSound setting.tree home →
    Compile.expression setting.tree source = .ok code → ∀ {world after : World} {value : UInt8},
    Evaluation.expression setting budget source world = some (value, after) →
    ∀ function rest stack, program.Leads setting.ending
      ⟨⟨function, code ++ rest⟩, world.values stack⟩
      ⟨⟨function, rest⟩, after.values (source.type.pushed value stack)⟩

def ExpressionsRun (sources : List TypedExpression) : Prop :=
  ∀ {code : Listing} {home : ScopeId}, TypedExpression.AreSound setting.tree home sources →
    (∀ source ∈ sources, source.type ≠ .void) →
    Compile.expressions setting.tree sources = .ok code →
    ∀ {world after : World} {values : List UInt8},
    Evaluation.expressions setting budget sources world = some (values, after) →
    values.length = sources.length ∧ ∀ function rest stack, program.Leads setting.ending
      ⟨⟨function, code ++ rest⟩, world.values stack⟩
      ⟨⟨function, rest⟩, after.values (piled values stack)⟩

/-- The code of a call takes the arguments from the stack and leaves the result there. -/
def CallRuns (id : FunctionId) : Prop :=
  ∀ {called : Function} {code : Listing}, setting.tree.functions[id]? = some called →
    called.name ≠ assignment → Compile.callInstructions setting.tree id = .ok code →
    ∀ {arguments : List UInt8}, arguments.length = called.parameters.length →
    ∀ {world after : World} {value : UInt8},
    Evaluation.call setting budget id arguments world = some (value, after) →
    ∀ function rest stack, program.Leads setting.ending
      ⟨⟨function, code ++ rest⟩, world.values (piled arguments stack)⟩
      ⟨⟨function, rest⟩, after.values (called.result.pushed value stack)⟩

/-- The code of a statement, wherever it stands in a body, leads to where the statement ends. -/
def StatementRuns (source : TypedStatement) : Prop :=
  ∀ {code : Listing} {home : ScopeId} {result : Option ValueType} {first last : Nat},
    source.IsSound setting.tree home result →
    Compile.statement setting.tree source first = .ok (code, last) →
    ∀ {function : Option Int} {start rest : Listing},
    program.body? function = some (start ++ (code ++ rest)) → ∀ {world after : World} {flow : Flow},
    Evaluation.statement setting budget source world = some (flow, after) →
    ∀ {stack}, Stands result stack → ReachesEnd program setting.ending function rest result stack
      ⟨⟨function, code ++ rest⟩, world.values stack⟩ flow after

def StatementsRun (sources : List TypedStatement) : Prop :=
  ∀ {code : Listing} {home : ScopeId} {result : Option ValueType} {first last : Nat},
    TypedStatement.AreSound setting.tree home result sources →
    Compile.blockStatements setting.tree sources first = .ok (code, last) →
    ∀ {function : Option Int} {start rest : Listing},
    program.body? function = some (start ++ (code ++ rest)) → ∀ {world after : World} {flow : Flow},
    Evaluation.statements setting budget sources world = some (flow, after) →
    ∀ {stack}, Stands result stack → ReachesEnd program setting.ending function rest result stack
      ⟨⟨function, code ++ rest⟩, world.values stack⟩ flow after

/-- What the machine does for evaluations within a budget. -/
structure Simulated : Prop where
  expression : ∀ {source : TypedExpression}, ExpressionRuns setting program budget source
  expressions : ∀ {sources : List TypedExpression}, ExpressionsRun setting program budget sources
  call : ∀ {id : FunctionId}, CallRuns setting program budget id
  statement : ∀ {source : TypedStatement}, StatementRuns setting program budget source
  statements : ∀ {sources : List TypedStatement}, StatementsRun setting program budget sources

end

/-- Without a budget nothing is evaluated. -/
theorem Simulated.zero : Simulated setting program 0 where
  expression := by
    intro source code home typed made world after value evaluated
    cases evaluated
  expressions := by
    intro sources code home typed numbers made world after values evaluated
    cases evaluated
  call := by
    intro id called code found other made arguments count world after value evaluated
    cases evaluated
  statement := by
    intro source code home result first last typed made function start rest placed world after flow
      evaluated
    cases evaluated
  statements := by
    intro sources code home result first last typed made function start rest placed world after flow
      evaluated
    cases evaluated

variable {whole : TypedProgram} {tree : ScopeTree} {ending : EndOfInput} {budget : Nat}

namespace TypedProgram.IsSound

/-- Functions of a program are those that its table of functions has. -/
theorem builtin_or_user (sound : whole.IsSound tree) {id : FunctionId} {called : Function}
    (found : tree.functions[id]? = some called) :
    Function.builtins[id]? = some called ∨ ∃ function ∈ whole.functions, function.function = id := by
  by_cases user : Function.builtins.length ≤ id
  · obtain ⟨function, member, same⟩ := List.mem_map.mp
      (sound.complete id user (List.getElem?_eq_some_iff.mp found).1)
    exact .inr ⟨function, member, same⟩
  · obtain ⟨users, functions, -⟩ := sound.scopes.functions
    rw [functions, List.getElem?_append_left (Nat.lt_of_not_le user)] at found
    exact .inl found

theorem parameters_int (sound : whole.IsSound tree) {id : FunctionId} {called : Function}
    (found : tree.functions[id]? = some called) : ∀ type ∈ called.parameters, type = .int := by
  rcases sound.builtin_or_user found with builtin | ⟨function, member, rfl⟩
  · have all : ∀ called ∈ Function.builtins, ∀ type ∈ called.parameters, type = .int := by decide
    exact all called (List.mem_of_getElem? builtin)
  · obtain ⟨same, foundSame, -, parameters⟩ := (sound.functions function member).declared
    obtain rfl : called = same := Option.some.inj (found.symm.trans foundSame)
    intro type declared
    rw [parameters] at declared
    obtain ⟨-, -, rfl⟩ := List.mem_map.mp declared
    rfl

/-- The arguments that a function takes have values. -/
theorem arguments (sound : whole.IsSound tree) {id : FunctionId} {called : Function}
    (found : tree.functions[id]? = some called) {types : List ValueType}
    (accepts : called.accepts types = true) :
    called.parameters.length = types.length ∧ ∀ type ∈ types, type ≠ .void := by
  simp only [Function.accepts, Bool.and_eq_true, decide_eq_true_eq, List.all_eq_true] at accepts
  refine ⟨accepts.1, fun type member void => ?_⟩
  obtain ⟨index, inside, here⟩ := List.mem_iff_getElem.mp member
  have declared : index < called.parameters.length := accepts.1 ▸ inside
  have pair : (type, called.parameters[index]) ∈ types.zip called.parameters := by
    refine List.mem_iff_getElem.mpr ⟨index, by rw [List.length_zip]; omega, ?_⟩
    rw [List.getElem_zip, here]
  have taken := accepts.2 _ pair
  rw [sound.parameters_int found _ (List.getElem_mem declared), void] at taken
  cases taken

end TypedProgram.IsSound

namespace Simulated

/-! ## Expressions -/

theorem expression_succ (sound : whole.IsSound tree)
    (before : Simulated (whole.setting tree ending) program budget) (source : TypedExpression) :
    ExpressionRuns (whole.setting tree ending) program (budget + 1) source := by
  intro code home typed made world after value evaluated function rest stack
  cases source with
  | number number type =>
    obtain rfl := Except.ok.inj made
    obtain ⟨rfl, rfl⟩ := stateOption_pure.mp evaluated
    obtain rfl := typed
    refine leads_body (by rfl) ?_
    -- A literal is pushed as an integer, which is the byte again.
    have same : UInt8.ofInt number.toNat = number :=
      UInt8.toNat_inj.mp (Byte.toNat_ofInt (by omega) (Int.ofNat_lt.mpr number.toNat_lt))
    simp [StackState.executeAll?, StackState.execute?, StackState.push, World.values,
      TypedExpression.type, ValueType.pushed, same]
  | «variable» id type =>
    simp only [Compile.expression, Except.bind_eq_ok] at made
    obtain ⟨layout, found, made⟩ := made
    obtain rfl := Except.ok.inj made
    obtain ⟨slot, has, own, addressed, cells⟩ := Compile.numberLayout_eq_ok sound.scopes found
    obtain ⟨rfl, rfl⟩ := Prod.mk.inj (Option.some.inj evaluated)
    refine leads_body ?_ ?_
    · simp [Instruction.isBody, cells]
    · rw [World.executeAll?_read addressed own, slot_eq has, TypedExpression.type,
        typed.2]
      rfl
  | assign id inner type =>
    simp only [Compile.expression, Except.bind_eq_ok] at made
    obtain ⟨innerCode, madeInner, layout, found, made⟩ := made
    obtain rfl := Except.ok.inj made
    obtain ⟨slot, has, own, addressed, cells⟩ := Compile.numberLayout_eq_ok sound.scopes found
    simp only [Evaluation.expression, stateOption_bind, stateOption_pure] at evaluated
    obtain ⟨value, between, evaluatedInner, _, _, stored, rfl, rfl⟩ := evaluated
    obtain ⟨-, rfl⟩ := Prod.mk.inj (Option.some.inj stored)
    obtain ⟨typedInner, number, rfl, -⟩ := typed
    rw [List.append_assoc]
    -- The value is computed, copied, and the copy written to the slot; what is left is the result.
    refine (before.expression typedInner madeInner evaluatedInner function _ stack).trans ?_
    rw [number]
    refine leads_body ?_ ?_
    · simp [Instruction.isBody, cells]
    · rw [slot_eq has]
      have written := @World.execute?_writeLocal between (.byte value :: stack) ending _ _ addressed own
        value
      simpa [StackState.executeAll?, StackState.execute?, StackState.pop?, StackState.push,
        World.values, ValueType.pushed, TypedExpression.type] using written
  | call id arguments type =>
    simp only [Compile.expression, Except.bind_eq_ok] at made
    obtain ⟨argumentCode, madeArguments, callCode, madeCall, made⟩ := made
    obtain rfl := Except.ok.inj made
    simp only [Evaluation.expression, stateOption_bind] at evaluated
    obtain ⟨values, between, evaluatedArguments, called⟩ := evaluated
    obtain ⟨typedArguments, calledFunction, found, other, accepts, rfl, -⟩ := typed
    obtain ⟨count, numbers⟩ := sound.arguments found accepts
    obtain ⟨same, runs⟩ := before.expressions typedArguments
      (fun argument member => numbers _ (List.mem_map_of_mem member)) madeArguments evaluatedArguments
    rw [List.append_assoc]
    exact (runs function _ stack).trans (before.call found other madeCall
      (same.trans (by simpa using count.symm)) called function rest stack)

theorem expressions_succ (before : Simulated (whole.setting tree ending) program budget)
    (sources : List TypedExpression) :
    ExpressionsRun (whole.setting tree ending) program (budget + 1) sources := by
  intro code home typed numbers made world after values evaluated
  cases sources with
  | nil =>
    obtain rfl := Except.ok.inj made
    obtain ⟨rfl, rfl⟩ := stateOption_pure.mp evaluated
    exact ⟨rfl, fun function rest stack => .refl _⟩
  | cons first others =>
    simp only [Compile.expressions, Except.bind_eq_ok] at made
    obtain ⟨firstCode, madeFirst, otherCode, madeOthers, made⟩ := made
    obtain rfl := Except.ok.inj made
    simp only [Evaluation.expressions, stateOption_bind, stateOption_pure] at evaluated
    obtain ⟨value, between, evaluatedFirst, more, _, evaluatedOthers, rfl, rfl⟩ := evaluated
    obtain ⟨number, numbers⟩ := List.forall_mem_cons.mp numbers
    obtain ⟨count, runs⟩ := before.expressions typed.2 numbers madeOthers evaluatedOthers
    refine ⟨congrArg (· + 1) count, fun function rest stack => ?_⟩
    rw [List.append_assoc, piled_cons]
    have first := before.expression typed.1 madeFirst evaluatedFirst function (otherCode ++ rest) stack
    rw [ValueType.pushed_of_ne number] at first
    exact first.trans (runs function rest _)

/-! ## Calls -/

theorem builtin_succ (sound : whole.IsSound tree) {id : FunctionId} {called : Function}
    (builtin : Function.builtins[id]? = some called) (other : called.name ≠ assignment)
    {code : Listing} (made : Compile.callInstructions tree id = .ok code) {arguments : List UInt8}
    (count : arguments.length = called.parameters.length) {world after : World} {value : UInt8}
    (evaluated : Evaluation.call (whole.setting tree ending) (budget + 1) id arguments world =
      some (value, after))
    (function : Option Int) (rest : Listing) (stack : List (StackValue ProgramPlace)) :
    program.Leads ending ⟨⟨function, code ++ rest⟩, world.values (piled arguments stack)⟩
      ⟨⟨function, rest⟩, after.values (called.result.pushed value stack)⟩ := by
  have inside := (List.getElem?_eq_some_iff.mp builtin).1
  have found : tree.functions[id]? = some called := by
    obtain ⟨users, functions, -⟩ := sound.scopes.functions
    rw [functions, List.getElem?_append_left inside, builtin]
  have computed := Compile.builtins_computed called (List.mem_of_getElem? builtin)
  unfold Compile.callInstructions at made
  rw [found] at made
  cases body : called.body with
  | labelled label => simp [body, Compile.isComputed] at computed
  | inPlace instructions =>
    simp only [body] at made computed
    obtain rfl := Except.ok.inj made
    have missing : whole.functions.find? (fun function => function.function = id) = none := by
      refine List.find?_eq_none.mpr fun function member same => ?_
      have user := (sound.functions function member).user
      rw [of_decide_eq_true same] at user
      exact absurd inside (Nat.not_lt_of_le user)
    simp only [Evaluation.call, missing, found] at evaluated
    exact leads_body computed (builtin_runs builtin body other count evaluated)

/-- The code of a function up to its body. -/
theorem begins (sound : tree.IsSound) {functions : List TypedFunction} {address : List Int}
    (foundAddress : Compile.layout tree ScopeTree.returnAddress = .ok address)
    {parameters : List VariableId} (distinct : parameters.Nodup) {scope : ScopeId}
    (together : ∀ id ∈ parameters, (tree.declaredVariables[id]?).map (·.scope) = some scope)
    {code : Listing} (made : Compile.storeParameters tree parameters.reverse = .ok code)
    {arguments : List UInt8} (count : arguments.length = parameters.length) {world after : World}
    (stored : Evaluation.storeParameters ⟨tree, functions, ending⟩ parameters arguments world =
      some ((), after)) (parked : StackValue ProgramPlace) (function : Option Int) (rest : Listing)
    (stack : List (StackValue ProgramPlace)) :
    program.Leads ending
      ⟨⟨function, (.writeLocal address :: code ++ [.readLocal address]) ++ rest⟩,
        world.values (parked :: piled arguments stack)⟩
      ⟨⟨function, rest⟩, after.values (parked :: stack)⟩ := by
  obtain ⟨addressed, cells⟩ := Compile.addressLayout sound foundAddress
  refine leads_body ?_ ?_
  · have write : (Instruction.writeLocal address).isBody = true := cells
    have read : (Instruction.readLocal address).isBody = true := cells
    simp [write, read, Compile.storeParameters_body sound made]
  -- The address is parked while the arguments are stored, and then brought back.
  · have parks : (world.values (parked :: piled arguments stack)).execute? ending
        (.writeLocal address) = some ((world.values (piled arguments stack)).store 0 parked) := by
      simp [StackState.execute?, addressed, StackState.pop?, World.values, StackState.store]
    have brings : ((after.values stack).store 0 parked).execute? ending (.readLocal address) =
        some (after.values (parked :: stack)) := by
      simp only [StackState.execute?, addressed, Option.bind_eq_bind, Option.bind_some,
        World.values_cleared]
      rfl
    simp only [List.cons_append, StackState.executeAll?, parks, Option.bind_eq_bind,
      Option.bind_some]
    refine StackState.executeAll?_append.mpr
      ⟨_, @storeParameters_runs ⟨tree, functions, ending⟩ _ _ stack sound _ distinct _ together _ made _
        count stored parked, ?_⟩
    simp [StackState.executeAll?, brings]

/-- The code of a function behind its body. -/
theorem ending_leads {type : ValueType} {code : Listing} (made : Compile.ending type = .ok code)
    {function : Option Int} {place : ProgramPlace} {world : World}
    {stack : List (StackValue ProgramPlace)} :
    program.Leads ending ⟨⟨function, code⟩, world.values (.address place :: stack)⟩
      ⟨place, world.values (type.pushed 0 stack)⟩ := by
  unfold Compile.ending at made
  split at made
  next =>
    obtain rfl := Except.ok.inj made
    exact .step rfl (.refl _)
  next =>
    obtain rfl := Except.ok.inj made
    exact .step rfl (.step rfl (.step rfl (.refl _)))
  next => cases made

theorem user_succ (sound : whole.IsSound tree) (compiled : whole.IsCompiled tree program)
    (before : Simulated (whole.setting tree ending) program budget)
    {source : TypedFunction} (member : source ∈ whole.functions) {called : Function}
    (found : tree.functions[source.function]? = some called)
    {code : Listing} (made : Compile.callInstructions tree source.function = .ok code)
    {arguments : List UInt8}
    (count : arguments.length = called.parameters.length) {world after : World} {value : UInt8}
    (evaluated : Evaluation.call (whole.setting tree ending) (budget + 1) source.function arguments
      world = some (value, after))
    (function : Option Int) (rest : Listing) (stack : List (StackValue ProgramPlace)) :
    program.Leads ending ⟨⟨function, code ++ rest⟩, world.values (piled arguments stack)⟩
      ⟨⟨function, rest⟩, after.values (called.result.pushed value stack)⟩ := by
  obtain ⟨label, body, named, there, first, last, madeBody⟩ := compiled.body member
  obtain ⟨same, foundSame, result, parameters⟩ := (sound.functions source member).declared
  obtain rfl : called = same := Option.some.inj (found.symm.trans foundSame)
  obtain rfl : code = [.invoke label] := by
    rw [Compile.labelOf?, found, Option.bind_some] at named
    unfold Function.label? at named
    split at named
    next => cases named
    next number body =>
      obtain rfl := Option.some.inj named
      simp only [Compile.callInstructions, found, body] at made
      exact (Except.ok.inj made).symm
  -- Functions are told apart by their numbers, so the evaluation looks up the same one.
  have finds : whole.functions.find? (fun function => function.function = source.function) =
      some source := by
    obtain ⟨other, has⟩ := Option.isSome_iff_exists.mp
      (List.find?_isSome (p := fun function => function.function = source.function)
        |>.mpr ⟨source, member, decide_eq_true rfl⟩)
    rw [has, List.inj_on_of_nodup_map sound.unique (List.mem_of_find?_eq_some has) member
      (of_decide_eq_true (List.find?_some has :))]
  simp only [Evaluation.call, finds, stateOption_bind] at evaluated
  obtain ⟨_, stored, storedAll, flow, final, evaluatedBody, ends⟩ := evaluated
  simp only [Compile.function, stateExcept_bind, stateExcept_lift, stateExcept_pure] at madeBody
  obtain ⟨address, _, ⟨foundAddress, rfl⟩, parameterCode, _, ⟨madeParameters, rfl⟩, inner, _,
    madeInner, finish, _, ⟨madeFinish, rfl⟩, rfl, rfl⟩ := madeBody
  obtain ⟨scope, together⟩ := (sound.functions source member).together
  obtain ⟨home, typedBody⟩ := (sound.functions source member).body
  -- The code before the body stores the arguments, and the body then ends behind itself or in a return.
  have begun := @begins program tree ending sound.scopes whole.functions address foundAddress
    source.parameters (sound.functions source member).distinct scope together parameterCode
    madeParameters arguments (by rw [count, parameters, List.length_map]) world stored storedAll
    (.address ⟨function, rest⟩) (some label) (inner ++ finish) stack
  have placed : program.body? (some (label : Int)) =
      some ((.writeLocal address :: parameterCode ++ [.readLocal address]) ++ (inner ++ finish)) := by
    simpa [body?] using there
  obtain ⟨place, reaches, runs⟩ := before.statement typedBody madeInner
    placed evaluatedBody fun _ => ⟨⟨function, rest⟩, stack, rfl⟩
  have enters : program.step? ending ⟨⟨function, [.invoke label] ++ rest⟩,
      world.values (piled arguments stack)⟩ = some ⟨⟨some label,
        (.writeLocal address :: parameterCode ++ [.readLocal address]) ++ (inner ++ finish)⟩,
        world.values (.address ⟨function, rest⟩ :: piled arguments stack)⟩ := by
    simp only [List.singleton_append, step?, there, List.append_assoc]
    rfl
  refine .step enters (begun.trans (runs.trans ?_))
  cases reaches with
  | next =>
    obtain ⟨rfl, rfl⟩ := stateOption_pure.mp ends
    rw [result]
    exact ending_leads madeFinish
  | returned within calls =>
    obtain ⟨rfl, rfl⟩ := stateOption_pure.mp ends
    obtain rfl := Option.some.inj within
    obtain ⟨same, rfl⟩ := List.cons.inj calls
    obtain rfl := StackValue.address.inj same
    rw [result]
    exact .refl _

theorem call_succ (sound : whole.IsSound tree) (compiled : whole.IsCompiled tree program)
    (before : Simulated (whole.setting tree ending) program budget) (id : FunctionId) :
    CallRuns (whole.setting tree ending) program (budget + 1) id := by
  intro called code found other made arguments count world after value evaluated function rest stack
  rcases sound.builtin_or_user found with builtin | ⟨source, member, rfl⟩
  · exact builtin_succ sound builtin other made count evaluated function rest stack
  · exact user_succ sound compiled before member found made count evaluated function rest stack

end Simulated

/-! ## Statements -/

theorem Program.WellFormed.labels_nodup (wellFormed : program.WellFormed) {function : Option Int}
    {body : Listing} (placed : program.body? function = some body) : (Listing.labels body).Nodup := by
  have distinct := wellFormed.distinct
  simp only [allLabels, List.append_assoc] at distinct
  obtain ⟨main, others, -⟩ := List.nodup_append'.mp distinct
  cases function with
  | none =>
    obtain rfl := Option.some.inj placed
    exact main
  | some id =>
    have each := (List.nodup_flatMap.mp (List.nodup_append'.mp others).1).1
    exact (List.nodup_cons.mp (each _ (FunctionTable.mem_of_get? placed))).2

namespace Program

variable {function : Option Int} {world : World}
  {stack : List (StackValue ProgramPlace)} {label : Int}

theorem jump?_of_placed (wellFormed : program.WellFormed) {before target : Listing}
    (placed : program.body? function = some (before ++ .label label :: target)) (rest : Listing)
    (values : StackState ProgramPlace) :
    program.jump? ⟨function, rest⟩ label values = some ⟨⟨function, target⟩, values⟩ := by
  have found := Listing.behindLabel?_eq_some rfl (wellFormed.labels_nodup placed)
  simp [jump?, placed, found]

theorem leads_jump (wellFormed : program.WellFormed) {before target : Listing}
    (placed : program.body? function = some (before ++ .label label :: target)) (rest : Listing)
    (values : StackState ProgramPlace) :
    program.Leads ending ⟨⟨function, .jump label :: rest⟩, values⟩ ⟨⟨function, target⟩, values⟩ :=
  .step (jump?_of_placed wellFormed placed rest values) (.refl _)

/-- A condition that is not zero leads to the label. -/
theorem leads_jumpIf (wellFormed : program.WellFormed) {before target : Listing}
    (placed : program.body? function = some (before ++ .label label :: target)) (rest : Listing)
    (value : UInt8) :
    program.Leads ending ⟨⟨function, .jumpIf label :: rest⟩, world.values (.byte value :: stack)⟩
      ⟨⟨function, if value ≠ 0 then target else rest⟩, world.values stack⟩ := by
  refine .step ?_ (.refl _)
  have jumps := jump?_of_placed wellFormed placed rest (world.values stack)
  by_cases zero : value = 0
  · simp [step?, StackState.popByte?, StackState.pop?, World.values, zero]
  · simpa [step?, StackState.popByte?, StackState.pop?, World.values, zero] using jumps

/-- A condition that is zero leads to the label. -/
theorem leads_unless (wellFormed : program.WellFormed) {before target : Listing}
    (placed : program.body? function = some (before ++ .label label :: target)) (rest : Listing)
    (value : UInt8) :
    program.Leads ending
      ⟨⟨function, .not :: .jumpIf label :: rest⟩, world.values (.byte value :: stack)⟩
      ⟨⟨function, if value = 0 then target else rest⟩, world.values stack⟩ := by
  have negates : program.step? ending
      ⟨⟨function, .not :: .jumpIf label :: rest⟩, world.values (.byte value :: stack)⟩ =
      some ⟨⟨function, .jumpIf label :: rest⟩,
        world.values (.byte (Byte.ofBool (value = 0)) :: stack)⟩ := rfl
  refine .step negates ?_
  have jumps := @leads_jumpIf program ending function world stack label wellFormed before target
    placed rest (Byte.ofBool (value = 0))
  by_cases zero : value = 0
  · simpa [zero, Byte.ofBool] using jumps
  · simpa [zero, Byte.ofBool] using jumps

end Program

namespace ReachesEnd

variable {function : Option Int} {rest : Listing} {result : Option ValueType}
  {stack : List (StackValue ProgramPlace)} {first : ProgramState} {flow : Flow} {after : World}

theorem next {first : ProgramState}
    (leads : program.Leads ending first ⟨⟨function, rest⟩, after.values stack⟩) :
    ReachesEnd program ending function rest result stack first .next after := ⟨_, .next, leads⟩

theorem behind {earlier : ProgramState} (leads : program.Leads ending earlier first)
    (reaches : ReachesEnd program ending function rest result stack first flow after) :
    ReachesEnd program ending function rest result stack earlier flow after := by
  obtain ⟨final, ends, onwards⟩ := reaches
  exact ⟨final, ends, leads.trans onwards⟩

/-- What follows the code of a statement may lead on, if it is reached. -/
theorem onward {more : Listing}
    (reaches : ReachesEnd program ending function more result stack first flow after)
    (leads : ∀ world : World, program.Leads ending ⟨⟨function, more⟩, world.values stack⟩
      ⟨⟨function, rest⟩, world.values stack⟩) :
    ReachesEnd program ending function rest result stack first flow after := by
  obtain ⟨final, ends, path⟩ := reaches
  cases ends with
  | next => exact .next (path.trans (leads after))
  | returned within calls => exact ⟨_, .returned within calls, path⟩

/-- A statement does not end where it starts, unless its code is empty. -/
theorem behind_step {world : World} {code : Listing} {middle : ProgramState}
    (reaches : ReachesEnd program ending function rest result stack
      ⟨⟨function, code⟩, world.values stack⟩ flow after)
    (longer : rest.length < code.length)
    (stepped : program.step? ending ⟨⟨function, code⟩, world.values stack⟩ = some middle) :
    ReachesEnd program ending function rest result stack middle flow after := by
  obtain ⟨final, ends, path⟩ := reaches
  refine ⟨final, ends, path.behind_step stepped fun same => ?_⟩
  cases ends with
  | next =>
    have place := congrArg (·.place.rest.length) same
    exact absurd place (Nat.ne_of_gt longer)
  | @returned type place below value within calls =>
    -- The return address is gone, and nothing of its kind has taken its place.
    have values := congrArg (·.values.stack) same
    simp only [World.values, calls, ValueType.pushed] at values
    split at values
    · simpa using congrArg List.length values
    · cases values

end ReachesEnd

namespace Simulated

theorem condition (before : Simulated (whole.setting tree ending) program budget)
    {source : TypedExpression} {home : ScopeId} (typed : source.IsSound tree home)
    (has : source.type = .int)
    {code : Listing} (made : Compile.expression tree source = .ok code) {world after : World}
    {value : UInt8}
    (evaluated : Evaluation.expression (whole.setting tree ending) budget source world =
      some (value, after))
    (function : Option Int) (rest : Listing) (stack : List (StackValue ProgramPlace)) :
    program.Leads ending ⟨⟨function, code ++ rest⟩, world.values stack⟩
      ⟨⟨function, rest⟩, after.values (.byte value :: stack)⟩ := by
  have leads := before.expression typed made evaluated function rest stack
  rwa [has] at leads

theorem leads_drop {type : ValueType} {code : Listing} (made : Compile.dropValue type = .ok code)
    {function : Option Int} {rest : Listing} {world : World} {value : UInt8}
    {stack : List (StackValue ProgramPlace)} :
    program.Leads ending ⟨⟨function, code ++ rest⟩, world.values (type.pushed value stack)⟩
      ⟨⟨function, rest⟩, world.values stack⟩ := by
  unfold Compile.dropValue at made
  split at made
  next =>
    obtain rfl := Except.ok.inj made
    exact .refl _
  next =>
    obtain rfl := Except.ok.inj made
    exact .step rfl (.refl _)
  next => cases made

theorem declare_runs (sound : whole.IsSound tree)
    (before : Simulated (whole.setting tree ending) program budget)
    (id : VariableId) (value : TypedExpression) :
    StatementRuns (whole.setting tree ending) program (budget + 1) (.declare id value) := by
  intro code home result first last typed made function start rest placed world after flow evaluated stack
    stands
  simp only [Compile.statement, stateExcept_bind, stateExcept_lift, stateExcept_pure] at made
  obtain ⟨inner, _, ⟨madeInner, rfl⟩, layout, _, ⟨found, rfl⟩, rfl, rfl⟩ := made
  simp only [Evaluation.statement, stateOption_bind, stateOption_pure] at evaluated
  obtain ⟨value, between, evaluatedInner, _, _, stored, rfl, rfl⟩ := evaluated
  obtain ⟨-, rfl⟩ := Prod.mk.inj (Option.some.inj stored)
  obtain ⟨slot, has, own, addressed, cells⟩ := Compile.numberLayout_eq_ok sound.scopes found
  have inner := before.expression typed.1 madeInner evaluatedInner function
    (.writeLocal layout :: rest) stack
  rw [typed.2.1] at inner
  have body : (Instruction.writeLocal layout).isBody = true := cells
  have stores : program.step? ending
      ⟨⟨function, .writeLocal layout :: rest⟩, between.values (.byte value :: stack)⟩ =
      some ⟨⟨function, rest⟩, (between.store slot value).values stack⟩ := by
    rw [step?_body body, World.execute?_writeLocal addressed own value]
    rfl
  rw [List.append_assoc, slot_eq has]
  exact .next (inner.trans (.step stores (.refl _)))

theorem evaluate_runs (before : Simulated (whole.setting tree ending) program budget)
    (value : TypedExpression) :
    StatementRuns (whole.setting tree ending) program (budget + 1) (.evaluate value) := by
  intro code home result first last typed made function start rest placed world after flow evaluated stack
    stands
  simp only [Compile.statement, stateExcept_bind, stateExcept_lift, stateExcept_pure] at made
  obtain ⟨inner, _, ⟨madeInner, rfl⟩, drop, _, ⟨dropped, rfl⟩, rfl, rfl⟩ := made
  simp only [Evaluation.statement, stateOption_bind, stateOption_pure,
    stateOption_discard] at evaluated
  obtain ⟨_, _, ⟨value, evaluatedInner⟩, rfl, rfl⟩ := evaluated
  rw [List.append_assoc]
  exact .next ((before.expression typed madeInner evaluatedInner function (drop ++ rest) stack).trans
    (leads_drop dropped))

theorem ifThen_runs (wellFormed : program.WellFormed)
    (before : Simulated (whole.setting tree ending) program budget)
    (condition : TypedExpression) (consequence : TypedStatement) :
    StatementRuns (whole.setting tree ending) program (budget + 1) (.ifThen condition consequence) := by
  intro code home result first last typed made function start rest placed world after flow evaluated stack
    stands
  simp only [Compile.statement, stateExcept_bind, stateExcept_lift, stateExcept_pure,
    Compile.newLabel_eq_ok] at made
  obtain ⟨_, _, ⟨rfl, rfl⟩, test, _, ⟨madeTest, rfl⟩, inner, _, madeInner, rfl, rfl⟩ := made
  simp only [Evaluation.statement, stateOption_bind] at evaluated
  obtain ⟨value, between, evaluatedTest, chosen⟩ := evaluated
  simp only [List.append_assoc, List.cons_append, List.nil_append] at placed ⊢
  have behind : program.body? function =
      some ((start ++ (test ++ .not :: .jumpIf first :: inner)) ++ .label first :: rest) := by
    simpa using placed
  have branches := (before.condition typed.1 typed.2.1 madeTest evaluatedTest function _ stack).trans
    (leads_unless wellFormed behind (inner ++ .label first :: rest) value)
  by_cases zero : value = 0
  · rw [if_neg (not_not.mpr zero)] at chosen
    obtain ⟨rfl, rfl⟩ := stateOption_pure.mp chosen
    rw [if_pos zero] at branches
    exact .next branches
  · rw [if_pos zero] at chosen
    rw [if_neg zero] at branches
    have inside : program.body? function = some ((start ++ (test ++ [.not, .jumpIf first])) ++
        (inner ++ .label first :: rest)) := by
      simpa using placed
    exact .behind branches ((before.statement typed.2.2 madeInner inside chosen stands).onward
      fun _ => .step rfl (.refl _))

theorem ifThenElse_runs (wellFormed : program.WellFormed)
    (before : Simulated (whole.setting tree ending) program budget)
    (condition : TypedExpression) (consequence alternative : TypedStatement) :
    StatementRuns (whole.setting tree ending) program (budget + 1)
      (.ifThenElse condition consequence alternative) := by
  intro code home result first last typed made function start rest placed world after flow evaluated stack
    stands
  simp only [Compile.statement, stateExcept_bind, stateExcept_lift, stateExcept_pure,
    Compile.newLabel_eq_ok] at made
  obtain ⟨_, _, ⟨rfl, rfl⟩, _, _, ⟨rfl, rfl⟩, test, _, ⟨madeTest, rfl⟩, other, middle, madeOther,
    inner, _, madeInner, rfl, rfl⟩ := made
  simp only [Evaluation.statement, stateOption_bind] at evaluated
  obtain ⟨value, between, evaluatedTest, chosen⟩ := evaluated
  simp only [List.append_assoc, List.cons_append, List.nil_append] at placed ⊢
  -- The same body, seen from the two places to which its jumps lead.
  have behind : program.body? function = some ((start ++ (test ++ .jumpIf first ::
      (other ++ .jump (first + 1 : Nat) :: .label first :: inner))) ++
        .label (first + 1 : Nat) :: rest) := by
    simpa using placed
  have nonzero : program.body? function = some ((start ++ (test ++ .jumpIf first ::
      (other ++ [.jump (first + 1 : Nat)]))) ++ .label first ::
        (inner ++ .label (first + 1 : Nat) :: rest)) := by
    simpa using placed
  have branches := (before.condition typed.1 typed.2.1 madeTest evaluatedTest function _ stack).trans
    (leads_jumpIf wellFormed nonzero
      (other ++ .jump (first + 1 : Nat) :: .label first :: (inner ++
        .label (first + 1 : Nat) :: rest)) value)
  by_cases zero : value = 0
  · rw [if_neg (not_not.mpr zero)] at chosen branches
    have inside : program.body? function = some ((start ++ (test ++ [.jumpIf first])) ++
        (other ++ .jump (first + 1 : Nat) :: .label first :: (inner ++
          .label (first + 1 : Nat) :: rest))) := by
      simpa using placed
    exact .behind branches ((before.statement typed.2.2.2 madeOther inside chosen stands).onward
      fun _ => leads_jump wellFormed behind _ _)
  · rw [if_pos zero] at chosen branches
    have inside : program.body? function = some ((start ++ (test ++ .jumpIf first ::
        (other ++ [.jump (first + 1 : Nat), .label first]))) ++
          (inner ++ .label (first + 1 : Nat) :: rest)) := by
      simpa using placed
    exact .behind branches ((before.statement typed.2.2.1 madeInner inside chosen stands).onward
      fun _ => .step rfl (.refl _))

theorem whileDo_runs (wellFormed : program.WellFormed)
    (before : Simulated (whole.setting tree ending) program budget)
    (condition : TypedExpression) (body : TypedStatement) :
    StatementRuns (whole.setting tree ending) program (budget + 1) (.whileDo condition body) := by
  intro code home result first last typed made function start rest placed world after flow evaluated stack
    stands
  have remade := made
  simp only [Compile.statement, stateExcept_bind, stateExcept_lift, stateExcept_pure,
    Compile.newLabel_eq_ok] at made
  obtain ⟨_, _, ⟨rfl, rfl⟩, _, _, ⟨rfl, rfl⟩, test, _, ⟨madeTest, rfl⟩, inner, _, madeInner, rfl,
    rfl⟩ := made
  simp only [Evaluation.statement, stateOption_bind] at evaluated
  obtain ⟨value, between, evaluatedTest, chosen⟩ := evaluated
  -- The loop itself, run with a budget less, is what follows its first turn.
  have repeats := @before.statement _ _ _ _ _ _ typed remade function start rest placed
  simp only [List.append_assoc, List.cons_append, List.nil_append] at placed repeats ⊢
  have behind : program.body? function = some ((start ++ .label first :: (test ++ .not ::
      .jumpIf (first + 1 : Nat) :: (inner ++ [.jump first]))) ++
        .label (first + 1 : Nat) :: rest) := by
    simpa using placed
  have branches := (before.condition typed.1 typed.2.1 madeTest evaluatedTest function _ stack).trans
    (leads_unless wellFormed behind
      (inner ++ .jump first :: .label (first + 1 : Nat) :: rest) value)
  refine .behind (.step rfl (.refl _)) ?_
  by_cases zero : value = 0
  · rw [if_neg (not_not.mpr zero)] at chosen
    obtain ⟨rfl, rfl⟩ := stateOption_pure.mp chosen
    rw [if_pos zero] at branches
    exact .next branches
  · rw [if_pos zero, stateOption_bind] at chosen
    obtain ⟨flowBody, later, evaluatedBody, next⟩ := chosen
    rw [if_neg zero] at branches
    have inside : program.body? function = some ((start ++ .label first :: (test ++
        [.not, .jumpIf (first + 1 : Nat)])) ++
          (inner ++ .jump first :: .label (first + 1 : Nat) :: rest)) := by
      simpa using placed
    obtain ⟨final, ends, path⟩ :=
      before.statement typed.2.2 madeInner inside evaluatedBody stands
    refine .behind (branches.trans path) ?_
    cases ends with
    | returned within calls =>
      obtain ⟨rfl, rfl⟩ := stateOption_pure.mp next
      exact ⟨_, .returned within calls, .refl _⟩
    | next =>
      -- The next turn starts behind the label, where the jump leads.
      exact .behind (leads_jump wellFormed placed _ _)
        ((repeats next stands).behind_step (by simp; omega) rfl)

theorem doWhile_runs (wellFormed : program.WellFormed)
    (before : Simulated (whole.setting tree ending) program budget)
    (body : TypedStatement) (condition : TypedExpression) :
    StatementRuns (whole.setting tree ending) program (budget + 1) (.doWhile body condition) := by
  intro code home result first last typed made function start rest placed world after flow evaluated stack
    stands
  have remade := made
  simp only [Compile.statement, stateExcept_bind, stateExcept_lift, stateExcept_pure,
    Compile.newLabel_eq_ok] at made
  obtain ⟨_, _, ⟨rfl, rfl⟩, inner, _, madeInner, test, _, ⟨madeTest, rfl⟩, rfl, rfl⟩ := made
  simp only [Evaluation.statement, stateOption_bind] at evaluated
  obtain ⟨flowBody, between, evaluatedBody, chosen⟩ := evaluated
  have repeats := @before.statement _ _ _ _ _ _ typed remade function start rest placed
  simp only [List.append_assoc, List.cons_append, List.nil_append] at placed repeats ⊢
  refine .behind (.step rfl (.refl _)) ?_
  have inside : program.body? function =
      some ((start ++ [.label first]) ++ (inner ++ (test ++ .jumpIf first :: rest))) := by
    simpa using placed
  obtain ⟨final, ends, path⟩ := before.statement typed.2.2 madeInner inside evaluatedBody stands
  refine .behind path ?_
  cases ends with
  | returned within calls =>
    obtain ⟨rfl, rfl⟩ := stateOption_pure.mp chosen
    exact ⟨_, .returned within calls, .refl _⟩
  | next =>
    simp only [stateOption_bind] at chosen
    obtain ⟨value, later, evaluatedTest, next⟩ := chosen
    have branches := (before.condition typed.1 typed.2.1 madeTest evaluatedTest function _
      stack).trans (leads_jumpIf wellFormed placed rest value)
    by_cases zero : value = 0
    · rw [if_neg (not_not.mpr zero)] at next branches
      obtain ⟨rfl, rfl⟩ := stateOption_pure.mp next
      exact .next branches
    · rw [if_pos zero] at next branches
      exact .behind branches ((repeats next stands).behind_step (by simp; omega) rfl)

theorem result_runs (before : Simulated (whole.setting tree ending) program budget)
    (value : Option TypedExpression) :
    StatementRuns (whole.setting tree ending) program (budget + 1) (.result value) := by
  intro code home result first last typed made function start rest placed world after flow evaluated stack
    stands
  cases value with
  | none =>
    obtain ⟨rfl, rfl⟩ := stateExcept_pure.mp made
    obtain ⟨rfl, rfl⟩ := stateOption_pure.mp evaluated
    obtain rfl := typed
    obtain ⟨place, below, rfl⟩ := stands rfl
    exact ⟨_, .returned rfl rfl, .step rfl (.refl _)⟩
  | some value =>
    simp only [Compile.statement, stateExcept_bind, stateExcept_lift, stateExcept_pure] at made
    obtain ⟨inner, _, ⟨madeInner, rfl⟩, rfl, rfl⟩ := made
    simp only [Evaluation.statement, stateOption_bind, stateOption_pure] at evaluated
    obtain ⟨_, _, evaluatedInner, rfl, rfl⟩ := evaluated
    obtain ⟨rfl, typedInner, number⟩ := typed
    obtain ⟨place, below, rfl⟩ := stands rfl
    have inner := before.expression typedInner madeInner evaluatedInner function
      (.swapInt :: .leave :: rest) (.address place :: below)
    rw [number] at inner
    rw [List.append_assoc]
    exact ⟨_, .returned rfl rfl, inner.trans (.step rfl (.step rfl (.refl _)))⟩

theorem statement_succ (sound : whole.IsSound tree) (wellFormed : program.WellFormed)
    (before : Simulated (whole.setting tree ending) program budget) (source : TypedStatement) :
    StatementRuns (whole.setting tree ending) program (budget + 1) source := by
  cases source with
  | block sources =>
    intro code home result first last typed made function start rest placed world after flow evaluated
      stack stands
    exact before.statements typed made placed evaluated stands
  | declare id value => exact before.declare_runs sound id value
  | evaluate value => exact before.evaluate_runs value
  | ifThen condition consequence => exact before.ifThen_runs wellFormed condition consequence
  | ifThenElse condition consequence alternative =>
    exact before.ifThenElse_runs wellFormed condition consequence alternative
  | whileDo condition body => exact before.whileDo_runs wellFormed condition body
  | doWhile body condition => exact before.doWhile_runs wellFormed body condition
  | result value => exact before.result_runs value

theorem statements_succ (before : Simulated (whole.setting tree ending) program budget)
    (sources : List TypedStatement) :
    StatementsRun (whole.setting tree ending) program (budget + 1) sources := by
  intro code home result first last typed made function start rest placed world after flow evaluated stack
    stands
  cases sources with
  | nil =>
    obtain ⟨rfl, rfl⟩ := stateExcept_pure.mp made
    obtain ⟨rfl, rfl⟩ := stateOption_pure.mp evaluated
    exact .next (.refl _)
  | cons first others =>
    simp only [Compile.blockStatements, stateExcept_bind, stateExcept_pure] at made
    obtain ⟨firstCode, _, madeFirst, otherCode, _, madeOthers, rfl, rfl⟩ := made
    simp only [Evaluation.statements, stateOption_bind] at evaluated
    obtain ⟨flowFirst, between, evaluatedFirst, evaluatedOthers⟩ := evaluated
    rw [List.append_assoc] at placed ⊢
    have firstReaches := before.statement typed.1 madeFirst placed evaluatedFirst stands
    obtain ⟨final, ends, path⟩ := firstReaches
    cases ends with
    | next =>
      have placedOthers : program.body? function = some ((start ++ firstCode) ++ (otherCode ++ rest)) := by
        rw [placed, List.append_assoc]
      exact .behind path (before.statements typed.2 madeOthers placedOthers evaluatedOthers stands)
    | returned within calls =>
      obtain ⟨rfl, rfl⟩ := stateOption_pure.mp evaluatedOthers
      exact ⟨_, .returned within calls, path⟩

theorem always (sound : whole.IsSound tree) (compiled : whole.IsCompiled tree program)
    (budget : Nat) : Simulated (whole.setting tree ending) program budget := by
  have wellFormed := compiled.wellFormed sound
  induction budget with
  | zero => exact .zero
  | succ budget ih =>
    exact ⟨ih.expression_succ sound _, ih.expressions_succ _, ih.call_succ sound compiled _,
      ih.statement_succ sound wellFormed _, ih.statements_succ _⟩

end Simulated

/-- A program whose evaluation ends runs to the end of its main block and prints the same. -/
theorem TypedProgram.IsCompiled.runs (sound : whole.IsSound tree)
    (compiled : whole.IsCompiled tree program) {budget : Nat} {input output : List UInt8}
    (evaluated : whole.evaluate tree ending budget input = some output) :
    ∃ state, program.Leads ending (program.start input) state ∧ hasFinished state = true ∧
      state.values.output = output := by
  obtain ⟨⟨flow, after⟩, ran, rfl⟩ := Option.map_eq_some_iff.mp evaluated
  obtain ⟨last, made⟩ := compiled.main
  have placed : program.body? none = some ([] ++ (program.main ++ [])) := by
    simp [body?]
  have outside : Stands none [] := fun within => nomatch within
  obtain ⟨final, ends, path⟩ := (Simulated.always sound compiled budget).statements sound.main made
    placed ran outside
  rw [List.append_nil, World.values_start] at path
  cases ends with
  | next => exact ⟨_, path, rfl, rfl⟩
  | returned within calls => cases calls

end TapeCode
