import TapeCode.Proofs.Compilation.Values
import TapeCode.Proofs.Compilation.WellFormed

/-!
# Calls in compiled code

A call of a built-in function becomes instructions that do what the function is said to do. The code of
a function starts by storing its arguments, while the return address stays in the slot kept for it.
-/
namespace TapeCode

variable {setting : Setting} {world after : World} {stack : List (StackValue ProgramPlace)}

/-- Values as they stand on the stack, the last one on top. -/
def piled (values : List UInt8) (stack : List (StackValue ProgramPlace)) :
    List (StackValue ProgramPlace) :=
  values.reverse.map .byte ++ stack

theorem piled_cons (first : UInt8) (rest : List UInt8) :
    piled (first :: rest) stack = piled rest (.byte first :: stack) := by
  simp [piled]

/-! ## Built-in functions -/

theorem read_runs {value : UInt8}
    (evaluated : Evaluation.read setting world = some (value, after)) :
    (world.values stack).executeAll? setting.ending [.readChar] =
      some (after.values (.byte value :: stack)) := by
  obtain ⟨rfl, rfl⟩ := Prod.mk.inj (Option.some.inj evaluated)
  cases left : world.input <;>
    simp [StackState.executeAll?, StackState.execute?, StackState.read, World.values, left,
      StackState.push]

theorem builtin_runs {id : FunctionId} {called : Function} {instructions : Listing}
    (found : Function.builtins[id]? = some called) (body : called.body = .inPlace instructions)
    (other : called.name ≠ assignment) {arguments : List UInt8}
    (count : arguments.length = called.parameters.length) {value : UInt8}
    (evaluated : Evaluation.builtin setting called.name arguments world = some (value, after)) :
    (world.values (piled arguments stack)).executeAll? setting.ending instructions =
      some (after.values (called.result.pushed value stack)) := by
  have among := List.mem_of_getElem? found
  simp only [Function.builtins, Function.operator, Function.builtin, List.mem_cons,
    List.not_mem_nil, or_false] at among
  rcases among with rfl | rfl | rfl | rfl | rfl | rfl | rfl | rfl | rfl | rfl | rfl <;>
    obtain rfl := FunctionBody.inPlace.inj body
  -- `print` takes the character that it prints.
  · obtain ⟨character, rfl⟩ := List.length_eq_one_iff.mp count
    obtain ⟨rfl, rfl⟩ := Prod.mk.inj (Option.some.inj evaluated)
    rfl
  · obtain rfl := List.length_eq_zero_iff.mp count
    -- `read` takes nothing.
    exact read_runs evaluated
  · obtain ⟨character, rfl⟩ := List.length_eq_one_iff.mp count
    obtain ⟨rfl, rfl⟩ := Prod.mk.inj (Option.some.inj evaluated)
    rfl
  · obtain ⟨left, right, rfl⟩ := List.length_eq_two.mp count
    obtain ⟨rfl, rfl⟩ := stateOption_pure.mp evaluated
    -- `==` is a difference that is zero.
    have same : left - right = 0 ↔ left = right := by
      constructor
      · intro none
        simpa using congrArg (· + right) none
      · rintro rfl
        exact UInt8.sub_self _
    simp only [← same]
    rfl
  · obtain ⟨left, right, rfl⟩ := List.length_eq_two.mp count
    obtain ⟨rfl, rfl⟩ := stateOption_pure.mp evaluated
    rfl
  · obtain ⟨left, right, rfl⟩ := List.length_eq_two.mp count
    obtain ⟨rfl, rfl⟩ := stateOption_pure.mp evaluated
    rfl
  · obtain ⟨left, right, rfl⟩ := List.length_eq_two.mp count
    obtain ⟨rfl, rfl⟩ := stateOption_pure.mp evaluated
    rfl
  · obtain ⟨left, right, rfl⟩ := List.length_eq_two.mp count
    obtain ⟨rfl, rfl⟩ := stateOption_pure.mp evaluated
    rfl
  · obtain ⟨left, right, rfl⟩ := List.length_eq_two.mp count
    obtain ⟨rfl, rfl⟩ := stateOption_pure.mp evaluated
    rfl
  -- The assignment is no call.
  · exact absurd rfl other
  · obtain rfl := List.length_eq_zero_iff.mp count
    -- `readDigit` reads a character and takes the code of `0` from it.
    simp only [Evaluation.builtin, stateOption_bind, stateOption_pure] at evaluated
    obtain ⟨read, between, evaluated, rfl, rfl⟩ := evaluated
    have first := @read_runs _ _ _ stack _ evaluated
    simp only [StackState.executeAll?, Option.bind_eq_bind, Option.bind_eq_some_iff,
      Option.some.injEq] at first ⊢
    obtain ⟨middle, executed, rfl⟩ := first
    exact ⟨_, executed, _, rfl, _, rfl, rfl⟩

/-! ## Parameters -/

theorem slot_eq {tree : ScopeTree} {functions : List TypedFunction} {ending : EndOfInput}
    {id : VariableId} {slot : Nat} (has : tree.slot? id = some slot) :
    Evaluation.slot ⟨tree, functions, ending⟩ id = slot := by
  simp [Evaluation.slot, has]

/-- Storing elsewhere may come before or after the parameters. -/
theorem storeParameters_store {slot : Nat} (value : UInt8) {parameters : List VariableId}
    {arguments : List UInt8} (apart : ∀ id ∈ parameters, Evaluation.slot setting id ≠ slot)
    (stored : Evaluation.storeParameters setting parameters arguments world = some ((), after)) :
    Evaluation.storeParameters setting parameters arguments (world.store slot value) =
      some ((), after.store slot value) := by
  induction parameters generalizing arguments world with
  | nil =>
    obtain ⟨-, rfl⟩ := stateOption_pure.mp stored
    rfl
  | cons first rest ih =>
    cases arguments with
    | nil =>
      obtain ⟨-, rfl⟩ := stateOption_pure.mp stored
      rfl
    | cons argument arguments =>
      simp only [List.forall_mem_cons] at apart
      have onwards := @ih (world.store (Evaluation.slot setting first) argument) _ apart.2 stored
      rw [World.store_comm apart.1] at onwards
      exact onwards

theorem storeParameters_total (setting : Setting) (parameters : List VariableId)
    (arguments : List UInt8) (world : World) : ∃ after,
      Evaluation.storeParameters setting parameters arguments world = some ((), after) := by
  induction parameters generalizing arguments world with
  | nil => exact ⟨world, rfl⟩
  | cons first rest ih =>
    cases arguments with
    | nil => exact ⟨world, rfl⟩
    | cons argument arguments => exact ih arguments _

theorem Compile.storeParameters_append {tree : ScopeTree} {parameters : List VariableId}
    {last : VariableId} {code : Listing}
    (made : Compile.storeParameters tree (parameters ++ [last]) = .ok code) :
    ∃ before layout, Compile.storeParameters tree parameters = .ok before ∧
      Compile.numberLayout tree last .parameter = .ok layout ∧
      code = before ++ [.writeLocal layout] := by
  induction parameters generalizing code with
  | nil =>
    simp only [List.nil_append, storeParameters, Except.bind_eq_ok] at made
    obtain ⟨layout, found, _, none, made⟩ := made
    obtain rfl := Except.ok.inj none
    obtain rfl := Except.ok.inj made
    exact ⟨[], layout, rfl, found, rfl⟩
  | cons first rest ih =>
    simp only [List.cons_append, storeParameters, Except.bind_eq_ok] at made
    obtain ⟨firstLayout, foundFirst, others, madeOthers, made⟩ := made
    obtain rfl := Except.ok.inj made
    obtain ⟨before, layout, madeBefore, found, rfl⟩ := ih madeOthers
    refine ⟨.writeLocal firstLayout :: before, layout, ?_, found, rfl⟩
    simp only [storeParameters, Except.bind_eq_ok]
    exact ⟨firstLayout, foundFirst, before, madeBefore, rfl⟩

/-- The arguments go from the stack into the slots of the parameters, the last one first, while the
return address is parked. -/
theorem storeParameters_runs (sound : setting.tree.IsSound) {parameters : List VariableId}
    (distinct : parameters.Nodup) {scope : ScopeId} (together : ∀ id ∈ parameters,
      (setting.tree.declaredVariables[id]?).map (·.scope) = some scope)
    {code : Listing} (made : Compile.storeParameters setting.tree parameters.reverse = .ok code)
    {arguments : List UInt8} (count : arguments.length = parameters.length)
    (stored : Evaluation.storeParameters setting parameters arguments world = some ((), after))
    (parked : StackValue ProgramPlace) :
    ((world.values (piled arguments stack)).store 0 parked).executeAll? setting.ending code =
      some ((after.values stack).store 0 parked) := by
  induction parameters generalizing arguments stack code after with
  | nil =>
    obtain rfl := List.length_eq_zero_iff.mp count
    obtain rfl := Except.ok.inj made
    obtain ⟨-, rfl⟩ := stateOption_pure.mp stored
    rfl
  | cons first rest ih =>
    obtain ⟨argument, arguments, rfl⟩ := List.exists_cons_of_length_eq_add_one count
    obtain ⟨new, othersDistinct⟩ := List.nodup_cons.mp distinct
    simp only [List.forall_mem_cons] at together
    rw [List.reverse_cons] at made
    obtain ⟨before, layout, madeBefore, found, rfl⟩ := Compile.storeParameters_append made
    obtain ⟨slot, has, own, addressed, -⟩ := Compile.numberLayout_eq_ok sound found
    obtain ⟨between, storedRest⟩ := storeParameters_total setting rest arguments world
    -- The machine stores the first argument last, which makes no difference.
    have apart : ∀ id ∈ rest, Evaluation.slot setting id ≠ slot := by
      intro id member same
      cases other : setting.tree.slot? id with
      | none => exact own (by simpa [Evaluation.slot, other, eq_comm] using same)
      | some place =>
        obtain rfl : place = slot := (slot_eq other).symm.trans same
        exact new (ScopeTree.slot?_injective together.1 (together.2 id member) has other ▸ member)
    have stored' := storeParameters_store argument apart storedRest
    have store : Evaluation.slot setting first = slot := slot_eq has
    obtain rfl : between.store slot argument = after := by
      rw [Evaluation.storeParameters, stateOption_bind] at stored
      obtain ⟨_, middle, first, stored⟩ := stored
      obtain ⟨-, rfl⟩ := Prod.mk.inj (Option.some.inj first)
      rw [store, stored'] at stored
      exact (Prod.mk.inj (Option.some.inj stored)).2
    rw [piled_cons]
    refine StackState.executeAll?_append.mpr
      ⟨_, ih othersDistinct together.2 madeBefore (Nat.succ.inj count) storedRest, ?_⟩
    have moved : StackState.execute? setting.ending
        ((between.values (.byte argument :: stack)).store 0 parked) (.writeLocal layout) =
        some (((between.values stack).store 0 parked).store slot (.byte argument)) := by
      simp [StackState.execute?, addressed, StackState.pop?, World.values, StackState.store]
    rw [World.values_store_first own] at moved
    simp [StackState.executeAll?, moved]

end TapeCode
