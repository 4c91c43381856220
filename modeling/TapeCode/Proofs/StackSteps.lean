import TapeCode.Stack.Basic

/-!
# What an instruction does

Every way in which an instruction goes on to the next one, said once: what it finds on the stack and in
the heap, and what it leaves there. What an instruction keeps is then seen way by way.
-/
namespace TapeCode

namespace StackState

variable {α : Type} {ending : EndOfInput} {instruction : Instruction} {state after : StackState α}

/-! ## Taking values -/

theorem pop?_eq_some (state : StackState α) {value : StackValue α} {rest : StackState α}
    (popped : state.pop? = some (value, rest)) : state = rest.push value := by
  obtain ⟨stack, heap, input, output⟩ := state
  cases stack with
  | nil => simp [pop?] at popped
  | cons first stack =>
    obtain ⟨rfl, rfl⟩ : first = value ∧ _ = rest := by simpa [pop?] using popped
    rfl

theorem popByte?_eq_some (state : StackState α) {value : UInt8} {rest : StackState α}
    (popped : state.popByte? = some (value, rest)) : state = rest.push (.byte value) := by
  refine state.pop?_eq_some ?_
  unfold popByte? at popped
  split at popped <;> simp_all

theorem combine?_eq_some {operation : UInt8 → UInt8 → UInt8}
    (combined : state.combine? operation = some after) : ∃ first second rest,
      state = (push rest (.byte first)).push (.byte second) ∧
        after = rest.push (.byte (operation first second)) := by
  simp only [combine?, Option.bind_eq_bind, Option.bind_eq_some_iff, Prod.exists, Option.pure_def,
    Option.some.injEq] at combined
  obtain ⟨second, between, topmost, first, rest, next, rfl⟩ := combined
  obtain rfl := state.popByte?_eq_some topmost
  obtain rfl := between.popByte?_eq_some next
  exact ⟨first, second, rest, rfl, rfl⟩

/-! ## Executing instructions -/

/-- The instruction leads from one state to another. -/
inductive Executes (ending : EndOfInput) : Instruction → StackState α → StackState α → Prop
  | nop {markers : List Int} {state : StackState α} : Executes ending (.nop markers) state state
  | breakpoint {state : StackState α} : Executes ending .breakpoint state state
  | readChar {state : StackState α} : Executes ending .readChar state (state.read ending)
  | printChar {rest : StackState α} (value : UInt8) :
      Executes ending .printChar (rest.push (.byte value)) ((rest.push (.byte value)).print [value])
  | printInt {rest : StackState α} (value : UInt8) : Executes ending .printInt
      (rest.push (.byte value)) ((rest.push (.byte value)).print (Byte.digits value))
  | pushInt {state : StackState α} (value : Int) :
      Executes ending (.pushInt value) state (state.push (.byte (UInt8.ofInt value)))
  | popInt {rest : StackState α} (value : StackValue α) :
      Executes ending .popInt (rest.push value) rest
  | dupInt {rest : StackState α} (value : StackValue α) :
      Executes ending .dupInt (rest.push value) ((rest.push value).push value)
  | swapInt {rest : StackState α} (first second : StackValue α) :
      Executes ending .swapInt ((rest.push first).push second) ((rest.push second).push first)
  | not {rest : StackState α} (value : UInt8) : Executes ending .not (rest.push (.byte value))
      (rest.push (.byte (Byte.ofBool (value = 0))))
  | add {rest : StackState α} (first second : UInt8) : Executes ending .add
      ((rest.push (.byte first)).push (.byte second)) (rest.push (.byte (first + second)))
  | sub {rest : StackState α} (first second : UInt8) : Executes ending .sub
      ((rest.push (.byte first)).push (.byte second)) (rest.push (.byte (first - second)))
  | mul {rest : StackState α} (first second : UInt8) : Executes ending .mul
      ((rest.push (.byte first)).push (.byte second)) (rest.push (.byte (first * second)))
  | div {rest : StackState α} (first second : UInt8) : Executes ending .div
      ((rest.push (.byte first)).push (.byte second)) (rest.push (.byte (first / second)))
  | greater {rest : StackState α} (first second : UInt8) : Executes ending .greater
      ((rest.push (.byte first)).push (.byte second)) (rest.push (.byte (Byte.ofBool (second < first))))
  | readLocal {layout : List Int} {slot : Nat} (addressed : slot? layout = some slot)
      {state : StackState α} :
      Executes ending (.readLocal layout) state ((state.store slot (.byte 0)).push (state.heap slot))
  | writeLocal {layout : List Int} {slot : Nat} (addressed : slot? layout = some slot)
      {rest : StackState α} (value : StackValue α) :
      Executes ending (.writeLocal layout) (rest.push value) (rest.store slot value)
  | clearLocal {layout : List Int} {slot : Nat} (addressed : slot? layout = some slot)
      {state : StackState α} :
      Executes ending (.clearLocal layout) state (state.store slot (.byte 0))

private theorem executes_of_execute? (executed : state.execute? ending instruction = some after) :
    Executes ending instruction state after := by
  cases instruction
  case nop | breakpoint | readChar | pushInt =>
    obtain rfl := Option.some.inj executed
    constructor
  case printChar | printInt | «not» =>
    simp only [execute?, Option.bind_eq_bind, Option.bind_eq_some_iff, Prod.exists, Option.pure_def,
      Option.some.injEq] at executed
    obtain ⟨value, rest, popped, rfl⟩ := executed
    obtain rfl := state.popByte?_eq_some popped
    constructor
  case popInt | dupInt =>
    simp only [execute?, Option.bind_eq_bind, Option.bind_eq_some_iff, Prod.exists, Option.pure_def,
      Option.some.injEq] at executed
    obtain ⟨value, rest, popped, rfl⟩ := executed
    obtain rfl := state.pop?_eq_some popped
    constructor
  case swapInt =>
    simp only [execute?, Option.bind_eq_bind, Option.bind_eq_some_iff, Prod.exists, Option.pure_def,
      Option.some.injEq] at executed
    obtain ⟨second, between, topmost, first, rest, next, rfl⟩ := executed
    obtain rfl := state.pop?_eq_some topmost
    obtain rfl := between.pop?_eq_some next
    exact .swapInt first second
  case add | sub | mul | div =>
    obtain ⟨first, second, rest, rfl, rfl⟩ := combine?_eq_some executed
    constructor
  case greater =>
    have combined : state.combine? (fun first second => Byte.ofBool (second < first)) = some after :=
      executed
    obtain ⟨first, second, rest, rfl, rfl⟩ := combine?_eq_some combined
    exact .greater first second
  case readLocal | clearLocal =>
    simp only [execute?, Option.bind_eq_bind, Option.bind_eq_some_iff, Option.pure_def,
      Option.some.injEq] at executed
    obtain ⟨slot, addressed, rfl⟩ := executed
    constructor
    exact addressed
  case writeLocal =>
    simp only [execute?, Option.bind_eq_bind, Option.bind_eq_some_iff, Prod.exists, Option.pure_def,
      Option.some.injEq] at executed
    obtain ⟨slot, addressed, value, rest, popped, rfl⟩ := executed
    obtain rfl := state.pop?_eq_some popped
    exact .writeLocal addressed value
  all_goals cases executed

/-- The only ways in which an instruction goes on to the next one. -/
theorem execute?_eq_some : state.execute? ending instruction = some after ↔
    Executes ending instruction state after := by
  refine ⟨executes_of_execute?, fun executes => ?_⟩
  cases executes with
  | readLocal addressed | clearLocal addressed =>
    simp only [execute?, addressed, Option.bind_eq_bind, Option.bind_some, Option.pure_def]
  | writeLocal addressed =>
    simp only [execute?, addressed, Option.bind_eq_bind, Option.bind_some]
    rfl
  | _ => rfl

theorem executeAll?_cons {rest : Listing} :
    state.executeAll? ending (instruction :: rest) = some after ↔
      ∃ between, state.execute? ending instruction = some between ∧
        between.executeAll? ending rest = some after := by
  simp only [executeAll?, Option.bind_eq_bind, Option.bind_eq_some_iff]

theorem executeAll?_append {first second : Listing} :
    state.executeAll? ending (first ++ second) = some after ↔
      ∃ between, state.executeAll? ending first = some between ∧
        between.executeAll? ending second = some after := by
  induction first generalizing state with
  | nil => simp [executeAll?]
  | cons instruction first ih =>
    simp only [List.cons_append, executeAll?_cons, ih]
    constructor
    · rintro ⟨next, here, between, before, behind⟩
      exact ⟨between, ⟨next, here, before⟩, behind⟩
    · rintro ⟨between, ⟨next, here, before⟩, behind⟩
      exact ⟨next, here, between, before, behind⟩

end StackState

end TapeCode
