/-!
# Taking computations apart

A computation of several steps that gives a result is cut into its steps, each with the state before
and behind it. These lemmas are the ones about failures, about a state with failures and about a state
that may be missing a result; the stages of the compiler and the evaluation are written with these.
-/
namespace TapeCode

variable {ε σ α β : Type}

theorem Except.bind_eq_ok {action : Except ε α} {next : α → Except ε β} {result : β} :
    (action >>= next) = .ok result ↔ ∃ value, action = .ok value ∧ next value = .ok result := by
  cases action <;> simp [bind, Except.bind]

theorem Except.mapError_eq_ok {δ : Type} {action : Except ε α} {change : ε → δ} {result : α} :
    action.mapError change = .ok result ↔ action = .ok result := by
  cases action with
  | error => constructor <;> rintro ⟨⟩
  | ok value =>
    have passes : (Except.ok value).mapError change = .ok value := rfl
    simp [passes]

/-! Whether there is a result with a property is decided by computing it. -/

instance Except.decidableExistsOk {action : Except ε α} {holds : α → Prop} [DecidablePred holds] :
    Decidable (∃ value, action = .ok value ∧ holds value) :=
  match action with
  | .error _ => isFalse (by simp)
  | .ok value => decidable_of_iff (holds value) (by simp)

instance Option.decidableExistsSome {result : Option α} {holds : α → Prop} [DecidablePred holds] :
    Decidable (∃ value, result = some value ∧ holds value) :=
  match result with
  | none => isFalse (by simp)
  | some value => decidable_of_iff (holds value) (by simp)

section

variable {action : StateT σ (Except ε) α} {next : α → StateT σ (Except ε) β} {state after : σ}

theorem stateExcept_bind {result : β} :
    (action >>= next) state = .ok (result, after) ↔
      ∃ value between, action state = .ok (value, between) ∧
        next value between = .ok (result, after) := by
  simp only [bind, StateT.bind, Except.bind]
  rcases action state with error | ⟨value, between⟩
  · simp
  · simp only [Except.ok.injEq, Prod.mk.injEq]
    constructor
    · exact fun next => ⟨value, between, ⟨rfl, rfl⟩, next⟩
    · rintro ⟨_, _, ⟨rfl, rfl⟩, next⟩
      exact next

theorem stateExcept_pure {value result : α} :
    (pure value : StateT σ (Except ε) α) state = .ok (result, after) ↔
      value = result ∧ state = after := by
  have runs : (pure value : StateT σ (Except ε) α) state = .ok (value, state) := rfl
  simp [runs]

theorem stateExcept_get {result : σ} :
    (get : StateT σ (Except ε) σ) state = .ok (result, after) ↔ state = result ∧ state = after := by
  have runs : (get : StateT σ (Except ε) σ) state = .ok (state, state) := rfl
  simp [runs]

theorem stateExcept_set {value : σ} {result : PUnit} :
    (set value : StateT σ (Except ε) PUnit) state = .ok (result, after) ↔ value = after := by
  have runs : (set value : StateT σ (Except ε) PUnit) state = .ok (⟨⟩, value) := rfl
  simp [runs]

theorem stateExcept_modify {change : σ → σ} {result : PUnit} :
    (modify change : StateT σ (Except ε) PUnit) state = .ok (result, after) ↔
      change state = after := by
  have runs : (modify change : StateT σ (Except ε) PUnit) state = .ok (⟨⟩, change state) := rfl
  simp [runs]

theorem stateExcept_lift {failing : Except ε α} {result : α} :
    (liftM failing : StateT σ (Except ε) α) state = .ok (result, after) ↔
      failing = .ok result ∧ state = after := by
  cases failing <;>
    simp [liftM, monadLift, MonadLift.monadLift, StateT.lift, bind, Except.bind, pure, Except.pure]

theorem stateExcept_throw {error : ε} {result : α} :
    (throw error : StateT σ (Except ε) α) state ≠ .ok (result, after) := by
  rintro ⟨⟩

/-- What follows a check is reached when the check does not fail. -/
theorem stateExcept_check {condition : Prop} [Decidable condition] {error : ε} {result : β}
    {checked : α → StateT σ (Except ε) β} {rest : StateT σ (Except ε) β} :
    (if condition then throw error >>= checked else rest) state = .ok (result, after) ↔
      ¬condition ∧ rest state = .ok (result, after) := by
  split
  next fails =>
    simp only [stateExcept_bind, fails, not_true, false_and, iff_false]
    rintro ⟨_, _, thrown, -⟩
    exact stateExcept_throw thrown
  next passes => simp [passes]

end

section

variable {action : StateT σ Option α} {next : α → StateT σ Option β} {state after : σ}

theorem stateOption_bind {result : β} :
    (action >>= next) state = some (result, after) ↔
      ∃ value between, action state = some (value, between) ∧
        next value between = some (result, after) := by
  simp only [bind, StateT.bind, Option.bind_eq_some_iff, Prod.exists]

theorem stateOption_pure {value result : α} :
    (pure value : StateT σ Option α) state = some (result, after) ↔
      value = result ∧ state = after := by
  have runs : (pure value : StateT σ Option α) state = some (value, state) := rfl
  simp [runs]

theorem stateOption_discard {result : PUnit} :
    (discard action) state = some (result, after) ↔ ∃ value, action state = some (value, after) := by
  have runs : (discard action) state =
      (action state).bind fun pair => some (PUnit.unit, pair.2) := rfl
  rw [runs, Option.bind_eq_some_iff]
  constructor
  · rintro ⟨⟨value, between⟩, ran, same⟩
    obtain ⟨-, rfl⟩ := Prod.mk.inj (Option.some.inj same)
    exact ⟨value, ran⟩
  · rintro ⟨value, ran⟩
    exact ⟨_, ran, rfl⟩

end

end TapeCode
