/-!
# Paths of a machine

A path of a machine is what it goes through in a number of steps, with a mark for every state it
leaves: the place of the character it executes, or the number of the case. The machine is a partial
function, so a path is settled by its first state and its length.
-/
namespace TapeCode

variable {σ τ ι : Type}

inductive Path (step : σ → Option σ) (mark : σ → ι) : σ → List ι → σ → Prop
  | here {state : σ} : Path step mark state [] state
  | next {state following last : σ} {marks : List ι} (stepped : step state = some following)
      (onwards : Path step mark following marks last) :
      Path step mark state (mark state :: marks) last

namespace Path

variable {step : σ → Option σ} {mark : σ → ι} {first last : σ} {marks : List ι}

theorem single {state following : σ} (stepped : step state = some following) :
    Path step mark state [mark state] following :=
  .next stepped .here

theorem append {middle : σ} {more : List ι}
    (left : Path step mark first marks middle) (right : Path step mark middle more last) :
    Path step mark first (marks ++ more) last := by
  induction left with
  | here => exact right
  | next stepped _ ih => exact .next stepped (ih right)

/-- What a machine goes through in so many steps, and where it is then. -/
def run? (step : σ → Option σ) : Nat → σ → Option (List σ × σ)
  | 0, state => some ([], state)
  | count + 1, state => (step state).bind fun following =>
      (run? step count following).map fun (passed, last) => (state :: passed, last)

theorem of_run? (count : Nat) {passed : List σ} (reached : run? step count first = some (passed, last)) :
    Path step id first passed last := by
  induction count generalizing first passed with
  | zero =>
    obtain ⟨rfl, rfl⟩ := Prod.mk.inj (Option.some.inj reached)
    exact .here
  | succ count ih =>
    obtain ⟨following, stepped, onwards⟩ := Option.bind_eq_some_iff.mp reached
    obtain ⟨⟨passed, last⟩, reachedFrom, same⟩ := Option.map_eq_some_iff.mp onwards
    obtain ⟨rfl, rfl⟩ := Prod.mk.inj same
    exact .next stepped (ih reachedFrom)

/-- The same path with other marks. -/
theorem remark (path : Path step mark first marks last) {κ : Type} (other : σ → κ) :
    ∃ others, Path step other first others last := by
  induction path with
  | here => exact ⟨[], .here⟩
  | next stepped _ ih =>
    obtain ⟨others, onwards⟩ := ih
    exact ⟨_, .next stepped onwards⟩

/-- The machine goes on from every state that a path leaves. -/
theorem goes_on {passed : List σ} (path : Path step id first passed last) :
    ∀ state ∈ passed, ∃ following, step state = some following := by
  induction path with
  | here => nofun
  | next stepped _ ih => exact List.forall_mem_cons.mpr ⟨⟨_, stepped⟩, ih⟩

theorem keeps {invariant : σ → Prop} (path : Path step mark first marks last)
    (begins : invariant first)
    (kept : ∀ state following, invariant state → step state = some following → invariant following) :
    invariant last := by
  induction path with
  | here => exact begins
  | next stepped _ ih => exact ih (kept _ _ begins stepped)

/-- A path that is inside up to its last state but one keeps what every step inside keeps, and leaves with
one step. -/
theorem leaves {inside invariant : σ → Prop} {passed : List σ} (path : Path step id first passed last)
    (begins : invariant first) (starts : inside first) (within : ∀ state ∈ passed, inside state)
    (outside : ¬inside last)
    (keeps : ∀ state following, invariant state → step state = some following → inside state →
      inside following → invariant following) :
    ∃ state, invariant state ∧ inside state ∧ step state = some last := by
  induction path with
  | here => exact absurd starts outside
  | @next state following last passed stepped onwards ih =>
    replace within := (List.forall_mem_cons.mp within).2
    by_cases stays : inside following
    · exact ih (keeps _ _ begins stepped starts stays) stays within outside
    · cases onwards with
      | here => exact ⟨_, begins, starts, stepped⟩
      | next _ _ => exact absurd (within following List.mem_cons_self) stays

/-- A path that leads elsewhere starts with the step of its first state. -/
theorem behind_step {following : σ} (path : Path step mark first marks last)
    (stepped : step first = some following) (elsewhere : first ≠ last) :
    ∃ more, marks = mark first :: more ∧ Path step mark following more last := by
  cases path with
  | here => exact absurd rfl elsewhere
  | next other onwards =>
    obtain rfl : _ = following := Option.some.inj (other.symm.trans stepped)
    exact ⟨_, rfl, onwards⟩

/-- Two paths from one state that cannot be continued are the same. -/
theorem unique {other : σ} {others : List ι} (path : Path step mark first marks last)
    (ended : step last = none) (again : Path step mark first others other)
    (endedToo : step other = none) : marks = others ∧ last = other := by
  induction path generalizing others with
  | here =>
    cases again with
    | here => exact ⟨rfl, rfl⟩
    | next stepped _ => exact absurd (ended.symm.trans stepped) nofun
  | next stepped _ ih =>
    cases again with
    | here => exact absurd (endedToo.symm.trans stepped) nofun
    | next steppedToo onwards =>
      obtain rfl := Option.some.inj (stepped.symm.trans steppedToo)
      obtain ⟨rfl, rfl⟩ := ih ended onwards
      exact ⟨rfl, rfl⟩

end Path

end TapeCode
