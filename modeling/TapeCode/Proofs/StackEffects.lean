import Mathlib.Algebra.Order.BigOperators.Group.List
import Mathlib.Algebra.Order.Group.Nat
import TapeCode.Instruction.StackHeight
import TapeCode.Proofs.Ribbon.Instructions

/-!
# Effects on the stack

What the table of effects says of an instruction that computes is what the instruction does to the height
of the stack. Where all values are bytes, nothing but the height it takes is needed for the instruction to
be executed.
-/
namespace TapeCode

/-- The slot that an instruction on a local variable addresses. -/
def Instruction.slot? : Instruction → Option Nat
  | .readLocal layout | .writeLocal layout | .clearLocal layout => StackState.slot? layout
  | _ => none

/-- A listing addresses no slots that are far enough away. -/
theorem Instruction.exists_slots_behind (listing : Listing) : ∃ bound, ∀ slot, bound ≤ slot →
    ∀ instruction ∈ listing, instruction.slot? ≠ some slot := by
  refine ⟨(listing.filterMap Instruction.slot?).sum + 1,
    fun slot behind instruction member addressed => ?_⟩
  have most := List.le_sum_of_mem (List.mem_filterMap.mpr ⟨instruction, member, addressed⟩)
  omega

/-- The instructions of a body, with any kinds of slots in the layouts. -/
def Instruction.isComputation : Instruction → Bool
  | .nop _ | .readChar | .printChar | .printInt | .pushInt _ | .popInt | .dupInt | .swapInt | .not
  | .add | .sub | .mul | .div | .greater => true
  | .readLocal layout | .writeLocal layout | .clearLocal layout => !layout.isEmpty
  | _ => false

theorem Instruction.isComputation_of_isBody {instruction : Instruction}
    (body : instruction.isBody = true) : instruction.isComputation = true := by
  cases instruction
  case readLocal | writeLocal | clearLocal =>
    simp only [isBody, Bool.and_eq_true] at body
    exact body.1
  all_goals exact body

namespace StackState

variable {α : Type} {ending : EndOfInput} {instruction : Instruction} {listing : Listing}

section

variable {state after : StackState α}

/-- An instruction that could be executed has changed the height by what its effect says. -/
theorem length_execute? {effect : StackEffect} (has : instruction.stackEffect? = some effect)
    (executed : state.execute? ending instruction = some after) :
    after.stack.length + effect.pops = state.stack.length + effect.pushes := by
  cases execute?_eq_some.mp executed with
  | readChar =>
    obtain rfl := Option.some.inj has
    unfold read
    split <;> rfl
  | _ =>
    obtain rfl := Option.some.inj has
    rfl

theorem stackEffect?_of_computation (computes : instruction.isComputation = true) :
    ∃ effect, instruction.stackEffect? = some effect := by
  cases instruction <;> first | exact ⟨_, rfl⟩ | cases computes

theorem stackEffect?_of_body (body : instruction.isBody = true) :
    ∃ effect, instruction.stackEffect? = some effect :=
  stackEffect?_of_computation (Instruction.isComputation_of_isBody body)

end

/-! ## Bytes only -/

section

variable {state : StackState Empty}

theorem exists_push (height : 0 < state.stack.length) :
    ∃ value rest, state = push rest (.byte value) := by
  obtain ⟨stack, heap, input, output⟩ := state
  cases stack with
  | nil => cases height
  | cons value rest =>
    cases value with
    | byte value => exact ⟨value, ⟨rest, heap, input, output⟩, rfl⟩
    | address place => exact place.elim

theorem exists_push_twice (height : 2 ≤ state.stack.length) :
    ∃ first second rest, state = (push rest (.byte first)).push (.byte second) := by
  obtain ⟨second, below, rfl⟩ := exists_push (by omega : 0 < state.stack.length)
  change 2 ≤ below.stack.length + 1 at height
  obtain ⟨first, rest, rfl⟩ := exists_push (by omega : 0 < below.stack.length)
  exact ⟨first, second, rest, rfl⟩

/-- An instruction that finds as many bytes as it takes can be executed. -/
theorem execute?_of_effect (computes : instruction.isComputation = true) {effect : StackEffect}
    (has : instruction.stackEffect? = some effect) (enough : effect.pops ≤ state.stack.length)
    (ending : EndOfInput) : ∃ after, state.execute? ending instruction = some after := by
  cases instruction
  case nop | readChar | pushInt => exact ⟨_, rfl⟩
  case readLocal layout | clearLocal layout =>
    cases layout with
    | nil => cases computes
    | cons number before => exact ⟨_, rfl⟩
  case printChar | printInt | popInt | dupInt | «not» =>
    obtain rfl := Option.some.inj has
    obtain ⟨value, rest, rfl⟩ := exists_push enough
    exact ⟨_, rfl⟩
  case writeLocal layout =>
    obtain rfl := Option.some.inj has
    obtain ⟨value, rest, rfl⟩ := exists_push enough
    cases layout with
    | nil => cases computes
    | cons number before => exact ⟨_, rfl⟩
  case swapInt | add | sub | mul | div | greater =>
    obtain rfl := Option.some.inj has
    obtain ⟨first, second, rest, rfl⟩ := exists_push_twice enough
    exact ⟨_, rfl⟩
  all_goals cases computes

theorem executeAll?_of_computations (computes : listing.all (·.isComputation) = true)
    {index height : Nat}
    (scanned : StackHeight.scan index state.stack.length listing = .ok height)
    (ending : EndOfInput) :
    ∃ after, state.executeAll? ending listing = some after ∧ after.stack.length = height := by
  induction listing generalizing state index with
  | nil =>
    obtain rfl := Except.ok.inj scanned
    exact ⟨state, rfl, rfl⟩
  | cons instruction rest ih =>
    simp only [List.all_cons, Bool.and_eq_true] at computes
    obtain ⟨effect, has⟩ := stackEffect?_of_computation computes.1
    simp only [StackHeight.scan, has] at scanned
    split at scanned
    · cases scanned
    next enough =>
      replace enough := Nat.le_of_not_lt enough
      obtain ⟨between, executed⟩ := execute?_of_effect computes.1 has enough ending
      have height := length_execute? has executed
      have reduced : state.stack.length - effect.pops + effect.pushes = between.stack.length := by omega
      rw [reduced] at scanned
      obtain ⟨after, onwards, reached⟩ := ih computes.2 scanned
      exact ⟨after, executeAll?_cons.mpr ⟨between, executed, onwards⟩, reached⟩

theorem executeAll?_of_scan (body : listing.all (·.isBody) = true) {index height : Nat}
    (scanned : StackHeight.scan index state.stack.length listing = .ok height)
    (ending : EndOfInput) :
    ∃ after, state.executeAll? ending listing = some after ∧ after.stack.length = height := by
  refine executeAll?_of_computations (List.all_eq_true.mpr fun instruction member => ?_) scanned ending
  exact Instruction.isComputation_of_isBody (List.all_eq_true.mp body instruction member)

end

/-! ## Slots that are not addressed -/

section

variable {state after : StackState α} {slot : Nat} {value : StackValue α}

theorem store_comm {other : Nat} (different : other ≠ slot) (second : StackValue α) :
    (state.store slot value).store other second = (state.store other second).store slot value := by
  simp only [store, mk.injEq, true_and, and_true]
  funext index
  split <;> split <;> simp_all

/-- An instruction does the same when a slot that it does not address holds something else. -/
theorem execute?_store (apart : instruction.slot? ≠ some slot)
    (executed : state.execute? ending instruction = some after) :
    (state.store slot value).execute? ending instruction = some (after.store slot value) ∧
      after.heap slot = state.heap slot := by
  cases execute?_eq_some.mp executed with
  | readChar =>
    obtain ⟨stack, heap, input, output⟩ := state
    cases input <;> exact ⟨rfl, rfl⟩
  | @readLocal _ other addressed =>
    have different : other ≠ slot := fun same => apart (same ▸ addressed)
    have elsewhere : (state.store slot value).heap other = state.heap other := if_neg different
    refine ⟨?_, if_neg different.symm⟩
    rw [execute?_eq_some.mpr (.readLocal addressed), elsewhere, store_comm different]
    rfl
  | @writeLocal _ other addressed rest first =>
    have different : other ≠ slot := fun same => apart (same ▸ addressed)
    refine ⟨?_, if_neg different.symm⟩
    rw [← store_comm different]
    exact execute?_eq_some.mpr (@Executes.writeLocal _ _ _ _ addressed (rest.store slot value) first)
  | @clearLocal _ other addressed =>
    have different : other ≠ slot := fun same => apart (same ▸ addressed)
    refine ⟨?_, if_neg different.symm⟩
    rw [execute?_eq_some.mpr (.clearLocal addressed), store_comm different]
  | _ => exact ⟨rfl, rfl⟩

theorem executeAll?_store (apart : ∀ instruction ∈ listing, instruction.slot? ≠ some slot)
    (executed : state.executeAll? ending listing = some after) :
    (state.store slot value).executeAll? ending listing = some (after.store slot value) ∧
      after.heap slot = state.heap slot := by
  induction listing generalizing state with
  | nil =>
    obtain rfl := Option.some.inj executed
    exact ⟨rfl, rfl⟩
  | cons instruction rest ih =>
    obtain ⟨here, others⟩ := List.forall_mem_cons.mp apart
    obtain ⟨between, first, onwards⟩ := executeAll?_cons.mp executed
    obtain ⟨firstToo, kept⟩ : (state.store slot value).execute? ending instruction =
        some (between.store slot value) ∧ _ := execute?_store here first
    obtain ⟨onwardsToo, keptOn⟩ := ih others onwards
    exact ⟨executeAll?_cons.mpr ⟨_, firstToo, onwardsToo⟩, keptOn.trans kept⟩

end

end StackState

end TapeCode
