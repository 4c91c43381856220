import TapeCode.Proofs.Ribbon.Whole

/-!
# How far the pointer has moved

A ribbon does not say where its pointer stands. But a cell that is too far to the left for the code to
reach it stays where it is, so the distance of such a cell before and behind the code tells how far the
pointer has moved.
-/
namespace TapeCode

open Stream' (cons)

namespace Template

variable (cells : Stream' UInt8) (depth : Nat) (value : UInt8)

theorem get_setSlot_eq_ite (index : Nat) :
    (setSlot cells depth value).get index = if index = depth then value else cells.get index := rfl

theorem setSlot_cons (first : UInt8) :
    setSlot (cons first cells) (depth + 1) value = cons first (setSlot cells depth value) := by
  refine Stream'.ext fun index => ?_
  cases index with
  | zero => rfl
  | succ index => simp only [get_setSlot_eq_ite, Stream'.get_succ_cons, Nat.add_right_cancel_iff]

theorem tail_setSlot : (setSlot cells (depth + 1) value).tail = setSlot cells.tail depth value := by
  refine Stream'.ext fun index => ?_
  simp only [get_setSlot_eq_ite, Stream'.get_tail, Nat.add_right_cancel_iff]

theorem head_setSlot : (setSlot cells (depth + 1) value).head = cells.head := rfl

end Template

/-- The ribbon with another value in a cell to the left of its pointer. -/
def Ribbon.mark (ribbon : Ribbon) (depth : Nat) (value : UInt8) : Ribbon :=
  { ribbon with left := Template.setSlot ribbon.left depth value }

namespace RibbonMachine

variable {ending : EndOfInput} {machine following first last : RibbonMachine}

def mark (machine : RibbonMachine) (depth : Nat) (value : UInt8) : RibbonMachine :=
  { machine with ribbon := machine.ribbon.mark depth value }

theorem perform_mark (behind ahead : List Char) (ribbon : Ribbon) (c : Char) (depth : Nat)
    (value : UInt8) : ∃ deeper : Nat,
      (ribbon.mark (depth + 1) value).perform ending c =
        (ribbon.perform ending c).mark deeper value ∧
      (deeper : Int) = depth + 1 + shift ⟨behind, c :: ahead, ribbon⟩ := by
  obtain ⟨left, cell, right, input, output⟩ := ribbon
  by_cases moveRight : c = '>'
  · subst c
    refine ⟨depth + 2, ?_, rfl⟩
    simp [Ribbon.mark, Ribbon.perform, Template.setSlot_cons]
  by_cases moveLeft : c = '<'
  · subst c
    refine ⟨depth, ?_, (Int.add_neg_cancel_right _ 1).symm⟩
    simp [Ribbon.mark, Ribbon.perform, Template.tail_setSlot, Template.head_setSlot]
  -- All other characters leave the pointer where it is.
  refine ⟨depth + 1, ?_, by rw [shift_eq_zero moveRight moveLeft]; rfl⟩
  by_cases raise : c = '+'
  · subst c
    rfl
  by_cases lower : c = '-'
  · subst c
    rfl
  by_cases print : c = '.'
  · subst c
    rfl
  by_cases read : c = ','
  · subst c
    cases input <;> rfl
  simp [Ribbon.mark, Ribbon.perform]

/-- A step does the same when a cell further to the left than the nearest one has another value. -/
theorem step_mark (stepped : step ending machine = some following) (depth : Nat) (value : UInt8) :
    ∃ deeper : Nat, step ending (machine.mark (depth + 1) value) =
        some (following.mark deeper value) ∧ (deeper : Int) = depth + 1 + machine.shift := by
  obtain ⟨behind, ahead, ribbon⟩ := machine
  cases ahead with
  | nil => cases stepped
  | cons c ahead =>
    have current : (ribbon.mark (depth + 1) value).current = ribbon.current := rfl
    simp only [step] at stepped
    -- A bracket that is passed over leaves the ribbon as it is; what it is passed over does not
    -- depend on the ribbon, except on the cell that the pointer is on.
    split at stepped
    next opens =>
      obtain ⟨⟨passed, rest⟩, found, rfl⟩ := Option.map_eq_some_iff.mp stepped
      rw [shift_eq_zero (by rw [opens.1]; decide) (by rw [opens.1]; decide)]
      exact ⟨depth + 1, by simp [mark, step, current, opens, opens.1 ▸ found], by simp⟩
    next enters =>
      split at stepped
      next closes =>
        obtain ⟨⟨passed, rest⟩, found, rfl⟩ := Option.map_eq_some_iff.mp stepped
        rw [shift_eq_zero (by rw [closes.1]; decide) (by rw [closes.1]; decide)]
        exact ⟨depth + 1, by simp [mark, step, current, closes, closes.1 ▸ found], by simp⟩
      next leaves =>
        obtain rfl := Option.some.inj stepped
        obtain ⟨deeper, performed, moved⟩ := @perform_mark ending behind ahead ribbon c depth value
        refine ⟨deeper, ?_, moved⟩
        simp only [step, mark, current, if_neg enters, if_neg leaves, performed]

/-- The same for a path that does not reach the cell. -/
theorem path_mark {shifts : List Int} (path : Path (step ending) shift first shifts last) {depth : Nat}
    (far : shifts.length ≤ depth) (value : UInt8) : ∃ (deeper : Nat) (others : List Int),
      Path (step ending) shift (first.mark depth value) others (last.mark deeper value) ∧
        (deeper : Int) = depth + shifts.sum := by
  induction path generalizing depth with
  | here => exact ⟨depth, [], .here, by simp⟩
  | @next machine _ _ shifts stepped _ ih =>
    rw [List.length_cons] at far
    obtain ⟨further, rfl⟩ : ∃ further, depth = further + 1 := ⟨depth - 1, by omega⟩
    obtain ⟨between, marked, moved⟩ := step_mark stepped further value
    have bounds := machine.shift_bounds
    obtain ⟨deeper, others, onwards, shifted⟩ := @ih between (by omega)
    refine ⟨deeper, _, .next marked onwards, ?_⟩
    rw [List.sum_cons]
    omega

/-- If code that leads to its end leads there also with a cell marked that it does not reach, the
pointer has moved by the difference of the distances of the mark. -/
theorem sum_shifts {shifts : List Int} (path : Path (step ending) shift first shifts last)
    (ended : last.ahead = []) {depth deeper : Nat} (far : shifts.length ≤ depth) {value : UInt8}
    (other : last.ribbon.left.get deeper ≠ value) {others : List Int}
    (marked : Path (step ending) shift (first.mark depth value) others (last.mark deeper value)) :
    shifts.sum = deeper - depth := by
  obtain ⟨place, more, reached, moved⟩ := path_mark path far value
  have stops (depth : Nat) : step ending (last.mark depth value) = none := by
    obtain ⟨behind, ahead, ribbon⟩ := last
    obtain rfl : ahead = [] := ended
    rfl
  have same := congrArg (·.ribbon.left.get deeper) (reached.unique (stops place) marked (stops deeper)).2
  simp only [mark, Ribbon.mark, Template.setSlot, Stream'.get, if_true] at same
  split at same
  next equal =>
    subst equal
    omega
  next => exact absurd same other

end RibbonMachine

namespace StackState

variable (state : StackState Empty) (slot : Nat) (value : UInt8)

/-- A slot of the heap is a cell to the left of the pointer. -/
theorem ribbon_store_eq : (state.store slot (.byte value)).ribbon =
    state.ribbon.mark (2 * state.stack.length + 1 + slot) value := by
  have column (heap : Stream' UInt8) (cells : List UInt8) :
      Ribbon.column (Template.setSlot heap slot value) cells =
        Template.setSlot (Ribbon.column heap cells) (2 * cells.length + 2 + slot) value := by
    induction cells with
    | nil =>
      rw [List.length_nil, show 2 * 0 + 2 + slot = slot + 1 + 1 by omega, Ribbon.column_nil,
        Ribbon.column_nil, Template.setSlot_cons, Template.setSlot_cons]
    | cons first rest ih =>
      rw [List.length_cons, show 2 * (rest.length + 1) + 2 + slot =
        2 * rest.length + 2 + slot + 1 + 1 by omega, Ribbon.column_cons, Ribbon.column_cons,
        Template.setSlot_cons, Template.setSlot_cons, ih]
  have count : state.stackCells.length = state.stack.length := List.length_map _
  rw [StackState.ribbon, state.heapCells_store, StackValue.cell_byte]
  change Ribbon.top (Ribbon.column _ state.stackCells) _ _ = _
  rw [column, count, show 2 * state.stack.length + 2 + slot =
    2 * state.stack.length + 1 + slot + 1 by omega, Ribbon.top, Template.tail_setSlot,
    Template.head_setSlot]
  rfl

theorem unfenced_store : (state.store slot (.byte value)).unfenced =
    state.unfenced.mark (slot + 1) value := by
  rw [unfenced, state.heapCells_store, StackValue.cell_byte]
  simp only [Ribbon.mark, unfenced, Template.setSlot_cons]
  rfl

end StackState

open RibbonMachine

variable {ending : EndOfInput} {text : List Char} {shifts : List Int} {bound : Nat}

/-- If code comes to its end whatever a cell far away holds, then the pointer has moved by the difference
of the distances of this cell. -/
theorem RibbonMachine.sum_shifts_of_marks {before after : Ribbon}
    (path : Path (step ending) shift (between [] text before) shifts (between text [] after))
    {near far : Nat} (alike : ∀ slot, bound ≤ slot → ∀ value, ∃ places,
      Path (step ending) place (between [] text (before.mark (slot + near) value)) places
        (between text [] (after.mark (slot + far) value))) :
    shifts.sum = far - near := by
  obtain ⟨slot, above, away⟩ : ∃ slot, bound ≤ slot ∧ shifts.length ≤ slot :=
    ⟨max bound shifts.length, le_max_left _ _, le_max_right _ _⟩
  -- The mark is a value that the cell does not hold behind the code.
  let value := after.left.get (slot + far) + 1
  obtain ⟨_, whole⟩ := alike slot above value
  obtain ⟨others, marked⟩ := whole.remark shift
  have unlike : after.left.get (slot + far) ≠ value := by
    intro same
    have cell : after.left.get (slot + far) = after.left.get (slot + far) + 1 := same
    grind
  have moved := sum_shifts path rfl (by omega) unlike marked
  omega

/-- The pointer has moved by two cells for each value by which the stack has grown. -/
theorem RibbonMachine.sum_shifts_of_stores {before after : StackState Empty}
    (path : Path (step ending) shift (between [] text before.ribbon) shifts
      (between text [] after.ribbon))
    (alike : ∀ slot, bound ≤ slot → ∀ value, ∃ places, Path (step ending) place
      (between [] text (before.store slot (.byte value)).ribbon) places
      (between text [] (after.store slot (.byte value)).ribbon)) :
    shifts.sum = 2 * after.stack.length - 2 * before.stack.length := by
  have moved := @sum_shifts_of_marks ending text shifts bound _ _ path
    (2 * before.stack.length + 1) (2 * after.stack.length + 1) fun slot above value => by
      have same := alike slot above value
      rwa [before.ribbon_store_eq, after.ribbon_store_eq, Nat.add_comm _ slot, Nat.add_comm _ slot]
        at same
  omega

theorem Runs.sum_shifts_of_marks {before after : Ribbon}
    (path : Path (step ending) shift (between [] text before) shifts (between text [] after))
    {near far : Nat} (alike : ∀ slot, bound ≤ slot → ∀ value,
      Runs ending text (before.mark (slot + near) value) (after.mark (slot + far) value)) :
    shifts.sum = far - near :=
  RibbonMachine.sum_shifts_of_marks path fun slot above value => (alike slot above value).path_whole

theorem Runs.sum_shifts_eq {before after : StackState Empty}
    (path : Path (step ending) shift (between [] text before.ribbon) shifts
      (between text [] after.ribbon))
    (alike : ∀ slot, bound ≤ slot → ∀ value, Runs ending text
      (before.store slot (.byte value)).ribbon (after.store slot (.byte value)).ribbon) :
    shifts.sum = 2 * after.stack.length - 2 * before.stack.length :=
  sum_shifts_of_stores path fun slot above value => (alike slot above value).path_whole

end TapeCode
