import Mathlib.Data.List.Induction
import TapeCode.Emit.Template
import TapeCode.Proofs.Ribbon.State
import TapeCode.Proofs.Ribbon.Templates

/-!
# Heap access

The way from the top of the stack to the heap leads over the links. The walk sets every link it
passes, raises the sentinel to zero, and so finds on its way back where the stack ends; it leaves the
sentinel and the links as they were.
-/
namespace TapeCode

open Stream' (cons)

variable {ending : EndOfInput}

namespace Ribbon

/-- The links of a walk that stands at the heap are set. Seen from there, these are the cells of the
stack from the origin on. -/
def marked (stack : List UInt8) (right : Stream' UInt8) : Stream' UInt8 :=
  stack.foldl (fun right value => cons 1 (cons value right)) right

/-- The pointer on the top of the stack. -/
def atTop (heap : Stream' UInt8) (stack : List UInt8) (right : Stream' UInt8)
    (input output : List UInt8) : Ribbon :=
  ⟨(column heap stack).tail, (column heap stack).head, right, input, output⟩

/-- The pointer on the first slot, after a walk over the links. -/
def atHeap (heap : Stream' UInt8) (stack : List UInt8) (right : Stream' UInt8)
    (input output : List UInt8) : Ribbon :=
  ⟨heap.tail, heap.head, cons 0 (cons 0 (marked stack right)), input, output⟩

end Ribbon

namespace Template

open Ribbon (column marked atTop atHeap)

variable (heap : Stream' UInt8) (stack : List UInt8) (right : Stream' UInt8)
  (input output : List UInt8)

/-! ## Over the links -/

/-- From a link that is set down to the sentinel. -/
private theorem descend_runs (value : UInt8) :
    Runs ending "[<<+]".toList ⟨column heap stack, 1, cons value right, input, output⟩
      ⟨heap, 0, cons 0 (marked stack (cons 1 (cons value right))), input, output⟩ := by
  have set : (1 : UInt8) ≠ 0 := by decide
  refine @Runs.bracketed ending "<<+" _ _ ?_
  induction stack generalizing value right with
  | nil =>
    have turn : Runs ending "<<+".toList ⟨column heap [], 1, cons value right, input, output⟩
        ⟨heap, 255 + 1, cons 0 (cons 1 (cons value right)), input, output⟩ :=
      .straight "<<+" rfl rfl
    exact .again set turn (.leave (.of_scan rfl) rfl .done)
  | cons next stack ih =>
    have turn : Runs ending "<<+".toList
        ⟨column heap (next :: stack), 1, cons value right, input, output⟩
        ⟨column heap stack, 0 + 1, cons next (cons 1 (cons value right)), input, output⟩ :=
      .straight "<<+" rfl rfl
    exact .again set turn (ih (cons 1 (cons value right)) next)

theorem away_runs :
    Runs ending "<+[<<+]<".toList (atTop heap stack right input output)
      (atHeap heap stack right input output) := by
  have last (cells : Stream' UInt8) : Runs ending "<".toList ⟨heap, 0, cells, input, output⟩
      ⟨heap.tail, heap.head, cons 0 cells, input, output⟩ :=
    .straight "<" rfl rfl
  cases stack with
  -- An empty stack has no link to be raised, so the sentinel itself is what the raise turns to zero and
  -- the loop is left at once.
  | nil =>
    have first : Runs ending "<+".toList (atTop heap [] right input output)
        ⟨heap, 255 + 1, cons 0 right, input, output⟩ :=
      .straight "<+" rfl rfl
    have passed : Runs ending "[<<+]".toList ⟨heap, 255 + 1, cons 0 right, input, output⟩
        ⟨heap, 0, cons 0 right, input, output⟩ :=
      .skip "<<+" rfl rfl
    exact first.andThen (passed.andThen (last (cons 0 right)))
  | cons value stack =>
    have first : Runs ending "<+".toList (atTop heap (value :: stack) right input output)
        ⟨column heap stack, 0 + 1, cons value right, input, output⟩ :=
      .straight "<+" rfl rfl
    exact first.andThen ((descend_runs heap stack right input output value).andThen (last _))

/-- From the link above a part of the stack that is passed already, over the rest of it. -/
private theorem ascend_runs (passed : List UInt8) (ends : right.head = 0) :
    Runs ending "[->>]".toList
      ⟨column heap passed, (marked stack right).head, (marked stack right).tail, input, output⟩
      ⟨column heap (stack ++ passed), 0, right.tail, input, output⟩ := by
  have set : (1 : UInt8) ≠ 0 := by decide
  refine @Runs.bracketed ending "->>" _ _ ?_
  induction stack using List.reverseRecOn generalizing passed with
  | nil => exact .leave (.of_scan rfl) ends (.recast (by simp [marked, ends]) .done rfl)
  | append_singleton stack value ih =>
    have cells : marked (stack ++ [value]) right = cons 1 (cons value (marked stack right)) := by
      simp [marked]
    have turn : Runs ending "->>".toList
        ⟨column heap passed, 1, cons value (marked stack right), input, output⟩
        ⟨column heap (value :: passed), (marked stack right).head, (marked stack right).tail, input,
          output⟩ :=
      .straight "->>" rfl rfl
    rw [cells, List.append_assoc]
    exact .again set turn (ih (value :: passed))

theorem back_runs (ends : right.head = 0) :
    Runs ending ">->>[->>]<".toList (atHeap heap stack right input output)
      (atTop heap stack right input output) := by
  have first : Runs ending ">->>".toList (atHeap heap stack right input output)
      ⟨cons 0 (cons (0 - 1) (cons heap.head heap.tail)), (marked stack right).head,
        (marked stack right).tail, input, output⟩ :=
    .straight ">->>" rfl rfl
  have ascended := @ascend_runs ending heap stack right input output [] ends
  have last : Runs ending "<".toList ⟨column heap (stack ++ []), 0, right.tail, input, output⟩
      ⟨(column heap (stack ++ [])).tail, (column heap (stack ++ [])).head, cons 0 right.tail, input,
        output⟩ :=
    .straight "<" rfl rfl
  have end_eta : cons 0 right.tail = right := by rw [← ends, Stream'.eta]
  have cells : cons 0 (cons (0 - 1) (cons heap.head heap.tail)) = column heap [] := by
    rw [Stream'.eta]
    rfl
  rw [cells] at first
  rw [List.append_nil, end_eta] at last
  rw [List.append_nil] at ascended
  exact first.andThen (ascended.andThen last)

/-! ## Over the slots -/

/-- The cells right of a slot, after a walk over the links and the slots before it. -/
def behindSlot : Nat → Stream' UInt8
  | 0 => cons 0 (cons 0 (marked stack right))
  | slot + 1 => cons (heap.get slot) (behindSlot slot)

/-- The pointer on a slot. -/
def atSlot (slot : Nat) : Ribbon :=
  ⟨heap.drop (slot + 1), heap.get slot, behindSlot heap stack right slot, input, output⟩

theorem slot_away_runs (slot : Nat) :
    Runs ending ['<'] (atSlot heap stack right input output slot)
      (atSlot heap stack right input output (slot + 1)) := by
  have passed : (atSlot heap stack right input output slot).perform ending '<'
      = atSlot heap stack right input output (slot + 1) := by
    change Ribbon.mk (heap.drop (slot + 1)).tail (heap.drop (slot + 1)).head _ _ _ = _
    rw [Stream'.tail_drop', Stream'.head_drop]
    rfl
  exact .act rfl (.recast passed .done rfl)

theorem slot_back_runs (slot : Nat) :
    Runs ending ['>'] (atSlot heap stack right input output (slot + 1))
      (atSlot heap stack right input output slot) := by
  have passed : (atSlot heap stack right input output (slot + 1)).perform ending '>'
      = atSlot heap stack right input output slot := by
    have cells := Stream'.eta (heap.drop (slot + 1))
    rw [Stream'.head_drop, Stream'.tail_drop'] at cells
    change Ribbon.mk (cons (heap.get (slot + 1)) (heap.drop (slot + 1 + 1))) _ _ _ _ = _
    rw [cells]
    rfl
  exact .act rfl (.recast passed .done rfl)

private theorem slots_away_runs (slot : Nat) :
    Runs ending (List.replicate slot '<') (atHeap heap stack right input output)
      (atSlot heap stack right input output slot) := by
  induction slot with
  | zero => exact .done
  | succ slot ih =>
    rw [List.replicate_succ']
    exact ih.append (slot_away_runs heap stack right input output slot)

private theorem slots_back_runs (slot : Nat) :
    Runs ending (List.replicate slot '>') (atSlot heap stack right input output slot)
      (atHeap heap stack right input output) := by
  induction slot with
  | zero => exact .done
  | succ slot ih => exact (slot_back_runs heap stack right input output slot).append ih

/-- A heap in which one slot is changed. -/
def setSlot (heap : Stream' UInt8) (slot : Nat) (value : UInt8) : Stream' UInt8 :=
  fun other => if other = slot then value else heap.get other

private theorem behindSlot_setSlot (slot : Nat) (value : UInt8) {before : Nat}
    (below : before ≤ slot) :
    behindSlot (setSlot heap slot value) stack right before = behindSlot heap stack right before := by
  induction before with
  | zero => rfl
  | succ before ih =>
    have other : before ≠ slot := by omega
    rw [behindSlot, behindSlot, ih (by omega)]
    simp [setSlot, Stream'.get, other]

theorem atSlot_setSlot (slot : Nat) (value : UInt8) :
    atSlot (setSlot heap slot value) stack right input output slot =
      ⟨heap.drop (slot + 1), value, behindSlot heap stack right slot, input, output⟩ := by
  have cells : (setSlot heap slot value).drop (slot + 1) = heap.drop (slot + 1) := by
    ext other
    have different : other + (slot + 1) ≠ slot := by omega
    simp [setSlot, Stream'.get, Stream'.drop, different]
  rw [atSlot, cells, behindSlot_setSlot heap stack right slot value (Nat.le_refl slot)]
  simp [setSlot, Stream'.get]

/-! ## The walk of a layout -/

/-- The types whose values fill one cell. -/
def fillsCell (number : Int) : Bool :=
  [ValueType.int, .laxBool, .bool, .fsm].any fun type => (type.number : Int) = number

private theorem cellCode_of_fillsCell {number : Int} (fills : fillsCell number = true) :
    cellCode number = .ok .single := by
  simp only [fillsCell, List.any_cons, List.any_nil, Bool.or_false, Bool.or_eq_true,
    decide_eq_true_eq] at fills
  rcases fills with rfl | rfl | rfl | rfl <;> rfl

private theorem cellCodes_of_fillCells {layout : List Int} (fill : layout.all fillsCell = true) :
    cellCodes layout = .ok (List.replicate layout.length .single) := by
  induction layout with
  | nil => rfl
  | cons number rest ih =>
    simp only [List.all_cons, Bool.and_eq_true] at fill
    simp only [cellCodes, cellCode_of_fillsCell fill.1, ih fill.2]
    rfl

/-- The walk to a slot below which all slots are single cells. -/
def slotWalk (slot : Nat) : HeapWalk where
  away := "<+[<<+]<".toList ++ List.replicate slot '<'
  back := List.replicate slot '>' ++ ">->>[->>]<".toList
  clear := "[-]".toList

private theorem flatMap_replicate {c : Char} {text : ValueType.CellCode → List Char}
    (single : text .single = [c]) (count : Nat) :
    (List.replicate count ValueType.CellCode.single).flatMap text = List.replicate count c := by
  induction count with
  | zero => rfl
  | succ count ih => rw [List.replicate_succ, List.flatMap_cons, single, ih]; rfl

theorem heapWalk_of_fillCells {layout : List Int} (fill : layout.all fillsCell = true) {slot : Nat}
    (addressed : StackState.slot? layout = some slot) : heapWalk layout = .ok (slotWalk slot) := by
  cases layout with
  | nil => simp [StackState.slot?] at addressed
  | cons number before =>
    obtain rfl : before.length = slot := by simpa [StackState.slot?] using addressed
    have last : (List.replicate (number :: before).length ValueType.CellCode.single).getLast? =
        some .single := by
      simp [List.getLast?_replicate]
    have others : (List.replicate (number :: before).length ValueType.CellCode.single).dropLast =
        List.replicate before.length .single := by
      simp
    have away := @flatMap_replicate '<' (·.away.toList) rfl before.length
    have back := @flatMap_replicate '>' (·.back.toList) rfl before.length
    simp only [heapWalk, cellCodes_of_fillCells fill, bind, Except.bind, last, others,
      List.reverse_replicate, away, back]
    rfl

/-- The walk leads from the top of the stack to a slot and back, whatever the slot holds. -/
structure HeapWalk.Leads (ending : EndOfInput) (walk : HeapWalk) (heap : Stream' UInt8) (slot : Nat) :
    Prop where
  away (value : UInt8) (stack input output : List UInt8) :
    Runs ending walk.away (atTop (setSlot heap slot value) stack zeros input output)
      (atSlot (setSlot heap slot value) stack zeros input output slot)
  back (value : UInt8) (stack input output : List UInt8) :
    Runs ending walk.back (atSlot (setSlot heap slot value) stack zeros input output slot)
      (atTop (setSlot heap slot value) stack zeros input output)

theorem slotWalk_leads (slot : Nat) : (slotWalk slot).Leads ending heap slot where
  away value stack input output :=
    (away_runs (setSlot heap slot value) stack zeros input output).append
      (slots_away_runs (setSlot heap slot value) stack zeros input output slot)
  back value stack input output :=
    (slots_back_runs (setSlot heap slot value) stack zeros input output slot).append
      (back_runs (setSlot heap slot value) stack zeros input output rfl)

/-! ## Access -/

variable {walk : HeapWalk} {slot : Nat}

theorem get_setSlot (slot : Nat) (value : UInt8) : (setSlot heap slot value).get slot = value := by
  simp [setSlot, Stream'.get]

theorem setSlot_get (slot : Nat) : setSlot heap slot (heap.get slot) = heap := by
  ext other
  by_cases equal : other = slot <;> simp [setSlot, Stream'.get, equal]

/-- Code that changes nothing but the slot, between the walk to it and the walk back. -/
theorem HeapWalk.Leads.around (leads : walk.Leads ending heap slot) {code : List Char} {value : UInt8}
    (changes : Runs ending code (atSlot heap stack zeros input output slot)
      (atSlot (setSlot heap slot value) stack zeros input output slot)) :
    Runs ending (walk.away ++ code ++ walk.back) (atTop heap stack zeros input output)
      (atTop (setSlot heap slot value) stack zeros input output) := by
  have away := leads.away (heap.get slot) stack input output
  rw [setSlot_get] at away
  exact (away.append changes).append (leads.back value stack input output)

/-- Single cells are zeroed in place. -/
theorem zero_runs (slot : Nat) : Runs ending "[-]".toList (atSlot heap stack right input output slot)
    (atSlot (setSlot heap slot 0) stack right input output slot) := by
  rw [atSlot_setSlot]
  exact clear_runs input output _ _ (heap.get slot)

theorem erase_runs (leads : walk.Leads ending heap slot) (single : walk.clear = "[-]".toList) :
    Runs ending walk.erase (atTop heap stack zeros input output)
      (atTop (setSlot heap slot 0) stack zeros input output) := by
  rw [HeapWalk.erase, single]
  exact leads.around heap stack input output (zero_runs heap stack zeros input output slot)

/-- A character that only changes the cell. -/
private theorem slot_act_runs {c : Char} (plain : isPlain c = true) {before after : UInt8}
    (acts : ∀ left right, Ribbon.perform ending ⟨left, before, right, input, output⟩ c =
      ⟨left, after, right, input, output⟩) (slot : Nat) :
    Runs ending [c] (atSlot (setSlot heap slot before) stack right input output slot)
      (atSlot (setSlot heap slot after) stack right input output slot) := by
  rw [atSlot_setSlot, atSlot_setSlot]
  exact .act plain (.recast (acts _ _) .done rfl)

/-- The slot grows as the value on top is counted down. -/
private theorem raise_turn (leads : walk.Leads ending heap slot) (count value : UInt8) :
    Runs ending (('-' :: walk.away) ++ ('+' :: walk.back))
      (atTop (setSlot heap slot value) (count :: stack) zeros input output)
      (atTop (setSlot heap slot (value + 1)) ((count - 1) :: stack) zeros input output) := by
  have lowered : Runs ending ['-'] (atTop (setSlot heap slot value) (count :: stack) zeros input output)
      (atTop (setSlot heap slot value) ((count - 1) :: stack) zeros input output) :=
    .act rfl .done
  have raised := @slot_act_runs ending heap ((count - 1) :: stack) zeros input output '+' rfl value
    (value + 1) (fun _ _ => rfl) slot
  exact (lowered.append (leads.away _ _ input output)).append
    (raised.append (leads.back _ _ input output))

theorem write_runs (leads : walk.Leads ending heap slot) (value : UInt8) :
    Runs ending walk.write (atTop heap (value :: stack) zeros input output)
      (atTop (setSlot heap slot value) stack zeros input output) := by
  have zeroed := leads.around heap (value :: stack) input output
    (zero_runs heap (value :: stack) zeros input output slot)
  -- The value is counted down on the stack while the slot is raised: at count `n` the slot holds what is
  -- already over.
  have moved := @Runs.countdown_of_balanced ending (('-' :: walk.away) ++ ('+' :: walk.back))
    (raise_turn heap stack input output leads 0 0).balanced
    (fun n => atTop (setSlot heap slot (value - n)) (n :: stack) zeros input output)
    (fun _ => rfl) (fun n _ => by
      have step : value - (n - 1) = value - n + 1 := by grind
      rw [step]
      exact raise_turn heap stack input output leads n _) value
  -- Two zeros are left where the value and its link were; they are part of the zeros again.
  have down : Runs ending "<<".toList
      (atTop (setSlot heap slot value) (0 :: stack) zeros input output)
      (atTop (setSlot heap slot value) stack (cons 0 (cons 0 zeros)) input output) :=
    .straight "<<" rfl rfl
  have settled : Runs ending "<<".toList
      (atTop (setSlot heap slot (value - 0)) (0 :: stack) zeros input output)
      (atTop (setSlot heap slot value) stack zeros input output) :=
    .recast (by simp) down (by simp)
  have code : walk.write = walk.away ++ "[-]".toList ++ walk.back ++
      ('[' :: (('-' :: walk.away) ++ ('+' :: walk.back)) ++ [']']) ++ "<<".toList := by
    have opens : "[-".toList = ['[', '-'] := rfl
    have raise : "+".toList = ['+'] := rfl
    have closes : "]<<".toList = ']' :: "<<".toList := rfl
    simp only [HeapWalk.write, opens, raise, closes, List.append_assoc, List.cons_append,
      List.nil_append]
  rw [code]
  exact (zeroed.append (.recast (by simp) moved rfl)).append settled

/-- The value on top grows as the slot is counted down. -/
private theorem lower_turn (leads : walk.Leads ending heap slot) (count value : UInt8) :
    Runs ending (('-' :: walk.back) ++ ('+' :: walk.away))
      (atSlot (setSlot heap slot count) (value :: stack) zeros input output slot)
      (atSlot (setSlot heap slot (count - 1)) ((value + 1) :: stack) zeros input output slot) := by
  have lowered := @slot_act_runs ending heap (value :: stack) zeros input output '-' rfl count
    (count - 1) (fun _ _ => rfl) slot
  have raised : Runs ending ['+']
      (atTop (setSlot heap slot (count - 1)) (value :: stack) zeros input output)
      (atTop (setSlot heap slot (count - 1)) ((value + 1) :: stack) zeros input output) :=
    .act rfl .done
  exact (lowered.append (leads.back _ _ input output)).append
    (raised.append (leads.away _ _ input output))

/-- Reading moves the value out of the slot. -/
theorem read_runs (leads : walk.Leads ending heap slot) :
    Runs ending walk.read (atTop heap stack zeros input output)
      (atTop (setSlot heap slot 0) (heap.get slot :: stack) zeros input output) := by
  have up : Runs ending ">>".toList (atTop heap stack zeros input output)
      ⟨cons 0 (cons (column heap stack).head (column heap stack).tail), 0, zeros, input, output⟩ :=
    .straight ">>" rfl rfl
  have pushed : Runs ending ">>".toList (atTop heap stack zeros input output)
      (atTop heap (0 :: stack) zeros input output) :=
    .recast rfl up (by rw [Stream'.eta]; rfl)
  have away := leads.away (heap.get slot) (0 :: stack) input output
  -- The mirror image of writing: the slot counts down while the new top of the stack is raised.
  have moved := @Runs.countdown_of_balanced ending (('-' :: walk.back) ++ ('+' :: walk.away))
    (lower_turn heap stack input output leads 0 0).balanced
    (fun n => atSlot (setSlot heap slot n) ((heap.get slot - n) :: stack) zeros input output slot)
    (fun n => get_setSlot heap slot n) (fun n _ => by
      have step : heap.get slot - (n - 1) = heap.get slot - n + 1 := by grind
      rw [step]
      exact lower_turn heap stack input output leads n _) (heap.get slot)
  have code : walk.read = ">>".toList ++ walk.away ++
      ('[' :: (('-' :: walk.back) ++ ('+' :: walk.away)) ++ [']']) ++ walk.back := by
    have opens : "[-".toList = ['[', '-'] := rfl
    have raise : "+".toList = ['+'] := rfl
    have closes : "]".toList = [']'] := rfl
    simp only [HeapWalk.read, opens, raise, closes, List.append_assoc, List.cons_append,
      List.nil_append]
  rw [setSlot_get] at away
  rw [setSlot_get, UInt8.sub_self, UInt8.sub_zero] at moved
  rw [code]
  exact ((pushed.append away).append moved).append (leads.back 0 _ input output)

end Template

end TapeCode
