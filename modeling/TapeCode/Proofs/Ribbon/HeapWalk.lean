import TapeCode.Proofs.Folding.Loops
import TapeCode.Proofs.Ribbon.Heap
import TapeCode.Proofs.Ribbon.Strips

/-!
# The heap walk and its inverse

The walk to the heap raises every second cell on its way from the top of the stack to the sentinel, and stops
at the first one that becomes zero. The walk back lowers these cells again, and stops at the first one that
was not raised. Whatever the other cells hold, the second walk undoes the first one.
-/
namespace TapeCode

namespace Strip

variable {cells : Int → UInt8} {first last : Int}

/-- Every other cell is raised by one, from an odd one to another. -/
def raise (cells : Int → UInt8) (first last place : Int) : UInt8 :=
  if place % 2 = 1 ∧ first ≤ place ∧ place ≤ last then cells place + 1 else cells place

theorem raise_none (cells : Int → UInt8) (none : last < first) : raise cells first last = cells := by
  funext place
  exact if_neg (by omega)

theorem raise_other {place : Int} (other : place < first ∨ last < place ∨ place % 2 = 0) :
    raise cells first last place = cells place :=
  if_neg (by omega)

theorem raise_one {place : Int} (odd : place % 2 = 1) (above : first ≤ place) (below : place ≤ last) :
    raise cells first last place = cells place + 1 :=
  if_pos ⟨odd, above, below⟩

/-- Whether the first cell is raised makes no difference to the others. -/
theorem update_raise (odd : first % 2 = 1) (value : UInt8) :
    Function.update (raise cells (first + 2) last) first value =
      Function.update (raise cells first last) first value := by
  funext place
  by_cases here : place = first
  · rw [here, Function.update_self, Function.update_self]
  · rw [Function.update_of_ne here, Function.update_of_ne here]
    exact if_congr (by omega) rfl rfl

/-- One more cell is raised. -/
theorem put_raise (odd : first % 2 = 1) (within : first ≤ last) :
    Strip.put ⟨raise cells (first + 2) last, first⟩ (raise cells (first + 2) last first + 1) =
      ⟨raise cells first last, first⟩ := by
  have value : raise cells (first + 2) last first + 1 = raise cells first last first := by
    rw [raise_other (.inl (by omega)), raise_one odd le_rfl within]
  rw [put, update_raise odd, value, Function.update_eq_self]

/-- One cell is lowered again. -/
theorem put_lower (odd : first % 2 = 1) (within : first ≤ last) :
    Strip.put ⟨raise cells first last, first⟩ (raise cells first last first - 1) =
      ⟨raise cells (first + 2) last, first⟩ := by
  have value : raise cells first last first - 1 = raise cells (first + 2) last first := by
    rw [raise_one odd le_rfl within, UInt8.add_sub_cancel, raise_other (.inl (by omega))]
  rw [put, ← update_raise odd, value, Function.update_eq_self]

end Strip

open Strip (raise)

namespace Walks

variable {ending : EndOfInput} {low high : Nat} {cells : Int → UInt8} {place : Int}

theorem left (count : Nat) (above : -low ≤ place - count) (below : place < high) :
    Walks ending low high (List.replicate count '<') ⟨cells, place⟩ ⟨cells, place - count⟩ := by
  induction count generalizing place with
  | zero => simpa using done
  | succ count ih =>
    have onwards := @ih (place - 1) (by omega) (by omega)
    rw [show place - 1 - (count : Int) = place - (count + 1 : Nat) by omega] at onwards
    exact act rfl (by change -_ ≤ place; omega) below onwards

theorem right (count : Nat) (above : -low ≤ place) (below : place + count ≤ high) :
    Walks ending low high (List.replicate count '>') ⟨cells, place⟩ ⟨cells, place + count⟩ := by
  induction count generalizing place with
  | zero => simpa using done
  | succ count ih =>
    have onwards := @ih (place + 1) (by omega) (by omega)
    rw [show place + 1 + (count : Int) = place + (count + 1 : Nat) by omega] at onwards
    exact act rfl above (by change place < _; omega) onwards

/-- One turn to the heap: the pointer goes two cells to the left, and the cell there is raised. -/
theorem left_raise {first last : Int} (odd : first % 2 = 1) (within : first ≤ last) (above : -low ≤ first)
    (below : first + 2 < high) :
    Walks ending low high "<<+".toList ⟨raise cells (first + 2) last, first + 2⟩
      ⟨raise cells first last, first⟩ := by
  have moved := @left ending low high (raise cells (first + 2) last) (first + 2) 2 (by omega) below
  rw [show first + 2 - (2 : Nat) = first by omega] at moved
  refine moved.append (act rfl above (by dsimp only; omega) ?_)
  exact Strip.put_raise odd within ▸ done

/-- One turn back: the cell is lowered, and the pointer goes two cells to the right. -/
theorem lower_right {first last : Int} (odd : first % 2 = 1) (within : first ≤ last) (above : -low ≤ first)
    (below : first + 2 ≤ high) :
    Walks ending low high "->>".toList ⟨raise cells first last, first⟩
      ⟨raise cells (first + 2) last, first + 2⟩ := by
  refine act rfl above (by dsimp only; omega) ?_
  change Walks ending low high (List.replicate 2 '>') (Strip.put _ _) _
  rw [Strip.put_lower odd within]
  exact right 2 above below

end Walks

/-! ## The way there and back -/

namespace Strip

/-- The sentinel is set, and the links are not, up to the one above a stack of this depth. -/
structure IsLinked (depth : Nat) (cells : Int → UInt8) : Prop where
  sentinel : cells (-1) = 255
  links : ∀ link ≤ depth, cells (2 * (link : Int) + 1) = 0

/-- The cells behind the walk to the heap: the sentinel is zero, and the links below the top are set. -/
def passed (depth : Nat) (cells : Int → UInt8) (place : Int) : UInt8 :=
  if place = -1 then 0 else if place % 2 = 1 ∧ 0 < place ∧ place < 2 * depth then 1 else cells place

/-- The strip after some turns to the heap. -/
def descent (depth : Nat) (cells : Int → UInt8) (turns : Nat) : Strip :=
  ⟨raise cells (2 * depth - 1 - 2 * turns) (2 * depth - 1), 2 * depth - 1 - 2 * turns⟩

/-- The strip after some turns back. -/
def ascent (depth : Nat) (cells : Int → UInt8) (turns : Nat) : Strip :=
  ⟨raise cells (2 * turns + 1) (2 * depth - 1), 2 * turns + 1⟩

namespace IsLinked

variable {depth : Nat} {cells : Int → UInt8} {ending : EndOfInput} {low high : Nat}

theorem link (linked : IsLinked depth cells) {place : Int} (odd : place % 2 = 1) (above : 0 < place)
    (below : place ≤ 2 * depth + 1) : cells place = 0 := by
  have zero := linked.links (place / 2).toNat (by omega)
  rwa [show 2 * ((place / 2).toNat : Int) + 1 = place by omega] at zero

/-- The sentinel wraps to zero, and a link that was zero is set. -/
theorem raise_eq (linked : IsLinked depth cells) : raise cells (-1) (2 * depth - 1) = passed depth cells := by
  funext place
  rw [raise, passed]
  by_cases sentinel : place = -1
  · rw [if_pos (by omega), if_pos sentinel, sentinel, linked.sentinel]
    rfl
  rw [if_neg sentinel]
  by_cases between : place % 2 = 1 ∧ 0 < place ∧ place < 2 * depth
  · rw [if_pos (by omega), if_pos between, linked.link between.1 between.2.1 (by omega)]
    rfl
  · rw [if_neg (by omega), if_neg between]

/-- Another value in the heap. -/
theorem update (linked : IsLinked depth cells) {place : Int} (inHeap : place < -1) (value : UInt8) :
    IsLinked depth (Function.update cells place value) where
  sentinel := (Function.update_of_ne (by omega) _ _).trans linked.sentinel
  links link below := (Function.update_of_ne (by omega) _ _).trans (linked.links link below)

theorem passed_update {place : Int} (inHeap : place < -1) (value : UInt8) :
    passed depth (Function.update cells place value) = Function.update (passed depth cells) place value := by
  funext other
  by_cases same : other = place
  · subst same
    rw [Function.update_self, passed, if_neg (by omega), if_neg (by omega), Function.update_self]
  · rw [Function.update_of_ne same, passed, passed, Function.update_of_ne same]

variable (linked : IsLinked depth cells)
include linked

/-- The links are raised one after the other, down to the sentinel. -/
theorem descend (lowEnough : 1 ≤ low) (highEnough : 2 * depth < high) :
    Walks ending low high ('[' :: "<<+".toList ++ [']']) (descent depth cells 0) ⟨passed depth cells, -1⟩ := by
  have arrived : descent depth cells depth = ⟨passed depth cells, -1⟩ := by
    rw [descent, show (2 * depth - 1 - 2 * depth : Int) = -1 by omega, linked.raise_eq]
  rw [← arrived]
  refine .stages (.of_scan rfl) _ depth ?_ ?_ ?_ ?_ ?_
  · intro turns within
    dsimp only [descent]
    omega
  · intro turns within
    dsimp only [descent]
    omega
  · intro turns within
    -- The link that was raised last is not zero any more.
    dsimp only [descent]
    rw [raise_one (by omega) le_rfl (by omega), linked.link (by omega) (by omega) (by omega)]
    decide
  · intro turns within
    have turn := @Walks.left_raise ending low high cells (2 * depth - 1 - 2 * (turns + 1 : Nat))
      (2 * depth - 1) (by omega) (by omega) (by omega) (by omega)
    rwa [show (2 * depth - 1 - 2 * (turns + 1 : Nat) + 2 : Int) = 2 * depth - 1 - 2 * turns by omega]
      at turn
  · -- The sentinel is raised to zero.
    rw [arrived]
    rfl

/-- The links are lowered again, up to the one above the top. -/
theorem ascend (highEnough : 2 * depth + 1 < high) :
    Walks ending low high ('[' :: "->>".toList ++ [']']) (ascent depth cells 0) ⟨cells, 2 * depth + 1⟩ := by
  have arrived : ascent depth cells depth = ⟨cells, 2 * depth + 1⟩ := by
    rw [ascent, raise_none cells (by omega)]
  rw [← arrived]
  refine .stages (.of_scan rfl) _ depth ?_ ?_ ?_ ?_ ?_
  · intro turns within
    dsimp only [ascent]
    omega
  · intro turns within
    dsimp only [ascent]
    omega
  · intro turns within
    dsimp only [ascent]
    rw [raise_one (by omega) le_rfl (by omega), linked.link (by omega) (by omega) (by omega)]
    decide
  · intro turns within
    have turn := @Walks.lower_right ending low high cells (2 * turns + 1) (2 * depth - 1) (by omega)
      (by omega) (by omega) (by omega)
    rwa [show (2 * turns + 1 + 2 : Int) = 2 * (turns + 1 : Nat) + 1 by omega] at turn
  · -- The link above the top was never raised.
    rw [arrived]
    exact linked.links depth le_rfl

/-- The walk to a slot. -/
theorem away {slot : Nat} (lowEnough : slot + 2 ≤ low) (highEnough : 2 * depth < high) :
    Walks ending low high (Template.slotWalk slot).away ⟨cells, 2 * depth⟩
      ⟨passed depth cells, -2 - slot⟩ := by
  have first : Walks ending low high "<+".toList ⟨cells, 2 * depth⟩ (descent depth cells 0) := by
    have raised := @put_raise cells (2 * depth - 1) (2 * depth - 1) (by omega) le_rfl
    rw [raise_none cells (by omega)] at raised
    refine .act rfl (by dsimp only; omega) (by dsimp only; omega) (.act rfl ?_ ?_ ?_)
    · change -_ ≤ 2 * (depth : Int) - 1
      omega
    · change 2 * (depth : Int) - 1 < _
      omega
    · change Walks ending low high [] (Strip.put ⟨cells, 2 * depth - 1⟩ (cells (2 * depth - 1) + 1)) _
      rw [raised]
      simpa [descent] using Walks.done
  have loop : Walks ending low high _ _ _ := linked.descend (by omega) highEnough
  have last := @Walks.left ending low high (passed depth cells) (-1) (slot + 1) (by omega) (by omega)
  rw [show (-1 - (slot + 1 : Nat) : Int) = -2 - slot by omega] at last
  exact (first.append loop).append last

/-- The walk back from a slot. -/
theorem back {slot : Nat} (lowEnough : slot + 2 ≤ low) (highEnough : 2 * depth + 1 < high) :
    Walks ending low high (Template.slotWalk slot).back ⟨passed depth cells, -2 - slot⟩
      ⟨cells, 2 * depth⟩ := by
  have first := @Walks.right ending low high (passed depth cells) (-2 - slot) (slot + 1) (by omega) (by omega)
  have sentinel := @Walks.lower_right ending low high cells (-1) (2 * depth - 1) (by decide) (by omega)
    (by omega) (by omega)
  have loop : Walks ending low high _ _ _ := linked.ascend highEnough
  have last := @Walks.left ending low high cells (2 * depth + 1) 1 (by omega) (by omega)
  rw [show (-2 - slot + (slot + 1 : Nat) : Int) = -1 by omega] at first
  rw [linked.raise_eq] at sentinel
  rw [show (2 * depth + 1 - (1 : Nat) : Int) = 2 * depth by omega] at last
  have walks := first.append (sentinel.append (loop.append last))
  rw [List.replicate_succ', List.append_assoc] at walks
  exact walks

/-- The walk back undoes the walk to the slot, and leaves there what was put into it. -/
theorem back_put {slot : Nat} (lowEnough : slot + 2 ≤ low) (highEnough : 2 * depth + 1 < high)
    (value : UInt8) :
    Walks ending low high (Template.slotWalk slot).back (Strip.put ⟨passed depth cells, -2 - slot⟩ value)
      ⟨Function.update cells (-2 - slot) value, 2 * depth⟩ := by
  have inHeap : (-2 - slot : Int) < -1 := by omega
  have walks : Walks ending low high _ _ _ := (linked.update inHeap value).back lowEnough highEnough
  rw [passed_update inHeap] at walks
  exact walks

end IsLinked

end Strip

/-! ## The walk of a layout -/

namespace Template

open Strip (IsLinked passed)

theorem slotWalk_away_balanced (slot : Nat) : Balanced (slotWalk slot).away :=
  Balanced.append (.of_scan rfl) (.of_scan (Balanced.scan_of_all (by simp [isPlain])))

theorem slotWalk_back_balanced (slot : Nat) : Balanced (slotWalk slot).back :=
  Balanced.append (.of_scan (Balanced.scan_of_all (by simp [isPlain]))) (.of_scan rfl)

/-- The walks neither read nor write. -/
theorem slotWalk_secluded (slot : Nat) :
    (∀ c ∈ (slotWalk slot).away, c ≠ '.' ∧ c ≠ ',') ∧ ∀ c ∈ (slotWalk slot).back, c ≠ '.' ∧ c ≠ ',' := by
  have left : ∀ c ∈ "<+[<<+]<".toList, c ≠ '.' ∧ c ≠ ',' := by simp
  have right : ∀ c ∈ ">->>[->>]<".toList, c ≠ '.' ∧ c ≠ ',' := by simp
  have repeated (c : Char) (secluded : c ≠ '.' ∧ c ≠ ',') :
      ∀ d ∈ List.replicate slot c, d ≠ '.' ∧ d ≠ ',' :=
    fun d member => List.eq_of_mem_replicate member ▸ secluded
  exact ⟨List.forall_mem_append.mpr ⟨left, repeated '<' (by decide)⟩,
    List.forall_mem_append.mpr ⟨repeated '>' (by decide), right⟩⟩

/-- For a layout of single cells there is a walk to the heap and back, for a stack of any depth and any other
cells. It ends on the slot, where only the sentinel and the links below the top are changed. Whatever is put
into the slot, the walk back ends on the top of the stack, and all other cells are as they were. This is so on
unbounded tapes, and for the tape machine on all circular tapes on which the cells from the slot to the link
above the top are different ones. -/
theorem heapWalk_inverts {layout : List Int} {slot : Nat} (size : layout.length = slot + 1)
    (fill : layout.all fillsCell = true) (depth : Nat) (ending : EndOfInput) :
    ∃ walk, heapWalk layout = .ok walk ∧ ∀ cells, IsLinked depth cells →
      (∀ input output,
        (∃ places, Path (RibbonMachine.step ending) RibbonMachine.place
          (.between [] walk.away (Strip.ribbon ⟨cells, 2 * depth⟩ input output)) places
          (.between walk.away [] (Strip.ribbon ⟨passed depth cells, -2 - slot⟩ input output))) ∧
        ∀ value, ∃ places, Path (RibbonMachine.step ending) RibbonMachine.place
          (.between [] walk.back
            (Strip.ribbon (Strip.put ⟨passed depth cells, -2 - slot⟩ value) input output)) places
          (.between walk.back []
            (Strip.ribbon ⟨Function.update cells (-2 - slot) value, 2 * depth⟩ input output))) ∧
      ∀ (breakpoint : Option Char) (devices : Devices), ∃ away back,
        TapeOperation.decode breakpoint walk.away = .ok away ∧
        TapeOperation.decode breakpoint walk.back = .ok back ∧
        ∀ (machine : Machine) (high : Nat), machine.next = 0 → 2 * depth + 2 ≤ high →
          machine.tape.Unrolls (slot + 2) high ⟨cells, 2 * depth⟩ →
          ∃ turns there, machine.runFor ⟨away, none, ending, devices⟩ false turns = (there, .halted) ∧
            there.tape.Unrolls (slot + 2) high ⟨passed depth cells, -2 - slot⟩ ∧
            ∀ value, ∃ turns again,
              Machine.runFor ⟨back, none, ending, devices⟩ false turns
                { there with tape := there.tape.put value, next := 0 } = (again, .halted) ∧
              again.tape.Unrolls (slot + 2) high
                ⟨Function.update cells (-2 - slot) value, 2 * depth⟩ := by
  have addressed : StackState.slot? layout = some slot := by
    cases layout with
    | nil => cases size
    | cons number before => exact congrArg some (Nat.succ.inj size)
  refine ⟨slotWalk slot, heapWalk_of_fillCells fill addressed, fun cells linked =>
    ⟨fun input output => ?_, fun breakpoint devices => ?_⟩⟩
  · have away : Walks ending (slot + 2) (2 * depth + 2) _ _ _ := linked.away le_rfl (by omega)
    have back (value : UInt8) : Walks ending (slot + 2) (2 * depth + 2) _ _ _ :=
      linked.back_put le_rfl (by omega) value
    exact ⟨away.path input output, fun value => (back value).path input output⟩
  · obtain ⟨away, awayDecoded⟩ :=
      (TapeOperation.decode_ok_iff breakpoint _).mpr (slotWalk_away_balanced slot)
    obtain ⟨back, backDecoded⟩ :=
      (TapeOperation.decode_ok_iff breakpoint _).mpr (slotWalk_back_balanced slot)
    obtain ⟨awaySecluded, backSecluded⟩ := slotWalk_secluded slot
    refine ⟨away, back, awayDecoded, backDecoded, fun machine high begins room unrolls => ?_⟩
    -- On the circular tape the same walks are run, now with as much room above as the tape has.
    have there : Walks ending (slot + 2) high _ _ _ := linked.away le_rfl (by omega)
    have again (value : UInt8) : Walks ending (slot + 2) high _ _ _ :=
      linked.back_put le_rfl (by omega) value
    obtain ⟨turns, final, run, arrived⟩ := @Walks.halts _ _ _ _ _ ⟨away, none, ending, devices⟩ _ there rfl
      awayDecoded awaySecluded machine begins unrolls
    refine ⟨turns, final, run, arrived, fun value => ?_⟩
    exact @Walks.halts _ _ _ _ _ ⟨back, none, ending, devices⟩ _ (again value) rfl backDecoded backSecluded
      { final with tape := final.tape.put value, next := 0 } rfl
      (arrived.put (by dsimp only; omega) (by dsimp only; omega) value)

/-- A tape with a stack of two values, as long as the walk to the second slot takes. -/
def linkedTape : Tape := ⟨#[9, 0, 7, 0, 5, 6, 255], 2, by decide⟩

theorem heapWalk_inverts_linkedTape :
    IsLinked 1 linkedTape.cellAt ∧ ∃ walk away back, heapWalk [4, 1] = .ok walk ∧
      TapeOperation.decode (some '#') walk.away = .ok away ∧
      TapeOperation.decode (some '#') walk.back = .ok back ∧
      ∃ turns there, Machine.runFor ⟨away, none, .zero, {}⟩ false turns ⟨linkedTape, 0, 0, [], #[]⟩ =
          (there, .halted) ∧
        there.tape.cellAt (-1) = 0 ∧ there.tape.cellAt 1 = 1 ∧ there.tape.cellAt 0 = 9 ∧
        ∃ turns again, Machine.runFor ⟨back, none, .zero, {}⟩ false turns
            { there with tape := there.tape.put 8, next := 0 } = (again, .halted) ∧
          again.tape.cellAt (-1) = 255 ∧ again.tape.cellAt 1 = 0 ∧ again.tape.cellAt (-3) = 8 := by
  have linked : IsLinked 1 linkedTape.cellAt := ⟨by decide, by decide⟩
  obtain ⟨walk, found, walks⟩ := @heapWalk_inverts [4, 1] 1 rfl (by decide) 1 .zero
  obtain ⟨away, back, awayDecoded, backDecoded, halts⟩ := (walks _ linked).2 (some '#') {}
  obtain ⟨turns, there, run, arrived, returns⟩ := halts ⟨linkedTape, 0, 0, [], #[]⟩ 4 rfl (by decide)
    ⟨rfl, by decide, fun _ _ _ => rfl⟩
  obtain ⟨others, again, runBack, restored⟩ := returns 8
  refine ⟨linked, walk, away, back, found, awayDecoded, backDecoded, turns, there, run,
    (arrived.cells (-1) (by decide) (by decide)).trans (by decide),
    (arrived.cells 1 (by decide) (by decide)).trans (by decide),
    (arrived.cells 0 (by decide) (by decide)).trans (by decide), others, again, runBack,
    (restored.cells (-1) (by decide) (by decide)).trans (by decide),
    (restored.cells 1 (by decide) (by decide)).trans (by decide),
    (restored.cells (-3) (by decide) (by decide)).trans (by decide)⟩

end Template

end TapeCode
