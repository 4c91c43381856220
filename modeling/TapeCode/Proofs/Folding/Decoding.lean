import TapeCode.Proofs.Ribbon.Machine
import TapeCode.Tape.Operation

/-!
# Reading tape code into operations

While the code is read, an operation may still change as long as it is a run of moves or of increments
at the end of what is read, or a loop that is still open. All others are settled: they stay what they
are. The loops still open are those whose brackets have no partner yet, so the place that a bracket
leads to among the operations is the one that counting brackets finds among the characters.
-/
namespace TapeCode

namespace TapeOperation

/-- Operations that the next character may be added to. -/
def isFolded : TapeOperation → Bool
  | .move _ | .add _ => true
  | _ => false

namespace Decoding

variable {breakpoint : Option Char} {offset : Nat} {decoding after : Decoding} {c : Char}

theorem takeAll_append {first second : List Char} {between : Decoding}
    (taken : decoding.takeAll breakpoint offset first = .ok between) :
    decoding.takeAll breakpoint offset (first ++ second) =
      between.takeAll breakpoint (offset + first.length) second := by
  induction first generalizing decoding offset with
  | nil =>
    obtain rfl : decoding = between := Except.ok.inj taken
    rfl
  | cons c first ih =>
    simp only [List.cons_append, takeAll] at taken ⊢
    split at taken
    next => cases taken
    next next here =>
      rw [ih taken, List.length_cons]
      congr 1
      omega

/-- Reading a text is reading its parts. -/
theorem takeAll_split {first second : List Char}
    (taken : decoding.takeAll breakpoint offset (first ++ second) = .ok after) :
    ∃ between, decoding.takeAll breakpoint offset first = .ok between ∧
      between.takeAll breakpoint (offset + first.length) second = .ok after := by
  induction first generalizing decoding offset with
  | nil => exact ⟨decoding, rfl, taken⟩
  | cons c first ih =>
    simp only [List.cons_append, takeAll] at taken ⊢
    split at taken
    next => cases taken
    next next here =>
      obtain ⟨between, inside, onwards⟩ := ih taken
      refine ⟨between, by simp only [inside], ?_⟩
      rw [List.length_cons, show offset + (first.length + 1) = offset + 1 + first.length by omega]
      exact onwards

theorem takeAll_single :
    decoding.takeAll breakpoint offset [c] = .ok after ↔
      decoding.take breakpoint offset c = .ok after := by
  simp only [takeAll]
  cases decoding.take breakpoint offset c <;> simp

/-- A character that is no bracket can be read, and opens and closes nothing. -/
theorem take_plain (plain : isPlain c = true) :
    ∃ next, decoding.take breakpoint offset c = .ok next ∧ next.opened = decoding.opened := by
  simp only [isPlain, Bool.and_eq_true, decide_eq_true_eq] at plain
  unfold take
  split
  case h_7 => exact absurd rfl plain.1
  case h_8 => exact absurd rfl plain.2
  case h_9 =>
    refine ⟨_, rfl, ?_⟩
    split <;> rfl
  case h_1 | h_2 =>
    refine ⟨_, rfl, ?_⟩
    simp only [pushMove]
    split <;> rfl
  case h_3 | h_4 =>
    refine ⟨_, rfl, ?_⟩
    simp only [pushAdd]
    split <;> rfl
  all_goals exact ⟨_, rfl, rfl⟩

/-- Code with matched brackets can be read, and leaves the open loops as they are. -/
theorem takeAll_balanced {code : List Char} (balanced : Balanced code) (decoding : Decoding)
    (offset : Nat) : ∃ after, decoding.takeAll breakpoint offset code = .ok after ∧
      after.opened = decoding.opened := by
  induction balanced generalizing decoding offset with
  | nil => exact ⟨decoding, rfl, rfl⟩
  | @plain c rest plain _ ih =>
    obtain ⟨next, taken, stays⟩ := @take_plain breakpoint offset decoding c plain
    obtain ⟨after, takenAll, opened⟩ := ih next (offset + 1)
    exact ⟨after, by simp [takeAll, taken, takenAll], opened.trans stays⟩
  | @nest body rest _ _ inner outer =>
    obtain ⟨inside, takenInside, openedInside⟩ := inner (decoding.openLoop offset) (offset + 1)
    obtain ⟨closed, closing, stays⟩ : ∃ closed,
        inside.take breakpoint (offset + 1 + body.length) ']' = .ok closed ∧
          closed.opened = decoding.opened := by
      obtain ⟨operations, opened⟩ := inside
      obtain rfl : opened = (decoding.operations.size, offset) :: decoding.opened := openedInside
      exact ⟨_, rfl, rfl⟩
    obtain ⟨after, takenAfter, opened⟩ := outer closed (offset + 1 + body.length + 1)
    refine ⟨after, ?_, opened.trans stays⟩
    have opening : decoding.take breakpoint offset '[' = .ok (decoding.openLoop offset) := rfl
    rw [List.cons_append, takeAll, opening]
    simp only
    rw [takeAll_append takenInside, takeAll, closing]
    exact takenAfter

/-- What a character makes of the operations read so far. -/
inductive Change (offset : Nat) (decoding : Decoding) : Decoding → Prop
  | push (next : TapeOperation) : Change offset decoding (decoding.push next)
  | grow {last : TapeOperation} (ends : decoding.operations.back? = some last)
    (folded : last.isFolded = true) (next : TapeOperation) :
    Change offset decoding { decoding with operations := decoding.operations.pop.push next }
  | openLoop : Change offset decoding (decoding.openLoop offset)
  | closeLoop {start place : Nat} {opened : List (Nat × Nat)}
    (inside : decoding.opened = (start, place) :: opened) :
    Change offset decoding ⟨(decoding.operations.setIfInBounds start
      (.loopStart decoding.operations.size)).push (.loopEnd start), opened⟩
  | same : Change offset decoding decoding

theorem change_of_take (taken : decoding.take breakpoint offset c = .ok after) :
    Change offset decoding after := by
  have move (distance : Int) : Change offset decoding (decoding.pushMove distance) := by
    unfold pushMove
    split
    next ends => exact .grow ends rfl _
    next => exact .push _
  have add (amount : UInt8) : Change offset decoding (decoding.pushAdd amount) := by
    unfold pushAdd
    split
    next ends => exact .grow ends rfl _
    next => exact .push _
  unfold Decoding.take at taken
  split at taken
  case h_1 | h_2 => exact Except.ok.inj taken ▸ move _
  case h_3 | h_4 => exact Except.ok.inj taken ▸ add _
  case h_5 | h_6 => exact Except.ok.inj taken ▸ .push _
  case h_7 => exact Except.ok.inj taken ▸ .openLoop
  case h_8 =>
    -- a closing bracket, which fails if nothing is open
    obtain ⟨operations, opened⟩ := decoding
    cases opened with
    | nil => cases taken
    | cons innermost opened => exact Except.ok.inj taken ▸ .closeLoop rfl
  case h_9 =>
    -- a breakpoint, or what is ignored
    obtain rfl := Except.ok.inj taken
    split
    · exact .push _
    · exact .same

/-! ## What is settled -/

/-- An operation that stays what it is. -/
structure Settled (decoding : Decoding) (index : Nat) (operation : TapeOperation) : Prop where
  here : decoding.operations[index]? = some operation
  closed : ∀ entry ∈ decoding.opened, entry.1 ≠ index
  complete : index + 1 = decoding.operations.size → operation.isFolded = false

/-- The open loops are loops among the operations, the innermost last. -/
structure Proper (decoding : Decoding) : Prop where
  starts : ∀ entry ∈ decoding.opened, decoding.operations[entry.1]? = some (.loopStart 0)
  ordered : decoding.opened.Pairwise fun inner outer => outer.1 < inner.1

theorem Proper.inside (proper : decoding.Proper) {entry : Nat × Nat}
    (member : entry ∈ decoding.opened) : entry.1 < decoding.operations.size :=
  (Array.getElem?_eq_some_iff.mp (proper.starts entry member)).1

theorem proper_start : Proper ⟨#[], []⟩ := ⟨by simp, .nil⟩

section

variable {index : Nat} {operation : TapeOperation}

theorem Settled.index_lt (settled : decoding.Settled index operation) :
    index < decoding.operations.size :=
  (Array.getElem?_eq_some_iff.mp settled.here).1

theorem getElem?_push (here : decoding.operations[index]? = some operation)
    (next : TapeOperation) : (decoding.push next).operations[index]? = some operation := by
  obtain ⟨inside, _⟩ := Array.getElem?_eq_some_iff.mp here
  simp [Decoding.push, Array.getElem?_push, here, Nat.ne_of_lt inside]

/-- The operation at the end is the only one that changes when it grows. -/
theorem getElem?_replaceLast (here : decoding.operations[index]? = some operation)
    (other : index + 1 ≠ decoding.operations.size) (next : TapeOperation) :
    (decoding.operations.pop.push next)[index]? = some operation := by
  obtain ⟨inside, value⟩ := Array.getElem?_eq_some_iff.mp here
  have early : index < decoding.operations.size - 1 := by omega
  simp [Array.getElem?_push, Nat.ne_of_lt early, early, value]

/-- The operation at the end grows only if it is folded. -/
theorem not_last (here : decoding.operations[index]? = some operation)
    {last : TapeOperation} (ends : decoding.operations.back? = some last)
    (differs : operation ≠ last) : index + 1 ≠ decoding.operations.size := by
  intro isLast
  rw [Array.back?_eq_getElem?, ← isLast, Nat.add_sub_cancel, here] at ends
  exact differs (Option.some.inj ends)

theorem Settled.push (settled : decoding.Settled index operation) (next : TapeOperation) :
    (decoding.push next).Settled index operation := by
  have inside := settled.index_lt
  refine ⟨getElem?_push settled.here next, settled.closed, fun last => ?_⟩
  simp [Decoding.push] at last
  omega

theorem Settled.replaceLast (settled : decoding.Settled index operation)
    {last : TapeOperation} (ends : decoding.operations.back? = some last)
    (folded : last.isFolded = true) (next : TapeOperation) :
    Settled { decoding with operations := decoding.operations.pop.push next } index operation := by
  have inside := settled.index_lt
  have before : index + 1 ≠ decoding.operations.size := by
    intro isLast
    refine not_last settled.here ends (fun same => ?_) isLast
    simp [← same, settled.complete isLast] at folded
  refine ⟨getElem?_replaceLast settled.here before next, settled.closed, fun last => ?_⟩
  simp at last
  omega

theorem Settled.take (settled : decoding.Settled index operation)
    (taken : decoding.take breakpoint offset c = .ok after) : after.Settled index operation := by
  cases change_of_take taken with
  | push next => exact settled.push next
  | grow ends folded next => exact settled.replaceLast ends folded next
  | same => exact settled
  | openLoop =>
    refine ⟨(settled.push _).here, fun entry member => ?_, (settled.push (.loopStart 0)).complete⟩
    rcases List.mem_cons.mp member with rfl | outer
    · exact Nat.ne_of_gt settled.index_lt
    · exact settled.closed entry outer
  | closeLoop inside =>
    rename_i start place opened
    have closed := settled.closed
    rw [inside] at closed
    have other : start ≠ index := closed _ List.mem_cons_self
    refine ⟨?_, fun entry member => closed entry (List.mem_cons_of_mem _ member), fun last => ?_⟩
    · simp [Array.getElem?_push, other, settled.here, Nat.ne_of_lt settled.index_lt]
    · have before := settled.index_lt
      simp at last
      omega

theorem Settled.takeAll {code : List Char} (settled : decoding.Settled index operation)
    (taken : decoding.takeAll breakpoint offset code = .ok after) :
    after.operations[index]? = some operation := by
  induction code generalizing decoding offset with
  | nil => exact Except.ok.inj taken ▸ settled.here
  | cons c code ih =>
    simp only [Decoding.takeAll] at taken
    split at taken
    next => cases taken
    next next here => exact ih (settled.take here) taken

end

theorem Proper.take (proper : decoding.Proper)
    (taken : decoding.take breakpoint offset c = .ok after) : after.Proper := by
  have push (next : TapeOperation) : (decoding.push next).Proper :=
    ⟨fun entry member => getElem?_push (proper.starts entry member) next, proper.ordered⟩
  cases change_of_take taken with
  | push next => exact push next
  | same => exact proper
  | grow ends folded next =>
    refine ⟨fun entry member => ?_, proper.ordered⟩
    have here := proper.starts entry member
    -- The operation that grows is a move or an addition, so it is not the start of an open loop.
    refine getElem?_replaceLast here (not_last here ends ?_) next
    rintro rfl
    cases folded
  | openLoop =>
    refine ⟨fun entry member => ?_, .cons (fun entry outer => proper.inside outer) proper.ordered⟩
    rcases List.mem_cons.mp member with rfl | outer
    · simp [Decoding.openLoop]
    · exact (push (.loopStart 0)).starts entry outer
  | closeLoop inside =>
    rename_i start place opened
    obtain ⟨starts, ordered⟩ := proper
    rw [inside] at starts ordered
    obtain ⟨inner, ordered⟩ := List.pairwise_cons.mp ordered
    refine ⟨fun entry member => ?_, ordered⟩
    have here := starts entry (List.mem_cons_of_mem _ member)
    -- The loops around the closed one start before it.
    have other : start ≠ entry.1 := Nat.ne_of_gt (inner entry member)
    have before : entry.1 < decoding.operations.size := (Array.getElem?_eq_some_iff.mp here).1
    simp [Array.getElem?_push, other, here, Nat.ne_of_lt before]

theorem Proper.takeAll {code : List Char} (proper : decoding.Proper)
    (taken : decoding.takeAll breakpoint offset code = .ok after) : after.Proper := by
  induction code generalizing decoding offset with
  | nil => exact Except.ok.inj taken ▸ proper
  | cons c code ih =>
    simp only [Decoding.takeAll] at taken
    split at taken
    next => cases taken
    next next here => exact ih (proper.take here) taken

/-- A loop stays a loop, whether it is closed or not. -/
theorem loopStart_take {index : Nat}
    (here : ∃ finish, decoding.operations[index]? = some (.loopStart finish))
    (taken : decoding.take breakpoint offset c = .ok after) :
    ∃ finish, after.operations[index]? = some (.loopStart finish) := by
  obtain ⟨finish, here⟩ := here
  cases change_of_take taken with
  | push next => exact ⟨finish, getElem?_push here next⟩
  | openLoop => exact ⟨finish, getElem?_push here (.loopStart 0)⟩
  | same => exact ⟨finish, here⟩
  | grow ends folded next =>
    refine ⟨finish, getElem?_replaceLast here (not_last here ends ?_) next⟩
    rintro rfl
    cases folded
  | closeLoop inside =>
    rename_i start place opened
    obtain ⟨before, _⟩ := Array.getElem?_eq_some_iff.mp here
    by_cases same : start = index
    · exact ⟨decoding.operations.size,
        by simp [Array.getElem?_push, same, Nat.ne_of_lt before, before]⟩
    · exact ⟨finish, by simp [Array.getElem?_push, same, Nat.ne_of_lt before, here]⟩

theorem loopStart_takeAll {index : Nat} {code : List Char}
    (here : ∃ finish, decoding.operations[index]? = some (.loopStart finish))
    (taken : decoding.takeAll breakpoint offset code = .ok after) :
    ∃ finish, after.operations[index]? = some (.loopStart finish) := by
  induction code generalizing decoding offset with
  | nil => exact Except.ok.inj taken ▸ here
  | cons c code ih =>
    simp only [Decoding.takeAll] at taken
    split at taken
    next => cases taken
    next next there => exact ih (loopStart_take here there) taken

/-! ## Partners -/

theorem opened_of_other (taken : decoding.take breakpoint offset c = .ok after) (opens : c ≠ '[')
    (closes : c ≠ ']') : after.opened = decoding.opened := by
  obtain ⟨next, takenToo, stays⟩ :=
    @take_plain breakpoint offset decoding c (by simp [isPlain, opens, closes])
  obtain rfl := Except.ok.inj (taken.symm.trans takenToo)
  exact stays

/-- Code can be read to an end where no loop is open exactly if its brackets match. -/
theorem takeAll_closes_iff {code : List Char} :
    (∃ operations, decoding.takeAll breakpoint offset code = .ok ⟨operations, []⟩) ↔
      Balanced.scan decoding.opened.length code = true := by
  induction code generalizing decoding offset with
  | nil =>
    obtain ⟨operations, opened⟩ := decoding
    cases opened <;> simp [takeAll, Balanced.scan]
  | cons c code ih =>
    by_cases opens : c = '['
    · subst opens
      exact ih
    by_cases closes : c = ']'
    · subst closes
      obtain ⟨operations, opened⟩ := decoding
      cases opened with
      | nil => simp [takeAll, take, closeLoop, Balanced.scan]
      | cons innermost opened => exact ih
    have plain : isPlain c = true := by simp [isPlain, opens, closes]
    obtain ⟨next, taken, stays⟩ := @take_plain breakpoint offset decoding c plain
    rw [Balanced.scan_plain plain, ← stays, ← @ih (offset + 1) next, takeAll, taken]

/-- The partner of a closing bracket ahead is where the loop open here is closed. -/
theorem pass_forth {depth : Nat} {behind ahead passed rest : List Char}
    (passes : CharacterMachine.pass '[' ']' depth behind ahead = some (passed, rest))
    (taken : decoding.takeAll breakpoint offset ahead = .ok after) :
    ∃ inner between, ahead = inner ++ ']' :: rest ∧ passed = ']' :: (inner.reverse ++ behind) ∧
      decoding.takeAll breakpoint offset inner = .ok between ∧
      between.opened = decoding.opened.drop depth := by
  induction ahead generalizing decoding depth offset behind with
  | nil => cases passes
  | cons c ahead ih =>
    simp only [Decoding.takeAll] at taken
    split at taken
    next => cases taken
    next next here =>
      -- What is left of the way to the partner, seen from behind this character.
      have onwards {deeper : Nat}
          (passes : CharacterMachine.pass '[' ']' deeper (c :: behind) ahead = some (passed, rest))
          (opened : next.opened.drop deeper = decoding.opened.drop depth) :
          ∃ inner between, c :: ahead = inner ++ ']' :: rest ∧
            passed = ']' :: (inner.reverse ++ behind) ∧
            decoding.takeAll breakpoint offset inner = .ok between ∧
            between.opened = decoding.opened.drop depth := by
        obtain ⟨inner, between, rfl, rfl, inside, stays⟩ := ih passes taken
        refine ⟨c :: inner, between, rfl, by simp, ?_, stays.trans opened⟩
        simp [Decoding.takeAll, here, inside]
      simp only [CharacterMachine.pass] at passes
      split at passes
      next closes =>
        subst closes
        cases depth with
        | zero =>
          obtain ⟨rfl, rfl⟩ : ']' :: behind = passed ∧ ahead = rest := by simpa using passes
          exact ⟨[], decoding, rfl, rfl, rfl, rfl⟩
        | succ depth =>
          refine onwards passes ?_
          obtain ⟨operations, opened⟩ := decoding
          cases opened with
          | nil => cases here
          | cons innermost opened => exact Except.ok.inj here ▸ rfl
      next other =>
        split at passes
        next opens =>
          subst opens
          refine onwards passes ?_
          exact Except.ok.inj here ▸ rfl
        next plain => exact onwards passes (by rw [opened_of_other here plain other])

/-- The partner of an opening bracket behind is where the loop that is open here was opened. -/
theorem pass_back {depth : Nat} {behind : List Char} {place : Nat} {number : Nat}
    (taken : takeAll breakpoint ⟨#[], []⟩ 0 behind.reverse = .ok decoding)
    (opened : decoding.opened[depth]? = some (number, place)) (ahead : List Char) :
    ∃ inner outer between, behind = inner ++ '[' :: outer ∧
      CharacterMachine.pass ']' '[' depth ahead behind =
        some ('[' :: (inner.reverse ++ ahead), outer) ∧
      takeAll breakpoint ⟨#[], []⟩ 0 outer.reverse = .ok between ∧
      between.operations.size = number := by
  induction behind generalizing decoding depth ahead with
  | nil =>
    obtain rfl := Except.ok.inj taken
    cases opened
  | cons c behind ih =>
    rw [List.reverse_cons] at taken
    obtain ⟨before, read, last⟩ := takeAll_split taken
    rw [takeAll_single] at last
    -- What is left of the way to the partner, seen from before this character.
    have onwards {deeper : Nat} (opened : before.opened[deeper]? = some (number, place)) :
        ∃ inner outer between, c :: behind = inner ++ '[' :: outer ∧
          CharacterMachine.pass ']' '[' deeper (c :: ahead) behind =
            some ('[' :: (inner.reverse ++ ahead), outer) ∧
          takeAll breakpoint ⟨#[], []⟩ 0 outer.reverse = .ok between ∧
          between.operations.size = number := by
      obtain ⟨inner, outer, between, rfl, passes, outside, size⟩ := ih read opened (c :: ahead)
      exact ⟨c :: inner, outer, between, rfl, by simpa using passes, outside, size⟩
    by_cases opens : c = '['
    · subst opens
      obtain rfl := Except.ok.inj last
      cases depth with
      | zero =>
        obtain ⟨rfl, rfl⟩ : before.operations.size = number ∧ _ = place := by
          simpa [openLoop] using opened
        exact ⟨[], behind, before, rfl, by simp [CharacterMachine.pass], read, rfl⟩
      | succ depth =>
        simp only [CharacterMachine.pass, if_true]
        exact onwards opened
    · by_cases closes : c = ']'
      · subst closes
        obtain ⟨operations, loops⟩ := before
        cases loops with
        | nil => cases last
        | cons innermost loops =>
          obtain rfl := Except.ok.inj last
          simp only [CharacterMachine.pass, opens, if_false, if_true]
          exact onwards opened
      · simp only [CharacterMachine.pass, opens, closes, if_false]
        exact onwards (by rw [← opened_of_other last opens closes, opened])

end Decoding

end TapeOperation

end TapeCode
