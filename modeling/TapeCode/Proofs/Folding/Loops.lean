import TapeCode.Proofs.Folding.Brackets
import TapeCode.Proofs.Folding.Decoding

/-!
# What brackets become

Folding makes the operations fewer than the characters, so the places that brackets have among the
operations are not the ones they have in the text. Both are kept on one stack while the code is read: the
places in the text are those of the brackets still without partner, and the places among the operations are
outside all loops that are closed already. The first decides how reading fails, the second that the loops
are nested.
-/
namespace TapeCode

namespace TapeOperation

/-- The bracket that an operation stands for. -/
def bracket? : TapeOperation → Option Char
  | .loopStart _ => some '['
  | .loopEnd _ => some ']'
  | _ => none

/-- The loops among operations: where one starts, its end is known, and the other way round, and of two
loops the one that starts later is inside the other or behind it. -/
structure Paired (operations : Array TapeOperation) : Prop where
  starts : ∀ {start finish : Nat}, operations[start]? = some (.loopStart finish) →
    start < finish ∧ operations[finish]? = some (.loopEnd start)
  ends : ∀ {start finish : Nat}, operations[finish]? = some (.loopEnd start) →
    start < finish ∧ operations[start]? = some (.loopStart finish)
  nested : ∀ {start finish later last : Nat}, operations[start]? = some (.loopStart finish) →
    operations[later]? = some (.loopStart last) → start < later → last < finish ∨ finish < later

namespace Decoding

variable {breakpoint : Option Char} {offset : Nat} {decoding after : Decoding} {c : Char}

/-! ## Characters that are no brackets -/

/-- The same loops are at the same places, as many of them open. -/
structure SameLoops (decoding after : Decoding) : Prop where
  opened : after.opened = decoding.opened
  here : ∀ (index : Nat) (operation : TapeOperation), operation.bracket? ≠ none →
    (after.operations[index]? = some operation ↔ decoding.operations[index]? = some operation)
  order : after.operations.toList.filterMap bracket? = decoding.operations.toList.filterMap bracket?

theorem getElem?_push_other {operations : Array TapeOperation} {next operation : TapeOperation}
    (other : next.bracket? = none) (bracket : operation.bracket? ≠ none) (index : Nat) :
    (operations.push next)[index]? = some operation ↔ operations[index]? = some operation := by
  have differs : next ≠ operation := fun same => bracket (same ▸ other)
  rw [Array.getElem?_push]
  split
  next isLast => simp [isLast, differs]
  next => rfl

theorem SameLoops.push {next : TapeOperation} (other : next.bracket? = none) :
    SameLoops decoding (decoding.push next) :=
  ⟨rfl, fun index _ bracket => getElem?_push_other other bracket index, by simp [Decoding.push, other]⟩

theorem SameLoops.replaceLast {last next : TapeOperation}
    (ends : decoding.operations.back? = some last) (before : last.bracket? = none)
    (other : next.bracket? = none) :
    SameLoops decoding { decoding with operations := decoding.operations.pop.push next } := by
  obtain ⟨operations, opened⟩ := decoding
  obtain ⟨earlier, rfl⟩ := Array.back?_eq_some_iff.mp ends
  refine ⟨rfl, fun index operation bracket => ?_, by simp [before, other]⟩
  rw [getElem?_push_other before bracket, Array.pop_push, getElem?_push_other other bracket]

/-- A character that is no bracket leaves the loops where they are. -/
theorem sameLoops (plain : isPlain c = true) (taken : decoding.take breakpoint offset c = .ok after) :
    SameLoops decoding after := by
  have move (distance : Int) : SameLoops decoding (decoding.pushMove distance) := by
    unfold pushMove
    split
    next ends => exact .replaceLast ends rfl rfl
    next => exact .push rfl
  have add (amount : UInt8) : SameLoops decoding (decoding.pushAdd amount) := by
    unfold pushAdd
    split
    next ends => exact .replaceLast ends rfl rfl
    next => exact .push rfl
  simp only [isPlain, Bool.and_eq_true, decide_eq_true_eq] at plain
  unfold Decoding.take at taken
  split at taken
  case h_1 | h_2 => exact Except.ok.inj taken ▸ move _
  case h_3 | h_4 => exact Except.ok.inj taken ▸ add _
  case h_5 | h_6 => exact Except.ok.inj taken ▸ .push rfl
  case h_7 => exact absurd rfl plain.1
  case h_8 => exact absurd rfl plain.2
  case h_9 =>
    obtain rfl := Except.ok.inj taken
    split
    · exact .push rfl
    · exact ⟨rfl, fun _ _ _ => Iff.rfl, rfl⟩

/-! ## Loops closed and open -/

/-- The loops among the operations read so far: those that are closed are paired and nested, and each one
that is open begins outside all of them. -/
structure Looped (decoding : Decoding) : Prop where
  starts : ∀ {start finish : Nat}, decoding.operations[start]? = some (.loopStart finish) →
    start ∈ decoding.opened.map (·.1) ∨
      start < finish ∧ decoding.operations[finish]? = some (.loopEnd start)
  ends : ∀ {start finish : Nat}, decoding.operations[finish]? = some (.loopEnd start) →
    start < finish ∧ decoding.operations[start]? = some (.loopStart finish)
  outside : ∀ {start finish place : Nat}, decoding.operations[finish]? = some (.loopEnd start) →
    place ∈ decoding.opened.map (·.1) → place < start ∨ finish < place
  nested : ∀ {start finish later last : Nat}, decoding.operations[finish]? = some (.loopEnd start) →
    decoding.operations[last]? = some (.loopEnd later) → start < later → last < finish ∨ finish < later

theorem looped_start : Looped ⟨#[], []⟩ := ⟨by simp, by simp, by simp, by simp⟩

theorem Looped.of_sameLoops (looped : decoding.Looped) (same : SameLoops decoding after) :
    after.Looped := by
  have start (index finish : Nat) := same.here index (.loopStart finish) nofun
  have finish (index start : Nat) := same.here index (.loopEnd start) nofun
  constructor
  · intro first last here
    rw [same.opened, finish]
    exact looped.starts ((start _ _).mp here)
  · intro first last here
    rw [start]
    exact looped.ends ((finish _ _).mp here)
  · intro first last place here member
    exact looped.outside ((finish _ _).mp here) (same.opened ▸ member)
  · intro first last first' last' here there
    exact looped.nested ((finish _ _).mp here) ((finish _ _).mp there)

theorem Looped.openLoop (looped : decoding.Looped) (offset : Nat) : (decoding.openLoop offset).Looped := by
  -- The new loop stands behind everything that is there.
  have old {start finish : Nat} :
      (decoding.openLoop offset).operations[finish]? = some (.loopEnd start) ↔
        decoding.operations[finish]? = some (.loopEnd start) := by
    simp only [Decoding.openLoop, Array.getElem?_push]
    split
    next isLast => simp [isLast]
    next => rfl
  constructor
  · intro start finish here
    rw [old]
    by_cases isNew : start = decoding.operations.size
    · exact .inl (by simp [Decoding.openLoop, isNew])
    · simp only [Decoding.openLoop, Array.getElem?_push, isNew, if_false] at here
      rcases looped.starts here with opened | closed
      · exact .inl (List.mem_cons_of_mem _ opened)
      · exact .inr closed
  · intro start finish here
    obtain ⟨order, there⟩ := looped.ends (old.mp here)
    exact ⟨order, getElem?_push there (.loopStart 0)⟩
  · intro start finish place here member
    have here := old.mp here
    rcases List.mem_cons.mp member with rfl | member
    · exact .inr (Array.getElem?_eq_some_iff.mp here).1
    · exact looped.outside here member
  · intro start finish later last here there
    exact looped.nested (old.mp here) (old.mp there)

section

variable {operations : Array TapeOperation} {start first last : Nat}

/-- Two operations are new when a loop is closed: it knows its end, and its end is the last operation. -/
theorem getElem?_closed (inside : start < operations.size) (index : Nat) :
    ((operations.setIfInBounds start (.loopStart operations.size)).push (.loopEnd start))[index]? =
      if index = operations.size then some (.loopEnd start)
      else if index = start then some (.loopStart operations.size) else operations[index]? := by
  simp only [Array.getElem?_push, Array.size_setIfInBounds, Array.getElem?_setIfInBounds, inside,
    if_true, eq_comm]

theorem loopEnd_closed (unclosed : operations[start]? = some (.loopStart 0)) :
    ((operations.setIfInBounds start (.loopStart operations.size)).push (.loopEnd start))[last]? =
      some (.loopEnd first) ↔
        last = operations.size ∧ first = start ∨ operations[last]? = some (.loopEnd first) := by
  obtain ⟨inside, -⟩ := Array.getElem?_eq_some_iff.mp unclosed
  rw [getElem?_closed inside]
  split
  next isLast => simp [isLast, eq_comm]
  next isLast =>
    split
    next isStart => simp [isStart, unclosed, Nat.ne_of_lt inside]
    next => simp [isLast]

theorem loopStart_closed (inside : start < operations.size) :
    ((operations.setIfInBounds start (.loopStart operations.size)).push (.loopEnd start))[first]? =
      some (.loopStart last) ↔
        first = start ∧ last = operations.size ∨
          first ≠ start ∧ operations[first]? = some (.loopStart last) := by
  rw [getElem?_closed inside]
  split
  next isLast => simp [isLast, Nat.ne_of_gt inside]
  next =>
    split
    next isStart => simp [isStart, eq_comm]
    next isStart => simp [isStart]

end

theorem Looped.closeLoop {operations : Array TapeOperation} {start place : Nat} {opened : List (Nat × Nat)}
    (looped : Looped ⟨operations, (start, place) :: opened⟩)
    (proper : Proper ⟨operations, (start, place) :: opened⟩) :
    Looped ⟨(operations.setIfInBounds start (.loopStart operations.size)).push (.loopEnd start),
      opened⟩ := by
  have inside : start < operations.size := proper.inside List.mem_cons_self
  have finishes {first last : Nat} :=
    @loopEnd_closed operations start first last (proper.starts (start, place) List.mem_cons_self)
  have begins {first last : Nat} := @loopStart_closed operations start first last inside
  -- The loop that is closed lies outside those that are closed already, so no place of theirs is its start.
  have before {first last : Nat} (here : operations[last]? = some (.loopEnd first)) :
      start < first ∨ last < start :=
    looped.outside here List.mem_cons_self
  constructor
  · -- A loop that is still open has not been the one closed, and of the others the ends stay.
    intro first last here
    rcases begins.mp here with ⟨rfl, rfl⟩ | ⟨other, here⟩
    · exact .inr ⟨inside, finishes.mpr (.inl ⟨rfl, rfl⟩)⟩
    · rcases looped.starts here with member | ⟨order, there⟩
      · exact .inl ((List.mem_cons.mp member).resolve_left other)
      · exact .inr ⟨order, finishes.mpr (.inr there)⟩
  · intro first last here
    rcases finishes.mp here with ⟨rfl, rfl⟩ | here
    · exact ⟨inside, begins.mpr (.inl ⟨rfl, rfl⟩)⟩
    · obtain ⟨order, there⟩ := looped.ends here
      have other : first ≠ start := by have := before here; omega
      exact ⟨order, begins.mpr (.inr ⟨other, there⟩)⟩
  · -- The loops that are still open begin before the one closed.
    intro first last outer here member
    rcases finishes.mp here with ⟨rfl, rfl⟩ | here
    · obtain ⟨entry, isOpen, rfl⟩ := List.mem_map.mp member
      exact .inl ((List.pairwise_cons.mp proper.ordered).1 entry isOpen)
    · exact looped.outside here (List.mem_cons_of_mem _ member)
  · -- Of an old loop and the new one, the old one lies behind the start of the new one or before it.
    intro first last later behind here there order
    rcases finishes.mp here with ⟨rfl, rfl⟩ | first <;>
      rcases finishes.mp there with ⟨rfl, rfl⟩ | second
    · omega
    · exact .inl (Array.getElem?_eq_some_iff.mp second).1
    · have := before first
      omega
    · exact looped.nested first second order

theorem Looped.take (looped : decoding.Looped) (proper : decoding.Proper)
    (taken : decoding.take breakpoint offset c = .ok after) : after.Looped := by
  by_cases opens : c = '['
  · subst opens
    exact Except.ok.inj taken ▸ looped.openLoop offset
  by_cases closes : c = ']'
  · subst closes
    obtain ⟨operations, opened⟩ := decoding
    cases opened with
    | nil => cases taken
    | cons innermost opened => exact Except.ok.inj taken ▸ looped.closeLoop proper
  exact looped.of_sameLoops (sameLoops (by simp [isPlain, opens, closes]) taken)

theorem Looped.takeAll {code : List Char} (looped : decoding.Looped) (proper : decoding.Proper)
    (taken : decoding.takeAll breakpoint offset code = .ok after) : after.Looped := by
  induction code generalizing decoding offset with
  | nil => exact Except.ok.inj taken ▸ looped
  | cons c code ih =>
    simp only [Decoding.takeAll] at taken
    split at taken
    next => cases taken
    next next here => exact ih (looped.take proper here) (proper.take here) taken

/-- With no loop open, all are paired. -/
theorem Looped.paired {operations : Array TapeOperation} (looped : Looped ⟨operations, []⟩) :
    Paired operations := by
  have starts {start finish : Nat} (here : operations[start]? = some (.loopStart finish)) :=
    (looped.starts here).resolve_left List.not_mem_nil
  refine ⟨starts, looped.ends, fun here there => ?_⟩
  exact looped.nested (starts here).2 (starts there).2

/-! ## The order of the brackets -/

theorem filterMap_set {operations : List TapeOperation} {index : Nat} {before next : TapeOperation}
    (here : operations[index]? = some before) (same : next.bracket? = before.bracket?) :
    (operations.set index next).filterMap bracket? = operations.filterMap bracket? := by
  induction operations generalizing index with
  | nil => cases here
  | cons operation operations ih =>
    cases index with
    | zero =>
      obtain rfl := Option.some.inj here
      simp only [List.set_cons_zero, List.filterMap_cons, same]
    | succ index => simp only [List.set_cons_succ, List.filterMap_cons, ih here]

theorem brackets_take (proper : decoding.Proper)
    (taken : decoding.take breakpoint offset c = .ok after) :
    after.operations.toList.filterMap bracket? =
      decoding.operations.toList.filterMap bracket? ++ [c].filter (!isPlain ·) := by
  by_cases opens : c = '['
  · subst opens
    obtain rfl := Except.ok.inj taken
    simp [Decoding.openLoop, bracket?, isPlain]
  by_cases closes : c = ']'
  · subst closes
    obtain ⟨operations, opened⟩ := decoding
    cases opened with
    | nil => cases taken
    | cons innermost opened =>
      obtain rfl := Except.ok.inj taken
      have unclosed := proper.starts innermost List.mem_cons_self
      rw [← Array.getElem?_toList] at unclosed
      have kept := @filterMap_set _ _ _ (.loopStart operations.size) unclosed rfl
      rw [Array.toList_push, Array.toList_setIfInBounds, List.filterMap_append, kept]
      rfl
  have plain : isPlain c = true := by simp [isPlain, opens, closes]
  simp [(sameLoops plain taken).order, plain]

theorem brackets_takeAll {code : List Char} (proper : decoding.Proper)
    (taken : decoding.takeAll breakpoint offset code = .ok after) :
    after.operations.toList.filterMap bracket? =
      decoding.operations.toList.filterMap bracket? ++ code.filter (!isPlain ·) := by
  induction code generalizing decoding offset with
  | nil => simp [Except.ok.inj taken]
  | cons c code ih =>
    simp only [Decoding.takeAll] at taken
    split at taken
    next => cases taken
    next next here =>
      rw [ih (proper.take here) taken, brackets_take proper here, List.append_assoc,
        ← List.filter_append, List.singleton_append]

/-! ## Places in the text -/

/-- The places in the text on the stack are those of the brackets still without partner. -/
theorem take_pending {before : List Char} (pending : Pending before (decoding.opened.map (·.2))) :
    (∃ after, decoding.take breakpoint before.length c = .ok after ∧
        Pending (before ++ [c]) (after.opened.map (·.2))) ∨ c = ']' ∧ decoding.opened = [] := by
  by_cases opens : c = '['
  · subst opens
    exact .inl ⟨_, rfl, pending.opens⟩
  by_cases closes : c = ']'
  · subst closes
    obtain ⟨operations, opened⟩ := decoding
    cases opened with
    | nil => exact .inr ⟨rfl, rfl⟩
    | cons innermost opened => exact .inl ⟨_, rfl, pending.closes⟩
  have plain : isPlain c = true := by simp [isPlain, opens, closes]
  obtain ⟨after, taken, stays⟩ := @take_plain breakpoint before.length decoding c plain
  exact .inl ⟨after, taken, stays ▸ pending.append (.plain plain .nil)⟩

/-- Reading stops only at a bracket that closes none of the open ones. -/
theorem takeAll_pending {before code : List Char} (pending : Pending before (decoding.opened.map (·.2))) :
    (∃ after, decoding.takeAll breakpoint before.length code = .ok after ∧
        Pending (before ++ code) (after.opened.map (·.2))) ∨
      ∃ passed rest, code = passed ++ ']' :: rest ∧ Balanced (before ++ passed) ∧
        decoding.takeAll breakpoint before.length code =
          .error (.unmatchedClose (before ++ passed).length) := by
  induction code generalizing before decoding with
  | nil => exact .inl ⟨decoding, rfl, by simpa using pending⟩
  | cons c code ih =>
    rcases @take_pending breakpoint decoding c before pending with
      ⟨next, taken, onwards⟩ | ⟨rfl, outside⟩
    · rcases ih onwards with ⟨after, takenAll, still⟩ | ⟨passed, rest, rfl, balanced, stops⟩
      · refine .inl ⟨after, ?_, by simpa using still⟩
        simpa [Decoding.takeAll, taken] using takenAll
      · refine .inr ⟨c :: passed, rest, rfl, by simpa using balanced, ?_⟩
        simpa [Decoding.takeAll, taken] using stops
    · obtain ⟨operations, opened⟩ := decoding
      obtain rfl : opened = [] := outside
      refine .inr ⟨[], code, rfl, ?_, by simp [Decoding.takeAll, Decoding.take, Decoding.closeLoop]⟩
      rw [List.append_nil]
      exact pending.balanced

end Decoding

variable {breakpoint : Option Char} {code : List Char}

/-- Tape code is read, or has a bracket that closes nothing, or has one that nothing closes. -/
theorem decode_cases (breakpoint : Option Char) (code : List Char) :
    (∃ operations, decode breakpoint code = .ok operations ∧ Pending code [] ∧ Paired operations ∧
        operations.toList.filterMap bracket? = code.filter (!isPlain ·)) ∨
      (∃ passed rest, code = passed ++ ']' :: rest ∧ Balanced passed ∧
        decode breakpoint code = .error (.unmatchedClose passed.length)) ∨
      ∃ place places, Pending code (place :: places) ∧
        decode breakpoint code = .error (.unmatchedOpen place) := by
  rcases @Decoding.takeAll_pending breakpoint ⟨#[], []⟩ [] code (.matched .nil) with
    ⟨⟨operations, opened⟩, taken, pending⟩ | ⟨passed, rest, split, balanced, stops⟩
  · rw [List.length_nil] at taken
    cases opened with
    | nil =>
      refine .inl ⟨operations, by simp only [decode, taken], pending, ?_, ?_⟩
      · exact (Decoding.looped_start.takeAll Decoding.proper_start taken).paired
      · exact Decoding.brackets_takeAll Decoding.proper_start taken
    | cons entry opened => exact .inr (.inr ⟨entry.2, _, pending, by simp only [decode, taken]⟩)
  · rw [List.length_nil] at stops
    exact .inr (.inl ⟨passed, rest, split, balanced, by simp only [decode, stops, List.nil_append]⟩)

theorem decode_ok_iff (breakpoint : Option Char) (code : List Char) :
    (∃ operations, decode breakpoint code = .ok operations) ↔ Balanced code := by
  rcases decode_cases breakpoint code with
    ⟨operations, decoded, pending, -⟩ | ⟨_, _, rfl, balanced, fails⟩ | ⟨_, _, pending, fails⟩
  · exact ⟨fun _ => pending.balanced, fun _ => ⟨operations, decoded⟩⟩
  · refine ⟨fun ⟨_, decoded⟩ => by simp [fails] at decoded, fun whole => ?_⟩
    exact absurd (isLeast_surpluses balanced).1 (not_mem_surpluses (whole.depthBehind_eq 0) _)
  · refine ⟨fun ⟨_, decoded⟩ => by simp [fails] at decoded, fun whole => ?_⟩
    cases pending.depthBehind_eq.symm.trans (whole.depthBehind_eq 0)

theorem paired_of_decode {operations : Array TapeOperation}
    (decoded : decode breakpoint code = .ok operations) :
    Paired operations ∧ operations.toList.filterMap bracket? = code.filter (!isPlain ·) := by
  rcases decode_cases breakpoint code with
    ⟨others, same, -, paired⟩ | ⟨_, _, _, _, fails⟩ | ⟨_, _, _, fails⟩
  · obtain rfl := Except.ok.inj (decoded.symm.trans same)
    exact paired
  · cases decoded.symm.trans fails
  · cases decoded.symm.trans fails

theorem decode_unmatchedClose_iff (breakpoint : Option Char) (code : List Char) (offset : Nat) :
    decode breakpoint code = .error (.unmatchedClose offset) ↔ IsLeast (surpluses code) offset := by
  rcases decode_cases breakpoint code with
    ⟨_, decoded, pending, -⟩ | ⟨passed, rest, rfl, balanced, fails⟩ | ⟨_, _, pending, fails⟩
  · refine ⟨fun fails => by simp [decoded] at fails, fun first => ?_⟩
    exact absurd first.1 (not_mem_surpluses pending.depthBehind_eq offset)
  · have first := @isLeast_surpluses passed rest balanced
    rw [fails]
    constructor
    · intro same
      cases same
      exact first
    · intro other
      rw [first.unique other]
  · refine ⟨fun other => by simp [fails] at other, fun first => ?_⟩
    exact absurd first.1 (not_mem_surpluses pending.depthBehind_eq offset)

theorem decode_unmatchedOpen_iff (breakpoint : Option Char) (code : List Char) (offset : Nat) :
    decode breakpoint code = .error (.unmatchedOpen offset) ↔
      surpluses code = ∅ ∧ IsGreatest (unmatched code) offset := by
  rcases decode_cases breakpoint code with
    ⟨_, decoded, pending, -⟩ | ⟨passed, rest, rfl, balanced, fails⟩ | ⟨place, _, pending, fails⟩
  · refine ⟨fun fails => by simp [decoded] at fails, fun last => ?_⟩
    exact absurd (pending.mem_iff.mpr last.2.1) List.not_mem_nil
  · refine ⟨fun other => by simp [fails] at other, fun last => ?_⟩
    exact absurd (isLeast_surpluses balanced).1 (last.1 ▸ Set.notMem_empty _)
  · rw [fails]
    constructor
    · intro same
      cases same
      exact ⟨Set.eq_empty_of_forall_notMem (not_mem_surpluses pending.depthBehind_eq),
        pending.isGreatest⟩
    · intro last
      rw [pending.isGreatest.unique last.2]

/-- Bracket matching is exact. Tape code is read exactly if its brackets are balanced. Its loops are then
paired and nested, and are those of the brackets in their order. Otherwise the bracket reported is the first
one that closes more than was opened, and if there is none, the last one that nothing closes. -/
theorem decode_matches (breakpoint : Option Char) (code : List Char) :
    ((∃ operations, decode breakpoint code = .ok operations) ↔ Balanced code) ∧
    (∀ operations, decode breakpoint code = .ok operations →
      Paired operations ∧ operations.toList.filterMap bracket? = code.filter (!isPlain ·)) ∧
    (∀ offset, decode breakpoint code = .error (.unmatchedClose offset) ↔
      IsLeast (surpluses code) offset) ∧
    ∀ offset, decode breakpoint code = .error (.unmatchedOpen offset) ↔
      surpluses code = ∅ ∧ IsGreatest (unmatched code) offset :=
  ⟨decode_ok_iff breakpoint code, fun _ decoded => paired_of_decode decoded,
    decode_unmatchedClose_iff breakpoint code, decode_unmatchedOpen_iff breakpoint code⟩

/-- The increments are folded, so the loop in the text from 2 to 5 is the one from 1 to 3 here. -/
theorem decode_matches_addingLoop :
    Paired #[.add 2, .loopStart 3, .move 2, .loopEnd 1] ∧
      IsGreatest (unmatched "[+[".toList) 2 ∧ IsLeast (surpluses "[]+]]".toList) 3 := by
  have decoded : decode none "++[>>]".toList = .ok #[.add 2, .loopStart 3, .move 2, .loopEnd 1] := by
    decide
  have opens : decode none "[+[".toList = .error (.unmatchedOpen 2) := by decide
  have closes : decode none "[]+]]".toList = .error (.unmatchedClose 3) := by decide
  exact ⟨((decode_matches none _).2.1 _ decoded).1, ((decode_matches none _).2.2.2 2).mp opens |>.2,
    ((decode_matches none _).2.2.1 3).mp closes⟩

end TapeOperation

end TapeCode
