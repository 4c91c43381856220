import TapeCode.Proofs.Folding.Decoding
import TapeCode.Proofs.Writing.Texts
import TapeCode.Tape.Machine

/-!
# Marks of breakpoints in the code

The mark of a breakpoint is written for each instruction `breakpoint`, and before every instruction if
that is wanted. In a comment it is replaced, but so are the commands, and what they are replaced by may
be the mark itself. A mark that nothing is replaced by is in no comment, and the machine then pauses for
the instructions alone.
-/
namespace TapeCode

namespace TapeOperation.Decoding

/-- The breakpoints among the operations read so far. -/
def breakpoints (decoding : Decoding) : Nat := decoding.operations.count .breakpoint

variable {mark c : Char} {offset : Nat} {decoding after : Decoding}

theorem breakpoints_push {operation : TapeOperation} (other : operation ≠ .breakpoint) :
    (decoding.push operation).breakpoints = decoding.breakpoints := by
  simp [breakpoints, push, other]

theorem breakpoints_grow {last next : TapeOperation} (ends : decoding.operations.back? = some last)
    (folded : last.isFolded = true) (other : next ≠ .breakpoint) :
    breakpoints { decoding with operations := decoding.operations.pop.push next } =
      decoding.breakpoints := by
  obtain ⟨operations, opened⟩ := decoding
  obtain ⟨before, rfl⟩ := Array.back?_eq_some_iff.mp ends
  have ordinary : last ≠ .breakpoint := by
    rintro rfl
    cases folded
  simp [breakpoints, ordinary, other]

theorem breakpoints_pushMove (distance : Int) :
    (decoding.pushMove distance).breakpoints = decoding.breakpoints := by
  unfold pushMove
  split
  next ends => exact breakpoints_grow ends rfl nofun
  next => exact breakpoints_push nofun

theorem breakpoints_pushAdd (amount : UInt8) :
    (decoding.pushAdd amount).breakpoints = decoding.breakpoints := by
  unfold pushAdd
  split
  next ends => exact breakpoints_grow ends rfl nofun
  next => exact breakpoints_push nofun

/-- A loop that is closed is a loop, so no breakpoint is overwritten. -/
theorem breakpoints_closeLoop (proper : decoding.Proper)
    (closed : decoding.closeLoop offset = .ok after) : after.breakpoints = decoding.breakpoints := by
  obtain ⟨operations, opened⟩ := decoding
  cases opened with
  | nil => cases closed
  | cons innermost opened =>
    obtain rfl := Except.ok.inj closed
    have start := proper.starts innermost List.mem_cons_self
    obtain ⟨inside, isLoop⟩ := Array.getElem?_eq_some_iff.mp start
    simp only [breakpoints, Array.count_push, Array.setIfInBounds, dif_pos inside, Array.count_set,
      isLoop]
    simp

/-- A mark makes a breakpoint, and no other character does. -/
theorem breakpoints_take (proper : decoding.Proper) (noCommand : isCommand mark = false)
    (taken : decoding.take (some mark) offset c = .ok after) :
    after.breakpoints = decoding.breakpoints + if c = mark then 1 else 0 := by
  by_cases command : isCommand c = true
  · have other : c ≠ mark := by
      rintro rfl
      rw [noCommand] at command
      cases command
    rw [if_neg other, Nat.add_zero]
    unfold take at taken
    split at taken
    case h_1 | h_2 => exact Except.ok.inj taken ▸ breakpoints_pushMove _
    case h_3 | h_4 => exact Except.ok.inj taken ▸ breakpoints_pushAdd _
    case h_5 | h_6 => exact Except.ok.inj taken ▸ breakpoints_push nofun
    case h_7 => exact Except.ok.inj taken ▸ breakpoints_push nofun
    case h_8 => exact breakpoints_closeLoop proper taken
    case h_9 => simp_all [isCommand]
  · -- All that is no command is treated alike, and only compared with the mark.
    have ignored : decoding.take (some mark) offset c =
        .ok (if some mark = some c then decoding.push .breakpoint else decoding) := by
      unfold take
      split <;> first | rfl | exact absurd rfl command
    obtain rfl := Except.ok.inj (ignored.symm.trans taken)
    by_cases same : c = mark
    · simp [same, breakpoints, push]
    · simp [same, Ne.symm same]

theorem breakpoints_takeAll {code : List Char} (proper : decoding.Proper)
    (noCommand : isCommand mark = false)
    (taken : decoding.takeAll (some mark) offset code = .ok after) :
    after.breakpoints = decoding.breakpoints + code.count mark := by
  induction code generalizing decoding offset with
  | nil =>
    obtain rfl := Except.ok.inj taken
    simp
  | cons c code ih =>
    simp only [takeAll] at taken
    split at taken
    next => cases taken
    next next here =>
      rw [ih (proper.take here) taken, breakpoints_take proper noCommand here, List.count_cons,
        Nat.add_assoc, Nat.add_comm (if c = mark then 1 else 0)]
      simp

end TapeOperation.Decoding

namespace Writer

/-- Characters that stand for others in a comment, or end it. -/
def isStandIn (c : Char) : Bool := "\x7b\x7d_():;\n".toList.contains c

/-- The comment on an instruction, and the line end behind the instruction. -/
def comment (style : CodeStyle) (instruction : Instruction) : List Char :=
  if style.debugInfo then
    instruction.text.toList.map (inert style.breakpoint) ++ ['\n', '\n']
  else []

/-- What is comment in the code of a stream. -/
def comments (style : CodeStyle) (stream : Listing) : List Char :=
  postamble style ++ stream.flatMap (comment style)

variable {style : CodeStyle}

theorem inert_ne_mark {mark : Char} (other : isStandIn mark = false) (c : Char) :
    inert mark c ≠ mark := by
  intro same
  unfold inert at same
  split at same
  -- The last case replaces the mark itself, and leaves other characters as they are.
  case h_9 =>
    split at same
    next => exact absurd other (by rw [← same]; decide)
    next differs => exact differs same
  all_goals exact absurd other (by rw [← same]; decide)

/-- Comments hold no mark that nothing is replaced by. -/
theorem count_comments (other : isStandIn style.breakpoint = false) (stream : Listing) :
    (comments style stream).count style.breakpoint = 0 := by
  have lineEnd : style.breakpoint ≠ '\n' := fun same => absurd other (by rw [same]; decide)
  have shown (text : List Char) : style.breakpoint ∉ text.map (inert style.breakpoint) := by
    intro member
    obtain ⟨c, -, same⟩ := List.mem_map.mp member
    exact inert_ne_mark other c same
  refine List.count_eq_zero.mpr fun member => ?_
  rcases List.mem_append.mp member with first | within
  · unfold postamble at first
    split at first <;> simp [lineEnd] at first
  · obtain ⟨instruction, -, inside⟩ := List.mem_flatMap.mp within
    unfold comment at inside
    split at inside
    next => simp [lineEnd, shown] at inside
    next => cases inside

theorem count_code {closes opens : Nat} {text : List Char} (code : IsCode closes opens text)
    {mark : Char} (noCommand : isCommand mark = false) : text.count mark = 0 := by
  refine List.count_eq_zero.mpr fun member => ?_
  have command := List.all_eq_true.mp code.commands mark member
  rw [noCommand] at command
  cases command

/-- An instruction writes a mark if it is a breakpoint. -/
theorem count_body (noCommand : isCommand style.breakpoint = false)
    {opened after : List OpenMachine} {instruction : Instruction} {text : List Char}
    (done : perform opened (bodyEffects style opened instruction) = ⟨text, after, none⟩) :
    text.count style.breakpoint = if instruction = .breakpoint then 1 else 0 := by
  by_cases pauses : instruction = .breakpoint
  · subst pauses
    rw [bodyEffects, perform_write] at done
    obtain ⟨rfl, -, -⟩ := Emission.mk.inj done
    simp
  · rw [if_neg pauses, count_code (bodyEffects_isCode pauses done) noCommand]

/-- Around an instruction stand its mark, if there is one, and its comment. -/
theorem count_around (style : CodeStyle) (instruction : Instruction) :
    (preamble style instruction).count style.breakpoint +
        (postamble style).count style.breakpoint =
      (if style.debugBreakpoint then 1 else 0) +
        (comment style instruction).count style.breakpoint := by
  unfold preamble postamble comment
  cases style.debugBreakpoint <;> cases style.debugInfo <;>
    simp [List.count_append, List.count_cons] <;> omega

theorem count_streamCode (noCommand : isCommand style.breakpoint = false)
    {opened : List OpenMachine} {stream : Listing} {code : List Char}
    (written : streamCode style opened stream = .ok code) :
    code.count style.breakpoint = stream.count .breakpoint +
      (if style.debugBreakpoint then stream.length else 0) +
      (stream.flatMap (comment style)).count style.breakpoint := by
  induction stream generalizing opened code with
  | nil =>
    unfold streamCode at written
    split at written
    next =>
      obtain rfl := Except.ok.inj written
      simp
    next => cases written
  | cons instruction rest ih =>
    obtain ⟨text, between, more, done, onwards, rfl⟩ := streamCode_cons_eq_ok written
    have pieces : (preamble style instruction ++ text ++ postamble style ++ more).count
        style.breakpoint = (preamble style instruction).count style.breakpoint +
          (postamble style).count style.breakpoint + text.count style.breakpoint +
          more.count style.breakpoint := by
      simp only [List.count_append]
      omega
    rw [pieces, count_around, count_body noCommand done, ih onwards]
    simp only [List.flatMap_cons, List.count_append, List.count_cons, List.length_cons, beq_iff_eq]
    split <;> omega

/-- The mark of breakpoints stands in the code once for every instruction `breakpoint`, once for every
instruction at all if that is wanted, and where comments hold it: there is none if there are no
comments, or if the mark is nothing that stands for another character in them. The machine makes a
breakpoint of each one. -/
theorem generate_breakpoints {stream : Listing} {code : List Char}
    (noCommand : isCommand style.breakpoint = false) (written : generate style stream = .ok code) :
    code.count style.breakpoint = stream.count .breakpoint +
        (if style.debugBreakpoint then stream.length else 0) +
        (comments style stream).count style.breakpoint ∧
      (style.debugInfo = false ∨ isStandIn style.breakpoint = false →
        (comments style stream).count style.breakpoint = 0) ∧
      ∀ operations, TapeOperation.decode (some style.breakpoint) code = .ok operations →
        operations.count .breakpoint = code.count style.breakpoint := by
  refine ⟨?_, ?_, ?_⟩
  · obtain ⟨text, streamed, rfl⟩ := generate_eq_ok written
    have begins : Template.start.count style.breakpoint = 0 :=
      count_code (by decide : IsCode 0 0 Template.start) noCommand
    rw [startText, comments]
    simp only [List.count_append, begins, count_streamCode noCommand streamed]
    omega
  · rintro (silent | other)
    · have nothing : stream.flatMap (comment style) = [] :=
        List.flatMap_eq_nil_iff.mpr fun instruction _ => by simp [comment, silent]
      simp [comments, postamble, silent, nothing]
    · exact count_comments other stream
  · intro operations decoded
    obtain ⟨decoding, taken, rfl⟩ : ∃ decoding, TapeOperation.Decoding.takeAll
        (some style.breakpoint) ⟨#[], []⟩ 0 code = .ok decoding ∧ decoding.operations = operations := by
      unfold TapeOperation.decode at decoded
      split at decoded
      next => cases decoded
      next taken => exact ⟨_, taken, Except.ok.inj decoded⟩
      next => cases decoded
    have counts := TapeOperation.Decoding.breakpoints_takeAll
      TapeOperation.Decoding.proper_start noCommand taken
    simpa [TapeOperation.Decoding.breakpoints] using counts

/-- A breakpoint among other instructions, one of which has two arguments. -/
def pausingListing : Listing := [.pushInt 1, .breakpoint, .nop [3, 2]]

theorem generate_breakpoints_pausingListing : isCommand ';' = false ∧ ∃ code,
    generate ⟨true, true, ';'⟩ pausingListing = .ok code ∧
      pausingListing.count .breakpoint = 1 ∧ pausingListing.length = 3 ∧
      (comments ⟨true, true, ';'⟩ pausingListing).count ';' = 1 ∧ code.count ';' = 5 ∧
      ∃ operations, TapeOperation.decode (some ';') code = .ok operations ∧
        operations.count .breakpoint = 5 := by
  have written : generate ⟨true, true, ';'⟩ pausingListing =
      .ok "<->\n;pushInt(1)\n>>+\n;breakpoint()\n;\n;nop(3;2)\n\n".toList := by decide +kernel
  have commented : (comments ⟨true, true, ';'⟩ pausingListing).count ';' = 1 := by decide +kernel
  obtain ⟨marks, -, pauses⟩ := @generate_breakpoints ⟨true, true, ';'⟩ _ _ rfl written
  obtain ⟨operations, decoded⟩ : ∃ operations, TapeOperation.decode (some ';')
      "<->\n;pushInt(1)\n>>+\n;breakpoint()\n;\n;nop(3;2)\n\n".toList = .ok operations :=
    ⟨_, rfl⟩
  have five : pausingListing.count .breakpoint + pausingListing.length + 1 = 5 := rfl
  rw [commented] at marks
  exact ⟨rfl, _, written, rfl, rfl, commented, marks.trans five, operations, decoded,
    (pauses operations decoded).trans (marks.trans five)⟩

/-- A mark that a bracket is replaced by stands in the comment on every instruction: here the machine
pauses, though there is no breakpoint. -/
theorem generate_breakpoints_bracket :
    isCommand '(' = false ∧ ([.nop []] : Listing).count .breakpoint = 0 ∧
      ∃ code loaded machine after, generate ⟨true, false, '('⟩ [.nop []] = .ok code ∧
        code.count '(' = 1 ∧
        Machine.load { tapeLength := 1, breakpoint := some '(' } code [] = .ok (loaded, machine) ∧
        machine.runFor loaded true 4 = (after, .breakpoint) := by
  have written : generate ⟨true, false, '('⟩ [.nop []] = .ok "<->\nnop()\n\n".toList := by
    decide +kernel
  exact ⟨rfl, rfl, _, _, _, _, written, by decide, rfl, rfl⟩

end Writer

end TapeCode
