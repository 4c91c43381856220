import TapeCode.Emit.Writer

/-!
# What the writer writes

`Emits` says which text a stream of instructions becomes and which machines are open behind it, when
no instruction fails. What stands around the text of an instruction, a breakpoint or a comment, holds
no command of the tape.
-/
namespace TapeCode

/-- The characters that mean something on a tape. -/
def isCommand (c : Char) : Bool := ['<', '>', '+', '-', '.', ',', '[', ']'].contains c

/-- Whether the marks of breakpoints are no commands, if they are written. -/
def CodeStyle.isQuiet (style : CodeStyle) : Bool :=
  !style.debugBreakpoint || !isCommand style.breakpoint

theorem CodeStyle.isQuiet_of_mark {style : CodeStyle} (mark : isCommand style.breakpoint = false) :
    style.isQuiet = true := by
  simp [isQuiet, mark]

/-- Text that means nothing on a tape. -/
def Silent (text : List Char) : Prop := ∀ c ∈ text, isCommand c = false

theorem Silent.append {first second : List Char} (left : Silent first) (right : Silent second) :
    Silent (first ++ second) := by
  intro c member
  rcases List.mem_append.mp member with here | there
  · exact left c here
  · exact right c there

namespace Writer

/-! ## Effects in a row -/

theorem perform_write (opened : List OpenMachine) (text : List Char) :
    perform opened [.write text] = ⟨text, opened, none⟩ := by
  simp [perform]

theorem perform_append {opened between : List OpenMachine} {first second : List Effect}
    {text : List Char} (done : perform opened first = ⟨text, between, none⟩) :
    perform opened (first ++ second) =
      { perform between second with text := text ++ (perform between second).text } := by
  induction first generalizing opened text with
  | nil =>
    obtain ⟨rfl, rfl⟩ : [] = text ∧ opened = between := by simpa [perform] using done
    simp
  | cons effect rest ih =>
    cases effect with
    | write more =>
      simp only [perform, Emission.mk.injEq] at done
      obtain ⟨rfl, stays, ended⟩ := done
      have onwards := @ih opened (perform opened rest).text (by rw [← stays, ← ended])
      simp [perform, onwards]
    | machines inner => exact ih done
    | fail error => simp [perform] at done

theorem perform_failing {opened between : List OpenMachine} {first second : List Effect}
    {text : List Char} {error : EmitError}
    (failed : perform opened first = ⟨text, between, some error⟩) :
    perform opened (first ++ second) = ⟨text, between, some error⟩ := by
  induction first generalizing opened text with
  | nil => simp [perform] at failed
  | cons effect rest ih =>
    cases effect with
    | write more =>
      simp only [perform, Emission.mk.injEq] at failed
      obtain ⟨rfl, stays, ended⟩ := failed
      have onwards := @ih opened (perform opened rest).text (by rw [← stays, ← ended])
      simp [perform, onwards]
    | machines inner => exact ih failed
    | fail error => simpa [perform] using failed

/-- What stands before the text of an instruction. -/
def preamble (style : CodeStyle) (instruction : Instruction) : List Char :=
  (if style.debugBreakpoint then [style.breakpoint] else []) ++
    if style.debugInfo then instruction.text.toList.map (inert style.breakpoint) ++ ['\n'] else []

/-- What stands behind it. -/
def postamble (style : CodeStyle) : List Char := if style.debugInfo then ['\n'] else []

theorem perform_preamble (style : CodeStyle) (opened : List OpenMachine) (instruction : Instruction) :
    perform opened ((if style.debugBreakpoint then [.write [style.breakpoint]] else []) ++
      commentLine style instruction.text.toList) = ⟨preamble style instruction, opened, none⟩ := by
  cases point : style.debugBreakpoint <;> cases info : style.debugInfo <;>
    simp [perform, preamble, commentLine, point, info]

theorem perform_effects (style : CodeStyle) {opened after : List OpenMachine}
    {instruction : Instruction} {text : List Char}
    (done : perform opened (bodyEffects style opened instruction) = ⟨text, after, none⟩) :
    perform opened (effects style opened instruction) =
      ⟨preamble style instruction ++ text ++ postamble style, after, none⟩ := by
  have behind : perform after (commentLine style []) = ⟨postamble style, after, none⟩ := by
    cases info : style.debugInfo <;> simp [perform, postamble, commentLine, info]
  have upTo := @perform_append _ _ _ (bodyEffects style opened instruction) _
    (perform_preamble style opened instruction)
  rw [done] at upTo
  rw [effects, perform_append upTo, behind]

/-- An instruction that fails has written what stands before it and a part of its text. -/
theorem perform_effects_failing (style : CodeStyle) {opened after : List OpenMachine}
    {instruction : Instruction} {text : List Char} {error : EmitError}
    (failed : perform opened (bodyEffects style opened instruction) = ⟨text, after, some error⟩) :
    perform opened (effects style opened instruction) =
      ⟨preamble style instruction ++ text, after, some error⟩ := by
  have upTo := @perform_append _ _ _ (bodyEffects style opened instruction) _
    (perform_preamble style opened instruction)
  rw [failed] at upTo
  rw [effects, perform_failing upTo]

/-! ## Silence -/

theorem inert_not_command (breakpoint c : Char) : isCommand (inert breakpoint c) = false := by
  unfold inert
  split <;> try rfl
  next => split <;> first | rfl | simp_all [isCommand]

theorem preamble_silent {style : CodeStyle} (quiet : style.isQuiet = true)
    (instruction : Instruction) : Silent (preamble style instruction) := by
  refine .append ?_ ?_
  · split
    next marked =>
      intro c member
      obtain rfl : c = style.breakpoint := by simpa using member
      simpa [CodeStyle.isQuiet, marked] using quiet
    next => simp [Silent]
  · split
    next =>
      refine .append ?_ (by simp [Silent, isCommand])
      intro c member
      obtain ⟨shown, _, rfl⟩ := List.mem_map.mp member
      exact inert_not_command style.breakpoint shown
    next => simp [Silent]

theorem postamble_silent (style : CodeStyle) : Silent (postamble style) := by
  unfold postamble
  split <;> simp [Silent, isCommand]

/-! ## Streams -/

/-- An instruction that is written stands before the code of the rest. -/
theorem streamCode_cons (style : CodeStyle) {opened between : List OpenMachine}
    {instruction : Instruction} {text : List Char}
    (done : perform opened (bodyEffects style opened instruction) = ⟨text, between, none⟩)
    (rest : Listing) : streamCode style opened (instruction :: rest) =
      (streamCode style between rest).map
        (preamble style instruction ++ text ++ postamble style ++ ·) := by
  rw [streamCode, perform_effects style done]
  simp only
  cases streamCode style between rest <;> rfl

theorem streamCode_cons_failing (style : CodeStyle) {opened after : List OpenMachine}
    {instruction : Instruction} {text : List Char} {error : EmitError}
    (failed : perform opened (bodyEffects style opened instruction) = ⟨text, after, some error⟩)
    (rest : Listing) : streamCode style opened (instruction :: rest) = .error error := by
  rw [streamCode, perform_effects_failing style failed]

theorem streamCode_cons_eq_ok {style : CodeStyle} {opened : List OpenMachine}
    {instruction : Instruction} {rest : Listing} {code : List Char}
    (written : streamCode style opened (instruction :: rest) = .ok code) :
    ∃ text between more,
      perform opened (bodyEffects style opened instruction) = ⟨text, between, none⟩ ∧
      streamCode style between rest = .ok more ∧
      code = preamble style instruction ++ text ++ postamble style ++ more := by
  generalize body : perform opened (bodyEffects style opened instruction) = emission
  obtain ⟨text, between, failure⟩ := emission
  cases failure with
  | some error =>
    rw [streamCode_cons_failing style body] at written
    cases written
  | none =>
    rw [streamCode_cons style body] at written
    cases streamed : streamCode style between rest with
    | error error => rw [streamed] at written; cases written
    | ok more =>
      rw [streamed] at written
      exact ⟨text, between, more, rfl, streamed, (Except.ok.inj written).symm⟩

/-- The instructions are written as this text, and leave these machines open. -/
inductive Emits (style : CodeStyle) :
    List OpenMachine → Listing → List Char → List OpenMachine → Prop
  | nil {opened : List OpenMachine} : Emits style opened [] [] opened
  | cons {opened between after : List OpenMachine} {instruction : Instruction} {rest : Listing}
      {text more : List Char}
      (first : perform opened (effects style opened instruction) = ⟨text, between, none⟩)
      (others : Emits style between rest more after) :
      Emits style opened (instruction :: rest) (text ++ more) after

namespace Emits

variable {style : CodeStyle} {opened between after : List OpenMachine}

theorem append {first second : Listing} {text more : List Char}
    (left : Emits style opened first text between)
    (right : Emits style between second more after) :
    Emits style opened (first ++ second) (text ++ more) after := by
  induction left with
  | nil => exact right
  | cons first _ ih =>
    rw [List.append_assoc]
    exact .cons first (ih right)

theorem single {instruction : Instruction} {text : List Char}
    (done : perform opened (bodyEffects style opened instruction) = ⟨text, after, none⟩) :
    Emits style opened [instruction] (preamble style instruction ++ text ++ postamble style)
      after := by
  simpa using Emits.cons (perform_effects style done) .nil

theorem streamCode {stream : Listing} {text : List Char} (emits : Emits style opened stream text []) :
    Writer.streamCode style opened stream = .ok text := by
  generalize closed : ([] : List OpenMachine) = after at emits
  induction emits with
  | nil => subst closed; rfl
  | cons first _ ih =>
    rw [Writer.streamCode, first]
    simp [ih closed, bind, Except.bind, pure, Except.pure]

end Emits

/-- What stands before the code of the first instruction. -/
def startText (style : CodeStyle) : List Char := Template.start ++ postamble style

theorem generate_eq (style : CodeStyle) (stream : Listing) :
    generate style stream = (streamCode style [] stream).map (startText style ++ ·) := by
  have begins : (perform [] (startEffects style)).text = startText style := by
    cases info : style.debugInfo <;>
      simp [startEffects, commentLine, perform, startText, postamble, info]
  rw [generate, begins]
  cases streamCode style [] stream <;> rfl

theorem generate_eq_ok {style : CodeStyle} {stream : Listing} {code : List Char}
    (written : generate style stream = .ok code) :
    ∃ text, streamCode style [] stream = .ok text ∧ code = startText style ++ text := by
  rw [generate_eq] at written
  cases streamed : streamCode style [] stream with
  | error error => rw [streamed] at written; cases written
  | ok text => exact ⟨text, rfl, (Except.ok.inj (streamed ▸ written)).symm⟩

end Writer

end TapeCode
