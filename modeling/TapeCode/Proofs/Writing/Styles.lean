import TapeCode.Proofs.Folding.Comments

/-!
# Code in another style

Comments and marks between the instructions are silent, so the commands of the code do not depend on
whether they are written, and neither does a failure: it comes from the instruction and the machines
that are open. So the code of one style runs as that of another does.
-/
namespace TapeCode

namespace Writer

variable {style first second : CodeStyle}

/-- An instruction itself is written in the same way if its breakpoints are. -/
theorem bodyEffects_alike (same : first.breakpoint = second.breakpoint) (opened : List OpenMachine)
    (instruction : Instruction) :
    bodyEffects first opened instruction = bodyEffects second opened instruction := by
  cases instruction with
  | breakpoint => rw [bodyEffects, bodyEffects, same]
  | _ => rfl

/-- An emission without its comments. -/
def Emission.bare (emission : Emission) : Emission :=
  { emission with text := commands emission.text }

/-- What is written around an instruction is no command. -/
theorem perform_effects_bare (quiet : style.isQuiet = true) (opened : List OpenMachine)
    (instruction : Instruction) :
    (perform opened (effects style opened instruction)).bare =
      (perform opened (bodyEffects style opened instruction)).bare := by
  have before := (preamble_silent quiet instruction).commands_eq
  have behind := (postamble_silent style).commands_eq
  generalize body : perform opened (bodyEffects style opened instruction) = emission
  obtain ⟨text, after, failure⟩ := emission
  cases failure with
  | none =>
    rw [perform_effects style body]
    simp [Emission.bare, commands_append, before, behind]
  | some error =>
    rw [perform_effects_failing style body]
    simp [Emission.bare, commands_append, before]

theorem map_append_commands {left right : Except EmitError (List Char)} {text other : List Char}
    (alike : left.map commands = right.map commands) (same : commands text = commands other) :
    (left.map (text ++ ·)).map commands = (right.map (other ++ ·)).map commands := by
  cases left <;> cases right <;> simp_all [Except.map, commands_append]

theorem streamCode_commands (same : first.breakpoint = second.breakpoint)
    (mark : isCommand first.breakpoint = false) (opened : List OpenMachine) (stream : Listing) :
    (streamCode first opened stream).map commands =
      (streamCode second opened stream).map commands := by
  induction stream generalizing opened with
  | nil => rfl
  | cons instruction rest ih =>
    have alike : (perform opened (effects first opened instruction)).bare =
        (perform opened (effects second opened instruction)).bare := by
      rw [perform_effects_bare (CodeStyle.isQuiet_of_mark mark),
        perform_effects_bare (CodeStyle.isQuiet_of_mark (same ▸ mark)), bodyEffects_alike same]
    rw [streamCode, streamCode]
    generalize perform opened (effects first opened instruction) = emission at alike ⊢
    generalize perform opened (effects second opened instruction) = other at alike ⊢
    obtain ⟨text, between, failure⟩ := emission
    obtain ⟨textToo, betweenToo, failureToo⟩ := other
    obtain ⟨sameText, rfl, rfl⟩ := Emission.mk.inj alike
    cases failure with
    | some error => rfl
    | none =>
      have onwards := map_append_commands (ih between) sameText
      revert onwards
      cases streamCode first between rest <;> cases streamCode second between rest <;> exact id

theorem generate_commands (same : first.breakpoint = second.breakpoint)
    (mark : isCommand first.breakpoint = false) (stream : Listing) :
    (generate first stream).map commands = (generate second stream).map commands := by
  have begins : commands (startText first) = commands (startText second) := by
    rw [startText, startText, commands_append, commands_append,
      (postamble_silent first).commands_eq, (postamble_silent second).commands_eq]
  rw [generate_eq, generate_eq]
  exact map_append_commands (streamCode_commands same mark [] stream) begins

/-- Whether comments and marks are written or not, the same streams can be written, the others fail in
the same way, and the codes are the same but for their comments, so that they run alike. -/
theorem generate_styles_alike (same : first.breakpoint = second.breakpoint)
    (mark : isCommand first.breakpoint = false) (stream : Listing) :
    (∃ error, generate first stream = .error error ∧ generate second stream = .error error) ∨
      ∃ code other, generate first stream = .ok code ∧ generate second stream = .ok other ∧
        commands code = commands other ∧ RunsAlike code other := by
  have alike := generate_commands same mark stream
  cases left : generate first stream with
  | error error =>
    cases right : generate second stream with
    | error other =>
      rw [left, right] at alike
      exact .inl ⟨error, rfl, by rw [Except.error.inj alike]⟩
    | ok other => rw [left, right] at alike; cases alike
  | ok code =>
    cases right : generate second stream with
    | error other => rw [left, right] at alike; cases alike
    | ok other =>
      rw [left, right] at alike
      have commands := Except.ok.inj alike
      exact .inr ⟨code, other, rfl, rfl, commands, .of_commands commands⟩

/-- A listing with a breakpoint of its own, and with a sign in a comment. -/
def subtractingListing : Listing :=
  [.pushInt 2, .breakpoint, .pushInt (-254), .sub, .printChar]

theorem generate_styles_alike_subtractingListing :
    isCommand '!' = false ∧ ∃ code other,
      generate ⟨false, false, '!'⟩ subtractingListing = .ok code ∧
      generate ⟨true, true, '!'⟩ subtractingListing = .ok other ∧
      code = "<->>>++!>>++[-<<->>]<<.".toList ∧
      other = ("<->\n!pushInt(2)\n>>++\n!breakpoint()\n!\n!pushInt(_254)\n>>++\n" ++
        "!sub()\n[-<<->>]<<\n!printChar()\n.\n").toList ∧
      commands code = commands other ∧ RunsAlike code other := by
  have written : generate ⟨false, false, '!'⟩ subtractingListing =
      .ok "<->>>++!>>++[-<<->>]<<.".toList := by decide +kernel
  have writtenToo : generate ⟨true, true, '!'⟩ subtractingListing =
      .ok ("<->\n!pushInt(2)\n>>++\n!breakpoint()\n!\n!pushInt(_254)\n>>++\n" ++
        "!sub()\n[-<<->>]<<\n!printChar()\n.\n").toList := by decide +kernel
  obtain ⟨error, failed, -⟩ | ⟨code, other, plain, commented, alike⟩ :=
    @generate_styles_alike ⟨false, false, '!'⟩ ⟨true, true, '!'⟩ rfl rfl subtractingListing
  · cases written.symm.trans failed
  · exact ⟨rfl, code, other, plain, commented, Except.ok.inj (plain.symm.trans written),
      Except.ok.inj (commented.symm.trans writtenToo), alike⟩

end Writer

end TapeCode
