import TapeCode.Proofs.Ribbon.Dispatch
import TapeCode.Proofs.StraightCode
import TapeCode.Stack.Branches

/-!
# Structured conditions on a tape

The marks around the two pieces of a choice become tape code that executes exactly one of the pieces,
and finds the top of the stack again behind whichever it was. So the code of a nest of choices does
what the stack machine does, from any stack and any heap that lie on a tape.
-/
namespace TapeCode

namespace BranchCode

variable {style : CodeStyle} {ending : EndOfInput} {code : BranchCode}

/-- Whether the code, the pieces of its choices included, is made of instructions on the stack, on
input and output, and on local variables whose layouts are single cells. -/
def isBody : BranchCode → Bool
  | .done => true
  | .plain instruction rest => instruction.isBody && rest.isBody
  | .choose nonzero zero rest => nonzero.isBody && zero.isBody && rest.isBody

/-- What a choice does: the piece that its condition selects, and then the rest. -/
theorem execute?_choose {α : Type} {state after : StackState α} {nonzero zero rest : BranchCode} :
    (choose nonzero zero rest).execute? ending state = some after ↔
      ∃ condition below between, state = below.push (.byte condition) ∧
        (if condition ≠ 0 then nonzero else zero).execute? ending below = some between ∧
        rest.execute? ending between = some after := by
  constructor
  · intro executed
    simp only [execute?, Option.bind_eq_bind, Option.bind_eq_some_iff, Prod.exists] at executed
    obtain ⟨condition, below, popped, chosen⟩ := executed
    refine ⟨condition, below, ?_⟩
    split at chosen
    next set =>
      obtain ⟨between, first, others⟩ := Option.bind_eq_some_iff.mp chosen
      exact ⟨between, state.popByte?_eq_some popped, by rwa [if_pos set], others⟩
    next unset =>
      obtain ⟨between, first, others⟩ := Option.bind_eq_some_iff.mp chosen
      exact ⟨between, state.popByte?_eq_some popped, by rwa [if_neg unset], others⟩
  · rintro ⟨condition, below, between, rfl, chosen, others⟩
    have popped : (below.push (.byte condition)).popByte? = some (condition, below) := rfl
    simp only [execute?, popped, Option.bind_eq_bind, Option.bind_some]
    split at chosen
    next set => rw [if_pos set, chosen, Option.bind_some, others]
    next unset => rw [if_neg unset, chosen, Option.bind_some, others]

/-- The height behind code whose pieces are balanced does not depend on which of them are executed. -/
theorem length_execute? {α : Type} {state after : StackState α} (body : code.isBody = true)
    (balanced : code.isBalanced = true) (executed : code.execute? ending state = some after) :
    (after.stack.length : Int) = state.stack.length + code.change := by
  induction code generalizing state after with
  | done =>
    obtain rfl := Option.some.inj executed
    exact (Int.add_zero _).symm
  | plain instruction rest ih =>
    simp only [isBody, Bool.and_eq_true] at body
    simp only [execute?, Option.bind_eq_bind, Option.bind_eq_some_iff] at executed
    obtain ⟨between, first, others⟩ := executed
    obtain ⟨effect, has⟩ := StackState.stackEffect?_of_body body.1
    have here := StackState.length_execute? has first
    have onwards := ih body.2 balanced others
    simp only [change, has, Option.elim_some]
    omega
  | choose nonzero zero rest ihNonzero ihZero ihRest =>
    simp only [isBody, isBalanced, Bool.and_eq_true, decide_eq_true_eq] at body balanced
    obtain ⟨condition, below, between, rfl, chosen, others⟩ := execute?_choose.mp executed
    -- Either piece changes the height by as much.
    have piece : (between.stack.length : Int) = below.stack.length + nonzero.change := by
      split at chosen
      · exact ihNonzero body.1.1 balanced.1.1.2 chosen
      · rw [balanced.1.1.1]
        exact ihZero body.1.2 balanced.1.2 chosen
    have onwards := ihRest body.2 balanced.2 others
    change (after.stack.length : Int) = (below.stack.length + 1 : Nat) + _
    rw [change]
    omega

/-- A slot that no instruction of the code addresses makes no difference to it. -/
theorem execute?_store {α : Type} {state after : StackState α} {slot : Nat}
    (apart : ∀ instruction ∈ code.listing, instruction.slot? ≠ some slot) (value : StackValue α)
    (executed : code.execute? ending state = some after) :
    code.execute? ending (state.store slot value) = some (after.store slot value) := by
  induction code generalizing state after with
  | done =>
    obtain rfl := Option.some.inj executed
    rfl
  | plain instruction rest ih =>
    obtain ⟨here, others⟩ := List.forall_mem_cons.mp apart
    simp only [execute?, Option.bind_eq_bind, Option.bind_eq_some_iff] at executed
    obtain ⟨between, first, onwards⟩ := executed
    simp only [execute?, (StackState.execute?_store here first).1, Option.bind_eq_bind,
      Option.bind_some, ih others onwards]
  | choose nonzero zero rest ihNonzero ihZero ihRest =>
    simp only [listing, List.cons_append, List.forall_mem_cons, List.forall_mem_append] at apart
    obtain ⟨-, ⟨inNonzero, -, inZero⟩, -, inRest⟩ := apart
    obtain ⟨condition, below, between, rfl, chosen, others⟩ := execute?_choose.mp executed
    refine execute?_choose.mpr ⟨condition, below.store slot value, between.store slot value, rfl, ?_,
      ihRest inRest others⟩
    split at chosen
    next set => rw [if_pos set, ihNonzero inNonzero chosen]
    next unset => rw [if_neg unset, ihZero inZero chosen]

/-! ## Texts -/

open Writer (Emits preamble postamble)

/-- The text of the code does what the code does. -/
theorem emits_runs (ending : EndOfInput) (quiet : style.isQuiet = true) (opened : List OpenMachine)
    (body : code.isBody = true) :
    ∃ text, Emits style opened code.listing text opened ∧ Balanced text ∧
      ∀ state after : StackState Empty, code.execute? ending state = some after →
        Runs ending text state.ribbon after.ribbon := by
  have silent := Writer.postamble_silent style
  induction code with
  | done =>
    refine ⟨[], .nil, .nil, fun state after executed => ?_⟩
    obtain rfl := Option.some.inj executed
    exact .done
  | plain instruction rest ih =>
    simp only [isBody, Bool.and_eq_true] at body
    have single : [instruction].all (·.isBody) = true := by simp [body.1]
    obtain ⟨text, first, matched, runs⟩ := Writer.listing_runs ending quiet opened single
    obtain ⟨more, others, matchedMore, onwards⟩ := ih body.2
    refine ⟨text ++ more, first.append others, matched.append matchedMore,
      fun state after executed => ?_⟩
    simp only [execute?, Option.bind_eq_bind, Option.bind_eq_some_iff] at executed
    obtain ⟨between, here, onwardsRest⟩ := executed
    exact (runs state between (by simp [StackState.executeAll?, here])).append
      (onwards between after onwardsRest)
  | choose nonzero zero rest ihNonzero ihZero ihRest =>
    simp only [isBody, Bool.and_eq_true] at body
    obtain ⟨first, emitsFirst, matchedFirst, runsFirst⟩ := ihNonzero body.1.1
    obtain ⟨second, emitsSecond, matchedSecond, runsSecond⟩ := ihZero body.1.2
    obtain ⟨more, emitsMore, matchedMore, runsMore⟩ := ihRest body.2
    have opens : Emits style opened [.ifElseBegin] _ opened :=
      .single (Writer.perform_write opened Template.ifElseBegin)
    have turns : Emits style opened [.ifElseElse] _ opened :=
      .single (Writer.perform_write opened Template.ifElseElse)
    have closes : Emits style opened [.ifElseEnd] _ opened :=
      .single (Writer.perform_write opened Template.ifElseEnd)
    -- What stands around the texts of the marks is silent, so it may count as part of the pieces.
    let firstPiece := postamble style ++ first ++ preamble style .ifElseElse
    let secondPiece := postamble style ++ second ++ preamble style .ifElseEnd
    have beginSilent := Writer.preamble_silent quiet .ifElseBegin
    have elseSilent := Writer.preamble_silent quiet .ifElseElse
    have endSilent := Writer.preamble_silent quiet .ifElseEnd
    have matchedFirstPiece : Balanced firstPiece :=
      (silent.balanced.append matchedFirst).append elseSilent.balanced
    have matchedSecondPiece : Balanced secondPiece :=
      (silent.balanced.append matchedSecond).append endSilent.balanced
    have chooses (condition : UInt8) (below between : StackState Empty)
        (chosen : (if condition ≠ 0 then nonzero else zero).execute? ending below = some between) :
        Runs ending (Template.ifElseBegin ++ firstPiece ++ Template.ifElseElse ++ secondPiece ++
          Template.ifElseEnd) (below.push (.byte condition)).ribbon between.ribbon := by
      -- The piece that is not chosen is passed over, so of it only the brackets matter.
      by_cases set : condition ≠ 0
      · rw [if_pos set] at chosen
        exact Template.choice_nonzero_runs _ _ _ set
          ((runsFirst below between chosen).framed silent elseSilent) matchedSecondPiece
      · obtain rfl : condition = 0 := not_not.mp set
        rw [if_neg set] at chosen
        exact Template.choice_zero_runs _ _ _ matchedFirstPiece
          ((runsSecond below between chosen).framed silent endSilent)
    have matched := (Template.choice_balanced matchedFirstPiece matchedSecondPiece)
    have text : preamble style .ifElseBegin ++ (Template.ifElseBegin ++ firstPiece ++
          Template.ifElseElse ++ secondPiece ++ Template.ifElseEnd) ++ postamble style ++ more =
        preamble style .ifElseBegin ++ Template.ifElseBegin ++ postamble style ++ (first ++
          (preamble style .ifElseElse ++ Template.ifElseElse ++ postamble style ++ (second ++
            (preamble style .ifElseEnd ++ Template.ifElseEnd ++ postamble style ++ more)))) := by
      simp only [firstPiece, secondPiece, List.append_assoc]
    refine ⟨_, ?_, ((beginSilent.balanced.append matched).append silent.balanced).append matchedMore,
      fun state after executed => ?_⟩
    · rw [text]
      simpa [listing] using opens.append (emitsFirst.append (turns.append (emitsSecond.append
        (closes.append emitsMore))))
    · obtain ⟨condition, below, between, rfl, chosen, others⟩ := execute?_choose.mp executed
      exact ((chooses condition below between chosen).framed beginSilent silent).append
        (runsMore between after others)

/-! ## Tapes -/

/-- The code of a nest of choices executes the pieces that the stack machine executes, with the same
input and output, from any stack and heap on a tape that is long enough. In the end the pointer is on
the top of the stack, and the cells are those of the stack machine's values. The pieces of a choice may
change the height differently; where they change it alike, the height in the end is known beforehand. -/
theorem code_executes_choices (quiet : style.isQuiet = true) (body : code.isBody = true)
    (ending : EndOfInput) :
    ∃ text, Writer.streamCode style [] code.listing = .ok text ∧
      ∀ values after : StackState Empty, code.execute? ending values = some after →
        (code.isBalanced = true → (after.stack.length : Int) = values.stack.length + code.change) ∧
        ∃ reach, ∀ (tape : Tape) (low high : Nat),
          tape.Shows low high (2 * values.stack.length) values.ribbon → reach ≤ low →
          2 * values.stack.length + reach ≤ high →
          ∃ places machine,
            Path (CharacterMachine.step ending) CharacterMachine.place
              ⟨[], text, tape, values.input, values.output⟩ places machine ∧
            machine.isHalted = true ∧ machine.input = after.input ∧ machine.output = after.output ∧
            machine.tape.Holds low high after := by
  obtain ⟨text, emits, -, runs⟩ := emits_runs ending quiet [] body
  refine ⟨text, emits.streamCode, fun values after executed =>
    ⟨fun balanced => length_execute? body balanced executed, ?_⟩⟩
  obtain ⟨_, whole⟩ := (runs values after executed).path_whole
  obtain ⟨shifts, path⟩ := whole.remark RibbonMachine.shift
  obtain ⟨bound, apart⟩ := Instruction.exists_slots_behind code.listing
  have alike (slot : Nat) (above : bound ≤ slot) (value : UInt8) :
      Runs ending text (values.store slot (.byte value)).ribbon
        (after.store slot (.byte value)).ribbon :=
    runs _ _ (execute?_store (apart slot above) (.byte value) executed)
  have moved := Runs.sum_shifts_eq path alike
  refine ⟨shifts.length + 2 * after.stack.length + 1, fun tape low high shows lowEnough highEnough => ?_⟩
  obtain ⟨final, places, onTape, shown⟩ :=
    RibbonMachine.onTape_path_shift path shows (by omega) (by omega)
  rw [moved, add_sub_cancel] at shown
  exact ⟨places, _, onTape, rfl, rfl, rfl, shown.holds (by omega) (by omega)⟩

/-- Reads a digit that tells whether the two numbers below are added or only the upper one is kept, and
prints the result; a zero is printed as a letter. -/
def foldingChoices : BranchCode :=
  .plain .readChar <| .plain (.pushInt 48) <| .plain .sub <|
    .choose (.plain .add .done) (.plain (.writeLocal [1]) <| .plain .popInt <|
      .plain (.readLocal [1]) .done) <|
    .plain .dupInt <| .choose (.plain .printInt .done) (.plain (.pushInt 90) <| .plain .printChar <|
      .plain .popInt .done) .done

theorem code_executes_foldingChoices : foldingChoices.isBalanced = true ∧ ∃ text,
    Writer.streamCode {} [] foldingChoices.listing = .ok text ∧
      ∃ after : StackState Empty, after.stack = [.byte 7] ∧ after.output = [55] ∧
        ∃ reach, ∀ (tape : Tape) (low high : Nat),
          tape.Shows low high 4 (StackState.ribbon ⟨[.byte 7, .byte 5], fun _ => .byte 0, [48], []⟩) →
          reach ≤ low → 4 + reach ≤ high →
          ∃ places machine,
            Path (CharacterMachine.step .zero) CharacterMachine.place
              ⟨[], text, tape, [48], []⟩ places machine ∧
            machine.isHalted = true ∧ machine.input = [] ∧ machine.output = after.output ∧
            machine.tape.Holds low high after := by
  obtain ⟨text, written, executes⟩ := @code_executes_choices {} foldingChoices rfl (by decide) .zero
  obtain ⟨-, reach, halts⟩ := executes ⟨[.byte 7, .byte 5], fun _ => .byte 0, [48], []⟩ _ rfl
  exact ⟨by decide, text, written, _, rfl, rfl, reach, halts⟩

end BranchCode

end TapeCode
