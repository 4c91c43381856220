import TapeCode.Proofs.Ribbon.Displacement

/-!
# State machines execute the cases they should

The code of a state machine, executed character by character on a circular tape, enters the cases
that the state machine goes through, in their order and no others, and reads and writes what they
read and write. The runs of the state machine need not end: what holds of every part of a run from
its beginning holds of the run.

The tape has to be long enough for the part of the run in question, since a stack that is too high
for it would wrap around into the heap. The stack may begin anywhere on the tape; where the cases are
left, it still begins there, which the cells of a ribbon alone would not tell.
-/
namespace TapeCode

namespace MachineCase

/-- What a run of the code has to do to be the run of the cases from `first` to `last`, on a tape
that shows the first values with the bottom of the stack at `origin`: enter the cases visited, have the
same input left and the same output written, and if the state machine has been left, halt on a tape
that shows the last values from the same origin, the sentinel and the top of the stack included. -/
def ExecutedOn (ending : EndOfInput) (style : CodeStyle) (cases : List MachineCase)
    (code : List Char) (first last : State Empty) (visited : List Int) (tape : Tape)
    (low high : Nat) (origin : Int) : Prop :=
  ∃ places machine,
    Path (CharacterMachine.step ending) CharacterMachine.place
      ⟨[], code, tape, first.values.input, first.values.output⟩ places machine ∧
    enteredCases (Writer.caseEntries style cases) places = visited ∧
    machine.input = last.values.input ∧ machine.output = last.values.output ∧
    (hasLeft cases last = true → machine.isHalted = true ∧
      -low < origin ∧ origin + 2 * last.values.stack.length < high ∧
        machine.tape.Shows low high (origin + 2 * last.values.stack.length) last.values.ribbon)

/-- Where the cases are left, the pointer has moved by two cells for each value by which the stack has
grown. -/
theorem sum_shifts_of_left {ending : EndOfInput} {cases : List MachineCase} {text : MachineText}
    (fits : text.Fits ending cases) {first values : StackState Empty} {visited : List Int}
    (path : Path (step? .asByte cases ending) (·.case) ⟨1, first⟩ visited
      ⟨cases.length + 1, values⟩) {shifts : List Int}
    (run : Path (RibbonMachine.step ending) RibbonMachine.shift
      (.between [] text.code first.ribbon) shifts (.between text.code [] values.ribbon)) :
    shifts.sum = 2 * values.stack.length - 2 * first.stack.length := by
  obtain ⟨bound, apart⟩ := Instruction.exists_slots_behind (bodies cases)
  refine @RibbonMachine.sum_shifts_of_stores ending text.code shifts bound _ _ run
    fun slot above value => ?_
  obtain ⟨places, whole, -⟩ := fits.reaches_end (path_store (apart slot above) path (.byte value))
  exact ⟨places, whole⟩

/-- The code of a state machine executes the cases of the machine. The numbers from which returns
select their cases are bytes on the stack like all others; the runs are those in which they are
numbers of cases or the number behind them. -/
theorem code_executes_cases {style : CodeStyle} (quiet : style.isQuiet = true)
    {cases : List MachineCase} (few : cases.length ≤ 127)
    (proper : ∀ source ∈ cases, source.isProper cases.length = true) (ending : EndOfInput) :
    ∃ code, Writer.streamCode style [] (machineListing cases) = .ok code ∧
      ∀ (values : StackState Empty) (visited : List Int) (last : State Empty),
        Path (step? .asByte cases ending) (·.case) ⟨1, values⟩ visited last →
        1 ≤ last.case ∧ last.case ≤ cases.length + 1 →
        ∃ reach : Nat, ∀ (tape : Tape) (low high : Nat) (origin : Int),
          tape.Shows low high (origin + 2 * values.stack.length) values.ribbon →
          -low + reach ≤ origin → origin + 2 * values.stack.length + reach < high →
          ExecutedOn ending style cases code ⟨1, values⟩ last visited tape low high origin := by
  obtain ⟨text, emits, fits, entries⟩ := MachineText.written_fits ending quiet few proper
  refine ⟨text.code, emits.streamCode, fun values visited last path within => ?_⟩
  by_cases left : hasLeft cases last = true
  · obtain ⟨number, after⟩ := last
    obtain rfl : number = cases.length + 1 := by simpa [hasLeft] using left
    obtain ⟨places, whole, entered⟩ := fits.reaches_end path
    rw [entries] at entered
    obtain ⟨shifts, run⟩ := whole.remark RibbonMachine.shift
    have moved := sum_shifts_of_left fits path run
    refine ⟨places.length + shifts.length + 2 * after.stack.length + 1,
      fun tape low high origin shows above below => ?_⟩
    have sentinel : -(low : Int) < origin := by omega
    have top : origin + 2 * after.stack.length < high := by omega
    obtain ⟨final, others, onTape, shown⟩ :=
      RibbonMachine.onTape_path_shift run shows (by omega) (by omega)
    -- The same path, so that its places are those that enter the cases.
    obtain ⟨_, _, again, -⟩ := RibbonMachine.onTape_path whole shows (by omega) (by omega)
    obtain ⟨rfl, -⟩ := onTape.unique rfl again rfl
    rw [moved, Int.add_assoc, add_sub_cancel] at shown
    exact ⟨others, _, onTape, entered, rfl, rfl, fun _ => ⟨rfl, sentinel, top, shown⟩⟩
  · have visits := (fits.starts values).trans (fits.visits path within)
    rw [List.nil_append, entries] at visits
    obtain ⟨places, whole, entered⟩ := visits
    refine ⟨places.length, fun tape low high origin shows above below => ?_⟩
    obtain ⟨after, moved, onTape, shown⟩ :=
      RibbonMachine.onTape_path whole shows (by omega) (by omega)
    exact ⟨places, _, onTape, entered, rfl, rfl, fun hasLeft => absurd hasLeft left⟩

/-- The first case calls the third one, which leaves a number below the address it returns to; the
second case prints it. -/
def callingCases : List MachineCase :=
  [⟨[], .call 3⟩, ⟨[.printChar], .jump (-1)⟩, ⟨[.pushInt 7, .swapInt], .back⟩]

theorem code_executes_callingCases : ∃ code,
    Writer.streamCode {} [] (machineListing callingCases) = .ok code ∧
      ∃ values : StackState Empty, values.output = [7] ∧
        ∃ reach : Nat, ∀ (tape : Tape) (low high : Nat) (origin : Int),
          tape.Shows low high origin (StackState.start []).ribbon →
          -low + reach ≤ origin → origin + reach < high →
          ExecutedOn .zero {} callingCases code ⟨1, .start []⟩ ⟨4, values⟩ [1, 3, 2] tape low
            high origin := by
  obtain ⟨code, written, executes⟩ :=
    @code_executes_cases {} rfl callingCases (by decide) (by decide) .zero
  let values : StackState Empty := ⟨[.byte 7], fun _ => .byte 0, [], [7]⟩
  obtain ⟨reach, executed⟩ := executes (.start []) [1, 3, 2] ⟨4, values⟩
    (.next rfl (.next rfl (.next rfl .here))) (by decide)
  refine ⟨code, written, values, rfl, reach, fun tape low high origin shows above below => ?_⟩
  -- The stack is empty, so its top is its bottom.
  have top : origin + 2 * (StackState.start (α := Empty) []).stack.length = origin :=
    Int.add_zero origin
  exact executed tape low high origin (by rwa [top]) above (by rwa [top])

end MachineCase

end TapeCode
