import TapeCode.Proofs.Acceptance
import TapeCode.Proofs.CaseNumbers
import TapeCode.Proofs.Lowering
import TapeCode.Proofs.Ribbon.Whole

/-!
# Code prints what its source text says

The stages one behind the other. An evaluation that ends is a run of the intermediate program to its
end, which is a run of the cases of its stream until they are left, which is a run of the tape code to
its end, character by character and by the tape machine.
-/
namespace TapeCode

open RibbonMachine (between)

/-! ## From the program to the cases -/

namespace Program

variable {program : Program}

/-- A program that runs to its end has cases that are left with the same output. -/
theorem lower_finishes (wellFormed : program.WellFormed) : ∃ stream cases,
    program.lower = .ok stream ∧ stream.Means cases ∧
      (∀ source ∈ cases, (∀ instruction ∈ source.body, instruction.isOrdinary = true) ∧
        MachineCase.staysWithin cases.length source.dispatch = true) ∧
      ∀ {ending : EndOfInput} {input : List UInt8} {state : ProgramState},
        program.Leads ending (program.start input) state → hasFinished state = true →
        ∃ visited values, Path (MachineCase.step? .asAddress cases ending) (·.case)
            ⟨1, .start input⟩ visited ⟨cases.length + 1, values⟩ ∧
          values.output = state.values.output := by
  obtain ⟨flat, tail, reached, madeFlat, contained, laid⟩ := Flat.flatten_laid wellFormed
  obtain ⟨code, written, means⟩ := Cases.ofStream_means contained
  refine ⟨code, Cases.ofRuns flat, Except.bind_eq_ok.mpr ⟨flat, madeFlat, written⟩, means, ?_, ?_⟩
  · intro source member
    obtain ⟨body, dispatch⟩ := Cases.ofRuns_proper contained member
    exact ⟨fun instruction has => (body instruction has).2, dispatch⟩
  · intro ending input state leads finished
    obtain ⟨places, path⟩ := leads
    obtain ⟨visited, point, run, matched, -, -⟩ := run_matched contained laid path
      (laid.follows_start input) (Cases.matches_start flat input)
    obtain ⟨marks, values, onwards, -, same⟩ := matched.finished finished
    obtain ⟨cases, whole⟩ := CasePoint.path_cases (run.append onwards)
    exact ⟨cases, values, whole, same.output.symm⟩

end Program

/-! ## From the cases to the tape -/

/-- The only case of a straight stream executes the stream, and no stream has no case. -/
theorem MachineCase.path_straight {stream : Listing} {cases : List MachineCase}
    (straight : stream = [] ∧ cases = [] ∨ cases = [⟨stream, .jump 2⟩]) {ending : EndOfInput}
    {first values : StackState Empty} {visited : List Int}
    (path : Path (step? .asByte cases ending) (·.case) ⟨1, first⟩ visited
      ⟨cases.length + 1, values⟩) :
    first.executeAll? ending stream = some values := by
  -- Behind the last case nothing is executed.
  have ends {state last : State Empty} {marks : List Int}
      (behind : cases.length < state.case)
      (onwards : Path (step? .asByte cases ending) (·.case) state marks last) : state = last := by
    cases onwards with
    | here => rfl
    | next stepped _ => exact absurd (step?_within stepped).2 (Int.not_le_of_gt behind)
  rcases straight with ⟨rfl, rfl⟩ | rfl
  · obtain ⟨-, rfl⟩ := State.mk.inj (ends Int.one_pos path)
    rfl
  · cases path with
    | next stepped onwards =>
      obtain ⟨after, executed, selected⟩ := Option.bind_eq_some_iff.mp stepped
      obtain rfl := Option.some.inj selected
      obtain ⟨-, rfl⟩ := State.mk.inj (ends (Int.lt_succ 1) onwards)
      exact executed

namespace MachineText.Fits

variable {ending : EndOfInput} {cases : List MachineCase} {text : MachineText}

theorem balanced (fits : text.Fits ending cases) : Balanced text.code := by
  have start := (fits.start (.start [])).balanced
  have finish := (fits.finish (.start [])).balanced
  rw [code, List.append_assoc]
  exact start.append (.nest fits.loop_balanced finish)

/-- The code of a state machine comes to its end where the cases are left. -/
theorem path_left (fits : text.Fits ending cases) {first : StackState Empty} {visited : List Int}
    {values : StackState Empty}
    (path : Path (MachineCase.step? .asByte cases ending) (·.case) ⟨1, first⟩ visited
      ⟨cases.length + 1, values⟩) :
    ∃ places, Path (RibbonMachine.step ending) RibbonMachine.place
      (between [] text.code first.ribbon) places (between text.code [] values.ribbon) := by
  obtain ⟨places, whole, -⟩ := fits.reaches_end path
  exact ⟨places, whole⟩

end MachineText.Fits

namespace Writer

variable {style : CodeStyle} {stream : Listing} {code : List Char}

/-- What comes to an end behind the beginning of a code does so behind its beginning on a blank
ribbon. -/
theorem path_from_blank {ending : EndOfInput} {input : List UInt8} {text : List Char} {last : Ribbon}
    {places : List Nat} (path : Path (RibbonMachine.step ending) RibbonMachine.place
      (between [] text (StackState.start input).ribbon) places (between text [] last)) :
    ∃ shifts, Path (RibbonMachine.step ending) RibbonMachine.shift
      (between [] (startText style ++ text) (.blank input)) shifts
      (between (startText style ++ text) [] last) := by
  obtain ⟨begins, first, -⟩ :=
    (@startText_runs ending style (.start input) rfl).path_between [] text
  rw [StackState.unfenced_start] at first
  obtain ⟨others, behind⟩ := RibbonMachine.path_within path (startText style) []
  rw [RibbonMachine.within_between, RibbonMachine.within_between, List.append_nil,
    List.append_nil] at behind
  exact (first.append behind).remark _

/-- The code of a stream with proper cases, of which there are few, comes to its end where the cases
are left. -/
theorem generate_runs (quiet : style.isQuiet = true) (ending : EndOfInput) {cases : List MachineCase}
    (proper : stream = machineListing cases ∧
        (∀ source ∈ cases, source.isProper cases.length = true) ∨
      stream.all (·.isBody) = true ∧
        (stream = [] ∧ cases = [] ∨ cases = [⟨stream, .jump 2⟩]))
    (written : generate style stream = .ok code) :
    cases.length ≤ 127 ∧ Balanced code ∧
      ∀ {input : List UInt8} {visited : List Int} {values : StackState Empty},
      Path (MachineCase.step? .asByte cases ending) (·.case) ⟨1, .start input⟩ visited
        ⟨cases.length + 1, values⟩ →
      ∃ shifts, Path (RibbonMachine.step ending) RibbonMachine.shift
        (between [] code (.blank input)) shifts (between code [] values.ribbon) := by
  obtain ⟨text, streamed, rfl⟩ := generate_eq_ok written
  have begins := (@startText_runs ending style (.start []) rfl).balanced
  rcases proper with ⟨rfl, proper⟩ | ⟨body, straight⟩
  -- A state machine is written only if it has few cases.
  · have few : cases.length ≤ 127 := by
      by_contra many
      rw [generate_tooManyCases (Nat.lt_of_not_le many)] at written
      cases written
    obtain ⟨machine, emits, fits, -⟩ := MachineText.written_fits ending quiet few proper
    obtain rfl : machine.code = text := Except.ok.inj (emits.streamCode.symm.trans streamed)
    refine ⟨few, begins.append fits.balanced, fun path => ?_⟩
    obtain ⟨places, whole⟩ := fits.path_left path
    exact path_from_blank whole
  -- Straight code is its own single case.
  · obtain ⟨other, emits, balanced, runs⟩ := listing_runs ending quiet [] body
    obtain rfl : other = text := Except.ok.inj (emits.streamCode.symm.trans streamed)
    have few : cases.length ≤ 127 := by
      rcases straight with ⟨-, rfl⟩ | rfl <;> simp
    refine ⟨few, begins.append balanced, fun path => ?_⟩
    obtain ⟨places, whole⟩ := (runs _ _ (MachineCase.path_straight straight path)).path_whole
    exact path_from_blank whole

end Writer

/-! ## From the source text to the tape -/

/-- The machine runs the code to its end, and has then printed the output. -/
def Machine.Prints (settings : MachineSettings) (code : List Char) (input output : List UInt8) :
    Prop :=
  ∃ loaded machine turns final, Machine.load settings code input = .ok (loaded, machine) ∧
    machine.runFor loaded false turns = (final, .halted) ∧ final.output.toList = output

namespace Build

variable {style : CodeStyle} {source : String} {code : List Char}

theorem compileSource_eq_ok (compiled : compileSource style source = .ok code) :
    ∃ typed scopes program stream, Resolves source typed scopes ∧ typed.compile scopes = .ok program ∧
      program.lower = .ok stream ∧ Writer.generate style stream = .ok code := by
  obtain ⟨flat, built, streamed⟩ := Except.bind_eq_ok.mp compiled
  obtain ⟨stream, lowered, written⟩ := Except.bind_eq_ok.mp streamed
  obtain ⟨statements, read, named⟩ := Except.bind_eq_ok.mp built
  obtain ⟨⟨typed, scopes⟩, resolved, rest⟩ := Except.bind_eq_ok.mp named
  obtain ⟨program, made, checked⟩ := Except.bind_eq_ok.mp rest
  obtain ⟨height, -, same⟩ := Except.bind_eq_ok.mp checked
  obtain rfl := Except.ok.inj same
  exact ⟨typed, scopes, program, stream, ⟨statements, read, Except.mapError_eq_ok.mp resolved⟩,
    Except.mapError_eq_ok.mp made, Except.mapError_eq_ok.mp lowered,
    Except.mapError_eq_ok.mp written⟩

/-- If the evaluation of a source text ends, its code prints the same on every tape that is long
enough. The code may have comments and marks in it, as long as the marks are no commands; the default
style has neither. -/
theorem compileSource_prints (quiet : style.isQuiet = true)
    (compiled : compileSource style source = .ok code) :
    ∃ typed scopes, Resolves source typed scopes ∧
      ∀ (ending : EndOfInput) (budget : Nat) (input output : List UInt8),
        typed.evaluate scopes ending budget input = some output →
        ∃ length, ∀ settings : MachineSettings, settings.endOfInput = ending →
          settings.stepLimit = none → settings.devices = {} → length ≤ settings.tapeLength →
          Machine.Prints settings code input output := by
  obtain ⟨typed, scopes, program, stream, resolves, made, lowered, written⟩ :=
    compileSource_eq_ok compiled
  refine ⟨typed, scopes, resolves, fun ending budget input output evaluated => ?_⟩
  have sound := resolves.sound
  have compiled := TypedProgram.compile_eq_ok sound made
  have wellFormed := compiled.wellFormed sound
  obtain ⟨other, cases, lowers, means, ordinary, finishes⟩ := Program.lower_finishes wellFormed
  obtain rfl : stream = other := Except.ok.inj (lowered.symm.trans lowers)
  -- The program ends, so its cases are left, with their numbers as bytes too.
  obtain ⟨state, leads, finished, rfl⟩ := compiled.runs sound evaluated
  obtain ⟨visited, values, path, same⟩ := finishes leads finished
  have proper := Program.lower_proper wellFormed (compiled.computes sound)
    (compiled.labels_used sound) lowered means ordinary
  obtain ⟨few, balanced, runs⟩ := Writer.generate_runs quiet ending proper written
  obtain ⟨final, onBytes, agrees⟩ := MachineCase.path_byte few path (.start input)
  obtain ⟨shifts, whole⟩ := runs onBytes
  refine ⟨2 * shifts.length + 1, fun settings ending' unlimited devices long => ?_⟩
  subst ending'
  obtain ⟨loaded, machine, turns, halted, load, run, -, printed⟩ := Machine.runs_blank balanced whole
    unlimited devices (Nat.sub_add_cancel (by omega : shifts.length + 1 ≤ settings.tapeLength)).symm
    (by omega) (by omega)
  exact ⟨loaded, machine, turns, halted, load, run, printed.trans (agrees.output.symm.trans same)⟩

theorem callingSource_compiles : ∃ typed scopes code, Resolves callingSource typed scopes ∧
    compileSource {} callingSource = .ok code ∧
    typed.evaluate scopes .zero 10 [] = some [49] := by
  obtain ⟨typed, scopes, resolves, evaluated⟩ := callingSource_resolves
  obtain ⟨code, compiled, -⟩ : ∃ code, compileSource {} callingSource = .ok code ∧ code ≠ [] := by
    decide +kernel
  exact ⟨typed, scopes, code, resolves, compiled, evaluated⟩

theorem compileSource_prints_callingSource : ∃ typed scopes code,
    Resolves callingSource typed scopes ∧ compileSource {} callingSource = .ok code ∧
      typed.evaluate scopes .zero 10 [] = some [49] ∧
      ∃ length, ∀ settings : MachineSettings, settings.endOfInput = .zero →
        settings.stepLimit = none → settings.devices = {} → length ≤ settings.tapeLength →
        Machine.Prints settings code [] [49] := by
  obtain ⟨typed, scopes, code, resolves, compiled, evaluated⟩ := callingSource_compiles
  obtain ⟨same, trees, again, prints⟩ := compileSource_prints rfl compiled
  obtain ⟨rfl, rfl⟩ := resolves.unique again
  exact ⟨typed, scopes, code, resolves, compiled, evaluated, prints .zero 10 [] [49] evaluated⟩

end Build

end TapeCode
