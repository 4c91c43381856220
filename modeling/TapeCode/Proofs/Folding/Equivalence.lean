import TapeCode.Proofs.Folding.Progress

/-!
# Folded code comes to an end where the code does

Where nothing limits the machine and its devices never fail, a run of the machine that halts is one of
the code that comes to its end, and the other way round.
-/
namespace TapeCode

/-- All runs that halt end in the same state. -/
theorem Machine.runFor_halted_unique {loaded : Loaded} {stops : Bool} {turns others : Nat}
    {machine final other : Machine} (halted : machine.runFor loaded stops turns = (final, .halted))
    (again : machine.runFor loaded stops others = (other, .halted)) : final = other :=
  (runFor_unique halted nofun again nofun).1

open TapeOperation (Decoding)

namespace CharacterMachine

/-- Code that comes to an end takes a path to there. -/
theorem path_of_runFor {ending : EndOfInput} {turns : Nat} {first last : CharacterMachine}
    (ends : first.runFor ending turns = some last) :
    last.isHalted = true ∧ ∃ passed, Path (step ending) id first passed last := by
  induction turns generalizing first with
  | zero =>
    rw [runFor] at ends
    split at ends
    next halted => exact Option.some.inj ends ▸ ⟨halted, [], .here⟩
    next => cases ends
  | succ turns ih =>
    rw [runFor] at ends
    split at ends
    next halted => exact Option.some.inj ends ▸ ⟨halted, [], .here⟩
    next =>
      obtain ⟨following, stepped, onwards⟩ := Option.bind_eq_some_iff.mp ends
      obtain ⟨halted, passed, path⟩ := ih onwards
      exact ⟨halted, _, .next stepped path⟩

theorem runFor_of_path {ending : EndOfInput} {ι : Type} {mark : CharacterMachine → ι} {marks : List ι}
    {first last : CharacterMachine} (path : Path (step ending) mark first marks last)
    (halted : last.isHalted = true) : ∃ turns, first.runFor ending turns = some last := by
  induction path with
  | here => exact ⟨0, by rw [runFor, if_pos halted]⟩
  | @next state _ _ _ stepped _ ih =>
    obtain ⟨turns, ends⟩ := ih halted
    have unfinished : ¬state.isHalted = true := by
      intro empty
      obtain ⟨behind, ahead, tape, input, output⟩ := state
      obtain rfl := List.isEmpty_iff.mp empty
      cases stepped
    exact ⟨turns + 1, by rw [runFor, if_neg unfinished, stepped, Option.bind_some, ends]⟩

/-- Where the machine halts the code comes to an end. -/
theorem Mirrors.comes_to_end {loaded : Loaded} {breakpoint : Option Char} {code : List Char}
    (free : Machine.Free loaded)
    (closed : Decoding.takeAll breakpoint ⟨#[], []⟩ 0 code = .ok ⟨loaded.operations, []⟩)
    {count : Nat} {machine final : Machine} {first : CharacterMachine}
    (mirrors : Mirrors loaded breakpoint code first machine)
    (halted : machine.runFor loaded false count = (final, .halted)) :
    ∃ turns last, first.runFor loaded.endOfInput turns = some last := by
  obtain ⟨passed, last, path, -, ends⟩ := mirrors.follows free.unlimited closed halted
  obtain ⟨ended, -⟩ := ends nofun
  rw [free.devices, serve_free] at path
  have finished : last.isHalted = true := by
    unfold outcome? at ended
    split at ended
    next halts => exact halts
    next => simp at ended
  obtain ⟨turns, ends⟩ := runFor_of_path path finished
  exact ⟨turns, last, ends⟩

end CharacterMachine

/-! ## Folded and plain execution -/

/-- Code with matched brackets halts when it is loaded and folded exactly if it comes to an end character
by character, and then with the same output, the same cells and the same place on the tape. Neither
the length of its runs nor the breakpoints among them matter. -/
theorem Machine.load_halts_iff {settings : MachineSettings} (unlimited : settings.stepLimit = none)
    (devices : settings.devices = {}) (positive : 0 < settings.tapeLength) {code : List Char}
    (balanced : Balanced code) (input : List UInt8) :
    ∃ loaded machine, Machine.load settings code input = .ok (loaded, machine) ∧
      ((∃ turns final, machine.runFor loaded false turns = (final, .halted)) ↔
        ∃ turns last, (CharacterMachine.start code (Tape.blank settings.tapeLength positive)
          input).runFor settings.endOfInput turns = some last) ∧
      ∀ turns final others last, machine.runFor loaded false turns = (final, .halted) →
        (CharacterMachine.start code (Tape.blank settings.tapeLength positive) input).runFor
          settings.endOfInput others = some last →
        final.output.toList = last.output ∧ final.tape = last.tape := by
  obtain ⟨loaded, machine, loads, ending, free, closed, starts⟩ :=
    Machine.load_balanced unlimited devices positive balanced input
  have follows {others : Nat} {last : CharacterMachine}
      (ends : (CharacterMachine.start code (Tape.blank settings.tapeLength positive) input).runFor
        settings.endOfInput others = some last) :
      ∃ turns final, machine.runFor loaded false turns = (final, .halted) ∧
        final.tape = last.tape ∧ final.output.toList = last.output := by
    obtain ⟨halted, passed, path⟩ := CharacterMachine.path_of_runFor ends
    obtain ⟨_, _, turns, final, again, run⟩ :=
      Machine.runs_code unlimited devices positive balanced path halted
    obtain ⟨rfl, rfl⟩ := Prod.mk.inj (Except.ok.inj (loads.symm.trans again))
    exact ⟨turns, final, run⟩
  refine ⟨loaded, machine, loads, ⟨?_, ?_⟩, ?_⟩
  · rintro ⟨turns, final, halted⟩
    rw [← ending]
    exact starts.comes_to_end free closed halted
  · rintro ⟨turns, last, ends⟩
    obtain ⟨turns, final, run, -⟩ := follows ends
    exact ⟨turns, final, run⟩
  · intro turns final others last halted ends
    obtain ⟨_, other, run, tape, output⟩ := follows ends
    -- A machine that halts does so in one state.
    obtain rfl := Machine.runFor_halted_unique run halted
    exact ⟨output, tape⟩

/-- Code with a run that comes to nothing, one that goes round the tape, a breakpoint inside a run and
a loop that is left out. -/
def foldingCode : List Char := "+->>>,[->++#+<]>.[[-].]".toList

def foldingSettings : MachineSettings := ⟨3, none, .zero, some '#', {}⟩

theorem Machine.load_halts_iff_foldingCode :
    Balanced foldingCode ∧
      ∃ loaded machine turns final,
        Machine.load foldingSettings foldingCode [2] = .ok (loaded, machine) ∧
        machine.runFor loaded false turns = (final, .halted) ∧
        final.output.toList = [6, 0] ∧ final.tape.pointer = 1 := by
  have balanced : Balanced foldingCode := Balanced.of_scan (by decide +kernel)
  obtain ⟨loaded, machine, loads, halts, agree⟩ :=
    Machine.load_halts_iff (rfl : foldingSettings.stepLimit = none) rfl (by decide) balanced [2]
  have ends : ((CharacterMachine.start foldingCode (Tape.blank 3 (by decide)) [2]).runFor .zero
      60).map (fun last => (last.output, last.tape.pointer)) = some ([6, 0], 1) := by
    decide +kernel
  obtain ⟨last, run, same⟩ := Option.map_eq_some_iff.mp ends
  obtain ⟨turns, final, halted⟩ := halts.mpr ⟨_, last, run⟩
  obtain ⟨output, tape⟩ := agree turns final _ last halted run
  obtain ⟨written, place⟩ := Prod.mk.inj same
  exact ⟨balanced, loaded, machine, turns, final, loads, halted, output.trans written, tape ▸ place⟩

end TapeCode
