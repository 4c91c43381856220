import TapeCode.Proofs.Emission
import TapeCode.Proofs.Folding.Progress

/-!
# Comments in tape code

Texts with the same commands run alike. The machine that goes character by character passes over a
comment and is then where it would be without it; so it takes the same path, less the comments, through
both texts. The machine with folded operations need not: a breakpoint in a run makes two operations of
it, and the turns that are taken are others. But it keeps up with the characters, and they with it.
-/
namespace TapeCode

/-- The text without its comments. -/
def commands (text : List Char) : List Char := text.filter isCommand

theorem commands_append (first second : List Char) :
    commands (first ++ second) = commands first ++ commands second := List.filter_append ..

theorem Silent.commands_eq {text : List Char} (silent : Silent text) : commands text = [] :=
  List.filter_eq_nil_iff.mpr fun c member => by simp [silent c member]

theorem commands_cons {c : Char} (command : isCommand c = true) (text : List Char) :
    commands (c :: text) = c :: commands text := List.filter_cons_of_pos command

theorem commands_comment {c : Char} (comment : ¬isCommand c = true) (text : List Char) :
    commands (c :: text) = commands text := List.filter_cons_of_neg comment

theorem Balanced.scan_commands (depth : Nat) (code : List Char) :
    scan depth (commands code) = scan depth code := by
  induction code generalizing depth with
  | nil => rfl
  | cons c code ih =>
    by_cases command : isCommand c = true
    · rw [commands_cons command]
      by_cases opens : c = '['
      · subst opens
        exact ih (depth + 1)
      by_cases closes : c = ']'
      · subst closes
        cases depth with
        | zero => rfl
        | succ depth => exact ih depth
      have plain : isPlain c = true := by simp [isPlain, opens, closes]
      rw [scan_plain plain, scan_plain plain, ih]
    · have plain : isPlain c = true := by
        refine Bool.and_eq_true_iff.mpr ⟨decide_eq_true ?_, decide_eq_true ?_⟩ <;>
        · rintro rfl
          exact command rfl
      rw [commands_comment command, scan_plain plain, ih]

namespace CharacterMachine

variable {devices : Devices} {ending : EndOfInput}

/-- The machine as it would be in code without comments. -/
def bare (machine : CharacterMachine) : CharacterMachine :=
  { machine with behind := commands machine.behind, ahead := commands machine.ahead }

/-- The next character is a command, if there is one. -/
def Attends (machine : CharacterMachine) : Prop := ∀ c ∈ machine.ahead.head?, isCommand c = true

theorem pass_commands {opening closing : Char} (opens : isCommand opening = true)
    (closes : isCommand closing = true) (depth : Nat) (behind ahead : List Char) :
    pass opening closing depth (commands behind) (commands ahead) =
      (pass opening closing depth behind ahead).map fun (passed, rest) =>
        (commands passed, commands rest) := by
  induction ahead generalizing depth behind with
  | nil => rfl
  | cons c ahead ih =>
    by_cases command : isCommand c = true
    · have next := commands_cons command
      by_cases isClosing : c = closing
      · subst isClosing
        cases depth with
        | zero => simp [next, pass]
        | succ depth => simp [next, pass, ← ih]
      · simp [next, pass, isClosing, ← ih]
    · have other : c ≠ closing ∧ c ≠ opening := by
        constructor <;>
        · rintro rfl
          contradiction
      rw [commands_comment command, ← commands_comment command behind, ih]
      simp only [pass, other.1, other.2, if_false]

theorem eq_of_command {c : Char} (command : isCommand c = true) :
    c = '<' ∨ c = '>' ∨ c = '+' ∨ c = '-' ∨ c = '.' ∨ c = ',' ∨ c = '[' ∨ c = ']' := by
  simpa [isCommand] using command

/-- A comment is passed over. -/
theorem serve_comment {c : Char} (comment : ¬isCommand c = true) (behind ahead : List Char)
    (tape : Tape) (input output : List UInt8) :
    serve devices ending ⟨behind, c :: ahead, tape, input, output⟩ =
      some ⟨c :: behind, ahead, tape, input, output⟩ := by
  refine serve_eq_some.mpr ⟨?_, ?_⟩
  · unfold refusal?
    split
    next same => cases same; exact absurd rfl comment
    next same => cases same; exact absurd rfl comment
    next => rfl
  · simp only [step]
    split <;> first | rfl | exact absurd rfl comment

theorem refusal?_bare {machine : CharacterMachine} (attends : machine.Attends) :
    machine.bare.refusal? devices = machine.refusal? devices := by
  obtain ⟨behind, ahead, tape, input, output⟩ := machine
  cases ahead with
  | nil => rfl
  | cons c ahead =>
    have command : isCommand c = true := attends c rfl
    rw [bare, commands_cons command]
    obtain rfl | rfl | rfl | rfl | rfl | rfl | rfl | rfl := eq_of_command command <;>
    cases input <;> rfl

theorem step_bare {machine : CharacterMachine} (attends : machine.Attends) :
    machine.bare.step ending = (machine.step ending).map bare := by
  obtain ⟨behind, ahead, tape, input, output⟩ := machine
  cases ahead with
  | nil => rfl
  | cons c ahead =>
    have command : isCommand c = true := attends c rfl
    have passed := commands_cons command behind
    rw [bare, commands_cons command]
    obtain rfl | rfl | rfl | rfl | rfl | rfl | rfl | rfl := eq_of_command command
    case inr.inr.inr.inr.inr.inl => cases input <;> simp [step, bare, passed]
    case inr.inr.inr.inr.inr.inr.inl =>
      by_cases zero : tape.current = 0
      · have leads := @pass_commands '[' ']' rfl rfl 0 ('[' :: behind) ahead
        rw [passed] at leads
        simp [step, zero, leads, bare, Function.comp_def]
      · simp [step, zero, bare, passed]
    case inr.inr.inr.inr.inr.inr.inr =>
      by_cases zero : tape.current = 0
      · simp [step, zero, bare, passed]
      · have leads := @pass_commands ']' '[' rfl rfl 0 (']' :: ahead) behind
        rw [commands_cons command] at leads
        simp [step, zero, leads, bare, Function.comp_def]
    all_goals simp [step, bare, passed]

theorem serve_bare {machine : CharacterMachine} (attends : machine.Attends) :
    machine.bare.serve devices ending = (machine.serve devices ending).map bare := by
  rw [serve, serve, refusal?_bare attends, step_bare attends]
  split <;> rfl

theorem outcome?_bare {machine : CharacterMachine} (attends : machine.Attends) :
    machine.bare.outcome? devices = machine.outcome? devices := by
  have halts : machine.bare.isHalted = machine.isHalted := by
    obtain ⟨behind, ahead, tape, input, output⟩ := machine
    cases ahead with
    | nil => rfl
    | cons c ahead =>
      rw [bare, commands_cons (attends c rfl)]
      rfl
  rw [outcome?, outcome?, halts, refusal?_bare attends]

/-- A machine that has come to an end is behind its code or at a command that is refused. -/
theorem attends_of_outcome {machine : CharacterMachine} {outcome : Machine.RunOutcome}
    (ended : machine.outcome? devices = some outcome) : machine.Attends := by
  obtain ⟨behind, ahead, tape, input, output⟩ := machine
  rintro c first
  by_contra comment
  cases ahead with
  | nil => cases first
  | cons next ahead =>
    obtain rfl : next = c := Option.some.inj first
    have served := @serve_comment devices .zero next comment behind ahead tape input output
    rw [outcome?, (serve_eq_some.mp served).1] at ended
    cases ended

/-! ## Paths -/

/-- Comments ahead are passed over up to the next command. -/
theorem comes_to_command (devices : Devices) (ending : EndOfInput) (machine : CharacterMachine) :
    ∃ passed last, Path (serve devices ending) id machine passed last ∧
      last.bare = machine.bare ∧ last.Attends := by
  obtain ⟨behind, ahead, tape, input, output⟩ := machine
  induction ahead generalizing behind with
  | nil => exact ⟨[], _, .here, rfl, nofun⟩
  | cons c ahead ih =>
    by_cases command : isCommand c = true
    · exact ⟨[], _, .here, rfl, fun next first => Option.some.inj first ▸ command⟩
    · obtain ⟨passed, last, path, same, attends⟩ := ih (c :: behind)
      refine ⟨_, last, .next (serve_comment command behind ahead tape input output) path, ?_, attends⟩
      rw [same, bare, bare, commands_comment command, commands_comment command]

/-- Without the comments the machine takes the same path. -/
theorem path_bare {first last : CharacterMachine} {passed : List CharacterMachine}
    (path : Path (serve devices ending) id first passed last) :
    ∃ others, Path (serve devices ending) id first.bare others last.bare := by
  induction path with
  | here => exact ⟨[], .here⟩
  | @next state following last passed served _ ih =>
    obtain ⟨others, onwards⟩ := ih
    by_cases attends : state.Attends
    · exact ⟨_, .next (by rw [serve_bare attends, served]; rfl) onwards⟩
    · -- A comment takes no step of the other path.
      obtain ⟨behind, ahead, tape, input, output⟩ := state
      cases ahead with
      | nil => exact absurd nofun attends
      | cons c ahead =>
        have comment : ¬isCommand c = true := fun command =>
          attends fun next first => Option.some.inj first ▸ command
        obtain rfl := Option.some.inj ((serve_comment comment ..).symm.trans served)
        have same : bare ⟨behind, c :: ahead, tape, input, output⟩ =
            bare ⟨c :: behind, ahead, tape, input, output⟩ := by
          rw [bare, bare, commands_comment comment, commands_comment comment]
        exact ⟨others, same ▸ onwards⟩

/-- And with comments it takes the path that it takes without them. -/
theorem path_of_bare {start last : CharacterMachine} {passed : List CharacterMachine}
    (path : Path (serve devices ending) id start passed last) {first : CharacterMachine}
    (same : first.bare = start) :
    ∃ others reached, Path (serve devices ending) id first others reached ∧ reached.bare = last ∧
      reached.Attends := by
  induction path generalizing first with
  | here =>
    obtain ⟨others, reached, path, stays, attends⟩ := comes_to_command devices ending first
    exact ⟨others, reached, path, stays.trans same, attends⟩
  | next served _ ih =>
    -- Without the comments the machine is at a command, so they are passed over first.
    obtain ⟨comments, between, begins, stays, attends⟩ := comes_to_command devices ending first
    rw [← same, ← stays, serve_bare attends] at served
    obtain ⟨following, stepped, arrives⟩ := Option.map_eq_some_iff.mp served
    obtain ⟨others, reached, onwards, ends⟩ := ih arrives
    exact ⟨_, reached, begins.append (.next stepped onwards), ends⟩

/-- Texts with the same commands take the machine the same way. -/
theorem path_alike {first second last : CharacterMachine} {passed : List CharacterMachine}
    (same : first.bare = second.bare) (path : Path (serve devices ending) id first passed last) :
    ∃ others reached, Path (serve devices ending) id second others reached ∧
      reached.tape = last.tape ∧ reached.output = last.output ∧
      ∀ outcome, last.outcome? devices = some outcome → reached.outcome? devices = some outcome := by
  obtain ⟨between, bare⟩ := path_bare path
  obtain ⟨others, reached, onwards, ends, attends⟩ := path_of_bare bare same.symm
  have tapes : reached.bare.tape = last.bare.tape := by rw [ends]
  have outputs : reached.bare.output = last.bare.output := by rw [ends]
  refine ⟨others, reached, onwards, tapes, outputs, ?_⟩
  intro outcome ended
  rw [← outcome?_bare attends, ends, outcome?_bare (attends_of_outcome ended), ended]

end CharacterMachine

/-! ## Machines with folded operations -/

/-- Whatever the second machine comes to, the first one comes to as well: the same end, on the same tape
and with the same output. On the way it prints all that the second one prints. -/
structure Machine.Follows (loaded : Loaded) (machine : Machine) (other : Loaded) (second : Machine) :
    Prop where
  ends : ∀ turns final outcome, second.runFor other false turns = (final, outcome) →
    outcome ≠ .unfinished → ∃ others last, machine.runFor loaded false others = (last, outcome) ∧
      last.tape = final.tape ∧ last.output.toList = final.output.toList
  prints : ∀ turns, ∃ others, (second.runFor other false turns).1.output.toList <+:
    (machine.runFor loaded false others).1.output.toList

/-- Texts that a machine without a limit runs alike, if it can load them, whatever it takes for a
breakpoint. -/
def RunsAlike (code other : List Char) : Prop :=
  ∀ (settings : MachineSettings) (breakpoint : Option Char) (input : List UInt8),
    settings.stepLimit = none →
    ((∃ error, Machine.load settings code input = .error error) ∧
      ∃ error, Machine.load { settings with breakpoint := breakpoint } other input = .error error) ∨
    ∃ loaded machine loadedOther second,
      Machine.load settings code input = .ok (loaded, machine) ∧
      Machine.load { settings with breakpoint := breakpoint } other input =
        .ok (loadedOther, second) ∧
      machine.Follows loaded loadedOther second ∧ second.Follows loadedOther loaded machine

/-- A text can be loaded exactly if its brackets match and there is a tape. -/
theorem Machine.load_ok_iff {settings : MachineSettings} {code : List Char} {input : List UInt8} :
    (∃ loaded machine, load settings code input = .ok (loaded, machine)) ↔
      0 < settings.tapeLength ∧ Balanced.scan 0 code = true := by
  constructor
  · rintro ⟨loaded, machine, loads⟩
    unfold load at loads
    split at loads
    next positive =>
      refine ⟨positive, ?_⟩
      split at loads
      next => cases loads
      next operations decoded =>
        refine (@TapeOperation.Decoding.takeAll_closes_iff settings.breakpoint 0 ⟨#[], []⟩ code).mp
          ⟨operations, ?_⟩
        unfold TapeOperation.decode at decoded
        split at decoded
        next => cases decoded
        next taken => exact Except.ok.inj decoded ▸ taken
        next => cases decoded
    next => cases loads
  · rintro ⟨positive, matched⟩
    obtain ⟨operations, machine, loads, -⟩ :=
      load_mirrors positive (Balanced.of_scan matched) input
    exact ⟨_, machine, loads⟩

/-- A machine without a limit that has code loaded, with all its loops closed, and is where the code
is. -/
structure CharacterMachine.Drives (devices : Devices) (ending : EndOfInput)
    (first : CharacterMachine) (loaded : Loaded) (machine : Machine) : Prop where
  unlimited : loaded.stepLimit = none
  devices : loaded.devices = devices
  ending : loaded.endOfInput = ending
  mirrors : ∃ breakpoint code,
    TapeOperation.Decoding.takeAll breakpoint ⟨#[], []⟩ 0 code = .ok ⟨loaded.operations, []⟩ ∧
    Mirrors loaded breakpoint code first machine

theorem CharacterMachine.Drives.follows {devices : Devices} {ending : EndOfInput}
    {first start : CharacterMachine} {loaded other : Loaded} {machine second : Machine}
    (drives : Drives devices ending first loaded machine)
    (drivesToo : Drives devices ending start other second) (same : start.bare = first.bare) :
    machine.Follows loaded other second := by
  obtain ⟨unlimited, rfl, rfl, breakpoint, code, closed, mirrors⟩ := drives
  obtain ⟨unlimitedToo, sameDevices, sameEnding, breakpointToo, codeToo, closedToo, mirrorsToo⟩ :=
    drivesToo
  constructor
  case ends =>
    intro turns final outcome run finished
    obtain ⟨passed, last, path, -, ends⟩ := mirrorsToo.follows unlimitedToo closedToo run
    obtain ⟨ended, tape, output⟩ := ends finished
    rw [sameDevices] at path ended
    rw [sameEnding] at path
    -- The character machines of both texts go the same way, and each machine follows its own.
    obtain ⟨others, reached, onwards, sameTape, sameOutput, alike⟩ := path_alike same path
    obtain ⟨turns, arrived, runToo, tapeToo, outputToo⟩ :=
      mirrors.arrives unlimited closed onwards (alike outcome ended)
    exact ⟨turns, arrived, runToo, by rw [tapeToo, sameTape, tape],
      by rw [outputToo, sameOutput, output]⟩
  case prints =>
    intro turns
    obtain ⟨passed, last, path, prints, -⟩ := mirrorsToo.follows unlimitedToo closedToo
      (rfl : second.runFor other false turns = (_, _))
    rw [sameDevices, sameEnding] at path
    obtain ⟨others, reached, onwards, -, sameOutput, -⟩ := path_alike same path
    obtain ⟨more, printsToo⟩ := mirrors.prints unlimited closed onwards
    exact ⟨more, by rwa [printsToo, sameOutput]⟩

/-- Comments and breakpoints make no difference to a run. -/
theorem RunsAlike.of_commands {code other : List Char} (same : commands code = commands other) :
    RunsAlike code other := by
  intro settings breakpoint input unlimited
  by_cases loads : 0 < settings.tapeLength ∧ Balanced.scan 0 code = true
  · obtain ⟨positive, matched⟩ := loads
    -- Whether brackets match is seen from the commands alone.
    have matchedToo : Balanced.scan 0 other = true := by
      rw [← Balanced.scan_commands, ← same, Balanced.scan_commands, matched]
    obtain ⟨operations, machine, loads, closed, starts⟩ :=
      Machine.load_mirrors positive (.of_scan matched) input
    obtain ⟨operationsToo, second, loadsToo, closedToo, startsToo⟩ :=
      @Machine.load_mirrors { settings with breakpoint := breakpoint } positive other
        (.of_scan matchedToo) input
    have drives := CharacterMachine.Drives.mk unlimited rfl rfl ⟨_, _, closed, starts⟩
    have drivesToo := CharacterMachine.Drives.mk unlimited rfl rfl ⟨_, _, closedToo, startsToo⟩
    have bare {tape : Tape} : (CharacterMachine.start code tape input).bare =
        (CharacterMachine.start other tape input).bare := by
      simp only [CharacterMachine.start, CharacterMachine.bare, same]
    exact .inr ⟨_, machine, _, second, loads, loadsToo, drives.follows drivesToo bare.symm,
      drivesToo.follows drives bare⟩
  · -- Neither can be loaded.
    left
    have fails {settings : MachineSettings} {code : List Char}
        (unmatched : ¬(0 < settings.tapeLength ∧ Balanced.scan 0 code = true)) :
        ∃ error, Machine.load settings code input = .error error := by
      cases result : Machine.load settings code input with
      | error error => exact ⟨error, rfl⟩
      | ok pair => exact absurd (Machine.load_ok_iff.mp ⟨_, _, result⟩) unmatched
    refine ⟨fails loads, fails ?_⟩
    rwa [← Balanced.scan_commands 0 other, ← same, Balanced.scan_commands]

end TapeCode
