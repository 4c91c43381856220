import TapeCode.Proofs.Folding.Machine

/-!
# The machine keeps up with its code

That the machine follows the code is not enough for the way back: a machine that comes to an end must
not be reached by code that goes on for ever. The characters that the machine needs no operation for are
those of a run, and a bracket whose loop the machine is already in. Each of them brings the code
nearer to its last character. The code turns back only to repeat a loop, and for that the machine
executes an operation. So the operations still to be executed, and then the characters still ahead,
are a measure of what is left, and however long a run of the machine is, the code comes as far.
-/
namespace TapeCode

/-! ## Runs of the machine -/

namespace Machine

variable {loaded : Loaded} {stops : Bool} {machine last final : Machine} {turns : Nat}
  {outcome : RunOutcome}

/-- A turn is the last one, however many there might be, or the run goes on behind it. -/
theorem runFor_turn (loaded : Loaded) (stops : Bool) (machine : Machine) :
    (∃ outcome, outcome ≠ .unfinished ∧
      ∀ turns, machine.runFor loaded stops (turns + 1) = ((machine.step loaded).1, outcome)) ∨
    ∀ turns, machine.runFor loaded stops (turns + 1) =
      (machine.step loaded).1.runFor loaded stops turns := by
  simp only [runFor]
  generalize machine.step loaded = result
  obtain ⟨after, error | outcome⟩ := result
  · exact .inl ⟨.failed error, by simp, fun _ => rfl⟩
  cases outcome with
  | running => exact .inr fun _ => rfl
  | halted => exact .inl ⟨.halted, by simp, fun _ => rfl⟩
  | breakpoint =>
    cases stops with
    | true => exact .inl ⟨.breakpoint, by simp, fun _ => rfl⟩
    | false => exact .inr fun _ => rfl

/-- More turns continue a run that has not come to an end, and leave any other as it is. -/
theorem runFor_add (loaded : Loaded) (stops : Bool) (machine : Machine) (turns more : Nat) :
    machine.runFor loaded stops (turns + more) =
      if (machine.runFor loaded stops turns).2 = .unfinished then
        (machine.runFor loaded stops turns).1.runFor loaded stops more
      else machine.runFor loaded stops turns := by
  induction turns generalizing machine with
  | zero => rw [Nat.zero_add, runFor, if_pos rfl]
  | succ turns ih =>
    rw [Nat.add_right_comm]
    obtain ⟨outcome, ended, last⟩ | onwards := runFor_turn loaded stops machine
    · rw [last, last, if_neg ended]
    · rw [onwards, onwards, ih]

/-- A run that came to an end stays as it is when it is given more turns. -/
theorem runFor_more (run : machine.runFor loaded stops turns = (final, outcome))
    (ended : outcome ≠ .unfinished) (more : Nat) :
    machine.runFor loaded stops (turns + more) = (final, outcome) := by
  rw [runFor_add, run, if_neg ended]

/-- All runs that come to an end end in the same state and in the same way. -/
theorem runFor_unique {others : Nat} {other : Machine} {outcomeToo : RunOutcome}
    (run : machine.runFor loaded stops turns = (final, outcome)) (ended : outcome ≠ .unfinished)
    (again : machine.runFor loaded stops others = (other, outcomeToo))
    (endedToo : outcomeToo ≠ .unfinished) : final = other ∧ outcome = outcomeToo := by
  have longer := runFor_more run ended others
  rw [Nat.add_comm, runFor_more again endedToo turns] at longer
  exact Prod.mk.inj longer.symm

theorem execute_output (operation : TapeOperation) :
    machine.output.toList <+: (machine.execute loaded operation).1.output.toList := by
  obtain ⟨tape, next, steps, input, output⟩ := machine
  cases operation with
  | output =>
    simp only [execute, write]
    split <;> simp
  | input =>
    cases input with
    | nil => simp only [execute, read]; split <;> exact List.prefix_rfl
    | cons => exact List.prefix_rfl
  | loopStart | loopEnd => simp only [execute]; split <;> exact List.prefix_rfl
  | move | add | breakpoint => exact List.prefix_rfl

theorem step_output : machine.output.toList <+: (machine.step loaded).1.output.toList := by
  simp only [step]
  split
  next => exact List.prefix_rfl
  next operation _ =>
    split
    next => exact List.prefix_rfl
    next =>
      have grows := @execute_output loaded { machine with steps := machine.steps + 1 } operation
      split
      next executed => rwa [executed] at grows
      next executed => rwa [executed] at grows

theorem output_runFor (loaded : Loaded) (stops : Bool) (machine : Machine) (turns : Nat) :
    machine.output.toList <+: (machine.runFor loaded stops turns).1.output.toList := by
  induction turns generalizing machine with
  | zero => exact List.prefix_rfl
  | succ turns ih =>
    obtain ⟨outcome, -, last⟩ | onwards := runFor_turn loaded stops machine
    · rw [last]
      exact step_output
    · rw [onwards]
      exact step_output.trans (ih _)

/-- What is printed stays printed. -/
theorem runFor_output (loaded : Loaded) (stops : Bool) (machine : Machine) (turns more : Nat) :
    (machine.runFor loaded stops turns).1.output.toList <+:
      (machine.runFor loaded stops (turns + more)).1.output.toList := by
  rw [runFor_add]
  split
  · exact output_runFor ..
  · exact List.prefix_rfl

end Machine

/-! ## The code does not get stuck -/

open TapeOperation (Decoding)

/-- Where more loops are open than in the end, the bracket that closes one of them is ahead. -/
theorem TapeOperation.Decoding.pass_closing {breakpoint : Option Char} {decoding after : Decoding}
    {behind ahead : List Char} {offset depth : Nat}
    (taken : decoding.takeAll breakpoint offset ahead = .ok after)
    (closes : after.opened.length + depth < decoding.opened.length) :
    ∃ passed rest, CharacterMachine.pass '[' ']' depth behind ahead = some (passed, rest) := by
  induction ahead generalizing decoding depth offset behind with
  | nil =>
    obtain rfl := Except.ok.inj taken
    omega
  | cons c ahead ih =>
    simp only [takeAll] at taken
    split at taken
    next => cases taken
    next next here =>
      -- A bracket changes the depth by as much as the number of the open loops.
      by_cases closing : c = ']'
      · subst closing
        cases depth with
        | zero => exact ⟨_, _, rfl⟩
        | succ depth =>
          obtain ⟨operations, opened⟩ := decoding
          cases opened with
          | nil => cases here
          | cons innermost opened =>
            obtain rfl := Except.ok.inj here
            refine ih taken (show after.opened.length + depth < opened.length from ?_)
            simp only [List.length_cons] at closes
            omega
      · simp only [CharacterMachine.pass, closing, if_false]
        by_cases opening : c = '['
        · subst opening
          obtain rfl := Except.ok.inj here
          rw [if_pos rfl]
          refine ih taken ?_
          simp only [openLoop, List.length_cons]
          omega
        · rw [if_neg opening]
          exact ih taken (by rwa [opened_of_other here opening closing])

namespace CharacterMachine

variable {loaded : Loaded} {breakpoint : Option Char} {code behind ahead : List Char} {tape : Tape}
  {machine : Machine} {decoding : Decoding}

theorem pass_shorter {opening closing : Char} {depth : Nat} {behind ahead passed rest : List Char}
    (passes : pass opening closing depth behind ahead = some (passed, rest)) :
    rest.length < ahead.length := by
  induction ahead generalizing depth behind with
  | nil => cases passes
  | cons c ahead ih =>
    simp only [pass] at passes
    split at passes
    · cases depth with
      | zero =>
        obtain ⟨-, rfl⟩ := Prod.mk.inj (Option.some.inj passes)
        exact Nat.lt_succ_self _
      | succ depth => exact Nat.lt_succ_of_lt (ih passes)
    · exact Nat.lt_succ_of_lt (ih passes)

/-- A machine that turns back to repeat a loop. -/
inductive Repeats : CharacterMachine → CharacterMachine → Prop
  | back {behind ahead passed rest : List Char} {tape : Tape} {input output : List UInt8}
    (nonzero : tape.current ≠ 0)
    (passes : pass ']' '[' 0 (']' :: ahead) behind = some (passed, rest)) :
    Repeats ⟨behind, ']' :: ahead, tape, input, output⟩ ⟨rest, passed, tape, input, output⟩

/-- A character that is no bracket leads to the next one. -/
theorem step_plain {c : Char} (opens : c ≠ '[') (closes : c ≠ ']') (ending : EndOfInput)
    (behind ahead : List Char) (tape : Tape) (input output : List UInt8) :
    ∃ following left written,
      CharacterMachine.step ending ⟨behind, c :: ahead, tape, input, output⟩ =
        some ⟨c :: behind, ahead, following, left, written⟩ := by
  simp only [step]
  split
  case h_6 => split <;> exact ⟨_, _, _, rfl⟩
  case h_7 => exact absurd rfl opens
  case h_8 => exact absurd rfl closes
  all_goals exact ⟨_, _, _, rfl⟩

/-- Every character but one that repeats a loop brings the end of the code nearer. -/
theorem step_shorter {ending : EndOfInput} {first following : CharacterMachine}
    (stepped : first.step ending = some following) :
    Repeats first following ∨ following.ahead.length < first.ahead.length := by
  obtain ⟨behind, ahead, tape, input, output⟩ := first
  cases ahead with
  | nil => cases stepped
  | cons c ahead =>
    -- Only a closing bracket can lead back; an opening one leads further than the next character.
    by_cases closes : c = ']'
    · subst closes
      simp only [step] at stepped
      split at stepped
      next =>
        obtain rfl := Option.some.inj stepped
        exact .inr (Nat.lt_succ_self _)
      next nonzero =>
        obtain ⟨⟨passed, rest⟩, passes, rfl⟩ := Option.map_eq_some_iff.mp stepped
        exact .inl (.back nonzero passes)
    · right
      by_cases opens : c = '['
      · subst opens
        simp only [step] at stepped
        split at stepped
        next =>
          obtain ⟨⟨passed, rest⟩, passes, rfl⟩ := Option.map_eq_some_iff.mp stepped
          exact Nat.lt_succ_of_lt (pass_shorter passes)
        next =>
          obtain rfl := Option.some.inj stepped
          exact Nat.lt_succ_self _
      · obtain ⟨_, _, _, onwards⟩ := step_plain opens closes ending behind ahead tape input output
        obtain rfl := Option.some.inj (onwards.symm.trans stepped)
        exact Nat.lt_succ_self _

theorem Mirrors.output {first : CharacterMachine}
    (mirrors : Mirrors loaded breakpoint code first machine) :
    machine.output.toList = first.output := by
  induction mirrors with
  | here _ _ _ _ same => exact same
  | entered _ _ ih => exact ih

/-! ## The way a run ends -/

/-- How a run ends here, if it does: behind the last character, or where the devices refuse the next
one. -/
def outcome? (devices : Devices) (machine : CharacterMachine) : Option Machine.RunOutcome :=
  if machine.isHalted then some .halted
  else (machine.refusal? devices).map fun failure => .failed (.device failure)

theorem outcome?_ended {devices : Devices} {last : CharacterMachine} {outcome : Machine.RunOutcome}
    (ends : last.outcome? devices = some outcome) : outcome ≠ .unfinished := by
  unfold outcome? at ends
  split at ends
  next =>
    obtain rfl := Option.some.inj ends
    simp
  next =>
    obtain ⟨_, -, rfl⟩ := Option.map_eq_some_iff.mp ends
    simp

theorem outcome?_eq_none {devices : Devices} {machine : CharacterMachine} :
    machine.outcome? devices = none ↔
      machine.isHalted = false ∧ machine.refusal? devices = none := by
  unfold outcome?
  split <;> simp_all

/-- An operation that fails ends the run and changes nothing. -/
theorem fails_here (holds : loaded.Holds breakpoint code) {c : Char} {operation : TapeOperation}
    (split : code = behind.reverse ++ c :: ahead)
    (read : Decoding.takeAll breakpoint ⟨#[], []⟩ 0 behind.reverse = .ok decoding)
    (lags : decoding.Lags tape machine)
    (taken : decoding.take breakpoint behind.length c = .ok (decoding.push operation))
    (closed : operation.isFolded = false) (failure : DeviceFailure)
    (fails : ∀ steps, Machine.execute loaded
      ⟨tape, decoding.operations.size, steps, machine.input, machine.output⟩ operation =
        (⟨tape, decoding.operations.size, steps, machine.input, machine.output⟩,
          some (.device failure))) :
    ∃ turns final, machine.runFor loaded false turns = (final, .failed (.device failure)) ∧
      final.tape = tape ∧ final.output = machine.output := by
  obtain ⟨steps, turns, leads⟩ :=
    catches_up holds split read lags taken (by simp [Decoding.push])
  have here := next_operation holds split read taken closed
  refine ⟨turns + 1,
    ⟨tape, decoding.operations.size, steps + 1, machine.input, machine.output⟩, ?_, rfl, rfl⟩
  rw [leads, Machine.runFor]
  simp only [Machine.step, here, holds.unlimited, Option.filter_none, fails]

/-- Where the devices refuse the next character the machine fails. -/
theorem Mirrors.fails (holds : loaded.Holds breakpoint code) {last : CharacterMachine}
    (mirrors : Mirrors loaded breakpoint code last machine) {failure : DeviceFailure}
    (refused : last.refusal? loaded.devices = some failure) :
    ∃ turns final, machine.runFor loaded false turns = (final, .failed (.device failure)) ∧
      final.tape = last.tape ∧ final.output.toList = last.output := by
  cases mirrors with
  | entered => cases refused
  | @here behind ahead tape input output _ decoding split read lags sameInput sameOutput =>
    subst sameInput sameOutput
    -- Devices refuse a write when the output is full and a read when the input is broken.
    unfold refusal? at refused
    split at refused
    next isWrite =>
      obtain ⟨rfl, rfl, rfl, rfl, rfl⟩ := CharacterMachine.mk.inj isWrite
      split at refused
      next full =>
        obtain rfl := Option.some.inj refused
        obtain ⟨turns, final, run, tape, output⟩ :=
          fails_here holds split read lags rfl rfl .output fun steps => by
            rw [Machine.execute, Machine.write, if_pos (by simpa using full)]
        exact ⟨turns, final, run, tape, by rw [output]⟩
      next => cases refused
    next isRead =>
      obtain ⟨rfl, rfl, rfl, empty, rfl⟩ := CharacterMachine.mk.inj isRead
      split at refused
      next broken =>
        obtain rfl := Option.some.inj refused
        obtain ⟨turns, final, run, tape, output⟩ :=
          fails_here holds split read lags rfl rfl .input fun steps => by
            simp [empty, Machine.execute, Machine.read, broken]
        exact ⟨turns, final, run, tape, by rw [output]⟩
      next => cases refused
    next => cases refused

/-- Where the code comes to an end the machine ends in the same way. -/
theorem Mirrors.ends (holds : loaded.Holds breakpoint code) {last : CharacterMachine}
    (mirrors : Mirrors loaded breakpoint code last machine) {outcome : Machine.RunOutcome}
    (ended : last.outcome? loaded.devices = some outcome) :
    ∃ turns final, machine.runFor loaded false turns = (final, outcome) ∧
      final.tape = last.tape ∧ final.output.toList = last.output := by
  unfold outcome? at ended
  split at ended
  next halted =>
    obtain rfl := Option.some.inj ended
    obtain ⟨final, leads, stopped, same⟩ := mirrors.halts holds halted
    obtain ⟨turns, run⟩ := leads.halts stopped
    exact ⟨turns, final, run, same⟩
  next =>
    obtain ⟨failure, refused, rfl⟩ := Option.map_eq_some_iff.mp ended
    exact mirrors.fails holds refused

/-! ## The code comes as far as the machine -/

/-- From here the code comes to an end, or to a place that the machine needs so many turns for. -/
def KeepsUp (loaded : Loaded) (breakpoint : Option Char) (code : List Char) (count : Nat)
    (first : CharacterMachine) (machine : Machine) : Prop :=
  ∃ passed last, Path (serve loaded.devices loaded.endOfInput) id first passed last ∧
    ((last.outcome? loaded.devices).isSome = true ∨
      ∃ turns other, count ≤ turns ∧ Machine.LeadsIn loaded turns machine other ∧
        Mirrors loaded breakpoint code last other)

/-- The turns that a character takes are counted with those behind it. -/
theorem KeepsUp.before {first following : CharacterMachine} {machine between : Machine}
    {count fewer turns : Nat}
    (served : first.serve loaded.devices loaded.endOfInput = some following)
    (leads : Machine.LeadsIn loaded turns machine between) (counts : count ≤ turns + fewer)
    (rest : KeepsUp loaded breakpoint code fewer following between) :
    KeepsUp loaded breakpoint code count first machine := by
  obtain ⟨passed, last, path, ends | ⟨others, other, enough, further, arrives⟩⟩ := rest
  · exact ⟨_, last, .next served path, .inl ends⟩
  · exact ⟨_, last, .next served path,
      .inr ⟨turns + others, other, by omega, leads.trans further, arrives⟩⟩

section

variable (unlimited : loaded.stepLimit = none)
  (closed : Decoding.takeAll breakpoint ⟨#[], []⟩ 0 code = .ok ⟨loaded.operations, []⟩)

include unlimited closed

theorem holds_of_closed : loaded.Holds breakpoint code := ⟨unlimited, _, closed, rfl⟩

/-- All loops of the code are closed at its end, so a bracket that leads elsewhere has a partner. -/
theorem Mirrors.goes_on {first : CharacterMachine}
    (mirrors : Mirrors loaded breakpoint code first machine)
    (unfinished : first.isHalted = false) (ending : EndOfInput) :
    ∃ following, first.step ending = some following := by
  have holds := holds_of_closed unlimited closed
  cases mirrors with
  | entered nonzero inside => simp [CharacterMachine.step, nonzero]
  | @here behind ahead tape input output _ decoding split read lags =>
    cases ahead with
    | nil => cases unfinished
    | cons c ahead =>
      by_cases opens : c = '['
      · subst opens
        by_cases zero : tape.current = 0
        · -- The loop opened here is closed in the end, as all loops are.
          have rest := closed
          rw [split, Decoding.takeAll_append read, Decoding.takeAll] at rest
          obtain ⟨passed, rest, passes⟩ :
              ∃ passed rest, pass '[' ']' 0 ('[' :: behind) ahead = some (passed, rest) :=
            Decoding.pass_closing rest (by simp [Decoding.openLoop])
          simp [CharacterMachine.step, zero, passes]
        · simp [CharacterMachine.step, zero]
      by_cases closes : c = ']'
      · subst closes
        by_cases zero : tape.current = 0
        · simp [CharacterMachine.step, zero]
        -- The bracket closes the innermost loop, which was opened behind.
        · obtain ⟨start, place, opened, -, loops, -⟩ := loopEnd_mirrors holds split read lags
          have innermost : decoding.opened[0]? = some (start, place) := by rw [loops]; rfl
          obtain ⟨inner, outer, -, -, passes, -⟩ := Decoding.pass_back read innermost (']' :: ahead)
          simp [CharacterMachine.step, zero, passes]
      obtain ⟨_, _, _, onwards⟩ := step_plain opens closes ending behind ahead tape input output
      exact ⟨_, onwards⟩

/-- However many turns the machine takes, the code keeps up with it. -/
theorem Mirrors.keepsUp (count : Nat) {machine : Machine} {first : CharacterMachine}
    (mirrors : Mirrors loaded breakpoint code first machine) :
    KeepsUp loaded breakpoint code count first machine := by
  -- The induction is on the turns still asked for, and within them on the characters ahead.
  by_cases ended : (first.outcome? loaded.devices).isSome = true
  · exact ⟨[], first, .here, .inl ended⟩
  by_cases zero : count = 0
  · exact ⟨[], first, .here,
      .inr ⟨0, machine, by omega, fun more => by rw [Nat.zero_add], mirrors⟩⟩
  have holds := holds_of_closed unlimited closed
  obtain ⟨unfinished, granted⟩ : first.isHalted = false ∧ first.refusal? loaded.devices = none := by
    simpa [outcome?_eq_none] using ended
  obtain ⟨following, stepped⟩ := mirrors.goes_on unlimited closed unfinished loaded.endOfInput
  have served := serve_eq_some.mpr ⟨granted, stepped⟩
  rcases step_shorter stepped with turned | shorter
  · -- The loop is repeated, and one turn at least is over.
    obtain ⟨nonzero, passes⟩ := turned
    obtain ⟨split, read, lags, rfl, rfl⟩ := mirrors
    obtain ⟨turns, between, positive, leads, mirrored⟩ :=
      repeat_mirrors holds split read lags nonzero passes
    exact (mirrored.keepsUp (count - 1)).before served leads (by omega)
  · obtain ⟨between, ⟨turns, leads⟩, mirrored⟩ := mirrors.step holds served
    exact (mirrored.keepsUp count).before served leads (by omega)
termination_by (count, first.ahead.length)

/-- Where the code comes to an end along a path the machine ends in the same way. -/
theorem Mirrors.arrives {first last : CharacterMachine} {passed : List CharacterMachine}
    (mirrors : Mirrors loaded breakpoint code first machine)
    (path : Path (serve loaded.devices loaded.endOfInput) id first passed last)
    {outcome : Machine.RunOutcome} (ended : last.outcome? loaded.devices = some outcome) :
    ∃ turns final, machine.runFor loaded false turns = (final, outcome) ∧
      final.tape = last.tape ∧ final.output.toList = last.output := by
  have holds := holds_of_closed unlimited closed
  obtain ⟨other, ⟨others, leads⟩, mirrored⟩ := mirrors.path holds path
  obtain ⟨turns, final, run, same⟩ := mirrored.ends holds ended
  exact ⟨others + turns, final, leads turns ▸ run, same⟩

/-- What the code prints along a path the machine prints. -/
theorem Mirrors.prints {first last : CharacterMachine} {passed : List CharacterMachine}
    (mirrors : Mirrors loaded breakpoint code first machine)
    (path : Path (serve loaded.devices loaded.endOfInput) id first passed last) :
    ∃ turns, (machine.runFor loaded false turns).1.output.toList = last.output := by
  obtain ⟨other, ⟨turns, leads⟩, mirrored⟩ :=
    mirrors.path (holds_of_closed unlimited closed) path
  exact ⟨turns, by rw [show turns = turns + 0 from rfl, leads]; exact mirrored.output⟩

/-- Any run of the machine is one of the code: it prints no more, and if it comes to an end so does the
code, in the same way. -/
theorem Mirrors.follows {first : CharacterMachine} {count : Nat} {final : Machine}
    {outcome : Machine.RunOutcome} (mirrors : Mirrors loaded breakpoint code first machine)
    (run : machine.runFor loaded false count = (final, outcome)) :
    ∃ passed last, Path (serve loaded.devices loaded.endOfInput) id first passed last ∧
      final.output.toList <+: last.output ∧
      (outcome ≠ .unfinished → last.outcome? loaded.devices = some outcome ∧
        final.tape = last.tape ∧ final.output.toList = last.output) := by
  obtain ⟨passed, last, path, ends | ⟨turns, other, enough, leads, mirrored⟩⟩ :=
    mirrors.keepsUp unlimited closed count
  · obtain ⟨reached, ends⟩ := Option.isSome_iff_exists.mp ends
    obtain ⟨turns, stopped, again, tape, output⟩ := mirrors.arrives unlimited closed path ends
    have ended := outcome?_ended ends
    refine ⟨passed, last, path, ?_, fun finished => ?_⟩
    · have grows := Machine.runFor_output loaded false machine count turns
      rwa [run, Nat.add_comm, Machine.runFor_more again ended, output] at grows
    · obtain ⟨rfl, rfl⟩ := Machine.runFor_unique run finished again ended
      exact ⟨ends, tape, output⟩
  · obtain ⟨more, rfl⟩ := Nat.exists_eq_add_of_le enough
    have arrived := leads 0
    rw [Nat.add_zero] at arrived
    refine ⟨passed, last, path, ?_, fun finished => ?_⟩
    · have grows := Machine.runFor_output loaded false machine count more
      rwa [run, arrived, Machine.runFor, mirrored.output] at grows
    · -- A run that had ended before would have ended after these turns too.
      rw [Machine.runFor_more run finished] at arrived
      exact absurd (congrArg Prod.snd arrived) finished

end

end CharacterMachine

end TapeCode
