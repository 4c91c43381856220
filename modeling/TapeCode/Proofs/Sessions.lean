import TapeCode.Proofs.Folding.Progress

/-!
# Limits and sessions

A machine that may execute only so many operations does what it does without a limit, until an operation
is one too many. An operation that is refused, by the limit or by a device, is counted and has no other
effect. A machine that is driven from outside, one operation, one breakpoint or one whole run at a time,
goes the way of a single run.
-/
namespace TapeCode

/-- The same code with another limit. -/
def Loaded.withLimit (loaded : Loaded) (limit : Option Nat) : Loaded :=
  { loaded with stepLimit := limit }

namespace Machine

variable {loaded : Loaded} {stops : Bool} {machine middle after final : Machine} {turns limit : Nat}
  {error : RuntimeError} {outcome : StepOutcome}

/-! ## One operation -/

/-- The limit is not asked for while an operation is executed. -/
theorem execute_withLimit (machine : Machine) (operation : TapeOperation) (limit : Option Nat) :
    machine.execute (loaded.withLimit limit) operation = machine.execute loaded operation := by
  cases operation <;> rfl

/-- Only a device keeps an operation from its effect, and then there is none. -/
theorem execute_failed {operation : TapeOperation}
    (failed : machine.execute loaded operation = (after, some error)) :
    after = machine ∧ ∃ failure, error = .device failure := by
  obtain ⟨tape, next, steps, input, output⟩ := machine
  cases operation with
  | output =>
    simp only [execute, write] at failed
    split at failed
    · obtain ⟨rfl, same⟩ := Prod.mk.inj failed
      exact ⟨rfl, .output, (Option.some.inj same).symm⟩
    · cases failed
  | input =>
    cases input with
    | cons => cases failed
    | nil =>
      simp only [execute, read] at failed
      split at failed
      · obtain ⟨rfl, same⟩ := Prod.mk.inj failed
        exact ⟨rfl, .input, (Option.some.inj same).symm⟩
      · cases failed
  | move | add | loopStart | loopEnd | breakpoint => cases failed

/-- No operation changes the count, which is for `step` to do. -/
theorem execute_steps (machine : Machine) (operation : TapeOperation) :
    (machine.execute loaded operation).1.steps = machine.steps := by
  obtain ⟨tape, next, steps, input, output⟩ := machine
  cases operation with
  | output => simp only [execute, write]; split <;> rfl
  | input =>
    cases input with
    | cons => rfl
    | nil => simp only [execute, read]; split <;> rfl
  | loopStart | loopEnd => simp only [execute]; split <;> rfl
  | move | add | breakpoint => rfl

/-- What a step comes to. -/
inductive Stepped (loaded : Loaded) (machine : Machine) : Machine × Except RuntimeError StepOutcome → Prop
  | halted (ended : machine.isHalted loaded = true) : Stepped loaded machine (machine, .ok .halted)
  | limited {limit : Nat} (onwards : machine.isHalted loaded = false)
      (limits : loaded.stepLimit = some limit) (reached : limit ≤ machine.steps) :
      Stepped loaded machine ({ machine with steps := machine.steps + 1 }, .error (.stepLimit limit))
  | refused {failure : DeviceFailure}
      (within : ∀ limit, loaded.stepLimit = some limit → machine.steps + 1 ≤ limit) :
      Stepped loaded machine ({ machine with steps := machine.steps + 1 }, .error (.device failure))
  | done {after : Machine} {outcome : StepOutcome} (goesOn : outcome ≠ .halted)
      (counted : after.steps = machine.steps + 1)
      (within : ∀ limit, loaded.stepLimit = some limit → after.steps ≤ limit) :
      Stepped loaded machine (after, .ok outcome)

theorem step_stepped (loaded : Loaded) (machine : Machine) :
    Stepped loaded machine (machine.step loaded) := by
  simp only [step]
  split
  next found => exact .halted (by simpa [isHalted] using found)
  next operation found =>
    have onwards : machine.isHalted loaded = false := by
      obtain ⟨inside, -⟩ := Array.getElem?_eq_some_iff.mp found
      simpa [isHalted] using inside
    split
    next limit exceeded =>
      obtain ⟨limits, reached⟩ := Option.filter_eq_some_iff.mp exceeded
      exact .limited onwards limits (Nat.le_of_lt_succ (by simpa using reached))
    next permitted =>
      have within : ∀ limit, loaded.stepLimit = some limit → machine.steps + 1 ≤ limit := by
        intro limit limits
        rw [limits, Option.filter_eq_none_iff] at permitted
        simpa using permitted limit rfl
      split
      next after error executed =>
        obtain ⟨rfl, failure, rfl⟩ := execute_failed executed
        exact .refused within
      next after executed =>
        have counted : after.steps = machine.steps + 1 := by
          have same := @execute_steps loaded { machine with steps := machine.steps + 1 } operation
          rwa [executed] at same
        exact .done (by split <;> simp) counted fun limit limits => counted ▸ within limit limits

/-- A step that fails has no effect but that it is counted. -/
theorem step_failed (failed : machine.step loaded = (after, .error error)) :
    after = { machine with steps := machine.steps + 1 } := by
  have stepping := step_stepped loaded machine
  rw [failed] at stepping
  cases stepping <;> rfl

/-- Below the limit a step does what it does without one. -/
theorem step_withLimit (below : machine.steps < limit) :
    machine.step (loaded.withLimit (some limit)) = machine.step (loaded.withLimit none) := by
  have passes : (some limit).filter (fun limit => decide (limit < machine.steps + 1)) = none := by
    simpa using Nat.succ_le_of_lt below
  simp only [step, execute_withLimit]
  simp only [Loaded.withLimit, passes, Option.filter_none]

/-- At the limit an operation is refused. -/
theorem step_at_limit (onwards : machine.isHalted loaded = false)
    (limits : loaded.stepLimit = some limit) (reached : limit ≤ machine.steps) :
    machine.step loaded =
      ({ machine with steps := machine.steps + 1 }, .error (.stepLimit limit)) := by
  have stepping := step_stepped loaded machine
  generalize machine.step loaded = result at stepping
  cases stepping with
  | halted ended => exact absurd (ended.symm.trans onwards) nofun
  | limited _ limitsToo =>
    obtain rfl := Option.some.inj (limits.symm.trans limitsToo)
    rfl
  | refused within => exact absurd (within limit limits) (by omega)
  | done _ counted within => exact absurd (counted ▸ within limit limits) (by omega)

theorem step_halted (halted : machine.isHalted loaded = true) :
    machine.step loaded = (machine, .ok .halted) := by
  have behind : loaded.operations[machine.next]? = none := by simpa [isHalted] using halted
  simp only [step, behind]

theorem isHalted_of_step (stepped : machine.step loaded = (after, .ok .halted)) :
    after = machine ∧ machine.isHalted loaded = true := by
  have stepping := step_stepped loaded machine
  rw [stepped] at stepping
  cases stepping with
  | halted ended => exact ⟨rfl, ended⟩
  | done goesOn => exact absurd rfl goesOn

/-! ## Runs -/

/-- A run that came to an end did so in the turn behind one that it was to be continued after. -/
theorem runFor_ends {outcome : RunOutcome}
    (run : machine.runFor loaded stops turns = (final, outcome)) (ended : outcome ≠ .unfinished) :
    ∃ count middle, count < turns ∧ machine.runFor loaded stops count = (middle, .unfinished) ∧
      middle.runFor loaded stops 1 = (final, outcome) := by
  induction turns with
  | zero =>
    obtain ⟨-, rfl⟩ := Prod.mk.inj run
    exact absurd rfl ended
  | succ turns ih =>
    rw [runFor_add] at run
    split at run
    next unfinished => exact ⟨turns, _, Nat.lt_succ_self _, Prod.ext rfl unfinished, run⟩
    next =>
      obtain ⟨count, middle, before, reached, last⟩ := ih run
      exact ⟨count, middle, Nat.lt_succ_of_lt before, reached, last⟩

/-- What a single turn comes to. -/
def RunOutcome.ofStep (stops : Bool) : Except RuntimeError StepOutcome → RunOutcome
  | .error error => .failed error
  | .ok .halted => .halted
  | .ok .breakpoint => if stops then .breakpoint else .unfinished
  | .ok .running => .unfinished

theorem runFor_one (loaded : Loaded) (stops : Bool) (machine : Machine) :
    machine.runFor loaded stops 1 =
      ((machine.step loaded).1, .ofStep stops (machine.step loaded).2) := by
  simp only [runFor]
  generalize machine.step loaded = result
  obtain ⟨after, error | outcome⟩ := result
  · rfl
  · cases outcome with
    | breakpoint => cases stops <;> rfl
    | running | halted => rfl

theorem RunOutcome.ofStep_eq_unfinished {result : Except RuntimeError StepOutcome} :
    ofStep stops result = .unfinished ↔
      ∃ outcome, result = .ok outcome ∧ outcome ≠ .halted ∧
        (stops = true → outcome ≠ .breakpoint) := by
  rcases result with error | outcome
  · simp [ofStep]
  · cases outcome <;> simp [ofStep]

theorem RunOutcome.ofStep_eq_halted {result : Except RuntimeError StepOutcome} :
    ofStep stops result = .halted ↔ result = .ok .halted := by
  rcases result with error | outcome
  · simp [ofStep]
  · cases outcome <;> cases stops <;> simp [ofStep]

/-- A run of one more turn is to be continued if the last turn executes an operation. -/
theorem runFor_succ_unfinished :
    machine.runFor loaded stops (turns + 1) = (after, .unfinished) ↔
      ∃ middle outcome, machine.runFor loaded stops turns = (middle, .unfinished) ∧
        middle.step loaded = (after, .ok outcome) ∧ outcome ≠ .halted ∧
        (stops = true → outcome ≠ .breakpoint) := by
  rw [runFor_add]
  constructor
  · intro run
    split at run
    next unfinished =>
      rw [runFor_one, Prod.mk.injEq, RunOutcome.ofStep_eq_unfinished] at run
      obtain ⟨rfl, outcome, stepped, goesOn⟩ := run
      exact ⟨_, outcome, Prod.ext rfl unfinished, Prod.ext rfl stepped, goesOn⟩
    next ended => exact absurd (congrArg Prod.snd run) ended
  · rintro ⟨middle, outcome, run, stepped, goesOn⟩
    rw [run, if_pos rfl, runFor_one, stepped, Prod.mk.injEq]
    exact ⟨rfl, RunOutcome.ofStep_eq_unfinished.mpr ⟨outcome, rfl, goesOn⟩⟩

/-- A run that is to be continued has executed as many operations as it had turns. -/
theorem runFor_steps (run : machine.runFor loaded stops turns = (after, .unfinished)) :
    after.steps = machine.steps + turns := by
  induction turns generalizing after with
  | zero =>
    obtain ⟨rfl, -⟩ := Prod.mk.inj run
    rfl
  | succ turns ih =>
    obtain ⟨middle, outcome, before, stepped, goesOn, -⟩ := runFor_succ_unfinished.mp run
    have stepping := step_stepped loaded middle
    rw [stepped] at stepping
    cases stepping with
    | halted => exact absurd rfl goesOn
    | done _ counted => rw [counted, ih before, Nat.add_assoc]

/-- A run halts where it comes to the end of the code. -/
theorem halts_iff : (∃ turns, machine.runFor loaded stops turns = (final, .halted)) ↔
    ∃ turns, machine.runFor loaded stops turns = (final, .unfinished) ∧
      final.isHalted loaded = true := by
  constructor
  · rintro ⟨turns, run⟩
    obtain ⟨count, middle, -, before, last⟩ := runFor_ends run nofun
    rw [runFor_one, Prod.mk.injEq, RunOutcome.ofStep_eq_halted] at last
    obtain ⟨rfl, ended⟩ := isHalted_of_step (Prod.ext last.1 last.2)
    exact ⟨count, before, ended⟩
  · rintro ⟨turns, run, ended⟩
    refine ⟨turns + 1, ?_⟩
    rw [runFor_add, run, if_pos rfl, runFor, step_halted ended]

/-! ## Runs with a limit -/

/-- Up to the limit, a run does what it does without one. -/
theorem runFor_withLimit (within : machine.steps + turns ≤ limit) :
    machine.runFor (loaded.withLimit (some limit)) stops turns = (after, .unfinished) ↔
      machine.runFor (loaded.withLimit none) stops turns = (after, .unfinished) := by
  induction turns generalizing after with
  | zero => rfl
  | succ turns ih =>
    have before {middle : Machine} := @ih middle (by omega)
    -- The operation that the last turn executes is not beyond the limit.
    have same {middle : Machine}
        (run : machine.runFor (loaded.withLimit none) stops turns = (middle, .unfinished)) :
        middle.step (loaded.withLimit (some limit)) = middle.step (loaded.withLimit none) :=
      step_withLimit (by rw [runFor_steps run]; omega)
    simp only [runFor_succ_unfinished, before]
    constructor
    · rintro ⟨middle, outcome, run, stepped, goesOn⟩
      exact ⟨middle, outcome, run, same run ▸ stepped, goesOn⟩
    · rintro ⟨middle, outcome, run, stepped, goesOn⟩
      exact ⟨middle, outcome, run, (same run).trans stepped, goesOn⟩

/-- No run executes more operations than the limit allows. -/
theorem runFor_within (limits : loaded.stepLimit = some limit) (begins : machine.steps ≤ limit)
    (run : machine.runFor loaded stops turns = (after, .unfinished)) : after.steps ≤ limit := by
  cases turns with
  | zero =>
    obtain ⟨rfl, -⟩ := Prod.mk.inj run
    exact begins
  | succ turns =>
    obtain ⟨middle, outcome, -, stepped, goesOn, -⟩ := runFor_succ_unfinished.mp run
    have stepping := step_stepped loaded middle
    rw [stepped] at stepping
    cases stepping with
    | halted => exact absurd rfl goesOn
    | done _ _ within => exact within limit limits

/-- With a limit the machine halts exactly if without one it halts within the limit. -/
theorem halts_withLimit (begins : machine.steps ≤ limit) :
    (∃ turns, machine.runFor (loaded.withLimit (some limit)) stops turns = (final, .halted)) ↔
      (∃ turns, machine.runFor (loaded.withLimit none) stops turns = (final, .halted)) ∧
        final.steps ≤ limit := by
  simp only [halts_iff]
  constructor
  · rintro ⟨turns, run, ended⟩
    have within := runFor_within rfl begins run
    exact ⟨⟨turns, (runFor_withLimit (runFor_steps run ▸ within)).mp run, ended⟩, within⟩
  · rintro ⟨⟨turns, run, ended⟩, within⟩
    exact ⟨turns, (runFor_withLimit (runFor_steps run ▸ within)).mpr run, ended⟩

/-- A run without a limit that came to an end has halted, or a device has refused an operation. -/
theorem runFor_unlimited (unlimited : loaded.stepLimit = none) {outcome : RunOutcome}
    (run : machine.runFor loaded false turns = (final, outcome)) (ended : outcome ≠ .unfinished) :
    (outcome = .halted ∧ final.steps ≤ machine.steps + turns) ∨
      ∃ failure, outcome = .failed (.device failure) := by
  obtain ⟨count, middle, before, reached, last⟩ := runFor_ends run ended
  rw [runFor_one] at last
  have stepping := step_stepped loaded middle
  generalize middle.step loaded = result at last stepping
  cases stepping with
  | halted =>
    obtain ⟨rfl, rfl⟩ := Prod.mk.inj last
    exact .inl ⟨rfl, by rw [runFor_steps reached]; omega⟩
  | limited _ limits => exact absurd (unlimited.symm.trans limits) nofun
  | refused => exact .inr ⟨_, (Prod.mk.inj last).2.symm⟩
  | @done _ stepped goesOn =>
    -- Breakpoints are passed over, so behind an operation the run is to be continued.
    refine absurd ((Prod.mk.inj last).2.symm.trans ?_) ended
    exact RunOutcome.ofStep_eq_unfinished.mpr ⟨stepped, rfl, goesOn, nofun⟩

/-- A machine that neither halts within the limit nor meets a device that fails comes to the limit, and fails
there. -/
theorem fails_at_limit (begins : machine.steps = 0)
    (served : ∀ failure,
      (machine.runFor (loaded.withLimit none) false limit).2 ≠ .failed (.device failure))
    (longer : ¬∃ turns final, machine.runFor (loaded.withLimit none) false turns = (final, .halted) ∧
      final.steps ≤ limit) :
    ∃ reached, machine.runFor (loaded.withLimit none) false limit = (reached, .unfinished) ∧
      reached.steps = limit ∧
      ∃ turns, machine.runFor (loaded.withLimit (some limit)) false turns =
        ({ reached with steps := limit + 1 }, .failed (.stepLimit limit)) := by
  cases run : machine.runFor (loaded.withLimit none) false limit with
  | mk reached outcome =>
    obtain rfl : outcome = .unfinished := by
      by_contra ended
      obtain ⟨rfl, within⟩ | ⟨failure, failed⟩ := runFor_unlimited rfl run ended
      · exact longer ⟨limit, reached, run, by omega⟩
      · exact served failure (by rw [run, failed])
    have counted : reached.steps = limit := by rw [runFor_steps run, begins, Nat.zero_add]
    have onwards : reached.isHalted (loaded.withLimit (some limit)) = false := by
      refine Bool.eq_false_iff.mpr fun ended => longer ?_
      obtain ⟨turns, halts⟩ := halts_iff.mpr ⟨limit, run, ended⟩
      exact ⟨turns, reached, halts, Nat.le_of_eq counted⟩
    have refused := step_at_limit onwards rfl (Nat.le_of_eq counted.symm)
    refine ⟨reached, rfl, counted, limit + 1, ?_⟩
    rw [runFor_add, (runFor_withLimit (by omega)).mpr run, if_pos rfl, runFor_one, refused, counted]
    rfl

/-! ## Sessions -/

/-- What a machine can be asked for. -/
inductive Request
  | step
  | runToBreakpoint
  | run
  deriving DecidableEq, Repr

/-- The machine behind a request that ended without an error. -/
inductive Request.Completes (loaded : Loaded) (machine : Machine) : Request → Machine → Prop
  | step {after : Machine} {outcome : StepOutcome}
      (stepped : machine.step loaded = (after, .ok outcome)) : Completes loaded machine .step after
  | runToBreakpoint {after : Machine} {turns : Nat} {outcome : RunOutcome}
      (run : machine.runFor loaded true turns = (after, outcome))
      (stopped : outcome = .breakpoint ∨ outcome = .halted) :
      Completes loaded machine .runToBreakpoint after
  | run {after : Machine} {turns : Nat}
      (run : machine.runFor loaded false turns = (after, .halted)) :
      Completes loaded machine .run after

/-- Requests one after the other, none of which fails. -/
inductive Session (loaded : Loaded) : Machine → List Request → Machine → Prop
  | nil {machine : Machine} : Session loaded machine [] machine
  | cons {machine middle last : Machine} {request : Request} {requests : List Request}
      (completes : request.Completes loaded machine middle)
      (onwards : Session loaded middle requests last) :
      Session loaded machine (request :: requests) last

/-- A step that does not fail goes the way of a run. -/
theorem leads_of_step (stepped : machine.step loaded = (after, .ok outcome)) :
    Leads loaded machine after := by
  cases outcome with
  | halted =>
    obtain ⟨rfl, -⟩ := isHalted_of_step stepped
    exact .refl
  | running | breakpoint =>
    refine ⟨1, fun more => ?_⟩
    simp [Nat.add_comm 1, runFor, stepped]

theorem leads_of_unfinished (run : machine.runFor loaded stops turns = (after, .unfinished)) :
    Leads loaded machine after := by
  induction turns generalizing after with
  | zero =>
    obtain ⟨rfl, -⟩ := Prod.mk.inj run
    exact .refl
  | succ turns ih =>
    obtain ⟨middle, outcome, before, stepped, -⟩ := runFor_succ_unfinished.mp run
    exact (ih before).trans (leads_of_step stepped)

/-- A run that does not fail goes the way of a run that passes over all breakpoints. -/
theorem leads_of_run {outcome : RunOutcome}
    (run : machine.runFor loaded stops turns = (after, outcome))
    (succeeds : ∀ error, outcome ≠ .failed error) : Leads loaded machine after := by
  by_cases ended : outcome = .unfinished
  · exact leads_of_unfinished (ended ▸ run)
  · obtain ⟨count, middle, -, reached, last⟩ := runFor_ends run ended
    rw [runFor_one, Prod.mk.injEq] at last
    refine (leads_of_unfinished reached).trans ?_
    cases stepped : (middle.step loaded).2 with
    | error error => exact absurd (last.2.symm.trans (congrArg _ stepped)) (succeeds error)
    | ok outcome => exact leads_of_step (Prod.ext last.1 stepped)

theorem Request.Completes.leads {request : Request}
    (completes : request.Completes loaded machine after) : Leads loaded machine after := by
  cases completes with
  | step stepped => exact leads_of_step stepped
  | runToBreakpoint run stopped =>
    exact leads_of_run run (by rintro error rfl; rcases stopped with same | same <;> cases same)
  | run run => exact leads_of_run run nofun

theorem Session.leads {requests : List Request} (session : Session loaded machine requests after) :
    Leads loaded machine after := by
  induction session with
  | nil => exact .refl
  | cons completes _ ih => exact completes.leads.trans ih

theorem load_withLimit {settings : MachineSettings} {code : List Char} {input : List UInt8}
    (loads : load settings code input = .ok (loaded, machine)) (limit : Option Nat) :
    load { settings with stepLimit := limit } code input = .ok (loaded.withLimit limit, machine) := by
  unfold load at loads ⊢
  split at loads
  next positive =>
    rw [dif_pos positive]
    split at loads
    next => cases loads
    next operations decoded =>
      obtain ⟨rfl, rfl⟩ := Prod.mk.inj (Except.ok.inj loads)
      simp only [decoded]
      rfl
  next => cases loads

theorem steps_of_load {settings : MachineSettings} {code : List Char} {input : List UInt8}
    (loads : load settings code input = .ok (loaded, machine)) : machine.steps = 0 := by
  unfold load at loads
  split at loads
  next =>
    split at loads
    next => cases loads
    next =>
      obtain ⟨-, rfl⟩ := Prod.mk.inj (Except.ok.inj loads)
      rfl
  next => cases loads

/-- A step that fails is counted and changes nothing else. With a limit, a machine that has just been loaded
halts exactly if without one it halts within the limit, and in the same state; otherwise, if no device
fails it, it is refused the first operation beyond the limit, in the state that it has there without a
limit. And a session without errors that ends where the code ends comes to what a single run comes to. -/
theorem load_driven {settings : MachineSettings} {code : List Char} {input : List UInt8}
    (loads : load settings code input = .ok (loaded, machine)) :
    (∀ (before after : Machine) (error : RuntimeError), before.step loaded = (after, .error error) →
      after = { before with steps := before.steps + 1 } ∧
        after.isHalted loaded = before.isHalted loaded) ∧
    (∀ limit, ∃ limited unlimited,
      load { settings with stepLimit := some limit } code input = .ok (limited, machine) ∧
      load { settings with stepLimit := none } code input = .ok (unlimited, machine) ∧
      (∀ final, (∃ turns, machine.runFor limited false turns = (final, .halted)) ↔
        (∃ turns, machine.runFor unlimited false turns = (final, .halted)) ∧
          final.steps ≤ limit) ∧
      ((∀ failure, (machine.runFor unlimited false limit).2 ≠ .failed (.device failure)) →
        (¬∃ turns final, machine.runFor unlimited false turns = (final, .halted) ∧
          final.steps ≤ limit) →
        ∃ reached, machine.runFor unlimited false limit = (reached, .unfinished) ∧
          reached.steps = limit ∧
          ∃ turns, machine.runFor limited false turns =
            ({ reached with steps := limit + 1 }, .failed (.stepLimit limit)))) ∧
    ∀ first requests last, Session loaded first requests last → last.isHalted loaded = true →
      ∃ turns, first.runFor loaded false turns = (last, .halted) := by
  have fresh := steps_of_load loads
  refine ⟨fun before after error failed => ?_, fun limit => ⟨loaded.withLimit (some limit),
    loaded.withLimit none, load_withLimit loads _, load_withLimit loads _,
    fun final => halts_withLimit (fresh ▸ Nat.zero_le limit), fails_at_limit fresh⟩,
    fun first requests last session halted => session.leads.halts halted⟩
  obtain rfl := step_failed failed
  exact ⟨rfl, rfl⟩

/-- Code that increments a cell, has a breakpoint there and prints the cell. -/
def pausingCode : List Char := "+#.".toList

def pausingSettings : MachineSettings := ⟨3, none, .zero, some '#', {}⟩

def pausingLoaded : Loaded := ⟨#[.add 1, .breakpoint, .output], none, .zero, {}⟩

def pausingMachine : Machine := ⟨Tape.blank 3 (by decide), 0, 0, [], #[]⟩

theorem load_driven_pausingCode :
    load pausingSettings pausingCode [] = .ok (pausingLoaded, pausingMachine) ∧
      (∃ limited turns reached,
        load { pausingSettings with stepLimit := some 2 } pausingCode [] =
          .ok (limited, pausingMachine) ∧
        pausingMachine.runFor limited false turns = (reached, .failed (.stepLimit 2)) ∧
        reached.steps = 3 ∧ reached.output = #[]) ∧
      ∃ last turns, Session pausingLoaded pausingMachine [.runToBreakpoint, .step, .run] last ∧
        pausingMachine.runFor pausingLoaded false turns = (last, .halted) ∧ last.output = #[1] := by
  have loads : load pausingSettings pausingCode [] = .ok (pausingLoaded, pausingMachine) := rfl
  obtain ⟨-, limits, sessions⟩ := load_driven loads
  refine ⟨loads, ?_, ?_⟩
  · -- The third operation, which prints, is one too many.
    obtain ⟨limited, unlimited, limitedLoads, unlimitedLoads, -, exceeds⟩ := limits 2
    obtain rfl : pausingLoaded = unlimited :=
      (Prod.mk.inj (Except.ok.inj (loads.symm.trans unlimitedLoads))).1
    have run : (pausingMachine.runFor pausingLoaded false 4).2 = .halted := rfl
    have many : ¬∃ turns final, pausingMachine.runFor pausingLoaded false turns = (final, .halted) ∧
        final.steps ≤ 2 := by
      rintro ⟨turns, final, runToo, within⟩
      obtain ⟨rfl, -⟩ := runFor_unique runToo nofun (Prod.ext rfl run) nofun
      exact absurd within (by decide)
    obtain ⟨reached, before, -, turns, fails⟩ := exceeds nofun many
    obtain ⟨rfl, -⟩ := Prod.mk.inj before
    exact ⟨limited, turns, _, limitedLoads, fails, rfl, rfl⟩
  · let paused := (pausingMachine.runFor pausingLoaded true 2).1
    let printed := (paused.step pausingLoaded).1
    have pauses : pausingMachine.runFor pausingLoaded true 2 = (paused, .breakpoint) := rfl
    have prints : paused.step pausingLoaded = (printed, .ok .running) := rfl
    have halts : printed.runFor pausingLoaded false 1 = (printed, .halted) := rfl
    have session : Session pausingLoaded pausingMachine [.runToBreakpoint, .step, .run] printed :=
      .cons (.runToBreakpoint pauses (.inl rfl)) (.cons (.step prints) (.cons (.run halts) .nil))
    obtain ⟨turns, run⟩ := sessions _ _ _ session rfl
    exact ⟨printed, turns, session, run, rfl⟩

end Machine

end TapeCode
