import TapeCode.Proofs.InstructionText
import TapeCode.Proofs.Writing.OpenMachines

/-!
# Numbers of 32 bits in the writer

The writer adds and subtracts numbers of cases. Here every sum and every difference on the way has to
fit 32 bits, and the writer does the same as with numbers of any size: what the bounds on cases and
targets let through fits. There is one difference that nothing bounds. What is left of a lap behind a
return is taken from the declared number of cases, and that may be as small as 32 bits allow.
-/
namespace TapeCode

namespace Dispatch

/-- A sum that has to fit 32 bits. -/
def narrowAdd (first second : Int) : Except DispatchError Int :=
  if fitsArgument (first + second) then .ok (first + second) else .error (.overflow .addition)

/-- A difference that has to fit 32 bits. -/
def narrowSub (first second : Int) : Except DispatchError Int :=
  if fitsArgument (first - second) then .ok (first - second) else .error (.overflow .subtraction)

/-- The distance between two cases, by sums and differences that have to fit. -/
def narrowDistance (source target count : Int) : Except DispatchError Int := do
  if count < 0 ∨ source < 0 ∨ count < source then throw (.illegal source target count)
  let exit ← narrowAdd count 1
  if target < 1 ∨ exit < target then throw (.illegal source target count)
  let distance ← narrowSub target source
  if distance ≤ 0 then narrowAdd (← narrowAdd distance count) 1 else return distance

/-- The offset in the same way; the case that stands for the way out is a sum as well. -/
def narrowOffset (source target count : Int) : Except DispatchError Int := do
  let target ← if target = exitCase then narrowAdd count 1 else .ok target
  narrowDistance source target count

variable {source target count first second : Int} {cause : Overflow}

theorem fitsArgument_iff {number : Int} :
    fitsArgument number = true ↔ smallest ≤ number ∧ number ≤ largest := by
  simp [fitsArgument, smallest, largest]

theorem narrowAdd_eq (low : smallest ≤ first + second) (high : first + second ≤ largest) :
    narrowAdd first second = .ok (first + second) :=
  if_pos (fitsArgument_iff.mpr ⟨low, high⟩)

theorem narrowSub_eq (low : smallest ≤ first - second) (high : first - second ≤ largest) :
    narrowSub first second = .ok (first - second) :=
  if_pos (fitsArgument_iff.mpr ⟨low, high⟩)

theorem narrowAdd_overflow (high : largest < first + second) :
    narrowAdd first second = .error (.overflow .addition) :=
  if_neg fun fits => absurd (fitsArgument_iff.mp fits).2 (Int.not_le.mpr high)

theorem narrowSub_overflow (low : first - second < smallest) :
    narrowSub first second = .error (.overflow .subtraction) :=
  if_neg fun fits => absurd (fitsArgument_iff.mp fits).1 (Int.not_le.mpr low)

/-- What the checks of the source and the target let through fits 32 bits. -/
theorem narrowDistance_eq (low : smallest ≤ count) (high : count < largest) :
    narrowDistance source target count =
      if count < 0 ∨ source < 0 ∨ count < source then .error (.illegal source target count)
      else if target < 1 ∨ count + 1 < target then .error (.illegal source target count)
      else if source < target then .ok (target - source)
      else .ok (target - source + count + 1) := by
  unfold narrowDistance
  simp only [smallest, largest] at low high
  -- Each check leaves what the next sum or difference needs to fit.
  by_cases outside : count < 0 ∨ source < 0 ∨ count < source
  · rw [if_pos outside, if_pos outside]
    rfl
  rw [if_neg outside, if_neg outside,
    narrowAdd_eq (by simp only [smallest]; omega) (by simp only [largest]; omega)]
  by_cases beyond : target < 1 ∨ count + 1 < target
  · rw [if_pos beyond]
    simp [beyond, bind, Except.bind, throw, throwThe, MonadExceptOf.throw]
  rw [if_neg beyond,
    narrowSub_eq (by simp only [smallest]; omega) (by simp only [largest]; omega)]
  by_cases forward : source < target
  · have positive : ¬target - source ≤ 0 := by omega
    simp [beyond, forward, positive, bind, Except.bind, pure, Except.pure]
  · have back : target - source ≤ 0 := by omega
    have lap := @narrowAdd_eq (target - source) count (by simp only [smallest]; omega)
      (by simp only [largest]; omega)
    have exits := @narrowAdd_eq (target - source + count) 1 (by simp only [smallest]; omega)
      (by simp only [largest]; omega)
    simp [beyond, forward, back, lap, exits, bind, Except.bind]

/-- The number of the way out does not fit if the number of cases is the largest there is. -/
theorem narrowDistance_top (source target : Int) : narrowDistance source target largest =
    if source < 0 ∨ largest < source then .error (.illegal source target largest)
    else .error (.overflow .addition) := by
  have exits : narrowAdd largest 1 = .error (.overflow .addition) := narrowAdd_overflow (by decide)
  have positive : ¬largest < 0 := by decide
  by_cases outside : source < 0 ∨ largest < source
  · simp [narrowDistance, positive, outside, bind, Except.bind, throw, throwThe, MonadExceptOf.throw]
  · simp [narrowDistance, positive, outside, exits, bind, Except.bind]

/-- With numbers of 32 bits nothing overflows on the way to an offset but the number of the way out. -/
theorem narrowOffset_eq (fits : fitsArgument count = true) (source target : Int) :
    narrowOffset source target count = caseOffset source target count := by
  obtain ⟨low, high⟩ := fitsArgument_iff.mp fits
  by_cases top : count = largest
  · -- The one count for which the way out has no number of 32 bits.
    subst top
    have exits : narrowAdd largest 1 = .error (.overflow .addition) := narrowAdd_overflow (by decide)
    have positive : ¬largest < 0 := by decide
    by_cases leaves : target = exitCase
    · simp [narrowOffset, caseOffset, leaves, exits, bind, Except.bind]
    · simp [narrowOffset, caseOffset, leaves, positive, narrowDistance_top, bind, Except.bind]
  · have below : count < largest := by omega
    have exits : narrowAdd count 1 = .ok (count + 1) :=
      narrowAdd_eq (by simp only [smallest] at low ⊢; omega) (by omega)
    by_cases leaves : target = exitCase
    · simp [narrowOffset, caseOffset, leaves, top, exits, narrowDistance_eq low below, bind,
        Except.bind]
    · simp [narrowOffset, caseOffset, leaves, top, narrowDistance_eq low below, bind, Except.bind]

theorem caseOffset_overflow (overflows : caseOffset source target count = .error (.overflow cause)) :
    count = largest := by
  unfold caseOffset at overflows
  grind

end Dispatch

namespace Writer

open Dispatch

variable {style : CodeStyle} {opened : List OpenMachine} {instruction : Instruction} {stream : Listing}

/-! ## Instructions -/

/-- What follows from a number, if there is one. -/
def attempt (number : Except DispatchError Int) (effects : Int → List Effect) : List Effect :=
  match number with
  | .error error => [.fail (.dispatch error)]
  | .ok number => effects number

/-- What an instruction does if its sums and differences have to fit 32 bits. -/
def narrowEffects (style : CodeStyle) :
    List OpenMachine → Instruction → List Effect
  | machine :: outer, .fsmCase =>
    attempt (narrowAdd machine.begun 1) fun begun =>
      [.machines (⟨begun, machine.count⟩ :: outer), .write Template.caseBegin]
  | machine :: _, .fsmJump target =>
    attempt (narrowOffset machine.begun target machine.count) fun offset =>
      [.write (Template.pushInt offset ++ Template.caseEnd)]
  | machine :: _, .fsmIf nonzero zero =>
    attempt (narrowOffset machine.begun nonzero machine.count) fun first =>
      attempt (narrowOffset machine.begun zero machine.count) fun second =>
        [.write (Template.ifElseBegin ++ Template.pushInt first ++ Template.ifElseElse ++
          Template.pushInt second ++ Template.ifElseEnd ++ Template.caseEnd)]
  | machine :: _, .fsmCall target =>
    attempt (narrowAdd machine.begun 1) fun address =>
      .write (Template.pushInt address) ::
        attempt (narrowOffset machine.begun target machine.count) fun offset =>
          [.write (Template.pushInt offset ++ Template.caseEnd)]
  | machine :: _, .fsmReturn =>
    attempt (do narrowAdd (← narrowSub machine.count machine.begun) 1) fun rest =>
      [.write (Template.pushInt rest ++ Template.add ++ Template.caseEnd)]
  | opened, instruction => bodyEffects style opened instruction

/-- The numbers of an open machine behind some instructions. -/
structure Counted (passed : Listing) (machine : OpenMachine) : Prop where
  begun_nonneg : 0 ≤ machine.begun
  begun_le : machine.begun ≤ passed.length
  count_le : machine.count ≤ mostCases
  declared : .fsmBegin machine.count ∈ passed

theorem Counted.behind {passed : Listing} {machine : OpenMachine} (counted : Counted passed machine)
    (instruction : Instruction) : Counted (passed ++ [instruction]) machine where
  begun_nonneg := counted.begun_nonneg
  begun_le := by
    have before := counted.begun_le
    rw [List.length_append, List.length_singleton]
    omega
  count_le := counted.count_le
  declared := List.mem_append_left _ counted.declared

theorem Opens.counted {passed : Listing} {after : List OpenMachine}
    (opens : Opens opened instruction after) (counted : ∀ machine ∈ opened, Counted passed machine) :
    ∀ machine ∈ after, Counted (passed ++ [instruction]) machine := by
  have others := fun machine member => (counted machine member).behind instruction
  cases opens with
  | begins few =>
    refine List.forall_mem_cons.mpr ⟨⟨Int.le_refl 0, Int.natCast_nonneg _, few, ?_⟩, others⟩
    exact List.mem_append_right _ (List.mem_singleton_self _)
  | nextCase =>
    obtain ⟨here, others⟩ := List.forall_mem_cons.mp others
    have before := (List.forall_mem_cons.mp counted).1
    have nonneg := before.begun_nonneg
    have le := before.begun_le
    refine List.forall_mem_cons.mpr ⟨⟨?_, ?_, here.count_le, here.declared⟩, others⟩
    · simp only
      omega
    · simp only [List.length_append, List.length_singleton]
      omega
  | ends complete => exact (List.forall_mem_cons.mp others).2
  | stays other => exact others

theorem Emits.counted {text : List Char} (emits : Emits style [] stream text opened) :
    ∀ machine ∈ opened, Counted stream machine :=
  @Emits.keeps style [] opened stream text (fun passed opened => ∀ machine ∈ opened, Counted passed machine)
    emits [] nofun fun _ _ _ _ counted opens => opens.counted counted

theorem jumpEffects_eq (machine : OpenMachine) (outer : List OpenMachine) (target : Int) :
    jumpEffects (machine :: outer) target =
      attempt (caseOffset machine.begun target machine.count) fun offset =>
        [.write (Template.pushInt offset ++ Template.caseEnd)] := by
  simp only [jumpEffects, offset]
  cases caseOffset machine.begun target machine.count <;> rfl

theorem branchEffects_eq (machine : OpenMachine) (outer : List OpenMachine) (nonzero zero : Int) :
    branchEffects (machine :: outer) nonzero zero =
      attempt (caseOffset machine.begun nonzero machine.count) fun first =>
        attempt (caseOffset machine.begun zero machine.count) fun second =>
          [.write (Template.ifElseBegin ++ Template.pushInt first ++ Template.ifElseElse ++
            Template.pushInt second ++ Template.ifElseEnd ++ Template.caseEnd)] := by
  simp only [branchEffects, offset]
  cases caseOffset machine.begun nonzero machine.count <;>
    cases caseOffset machine.begun zero machine.count <;> rfl

/-- Where the innermost machine has numbers of 32 bits, an instruction does the same with numbers of 32
bits as with numbers of any size. -/
theorem narrowEffects_eq
    (counted : ∀ machine ∈ opened, fitsArgument machine.count = true ∧ machine.count ≤ mostCases ∧
      0 ≤ machine.begun ∧ machine.begun < largest) :
    narrowEffects style opened instruction = bodyEffects style opened instruction := by
  cases opened with
  | nil => cases instruction <;> rfl
  | cons machine outer =>
    obtain ⟨fits, few, nonneg, below⟩ := counted machine List.mem_cons_self
    obtain ⟨low, high⟩ := fitsArgument_iff.mp fits
    have next : narrowAdd machine.begun 1 = .ok (machine.begun + 1) :=
      narrowAdd_eq (by simp only [smallest]; omega) (by omega)
    cases instruction with
    | fsmCase => simp only [narrowEffects, next, attempt, bodyEffects, caseEffects]
    | fsmJump target =>
      simp only [narrowEffects, narrowOffset_eq fits, bodyEffects, jumpEffects_eq]
    | fsmIf nonzero zero =>
      simp only [narrowEffects, narrowOffset_eq fits, bodyEffects, branchEffects_eq]
    | fsmCall target =>
      simp only [narrowEffects, next, narrowOffset_eq fits, bodyEffects, callEffects, jumpEffects_eq]
      rfl
    | fsmReturn =>
      by_cases under : machine.count - machine.begun < smallest
      · simp [narrowEffects, bodyEffects, returnEffects, under, narrowSub_overflow under, attempt, bind,
          Except.bind]
      · have rest := @narrowSub_eq machine.count machine.begun (Int.not_lt.mp under) (by omega)
        simp only [mostCases] at few
        have address := @narrowAdd_eq (machine.count - machine.begun) 1 (by omega)
          (by simp only [largest]; omega)
        simp [narrowEffects, bodyEffects, returnEffects, under, rest, address, attempt, bind,
          Except.bind]
    | _ => rfl

/-- The offset to a case never overflows, so what does stands behind it. -/
theorem perform_attempt_overflow {machine : OpenMachine} (few : machine.count ≤ mostCases) {target : Int}
    {effects : Int → List Effect} {cause : Overflow}
    (overflows : (perform opened
        (attempt (caseOffset machine.begun target machine.count) effects)).failure =
      some (.dispatch (.overflow cause))) :
    ∃ number, (perform opened (effects number)).failure = some (.dispatch (.overflow cause)) := by
  cases found : caseOffset machine.begun target machine.count with
  | ok number => exact ⟨number, by rwa [found] at overflows⟩
  | error error =>
    rw [found] at overflows
    obtain rfl := EmitError.dispatch.inj (Option.some.inj overflows)
    have top := caseOffset_overflow found
    simp only [mostCases, largest] at few top
    omega

/-- Only a return overflows, in a machine that declares too small a number of cases. -/
theorem perform_overflow_iff {cause : Overflow} (few : ∀ machine ∈ opened, machine.count ≤ mostCases) :
    (perform opened (bodyEffects style opened instruction)).failure =
        some (.dispatch (.overflow cause)) ↔
      instruction = .fsmReturn ∧ cause = .subtraction ∧
        ∃ machine outer, opened = machine :: outer ∧ machine.count - machine.begun < smallest := by
  constructor
  · intro overflows
    have heap (code : Template.HeapWalk → List Char) (layout : List Int) :
        (perform opened (heapEffects code layout)).failure ≠ some (.dispatch (.overflow cause)) := by
      unfold heapEffects
      split <;> simp [perform]
    cases opened with
    | nil =>
      -- Outside of a machine nothing is added or subtracted.
      cases instruction with
      | fsmBegin count =>
        simp only [bodyEffects, beginEffects] at overflows
        split at overflows <;> cases overflows
      | readLocal layout | writeLocal layout | clearLocal layout => exact absurd overflows (heap _ layout)
      | _ => cases overflows
    | cons machine outer =>
      have fewHere := few machine List.mem_cons_self
      cases instruction with
      -- The return subtracts from the count that the machine declares, as small as 32 bits allow;
      -- all other sums start from counts that are known to be small.
      | fsmReturn =>
        simp only [bodyEffects, returnEffects] at overflows
        split at overflows
        next under =>
          obtain rfl := DispatchError.overflow.inj (EmitError.dispatch.inj (Option.some.inj overflows))
          exact ⟨rfl, rfl, machine, outer, rfl, under⟩
        next => cases overflows
      | fsmBegin count =>
        simp only [bodyEffects, beginEffects] at overflows
        split at overflows <;> cases overflows
      | fsmEnd =>
        simp only [bodyEffects, endEffects] at overflows
        split at overflows <;> cases overflows
      | fsmJump target =>
        rw [bodyEffects, jumpEffects_eq] at overflows
        obtain ⟨_, overflows⟩ := perform_attempt_overflow fewHere overflows
        cases overflows
      | fsmCall target =>
        rw [bodyEffects, callEffects, perform, jumpEffects_eq] at overflows
        obtain ⟨_, overflows⟩ := perform_attempt_overflow fewHere overflows
        cases overflows
      | fsmIf nonzero zero =>
        rw [bodyEffects, branchEffects_eq] at overflows
        obtain ⟨_, overflows⟩ := perform_attempt_overflow fewHere overflows
        obtain ⟨_, overflows⟩ := perform_attempt_overflow fewHere overflows
        cases overflows
      | readLocal layout | writeLocal layout | clearLocal layout => exact absurd overflows (heap _ layout)
      | _ => cases overflows
  · rintro ⟨rfl, rfl, machine, outer, rfl, under⟩
    simp [bodyEffects, returnEffects, under, perform]

/-! ## Streams -/

/-- The writer overflows exactly at a return for which the number of cases that the machine declares,
less those begun, is too small for 32 bits. At every other instruction that it comes to, as long as 32
bits can count them, all sums and differences fit. And nothing overflows if every machine declares at
least the smallest number and as much more as there are instructions. -/
theorem generate_overflow_iff (fits : ∀ instruction ∈ stream, instruction.Fits) :
    (∀ cause, generate style stream = .error (.dispatch (.overflow cause)) ↔
      cause = .subtraction ∧ ∃ before rest text machine outer,
        stream = before ++ .fsmReturn :: rest ∧ Emits style [] before text (machine :: outer) ∧
          machine.count - machine.begun < smallest) ∧
    (∀ before instruction rest text opened, stream = before ++ instruction :: rest →
      before.length < largest → Emits style [] before text opened →
        narrowEffects style opened instruction = bodyEffects style opened instruction) ∧
    ((∀ count, .fsmBegin count ∈ stream → smallest + stream.length ≤ count) →
      ∀ cause, generate style stream ≠ .error (.dispatch (.overflow cause))) := by
  have overflows (cause : Overflow) : generate style stream = .error (.dispatch (.overflow cause)) ↔
      cause = .subtraction ∧ ∃ before rest text machine outer,
        stream = before ++ .fsmReturn :: rest ∧ Emits style [] before text (machine :: outer) ∧
          machine.count - machine.begun < smallest := by
    constructor
    · intro refused
      rw [generate_eq] at refused
      cases streamed : streamCode style [] stream with
      | ok text => rw [streamed] at refused; cases refused
      | error error =>
        rw [streamed] at refused
        obtain rfl := Except.error.inj refused
        -- A machine still open at the end is another error; every other one comes from an instruction.
        rcases streamCode_eq_error streamed with ⟨_, unterminated⟩ | failing
        · cases unterminated
        · obtain ⟨before, instruction, rest, text, opened, rfl, emits, failed⟩ := failing
          obtain ⟨rfl, rfl, machine, outer, rfl, under⟩ :=
            (perform_overflow_iff fun machine member => (emits.counted machine member).count_le).mp failed
          exact ⟨rfl, before, rest, text, machine, outer, rfl, emits, under⟩
    · rintro ⟨rfl, before, rest, text, machine, outer, rfl, emits, under⟩
      have failed := (@perform_overflow_iff style _ .fsmReturn .subtraction
        fun machine member => (emits.counted machine member).count_le).mpr
          ⟨rfl, rfl, machine, outer, rfl, under⟩
      rw [generate_eq, streamCode_of_failing emits failed]
      rfl
  refine ⟨overflows, ?_, ?_⟩
  · rintro before instruction rest text opened rfl short emits
    refine narrowEffects_eq fun machine member => ?_
    have counted := emits.counted machine member
    have declared := fits _ (List.mem_append_left _ counted.declared) machine.count
      (List.mem_singleton_self _)
    have begun := counted.begun_le
    exact ⟨declared, counted.count_le, counted.begun_nonneg, by omega⟩
  · intro large cause refused
    obtain ⟨-, before, rest, text, machine, outer, rfl, emits, under⟩ := (overflows cause).mp refused
    have counted := emits.counted machine List.mem_cons_self
    have declared := large machine.count (List.mem_append_left _ counted.declared)
    have begun := counted.begun_le
    simp only [List.length_append, List.length_cons] at declared
    omega

/-- A machine in which the return of the first case still finds a number of 32 bits, and that of the
second case does not. -/
def descendingListing : Listing :=
  [.fsmBegin (-2147483647), .fsmCase, .fsmReturn, .fsmCase, .fsmReturn, .fsmEnd]

theorem generate_overflow_iff_descendingListing :
    (∀ instruction ∈ descendingListing, instruction.Fits) ∧
      generate {} descendingListing = .error (.dispatch (.overflow .subtraction)) ∧
      narrowEffects {} [⟨1, -2147483647⟩] .fsmReturn =
        [.write (Template.pushInt (-2147483647) ++ Template.add ++ Template.caseEnd)] := by
  have fits : ∀ instruction ∈ descendingListing, instruction.Fits := by decide
  obtain ⟨overflows, narrow, -⟩ := @generate_overflow_iff {} _ fits
  have first : Emits {} [] [.fsmBegin (-2147483647), .fsmCase] _ [⟨1, -2147483647⟩] :=
    .cons rfl (.cons rfl .nil)
  have second : Emits {} [⟨1, -2147483647⟩] [.fsmReturn, .fsmCase] _ [⟨2, -2147483647⟩] :=
    .cons rfl (.cons rfl .nil)
  exact ⟨fits,
    (overflows .subtraction).mpr ⟨rfl, _, [.fsmEnd], _, ⟨2, -2147483647⟩, [], rfl, first.append second,
      by decide⟩,
    narrow _ .fsmReturn [.fsmCase, .fsmReturn, .fsmEnd] _ _ rfl (by decide) first⟩

/-- A machine that declares the smallest number of cases overflows at its first return, before the number
of its cases is found to be wrong. -/
theorem generate_overflow_smallest :
    (∀ instruction ∈ [.fsmBegin smallest, .fsmCase, .fsmReturn, .fsmEnd], Instruction.Fits instruction) ∧
      generate {} [.fsmBegin smallest, .fsmCase, .fsmReturn, .fsmEnd] =
        .error (.dispatch (.overflow .subtraction)) ∧
      (EmitError.dispatch (.overflow .subtraction)).message = "attempt to subtract with overflow" :=
  ⟨by decide, rfl, rfl⟩

end Writer

end TapeCode
