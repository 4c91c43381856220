import TapeCode.Proofs.Folding.Decoding
import TapeCode.Proofs.Path
import TapeCode.Tape.Machine

/-!
# The tape machine does what its code says

The machine executes operations, and its code is read character by character. At a place of the code
the machine is behind the operations read so far, or before the last of them if that one may still
grow; the tape is then the machine's tape after that operation. So a run of the code is a run of the
machine, and when the code has been executed the machine halts.
-/
namespace TapeCode

namespace Tape

theorem move_move (tape : Tape) (first second : Int) :
    (tape.move first).move second = tape.move (first + second) := by
  have positive := tape.length_pos
  have nonzero : (tape.cells.size : Int) ≠ 0 := by omega
  have sign := Int.emod_nonneg (tape.pointer + first) nonzero
  have wraps : tape.wrap ((tape.wrap (tape.pointer + first) : Nat) + second) =
      tape.wrap (tape.pointer + (first + second)) := by
    have named (offset : Int) : tape.wrap offset = (offset % (tape.cells.size : Int)).toNat := rfl
    rw [named, named, named, Int.toNat_of_nonneg sign, Int.emod_add_emod, Int.add_assoc]
  simp only [move]
  congr 1

theorem current_put (tape : Tape) (value : UInt8) : (tape.put value).current = value := by
  obtain ⟨cells, pointer, inside⟩ := tape
  simp [put, current]

theorem put_put (tape : Tape) (first second : UInt8) :
    (tape.put first).put second = tape.put second := by
  obtain ⟨cells, pointer, inside⟩ := tape
  simp [put]

end Tape

namespace Machine

variable {loaded : Loaded} {machine middle last : Machine}

/-- The machine comes from one state to another in so many turns, whatever it does then. -/
def LeadsIn (loaded : Loaded) (turns : Nat) (machine last : Machine) : Prop :=
  ∀ more, machine.runFor loaded false (turns + more) = last.runFor loaded false more

def Leads (loaded : Loaded) (machine last : Machine) : Prop :=
  ∃ turns, LeadsIn loaded turns machine last

theorem LeadsIn.trans {turns others : Nat} (first : LeadsIn loaded turns machine middle)
    (second : LeadsIn loaded others middle last) : LeadsIn loaded (turns + others) machine last := by
  intro more
  rw [Nat.add_assoc, first, second]

theorem Leads.refl : Leads loaded machine machine := ⟨0, fun more => by rw [Nat.zero_add]⟩

theorem Leads.trans (first : Leads loaded machine middle) (second : Leads loaded middle last) :
    Leads loaded machine last := by
  obtain ⟨turns, leads⟩ := first
  obtain ⟨others, onwards⟩ := second
  exact ⟨turns + others, leads.trans onwards⟩

/-- A machine without a limit, which can always read and write. -/
structure Free (loaded : Loaded) : Prop where
  unlimited : loaded.stepLimit = none
  devices : loaded.devices = {}

/-- One operation that does not fail. -/
theorem leadsIn_step (unlimited : loaded.stepLimit = none) {operation : TapeOperation}
    {after : Machine}
    (here : loaded.operations[machine.next]? = some operation)
    (executed : { machine with steps := machine.steps + 1 }.execute loaded operation =
      (after, none)) : LeadsIn loaded 1 machine { after with next := after.next + 1 } := by
  intro more
  rw [Nat.add_comm, runFor]
  simp only [step, here, unlimited, Option.filter_none, executed]
  by_cases pause : operation = .breakpoint <;> simp [pause]

theorem leads_step (unlimited : loaded.stepLimit = none) {operation : TapeOperation}
    {after : Machine}
    (here : loaded.operations[machine.next]? = some operation)
    (executed : { machine with steps := machine.steps + 1 }.execute loaded operation =
      (after, none)) : Leads loaded machine { after with next := after.next + 1 } :=
  ⟨1, leadsIn_step unlimited here executed⟩

/-- A machine that reaches the end of its code halts. -/
theorem Leads.halts (leads : Leads loaded machine last) (halted : last.isHalted loaded = true) :
    ∃ turns, machine.runFor loaded false turns = (last, .halted) := by
  obtain ⟨turns, leads⟩ := leads
  refine ⟨turns + 1, ?_⟩
  have behind : loaded.operations[last.next]? = none := by
    simpa [isHalted] using halted
  rw [leads, runFor, step]
  simp only [behind]

end Machine

namespace TapeOperation.Decoding

/-- Where the machine is on its own tape when the tape of the code is `tape`. -/
def Lags (decoding : Decoding) (tape : Tape) (machine : Machine) : Prop :=
  match decoding.operations.back? with
  | some (.move distance) =>
    machine.next + 1 = decoding.operations.size ∧ machine.tape.move distance = tape
  | some (.add amount) =>
    machine.next + 1 = decoding.operations.size ∧
      machine.tape.put (machine.tape.current + amount) = tape
  | _ => machine.next = decoding.operations.size ∧ machine.tape = tape

variable {loaded : Loaded} {breakpoint : Option Char} {offset : Nat} {decoding after : Decoding}
  {tape : Tape} {machine : Machine}

theorem lags_push {operation : TapeOperation} (closed : operation.isFolded = false) :
    (decoding.push operation).Lags tape machine ↔
      machine.next = decoding.operations.size + 1 ∧ machine.tape = tape := by
  cases operation <;> first | (simp [Lags, push]; done) | cases closed

/-- An operation at the end stays as it is when another one is put behind it. -/
theorem settled_last (proper : decoding.Proper) {c : Char}
    (taken : decoding.take breakpoint offset c = .ok after)
    (grows : after.operations.size = decoding.operations.size + 1) {operation : TapeOperation}
    (ends : decoding.operations.back? = some operation) (folded : operation.isFolded = true) :
    after.Settled (decoding.operations.size - 1) operation := by
  rw [Array.back?_eq_getElem?] at ends
  obtain ⟨inside, _⟩ := Array.getElem?_eq_some_iff.mp ends
  -- The last operation is folded, so it is no start of a loop.
  have open' : ∀ entry ∈ decoding.opened, entry.1 ≠ decoding.operations.size - 1 := by
    rintro entry member same
    have loop := proper.starts entry member
    rw [same, ends] at loop
    cases loop
    cases folded
  have last : decoding.operations.size - 1 + 1 = after.operations.size → operation.isFolded = false :=
    fun isLast => by omega
  cases change_of_take taken with
  | push next => exact ⟨getElem?_push ends next, open', last⟩
  | openLoop =>
    refine ⟨getElem?_push ends (.loopStart 0), fun entry member => ?_, last⟩
    rcases List.mem_cons.mp member with rfl | outer
    · exact Nat.ne_of_gt inside
    · exact open' entry outer
  | closeLoop closes =>
    rename_i start place opened
    rw [closes] at open'
    have other : start ≠ decoding.operations.size - 1 := open' _ List.mem_cons_self
    refine ⟨?_, fun entry member => open' entry (List.mem_cons_of_mem _ member), last⟩
    rw [Array.getElem?_push, if_neg (by simpa using Nat.ne_of_lt inside),
      Array.getElem?_setIfInBounds_ne other, ends]
  -- Folding would not make the code longer.
  | grow _ _ next =>
    simp at grows
    omega
  | same => omega

/-- The machine is where the code is, or one operation behind it that leads there. -/
theorem Lags.next_or (loaded : Loaded) (lags : decoding.Lags tape machine) :
    (machine.next = decoding.operations.size ∧ machine.tape = tape) ∨
      ∃ operation, decoding.operations.back? = some operation ∧ operation.isFolded = true ∧
        machine.next + 1 = decoding.operations.size ∧
        Machine.execute loaded { machine with steps := machine.steps + 1 } operation =
          ({ machine with tape := tape, steps := machine.steps + 1 }, none) := by
  unfold Lags at lags
  split at lags
  next distance ends =>
    obtain ⟨before, rfl⟩ := lags
    exact .inr ⟨_, ends, rfl, before, rfl⟩
  next amount ends =>
    obtain ⟨before, rfl⟩ := lags
    exact .inr ⟨_, ends, rfl, before, rfl⟩
  next => exact .inl lags

/-- When the last operation does not grow any more, the machine executes it. -/
theorem Lags.catchUp (unlimited : loaded.stepLimit = none) (lags : decoding.Lags tape machine)
    (final : ∀ operation, decoding.operations.back? = some operation → operation.isFolded = true →
      loaded.operations[decoding.operations.size - 1]? = some operation) :
    ∃ steps, Machine.Leads loaded machine
      ⟨tape, decoding.operations.size, steps, machine.input, machine.output⟩ := by
  obtain ⟨next, same⟩ | ⟨operation, ends, folded, before, executed⟩ := lags.next_or loaded
  · rw [← next, ← same]
    exact ⟨machine.steps, .refl⟩
  · have here : loaded.operations[machine.next]? = some operation := by
      rw [← final operation ends folded, ← before, Nat.add_sub_cancel]
    rw [← before]
    exact ⟨machine.steps + 1, Machine.leads_step unlimited here executed⟩

/-- A move is added to one before it, and made when that one is, or it is an operation of its own. -/
theorem Lags.pushMove (lags : decoding.Lags tape machine) (distance : Int) :
    (decoding.pushMove distance).Lags (tape.move distance) machine ∨
      decoding.pushMove distance = decoding.push (.move distance) := by
  unfold Decoding.pushMove
  split
  next before ends =>
    left
    simp only [Lags, ends] at lags
    obtain ⟨index, rfl⟩ := lags
    simp only [Lags, Array.back?_push, Tape.move_move, Array.size_push, Array.size_pop, and_true]
    omega
  next => exact .inr rfl

theorem Lags.pushAdd (lags : decoding.Lags tape machine) (amount : UInt8) :
    (decoding.pushAdd amount).Lags (tape.put (tape.current + amount)) machine ∨
      decoding.pushAdd amount = decoding.push (.add amount) := by
  unfold Decoding.pushAdd
  split
  next before ends =>
    left
    simp only [Lags, ends] at lags
    obtain ⟨index, rfl⟩ := lags
    simp only [Lags, Array.back?_push, Tape.put_put, Tape.current_put, Array.size_push,
      Array.size_pop, UInt8.add_assoc, and_true]
    omega
  next => exact .inr rfl

end TapeOperation.Decoding

/-! ## Code and machine -/

open TapeOperation (Decoding)

/-- The code, and the machine that has it loaded. -/
structure Loaded.Holds (loaded : Loaded) (breakpoint : Option Char) (code : List Char) : Prop where
  unlimited : loaded.stepLimit = none
  decoded : ∃ final, Decoding.takeAll breakpoint ⟨#[], []⟩ 0 code = .ok final ∧
    final.operations = loaded.operations

/-- Where the machine is when its code is at some place. Before a loop that is entered again the
machine is already in it. -/
inductive CharacterMachine.Mirrors (loaded : Loaded) (breakpoint : Option Char) (code : List Char) :
    CharacterMachine → Machine → Prop
  | here {behind ahead : List Char} {tape : Tape} {input output : List UInt8} {machine : Machine}
    {decoding : Decoding} (split : code = behind.reverse ++ ahead)
    (read : Decoding.takeAll breakpoint ⟨#[], []⟩ 0 behind.reverse = .ok decoding)
    (lags : decoding.Lags tape machine) (sameInput : machine.input = input)
    (sameOutput : machine.output.toList = output) :
    Mirrors loaded breakpoint code ⟨behind, ahead, tape, input, output⟩ machine
  | entered {behind ahead : List Char} {tape : Tape} {input output : List UInt8}
    {machine : Machine} (nonzero : tape.current ≠ 0)
    (inside : Mirrors loaded breakpoint code ⟨'[' :: behind, ahead, tape, input, output⟩ machine) :
    Mirrors loaded breakpoint code ⟨behind, '[' :: ahead, tape, input, output⟩ machine

namespace CharacterMachine

variable {loaded : Loaded} {breakpoint : Option Char} {code behind ahead : List Char} {tape : Tape}
  {input output : List UInt8} {machine : Machine} {decoding : Decoding}

/-- What is read next, and what is known of it in the end. -/
theorem read_next (holds : loaded.Holds breakpoint code) {c : Char}
    (split : code = behind.reverse ++ c :: ahead)
    (read : Decoding.takeAll breakpoint ⟨#[], []⟩ 0 behind.reverse = .ok decoding) :
    ∃ next final, decoding.take breakpoint behind.length c = .ok next ∧
      Decoding.takeAll breakpoint ⟨#[], []⟩ 0 (c :: behind).reverse = .ok next ∧
      next.takeAll breakpoint (behind.length + 1) ahead = .ok final ∧
      final.operations = loaded.operations := by
  obtain ⟨final, whole, operations⟩ := holds.decoded
  rw [split, Decoding.takeAll_append read, List.length_reverse, Nat.zero_add] at whole
  rw [← List.singleton_append] at whole
  obtain ⟨next, first, rest⟩ := Decoding.takeAll_split whole
  rw [Decoding.takeAll_single] at first
  refine ⟨next, final, first, ?_, rest, operations⟩
  rw [List.reverse_cons, Decoding.takeAll_append read, List.length_reverse, Nat.zero_add,
    Decoding.takeAll_single, first]

theorem proper_of_read (read : Decoding.takeAll breakpoint ⟨#[], []⟩ 0 behind.reverse = .ok decoding) :
    decoding.Proper :=
  Decoding.proper_start.takeAll read

/-- Before a character that becomes an operation of its own, the machine comes to be behind all
operations read so far. -/
theorem catches_up (holds : loaded.Holds breakpoint code) {c : Char} {next : Decoding}
    (split : code = behind.reverse ++ c :: ahead)
    (read : Decoding.takeAll breakpoint ⟨#[], []⟩ 0 behind.reverse = .ok decoding)
    (lags : decoding.Lags tape machine) (taken : decoding.take breakpoint behind.length c = .ok next)
    (grows : next.operations.size = decoding.operations.size + 1) :
    ∃ steps, Machine.Leads loaded machine
      ⟨tape, decoding.operations.size, steps, machine.input, machine.output⟩ := by
  obtain ⟨same, final, first, -, rest, operations⟩ := read_next holds split read
  obtain rfl : same = next := Except.ok.inj (first.symm.trans taken)
  refine lags.catchUp holds.unlimited fun operation ends folded => ?_
  rw [← operations]
  exact (Decoding.settled_last (proper_of_read read) taken grows ends folded).takeAll rest

/-- The operation of a character that is not folded is the next one of the machine. -/
theorem next_operation (holds : loaded.Holds breakpoint code) {c : Char} {operation : TapeOperation}
    (split : code = behind.reverse ++ c :: ahead)
    (read : Decoding.takeAll breakpoint ⟨#[], []⟩ 0 behind.reverse = .ok decoding)
    (taken : decoding.take breakpoint behind.length c = .ok (decoding.push operation))
    (closed : operation.isFolded = false) :
    loaded.operations[decoding.operations.size]? = some operation := by
  obtain ⟨same, final, first, -, rest, operations⟩ := read_next holds split read
  obtain rfl := Except.ok.inj (first.symm.trans taken)
  have proper := proper_of_read read
  have settled : (decoding.push operation).Settled decoding.operations.size operation :=
    ⟨by simp [Decoding.push], fun entry member => Nat.ne_of_lt (proper.inside member),
      fun _ => closed⟩
  rw [← operations]
  exact settled.takeAll rest

/-- A character that joins the operation before it, or becomes one that the next may join: the machine
does not execute it yet. -/
theorem folded_mirrors (holds : loaded.Holds breakpoint code) {c : Char} {grown : Decoding}
    {operation : TapeOperation} {following : Tape} (split : code = behind.reverse ++ c :: ahead)
    (read : Decoding.takeAll breakpoint ⟨#[], []⟩ 0 behind.reverse = .ok decoding)
    (lags : decoding.Lags tape machine)
    (taken : decoding.take breakpoint behind.length c = .ok grown)
    (joins : grown.Lags following machine ∨ grown = decoding.push operation)
    (waits : ∀ steps, (decoding.push operation).Lags following
      ⟨tape, decoding.operations.size, steps, machine.input, machine.output⟩) :
    ∃ other, Machine.Leads loaded machine other ∧
      Mirrors loaded breakpoint code
        ⟨c :: behind, ahead, following, machine.input, machine.output.toList⟩ other := by
  obtain ⟨same, final, first, further, -, -⟩ := read_next holds split read
  obtain rfl := Except.ok.inj (first.symm.trans taken)
  have splitNext : code = (c :: behind).reverse ++ ahead := by simp [split]
  rcases joins with joined | rfl
  · exact ⟨machine, .refl, .here splitNext further joined rfl rfl⟩
  · obtain ⟨steps, leads⟩ := catches_up holds split read lags taken (by simp [Decoding.push])
    exact ⟨_, leads, .here splitNext further (waits steps) rfl rfl⟩

theorem move_mirrors (holds : loaded.Holds breakpoint code) {c : Char} {distance : Int}
    (split : code = behind.reverse ++ c :: ahead)
    (read : Decoding.takeAll breakpoint ⟨#[], []⟩ 0 behind.reverse = .ok decoding)
    (lags : decoding.Lags tape machine)
    (taken : decoding.take breakpoint behind.length c = .ok (decoding.pushMove distance)) :
    ∃ other, Machine.Leads loaded machine other ∧
      Mirrors loaded breakpoint code
        ⟨c :: behind, ahead, tape.move distance, machine.input, machine.output.toList⟩ other :=
  folded_mirrors holds split read lags taken (lags.pushMove distance) fun steps => by
    simp [Decoding.Lags, Decoding.push]

theorem add_mirrors (holds : loaded.Holds breakpoint code) {c : Char} {amount : UInt8}
    (split : code = behind.reverse ++ c :: ahead)
    (read : Decoding.takeAll breakpoint ⟨#[], []⟩ 0 behind.reverse = .ok decoding)
    (lags : decoding.Lags tape machine)
    (taken : decoding.take breakpoint behind.length c = .ok (decoding.pushAdd amount)) :
    ∃ other, Machine.Leads loaded machine other ∧
      Mirrors loaded breakpoint code
        ⟨c :: behind, ahead, tape.put (tape.current + amount), machine.input,
          machine.output.toList⟩ other :=
  folded_mirrors holds split read lags taken (lags.pushAdd amount) fun steps => by
    simp [Decoding.Lags, Decoding.push]

/-- A character that is an operation of its own and goes on to the next one. -/
theorem operation_mirrors (holds : loaded.Holds breakpoint code) {c : Char}
    {operation : TapeOperation} (split : code = behind.reverse ++ c :: ahead)
    (read : Decoding.takeAll breakpoint ⟨#[], []⟩ 0 behind.reverse = .ok decoding)
    (lags : decoding.Lags tape machine)
    (taken : decoding.take breakpoint behind.length c = .ok (decoding.push operation))
    (closed : operation.isFolded = false) {following : Tape} {nextInput : List UInt8}
    {nextOutput : Array UInt8}
    (executes : ∀ steps, Machine.execute loaded
      ⟨tape, decoding.operations.size, steps, machine.input, machine.output⟩ operation =
        (⟨following, decoding.operations.size, steps, nextInput, nextOutput⟩, none)) :
    ∃ other, Machine.Leads loaded machine other ∧
      Mirrors loaded breakpoint code
        ⟨c :: behind, ahead, following, nextInput, nextOutput.toList⟩ other := by
  obtain ⟨same, final, first, further, -, -⟩ := read_next holds split read
  obtain rfl := Except.ok.inj (first.symm.trans taken)
  obtain ⟨steps, leads⟩ :=
    catches_up holds split read lags taken (by simp [Decoding.push])
  have here := next_operation holds split read taken closed
  refine ⟨_, leads.trans (Machine.leads_step holds.unlimited here (executes (steps + 1))),
    .here (by simp [split]) further ?_ rfl rfl⟩
  exact (Decoding.lags_push closed).mpr ⟨rfl, rfl⟩

/-! ## Loops -/

/-- An opening bracket is the start of a loop, whatever it is closed by. -/
theorem loopStart_mirrors (holds : loaded.Holds breakpoint code)
    (split : code = behind.reverse ++ '[' :: ahead)
    (read : Decoding.takeAll breakpoint ⟨#[], []⟩ 0 behind.reverse = .ok decoding)
    (lags : decoding.Lags tape machine) (nonzero : tape.current ≠ 0) :
    ∃ other, Machine.Leads loaded machine other ∧
      Mirrors loaded breakpoint code
        ⟨'[' :: behind, ahead, tape, machine.input, machine.output.toList⟩ other := by
  obtain ⟨next, final, first, further, rest, operations⟩ := read_next holds split read
  obtain rfl := Except.ok.inj first
  obtain ⟨steps, leads⟩ :=
    catches_up holds split read lags first (by simp [Decoding.openLoop])
  obtain ⟨finish, here⟩ : ∃ finish,
      loaded.operations[decoding.operations.size]? = some (.loopStart finish) := by
    rw [← operations]
    exact Decoding.loopStart_takeAll ⟨0, by simp [Decoding.openLoop]⟩ rest
  have executes : Machine.execute loaded
      ⟨tape, decoding.operations.size, steps + 1, machine.input, machine.output⟩
        (.loopStart finish) =
      (⟨tape, decoding.operations.size, steps + 1, machine.input, machine.output⟩, none) := by
    simp [Machine.execute, nonzero]
  refine ⟨_, leads.trans (Machine.leads_step holds.unlimited here executes),
    .here (by simp [split]) further ?_ rfl rfl⟩
  simp [Decoding.Lags, Decoding.openLoop]

/-- A loop that is left out leads behind its closing bracket. -/
theorem leaveOut_mirrors (holds : loaded.Holds breakpoint code)
    (split : code = behind.reverse ++ '[' :: ahead)
    (read : Decoding.takeAll breakpoint ⟨#[], []⟩ 0 behind.reverse = .ok decoding)
    (lags : decoding.Lags tape machine) (zero : tape.current = 0) {passed rest : List Char}
    (passes : pass '[' ']' 0 ('[' :: behind) ahead = some (passed, rest)) :
    ∃ other, Machine.Leads loaded machine other ∧
      Mirrors loaded breakpoint code
        ⟨passed, rest, tape, machine.input, machine.output.toList⟩ other := by
  obtain ⟨next, final, first, further, onwards, operations⟩ := read_next holds split read
  obtain rfl := Except.ok.inj first
  have proper := proper_of_read read
  -- The operations that are still to be done before the loop come first.
  obtain ⟨steps, leads⟩ :=
    catches_up holds split read lags first (by simp [Decoding.openLoop])
  obtain ⟨inner, ⟨operationsInside, opened⟩, rfl, rfl, inside, stays⟩ :=
    Decoding.pass_forth passes onwards
  obtain rfl : opened = (decoding.operations.size, behind.length) :: decoding.opened := stays
  -- The closing bracket settles where the loop leads to when it is left out.
  have upTo : Decoding.takeAll breakpoint ⟨#[], []⟩ 0 (('[' :: behind).reverse ++ inner) =
      .ok ⟨operationsInside, (decoding.operations.size, behind.length) :: decoding.opened⟩ := by
    rw [Decoding.takeAll_append further, ← inside]
    simp
  obtain ⟨closed, last, closing, readClosed, afterwards, sameOperations⟩ :=
    @read_next loaded breakpoint code (inner.reverse ++ '[' :: behind) rest _ holds ']'
      (by simp [split]) (by simpa using upTo)
  obtain rfl := Except.ok.inj closing
  have loop : operationsInside[decoding.operations.size]? = some (.loopStart 0) :=
    (Decoding.proper_start.takeAll upTo).starts _ List.mem_cons_self
  obtain ⟨before, _⟩ := Array.getElem?_eq_some_iff.mp loop
  have settled : Decoding.Settled
      ⟨(operationsInside.setIfInBounds decoding.operations.size
        (.loopStart operationsInside.size)).push (.loopEnd decoding.operations.size),
        decoding.opened⟩
      decoding.operations.size (.loopStart operationsInside.size) :=
    ⟨by simp [Array.getElem?_push, Nat.ne_of_lt before, before],
      fun entry member => Nat.ne_of_lt (proper.inside member), fun _ => rfl⟩
  have here : loaded.operations[decoding.operations.size]? =
      some (.loopStart operationsInside.size) := by
    rw [← sameOperations]
    exact settled.takeAll afterwards
  have executes : Machine.execute loaded
      ⟨tape, decoding.operations.size, steps + 1, machine.input, machine.output⟩
        (.loopStart operationsInside.size) =
      (⟨tape, operationsInside.size, steps + 1, machine.input, machine.output⟩, none) := by
    simp [Machine.execute, zero]
  refine ⟨_, leads.trans (Machine.leads_step holds.unlimited here executes),
    .here (by simp [split]) readClosed ?_ rfl rfl⟩
  simp [Decoding.Lags]

theorem loopEnd_mirrors (holds : loaded.Holds breakpoint code)
    (split : code = behind.reverse ++ ']' :: ahead)
    (read : Decoding.takeAll breakpoint ⟨#[], []⟩ 0 behind.reverse = .ok decoding)
    (lags : decoding.Lags tape machine) :
    ∃ start place opened steps, decoding.opened = (start, place) :: opened ∧
      Machine.Leads loaded machine
        ⟨tape, decoding.operations.size, steps, machine.input, machine.output⟩ ∧
      loaded.operations[decoding.operations.size]? = some (.loopEnd start) ∧
      ∃ next, Decoding.takeAll breakpoint ⟨#[], []⟩ 0 (']' :: behind).reverse = .ok next ∧
        next.operations.size = decoding.operations.size + 1 ∧
        next.operations.back? = some (.loopEnd start) := by
  obtain ⟨next, final, first, further, rest, operations⟩ := read_next holds split read
  have proper := proper_of_read read
  obtain ⟨start, place, opened, inside⟩ : ∃ start place opened,
      decoding.opened = (start, place) :: opened := by
    obtain ⟨list, opened⟩ := decoding
    cases opened with
    | nil => cases first
    | cons innermost opened => exact ⟨innermost.1, innermost.2, opened, rfl⟩
  -- Closing the loop puts its end behind all other operations, and nothing later changes that.
  have closes : next = ⟨(decoding.operations.setIfInBounds start
      (.loopStart decoding.operations.size)).push (.loopEnd start), opened⟩ := by
    obtain ⟨list, loops⟩ := decoding
    obtain rfl : loops = _ := inside
    exact (Except.ok.inj first).symm
  subst closes
  obtain ⟨steps, leads⟩ := catches_up holds split read lags first (by simp)
  refine ⟨start, place, opened, steps, inside, leads, ?_, _, further, by simp, by simp⟩
  have settled : Decoding.Settled
      ⟨(decoding.operations.setIfInBounds start (.loopStart decoding.operations.size)).push
        (.loopEnd start), opened⟩ decoding.operations.size (.loopEnd start) :=
    ⟨by rw [Array.getElem?_push, if_pos (by simp)], fun entry member =>
      Nat.ne_of_lt (proper.inside (inside ▸ List.mem_cons_of_mem _ member)), fun _ => rfl⟩
  rw [← operations]
  exact settled.takeAll rest

/-- The last round of a loop leads behind it. -/
theorem leave_mirrors (holds : loaded.Holds breakpoint code)
    (split : code = behind.reverse ++ ']' :: ahead)
    (read : Decoding.takeAll breakpoint ⟨#[], []⟩ 0 behind.reverse = .ok decoding)
    (lags : decoding.Lags tape machine) (zero : tape.current = 0) :
    ∃ other, Machine.Leads loaded machine other ∧
      Mirrors loaded breakpoint code
        ⟨']' :: behind, ahead, tape, machine.input, machine.output.toList⟩ other := by
  obtain ⟨start, place, opened, steps, inside, leads, here, next, further, size, last⟩ :=
    loopEnd_mirrors holds split read lags
  have executes : Machine.execute loaded
      ⟨tape, decoding.operations.size, steps + 1, machine.input, machine.output⟩
        (.loopEnd start) =
      (⟨tape, decoding.operations.size, steps + 1, machine.input, machine.output⟩, none) := by
    simp [Machine.execute, zero]
  refine ⟨_, leads.trans (Machine.leads_step holds.unlimited here executes),
    .here (by simp [split]) further ?_ rfl rfl⟩
  simp [Decoding.Lags, last, size]

/-- Every other round leads to the opening bracket, and the machine into the loop. The machine executes
something for it. -/
theorem repeat_mirrors (holds : loaded.Holds breakpoint code)
    (split : code = behind.reverse ++ ']' :: ahead)
    (read : Decoding.takeAll breakpoint ⟨#[], []⟩ 0 behind.reverse = .ok decoding)
    (lags : decoding.Lags tape machine) (nonzero : tape.current ≠ 0) {passed rest : List Char}
    (passes : pass ']' '[' 0 (']' :: ahead) behind = some (passed, rest)) :
    ∃ turns other, 0 < turns ∧ Machine.LeadsIn loaded turns machine other ∧
      Mirrors loaded breakpoint code
        ⟨rest, passed, tape, machine.input, machine.output.toList⟩ other := by
  obtain ⟨start, place, opened, steps, inside, ⟨turns, leads⟩, here, -⟩ :=
    loopEnd_mirrors holds split read lags
  have innermost : decoding.opened[0]? = some (start, place) := by simp [inside]
  obtain ⟨inner, outer, between, rfl, found, outside, size⟩ :=
    Decoding.pass_back read innermost (']' :: ahead)
  obtain ⟨rfl, rfl⟩ : '[' :: (inner.reverse ++ ']' :: ahead) = passed ∧ outer = rest := by
    simpa [found] using passes
  -- Behind the opening bracket the text has been read as far as it was when the loop was entered.
  have reopened : Decoding.takeAll breakpoint ⟨#[], []⟩ 0 ('[' :: outer).reverse =
      .ok (between.openLoop outer.length) := by
    rw [List.reverse_cons, Decoding.takeAll_append outside, List.length_reverse, Nat.zero_add,
      Decoding.takeAll_single]
    rfl
  have executes : Machine.execute loaded
      ⟨tape, decoding.operations.size, steps + 1, machine.input, machine.output⟩
        (.loopEnd start) =
      (⟨tape, start, steps + 1, machine.input, machine.output⟩, none) := by
    simp [Machine.execute, nonzero]
  refine ⟨turns + 1, _, Nat.succ_pos turns,
    leads.trans (Machine.leadsIn_step holds.unlimited here executes),
    .entered nonzero (.here (by simp [split]) reopened ?_ rfl rfl)⟩
  simp [Decoding.Lags, Decoding.openLoop, size]

/-! ## All characters -/

/-- The failure of the devices at the next character, if they refuse it. -/
def refusal? (devices : Devices) : CharacterMachine → Option DeviceFailure
  | ⟨_, '.' :: _, _, _, output⟩ =>
    if devices.outputCapacity.any (· ≤ output.length) then some .output else none
  | ⟨_, ',' :: _, _, [], _⟩ => if devices.inputFails then some .input else none
  | _ => none

/-- One character, if the devices do not refuse it. -/
def serve (devices : Devices) (ending : EndOfInput) (machine : CharacterMachine) :
    Option CharacterMachine :=
  if (machine.refusal? devices).isSome then none else machine.step ending

theorem serve_eq_some {devices : Devices} {ending : EndOfInput} {first following : CharacterMachine} :
    first.serve devices ending = some following ↔
      first.refusal? devices = none ∧ first.step ending = some following := by
  simp [serve]

/-- Devices that never fail refuse nothing. -/
theorem serve_free (ending : EndOfInput) : serve {} ending = CharacterMachine.step ending := by
  funext machine
  have nothing : machine.refusal? {} = none := by
    unfold refusal?
    split <;> rfl
  simp [serve, nothing]

theorem sub_one_eq (value : UInt8) : value - 1 = value + 255 := by
  grind

/-- An opening bracket leads into the loop or behind it. -/
theorem openBracket_mirrors (holds : loaded.Holds breakpoint code)
    (split : code = behind.reverse ++ '[' :: ahead)
    (read : Decoding.takeAll breakpoint ⟨#[], []⟩ 0 behind.reverse = .ok decoding)
    (lags : decoding.Lags tape machine) {following : CharacterMachine}
    (stepped : CharacterMachine.step loaded.endOfInput
      ⟨behind, '[' :: ahead, tape, machine.input, machine.output.toList⟩ = some following) :
    ∃ other, Machine.Leads loaded machine other ∧
      Mirrors loaded breakpoint code following other := by
  by_cases zero : tape.current = 0
  · simp only [CharacterMachine.step, zero, if_true, Option.map_eq_some_iff, Prod.exists] at stepped
    obtain ⟨passed, rest, passes, rfl⟩ := stepped
    exact leaveOut_mirrors holds split read lags zero passes
  · simp only [CharacterMachine.step, zero, if_false, Option.some.injEq] at stepped
    subst stepped
    exact loopStart_mirrors holds split read lags zero

/-- A closing bracket leads behind the loop or back into it. -/
theorem closeBracket_mirrors (holds : loaded.Holds breakpoint code)
    (split : code = behind.reverse ++ ']' :: ahead)
    (read : Decoding.takeAll breakpoint ⟨#[], []⟩ 0 behind.reverse = .ok decoding)
    (lags : decoding.Lags tape machine) {following : CharacterMachine}
    (stepped : CharacterMachine.step loaded.endOfInput
      ⟨behind, ']' :: ahead, tape, machine.input, machine.output.toList⟩ = some following) :
    ∃ other, Machine.Leads loaded machine other ∧
      Mirrors loaded breakpoint code following other := by
  by_cases zero : tape.current = 0
  · simp only [CharacterMachine.step, zero, if_true, Option.some.injEq] at stepped
    subst stepped
    exact leave_mirrors holds split read lags zero
  · simp only [CharacterMachine.step, zero, if_false, Option.map_eq_some_iff, Prod.exists] at stepped
    obtain ⟨passed, rest, passes, rfl⟩ := stepped
    obtain ⟨turns, other, -, leads, mirrored⟩ := repeat_mirrors holds split read lags zero passes
    exact ⟨other, ⟨turns, leads⟩, mirrored⟩

/-- Both machines read the next byte, or they do the same at the end of the input. -/
theorem read_mirrors (holds : loaded.Holds breakpoint code)
    (split : code = behind.reverse ++ ',' :: ahead)
    (read : Decoding.takeAll breakpoint ⟨#[], []⟩ 0 behind.reverse = .ok decoding)
    (lags : decoding.Lags tape machine) {following : CharacterMachine}
    (granted : refusal? loaded.devices
      ⟨behind, ',' :: ahead, tape, machine.input, machine.output.toList⟩ = none)
    (stepped : CharacterMachine.step loaded.endOfInput
      ⟨behind, ',' :: ahead, tape, machine.input, machine.output.toList⟩ = some following) :
    ∃ other, Machine.Leads loaded machine other ∧
      Mirrors loaded breakpoint code following other := by
  cases available : machine.input with
  | nil =>
    simp only [CharacterMachine.step, available, Option.some.injEq] at stepped
    subst stepped
    have works : loaded.devices.inputFails = false := by
      simpa [refusal?, available] using granted
    exact operation_mirrors holds split read lags rfl rfl fun steps => by
      simp [available, Machine.execute, Machine.read, works]
  | cons byte rest =>
    simp only [CharacterMachine.step, available, Option.some.injEq] at stepped
    subst stepped
    exact operation_mirrors holds split read lags rfl rfl fun steps => by
      rw [available, Machine.execute, Machine.read]

/-- Both machines write the current cell. -/
theorem write_mirrors (holds : loaded.Holds breakpoint code)
    (split : code = behind.reverse ++ '.' :: ahead)
    (read : Decoding.takeAll breakpoint ⟨#[], []⟩ 0 behind.reverse = .ok decoding)
    (lags : decoding.Lags tape machine)
    (granted : refusal? loaded.devices
      ⟨behind, '.' :: ahead, tape, machine.input, machine.output.toList⟩ = none) :
    ∃ other, Machine.Leads loaded machine other ∧
      Mirrors loaded breakpoint code
        ⟨'.' :: behind, ahead, tape, machine.input, machine.output.toList ++ [tape.current]⟩
        other := by
  have room : ¬loaded.devices.outputCapacity.any (· ≤ machine.output.size) = true := by
    simpa [refusal?] using granted
  rw [← Array.toList_push]
  exact operation_mirrors holds split read lags rfl rfl fun steps => by
    rw [Machine.execute, Machine.write, if_neg room]

/-- A character that does nothing is passed over, but it may mark a breakpoint. -/
theorem ignored_mirrors (holds : loaded.Holds breakpoint code) {c : Char}
    (split : code = behind.reverse ++ c :: ahead)
    (read : Decoding.takeAll breakpoint ⟨#[], []⟩ 0 behind.reverse = .ok decoding)
    (lags : decoding.Lags tape machine)
    (taken : decoding.take breakpoint behind.length c =
      .ok (if breakpoint = some c then decoding.push .breakpoint else decoding)) :
    ∃ other, Machine.Leads loaded machine other ∧
      Mirrors loaded breakpoint code
        ⟨c :: behind, ahead, tape, machine.input, machine.output.toList⟩ other := by
  by_cases marks : breakpoint = some c
  · rw [if_pos marks] at taken
    exact operation_mirrors holds split read lags taken rfl fun steps => rfl
  · rw [if_neg marks] at taken
    obtain ⟨next, final, firstTaken, further, -, -⟩ := read_next holds split read
    obtain rfl := Except.ok.inj (firstTaken.symm.trans taken)
    exact ⟨machine, .refl, .here (by simp [split]) further lags rfl rfl⟩

/-- Whatever the code does, the machine does. -/
theorem Mirrors.step (holds : loaded.Holds breakpoint code) {first following : CharacterMachine}
    (mirrors : Mirrors loaded breakpoint code first machine)
    (served : first.serve loaded.devices loaded.endOfInput = some following) :
    ∃ other, Machine.Leads loaded machine other ∧
      Mirrors loaded breakpoint code following other := by
  obtain ⟨granted, stepped⟩ := serve_eq_some.mp served
  cases mirrors with
  -- The code stands on a bracket that the machine is behind already.
  | entered nonzero inside =>
    refine ⟨machine, .refl, ?_⟩
    simp only [CharacterMachine.step, nonzero, if_false, Option.some.injEq] at stepped
    exact stepped ▸ inside
  | @here behind ahead tape _ _ _ decoding split read lags sameInput sameOutput =>
    subst sameInput sameOutput
    cases ahead with
    | nil => cases stepped
    | cons c ahead =>
      by_cases opens : c = '['
      · subst opens
        exact openBracket_mirrors holds split read lags stepped
      by_cases closes : c = ']'
      · subst closes
        exact closeBracket_mirrors holds split read lags stepped
      by_cases right : c = '>'
      · subst right
        obtain rfl := Option.some.inj stepped
        exact move_mirrors holds split read lags rfl
      by_cases left : c = '<'
      · subst left
        obtain rfl := Option.some.inj stepped
        exact move_mirrors holds split read lags rfl
      by_cases raise : c = '+'
      · subst raise
        obtain rfl := Option.some.inj stepped
        exact add_mirrors holds split read lags rfl
      by_cases lower : c = '-'
      · subst lower
        obtain rfl := Option.some.inj stepped
        simp only [sub_one_eq]
        exact add_mirrors holds split read lags rfl
      by_cases print : c = '.'
      · subst print
        obtain rfl := Option.some.inj stepped
        exact write_mirrors holds split read lags granted
      by_cases reads : c = ','
      · subst reads
        exact read_mirrors holds split read lags granted stepped
      -- Any other character is a mark or ignored.
      have passed : following =
          ⟨c :: behind, ahead, tape, machine.input, machine.output.toList⟩ := by
        simpa [CharacterMachine.step, opens, closes, right, left, raise, lower, print, reads]
          using stepped.symm
      subst passed
      refine ignored_mirrors holds split read lags ?_
      unfold Decoding.take
      split <;> first | rfl | contradiction

theorem Mirrors.path (holds : loaded.Holds breakpoint code) {ι : Type}
    {mark : CharacterMachine → ι} {marks : List ι} {first last : CharacterMachine}
    (path : Path (serve loaded.devices loaded.endOfInput) mark first marks last)
    (mirrors : Mirrors loaded breakpoint code first machine) :
    ∃ other, Machine.Leads loaded machine other ∧
      Mirrors loaded breakpoint code last other := by
  induction path generalizing machine with
  | here => exact ⟨machine, .refl, mirrors⟩
  | next served _ ih =>
    obtain ⟨middle, leads, between⟩ := mirrors.step holds served
    obtain ⟨other, onwards, ends⟩ := ih between
    exact ⟨other, leads.trans onwards, ends⟩

/-- Where the code ends the machine executes what it has not yet executed, and halts. -/
theorem Mirrors.halts (holds : loaded.Holds breakpoint code) {last : CharacterMachine}
    (mirrors : Mirrors loaded breakpoint code last machine) (halted : last.isHalted = true) :
    ∃ other, Machine.Leads loaded machine other ∧ other.isHalted loaded = true ∧
      other.tape = last.tape ∧ other.output.toList = last.output := by
  cases mirrors with
  | entered => cases halted
  | here split read lags sameInput sameOutput =>
    obtain rfl := List.isEmpty_iff.mp halted
    obtain ⟨final, whole, operations⟩ := holds.decoded
    rw [split, List.append_nil, read] at whole
    obtain rfl := Except.ok.inj whole
    obtain ⟨steps, leads⟩ := lags.catchUp holds.unlimited fun operation ends _ => by
      rw [← operations, ← ends, Array.back?_eq_getElem?]
    refine ⟨_, leads, ?_, rfl, sameOutput⟩
    simp [Machine.isHalted, ← operations]

end CharacterMachine

/-- Code with matched brackets can be loaded, with all its loops closed, and the machine is then where
the code starts. -/
theorem Machine.load_mirrors {settings : MachineSettings} (positive : 0 < settings.tapeLength)
    {code : List Char} (balanced : Balanced code) (input : List UInt8) :
    ∃ operations machine,
      Machine.load settings code input =
        .ok (⟨operations, settings.stepLimit, settings.endOfInput, settings.devices⟩, machine) ∧
      Decoding.takeAll settings.breakpoint ⟨#[], []⟩ 0 code = .ok ⟨operations, []⟩ ∧
      CharacterMachine.Mirrors
        ⟨operations, settings.stepLimit, settings.endOfInput, settings.devices⟩ settings.breakpoint
        code (.start code (Tape.blank settings.tapeLength positive) input) machine := by
  obtain ⟨⟨operations, opened⟩, taken, closed⟩ :=
    @Decoding.takeAll_balanced settings.breakpoint code balanced ⟨#[], []⟩ 0
  obtain rfl : opened = [] := closed
  refine ⟨operations, ⟨Tape.blank settings.tapeLength positive, 0, 0, input, #[]⟩, ?_, taken,
    .here rfl rfl ⟨rfl, rfl⟩ rfl rfl⟩
  simp only [Machine.load, positive, dite_true, TapeOperation.decode, taken]

/-- The same for a machine without a limit, which can always read and write. -/
theorem Machine.load_balanced {settings : MachineSettings} (unlimited : settings.stepLimit = none)
    (devices : settings.devices = {}) (positive : 0 < settings.tapeLength) {code : List Char}
    (balanced : Balanced code) (input : List UInt8) :
    ∃ loaded machine, Machine.load settings code input = .ok (loaded, machine) ∧
      loaded.endOfInput = settings.endOfInput ∧ Machine.Free loaded ∧
      Decoding.takeAll settings.breakpoint ⟨#[], []⟩ 0 code = .ok ⟨loaded.operations, []⟩ ∧
      CharacterMachine.Mirrors loaded settings.breakpoint code
        (.start code (Tape.blank settings.tapeLength positive) input) machine := by
  obtain ⟨operations, machine, loads, taken, starts⟩ :=
    Machine.load_mirrors positive balanced input
  exact ⟨_, machine, loads, rfl, ⟨unlimited, devices⟩, taken, starts⟩

/-- Code with matched brackets can be loaded, and where it comes to an end character by character, the
machine halts with the same tape and the same output. -/
theorem Machine.runs_code {settings : MachineSettings} (unlimited : settings.stepLimit = none)
    (devices : settings.devices = {}) (positive : 0 < settings.tapeLength) {code : List Char}
    (balanced : Balanced code) {input : List UInt8} {ι : Type} {mark : CharacterMachine → ι}
    {marks : List ι} {last : CharacterMachine}
    (path : Path (CharacterMachine.step settings.endOfInput) mark
      (.start code (Tape.blank settings.tapeLength positive) input) marks last)
    (halted : last.isHalted = true) :
    ∃ loaded machine turns final, Machine.load settings code input = .ok (loaded, machine) ∧
      machine.runFor loaded false turns = (final, .halted) ∧
      final.tape = last.tape ∧ final.output.toList = last.output := by
  obtain ⟨loaded, machine, loads, ending, free, closed, starts⟩ :=
    Machine.load_balanced unlimited devices positive balanced input
  have holds : loaded.Holds settings.breakpoint code := ⟨free.unlimited, _, closed, rfl⟩
  rw [← ending, ← CharacterMachine.serve_free, ← free.devices] at path
  obtain ⟨middle, leads, arrived⟩ := starts.path holds path
  obtain ⟨final, onwards, stopped, tape, output⟩ := arrived.halts holds halted
  obtain ⟨turns, run⟩ := (leads.trans onwards).halts stopped
  exact ⟨loaded, machine, turns, final, loads, run, tape, output⟩

end TapeCode
