import TapeCode.Proofs.Acceptance
import TapeCode.Proofs.Ribbon.Displacement
import TapeCode.Proofs.StackEffects

/-!
# Straight code on a tape

Code without transfers, from a blank tape to its end. The scan of the heights says that the stack
machine finds the values it needs, and how high its stack is in the end; that is where the pointer
stands then, and the cells are those of the stack machine's values.
-/
namespace TapeCode

/-! ## Instructions without transfers -/

/-- Instructions on the stack, on input and output, and on local variables of any layout whose slots
all are single cells. -/
def Instruction.isStraight : Instruction → Bool
  | .nop _ | .readChar | .printChar | .printInt | .pushInt _ | .popInt | .dupInt | .swapInt | .not
  | .add | .sub | .mul | .div | .greater => true
  | .readLocal layout | .writeLocal layout | .clearLocal layout => layout.all Template.fillsCell
  | _ => false

/-- Whether an instruction on a local variable has a layout at all. -/
def Instruction.hasLayout : Instruction → Bool
  | .readLocal layout | .writeLocal layout | .clearLocal layout => !layout.isEmpty
  | _ => true

theorem Instruction.isBody_eq (instruction : Instruction) :
    instruction.isBody = (instruction.hasLayout && instruction.isStraight) := by
  cases instruction <;> rfl

/-! ## Cells -/

namespace Ribbon

variable (heap : Stream' UInt8) (cells : List UInt8) (input output : List UInt8)

theorem cellAt_top_left (column : Stream' UInt8) (distance : Nat) :
    (top column input output).cellAt (-distance) = column.get distance := by
  cases distance with
  | zero => rfl
  | succ distance => rfl

theorem cellAt_top_right (column : Stream' UInt8) {distance : Int} (right : 0 < distance) :
    (top column input output).cellAt distance = 0 := by
  obtain ⟨steps, rfl⟩ : ∃ steps : Nat, distance = .ofNat (steps + 1) :=
    ⟨(distance - 1).toNat, by simp; omega⟩
  rfl

theorem column_value {index : Nat} (inside : index < cells.length) :
    (column heap cells).get (2 * index) = cells[index] := by
  induction cells generalizing index with
  | nil => cases inside
  | cons first rest ih =>
    cases index with
    | zero => rfl
    | succ index => exact ih (Nat.lt_of_succ_lt_succ inside)

theorem column_link {index : Nat} (inside : index < cells.length) :
    (column heap cells).get (2 * index + 1) = 0 := by
  induction cells generalizing index with
  | nil => cases inside
  | cons first rest ih =>
    cases index with
    | zero => rfl
    | succ index => exact ih (Nat.lt_of_succ_lt_succ inside)

theorem column_below (index : Nat) :
    (column heap cells).get (2 * cells.length + index) = (column heap []).get index := by
  induction cells with
  | nil => rw [List.length_nil, Nat.mul_zero, Nat.zero_add]
  | cons first rest ih =>
    rw [List.length_cons, Nat.mul_succ, Nat.add_right_comm]
    exact ih

end Ribbon

/-- The cells of a tape on which a state lies, from the origin to the right the stack with the pointer
on top of it, and to the left the sentinel and the slots. The tape has `low` cells to the left of the
origin and `high` cells from there on. -/
structure Tape.Holds (tape : Tape) (low high : Nat) (values : StackState Empty) : Prop where
  pointer : tape.pointer = 2 * values.stack.length
  stack : ∀ (index : Nat) (inside : index < values.stack.reverse.length),
    tape.cellAt (2 * (index + 1 : Nat)) = values.stack.reverse[index].cell
  sentinel : tape.cellAt (-1) = 255
  heap : ∀ slot : Nat, slot + 2 ≤ low → tape.cellAt (-2 - slot) = (values.heap slot).cell
  links : ∀ link : Nat, 2 * link + 1 < high → tape.cellAt (2 * link + 1) = 0
  above : ∀ cell : Int, 2 * values.stack.length < cell → cell < high → tape.cellAt cell = 0

theorem Tape.Shows.holds {tape : Tape} {low high : Nat} {values : StackState Empty}
    (shows : tape.Shows low high (2 * values.stack.length) values.ribbon)
    (sentinel : 1 ≤ low) (top : 2 * values.stack.length < high) : tape.Holds low high values := by
  have count : values.stackCells.length = values.stack.length := List.length_map _
  have size := shows.size
  -- Cells up to the top are those of the column, counted from the top.
  have column (offset : Int) (distance : Nat) (low' : -low ≤ offset)
      (same : offset + distance = 2 * values.stack.length) :
      tape.cellAt offset = (Ribbon.column values.heapCells values.stackCells).get distance := by
    rw [shows.cells offset low' (by omega), StackState.ribbon, ← Ribbon.cellAt_top_left]
    congr 1
    omega
  have right (cell : Int) (above : 2 * values.stack.length < cell) (below : cell < high) :
      tape.cellAt cell = 0 := by
    rw [shows.cells cell (by omega) below]
    exact Ribbon.cellAt_top_right _ _ _ (by omega)
  refine ⟨?_, fun index inside => ?_, ?_, fun slot within => ?_, fun link within => ?_, right⟩
  · rw [shows.pointer]
    have wraps : (2 * (values.stack.length : Int)) % tape.cells.size = 2 * values.stack.length :=
      Int.emod_eq_of_lt (by omega) (by omega)
    change ((2 * (values.stack.length : Int)) % tape.cells.size).toNat = _
    rw [wraps]
    omega
  · rw [List.length_reverse] at inside
    rw [column _ (2 * (values.stack.length - 1 - index)) (by omega) (by omega),
      Ribbon.column_value _ _ (by omega), List.getElem_reverse]
    simp [StackState.stackCells]
  · rw [column (-1) (2 * values.stackCells.length + 1) (by omega) (by omega), Ribbon.column_below]
    rfl
  · rw [column (-2 - slot) (2 * values.stackCells.length + (slot + 2)) (by omega) (by omega),
      Ribbon.column_below]
    rfl
  · by_cases above : 2 * values.stack.length < 2 * link + 1
    · exact right _ (by omega) (by omega)
    · rw [column _ (2 * (values.stack.length - 1 - link) + 1) (by omega) (by omega),
        Ribbon.column_link _ _ (by omega)]

/-! ## Code -/

namespace Writer

variable {style : CodeStyle} {listing : Listing} {code : List Char}

/-- The writer refuses an instruction on a local variable that has no layout. -/
theorem hasLayout_of_streamCode {opened : List OpenMachine}
    (written : streamCode style opened listing = .ok code) :
    listing.all (·.hasLayout) = true := by
  induction listing generalizing opened code with
  | nil => rfl
  | cons instruction rest ih =>
    rw [streamCode] at written
    split at written
    next => cases written
    next succeeds =>
      obtain ⟨others, writtenRest, -⟩ := Except.bind_eq_ok.mp written
      rw [List.all_cons, ih writtenRest, Bool.and_true]
      have refused (fails : bodyEffects style opened instruction = [.fail (.layout .empty)]) :
          False := by
        cases point : style.debugBreakpoint <;> cases info : style.debugInfo <;>
          simp [effects, commentLine, perform, point, info, fails] at succeeds
      cases instruction with
      | readLocal layout | writeLocal layout | clearLocal layout =>
        cases layout with
        | nil => exact (refused rfl).elim
        | cons => rfl
      | _ => rfl

/-- Code that runs from the ribbon of a state comes to its end behind the text that sets the sentinel. -/
theorem path_of_runs {ending : EndOfInput} {state : StackState Empty} {last : Ribbon} {text : List Char}
    (empty : state.stack = []) (runs : Runs ending text state.ribbon last) :
    ∃ shifts, Path (RibbonMachine.step ending) RibbonMachine.shift
      (.between [] (startText style ++ text) state.unfenced) shifts
      (.between (startText style ++ text) [] last) := by
  obtain ⟨places, whole⟩ := ((startText_runs ending style empty).append runs).path_whole
  exact whole.remark _

/-- How far the pointer has moved from the origin, if the code does the same whatever the slots far away
hold. -/
theorem sum_shifts_of_alike {ending : EndOfInput} {input : List UInt8} {last : Ribbon} {text : List Char}
    {shifts : List Int} (path : Path (RibbonMachine.step ending) RibbonMachine.shift
      (.between [] (startText style ++ text) (.blank input)) shifts
      (.between (startText style ++ text) [] last)) {bound far : Nat}
    (alike : ∀ slot, bound ≤ slot → ∀ value, Runs ending text
      ((StackState.start input).store slot (.byte value)).ribbon (last.mark (slot + far) value)) :
    shifts.sum = (far : Int) - 1 := by
  refine @Runs.sum_shifts_of_marks ending _ shifts bound _ _ path 1 far fun slot above value => ?_
  have begins := @startText_runs ending style ((StackState.start input).store slot (.byte value)) rfl
  rw [StackState.unfenced_store, StackState.unfenced_start] at begins
  exact begins.append (alike slot above value)

/-- The pointer has moved by two cells for each value of the stack. -/
theorem sum_shifts_eq {ending : EndOfInput} {input : List UInt8} {values : StackState Empty}
    {text : List Char} (executed : (StackState.start input).executeAll? ending listing = some values)
    (runs : ∀ state after : StackState Empty, state.executeAll? ending listing = some after →
      Runs ending text state.ribbon after.ribbon) {shifts : List Int}
    (path : Path (RibbonMachine.step ending) RibbonMachine.shift
      (.between [] (startText style ++ text) (.blank input)) shifts
      (.between (startText style ++ text) [] values.ribbon)) :
    shifts.sum = 2 * values.stack.length := by
  obtain ⟨bound, apart⟩ := Instruction.exists_slots_behind listing
  have moved := @sum_shifts_of_alike style ending input _ text shifts path bound
    (2 * values.stack.length + 1) fun slot above value => by
      have marked := runs ((StackState.start input).store slot (.byte value)) _
        (StackState.executeAll?_store (apart slot above) executed).1
      rwa [values.ribbon_store_eq, Nat.add_comm _ slot] at marked
  omega

/-- Code that runs from an empty stack to a ribbon, and does so whatever the slots far away hold, halts on
every tape that is long enough, and the tape shows the ribbon. -/
theorem runs_on_tapes {ending : EndOfInput} {input : List UInt8} {last : Ribbon} {text : List Char}
    (style : CodeStyle) (runs : Runs ending text (StackState.start input).ribbon last) {bound far : Nat}
    (alike : ∀ slot, bound ≤ slot → ∀ value, Runs ending text
      ((StackState.start input).store slot (.byte value)).ribbon (last.mark (slot + far) value)) :
    ∃ reach, ∀ (settings : MachineSettings) (low high : Nat), settings.endOfInput = ending →
      settings.stepLimit = none → settings.devices = {} →
      settings.tapeLength = low + high → reach ≤ low → reach ≤ high →
      ∃ loaded machine turns final,
        Machine.load settings (startText style ++ text) input = .ok (loaded, machine) ∧
        machine.runFor loaded false turns = (final, .halted) ∧
        final.tape.Shows low high ((far : Int) - 1) last ∧ final.output.toList = last.output := by
  obtain ⟨shifts, path⟩ := @path_of_runs style ending _ _ text rfl runs
  rw [StackState.unfenced_start] at path
  refine ⟨shifts.length + 1, ?_⟩
  intro settings low high sameEnding unlimited devices size lowEnough highEnough
  subst sameEnding
  have begins := (@startText_runs settings.endOfInput style (.start input) rfl).balanced
  rw [← sum_shifts_of_alike path alike]
  exact Machine.runs_blank (begins.append runs.balanced) path unlimited devices size (by omega)
    (by omega)

/-- Straight code is written if its layouts are not empty, and it runs to its end on every tape that is
long enough. The cells of the tape are then those of the stack machine's values, with the pointer where
the scan of the heights says, and the output is the stack machine's. -/
theorem straight_runs (quiet : style.isQuiet = true)
    (straight : listing.all (·.isStraight) = true) {height : Nat}
    (checked : StackHeight.check listing 0 = .ok height) :
    (listing.all (·.hasLayout) = true → ∃ code, generate style listing = .ok code) ∧
      ∀ code, generate style listing = .ok code → ∀ (ending : EndOfInput) (input : List UInt8),
        ∃ values : StackState Empty,
          (StackState.start input).executeAll? ending listing = some values ∧
          values.stack.length = height ∧
          ∃ reach, ∀ (settings : MachineSettings) (low high : Nat), settings.endOfInput = ending →
            settings.stepLimit = none → settings.devices = {} →
            settings.tapeLength = low + high → reach ≤ low → reach ≤ high →
            ∃ loaded machine turns final, Machine.load settings code input = .ok (loaded, machine) ∧
              machine.runFor loaded false turns = (final, .halted) ∧
              final.tape.Holds low high values ∧ final.output.toList = values.output := by
  have body (layouts : listing.all (·.hasLayout) = true) : listing.all (·.isBody) = true := by
    simp only [List.all_eq_true, Instruction.isBody_eq, Bool.and_eq_true] at straight layouts ⊢
    exact fun instruction member => ⟨layouts instruction member, straight instruction member⟩
  refine ⟨fun layouts => ?_, fun code written ending input => ?_⟩
  · obtain ⟨text, emits⟩ := listing_emits (body layouts) style []
    exact generate_of_emits emits
  · obtain ⟨text, streamed, rfl⟩ := generate_eq_ok written
    -- What is written has layouts, as the writer refuses an empty one.
    have computes := body (hasLayout_of_streamCode streamed)
    obtain ⟨other, emits, balanced, runs⟩ := listing_runs ending quiet [] computes
    obtain rfl : other = text := Except.ok.inj (emits.streamCode.symm.trans streamed)
    obtain ⟨values, executed, tall⟩ :=
      @StackState.executeAll?_of_scan listing (.start input) computes 0 height checked ending
    refine ⟨values, executed, tall, ?_⟩
    obtain ⟨shifts, path⟩ := @path_of_runs style _ _ _ _ rfl (runs _ _ executed)
    rw [StackState.unfenced_start] at path
    -- How far the pointer has moved follows from a mark that the code does not reach.
    have moved := sum_shifts_eq executed runs path
    refine ⟨shifts.length + 2 * values.stack.length + 1, ?_⟩
    intro settings low high sameEnding unlimited devices size lowEnough highEnough
    subst sameEnding
    have begins := (@startText_runs settings.endOfInput style (.start input) rfl).balanced
    obtain ⟨loaded, machine, turns, final, load, run, shows, output⟩ := Machine.runs_blank
      (begins.append balanced) path unlimited devices size (by omega) (by omega)
    rw [moved] at shows
    exact ⟨loaded, machine, turns, final, load, run, shows.holds (by omega) (by omega), output⟩

/-- A number that does not fit a cell is pushed as 44, which is printed, and 37 goes to a slot. -/
def storingListing : Listing :=
  [.pushInt 300, .printInt, .dupInt, .pushInt 7, .sub, .writeLocal [4, 1]]

theorem straight_runs_storingListing : ∃ code, generate {} storingListing = .ok code ∧
    ∃ values : StackState Empty, values.stack = [.byte 44] ∧ values.heap 1 = .byte 37 ∧
      values.output = [52, 52] ∧
      ∃ reach, ∀ (settings : MachineSettings) (low high : Nat), settings.endOfInput = .zero →
        settings.stepLimit = none → settings.devices = {} →
        settings.tapeLength = low + high → reach ≤ low → reach ≤ high →
        ∃ loaded machine turns final, Machine.load settings code [] = .ok (loaded, machine) ∧
          machine.runFor loaded false turns = (final, .halted) ∧
          final.tape.Holds low high values ∧ final.output.toList = values.output := by
  obtain ⟨writes, runs⟩ := @straight_runs {} storingListing rfl (by decide) 1 rfl
  obtain ⟨code, written⟩ := writes (by decide)
  obtain ⟨values, executed, -, reach, halts⟩ := runs code written .zero []
  obtain rfl := Option.some.inj executed
  exact ⟨code, written, _, rfl, rfl, rfl, reach, halts⟩

end Writer

end TapeCode
