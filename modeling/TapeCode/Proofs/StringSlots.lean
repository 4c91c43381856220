import TapeCode.Proofs.Ribbon.Strings
import TapeCode.Proofs.StraightCode

/-!
# Local variables behind strings

Code that writes, reads and clears local variables behind and in string slots. Wherever the strings that
an instruction passes or clears are empty, it does what it does among single cells, on slots that lie
further apart. Clearing a string that is not empty leaves the stack.
-/
namespace TapeCode

open Template (AreEmpty place place_le)

/-! ## Listings -/

theorem StackState.slot?_eq_some {layout : List Int} {slot : Nat} (addressed : slot? layout = some slot) :
    slot = layout.length - 1 := by
  cases layout with
  | nil => cases addressed
  | cons number before => exact (Option.some.inj addressed).symm

namespace Instruction

/-- Numbers are pushed and local variables of any types are written, read and cleared. -/
def isAccess : Instruction → Bool
  | .pushInt _ | .readLocal _ | .writeLocal _ | .clearLocal _ => true
  | _ => false

def layout? : Instruction → Option (List Int)
  | .readLocal layout | .writeLocal layout | .clearLocal layout => some layout
  | _ => none

/-- A layout in the instruction is the beginning of the layout that all of the listing shares. -/
def IsWithin (whole : List Int) (instruction : Instruction) : Prop :=
  ∀ layout ∈ instruction.layout?, layout <+: whole

instance (whole : List Int) : DecidablePred (IsWithin whole) :=
  fun instruction => inferInstanceAs (Decidable (∀ layout ∈ instruction.layout?, layout <+: whole))

/-- How many of the first slots have to be empty if they are strings: those that the instruction walks over
or clears. -/
def slotsEntered : Instruction → Nat
  | .readLocal layout | .writeLocal layout => layout.length - 1
  | .clearLocal layout => layout.length
  | _ => 0

theorem isComputation_of_isAccess {instruction : Instruction} (access : instruction.isAccess = true)
    (layout : instruction.hasLayout = true) : instruction.isComputation = true := by
  cases instruction <;> first | exact layout | cases access

theorem slot?_lt {instruction : Instruction} {whole : List Int} {slot : Nat}
    (within : instruction.IsWithin whole) (addressed : instruction.slot? = some slot) :
    slot < whole.length := by
  cases instruction with
  | readLocal layout | writeLocal layout | clearLocal layout =>
    have length := (within layout rfl).length_le
    cases layout with
    | nil => cases addressed
    | cons number before =>
      obtain rfl := Option.some.inj addressed
      exact length
  | _ => cases addressed

end Instruction

namespace StackState

variable {ending : EndOfInput} {whole : List Int} {state after : StackState Empty}
  {instruction : Instruction} {listing : Listing}

/-- The strings that the instruction walks over are empty, and the one that it clears too. -/
def Spares (whole : List Int) (state : StackState Empty) (instruction : Instruction) : Prop :=
  AreEmpty whole state.heapCells instruction.slotsEntered

instance : DecidablePred (Spares whole state) :=
  fun instruction => inferInstanceAs (Decidable (AreEmpty _ _ instruction.slotsEntered))

/-- So it is for every instruction when its turn comes. -/
def SparesAll (ending : EndOfInput) (whole : List Int) (state : StackState Empty) : Listing → Prop
  | [] => True
  | instruction :: rest => state.Spares whole instruction ∧
      ∀ after ∈ state.execute? ending instruction, after.SparesAll ending whole rest

instance decidableSparesAll (listing : Listing) (state : StackState Empty) :
    Decidable (state.SparesAll ending whole listing) :=
  match listing with
  | [] => isTrue trivial
  | _ :: rest =>
    have (after : StackState Empty) := decidableSparesAll rest after
    inferInstanceAs (Decidable (_ ∧ _))

/-- The state with the cells of its slots in the place of the slots. -/
def spread (whole : List Int) (state : StackState Empty) : StackState Empty :=
  { state with heap := fun cell => .byte ((Template.spread whole state.heapCells).get cell) }

theorem spread_start (whole : List Int) (input : List UInt8) : (start input).spread whole = start input := by
  have blank : Template.spread whole zeros = zeros := by
    induction whole with
    | nil => rfl
    | cons number rest ih =>
      have tail : zeros.tail = zeros := rfl
      simp only [Template.spread, tail, ih]
      split <;> simp [show zeros.head = 0 from rfl]
  have heap : (start input : StackState Empty).heapCells = zeros := rfl
  simp only [spread, heap, blank]
  rfl

theorem stack_spread (whole : List Int) (state : StackState Empty) :
    (state.spread whole).stack = state.stack := rfl

theorem ribbon_spread (whole : List Int) (state : StackState Empty) : (state.spread whole).ribbon =
    .atTop (Template.spread whole state.heapCells) state.stackCells zeros state.input state.output :=
  rfl

theorem spread_store (whole : List Int) (state : StackState Empty) (slot : Nat) (value : UInt8) :
    (state.store slot (.byte value)).spread whole =
      (state.spread whole).store (place whole slot) (.byte value) := by
  simp only [spread, heapCells_store, StackValue.cell_byte, Template.spread_setSlot]
  simp only [store, mk.injEq, true_and, and_true]
  funext cell
  rw [Template.get_setSlot_eq_ite]
  split <;> rfl

section

variable {slot : Nat} (far : whole.length ≤ slot) (value : UInt8)

include far

theorem Spares.store (within : instruction.IsWithin whole)
    (spared : state.Spares whole instruction) :
    (state.store slot (.byte value)).Spares whole instruction := by
  have inside : instruction.slotsEntered ≤ whole.length := by
    cases instruction with
    | readLocal layout | writeLocal layout => exact (Nat.sub_le _ 1).trans (within layout rfl).length_le
    | clearLocal layout => exact (within layout rfl).length_le
    | _ => exact Nat.zero_le _
  unfold Spares
  rw [heapCells_store]
  exact AreEmpty.setSlot spared (by omega) value

/-- What slots behind the layout hold makes no difference. -/
theorem SparesAll.store (within : ∀ instruction ∈ listing, instruction.IsWithin whole)
    (executed : state.executeAll? ending listing = some after)
    (spared : state.SparesAll ending whole listing) :
    (state.store slot (.byte value)).SparesAll ending whole listing := by
  induction listing generalizing state with
  | nil => trivial
  | cons instruction rest ih =>
    obtain ⟨here, others⟩ := List.forall_mem_cons.mp within
    obtain ⟨between, step, onwards⟩ := executeAll?_cons.mp executed
    have apart : instruction.slot? ≠ some slot := fun addressed => by
      have below := Instruction.slot?_lt here addressed
      omega
    refine ⟨spared.1.store far value here, fun next stepped => ?_⟩
    obtain rfl := Option.some.inj ((execute?_store apart step).1.symm.trans stepped)
    exact ih others onwards (spared.2 between step)

end

/-- The ribbon on which the pointer has missed the stack, because the slot was a filled string when it was
cleared. -/
def stranded (whole : List Int) (state : StackState Empty) (target : Nat) : Ribbon :=
  Template.stranded (Template.spread whole (Template.setSlot state.heapCells target 0)) state.stackCells
    zeros state.input state.output

theorem stranded_store {target slot : Nat} (inside : target < whole.length) (far : whole.length ≤ slot)
    (value : UInt8) : (state.store slot (.byte value)).stranded whole target =
      (state.stranded whole target).mark (place whole slot) value := by
  have apart : place whole slot ≠ 0 := by
    have least := Template.le_place whole slot
    omega
  simp only [stranded, heapCells_store, StackValue.cell_byte]
  rw [Template.setSlot_comm _ (by omega), Template.spread_setSlot,
    Template.stranded_setSlot _ _ _ _ _ apart]
  rfl

end StackState

namespace Writer

variable {style : CodeStyle} {ending : EndOfInput} {whole : List Int}

theorem heapEffects_written {code : Template.HeapWalk → List Char} {layout : List Int}
    {opened between : List OpenMachine} {text : List Char}
    (written : perform opened (heapEffects code layout) = ⟨text, between, none⟩) :
    between = opened ∧ ∃ walk, Template.heapWalk layout = .ok walk ∧ text = code walk := by
  unfold heapEffects at written
  split at written
  · cases written
  next walk found =>
    rw [perform_write] at written
    obtain ⟨rfl, rfl⟩ : code walk = text ∧ opened = between := by simpa using written
    exact ⟨rfl, walk, found, rfl⟩

theorem access_runs {instruction : Instruction} (access : instruction.isAccess = true)
    (within : instruction.IsWithin whole)
    {opened between : List OpenMachine} {text : List Char}
    (written : perform opened (bodyEffects style opened instruction) = ⟨text, between, none⟩) :
    between = opened ∧ ∀ state after : StackState Empty, state.Spares whole instruction →
      state.execute? ending instruction = some after →
      Runs ending text (state.spread whole).ribbon (after.spread whole).ribbon := by
  cases instruction with
  | pushInt value =>
    obtain ⟨other, performed, runs⟩ := @instruction_runs ending style opened (.pushInt value) rfl
    obtain ⟨rfl, rfl, -⟩ := Emission.mk.inj (performed.symm.trans written)
    refine ⟨rfl, fun state after _ executed => ?_⟩
    obtain rfl := Option.some.inj executed
    exact runs (state.spread whole) _ rfl
  -- Each of the three walks to its slot, where the layout leads over the cells of the slots before.
  | readLocal layout =>
    obtain ⟨rfl, walk, found, rfl⟩ := heapEffects_written written
    refine ⟨rfl, fun state after spared executed => ?_⟩
    have leads := @Template.heapWalk_leads whole state.heapCells ending layout walk found
      (within layout rfl) spared
    cases StackState.execute?_eq_some.mp executed with
    | readLocal addressed =>
      obtain rfl := StackState.slot?_eq_some addressed
      have runs := Template.read_runs _ state.stackCells state.input state.output leads
      rw [Template.spread_get, ← Template.spread_setSlot] at runs
      have cells := state.heapCells_store (layout.length - 1) (.byte 0)
      exact .recast rfl runs (by rw [StackState.ribbon_spread]; exact cells ▸ rfl)
  | writeLocal layout =>
    obtain ⟨rfl, walk, found, rfl⟩ := heapEffects_written written
    refine ⟨rfl, fun state after spared executed => ?_⟩
    have leads := @Template.heapWalk_leads whole state.heapCells ending layout walk found
      (within layout rfl) spared
    cases StackState.execute?_eq_some.mp executed with
    | @writeLocal _ _ addressed rest value =>
      obtain rfl := StackState.slot?_eq_some addressed
      have runs := Template.write_runs _ rest.stackCells rest.input rest.output leads value.cell
      rw [← Template.spread_setSlot] at runs
      have cells := rest.heapCells_store (layout.length - 1) value
      exact .recast rfl runs (by rw [StackState.ribbon_spread]; exact cells ▸ rfl)
  | clearLocal layout =>
    obtain ⟨rfl, walk, found, rfl⟩ := heapEffects_written written
    refine ⟨rfl, fun state after spared executed => ?_⟩
    cases StackState.execute?_eq_some.mp executed with
    | clearLocal addressed =>
      obtain rfl := StackState.slot?_eq_some addressed
      have runs := @Template.heapWalk_erase_runs whole state.heapCells ending layout walk found
        (within layout rfl) spared state.stackCells state.input state.output
      have cells := state.heapCells_store (layout.length - 1) (.byte 0)
      exact .recast rfl runs (by rw [StackState.ribbon_spread]; exact cells ▸ rfl)
  | _ => cases access

/-- The text of instructions that find empty strings where they need them does what the instructions do,
and the text of what stands behind them follows it. -/
theorem accesses_run (quiet : style.isQuiet = true) {listing rest : Listing}
    (accesses : listing.all (·.isAccess) = true)
    (within : ∀ instruction ∈ listing, instruction.IsWithin whole)
    {opened : List OpenMachine} {code : List Char}
    (written : streamCode style opened (listing ++ rest) = .ok code) :
    ∃ text more, code = text ++ more ∧ streamCode style opened rest = .ok more ∧
      ∀ state after : StackState Empty, state.SparesAll ending whole listing →
        state.executeAll? ending listing = some after →
        Runs ending text (state.spread whole).ribbon (after.spread whole).ribbon := by
  induction listing generalizing opened code with
  | nil =>
    refine ⟨[], code, rfl, written, fun state after _ executed => ?_⟩
    obtain rfl := Option.some.inj executed
    exact .done
  | cons instruction listing ih =>
    simp only [List.all_cons, Bool.and_eq_true] at accesses
    obtain ⟨here, others⟩ := List.forall_mem_cons.mp within
    obtain ⟨first, between, behind, performed, streamed, rfl⟩ := streamCode_cons_eq_ok written
    obtain ⟨rfl, runs⟩ := @access_runs style ending whole instruction accesses.1 here _ _ _ performed
    obtain ⟨text, more, rfl, writtenRest, onwards⟩ := ih accesses.2 others streamed
    refine ⟨_, more, (List.append_assoc _ _ _).symm, writtenRest, fun state after spared executed => ?_⟩
    obtain ⟨next, step, executed⟩ := StackState.executeAll?_cons.mp executed
    have framed := (runs state next spared.1 step).framed (preamble_silent quiet instruction)
      (postamble_silent style)
    exact framed.append (onwards next after (spared.2 next step) executed)

/-- The text does the same whatever a slot behind all that are addressed holds. -/
private theorem accesses_run_store {listing : Listing} {text : List Char} {input : List UInt8}
    {values : StackState Empty} (runs : ∀ state after : StackState Empty,
      state.SparesAll ending whole listing → state.executeAll? ending listing = some after →
      Runs ending text (state.spread whole).ribbon (after.spread whole).ribbon)
    (within : ∀ instruction ∈ listing, instruction.IsWithin whole)
    (spared : (StackState.start input).SparesAll ending whole listing)
    (executed : (StackState.start input).executeAll? ending listing = some values) {slot : Nat}
    (far : whole.length ≤ slot) (value : UInt8) :
    Runs ending text ((StackState.start input).store (place whole slot) (.byte value)).ribbon
      ((values.store slot (.byte value)).spread whole).ribbon := by
  have apart : ∀ instruction ∈ listing, instruction.slot? ≠ some slot := by
    intro instruction member addressed
    have below := Instruction.slot?_lt (within instruction member) addressed
    omega
  have marked := runs ((StackState.start input).store slot (.byte value)) _
    (spared.store far value within executed) (StackState.executeAll?_store apart executed).1
  rwa [StackState.spread_store, StackState.spread_start] at marked

/-- Code that accesses local variables behind and in string slots, on every tape that is long enough: as
long as the strings it walks over and clears are empty, the pointer stands in the end where the scan of the
heights says, and the cells are those of the stack machine's values, with each slot in its place. So the
sentinel is set, the links are zero, and a slot that the last instruction clears is zero. -/
theorem accesses_run_on_tapes (quiet : style.isQuiet = true) {listing : Listing}
    (accesses : listing.all (·.isAccess) = true)
    (within : ∀ instruction ∈ listing, instruction.IsWithin whole)
    {height : Nat} (checked : StackHeight.check listing 0 = .ok height) {code : List Char}
    (written : generate style listing = .ok code) {input : List UInt8}
    (spared : (StackState.start input).SparesAll ending whole listing) :
    ∃ values : StackState Empty,
      (StackState.start input).executeAll? ending listing = some values ∧
      values.stack.length = height ∧
      ∃ reach, ∀ (settings : MachineSettings) (low high : Nat), settings.endOfInput = ending →
        settings.stepLimit = none → settings.devices = {} →
        settings.tapeLength = low + high → reach ≤ low → reach ≤ high →
        ∃ loaded machine turns final, Machine.load settings code input = .ok (loaded, machine) ∧
          machine.runFor loaded false turns = (final, .halted) ∧
          final.tape.Holds low high (values.spread whole) ∧
          final.output.toList = values.output ∧
          ∀ before layout, listing = before ++ [.clearLocal layout] →
            final.tape.cellAt (-2 - place whole (layout.length - 1)) = 0 := by
  obtain ⟨text, streamed, rfl⟩ := generate_eq_ok written
  have computes : listing.all (·.isComputation) = true := by
    have layouts := hasLayout_of_streamCode streamed
    simp only [List.all_eq_true] at layouts accesses ⊢
    exact fun instruction member =>
      Instruction.isComputation_of_isAccess (accesses instruction member) (layouts instruction member)
  obtain ⟨values, executed, tall⟩ := @StackState.executeAll?_of_computations listing (.start input)
    computes 0 height checked ending
  rw [← List.append_nil listing] at streamed
  obtain ⟨text, more, rfl, ended, runs⟩ :=
    @accesses_run style ending whole quiet _ _ accesses within _ _ streamed
  obtain rfl := Except.ok.inj ended
  rw [List.append_nil]
  have ran := runs _ _ spared executed
  rw [StackState.spread_start] at ran
  -- The cells that the code does not touch show how far it comes: a mark beyond all slots stays there.
  have alike (cell : Nat) (far : place whole whole.length ≤ cell) (value : UInt8) :
      Runs ending text ((StackState.start input).store cell (.byte value)).ribbon
        ((values.spread whole).ribbon.mark (cell + (2 * values.stack.length + 1)) value) := by
    obtain ⟨more, rfl⟩ := Nat.exists_eq_add_of_le far
    have marked := accesses_run_store runs within spared executed
      (Nat.le_add_right whole.length more) value
    rwa [StackState.spread_store, (values.spread whole).ribbon_store_eq, Template.place_add,
      Nat.add_comm _ (_ + more)] at marked
  obtain ⟨reach, halts⟩ := runs_on_tapes style ran alike
  refine ⟨values, executed, tall, reach + 2 * height + 2 * whole.length + 2, ?_⟩
  intro settings low high sameEnding unlimited devices size lowEnough highEnough
  obtain ⟨loaded, machine, turns, final, load, run, shows, output⟩ :=
    halts settings low high sameEnding unlimited devices size (by omega) (by omega)
  have offset : ((2 * values.stack.length + 1 : Nat) : Int) - 1 = 2 * values.stack.length := by omega
  rw [offset] at shows
  have holds : final.tape.Holds low high (values.spread whole) :=
    Tape.Shows.holds shows (by omega) (by rw [StackState.stack_spread]; omega)
  refine ⟨loaded, machine, turns, final, load, run, holds, output, ?_⟩
  -- A slot cleared last is stored as zero, and it lies among the cells that are shown.
  rintro before layout rfl
  have inside := (within (.clearLocal layout) (by simp) layout rfl).length_le
  have near := place_le whole (layout.length - 1)
  obtain ⟨between, -, last⟩ := StackState.executeAll?_append.mp executed
  obtain ⟨_, cleared, rest⟩ := StackState.executeAll?_cons.mp last
  obtain rfl := Option.some.inj rest
  cases StackState.execute?_eq_some.mp cleared with
  | clearLocal addressed =>
    obtain rfl := StackState.slot?_eq_some addressed
    rw [holds.heap _ (by omega), StackState.spread_store]
    simp [StackState.store]

/-- A string is filled and read again before the slot behind it is addressed. -/
def fillingListing : Listing :=
  [.pushInt 300, .writeLocal [1, 5, 4], .pushInt 9, .writeLocal [1, 5], .readLocal [1, 5],
    .readLocal [1, 5, 4], .clearLocal [1, 5]]

theorem accesses_run_on_tapes_fillingListing :
    (StackState.start []).SparesAll .zero [1, 5, 4] fillingListing ∧
    ∃ code, generate {} fillingListing = .ok code ∧
    ∃ values : StackState Empty, values.stack = [.byte 44, .byte 9] ∧
      ∃ reach, ∀ (settings : MachineSettings) (low high : Nat), settings.endOfInput = .zero →
        settings.stepLimit = none → settings.devices = {} →
        settings.tapeLength = low + high → reach ≤ low → reach ≤ high →
        ∃ loaded machine turns final, Machine.load settings code [] = .ok (loaded, machine) ∧
          machine.runFor loaded false turns = (final, .halted) ∧
          final.tape.Holds low high (values.spread [1, 5, 4]) ∧
          final.output.toList = values.output ∧ final.tape.cellAt (-3) = 0 := by
  have spared : (StackState.start []).SparesAll .zero [1, 5, 4] fillingListing := by decide
  have within : ∀ instruction ∈ fillingListing, instruction.IsWithin [1, 5, 4] := by decide
  obtain ⟨code, written⟩ : ∃ code, generate {} fillingListing = .ok code := ⟨_, rfl⟩
  obtain ⟨values, executed, -, reach, halts⟩ :=
    @accesses_run_on_tapes {} .zero [1, 5, 4] rfl fillingListing rfl within 2 rfl code written [] spared
  have stack : values.stack = [.byte 44, .byte 9] := by
    obtain rfl := Option.some.inj executed
    rfl
  refine ⟨spared, code, written, values, stack, reach, ?_⟩
  intro settings low high ending unlimited devices size lowEnough highEnough
  obtain ⟨loaded, machine, turns, final, load, run, holds, output, cleared⟩ :=
    halts settings low high ending unlimited devices size lowEnough highEnough
  exact ⟨loaded, machine, turns, final, load, run, holds, output,
    cleared (fillingListing.take 6) [1, 5] rfl⟩

/-! ## Strings that are not empty -/

/-- The text that clears a string that is not empty. -/
private theorem clear_strands (quiet : style.isQuiet = true) {layout : List Int} (common : layout <+: whole)
    (string : whole[layout.length - 1]?.any Template.isString = true) {opened : List OpenMachine}
    {code : List Char} (written : streamCode style opened [.clearLocal layout] = .ok code)
    (state : StackState Empty) (passed : AreEmpty whole state.heapCells (layout.length - 1))
    (full : state.heapCells.get (layout.length - 1) ≠ 0) :
    Runs ending code (state.spread whole).ribbon (state.stranded whole (layout.length - 1)) := by
  obtain ⟨text, between, more, performed, closed, rfl⟩ := streamCode_cons_eq_ok written
  obtain ⟨rfl, walk, found, rfl⟩ := heapEffects_written performed
  rw [streamCode] at closed
  split at closed
  · obtain rfl := Except.ok.inj closed
    have erased : Runs ending walk.erase (state.spread whole).ribbon
        (state.stranded whole (layout.length - 1)) :=
      Template.heapWalk_erase_strands found common passed string full _ _ _
    rw [List.append_nil]
    exact erased.framed (preamble_silent quiet _) (postamble_silent style)
  · cases closed

/-- Clearing a string that is not empty ends with the pointer on the sentinel, which is zero, however high
the stack is. -/
theorem clearing_strands (quiet : style.isQuiet = true) {listing : Listing} {layout : List Int}
    (accesses : listing.all (·.isAccess) = true)
    (within : ∀ instruction ∈ listing ++ [.clearLocal layout], instruction.IsWithin whole)
    {code : List Char} (written : generate style (listing ++ [.clearLocal layout]) = .ok code)
    {input : List UInt8} {values : StackState Empty}
    (spared : (StackState.start input).SparesAll ending whole listing)
    (executed : (StackState.start input).executeAll? ending listing = some values)
    (passed : AreEmpty whole values.heapCells (layout.length - 1))
    (string : whole[layout.length - 1]?.any Template.isString = true)
    (full : values.heapCells.get (layout.length - 1) ≠ 0) :
    ∃ reach, ∀ (settings : MachineSettings) (low high : Nat), settings.endOfInput = ending →
      settings.stepLimit = none → settings.devices = {} →
      settings.tapeLength = low + high → reach ≤ low → reach ≤ high →
      ∃ loaded machine turns final, Machine.load settings code input = .ok (loaded, machine) ∧
        machine.runFor loaded false turns = (final, .halted) ∧
        final.tape.pointer = low + high - 1 ∧ final.tape.cellAt (-1) = 0 := by
  obtain ⟨withinBefore, withinLast⟩ := List.forall_mem_append.mp within
  obtain ⟨text, streamed, rfl⟩ := generate_eq_ok written
  obtain ⟨text, more, rfl, last, runs⟩ :=
    @accesses_run style ending whole quiet _ _ accesses withinBefore _ _ streamed
  have strands (state : StackState Empty) := @clear_strands style ending whole quiet layout
    (withinLast _ List.mem_cons_self layout rfl) string [] more last state
  have inside : layout.length - 1 < whole.length := by
    by_contra outside
    rw [List.getElem?_eq_none (Nat.le_of_not_lt outside)] at string
    cases string
  have first := runs _ _ spared executed
  rw [StackState.spread_start] at first
  -- As before, a mark beyond all slots stays where it is; here it shows where the pointer is left.
  have alike (cell : Nat) (far : place whole whole.length ≤ cell) (value : UInt8) :
      Runs ending (text ++ more) ((StackState.start input).store cell (.byte value)).ribbon
        ((values.stranded whole (layout.length - 1)).mark (cell + 0) value) := by
    obtain ⟨beyond, rfl⟩ := Nat.exists_eq_add_of_le far
    have behind := Nat.le_add_right whole.length beyond
    have kept : (values.store (whole.length + beyond) (.byte value)).heapCells.get (layout.length - 1) =
        values.heapCells.get (layout.length - 1) := by
      rw [StackState.heapCells_store, Template.get_setSlot_eq_ite, if_neg (by omega)]
    have before := accesses_run_store runs withinBefore spared executed behind value
    have ended := strands (values.store (whole.length + beyond) (.byte value))
      (by rw [StackState.heapCells_store]; exact passed.setSlot (by omega) _) (kept.trans_ne full)
    rw [StackState.stranded_store inside behind] at ended
    rw [← Template.place_add]
    exact before.append ended
  obtain ⟨reach, halts⟩ := runs_on_tapes style (first.append (strands values passed full)) alike
  refine ⟨reach + 1, ?_⟩
  intro settings low high sameEnding unlimited devices size lowEnough highEnough
  obtain ⟨loaded, machine, turns, final, load, run, shows, -⟩ :=
    halts settings low high sameEnding unlimited devices size (by omega) (by omega)
  refine ⟨loaded, machine, turns, final, load, run, ?_, ?_⟩
  · rw [shows.pointer]
    change (((0 : Nat) - 1 : Int) % final.tape.cells.size).toNat = _
    rw [shows.size, ← Int.add_emod_right, Int.emod_eq_of_lt (by omega) (by omega)]
    omega
  · rw [shows.cells (-1) (by omega) (by omega)]
    rfl

/-- A filled string is cleared, which leaves the stack empty. -/
theorem clearing_strands_filledString :
    StackHeight.check [.pushInt 7, .writeLocal [5], .clearLocal [5]] 0 = .ok 0 ∧
    ∃ code, generate {} [.pushInt 7, .writeLocal [5], .clearLocal [5]] = .ok code ∧
      ∃ reach, ∀ (settings : MachineSettings) (low high : Nat), settings.endOfInput = .zero →
        settings.stepLimit = none → settings.devices = {} →
        settings.tapeLength = low + high → reach ≤ low → reach ≤ high →
        ∃ loaded machine turns final, Machine.load settings code [] = .ok (loaded, machine) ∧
          machine.runFor loaded false turns = (final, .halted) ∧
          final.tape.pointer ≠ 0 ∧ final.tape.cellAt (-1) ≠ 255 := by
  obtain ⟨code, written⟩ :
      ∃ code, generate {} [.pushInt 7, .writeLocal [5], .clearLocal [5]] = .ok code := ⟨_, rfl⟩
  obtain ⟨reach, halts⟩ := @clearing_strands {} .zero [5] rfl [.pushInt 7, .writeLocal [5]] [5] rfl
    (by decide) code written [] _ (by decide) rfl (by decide) rfl (by decide)
  refine ⟨rfl, code, written, reach + 1, ?_⟩
  intro settings low high ending unlimited devices size lowEnough highEnough
  obtain ⟨loaded, machine, turns, final, load, run, pointer, sentinel⟩ :=
    halts settings low high ending unlimited devices size (by omega) (by omega)
  refine ⟨loaded, machine, turns, final, load, run, ?_, ?_⟩
  · rw [pointer]
    omega
  · rw [sentinel]
    decide

end Writer

end TapeCode
