import TapeCode.Proofs.Emission
import TapeCode.Proofs.Ribbon.Arithmetic
import TapeCode.Proofs.Ribbon.Decimal
import TapeCode.Proofs.Ribbon.Division
import TapeCode.Proofs.Ribbon.Heap
import TapeCode.Proofs.StackSteps

/-!
# Instructions on a ribbon

The code of an instruction takes the ribbon of a state to the ribbon of the state behind the
instruction. The instructions on local variables are restricted to layouts whose slots all are single
cells.
-/
namespace TapeCode

open Ribbon (column atTop top)

variable {ending : EndOfInput}

/-! ## Silent text -/

theorem Runs.silent {text : List Char} (silent : Silent text) (ribbon : Ribbon) :
    Runs ending text ribbon ribbon := by
  induction text with
  | nil => exact .done
  | cons c rest ih =>
    have here := silent c List.mem_cons_self
    have plain : isPlain c = true := by
      by_contra bracket
      have cases : c = '[' ∨ c = ']' := by
        by_cases opens : c = '['
        · exact .inl opens
        · exact .inr (by simpa [isPlain, opens] using bracket)
      rcases cases with rfl | rfl <;> simp [isCommand] at here
    have kept : ribbon.perform ending c = ribbon := by
      simp only [isCommand, List.contains_eq_mem, List.mem_cons, List.not_mem_nil, or_false,
        decide_eq_false_iff_not, not_or] at here
      simp [Ribbon.perform, here]
    exact .act plain (.recast kept (ih fun c member => silent c (List.mem_cons_of_mem _ member)) rfl)

theorem Silent.balanced {text : List Char} (silent : Silent text) : Balanced text :=
  (@Runs.silent .zero text silent ⟨zeros, 0, zeros, [], []⟩).balanced

/-- Silent text may stand around code. -/
theorem Runs.framed {before code behind : List Char} {start finish : Ribbon}
    (runs : Runs ending code start finish) (silentBefore : Silent before)
    (silentBehind : Silent behind) : Runs ending (before ++ code ++ behind) start finish :=
  ((Runs.silent silentBefore start).append runs).append (Runs.silent silentBehind finish)

/-! ## Ribbons of states -/

namespace StackState

variable (state : StackState Empty)

theorem heapCells_store (slot : Nat) (value : StackValue Empty) :
    (state.store slot value).heapCells = Template.setSlot state.heapCells slot value.cell := by
  ext other
  by_cases same : other = slot <;> simp [heapCells, store, Template.setSlot, Stream'.get, same]

theorem ribbon_push (value : StackValue Empty) : (state.push value).ribbon =
    top (column state.heapCells (value.cell :: state.stackCells)) state.input state.output := rfl

theorem ribbon_store (slot : Nat) (value : StackValue Empty) : (state.store slot value).ribbon =
    atTop (Template.setSlot state.heapCells slot value.cell) state.stackCells zeros state.input
      state.output := by
  rw [ribbon, heapCells_store]
  rfl

end StackState

/-- The instructions that the body of a case is made of: those on the stack, on input and output, and
on local variables whose layouts are single cells. -/
def Instruction.isBody : Instruction → Bool
  | .nop _ | .readChar | .printChar | .printInt | .pushInt _ | .popInt | .dupInt | .swapInt | .not
  | .add | .sub | .mul | .div | .greater => true
  | .readLocal layout | .writeLocal layout | .clearLocal layout =>
    !layout.isEmpty && layout.all Template.fillsCell
  | _ => false

namespace Writer

/-- The code of an access to a slot. -/
private theorem heapEffects_of_fillCells {layout : List Int}
    (body : (!layout.isEmpty && layout.all Template.fillsCell) = true) :
    ∃ slot, StackState.slot? layout = some slot ∧ ∀ code : Template.HeapWalk → List Char,
      heapEffects code layout = [.write (code (Template.slotWalk slot))] := by
  simp only [Bool.and_eq_true] at body
  cases layout with
  | nil => simp at body
  | cons number before =>
    refine ⟨before.length, rfl, fun code => ?_⟩
    rw [heapEffects, Template.heapWalk_of_fillCells body.2 rfl]

/-- What an operation on two numbers does. -/
private theorem combine_runs {code : List Char} {operation : UInt8 → UInt8 → UInt8}
    (runs : ∀ column input output n m, Runs ending code
      (top (.cons n (.cons 0 (.cons m column))) input output)
      (top (.cons (operation m n) column) input output))
    {state after : StackState Empty} (combined : state.combine? operation = some after) :
    Runs ending code state.ribbon after.ribbon := by
  obtain ⟨first, second, rest, rfl, rfl⟩ := StackState.combine?_eq_some combined
  exact runs _ _ _ second first

private theorem read_runs (state : StackState Empty) :
    Runs ending Template.readChar state.ribbon (state.read ending).ribbon := by
  have runs := @Template.readChar_runs ending (column state.heapCells state.stackCells) state.input
    state.output
  obtain ⟨stack, heap, input, output⟩ := state
  cases input with
  | nil => exact runs
  | cons byte input => exact runs

/-- The text of an instruction does what the instruction does. -/
theorem instruction_runs (style : CodeStyle) (opened : List OpenMachine) {instruction : Instruction}
    (body : instruction.isBody = true) :
    ∃ text, perform opened (bodyEffects style opened instruction) = ⟨text, opened, none⟩ ∧
      ∀ state after : StackState Empty, state.execute? ending instruction = some after →
        Runs ending text state.ribbon after.ribbon := by
  cases instruction with
  | nop markers =>
    refine ⟨[], rfl, fun state after executed => ?_⟩
    obtain rfl := Option.some.inj executed
    exact .done
  | readChar =>
    refine ⟨_, perform_write opened _, fun state after executed => ?_⟩
    obtain rfl := Option.some.inj executed
    exact read_runs state
  | printChar =>
    refine ⟨_, perform_write opened _, fun state after executed => ?_⟩
    cases StackState.execute?_eq_some.mp executed with
    | printChar value => exact Template.printChar_runs _ _ _ value
  | printInt =>
    refine ⟨_, perform_write opened _, fun state after executed => ?_⟩
    cases StackState.execute?_eq_some.mp executed with
    | printInt value => exact Template.printInt_runs _ _ _ value
  | pushInt value =>
    refine ⟨_, perform_write opened _, fun state after executed => ?_⟩
    obtain rfl := Option.some.inj executed
    exact Template.pushInt_runs _ _ _ value
  | popInt =>
    refine ⟨_, perform_write opened _, fun state after executed => ?_⟩
    cases StackState.execute?_eq_some.mp executed with
    | popInt value => exact Template.popInt_runs _ _ _ value.cell
  | dupInt =>
    refine ⟨_, perform_write opened _, fun state after executed => ?_⟩
    cases StackState.execute?_eq_some.mp executed with
    | dupInt value => exact Template.dupInt_runs _ _ _ value.cell
  | swapInt =>
    refine ⟨_, perform_write opened _, fun state after executed => ?_⟩
    cases StackState.execute?_eq_some.mp executed with
    | swapInt first second => exact Template.swapInt_runs _ _ _ second.cell first.cell
  | not =>
    refine ⟨_, perform_write opened _, fun state after executed => ?_⟩
    cases StackState.execute?_eq_some.mp executed with
    | not value => exact Template.not_runs _ _ _ value
  | add => exact ⟨_, perform_write opened _, fun _ _ => combine_runs Template.add_runs⟩
  | sub => exact ⟨_, perform_write opened _, fun _ _ => combine_runs Template.sub_runs⟩
  | mul => exact ⟨_, perform_write opened _, fun _ _ => combine_runs Template.mul_runs⟩
  | div => exact ⟨_, perform_write opened _, fun _ _ => combine_runs Template.div_runs⟩
  | greater => exact ⟨_, perform_write opened _, fun _ _ => combine_runs Template.greater_runs⟩
  -- Instructions about locals walk to the slot; for a layout of single cells there is such a walk.
  | readLocal layout =>
    obtain ⟨slot, addressed, code⟩ := heapEffects_of_fillCells body
    refine ⟨_, by rw [bodyEffects, code, perform_write], fun state after executed => ?_⟩
    rw [StackState.execute?_eq_some.mpr (.readLocal addressed)] at executed
    obtain rfl := Option.some.inj executed
    rw [StackState.ribbon_push, state.heapCells_store]
    exact Template.read_runs _ _ _ _ (Template.slotWalk_leads state.heapCells slot)
  | writeLocal layout =>
    obtain ⟨slot, addressed, code⟩ := heapEffects_of_fillCells body
    refine ⟨_, by rw [bodyEffects, code, perform_write], fun state after executed => ?_⟩
    cases StackState.execute?_eq_some.mp executed with
    | @writeLocal _ other also rest value =>
      obtain rfl := Option.some.inj (addressed.symm.trans also)
      rw [rest.ribbon_store]
      exact Template.write_runs _ _ _ _ (Template.slotWalk_leads rest.heapCells slot) value.cell
  | clearLocal layout =>
    obtain ⟨slot, addressed, code⟩ := heapEffects_of_fillCells body
    refine ⟨_, by rw [bodyEffects, code, perform_write], fun state after executed => ?_⟩
    rw [StackState.execute?_eq_some.mpr (.clearLocal addressed)] at executed
    obtain rfl := Option.some.inj executed
    rw [state.ribbon_store]
    exact Template.erase_runs _ _ _ _ (Template.slotWalk_leads state.heapCells slot) rfl
  | _ => simp [Instruction.isBody] at body

/-- Two numbers are enough for every instruction of a body. -/
private theorem body_executes {instruction : Instruction} (body : instruction.isBody = true) :
    ∃ after : StackState Empty,
      StackState.execute? ending ⟨[.byte 0, .byte 0], fun _ => .byte 0, [], []⟩ instruction =
        some after := by
  cases instruction with
  | readLocal layout | writeLocal layout | clearLocal layout =>
    obtain ⟨slot, addressed, -⟩ := heapEffects_of_fillCells body
    simp only [StackState.execute?, addressed]
    exact ⟨_, rfl⟩
  | nop | readChar | printChar | printInt | pushInt | popInt | dupInt | swapInt | not | add | sub
  | mul | div | greater => exact ⟨_, rfl⟩
  | _ => simp [Instruction.isBody] at body

/-- The text of a listing does what its instructions do in order. -/
theorem listing_runs (ending : EndOfInput) {style : CodeStyle} (quiet : style.isQuiet = true)
    (opened : List OpenMachine) {listing : Listing} (body : listing.all (·.isBody) = true) :
    ∃ text, Emits style opened listing text opened ∧ Balanced text ∧
      ∀ state after : StackState Empty, state.executeAll? ending listing = some after →
        Runs ending text state.ribbon after.ribbon := by
  induction listing with
  | nil =>
    refine ⟨[], .nil, .nil, fun state after executed => ?_⟩
    obtain rfl : state = after := by simpa [StackState.executeAll?] using executed
    exact .done
  | cons instruction rest ih =>
    simp only [List.all_cons, Bool.and_eq_true] at body
    obtain ⟨text, written, runs⟩ := @instruction_runs ending style opened instruction body.1
    obtain ⟨more, emits, matched, onwards⟩ := ih body.2
    have framed {start finish : Ribbon} (inner : Runs ending text start finish) :=
      inner.framed (preamble_silent quiet instruction) (postamble_silent style)
    obtain ⟨somewhere, executable⟩ := @body_executes ending instruction body.1
    refine ⟨_, .cons (perform_effects style written) emits,
      (framed (runs _ somewhere executable)).balanced.append matched,
      fun state after executed => ?_⟩
    obtain ⟨between, first, others⟩ := StackState.executeAll?_cons.mp executed
    exact (framed (runs state between first)).append (onwards between after others)

end Writer

end TapeCode
