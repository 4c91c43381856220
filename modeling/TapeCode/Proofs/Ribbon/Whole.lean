import TapeCode.Proofs.Folding.Machine
import TapeCode.Proofs.Monads
import TapeCode.Proofs.Ribbon.Circular
import TapeCode.Proofs.Ribbon.MachineCode

/-!
# Whole codes on blank tapes

A code starts on a blank tape by setting the sentinel, and what it does from there on it does behind
this beginning as it would alone. A code that comes to its end on a ribbon does so on every circular
tape that has enough cells to either side of the origin, and the tape machine halts there.
-/
namespace TapeCode

theorem CharacterMachine.pass_framed {opening closing : Char} {depth : Nat}
    {behind ahead passed rest : List Char}
    (found : pass opening closing depth behind ahead = some (passed, rest))
    (before after : List Char) :
    pass opening closing depth (behind ++ before) (ahead ++ after) =
      some (passed ++ before, rest ++ after) := by
  induction ahead generalizing depth behind with
  | nil => cases found
  | cons c ahead ih =>
    simp only [pass, List.cons_append] at found ⊢
    split at found
    next closes =>
      rw [if_pos closes]
      cases depth with
      | zero =>
        obtain ⟨rfl, rfl⟩ := Prod.mk.inj (Option.some.inj found)
        rfl
      | succ depth => exact ih found
    next other =>
      rw [if_neg other]
      exact ih found

namespace RibbonMachine

variable {ending : EndOfInput} {machine following first last : RibbonMachine}

/-- A machine with more code around its own. -/
def within (before after : List Char) (machine : RibbonMachine) : RibbonMachine :=
  ⟨machine.behind ++ before.reverse, machine.ahead ++ after, machine.ribbon⟩

theorem within_between (before after left right : List Char) (ribbon : Ribbon) :
    (between left right ribbon).within before after =
      between (before ++ left) (right ++ after) ribbon := by
  simp [within, between]

theorem step_within (stepped : step ending machine = some following) (before after : List Char) :
    step ending (machine.within before after) = some (following.within before after) := by
  obtain ⟨behind, ahead, ribbon⟩ := machine
  cases ahead with
  | nil => cases stepped
  | cons c ahead =>
    simp only [step, within, List.cons_append] at stepped ⊢
    split at stepped
    next opens =>
      obtain ⟨⟨passed, rest⟩, found, rfl⟩ := Option.map_eq_some_iff.mp stepped
      -- The partner of a bracket is found within the code, whatever is around it.
      have framed := CharacterMachine.pass_framed found before.reverse after
      rw [List.cons_append] at framed
      rw [if_pos opens, framed]
      rfl
    next enters =>
      rw [if_neg enters]
      split at stepped
      next closes =>
        obtain ⟨⟨passed, rest⟩, found, rfl⟩ := Option.map_eq_some_iff.mp stepped
        have framed := CharacterMachine.pass_framed found after before.reverse
        rw [List.cons_append] at framed
        rw [if_pos closes, framed]
        rfl
      next leaves =>
        obtain rfl := Option.some.inj stepped
        rw [if_neg leaves]
        rfl

theorem path_within {places : List Nat} (path : Path (step ending) place first places last)
    (before after : List Char) :
    ∃ others, Path (step ending) place (first.within before after) others
      (last.within before after) := by
  induction path with
  | here => exact ⟨[], .here⟩
  | next stepped _ ih =>
    obtain ⟨others, onwards⟩ := ih
    exact ⟨_, .next (step_within stepped before after) onwards⟩

end RibbonMachine

/-! ## The beginning -/

/-- Nothing is written, and the input is still to be read. -/
def Ribbon.blank (input : List UInt8) : Ribbon := ⟨zeros, 0, zeros, input, []⟩

/-- The ribbon of a state with an empty stack before the sentinel is set. -/
def StackState.unfenced (state : StackState Empty) : Ribbon :=
  ⟨.cons 0 state.heapCells, 0, zeros, state.input, state.output⟩

theorem StackState.unfenced_start (input : List UInt8) : (start input).unfenced = .blank input := by
  have cells : Stream'.cons 0 (start input).heapCells = zeros := cons_zero_zeros
  rw [unfenced, cells]
  rfl

theorem Ribbon.cellAt_blank (input : List UInt8) (offset : Int) : (blank input).cellAt offset = 0 := by
  match offset with
  | .ofNat 0 => rfl
  | .ofNat (n + 1) => rfl
  | .negSucc n => rfl

theorem Tape.blank_shows {length low high : Nat} (positive : 0 < length) (size : length = low + high)
    (input : List UInt8) : (Tape.blank length positive).Shows low high 0 (.blank input) where
  size := by simp [Tape.blank, size]
  pointer := (congrArg Int.toNat (Int.zero_emod _)).symm
  cells := by
    intro offset above below
    rw [Ribbon.cellAt_blank]
    simp [Tape.cellAt, Tape.blank]

namespace Writer

theorem startText_runs (ending : EndOfInput) (style : CodeStyle) {state : StackState Empty}
    (empty : state.stack = []) : Runs ending (startText style) state.unfenced state.ribbon := by
  obtain ⟨stack, heap, input, output⟩ := state
  obtain rfl : stack = [] := empty
  have sentinel : Runs ending "<->".toList (StackState.unfenced ⟨[], heap, input, output⟩)
      (StackState.ribbon ⟨[], heap, input, output⟩) :=
    .straight "<->" rfl rfl
  exact sentinel.append (Runs.silent (postamble_silent style) _)

end Writer

/-! ## The end -/

/-- On a tape with enough cells to either side of the origin, the machine runs the code to its end, and
the tape then shows the ribbon that the code ends with. -/
theorem Machine.runs_blank {code : List Char} (balanced : Balanced code) {settings : MachineSettings}
    {input : List UInt8} {shifts : List Int} {last : Ribbon}
    (path : Path (RibbonMachine.step settings.endOfInput) RibbonMachine.shift
      (.between [] code (.blank input)) shifts (.between code [] last))
    (unlimited : settings.stepLimit = none) (devices : settings.devices = {}) {low high : Nat}
    (size : settings.tapeLength = low + high) (lowEnough : shifts.length ≤ low)
    (highEnough : shifts.length < high) :
    ∃ loaded machine turns final, Machine.load settings code input = .ok (loaded, machine) ∧
      machine.runFor loaded false turns = (final, .halted) ∧
      final.tape.Shows low high shifts.sum last ∧ final.output.toList = last.output := by
  have positive : 0 < settings.tapeLength := by omega
  obtain ⟨after, places, onTape, shows⟩ := RibbonMachine.onTape_path_shift path
    (Tape.blank_shows positive size input) (by omega) (by omega)
  obtain ⟨loaded, machine, turns, final, load, run, tape, output⟩ :=
    Machine.runs_code unlimited devices positive balanced onTape rfl
  refine ⟨loaded, machine, turns, final, load, run, ?_, output⟩
  rw [Int.zero_add] at shows
  rw [tape]
  exact shows

end TapeCode
