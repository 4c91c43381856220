import TapeCode.Proofs.Ribbon.Whole

/-!
# Strips

A strip is an unbounded tape whose cells have numbers, with the number of the cell that the pointer is on.
Code that only moves the pointer and changes cells walks from strip to strip. The numbers say how far the
pointer goes on the way, and a circular tape that has all of these cells is enough for the walk.
-/
namespace TapeCode

/-- Nothing but the cells, seen from the pointer, and what is read and written tells ribbons apart. -/
theorem Ribbon.ext_cells {first second : Ribbon}
    (cells : ∀ offset, first.cellAt offset = second.cellAt offset) (input : first.input = second.input)
    (output : first.output = second.output) : first = second := by
  obtain ⟨left, current, right, _, _⟩ := first
  obtain ⟨otherLeft, otherCurrent, otherRight, _, _⟩ := second
  obtain rfl : left = otherLeft := Stream'.ext fun n => cells (.negSucc n)
  obtain rfl : current = otherCurrent := cells 0
  obtain rfl : right = otherRight := Stream'.ext fun n => cells (.ofNat (n + 1))
  obtain rfl := input
  obtain rfl := output
  rfl

structure Strip where
  cells : Int → UInt8
  place : Int

namespace Strip

variable {ending : EndOfInput} (strip : Strip) (input output : List UInt8)

/-- The strip as it is seen from its pointer. -/
def ribbon : Ribbon :=
  ⟨fun n => strip.cells (strip.place + Int.negSucc n), strip.cells strip.place,
    fun n => strip.cells (strip.place + Int.ofNat (n + 1)), input, output⟩

def put (value : UInt8) : Strip := ⟨Function.update strip.cells strip.place value, strip.place⟩

/-- The characters that move the pointer or change its cell. -/
def isLocal (c : Char) : Bool := c = '>' || c = '<' || c = '+' || c = '-'

def perform : Char → Strip
  | '>' => ⟨strip.cells, strip.place + 1⟩
  | '<' => ⟨strip.cells, strip.place - 1⟩
  | '+' => strip.put (strip.cells strip.place + 1)
  | '-' => strip.put (strip.cells strip.place - 1)
  | _ => strip

theorem cellAt_ribbon (offset : Int) :
    (strip.ribbon input output).cellAt offset = strip.cells (strip.place + offset) := by
  match offset with
  | .ofNat 0 => exact (congrArg strip.cells (Int.add_zero strip.place)).symm
  | .ofNat (n + 1) => rfl
  | .negSucc n => rfl

theorem ribbon_put (value : UInt8) :
    (strip.put value).ribbon input output = { strip.ribbon input output with current := value } := by
  refine Ribbon.ext_cells (fun offset => ?_) rfl rfl
  rw [cellAt_ribbon]
  by_cases here : offset = 0
  · subst here
    rw [Int.add_zero]
    exact Function.update_self _ _ _
  · have seen := Ribbon.cellAt_put (strip.ribbon input output).left (strip.ribbon input output).right
      (strip.cells strip.place) input output here value input output
    have other : strip.place + offset ≠ strip.place := by omega
    exact (Function.update_of_ne other _ _).trans (seen.trans (strip.cellAt_ribbon input output offset)).symm

/-- A local character does the same to the strip and to what is seen of it. -/
theorem ribbon_perform {c : Char} (isLocal : isLocal c = true) :
    (strip.ribbon input output).perform ending c = (strip.perform c).ribbon input output := by
  simp only [Strip.isLocal, Bool.or_eq_true, decide_eq_true_eq] at isLocal
  rcases isLocal with ((rfl | rfl) | rfl) | rfl
  · refine Ribbon.ext_cells (fun offset => ?_) rfl rfl
    refine (Ribbon.cellAt_moveRight _ _ _ input output offset).trans ?_
    rw [cellAt_ribbon]
    refine (strip.cellAt_ribbon input output _).trans (congrArg strip.cells ?_)
    change strip.place + (offset + 1) = strip.place + 1 + offset
    omega
  · refine Ribbon.ext_cells (fun offset => ?_) rfl rfl
    refine (Ribbon.cellAt_moveLeft _ _ _ input output offset).trans ?_
    rw [cellAt_ribbon]
    refine (strip.cellAt_ribbon input output _).trans (congrArg strip.cells ?_)
    change strip.place + (offset - 1) = strip.place - 1 + offset
    omega
  · exact (strip.ribbon_put input output _).symm
  · exact (strip.ribbon_put input output _).symm

theorem place_perform {c : Char} (behind ahead : List Char) (ribbon : Ribbon) :
    (strip.perform c).place = strip.place + RibbonMachine.shift ⟨behind, c :: ahead, ribbon⟩ := by
  by_cases right : c = '>'
  · subst right
    rfl
  by_cases left : c = '<'
  · subst left
    rfl
  rw [RibbonMachine.shift_eq_zero right left, Int.add_zero]
  unfold perform
  split <;> first | rfl | contradiction

end Strip

/-! ## Walks -/

open RibbonMachine

/-- The code leads from one strip to another, wherever it stands, and all of its characters that are executed
on the way are executed between the bounds. -/
def Walks (ending : EndOfInput) (low high : Nat) (code : List Char) (start finish : Strip) : Prop :=
  ∀ before behind input output, ∃ shifts,
    Path (step ending) shift (between before (code ++ behind) (start.ribbon input output)) shifts
        (between (before ++ code) behind (finish.ribbon input output)) ∧
      Stays low high start.place shifts ∧ start.place + shifts.sum = finish.place

namespace Walks

variable {ending : EndOfInput} {low high : Nat} {code rest body : List Char} {start middle finish : Strip}

theorem done : Walks ending low high [] start start := by
  intro before behind input output
  refine ⟨[], ?_, trivial, Int.add_zero _⟩
  rw [List.append_nil]
  exact .here

theorem append (first : Walks ending low high code start middle)
    (second : Walks ending low high rest middle finish) :
    Walks ending low high (code ++ rest) start finish := by
  intro before behind input output
  obtain ⟨shifts, path, stays, moved⟩ := first before (rest ++ behind) input output
  obtain ⟨others, onwards, staysOn, movedOn⟩ := second (before ++ code) behind input output
  refine ⟨shifts ++ others, ?_, stays.append (moved ▸ staysOn), ?_⟩
  · rw [List.append_assoc, ← List.append_assoc before]
    exact path.append onwards
  · rw [List.sum_append, ← Int.add_assoc, moved, movedOn]

theorem act {c : Char} (isLocal : Strip.isLocal c = true) (above : -low ≤ start.place)
    (below : start.place < high) (onwards : Walks ending low high rest (start.perform c) finish) :
    Walks ending low high (c :: rest) start finish := by
  have plain : isPlain c = true := by
    simp only [Strip.isLocal, Bool.or_eq_true, decide_eq_true_eq] at isLocal
    rcases isLocal with ((rfl | rfl) | rfl) | rfl <;> rfl
  intro before behind input output
  obtain ⟨shifts, path, stays, moved⟩ := onwards (before ++ [c]) behind input output
  have stepped := @between_plain ending before (rest ++ behind) (start.ribbon input output) c plain
  rw [start.ribbon_perform input output isLocal] at stepped
  have place := start.place_perform before.reverse (rest ++ behind) (start.ribbon input output) (c := c)
  rw [place] at stays moved
  refine ⟨shift (between before (c :: (rest ++ behind)) (start.ribbon input output)) :: shifts, ?_,
    ⟨above, below, stays⟩, ?_⟩
  · rw [List.append_assoc, List.singleton_append] at path
    exact .next stepped path
  · rw [List.sum_cons, ← Int.add_assoc]
    exact moved

/-- A loop that goes through the strips `stage 0`, `stage 1`, … is left at the first one whose cell is
zero. -/
theorem stages (balanced : Balanced body) (stage : Nat → Strip) (count : Nat)
    (above : ∀ k ≤ count, -low ≤ (stage k).place) (below : ∀ k ≤ count, (stage k).place < high)
    (nonzero : ∀ k < count, (stage k).cells (stage k).place ≠ 0)
    (turn : ∀ k < count, Walks ending low high body (stage k) (stage (k + 1)))
    (zero : (stage count).cells (stage count).place = 0) :
    Walks ending low high ('[' :: body ++ [']']) (stage 0) (stage count) := by
  intro before behind input output
  induction count generalizing stage with
  | zero =>
    have passes : Path (step ending) shift _ [0] _ :=
      .single (@between_over ending body before behind ((stage 0).ribbon input output) balanced zero)
    refine ⟨[0], by simpa using passes, ⟨above 0 le_rfl, below 0 le_rfl, trivial⟩, by simp⟩
  | succ count ih =>
    obtain ⟨inside, path, stays, moved⟩ :=
      turn 0 (by omega) (before ++ ['[']) (']' :: behind) input output
    have entered : Path (step ending) shift
        (between before ('[' :: (body ++ ']' :: behind)) ((stage 0).ribbon input output)) (0 :: inside)
        (between (before ++ '[' :: body) (']' :: behind) ((stage 1).ribbon input output)) := by
      rw [List.append_assoc, List.singleton_append] at path
      exact .next (between_into (nonzero 0 (by omega))) path
    have staysIn : Stays low high (stage 0).place (0 :: inside) :=
      ⟨above 0 (by omega), below 0 (by omega), by rwa [Int.add_zero]⟩
    have closing : Stays low high ((stage 0).place + (0 :: inside).sum) [0] := by
      rw [List.sum_cons, Int.zero_add, moved]
      exact ⟨above 1 (by omega), below 1 (by omega), trivial⟩
    -- The closing bracket leaves the loop, or leads to its beginning again.
    cases count with
    | zero =>
      have left : Path (step ending) shift _ [0] _ :=
        .single (@between_out ending (before ++ '[' :: body) behind ((stage 1).ribbon input output) zero)
      refine ⟨0 :: inside ++ [0], ?_, staysIn.append closing, by simp [moved]⟩
      simpa using entered.append left
    | succ count =>
      have back : Path (step ending) shift _ [0] _ :=
        .single (@between_again ending body before behind ((stage 1).ribbon input output) balanced
          (nonzero 1 (by omega)))
      obtain ⟨others, onwards, staysOn, movedOn⟩ := ih (fun k => stage (k + 1))
        (fun k within => above (k + 1) (by omega)) (fun k within => below (k + 1) (by omega))
        (fun k within => nonzero (k + 1) (by omega)) (fun k within => turn (k + 1) (by omega)) zero
      have arrived : (stage 0).place + (0 :: inside ++ [0]).sum = (stage 1).place := by
        simpa using moved
      refine ⟨0 :: inside ++ [0] ++ others, ?_,
        (staysIn.append closing).append (arrived ▸ staysOn), ?_⟩
      · simpa using (entered.append back).append (by simpa using onwards)
      · rw [List.sum_append, ← Int.add_assoc, arrived, movedOn]

/-- Code that is all of it is walked through to its end. -/
theorem path (walks : Walks ending low high code start finish) (input output : List UInt8) :
    ∃ places, Path (step ending) place (between [] code (start.ribbon input output)) places
      (between code [] (finish.ribbon input output)) := by
  obtain ⟨shifts, path, -⟩ := walks [] [] input output
  rw [List.append_nil] at path
  exact path.remark place

end Walks

/-! ## Tapes -/

/-- A circular tape, unrolled with `low` cells to the left of its origin and `high` cells from there on, is this
part of the strip, and the pointer is at the same place. -/
structure Tape.Unrolls (tape : Tape) (low high : Nat) (strip : Strip) : Prop where
  size : tape.length = low + high
  pointer : tape.pointer = tape.wrap strip.place
  cells : ∀ offset : Int, -low ≤ offset → offset < high → tape.cellAt offset = strip.cells offset

namespace Tape

variable {tape : Tape} {low high : Nat} {strip : Strip}

theorem unrolls_iff (input output : List UInt8) :
    tape.Unrolls low high strip ↔ tape.Shows low high strip.place (strip.ribbon input output) := by
  have seen (offset : Int) :
      (strip.ribbon input output).cellAt (offset - strip.place) = strip.cells offset := by
    rw [Strip.cellAt_ribbon]
    congr 1
    omega
  constructor
  · rintro ⟨size, pointer, cells⟩
    exact ⟨size, pointer, fun offset above below => (cells offset above below).trans (seen offset).symm⟩
  · rintro ⟨size, pointer, cells⟩
    exact ⟨size, pointer, fun offset above below => (cells offset above below).trans (seen offset)⟩

/-- The cell under the pointer is changed on both. -/
theorem Unrolls.put (unrolls : tape.Unrolls low high strip) (above : -low ≤ strip.place)
    (below : strip.place < high) (value : UInt8) : (tape.put value).Unrolls low high (strip.put value) := by
  have shows := ((unrolls_iff [] []).mp unrolls).put above below value
  rw [← Strip.ribbon_put] at shows
  exact (unrolls_iff [] []).mpr shows

end Tape

/-! ## Machines -/

namespace CharacterMachine

variable {loaded : Loaded} {breakpoint : Option Char} {code : List Char} {machine : Machine}

/-- Code that neither reads nor writes is not refused by any devices. -/
theorem Mirrors.refusal? {first : CharacterMachine} (mirrors : Mirrors loaded breakpoint code first machine)
    (secluded : ∀ c ∈ code, c ≠ '.' ∧ c ≠ ',') (devices : Devices) : first.refusal? devices = none := by
  cases mirrors with
  | entered nonzero inside => rfl
  | @here behind ahead _ _ _ _ _ split read lags sameInput sameOutput =>
    cases ahead with
    | nil => rfl
    | cons c ahead =>
      obtain ⟨noOutput, noInput⟩ := secluded c (split ▸ by simp)
      unfold CharacterMachine.refusal?
      split <;> simp_all

theorem Mirrors.path_secluded (holds : loaded.Holds breakpoint code)
    (secluded : ∀ c ∈ code, c ≠ '.' ∧ c ≠ ',') {ι : Type} {mark : CharacterMachine → ι} {marks : List ι}
    {first last : CharacterMachine} (path : Path (CharacterMachine.step loaded.endOfInput) mark first marks last)
    (mirrors : Mirrors loaded breakpoint code first machine) :
    ∃ other, Machine.Leads loaded machine other ∧ Mirrors loaded breakpoint code last other := by
  induction path generalizing machine with
  | here => exact ⟨machine, .refl, mirrors⟩
  | next stepped _ ih =>
    have served := serve_eq_some.mpr ⟨mirrors.refusal? secluded loaded.devices, stepped⟩
    obtain ⟨middle, leads, between⟩ := mirrors.step holds served
    obtain ⟨other, onwards, ends⟩ := ih between
    exact ⟨other, leads.trans onwards, ends⟩

end CharacterMachine

theorem Loaded.holds_of_decode {loaded : Loaded} {breakpoint : Option Char} {code : List Char}
    (unlimited : loaded.stepLimit = none)
    (decoded : TapeOperation.decode breakpoint code = .ok loaded.operations) :
    loaded.Holds breakpoint code := by
  refine ⟨unlimited, ?_⟩
  unfold TapeOperation.decode at decoded
  split at decoded
  next => cases decoded
  next operations taken => exact ⟨_, taken, Except.ok.inj decoded⟩
  next => cases decoded

/-- A machine that has the code of a walk loaded halts at the end of the walk, on every tape that has the
cells between the bounds. -/
theorem Walks.halts {low high : Nat} {code : List Char} {start finish : Strip} {loaded : Loaded}
    {breakpoint : Option Char} (walks : Walks loaded.endOfInput low high code start finish)
    (unlimited : loaded.stepLimit = none)
    (decoded : TapeOperation.decode breakpoint code = .ok loaded.operations)
    (secluded : ∀ c ∈ code, c ≠ '.' ∧ c ≠ ',') {machine : Machine} (begins : machine.next = 0)
    (unrolls : machine.tape.Unrolls low high start) :
    ∃ turns final, machine.runFor loaded false turns = (final, .halted) ∧
      final.tape.Unrolls low high finish := by
  obtain ⟨tape, _, steps, input, output⟩ := machine
  obtain rfl := begins
  have shows := (Tape.unrolls_iff input output.toList).mp unrolls
  obtain ⟨shifts, path, stays, moved⟩ := walks [] [] input output.toList
  obtain ⟨after, places, onTape, shown⟩ := onTape_path_stays path shows stays
  have holds := Loaded.holds_of_decode unlimited decoded
  have starts : CharacterMachine.Mirrors loaded breakpoint code
      ⟨[], code, tape, input, output.toList⟩ ⟨tape, 0, steps, input, output⟩ :=
    .here rfl rfl ⟨rfl, rfl⟩ rfl rfl
  rw [List.append_nil] at onTape
  obtain ⟨middle, leads, arrived⟩ := starts.path_secluded holds secluded onTape
  obtain ⟨final, onwards, stopped, same, -⟩ := arrived.halts holds rfl
  obtain ⟨turns, run⟩ := (leads.trans onwards).halts stopped
  rw [moved] at shown
  exact ⟨turns, final, run, same ▸ (Tape.unrolls_iff _ _).mpr shown⟩

end TapeCode
