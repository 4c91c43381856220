import TapeCode.Proofs.Ribbon.Dispatch
import TapeCode.Proofs.Ribbon.Machine

/-!
# State machines on a ribbon

The code of a state machine is one loop over the blocks of its cases. Between two blocks a counter
lies on top of the stack that leads to the next case. It is lowered before every block and at the end
of every lap; a block whose counter does not become zero is passed over, so the next place of the code
in a block is in the one that the counter leads to, after any number of laps.
-/
namespace TapeCode

variable {ending : EndOfInput}

/-! ## Places and cases -/

/-- The cases that are entered when the characters at these places are executed, where the blocks of
the cases are entered at `entries`. -/
def enteredCases (entries places : List Nat) : List Int :=
  places.filterMap fun place => (entries.idxOf? place).map fun (index : Nat) => (index : Int) + 1

theorem enteredCases_append (entries first second : List Nat) :
    enteredCases entries (first ++ second) =
      enteredCases entries first ++ enteredCases entries second :=
  List.filterMap_append

theorem enteredCases_eq_nil {entries places : List Nat}
    (elsewhere : ∀ place ∈ places, place ∉ entries) : enteredCases entries places = [] := by
  rw [enteredCases, List.filterMap_eq_nil_iff]
  intro place member
  rw [Option.map_eq_none_iff, List.idxOf?_eq_none_iff]
  exact elsewhere place member

/-- The machine comes from one state to another and enters these cases on its way. -/
def RibbonMachine.Reaches (ending : EndOfInput) (entries : List Nat) (first : RibbonMachine)
    (entered : List Int) (last : RibbonMachine) : Prop :=
  ∃ places, Path (step ending) place first places last ∧ enteredCases entries places = entered

namespace RibbonMachine.Reaches

variable {entries : List Nat} {first middle last : RibbonMachine} {entered more : List Int}

theorem refl : Reaches ending entries first [] first := ⟨[], .here, rfl⟩

theorem trans (left : Reaches ending entries first entered middle)
    (right : Reaches ending entries middle more last) :
    Reaches ending entries first (entered ++ more) last := by
  obtain ⟨places, path, rfl⟩ := left
  obtain ⟨others, onwards, rfl⟩ := right
  exact ⟨places ++ others, path.append onwards, enteredCases_append entries places others⟩

/-- A step outside of all entries. -/
theorem step (stepped : RibbonMachine.step ending first = some last)
    (elsewhere : first.place ∉ entries) : Reaches ending entries first [] last :=
  ⟨_, .single stepped, enteredCases_eq_nil (by simpa using elsewhere)⟩

/-- Code outside of all entries. -/
theorem runs {code behind ahead : List Char} {start finish : Ribbon}
    (runs : Runs ending code start finish)
    (elsewhere : ∀ place, behind.length ≤ place → place < (behind ++ code).length →
      place ∉ entries) :
    Reaches ending entries (between behind (code ++ ahead) start) []
      (between (behind ++ code) ahead finish) := by
  obtain ⟨places, path, within⟩ := runs.path_between behind ahead
  exact ⟨places, path, enteredCases_eq_nil fun place member =>
    elsewhere place (within place member).1 (within place member).2⟩

end RibbonMachine.Reaches

/-! ## The text of a state machine -/

/-- The text of a case: what finds out whether the case is the next one, the block behind its first
character, and what follows the block. -/
structure CaseText where
  head : List Char
  rest : List Char
  tail : List Char

def CaseText.code (text : CaseText) : List Char :=
  text.head ++ '[' :: ('-' :: text.rest ++ ']' :: text.tail)

/-- The text of a state machine: what stands before its loop, in the loop around the cases, and behind
the loop. -/
structure MachineText where
  start : List Char
  lead : List Char
  blocks : List CaseText
  trail : List Char
  finish : List Char

namespace MachineText

variable (text : MachineText)

def blocksCode (blocks : List CaseText) : List Char := blocks.flatMap (·.code)

def code : List Char :=
  text.start ++ '[' :: (text.lead ++ blocksCode text.blocks ++ text.trail) ++ ']' :: text.finish

/-- The code up to a block. -/
def upTo (index : Nat) : List Char :=
  text.start ++ '[' :: (text.lead ++ blocksCode (text.blocks.take index))

/-- The code from a block on. -/
def onwards (index : Nat) : List Char :=
  blocksCode (text.blocks.drop index) ++ (text.trail ++ ']' :: text.finish)

/-- The place at which a block is entered: the first character in it. -/
def entry (index : Nat) : Nat :=
  (text.upTo index).length + (text.blocks[index]?).elim 0 (·.head.length) + 1

def entries : List Nat := (List.range text.blocks.length).map text.entry

/-- The machine before a block. -/
def before (index : Nat) (ribbon : Ribbon) : RibbonMachine :=
  .between (text.upTo index) (text.onwards index) ribbon

variable {text}

theorem upTo_succ {index : Nat} (inside : index < text.blocks.length) :
    text.upTo (index + 1) = text.upTo index ++ (text.blocks[index]).code := by
  rw [upTo, upTo, ← List.take_append_getElem inside, blocksCode, blocksCode, List.flatMap_append,
    List.flatMap_singleton]
  simp only [List.append_assoc, List.cons_append]

theorem onwards_eq {index : Nat} (inside : index < text.blocks.length) :
    text.onwards index = (text.blocks[index]).code ++ text.onwards (index + 1) := by
  rw [onwards, onwards, List.drop_eq_getElem_cons inside, blocksCode, blocksCode, List.flatMap_cons,
    List.append_assoc]

theorem upTo_length_le {first second : Nat} (ordered : first ≤ second) :
    (text.upTo first).length ≤ (text.upTo second).length := by
  have split : text.blocks.take second =
      text.blocks.take first ++ (text.blocks.take second).drop first := by
    have parts := List.take_append_drop first (text.blocks.take second)
    rw [List.take_take, Nat.min_eq_left ordered] at parts
    exact parts.symm
  rw [upTo, upTo, split]
  simp only [blocksCode, List.flatMap_append, List.length_append, List.length_cons]
  omega

theorem entry_eq {index : Nat} (inside : index < text.blocks.length) :
    text.entry index = (text.upTo index).length + (text.blocks[index]).head.length + 1 := by
  simp [entry, inside]

theorem entry_lt {index : Nat} (inside : index < text.blocks.length) :
    text.entry index < (text.upTo (index + 1)).length := by
  rw [entry_eq inside, upTo_succ inside]
  simp only [CaseText.code, List.length_append, List.length_cons]
  omega

/-- The places of a block, its entry apart, are no entries. -/
theorem not_mem_entries {index place : Nat} (low : (text.upTo index).length ≤ place)
    (high : index < text.blocks.length → place < (text.upTo (index + 1)).length)
    (apart : index < text.blocks.length → place ≠ text.entry index) : place ∉ text.entries := by
  intro member
  obtain ⟨other, inside, rfl⟩ := List.mem_map.mp member
  rw [List.mem_range] at inside
  rcases Nat.lt_trichotomy other index with below | rfl | above
  · have first := entry_lt inside
    have second := @upTo_length_le text (other + 1) index below
    omega
  · exact apart inside rfl
  · have first := @upTo_length_le text (index + 1) other above
    have second := entry_eq inside
    have third := high (by omega)
    omega

theorem not_mem_entries_of_lt {place : Nat} (low : place < (text.upTo 0).length) :
    place ∉ text.entries := by
  intro member
  obtain ⟨other, inside, rfl⟩ := List.mem_map.mp member
  have first := @upTo_length_le text 0 other (Nat.zero_le other)
  have second := entry_eq (List.mem_range.mp inside)
  omega

theorem enteredCases_entry {index : Nat} (inside : index < text.blocks.length) :
    enteredCases text.entries [text.entry index] = [(index : Int) + 1] := by
  have found : text.entries.idxOf? (text.entry index) = some index := by
    rw [List.idxOf?_eq_some_iff]
    have long : index < text.entries.length := by simpa [entries] using inside
    refine ⟨long, by simp [entries], fun other below => ?_⟩
    have first := @entry_lt text other (by omega)
    have second := @upTo_length_le text (other + 1) index below
    have third := entry_eq inside
    simp only [entries, List.getElem_map, List.getElem_range]
    omega
  simp [enteredCases, found]

private theorem upTo_all : text.upTo text.blocks.length =
    text.start ++ '[' :: (text.lead ++ blocksCode text.blocks) := by
  rw [upTo, List.take_length]

private theorem upTo_none : text.upTo 0 = text.start ++ ['['] ++ text.lead := by
  simp [upTo, blocksCode]

private theorem onwards_all : text.onwards text.blocks.length = text.trail ++ ']' :: text.finish := by
  simp [onwards, blocksCode]

private theorem onwards_none :
    text.onwards 0 = blocksCode text.blocks ++ (text.trail ++ ']' :: text.finish) := by
  simp [onwards]

/-- Places behind all blocks are no entries. -/
private theorem behind_entries {place : Nat} (low : (text.upTo text.blocks.length).length ≤ place) :
    place ∉ text.entries :=
  not_mem_entries low (fun inside => by omega) (fun inside => by omega)

end MachineText

/-! ## What the parts of the text do -/

namespace StackState

/-- The state with a number on top, such as the counter of a state machine. -/
def count (values : StackState Empty) (counter : UInt8) : StackState Empty :=
  values.push (.byte counter)

end StackState

/-- The text of a case does what the case does. -/
structure CaseText.Fits (ending : EndOfInput) (cases : List MachineCase) (index : Nat)
    (text : CaseText) : Prop where
  head : ∀ (values : StackState Empty) (counter : UInt8),
    Runs ending text.head (values.count counter).ribbon
      ((values.count (counter - 1)).count (Byte.ofBool (counter - 1 = 0))).ribbon
  rest : ∀ (values after : StackState Empty) (next : Int),
    MachineCase.step? .asByte cases ending ⟨index + 1, values⟩ = some ⟨next, after⟩ →
    1 ≤ next → next ≤ cases.length + 1 →
    ∃ counter, Runs ending text.rest ((values.count 0).count 0).ribbon
        ((after.count counter).count 0).ribbon ∧
      LeadsTo cases.length (index + 1) counter next
  tail : ∀ values : StackState Empty, Runs ending text.tail (values.count 0).ribbon values.ribbon
  matched : Balanced text.rest

structure MachineText.Fits (ending : EndOfInput) (cases : List MachineCase) (text : MachineText) :
    Prop where
  count : text.blocks.length = cases.length
  start : ∀ values : StackState Empty, Runs ending text.start values.ribbon (values.count 1).ribbon
  lead : ∀ ribbon : Ribbon, Runs ending text.lead ribbon ribbon
  blocks : ∀ (index : Nat) (inside : index < text.blocks.length),
    (text.blocks[index]).Fits ending cases index
  trail : ∀ (values : StackState Empty) (counter : UInt8),
    Runs ending text.trail (values.count counter).ribbon (values.count (counter - 1)).ribbon
  finish : ∀ values : StackState Empty,
    Runs ending text.finish (values.count 0).ribbon values.ribbon

namespace MachineText.Fits

open RibbonMachine (Reaches between)

variable {cases : List MachineCase} {text : MachineText} (fits : text.Fits ending cases)
include fits

/-- A block whose counter does not become zero is passed over. -/
theorem passes_over {index : Nat} (inside : index < text.blocks.length)
    (values : StackState Empty) {counter : UInt8} (nonzero : counter - 1 ≠ 0) :
    Reaches ending text.entries (text.before index (values.count counter).ribbon) []
      (text.before (index + 1) (values.count (counter - 1)).ribbon) := by
  obtain ⟨head, -, tail, matched⟩ := fits.blocks index inside
  have entry := entry_eq inside
  have code := onwards_eq inside
  have next := upTo_succ inside
  -- The head leaves whether the lowered counter is zero, which is what the bracket asks.
  have unset : Byte.ofBool (counter - 1 = 0) = 0 := by simp [Byte.ofBool, nonzero]
  have tested := head values counter
  rw [unset] at tested
  generalize text.blocks[index] = block at *
  have length := congrArg List.length next
  simp only [CaseText.code, List.length_append, List.length_cons] at length
  have testing : Reaches ending text.entries
      (between (text.upTo index) (block.head ++ ('[' :: (('-' :: block.rest) ++
        ']' :: (block.tail ++ text.onwards (index + 1))))) (values.count counter).ribbon) []
      (between (text.upTo index ++ block.head) ('[' :: (('-' :: block.rest) ++
        ']' :: (block.tail ++ text.onwards (index + 1))))
        ((values.count (counter - 1)).count 0).ribbon) := by
    refine .runs tested fun place low high => ?_
    rw [List.length_append] at high
    exact not_mem_entries low (fun _ => by omega) (fun _ => by omega)
  -- The block is passed over as a whole; the bracket itself is no entry, since entries are one behind.
  have beyond : Reaches ending text.entries
      (between (text.upTo index ++ block.head) ('[' :: (('-' :: block.rest) ++
        ']' :: (block.tail ++ text.onwards (index + 1))))
        ((values.count (counter - 1)).count 0).ribbon) []
      (between (text.upTo index ++ block.head ++ '[' :: (('-' :: block.rest) ++ [']']))
        (block.tail ++ text.onwards (index + 1))
        ((values.count (counter - 1)).count 0).ribbon) := by
    refine .step (RibbonMachine.between_over (.plain rfl matched) rfl) ?_
    rw [RibbonMachine.place_between, List.length_append]
    exact @not_mem_entries text index _ (by omega) (fun _ => by omega) (fun _ => by omega)
  have closing : Reaches ending text.entries
      (between (text.upTo index ++ block.head ++ '[' :: (('-' :: block.rest) ++ [']']))
        (block.tail ++ text.onwards (index + 1)) ((values.count (counter - 1)).count 0).ribbon) []
      (between (text.upTo index ++ block.head ++ '[' :: (('-' :: block.rest) ++ [']']) ++ block.tail)
        (text.onwards (index + 1)) (values.count (counter - 1)).ribbon) := by
    refine .runs (tail (values.count (counter - 1))) fun place low high => ?_
    simp only [List.length_append, List.length_cons, List.length_nil] at low high
    exact @not_mem_entries text index _ (by omega) (fun _ => by omega) (fun _ => by omega)
  have whole := testing.trans (beyond.trans closing)
  rw [before, before, code, next]
  simpa [CaseText.code] using whole

/-- A block whose counter becomes zero is entered, does what its case does, and leaves the counter for
the next case. -/
theorem enters {index : Nat} (inside : index < text.blocks.length)
    {values after : StackState Empty} {next : Int}
    (stepped : MachineCase.step? .asByte cases ending ⟨index + 1, values⟩ = some ⟨next, after⟩)
    (low : 1 ≤ next) (high : next ≤ cases.length + 1) :
    ∃ counter, LeadsTo cases.length (index + 1) counter next ∧
      Reaches ending text.entries (text.before index (values.count 1).ribbon) [(index : Int) + 1]
        (text.before (index + 1) (after.count counter).ribbon) := by
  obtain ⟨head, rest, tail, matched⟩ := fits.blocks index inside
  obtain ⟨counter, worked, leads⟩ := rest values after next stepped low high
  refine ⟨counter, leads, ?_⟩
  have entry := entry_eq inside
  have code := onwards_eq inside
  have next := upTo_succ inside
  have tested := head values 1
  have found := enteredCases_entry inside
  have one : (1 : UInt8) - 1 = 0 := rfl
  rw [one] at tested
  generalize text.blocks[index] = block at *
  have length := congrArg List.length next
  simp only [CaseText.code, List.length_append, List.length_cons] at length
  -- The head leaves a zero counter beside a one, so that the bracket is entered.
  have testing : Reaches ending text.entries
      (between (text.upTo index) (block.head ++ ('[' :: '-' :: (block.rest ++
        ']' :: (block.tail ++ text.onwards (index + 1))))) (values.count 1).ribbon) []
      (between (text.upTo index ++ block.head) ('[' :: '-' :: (block.rest ++
        ']' :: (block.tail ++ text.onwards (index + 1)))) ((values.count 0).count 1).ribbon) := by
    refine .runs tested fun place low high => ?_
    rw [List.length_append] at high
    exact not_mem_entries low (fun _ => by omega) (fun _ => by omega)
  have into : Reaches ending text.entries
      (between (text.upTo index ++ block.head) ('[' :: '-' :: (block.rest ++
        ']' :: (block.tail ++ text.onwards (index + 1)))) ((values.count 0).count 1).ribbon) []
      (between (text.upTo index ++ block.head ++ ['[']) ('-' :: (block.rest ++
        ']' :: (block.tail ++ text.onwards (index + 1)))) ((values.count 0).count 1).ribbon) := by
    have set : (1 : UInt8) ≠ 0 := by decide
    refine .step (RibbonMachine.between_into set) ?_
    rw [RibbonMachine.place_between, List.length_append]
    exact @not_mem_entries text index _ (by omega) (fun _ => by omega) (fun _ => by omega)
  -- This `-` is the entry of the block: the only place of the lap that stands for a case.
  have lowered : Reaches ending text.entries
      (between (text.upTo index ++ block.head ++ ['[']) ('-' :: (block.rest ++
        ']' :: (block.tail ++ text.onwards (index + 1)))) ((values.count 0).count 1).ribbon)
      [(index : Int) + 1]
      (between (text.upTo index ++ block.head ++ ['['] ++ ['-']) (block.rest ++
        ']' :: (block.tail ++ text.onwards (index + 1))) ((values.count 0).count 0).ribbon) := by
    have cleared : ((values.count 0).count 1).ribbon.perform ending '-' =
        ((values.count 0).count 0).ribbon := by
      change Ribbon.mk _ (1 - 1) _ _ _ = _
      rw [one]
      rfl
    refine ⟨_, .single ((RibbonMachine.between_plain rfl).trans (by rw [cleared])), ?_⟩
    have here : (text.upTo index ++ block.head ++ ['[']).length = text.entry index := by
      simp only [List.length_append, List.length_cons, List.length_nil, entry]
    rw [RibbonMachine.place_between, here, found]
  have working : Reaches ending text.entries
      (between (text.upTo index ++ block.head ++ ['['] ++ ['-']) (block.rest ++
        ']' :: (block.tail ++ text.onwards (index + 1))) ((values.count 0).count 0).ribbon) []
      (between (text.upTo index ++ block.head ++ ['['] ++ ['-'] ++ block.rest)
        (']' :: (block.tail ++ text.onwards (index + 1)))
        ((after.count counter).count 0).ribbon) := by
    refine .runs worked fun place low high => ?_
    simp only [List.length_append, List.length_cons, List.length_nil] at low high
    exact @not_mem_entries text index _ (by omega) (fun _ => by omega) (fun _ => by omega)
  -- The rest of the block puts a zero where the one was, so that the bracket is left after one turn.
  have out : Reaches ending text.entries
      (between (text.upTo index ++ block.head ++ ['['] ++ ['-'] ++ block.rest)
        (']' :: (block.tail ++ text.onwards (index + 1)))
        ((after.count counter).count 0).ribbon) []
      (between (text.upTo index ++ block.head ++ ['['] ++ ['-'] ++ block.rest ++ [']'])
        (block.tail ++ text.onwards (index + 1)) ((after.count counter).count 0).ribbon) := by
    refine .step (RibbonMachine.between_out rfl) ?_
    rw [RibbonMachine.place_between]
    simp only [List.length_append, List.length_cons, List.length_nil]
    exact @not_mem_entries text index _ (by omega) (fun _ => by omega) (fun _ => by omega)
  have closing : Reaches ending text.entries
      (between (text.upTo index ++ block.head ++ ['['] ++ ['-'] ++ block.rest ++ [']'])
        (block.tail ++ text.onwards (index + 1)) ((after.count counter).count 0).ribbon) []
      (between (text.upTo index ++ block.head ++ ['['] ++ ['-'] ++ block.rest ++ [']'] ++ block.tail)
        (text.onwards (index + 1)) (after.count counter).ribbon) := by
    refine .runs (tail (after.count counter)) fun place low high => ?_
    simp only [List.length_append, List.length_cons, List.length_nil] at low high
    exact @not_mem_entries text index _ (by omega) (fun _ => by omega) (fun _ => by omega)
  have whole := testing.trans (into.trans (lowered.trans (working.trans (out.trans closing))))
  rw [before, before, code, next]
  simpa [CaseText.code] using whole

/-- The code of all blocks has matched brackets. -/
theorem loop_balanced : Balanced (text.lead ++ blocksCode text.blocks ++ text.trail) := by
  have blocks : ∀ blocks : List CaseText, (∀ block ∈ blocks, Balanced block.code) →
      Balanced (blocksCode blocks) := by
    intro blocks matched
    induction blocks with
    | nil => exact .nil
    | cons block rest ih =>
      rw [blocksCode, List.flatMap_cons]
      exact (matched block List.mem_cons_self).append
        (ih fun other member => matched other (List.mem_cons_of_mem _ member))
  -- The heads and tails run between marks of their own, and what runs so is balanced.
  have each : ∀ block ∈ text.blocks, Balanced block.code := by
    intro block member
    obtain ⟨index, inside, rfl⟩ := List.getElem_of_mem member
    obtain ⟨head, -, tail, matched⟩ := fits.blocks index inside
    exact (head (.start []) 0).balanced.append
      (.nest (.plain rfl matched) (tail (.start [])).balanced)
  exact ((fits.lead ⟨zeros, 0, zeros, [], []⟩).balanced.append (blocks _ each)).append
    (fits.trail (.start []) 0).balanced

/-- At the end of a lap the counter is lowered. -/
private theorem lowers (values : StackState Empty) (counter : UInt8) :
    Reaches ending text.entries
      (text.before text.blocks.length (values.count counter).ribbon) []
      (between (text.upTo text.blocks.length ++ text.trail) (']' :: text.finish)
        (values.count (counter - 1)).ribbon) := by
  rw [before, onwards_all]
  exact .runs (fits.trail values counter) fun place low _ => behind_entries low

/-- From the beginning of the loop to the first block. -/
private theorem begins (values : StackState Empty) {counter : UInt8} (nonzero : counter ≠ 0) :
    Reaches ending text.entries
      (between text.start ('[' :: (text.lead ++ blocksCode text.blocks ++ text.trail ++
        ']' :: text.finish)) (values.count counter).ribbon) []
      (text.before 0 (values.count counter).ribbon) := by
  have into : Reaches ending text.entries
      (between text.start ('[' :: (text.lead ++ (blocksCode text.blocks ++ (text.trail ++
        ']' :: text.finish)))) (values.count counter).ribbon) []
      (between (text.start ++ ['[']) (text.lead ++ (blocksCode text.blocks ++ (text.trail ++
        ']' :: text.finish))) (values.count counter).ribbon) := by
    refine .step (RibbonMachine.between_into nonzero) (not_mem_entries_of_lt ?_)
    rw [upTo_none, RibbonMachine.place_between]
    simp only [List.length_append, List.length_cons]
    omega
  have leading : Reaches ending text.entries
      (between (text.start ++ ['[']) (text.lead ++ (blocksCode text.blocks ++ (text.trail ++
        ']' :: text.finish))) (values.count counter).ribbon) []
      (between (text.start ++ ['['] ++ text.lead) (blocksCode text.blocks ++ (text.trail ++
        ']' :: text.finish)) (values.count counter).ribbon) :=
    .runs (fits.lead _) fun place _ high => not_mem_entries_of_lt (by rwa [upTo_none])
  rw [before, upTo_none, onwards_none]
  simpa using into.trans leading

/-- At the end of a lap whose counter does not become zero, the next lap begins. -/
theorem laps (values : StackState Empty) {counter : UInt8} (nonzero : counter - 1 ≠ 0) :
    Reaches ending text.entries
      (text.before text.blocks.length (values.count counter).ribbon) []
      (text.before 0 (values.count (counter - 1)).ribbon) := by
  have again : Reaches ending text.entries
      (between (text.start ++ '[' :: (text.lead ++ blocksCode text.blocks ++ text.trail))
        (']' :: text.finish) (values.count (counter - 1)).ribbon) []
      (between text.start ('[' :: (text.lead ++ blocksCode text.blocks ++ text.trail ++
        ']' :: text.finish)) (values.count (counter - 1)).ribbon) := by
    refine .step (RibbonMachine.between_again fits.loop_balanced nonzero) (behind_entries ?_)
    rw [upTo_all, RibbonMachine.place_between]
    simp only [List.length_append, List.length_cons]
    omega
  have lowered := fits.lowers values counter
  rw [upTo_all] at lowered
  exact (by simpa using lowered : Reaches _ _ _ _ _).trans (again.trans (fits.begins values nonzero))

/-- At the end of a lap whose counter becomes zero, the machine is left. -/
theorem leaves (values : StackState Empty) :
    Reaches ending text.entries (text.before text.blocks.length (values.count 1).ribbon) []
      (between text.code [] values.ribbon) := by
  have lowered := fits.lowers values 1
  have one : (1 : UInt8) - 1 = 0 := rfl
  rw [one] at lowered
  have out : Reaches ending text.entries
      (between (text.upTo text.blocks.length ++ text.trail) (']' :: (text.finish ++ []))
        (values.count 0).ribbon) []
      (between (text.upTo text.blocks.length ++ text.trail ++ [']']) (text.finish ++ [])
        (values.count 0).ribbon) := by
    refine .step (RibbonMachine.between_out rfl) (behind_entries ?_)
    rw [RibbonMachine.place_between, List.length_append]
    omega
  have finished : Reaches ending text.entries
      (between (text.upTo text.blocks.length ++ text.trail ++ [']']) (text.finish ++ [])
        (values.count 0).ribbon) []
      (between (text.upTo text.blocks.length ++ text.trail ++ [']'] ++ text.finish) []
        values.ribbon) := by
    refine .runs (fits.finish values) fun place low _ => behind_entries ?_
    simp only [List.length_append] at low
    omega
  have whole : text.code =
      text.upTo text.blocks.length ++ text.trail ++ [']'] ++ text.finish := by
    rw [upTo_all, code]
    simp
  rw [whole]
  rw [List.append_nil] at out finished
  exact lowered.trans (out.trans finished)

/-- The first lap begins at the first block. -/
theorem starts (values : StackState Empty) :
    Reaches ending text.entries (between [] text.code values.ribbon) []
      (text.before 0 (values.count 1).ribbon) := by
  have set : (1 : UInt8) ≠ 0 := by decide
  have started : Reaches ending text.entries
      (between [] (text.start ++ '[' :: (text.lead ++ blocksCode text.blocks ++ text.trail ++
        ']' :: text.finish)) values.ribbon) []
      (between ([] ++ text.start) ('[' :: (text.lead ++ blocksCode text.blocks ++ text.trail ++
        ']' :: text.finish)) (values.count 1).ribbon) := by
    refine .runs (fits.start values) fun place _ high => not_mem_entries_of_lt ?_
    rw [upTo_none]
    simp only [List.length_append, List.length_cons, List.length_nil] at high ⊢
    omega
  have whole : text.code = text.start ++ '[' :: (text.lead ++ blocksCode text.blocks ++ text.trail ++
      ']' :: text.finish) := by
    rw [code]
    simp
  rw [whole]
  exact started.trans (fits.begins values set)

/-! ## Runs -/

/-- The case that the counter leads to is found, whatever its distance. -/
theorem seeks (values : StackState Empty) {counter : UInt8} {index : Nat}
    (inside : index ≤ cases.length) {next : Int} (leads : LeadsTo cases.length index counter next) :
    Reaches ending text.entries (text.before index (values.count counter).ribbon) []
      (text.before (next - 1).toNat (values.count 1).ribbon) := by
  have count := fits.count
  obtain ⟨positive, rfl⟩ := leads
  rw [Int.add_sub_cancel, Int.toNat_natCast]
  -- Each block that is passed over lowers the counter by one, so the induction is on the counter.
  induction size : counter.toNat using Nat.strongRecOn generalizing counter index with
  | ind value ih =>
    subst size
    by_cases one : counter = 1
    · subst one
      have here : (index + (1 : UInt8).toNat - 1) % (cases.length + 1) = index := by
        rw [UInt8.toNat_one, Nat.add_sub_cancel]
        exact Nat.mod_eq_of_lt (by omega)
      rw [here]
      exact .refl
    · have nonzero : counter - 1 ≠ 0 := fun equal => one (by grind)
      have apart : counter.toNat ≠ 1 := fun equal => one (UInt8.toNat_inj.mp equal)
      have less := @Byte.toNat_sub_one counter (by rintro rfl; simp at positive)
      -- Behind the last block the lap ends, which takes one of the counter as well, and the next begins at
      -- the first block; so distances are taken modulo one more than the number of blocks.
      by_cases last : index = cases.length
      · have around := @ih _ (by omega) (counter - 1) 0 (by omega) (by omega) rfl
        have same : (index + counter.toNat - 1) % (cases.length + 1) =
            (0 + (counter - 1).toNat - 1) % (cases.length + 1) := by
          rw [less, last, ← Nat.add_mod_right (0 + (counter.toNat - 1) - 1)]
          congr 1
          omega
        rw [same]
        have lap := fits.laps values nonzero
        rw [count, ← last] at lap
        exact lap.trans around
      · have onwards := @ih _ (by omega) (counter - 1) (index + 1) (by omega) (by omega) rfl
        have same : index + counter.toNat - 1 = index + 1 + (counter - 1).toNat - 1 := by omega
        rw [same]
        exact (fits.passes_over (by omega) values nonzero).trans onwards

/-- Every run of the cases is a run of the code that enters the same cases. -/
theorem visits {first last : MachineCase.State Empty} {visited : List Int}
    (path : Path (MachineCase.step? .asByte cases ending) (·.case) first visited last)
    (within : 1 ≤ last.case ∧ last.case ≤ cases.length + 1) :
    Reaches ending text.entries
      (text.before (first.case - 1).toNat (first.values.count 1).ribbon) visited
      (text.before (last.case - 1).toNat (last.values.count 1).ribbon) := by
  induction path with
  | here => exact .refl
  | @next state following last marks stepped onwards ih =>
    have bounds := MachineCase.step?_within stepped
    have after := MachineCase.first_within onwards within
    obtain ⟨index, place⟩ : ∃ index : Nat, state.case = index + 1 :=
      ⟨(state.case - 1).toNat, by omega⟩
    have count := fits.count
    have inside : index < text.blocks.length := by omega
    obtain ⟨number, values⟩ := state
    obtain rfl : number = index + 1 := place
    obtain ⟨counter, leads, entered⟩ := fits.enters inside stepped after.1 after.2
    have found := fits.seeks following.values (by omega) leads
    have whole := entered.trans (found.trans (ih within))
    simpa using whole

/-- Where the cases are left, the code comes to its end. -/
theorem reaches_end {first values : StackState Empty} {visited : List Int}
    (path : Path (MachineCase.step? .asByte cases ending) (·.case) ⟨1, first⟩ visited
      ⟨cases.length + 1, values⟩) :
    Reaches ending text.entries (between [] text.code first.ribbon) visited
      (between text.code [] values.ribbon) := by
  have visits := (fits.starts first).trans (fits.visits path (by simp only; omega))
  have last : ((cases.length : Int) + 1 - 1).toNat = text.blocks.length := by
    rw [fits.count]
    omega
  rw [last] at visits
  simpa using visits.trans (fits.leaves values)

end MachineText.Fits

end TapeCode
