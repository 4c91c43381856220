import TapeCode.Program.Disassembly
import TapeCode.Proofs.InstructionText
import TapeCode.Proofs.Writing.CasePlaces

/-!
# Lines of a disassembly

A stream without labels is listed in one line for each of its instructions, and a case is shown with its
number among the cases of its machine. Where the writer accepts the stream it counts in the same way,
so the targets of a dispatch are the numbers that the lines of its machine show.
-/
namespace TapeCode

namespace Listing

open Disassembly

/-- The machines by which an instruction is set in. A case and the end of a machine stand where the
machine begins. -/
def depthAt (stream : Listing) (place : Nat) : Instruction → Nat
  | .fsmCase | .fsmEnd => (stream.enclosing place).length - 1
  | _ => (stream.enclosing place).length

/-- The line of an instruction: its number, the instruction, and the number of the case if it is one. -/
def lineAt (stream : Listing) (place : Nat) (instruction : Instruction) : String :=
  numberText place ++ "   " ++ indentation (stream.depthAt place instruction) ++ instruction.text ++
    match stream.caseNumber? place with
    | none => ""
    | some number => s!"  ; case {number}"

variable {stream : Listing} {place : Nat} {instruction : Instruction}

/-- What the disassembly counts before a place. -/
def casesAt (stream : Listing) (place : Nat) : CaseNumbers :=
  (stream.enclosing place).map (stream.casesBefore · place)

theorem casesAt_eq_cons {machine : Nat} {others : List Nat}
    (around : stream.enclosing place = machine :: others) : stream.casesAt place =
      stream.casesBefore machine place :: others.map (stream.casesBefore · place) := by
  rw [casesAt, around, List.map_cons]

theorem casesAfter_casesAt (here : stream[place]? = some instruction) :
    casesAfter (stream.casesAt place) instruction = stream.casesAt (place + 1) := by
  have encloses := enclosing_succ here
  have others (differs : instruction ≠ .fsmCase) (machines : List Nat) :
      machines.map (stream.casesBefore · (place + 1)) = machines.map (stream.casesBefore · place) :=
    List.map_congr_left fun machine _ => casesBefore_other fun isCase =>
      differs (Option.some.inj (here.symm.trans isCase.1))
  cases instruction with
  | fsmBegin count =>
    change stream.enclosing (place + 1) = place :: stream.enclosing place at encloses
    rw [casesAt_eq_cons encloses, casesBefore_begin, others (by simp)]
    rfl
  | fsmEnd =>
    change stream.enclosing (place + 1) = (stream.enclosing place).tail at encloses
    rw [casesAt.eq_def _ (place + 1), encloses, others (by simp), casesAfter, casesAt, List.map_tail]
  | fsmCase =>
    change stream.enclosing (place + 1) = stream.enclosing place at encloses
    cases around : stream.enclosing place with
    | nil => rw [casesAt, casesAt, encloses, around]; rfl
    | cons machine outer =>
      have isCase : stream.IsCaseOf machine place := ⟨here, by rw [machineAt, around, List.head?_cons]⟩
      -- The counts of the machines further out stand still.
      have stay : outer.map (stream.casesBefore · (place + 1)) = outer.map (stream.casesBefore · place) :=
        List.map_congr_left fun other member => casesBefore_other (not_isCaseOf_outer around other member)
      rw [casesAt_eq_cons around, casesAt_eq_cons (encloses.trans around), casesBefore_succ isCase, stay]
      rfl
  | _ =>
    change stream.enclosing (place + 1) = stream.enclosing place at encloses
    rw [casesAt, casesAt, encloses, others (by simp)]
    rfl

theorem caseNumber?_eq_none (here : stream[place]? = some instruction) (differs : instruction ≠ .fsmCase) :
    stream.caseNumber? place = none :=
  if_neg fun same => differs (Option.some.inj (here.symm.trans same))

theorem lines_other (index : Nat) (cases : CaseNumbers) (plain : ∀ id, instruction ≠ .label id)
    (noCase : instruction ≠ .fsmCase) (noEnd : instruction ≠ .fsmEnd) :
    lines index cases instruction =
      numberText index ++ "   " ++ indentation cases.length ++ instruction.text ++ "\n" := by
  unfold lines
  split
  next => exact absurd rfl (plain _)
  next => exact absurd rfl noCase
  next => exact absurd rfl noCase
  next => exact absurd rfl noEnd
  next => rfl

theorem depthAt_other (noCase : instruction ≠ .fsmCase) (noEnd : instruction ≠ .fsmEnd) :
    stream.depthAt place instruction = (stream.enclosing place).length := by
  unfold depthAt
  split
  next => exact absurd rfl noCase
  next => exact absurd rfl noEnd
  next => rfl

theorem lines_eq (here : stream[place]? = some instruction) (plain : ∀ id, instruction ≠ .label id) :
    lines place (stream.casesAt place) instruction = stream.lineAt place instruction ++ "\n" := by
  have count : (stream.casesAt place).length = (stream.enclosing place).length := List.length_map _
  by_cases isCase : instruction = .fsmCase
  · subst isCase
    cases around : stream.enclosing place with
    | nil =>
      have outside : stream.caseNumber? place = none := by
        rw [caseNumber?, if_pos here, machineAt, around]
        rfl
      have level : indentation 0 = "" := rfl
      simp [lineAt, outside, depthAt, casesAt, around, lines, level]
    | cons machine outer =>
      have isCase : stream.IsCaseOf machine place := ⟨here, by rw [machineAt, around, List.head?_cons]⟩
      simp [lineAt, isCase.caseNumber?_eq, depthAt, around, casesAt_eq_cons around, lines, String.append_assoc,
        toString]
  have noNumber := caseNumber?_eq_none here isCase
  by_cases isEnd : instruction = .fsmEnd
  · subst isEnd
    simp [lineAt, noNumber, depthAt, lines, count]
  · simp [lineAt, noNumber, depthAt_other isCase isEnd, lines_other place _ plain isCase isEnd, count]

/-! ## The text -/

theorem linesFrom_eq {before rest : Listing} (split : stream = before ++ rest)
    (plain : ∀ id, .label id ∉ rest) :
    linesFrom before.length (stream.casesAt before.length) rest =
      (rest.zipIdx before.length).map fun entry => stream.lineAt entry.2 entry.1 ++ "\n" := by
  induction rest generalizing before with
  | nil => rfl
  | cons instruction rest ih =>
    have here : stream[before.length]? = some instruction := by simp [split]
    have others := @ih (before ++ [instruction]) (by simp [split])
      fun id member => plain id (List.mem_cons_of_mem _ member)
    rw [List.length_append, List.length_singleton] at others
    rw [linesFrom, lines_eq here fun id same => plain id (same ▸ List.mem_cons_self),
      casesAfter_casesAt here, others, List.zipIdx_cons, List.map_cons]

/-- Nothing in a line ends it. -/
theorem lineAt_ne_newline (stream : Listing) (place : Nat) (instruction : Instruction) :
    ∀ c ∈ (stream.lineAt place instruction).toList, decide (c = '\n') = false := by
  have digits (number : Nat) : ∀ c ∈ (toString number).toList, c ≠ '\n' := by
    rintro c member rfl
    exact absurd (Text.isDigit_of_mem_toString member) (by decide)
  have number : ∀ c ∈ (numberText place).toList, c ≠ '\n' := by
    rintro c member rfl
    rcases Text.mem_padLeft member with fill | digit
    · exact absurd fill (by decide)
    · exact digits place _ digit rfl
  have blank : ∀ c ∈ (indentation (stream.depthAt place instruction)).toList, c ≠ '\n' := by
    intro c member
    rw [indentation, String.toList_ofList, List.mem_replicate] at member
    rw [member.2]
    decide
  have text : ∀ c ∈ instruction.text.toList, c ≠ '\n' := by
    rintro c member rfl
    exact absurd (instruction.isGap_of_mem_text '\n' member) (by decide)
  intro c member
  rw [lineAt] at member
  simp only [String.toList_append, List.mem_append] at member
  refine decide_eq_false ?_
  rcases member with (((member | member) | member) | member) | member
  · exact number c member
  · rintro rfl
    exact absurd member (by decide)
  · exact blank c member
  · exact text c member
  · split at member
    · cases member
    next count _ =>
      rcases List.mem_append.mp (String.toList_append ▸ member) with member | member
      · rintro rfl
        exact absurd member (by decide)
      · exact digits count c member

/-- A listing without labels has a line for each instruction, and none besides. -/
theorem split_disassembly (plain : ∀ id, .label id ∉ stream) :
    Text.split (· = '\n') stream.disassembly.toList =
      (stream.zipIdx.map fun (instruction, place) => (stream.lineAt place instruction).toList) ++
        [[]] := by
  have whole : linesFrom 0 [] stream = _ := @linesFrom_eq stream [] stream rfl plain
  have pieces : stream.disassembly.toList =
      (stream.zipIdx.map fun (instruction, place) => (stream.lineAt place instruction).toList).flatMap
        (· ++ ['\n']) := by
    rw [disassembly, String.toList_join, whole, List.flatMap_map, List.flatMap_map]
    exact List.flatMap_congr fun entry _ => String.toList_append
  rw [pieces]
  refine Text.split_terminated rfl fun piece member => ?_
  obtain ⟨⟨instruction, place⟩, -, rfl⟩ := List.mem_map.mp member
  exact lineAt_ne_newline stream place instruction

/-! ## What the writer counts -/

open Writer

variable {style : CodeStyle} {code : List Char}

/-- Labels are not written. -/
theorem label_not_mem (emits : Emits style [] stream code []) (id : Int) : .label id ∉ stream := by
  intro member
  obtain ⟨place, here⟩ := List.getElem?_of_mem member
  obtain ⟨_, _, _, -, behind, -⟩ := emits.at_place here
  obtain ⟨_, _, _, done, -⟩ := Emits.cons_iff.mp behind
  cases done

/-- A case or a dispatch that is written stands in a machine. -/
theorem machineAt_of_emits (emits : Emits style [] stream code []) (here : stream[place]? = some instruction)
    (inside : instruction = .fsmCase ∨ instruction.caseTargets ≠ []) :
    ∃ machine, stream.machineAt place = some machine := by
  obtain ⟨_, opened, _, -, behind, numbered⟩ := emits.at_place here
  obtain ⟨_, _, _, done, -⟩ := Emits.cons_iff.mp behind
  obtain ⟨entry, outer, rfl⟩ : ∃ entry outer, opened = entry :: outer := by
    rcases inside with rfl | leads
    · cases opened with
      | nil => cases done
      | cons entry outer => exact ⟨entry, outer, rfl⟩
    · obtain ⟨target, member⟩ := List.exists_mem_of_ne_nil _ leads
      obtain ⟨entry, outer, -, same, -⟩ := caseOffset_of_perform done member
      exact ⟨entry, outer, same⟩
  obtain ⟨machine, _, -, -, around⟩ := List.forall₂_cons_right_iff.mp numbered.entries
  exact ⟨machine, by rw [machineAt, around, List.head?_cons]⟩

/-- A stream that the writer accepts is listed in one line for each instruction, in order and with its
number, and no case or dispatch in it stands outside of a machine. Wherever a machine is the innermost
one, the writer has it open with the number of cases that it declares, and counts the case that the last
line of a case of this machine shows; and from there it finds an offset for every target of a dispatch.
A target that is one of the cases is the number that exactly one line of a case of this machine shows. -/
theorem disassembly_numbers_cases (written : generate style stream = .ok code) :
    Text.split (· = '\n') stream.disassembly.toList =
        (stream.zipIdx.map fun (instruction, place) => (stream.lineAt place instruction).toList) ++
          [[]] ∧
      (∀ place instruction, stream[place]? = some instruction →
        instruction = .fsmCase ∨ instruction.caseTargets ≠ [] →
          ∃ machine, stream.machineAt place = some machine) ∧
      ∀ place instruction machine, stream[place]? = some instruction →
        stream.machineAt place = some machine →
          ∃ text entry outer, Emits style [] (stream.take place) text (entry :: outer) ∧
            stream[machine]? = some (.fsmBegin entry.count) ∧
            (∀ case, case < place → stream.IsCaseOf machine case →
              (∀ later, case < later → later < place → ¬stream.IsCaseOf machine later) →
                ∃ number : Nat, stream.caseNumber? case = some number ∧ entry.begun = number) ∧
            ∀ target ∈ instruction.caseTargets,
              (∃ offset, Dispatch.caseOffset entry.begun target entry.count = .ok offset) ∧
                (1 ≤ target → target ≤ entry.count → ∃! case, stream.IsCaseOf machine case ∧
                  ∃ number : Nat, stream.caseNumber? case = some number ∧ (number : Int) = target) := by
  obtain ⟨text, streamed, -⟩ := generate_eq_ok written
  have emits := emits_of_streamCode streamed
  refine ⟨split_disassembly (label_not_mem emits), fun place instruction here => machineAt_of_emits emits here,
    fun place instruction machine here around => ?_⟩
  obtain ⟨front, opened, _, front, behind, numbered⟩ := emits.at_place here
  obtain ⟨_, _, _, done, -⟩ := Emits.cons_iff.mp behind
  obtain ⟨others, encloses⟩ : ∃ others, stream.enclosing place = machine :: others :=
    ⟨_, List.eq_cons_of_mem_head? around⟩
  have entries := numbered.entries
  rw [encloses] at entries
  obtain ⟨entry, outer, tallies, -, rfl⟩ := List.forall₂_cons_left_iff.mp entries
  refine ⟨_, entry, outer, front, tallies.declared, fun case before isCase last => ?_, fun target member => ?_⟩
  · refine ⟨_, isCase.caseNumber?_eq, ?_⟩
    rw [tallies.begun, casesBefore_gap before fun other => last other, casesBefore_succ isCase]
  · obtain ⟨_, _, offset, same, found⟩ := caseOffset_of_perform done member
    obtain ⟨rfl, -⟩ := List.cons.inj same
    refine ⟨⟨offset, found⟩, fun positive within => ?_⟩
    -- The cases of the machine come to the number that it declares, so one of them has the number of the
    -- target.
    have total := emits.casesBefore_length tallies.declared
    obtain ⟨case, ⟨isCase, shown⟩, unique⟩ := @existsUnique_caseNumber stream machine target.toNat
      stream.length (by omega) (by omega)
    refine ⟨case, ⟨isCase, _, shown, by omega⟩, ?_⟩
    rintro other ⟨otherCase, number, found, rfl⟩
    exact unique other ⟨otherCase, by rwa [Int.toNat_natCast]⟩

/-- A machine in the first case of another one. Both have a case with the number one. -/
def nestingListing : Listing :=
  [.fsmBegin 2, .fsmCase, .fsmBegin 1, .fsmCase, .fsmJump 2, .fsmEnd, .fsmJump 2, .fsmCase, .fsmIf 1 3,
    .fsmEnd]

theorem disassembly_numbers_cases_nestingListing :
    (∃ code, generate {} nestingListing = .ok code) ∧
      (Text.split (· = '\n') nestingListing.disassembly.toList)[7]? =
        some "0007   fsmCase[]  ; case 2".toList ∧
      ∃ text entry outer, Emits {} [] (nestingListing.take 6) text (entry :: outer) ∧
        entry.begun = 1 ∧ entry.count = 2 ∧ ∃! case, nestingListing.IsCaseOf 0 case ∧
          ∃ number : Nat, nestingListing.caseNumber? case = some number ∧ (number : Int) = 2 := by
  obtain ⟨code, written⟩ : ∃ code, generate {} nestingListing = .ok code := ⟨_, rfl⟩
  obtain ⟨lines, -, counts⟩ := disassembly_numbers_cases written
  obtain ⟨text, entry, outer, emits, declared, last, leads⟩ := counts 6 (.fsmJump 2) 0 rfl rfl
  have two : entry.count = 2 := (Instruction.fsmBegin.inj (Option.some.inj declared)).symm
  have between : ∀ later < 6, 1 < later → ¬nestingListing.IsCaseOf 0 later := by decide +kernel
  obtain ⟨number, shown, begun⟩ := last 1 (by decide) (by decide +kernel)
    fun later behind before => between later before behind
  have one : nestingListing.caseNumber? 1 = some 1 := by decide +kernel
  obtain rfl : 1 = number := Option.some.inj (one.symm.trans shown)
  refine ⟨⟨code, written⟩, ?_, text, entry, outer, emits, begun, two,
    (leads 2 (List.mem_singleton_self 2)).2 (by decide) (by omega)⟩
  rw [lines]
  decide +kernel

end Listing

end TapeCode
