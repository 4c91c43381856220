import Mathlib.Data.Nat.Nth
import TapeCode.Proofs.Writing.OpenMachines

/-!
# The places of cases

A machine is known by the place of the instruction that begins it, and its cases are those that stand
where it is the innermost one that has not ended. Which machines have not ended is read off the stream
alone. In a stream that is written as a whole, the writer has counted the cases of every machine that is
open, and a machine that has ended has as many cases as it declares.
-/
namespace TapeCode

namespace Listing

/-- The machines that have not ended behind an instruction, by their places. -/
def beginsAfter (begins : List Nat) (place : Nat) : Instruction → List Nat
  | .fsmBegin _ => place :: begins
  | .fsmEnd => begins.tail
  | _ => begins

/-- The machines around a place, the innermost first. -/
def enclosing (stream : Listing) : Nat → List Nat
  | 0 => []
  | place + 1 =>
    match stream[place]? with
    | none => stream.enclosing place
    | some instruction => beginsAfter (stream.enclosing place) place instruction

/-- The machine that a place belongs to. -/
def machineAt (stream : Listing) (place : Nat) : Option Nat := (stream.enclosing place).head?

def IsCaseOf (stream : Listing) (machine place : Nat) : Prop :=
  stream[place]? = some .fsmCase ∧ stream.machineAt place = some machine

instance (stream : Listing) (machine : Nat) : DecidablePred (stream.IsCaseOf machine) :=
  fun _ => instDecidableAnd

/-- The cases of a machine before a place. -/
def casesBefore (stream : Listing) (machine place : Nat) : Nat :=
  Nat.count (stream.IsCaseOf machine) place

/-- The number of a case among those of its machine. -/
def caseNumber? (stream : Listing) (place : Nat) : Option Nat :=
  if stream[place]? = some .fsmCase then
    (stream.machineAt place).map fun machine => stream.casesBefore machine place + 1
  else none

variable {stream : Listing} {machine place : Nat} {instruction : Instruction}

theorem enclosing_succ (here : stream[place]? = some instruction) :
    stream.enclosing (place + 1) = beginsAfter (stream.enclosing place) place instruction := by
  rw [enclosing, here]

theorem enclosing_lt : ∀ machine ∈ stream.enclosing place, machine < place := by
  induction place with
  | zero => nofun
  | succ place ih =>
    have others : ∀ machine ∈ stream.enclosing place, machine < place + 1 :=
      fun machine member => Nat.lt_succ_of_lt (ih machine member)
    rw [enclosing]
    split
    next => exact others
    next instruction _ =>
      cases instruction with
      | fsmBegin count => exact List.forall_mem_cons.mpr ⟨Nat.lt_succ_self place, others⟩
      | fsmEnd => exact fun machine member => others machine (List.mem_of_mem_tail member)
      | _ => exact others

theorem enclosing_nodup (stream : Listing) (place : Nat) : (stream.enclosing place).Nodup := by
  induction place with
  | zero => exact .nil
  | succ place ih =>
    rw [enclosing]
    split
    next => exact ih
    next instruction _ =>
      cases instruction with
      | fsmBegin count => exact ih.cons fun member => Nat.lt_irrefl _ (enclosing_lt place member)
      | fsmEnd => exact ih.sublist (List.tail_sublist _)
      | _ => exact ih

theorem IsCaseOf.lt (isCase : stream.IsCaseOf machine place) : machine < place :=
  enclosing_lt machine (List.mem_of_mem_head? isCase.2)

theorem IsCaseOf.caseNumber?_eq (isCase : stream.IsCaseOf machine place) :
    stream.caseNumber? place = some (stream.casesBefore machine place + 1) := by
  rw [caseNumber?, if_pos isCase.1, isCase.2, Option.map_some]

/-- A case belongs to the innermost machine only. -/
theorem not_isCaseOf_outer {others : List Nat} (around : stream.enclosing place = machine :: others) :
    ∀ other ∈ others, ¬stream.IsCaseOf other place := by
  intro other member isCase
  have distinct := enclosing_nodup stream place
  have innermost : stream.machineAt place = some machine := by rw [machineAt, around, List.head?_cons]
  obtain rfl : machine = other := Option.some.inj (innermost.symm.trans isCase.2)
  rw [around, List.nodup_cons] at distinct
  exact distinct.1 member

/-! ## Counting on -/

theorem casesBefore_succ (isCase : stream.IsCaseOf machine place) :
    stream.casesBefore machine (place + 1) = stream.casesBefore machine place + 1 :=
  Nat.count_succ_eq_succ_count_iff.mpr isCase

theorem casesBefore_other (other : ¬stream.IsCaseOf machine place) :
    stream.casesBefore machine (place + 1) = stream.casesBefore machine place :=
  Nat.count_succ_eq_count_iff.mpr other

theorem casesBefore_gap {start : Nat} (later : start ≤ place)
    (none : ∀ other, start ≤ other → other < place → ¬stream.IsCaseOf machine other) :
    stream.casesBefore machine place = stream.casesBefore machine start := by
  induction place, later using Nat.le_induction with
  | base => rfl
  | succ place later ih =>
    rw [casesBefore_other (none place later (Nat.lt_succ_self place))]
    exact ih fun other behind before => none other behind (Nat.lt_succ_of_lt before)

/-- No case stands before its machine begins. -/
theorem casesBefore_begin : stream.casesBefore machine (machine + 1) = 0 := by
  refine Nat.count_of_forall_not fun place before isCase => ?_
  have behind := isCase.lt
  omega

/-- Every number up to the number of cases is that of one of them. -/
theorem existsUnique_caseNumber {number finish : Nat} (positive : 1 ≤ number)
    (within : number ≤ stream.casesBefore machine finish) :
    ∃! place, stream.IsCaseOf machine place ∧ stream.caseNumber? place = some number := by
  have below : number - 1 < Nat.count (stream.IsCaseOf machine) finish := by
    rw [casesBefore] at within
    omega
  have enough (finite : (Set.ofPred (stream.IsCaseOf machine)).Finite) :
      number - 1 < finite.toFinset.card :=
    Nat.lt_of_lt_of_le below (Nat.count_le_card finite finish)
  have isCase := Nat.nth_mem (number - 1) enough
  refine ⟨Nat.nth (stream.IsCaseOf machine) (number - 1), ⟨isCase, ?_⟩, ?_⟩
  · rw [isCase.caseNumber?_eq, casesBefore, Nat.count_nth enough, Nat.sub_add_cancel positive]
  · rintro other ⟨otherCase, same⟩
    rw [otherCase.caseNumber?_eq, casesBefore] at same
    have counts : Nat.count (stream.IsCaseOf machine) other = number - 1 := by
      have equal := Option.some.inj same
      omega
    rw [← counts, Nat.nth_count otherCase]

end Listing

namespace Writer

open Listing

variable {style : CodeStyle} {opened after : List OpenMachine} {stream : Listing} {place : Nat}
  {instruction : Instruction}

/-- What the writer has counted of a machine before a place of the stream. -/
structure Tallies (stream : Listing) (place machine : Nat) (entry : OpenMachine) : Prop where
  declared : stream[machine]? = some (.fsmBegin entry.count)
  begun : entry.begun = stream.casesBefore machine place

/-- The machines that the writer has open before a place of the stream are those around it, and the
machines that have ended had all their cases. -/
structure Numbered (stream : Listing) (place : Nat) (opened : List OpenMachine) : Prop where
  entries : List.Forall₂ (Tallies stream place) (stream.enclosing place) opened
  ended : ∀ machine < place, ∀ count, stream[machine]? = some (.fsmBegin count) →
    machine ∉ stream.enclosing place → (stream.casesBefore machine place : Int) = count

theorem Tallies.next_other {machine : Nat} {entry : OpenMachine} (tallies : Tallies stream place machine entry)
    (other : ¬stream.IsCaseOf machine place) : Tallies stream (place + 1) machine entry :=
  ⟨tallies.declared, by rw [casesBefore_other other]; exact tallies.begun⟩

/-- An instruction that is no case leaves all counts as they are. -/
theorem Numbered.entries_other (numbered : Numbered stream place opened)
    (other : stream[place]? ≠ some .fsmCase) :
    List.Forall₂ (Tallies stream (place + 1)) (stream.enclosing place) opened :=
  numbered.entries.imp fun _ _ tallies => tallies.next_other fun isCase => other isCase.1

theorem beginsAfter_stays (other : instruction.shapesMachines = false) (begins : List Nat) :
    beginsAfter begins place instruction = begins := by
  cases instruction <;> first | rfl | cases other

/-- A machine that has ended before an instruction has no further cases. -/
theorem Numbered.ended_behind (numbered : Numbered stream place opened) {machine : Nat}
    (before : machine < place + 1) (elsewhere : machine ≠ place) {count : Int}
    (found : stream[machine]? = some (.fsmBegin count)) (outside : machine ∉ stream.enclosing place) :
    (stream.casesBefore machine (place + 1) : Int) = count := by
  rw [casesBefore_other fun isCase => outside (List.mem_of_mem_head? isCase.2)]
  exact numbered.ended machine (by omega) count found outside

theorem Numbered.step (numbered : Numbered stream place opened)
    (here : stream[place]? = some instruction) (opens : Opens opened instruction after) :
    Numbered stream (place + 1) after := by
  have encloses := enclosing_succ here
  have elsewhere (differs : ∀ count, instruction ≠ .fsmBegin count) {machine : Nat} {count : Int}
      (found : stream[machine]? = some (.fsmBegin count)) : machine ≠ place := by
    rintro rfl
    exact differs count (Option.some.inj (here.symm.trans found))
  have noCase (differs : instruction ≠ .fsmCase) : stream[place]? ≠ some .fsmCase :=
    fun same => differs (Option.some.inj (here.symm.trans same))
  -- The machines that are open change as the writer opens them, and with them who counts this place.
  cases opens with
  | @begins _ count few =>
    change stream.enclosing (place + 1) = place :: stream.enclosing place at encloses
    refine ⟨?_, fun machine before declared found outside => ?_⟩
    · -- The machine that begins here has no cases yet, and the others get none.
      rw [encloses]
      refine .cons ⟨here, ?_⟩ (numbered.entries_other (noCase nofun))
      rw [casesBefore_begin]
      rfl
    · rw [encloses, List.mem_cons, not_or] at outside
      exact numbered.ended_behind before outside.1 found outside.2
  | @nextCase entry outer =>
    obtain ⟨machine, others, tallies, entries, around⟩ := List.forall₂_cons_right_iff.mp numbered.entries
    have innermost : stream.machineAt place = some machine := by rw [machineAt, around, List.head?_cons]
    have isCase : stream.IsCaseOf machine place := ⟨here, innermost⟩
    change stream.enclosing (place + 1) = stream.enclosing place at encloses
    refine ⟨?_, fun other before declared found outside => ?_⟩
    · rw [encloses, around]
      refine .cons ⟨tallies.declared, ?_⟩ ?_
      · rw [casesBefore_succ isCase, Int.natCast_succ, ← tallies.begun]
      · -- The machines around the innermost one do not count this case.
        exact ((List.forall₂_and_left others outer).mpr ⟨not_isCaseOf_outer around, entries⟩).imp
          fun _ _ both => both.2.next_other both.1
    · rw [encloses] at outside
      exact numbered.ended_behind before (elsewhere nofun found) found outside
  | @ends entry outer complete =>
    obtain ⟨machine, others, tallies, entries, around⟩ := List.forall₂_cons_right_iff.mp numbered.entries
    have untouched := numbered.entries_other (noCase nofun)
    change stream.enclosing (place + 1) = (stream.enclosing place).tail at encloses
    rw [around, List.tail_cons] at encloses
    rw [around, List.forall₂_cons] at untouched
    refine ⟨?_, fun other before declared found outside => ?_⟩
    · rw [encloses]
      exact untouched.2
    · rw [encloses] at outside
      by_cases same : other = machine
      · -- The machine that ends here has come to its last case.
        subst same
        obtain rfl : entry.count = declared :=
          Instruction.fsmBegin.inj (Option.some.inj (tallies.declared.symm.trans found))
        rw [← untouched.1.begun, complete]
      · have apart : other ∉ stream.enclosing place := by
          rw [around, List.mem_cons, not_or]
          exact ⟨same, outside⟩
        exact numbered.ended_behind before (elsewhere nofun found) found apart
  | stays other =>
    rw [beginsAfter_stays other] at encloses
    refine ⟨?_, fun machine before declared found outside => ?_⟩
    · rw [encloses]
      exact numbered.entries_other (noCase fun same => by rw [same] at other; cases other)
    · rw [encloses] at outside
      exact numbered.ended_behind before
        (elsewhere (fun count same => by rw [same] at other; cases other) found) found outside

/-- Nothing is open, and nothing has ended. -/
theorem numbered_start (stream : Listing) : Numbered stream 0 [] := ⟨.nil, nofun⟩

/-- Up to every place of a stream the writer counts what the stream shows. -/
theorem Emits.numbered {before rest : Listing} {text : List Char}
    (emits : Emits style [] before text opened) : Numbered (before ++ rest) before.length opened :=
  @Emits.keeps style [] opened before text
    (fun passed opened => passed <+: before ++ rest → Numbered (before ++ rest) passed.length opened)
    emits [] (fun _ => numbered_start _)
    (fun passed opened instruction after numbered opens front => by
      obtain ⟨behind, split⟩ := front
      have here : (before ++ rest)[passed.length]? = some instruction := by
        rw [← split, List.append_assoc, List.getElem?_append_right (Nat.le_refl _), Nat.sub_self]
        rfl
      rw [List.length_append]
      exact (numbered ⟨[instruction] ++ behind, by rw [← List.append_assoc, split]⟩).step here opens)
    (List.prefix_append _ _)

/-- A machine has as many cases as it declares in all of a stream that ends with no machine open. -/
theorem Emits.casesBefore_length {code : List Char} (emits : Emits style [] stream code [])
    {machine : Nat} {count : Int} (found : stream[machine]? = some (.fsmBegin count)) :
    (stream.casesBefore machine stream.length : Int) = count := by
  have numbered := @Emits.numbered style [] stream [] code emits
  rw [List.append_nil] at numbered
  have nowhere : stream.enclosing stream.length = [] := List.forall₂_nil_right_iff.mp numbered.entries
  obtain ⟨inside, -⟩ := List.getElem?_eq_some_iff.mp found
  exact numbered.ended machine inside count found (by rw [nowhere]; exact List.not_mem_nil)

/-- The writer stands before every place of a stream that it writes. -/
theorem Emits.at_place {code : List Char} (emits : Emits style [] stream code after)
    (here : stream[place]? = some instruction) :
    ∃ text opened more, Emits style [] (stream.take place) text opened ∧
      Emits style opened (instruction :: stream.drop (place + 1)) more after ∧
      Numbered stream place opened := by
  obtain ⟨inside, rfl⟩ := List.getElem?_eq_some_iff.mp here
  have split : stream.take place ++ stream[place] :: stream.drop (place + 1) = stream := by
    rw [List.cons_getElem_drop_succ, List.take_append_drop]
  rw [← split] at emits
  obtain ⟨text, opened, more, front, behind⟩ := emits.append_inv
  have numbered := @Emits.numbered style opened _ (stream[place] :: stream.drop (place + 1)) _ front
  rw [split, List.length_take, Nat.min_eq_left (Nat.le_of_lt inside)] at numbered
  exact ⟨text, opened, more, front, behind, numbered⟩

end Writer

end TapeCode
