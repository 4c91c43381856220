import Mathlib.Data.List.Forall2
import TapeCode.Instruction.Text
import TapeCode.Proofs.Binary.Programs
import TapeCode.Proofs.TextParts

/-!
# Instructions survive being shown

An instruction is shown without blanks, so nothing is lost by trimming, and the brackets, the commas and the
separators of a listing stand only where they take the text apart. A listing may be written with separators
and blanks of any kind around its instructions; all of these texts are read as the same listing. What is read
from any text at all can be shown and read again.
-/
namespace TapeCode

section

variable {ε α β : Type} {action : α → Except ε β}

theorem mapM_eq_ok {inputs : List α} {results : List β} :
    inputs.mapM action = .ok results ↔
      List.Forall₂ (fun input result => action input = .ok result) inputs results := by
  induction inputs generalizing results with
  | nil =>
    rw [List.mapM_nil, List.forall₂_nil_left_iff]
    exact ⟨fun done => (Except.ok.inj done).symm, fun none => none ▸ rfl⟩
  | cons input inputs ih =>
    rw [List.mapM_cons, List.forall₂_cons_left_iff]
    simp only [Except.bind_eq_ok, ih]
    constructor
    · rintro ⟨result, here, others, there, done⟩
      exact ⟨result, others, here, there, (Except.ok.inj done).symm⟩
    · rintro ⟨result, others, here, there, rfl⟩
      exact ⟨result, here, others, there, rfl⟩

/-- Every result comes from one of the inputs. -/
theorem of_mapM_eq_ok {inputs : List α} {results : List β} (done : inputs.mapM action = .ok results) :
    ∀ result ∈ results, ∃ input, action input = .ok result := by
  intro result member
  obtain ⟨place, inside, rfl⟩ := List.getElem_of_mem member
  have each := mapM_eq_ok.mp done
  exact ⟨_, each.get (each.length_eq ▸ inside) inside⟩

end

namespace Listing

/-- The characters between the instructions of a listing. -/
def isSeparator (c : Char) : Bool := c = ';' || c = '\n'

/-- The characters that may stand around an instruction. -/
def isGap (c : Char) : Bool := isSeparator c || Text.isBlank c

/-- The texts of the instructions. -/
def pieces (text : List Char) : List (List Char) :=
  ((Text.split isSeparator text).map Text.trim).filter (!·.isEmpty)

theorem ofText_eq (source : String) : ofText source = (pieces source.toList).mapM Instruction.read := rfl

/-- A text in which the instructions of a listing are shown one behind the other, with separators in between
and any further separators and blanks around them. -/
inductive IsWrittenAs : Listing → List Char → Prop
  | nil {gap : List Char} (apart : ∀ c ∈ gap, isGap c = true) : IsWrittenAs [] gap
  | last {instruction : Instruction} {before behind : List Char} (leads : ∀ c ∈ before, isGap c = true)
      (trails : ∀ c ∈ behind, isGap c = true) :
      IsWrittenAs [instruction] (before ++ (instruction.text.toList ++ behind))
  | cons {instruction : Instruction} {listing : Listing} {before behind text : List Char} {separator : Char}
      (leads : ∀ c ∈ before, isGap c = true) (trails : ∀ c ∈ behind, isGap c = true)
      (separates : isSeparator separator = true) (others : IsWrittenAs listing text) :
      IsWrittenAs (instruction :: listing)
        (before ++ (instruction.text.toList ++ behind) ++ separator :: text)

/-- Visible ASCII characters stand in no gap, other than the semicolon. -/
theorem isGap_of_visible {c : Char} (low : 33 ≤ c.toNat) (high : c.toNat ≤ 126) (other : c ≠ ';') :
    isGap c = false := by
  have outside : ∀ n ≤ 126, 33 ≤ n →
      (Text.blankTable.edges.countP (fun edge => edge ≤ n) % 2 == 1) = false := by decide
  have newline : c ≠ '\n' := by
    rintro rfl
    exact absurd low (by decide)
  simp only [isGap, isSeparator, other, newline, Text.isBlank, Text.CharSet.contains]
  simpa using outside _ high low

theorem isGap_of_isDigit {c : Char} (digit : c.isDigit = true) : isGap c = false := by
  obtain ⟨low, high⟩ := Char.isDigit_iff_toNat.mp digit
  refine isGap_of_visible (Nat.le_trans (by decide) low) (Nat.le_trans high (by decide)) ?_
  rintro rfl
  cases digit

theorem isBlank_of_isGap {c : Char} (solid : isGap c = false) : Text.isBlank c = false :=
  (Bool.or_eq_false_iff.mp solid).2

theorem isSeparator_of_isGap {c : Char} (solid : isGap c = false) : isSeparator c = false :=
  (Bool.or_eq_false_iff.mp solid).1

theorem trim_eq {text : List Char} (solid : ∀ c ∈ text, isGap c = false) : Text.trim text = text :=
  Text.trim_solid fun c member => isBlank_of_isGap (solid c member)

end Listing

open Listing

namespace Instruction

/-- The arguments have 32 bits with a sign. -/
def Fits (instruction : Instruction) : Prop :=
  ∀ argument ∈ instruction.arguments, fitsArgument argument = true

instance : DecidablePred Fits := fun instruction =>
  inferInstanceAs (Decidable (∀ argument ∈ instruction.arguments, fitsArgument argument = true))

/-! ## The parts of an instruction -/

/-- The names are in visible ASCII characters, none of which is a semicolon or opens a bracket. -/
theorem name_visible (opcode : Opcode) :
    ∀ c ∈ opcode.name.toList, 33 ≤ c.toNat ∧ c.toNat ≤ 126 ∧ c ≠ ';' ∧ c ≠ '[' := by
  have all : opcode.name.toList.all
      (fun c => 33 ≤ c.toNat ∧ c.toNat ≤ 126 ∧ c ≠ ';' ∧ c ≠ '[') = true := by
    cases opcode <;> decide
  exact fun c member => of_decide_eq_true (List.all_eq_true.mp all c member)

theorem isGap_of_mem_name (opcode : Opcode) : ∀ c ∈ opcode.name.toList, isGap c = false := by
  intro c member
  obtain ⟨low, high, other, -⟩ := name_visible opcode c member
  exact isGap_of_visible low high other

theorem ofName?_name (opcode : Opcode) : Opcode.ofName? opcode.name = some opcode := by
  cases opcode <;> rfl

theorem numeral_plain (number : Int) : ∀ c ∈ number.repr.toList, isGap c = false ∧ c ≠ ',' := by
  intro c member
  rcases Text.mem_repr member with rfl | digit
  · decide
  · refine ⟨isGap_of_isDigit digit, ?_⟩
    rintro rfl
    cases digit

/-- The arguments as they stand between the brackets. -/
def inner (arguments : List Int) : List Char := [','].intercalate (arguments.map (·.repr.toList))

theorem toList_text (instruction : Instruction) : instruction.text.toList =
    instruction.opcode.name.toList ++ '[' :: (inner instruction.arguments ++ [']']) := by
  simp [text, inner, String.toList_intercalate, Function.comp_def, Int.toString_eq_repr]

theorem inner_cons_cons (first next : Int) (rest : List Int) :
    inner (first :: next :: rest) = first.repr.toList ++ ',' :: inner (next :: rest) := by
  simp [inner, List.intercalate_cons_cons]

theorem inner_singleton (argument : Int) : inner [argument] = argument.repr.toList := by
  rw [inner, List.map_singleton, List.intercalate_singleton]

theorem inner_ne_nil (first : Int) (rest : List Int) : inner (first :: rest) ≠ [] := by
  cases rest with
  | nil =>
    rw [inner_singleton]
    exact Text.repr_ne_nil first
  | cons next rest => simp [inner_cons_cons]

theorem isGap_of_mem_inner {arguments : List Int} : ∀ c ∈ inner arguments, isGap c = false := by
  induction arguments with
  | nil => nofun
  | cons first rest ih =>
    have here := fun c member => (numeral_plain first c member).1
    cases rest with
    | nil => exact inner_singleton first ▸ here
    | cons next rest =>
      rw [inner_cons_cons, List.forall_mem_append, List.forall_mem_cons]
      exact ⟨here, by decide, ih⟩

theorem isGap_of_mem_text (instruction : Instruction) :
    ∀ c ∈ instruction.text.toList, isGap c = false := by
  rw [toList_text, List.forall_mem_append, List.forall_mem_cons, List.forall_mem_append]
  exact ⟨isGap_of_mem_name _, by decide, isGap_of_mem_inner, List.forall_mem_singleton.mpr (by decide)⟩

theorem text_ne_nil (instruction : Instruction) : instruction.text.toList ≠ [] := by
  simp [toList_text]

/-! ## Reading an instruction -/

theorem readArguments_inner {arguments : List Int}
    (fits : ∀ argument ∈ arguments, fitsArgument argument = true) (text : List Char) :
    readArguments text (inner arguments) = .ok arguments := by
  have each (argument : Int) (fits : fitsArgument argument = true) :
      readArgument text argument.repr.toList = .ok argument := by
    have alone := trim_eq fun c member => (numeral_plain argument c member).1
    simp only [readArgument, alone, Text.readInteger?_repr, fits, if_true]
  rw [readArguments, trim_eq isGap_of_mem_inner]
  cases arguments with
  | nil => rfl
  | cons first rest =>
    -- With an argument there is something between the brackets, so it is split at the commas.
    rw [if_neg (by simp [inner_ne_nil]), inner, Text.split_intercalate (by decide) (by simp)]
    · refine mapM_eq_ok.mpr (List.forall₂_map_left_iff.mpr (List.forall₂_same.mpr ?_))
      exact fun argument member => each argument (fits argument member)
    · intro piece member c inside
      obtain ⟨argument, -, rfl⟩ := List.mem_map.mp member
      simpa using (numeral_plain argument c inside).2

theorem read_text {instruction : Instruction} (fits : instruction.Fits) :
    read instruction.text.toList = .ok instruction := by
  have whole := trim_eq instruction.isGap_of_mem_text
  have name := trim_eq (isGap_of_mem_name instruction.opcode)
  -- No name has a bracket in it, so the first one is the one in front of the arguments.
  have cut : Text.splitOnce? '[' instruction.text.toList =
      some (instruction.opcode.name.toList, inner instruction.arguments ++ [']']) := by
    rw [toList_text]
    exact Text.splitOnce?_append (fun c member => (name_visible _ c member).2.2.2) _
  have made : make instruction.opcode instruction.arguments = .ok instruction :=
    (@Program.make_eq_ok (.of instruction) instruction).mpr rfl
  simp only [read, whole, cut, name, String.ofList_toList, ofName?_name, List.getLast?_concat,
    List.dropLast_concat, readArguments_inner fits]
  exact made

theorem fits_of_readArguments {text inner : List Char} {arguments : List Int}
    (read : readArguments text inner = .ok arguments) :
    ∀ argument ∈ arguments, fitsArgument argument = true := by
  unfold readArguments at read
  split at read
  next =>
    obtain rfl := Except.ok.inj read
    nofun
  next =>
    intro argument member
    obtain ⟨piece, found⟩ := of_mapM_eq_ok read argument member
    unfold readArgument at found
    dsimp only at found
    split at found
    next value _ =>
      split at found
      next fits => exact Except.ok.inj found ▸ fits
      next => cases found
    next => cases found

/-- Only arguments of 32 bits are read. -/
theorem fits_of_read {source : List Char} {instruction : Instruction}
    (found : read source = .ok instruction) : instruction.Fits := by
  unfold read at found
  dsimp only at found
  split at found
  next => cases found
  next name rest _ =>
    split at found
    next => cases found
    next =>
      split at found
      next => cases found
      next opcode _ =>
        obtain ⟨arguments, read, made⟩ := Except.bind_eq_ok.mp found
        have same := (@Program.make_eq_ok ⟨opcode, arguments⟩ instruction).mp made
        obtain ⟨-, rfl⟩ := Program.RawInstruction.mk.inj same
        exact fits_of_readArguments read

end Instruction

namespace Listing

/-! ## Taking a listing apart -/

variable {c : Char} {text behind : List Char}

theorem pieces_append (separates : isSeparator c = true) (first rest : List Char) :
    pieces (first ++ c :: rest) = pieces first ++ pieces rest := by
  rw [pieces, Text.split_append separates, List.map_append, List.filter_append, pieces, pieces]

/-- What stands before a piece makes no difference to it. -/
theorem pieces_skip (apart : isGap c = true) (text : List Char) : pieces (c :: text) = pieces text := by
  cases separates : isSeparator c with
  | true => exact pieces_append separates [] text
  | false =>
    have blank : Text.isBlank c = true := by simpa [isGap, separates] using apart
    unfold pieces
    cases found : Text.split isSeparator text with
    | nil => exact absurd found (Text.split_ne_nil _ _)
    | cons piece more => simp [Text.split, found, separates, Text.trim_skip blank]

theorem pieces_gap {gap : List Char} (apart : ∀ c ∈ gap, isGap c = true) (text : List Char) :
    pieces (gap ++ text) = pieces text := by
  induction gap with
  | nil => rfl
  | cons c gap ih =>
    obtain ⟨here, others⟩ := List.forall_mem_cons.mp apart
    rw [List.cons_append, pieces_skip here, ih others]

theorem pieces_only_gap {gap : List Char} (apart : ∀ c ∈ gap, isGap c = true) : pieces gap = [] := by
  have none := pieces_gap apart []
  rwa [List.append_nil] at none

theorem pieces_trim {blanks : List Char} (some : text ≠ []) (solid : ∀ c ∈ text, isGap c = false)
    (blank : ∀ c ∈ blanks, Text.isBlank c = true ∧ isSeparator c = false) :
    pieces (text ++ blanks) = [text] := by
  have whole : ∀ c ∈ text ++ blanks, isSeparator c = false := by
    rw [List.forall_mem_append]
    exact ⟨fun c member => isSeparator_of_isGap (solid c member), fun c member => (blank c member).2⟩
  have trimmed : Text.trim (text ++ blanks) = text :=
    Text.trim_append (fun c member => isBlank_of_isGap (solid c member))
      fun c member => (blank c member).1
  rw [pieces, Text.split_whole whole, List.map_singleton, trimmed]
  simp [some]

/-- What stands behind a piece makes no difference to it either: the blanks up to the first separator are
trimmed, and there is nothing behind that. -/
theorem pieces_piece {blanks : List Char} (some : text ≠ []) (solid : ∀ c ∈ text, isGap c = false)
    (blank : ∀ c ∈ blanks, Text.isBlank c = true ∧ isSeparator c = false)
    (apart : ∀ c ∈ behind, isGap c = true) : pieces (text ++ (blanks ++ behind)) = [text] := by
  induction behind generalizing blanks with
  | nil => rw [List.append_nil, pieces_trim some solid blank]
  | cons c behind ih =>
    obtain ⟨here, others⟩ := List.forall_mem_cons.mp apart
    cases separates : isSeparator c with
    | true =>
      rw [← List.append_assoc, pieces_append separates, pieces_trim some solid blank,
        pieces_only_gap others]
      rfl
    | false =>
      -- The blank is one more of those in front of the first separator.
      have isBlank : Text.isBlank c = true := by simpa [isGap, separates] using here
      rw [← List.singleton_append, ← List.append_assoc blanks]
      refine ih ?_ others
      rw [List.forall_mem_append, List.forall_mem_singleton]
      exact ⟨blank, isBlank, separates⟩

theorem pieces_instruction (instruction : Instruction) {before : List Char}
    (leads : ∀ c ∈ before, isGap c = true) (trails : ∀ c ∈ behind, isGap c = true) :
    pieces (before ++ (instruction.text.toList ++ behind)) = [instruction.text.toList] := by
  rw [pieces_gap leads]
  exact @pieces_piece _ behind [] instruction.text_ne_nil instruction.isGap_of_mem_text nofun trails

/-- However a listing is written, taking it apart gives the texts of its instructions. -/
theorem IsWrittenAs.pieces_eq {listing : Listing} (written : listing.IsWrittenAs text) :
    pieces text = listing.map (·.text.toList) := by
  induction written with
  | nil apart => exact pieces_only_gap apart
  | last leads trails => exact pieces_instruction _ leads trails
  | cons leads trails separates _ ih =>
    rw [pieces_append separates, pieces_instruction _ leads trails, ih]
    rfl

theorem IsWrittenAs.ofText_eq {listing : Listing} (written : listing.IsWrittenAs text)
    (fits : ∀ instruction ∈ listing, instruction.Fits) : ofText (String.ofList text) = .ok listing := by
  rw [Listing.ofText_eq, String.toList_ofList, written.pieces_eq]
  refine mapM_eq_ok.mpr (List.forall₂_map_left_iff.mpr (List.forall₂_same.mpr ?_))
  exact fun instruction member => Instruction.read_text (fits instruction member)

/-- Joining the texts of the instructions by a separator is one way to write a listing. -/
theorem isWrittenAs_intercalate (listing : Listing) (separates : isSeparator c = true) :
    listing.IsWrittenAs ([c].intercalate (listing.map (·.text.toList))) := by
  induction listing with
  | nil => exact .nil nofun
  | cons first rest ih =>
    cases rest with
    | nil => simpa using @IsWrittenAs.last first [] [] nofun nofun
    | cons next rest =>
      have written := @IsWrittenAs.cons first _ [] [] _ c nofun nofun separates ih
      simpa [List.intercalate_cons_cons] using written

/-- Instructions survive being shown. An instruction is read from its own text, a listing from any text in
which it is written, and what is read from any text at all has the numbers of arguments that its opcodes ask
for, and is read again from any text in which it is written. -/
theorem ofText_isWrittenAs :
    (∀ instruction : Instruction, instruction.Fits →
      Instruction.ofText instruction.text = .ok instruction) ∧
    (∀ (listing : Listing) (text : List Char), (∀ instruction ∈ listing, instruction.Fits) →
      listing.IsWrittenAs text → ofText (String.ofList text) = .ok listing) ∧
    ∀ (source : String) (listing : Listing), ofText source = .ok listing →
      (∀ instruction ∈ listing, instruction.Fits ∧
        instruction.opcode.prototype.arity.Admits instruction.arguments.length) ∧
      ∀ text, listing.IsWrittenAs text → ofText (String.ofList text) = .ok listing := by
  refine ⟨fun _ fits => Instruction.read_text fits, fun _ _ fits written => written.ofText_eq fits, ?_⟩
  intro source listing read
  have fits : ∀ instruction ∈ listing, instruction.Fits := by
    intro instruction member
    obtain ⟨piece, found⟩ := of_mapM_eq_ok read instruction member
    exact Instruction.fits_of_read found
  refine ⟨fun instruction member => ⟨fits instruction member, Program.arity_admits instruction⟩, ?_⟩
  exact fun text written => written.ofText_eq fits

/-- A listing with the least and the greatest argument and with an instruction that has none. -/
def extremeListing : Listing := [.pushInt (-2147483648), .fsmIf 2147483647 (-1), .readLocal []]

/-- The listing with doubled separators and with blanks. -/
def looseListing : List Char :=
  " ;\n\tpushInt[-2147483648] ;; fsmIf[2147483647,-1]\nreadLocal[]\n".toList

theorem isWrittenAs_looseListing : extremeListing.IsWrittenAs looseListing := by
  have apart {gap : List Char} (all : gap.all isGap = true) : ∀ c ∈ gap, isGap c = true :=
    List.all_eq_true.mp all
  have ends := @IsWrittenAs.last (.readLocal []) [] ['\n'] nofun (apart rfl)
  have between := @IsWrittenAs.cons (.fsmIf 2147483647 (-1)) _ [';', ' '] [] _ '\n'
    (apart rfl) nofun rfl ends
  have whole := @IsWrittenAs.cons (.pushInt (-2147483648)) _ [' ', ';', '\n', '\t'] [' '] _ ';'
    (apart rfl) (apart rfl) rfl between
  exact Eq.subst (motive := extremeListing.IsWrittenAs) (by decide +kernel) whole

theorem ofText_isWrittenAs_extremeListing :
    Instruction.ofText (Instruction.pushInt (-2147483648)).text = .ok (.pushInt (-2147483648)) ∧
      ofText (String.ofList looseListing) = .ok extremeListing ∧
      ∃ listing, ofText " fsmIf [ +3 , 02 ] ; add []" = .ok listing ∧
        ofText (String.ofList ([';'].intercalate (listing.map (·.text.toList)))) = .ok listing := by
  obtain ⟨single, shown, again⟩ := ofText_isWrittenAs
  refine ⟨single _ (by decide), shown _ _ (by decide) isWrittenAs_looseListing, ?_⟩
  have readable : ofText " fsmIf [ +3 , 02 ] ; add []" = .ok [.fsmIf 3 2, .add] := by decide +kernel
  exact ⟨_, readable, (again _ _ readable).2 _ (isWrittenAs_intercalate _ rfl)⟩

end Listing

end TapeCode
