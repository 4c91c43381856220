import Mathlib.Data.List.TakeWhile
import TapeCode.Text.Blank
import TapeCode.Text.Column
import TapeCode.Text.Numeral
import TapeCode.Text.Split

/-!
# Texts put together and taken apart

Splitting a text gives back the pieces it was joined from, as long as no piece has a separator in it, and
trimming gives back what blanks were put around, as long as it has no blanks itself. A number is read back
from its digits.
-/
namespace TapeCode.Text

variable {text first rest blanks : List Char} {c : Char}

/-! ## Pieces -/

section

variable {isSeparator : Char → Bool}

theorem split_ne_nil (isSeparator : Char → Bool) (text : List Char) : split isSeparator text ≠ [] := by
  cases text with
  | nil => nofun
  | cons c rest =>
    rw [split]
    split
    · nofun
    · split <;> nofun

theorem split_separator (separates : isSeparator c = true) (rest : List Char) :
    split isSeparator (c :: rest) = [] :: split isSeparator rest := by
  cases pieces : split isSeparator rest with
  | nil => exact absurd pieces (split_ne_nil _ _)
  | cons piece more => simp only [split, pieces, separates, if_true]

theorem split_append (separates : isSeparator c = true) (first rest : List Char) :
    split isSeparator (first ++ c :: rest) = split isSeparator first ++ split isSeparator rest := by
  induction first with
  | nil => exact split_separator separates rest
  | cons d first ih =>
    cases pieces : split isSeparator first with
    | nil => exact absurd pieces (split_ne_nil _ _)
    | cons piece more =>
      rw [pieces, List.cons_append] at ih
      simp only [List.cons_append, split, ih, pieces]
      split <;> rfl

theorem split_whole (whole : ∀ c ∈ text, isSeparator c = false) : split isSeparator text = [text] := by
  induction text with
  | nil => rfl
  | cons c text ih =>
    obtain ⟨other, others⟩ := List.forall_mem_cons.mp whole
    simp [split, ih others, other]

theorem split_intercalate (separates : isSeparator c = true) {pieces : List (List Char)}
    (some : pieces ≠ [])
    (whole : ∀ piece ∈ pieces, ∀ c ∈ piece, isSeparator c = false) :
    split isSeparator ([c].intercalate pieces) = pieces := by
  induction pieces with
  | nil => exact absurd rfl some
  | cons piece pieces ih =>
    obtain ⟨here, others⟩ := List.forall_mem_cons.mp whole
    cases pieces with
    | nil => rw [List.intercalate_singleton, split_whole here]
    | cons next pieces =>
      rw [List.intercalate_cons_cons, List.append_assoc, List.singleton_append, split_append separates,
        split_whole here, ih nofun others]
      rfl

/-- Pieces with a separator behind each, and nothing behind the last one. -/
theorem split_terminated (separates : isSeparator c = true) {pieces : List (List Char)}
    (whole : ∀ piece ∈ pieces, ∀ c ∈ piece, isSeparator c = false) :
    split isSeparator (pieces.flatMap (· ++ [c])) = pieces ++ [[]] := by
  induction pieces with
  | nil => rfl
  | cons piece pieces ih =>
    obtain ⟨here, others⟩ := List.forall_mem_cons.mp whole
    rw [List.flatMap_cons, List.append_assoc, List.singleton_append, split_append separates,
      split_whole here, ih others]
    rfl

end

theorem splitOnce?_append (before : ∀ d ∈ first, d ≠ c) (rest : List Char) :
    splitOnce? c (first ++ c :: rest) = some (first, rest) := by
  induction first with
  | nil => simp [splitOnce?]
  | cons d first ih =>
    obtain ⟨other, others⟩ := List.forall_mem_cons.mp before
    simp [splitOnce?, other, ih others]

/-! ## Blanks -/

theorem trim_skip (blank : isBlank c = true) (text : List Char) : trim (c :: text) = trim text := by
  rw [trim, trimStart, List.dropWhile_cons, if_pos blank]
  rfl

theorem dropWhile_solid (solid : ∀ c ∈ text, isBlank c = false) : text.dropWhile isBlank = text := by
  cases text with
  | nil => rfl
  | cons c text => simp [solid c List.mem_cons_self]

/-- Only if there is nothing else, blanks are removed from the front. -/
theorem trimStart_append (solid : ∀ c ∈ text, isBlank c = false)
    (blank : ∀ c ∈ blanks, isBlank c = true) :
    trimStart (text ++ blanks) = text ∨ trimStart (text ++ blanks) = text ++ blanks := by
  cases text with
  | nil => exact .inl (List.dropWhile_eq_nil_iff.mpr blank)
  | cons c text => exact .inr (by simp [trimStart, solid c List.mem_cons_self])

theorem trimEnd_solid (solid : ∀ c ∈ text, isBlank c = false) : trimEnd text = text := by
  rw [trimEnd, dropWhile_solid fun c member => solid c (List.mem_reverse.mp member),
    List.reverse_reverse]

theorem trimEnd_append (text : List Char) (blank : ∀ c ∈ blanks, isBlank c = true) :
    trimEnd (text ++ blanks) = trimEnd text := by
  rw [trimEnd, List.reverse_append,
    List.dropWhile_append_of_pos fun c member => blank c (List.mem_reverse.mp member), trimEnd]

theorem trim_append (solid : ∀ c ∈ text, isBlank c = false) (blank : ∀ c ∈ blanks, isBlank c = true) :
    trim (text ++ blanks) = text := by
  rcases trimStart_append solid blank with start | start
  · rw [trim, start, trimEnd_solid solid]
  · rw [trim, start, trimEnd_append text blank, trimEnd_solid solid]

theorem trim_solid (solid : ∀ c ∈ text, isBlank c = false) : trim text = text := by
  rw [trim, trimStart, dropWhile_solid solid, trimEnd_solid solid]

/-! ## Columns -/

theorem mem_padLeft {width : Nat} {text : String} {d : Char} (member : d ∈ (padLeft c width text).toList) :
    d = c ∨ d ∈ text.toList := by
  rw [padLeft, String.toList_append, String.toList_ofList, List.mem_append] at member
  exact member.imp_left List.eq_of_mem_replicate

/-- What was put in front of a text is found again, as long as the text has none of it. -/
theorem dropWhile_padLeft {text : String} (solid : ∀ d ∈ text.toList, d ≠ c) (width : Nat) :
    (padLeft c width text).toList.dropWhile (· = c) = text.toList := by
  rw [padLeft, String.toList_append, String.toList_ofList,
    List.dropWhile_append_of_pos fun d member => decide_eq_true (List.eq_of_mem_replicate member)]
  cases chars : text.toList with
  | nil => rfl
  | cons d rest => simp [solid d (chars ▸ List.mem_cons_self)]

theorem padLeft_inj {width : Nat} {first second : String} (solid : ∀ d ∈ first.toList, d ≠ c)
    (solidToo : ∀ d ∈ second.toList, d ≠ c)
    (same : (padLeft c width first).toList = (padLeft c width second).toList) :
    first.toList = second.toList := by
  rw [← dropWhile_padLeft solid width, same, dropWhile_padLeft solidToo]

/-! ## Numbers -/

theorem digitsValue_toDigits (number : Nat) : digitsValue (Nat.toDigits 10 number) = number := by
  have read : Nat.ofDigitChars 10 (Nat.toDigits 10 number) 0 = number :=
    Nat.ofDigitChars_ten_toDigits
  exact read

theorem readDigits?_toDigits (number : Nat) : readDigits? (Nat.toDigits 10 number) = some number := by
  have digits : (Nat.toDigits 10 number).all Char.isDigit = true :=
    List.all_eq_true.mpr fun c member => Nat.isDigit_of_mem_toDigits (by decide) (by decide) member
  rw [readDigits?, if_pos ⟨Nat.toDigits_ne_nil, digits⟩, digitsValue_toDigits]

theorem readInteger?_toDigits (number : Nat) :
    readInteger? (Nat.toDigits 10 number) = some (number : Int) := by
  have read := readDigits?_toDigits number
  cases digits : Nat.toDigits 10 number with
  | nil => exact absurd digits Nat.toDigits_ne_nil
  | cons c more =>
    have digit : c.isDigit = true :=
      Nat.isDigit_of_mem_toDigits (b := 10) (by decide) (by decide) (digits ▸ List.mem_cons_self)
    -- A digit is no sign, so all of the text is digits.
    rw [readInteger?, readNatural?, ← digits, read]
    · rfl
    · rintro _ ⟨⟩
      cases digit
    · rintro _ ⟨⟩
      cases digit

theorem isDigit_of_mem_toString {number : Nat} {c : Char} (member : c ∈ (toString number).toList) :
    c.isDigit = true := by
  rw [Nat.toString_eq_repr, Nat.toList_repr] at member
  exact Nat.isDigit_of_mem_toDigits (by decide) (by decide) member

theorem mem_repr {number : Int} {c : Char} (member : c ∈ number.repr.toList) :
    c = '-' ∨ c.isDigit = true := by
  cases number with
  | ofNat number => exact .inr (isDigit_of_mem_toString member)
  | negSucc number =>
    rw [Int.repr, String.toList_append] at member
    rcases List.mem_append.mp member with sign | member
    · exact .inl (List.mem_singleton.mp sign)
    · exact .inr (isDigit_of_mem_toString member)

theorem readInteger?_repr (number : Int) : readInteger? number.repr.toList = some number := by
  cases number with
  | ofNat number =>
    rw [Int.repr, Nat.toList_repr, readInteger?_toDigits]
    rfl
  | negSucc number =>
    have sign : ("-" ++ Nat.repr (number + 1)).toList = '-' :: Nat.toDigits 10 (number + 1) := by
      rw [String.toList_append, Nat.toList_repr]
      rfl
    rw [Int.repr, Nat.succ_eq_add_one, sign, readInteger?, readDigits?_toDigits]
    rfl

theorem repr_ne_nil (number : Int) : number.repr.toList ≠ [] := by
  intro nothing
  have read := readInteger?_repr number
  rw [nothing] at read
  cases read

end TapeCode.Text
