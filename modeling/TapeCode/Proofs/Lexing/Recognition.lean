import Mathlib.Data.List.TakeWhile
import TapeCode.Token.Spelling

/-!
# Which text is read as which token

What a token may look like is said without the recogniser: a token is written as certain texts, and
where it ends depends on the first character behind it. The recogniser finds a token if and only if the
text begins with one that is written there and ends there.
-/
namespace TapeCode

open Lexer (isNameStart isNamePart isSpace)

/-- Whether a sign ends before this text, with which it could be another sign or a comment. -/
def Mark.endsBefore (sign : Mark) (behind : List Char) : Bool :=
  match sign with
  | .assign => behind.head?.all (· ≠ '=')
  | .slash => behind.head?.all (· ≠ '/')
  | _ => true

namespace Token

/-- The texts that are read as a token. The end of the file is no text. -/
inductive IsWrittenAs : Token → List Char → Prop
  | number {digits : List Char} (some : digits ≠ []) (decimal : digits.all Char.isDigit = true)
      (fits : Text.digitsValue digits ≤ 255) :
      IsWrittenAs (.number (UInt8.ofNat (Text.digitsValue digits))) digits
  | character {c : Char} (plain : c ≠ '\'' ∧ c ≠ '\n' ∧ c ≠ '\\') (fits : c.toNat ≤ 255) :
      IsWrittenAs (.character (UInt8.ofNat c.toNat)) ['\'', c, '\'']
  | escaped {c value : Char} (escape : Lexer.escape? c = some value) :
      IsWrittenAs (.character (UInt8.ofNat value.toNat)) ['\'', '\\', c, '\'']
  | keyword (word : Keyword) : IsWrittenAs (.keyword word) word.text.toList
  | mark (sign : Mark) : IsWrittenAs (.mark sign) sign.text.toList
  | name {text : String} (plain : isPlainName text = true) : IsWrittenAs (.name text) text.toList
  | comment {line : List Char} (within : '\n' ∉ line) :
      IsWrittenAs (.comment (String.ofList (Text.trim line))) ('/' :: '/' :: line)
  | lineEnd : IsWrittenAs .lineEnd ['\n']

theorem IsWrittenAs.ne_nil {token : Token} {text : List Char} (written : token.IsWrittenAs text) :
    text ≠ [] := by
  cases written with
  | number some _ _ => exact some
  | keyword word => cases word <;> decide
  | mark sign => cases sign <;> decide
  | name plain =>
    rintro empty
    simp [isPlainName, empty] at plain
  | character _ _ | escaped _ | comment _ | lineEnd => simp

/-- Whether a token ends before this text, which otherwise would go on with it or spoil it: a letter may
not stand directly behind a number. -/
def endsBefore (token : Token) (behind : List Char) : Bool :=
  match token with
  | .number _ => behind.head?.all fun c => !c.isDigit && !isNameStart c
  | .keyword _ | .name _ => behind.head?.all fun c => !isNamePart c
  | .comment _ => behind.head?.all (· = '\n')
  | .mark sign => sign.endsBefore behind
  | .character _ | .lineEnd | .fileEnd => true

end Token

namespace Lexer

variable {first : Char} {more rest behind : List Char} {found : Match} {token : Token}

/-! ## Characters -/

theorem not_isNameStart_of_isDigit {c : Char} (digit : c.isDigit = true) : isNameStart c = false := by
  obtain ⟨offset, below, rfl⟩ : ∃ offset < 10, c = Char.ofNat (48 + offset) := by
    simp only [Char.isDigit, Bool.and_eq_true, decide_eq_true_eq] at digit
    have low : 48 ≤ c.toNat := UInt32.le_iff_toNat_le.mp digit.1
    have high : c.toNat ≤ 57 := UInt32.le_iff_toNat_le.mp digit.2
    refine ⟨c.toNat - 48, by omega, ?_⟩
    rw [Nat.add_sub_cancel' low, Char.ofNat_toNat]
  revert offset
  decide

theorem not_isDigit_of_isNameStart {c : Char} (starts : isNameStart c = true) : c.isDigit = false := by
  by_contra digit
  rw [Bool.not_eq_false] at digit
  exact absurd starts (by simp [not_isNameStart_of_isDigit digit])

/-- Characters that go on up to a first one that does not. -/
private theorem span_append {p : Char → Bool} (all : more.all p = true)
    (stops : behind.head?.all (fun c => !p c) = true) :
    (more ++ behind).takeWhile p = more ∧ (more ++ behind).dropWhile p = behind := by
  have each : ∀ c ∈ more, p c = true := List.all_eq_true.mp all
  rw [List.takeWhile_append_of_pos each, List.dropWhile_append_of_pos each]
  cases behind with
  | nil => simp
  | cons c behind =>
    have stop : p c = false := by simpa using stops
    simp [stop]

private theorem stops_dropWhile (p : Char → Bool) (text : List Char) :
    (text.dropWhile p).head?.all (fun c => !p c) = true := by
  have none := List.head?_dropWhile_not p text
  cases here : (text.dropWhile p).head? with
  | none => rfl
  | some c => simpa [here] using none

/-! ## What the recogniser finds -/

/-- A token of the text that starts with `first`, and the rest of the text. -/
def Finds (found : Match) (first : Char) (rest : List Char) : Prop :=
  ∃ more behind, rest = more ++ behind ∧ more.length = found.further ∧
    found.token.IsWrittenAs (first :: more) ∧ found.token.endsBefore behind = true

private theorem number_finds (digit : first.isDigit = true) (read : number first rest = .ok found) :
    Finds found first rest := by
  simp only [number] at read
  split at read
  · cases read
  next separate =>
    split at read
    next fits =>
      obtain rfl := Except.ok.inj read
      refine ⟨rest.takeWhile Char.isDigit, rest.dropWhile Char.isDigit,
        List.takeWhile_append_dropWhile.symm, rfl, .number (by simp) ?_ fits, ?_⟩
      · simp [digit, List.all_takeWhile]
      · have stops := stops_dropWhile Char.isDigit rest
        cases here : (rest.dropWhile Char.isDigit).head? with
        | none => simp [Token.endsBefore, here]
        | some c => simp_all [Token.endsBefore]
    · cases read

private theorem keyword_eq_some {text : String} {word : Keyword}
    (known : Keyword.ofText? text = some word) : text = word.text := by
  have same := List.find?_some known
  simpa using (of_decide_eq_true same).symm

private theorem word_finds (starts : isNameStart first = true) : Finds (word first rest) first rest := by
  have stops := stops_dropWhile isNamePart rest
  refine ⟨rest.takeWhile isNamePart, rest.dropWhile isNamePart,
    List.takeWhile_append_dropWhile.symm, rfl, ?_⟩
  simp only [word]
  generalize spelled : String.ofList (first :: rest.takeWhile isNamePart) = text
  have characters : first :: rest.takeWhile isNamePart = text.toList := by
    rw [← spelled, String.toList_ofList]
  rw [characters]
  cases known : Keyword.ofText? text with
  | some word =>
    obtain rfl := keyword_eq_some known
    exact ⟨.keyword word, stops⟩
  | none =>
    refine ⟨.name ?_, stops⟩
    simp [isPlainName, ← characters, starts, known, List.all_takeWhile]

private theorem comment_finds (slash : rest.head? = some '/') : Finds (comment rest) '/' rest := by
  obtain ⟨line, rfl⟩ : ∃ line, rest = '/' :: line := by
    cases rest with
    | nil => cases slash
    | cons c line =>
      obtain rfl : c = '/' := by simpa using slash
      exact ⟨line, rfl⟩
  have text : ('/' :: line).takeWhile (· ≠ '\n') = '/' :: line.takeWhile (· ≠ '\n') := rfl
  have stops := stops_dropWhile (· ≠ '\n') line
  refine ⟨'/' :: line.takeWhile (· ≠ '\n'), line.dropWhile (· ≠ '\n'), ?_, ?_, ?_, ?_⟩
  · rw [List.cons_append, List.takeWhile_append_dropWhile]
  · rw [comment, text]
  · rw [comment, text]
    refine .comment fun member => ?_
    simpa using List.mem_takeWhile_imp member
  · simpa [comment, Token.endsBefore] using stops

private theorem closeCharacter_eq_ok {value : Char} {length : Nat}
    (closed : closeCharacter value length rest = .ok found) :
    ∃ behind, rest = '\'' :: behind ∧ value.toNat ≤ 255 ∧
      found = ⟨.character (UInt8.ofNat value.toNat), length + 1⟩ := by
  unfold closeCharacter at closed
  split at closed
  · cases closed
  next quoted =>
    split at closed
    next fits =>
      cases rest with
      | nil => simp at quoted
      | cons c behind =>
        obtain rfl : c = '\'' := by simpa using quoted
        exact ⟨behind, rfl, fits, (Except.ok.inj closed).symm⟩
    · cases closed

private theorem character_finds (read : character rest = .ok found) : Finds found '\'' rest := by
  unfold character at read
  split at read
  · cases read
  · cases read
  next c more =>
    split at read
    next value escape =>
      obtain ⟨behind, rfl, fits, rfl⟩ := closeCharacter_eq_ok read
      exact ⟨['\\', c, '\''], behind, rfl, rfl, .escaped escape, rfl⟩
    · cases read
  next c more notLast notEscape =>
    split at read
    · cases read
    next plain =>
      obtain ⟨behind, rfl, fits, rfl⟩ := closeCharacter_eq_ok read
      have unescaped : c ≠ '\\' := by
        rintro rfl
        exact notEscape '\'' behind rfl rfl
      rw [not_or] at plain
      exact ⟨[c, '\''], behind, rfl, rfl, .character ⟨plain.1, plain.2, unescaped⟩ fits, rfl⟩

/-- A slash before another one has been taken for a comment. -/
private theorem mark?_finds (lone : ¬(first = '/' ∧ rest.head? = some '/'))
    (read : mark? first rest = some found) : Finds found first rest := by
  unfold mark? at read
  split at read
  case h_1 =>
    split at read
    next doubled =>
      obtain rfl := Option.some.inj read
      cases rest with
      | nil => cases doubled
      | cons c behind =>
        obtain rfl : c = '=' := by simpa using doubled
        exact ⟨['='], behind, rfl, rfl, .mark .equal, rfl⟩
    next single =>
      obtain rfl := Option.some.inj read
      refine ⟨[], rest, rfl, rfl, .mark .assign, ?_⟩
      cases rest <;> simp_all [Token.endsBefore, Mark.endsBefore]
  case h_6 =>
    obtain rfl := Option.some.inj read
    refine ⟨[], rest, rfl, rfl, .mark .slash, ?_⟩
    cases rest <;> simp_all [Token.endsBefore, Mark.endsBefore]
  case h_14 => cases read
  all_goals
    obtain rfl := Option.some.inj read
    exact ⟨[], rest, rfl, rfl, .mark _, rfl⟩

theorem recognise_finds (recognised : recognise first rest = .ok found) : Finds found first rest := by
  unfold recognise at recognised
  split at recognised
  next lineEnd =>
    obtain rfl := Except.ok.inj recognised
    subst lineEnd
    exact ⟨[], rest, rfl, rfl, .lineEnd, rfl⟩
  next =>
    split at recognised
    next slashes =>
      obtain rfl := Except.ok.inj recognised
      obtain ⟨rfl, slash⟩ := slashes
      exact comment_finds slash
    next lone =>
      split at recognised
      next quote =>
        subst quote
        exact character_finds recognised
      next =>
        split at recognised
        next digit => exact number_finds digit recognised
        next =>
          split at recognised
          next starts =>
            obtain rfl := Except.ok.inj recognised
            exact word_finds starts
          next =>
            split at recognised
            next marked =>
              obtain rfl := Except.ok.inj recognised
              exact mark?_finds lone marked
            next => cases recognised

/-! ## What it has to find -/

private theorem recognise_digit (digit : first.isDigit = true) :
    recognise first rest = number first rest := by
  have lineEnd : first ≠ '\n' := by rintro rfl; cases digit
  have slash : first ≠ '/' := by rintro rfl; cases digit
  have quote : first ≠ '\'' := by rintro rfl; cases digit
  simp [recognise, lineEnd, slash, quote, digit]

private theorem recognise_word (starts : isNameStart first = true) :
    recognise first rest = .ok (word first rest) := by
  have lineEnd : first ≠ '\n' := by rintro rfl; revert starts; decide
  have slash : first ≠ '/' := by rintro rfl; revert starts; decide
  have quote : first ≠ '\'' := by rintro rfl; revert starts; decide
  simp [recognise, lineEnd, slash, quote, not_isDigit_of_isNameStart starts, starts]

private theorem number_found (decimal : (first :: more).all Char.isDigit = true)
    (fits : Text.digitsValue (first :: more) ≤ 255)
    (ends : behind.head?.all (fun c => !c.isDigit && !isNameStart c) = true) :
    recognise first (more ++ behind) =
      .ok ⟨.number (UInt8.ofNat (Text.digitsValue (first :: more))), more.length⟩ := by
  simp only [List.all_cons, Bool.and_eq_true] at decimal
  have stops : behind.head?.all (fun c => !c.isDigit) = true := by
    cases here : behind.head? <;> simp_all
  have separate : behind.head?.any isNameStart = false := by
    cases here : behind.head? <;> simp_all
  obtain ⟨taken, dropped⟩ := span_append decimal.2 stops
  simp [recognise_digit decimal.1, number, taken, dropped, separate, fits]

private theorem word_found (starts : isNameStart first = true) (parts : more.all isNamePart = true)
    (ends : behind.head?.all (fun c => !isNamePart c) = true) :
    recognise first (more ++ behind) =
      .ok ⟨(Keyword.ofText? (String.ofList (first :: more))).elim
        (.name (String.ofList (first :: more))) .keyword, more.length⟩ := by
  rw [recognise_word starts, word, (span_append parts ends).1]

private theorem keyword_found (word : Keyword) (text : word.text.toList = first :: more)
    (ends : behind.head?.all (fun c => !isNamePart c) = true) :
    recognise first (more ++ behind) = .ok ⟨.keyword word, more.length⟩ := by
  have known : Keyword.ofText? word.text = some word := by cases word <;> decide
  have letters : word.text.toList.head?.all isNameStart = true ∧
      word.text.toList.tail.all isNamePart = true := by
    cases word <;> decide
  rw [text] at letters
  have spelled : String.ofList (first :: more) = word.text := by rw [← text, String.ofList_toList]
  have starts : isNameStart first = true := by simpa using letters.1
  have parts : more.all isNamePart = true := letters.2
  rw [word_found starts parts ends, spelled, known, Option.elim_some]

private theorem name_found {text : String} (plain : isPlainName text = true)
    (characters : text.toList = first :: more)
    (ends : behind.head?.all (fun c => !isNamePart c) = true) :
    recognise first (more ++ behind) = .ok ⟨.name text, more.length⟩ := by
  simp only [isPlainName, characters, Bool.and_eq_true, Option.isNone_iff_eq_none] at plain
  have spelled : String.ofList (first :: more) = text := by
    rw [← characters, String.ofList_toList]
  rw [word_found plain.1.1 plain.1.2 ends, spelled, plain.2, Option.elim_none]

private theorem comment_found {line : List Char} (within : '\n' ∉ line)
    (ends : behind.head?.all (· = '\n') = true) :
    recognise '/' ('/' :: line ++ behind) =
      .ok ⟨.comment (String.ofList (Text.trim line)), line.length + 1⟩ := by
  have all : ('/' :: line).all (· ≠ '\n') = true := by
    refine List.all_eq_true.mpr fun c member => ?_
    rcases List.mem_cons.mp member with rfl | later
    · rfl
    · exact decide_eq_true fun same => within (same ▸ later)
  have stops : behind.head?.all (fun c => !decide (c ≠ '\n')) = true := by
    cases here : behind.head? <;> simp_all
  have taken := (span_append all stops).1
  have slashes : recognise '/' ('/' :: line ++ behind) = .ok (comment ('/' :: line ++ behind)) := rfl
  rw [slashes, comment, taken]
  rfl

private theorem mark_found (sign : Mark) (text : sign.text.toList = first :: more)
    (ends : (Token.mark sign).endsBefore behind = true) :
    recognise first (more ++ behind) = .ok ⟨.mark sign, more.length⟩ := by
  cases sign
  -- Two of these are another mark.
  case assign =>
    obtain ⟨rfl, rfl⟩ : first = '=' ∧ more = [] := by simpa [Mark.text, eq_comm] using text
    cases behind with
    | nil => rfl
    | cons c behind =>
      have other : c ≠ '=' := by simpa [Token.endsBefore, Mark.endsBefore] using ends
      have single : mark? '=' (c :: behind) = some ⟨.mark .assign, 0⟩ := by simp [mark?, other]
      change recognise '=' (c :: behind) = _
      rw [recognise, if_neg (by decide), if_neg (by simp), if_neg (by decide), if_neg (by decide),
        if_neg (by decide), single]
      rfl
  -- Two of these would begin a comment.
  case slash =>
    obtain ⟨rfl, rfl⟩ : first = '/' ∧ more = [] := by simpa [Mark.text, eq_comm] using text
    cases behind with
    | nil => rfl
    | cons c behind =>
      have other : c ≠ '/' := by simpa [Token.endsBefore, Mark.endsBefore] using ends
      have lone : ¬('/' = '/' ∧ (c :: behind).head? = some '/') := by simpa using other
      change recognise '/' (c :: behind) = _
      rw [recognise, if_neg (by decide), if_neg lone, if_neg (by decide), if_neg (by decide),
        if_neg (by decide)]
      rfl
  case equal =>
    obtain ⟨rfl, rfl⟩ : first = '=' ∧ more = ['='] := by simpa [Mark.text, eq_comm] using text
    rfl
  all_goals
    obtain ⟨rfl, rfl⟩ := List.cons.inj text
    rfl

private theorem escape?_fits {c value : Char} (escape : escape? c = some value) : value.toNat ≤ 255 := by
  unfold escape? at escape
  split at escape <;> cases escape <;> decide

/-- The recogniser finds a token of the text exactly where there is one. -/
theorem recognise_eq_ok : recognise first rest = .ok found ↔ Finds found first rest := by
  refine ⟨recognise_finds, ?_⟩
  obtain ⟨token, further⟩ := found
  rintro ⟨more, behind, rfl, rfl, written, ends⟩
  generalize text : first :: more = characters at written
  cases written with
  | number some decimal fits =>
    subst text
    exact number_found decimal fits ends
  | character plain fits =>
    obtain ⟨rfl, rfl⟩ := List.cons.inj text
    obtain ⟨quote, lineEnd, escape⟩ := plain
    simp [recognise, character, closeCharacter, quote, lineEnd, escape, fits]
  | escaped escape =>
    obtain ⟨rfl, rfl⟩ := List.cons.inj text
    simp [recognise, character, escape, closeCharacter, escape?_fits escape]
  | keyword word => exact keyword_found word text.symm ends
  | mark sign => exact mark_found sign text.symm ends
  | name plain => exact name_found plain text.symm ends
  | comment within =>
    obtain ⟨rfl, rfl⟩ := List.cons.inj text
    exact comment_found within ends
  | lineEnd =>
    obtain ⟨rfl, rfl⟩ := List.cons.inj text
    rfl

end Lexer

end TapeCode
