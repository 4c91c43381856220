import TapeCode.Proofs.Lexing.Recognition
import TapeCode.Proofs.TextParts

/-!
# Tokens in any layout

A list of tokens is spelled in many ways: the spellings of the tokens stand one behind the other, with
blanks, newlines and comments around each. All of these texts are read as the same tokens.
-/
namespace TapeCode

namespace Token

/-- The tokens of the grammar, of the names only those that are read as names. -/
def isSpellable : Token → Bool
  | .number _ | .character _ | .keyword _ | .mark _ => true
  | .name text => isPlainName text
  | .comment _ | .lineEnd | .fileEnd => false

theorem isLayout_of_isSpellable {token : Token} (spellable : token.isSpellable = true) :
    token.isLayout = false := by
  cases token with
  | comment _ | lineEnd => cases spellable
  | _ => rfl

private theorem number_isWrittenAs (value : UInt8) :
    IsWrittenAs (.number value) (toString value.toNat).toList := by
  have digits : (toString value.toNat).toList = Nat.toDigits 10 value.toNat := Nat.toList_repr
  have written : IsWrittenAs
      (.number (UInt8.ofNat (Text.digitsValue (Nat.toDigits 10 value.toNat))))
      (Nat.toDigits 10 value.toNat) := by
    refine .number Nat.toDigits_ne_nil ?_ ?_
    · exact List.all_eq_true.mpr fun c member =>
        Nat.isDigit_of_mem_toDigits (by decide) (by decide) member
    · rw [Text.digitsValue_toDigits]
      exact Nat.le_of_lt_succ value.toNat_lt
  rwa [Text.digitsValue_toDigits, UInt8.ofNat_toNat, ← digits] at written

private theorem character_isWrittenAs (value : UInt8) :
    IsWrittenAs (.character value) ('\'' :: characterSpelling value ++ ['\'']) := by
  have bound := value.toNat_lt
  have valid : value.toNat.isValidChar := .inl (by omega)
  have number : (Char.ofNat value.toNat).toNat = value.toNat := by
    rw [Char.ofNat, dif_pos valid]
    rfl
  have back : UInt8.ofNat (Char.ofNat value.toNat).toNat = value := by
    rw [number, UInt8.ofNat_toNat]
  unfold characterSpelling
  generalize Char.ofNat value.toNat = c at number back
  subst back
  split
  · exact .escaped rfl
  · exact .escaped rfl
  · exact .escaped rfl
  next lineEnd escape quote => exact .character ⟨quote, lineEnd, escape⟩ (by omega)

theorem spelling_isWrittenAs {token : Token} (spellable : token.isSpellable = true) :
    token.IsWrittenAs token.spelling := by
  cases token with
  | number value => exact number_isWrittenAs value
  | character value => exact character_isWrittenAs value
  | keyword word => exact .keyword word
  | mark sign => exact .mark sign
  | name text => exact .name spellable
  | comment _ | lineEnd | fileEnd => cases spellable

theorem endsBefore_blank {token : Token} (spellable : token.isSpellable = true) {c : Char}
    (blank : Lexer.isSpace c = true ∨ c = '\n') (rest : List Char) :
    token.endsBefore (c :: rest) = true := by
  have cases : c = ' ' ∨ c = '\t' ∨ c = '\r' ∨ c = '\n' := by
    simpa [Lexer.isSpace, or_assoc] using blank
  have apart : (!c.isDigit && !Lexer.isNameStart c) = true ∧ (!Lexer.isNamePart c) = true ∧
      c ≠ '=' ∧ c ≠ '/' := by
    rcases cases with rfl | rfl | rfl | rfl <;> decide
  cases token with
  | number _ => exact apart.1
  | keyword _ | name _ => exact apart.2.1
  | mark sign => cases sign <;> simp [endsBefore, Mark.endsBefore, apart]
  | character _ => rfl
  | comment _ | lineEnd | fileEnd => cases spellable

end Token

namespace Lexer

variable {position : Position} {rest : List Char} {others : List Lexeme}

theorem not_isSpace_of_recognised {first : Char} {found : Match}
    (recognised : recognise first rest = .ok found) : isSpace first = false := by
  by_contra space
  rw [Bool.not_eq_false] at space
  have cases : first = ' ' ∨ first = '\t' ∨ first = '\r' := by
    simpa [isSpace, or_assoc] using space
  rcases cases with rfl | rfl | rfl <;> cases recognised

theorem lexemes_space {c : Char} (space : isSpace c = true) :
    lexemes position (c :: rest) = lexemes (position.after c) rest := by
  rw [lexemes, if_pos space]

/-- A token that is written at the beginning of a text and ends there is its first token. -/
theorem lexemes_token {token : Token} {text : List Char} (written : token.IsWrittenAs text)
    (ends : token.endsBefore rest = true) :
    lexemes position (text ++ rest) =
      (lexemes (position.advance text) rest).map (⟨token, position⟩ :: ·) := by
  cases text with
  | nil => exact absurd rfl written.ne_nil
  | cons first more =>
    have recognised : recognise first (more ++ rest) = .ok ⟨token, more.length⟩ :=
      recognise_eq_ok.mpr ⟨more, rest, rfl, rfl, written, ends⟩
    have behind : (position.after first).advance more = position.advance (first :: more) := rfl
    rw [List.cons_append, lexemes, if_neg (by simp [not_isSpace_of_recognised recognised]),
      recognised]
    simp only [List.take_left, List.drop_left, behind]
    cases lexemes (position.advance (first :: more)) rest <;> rfl

theorem lexemes_lineEnd :
    lexemes position ('\n' :: rest) =
      (lexemes (position.after '\n') rest).map (⟨.lineEnd, position⟩ :: ·) :=
  @lexemes_token position rest .lineEnd ['\n'] .lineEnd rfl

/-- Layout is read as nothing but layout tokens, and what stands behind it is read as if it stood
alone. -/
theorem lexemes_layout {layout : List Char} (empty : IsLayout layout)
    (onwards : lexemes (position.advance layout) rest = .ok others) :
    ∃ read, lexemes position (layout ++ rest) = .ok (read ++ others) ∧
      ∀ lexeme ∈ read, lexeme.token.isLayout = true := by
  induction empty generalizing position with
  | none => exact ⟨[], onwards, by simp⟩
  | @blank c layout blank _ ih =>
    obtain ⟨read, ran, all⟩ := @ih (position.after c) onwards
    rcases blank with space | rfl
    · exact ⟨read, by rw [List.cons_append, lexemes_space space, ran], all⟩
    · exact ⟨⟨.lineEnd, position⟩ :: read, by rw [List.cons_append, lexemes_lineEnd, ran]; rfl,
        List.forall_mem_cons.mpr ⟨rfl, all⟩⟩
  | @comment text layout within _ ih =>
    let behind := position.advance ('/' :: '/' :: text)
    have advanced : position.advance ('/' :: '/' :: text ++ '\n' :: layout) =
        (behind.after '\n').advance layout := by
      rw [Position.advance, List.foldl_append]
      rfl
    rw [advanced] at onwards
    obtain ⟨read, ran, all⟩ := ih onwards
    have whole : lexemes position ('/' :: '/' :: text ++ '\n' :: (layout ++ rest)) = .ok
        (⟨.comment (String.ofList (Text.trim text)), position⟩ :: ⟨.lineEnd, behind⟩ ::
          (read ++ others)) := by
      rw [lexemes_token (.comment within) rfl, lexemes_lineEnd, ran]
      rfl
    refine ⟨_ :: ⟨.lineEnd, behind⟩ :: read, by simpa using whole, ?_⟩
    exact List.forall_mem_cons.mpr ⟨rfl, List.forall_mem_cons.mpr ⟨rfl, all⟩⟩

end Lexer

theorem withoutLayout_append {read others : List Lexeme}
    (all : ∀ lexeme ∈ read, lexeme.token.isLayout = true) :
    withoutLayout (read ++ others) = withoutLayout others := by
  have none : withoutLayout read = [] :=
    List.filter_eq_nil_iff.mpr fun lexeme member => by simp [all lexeme member]
  rw [withoutLayout, List.filter_append]
  exact congrArg (· ++ withoutLayout others) none

theorem withoutLayout_cons {lexeme : Lexeme} (kept : lexeme.token.isLayout = false)
    (others : List Lexeme) : withoutLayout (lexeme :: others) = lexeme :: withoutLayout others := by
  simp [withoutLayout, kept]

theorem IsSeparator.isLayout {separator : List Char} (separates : IsSeparator separator) :
    IsLayout separator := by
  cases separator with
  | nil => exact separates.elim
  | cons c rest => exact .blank separates.1 separates.2

/-- A spelled text ends every token that stands before it. -/
private theorem endsBefore_spelled {tokens : List Token} {text : List Char} (spelled : Spelled tokens text)
    {token : Token} (spellable : token.isSpellable = true) : token.endsBefore text = true := by
  have separated (separator : List Char) (separates : IsSeparator separator) (rest : List Char) :
      token.endsBefore (separator ++ rest) = true := by
    cases separator with
    | nil => exact separates.elim
    | cons c separator => exact Token.endsBefore_blank spellable separates.1 _
  cases spelled with
  | none separates => simpa using separated text separates []
  | @more separator others next _ separates _ =>
    rw [List.append_assoc]
    exact separated separator separates _

private theorem lexemes_spelled {tokens : List Token} {text : List Char} (spelled : Spelled tokens text)
    (spellable : tokens.all (·.isSpellable) = true) (position : Position) :
    ∃ read, Lexer.lexemes position text = .ok read ∧
      (withoutLayout read).map (·.token) = tokens ++ [.fileEnd] := by
  induction spelled generalizing position with
  | @none separator separates =>
    have ended : Lexer.lexemes (position.advance separator) [] =
        .ok [⟨.fileEnd, position.advance separator⟩] := by rw [Lexer.lexemes]
    obtain ⟨read, ran, all⟩ := Lexer.lexemes_layout separates.isLayout ended
    rw [List.append_nil] at ran
    exact ⟨_, ran, by rw [withoutLayout_append all]; rfl⟩
  | @more separator text token rest separates spelled ih =>
    simp only [List.all_cons, Bool.and_eq_true] at spellable
    let place := position.advance separator
    obtain ⟨others, onwards, same⟩ := ih spellable.2 (place.advance token.spelling)
    have read : Lexer.lexemes place (token.spelling ++ text) = .ok (⟨token, place⟩ :: others) := by
      rw [Lexer.lexemes_token (Token.spelling_isWrittenAs spellable.1)
        (endsBefore_spelled spelled spellable.1), onwards]
      rfl
    obtain ⟨before, ran, all⟩ := Lexer.lexemes_layout separates.isLayout read
    refine ⟨_, by rw [List.append_assoc, ran], ?_⟩
    rw [withoutLayout_append all, withoutLayout_cons (Token.isLayout_of_isSpellable spellable.1),
      List.map_cons, List.cons_append]
    exact congrArg (token :: ·) same

/-- A text in which tokens are spelled is read as these tokens and the end of the file, whatever layout
stands around them. -/
theorem tokenize_spelled {tokens : List Token} {source : String}
    (spelled : Spelled tokens source.toList) (spellable : tokens.all (·.isSpellable) = true) :
    ∃ lexemes, tokenize source = .ok lexemes ∧
      (withoutLayout lexemes).map (·.token) = tokens ++ [.fileEnd] :=
  lexemes_spelled spelled spellable .start

/-- Tokens that would run into each other or into a comment. -/
def closeTokens : List Token :=
  [.mark .assign, .mark .equal, .mark .slash, .mark .slash, .number 7, .name "iff", .keyword .condition,
    .character 39, .character 10]

def closeText : String := " = ==\t/ /\n7 // 7 = '\n iff\rif '\\'' '\\n'\n"

theorem closeText_spelled : Spelled closeTokens closeText.toList := by
  have blank (c : Char) (blank : Lexer.isSpace c = true ∨ c = '\n') : IsSeparator [c] :=
    ⟨blank, .none⟩
  have comment : IsSeparator (' ' :: ('/' :: '/' :: " 7 = '".toList ++ '\n' :: [' '])) :=
    ⟨.inl rfl, .comment (by decide) (.blank (.inl rfl) .none)⟩
  exact .more (blank ' ' (.inl rfl)) <| .more (blank ' ' (.inl rfl)) <|
    .more (blank '\t' (.inl rfl)) <| .more (blank ' ' (.inl rfl)) <| .more (blank '\n' (.inr rfl)) <|
    .more comment <| .more (blank '\r' (.inl rfl)) <| .more (blank ' ' (.inl rfl)) <|
    .more (blank ' ' (.inl rfl)) <| .none (blank '\n' (.inr rfl))

theorem tokenize_spelled_closeText : Spelled closeTokens closeText.toList ∧
    ∃ lexemes, tokenize closeText = .ok lexemes ∧
      (withoutLayout lexemes).map (·.token) = closeTokens ++ [.fileEnd] :=
  ⟨closeText_spelled, tokenize_spelled closeText_spelled (by decide)⟩

end TapeCode
