import TapeCode.Proofs.Lexing.Layout

/-!
# Where tokens stand

A position can be counted from the text before it. Every token stands where its first character does, the
tokens are the whole text but for spaces, and a source that is refused is refused where the first token is
missing.
-/
namespace TapeCode

namespace Position

/-- Positions are ordered as the characters of a text are. -/
instance : LT Position where
  lt one other := one.line < other.line ∨ one.line = other.line ∧ one.column < other.column

instance : LE Position where
  le one other := one < other ∨ one = other

theorem lt_of_lt_of_le {one two three : Position} (strict : one < two) (weak : two ≤ three) :
    one < three := by
  rcases weak with further | rfl
  · change _ ∨ _ at strict further ⊢
    omega
  · exact strict

theorem le_trans {one two three : Position} (first : one ≤ two) (second : two ≤ three) :
    one ≤ three := by
  rcases first with strict | rfl
  · exact .inl (lt_of_lt_of_le strict second)
  · exact second

theorem lt_after (position : Position) (c : Char) : position < position.after c := by
  unfold after
  split
  · exact .inl (Nat.lt_succ_self _)
  · exact .inr ⟨rfl, Nat.lt_succ_self _⟩

theorem le_advance (position : Position) (text : List Char) : position ≤ position.advance text := by
  induction text generalizing position with
  | nil => exact .inr rfl
  | cons c text ih => exact le_trans (.inl (lt_after position c)) (ih _)

theorem lt_advance (position : Position) {text : List Char} (some : text ≠ []) :
    position < position.advance text := by
  cases text with
  | nil => exact absurd rfl some
  | cons c text => exact lt_of_lt_of_le (lt_after position c) (le_advance _ text)

/-- The position behind a text: a line for each newline, a column for each character since the last
one. -/
def behind (text : List Char) : Position :=
  ⟨1 + text.count '\n', 1 + (text.reverse.takeWhile (· ≠ '\n')).length⟩

example : behind "ab\ncde".toList = ⟨2, 4⟩ := by decide

theorem behind_concat (text : List Char) (c : Char) : behind (text ++ [c]) = (behind text).after c := by
  by_cases lineEnd : c = '\n'
  · subst lineEnd
    simp [behind, after, Nat.add_assoc]
  · simp [behind, after, lineEnd, Nat.add_assoc, Nat.add_comm 1]

theorem behind_append (text more : List Char) :
    behind (text ++ more) = (behind text).advance more := by
  induction more generalizing text with
  | nil => simp [advance]
  | cons c more ih => rw [List.append_cons, ih, behind_concat]; rfl

theorem behind_le_append (text more : List Char) : behind text ≤ behind (text ++ more) := by
  rw [behind_append]
  exact le_advance _ more

end Position

namespace Lexer

/-- The text between `before` and `rest` is nothing but spaces and the tokens of the lexemes, each at its
position. -/
inductive Splits (rest : List Char) : (before text : List Char) → List Lexeme → Prop
  | spaces {before blanks : List Char} (blank : blanks.all isSpace = true) : Splits rest before blanks []
  | token {before blanks text others : List Char} {token : Token} {lexemes : List Lexeme}
      (blank : blanks.all isSpace = true) (written : token.IsWrittenAs text)
      (ends : token.endsBefore (others ++ rest) = true)
      (onwards : Splits rest (before ++ blanks ++ text) others lexemes) :
      Splits rest before (blanks ++ text ++ others)
        (⟨token, .behind (before ++ blanks)⟩ :: lexemes)

variable {before text rest : List Char} {read tokens : List Lexeme}

theorem Splits.space {c : Char} (space : isSpace c = true)
    (splits : Splits rest (before ++ [c]) text tokens) : Splits rest before (c :: text) tokens := by
  cases splits with
  | spaces blank => exact .spaces (by simp [space, blank])
  | @token _ blanks text others token lexemes blank written ends onwards =>
    have more : Splits rest before ((c :: blanks) ++ text ++ others)
        (⟨token, .behind (before ++ (c :: blanks))⟩ :: lexemes) :=
      .token (by simp [space, blank]) written ends (by simpa using onwards)
    simpa using more

theorem Splits.isWrittenAs (splits : Splits rest before text tokens) :
    ∀ lexeme ∈ tokens, ∃ text, lexeme.token.IsWrittenAs text := by
  induction splits with
  | spaces _ => nofun
  | token _ written _ _ ih => exact List.forall_mem_cons.mpr ⟨⟨_, written⟩, ih⟩

/-- The end of the file behind a text. -/
def fileEnd (text : List Char) : Lexeme := ⟨.fileEnd, .behind text⟩

/-- The tokens and the end of their text stand one behind the other. -/
theorem Splits.increasing (splits : Splits rest before text tokens) :
    (tokens ++ [fileEnd (before ++ text)]).Pairwise (·.position < ·.position) ∧
      ∀ lexeme ∈ tokens ++ [fileEnd (before ++ text)], .behind before ≤ lexeme.position := by
  induction splits with
  | spaces _ => simpa [fileEnd] using Position.behind_le_append _ _
  | @token before blanks text others token lexemes _ written _ _ ih =>
    obtain ⟨increasing, above⟩ := ih
    have strict : Position.behind (before ++ blanks) < .behind (before ++ blanks ++ text) := by
      rw [Position.behind_append _ text]
      exact Position.lt_advance _ written.ne_nil
    simp only [List.append_assoc] at increasing above strict ⊢
    refine ⟨List.pairwise_cons.mpr ⟨fun lexeme member => ?_, increasing⟩, ?_⟩
    · exact Position.lt_of_lt_of_le strict (above lexeme member)
    · refine List.forall_mem_cons.mpr ⟨Position.behind_le_append _ _, fun lexeme member => ?_⟩
      exact Position.le_trans (Position.behind_le_append _ _) (above lexeme member)

/-- What an answer of the lexer says about the text behind `before`: it is split to its end, or up to a
character where no token stands. -/
def Accounts (before text : List Char) : Except LexError (List Lexeme) → Prop
  | .ok read =>
    ∃ tokens, read = tokens ++ [fileEnd (before ++ text)] ∧ Splits [] before text tokens
  | .error error =>
    ∃ passed first rest tokens, text = passed ++ first :: rest ∧
      Splits (first :: rest) before passed tokens ∧
      isSpace first = false ∧ (∀ found, ¬Finds found first rest) ∧
      .behind (before ++ passed) ≤ error.position ∧ error.position ≤ .behind (before ++ text)

variable {answer : Except LexError (List Lexeme)}

theorem Accounts.space {c : Char} (space : isSpace c = true)
    (accounts : Accounts (before ++ [c]) text answer) : Accounts before (c :: text) answer := by
  cases answer with
  | ok read =>
    obtain ⟨tokens, rfl, splits⟩ := accounts
    exact ⟨tokens, by simp, splits.space space⟩
  | error error =>
    obtain ⟨passed, first, rest, tokens, rfl, splits, missing⟩ := accounts
    exact ⟨c :: passed, first, rest, tokens, rfl, splits.space space, by simpa using missing⟩

theorem Accounts.token {token : Token} {others : List Char} (written : token.IsWrittenAs text)
    (ends : token.endsBefore others = true) (accounts : Accounts (before ++ text) others answer) :
    Accounts before (text ++ others) (answer.map (⟨token, .behind before⟩ :: ·)) := by
  have further {rest onwards : List Char} {tokens : List Lexeme} (split : others = onwards ++ rest)
      (splits : Splits rest (before ++ text) onwards tokens) :
      Splits rest before (text ++ onwards) (⟨token, .behind before⟩ :: tokens) := by
    have more : Splits rest before ([] ++ text ++ onwards)
        (⟨token, .behind (before ++ [])⟩ :: tokens) :=
      .token rfl written (by rwa [← split]) (by simpa using splits)
    simpa using more
  cases answer with
  | ok read =>
    obtain ⟨tokens, rfl, splits⟩ := accounts
    exact ⟨⟨token, .behind before⟩ :: tokens, by simp, further (by simp) splits⟩
  | error error =>
    obtain ⟨passed, first, rest, tokens, rfl, splits, missing⟩ := accounts
    exact ⟨text ++ passed, first, rest, _, by simp, further rfl splits, by simpa using missing⟩

theorem Accounts.missing {first : Char} {rest : List Char} {mismatch : Mismatch}
    (apart : isSpace first = false) (refused : recognise first rest = .error mismatch) :
    Accounts before (first :: rest)
      (.error ⟨(Position.behind before).advance ((first :: rest).take mismatch.behind),
        mismatch.cause⟩) := by
  refine ⟨[], first, rest, [], rfl, .spaces rfl, apart, fun found finds => ?_, ?_, ?_⟩
  · rw [recognise_eq_ok.mpr finds] at refused
    cases refused
  · rw [List.append_nil]
    exact Position.le_advance _ _
  · have within := Position.behind_le_append (before ++ (first :: rest).take mismatch.behind)
      ((first :: rest).drop mismatch.behind)
    rwa [List.append_assoc, List.take_append_drop, Position.behind_append before] at within

theorem lexemes_accounts (before text : List Char) :
    Accounts before text (lexemes (.behind before) text) := by
  match text with
  | [] =>
    rw [lexemes]
    exact ⟨[], by simp [fileEnd], .spaces rfl⟩
  | first :: rest =>
    by_cases space : isSpace first = true
    · rw [lexemes_space space, ← Position.behind_concat]
      exact (lexemes_accounts (before ++ [first]) rest).space space
    · cases recognised : recognise first rest with
      | error mismatch =>
        rw [lexemes, if_neg space, recognised]
        exact .missing (by simpa using space) recognised
      | ok found =>
        obtain ⟨more, behind, rfl, further, written, ends⟩ := recognise_finds recognised
        rw [← List.cons_append, lexemes_token written ends, ← Position.behind_append]
        exact (lexemes_accounts (before ++ first :: more) behind).token written ends
termination_by text.length

end Lexer

/-- Where tokens stand and where a source is refused. All of the source is tokens and spaces up to its end,
or up to the first character that is no space and where no token stands. -/
theorem tokenize_splits (source : String) :
    match tokenize source with
    | .ok lexemes =>
      lexemes.Pairwise (·.position < ·.position) ∧
      ∃ tokens, lexemes = tokens ++ [Lexer.fileEnd source.toList] ∧
        Lexer.Splits [] [] source.toList tokens
    | .error error =>
      ∃ passed first rest tokens, source.toList = passed ++ first :: rest ∧
        Lexer.Splits (first :: rest) [] passed tokens ∧
        Lexer.isSpace first = false ∧ (∀ found, ¬Lexer.Finds found first rest) ∧
        .behind passed ≤ error.position ∧ error.position ≤ .behind source.toList := by
  have accounts : Lexer.Accounts [] source.toList (tokenize source) :=
    Lexer.lexemes_accounts [] source.toList
  cases answer : tokenize source with
  | ok lexemes =>
    rw [answer] at accounts
    obtain ⟨tokens, rfl, splits⟩ := accounts
    exact ⟨splits.increasing.1, tokens, rfl, splits⟩
  | error error =>
    rw [answer] at accounts
    exact accounts

end TapeCode
