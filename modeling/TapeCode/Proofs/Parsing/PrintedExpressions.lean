import TapeCode.Proofs.Parsing.Soundness
import TapeCode.Tree.Printer

/-!
# Expressions are read from their tokens

The printed tokens of an expression are read as that expression again, with other positions. The
operators are printed as a tree and read in a loop, and behind the left operand of an operator the loop
goes on with it as it does behind any expression it has just read. So what is shown of an expression is
that the parser comes from its tokens to the loop behind them. The budget is counted along with it: four
for every token are enough, and the loop takes no more of it than the tokens read.
-/
namespace TapeCode

/-! ## Rules in front of tokens -/

/-- In front of the tokens the rule gives a result as described and leaves the rest. -/
def Parser.Reads {α : Type} (rule : Parser α) (tokens rest : List Token) (holds : α → Prop) : Prop :=
  ∀ cursor : Cursor, cursor.tokens = tokens →
    ∃ value after, rule cursor = .ok value after ∧ after.tokens = rest ∧ holds value

namespace Parser

variable {α β : Type} {rule : Parser α} {next : α → Parser β} {tokens between rest : List Token}
  {first : Token} {holds : α → Prop} {after : β → Prop}

theorem Reads.bind (reads : rule.Reads tokens between holds)
    (onwards : ∀ value, holds value → (next value).Reads between rest after) :
    (rule >>= next).Reads tokens rest after := by
  intro cursor front
  obtain ⟨value, middle, ran, left, has⟩ := reads cursor front
  obtain ⟨result, last, ranNext, behind, also⟩ := onwards value has middle left
  exact ⟨result, last, bind_eq_ok.mpr ⟨value, middle, ran, ranNext⟩, behind, also⟩

theorem reads_pure {value : α} (has : holds value) : Reads (pure value) tokens tokens holds :=
  fun cursor front => ⟨value, cursor, rfl, front, has⟩

theorem Reads.map {change : α → β} (reads : rule.Reads tokens rest fun value => after (change value)) :
    (change <$> rule).Reads tokens rest after := by
  intro cursor front
  obtain ⟨value, last, ran, left, has⟩ := reads cursor front
  exact ⟨change value, last, map_eq_ok.mpr ⟨value, ran, rfl⟩, left, has⟩

theorem reads_position : position.Reads tokens tokens fun _ => True :=
  fun cursor front => ⟨_, cursor, position_eq_ok.mpr ⟨rfl, rfl⟩, front, trivial⟩

theorem reads_token : token.Reads (first :: rest) (first :: rest) (· = first) :=
  fun cursor front => ⟨_, cursor, token_eq_ok.mpr ⟨rfl, rfl⟩, front, (Cursor.token_of_tokens front).1⟩

/-- A rule that begins with a look at its first token goes on as it does for that token. -/
theorem reads_first {rule : Position → Token → Parser α}
    (reads : ∀ place, (rule place first).Reads (first :: rest) between holds) :
    Reads (do rule (← position) (← token)) (first :: rest) between holds := by
  refine reads_position.bind fun place _ => reads_token.bind ?_
  rintro _ rfl
  exact reads place

theorem reads_advance : advance.Reads (first :: rest) rest fun _ => True :=
  fun cursor front =>
    ⟨(), cursor.advance, advance_eq_ok.mpr rfl, (Cursor.token_of_tokens front).2, trivial⟩

theorem reads_expect : (expect first).Reads (first :: rest) rest fun _ => True := by
  intro cursor front
  obtain ⟨seen, behind⟩ := Cursor.token_of_tokens front
  exact ⟨(), cursor.advance, expect_eq_ok.mpr ⟨seen, rfl⟩, behind, trivial⟩

theorem reads_name {cause : ParseCause} {text : String} :
    (name cause).Reads (.name text :: rest) rest fun found => found.1 = text := by
  intro cursor front
  obtain ⟨seen, behind⟩ := Cursor.token_of_tokens front
  exact ⟨(text, cursor.position), cursor.advance, name_eq_ok.mpr ⟨seen, rfl, rfl⟩, behind, rfl⟩

theorem reads_type {type : ValueType} :
    Parser.type.Reads (.name type.name :: rest) rest (· = type) := by
  intro cursor front
  obtain ⟨seen, behind⟩ := Cursor.token_of_tokens front
  exact ⟨type, cursor.advance, type_eq_ok.mpr ⟨seen, rfl⟩, behind, rfl⟩

theorem reads_sees {expected : Token} : (sees expected).Reads (first :: rest) (first :: rest)
    (· = decide (first = expected)) := by
  intro cursor front
  obtain ⟨seen, -⟩ := Cursor.token_of_tokens front
  exact ⟨_, cursor, sees_eq_ok.mpr ⟨rfl, rfl⟩, front, by rw [seen]⟩

/-- The next token decides between two rules. -/
theorem reads_seen {expected : Token} {yes no : Parser α}
    (reads : yes.Reads (expected :: rest) between holds) :
    Reads (do if ← sees expected then yes else no) (expected :: rest) between holds := by
  refine reads_sees.bind fun answer same => ?_
  rw [same, decide_eq_true rfl, if_pos rfl]
  exact reads

theorem reads_unseen {expected : Token} {yes no : Parser α} (differs : first ≠ expected)
    (reads : no.Reads (first :: rest) between holds) :
    Reads (do if ← sees expected then yes else no) (first :: rest) between holds := by
  refine reads_sees.bind fun answer same => ?_
  rw [same, decide_eq_false differs, if_neg Bool.false_ne_true]
  exact reads

end Parser

/-! ## Tokens around expressions -/

theorem BinaryOperator.mark_injective {first second : BinaryOperator} (same : first.mark = second.mark) :
    first = second := by
  cases first <;> cases second <;> first | rfl | cases same

/-- A token behind an expression whose operators are of a level or above: it is no argument list, and
no operator that would bind more tightly. -/
structure Token.Follows (level : Nat) (next : Token) : Prop where
  noCall : next ≠ .mark .openParen
  lower : ∀ operator : BinaryOperator, next = .mark operator.mark → operator.level ≤ level

theorem BinaryOperator.follows {operator : BinaryOperator} {level : Nat} (below : operator.level ≤ level) :
    Token.Follows level (.mark operator.mark) where
  noCall := by cases operator <;> nofun
  lower other same := mark_injective (Token.mark.inj same) ▸ below

/-- The tokens that an expression may begin with. -/
def Token.startsExpression : Token → Bool
  | .number _ | .character _ | .name _ | .mark .openParen => true
  | _ => false

/-- The tokens that an expression ends before where it stands in a statement or in parentheses. -/
def Token.endsExpression : Token → Bool
  | .mark .semicolon | .mark .comma | .mark .closeParen => true
  | _ => false

theorem Token.no_operator {next : Token} (ends : next.endsExpression = true)
    (operator : BinaryOperator) : next ≠ .mark operator.mark := by
  rintro rfl
  cases operator <;> cases ends

/-! ## Levels -/

open TapeCode.Parser (operands primary)

namespace Expression

/-- From the tokens of the expression at a level the parser comes to the operators behind it, with a
budget that is smaller by no more than the number of these tokens. -/
structure IsReadAt (level : Nat) (expression : Expression) : Prop where
  onwards : ∀ {least budget : Nat} {next : Token} {rest final : List Token}
    {holds : Expression → Prop}, least ≤ level → 4 * (expression.tokens level).length ≤ budget →
    next.Follows level →
    (∀ left others, budget ≤ others + (expression.tokens level).length →
      left.unplaced = expression.unplaced →
      (operands others least left).Reads (next :: rest) final holds) →
    (Parser.binary budget least).Reads (expression.tokens level ++ next :: rest) final holds

def IsRead (expression : Expression) : Prop := ∀ level, expression.IsReadAt level

/-- The arguments of a call are read up to its closing parenthesis. -/
def AreRead (expressions : List Expression) : Prop :=
  ∀ {budget : Nat} {rest : List Token}, expressions ≠ [] →
    4 * (argumentTokens expressions).length < budget →
    (Parser.arguments budget).Reads (argumentTokens expressions ++ .mark .closeParen :: rest)
      (.mark .closeParen :: rest) fun found => unplacedAll found = unplacedAll expressions

/-- The loop of operators ends before any token but an operator of its levels. -/
theorem operands_end {budget least : Nat} {left : Expression} {next : Token} {rest : List Token}
    (some : 0 < budget)
    (ends : ∀ operator : BinaryOperator, next = .mark operator.mark → operator.level < least) :
    (operands budget least left).Reads (next :: rest) (next :: rest) (· = left) := by
  obtain ⟨budget, rfl⟩ := Nat.exists_eq_add_of_lt some
  rw [Nat.zero_add, operands]
  refine Parser.reads_token.bind ?_
  rintro _ rfl
  cases operates : BinaryOperator.ofToken? _ with
  | none => exact Parser.reads_pure rfl
  | some operator =>
    have below := ends operator (BinaryOperator.ofToken?_eq_some.mp operates)
    simp only [below, if_true]
    exact Parser.reads_pure rfl

/-- The loop goes on behind an operator of its levels and the right operand. -/
theorem operands_onwards {budget least : Nat} {left : Expression} {operator : BinaryOperator}
    {tokens between final : List Token} {holds right : Expression → Prop}
    (fits : least ≤ operator.level)
    (reads : (Parser.binary budget (operator.level + 1)).Reads tokens between right)
    (onwards : ∀ value place, right value →
      (operands budget least (.binary operator left value place)).Reads between final holds) :
    (operands (budget + 1) least left).Reads (.mark operator.mark :: tokens) final holds := by
  rw [operands]
  refine Parser.reads_token.bind ?_
  rintro _ rfl
  simp only [BinaryOperator.ofToken?_eq_some.mpr rfl, Nat.not_lt.mpr fits, if_false]
  refine Parser.reads_position.bind fun place _ => ?_
  refine Parser.reads_advance.bind fun _ _ => ?_
  exact reads.bind fun value has => onwards value place has

/-- Every expression has a first token at every level, and with it a statement starts that is one. -/
theorem starts (level : Nat) : ∀ expression : Expression, ∃ first rest,
    expression.tokens level = first :: rest ∧ first.startsExpression = true
  | .number _ _ => ⟨_, _, rfl, rfl⟩
  | .variable _ _ => ⟨_, _, rfl, rfl⟩
  | .call _ _ _ => ⟨_, _, rfl, rfl⟩
  | .binary operator left right _ => by
    obtain ⟨first, rest, begins, starting⟩ := starts operator.level left
    simp only [tokens]
    split
    · exact ⟨_, _, rfl, rfl⟩
    · exact ⟨first, _, by rw [begins]; rfl, starting⟩

theorem tokens_length_pos (level : Nat) (expression : Expression) :
    0 < (expression.tokens level).length := by
  obtain ⟨first, rest, begins, -⟩ := starts level expression
  rw [begins]
  exact Nat.succ_pos _

theorem argumentTokens_cons (first second : Expression) (rest : List Expression) :
    argumentTokens (first :: second :: rest) =
      first.tokens 0 ++ .mark .comma :: argumentTokens (second :: rest) := rfl

theorem argumentTokens_starts (first : Expression) (others : List Expression) : ∃ token rest,
    argumentTokens (first :: others) = token :: rest ∧ token.startsExpression = true := by
  obtain ⟨token, rest, begins, starting⟩ := starts 0 first
  cases others with
  | nil => exact ⟨token, rest, begins, starting⟩
  | cons second others => exact ⟨token, _, by rw [argumentTokens_cons, begins]; rfl, starting⟩

/-- An expression is read as a whole where no operator of the levels wanted is behind it. -/
theorem IsReadAt.whole {expression : Expression} {level budget : Nat} (read : expression.IsReadAt level)
    {next : Token} {rest : List Token} (enough : 4 * (expression.tokens level).length ≤ budget)
    (noCall : next ≠ .mark .openParen)
    (ends : ∀ operator : BinaryOperator, next = .mark operator.mark → operator.level < level) :
    (Parser.binary budget level).Reads (expression.tokens level ++ next :: rest) (next :: rest)
      fun found => found.unplaced = expression.unplaced := by
  refine read.onwards (Nat.le_refl _) enough
    ⟨noCall, fun operator same => Nat.le_of_lt (ends operator same)⟩ ?_
  intro left others spent same cursor front
  have some := tokens_length_pos level expression
  have enough : 0 < others := by omega
  obtain ⟨found, last, ran, behind, equal⟩ := operands_end enough ends cursor front
  exact ⟨found, last, ran, behind, equal ▸ same⟩

theorem IsReadAt.upTo {expression : Expression} (read : expression.IsReadAt 0) {budget : Nat}
    {next : Token} {rest : List Token} (enough : 4 * (expression.tokens 0).length ≤ budget)
    (ends : next.endsExpression = true) :
    (Parser.binary budget 0).Reads (expression.tokens 0 ++ next :: rest) (next :: rest)
      fun found => found.unplaced = expression.unplaced := by
  refine read.whole enough (fun opens => ?_) fun operator same => ?_
  · rw [opens] at ends
    cases ends
  · exact absurd same (Token.no_operator ends operator)

theorem IsReadAt.parenthesised {expression : Expression} (read : expression.IsReadAt 0) {budget : Nat}
    {rest : List Token} (enough : 4 * (expression.tokens 0).length < budget) :
    (Parser.parenthesised budget).Reads (Grammar.parenthesised (expression.tokens 0) ++ rest) rest
      fun found => found.unplaced = expression.unplaced := by
  obtain ⟨budget, rfl⟩ := Nat.exists_eq_succ_of_ne_zero (Nat.ne_zero_of_lt enough)
  rw [Parser.parenthesised]
  simp only [Grammar.parenthesised, List.cons_append, List.append_assoc, List.nil_append]
  refine Parser.reads_expect.bind fun _ _ => ?_
  refine (read.upTo (Nat.le_of_lt_succ enough) rfl).bind fun inner same => ?_
  exact Parser.reads_expect.bind fun _ _ => Parser.reads_pure same

/-- An expression that is one primary is followed by the loop at once. -/
theorem isReadAt_of_primary {expression : Expression} {level : Nat}
    (reads : ∀ {budget : Nat} {next : Token} {rest : List Token}, next ≠ .mark .openParen →
      4 * (expression.tokens level).length ≤ budget + 1 →
      (primary budget).Reads (expression.tokens level ++ next :: rest) (next :: rest)
        fun found => found.unplaced = expression.unplaced) : expression.IsReadAt level := by
  constructor
  intro least budget next rest final holds _ enough follows onwards
  have some := tokens_length_pos level expression
  obtain ⟨budget, rfl⟩ := Nat.exists_eq_succ_of_ne_zero (Nat.ne_zero_of_lt (by omega : 0 < budget))
  rw [Parser.binary]
  refine (reads follows.noCall enough).bind fun left same => ?_
  exact onwards left budget (by omega) same

theorem number_isRead (value : UInt8) (place : Position) : IsRead (.number value place) := by
  refine fun level => isReadAt_of_primary fun {budget next rest} _ enough => ?_
  obtain ⟨budget, rfl⟩ := Nat.exists_eq_succ_of_ne_zero (by rintro rfl; simp [tokens] at enough : budget ≠ 0)
  rw [primary]
  refine Parser.reads_first fun _ => ?_
  exact Parser.reads_advance.bind fun _ _ => Parser.reads_pure rfl

theorem variable_isRead (name : String) (place : Position) : IsRead (.variable name place) := by
  refine fun level => isReadAt_of_primary fun {budget next rest} noCall enough => ?_
  obtain ⟨budget, rfl⟩ := Nat.exists_eq_succ_of_ne_zero (by rintro rfl; simp [tokens] at enough : budget ≠ 0)
  rw [primary]
  refine Parser.reads_first fun _ => ?_
  refine Parser.reads_advance.bind fun _ _ => ?_
  exact Parser.reads_unseen noCall (Parser.reads_pure rfl)

theorem call_isRead {expressions : List Expression} (read : AreRead expressions) (name : String)
    (place : Position) : IsRead (.call name expressions place) := by
  refine fun level => isReadAt_of_primary fun {budget next rest} _ enough => ?_
  simp only [tokens, Grammar.parenthesised, List.length_cons, List.length_append, List.length_nil]
    at enough
  obtain ⟨budget, rfl⟩ := Nat.exists_eq_succ_of_ne_zero (by omega : budget ≠ 0)
  rw [primary]
  simp only [tokens, Grammar.parenthesised, List.cons_append, List.append_assoc, List.nil_append]
  refine Parser.reads_first fun place' => ?_
  refine Parser.reads_advance.bind fun _ _ => ?_
  refine Parser.reads_seen ?_
  refine Parser.reads_advance.bind fun _ _ => ?_
  have behind (found : List Expression) (same : unplacedAll found = unplacedAll expressions) :
      (do
        Parser.expect (.mark .closeParen)
        return .call name found place' : Parser Expression).Reads
        (.mark .closeParen :: next :: rest) (next :: rest)
        fun found => found.unplaced = (call name expressions place).unplaced := by
    refine Parser.reads_expect.bind fun _ _ => Parser.reads_pure ?_
    rw [unplaced, unplaced, same]
  cases expressions with
  | nil =>
    refine Parser.reads_seen ?_
    have none : (pure [] : Parser (List Expression)).Reads (.mark .closeParen :: next :: rest)
        (.mark .closeParen :: next :: rest) fun found => unplacedAll found = unplacedAll [] :=
      Parser.reads_pure rfl
    exact none.bind behind
  | cons first others =>
    obtain ⟨token, more, begins, starting⟩ := argumentTokens_starts first others
    -- No expression starts with the parenthesis that ends an empty list.
    have differs : token ≠ .mark .closeParen := by rintro rfl; cases starting
    have reads : (Parser.arguments budget).Reads
        (argumentTokens (first :: others) ++ .mark .closeParen :: next :: rest)
        (.mark .closeParen :: next :: rest)
        fun found => unplacedAll found = unplacedAll (first :: others) :=
      read (List.cons_ne_nil _ _) (by omega)
    rw [begins, List.cons_append] at reads ⊢
    exact Parser.reads_unseen differs (reads.bind behind)

section

variable {operator : BinaryOperator} {left right : Expression} {place : Position} {level : Nat}

/-- An operator between its operands, where the level does not call for parentheses. The right operand is
read at a level above and ends before whatever is behind, and so the loop goes on. -/
theorem bare_isReadAt (leftRead : left.IsRead) (rightRead : right.IsRead)
    (bare : level ≤ operator.level) : IsReadAt level (.binary operator left right place) := by
  constructor
  intro least budget next rest final holds fits enough follows onwards
  simp only [tokens, Nat.not_lt.mpr bare, if_false, List.length_append, List.length_cons,
    List.append_assoc, List.cons_append] at enough onwards ⊢
  -- The operator stands behind the left operand, so the loop reads it before it reads what is behind.
  refine (leftRead _).onwards (Nat.le_trans fits bare) (by omega)
    (BinaryOperator.follows (Nat.le_refl _)) ?_
  intro first others spent same
  obtain ⟨others, rfl⟩ := Nat.exists_eq_succ_of_ne_zero (by omega : others ≠ 0)
  have enoughRight : 4 * (right.tokens (operator.level + 1)).length ≤ others := by omega
  have reads : (Parser.binary others (operator.level + 1)).Reads
      (right.tokens (operator.level + 1) ++ next :: rest) (next :: rest)
      fun found => found.unplaced = right.unplaced :=
    (rightRead (operator.level + 1)).whole enoughRight follows.noCall fun other isNext =>
      Nat.lt_succ_of_le (Nat.le_trans (follows.lower other isNext) bare)
  refine operands_onwards (Nat.le_trans fits bare) reads fun second place' also => ?_
  refine onwards _ _ (by omega) ?_
  rw [unplaced, unplaced, same, also]

theorem binary_isRead (leftRead : left.IsRead) (rightRead : right.IsRead) :
    IsRead (.binary operator left right place) := by
  intro level
  by_cases bare : level ≤ operator.level
  · exact bare_isReadAt leftRead rightRead bare
  · -- In parentheses the levels start again, and what they hold is one primary.
    have printed : (Expression.binary operator left right place).tokens level =
        Grammar.parenthesised ((Expression.binary operator left right place).tokens 0) := by
      rw [tokens, tokens, if_pos (Nat.lt_of_not_le bare), if_neg (Nat.not_lt_zero _)]
    refine isReadAt_of_primary fun {budget next rest} _ enough => ?_
    rw [printed] at enough ⊢
    simp only [Grammar.parenthesised, List.length_cons, List.length_append, List.length_nil] at enough
    obtain ⟨budget, rfl⟩ := Nat.exists_eq_succ_of_ne_zero (by omega : budget ≠ 0)
    rw [primary]
    refine Parser.reads_first fun _ => ?_
    exact (bare_isReadAt leftRead rightRead (Nat.zero_le _)).parenthesised (by omega)

end

/-- The arguments of a call, each up to the comma or the parenthesis behind it. -/
theorem areRead_cons {first : Expression} {others : List Expression} (read : first.IsRead)
    (rest : AreRead others) : AreRead (first :: others) := by
  intro budget behind _ enough
  obtain ⟨budget, rfl⟩ := Nat.exists_eq_succ_of_ne_zero (Nat.ne_zero_of_lt enough)
  rw [Parser.arguments]
  cases others with
  | nil =>
    refine ((read 0).upTo (Nat.le_of_lt_succ enough) rfl).bind fun found same => ?_
    refine Parser.reads_unseen (by simp) (Parser.reads_pure ?_)
    simp only [unplacedAll, same]
  | cons second others =>
    rw [argumentTokens_cons, List.length_append, List.length_cons] at enough
    rw [argumentTokens_cons, List.append_assoc, List.cons_append]
    refine ((read 0).upTo (by omega) rfl).bind fun found same => ?_
    refine Parser.reads_seen ?_
    refine Parser.reads_advance.bind fun _ _ => ?_
    refine (rest (List.cons_ne_nil _ _) (by omega)).bind fun more also => Parser.reads_pure ?_
    rw [unplacedAll, unplacedAll, same, also]

mutual

theorem isRead : ∀ expression : Expression, expression.IsRead
  | .number value place => number_isRead value place
  | .variable name place => variable_isRead name place
  | .call name expressions place => call_isRead (areRead expressions) name place
  | .binary _ left right _ => binary_isRead (isRead left) (isRead right)

theorem areRead : ∀ expressions : List Expression, AreRead expressions
  | [] => fun some => absurd rfl some
  | first :: others => areRead_cons (isRead first) (areRead others)

end

end Expression

end TapeCode
