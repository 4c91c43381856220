import TapeCode.Build
import TapeCode.Proofs.Lexing.Places
import TapeCode.Proofs.Monads
import TapeCode.Proofs.Parsing.Rules
import TapeCode.Proofs.Resolution.Sound

/-!
# Names of a program

Every name in a tree was read as one token, so it starts with a letter or an underscore. No program
can therefore name assignment or the slot of the return address. The parser is followed rule by rule:
what holds of every name in front of the cursor holds of every name in the result.
-/
namespace TapeCode

mutual

/-- A property holds of all variables and functions that an expression names. -/
def Expression.Names (property : String → Prop) : Expression → Prop
  | .number _ _ => True
  | .variable name _ => property name
  | .call name arguments _ => property name ∧ Expression.AllName property arguments
  | .binary _ left right _ => Expression.Names property left ∧ Expression.Names property right

def Expression.AllName (property : String → Prop) : List Expression → Prop
  | [] => True
  | first :: rest => Expression.Names property first ∧ Expression.AllName property rest

end

mutual

/-- A property holds of all variables and functions that a statement names or declares. -/
def Statement.Names (property : String → Prop) : Statement → Prop
  | .block statements => Statement.AllName property statements
  | .declare name value _ => property name ∧ value.Names property
  | .evaluate value => value.Names property
  | .ifThen condition consequence =>
    condition.Names property ∧ Statement.Names property consequence
  | .ifThenElse condition consequence alternative =>
    condition.Names property ∧ Statement.Names property consequence ∧
      Statement.Names property alternative
  | .whileDo condition body => condition.Names property ∧ Statement.Names property body
  | .doWhile body condition => Statement.Names property body ∧ condition.Names property
  | .result none _ => True
  | .result (some value) _ => value.Names property
  | .function name _ _ body _ => property name ∧ Statement.Names property body

def Statement.AllName (property : String → Prop) : List Statement → Prop
  | [] => True
  | first :: rest => Statement.Names property first ∧ Statement.AllName property rest

end

/-- The property holds of the text of a token that is a name. -/
def Token.Names (property : String → Prop) (token : Token) : Prop :=
  ∀ text, token = .name text → property text

/-! ## Parsing -/

def Cursor.Names (property : String → Prop) (cursor : Cursor) : Prop :=
  ∀ lexeme ∈ cursor.rest, lexeme.token.Names property

/-- In front of names with the property, the rule gives a result as described and leaves such
names. -/
def Parser.Ensures {α : Type} (property : String → Prop) (rule : Parser α) (holds : α → Prop) :
    Prop :=
  ∀ cursor : Cursor, cursor.Names property → ∀ result rest, rule cursor = .ok result rest →
    holds result ∧ rest.Names property

namespace Parser

variable {α β : Type} {property : String → Prop} {holds : α → Prop} {after : β → Prop}

theorem Ensures.bind {rule : Parser α} {next : α → Parser β} (first : rule.Ensures property holds)
    (second : ∀ value, holds value → (next value).Ensures property after) :
    (rule >>= next).Ensures property after := by
  intro cursor names result rest ran
  obtain ⟨value, between, parsed, onwards⟩ := bind_eq_ok.mp ran
  obtain ⟨has, still⟩ := first cursor names value between parsed
  exact second value has between still result rest onwards

theorem Ensures.pure {value : α} (has : holds value) :
    (pure value : Parser α).Ensures property holds := by
  intro cursor names result rest ran
  obtain ⟨rfl, rfl⟩ := pure_eq_ok.mp ran
  exact ⟨has, names⟩

theorem Ensures.throw {error : ParseError} :
    (throw error : Parser α).Ensures property holds :=
  fun _ _ _ _ ran => absurd ran throw_ne_ok

theorem Ensures.map {rule : Parser α} {change : α → β}
    (first : rule.Ensures property fun value => after (change value)) :
    (change <$> rule).Ensures property after := by
  intro cursor names result rest ran
  obtain ⟨value, parsed, rfl⟩ := map_eq_ok.mp ran
  exact first cursor names value rest parsed

theorem ensures_token : token.Ensures property (Token.Names property) := by
  intro cursor names result rest ran
  obtain ⟨rfl, rfl⟩ := token_eq_ok.mp ran
  refine ⟨fun text found => ?_, names⟩
  unfold Cursor.token at found
  cases started : cursor.rest with
  | nil => simp [started] at found
  | cons lexeme others =>
    exact names lexeme (by simp [started]) text (by simpa [started] using found)

theorem ensures_position : position.Ensures property fun _ => True := by
  intro cursor names result rest ran
  obtain ⟨-, rfl⟩ := position_eq_ok.mp ran
  exact ⟨trivial, names⟩

theorem ensures_advance : advance.Ensures property fun _ => True := by
  intro cursor names result rest ran
  obtain rfl := advance_eq_ok.mp ran
  refine ⟨trivial, fun lexeme member => names lexeme ?_⟩
  unfold Cursor.advance at member
  split at member
  next first others started =>
    rw [started]
    exact List.mem_cons_of_mem _ member
  next => exact member

theorem ensures_fail {cause : ParseCause} : (fail cause : Parser α).Ensures property holds := by
  unfold fail
  apply ensures_position.bind
  intro place _
  exact .throw

theorem ensures_sees {expected : Token} : (sees expected).Ensures property fun _ => True := by
  unfold sees
  apply ensures_token.bind
  intro found _
  exact .pure trivial

theorem ensures_expect {expected : Token} : (expect expected).Ensures property fun _ => True := by
  unfold expect
  apply ensures_token.bind
  intro found _
  split
  · exact ensures_advance
  · exact ensures_fail

theorem ensures_name {cause : ParseCause} :
    (name cause).Ensures property fun found => property found.1 := by
  unfold name
  apply ensures_token.bind
  intro found names
  split
  next text =>
    apply ensures_position.bind
    intro place _
    apply ensures_advance.bind
    intro _ _
    exact .pure (names text rfl)
  next => exact ensures_fail

theorem ensures_type : type.Ensures property fun _ => True := by
  unfold type
  apply ensures_position.bind
  intro place _
  apply ensures_name.bind
  rintro ⟨text, _⟩ _
  dsimp only
  split
  · exact .pure trivial
  · exact .throw

theorem ensures_ite {condition : Prop} [Decidable condition] {first second : Parser α}
    (ensured : first.Ensures property holds) (otherwise : second.Ensures property holds) :
    (if condition then first else second).Ensures property holds := by
  split
  · exact ensured
  · exact otherwise

/-- What the rules for expressions ensure within one budget. -/
structure ExpressionsNamed (property : String → Prop) (budget : Nat) : Prop where
  binary : ∀ least, (binary budget least).Ensures property (Expression.Names property)
  operands : ∀ least left, left.Names property →
    (operands budget least left).Ensures property (Expression.Names property)
  primary : (primary budget).Ensures property (Expression.Names property)
  arguments : (arguments budget).Ensures property (Expression.AllName property)
  parenthesised : (parenthesised budget).Ensures property (Expression.Names property)

theorem binary_ensures {budget least : Nat} (ih : ExpressionsNamed property budget) :
    (binary (budget + 1) least).Ensures property (Expression.Names property) := by
  unfold binary
  apply ih.primary.bind
  intro left named
  exact ih.operands least left named

theorem operands_ensures {budget least : Nat} {left : Expression}
    (ih : ExpressionsNamed property budget) (named : left.Names property) :
    (operands (budget + 1) least left).Ensures property (Expression.Names property) := by
  unfold operands
  apply ensures_token.bind
  intro found _
  split
  next => exact .pure named
  next operator _ =>
    apply ensures_ite (.pure named)
    apply ensures_position.bind
    intro place _
    apply ensures_advance.bind
    intro _ _
    apply (ih.binary _).bind
    intro right also
    exact ih.operands least _ ⟨named, also⟩

theorem primary_ensures {budget : Nat} (ih : ExpressionsNamed property budget) :
    (primary (budget + 1)).Ensures property (Expression.Names property) := by
  rw [primary]
  apply ensures_position.bind
  intro place _
  apply ensures_token.bind
  intro found names
  split
  case h_3 text =>
    have named : property text := names text rfl
    apply ensures_advance.bind
    intro _ _
    apply ensures_sees.bind
    intro called _
    apply ensures_ite
    · apply ensures_advance.bind
      intro _ _
      -- A name is a call or a variable; the rest of a call is the same with and without arguments.
      have behind : ∀ arguments, Expression.AllName property arguments →
          (do
            expect (.mark .closeParen)
            return .call text arguments place : Parser Expression).Ensures property
              (Expression.Names property) := by
        intro arguments all
        apply ensures_expect.bind
        intro _ _
        exact .pure ⟨named, all⟩
      have none : (pure [] : Parser (List Expression)).Ensures property
          (Expression.AllName property) := .pure trivial
      apply ensures_sees.bind
      intro empty _
      apply ensures_ite
      · exact none.bind behind
      · exact ih.arguments.bind behind
    · exact .pure named
  case h_4 => exact ih.parenthesised
  case h_5 => exact ensures_fail
  all_goals
    apply ensures_advance.bind
    intro _ _
    exact .pure trivial

theorem arguments_ensures {budget : Nat} (ih : ExpressionsNamed property budget) :
    (arguments (budget + 1)).Ensures property (Expression.AllName property) := by
  unfold arguments
  apply (ih.binary 0).bind
  intro first named
  apply ensures_sees.bind
  intro more _
  apply ensures_ite
  · apply ensures_advance.bind
    intro _ _
    apply ih.arguments.bind
    intro rest all
    exact .pure ⟨named, all⟩
  · exact .pure ⟨named, trivial⟩

theorem parenthesised_ensures {budget : Nat} (ih : ExpressionsNamed property budget) :
    (parenthesised (budget + 1)).Ensures property (Expression.Names property) := by
  unfold parenthesised
  apply ensures_expect.bind
  intro _ _
  apply (ih.binary 0).bind
  intro inner named
  apply ensures_expect.bind
  intro _ _
  exact .pure named

theorem expressions_named (budget : Nat) : ExpressionsNamed property budget := by
  induction budget with
  | zero =>
    have none {α : Type} {holds : α → Prop} :
        (do fail (.expectedExpression (← token)) : Parser α).Ensures property holds := by
      apply ensures_token.bind
      intro found _
      exact ensures_fail
    exact ⟨fun _ => none, fun _ _ _ => none, none, none, none⟩
  | succ budget ih =>
    exact ⟨fun _ => binary_ensures ih, fun _ _ named => operands_ensures ih named,
      primary_ensures ih, arguments_ensures ih, parenthesised_ensures ih⟩

theorem parameter_ensures : parameter.Ensures property fun _ => True := by
  unfold parameter
  apply ensures_name.bind
  intro found _
  apply ensures_expect.bind
  intro _ _
  apply ensures_type.bind
  intro type _
  exact .pure trivial

theorem parameters_ensures (budget : Nat) :
    (parameters budget).Ensures property fun _ => True := by
  induction budget with
  | zero => exact ensures_fail
  | succ budget ih =>
    unfold parameters
    apply parameter_ensures.bind
    intro first _
    apply ensures_sees.bind
    intro more _
    apply ensures_ite
    · apply ensures_advance.bind
      intro _ _
      apply ih.bind
      intro rest _
      exact .pure trivial
    · exact .pure trivial

/-- What the rules for statements ensure within one budget. -/
structure StatementsNamed (property : String → Prop) (budget : Nat) : Prop where
  statement : (statement budget).Ensures property (Statement.Names property)
  blockRest : (blockRest budget).Ensures property (Statement.AllName property)
  function : ∀ place, (function budget place).Ensures property (Statement.Names property)

theorem function_ensures {budget : Nat} {place : Position} (ih : StatementsNamed property budget) :
    (function (budget + 1) place).Ensures property (Statement.Names property) := by
  unfold function
  apply ensures_name.bind
  intro found named
  apply ensures_expect.bind
  intro _ _
  -- The rest of the rule behind each of its two choices.
  have body (parameters : List Parameter) : ∀ type : ValueType, True →
      (return .function found.1 parameters type (← statement budget) place :
        Parser Statement).Ensures property (Statement.Names property) := by
    intro type _
    apply ih.statement.bind
    intro body also
    exact .pure ⟨named, also⟩
  have behind : ∀ parameters : List Parameter, True →
      (do
        expect (.mark .closeParen)
        let returned ←
          if ← sees (.mark .colon) then
            advance
            type
          else pure .void
        return .function found.1 parameters returned (← statement budget) place :
        Parser Statement).Ensures property (Statement.Names property) := by
    intro parameters _
    apply ensures_expect.bind
    intro _ _
    apply ensures_sees.bind
    intro present _
    apply ensures_ite
    · apply ensures_advance.bind
      intro _ _
      exact ensures_type.bind (body parameters)
    · exact Ensures.bind (.pure trivial) (body parameters)
  apply ensures_sees.bind
  intro empty _
  apply ensures_ite
  · exact Ensures.bind (.pure trivial) behind
  · exact (parameters_ensures budget).bind behind

theorem blockRest_ensures {budget : Nat} (ih : StatementsNamed property budget) :
    (blockRest (budget + 1)).Ensures property (Statement.AllName property) := by
  unfold blockRest
  apply ensures_sees.bind
  intro closes _
  apply ensures_ite
  · apply ensures_advance.bind
    intro _ _
    exact .pure trivial
  · apply ensures_sees.bind
    intro ends _
    apply ensures_ite ensures_fail
    apply ih.statement.bind
    intro first named
    apply ih.blockRest.bind
    intro rest all
    exact .pure ⟨named, all⟩

theorem statement_ensures {budget : Nat} (ih : StatementsNamed property budget) :
    (statement (budget + 1)).Ensures property (Statement.Names property) := by
  have expressions : ExpressionsNamed property budget := expressions_named budget
  unfold statement
  apply ensures_position.bind
  intro place _
  apply ensures_token.bind
  intro found _
  split
  case h_1 =>
    -- a function
    apply ensures_advance.bind
    intro _ _
    exact ih.function place
  case h_2 =>
    -- `return`, with or without a value
    apply ensures_advance.bind
    intro _ _
    have behind : ∀ value, (Statement.result value place).Names property →
        (do
          expect (.mark .semicolon)
          return .result value place : Parser Statement).Ensures property
            (Statement.Names property) := by
      intro value named
      apply ensures_expect.bind
      intro _ _
      exact .pure named
    apply ensures_sees.bind
    intro empty _
    apply ensures_ite
    · exact Ensures.bind (.pure trivial) behind
    · exact Ensures.bind (.map (expressions.binary 0)) behind
  case h_3 =>
    -- the declaration of a variable
    apply ensures_advance.bind
    intro _ _
    apply ensures_name.bind
    intro declared named
    apply ensures_expect.bind
    intro _ _
    apply (expressions.binary 0).bind
    intro value also
    apply ensures_expect.bind
    intro _ _
    exact .pure ⟨named, also⟩
  case h_4 =>
    -- a block
    apply ensures_advance.bind
    intro _ _
    apply ih.blockRest.bind
    intro inner all
    exact .pure all
  case h_5 =>
    -- `while`
    apply ensures_advance.bind
    intro _ _
    apply expressions.parenthesised.bind
    intro condition named
    apply ih.statement.bind
    intro body also
    exact .pure ⟨named, also⟩
  case h_6 =>
    -- `do`
    apply ensures_advance.bind
    intro _ _
    apply ih.statement.bind
    intro body named
    apply ensures_expect.bind
    intro _ _
    apply expressions.parenthesised.bind
    intro condition also
    apply ensures_expect.bind
    intro _ _
    exact .pure ⟨named, also⟩
  case h_7 =>
    -- `if`, with or without `else`
    apply ensures_advance.bind
    intro _ _
    apply expressions.parenthesised.bind
    intro condition named
    apply ih.statement.bind
    intro consequence also
    apply ensures_sees.bind
    intro more _
    apply ensures_ite
    · apply ensures_advance.bind
      intro _ _
      apply ih.statement.bind
      intro alternative other
      exact .pure ⟨named, also, other⟩
    · exact .pure ⟨named, also⟩
  case h_8 => exact ensures_fail
  case h_9 =>
    -- an expression
    apply (expressions.binary 0).bind
    intro value named
    apply ensures_expect.bind
    intro _ _
    exact .pure named

theorem statements_named (budget : Nat) : StatementsNamed property budget := by
  induction budget with
  | zero => exact ⟨ensures_fail, ensures_fail, fun _ => ensures_fail⟩
  | succ budget ih =>
    exact ⟨statement_ensures ih, blockRest_ensures ih, fun _ => function_ensures ih⟩

theorem statements_ensures (budget : Nat) :
    (statements budget).Ensures property (Statement.AllName property) := by
  induction budget with
  | zero => exact .pure trivial
  | succ budget ih =>
    unfold statements
    apply ensures_sees.bind
    intro ends _
    apply ensures_ite (.pure trivial)
    apply (statements_named budget).statement.bind
    intro first named
    apply ih.bind
    intro rest all
    exact .pure ⟨named, all⟩

end Parser

/-- Every name in a tree is the text of one of the tokens. -/
theorem parse_names {property : String → Prop} {lexemes : List Lexeme} {program : List Statement}
    (named : ∀ lexeme ∈ lexemes, lexeme.token.Names property)
    (parsed : parse lexemes = .ok program) : Statement.AllName property program := by
  unfold parse at parsed
  split at parsed
  next result rest ran =>
    obtain rfl : result = program := Except.ok.inj parsed
    have start : (Cursor.start (withoutLayout lexemes)).Names property := by
      intro lexeme member
      exact named lexeme ((List.mem_filter.mp member).1)
    exact (Parser.statements_ensures _ _ start result rest ran).1
  next => cases parsed

/-! ## Reading tokens -/

/-- A text that starts as a name does. -/
def StartsAsName (text : String) : Prop := text.toList.head?.any Lexer.isNameStart = true

instance : DecidablePred StartsAsName :=
  fun text => inferInstanceAs (Decidable (text.toList.head?.any Lexer.isNameStart = true))

theorem startsAsName_of_isPlainName {text : String} (plain : isPlainName text = true) :
    StartsAsName text := by
  unfold isPlainName at plain
  unfold StartsAsName
  split at plain
  · cases plain
  next first rest characters =>
    simp only [Bool.and_eq_true] at plain
    rw [characters]
    exact plain.1.1

theorem Token.IsWrittenAs.names {token : Token} {text : List Char} (written : token.IsWrittenAs text) :
    token.Names StartsAsName := by
  cases written with
  | name plain =>
    rintro _ ⟨⟩
    exact startsAsName_of_isPlainName plain
  | number | character | escaped | keyword | mark | comment | lineEnd => nofun

theorem tokenize_names {source : String} {read : List Lexeme} (ran : tokenize source = .ok read) :
    ∀ lexeme ∈ read, lexeme.token.Names StartsAsName := by
  have accounts : Lexer.Accounts [] source.toList (tokenize source) :=
    Lexer.lexemes_accounts [] source.toList
  rw [ran] at accounts
  obtain ⟨tokens, rfl, splits⟩ := accounts
  intro lexeme member
  rcases List.mem_append.mp member with inside | ended
  · obtain ⟨text, written⟩ := splits.isWrittenAs lexeme inside
    exact written.names
  · obtain rfl := List.mem_singleton.mp ended
    nofun

namespace StartsAsName

variable {text : String}

theorem ne_assignment (starts : StartsAsName text) : text ≠ assignment := by
  rintro rfl
  exact absurd starts (by decide)

theorem ne_returnAddress (starts : StartsAsName text) : text ≠ "<return_address>" := by
  rintro rfl
  exact absurd starts (by decide)

end StartsAsName

/-- Every name in a program starts as a name does. -/
theorem Build.tree_names {source : String} {program : List Statement}
    (read : Build.tree source = .ok program) : Statement.AllName StartsAsName program := by
  obtain ⟨lexemes, tokenized, parsed⟩ := Except.bind_eq_ok.mp read
  have named := tokenize_names (Except.mapError_eq_ok.mp tokenized)
  exact parse_names named (Except.mapError_eq_ok.mp parsed)

end TapeCode
