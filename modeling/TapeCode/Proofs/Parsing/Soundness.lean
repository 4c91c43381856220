import TapeCode.Proofs.Parsing.Rules
import TapeCode.Tree.Grammar

/-!
# What the parser reads is derived

Rule by rule, the tokens passed derive the tree that is given for them. That operators are read in a
loop is no matter of the grammar: the loop goes on with a left operand that may stand at the level of
the next operator, since the right operand before it has taken all operators of higher levels.
-/
namespace TapeCode

open Grammar (Expressed Listed Stated Sequenced)

theorem BinaryOperator.ofToken?_eq_some {token : Token} {operator : BinaryOperator} :
    BinaryOperator.ofToken? token = some operator ↔ token = .mark operator.mark := by
  constructor
  · intro found
    unfold BinaryOperator.ofToken? at found
    split at found <;> cases found <;> rfl
  · rintro rfl
    cases operator <;> rfl

/-- The operator that is next, if there is one, is of a lower level. -/
def Cursor.Stops (least : Nat) (cursor : Cursor) : Prop :=
  ∀ operator : BinaryOperator, cursor.token = .mark operator.mark → operator.level < least

namespace Parser

variable {budget least : Nat} {cursor after : Cursor} {expression : Expression}

/-! ## Expressions -/

/-- What the rules for expressions derive within one budget. -/
structure ExpressionsSound (budget : Nat) : Prop where
  binary : ∀ {least cursor expression after}, binary budget least cursor = .ok expression after →
    after.Stops least ∧
      ∃ tokens, cursor.Passes tokens after ∧ Expressed least tokens expression
  operands : ∀ {least left cursor expression after leftTokens}, Expressed least leftTokens left →
    (∀ operator : BinaryOperator, cursor.token = .mark operator.mark →
      Expressed operator.level leftTokens left) →
    operands budget least left cursor = .ok expression after →
    after.Stops least ∧
      ∃ tokens, cursor.Passes tokens after ∧ Expressed least (leftTokens ++ tokens) expression
  primary : ∀ {cursor expression after}, primary budget cursor = .ok expression after →
    ∃ tokens, cursor.Passes tokens after ∧ ∀ level, Expressed level tokens expression
  arguments : ∀ {cursor expressions after}, arguments budget cursor = .ok expressions after →
    ∃ tokens first rest, cursor.Passes tokens after ∧ expressions = first :: rest ∧
      Listed tokens expressions
  parenthesised : ∀ {cursor expression after}, parenthesised budget cursor = .ok expression after →
    ∃ tokens, cursor.Passes (Grammar.parenthesised tokens) after ∧ Expressed 0 tokens expression

theorem binary_sound (ih : ExpressionsSound budget)
    (ran : binary (budget + 1) least cursor = .ok expression after) :
    after.Stops least ∧
      ∃ tokens, cursor.Passes tokens after ∧ Expressed least tokens expression := by
  simp only [binary, bind_eq_ok] at ran
  obtain ⟨left, between, parsed, onwards⟩ := ran
  obtain ⟨leftTokens, passes, derived⟩ := ih.primary parsed
  obtain ⟨stops, tokens, others, whole⟩ :=
    ih.operands (derived least) (fun operator _ => derived operator.level) onwards
  exact ⟨stops, _, passes.trans others, whole⟩

theorem operands_sound (ih : ExpressionsSound budget) {left : Expression} {leftTokens : List Token}
    (derived : Expressed least leftTokens left)
    (atNext : ∀ operator : BinaryOperator, cursor.token = .mark operator.mark →
      Expressed operator.level leftTokens left)
    (ran : operands (budget + 1) least left cursor = .ok expression after) :
    after.Stops least ∧
      ∃ tokens, cursor.Passes tokens after ∧ Expressed least (leftTokens ++ tokens) expression := by
  simp only [operands, bind_eq_ok, token_eq_ok] at ran
  obtain ⟨found, _, ⟨seen, rfl⟩, ran⟩ := ran
  cases operates : BinaryOperator.ofToken? found with
  | none =>
    simp only [operates, pure_eq_ok] at ran
    obtain ⟨rfl, rfl⟩ := ran
    refine ⟨fun operator next => ?_, [], .refl, by rwa [List.append_nil]⟩
    rw [BinaryOperator.ofToken?_eq_some.mpr (seen.symm.trans next)] at operates
    cases operates
  | some operator =>
    have next : cursor.token = .mark operator.mark :=
      seen.trans (BinaryOperator.ofToken?_eq_some.mp operates)
    simp only [operates] at ran
    split at ran
    -- An operator of a lower level is left to the expression around this one.
    next below =>
      obtain ⟨rfl, rfl⟩ := pure_eq_ok.mp ran
      refine ⟨fun other same => ?_, [], .refl, by rwa [List.append_nil]⟩
      have same := BinaryOperator.ofToken?_eq_some.mpr (seen.symm.trans same)
      rw [operates] at same
      exact Option.some.inj same ▸ below
    next enough =>
      simp only [bind_eq_ok, position_eq_ok, advance_eq_ok] at ran
      obtain ⟨place, _, ⟨-, rfl⟩, _, _, rfl, right, between, parsed, onwards⟩ := ran
      obtain ⟨stops, rightTokens, passes, rightDerived⟩ := ih.binary parsed
      -- The operands so far and the right one are together the left operand of what follows.
      have folded {level : Nat} (fits : level ≤ operator.level) :
          Expressed level (leftTokens ++ .mark operator.mark :: rightTokens)
            (.binary operator left right place) :=
        .binary fits (atNext operator next) rightDerived
      -- The right operand ends before an operator of this level at most.
      obtain ⟨ends, tokens, others, whole⟩ := ih.operands (folded (Nat.le_of_not_lt enough))
        (fun other behind => folded (Nat.le_of_lt_succ (stops other behind))) onwards
      refine ⟨ends, _, (passes.behind next nofun).trans others, ?_⟩
      simpa using whole

theorem primary_sound (ih : ExpressionsSound budget)
    (ran : primary (budget + 1) cursor = .ok expression after) :
    ∃ tokens, cursor.Passes tokens after ∧ ∀ level, Expressed level tokens expression := by
  simp only [primary, bind_eq_ok, position_eq_ok, token_eq_ok] at ran
  obtain ⟨place, _, ⟨-, rfl⟩, found, _, ⟨seen, rfl⟩, ran⟩ := ran
  cases found with
  | number value =>
    simp only [bind_eq_ok, advance_eq_ok, pure_eq_ok] at ran
    obtain ⟨_, _, rfl, rfl, rfl⟩ := ran
    exact ⟨_, Cursor.passes_advance seen nofun, fun level => .number⟩
  | character value =>
    simp only [bind_eq_ok, advance_eq_ok, pure_eq_ok] at ran
    obtain ⟨_, _, rfl, rfl, rfl⟩ := ran
    exact ⟨_, Cursor.passes_advance seen nofun, fun level => .character⟩
  | name text =>
    simp only [bind_eq_ok, advance_eq_ok, sees_eq_ok] at ran
    obtain ⟨_, _, rfl, called, _, ⟨look, rfl⟩, ran⟩ := ran
    cases called with
    | false =>
      obtain ⟨rfl, rfl⟩ := pure_eq_ok.mp ran
      exact ⟨_, Cursor.passes_advance seen nofun, fun level => .variable⟩
    | true =>
      have opens := of_decide_eq_true look
      simp only [if_true, bind_eq_ok, advance_eq_ok, sees_eq_ok, optional_eq_ok, expect_eq_ok,
        pure_eq_ok] at ran
      obtain ⟨_, _, rfl, empty, _, ⟨-, rfl⟩, inner, between, choice, _, _, ⟨closes, rfl⟩, rfl, rfl⟩ :=
        ran
      -- There are arguments, or the list is empty.
      obtain ⟨tokens, passes, listed⟩ : ∃ tokens, cursor.advance.advance.Passes tokens between ∧
          Listed tokens inner := by
        rcases choice with ⟨-, rfl, rfl⟩ | ⟨-, parsed⟩
        · exact ⟨[], .refl, .none⟩
        · obtain ⟨tokens, _, _, passes, -, listed⟩ := ih.arguments parsed
          exact ⟨tokens, passes, listed⟩
      exact ⟨_, ((passes.behind opens nofun).before closes nofun).behind seen nofun,
        fun level => .call listed⟩
  | mark sign =>
    cases sign
    case openParen =>
      obtain ⟨tokens, passes, derived⟩ := ih.parenthesised ran
      exact ⟨_, passes, fun level => .parenthesised derived⟩
    all_goals exact absurd ran fail_ne_ok
  | keyword | comment | lineEnd | fileEnd => exact absurd ran fail_ne_ok

theorem arguments_sound (ih : ExpressionsSound budget) {expressions : List Expression}
    (ran : arguments (budget + 1) cursor = .ok expressions after) :
    ∃ tokens first rest, cursor.Passes tokens after ∧ expressions = first :: rest ∧
      Listed tokens expressions := by
  simp only [arguments, bind_eq_ok, sees_eq_ok] at ran
  obtain ⟨first, between, parsed, more, _, ⟨look, rfl⟩, ran⟩ := ran
  obtain ⟨-, tokens, passes, derived⟩ := ih.binary parsed
  cases more with
  | false =>
    obtain ⟨rfl, rfl⟩ := pure_eq_ok.mp ran
    exact ⟨tokens, first, [], passes, rfl, .one derived⟩
  | true =>
    have comma := of_decide_eq_true look
    simp only [if_true, bind_eq_ok, advance_eq_ok, pure_eq_ok] at ran
    obtain ⟨_, _, rfl, _, _, parsedRest, rfl, rfl⟩ := ran
    obtain ⟨others, second, rest, onwards, rfl, listed⟩ := ih.arguments parsedRest
    exact ⟨_, first, second :: rest, passes.trans (onwards.behind comma nofun), rfl,
      .more derived listed⟩

theorem parenthesised_sound (ih : ExpressionsSound budget)
    (ran : parenthesised (budget + 1) cursor = .ok expression after) :
    ∃ tokens, cursor.Passes (Grammar.parenthesised tokens) after ∧ Expressed 0 tokens expression := by
  simp only [parenthesised, bind_eq_ok, expect_eq_ok, pure_eq_ok] at ran
  obtain ⟨_, _, ⟨opens, rfl⟩, inner, between, parsed, _, _, ⟨closes, rfl⟩, rfl, rfl⟩ := ran
  obtain ⟨-, tokens, passes, derived⟩ := ih.binary parsed
  exact ⟨tokens, (passes.behind opens nofun).before closes nofun, derived⟩

theorem expressions_sound (budget : Nat) : ExpressionsSound budget := by
  induction budget with
  | zero =>
    -- A rule whose budget is used up fails.
    have none {α : Type} {cursor after : Cursor} {result : α}
        (ran : (do fail (.expectedExpression (← token)) : Parser α) cursor = .ok result after) :
        False := by
      obtain ⟨_, _, -, failed⟩ := bind_eq_ok.mp ran
      exact fail_ne_ok failed
    exact ⟨fun ran => (none ran).elim, fun _ _ ran => (none ran).elim, fun ran => (none ran).elim,
      fun ran => (none ran).elim, fun ran => (none ran).elim⟩
  | succ budget ih =>
    exact ⟨binary_sound ih, operands_sound ih, primary_sound ih, arguments_sound ih,
      parenthesised_sound ih⟩

/-! ## Statements -/

theorem parameter_sound {parameter : Parameter} (ran : Parser.parameter cursor = .ok parameter after) :
    cursor.Passes (Grammar.parameterTokens parameter) after := by
  simp only [Parser.parameter, bind_eq_ok, Prod.exists, name_eq_ok, expect_eq_ok, type_eq_ok,
    pure_eq_ok] at ran
  obtain ⟨text, place, _, ⟨named, -, rfl⟩, _, _, ⟨colon, rfl⟩, type, _, ⟨typed, rfl⟩, rfl, rfl⟩ := ran
  exact ((Cursor.passes_advance typed nofun).behind colon nofun).behind named nofun

theorem parameters_sound {parameters : List Parameter}
    (ran : Parser.parameters budget cursor = .ok parameters after) :
    ∃ first rest, parameters = first :: rest ∧
      cursor.Passes (Grammar.parametersTokens parameters) after := by
  induction budget generalizing cursor parameters with
  | zero => exact absurd ran fail_ne_ok
  | succ budget ih =>
    simp only [Parser.parameters, bind_eq_ok, sees_eq_ok] at ran
    obtain ⟨first, between, parsed, more, _, ⟨look, rfl⟩, ran⟩ := ran
    have passes := parameter_sound parsed
    cases more with
    | false =>
      obtain ⟨rfl, rfl⟩ := pure_eq_ok.mp ran
      exact ⟨first, [], rfl, passes⟩
    | true =>
      have comma := of_decide_eq_true look
      simp only [if_true, bind_eq_ok, advance_eq_ok, pure_eq_ok] at ran
      obtain ⟨_, _, rfl, _, _, parsedRest, rfl, rfl⟩ := ran
      obtain ⟨second, rest, rfl, onwards⟩ := ih parsedRest
      exact ⟨first, second :: rest, rfl, passes.trans (onwards.behind comma nofun)⟩

/-- What the rules for statements derive within one budget. -/
structure StatementsSound (budget : Nat) : Prop where
  statement : ∀ {cursor statement after}, Parser.statement budget cursor = .ok statement after →
    ∃ tokens, cursor.Passes tokens after ∧ Stated tokens statement
  blockRest : ∀ {cursor statements after}, blockRest budget cursor = .ok statements after →
    ∃ tokens, cursor.Passes (tokens ++ [.mark .closeBrace]) after ∧ Sequenced tokens statements
  function : ∀ {place cursor statement after}, function budget place cursor = .ok statement after →
    ∃ tokens, cursor.Passes tokens after ∧ Stated (.keyword .function :: tokens) statement

theorem blockRest_sound (ih : StatementsSound budget) {statements : List Statement}
    (ran : blockRest (budget + 1) cursor = .ok statements after) :
    ∃ tokens, cursor.Passes (tokens ++ [.mark .closeBrace]) after ∧ Sequenced tokens statements := by
  simp only [blockRest, bind_eq_ok, sees_eq_ok] at ran
  obtain ⟨closes, _, ⟨look, rfl⟩, ran⟩ := ran
  cases closes with
  | true =>
    have close := of_decide_eq_true look
    simp only [if_true, bind_eq_ok, advance_eq_ok, pure_eq_ok] at ran
    obtain ⟨_, _, rfl, rfl, rfl⟩ := ran
    exact ⟨[], Cursor.passes_advance close nofun, .none⟩
  | false =>
    simp only [Bool.false_eq_true, if_false, bind_eq_ok, sees_eq_ok] at ran
    obtain ⟨ends, _, ⟨-, rfl⟩, ran⟩ := ran
    cases ends with
    | true => exact absurd ran fail_ne_ok
    | false =>
      simp only [Bool.false_eq_true, if_false, bind_eq_ok, pure_eq_ok] at ran
      obtain ⟨first, between, parsed, rest, _, onwards, rfl, rfl⟩ := ran
      obtain ⟨tokens, passes, stated⟩ := ih.statement parsed
      obtain ⟨others, further, sequenced⟩ := ih.blockRest onwards
      refine ⟨tokens ++ others, ?_, .more stated sequenced⟩
      rw [List.append_assoc]
      exact passes.trans further

theorem function_sound (ih : StatementsSound budget) {place : Position} {statement : Statement}
    (ran : function (budget + 1) place cursor = .ok statement after) :
    ∃ tokens, cursor.Passes tokens after ∧ Stated (.keyword .function :: tokens) statement := by
  simp only [function, bind_eq_ok, Prod.exists, name_eq_ok, expect_eq_ok, sees_eq_ok,
    optional_eq_ok] at ran
  obtain ⟨text, _, _, ⟨named, -, rfl⟩, _, _, ⟨opens, rfl⟩, empty, _, ⟨-, rfl⟩, parameters, between,
    choice, _, _, ⟨closes, rfl⟩, typed, _, ⟨look, rfl⟩, ran⟩ := ran
  have listed : cursor.advance.advance.Passes (Grammar.parametersTokens parameters) between := by
    rcases choice with ⟨-, rfl, rfl⟩ | ⟨-, parsed⟩
    · exact .refl
    · obtain ⟨_, _, -, passes⟩ := parameters_sound parsed
      exact passes
  have head := ((listed.behind opens nofun).before closes nofun).behind named nofun
  -- The result type and the body, which come to the same whether the type is there or not.
  obtain ⟨result, type, start, behind, resulting, onwards⟩ : ∃ result type start,
      between.advance.Passes result start ∧ Grammar.ResultNamed result type ∧
      (do return .function text parameters type (← Parser.statement budget) place : Parser Statement)
        start = .ok statement after := by
    cases typed with
    | true =>
      have colon := of_decide_eq_true look
      simp only [if_true] at ran
      obtain ⟨_, _, advanced, ran⟩ := bind_eq_ok.mp ran
      obtain rfl := advance_eq_ok.mp advanced
      obtain ⟨type, _, parsed, ran⟩ := bind_eq_ok.mp ran
      obtain ⟨type, rfl⟩ := type_eq_ok.mp parsed
      exact ⟨_, _, _, (Cursor.passes_advance type nofun).behind colon nofun, .named, ran⟩
    | false =>
      simp only [Bool.false_eq_true, if_false] at ran
      obtain ⟨_, _, void, ran⟩ := bind_eq_ok.mp ran
      obtain ⟨rfl, rfl⟩ := pure_eq_ok.mp void
      exact ⟨_, _, _, .refl, .omitted, ran⟩
  simp only [bind_eq_ok, pure_eq_ok] at onwards
  obtain ⟨body, _, parsed, rfl, rfl⟩ := onwards
  obtain ⟨inner, passes, stated⟩ := ih.statement parsed
  exact ⟨_, (head.trans behind).trans passes, .function resulting stated⟩

theorem statement_sound (ih : StatementsSound budget) {statement : Statement}
    (ran : Parser.statement (budget + 1) cursor = .ok statement after) :
    ∃ tokens, cursor.Passes tokens after ∧ Stated tokens statement := by
  have expressions : ExpressionsSound budget := expressions_sound budget
  simp only [Parser.statement, bind_eq_ok, position_eq_ok, token_eq_ok] at ran
  obtain ⟨place, _, ⟨-, rfl⟩, found, _, ⟨seen, rfl⟩, ran⟩ := ran
  split at ran
  case h_1 =>
    -- a function
    simp only [bind_eq_ok, advance_eq_ok] at ran
    obtain ⟨_, _, rfl, ran⟩ := ran
    obtain ⟨tokens, passes, stated⟩ := ih.function ran
    exact ⟨_, passes.behind seen nofun, stated⟩
  case h_2 =>
    -- `return`, with or without a value
    simp only [bind_eq_ok, advance_eq_ok, sees_eq_ok, optional_eq_ok, expect_eq_ok,
      pure_eq_ok] at ran
    obtain ⟨_, _, rfl, empty, _, ⟨-, rfl⟩, value, between, choice, _, _, ⟨semicolon, rfl⟩, rfl, rfl⟩ :=
      ran
    rcases choice with ⟨-, rfl, rfl⟩ | ⟨-, parsed⟩
    · exact ⟨_, (Cursor.passes_advance semicolon nofun).behind seen nofun, .leave⟩
    · obtain ⟨value, expressed, rfl⟩ := map_eq_ok.mp parsed
      obtain ⟨-, tokens, passes, derived⟩ := expressions.binary expressed
      exact ⟨_, (passes.behind seen nofun).before semicolon nofun, .result derived⟩
  case h_3 =>
    -- the declaration of a variable
    simp only [bind_eq_ok, advance_eq_ok, Prod.exists, name_eq_ok, expect_eq_ok, pure_eq_ok] at ran
    obtain ⟨_, _, rfl, text, place, _, ⟨named, -, rfl⟩, _, _, ⟨assign, rfl⟩, value, between, parsed,
      _, _, ⟨semicolon, rfl⟩, rfl, rfl⟩ := ran
    obtain ⟨-, tokens, passes, derived⟩ := expressions.binary parsed
    refine ⟨_, ?_, .declare derived⟩
    exact (((passes.behind assign nofun).behind named nofun).behind seen nofun).before semicolon nofun
  case h_4 =>
    -- a block
    simp only [bind_eq_ok, advance_eq_ok, pure_eq_ok] at ran
    obtain ⟨_, _, rfl, inner, _, parsed, rfl, rfl⟩ := ran
    obtain ⟨tokens, passes, sequenced⟩ := ih.blockRest parsed
    exact ⟨_, passes.behind seen nofun, .block sequenced⟩
  case h_5 =>
    -- `while`
    simp only [bind_eq_ok, advance_eq_ok, pure_eq_ok] at ran
    obtain ⟨_, _, rfl, condition, between, conditioned, body, _, parsed, rfl, rfl⟩ := ran
    obtain ⟨tokens, first, derived⟩ := expressions.parenthesised conditioned
    obtain ⟨inner, second, stated⟩ := ih.statement parsed
    exact ⟨_, (first.trans second).behind seen nofun, .whileDo derived stated⟩
  case h_6 =>
    -- `do`
    simp only [bind_eq_ok, advance_eq_ok, expect_eq_ok, pure_eq_ok] at ran
    obtain ⟨_, _, rfl, body, between, parsed, _, _, ⟨loops, rfl⟩, condition, behind, conditioned, _, _,
      ⟨semicolon, rfl⟩, rfl, rfl⟩ := ran
    obtain ⟨inner, first, stated⟩ := ih.statement parsed
    obtain ⟨tokens, second, derived⟩ := expressions.parenthesised conditioned
    refine ⟨_, ?_, .doWhile stated derived⟩
    exact ((first.trans (second.behind loops nofun)).behind seen nofun).before semicolon nofun
  case h_7 =>
    -- `if`, with or without `else`
    simp only [bind_eq_ok, advance_eq_ok, sees_eq_ok] at ran
    obtain ⟨_, _, rfl, condition, between, conditioned, consequence, behind, parsed, more, _,
      ⟨look, rfl⟩, ran⟩ := ran
    obtain ⟨tokens, first, derived⟩ := expressions.parenthesised conditioned
    obtain ⟨inner, second, stated⟩ := ih.statement parsed
    cases more with
    | false =>
      obtain ⟨rfl, rfl⟩ := pure_eq_ok.mp ran
      exact ⟨_, (first.trans second).behind seen nofun, .ifThen derived stated⟩
    | true =>
      have otherwise := of_decide_eq_true look
      simp only [if_true, bind_eq_ok, advance_eq_ok, pure_eq_ok] at ran
      obtain ⟨_, _, rfl, alternative, _, parsedOther, rfl, rfl⟩ := ran
      obtain ⟨other, third, also⟩ := ih.statement parsedOther
      refine ⟨_, ?_, .ifThenElse derived stated also⟩
      exact ((first.trans second).trans (third.behind otherwise nofun)).behind seen nofun
  case h_8 => exact absurd ran fail_ne_ok
  case h_9 =>
    -- an expression
    simp only [bind_eq_ok, expect_eq_ok, pure_eq_ok] at ran
    obtain ⟨value, between, parsed, _, _, ⟨semicolon, rfl⟩, rfl, rfl⟩ := ran
    obtain ⟨-, tokens, passes, derived⟩ := expressions.binary parsed
    exact ⟨_, passes.before semicolon nofun, .evaluate derived⟩

theorem statements_sound (budget : Nat) : StatementsSound budget := by
  induction budget with
  | zero =>
    exact ⟨fun ran => absurd ran fail_ne_ok, fun ran => absurd ran fail_ne_ok,
      fun ran => absurd ran fail_ne_ok⟩
  | succ budget ih => exact ⟨statement_sound ih, blockRest_sound ih, function_sound ih⟩

theorem Stated.ne_nil {tokens : List Token} {statement : Statement} (stated : Stated tokens statement) :
    tokens ≠ [] := by
  cases stated <;> simp

/-- All statements are read before the end of the file. A statement takes one token at least, so a budget
as large as the number of tokens is not used up before. -/
theorem program_sound {program : List Statement} (enough : cursor.tokens.length ≤ budget)
    (ran : Parser.statements budget cursor = .ok program after) :
    ∃ tokens, cursor.Passes tokens after ∧ after.token = .fileEnd ∧ Sequenced tokens program := by
  induction budget generalizing cursor program with
  | zero =>
    obtain ⟨rfl, rfl⟩ := pure_eq_ok.mp ran
    have nothing : cursor.tokens = [] := List.length_eq_zero_iff.mp (Nat.le_zero.mp enough)
    exact ⟨[], .refl, Cursor.token_of_nil nothing, .none⟩
  | succ budget ih =>
    simp only [Parser.statements, bind_eq_ok, sees_eq_ok] at ran
    obtain ⟨ends, _, ⟨look, rfl⟩, ran⟩ := ran
    cases ends with
    | true =>
      obtain ⟨rfl, rfl⟩ := pure_eq_ok.mp ran
      exact ⟨[], .refl, of_decide_eq_true look, .none⟩
    | false =>
      simp only [Bool.false_eq_true, if_false, bind_eq_ok, pure_eq_ok] at ran
      obtain ⟨first, between, parsed, rest, _, onwards, rfl, rfl⟩ := ran
      obtain ⟨tokens, passes, stated⟩ := (statements_sound budget).statement parsed
      have shorter : between.tokens.length < cursor.tokens.length := by
        have some := List.length_pos_iff.mpr (Stated.ne_nil stated)
        rw [passes.split, List.length_append]
        omega
      obtain ⟨others, further, ended, sequenced⟩ := ih (by omega) onwards
      exact ⟨_, passes.trans further, ended, .more stated sequenced⟩

end Parser

/-- The tokens up to the end of the file derive the program that is read from them. -/
theorem parse_derives {lexemes : List Lexeme} {program : List Statement}
    (parsed : parse lexemes = .ok program) :
    Sequenced (((withoutLayout lexemes).map (·.token)).takeWhile (· ≠ .fileEnd)) program := by
  let cursor := Cursor.start (withoutLayout lexemes)
  have enough : cursor.tokens.length ≤ 8 * (cursor.rest.length + 1) := by
    rw [Cursor.tokens, List.length_map]
    omega
  unfold parse Parser.budgeted at parsed
  split at parsed
  next found after ran =>
    obtain rfl := Except.ok.inj parsed
    obtain ⟨tokens, passes, ends, sequenced⟩ := Parser.program_sound enough ran
    rw [show (withoutLayout lexemes).map (·.token) = cursor.tokens from rfl,
      passes.takeWhile_tokens ends]
    exact sequenced
  next => cases parsed

end TapeCode
