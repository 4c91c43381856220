import TapeCode.Proofs.Parsing.PrintedExpressions

/-!
# Programs are read from their tokens

The form of a statement shows in its first token, so a printed statement is read back form by form. Only
`else` needs a look at what is behind: a statement that is still open takes the `else` that follows it.
None follows where statements stand one behind the other, and none of the tree's own is taken wrongly
where the branch before it is closed.
-/
namespace TapeCode

open Grammar (Sequenced)

theorem Grammar.length_parenthesised (tokens : List Token) :
    (Grammar.parenthesised tokens).length = tokens.length + 2 := by
  simp [Grammar.parenthesised]

/-- The tokens that a statement may begin with. -/
def Token.startsStatement : Token → Bool
  | .keyword .otherwise => false
  | .keyword _ | .mark .openBrace => true
  | token => token.startsExpression

theorem Token.startsStatement_of_expression {token : Token} (starts : token.startsExpression = true) :
    token.startsStatement = true := by
  cases token with
  | keyword => cases starts
  | mark sign => cases sign <;> first | rfl | cases starts
  | _ => exact starts

/-- The parameter with its position forgotten. -/
def Parameter.unplaced (parameter : Parameter) : Parameter := { parameter with position := .start }

namespace Parser

/-! ## Parameters -/

theorem parameter_reads (parameter : Parameter) (rest : List Token) :
    Parser.parameter.Reads (Grammar.parameterTokens parameter ++ rest) rest
      fun found => found.unplaced = parameter.unplaced := by
  simp only [Grammar.parameterTokens, List.cons_append, List.nil_append]
  rw [Parser.parameter]
  refine reads_name.bind ?_
  rintro ⟨text, place⟩ rfl
  refine reads_expect.bind fun _ _ => ?_
  refine reads_type.bind ?_
  rintro _ rfl
  exact reads_pure rfl

theorem length_parametersTokens (parameters : List Parameter) :
    parameters.length ≤ (Grammar.parametersTokens parameters).length := by
  induction parameters with
  | nil => exact Nat.le_refl _
  | cons first rest ih =>
    cases rest with
    | nil => simp [Grammar.parametersTokens, Grammar.parameterTokens]
    | cons second rest =>
      simp only [Grammar.parametersTokens, List.length_append, List.length_cons] at ih ⊢
      omega

theorem parametersTokens_starts (first : Parameter) (others : List Parameter) :
    ∃ rest, Grammar.parametersTokens (first :: others) = .name first.name :: rest := by
  cases others <;> exact ⟨_, rfl⟩

theorem parameters_reads {parameters : List Parameter} {budget : Nat} {rest : List Token}
    (some : parameters ≠ []) (enough : parameters.length ≤ budget) :
    (Parser.parameters budget).Reads
      (Grammar.parametersTokens parameters ++ .mark .closeParen :: rest) (.mark .closeParen :: rest)
      fun found => found.map (·.unplaced) = parameters.map (·.unplaced) := by
  induction parameters generalizing budget with
  | nil => exact absurd rfl some
  | cons first others ih =>
    obtain ⟨budget, rfl⟩ := Nat.exists_eq_succ_of_ne_zero (Nat.ne_zero_of_lt enough)
    rw [Parser.parameters]
    cases others with
    | nil =>
      refine (parameter_reads first _).bind fun found same => ?_
      refine reads_unseen (by simp) (reads_pure ?_)
      rw [List.map_singleton, List.map_singleton, same]
    | cons second others =>
      rw [Grammar.parametersTokens, List.append_assoc, List.cons_append]
      · refine (parameter_reads first _).bind fun found same => ?_
        refine reads_seen ?_
        refine reads_advance.bind fun _ _ => ?_
        refine (ih (List.cons_ne_nil _ _) (Nat.le_of_succ_le_succ enough)).bind fun more also => ?_
        refine reads_pure ?_
        rw [List.map_cons, List.map_cons, same, also]
      · simp

end Parser

/-! ## Statements -/

namespace Statement

/-- The statement is read from its tokens, unless an `else` behind it is taken for its own. -/
structure IsRead (statement : Statement) : Prop where
  reads : ∀ {budget : Nat} {next : Token} {rest : List Token},
    4 * statement.tokens.length ≤ budget →
    (statement.isOpen = true → next ≠ .keyword .otherwise) →
    (Parser.statement budget).Reads (statement.tokens ++ next :: rest) (next :: rest)
      fun found => found.unplaced = statement.unplaced

theorem starts : ∀ statement : Statement, ∃ first rest,
    statement.tokens = first :: rest ∧ first.startsStatement = true
  | .evaluate expression => by
    obtain ⟨first, rest, begins, starting⟩ := expression.starts 0
    exact ⟨first, _, by rw [tokens, begins]; rfl, Token.startsStatement_of_expression starting⟩
  | .block _ | .declare _ _ _ | .ifThen _ _ | .ifThenElse _ _ _ | .whileDo _ _ | .doWhile _ _
  | .result none _ | .result (some _) _ | .function _ _ _ _ _ => ⟨_, _, rfl, rfl⟩

theorem tokens_length_pos (statement : Statement) : 0 < statement.tokens.length := by
  obtain ⟨first, rest, begins, -⟩ := statement.starts
  rw [begins]
  exact Nat.succ_pos _

/-- A statement that begins as an expression does is one. -/
theorem expression_reads {first : Token} {budget : Nat} {tokens rest : List Token}
    {holds : Statement → Prop} (starts : first.startsExpression = true)
    (reads : (do
      let expression ← Parser.binary budget 0
      Parser.expect (.mark .semicolon)
      return .evaluate expression : Parser Statement).Reads (first :: tokens) rest holds) :
    (Parser.statement (budget + 1)).Reads (first :: tokens) rest holds := by
  rw [Parser.statement]
  refine Parser.reads_first fun _ => ?_
  cases first with
  | number | character | name => exact reads
  | mark sign => cases sign <;> first | exact reads | cases starts
  | keyword | comment | lineEnd | fileEnd => cases starts

theorem evaluate_isRead (expression : Expression) : IsRead (.evaluate expression) := by
  constructor
  intro budget next rest enough _
  rw [tokens, List.length_append, List.length_singleton] at enough
  obtain ⟨budget, rfl⟩ := Nat.exists_eq_succ_of_ne_zero (by omega : budget ≠ 0)
  have whole : (do
      let expression ← Parser.binary budget 0
      Parser.expect (.mark .semicolon)
      return .evaluate expression : Parser Statement).Reads
      (expression.tokens 0 ++ .mark .semicolon :: next :: rest) (next :: rest)
      fun found => found.unplaced = (evaluate expression).unplaced := by
    refine ((expression.isRead 0).upTo (by omega) rfl).bind fun found same => ?_
    refine Parser.reads_expect.bind fun _ _ => Parser.reads_pure ?_
    rw [unplaced, unplaced, same]
  obtain ⟨first, others, begins, starting⟩ := expression.starts 0
  rw [tokens, List.append_assoc, List.singleton_append]
  rw [begins, List.cons_append] at whole ⊢
  exact expression_reads starting whole

theorem declare_isRead (name : String) (value : Expression) (place : Position) :
    IsRead (.declare name value place) := by
  constructor
  intro budget next rest enough _
  simp only [tokens, List.length_append, List.length_cons, List.length_nil] at enough
  obtain ⟨budget, rfl⟩ := Nat.exists_eq_succ_of_ne_zero (by omega : budget ≠ 0)
  simp only [tokens, List.cons_append, List.append_assoc, List.nil_append]
  rw [Parser.statement]
  refine Parser.reads_first fun _ => ?_
  refine Parser.reads_advance.bind fun _ _ => ?_
  refine Parser.reads_name.bind ?_
  rintro ⟨text, place'⟩ rfl
  refine Parser.reads_expect.bind fun _ _ => ?_
  refine ((value.isRead 0).upTo (by omega) rfl).bind fun found same => ?_
  refine Parser.reads_expect.bind fun _ _ => Parser.reads_pure ?_
  rw [unplaced, unplaced, same]

theorem result_isRead (value : Option Expression) (place : Position) : IsRead (.result value place) := by
  constructor
  intro budget next rest enough _
  obtain ⟨budget, rfl⟩ := Nat.exists_eq_succ_of_ne_zero
    (by have := tokens_length_pos (.result value place); omega : budget ≠ 0)
  have behind (place' : Position) (found : Option Expression)
      (same : found.map (·.unplaced) = value.map (·.unplaced)) :
      (do
        Parser.expect (.mark .semicolon)
        return .result found place' : Parser Statement).Reads
        (.mark .semicolon :: next :: rest) (next :: rest)
        fun found => found.unplaced = (result value place).unplaced := by
    refine Parser.reads_expect.bind fun _ _ => Parser.reads_pure ?_
    rw [unplaced, unplaced, same]
  rw [Parser.statement]
  cases value with
  | none =>
    simp only [tokens, List.cons_append, List.nil_append]
    refine Parser.reads_first fun place' => ?_
    refine Parser.reads_advance.bind fun _ _ => ?_
    refine Parser.reads_seen ?_
    have nothing : (pure none : Parser (Option Expression)).Reads (.mark .semicolon :: next :: rest)
        (.mark .semicolon :: next :: rest)
        fun found => found.map (·.unplaced) = (none : Option Expression).map (·.unplaced) :=
      Parser.reads_pure rfl
    exact nothing.bind (behind place')
  | some value =>
    simp only [tokens, List.length_append, List.length_cons, List.length_nil] at enough
    simp only [tokens, List.cons_append, List.append_assoc, List.nil_append]
    refine Parser.reads_first fun place' => ?_
    refine Parser.reads_advance.bind fun _ _ => ?_
    obtain ⟨first, others, begins, starting⟩ := value.starts 0
    -- No expression starts with a semicolon, so the value is not taken to be missing.
    have differs : first ≠ .mark .semicolon := by rintro rfl; cases starting
    have reads : (some <$> Parser.binary budget 0).Reads
        (value.tokens 0 ++ .mark .semicolon :: next :: rest) (.mark .semicolon :: next :: rest)
        fun found => found.map (·.unplaced) = (some value).map (·.unplaced) :=
      Parser.Reads.map fun cursor front => by
        have short : 4 * (value.tokens 0).length ≤ budget := by omega
        obtain ⟨found, after, ran, left, same⟩ := (value.isRead 0).upTo short rfl cursor front
        exact ⟨found, after, ran, left, congrArg some same⟩
    rw [begins, List.cons_append] at reads ⊢
    exact Parser.reads_unseen differs (reads.bind (behind place'))

/-- What is behind a printed list of statements in a block or a program begins with no `else`. -/
theorem tokensOfAll_starts (statements : List Statement) {closing : Token} (rest : List Token)
    (closes : closing ≠ .keyword .otherwise) : ∃ next more,
    tokensOfAll statements ++ closing :: rest = next :: more ∧ next ≠ .keyword .otherwise := by
  cases statements with
  | nil => exact ⟨closing, rest, rfl, closes⟩
  | cons first others =>
    obtain ⟨token, more, begins, starting⟩ := first.starts
    refine ⟨token, _, by rw [tokensOfAll, begins]; rfl, ?_⟩
    rintro rfl
    cases starting

/-- A statement and what follows it, up to a token that is no `else`. -/
theorem sequence_reads {first : Statement} {others : List Statement} (read : first.IsRead)
    {budget : Nat} {more : Parser (List Statement)} {closing : Token} {rest final : List Token}
    (enough : 4 * first.tokens.length ≤ budget) (closes : closing ≠ .keyword .otherwise)
    (onwards : more.Reads (tokensOfAll others ++ closing :: rest) final
      fun found => unplacedAll found = unplacedAll others) :
    (do
      let found ← Parser.statement budget
      return found :: (← more) : Parser (List Statement)).Reads
      (tokensOfAll (first :: others) ++ closing :: rest) final
      fun found => unplacedAll found = unplacedAll (first :: others) := by
  obtain ⟨next, tail, behind, noElse⟩ := tokensOfAll_starts others rest closes
  rw [behind] at onwards
  rw [tokensOfAll, List.append_assoc, behind]
  refine (read.reads enough fun _ => noElse).bind fun found same => ?_
  refine onwards.bind fun rest also => Parser.reads_pure ?_
  rw [unplacedAll, unplacedAll, same, also]

theorem blockRest_reads {statements : List Statement} (read : ∀ statement ∈ statements, statement.IsRead)
    {budget : Nat} {rest : List Token} (enough : 4 * (tokensOfAll statements).length < budget) :
    (Parser.blockRest budget).Reads (tokensOfAll statements ++ .mark .closeBrace :: rest) rest
      fun found => unplacedAll found = unplacedAll statements := by
  induction statements generalizing budget with
  | nil =>
    obtain ⟨budget, rfl⟩ := Nat.exists_eq_succ_of_ne_zero (Nat.ne_zero_of_lt enough)
    rw [Parser.blockRest]
    refine Parser.reads_seen ?_
    exact Parser.reads_advance.bind fun _ _ => Parser.reads_pure rfl
  | cons first others ih =>
    obtain ⟨budget, rfl⟩ := Nat.exists_eq_succ_of_ne_zero (Nat.ne_zero_of_lt enough)
    obtain ⟨here, more⟩ := List.forall_mem_cons.mp read
    have some := first.tokens_length_pos
    rw [tokensOfAll, List.length_append] at enough
    have onwards : (Parser.blockRest budget).Reads
        (tokensOfAll others ++ .mark .closeBrace :: rest) rest
        fun found => unplacedAll found = unplacedAll others := ih more (by omega)
    have closes : Token.mark .closeBrace ≠ .keyword .otherwise := by simp
    have reads := sequence_reads here (by omega : _ ≤ budget) closes onwards
    obtain ⟨token, tail, begins, starting⟩ := first.starts
    rw [Parser.blockRest]
    rw [tokensOfAll, begins, List.cons_append, List.cons_append] at reads ⊢
    refine Parser.reads_unseen (by rintro rfl; cases starting) ?_
    exact Parser.reads_unseen (by rintro rfl; cases starting) reads

theorem block_isRead {statements : List Statement} (read : ∀ statement ∈ statements, statement.IsRead) :
    IsRead (.block statements) := by
  constructor
  intro budget next rest enough _
  simp only [tokens, List.length_append, List.length_cons, List.length_nil] at enough
  obtain ⟨budget, rfl⟩ := Nat.exists_eq_succ_of_ne_zero (by omega : budget ≠ 0)
  simp only [tokens, List.cons_append, List.append_assoc, List.nil_append]
  rw [Parser.statement]
  refine Parser.reads_first fun _ => ?_
  refine Parser.reads_advance.bind fun _ _ => ?_
  refine (blockRest_reads read (by omega)).bind fun found same => Parser.reads_pure ?_
  rw [unplaced, unplaced, same]

theorem ifThen_isRead (condition : Expression) {consequence : Statement} (read : consequence.IsRead) :
    IsRead (.ifThen condition consequence) := by
  constructor
  intro budget next rest enough follows
  simp only [tokens, List.length_append, List.length_cons, Grammar.length_parenthesised] at enough
  obtain ⟨budget, rfl⟩ := Nat.exists_eq_succ_of_ne_zero (by omega : budget ≠ 0)
  simp only [tokens, List.cons_append, List.append_assoc]
  have noElse : next ≠ .keyword .otherwise := follows rfl
  rw [Parser.statement]
  refine Parser.reads_first fun _ => ?_
  refine Parser.reads_advance.bind fun _ _ => ?_
  refine ((condition.isRead 0).parenthesised (by omega)).bind fun foundCondition same => ?_
  refine (read.reads (by omega) fun _ => noElse).bind fun found also => ?_
  refine Parser.reads_unseen noElse (Parser.reads_pure ?_)
  rw [unplaced, unplaced, same, also]

theorem ifThenElse_isRead (condition : Expression) {consequence alternative : Statement}
    (read : consequence.IsRead) (closed : consequence.isOpen = false) (other : alternative.IsRead) :
    IsRead (.ifThenElse condition consequence alternative) := by
  constructor
  intro budget next rest enough follows
  simp only [tokens, List.length_append, List.length_cons, Grammar.length_parenthesised] at enough
  obtain ⟨budget, rfl⟩ := Nat.exists_eq_succ_of_ne_zero (by omega : budget ≠ 0)
  simp only [tokens, List.cons_append, List.append_assoc]
  rw [Parser.statement]
  refine Parser.reads_first fun _ => ?_
  refine Parser.reads_advance.bind fun _ _ => ?_
  refine ((condition.isRead 0).parenthesised (by omega)).bind fun foundCondition same => ?_
  -- The branch before is closed, so the `else` behind it is left for this statement.
  have notTaken : consequence.isOpen = true → Token.keyword .otherwise ≠ .keyword .otherwise := by
    simp [closed]
  refine (read.reads (by omega) notTaken).bind fun found also => ?_
  refine Parser.reads_seen ?_
  refine Parser.reads_advance.bind fun _ _ => ?_
  refine (other.reads (by omega) follows).bind fun foundOther too => Parser.reads_pure ?_
  rw [unplaced, unplaced, same, also, too]

theorem whileDo_isRead (condition : Expression) {body : Statement} (read : body.IsRead) :
    IsRead (.whileDo condition body) := by
  constructor
  intro budget next rest enough follows
  simp only [tokens, List.length_append, List.length_cons, Grammar.length_parenthesised] at enough
  obtain ⟨budget, rfl⟩ := Nat.exists_eq_succ_of_ne_zero (by omega : budget ≠ 0)
  simp only [tokens, List.cons_append, List.append_assoc]
  rw [Parser.statement]
  refine Parser.reads_first fun _ => ?_
  refine Parser.reads_advance.bind fun _ _ => ?_
  refine ((condition.isRead 0).parenthesised (by omega)).bind fun foundCondition same => ?_
  refine (read.reads (by omega) follows).bind fun found also => Parser.reads_pure ?_
  rw [unplaced, unplaced, same, also]

theorem doWhile_isRead {body : Statement} (read : body.IsRead) (condition : Expression) :
    IsRead (.doWhile body condition) := by
  constructor
  intro budget next rest enough _
  simp only [tokens, List.length_append, List.length_cons, List.length_nil,
    Grammar.length_parenthesised] at enough
  obtain ⟨budget, rfl⟩ := Nat.exists_eq_succ_of_ne_zero (by omega : budget ≠ 0)
  simp only [tokens, List.cons_append, List.append_assoc, List.nil_append]
  rw [Parser.statement]
  refine Parser.reads_first fun _ => ?_
  refine Parser.reads_advance.bind fun _ _ => ?_
  have loops : Token.keyword .whileLoop ≠ .keyword .otherwise := by simp
  refine (read.reads (by omega) fun _ => loops).bind fun found same => ?_
  refine Parser.reads_expect.bind fun _ _ => ?_
  refine ((condition.isRead 0).parenthesised (by omega)).bind fun foundCondition also => ?_
  refine Parser.reads_expect.bind fun _ _ => Parser.reads_pure ?_
  rw [unplaced, unplaced, same, also]

theorem function_isRead (name : String) (parameters : List Parameter) (type : ValueType)
    {body : Statement} (place : Position) (read : body.IsRead) :
    IsRead (.function name parameters type body place) := by
  constructor
  intro budget next rest enough follows
  have listed := Parser.length_parametersTokens parameters
  simp only [tokens, List.length_append, List.length_cons, Grammar.length_parenthesised] at enough
  obtain ⟨budget, rfl⟩ := Nat.exists_eq_add_of_le' (by omega : 2 ≤ budget)
  simp only [tokens, Grammar.parenthesised, List.cons_append, List.append_assoc, List.nil_append]
  rw [Parser.statement]
  refine Parser.reads_first fun place' => ?_
  refine Parser.reads_advance.bind fun _ _ => ?_
  rw [Parser.function]
  refine Parser.reads_name.bind ?_
  rintro ⟨text, _⟩ rfl
  refine Parser.reads_expect.bind fun _ _ => ?_
  -- The body, behind a result type that is there or not.
  have inner (found : List Parameter)
      (same : found.map (·.unplaced) = parameters.map (·.unplaced)) (returned : ValueType)
      (typed : returned = type) :
      (do return .function text found returned (← Parser.statement budget) place' :
        Parser Statement).Reads (body.tokens ++ next :: rest) (next :: rest)
        fun found => found.unplaced = (function text parameters type body place).unplaced := by
    refine (read.reads (by omega) follows).bind fun foundBody also => Parser.reads_pure ?_
    rw [unplaced, unplaced, also, typed]
    exact congrArg (function text · type body.unplaced .start) same
  have behind (found : List Parameter)
      (same : found.map (·.unplaced) = parameters.map (·.unplaced)) :
      (do
        Parser.expect (.mark .closeParen)
        let returned ←
          if ← Parser.sees (.mark .colon) then
            Parser.advance
            Parser.type
          else pure .void
        return .function text found returned (← Parser.statement budget) place' :
        Parser Statement).Reads
        (.mark .closeParen :: (resultTokens type ++ (body.tokens ++ next :: rest))) (next :: rest)
        fun found => found.unplaced = (function text parameters type body place).unplaced := by
    refine Parser.reads_expect.bind fun _ _ => ?_
    by_cases void : type = .void
    · rw [resultTokens, if_pos void, List.nil_append]
      have omitted : (pure .void : Parser ValueType).Reads (body.tokens ++ next :: rest)
          (body.tokens ++ next :: rest) (· = type) := Parser.reads_pure void.symm
      have reads := omitted.bind (inner found same)
      -- No statement starts with a colon, so no result type is read.
      obtain ⟨token, more, begins, starting⟩ := body.starts
      rw [begins, List.cons_append] at reads ⊢
      exact Parser.reads_unseen (by rintro rfl; cases starting) reads
    · rw [resultTokens, if_neg void]
      refine Parser.reads_seen ?_
      refine Parser.reads_advance.bind fun _ _ => ?_
      exact Parser.reads_type.bind (inner found same)
  cases parameters with
  | nil =>
    have none : (pure [] : Parser (List Parameter)).Reads
        (.mark .closeParen :: (resultTokens type ++ (body.tokens ++ next :: rest)))
        (.mark .closeParen :: (resultTokens type ++ (body.tokens ++ next :: rest)))
        fun found => found.map (·.unplaced) = ([] : List Parameter).map (·.unplaced) :=
      Parser.reads_pure rfl
    refine Parser.reads_seen ?_
    exact none.bind behind
  | cons first others =>
    have short : (first :: others).length ≤ budget := by omega
    have reads := (Parser.parameters_reads (List.cons_ne_nil first others) short).bind behind
    obtain ⟨more, begins⟩ := Parser.parametersTokens_starts first others
    rw [begins, List.cons_append] at reads ⊢
    exact Parser.reads_unseen (by simp) reads

mutual

theorem isRead : ∀ statement : Statement, statement.elseBindsRight = true → statement.IsRead
  | .block statements, binds => block_isRead (areRead statements binds)
  | .declare name value place, _ => declare_isRead name value place
  | .evaluate expression, _ => evaluate_isRead expression
  | .ifThen condition consequence, binds => ifThen_isRead condition (isRead consequence binds)
  | .ifThenElse condition consequence alternative, binds => by
    simp only [elseBindsRight, Bool.and_eq_true, Bool.not_eq_true'] at binds
    obtain ⟨⟨closed, before⟩, behind⟩ := binds
    exact ifThenElse_isRead condition (isRead consequence before) closed (isRead alternative behind)
  | .whileDo condition body, binds => whileDo_isRead condition (isRead body binds)
  | .doWhile body condition, binds => doWhile_isRead (isRead body binds) condition
  | .result value place, _ => result_isRead value place
  | .function name parameters type body place, binds =>
    function_isRead name parameters type place (isRead body binds)

theorem areRead : ∀ statements : List Statement, allElseBindRight statements = true →
    ∀ statement ∈ statements, statement.IsRead
  | [], _ => nofun
  | first :: rest, binds => by
    obtain ⟨here, others⟩ := Bool.and_eq_true_iff.mp binds
    exact List.forall_mem_cons.mpr ⟨isRead first here, areRead rest others⟩

end

/-- A printed program is read up to the end of the file. -/
theorem program_reads {program : List Statement} (read : ∀ statement ∈ program, statement.IsRead)
    {budget : Nat} (enough : 4 * (tokensOfAll program).length < budget) :
    (Parser.statements budget).Reads (tokensOfAll program ++ [.fileEnd]) [.fileEnd]
      fun found => unplacedAll found = unplacedAll program := by
  induction program generalizing budget with
  | nil =>
    obtain ⟨budget, rfl⟩ := Nat.exists_eq_succ_of_ne_zero (Nat.ne_zero_of_lt enough)
    rw [Parser.statements]
    exact Parser.reads_seen (Parser.reads_pure rfl)
  | cons first others ih =>
    obtain ⟨budget, rfl⟩ := Nat.exists_eq_succ_of_ne_zero (Nat.ne_zero_of_lt enough)
    obtain ⟨here, more⟩ := List.forall_mem_cons.mp read
    have some := first.tokens_length_pos
    rw [tokensOfAll, List.length_append] at enough
    have closes : Token.fileEnd ≠ .keyword .otherwise := by simp
    have reads := sequence_reads here (by omega : _ ≤ budget) closes (ih more (by omega : _ < budget))
    obtain ⟨token, tail, begins, starting⟩ := first.starts
    rw [Parser.statements]
    rw [tokensOfAll, begins, List.cons_append, List.cons_append] at reads ⊢
    exact Parser.reads_unseen (by rintro rfl; cases starting) reads

end Statement

/-- Whatever the positions of its tokens and the layout between them, a printed program is read as itself,
unless one of its `else`s would belong to another `if`. -/
theorem parse_tokensOfAll {program : List Statement} (binds : Statement.allElseBindRight program = true)
    {lexemes : List Lexeme} (printed : (withoutLayout lexemes).map (·.token) =
      Statement.tokensOfAll program ++ [.fileEnd]) :
    ∃ parsed, parse lexemes = .ok parsed ∧
      Statement.unplacedAll parsed = Statement.unplacedAll program := by
  have length := congrArg List.length printed
  simp only [List.length_map, List.length_append, List.length_singleton] at length
  obtain ⟨parsed, after, ran, -, same⟩ := Statement.program_reads (Statement.areRead program binds)
    (by omega : _ < 8 * ((withoutLayout lexemes).length + 1)) (.start (withoutLayout lexemes)) printed
  refine ⟨parsed, ?_, same⟩
  unfold parse Parser.budgeted
  rw [show Parser.statements (8 * ((Cursor.start (withoutLayout lexemes)).rest.length + 1))
    (.start (withoutLayout lexemes)) = _ from ran]

/-- The parser accepts exactly its grammar. The tokens up to the end of the file derive the program read
from them, and every program that can be printed is read from its tokens. -/
theorem parse_exact :
    (∀ lexemes program, parse lexemes = .ok program →
      Sequenced (((withoutLayout lexemes).map (·.token)).takeWhile (· ≠ .fileEnd)) program) ∧
    ∀ program lexemes, Statement.allElseBindRight program = true →
      (withoutLayout lexemes).map (·.token) = Statement.tokensOfAll program ++ [.fileEnd] →
      ∃ parsed, parse lexemes = .ok parsed ∧
        Statement.unplacedAll parsed = Statement.unplacedAll program := by
  constructor
  · intro lexemes program parsed
    exact parse_derives parsed
  · intro program lexemes binds printed
    exact parse_tokensOfAll binds printed

/-- A program with an `else` behind a loop, with a difference on the right of another one, and with an
assignment as an argument. -/
def branchingProgram : List Statement :=
  [.function "f" [⟨"a", .int, .start⟩, ⟨"b", .bool, .start⟩] .void
    (.ifThenElse (.variable "b" .start)
      (.whileDo (.number 1 .start) (.result none .start))
      (.ifThen (.variable "a" .start)
        (.evaluate (.binary .subtract (.number 1 .start)
          (.binary .subtract (.number 2 .start) (.number 3 .start) .start) .start)))) .start,
    .evaluate (.call "f" [.binary .assign (.variable "x" .start) (.number 7 .start) .start,
      .binary .multiply (.binary .add (.number 1 .start) (.number 2 .start) .start)
        (.number 3 .start) .start] .start)]

/-- The printed program with a comment before it. -/
def branchingLexemes : List Lexeme :=
  (.comment "a" :: (Statement.tokensOfAll branchingProgram ++ [.fileEnd])).map (⟨·, ⟨3, 5⟩⟩)

theorem parse_exact_branchingProgram :
    Statement.allElseBindRight branchingProgram = true ∧
      ∃ parsed, parse branchingLexemes = .ok parsed ∧
        Statement.unplacedAll parsed = Statement.unplacedAll branchingProgram ∧
        Sequenced (Statement.tokensOfAll branchingProgram) parsed := by
  have printed : (withoutLayout branchingLexemes).map (·.token) =
      Statement.tokensOfAll branchingProgram ++ [.fileEnd] := by decide +kernel
  obtain ⟨parsed, ran, same⟩ := parse_exact.2 branchingProgram branchingLexemes (by decide) printed
  have derived := parse_exact.1 branchingLexemes parsed ran
  have before : ((withoutLayout branchingLexemes).map (·.token)).takeWhile (· ≠ .fileEnd) =
      Statement.tokensOfAll branchingProgram := by decide +kernel
  rw [before] at derived
  exact ⟨by decide, parsed, ran, same, derived⟩

end TapeCode
