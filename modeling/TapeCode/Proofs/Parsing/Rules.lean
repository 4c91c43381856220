import TapeCode.Tree.Parser

/-!
# The parser step by step

A rule that gives a result is taken apart into its steps, each with the cursor before and behind it.
Of a cursor only the tokens in front of it matter here; their positions decide nothing.
-/
namespace TapeCode

theorem ValueType.ofName?_eq_some {text : String} {type : ValueType} :
    ValueType.ofName? text = some type ↔ text = type.name := by
  constructor
  · intro found
    unfold ValueType.ofName? at found
    simpa [eq_comm] using List.find?_some found
  · rintro rfl
    cases type <;> rfl

/-- The tokens still to read. -/
def Cursor.tokens (cursor : Cursor) : List Token := cursor.rest.map (·.token)

namespace Cursor

variable {cursor between after : Cursor} {token : Token} {tokens first second rest : List Token}

/-- Where the next token is not the end, it is the first one. -/
theorem tokens_of_token (next : cursor.token = token) (proper : token ≠ .fileEnd) :
    cursor.tokens = token :: cursor.advance.tokens := by
  obtain ⟨lexemes, last⟩ := cursor
  cases lexemes with
  | nil => exact absurd next.symm proper
  | cons lexeme lexemes =>
    subst next
    rfl

theorem token_of_tokens (starts : cursor.tokens = token :: rest) :
    cursor.token = token ∧ cursor.advance.tokens = rest := by
  obtain ⟨lexemes, last⟩ := cursor
  cases lexemes with
  | nil => cases starts
  | cons lexeme lexemes =>
    obtain ⟨rfl, rfl⟩ := List.cons.inj starts
    exact ⟨rfl, rfl⟩

/-- The end is next where nothing is left, or where it stands. -/
theorem tokens_of_fileEnd (ends : cursor.token = .fileEnd) :
    cursor.tokens = [] ∨ ∃ rest, cursor.tokens = .fileEnd :: rest := by
  obtain ⟨lexemes, last⟩ := cursor
  cases lexemes with
  | nil => exact .inl rfl
  | cons lexeme lexemes =>
    have first : lexeme.token = .fileEnd := ends
    exact .inr ⟨lexemes.map (·.token), by rw [tokens, List.map_cons, first]⟩

theorem token_of_nil (nothing : cursor.tokens = []) : cursor.token = .fileEnd := by
  obtain ⟨lexemes, last⟩ := cursor
  obtain rfl := List.map_eq_nil_iff.mp nothing
  rfl

/-- The tokens between two cursors, none of which is the end. -/
structure Passes (cursor : Cursor) (tokens : List Token) (after : Cursor) : Prop where
  split : cursor.tokens = tokens ++ after.tokens
  proper : Token.fileEnd ∉ tokens

theorem Passes.refl : cursor.Passes [] cursor := ⟨rfl, nofun⟩

theorem Passes.trans (left : cursor.Passes first between) (right : between.Passes second after) :
    cursor.Passes (first ++ second) after := by
  constructor
  · rw [left.split, right.split, List.append_assoc]
  · intro member
    rcases List.mem_append.mp member with early | late
    · exact left.proper early
    · exact right.proper late

theorem passes_advance (next : cursor.token = token) (proper : token ≠ .fileEnd) :
    cursor.Passes [token] cursor.advance where
  split := tokens_of_token next proper
  proper := by simpa using proper.symm

/-- One token and then others. -/
theorem Passes.behind (onwards : cursor.advance.Passes tokens after) (next : cursor.token = token)
    (proper : token ≠ .fileEnd) : cursor.Passes (token :: tokens) after :=
  (passes_advance next proper).trans onwards

/-- Others and then one token. -/
theorem Passes.before (first : cursor.Passes tokens between) (next : between.token = token)
    (proper : token ≠ .fileEnd) : cursor.Passes (tokens ++ [token]) between.advance :=
  first.trans (passes_advance next proper)

/-- The tokens passed before the end are all there are before it. -/
theorem Passes.takeWhile_tokens (passes : cursor.Passes tokens after)
    (ends : after.token = .fileEnd) : cursor.tokens.takeWhile (· ≠ .fileEnd) = tokens := by
  have others : ∀ token ∈ tokens, decide (token ≠ .fileEnd) = true := by
    intro token member
    refine decide_eq_true fun same => passes.proper ?_
    exact same ▸ member
  rw [passes.split, List.takeWhile_append_of_pos others]
  rcases tokens_of_fileEnd ends with nothing | ⟨rest, first⟩
  · rw [nothing, List.takeWhile_nil, List.append_nil]
  · rw [first]
    simp

end Cursor

namespace Parser

variable {α β : Type} {rule : Parser α} {next : α → Parser β} {cursor after : Cursor}

theorem bind_eq_ok {result : β} : (rule >>= next) cursor = .ok result after ↔
    ∃ value between, rule cursor = .ok value between ∧ next value between = .ok result after := by
  simp only [Bind.bind, EStateM.bind]
  cases rule cursor with
  | ok value between =>
    constructor
    · exact fun onwards => ⟨value, between, rfl, onwards⟩
    · rintro ⟨_, _, same, onwards⟩
      obtain ⟨rfl, rfl⟩ := EStateM.Result.ok.inj same
      exact onwards
  | error => simp

theorem pure_eq_ok {value result : α} : (pure value : Parser α) cursor = .ok result after ↔
    value = result ∧ cursor = after := by
  rw [← EStateM.Result.ok.injEq]
  rfl

theorem map_eq_ok {change : α → β} {result : β} : (change <$> rule) cursor = .ok result after ↔
    ∃ value, rule cursor = .ok value after ∧ change value = result := by
  simp only [Functor.map, EStateM.map]
  cases rule cursor with
  | ok value between =>
    constructor
    · rintro ⟨⟩
      exact ⟨value, rfl, rfl⟩
    · rintro ⟨_, ⟨⟩, rfl⟩
      rfl
  | error => simp

theorem token_eq_ok {found : Token} : token cursor = .ok found after ↔
    cursor.token = found ∧ cursor = after := by
  rw [← EStateM.Result.ok.injEq]
  rfl

theorem position_eq_ok {place : Position} : position cursor = .ok place after ↔
    cursor.position = place ∧ cursor = after := by
  rw [← EStateM.Result.ok.injEq]
  rfl

theorem advance_eq_ok {result : Unit} : advance cursor = .ok result after ↔
    cursor.advance = after := by
  have runs : advance cursor = .ok () cursor.advance := rfl
  simp [runs]

theorem throw_ne_ok {error : ParseError} {result : α} :
    (throw error : Parser α) cursor ≠ .ok result after := by
  rintro ⟨⟩

theorem fail_ne_ok {cause : ParseCause} {result : α} :
    (fail cause : Parser α) cursor ≠ .ok result after := by
  intro ran
  obtain ⟨_, _, -, thrown⟩ := bind_eq_ok.mp ran
  exact throw_ne_ok thrown

theorem sees_eq_ok {expected : Token} {answer : Bool} : sees expected cursor = .ok answer after ↔
    decide (cursor.token = expected) = answer ∧ cursor = after := by
  simp only [sees, bind_eq_ok, token_eq_ok, pure_eq_ok]
  constructor
  · rintro ⟨_, _, ⟨rfl, rfl⟩, rfl, rfl⟩
    exact ⟨rfl, rfl⟩
  · rintro ⟨rfl, rfl⟩
    exact ⟨_, _, ⟨rfl, rfl⟩, rfl, rfl⟩

theorem expect_eq_ok {expected : Token} {result : Unit} : expect expected cursor = .ok result after ↔
    cursor.token = expected ∧ cursor.advance = after := by
  simp only [expect, bind_eq_ok, token_eq_ok]
  constructor
  · rintro ⟨found, _, ⟨rfl, rfl⟩, ran⟩
    split at ran
    next same => exact ⟨same, advance_eq_ok.mp ran⟩
    next => exact absurd ran fail_ne_ok
  · rintro ⟨rfl, onwards⟩
    refine ⟨_, _, ⟨rfl, rfl⟩, ?_⟩
    rw [if_pos rfl]
    exact advance_eq_ok.mpr onwards

/-- A rule that is left out when the next token shows that there is nothing for it. -/
theorem optional_eq_ok {absent : Bool} {default : α} {result : β} :
    (if absent = true then pure default >>= next else rule >>= next) cursor = .ok result after ↔
      ∃ value between,
        ((absent = true ∧ value = default ∧ between = cursor) ∨
          (absent = false ∧ rule cursor = .ok value between)) ∧
        next value between = .ok result after := by
  cases absent with
  | true =>
    simp only [if_true, bind_eq_ok, pure_eq_ok]
    constructor
    · rintro ⟨_, _, ⟨rfl, rfl⟩, onwards⟩
      exact ⟨_, _, .inl ⟨trivial, rfl, rfl⟩, onwards⟩
    · rintro ⟨_, _, ⟨-, rfl, rfl⟩ | ⟨⟨⟩, -⟩, onwards⟩
      exact ⟨_, _, ⟨rfl, rfl⟩, onwards⟩
  | false => simp [bind_eq_ok]

theorem name_eq_ok {cause : ParseCause} {text : String} {place : Position} :
    name cause cursor = .ok (text, place) after ↔
      cursor.token = .name text ∧ cursor.position = place ∧ cursor.advance = after := by
  simp only [name, bind_eq_ok, token_eq_ok]
  constructor
  · rintro ⟨found, _, ⟨seen, rfl⟩, ran⟩
    split at ran
    next =>
      simp only [bind_eq_ok, position_eq_ok, advance_eq_ok, pure_eq_ok] at ran
      obtain ⟨_, _, ⟨rfl, rfl⟩, _, _, rfl, same, rfl⟩ := ran
      obtain ⟨rfl, rfl⟩ := Prod.mk.inj same
      exact ⟨seen, rfl, rfl⟩
    next => exact absurd ran fail_ne_ok
  · rintro ⟨seen, rfl, rfl⟩
    refine ⟨_, _, ⟨seen, rfl⟩, ?_⟩
    simp only [bind_eq_ok, position_eq_ok, advance_eq_ok, pure_eq_ok]
    exact ⟨_, _, ⟨rfl, rfl⟩, (), _, rfl, rfl, rfl⟩

theorem type_eq_ok {found : ValueType} : type cursor = .ok found after ↔
    cursor.token = .name found.name ∧ cursor.advance = after := by
  simp only [type, bind_eq_ok, position_eq_ok, Prod.exists, name_eq_ok]
  constructor
  · rintro ⟨_, _, ⟨rfl, rfl⟩, text, _, _, ⟨seen, rfl, rfl⟩, ran⟩
    cases named : ValueType.ofName? text with
    | none =>
      rw [named] at ran
      exact absurd ran throw_ne_ok
    | some type =>
      rw [named] at ran
      obtain ⟨rfl, rfl⟩ := pure_eq_ok.mp ran
      exact ⟨ValueType.ofName?_eq_some.mp named ▸ seen, rfl⟩
  · rintro ⟨seen, rfl⟩
    refine ⟨_, _, ⟨rfl, rfl⟩, _, _, _, ⟨seen, rfl, rfl⟩, ?_⟩
    rw [ValueType.ofName?_eq_some.mpr rfl]
    exact pure_eq_ok.mpr ⟨rfl, rfl⟩

end Parser

end TapeCode
