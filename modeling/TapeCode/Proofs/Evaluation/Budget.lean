import TapeCode.Proofs.Monads
import TapeCode.Typed.Evaluation

/-!
# Budgets of evaluations

An evaluation that ends within a budget ends in the same way within every larger one. So evaluations
that end, whatever their budgets, are joined into one that ends: the parts of a construct are evaluated
with the largest of their budgets.
-/
namespace TapeCode

/-- Whatever the first evaluation ends with, the second one ends with too. -/
def Evaluator.Refines {α : Type} (less more : Evaluator α) : Prop :=
  ∀ ⦃world : World⦄ ⦃result : α × World⦄, less world = some result → more world = some result

namespace Evaluator.Refines

variable {α β : Type}

theorem refl (action : Evaluator α) : Refines action action := fun _ _ ended => ended

theorem bind {less more : Evaluator α} {next later : α → Evaluator β} (first : Refines less more)
    (second : ∀ value, Refines (next value) (later value)) :
    Refines (less >>= next) (more >>= later) := by
  rintro world ⟨result, after⟩ ended
  obtain ⟨value, between, started, finished⟩ := stateOption_bind.mp ended
  exact stateOption_bind.mpr ⟨value, between, first started, second value finished⟩

theorem discard {less more : Evaluator α} (first : Refines less more) :
    Refines (Functor.discard less) (Functor.discard more) := by
  rintro world ⟨result, after⟩ ended
  obtain ⟨value, started⟩ := stateOption_discard.mp ended
  exact stateOption_discard.mpr ⟨value, first started⟩

theorem ite {condition : Prop} [Decidable condition] {less more other another : Evaluator α}
    (holds : Refines less more) (fails : Refines other another) :
    Refines (if condition then less else other) (if condition then more else another) := by
  split
  · exact holds
  · exact fails

end Evaluator.Refines

namespace Evaluation

open Evaluator (Refines)

variable {setting : Setting} {budget : Nat}

/-- One more turn changes no result. -/
structure Steady (setting : Setting) (budget : Nat) : Prop where
  expression : ∀ source, Refines (expression setting budget source)
    (expression setting (budget + 1) source)
  expressions : ∀ sources, Refines (expressions setting budget sources)
    (expressions setting (budget + 1) sources)
  call : ∀ id arguments, Refines (call setting budget id arguments)
    (call setting (budget + 1) id arguments)
  statement : ∀ source, Refines (statement setting budget source)
    (statement setting (budget + 1) source)
  statements : ∀ sources, Refines (statements setting budget sources)
    (statements setting (budget + 1) sources)

namespace Steady

theorem expression_succ (steady : Steady setting budget) (source : TypedExpression) :
    Refines (Evaluation.expression setting (budget + 1) source)
      (Evaluation.expression setting (budget + 2) source) := by
  cases source with
  | number value type => exact .refl _
  | «variable» id type => exact .refl _
  | assign id value type => exact (steady.expression value).bind fun _ => .refl _
  | call function arguments type =>
    exact (steady.expressions arguments).bind fun values => steady.call function values

theorem expressions_succ (steady : Steady setting budget) (sources : List TypedExpression) :
    Refines (Evaluation.expressions setting (budget + 1) sources)
      (Evaluation.expressions setting (budget + 2) sources) := by
  cases sources with
  | nil => exact .refl _
  | cons first rest =>
    apply (steady.expression first).bind
    intro value
    exact (steady.expressions rest).bind fun _ => .refl _

theorem call_succ (steady : Steady setting budget) (id : FunctionId) (arguments : List UInt8) :
    Refines (Evaluation.call setting (budget + 1) id arguments)
      (Evaluation.call setting (budget + 2) id arguments) := by
  rw [Evaluation.call, Evaluation.call]
  split
  next function found =>
    apply (Refines.refl _).bind
    intro _
    exact (steady.statement function.body).bind fun _ => .refl _
  next => exact .refl _

theorem statement_succ (steady : Steady setting budget) (source : TypedStatement) :
    Refines (Evaluation.statement setting (budget + 1) source)
      (Evaluation.statement setting (budget + 2) source) := by
  cases source with
  | block sources => exact steady.statements sources
  | declare id value => exact (steady.expression value).bind fun _ => .refl _
  | evaluate value => exact (steady.expression value).discard.bind fun _ => .refl _
  | ifThen condition consequence =>
    apply (steady.expression condition).bind
    intro value
    exact .ite (steady.statement consequence) (.refl _)
  | ifThenElse condition consequence alternative =>
    apply (steady.expression condition).bind
    intro value
    exact .ite (steady.statement consequence) (steady.statement alternative)
  -- The next turn is the same statement, with a budget that is less by one on both sides.
  | whileDo condition body =>
    apply (steady.expression condition).bind
    intro value
    apply Refines.ite _ (.refl _)
    apply (steady.statement body).bind
    intro flow
    cases flow with
    | next => exact steady.statement (.whileDo condition body)
    | returned value => exact .refl _
  | doWhile body condition =>
    apply (steady.statement body).bind
    intro flow
    cases flow with
    | next =>
      apply (steady.expression condition).bind
      intro value
      exact .ite (steady.statement (.doWhile body condition)) (.refl _)
    | returned value => exact .refl _
  | result value =>
    cases value with
    | none => exact .refl _
    | some value => exact (steady.expression value).bind fun _ => .refl _

theorem statements_succ (steady : Steady setting budget) (sources : List TypedStatement) :
    Refines (Evaluation.statements setting (budget + 1) sources)
      (Evaluation.statements setting (budget + 2) sources) := by
  cases sources with
  | nil => exact .refl _
  | cons first rest =>
    apply (steady.statement first).bind
    intro flow
    cases flow with
    | next => exact steady.statements rest
    | returned value => exact .refl _

end Steady

theorem steady (setting : Setting) (budget : Nat) : Steady setting budget := by
  induction budget with
  | zero =>
    have none {α : Type} {action : Evaluator α} : Refines outOfBudget action := nofun
    refine ⟨fun _ => ?_, fun _ => ?_, fun _ _ => ?_, fun _ => ?_, fun _ => ?_⟩
    · rw [expression]; exact none
    · rw [expressions]; exact none
    · rw [call]; exact none
    · rw [statement]; exact none
    · rw [statements]; exact none
  | succ budget ih =>
    exact ⟨ih.expression_succ, ih.expressions_succ, ih.call_succ, ih.statement_succ,
      ih.statements_succ⟩

/-- A larger budget changes no result of a call. -/
theorem call_mono (setting : Setting) (id : FunctionId) (arguments : List UInt8) {less more : Nat}
    (atMost : less ≤ more) : Refines (call setting less id arguments) (call setting more id arguments) := by
  induction atMost with
  | refl => exact .refl _
  | @step budget _ ih => exact fun _ _ ended => (steady setting budget).call id arguments (ih ended)

end Evaluation

end TapeCode
