import TapeCode.Proofs.Path
import TapeCode.Proofs.Ribbon.Basic
import TapeCode.Tape.Characters

/-!
# Tape code on a ribbon, character by character

The character machine with a ribbon in place of a tape. A piece of code that runs from one ribbon to
another takes the machine from the beginning of the piece to its end, wherever the piece stands, and
on its way only characters of the piece are executed.
-/
namespace TapeCode

structure RibbonMachine where
  behind : List Char
  ahead : List Char
  ribbon : Ribbon

namespace RibbonMachine

/-- One character; brackets are followed as the character machine follows them. -/
def step (ending : EndOfInput) : RibbonMachine → Option RibbonMachine
  | ⟨_, [], _⟩ => none
  | ⟨behind, c :: ahead, ribbon⟩ =>
    if c = '[' ∧ ribbon.current = 0 then
      (CharacterMachine.pass '[' ']' 0 (c :: behind) ahead).map fun (behind, ahead) =>
        ⟨behind, ahead, ribbon⟩
    else if c = ']' ∧ ribbon.current ≠ 0 then
      (CharacterMachine.pass ']' '[' 0 (c :: ahead) behind).map fun (ahead, behind) =>
        ⟨behind, ahead, ribbon⟩
    else some ⟨c :: behind, ahead, ribbon.perform ending c⟩

/-- The number of characters before the one to execute. -/
def place (machine : RibbonMachine) : Nat := machine.behind.length

@[simp] theorem place_mk (behind ahead : List Char) (ribbon : Ribbon) :
    place ⟨behind, ahead, ribbon⟩ = behind.length := rfl

end RibbonMachine

/-! ## Brackets -/

namespace Balanced

/-- Matched code is passed on the way to a closing bracket. -/
theorem pass_forth {code : List Char} (balanced : Balanced code) (depth : Nat)
    (behind ahead : List Char) :
    CharacterMachine.pass '[' ']' depth behind (code ++ ahead) =
      CharacterMachine.pass '[' ']' depth (code.reverse ++ behind) ahead := by
  induction balanced generalizing depth behind ahead with
  | nil => rfl
  | plain plain _ ih =>
    simp only [isPlain, Bool.and_eq_true, decide_eq_true_eq] at plain
    simp [CharacterMachine.pass, plain.1, plain.2, ih]
  | @nest body rest _ _ inner outer =>
    have opened : CharacterMachine.pass '[' ']' depth behind ('[' :: body ++ ']' :: rest ++ ahead) =
        CharacterMachine.pass '[' ']' (depth + 1) ('[' :: behind) (body ++ (']' :: rest ++ ahead)) := by
      simp [CharacterMachine.pass]
    rw [opened, inner]
    simp [CharacterMachine.pass, outer]

/-- The same on the way back to an opening bracket. -/
theorem pass_back {code : List Char} (balanced : Balanced code) (depth : Nat)
    (behind ahead : List Char) :
    CharacterMachine.pass ']' '[' depth ahead (code.reverse ++ behind) =
      CharacterMachine.pass ']' '[' depth (code ++ ahead) behind := by
  induction balanced generalizing depth behind ahead with
  | nil => rfl
  | @plain c rest plain _ ih =>
    simp only [isPlain, Bool.and_eq_true, decide_eq_true_eq] at plain
    rw [List.reverse_cons, List.append_assoc, ih]
    simp [CharacterMachine.pass, plain.1, plain.2]
  | @nest body rest _ _ inner outer =>
    have split : ('[' :: body ++ ']' :: rest).reverse ++ behind =
        rest.reverse ++ (']' :: (body.reverse ++ ('[' :: behind))) := by
      simp
    have opened (more : List Char) :
        CharacterMachine.pass ']' '[' depth more (']' :: (body.reverse ++ ('[' :: behind))) =
          CharacterMachine.pass ']' '[' (depth + 1) (']' :: more) (body.reverse ++ ('[' :: behind)) := by
      simp [CharacterMachine.pass]
    rw [split, outer, opened, inner]
    simp [CharacterMachine.pass]

end Balanced

namespace RibbonMachine

variable {ending : EndOfInput} {body behind ahead : List Char} {ribbon : Ribbon}

theorem step_plain {c : Char} (plain : isPlain c = true) :
    step ending ⟨behind, c :: ahead, ribbon⟩ =
      some ⟨c :: behind, ahead, ribbon.perform ending c⟩ := by
  simp only [isPlain, Bool.and_eq_true, decide_eq_true_eq] at plain
  simp [step, plain.1, plain.2]

/-- A loop is left out when its cell is zero. -/
theorem step_over (balanced : Balanced body) (zero : ribbon.current = 0) :
    step ending ⟨behind, '[' :: (body ++ ']' :: ahead), ribbon⟩ =
      some ⟨']' :: (body.reverse ++ '[' :: behind), ahead, ribbon⟩ := by
  have passed := balanced.pass_forth 0 ('[' :: behind) (']' :: ahead)
  simp [step, zero, passed, CharacterMachine.pass]

theorem step_into (nonzero : ribbon.current ≠ 0) :
    step ending ⟨behind, '[' :: ahead, ribbon⟩ = some ⟨'[' :: behind, ahead, ribbon⟩ := by
  obtain ⟨left, current, right, input, output⟩ := ribbon
  have entered : ¬current = 0 := nonzero
  simp [step, entered, Ribbon.perform]

theorem step_out (zero : ribbon.current = 0) :
    step ending ⟨behind, ']' :: ahead, ribbon⟩ = some ⟨']' :: behind, ahead, ribbon⟩ := by
  obtain ⟨left, current, right, input, output⟩ := ribbon
  have left : current = 0 := zero
  simp [step, left, Ribbon.perform]

theorem step_again (balanced : Balanced body) (nonzero : ribbon.current ≠ 0) :
    step ending ⟨body.reverse ++ '[' :: behind, ']' :: ahead, ribbon⟩ =
      some ⟨behind, '[' :: (body ++ ']' :: ahead), ribbon⟩ := by
  have passed := balanced.pass_back 0 ('[' :: behind) (']' :: ahead)
  simp [step, nonzero, passed, CharacterMachine.pass]

end RibbonMachine

namespace Runs

open RibbonMachine

variable {ending : EndOfInput}

/-- Code that runs as a whole runs character by character, and until it is done all places lie within
it. -/
theorem path {code : List Char} {before after : Ribbon} (runs : Runs ending code before after)
    (behind ahead : List Char) :
    ∃ places, Path (step ending) place ⟨behind, code ++ ahead, before⟩ places
        ⟨code.reverse ++ behind, ahead, after⟩ ∧
      ∀ p ∈ places, behind.length ≤ p ∧ p < behind.length + code.length := by
  induction runs generalizing behind ahead with
  | done => exact ⟨[], .here, by simp⟩
  | @act c rest before after plain _ ih =>
    obtain ⟨places, path, within⟩ := ih (c :: behind) ahead
    refine ⟨behind.length :: places, ?_, ?_⟩
    · simpa using Path.next (step_plain plain) path
    · intro p member
      rcases List.mem_cons.mp member with rfl | later
      · simp
      · have bounds := within p later
        simp only [List.length_cons] at bounds ⊢
        omega
  | @leave body rest before after balanced zero _ ih =>
    obtain ⟨places, path, within⟩ := ih (']' :: (body.reverse ++ '[' :: behind)) ahead
    refine ⟨behind.length :: places, ?_, ?_⟩
    · simpa using Path.next (step_over balanced zero) path
    · intro p member
      rcases List.mem_cons.mp member with rfl | later
      · simp
      · have bounds := within p later
        simp only [List.length_cons, List.length_append, List.length_reverse] at bounds ⊢
        omega
  -- The run of the rest begins at the opening bracket again, but the machine may leave the loop without
  -- returning there: the closing bracket decides it.
  | @again body rest before between after nonzero turn onwards inner outer =>
    obtain ⟨inside, innerPath, innerWithin⟩ := inner ('[' :: behind) (']' :: (rest ++ ahead))
    obtain ⟨places, path, within⟩ := outer behind ahead
    simp only [List.cons_append, List.append_assoc] at path
    have entered := Path.next (step_into nonzero) innerPath
    have innerBounds : ∀ p ∈ behind.length :: inside, behind.length ≤ p ∧
        p < behind.length + ('[' :: body ++ ']' :: rest).length := by
      intro p member
      rcases List.mem_cons.mp member with rfl | later
      · simp
      · have bounds := innerWithin p later
        simp only [List.length_cons, List.length_append] at bounds ⊢
        omega
    have closing : behind.length ≤ body.length + (behind.length + 1) ∧
        body.length + (behind.length + 1) < behind.length + ('[' :: body ++ ']' :: rest).length := by
      simp only [List.length_cons, List.length_append]
      omega
    by_cases zero : between.current = 0
    · -- the loop is left at its closing bracket, without a look at the opening one
      obtain ⟨more, rfl, behindLoop⟩ := path.behind_step (step_over turn.balanced zero) (by
        intro same
        have lengths := congrArg (·.ahead.length) same
        simp only [List.length_cons, List.length_append] at lengths
        omega)
      refine ⟨_, by simpa using entered.append (.next (step_out zero) behindLoop), ?_⟩
      simp only [List.forall_mem_cons, List.forall_mem_append, place_mk] at innerBounds within ⊢
      exact ⟨innerBounds.1, innerBounds.2, closing, within.2⟩
    · refine ⟨_, by simpa using entered.append (.next (step_again turn.balanced zero) path), ?_⟩
      simp only [List.forall_mem_cons, List.forall_mem_append] at innerBounds ⊢
      exact ⟨innerBounds.1, innerBounds.2, closing, within⟩

end Runs

namespace RibbonMachine

variable {ending : EndOfInput} {body first second : List Char} {ribbon : Ribbon}

/-- The machine between two parts of its code. -/
def between (first second : List Char) (ribbon : Ribbon) : RibbonMachine :=
  ⟨first.reverse, second, ribbon⟩

@[simp] theorem place_between : place (between first second ribbon) = first.length :=
  List.length_reverse

theorem between_plain {c : Char} (plain : isPlain c = true) :
    step ending (between first (c :: second) ribbon) =
      some (between (first ++ [c]) second (ribbon.perform ending c)) := by
  simp [between, step_plain plain]

theorem between_over (balanced : Balanced body) (zero : ribbon.current = 0) :
    step ending (between first ('[' :: (body ++ ']' :: second)) ribbon) =
      some (between (first ++ '[' :: (body ++ [']'])) second ribbon) := by
  simp [between, step_over balanced zero]

theorem between_into (nonzero : ribbon.current ≠ 0) :
    step ending (between first ('[' :: second) ribbon) =
      some (between (first ++ ['[']) second ribbon) := by
  simp [between, step_into nonzero]

theorem between_out (zero : ribbon.current = 0) :
    step ending (between first (']' :: second) ribbon) =
      some (between (first ++ [']']) second ribbon) := by
  simp [between, step_out zero]

theorem between_again (balanced : Balanced body) (nonzero : ribbon.current ≠ 0) :
    step ending (between (first ++ '[' :: body) (']' :: second) ribbon) =
      some (between first ('[' :: (body ++ ']' :: second)) ribbon) := by
  simp [between, step_again balanced nonzero]

end RibbonMachine

open RibbonMachine in
theorem Runs.path_between {ending : EndOfInput} {code : List Char} {before after : Ribbon}
    (runs : Runs ending code before after) (first second : List Char) :
    ∃ places, Path (step ending) place (between first (code ++ second) before) places
        (between (first ++ code) second after) ∧
      ∀ p ∈ places, first.length ≤ p ∧ p < (first ++ code).length := by
  obtain ⟨places, path, within⟩ := runs.path first.reverse second
  refine ⟨places, by simpa [between] using path, fun p member => ?_⟩
  simpa using within p member

open RibbonMachine in
/-- The code by itself, from its beginning to its end. -/
theorem Runs.path_whole {ending : EndOfInput} {code : List Char} {before after : Ribbon}
    (runs : Runs ending code before after) :
    ∃ places, Path (step ending) place (between [] code before) places (between code [] after) := by
  obtain ⟨places, whole, -⟩ := runs.path_between [] []
  rw [List.append_nil, List.nil_append] at whole
  exact ⟨places, whole⟩

end TapeCode
