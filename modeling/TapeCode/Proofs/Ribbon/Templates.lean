import TapeCode.Byte
import TapeCode.Emit.Template
import TapeCode.Proofs.Ribbon.Basic

/-!
# What the stack templates do

The values of the stack are the cells of a column, each with a zero link behind it. A template takes
the column with its operands on top to the column with its result on top, and leaves nothing to the
right of the pointer.
-/
namespace TapeCode.Template

open Stream' (cons)
open Ribbon (top)

variable {ending : EndOfInput} (column : Stream' UInt8) (input output : List UInt8)

/-! ## Moving values -/

theorem clear_runs (left right : Stream' UInt8) (n : UInt8) :
    Runs ending "[-]".toList ⟨left, n, right, input, output⟩ ⟨left, 0, right, input, output⟩ :=
  .carry "-" (fun k _ => ⟨left, k, right, input, output⟩) rfl (fun _ _ => rfl) (fun _ _ => rfl) n

theorem popInt_runs (n : UInt8) :
    Runs ending popInt (top (cons n (cons 0 column)) input output) (top column input output) := by
  have down : Runs ending "<<".toList ⟨cons 0 column, 0, zeros, input, output⟩
      ⟨column.tail, column.head, cons 0 (cons 0 zeros), input, output⟩ :=
    .straight "<<" rfl rfl
  exact .recast rfl ((clear_runs input output _ _ n).andThen down) (by simp [top])

/-- Raising a cell as often as `count` says. -/
theorem raise_runs (left right : Stream' UInt8) (n : UInt8) (count : Nat) :
    Runs ending (List.replicate count '+') ⟨left, n, right, input, output⟩
      ⟨left, n + UInt8.ofNat count, right, input, output⟩ := by
  induction count generalizing n with
  | zero => simpa using Runs.done
  | succ count ih =>
    have sum : n + UInt8.ofNat (count + 1) = n + 1 + UInt8.ofNat count := by
      rw [UInt8.ofNat_add]
      grind
    rw [List.replicate_succ, sum]
    exact .act rfl (ih (n + 1))

theorem pushInt_runs (value : Int) :
    Runs ending (pushInt value) (top column input output)
      (top (cons (UInt8.ofInt value) (cons 0 column)) input output) := by
  have up : Runs ending ">>".toList (top column input output)
      ⟨cons 0 (cons column.head column.tail), 0, zeros, input, output⟩ :=
    .straight ">>" rfl rfl
  have raised : Runs ending (List.replicate (value.emod 256).toNat '+')
      ⟨cons 0 (cons column.head column.tail), 0, zeros, input, output⟩
      ⟨cons 0 (cons column.head column.tail), UInt8.ofInt value, zeros, input, output⟩ := by
    have byte : UInt8.ofNat (value.emod 256).toNat = UInt8.ofInt value := rfl
    rw [← byte]
    simpa using raise_runs input output _ zeros 0 (value.emod 256).toNat
  exact .recast rfl (up.append raised) (by simp [top, Stream'.eta])

theorem dupInt_runs (n : UInt8) :
    Runs ending dupInt (top (cons n column) input output)
      (top (cons n (cons 0 (cons n column))) input output) := by
  have copy : Runs ending "[->>+>>+<<<<]".toList
      ⟨column, n, cons 0 (cons 0 (cons 0 (cons 0 zeros))), input, output⟩
      ⟨column, 0, cons 0 (cons n (cons 0 (cons n zeros))), input, output⟩ :=
    .carry "->>+>>+<<<<"
      (fun k m => ⟨column, k, cons 0 (cons m (cons 0 (cons m zeros))), input, output⟩)
      rfl (fun _ _ => rfl) (fun _ _ => rfl) n
  have up : Runs ending ">>>>".toList
      ⟨column, 0, cons 0 (cons n (cons 0 (cons n zeros))), input, output⟩
      ⟨cons 0 (cons n (cons 0 (cons 0 column))), n, zeros, input, output⟩ :=
    .straight ">>>>" rfl rfl
  have back : Runs ending "[-<<<<+>>>>]".toList
      ⟨cons 0 (cons n (cons 0 (cons 0 column))), n, zeros, input, output⟩
      ⟨cons 0 (cons n (cons 0 (cons n column))), 0, zeros, input, output⟩ :=
    .carry "-<<<<+>>>>"
      (fun k m => ⟨cons 0 (cons n (cons 0 (cons m column))), k, zeros, input, output⟩)
      rfl (fun _ _ => rfl) (fun _ _ => rfl) n
  have down : Runs ending "<<".toList
      ⟨cons 0 (cons n (cons 0 (cons n column))), 0, zeros, input, output⟩
      ⟨cons 0 (cons n column), n, cons 0 (cons 0 zeros), input, output⟩ :=
    .straight "<<" rfl rfl
  exact .recast (by simp [top]) (copy.andThen (up.andThen (back.andThen down))) (by simp [top])

theorem swapInt_runs (n m : UInt8) :
    Runs ending swapInt (top (cons n (cons 0 (cons m column))) input output)
      (top (cons m (cons 0 (cons n column))) input output) := by
  -- Both numbers are moved up by one place, and then the upper one goes down below the other.
  have lift : Runs ending "[->>+<<]".toList
      ⟨cons 0 (cons m column), n, cons 0 (cons 0 zeros), input, output⟩
      ⟨cons 0 (cons m column), 0, cons 0 (cons n zeros), input, output⟩ :=
    .carry "->>+<<"
      (fun k l => ⟨cons 0 (cons m column), k, cons 0 (cons l zeros), input, output⟩)
      rfl (fun _ _ => rfl) (fun _ _ => rfl) n
  have down : Runs ending "<<".toList
      ⟨cons 0 (cons m column), 0, cons 0 (cons n zeros), input, output⟩
      ⟨column, m, cons 0 (cons 0 (cons 0 (cons n zeros))), input, output⟩ :=
    .straight "<<" rfl rfl
  have raise : Runs ending "[->>+<<]".toList
      ⟨column, m, cons 0 (cons 0 (cons 0 (cons n zeros))), input, output⟩
      ⟨column, 0, cons 0 (cons m (cons 0 (cons n zeros))), input, output⟩ :=
    .carry "->>+<<"
      (fun k l => ⟨column, k, cons 0 (cons l (cons 0 (cons n zeros))), input, output⟩)
      rfl (fun _ _ => rfl) (fun _ _ => rfl) m
  have up : Runs ending ">>>>".toList
      ⟨column, 0, cons 0 (cons m (cons 0 (cons n zeros))), input, output⟩
      ⟨cons 0 (cons m (cons 0 (cons 0 column))), n, zeros, input, output⟩ :=
    .straight ">>>>" rfl rfl
  have lower : Runs ending "[-<<<<+>>>>]".toList
      ⟨cons 0 (cons m (cons 0 (cons 0 column))), n, zeros, input, output⟩
      ⟨cons 0 (cons m (cons 0 (cons n column))), 0, zeros, input, output⟩ :=
    .carry "-<<<<+>>>>"
      (fun k l => ⟨cons 0 (cons m (cons 0 (cons l column))), k, zeros, input, output⟩)
      rfl (fun _ _ => rfl) (fun _ _ => rfl) n
  have settle : Runs ending "<<".toList
      ⟨cons 0 (cons m (cons 0 (cons n column))), 0, zeros, input, output⟩
      ⟨cons 0 (cons n column), m, cons 0 (cons 0 zeros), input, output⟩ :=
    .straight "<<" rfl rfl
  exact .recast (by simp [top])
    (lift.andThen (down.andThen (raise.andThen (up.andThen (lower.andThen settle))))) (by simp [top])

/-! ## Input and output -/

/-- The byte a program finds when it reads, which in a fresh cell replaces zero, and the input behind
it. -/
theorem readChar_runs :
    Runs ending readChar (top column input output)
      (top (cons (input.headD (ending.replace 0)) (cons 0 column)) input.tail output) := by
  have read : Runs ending ">>,".toList (top column input output)
      ⟨cons 0 (cons column.head column.tail), input.headD (ending.replace 0), zeros, input.tail,
        output⟩ := by
    cases input with
    | nil => exact .straight ">>," rfl rfl
    | cons byte input => exact .straight ">>," rfl rfl
  exact .recast rfl read (by simp [top, Stream'.eta])

theorem printChar_runs (n : UInt8) :
    Runs ending printChar (top (cons n column) input output)
      (top (cons n column) input (output ++ [n])) :=
  .straight "." rfl rfl

/-! ## Sums, differences and negation -/

theorem add_runs (n m : UInt8) :
    Runs ending add (top (cons n (cons 0 (cons m column))) input output)
      (top (cons (m + n) column) input output) := by
  have sum : Runs ending "[-<<+>>]".toList ⟨cons 0 (cons m column), n, zeros, input, output⟩
      ⟨cons 0 (cons (m + n) column), 0, zeros, input, output⟩ :=
    .transfer "-<<+>>" rfl (fun k l => ⟨cons 0 (cons l column), k, zeros, input, output⟩)
      (fun _ _ => rfl) (fun _ _ _ => .straight "-<<+>>" rfl rfl) n m
  have down : Runs ending "<<".toList ⟨cons 0 (cons (m + n) column), 0, zeros, input, output⟩
      ⟨column, m + n, cons 0 (cons 0 zeros), input, output⟩ :=
    .straight "<<" rfl rfl
  exact .recast rfl (sum.andThen down) (by simp [top])

theorem sub_runs (n m : UInt8) :
    Runs ending sub (top (cons n (cons 0 (cons m column))) input output)
      (top (cons (m - n) column) input output) := by
  have difference : Runs ending "[-<<->>]".toList
      ⟨cons 0 (cons m column), n, zeros, input, output⟩
      ⟨cons 0 (cons (m - n) column), 0, zeros, input, output⟩ := by
    have turn (k : UInt8) (_ : k ≠ 0) : Runs ending "-<<->>".toList
        ⟨cons 0 (cons (m - (n - k)) column), k, zeros, input, output⟩
        ⟨cons 0 (cons (m - (n - (k - 1))) column), k - 1, zeros, input, output⟩ := by
      have step : m - (n - (k - 1)) = m - (n - k) - 1 := by grind
      rw [step]
      exact .straight "-<<->>" rfl rfl
    exact .recast (by simp) (.countdown "-<<->>" rfl
      (fun k => ⟨cons 0 (cons (m - (n - k)) column), k, zeros, input, output⟩) (fun _ => rfl)
      turn n) (by simp)
  have down : Runs ending "<<".toList ⟨cons 0 (cons (m - n) column), 0, zeros, input, output⟩
      ⟨column, m - n, cons 0 (cons 0 zeros), input, output⟩ :=
    .straight "<<" rfl rfl
  exact .recast rfl (difference.andThen down) (by simp [top])

/-- Negation looks at nothing but its operand, and its operand may stand among other scratch
cells. -/
theorem not_runs_anywhere (left right : Stream' UInt8) (n : UInt8) :
    Runs ending not ⟨left, n, cons 0 (cons 0 right), input, output⟩
      ⟨left, Byte.ofBool (n = 0), cons 0 (cons 0 right), input, output⟩ := by
  -- The mark stands for a number that is not zero; it takes back the one that is put in place of the
  -- number.
  have mark : Runs ending ">>+<<".toList ⟨left, n, cons 0 (cons 0 right), input, output⟩
      ⟨left, n, cons 0 (cons 1 right), input, output⟩ :=
    .straight ">>+<<" rfl rfl
  have raise (found : UInt8) : Runs ending "+>>".toList
      ⟨left, 0, cons 0 (cons found right), input, output⟩
      ⟨cons 0 (cons 1 left), found, right, input, output⟩ :=
    .straight "+>>" rfl rfl
  have back (truth : UInt8) : Runs ending "<<".toList
      ⟨cons 0 (cons truth left), 0, right, input, output⟩
      ⟨left, truth, cons 0 (cons 0 right), input, output⟩ :=
    .straight "<<" rfl rfl
  by_cases zero : n = 0
  · subst n
    have passed : Runs ending "[>>+<<[-]]".toList
        ⟨left, 0, cons 0 (cons 0 right), input, output⟩
        ⟨left, 0, cons 0 (cons 0 right), input, output⟩ := .skip ">>+<<[-]" rfl rfl
    have kept : Runs ending "[<<->>-]".toList
        ⟨cons 0 (cons 1 left), 0, right, input, output⟩
        ⟨cons 0 (cons 1 left), 0, right, input, output⟩ := .skip "<<->>-" rfl rfl
    exact passed.andThen ((raise 0).andThen (kept.andThen (back 1)))
  · have noticed : Runs ending "[>>+<<[-]]".toList
        ⟨left, n, cons 0 (cons 0 right), input, output⟩
        ⟨left, 0, cons 0 (cons 1 right), input, output⟩ :=
      .once ">>+<<[-]" zero (mark.andThen (clear_runs input output _ _ n)) rfl
    have lower : Runs ending "<<->>-".toList
        ⟨cons 0 (cons 1 left), 1, right, input, output⟩
        ⟨cons 0 (cons (1 - 1) left), 1 - 1, right, input, output⟩ :=
      .straight "<<->>-" rfl rfl
    have taken : Runs ending "[<<->>-]".toList
        ⟨cons 0 (cons 1 left), 1, right, input, output⟩
        ⟨cons 0 (cons 0 left), 0, right, input, output⟩ :=
      .once "<<->>-" (by simp) (.recast rfl lower (by simp)) rfl
    have truth : Byte.ofBool (n = 0) = 0 := by simp [Byte.ofBool, zero]
    rw [truth]
    exact noticed.andThen ((raise 1).andThen (taken.andThen (back 0)))

theorem not_runs (n : UInt8) :
    Runs ending not (top (cons n column) input output)
      (top (cons (Byte.ofBool (n = 0)) column) input output) := by
  have negated := @not_runs_anywhere ending input output column zeros n
  exact .recast (by simp [top]) negated (by simp [top])

end TapeCode.Template
