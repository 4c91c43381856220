import TapeCode.Proofs.Bytes
import TapeCode.Proofs.Ribbon.Templates

/-!
# Products, quotients and comparison

These templates count one operand down. Each is a loop whose turn is stated first, for the cells it
uses and nothing else, and whose stages then give the result.
-/
namespace TapeCode.Template

open Stream' (cons)
open Ribbon (top)

variable {ending : EndOfInput} (column : Stream' UInt8) (input output : List UInt8)

/-! ## Products -/

/-- One turn adds the factor `n` to the sum below it. -/
private theorem mul_turn (n count sum : UInt8) :
    Runs ending "<<<<[<<+>>>>+<<-]>>[<<+>>-]>>-".toList
      ⟨cons 0 (cons 0 (cons 0 (cons n (cons 0 (cons sum column))))), count, zeros, input, output⟩
      ⟨cons 0 (cons 0 (cons 0 (cons n (cons 0 (cons (sum + n) column))))), count - 1, zeros, input,
        output⟩ := by
  have down : Runs ending "<<<<".toList
      ⟨cons 0 (cons 0 (cons 0 (cons n (cons 0 (cons sum column))))), count, zeros, input, output⟩
      ⟨cons 0 (cons sum column), n, cons 0 (cons 0 (cons 0 (cons count zeros))), input, output⟩ :=
    .straight "<<<<" rfl rfl
  -- The factor is added to the sum and copied at once; the copy is put back afterwards.
  have gain : Runs ending "[<<+>>>>+<<-]".toList
      ⟨cons 0 (cons sum column), n, cons 0 (cons 0 (cons 0 (cons count zeros))), input, output⟩
      ⟨cons 0 (cons (sum + n) column), 0, cons 0 (cons n (cons 0 (cons count zeros))), input,
        output⟩ := by
    have turn (k l : UInt8) : Ribbon.performAll ending
        ⟨cons 0 (cons (sum + l) column), k, cons 0 (cons l (cons 0 (cons count zeros))), input,
          output⟩ "<<+>>>>+<<-".toList =
        ⟨cons 0 (cons (sum + (l + 1)) column), k - 1,
          cons 0 (cons (l + 1) (cons 0 (cons count zeros))), input, output⟩ := by
      rw [← UInt8.add_assoc]
      rfl
    exact .recast (by simp) (.carry "<<+>>>>+<<-"
      (fun k l => ⟨cons 0 (cons (sum + l) column), k, cons 0 (cons l (cons 0 (cons count zeros))),
        input, output⟩) rfl (fun _ _ => rfl) turn n) rfl
  have up : Runs ending ">>".toList
      ⟨cons 0 (cons (sum + n) column), 0, cons 0 (cons n (cons 0 (cons count zeros))), input, output⟩
      ⟨cons 0 (cons 0 (cons 0 (cons (sum + n) column))), n, cons 0 (cons count zeros), input,
        output⟩ :=
    .straight ">>" rfl rfl
  have restore : Runs ending "[<<+>>-]".toList
      ⟨cons 0 (cons 0 (cons 0 (cons (sum + n) column))), n, cons 0 (cons count zeros), input, output⟩
      ⟨cons 0 (cons n (cons 0 (cons (sum + n) column))), 0, cons 0 (cons count zeros), input,
        output⟩ :=
    .carry "<<+>>-"
      (fun k l => ⟨cons 0 (cons l (cons 0 (cons (sum + n) column))), k, cons 0 (cons count zeros),
        input, output⟩) rfl (fun _ _ => rfl) (fun _ _ => rfl) n
  have lower : Runs ending ">>-".toList
      ⟨cons 0 (cons n (cons 0 (cons (sum + n) column))), 0, cons 0 (cons count zeros), input, output⟩
      ⟨cons 0 (cons 0 (cons 0 (cons n (cons 0 (cons (sum + n) column))))), count - 1, zeros, input,
        output⟩ :=
    .straight ">>-" rfl rfl
  exact down.andThen (gain.andThen (up.andThen (restore.andThen lower)))

private theorem mul_text :
    mul = "<<[>>>>>>+<<<<<<-]>>>>>>[<<<<[<<+>>>>+<<-]>>[<<+>>-]>>-]<<<<[-]<<".toList := by
  cbv

theorem mul_runs (n m : UInt8) :
    Runs ending mul (top (cons n (cons 0 (cons m column))) input output)
      (top (cons (m * n) column) input output) := by
  have down : Runs ending "<<".toList
      ⟨cons 0 (cons m column), n, cons 0 (cons 0 (cons 0 (cons 0 zeros))), input, output⟩
      ⟨column, m, cons 0 (cons n (cons 0 (cons 0 (cons 0 (cons 0 zeros))))), input, output⟩ :=
    .straight "<<" rfl rfl
  -- The lower factor is moved above the upper one, where it is counted down.
  have lift : Runs ending "[>>>>>>+<<<<<<-]".toList
      ⟨column, m, cons 0 (cons n (cons 0 (cons 0 (cons 0 (cons 0 zeros))))), input, output⟩
      ⟨column, 0, cons 0 (cons n (cons 0 (cons 0 (cons 0 (cons m zeros))))), input, output⟩ :=
    .carry ">>>>>>+<<<<<<-"
      (fun k l => ⟨column, k, cons 0 (cons n (cons 0 (cons 0 (cons 0 (cons l zeros))))), input,
        output⟩) rfl (fun _ _ => rfl) (fun _ _ => rfl) m
  have up : Runs ending ">>>>>>".toList
      ⟨column, 0, cons 0 (cons n (cons 0 (cons 0 (cons 0 (cons m zeros))))), input, output⟩
      ⟨cons 0 (cons 0 (cons 0 (cons n (cons 0 (cons 0 column))))), m, zeros, input, output⟩ :=
    .straight ">>>>>>" rfl rfl
  have product : Runs ending "[<<<<[<<+>>>>+<<-]>>[<<+>>-]>>-]".toList
      ⟨cons 0 (cons 0 (cons 0 (cons n (cons 0 (cons 0 column))))), m, zeros, input, output⟩
      ⟨cons 0 (cons 0 (cons 0 (cons n (cons 0 (cons (m * n) column))))), 0, zeros, input, output⟩ := by
    -- At count `k` the sum holds the factor as often as was counted already.
    have turn (k : UInt8) (_ : k ≠ 0) : Runs ending "<<<<[<<+>>>>+<<-]>>[<<+>>-]>>-".toList
        ⟨cons 0 (cons 0 (cons 0 (cons n (cons 0 (cons ((m - k) * n) column))))), k, zeros, input,
          output⟩
        ⟨cons 0 (cons 0 (cons 0 (cons n (cons 0 (cons ((m - (k - 1)) * n) column))))), k - 1, zeros,
          input, output⟩ := by
      have step : (m - (k - 1)) * n = (m - k) * n + n := by grind
      rw [step]
      exact mul_turn column input output n k _
    exact .recast (by simp) (.countdown "<<<<[<<+>>>>+<<-]>>[<<+>>-]>>-" rfl
      (fun k => ⟨cons 0 (cons 0 (cons 0 (cons n (cons 0 (cons ((m - k) * n) column))))), k, zeros,
        input, output⟩) (fun _ => rfl) turn m) (by simp)
  have back : Runs ending "<<<<".toList
      ⟨cons 0 (cons 0 (cons 0 (cons n (cons 0 (cons (m * n) column))))), 0, zeros, input, output⟩
      ⟨cons 0 (cons (m * n) column), n, cons 0 (cons 0 (cons 0 (cons 0 zeros))), input, output⟩ :=
    .straight "<<<<" rfl rfl
  have pop : Runs ending "[-]<<".toList
      ⟨cons 0 (cons (m * n) column), n, cons 0 (cons 0 (cons 0 (cons 0 zeros))), input, output⟩
      (top (cons (m * n) column) input output) :=
    .recast (by simp [top]) (popInt_runs (cons (m * n) column) input output n) rfl
  rw [mul_text]
  exact .recast (by simp [top])
    (down.andThen (lift.andThen (up.andThen (product.andThen (back.andThen pop))))) rfl

/-! ## Comparison -/

/-- One turn lowers both numbers, and raises `truth` if the second one was zero before. -/
private theorem greater_turn (n m truth : UInt8) :
    Runs ending ">>>>>>+<<<<[->>>>[-]>>+<<<<<<]>>>>[-<<+>>]>>[-<<<<<<+>>>>>>]<<<<<<-<<-".toList
      ⟨column, m, cons 0 (cons n (cons 0 (cons truth zeros))), input, output⟩
      ⟨column, m - 1, cons 0 (cons (n - 1) (cons 0 (cons (truth + Byte.ofBool (n = 0)) zeros))),
        input, output⟩ := by
  have mark : Runs ending ">>>>>>+<<<<".toList
      ⟨column, m, cons 0 (cons n (cons 0 (cons truth (cons 0 (cons 0 (cons 0 (cons 0 zeros))))))),
        input, output⟩
      ⟨cons 0 (cons m column), n, cons 0 (cons truth (cons 0 (cons 1 (cons 0 (cons 0 zeros))))),
        input, output⟩ :=
    .straight ">>>>>>+<<<<" rfl rfl
  -- the copy of the second number wipes the mark unless the number is zero
  have copied : Runs ending "[->>>>[-]>>+<<<<<<]".toList
      ⟨cons 0 (cons m column), n, cons 0 (cons truth (cons 0 (cons 1 (cons 0 (cons 0 zeros))))),
        input, output⟩
      ⟨cons 0 (cons m column), 0,
        cons 0 (cons truth (cons 0 (cons (Byte.ofBool (n = 0)) (cons 0 (cons n zeros))))), input,
        output⟩ := by
    have turn (k l found : UInt8) : Runs ending "->>>>[-]>>+<<<<<<".toList
        ⟨cons 0 (cons m column), k, cons 0 (cons truth (cons 0 (cons found (cons 0 (cons l zeros))))),
          input, output⟩
        ⟨cons 0 (cons m column), k - 1,
          cons 0 (cons truth (cons 0 (cons 0 (cons 0 (cons (l + 1) zeros))))), input, output⟩ := by
      have up : Runs ending "->>>>".toList
          ⟨cons 0 (cons m column), k, cons 0 (cons truth (cons 0 (cons found (cons 0 (cons l zeros))))),
            input, output⟩
          ⟨cons 0 (cons truth (cons 0 (cons (k - 1) (cons 0 (cons m column))))), found,
            cons 0 (cons l zeros), input, output⟩ :=
        .straight "->>>>" rfl rfl
      have down : Runs ending ">>+<<<<<<".toList
          ⟨cons 0 (cons truth (cons 0 (cons (k - 1) (cons 0 (cons m column))))), 0,
            cons 0 (cons l zeros), input, output⟩
          ⟨cons 0 (cons m column), k - 1,
            cons 0 (cons truth (cons 0 (cons 0 (cons 0 (cons (l + 1) zeros))))), input, output⟩ :=
        .straight ">>+<<<<<<" rfl rfl
      exact up.andThen ((clear_runs input output _ _ found).andThen down)
    by_cases zero : n = 0
    · subst n
      exact .skip "->>>>[-]>>+<<<<<<" rfl rfl
    · have first := turn n 0 1
      have others := Runs.transfer "->>>>[-]>>+<<<<<<" rfl
        (fun k l => ⟨cons 0 (cons m column), k,
          cons 0 (cons truth (cons 0 (cons 0 (cons 0 (cons l zeros))))), input, output⟩)
        (fun _ _ => rfl) (fun k l _ => turn k l 0) (n - 1) (0 + 1)
      have unmarked : Byte.ofBool (n = 0) = 0 := by simp [Byte.ofBool, zero]
      have whole : 0 + 1 + (n - 1) = n := by grind
      rw [unmarked]
      rw [whole] at others
      exact .again zero first others
  have up : Runs ending ">>>>".toList
      ⟨cons 0 (cons m column), 0,
        cons 0 (cons truth (cons 0 (cons (Byte.ofBool (n = 0)) (cons 0 (cons n zeros))))), input,
        output⟩
      ⟨cons 0 (cons truth (cons 0 (cons 0 (cons 0 (cons m column))))), Byte.ofBool (n = 0),
        cons 0 (cons n zeros), input, output⟩ :=
    .straight ">>>>" rfl rfl
  have noted : Runs ending "[-<<+>>]".toList
      ⟨cons 0 (cons truth (cons 0 (cons 0 (cons 0 (cons m column))))), Byte.ofBool (n = 0),
        cons 0 (cons n zeros), input, output⟩
      ⟨cons 0 (cons (truth + Byte.ofBool (n = 0)) (cons 0 (cons 0 (cons 0 (cons m column))))), 0,
        cons 0 (cons n zeros), input, output⟩ :=
    .transfer "-<<+>>" rfl
      (fun k l => ⟨cons 0 (cons l (cons 0 (cons 0 (cons 0 (cons m column))))), k,
        cons 0 (cons n zeros), input, output⟩) (fun _ _ => rfl)
      (fun _ _ _ => .straight "-<<+>>" rfl rfl) _ truth
  -- Only the noted truth matters from here on, not how it came about.
  generalize truth + Byte.ofBool (n = 0) = found at noted ⊢
  have onwards : Runs ending ">>".toList
      ⟨cons 0 (cons found (cons 0 (cons 0 (cons 0 (cons m column))))), 0, cons 0 (cons n zeros),
        input, output⟩
      ⟨cons 0 (cons 0 (cons 0 (cons found (cons 0 (cons 0 (cons 0 (cons m column))))))), n, zeros,
        input, output⟩ :=
    .straight ">>" rfl rfl
  have restored : Runs ending "[-<<<<<<+>>>>>>]".toList
      ⟨cons 0 (cons 0 (cons 0 (cons found (cons 0 (cons 0 (cons 0 (cons m column))))))), n, zeros,
        input, output⟩
      ⟨cons 0 (cons 0 (cons 0 (cons found (cons 0 (cons n (cons 0 (cons m column))))))), 0, zeros,
        input, output⟩ :=
    .carry "-<<<<<<+>>>>>>"
      (fun k l => ⟨cons 0 (cons 0 (cons 0 (cons found (cons 0 (cons l (cons 0 (cons m column))))))),
        k, zeros, input, output⟩) rfl (fun _ _ => rfl) (fun _ _ => rfl) n
  have back : Runs ending "<<<<<<-<<-".toList
      ⟨cons 0 (cons 0 (cons 0 (cons found (cons 0 (cons n (cons 0 (cons m column))))))), 0, zeros,
        input, output⟩
      ⟨column, m - 1, cons 0 (cons (n - 1) (cons 0 (cons found (cons 0 (cons 0 (cons 0 (cons 0
        zeros))))))), input, output⟩ :=
    .straight "<<<<<<-<<-" rfl rfl
  exact .recast (by simp)
    (mark.andThen (copied.andThen (up.andThen (noted.andThen (onwards.andThen (restored.andThen back))))))
    (by simp)

private theorem greater_text : greater =
    ("<<[>>>>>>+<<<<[->>>>[-]>>+<<<<<<]>>>>[-<<+>>]>>[-<<<<<<+>>>>>>]<<<<<<-<<-]" ++
      ">>>>[-<<<<+>>>>]<<[-]<<").toList := by
  cbv

/-- Lowering both numbers meets a zero of the second one before the first one is used up exactly if
the first one is greater. As they are bytes, the second one does not come round to zero again. -/
theorem greater_runs (n m : UInt8) :
    Runs ending greater (top (cons n (cons 0 (cons m column))) input output)
      (top (cons (Byte.ofBool (n < m)) column) input output) := by
  have down : Runs ending "<<".toList
      ⟨cons 0 (cons m column), n, cons 0 (cons 0 zeros), input, output⟩
      ⟨column, m, cons 0 (cons n (cons 0 (cons 0 zeros))), input, output⟩ :=
    .straight "<<" rfl rfl
  have lowered : Runs ending
      "[>>>>>>+<<<<[->>>>[-]>>+<<<<<<]>>>>[-<<+>>]>>[-<<<<<<+>>>>>>]<<<<<<-<<-]".toList
      ⟨column, m, cons 0 (cons n (cons 0 (cons 0 zeros))), input, output⟩
      ⟨column, 0, cons 0 (cons (n - m) (cons 0 (cons (Byte.ofBool (n < m)) zeros))), input,
        output⟩ := by
    have bound := m.toNat_lt
    -- After `j` turns the truth says whether the second number is below `j`, as its zero was met then.
    have turn (j : Nat) (below : j < m.toNat) : Runs ending
        ">>>>>>+<<<<[->>>>[-]>>+<<<<<<]>>>>[-<<+>>]>>[-<<<<<<+>>>>>>]<<<<<<-<<-".toList
        ⟨column, m - UInt8.ofNat j, cons 0 (cons (n - UInt8.ofNat j)
          (cons 0 (cons (Byte.ofBool (n.toNat < j)) zeros))), input, output⟩
        ⟨column, m - UInt8.ofNat (j + 1), cons 0 (cons (n - UInt8.ofNat (j + 1))
          (cons 0 (cons (Byte.ofBool (n.toNat < j + 1)) zeros))), input, output⟩ := by
      -- Within this many turns a byte is lowered to zero once only, which is why the truth stays a truth.
      have zero := Byte.sub_ofNat_eq_zero_iff n (j := j) (by omega)
      have truth : Byte.ofBool (n.toNat < j) + Byte.ofBool (n - UInt8.ofNat j = 0)
          = Byte.ofBool (n.toNat < j + 1) :=
        Byte.ofBool_add_ofBool (by rw [zero]; omega) (by rw [zero]; omega)
      rw [← truth, Byte.sub_ofNat_succ, Byte.sub_ofNat_succ]
      exact greater_turn column input output (n - UInt8.ofNat j) (m - UInt8.ofNat j) _
    have nonzero (j : Nat) (below : j < m.toNat) : m - UInt8.ofNat j ≠ 0 := by
      rw [Ne, Byte.sub_ofNat_eq_zero_iff m (by omega)]
      omega
    exact .recast (by simp [Byte.ofBool]) (.stages
      ">>>>>>+<<<<[->>>>[-]>>+<<<<<<]>>>>[-<<+>>]>>[-<<<<<<+>>>>>>]<<<<<<-<<-" rfl
      (fun j => ⟨column, m - UInt8.ofNat j, cons 0 (cons (n - UInt8.ofNat j)
        (cons 0 (cons (Byte.ofBool (n.toNat < j)) zeros))), input, output⟩) m.toNat nonzero turn
      (by simp)) (by simp [UInt8.lt_iff_toNat_lt])
  have up : Runs ending ">>>>".toList
      ⟨column, 0, cons 0 (cons (n - m) (cons 0 (cons (Byte.ofBool (n < m)) zeros))), input, output⟩
      ⟨cons 0 (cons (n - m) (cons 0 (cons 0 column))), Byte.ofBool (n < m), zeros, input, output⟩ :=
    .straight ">>>>" rfl rfl
  have lower : Runs ending "[-<<<<+>>>>]".toList
      ⟨cons 0 (cons (n - m) (cons 0 (cons 0 column))), Byte.ofBool (n < m), zeros, input, output⟩
      ⟨cons 0 (cons (n - m) (cons 0 (cons (Byte.ofBool (n < m)) column))), 0, zeros, input,
        output⟩ :=
    .carry "-<<<<+>>>>"
      (fun k l => ⟨cons 0 (cons (n - m) (cons 0 (cons l column))), k, zeros, input, output⟩)
      rfl (fun _ _ => rfl) (fun _ _ => rfl) (Byte.ofBool (n < m))
  have back : Runs ending "<<".toList
      ⟨cons 0 (cons (n - m) (cons 0 (cons (Byte.ofBool (n < m)) column))), 0, zeros, input, output⟩
      ⟨cons 0 (cons (Byte.ofBool (n < m)) column), n - m, cons 0 (cons 0 zeros), input, output⟩ :=
    .straight "<<" rfl rfl
  have pop : Runs ending "[-]<<".toList
      ⟨cons 0 (cons (Byte.ofBool (n < m)) column), n - m, cons 0 (cons 0 zeros), input, output⟩
      (top (cons (Byte.ofBool (n < m)) column) input output) :=
    .recast (by simp [top]) (popInt_runs _ input output (n - m)) rfl
  rw [greater_text]
  exact .recast (by simp [top])
    (down.andThen (lowered.andThen (up.andThen (lower.andThen (back.andThen pop))))) rfl

end TapeCode.Template
