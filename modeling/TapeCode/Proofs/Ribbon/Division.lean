import TapeCode.Proofs.Bytes
import TapeCode.Proofs.Ribbon.Templates

/-!
# Quotients

Division counts the dividend down, and with it a countdown that starts from the divisor over and
over; the quotient is the number of restarts. After `j` turns the countdown has `j % n` less than
the divisor `n`, and the quotient is `j / n`. Division by zero needs no case of its own: a countdown
from zero does not meet zero again before a whole round.
-/
namespace TapeCode.Template

open Stream' (cons)
open Ribbon (top)

variable {ending : EndOfInput} (column : Stream' UInt8) (input output : List UInt8)

/-! ## The countdown as a number -/

/-- The countdown after `j` turns. -/
private def countdown (n : UInt8) (j : Nat) : UInt8 := n - UInt8.ofNat (j % n.toNat)

private def restarts (n : UInt8) (j : Nat) : UInt8 := UInt8.ofNat (j / n.toNat)

/-- A step that completes a multiple of the divisor. -/
private theorem divMod_complete {n j : Nat} (complete : n = j % n + 1) :
    (j + 1) / n = j / n + 1 ∧ (j + 1) % n = 0 := by
  refine (Nat.div_mod_unique (by omega)).mpr ⟨?_, by omega⟩
  have whole := Nat.mod_add_div j n
  rw [Nat.mul_add]
  omega

private theorem divMod_incomplete {n j : Nat} (incomplete : n ≠ j % n + 1) :
    (j + 1) / n = j / n ∧ (j + 1) % n = j % n + 1 := by
  rcases Nat.eq_zero_or_pos n with rfl | positive
  · simp
  · have below := Nat.mod_lt j positive
    refine (Nat.div_mod_unique positive).mpr ⟨?_, by omega⟩
    have whole := Nat.mod_add_div j n
    omega

/-- The countdown meets zero in the turn that completes a multiple of the divisor. -/
private theorem countdown_meets_zero (n : UInt8) {j : Nat} (small : j + 1 < 256) :
    countdown n j - 1 = 0 ↔ n.toNat = j % n.toNat + 1 := by
  have bound := n.toNat_lt
  have below : j % n.toNat + 1 < 256 := by
    have := Nat.mod_le j n.toNat
    omega
  rw [countdown, ← Byte.sub_ofNat_succ, Byte.sub_ofNat_eq_zero_iff n below]

private theorem countdown_succ (n : UInt8) {j : Nat} (small : j + 1 < 256) :
    (if countdown n j - 1 = 0 then n else countdown n j - 1) = countdown n (j + 1) := by
  simp only [countdown_meets_zero n small]
  split
  next complete => simp [countdown, (divMod_complete complete).2]
  next incomplete =>
    rw [countdown, countdown, (divMod_incomplete incomplete).2, Byte.sub_ofNat_succ]

private theorem restarts_succ (n : UInt8) {j : Nat} (small : j + 1 < 256) :
    (if countdown n j - 1 = 0 then restarts n j + 1 else restarts n j) = restarts n (j + 1) := by
  simp only [countdown_meets_zero n small, restarts]
  split
  next complete => rw [(divMod_complete complete).1, UInt8.ofNat_add, UInt8.ofNat_one]
  next incomplete => rw [(divMod_incomplete incomplete).1]

/-! ## The loops -/

/-- The divisor is copied to the countdown, by way of the cell for the test. -/
private theorem refill_runs (left : Stream' UInt8) (n q : UInt8) :
    Runs ending "[->>+>>>>+<<<<<<]>>>>>>[-<<<<<<+>>>>>>]".toList
      ⟨left, n, cons 0 (cons 0 (cons 0 (cons q zeros))), input, output⟩
      ⟨cons 0 (cons q (cons 0 (cons n (cons 0 (cons n left))))), 0, zeros, input, output⟩ := by
  have copied : Runs ending "[->>+>>>>+<<<<<<]".toList
      ⟨left, n, cons 0 (cons 0 (cons 0 (cons q (cons 0 (cons 0 zeros))))), input, output⟩
      ⟨left, 0, cons 0 (cons n (cons 0 (cons q (cons 0 (cons n zeros))))), input, output⟩ :=
    .carry "->>+>>>>+<<<<<<"
      (fun k l => ⟨left, k, cons 0 (cons l (cons 0 (cons q (cons 0 (cons l zeros))))), input,
        output⟩) rfl (fun _ _ => rfl) (fun _ _ => rfl) n
  have up : Runs ending ">>>>>>".toList
      ⟨left, 0, cons 0 (cons n (cons 0 (cons q (cons 0 (cons n zeros))))), input, output⟩
      ⟨cons 0 (cons q (cons 0 (cons n (cons 0 (cons 0 left))))), n, zeros, input, output⟩ :=
    .straight ">>>>>>" rfl rfl
  have restored : Runs ending "[-<<<<<<+>>>>>>]".toList
      ⟨cons 0 (cons q (cons 0 (cons n (cons 0 (cons 0 left))))), n, zeros, input, output⟩
      ⟨cons 0 (cons q (cons 0 (cons n (cons 0 (cons n left))))), 0, zeros, input, output⟩ :=
    .carry "-<<<<<<+>>>>>>"
      (fun k l => ⟨cons 0 (cons q (cons 0 (cons n (cons 0 (cons l left))))), k, zeros, input,
        output⟩) rfl (fun _ _ => rfl) (fun _ _ => rfl) n
  exact .recast (by simp) (copied.andThen (up.andThen restored)) rfl

/-- A copy of the countdown is left in the cell for the test. -/
private theorem probe_runs (left : Stream' UInt8) (r q : UInt8) :
    Runs ending "[->>>>+>>+<<<<<<]>>>>>>[-<<<<<<+>>>>>>]<<".toList
      ⟨left, r, cons 0 (cons q zeros), input, output⟩
      ⟨cons 0 (cons q (cons 0 (cons r left))), r, cons 0 (cons 0 zeros), input, output⟩ := by
  -- Two copies are made, and one of them goes back to where the countdown was.
  have copied : Runs ending "[->>>>+>>+<<<<<<]".toList
      ⟨left, r, cons 0 (cons q (cons 0 (cons 0 (cons 0 (cons 0 zeros))))), input, output⟩
      ⟨left, 0, cons 0 (cons q (cons 0 (cons r (cons 0 (cons r zeros))))), input, output⟩ :=
    .carry "->>>>+>>+<<<<<<"
      (fun k l => ⟨left, k, cons 0 (cons q (cons 0 (cons l (cons 0 (cons l zeros))))), input,
        output⟩) rfl (fun _ _ => rfl) (fun _ _ => rfl) r
  have up : Runs ending ">>>>>>".toList
      ⟨left, 0, cons 0 (cons q (cons 0 (cons r (cons 0 (cons r zeros))))), input, output⟩
      ⟨cons 0 (cons r (cons 0 (cons q (cons 0 (cons 0 left))))), r, zeros, input, output⟩ :=
    .straight ">>>>>>" rfl rfl
  have restored : Runs ending "[-<<<<<<+>>>>>>]".toList
      ⟨cons 0 (cons r (cons 0 (cons q (cons 0 (cons 0 left))))), r, zeros, input, output⟩
      ⟨cons 0 (cons r (cons 0 (cons q (cons 0 (cons r left))))), 0, zeros, input, output⟩ :=
    .carry "-<<<<<<+>>>>>>"
      (fun k l => ⟨cons 0 (cons r (cons 0 (cons q (cons 0 (cons l left))))), k, zeros, input,
        output⟩) rfl (fun _ _ => rfl) (fun _ _ => rfl) r
  have down : Runs ending "<<".toList
      ⟨cons 0 (cons r (cons 0 (cons q (cons 0 (cons r left))))), 0, zeros, input, output⟩
      ⟨cons 0 (cons q (cons 0 (cons r left))), r, cons 0 (cons 0 zeros), input, output⟩ :=
    .straight "<<" rfl rfl
  exact .recast (by simp) (copied.andThen (up.andThen (restored.andThen down))) rfl

/-- If the countdown has met zero, it starts again, and the quotient grows. -/
private theorem restart_runs (left : Stream' UInt8) (n r q : UInt8) :
    Runs ending "[-<<+<<<<[->>+>>>>+<<<<<<]>>>>>>[-<<<<<<+>>>>>>]]".toList
      ⟨cons 0 (cons q (cons 0 (cons r (cons 0 (cons n left))))), Byte.ofBool (r = 0), zeros, input,
        output⟩
      ⟨cons 0 (cons (if r = 0 then q + 1 else q) (cons 0 (cons (if r = 0 then n else r)
        (cons 0 (cons n left))))), 0, zeros, input, output⟩ := by
  by_cases zero : r = 0
  · subst r
    have grown : Runs ending "-<<+<<<<".toList
        ⟨cons 0 (cons q (cons 0 (cons 0 (cons 0 (cons n left))))), 1, zeros, input, output⟩
        ⟨left, n, cons 0 (cons 0 (cons 0 (cons (q + 1) (cons 0 (cons (1 - 1) zeros))))), input,
          output⟩ :=
      .straight "-<<+<<<<" rfl rfl
    have refilled := @refill_runs ending input output left n (q + 1)
    exact .once "-<<+<<<<[->>+>>>>+<<<<<<]>>>>>>[-<<<<<<+>>>>>>]" (by simp [Byte.ofBool])
      (grown.andThen (.recast (by simp) refilled rfl)) rfl
  · have unset : Byte.ofBool (r = 0) = 0 := by simp [Byte.ofBool, zero]
    rw [unset]
    simp only [zero, if_false]
    exact .skip "-<<+<<<<[->>+>>>>+<<<<<<]>>>>>>[-<<<<<<+>>>>>>]" rfl rfl

private def divTurn : String :=
  "->>>>-" ++ ("[->>>>+>>+<<<<<<]>>>>>>[-<<<<<<+>>>>>>]<<" ++ ("[>>+<<[-]]+>>[<<->>-]<<" ++
    ("[-<<+<<<<[->>+>>>>+<<<<<<]>>>>>>[-<<<<<<+>>>>>>]]" ++ "<<<<<<<<")))

private theorem div_text : div =
    ("[->>+>>>>+<<<<<<]>>>>>>[-<<<<<<+>>>>>>]" ++ ("<<<<<<<<" ++ (("[" ++ divTurn ++ "]") ++
      (">>" ++ ("[-]" ++ (">>" ++ ("[-]" ++ (">>" ++ ("[-<<<<<<+>>>>>>]" ++
        "<<<<<<"))))))))).toList := by
  simp only [divTurn, String.toList_append]
  decide +kernel

private theorem div_turn (n m r q : UInt8) :
    Runs ending divTurn.toList
      ⟨column, m, cons 0 (cons n (cons 0 (cons r (cons 0 (cons q zeros))))), input, output⟩
      ⟨column, m - 1, cons 0 (cons n (cons 0 (cons (if r - 1 = 0 then n else r - 1)
        (cons 0 (cons (if r - 1 = 0 then q + 1 else q) zeros))))), input, output⟩ := by
  have up : Runs ending "->>>>-".toList
      ⟨column, m, cons 0 (cons n (cons 0 (cons r (cons 0 (cons q zeros))))), input, output⟩
      ⟨cons 0 (cons n (cons 0 (cons (m - 1) column))), r - 1, cons 0 (cons q zeros), input,
        output⟩ :=
    .straight "->>>>-" rfl rfl
  -- Whether the countdown starts again depends on the lowered one only.
  generalize r - 1 = r at up ⊢
  have probed := @probe_runs ending input output
    (cons 0 (cons n (cons 0 (cons (m - 1) column)))) r q
  -- The copy of the countdown is replaced by whether it is zero, which is what the restart asks.
  have tested : Runs ending "[>>+<<[-]]+>>[<<->>-]<<".toList
      ⟨cons 0 (cons q (cons 0 (cons r (cons 0 (cons n (cons 0 (cons (m - 1) column))))))), r,
        cons 0 (cons 0 zeros), input, output⟩
      ⟨cons 0 (cons q (cons 0 (cons r (cons 0 (cons n (cons 0 (cons (m - 1) column))))))),
        Byte.ofBool (r = 0), zeros, input, output⟩ :=
    .recast rfl (not_runs_anywhere input output _ zeros r) (by simp)
  have restarted := @restart_runs ending input output
    (cons 0 (cons (m - 1) column)) n r q
  generalize (if r = 0 then n else r) = r', (if r = 0 then q + 1 else q) = q' at restarted ⊢
  have down : Runs ending "<<<<<<<<".toList
      ⟨cons 0 (cons q' (cons 0 (cons r' (cons 0 (cons n (cons 0 (cons (m - 1) column))))))), 0,
        zeros, input, output⟩
      ⟨column, m - 1, cons 0 (cons n (cons 0 (cons r' (cons 0 (cons q' (cons 0 (cons 0 zeros))))))),
        input, output⟩ :=
    .straight "<<<<<<<<" rfl rfl
  exact .recast rfl
    (up.andThen (probed.andThen (tested.andThen (restarted.andThen down)))) (by simp)

theorem div_runs (n m : UInt8) :
    Runs ending div (top (cons n (cons 0 (cons m column))) input output)
      (top (cons (m / n) column) input output) := by
  have refilled := @refill_runs ending input output (cons 0 (cons m column)) n 0
  have down : Runs ending "<<<<<<<<".toList
      ⟨cons 0 (cons 0 (cons 0 (cons n (cons 0 (cons n (cons 0 (cons m column))))))), 0, zeros, input,
        output⟩
      ⟨column, m, cons 0 (cons n (cons 0 (cons n (cons 0 (cons 0 (cons 0 (cons 0 zeros))))))), input,
        output⟩ :=
    .straight "<<<<<<<<" rfl rfl
  have settled : Runs ending "<<<<<<<<".toList
      ⟨cons 0 (cons 0 (cons 0 (cons n (cons 0 (cons n (cons 0 (cons m column))))))), 0, zeros, input,
        output⟩
      ⟨column, m, cons 0 (cons n (cons 0 (cons n zeros))), input, output⟩ :=
    .recast rfl down (by simp)
  have bound := m.toNat_lt
  -- So many turns lower the dividend by as much; the countdown has then gone round as often as the
  -- divisor fits in, which is the quotient.
  have turn (j : Nat) (below : j < m.toNat) : Runs ending divTurn.toList
      ⟨column, m - UInt8.ofNat j, cons 0 (cons n (cons 0 (cons (countdown n j)
        (cons 0 (cons (restarts n j) zeros))))), input, output⟩
      ⟨column, m - UInt8.ofNat (j + 1), cons 0 (cons n (cons 0 (cons (countdown n (j + 1))
        (cons 0 (cons (restarts n (j + 1)) zeros))))), input, output⟩ := by
    rw [← countdown_succ n (by omega), ← restarts_succ n (by omega), Byte.sub_ofNat_succ]
    exact div_turn column input output n (m - UInt8.ofNat j) (countdown n j) (restarts n j)
  have nonzero (j : Nat) (below : j < m.toNat) : m - UInt8.ofNat j ≠ 0 := by
    rw [Ne, Byte.sub_ofNat_eq_zero_iff m (by omega)]
    omega
  have quotient : restarts n m.toNat = m / n := by
    rw [restarts, ← UInt8.toNat_div, UInt8.ofNat_toNat]
  obtain ⟨r, divided⟩ : ∃ r, Runs ending ("[" ++ divTurn ++ "]").toList
      ⟨column, m, cons 0 (cons n (cons 0 (cons n zeros))), input, output⟩
      ⟨column, 0, cons 0 (cons n (cons 0 (cons r (cons 0 (cons (m / n) zeros))))), input, output⟩ :=
    ⟨countdown n m.toNat, .recast (by simp [countdown, restarts]) (.stages divTurn
      (by decide +kernel)
      (fun j => ⟨column, m - UInt8.ofNat j, cons 0 (cons n (cons 0 (cons (countdown n j)
        (cons 0 (cons (restarts n j) zeros))))), input, output⟩) m.toNat nonzero turn (by simp))
      (by simp only [quotient, UInt8.ofNat_toNat, UInt8.sub_self])⟩
  -- Divisor and countdown are cleared on the way to the quotient, which goes below them.
  have toDivisor : Runs ending ">>".toList
      ⟨column, 0, cons 0 (cons n (cons 0 (cons r (cons 0 (cons (m / n) zeros))))), input, output⟩
      ⟨cons 0 (cons 0 column), n, cons 0 (cons r (cons 0 (cons (m / n) zeros))), input, output⟩ :=
    .straight ">>" rfl rfl
  have toCountdown : Runs ending ">>".toList
      ⟨cons 0 (cons 0 column), 0, cons 0 (cons r (cons 0 (cons (m / n) zeros))), input, output⟩
      ⟨cons 0 (cons 0 (cons 0 (cons 0 column))), r, cons 0 (cons (m / n) zeros), input, output⟩ :=
    .straight ">>" rfl rfl
  have toQuotient : Runs ending ">>".toList
      ⟨cons 0 (cons 0 (cons 0 (cons 0 column))), 0, cons 0 (cons (m / n) zeros), input, output⟩
      ⟨cons 0 (cons 0 (cons 0 (cons 0 (cons 0 (cons 0 column))))), m / n, zeros, input, output⟩ :=
    .straight ">>" rfl rfl
  have lower : Runs ending "[-<<<<<<+>>>>>>]".toList
      ⟨cons 0 (cons 0 (cons 0 (cons 0 (cons 0 (cons 0 column))))), m / n, zeros, input, output⟩
      ⟨cons 0 (cons 0 (cons 0 (cons 0 (cons 0 (cons (m / n) column))))), 0, zeros, input, output⟩ :=
    .carry "-<<<<<<+>>>>>>"
      (fun k l => ⟨cons 0 (cons 0 (cons 0 (cons 0 (cons 0 (cons l column))))), k, zeros, input,
        output⟩) rfl (fun _ _ => rfl) (fun _ _ => rfl) (m / n)
  have back : Runs ending "<<<<<<".toList
      ⟨cons 0 (cons 0 (cons 0 (cons 0 (cons 0 (cons (m / n) column))))), 0, zeros, input, output⟩
      ⟨column, m / n, cons 0 (cons 0 (cons 0 (cons 0 (cons 0 (cons 0 zeros))))), input, output⟩ :=
    .straight "<<<<<<" rfl rfl
  rw [div_text]
  exact .recast (by simp [top]) (refilled.andThen (settled.andThen (divided.andThen
    (toDivisor.andThen ((clear_runs input output _ _ n).andThen
      (toCountdown.andThen ((clear_runs input output _ _ r).andThen
        (toQuotient.andThen (lower.andThen back))))))))) (by simp [top])

end TapeCode.Template
