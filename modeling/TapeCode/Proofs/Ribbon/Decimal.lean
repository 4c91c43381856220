import TapeCode.Proofs.Bytes
import TapeCode.Proofs.Ribbon.Templates

/-!
# Printing numbers

The template for printing writes the digits of a copy of the number side by side, the last digit
first, and then prints them on its way back. A digit is split off by counting the number down, with
a countdown from ten beside it, the digit behind that and the quotient behind the digit.
-/
namespace TapeCode.Template

open Stream' (cons)
open Ribbon (top)

variable {ending : EndOfInput} (column : Stream' UInt8) (input output : List UInt8)

/-! ## Digits -/

/-- The digits of a number as the template finds them: zero has none. -/
private def decimals (n : UInt8) : List UInt8 := if n = 0 then [] else Byte.digits n

private theorem digits_zero : Byte.digits 0 = [48] := by cbv

/-- The last digit of a number stands behind those of its tenth. -/
private theorem decimals_of_nonzero :
    ∀ n : UInt8, n ≠ 0 → decimals n = decimals (n / 10) ++ [48 + n % 10] :=
  Byte.forall_of_lt (by decide +kernel)

private theorem digits_ne_zero (n : UInt8) : ∀ d ∈ Byte.digits n, d ≠ 0 := by
  have none : ∀ n : UInt8, 0 ∉ Byte.digits n := Byte.forall_of_lt (by decide +kernel)
  rintro d member rfl
  exact none n member

/-- Cells with these values, the first one nearest, each with a zero link before it. -/
private def stacked (values : List UInt8) (left : Stream' UInt8) : Stream' UInt8 :=
  values.foldr (fun value rest => cons 0 (cons value rest)) left

private theorem stacked_append (first second : List UInt8) (left : Stream' UInt8) :
    stacked (first ++ second) left = stacked first (stacked second left) :=
  List.foldr_append

private theorem stacked_link (values : List UInt8) (left : Stream' UInt8) :
    (stacked values (cons 0 left)).head = 0 := by
  cases values <;> rfl

/-! ## Splitting off a digit -/

private def splitTurn : String :=
  "->>-" ++ ("[>>+>>>>]" ++ (">>" ++ ("[+[-<<+>>]>>+>>>>]" ++ "<<<<<<<<<<")))

/-- The last digit of a number is split off and becomes a character. -/
private def digitTurn : String :=
  ">>++++++++++<<" ++ (("[" ++ splitTurn ++ "]") ++ (">>" ++ ("[-]" ++ ("++++++++[<<++++++>>-]" ++
    (">>" ++ ("[<<<<+>>>>-]" ++ (">>" ++ ("[<<<<+>>>>-]" ++ "<<<<"))))))))

/-- The brackets of the loops match. -/
private theorem turns_matched : Balanced.scan 0 splitTurn.toList = true ∧
    Balanced.scan 0 digitTurn.toList = true ∧
    Balanced.scan 0 ("<<->>" ++ (("[" ++ digitTurn ++ "]") ++ ">>")).toList = true := by
  decide +kernel

/-- One turn while the countdown lasts. -/
private theorem split_onwards (left : Stream' UInt8) (v d r q : UInt8) (lasts : d - 1 ≠ 0) :
    Runs ending splitTurn.toList
      ⟨left, v, cons 0 (cons d (cons 0 (cons r (cons 0 (cons q zeros))))), input, output⟩
      ⟨left, v - 1, cons 0 (cons (d - 1) (cons 0 (cons (r + 1) (cons 0 (cons q zeros))))), input,
        output⟩ := by
  -- The number and the countdown are lowered, and the countdown is not zero yet.
  have down : Runs ending "->>-".toList
      ⟨left, v, cons 0 (cons d (cons 0 (cons r (cons 0 (cons q zeros))))), input, output⟩
      ⟨cons 0 (cons (v - 1) left), d - 1, cons 0 (cons r (cons 0 (cons q zeros))), input, output⟩ :=
    .straight "->>-" rfl rfl
  have counted : Runs ending ">>+>>>>".toList
      ⟨cons 0 (cons (v - 1) left), d - 1,
        cons 0 (cons r (cons 0 (cons q (cons 0 (cons 0 zeros))))), input, output⟩
      ⟨cons 0 (cons q (cons 0 (cons (r + 1) (cons 0 (cons (d - 1) (cons 0 (cons (v - 1) left))))))),
        0, zeros, input, output⟩ :=
    .straight ">>+>>>>" rfl rfl
  -- So the digit grows, and the walk ends where the second loop finds nothing to do.
  have passed : Runs ending "[>>+>>>>]".toList
      ⟨cons 0 (cons (v - 1) left), d - 1, cons 0 (cons r (cons 0 (cons q zeros))), input, output⟩
      ⟨cons 0 (cons q (cons 0 (cons (r + 1) (cons 0 (cons (d - 1) (cons 0 (cons (v - 1) left))))))),
        0, zeros, input, output⟩ :=
    .once ">>+>>>>" lasts (.recast (by simp) counted rfl) rfl
  have up : Runs ending ">>".toList
      ⟨cons 0 (cons q (cons 0 (cons (r + 1) (cons 0 (cons (d - 1) (cons 0 (cons (v - 1) left))))))),
        0, zeros, input, output⟩
      ⟨cons 0 (cons 0 (cons 0 (cons q (cons 0 (cons (r + 1) (cons 0 (cons (d - 1)
        (cons 0 (cons (v - 1) left))))))))), 0, zeros, input, output⟩ :=
    .straight ">>" rfl rfl
  have skipped : Runs ending "[+[-<<+>>]>>+>>>>]".toList
      ⟨cons 0 (cons 0 (cons 0 (cons q (cons 0 (cons (r + 1) (cons 0 (cons (d - 1)
        (cons 0 (cons (v - 1) left))))))))), 0, zeros, input, output⟩
      ⟨cons 0 (cons 0 (cons 0 (cons q (cons 0 (cons (r + 1) (cons 0 (cons (d - 1)
        (cons 0 (cons (v - 1) left))))))))), 0, zeros, input, output⟩ :=
    .skip "+[-<<+>>]>>+>>>>" rfl rfl
  have back : Runs ending "<<<<<<<<<<".toList
      ⟨cons 0 (cons 0 (cons 0 (cons q (cons 0 (cons (r + 1) (cons 0 (cons (d - 1)
        (cons 0 (cons (v - 1) left))))))))), 0, zeros, input, output⟩
      ⟨left, v - 1, cons 0 (cons (d - 1) (cons 0 (cons (r + 1) (cons 0 (cons q (cons 0 (cons 0
        (cons 0 (cons 0 zeros))))))))), input, output⟩ :=
    .straight "<<<<<<<<<<" rfl rfl
  -- The cells behind the quotient were only walked over.
  exact .recast rfl (down.andThen (passed.andThen (up.andThen (skipped.andThen back)))) (by simp)

/-- The turn in which the countdown meets zero: it starts again from ten, which the digit has
reached, and the quotient grows. -/
private theorem split_around (left : Stream' UInt8) (v r q : UInt8) (nonzero : r ≠ 0) :
    Runs ending splitTurn.toList
      ⟨left, v, cons 0 (cons 1 (cons 0 (cons r (cons 0 (cons q zeros))))), input, output⟩
      ⟨left, v - 1, cons 0 (cons (r + 1) (cons 0 (cons 0 (cons 0 (cons (q + 1) zeros))))), input,
        output⟩ := by
  have down : Runs ending "->>-".toList
      ⟨left, v, cons 0 (cons 1 (cons 0 (cons r (cons 0 (cons q zeros))))), input, output⟩
      ⟨cons 0 (cons (v - 1) left), 1 - 1, cons 0 (cons r (cons 0 (cons q zeros))), input, output⟩ :=
    .straight "->>-" rfl rfl
  -- The countdown has become zero, so the digit is not raised by the first loop.
  have skipped : Runs ending "[>>+>>>>]".toList
      ⟨cons 0 (cons (v - 1) left), 1 - 1, cons 0 (cons r (cons 0 (cons q zeros))), input, output⟩
      ⟨cons 0 (cons (v - 1) left), 1 - 1, cons 0 (cons r (cons 0 (cons q zeros))), input, output⟩ :=
    .skip ">>+>>>>" rfl rfl
  have up : Runs ending ">>".toList
      ⟨cons 0 (cons (v - 1) left), 1 - 1, cons 0 (cons r (cons 0 (cons q zeros))), input, output⟩
      ⟨cons 0 (cons 0 (cons 0 (cons (v - 1) left))), r, cons 0 (cons q zeros), input, output⟩ :=
    .straight ">>" rfl rfl
  have raised : Runs ending "+".toList
      ⟨cons 0 (cons 0 (cons 0 (cons (v - 1) left))), r, cons 0 (cons q zeros), input, output⟩
      ⟨cons 0 (cons 0 (cons 0 (cons (v - 1) left))), r + 1, cons 0 (cons q zeros), input, output⟩ :=
    .straight "+" rfl rfl
  -- The digit is now ten; it becomes the next countdown, and the quotient grows.
  have moved : Runs ending "[-<<+>>]".toList
      ⟨cons 0 (cons 0 (cons 0 (cons (v - 1) left))), r + 1, cons 0 (cons q zeros), input, output⟩
      ⟨cons 0 (cons (r + 1) (cons 0 (cons (v - 1) left))), 0, cons 0 (cons q zeros), input,
        output⟩ :=
    .carry "-<<+>>" (fun k l => ⟨cons 0 (cons l (cons 0 (cons (v - 1) left))), k,
      cons 0 (cons q zeros), input, output⟩) rfl (fun _ _ => rfl) (fun _ _ => rfl) (r + 1)
  have grown : Runs ending ">>+>>>>".toList
      ⟨cons 0 (cons (r + 1) (cons 0 (cons (v - 1) left))), 0, cons 0 (cons q (cons 0 (cons 0 (cons 0
        (cons 0 zeros))))), input, output⟩
      ⟨cons 0 (cons 0 (cons 0 (cons (q + 1) (cons 0 (cons 0 (cons 0 (cons (r + 1) (cons 0
        (cons (v - 1) left))))))))), 0, zeros, input, output⟩ :=
    .straight ">>+>>>>" rfl rfl
  -- All of this is one turn of the second loop, which ends behind the quotient.
  have taken : Runs ending "[+[-<<+>>]>>+>>>>]".toList
      ⟨cons 0 (cons 0 (cons 0 (cons (v - 1) left))), r, cons 0 (cons q zeros), input, output⟩
      ⟨cons 0 (cons 0 (cons 0 (cons (q + 1) (cons 0 (cons 0 (cons 0 (cons (r + 1) (cons 0
        (cons (v - 1) left))))))))), 0, zeros, input, output⟩ :=
    .once "+[-<<+>>]>>+>>>>" nonzero
      (raised.andThen (moved.andThen (.recast (by simp) grown rfl))) rfl
  have back : Runs ending "<<<<<<<<<<".toList
      ⟨cons 0 (cons 0 (cons 0 (cons (q + 1) (cons 0 (cons 0 (cons 0 (cons (r + 1) (cons 0
        (cons (v - 1) left))))))))), 0, zeros, input, output⟩
      ⟨left, v - 1, cons 0 (cons (r + 1) (cons 0 (cons 0 (cons 0 (cons (q + 1) (cons 0 (cons 0
        (cons 0 (cons 0 zeros))))))))), input, output⟩ :=
    .straight "<<<<<<<<<<" rfl rfl
  exact .recast rfl
    (down.andThen (skipped.andThen (up.andThen (taken.andThen back)))) (by simp)

/-- The cells beside a number after `j` turns. -/
private def splitStage (left : Stream' UInt8) (v : UInt8) (j : Nat) : Ribbon :=
  ⟨left, v - UInt8.ofNat j, cons 0 (cons (10 - UInt8.ofNat (j % 10)) (cons 0
    (cons (UInt8.ofNat (j % 10)) (cons 0 (cons (UInt8.ofNat (j / 10)) zeros))))), input, output⟩

private theorem split_turn (left : Stream' UInt8) (v : UInt8) (j : Nat) :
    Runs ending splitTurn.toList (splitStage input output left v j)
      (splitStage input output left v (j + 1)) := by
  by_cases last : j % 10 = 9
  · have restart : (j + 1) % 10 = 0 ∧ (j + 1) / 10 = j / 10 + 1 := by omega
    rw [splitStage, splitStage, last, restart.1, restart.2, Byte.sub_ofNat_succ v,
      UInt8.ofNat_add (j / 10)]
    exact split_around input output left _ 9 _ (by decide)
  · have onwards : (j + 1) % 10 = j % 10 + 1 ∧ (j + 1) / 10 = j / 10 := by omega
    have lasts : 10 - UInt8.ofNat (j % 10) - 1 ≠ 0 := by
      rw [← Byte.sub_ofNat_succ, Ne, Byte.sub_ofNat_eq_zero_iff 10 (by omega)]
      simp only [UInt8.reduceToNat]
      omega
    rw [splitStage, splitStage, onwards.1, onwards.2, Byte.sub_ofNat_succ, Byte.sub_ofNat_succ,
      UInt8.ofNat_add (j % 10)]
    exact split_onwards input output left _ _ _ _ lasts

private theorem split_runs (left : Stream' UInt8) (v : UInt8) :
    Runs ending ("[" ++ splitTurn ++ "]").toList
      ⟨left, v, cons 0 (cons 10 zeros), input, output⟩
      ⟨left, 0, cons 0 (cons (10 - v % 10) (cons 0 (cons (v % 10) (cons 0 (cons (v / 10) zeros))))),
        input, output⟩ := by
  have bound := v.toNat_lt
  have nonzero (j : Nat) (below : j < v.toNat) : (splitStage input output left v j).current ≠ 0 := by
    rw [splitStage, Ne, Byte.sub_ofNat_eq_zero_iff v (by omega)]
    omega
  have digit : UInt8.ofNat (v.toNat % 10) = v % 10 := by
    rw [← UInt8.ofNat_toNat (x := v % 10), UInt8.toNat_mod]
    rfl
  have quotient : UInt8.ofNat (v.toNat / 10) = v / 10 := by
    rw [← UInt8.ofNat_toNat (x := v / 10), UInt8.toNat_div]
    rfl
  exact .recast (by simp [splitStage]) (.stages splitTurn turns_matched.1
    (splitStage input output left v) v.toNat nonzero (fun j _ => split_turn input output left v j)
    (by simp [splitStage])) (by simp [splitStage, digit, quotient])

/-! ## Writing the digits -/

/-- Eight times six and the number of a digit is its character. -/
private theorem character_runs (left right : Stream' UInt8) :
    Runs ending "++++++++[<<++++++>>-]".toList ⟨cons 0 (cons 0 left), 0, right, input, output⟩
      ⟨cons 0 (cons 48 left), 0, right, input, output⟩ := by
  have eight : Runs ending "++++++++".toList ⟨cons 0 (cons 0 left), 0, right, input, output⟩
      ⟨cons 0 (cons 0 left), 8, right, input, output⟩ :=
    .straight "++++++++" rfl rfl
  have turn (k : UInt8) (_ : k ≠ 0) : Runs ending "<<++++++>>-".toList
      ⟨cons 0 (cons (6 * (8 - k)) left), k, right, input, output⟩
      ⟨cons 0 (cons (6 * (8 - (k - 1))) left), k - 1, right, input, output⟩ := by
    have step : 6 * (8 - (k - 1)) = 6 * (8 - k) + 1 + 1 + 1 + 1 + 1 + 1 := by grind
    rw [step]
    exact .straight "<<++++++>>-" rfl rfl
  exact eight.andThen (.countdown "<<++++++>>-" rfl
    (fun k => ⟨cons 0 (cons (6 * (8 - k)) left), k, right, input, output⟩) (fun _ => rfl) turn 8)

/-- The number leaves its last digit as a character, and its tenth behind it. -/
private theorem digit_runs (left : Stream' UInt8) (v : UInt8) :
    Runs ending digitTurn.toList ⟨left, v, zeros, input, output⟩
      ⟨cons 0 (cons (48 + v % 10) left), v / 10, zeros, input, output⟩ := by
  have ten : Runs ending ">>++++++++++<<".toList
      ⟨left, v, cons 0 (cons 0 zeros), input, output⟩
      ⟨left, v, cons 0 (cons 10 zeros), input, output⟩ :=
    .straight ">>++++++++++<<" rfl rfl
  have split := @split_runs ending input output left v
  -- From here on it does not matter how the two numbers came about.
  generalize v % 10 = r, v / 10 = q at split ⊢
  -- What is left of the countdown is cleared, and a character for zero takes its place,
  have toCountdown : Runs ending ">>".toList
      ⟨left, 0, cons 0 (cons (10 - r) (cons 0 (cons r (cons 0 (cons q zeros))))), input, output⟩
      ⟨cons 0 (cons 0 left), 10 - r, cons 0 (cons r (cons 0 (cons q zeros))), input, output⟩ :=
    .straight ">>" rfl rfl
  have toDigit : Runs ending ">>".toList
      ⟨cons 0 (cons 48 left), 0, cons 0 (cons r (cons 0 (cons q zeros))), input, output⟩
      ⟨cons 0 (cons 0 (cons 0 (cons 48 left))), r, cons 0 (cons q zeros), input, output⟩ :=
    .straight ">>" rfl rfl
  -- to which the digit is added; the quotient then goes behind the character.
  have digit : Runs ending "[<<<<+>>>>-]".toList
      ⟨cons 0 (cons 0 (cons 0 (cons 48 left))), r, cons 0 (cons q zeros), input, output⟩
      ⟨cons 0 (cons 0 (cons 0 (cons (48 + r) left))), 0, cons 0 (cons q zeros), input, output⟩ :=
    .transfer "<<<<+>>>>-" rfl (fun k l => ⟨cons 0 (cons 0 (cons 0 (cons l left))), k,
      cons 0 (cons q zeros), input, output⟩) (fun _ _ => rfl)
      (fun _ _ _ => .straight "<<<<+>>>>-" rfl rfl) r 48
  generalize 48 + r = c at digit ⊢
  have toQuotient : Runs ending ">>".toList
      ⟨cons 0 (cons 0 (cons 0 (cons c left))), 0, cons 0 (cons q zeros), input, output⟩
      ⟨cons 0 (cons 0 (cons 0 (cons 0 (cons 0 (cons c left))))), q, zeros, input, output⟩ :=
    .straight ">>" rfl rfl
  have quotient : Runs ending "[<<<<+>>>>-]".toList
      ⟨cons 0 (cons 0 (cons 0 (cons 0 (cons 0 (cons c left))))), q, zeros, input, output⟩
      ⟨cons 0 (cons 0 (cons 0 (cons q (cons 0 (cons c left))))), 0, zeros, input, output⟩ :=
    .carry "<<<<+>>>>-" (fun k l => ⟨cons 0 (cons 0 (cons 0 (cons l (cons 0 (cons c left))))), k,
      zeros, input, output⟩) rfl (fun _ _ => rfl) (fun _ _ => rfl) q
  have back : Runs ending "<<<<".toList
      ⟨cons 0 (cons 0 (cons 0 (cons q (cons 0 (cons c left))))), 0, zeros, input, output⟩
      ⟨cons 0 (cons c left), q, cons 0 (cons 0 (cons 0 (cons 0 zeros))), input, output⟩ :=
    .straight "<<<<" rfl rfl
  exact .recast (by simp) (ten.andThen (split.andThen (toCountdown.andThen
    ((clear_runs input output _ _ (10 - r)).andThen ((character_runs input output left _).andThen
      (toDigit.andThen (digit.andThen (toQuotient.andThen (quotient.andThen back)))))))))
    (by simp)

private theorem digits_runs (left : Stream' UInt8) (v : UInt8) :
    Runs ending ("[" ++ digitTurn ++ "]").toList ⟨left, v, zeros, input, output⟩
      ⟨stacked (decimals v) left, 0, zeros, input, output⟩ := by
  refine Runs.bracketed ?_
  induction size : v.toNat using Nat.strongRecOn generalizing v left with
  | ind value ih =>
    by_cases zero : v = 0
    · subst v
      exact .leave (.of_scan turns_matched.2.1) rfl .done
    · have smaller : (v / 10).toNat < value := by
        have positive : v.toNat ≠ 0 := fun none => zero (UInt8.toNat_inj.mp none)
        rw [UInt8.toNat_div, ← size]
        exact Nat.div_lt_self (by omega) (by decide)
      have last : decimals v = decimals (v / 10) ++ [48 + v % 10] := decimals_of_nonzero v zero
      rw [last, stacked_append]
      exact .again zero (digit_runs input output left v) (ih _ smaller _ (v / 10) rfl)

/-! ## Printing them -/

/-- Goes back over the digits, the first of them on top, and prints each one. -/
private theorem drain_runs (left : Stream' UInt8) (values : List UInt8)
    (nonzero : ∀ value ∈ values, value ≠ 0) :
    Runs ending "[.[-]<<]".toList
      ⟨(stacked values (cons 0 (cons 0 left))).tail.tail,
        (stacked values (cons 0 (cons 0 left))).tail.head, zeros, input, output⟩
      ⟨left, 0, zeros, input, output ++ values⟩ := by
  -- One turn for each digit; the loop ends at the zero below the last of them.
  refine @Runs.bracketed ending ".[-]<<" _ _ ?_
  induction values generalizing output with
  | nil => exact .recast rfl (.leave (.of_scan rfl) rfl .done) (by simp [stacked])
  | cons value values ih =>
    have link := stacked_link values (cons 0 left)
    change Runs ending _ ⟨stacked values (cons 0 (cons 0 left)), value, zeros, input, output⟩ _
    generalize stacked values (cons 0 (cons 0 left)) = below at ih link ⊢
    have print : Runs ending ".".toList ⟨below, value, zeros, input, output⟩
        ⟨below, value, zeros, input, output ++ [value]⟩ :=
      .straight "." rfl rfl
    have down : Runs ending "<<".toList ⟨below, 0, zeros, input, output ++ [value]⟩
        ⟨below.tail.tail, below.tail.head, cons below.head (cons 0 zeros), input,
          output ++ [value]⟩ :=
      .straight "<<" rfl rfl
    -- The digit is cleared behind its printing, so the ribbon is blank to the right again.
    have turn : Runs ending ".[-]<<".toList ⟨below, value, zeros, input, output⟩
        ⟨below.tail.tail, below.tail.head, zeros, input, output ++ [value]⟩ :=
      .recast rfl (print.andThen ((clear_runs input _ below zeros value).andThen down))
        (by simp [link])
    have others := ih (output ++ [value]) fun other member =>
      nonzero other (List.mem_cons_of_mem _ member)
    rw [List.append_assoc] at others
    exact .again (nonzero value List.mem_cons_self) turn others

/-- The number is copied to where its digits are to stand, and a mark is set below them. -/
private theorem copy_runs (n : UInt8) :
    Runs ending ("[>>>>+>>+<<<<<<-]" ++ (">>>>>>" ++ ("[<<<<<<+>>>>>>-]" ++ "<<<<+>>"))).toList
      (top (cons n column) input output)
      ⟨cons 0 (cons 1 (cons 0 (cons n column))), n, zeros, input, output⟩ := by
  have copied : Runs ending "[>>>>+>>+<<<<<<-]".toList
      ⟨column, n, cons 0 (cons 0 (cons 0 (cons 0 (cons 0 (cons 0 zeros))))), input, output⟩
      ⟨column, 0, cons 0 (cons 0 (cons 0 (cons n (cons 0 (cons n zeros))))), input, output⟩ :=
    .carry ">>>>+>>+<<<<<<-" (fun k l => ⟨column, k,
      cons 0 (cons 0 (cons 0 (cons l (cons 0 (cons l zeros))))), input, output⟩)
      rfl (fun _ _ => rfl) (fun _ _ => rfl) n
  have up : Runs ending ">>>>>>".toList
      ⟨column, 0, cons 0 (cons 0 (cons 0 (cons n (cons 0 (cons n zeros))))), input, output⟩
      ⟨cons 0 (cons n (cons 0 (cons 0 (cons 0 (cons 0 column))))), n, zeros, input, output⟩ :=
    .straight ">>>>>>" rfl rfl
  have restored : Runs ending "[<<<<<<+>>>>>>-]".toList
      ⟨cons 0 (cons n (cons 0 (cons 0 (cons 0 (cons 0 column))))), n, zeros, input, output⟩
      ⟨cons 0 (cons n (cons 0 (cons 0 (cons 0 (cons n column))))), 0, zeros, input, output⟩ :=
    .carry "<<<<<<+>>>>>>-" (fun k l => ⟨cons 0 (cons n (cons 0 (cons 0 (cons 0 (cons l column))))),
      k, zeros, input, output⟩) rfl (fun _ _ => rfl) (fun _ _ => rfl) n
  have marked : Runs ending "<<<<+>>".toList
      ⟨cons 0 (cons n (cons 0 (cons 0 (cons 0 (cons n column))))), 0, zeros, input, output⟩
      ⟨cons 0 (cons 1 (cons 0 (cons n column))), n, cons 0 (cons 0 zeros), input, output⟩ :=
    .straight "<<<<+>>" rfl rfl
  exact .recast (by simp [top]) (copied.andThen (up.andThen (restored.andThen marked))) (by simp)

private def writeLoop : String := "[" ++ ("<<->>" ++ (("[" ++ digitTurn ++ "]") ++ ">>")) ++ "]"

/-- The digits of a number other than zero, which takes the mark away. -/
private theorem write_nonzero (left : Stream' UInt8) (n : UInt8) (nonzero : n ≠ 0) :
    Runs ending writeLoop.toList ⟨cons 0 (cons 1 left), n, zeros, input, output⟩
      ⟨cons 0 (cons 0 (stacked (Byte.digits n) (cons 0 (cons 0 left)))), 0, zeros, input,
        output⟩ := by
  have lowered : Runs ending "<<->>".toList ⟨cons 0 (cons 1 left), n, zeros, input, output⟩
      ⟨cons 0 (cons (1 - 1) left), n, zeros, input, output⟩ :=
    .straight "<<->>" rfl rfl
  have unmarked : Runs ending "<<->>".toList ⟨cons 0 (cons 1 left), n, zeros, input, output⟩
      ⟨cons 0 (cons 0 left), n, zeros, input, output⟩ :=
    .recast rfl lowered (by simp)
  have written := @digits_runs ending input output (cons 0 (cons 0 left)) n
  have same : decimals n = Byte.digits n := by simp [decimals, nonzero]
  rw [same] at written
  generalize stacked (Byte.digits n) _ = digits at written ⊢
  have onwards : Runs ending ">>".toList ⟨digits, 0, zeros, input, output⟩
      ⟨cons 0 (cons 0 digits), 0, zeros, input, output⟩ :=
    .straight ">>" rfl rfl
  exact .once _ nonzero (unmarked.andThen (written.andThen onwards)) rfl

/-- The only digit of zero, written where the mark is found. -/
private theorem write_zero (left : Stream' UInt8) :
    Runs ending "[->>>>++++++++[<<++++++>>-]]".toList
      ⟨left, 1, zeros, input, output⟩
      ⟨cons 0 (cons 48 (cons 0 (cons 0 left))), 0, zeros, input, output⟩ := by
  have apart : Runs ending "->>>>".toList
      ⟨left, 1, cons 0 (cons 0 (cons 0 (cons 0 zeros))), input, output⟩
      ⟨cons 0 (cons 0 (cons 0 (cons (1 - 1) left))), 0, zeros, input, output⟩ :=
    .straight "->>>>" rfl rfl
  have character := @character_runs ending input output (cons 0 (cons (1 - 1) left)) zeros
  have set : (1 : UInt8) ≠ 0 := by decide
  have taken : Runs ending "[->>>>++++++++[<<++++++>>-]]".toList
      ⟨left, 1, cons 0 (cons 0 (cons 0 (cons 0 zeros))), input, output⟩
      ⟨cons 0 (cons 48 (cons 0 (cons 0 left))), 0, zeros, input, output⟩ :=
    .once "->>>>++++++++[<<++++++>>-]" set (apart.andThen character) rfl
  exact .recast (by simp) taken rfl

/-- Whether the number is zero or not, its digits are written, and the mark is gone. -/
private theorem writeDigits_runs (left : Stream' UInt8) (n : UInt8) :
    Runs ending (writeLoop ++ ("<<" ++ ("[->>>>++++++++[<<++++++>>-]]" ++ "<<"))).toList
      ⟨cons 0 (cons 1 left), n, zeros, input, output⟩
      ⟨(stacked (Byte.digits n) (cons 0 (cons 0 left))).tail.tail,
        (stacked (Byte.digits n) (cons 0 (cons 0 left))).tail.head, zeros, input, output⟩ := by
  by_cases zero : n = 0
  · subst n
    -- No digit is written, so the mark is still there and makes the second loop write a zero.
    have skipped : Runs ending writeLoop.toList ⟨cons 0 (cons 1 left), 0, zeros, input, output⟩
        ⟨cons 0 (cons 1 left), 0, zeros, input, output⟩ := .skip _ turns_matched.2.2 rfl
    have down : Runs ending "<<".toList ⟨cons 0 (cons 1 left), 0, zeros, input, output⟩
        ⟨left, 1, cons 0 (cons 0 zeros), input, output⟩ :=
      .straight "<<" rfl rfl
    have taken := @write_zero ending input output left
    have back : Runs ending "<<".toList
        ⟨cons 0 (cons 48 (cons 0 (cons 0 left))), 0, zeros, input, output⟩
        ⟨cons 0 (cons 0 left), 48, cons 0 (cons 0 zeros), input, output⟩ :=
      .straight "<<" rfl rfl
    rw [digits_zero]
    exact .recast rfl (skipped.andThen ((Runs.recast rfl down (by simp)).andThen (taken.andThen back)))
      (by simp [stacked])
  · have written := @write_nonzero ending input output left n zero
    have link := stacked_link (Byte.digits n) (cons 0 left)
    generalize stacked (Byte.digits n) _ = digits at written link ⊢
    have down : Runs ending "<<".toList ⟨cons 0 (cons 0 digits), 0, zeros, input, output⟩
        ⟨digits, 0, cons 0 (cons 0 zeros), input, output⟩ :=
      .straight "<<" rfl rfl
    -- The mark is gone already, so the second loop has nothing to do.
    have passed : Runs ending "[->>>>++++++++[<<++++++>>-]]".toList
        ⟨digits, 0, zeros, input, output⟩ ⟨digits, 0, zeros, input, output⟩ :=
      .skip "->>>>++++++++[<<++++++>>-]" rfl rfl
    have back : Runs ending "<<".toList ⟨digits, 0, zeros, input, output⟩
        ⟨digits.tail.tail, digits.tail.head, cons digits.head (cons 0 zeros), input, output⟩ :=
      .straight "<<" rfl rfl
    exact .recast rfl (written.andThen ((Runs.recast rfl down (by simp)).andThen (passed.andThen back)))
      (by simp [link])

private theorem printInt_text : printInt =
    (("[>>>>+>>+<<<<<<-]" ++ (">>>>>>" ++ ("[<<<<<<+>>>>>>-]" ++ "<<<<+>>"))) ++
      ((writeLoop ++ ("<<" ++ ("[->>>>++++++++[<<++++++>>-]]" ++ "<<"))) ++
        ("[.[-]<<]" ++ "<<"))).toList := by
  simp only [writeLoop, digitTurn, splitTurn, String.toList_append]
  decide +kernel

/-- Printing keeps the number. Zero passes over the loop that writes the digits, and its only digit
is written apart; the cell below the digits tells whether this has happened. -/
theorem printInt_runs (n : UInt8) :
    Runs ending printInt (top (cons n column) input output)
      (top (cons n column) input (output ++ Byte.digits n)) := by
  have drained := @drain_runs ending input output (cons 0 (cons n column)) (Byte.digits n)
    (digits_ne_zero n)
  have settled : Runs ending "<<".toList
      ⟨cons 0 (cons n column), 0, zeros, input, output ++ Byte.digits n⟩
      ⟨column, n, cons 0 (cons 0 zeros), input, output ++ Byte.digits n⟩ :=
    .straight "<<" rfl rfl
  rw [printInt_text]
  exact .recast rfl ((copy_runs column input output n).andThen
    ((writeDigits_runs input output (cons 0 (cons n column)) n).andThen (drained.andThen settled)))
    (by simp [top])

end TapeCode.Template
