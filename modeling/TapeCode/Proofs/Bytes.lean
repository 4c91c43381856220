import TapeCode.Byte

/-!
# Counting with bytes

A loop that counts a cell down takes as many turns as the number in the cell says. These lemmas go
between the turns, which are counted with natural numbers, and the cells, which wrap.
-/
namespace TapeCode.Byte

/-- What holds of the first 256 numbers holds of all bytes. -/
theorem forall_of_lt {holds : UInt8 → Prop} (all : ∀ n < 256, holds (UInt8.ofNat n)) (n : UInt8) :
    holds n := by
  have here := all n.toNat n.toNat_lt
  rwa [UInt8.ofNat_toNat] at here

theorem toNat_ofNat_of_small {j : Nat} (small : j < 256) : (UInt8.ofNat j).toNat = j :=
  UInt8.toNat_ofNat_of_lt' small

theorem toNat_sub_one {n : UInt8} (nonzero : n ≠ 0) : (n - 1).toNat = n.toNat - 1 := by
  have positive : n.toNat ≠ 0 := fun zero => nonzero (UInt8.toNat_inj.mp zero)
  have bound := n.toNat_lt
  simp only [UInt8.toNat_sub, UInt8.toNat_one]
  omega

theorem sub_ofNat_succ (n : UInt8) (j : Nat) :
    n - UInt8.ofNat (j + 1) = n - UInt8.ofNat j - 1 := by
  rw [UInt8.ofNat_add]
  grind

/-- Lowering a byte meets zero after as many turns as it says, and then not for a whole round. -/
theorem sub_ofNat_eq_zero_iff (n : UInt8) {j : Nat} (small : j < 256) :
    n - UInt8.ofNat j = 0 ↔ n.toNat = j := by
  constructor
  · intro equal
    have same : n = UInt8.ofNat j := by grind
    rw [same, toNat_ofNat_of_small small]
  · intro equal
    have same : n = UInt8.ofNat j := by rw [← equal, UInt8.ofNat_toNat]
    grind

theorem ofBool_add_ofBool {first second third : Prop} [Decidable first] [Decidable second]
    [Decidable third] (disjoint : ¬(first ∧ second)) (either : third ↔ first ∨ second) :
    ofBool first + ofBool second = ofBool third := by
  by_cases one : first <;> by_cases two : second <;> simp_all [ofBool]

theorem toNat_ofInt {n : Int} (nonnegative : 0 ≤ n) (small : n < 256) :
    (UInt8.ofInt n).toNat = n.toNat := by
  have below : (n % 2 ^ 8).toNat < 256 := by omega
  rw [UInt8.ofInt, toNat_ofNat_of_small below]
  omega

end TapeCode.Byte
