import Mathlib.Algebra.Group.Nat.Defs
import TapeCode.Binary.Varint
import TapeCode.Instruction.Basic
import TapeCode.Proofs.Monads

/-!
# What readers take and what they give

A written value is settled by its own bytes: the reader gives it back whatever follows, and fails when
bytes are missing at the end. Both are kept when readers are put one behind the other, so they need to
be shown for single numbers only. The other way about, a reader takes more spellings than are ever
written, but what it gives stays within the limits of the numbers it read.
-/
namespace TapeCode.Binary

variable {α β : Type}

/-- The bytes are those of the value: the reader leaves everything behind them, and it fails on a part
of them. -/
structure Reader.Takes (reader : Reader α) (bytes : List UInt8) (value : α) : Prop where
  whole : ∀ rest, reader (bytes ++ rest) = .ok (value, rest)
  cut : ∀ front back, front ++ back = bytes → back ≠ [] → ∃ error, reader front = .error error

/-- Everything that the reader gives has the property. -/
def Reader.Gives (reader : Reader α) (holds : α → Prop) : Prop :=
  ∀ bytes value rest, reader bytes = .ok (value, rest) → holds value

namespace Reader

variable {reader : Reader α} {next : α → Reader β} {first second : List UInt8} {value : α}
  {result : β} {holds : α → Prop} {after : β → Prop}

theorem bind_eq_error {bytes : List UInt8} {error : BinaryError} (failed : reader bytes = .error error) :
    (reader >>= next) bytes = .error error := by
  simp [bind, StateT.bind, Except.bind, failed]

theorem takes_pure : Takes (pure value) [] value where
  whole _ := rfl
  cut _ _ same proper := absurd (List.append_eq_nil_iff.mp same).2 proper

theorem Takes.bind (takes : reader.Takes first value) (onwards : (next value).Takes second result) :
    Takes (reader >>= next) (first ++ second) result where
  whole rest := by
    rw [List.append_assoc, stateExcept_bind]
    exact ⟨value, second ++ rest, takes.whole _, onwards.whole rest⟩
  cut front back same proper := by
    -- What is missing at the end reaches into the first part, or leaves it whole.
    rcases List.append_eq_append_iff.mp same with ⟨more, rfl, rfl⟩ | ⟨more, rfl, rfl⟩
    · by_cases complete : more = []
      · subst complete
        obtain ⟨error, failed⟩ := onwards.cut [] second rfl (by simpa using proper)
        refine ⟨error, ?_⟩
        have taken := takes.whole []
        simp only [List.append_nil] at taken
        simp [Bind.bind, StateT.bind, Except.bind, taken, failed]
      · obtain ⟨error, failed⟩ := takes.cut front more rfl complete
        exact ⟨error, bind_eq_error failed⟩
    · obtain ⟨error, failed⟩ := onwards.cut more back rfl proper
      refine ⟨error, ?_⟩
      simp [Bind.bind, StateT.bind, Except.bind, takes.whole, failed]

/-- A reader that needs nothing more. -/
theorem Takes.bind_last (takes : reader.Takes first value) (onwards : (next value).Takes [] result) :
    Takes (reader >>= next) first result := by
  have chained := takes.bind onwards
  rwa [List.append_nil] at chained

theorem Takes.map (takes : reader.Takes first value) (change : α → β) :
    Takes (change <$> reader) first (change value) :=
  show Takes (reader >>= fun value => pure (change value)) first (change value) from
    takes.bind_last takes_pure

theorem gives_pure (has : holds value) : Gives (pure value) holds := by
  intro bytes given rest read
  obtain ⟨rfl, -⟩ := stateExcept_pure.mp read
  exact has

theorem gives_throw {error : BinaryError} : Gives (throw error) holds :=
  fun _ _ _ read => absurd read stateExcept_throw

theorem Gives.bind (gives : reader.Gives holds)
    (onwards : ∀ value, holds value → (next value).Gives after) :
    Gives (reader >>= next) after := by
  intro bytes result rest read
  obtain ⟨value, between, taken, further⟩ := stateExcept_bind.mp read
  exact onwards value (gives _ _ _ taken) _ _ _ further

theorem Gives.map {change : α → β} (gives : reader.Gives fun value => after (change value)) :
    Gives (change <$> reader) after :=
  gives.bind fun _ has => gives_pure has

end Reader

open Reader

theorem readByte_takes (byte : UInt8) : Takes readByte [byte] byte where
  whole _ := rfl
  cut front back same proper := by
    cases front with
    | nil => exact ⟨.outOfBytes, rfl⟩
    | cons first front =>
      obtain ⟨-, rest⟩ := List.cons.inj same
      exact absurd (List.append_eq_nil_iff.mp rest).2 proper

theorem readByte_gives : Gives readByte fun _ => True := fun _ _ _ _ => trivial

/-! ## Numbers -/

namespace Varint

variable {last most n : Nat}

/-- A number within the limits is read as it was written. The induction is on the number of bytes that
may follow the first one. -/
theorem read_takes (small : last < 128) (fits : n < (last + 1) * 128 ^ most) :
    Takes (read last (most + 1)) (write n) n := by
  induction most generalizing n with
  | zero =>
    have short : n < 128 := by omega
    have value : (UInt8.ofNat n).toNat = n := by rw [UInt8.toNat_ofNat']; omega
    rw [write, if_pos short, read]
    refine (readByte_takes _).bind_last ?_
    rw [value, if_pos short, if_neg (by omega)]
    exact takes_pure
  | succ most ih =>
    rw [write, read]
    by_cases short : n < 128
    · have value : (UInt8.ofNat n).toNat = n := by rw [UInt8.toNat_ofNat']; omega
      rw [if_pos short]
      refine (readByte_takes _).bind_last ?_
      rw [value, if_pos short, if_neg (by omega)]
      exact takes_pure
    · have value : (UInt8.ofNat (n % 128 + 128)).toNat = n % 128 + 128 := by
        rw [UInt8.toNat_ofNat']; omega
      have higher : n / 128 < (last + 1) * 128 ^ most := by
        rw [Nat.div_lt_iff_lt_mul (by decide), Nat.mul_assoc, ← Nat.pow_succ]
        exact fits
      rw [if_neg short]
      refine (readByte_takes _).bind (?_ : Takes _ (write (n / 128)) n)
      rw [value, if_neg (by omega)]
      refine (ih higher).bind_last ?_
      rw [show n % 128 + 128 - 128 + 128 * (n / 128) = n by omega]
      exact takes_pure

/-- No reader of numbers gives more than its limits allow, in whatever spelling. -/
theorem read_gives :
    Gives (read last (most + 1)) fun n => n < (last + 1) * 128 ^ most := by
  induction most with
  | zero =>
    rw [read]
    refine readByte_gives.bind fun byte _ => ?_
    split
    next =>
      split
      next => exact gives_throw
      next fits => exact gives_pure (by omega)
    next =>
      rw [read]
      have nothing : Gives (throw .numberTooLong : Reader Nat) fun _ => False := gives_throw
      exact nothing.bind fun _ none => none.elim
  | succ most ih =>
    -- One byte alone is within the limits too.
    have room : 128 ≤ (last + 1) * 128 ^ (most + 1) := by
      rw [Nat.pow_succ, ← Nat.mul_assoc]
      exact Nat.le_mul_of_pos_left _ (Nat.mul_pos (Nat.succ_pos _) (Nat.pow_pos (by decide)))
    rw [read]
    refine readByte_gives.bind fun byte _ => ?_
    split
    next short =>
      split
      next => exact gives_throw
      next => exact gives_pure (by omega)
    next long =>
      refine ih.bind fun higher fits => gives_pure ?_
      have limit := byte.toNat_lt
      rw [Nat.pow_succ, ← Nat.mul_assoc]
      omega

theorem readLength_takes (fits : n < 2 ^ 64) : Takes readLength (write n) n :=
  read_takes (by decide) fits

theorem readLength_gives : Gives readLength fun n => n < 2 ^ 64 := read_gives

theorem readWord_takes (fits : n < 2 ^ 32) : Takes readWord (write n) n :=
  read_takes (by decide) fits

theorem readWord_gives : Gives readWord fun n => n < 2 ^ 32 := read_gives

theorem unzigzag_zigzag (n : Int) : unzigzag (zigzag n) = n := by
  unfold zigzag unzigzag
  split <;> split <;> omega

theorem zigzag_lt {n : Int} (fits : fitsArgument n = true) : zigzag n < 2 ^ 32 := by
  simp only [fitsArgument, Bool.and_eq_true, decide_eq_true_eq] at fits
  unfold zigzag
  split <;> omega

theorem fitsArgument_unzigzag (fits : n < 2 ^ 32) : fitsArgument (unzigzag n) = true := by
  have half : n / 2 ≤ 2147483647 := by omega
  rw [unzigzag, fitsArgument, Bool.and_eq_true, decide_eq_true_eq, decide_eq_true_eq]
  split <;> omega

theorem readInteger_takes {n : Int} (fits : fitsArgument n = true) :
    Takes readInteger (writeInteger n) n := by
  have takes := (readWord_takes (zigzag_lt fits)).map unzigzag
  rwa [unzigzag_zigzag] at takes

theorem readInteger_gives : Gives readInteger fun n => fitsArgument n = true :=
  Gives.map fun _ _ _ read => fitsArgument_unzigzag (readWord_gives _ _ _ read)

end Varint

/-! ## Lists -/

/-- A list whose length can be written, of items with the property. -/
structure FitsList (holds : α → Prop) (items : List α) : Prop where
  short : items.length < 2 ^ 64
  each : ∀ value ∈ items, holds value

instance (holds : α → Prop) [DecidablePred holds] : DecidablePred (FitsList holds) := fun items =>
  decidable_of_iff (items.length < 2 ^ 64 ∧ ∀ value ∈ items, holds value)
    ⟨fun ⟨short, each⟩ => ⟨short, each⟩, fun ⟨short, each⟩ => ⟨short, each⟩⟩

section

variable {γ : Type} {item : Reader α} {write : γ → List UInt8} {change : γ → α} {items : List γ}
  {holds : α → Prop}

theorem readTimes_takes (each : ∀ value ∈ items, Takes item (write value) (change value)) :
    Takes (readTimes item items.length) (items.flatMap write) (items.map change) := by
  induction items with
  | nil => exact takes_pure
  | cons first rest ih =>
    obtain ⟨here, others⟩ := List.forall_mem_cons.mp each
    rw [List.flatMap_cons]
    exact here.bind ((ih others).bind_last takes_pure)

/-- A list is read as it was written when each of its items is. -/
theorem readList_takes (short : items.length < 2 ^ 64)
    (each : ∀ value ∈ items, Takes item (write value) (change value)) :
    Takes (readList item) (writeList write items) (items.map change) :=
  (Varint.readLength_takes short).bind (readTimes_takes each)

theorem readTimes_gives (each : item.Gives holds) (count : Nat) :
    Gives (readTimes item count) fun items => items.length = count ∧ ∀ value ∈ items, holds value := by
  induction count with
  | zero => exact gives_pure ⟨rfl, nofun⟩
  | succ count ih =>
    refine each.bind fun first has => ih.bind fun rest others => gives_pure ?_
    exact ⟨congrArg (· + 1) others.1, List.forall_mem_cons.mpr ⟨has, others.2⟩⟩

theorem readList_gives (each : item.Gives holds) : Gives (readList item) (FitsList holds) := by
  refine Varint.readLength_gives.bind fun count fits => ?_
  intro bytes items rest read
  obtain ⟨rfl, others⟩ := readTimes_gives each count bytes items rest read
  exact ⟨fits, others⟩

end

end TapeCode.Binary
