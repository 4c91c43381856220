import Mathlib.Order.Bounds.Basic
import TapeCode.Proofs.Ribbon.Basic

/-!
# Brackets without partner

Two brackets are partners when the code between them is matched. Code in which no bracket closes more than
has been opened is matched code with some opening brackets between its stretches, and these are the ones
that have no partner.
-/
namespace TapeCode

namespace Balanced

variable {code first second : List Char} {depth after : Nat}

/-- Matched code stands inside as many loops as what stands behind it. -/
theorem depthBehind_eq (balanced : Balanced code) (depth : Nat) : depthBehind depth code = some depth := by
  induction balanced generalizing depth with
  | nil => rfl
  | plain plain _ ih => rw [depthBehind_plain plain, ih]
  | @nest body rest _ _ inside outside =>
    show depthBehind (depth + 1) (body ++ ']' :: rest) = some depth
    rw [depthBehind_append (inside (depth + 1))]
    exact outside depth

/-- What is left when the cases of `depthBehind` for brackets are excluded. -/
theorem isPlain_of_other {c : Char} (opens : c = '[' → False) (closesNone : depth = 0 → c = ']' → False)
    (closesOne : ∀ outer, depth = outer + 1 → c = ']' → False) : isPlain c = true := by
  have other : c ≠ ']' := by
    cases depth with
    | zero => exact closesNone rfl
    | succ depth => exact closesOne depth rfl
  simp [isPlain, other, show c ≠ '[' from opens]

theorem count_of_depthBehind (found : depthBehind depth code = some after) :
    depth + code.count '[' = after + code.count ']' := by
  fun_induction depthBehind depth code with
  | case1 depth => simp [Option.some.inj found]
  | case2 depth code ih =>
    have inside := ih found
    simp
    omega
  | case3 code => cases found
  | case4 depth code ih =>
    have outside := ih found
    simp
    omega
  | case5 depth c code opens closesNone closesOne ih =>
    have plain := isPlain_of_other opens closesNone closesOne
    simp only [isPlain, Bool.and_eq_true, decide_eq_true_eq] at plain
    simpa [List.count_cons, plain] using ih found

/-- What code begins with closes no more than the whole. -/
theorem depthBehind_prefix (found : depthBehind depth (first ++ second) = some after) :
    ∃ between, depthBehind depth first = some between := by
  fun_induction depthBehind depth first with
  | case1 depth => exact ⟨depth, rfl⟩
  | case2 depth first ih => exact ih found
  | case3 first => cases found
  | case4 depth first ih => exact ih found
  | case5 depth c first opens closesNone closesOne ih =>
    rw [List.cons_append, depthBehind_plain (isPlain_of_other opens closesNone closesOne)] at found
    exact ih found

/-- Code that closes more loops than there are closes the loop around it with the bracket behind code that
leaves as many. -/
theorem depthBehind_eq_none (exceeds : depthBehind depth code = none) :
    ∃ body rest, code = body ++ ']' :: rest ∧ depthBehind depth body = some 0 := by
  fun_induction depthBehind depth code with
  | case1 depth => cases exceeds
  | case2 depth code ih =>
    obtain ⟨body, rest, rfl, found⟩ := ih exceeds
    exact ⟨'[' :: body, rest, rfl, found⟩
  | case3 code => exact ⟨[], code, rfl, rfl⟩
  | case4 depth code ih =>
    obtain ⟨body, rest, rfl, found⟩ := ih exceeds
    exact ⟨']' :: body, rest, rfl, found⟩
  | case5 depth c code opens closesNone closesOne ih =>
    obtain ⟨body, rest, rfl, found⟩ := ih exceeds
    have plain := isPlain_of_other opens closesNone closesOne
    exact ⟨c :: body, rest, rfl, by rwa [depthBehind_plain plain]⟩

theorem of_depthBehind (found : depthBehind 0 code = some 0) : Balanced code :=
  of_scan (by simpa [scan_eq_depthBehind] using found)

/-- Behind an opening bracket of matched code, more is closed than opened. -/
theorem depthBehind_of_opening (balanced : Balanced (first ++ '[' :: second)) :
    depthBehind 0 second = none := by
  have whole := balanced.depthBehind_eq 0
  obtain ⟨between, found⟩ := depthBehind_prefix whole
  rw [depthBehind_append found] at whole
  change depthBehind (between + 1) second = some 0 at whole
  cases inside : depthBehind 0 second with
  | none => rfl
  | some depth =>
    have further := depthBehind_add inside (between + 1)
    rw [Nat.zero_add, whole] at further
    have same := Option.some.inj further
    omega

end Balanced

/-- The places up to which more brackets have been closed than opened. -/
def surpluses (code : List Char) : Set Nat :=
  {offset | (code.take (offset + 1)).count '[' < (code.take (offset + 1)).count ']'}

/-- The opening bracket at `start` and the closing one at `finish` belong together. -/
def ArePartners (code : List Char) (start finish : Nat) : Prop :=
  ∃ before inside behind, code = before ++ '[' :: inside ++ ']' :: behind ∧ Balanced inside ∧
    start = before.length ∧ finish = before.length + inside.length + 1

/-- The places of opening brackets that nothing closes. -/
def unmatched (code : List Char) : Set Nat :=
  {start | code[start]? = some '[' ∧ ∀ finish, ¬ArePartners code start finish}

theorem not_mem_surpluses {code : List Char} {after : Nat}
    (found : Balanced.depthBehind 0 code = some after) (offset : Nat) : offset ∉ surpluses code := by
  rw [← List.take_append_drop (offset + 1) code] at found
  obtain ⟨between, found⟩ := Balanced.depthBehind_prefix found
  have counts := Balanced.count_of_depthBehind found
  change ¬(code.take (offset + 1)).count '[' < (code.take (offset + 1)).count ']'
  omega

/-- The first bracket that closes what was never opened. -/
theorem isLeast_surpluses {passed rest : List Char} (balanced : Balanced passed) :
    IsLeast (surpluses (passed ++ ']' :: rest)) passed.length := by
  have inside := balanced.depthBehind_eq 0
  constructor
  · have counts := Balanced.count_of_depthBehind inside
    have upTo : (passed ++ ']' :: rest).take (passed.length + 1) = passed ++ [']'] := by
      rw [List.take_length_add_append, List.take_succ_cons, List.take_zero]
    change List.count _ _ < List.count _ _
    rw [upTo]
    simp
    omega
  · intro offset surplus
    by_contra early
    have upTo : (passed ++ ']' :: rest).take (offset + 1) = passed.take (offset + 1) :=
      List.take_append_of_le_length (by omega)
    refine not_mem_surpluses inside offset ?_
    change List.count _ _ < List.count _ _ at surplus ⊢
    rwa [upTo] at surplus

/-- A bracket has no partner if no more is closed behind it than opened. -/
theorem mem_unmatched {code : List Char} {start : Nat} :
    start ∈ unmatched code ↔ ∃ before behind depth, code = before ++ '[' :: behind ∧
      before.length = start ∧ Balanced.depthBehind 0 behind = some depth := by
  constructor
  · rintro ⟨opens, alone⟩
    obtain ⟨inside, here⟩ := List.getElem?_eq_some_iff.mp opens
    have split : code = code.take start ++ '[' :: code.drop (start + 1) := by
      rw [← here, List.getElem_cons_drop, List.take_append_drop]
    have place : (code.take start).length = start := List.length_take_of_le (Nat.le_of_lt inside)
    cases found : Balanced.depthBehind 0 (code.drop (start + 1)) with
    | some depth => exact ⟨_, _, depth, split, place, found⟩
    | none =>
      obtain ⟨body, rest, closed, matched⟩ := Balanced.depthBehind_eq_none found
      refine absurd ?_ (alone (start + body.length + 1))
      refine ⟨code.take start, body, rest, ?_, .of_depthBehind matched, place.symm, by rw [place]⟩
      rw [List.append_assoc, List.cons_append, ← closed]
      exact split
  · rintro ⟨before, behind, depth, rfl, rfl, found⟩
    refine ⟨by simp, ?_⟩
    rintro finish ⟨outside, inside, rest, same, balanced, place, -⟩
    rw [List.append_assoc, List.cons_append] at same
    obtain ⟨-, behindSame⟩ := List.append_inj same place
    obtain rfl := (List.cons.inj behindSame).2
    rw [Balanced.depthBehind_append (balanced.depthBehind_eq 0)] at found
    cases found

/-! ## Code with brackets still open -/

/-- Matched code with opening brackets at these places in between, the last one first. -/
inductive Pending : List Char → List Nat → Prop
  | matched {code : List Char} (balanced : Balanced code) : Pending code []
  | opened {outer inside : List Char} {places : List Nat} (pending : Pending outer places)
      (balanced : Balanced inside) : Pending (outer ++ '[' :: inside) (outer.length :: places)

namespace Pending

variable {code : List Char} {place : Nat} {places : List Nat}

theorem append (pending : Pending code places) {more : List Char} (balanced : Balanced more) :
    Pending (code ++ more) places := by
  cases pending with
  | matched before => exact .matched (before.append balanced)
  | opened outer inside =>
    rw [List.append_assoc, List.cons_append]
    exact .opened outer (inside.append balanced)

theorem balanced (pending : Pending code []) : Balanced code := by
  cases pending with
  | matched balanced => exact balanced

theorem opens (pending : Pending code places) : Pending (code ++ ['[']) (code.length :: places) :=
  .opened pending .nil

theorem closes (pending : Pending code (place :: places)) : Pending (code ++ [']']) places := by
  cases pending with
  | @opened outer inside _ pending balanced =>
    have closed := pending.append (.nest balanced .nil)
    rwa [← List.append_assoc] at closed

theorem depthBehind_eq (pending : Pending code places) :
    Balanced.depthBehind 0 code = some places.length := by
  induction pending with
  | matched balanced => exact balanced.depthBehind_eq 0
  | opened _ balanced ih =>
    rw [Balanced.depthBehind_append ih]
    exact balanced.depthBehind_eq _

/-- The brackets without partner are the ones in between. -/
theorem mem_iff (pending : Pending code places) : place ∈ places ↔ place ∈ unmatched code := by
  rw [mem_unmatched]
  induction pending generalizing place with
  | matched balanced =>
    constructor
    · nofun
    · rintro ⟨before, behind, depth, rfl, -, found⟩
      rw [balanced.depthBehind_of_opening] at found
      cases found
  | @opened outer inside places pending balanced ih =>
    rw [List.mem_cons, ih]
    constructor
    · rintro (rfl | ⟨before, behind, depth, rfl, rfl, found⟩)
      · exact ⟨outer, inside, 0, rfl, rfl, balanced.depthBehind_eq 0⟩
      · refine ⟨before, behind ++ '[' :: inside, depth + 1, by simp, rfl, ?_⟩
        rw [Balanced.depthBehind_append found]
        exact balanced.depthBehind_eq _
    · rintro ⟨before, behind, depth, same, rfl, found⟩
      -- The bracket lies in the outer code, is the one that was opened last, or lies behind that one.
      rcases List.append_eq_append_iff.mp same with ⟨middle, rfl, split⟩ | ⟨middle, rfl, split⟩
      · cases middle with
        | nil => exact .inl (by simp)
        | cons c middle =>
          obtain ⟨rfl, rfl⟩ := List.cons.inj split
          rw [balanced.depthBehind_of_opening] at found
          cases found
      · cases middle with
        | nil => exact .inl (by simp)
        | cons c middle =>
          obtain ⟨rfl, rfl⟩ := List.cons.inj split
          obtain ⟨between, foundToo⟩ := Balanced.depthBehind_prefix found
          exact .inr ⟨before, middle, between, rfl, rfl, foundToo⟩

theorem lt_length (pending : Pending code places) : ∀ place ∈ places, place < code.length := by
  intro place member
  obtain ⟨before, behind, -, rfl, rfl, -⟩ := mem_unmatched.mp (pending.mem_iff.mp member)
  simp

/-- The bracket that was opened last is the last one without partner. -/
theorem isGreatest (pending : Pending code (place :: places)) :
    IsGreatest (unmatched code) place := by
  refine ⟨pending.mem_iff.mp List.mem_cons_self, fun other alone => ?_⟩
  rcases List.mem_cons.mp (pending.mem_iff.mpr alone) with rfl | outer
  · exact Nat.le_refl _
  · cases pending with
    | opened pending => exact Nat.le_of_lt (pending.lt_length other outer)

end Pending

end TapeCode
