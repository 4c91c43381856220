import TapeCode.Instruction.StackHeight

/-!
# How high the stack has to be

A listing is scanned without an underflow from some height on, and what it adds to the height is the same
from wherever the scan starts. The scan of a listing behind another one is a scan of its own from the
height that the first one leaves. All that it keeps of the listing before it is the number of the
instruction at which it fails.
-/
namespace TapeCode

/-- An underflow in a listing, as it is reported when so many instructions stand before the listing. -/
def StackUnderflow.behind (passed : Nat) (error : StackUnderflow) : StackUnderflow :=
  { error with index := passed + error.index }

namespace StackHeight

/-- The least height at which every instruction finds the values that it takes. -/
def least : Listing → Nat
  | [] => 0
  | instruction :: rest =>
    match instruction.stackEffect? with
    | none => 0
    | some effect => max effect.pops (least rest + effect.pops - effect.pushes)

/-- What a listing adds to the height, as far as it is known. -/
def change : Listing → Int
  | [] => 0
  | instruction :: rest =>
    match instruction.stackEffect? with
    | none => 0
    | some effect => effect.pushes - effect.pops + change rest

variable {index height : Nat} {listing first second : Listing}

theorem scan_of_least_le (enough : least listing ≤ height) (index : Nat) :
    ∃ result, scan index height listing = .ok result ∧ (result : Int) = height + change listing := by
  induction listing generalizing index height with
  | nil => exact ⟨height, rfl, (Int.add_zero _).symm⟩
  | cons instruction rest ih =>
    simp only [least, scan, change] at enough ⊢
    cases effects : instruction.stackEffect? with
    | none => exact ⟨height, rfl, (Int.add_zero _).symm⟩
    | some effect =>
      simp only [effects] at enough ⊢
      -- The instruction finds its values, and behind it the rest still has what it needs.
      have finds : ¬height < effect.pops := by omega
      have remains : least rest ≤ height - effect.pops + effect.pushes := by omega
      obtain ⟨result, scanned, gained⟩ := ih remains (index + 1)
      refine ⟨result, by rw [if_neg finds, scanned], ?_⟩
      omega

theorem scan_of_lt_least (short : height < least listing) (index : Nat) :
    ∃ error, scan index height listing = .error error := by
  induction listing generalizing index height with
  | nil => exact absurd short (Nat.not_lt_zero _)
  | cons instruction rest ih =>
    simp only [least, scan] at short ⊢
    cases effects : instruction.stackEffect? with
    | none => simp [effects] at short
    | some effect =>
      simp only [effects] at short ⊢
      by_cases missing : height < effect.pops
      · exact ⟨_, if_pos missing⟩
      · have lacks : height - effect.pops + effect.pushes < least rest := by omega
        obtain ⟨error, failed⟩ := ih lacks (index + 1)
        exact ⟨error, by rw [if_neg missing, failed]⟩

/-! ## Listings behind each other -/

/-- The numbers of the instructions do not matter but for the report. -/
theorem scan_behind (passed index height : Nat) (listing : Listing) :
    scan (passed + index) height listing = (scan index height listing).mapError (·.behind passed) := by
  induction listing generalizing index height with
  | nil => rfl
  | cons instruction rest ih =>
    simp only [scan]
    cases instruction.stackEffect? with
    | none => rfl
    | some effect =>
      by_cases missing : height < effect.pops
      · simp only [if_pos missing]
        rfl
      · simp only [if_neg missing]
        exact ih (index + 1) _

theorem scan_append {between : Nat}
    (known : ∀ instruction ∈ first, instruction.stackEffect?.isSome = true)
    (scanned : scan index height first = .ok between) (second : Listing) :
    scan index height (first ++ second) = scan (first.length + index) between second := by
  induction first generalizing index height with
  | nil =>
    obtain rfl := Except.ok.inj scanned
    simp
  | cons instruction rest ih =>
    obtain ⟨knownFirst, others⟩ := List.forall_mem_cons.mp known
    obtain ⟨effect, effects⟩ := Option.isSome_iff_exists.mp knownFirst
    simp only [List.cons_append, scan, effects] at scanned ⊢
    split at scanned
    · cases scanned
    next finds =>
      rw [if_neg finds, ih others scanned, List.length_cons, Nat.add_right_comm, Nat.add_assoc]

/-- A listing that fails fails whatever stands behind it. -/
theorem scan_append_error {error : StackUnderflow} (failed : scan index height first = .error error)
    (second : Listing) : scan index height (first ++ second) = .error error := by
  induction first generalizing index height with
  | nil => cases failed
  | cons instruction rest ih =>
    simp only [List.cons_append, scan] at failed ⊢
    cases effects : instruction.stackEffect? with
    | none => simp [effects] at failed
    | some effect =>
      simp only [effects] at failed ⊢
      by_cases missing : height < effect.pops
      · rwa [if_pos missing] at failed ⊢
      · rw [if_neg missing] at failed ⊢
        exact ih failed

/-- Every listing has a least height, from which on the check passes and finds as much more or less on the
stack behind the listing as from any other height. Behind a listing all effects of which are known, the
check finds what it finds from the height that the listing leaves, with an underflow at its place in the
whole; and if the listing has an underflow, so has the whole. -/
theorem check_threshold :
    (∀ listing, ∃ (least : Nat) (change : Int), ∀ height,
      ((∃ result, check listing height = .ok result) ↔ least ≤ height) ∧
        ∀ result, check listing height = .ok result → (result : Int) = height + change) ∧
    ∀ first second : Listing, (∀ instruction ∈ first, instruction.stackEffect?.isSome = true) →
      ∀ height,
        (∀ between, check first height = .ok between →
          check (first ++ second) height =
            (check second between).mapError (·.behind first.length)) ∧
        ∀ error, check first height = .error error →
          check (first ++ second) height = .error error := by
  refine ⟨fun listing => ⟨least listing, change listing, fun height => ?_⟩,
    fun first second known height => ⟨fun between scanned => ?_, fun error failed => ?_⟩⟩
  · rcases Nat.lt_or_ge height (least listing) with short | enough
    · obtain ⟨error, failed⟩ := scan_of_lt_least short 0
      simp [check, failed, Nat.not_le_of_lt short]
    · obtain ⟨result, scanned, gained⟩ := scan_of_least_le enough 0
      simp [check, scanned, enough, gained]
  · exact (scan_append known scanned second).trans (scan_behind first.length 0 between second)
  · exact scan_append_error failed second

theorem check_threshold_subtracting :
    check ([.pushInt 5, .pushInt 3] ++ [.sub, .printInt]) 0 =
        (check [.sub, .printInt] 2).mapError (·.behind 2) ∧
      check ([.sub] ++ [.printInt]) 1 = .error ⟨0, .sub, 2⟩ := by
  obtain ⟨-, appended⟩ := check_threshold
  have pushed := appended [.pushInt 5, .pushInt 3] [.sub, .printInt] (by decide) 0
  have failed := appended [.sub] [.printInt] (by decide) 1
  exact ⟨pushed.1 2 rfl, failed.2 _ rfl⟩

/-- An addition that finds one value is reported as the first instruction, and behind the instruction that
leaves this value as the second one. -/
theorem check_behind_pushInt :
    (∀ instruction ∈ [Instruction.pushInt 1], instruction.stackEffect?.isSome = true) ∧
      check [.pushInt 1] 0 = .ok 1 ∧
      check ([.pushInt 1] ++ [.add]) 0 ≠ check [.add] 1 ∧
      (check ([.pushInt 1] ++ [.add]) 0).mapError (·.message) =
        .error "stack-check error: stack underflow at ip=1, insn=add[], needed 2 items" ∧
      (check [.add] 1).mapError (·.message) =
        .error "stack-check error: stack underflow at ip=0, insn=add[], needed 2 items" := by
  refine ⟨by decide, rfl, fun same => ?_, congrArg Except.error (by decide +kernel),
    congrArg Except.error (by decide +kernel)⟩
  have underflows : (.error ⟨1, .add, 2⟩ : Except StackUnderflow Nat) = .error ⟨0, .add, 2⟩ := same
  cases underflows

end StackHeight

end TapeCode
