import Mathlib.Data.Stream.Init
import TapeCode.EndOfInput

/-!
# Tape code on an unbounded tape

A ribbon is a tape without ends, seen from its pointer: the cells to either side are streams, the
nearest cell first. On a ribbon nothing wraps and no cell has an index, so what a piece of code does
near the pointer is said without naming the place where it is done.

`Runs` is the meaning of a piece of tape code as a whole: it relates the ribbon before the code to the
ribbon behind it. A loop is either left out or taken once and tried again.
-/
namespace TapeCode

structure Ribbon where
  left : Stream' UInt8
  current : UInt8
  right : Stream' UInt8
  input : List UInt8
  output : List UInt8

/-- Cells that nothing was written to. -/
def zeros : Stream' UInt8 := Stream'.const 0

@[simp] theorem cons_zero_zeros : Stream'.cons 0 zeros = zeros := Stream'.eta zeros

namespace Ribbon

/-- One character that is no bracket. -/
def perform (ending : EndOfInput) : Ribbon → Char → Ribbon
  | ⟨left, current, right, input, output⟩, c =>
    match c with
    | '>' => ⟨.cons current left, right.head, right.tail, input, output⟩
    | '<' => ⟨left.tail, left.head, .cons current right, input, output⟩
    | '+' => ⟨left, current + 1, right, input, output⟩
    | '-' => ⟨left, current - 1, right, input, output⟩
    | '.' => ⟨left, current, right, input, output ++ [current]⟩
    | ',' =>
      match input with
      | byte :: input => ⟨left, byte, right, input, output⟩
      | [] => ⟨left, ending.replace current, right, [], output⟩
    | _ => ⟨left, current, right, input, output⟩

/-- The pointer on the first cell of a column, with the rest of it to the left and nothing to the
right. -/
def top (column : Stream' UInt8) (input output : List UInt8) : Ribbon :=
  ⟨column.tail, column.head, zeros, input, output⟩

def performAll (ending : EndOfInput) (ribbon : Ribbon) (code : List Char) : Ribbon :=
  code.foldl (perform ending) ribbon

end Ribbon

/-- Characters other than brackets are executed where they stand. -/
def isPlain (c : Char) : Bool := c ≠ '[' && c ≠ ']'

/-- Code whose brackets are matched. -/
inductive Balanced : List Char → Prop
  | nil : Balanced []
  | plain {c : Char} {rest : List Char} (isPlain : isPlain c = true) (after : Balanced rest) :
      Balanced (c :: rest)
  | nest {body rest : List Char} (inside : Balanced body) (after : Balanced rest) :
      Balanced ('[' :: body ++ ']' :: rest)

namespace Balanced

theorem append {first second : List Char} (left : Balanced first) (right : Balanced second) :
    Balanced (first ++ second) := by
  induction left with
  | nil => exact right
  | plain isPlain _ ih => exact .plain isPlain ih
  | nest inside _ _ ih => simpa using Balanced.nest inside ih

/-- Whether brackets match in code that stands inside `depth` loops. -/
def scan : Nat → List Char → Bool
  | depth, [] => depth = 0
  | depth, '[' :: rest => scan (depth + 1) rest
  | 0, ']' :: _ => false
  | depth + 1, ']' :: rest => scan depth rest
  | depth, _ :: rest => scan depth rest

theorem scan_plain {c : Char} (plain : isPlain c = true) (depth : Nat) (rest : List Char) :
    scan depth (c :: rest) = scan depth rest := by
  simp only [isPlain, Bool.and_eq_true, decide_eq_true_eq] at plain
  rw [scan]
  all_goals simp_all

theorem scan_of_all {code : List Char} (plain : code.all isPlain = true) :
    scan 0 code = true := by
  induction code with
  | nil => rfl
  | cons c rest ih =>
    simp only [List.all_cons, Bool.and_eq_true] at plain
    rw [scan_plain plain.1]
    exact ih plain.2

/-- How many loops are around what stands behind code that stands inside `depth` loops, if it closes no
more than those. -/
def depthBehind : Nat → List Char → Option Nat
  | depth, [] => some depth
  | depth, '[' :: rest => depthBehind (depth + 1) rest
  | 0, ']' :: _ => none
  | depth + 1, ']' :: rest => depthBehind depth rest
  | depth, _ :: rest => depthBehind depth rest

theorem depthBehind_plain {c : Char} (plain : isPlain c = true) (depth : Nat) (rest : List Char) :
    depthBehind depth (c :: rest) = depthBehind depth rest := by
  simp only [isPlain, Bool.and_eq_true, decide_eq_true_eq] at plain
  rw [depthBehind]
  all_goals simp_all

theorem depthBehind_of_all {code : List Char} (plain : code.all isPlain = true) (depth : Nat) :
    depthBehind depth code = some depth := by
  induction code with
  | nil => rfl
  | cons c rest ih =>
    simp only [List.all_cons, Bool.and_eq_true] at plain
    rw [depthBehind_plain plain.1, ih plain.2]

/-- Code is what it begins with and what stands behind that. -/
theorem depthBehind_append {depth between : Nat} {first : List Char}
    (found : depthBehind depth first = some between) (second : List Char) :
    depthBehind depth (first ++ second) = depthBehind between second := by
  induction first generalizing depth with
  | nil => rw [← Option.some.inj found, List.nil_append]
  | cons c first ih =>
    by_cases opens : c = '['
    · subst opens
      exact ih found
    by_cases closing : c = ']'
    · subst closing
      cases depth with
      | zero => cases found
      | succ depth => exact ih found
    have plain : isPlain c = true := by simp [isPlain, opens, closing]
    rw [depthBehind_plain plain] at found
    rw [List.cons_append, depthBehind_plain plain, ih found]

/-- Further loops around the code make no difference to it. -/
theorem depthBehind_add {depth after : Nat} {code : List Char} (found : depthBehind depth code = some after)
    (more : Nat) : depthBehind (depth + more) code = some (after + more) := by
  induction code generalizing depth with
  | nil => rw [← Option.some.inj found, depthBehind]
  | cons c code ih =>
    by_cases opens : c = '['
    · subst opens
      have inside := @ih (depth + 1) found
      rwa [Nat.add_right_comm] at inside
    by_cases closing : c = ']'
    · subst closing
      cases depth with
      | zero => cases found
      | succ depth =>
        rw [Nat.add_right_comm]
        exact @ih depth found
    have plain : isPlain c = true := by simp [isPlain, opens, closing]
    rw [depthBehind_plain plain] at found ⊢
    exact ih found

theorem scan_eq_depthBehind (depth : Nat) (code : List Char) :
    scan depth code = decide (depthBehind depth code = some 0) := by
  induction code generalizing depth with
  | nil => simp [scan, depthBehind]
  | cons c code ih =>
    by_cases opens : c = '['
    · subst opens
      exact ih (depth + 1)
    by_cases closing : c = ']'
    · subst closing
      cases depth with
      | zero => rfl
      | succ depth => exact ih depth
    have plain : isPlain c = true := by simp [isPlain, opens, closing]
    rw [scan_plain plain, depthBehind_plain plain, ih]

/-- Code that closes `depth` loops on its way, with matched brackets in between. -/
private def Closes : Nat → List Char → Prop
  | 0, code => Balanced code
  | depth + 1, code => ∃ body rest, code = body ++ ']' :: rest ∧ Balanced body ∧ Closes depth rest

private theorem closes_plain {c : Char} (plain : isPlain c = true) {depth : Nat} {rest : List Char}
    (closes : Closes depth rest) : Closes depth (c :: rest) := by
  cases depth with
  | zero => exact .plain plain closes
  | succ depth =>
    obtain ⟨body, rest, rfl, inside, after⟩ := closes
    exact ⟨c :: body, rest, rfl, .plain plain inside, after⟩

private theorem closes_open {depth : Nat} {rest : List Char} (closes : Closes (depth + 1) rest) :
    Closes depth ('[' :: rest) := by
  obtain ⟨body, rest, rfl, inside, after⟩ := closes
  cases depth with
  | zero => exact .nest inside after
  | succ depth =>
    obtain ⟨next, rest, rfl, between, after⟩ := after
    exact ⟨'[' :: body ++ ']' :: next, rest, by simp, .nest inside between, after⟩

private theorem closes_of_scan {depth : Nat} {code : List Char} (matched : scan depth code = true) :
    Closes depth code := by
  induction code generalizing depth with
  | nil =>
    have outside : depth = 0 := by simpa [scan] using matched
    exact outside ▸ Balanced.nil
  | cons c rest ih =>
    by_cases opens : c = '['
    · subst c
      exact closes_open (ih matched)
    · by_cases closing : c = ']'
      · subst c
        cases depth with
        | zero => simp [scan] at matched
        | succ depth => exact ⟨[], rest, rfl, .nil, ih matched⟩
      · have plain : isPlain c = true := by simp [isPlain, opens, closing]
        rw [scan_plain plain] at matched
        exact closes_plain plain (ih matched)

theorem of_scan {code : List Char} (matched : scan 0 code = true) : Balanced code :=
  closes_of_scan matched

end Balanced

/-- What code as a whole makes of a ribbon, if it comes to an end. -/
inductive Runs (ending : EndOfInput) : List Char → Ribbon → Ribbon → Prop
  | done {ribbon : Ribbon} : Runs ending [] ribbon ribbon
  | act {c : Char} {rest : List Char} {before after : Ribbon} (plain : isPlain c = true)
      (onwards : Runs ending rest (before.perform ending c) after) :
      Runs ending (c :: rest) before after
  | leave {body rest : List Char} {before after : Ribbon} (balanced : Balanced body)
      (zero : before.current = 0) (onwards : Runs ending rest before after) :
      Runs ending ('[' :: body ++ ']' :: rest) before after
  | again {body rest : List Char} {before between after : Ribbon}
      (nonzero : before.current ≠ 0) (turn : Runs ending body before between)
      (onwards : Runs ending ('[' :: body ++ ']' :: rest) between after) :
      Runs ending ('[' :: body ++ ']' :: rest) before after

namespace Runs

variable {ending : EndOfInput}

theorem balanced {code : List Char} {before after : Ribbon} (runs : Runs ending code before after) :
    Balanced code := by
  induction runs with
  | done => exact .nil
  | act plain _ ih => exact .plain plain ih
  | leave inside _ _ ih => exact .nest inside ih
  | again _ _ _ _ ih => exact ih

theorem append {first second : List Char} {before between after : Ribbon}
    (left : Runs ending first before between) (right : Runs ending second between after) :
    Runs ending (first ++ second) before after := by
  induction left with
  | done => exact right
  | act plain _ ih => exact .act plain (ih right)
  | leave inside zero _ ih => simpa using Runs.leave inside zero (ih right)
  | again nonzero turn _ _ ih => simpa using Runs.again nonzero turn (by simpa using ih right)

/-- Code without loops runs through. -/
theorem straight (code : String) {before after : Ribbon} (plain : code.toList.all isPlain = true)
    (performed : before.performAll ending code.toList = after) :
    Runs ending code.toList before after := by
  subst performed
  generalize code.toList = code at plain
  induction code generalizing before with
  | nil => exact .done
  | cons c rest ih =>
    simp only [List.all_cons, Bool.and_eq_true] at plain
    exact .act plain.1 (ih plain.2)

/-- The ribbons at either end may be written differently. -/
theorem recast {code : List Char} {before start finish after : Ribbon} (starts : before = start)
    (runs : Runs ending code start finish) (ends : finish = after) :
    Runs ending code before after := by
  subst starts ends
  exact runs

/-- Pieces of text one after the other. -/
theorem andThen {first second : String} {before between after : Ribbon}
    (left : Runs ending first.toList before between)
    (right : Runs ending second.toList between after) :
    Runs ending (first ++ second).toList before after := by
  rw [String.toList_append]
  exact left.append right

theorem bracketed {body : String} {before after : Ribbon}
    (runs : Runs ending ('[' :: body.toList ++ [']']) before after) :
    Runs ending ("[" ++ body ++ "]").toList before after := by
  rw [String.toList_append, String.toList_append]
  exact runs

/-- A loop is left out when its cell is zero. -/
theorem skip (body : String) {ribbon : Ribbon} (matched : Balanced.scan 0 body.toList = true)
    (zero : ribbon.current = 0) : Runs ending ("[" ++ body ++ "]").toList ribbon ribbon :=
  bracketed (.leave (.of_scan matched) zero .done)

/-- A loop whose body zeroes the cell is taken once. -/
theorem once (body : String) {before after : Ribbon} (nonzero : before.current ≠ 0)
    (turn : Runs ending body.toList before after) (zero : after.current = 0) :
    Runs ending ("[" ++ body ++ "]").toList before after :=
  bracketed (.again nonzero turn (.leave turn.balanced zero .done))

/-- A loop that goes through the ribbons `stage 0`, `stage 1`, … is left at the first one whose cell
is zero. -/
theorem stages (body : String) (matched : Balanced.scan 0 body.toList = true)
    (stage : Nat → Ribbon) (count : Nat) (nonzero : ∀ k < count, (stage k).current ≠ 0)
    (turn : ∀ k < count, Runs ending body.toList (stage k) (stage (k + 1)))
    (zero : (stage count).current = 0) :
    Runs ending ("[" ++ body ++ "]").toList (stage 0) (stage count) := by
  refine bracketed ?_
  induction count generalizing stage with
  | zero => exact .leave (.of_scan matched) zero .done
  | succ count ih =>
    refine .again (nonzero 0 (by omega)) (turn 0 (by omega)) ?_
    exact ih (fun k => stage (k + 1)) (fun k below => nonzero (k + 1) (by omega))
      (fun k below => turn (k + 1) (by omega)) zero

/-- A loop that lowers its cell by one in every turn ends with the cell at zero. -/
theorem countdown_of_balanced {body : List Char} (balanced : Balanced body) (stage : UInt8 → Ribbon)
    (current : ∀ n, (stage n).current = n)
    (turn : ∀ n, n ≠ 0 → Runs ending body (stage n) (stage (n - 1))) (n : UInt8) :
    Runs ending ('[' :: body ++ [']']) (stage n) (stage 0) := by
  induction size : n.toNat generalizing n with
  | zero =>
    have zero : n = 0 := UInt8.toNat_inj.mp size
    subst n
    exact .leave balanced (current 0) .done
  | succ size' ih =>
    have nonzero : n ≠ 0 := by rintro rfl; simp at size
    have smaller : (n - 1).toNat = size' := by
      have bound := n.toNat_lt
      simp only [UInt8.toNat_sub, UInt8.reduceToNat]
      omega
    exact .again (by rw [current]; exact nonzero) (turn n nonzero) (ih (n - 1) smaller)

theorem countdown (body : String) (matched : Balanced.scan 0 body.toList = true)
    (stage : UInt8 → Ribbon) (current : ∀ n, (stage n).current = n)
    (turn : ∀ n, n ≠ 0 → Runs ending body.toList (stage n) (stage (n - 1))) (n : UInt8) :
    Runs ending ("[" ++ body ++ "]").toList (stage n) (stage 0) :=
  bracketed (countdown_of_balanced (.of_scan matched) stage current turn n)

/-- A loop that lowers its cell and raises what `stage` takes second: what the cell loses, `m`
gains. -/
theorem transfer (body : String) (matched : Balanced.scan 0 body.toList = true)
    (stage : UInt8 → UInt8 → Ribbon) (current : ∀ k m, (stage k m).current = k)
    (turn : ∀ k m, k ≠ 0 → Runs ending body.toList (stage k m) (stage (k - 1) (m + 1)))
    (n m : UInt8) :
    Runs ending ("[" ++ body ++ "]").toList (stage n m) (stage 0 (m + n)) := by
  have moved := countdown body matched (fun k => stage k (m + (n - k))) (fun k => current k _)
    (fun k nonzero => by
      have step : m + (n - (k - 1)) = m + (n - k) + 1 := by grind
      rw [step]
      exact turn k _ nonzero) n
  simpa only [UInt8.sub_self, UInt8.sub_zero, UInt8.add_zero] using moved

/-- The same for a loop without loops inside, when `m` is zero at first. -/
theorem carry (body : String) (stage : UInt8 → UInt8 → Ribbon)
    (plain : body.toList.all isPlain = true) (current : ∀ k m, (stage k m).current = k)
    (turn : ∀ k m, (stage k m).performAll ending body.toList = stage (k - 1) (m + 1)) (n : UInt8) :
    Runs ending ("[" ++ body ++ "]").toList (stage n 0) (stage 0 n) := by
  have moved := countdown body (Balanced.scan_of_all plain) (fun k => stage k (n - k))
    (fun k => current k _) (fun k _ => by
      have step : n - (k - 1) = n - k + 1 := by grind
      rw [step]
      exact straight body plain (turn k _)) n
  simpa only [UInt8.sub_self, UInt8.sub_zero] using moved

end Runs

end TapeCode
