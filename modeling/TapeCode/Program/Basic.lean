import TapeCode.Instruction.Text

/-!
# Intermediate programs

A program is the stream of its main block and a table of function bodies. A function is named by the
number of its label; the table is kept in ascending order of these numbers, so two tables with the
same bodies are equal.
-/
namespace TapeCode

variable {α : Type}

/-- Puts a body into an ascending list; a body with the same number is replaced. -/
def insertFunction (id : Int) (body : α) : List (Int × α) → List (Int × α)
  | [] => [(id, body)]
  | (other, otherBody) :: rest =>
    if id < other then (id, body) :: (other, otherBody) :: rest
    else if id = other then (id, body) :: rest
    else (other, otherBody) :: insertFunction id body rest

/-- Every entry after an insertion is the new one or was there before. -/
theorem mem_insertFunction {id : Int} {body : α} {entries : List (Int × α)} {entry : Int × α}
    (member : entry ∈ insertFunction id body entries) :
    entry = (id, body) ∨ entry ∈ entries := by
  induction entries with
  | nil => simpa [insertFunction] using member
  | cons first rest ih =>
    obtain ⟨other, otherBody⟩ := first
    simp only [insertFunction] at member
    split at member
    · simpa using member
    · split at member
      · rcases List.mem_cons.mp member with here | there
        · exact .inl here
        · exact .inr (List.mem_cons_of_mem _ there)
      · rcases List.mem_cons.mp member with here | there
        · exact .inr (here ▸ List.mem_cons_self)
        · rcases ih there with new | old
          · exact .inl new
          · exact .inr (List.mem_cons_of_mem _ old)

theorem ascending_insertFunction (id : Int) (body : α) (entries : List (Int × α))
    (ascending : entries.Pairwise fun a b => a.1 < b.1) :
    (insertFunction id body entries).Pairwise fun a b => a.1 < b.1 := by
  induction entries with
  | nil => simp [insertFunction]
  | cons first rest ih =>
    obtain ⟨other, otherBody⟩ := first
    obtain ⟨tail, others⟩ := List.pairwise_cons.mp ascending
    simp only [insertFunction]
    split
    next below =>
      refine List.Pairwise.cons (fun entry member => ?_) ascending
      rcases List.mem_cons.mp member with rfl | there
      · exact below
      · exact Int.lt_trans below (tail entry there)
    next notBelow =>
      split
      next equal => exact List.Pairwise.cons (fun entry there => equal ▸ tail entry there) others
      next different =>
        refine List.Pairwise.cons (fun entry member => ?_) (ih others)
        rcases mem_insertFunction member with rfl | there
        · show other < id
          omega
        · exact tail entry there

theorem lookup_insertFunction (id : Int) (body : α) (entries : List (Int × α)) (other : Int) :
    (insertFunction id body entries).lookup other =
      if other = id then some body else entries.lookup other := by
  have first (key : Int) (value : α) (rest : List (Int × α)) :
      List.lookup other ((key, value) :: rest) = if other = key then some value
        else rest.lookup other := by
    rw [List.lookup_cons]
    by_cases same : other = key
    · simp [same]
    · simp [same, beq_eq_false_iff_ne.mpr same]
  induction entries with
  | nil => exact first id body []
  | cons entry rest ih =>
    obtain ⟨here, hereBody⟩ := entry
    simp only [insertFunction]
    split
    next => exact first id body _
    next =>
      split
      next equal =>
        rw [first, first, ← equal]
        by_cases same : other = id <;> simp [same]
      next different =>
        rw [first, first, ih]
        by_cases same : other = id <;> simp [same, different]

/-- Bodies by the numbers of their functions, in ascending order of the numbers. -/
structure FunctionTable (α : Type) where
  entries : List (Int × α)
  ascending : entries.Pairwise fun a b => a.1 < b.1
  deriving Repr

namespace FunctionTable

def empty : FunctionTable α := ⟨[], .nil⟩

def insert (table : FunctionTable α) (id : Int) (body : α) : FunctionTable α :=
  ⟨insertFunction id body table.entries, ascending_insertFunction id body _ table.ascending⟩

/-- A later entry with the same number replaces an earlier one. -/
def ofList (entries : List (Int × α)) : FunctionTable α :=
  entries.foldl (fun table entry => table.insert entry.1 entry.2) empty

def get? (table : FunctionTable α) (id : Int) : Option α := table.entries.lookup id

theorem get?_insert (table : FunctionTable α) (id : Int) (body : α) (other : Int) :
    (table.insert id body).get? other = if other = id then some body else table.get? other :=
  lookup_insertFunction id body table.entries other

instance [DecidableEq α] : DecidableEq (FunctionTable α) := fun first second =>
  if same : first.entries = second.entries then
    isTrue (by cases first; cases second; cases same; rfl)
  else isFalse fun equal => same (equal ▸ rfl)

end FunctionTable

/-- The number `nextLabel` is the first label number that nothing in the program uses yet. -/
structure Program where
  main : Listing
  functions : FunctionTable Listing
  nextLabel : Int
  deriving DecidableEq, Repr

def Program.instructionCount (program : Program) : Nat :=
  program.functions.entries.foldl (fun count entry => count + entry.2.length) program.main.length

end TapeCode
