import Mathlib.Data.List.Nodup
import Mathlib.Data.List.Perm.Subperm
import Mathlib.Order.Bounds.Basic
import TapeCode.Program.Flat
import TapeCode.Proofs.Monads

/-!
# The order of the bodies

The functions that a program can reach, generation by generation: first those that the main block
calls, then those that these call and that are new, and so on, each in the order of its first call. A
function is in the generation that tells how long its shortest chain of calls is. The search with a
queue lays out the bodies in just this order, and it fails exactly if a function is missing, for the
first missing one.
-/
namespace TapeCode

/-- The function that a call enters. -/
def Instruction.invoked? : Instruction → Option Int
  | .invoke function => some function
  | _ => none

/-- The functions that a listing calls, in the order of the calls. -/
def Listing.calls (listing : Listing) : List Int := listing.filterMap (·.invoked?)

theorem Listing.mem_calls {listing : Listing} {id : Int} :
    id ∈ calls listing ↔ Instruction.invoke id ∈ listing := by
  simp only [calls, List.mem_filterMap]
  constructor
  · rintro ⟨instruction, member, called⟩
    cases instruction <;> simp only [Instruction.invoked?, Option.some.injEq, reduceCtorEq] at called
    exact called ▸ member
  · exact fun member => ⟨_, member, rfl⟩

namespace FunctionTable

variable {α : Type}

theorem mem_of_get? {table : FunctionTable α} {id : Int} {body : α}
    (found : table.get? id = some body) : (id, body) ∈ table.entries := by
  obtain ⟨before, after, split, -⟩ := List.lookup_eq_some_iff.mp found
  rw [split]
  exact List.mem_append_right _ List.mem_cons_self

/-- Distinct functions of a table cannot be more than it has. -/
theorem length_le_of_found {table : FunctionTable α} {ids : List Int} (distinct : ids.Nodup)
    (found : ∀ id ∈ ids, (table.get? id).isSome = true) : ids.length ≤ table.entries.length := by
  have inside : ids ⊆ table.entries.map (·.1) := fun id member => by
    obtain ⟨body, has⟩ := Option.isSome_iff_exists.mp (found id member)
    exact List.mem_map_of_mem (f := (·.1)) (mem_of_get? has)
  simpa using (distinct.subperm inside).length_le

end FunctionTable

namespace Flat

/-- The functions that the body of a function calls; none if there is no body. -/
def callees (table : FunctionTable Listing) (id : Int) : List Int :=
  Listing.calls ((table.get? id).getD [])

/-- A function's label and body. -/
def labelled (table : FunctionTable Listing) (id : Int) : Listing :=
  .label id :: (table.get? id).getD []

/-- What is not known yet, each once, in the order of its first occurrence. -/
def fresh (known ids : List Int) : List Int := (ids.filter (· ∉ known)).eraseDups

section

variable (main : Listing) (table : FunctionTable Listing)

/-- The main block calls a function through so many others, one after the other. -/
inductive Chain : Nat → Int → Prop
  | direct {id : Int} (called : id ∈ main.calls) : Chain 0 id
  | through {length : Nat} {caller id : Int} (chain : Chain length caller)
      (called : id ∈ callees table caller) : Chain (length + 1) id

mutual

/-- The functions in the generations before this one. -/
def discoveredBefore : Nat → List Int
  | 0 => []
  | depth + 1 => discoveredBefore depth ++ generation depth

/-- The functions that the main block calls, and then, generation after generation, those that the
latest one calls and that no generation has yet. -/
def generation : Nat → List Int
  | 0 => fresh [] main.calls
  | depth + 1 =>
    fresh (discoveredBefore depth ++ generation depth) ((generation depth).flatMap (callees table))

end

/-- All functions that the main block can reach. No chain of calls is longer than the table without a
function in it twice. -/
def callOrder : List Int :=
  (List.range (table.entries.length + 1)).flatMap (generation main table)

end

/-! ## New functions -/

theorem fresh_cons (known : List Int) (id : Int) (ids : List Int) :
    fresh known (id :: ids) =
      if id ∈ known then fresh known ids else id :: fresh (id :: known) ids := by
  by_cases old : id ∈ known
  · simp [fresh, old]
  · simp [fresh, old, List.eraseDups_cons, List.filter_filter, beq_eq_decide]

theorem mem_fresh {known ids : List Int} {id : Int} :
    id ∈ fresh known ids ↔ id ∈ ids ∧ id ∉ known := by
  simp [fresh, List.mem_eraseDups]

theorem mem_callees {table : FunctionTable Listing} {caller id : Int} :
    id ∈ callees table caller ↔
      ∃ body, table.get? caller = some body ∧ Instruction.invoke id ∈ body := by
  rw [callees, Listing.mem_calls]
  cases table.get? caller <;> simp

theorem nodup_fresh (known ids : List Int) : (fresh known ids).Nodup := by
  induction ids generalizing known with
  | nil => exact List.nodup_nil
  | cons id ids ih =>
    rw [fresh_cons]
    split
    · exact ih known
    · exact List.nodup_cons.mpr ⟨fun again => (mem_fresh.mp again).2 List.mem_cons_self, ih _⟩

/-- Only what is known counts, not in which order it became known. -/
theorem fresh_congr {known others : List Int} (same : ∀ id, id ∈ known ↔ id ∈ others)
    (ids : List Int) : fresh known ids = fresh others ids := by
  simp only [fresh, same]

theorem fresh_append (known first second : List Int) :
    fresh known (first ++ second) =
      fresh known first ++ fresh (fresh known first ++ known) second := by
  induction first generalizing known with
  | nil => simp [fresh]
  | cons id first ih =>
    rw [List.cons_append, fresh_cons, fresh_cons, ih known, ih (id :: known)]
    split
    · rfl
    · rw [List.cons_append]
      refine congrArg (id :: ·) (congrArg _ (fresh_congr (fun other => ?_) second))
      simp [or_left_comm]

theorem discover_eq_fresh (seen : List Int) (listing : Listing) :
    discover seen listing = fresh seen listing.calls := by
  induction listing generalizing seen with
  | nil => rfl
  | cons instruction rest ih =>
    cases instruction
    case invoke id =>
      have first : Listing.calls (.invoke id :: rest) = id :: Listing.calls rest := rfl
      rw [first, fresh_cons, discover, ih, ih]
    all_goals exact ih seen

/-! ## Generations -/

section

variable {main : Listing} {table : FunctionTable Listing} {depth : Nat} {id : Int}

theorem mem_discoveredBefore :
    id ∈ discoveredBefore main table depth ↔ ∃ earlier < depth, id ∈ generation main table earlier := by
  induction depth with
  | zero => simp [discoveredBefore]
  | succ depth ih =>
    simp only [discoveredBefore, List.mem_append, ih, Nat.lt_succ_iff_lt_or_eq]
    grind

theorem discoveredBefore_eq :
    discoveredBefore main table depth = (List.range depth).flatMap (generation main table) := by
  induction depth with
  | zero => rfl
  | succ depth ih => simp [discoveredBefore, ih, List.range_succ]

/-- A generation has only functions that are in none before. -/
theorem notMem_discoveredBefore (member : id ∈ generation main table depth) :
    id ∉ discoveredBefore main table depth := by
  cases depth with
  | zero => exact List.not_mem_nil
  | succ depth => exact (mem_fresh.mp member).2

theorem nodup_generation : (generation main table depth).Nodup := by
  cases depth <;> exact nodup_fresh _ _

theorem nodup_discoveredBefore : (discoveredBefore main table depth).Nodup := by
  induction depth with
  | zero => exact List.nodup_nil
  | succ depth ih =>
    exact ih.append nodup_generation fun id old new => notMem_discoveredBefore new old

theorem chain_of_mem_generation (member : id ∈ generation main table depth) :
    Chain main table depth id := by
  induction depth generalizing id with
  | zero => exact .direct (mem_fresh.mp member).1
  | succ depth ih =>
    obtain ⟨caller, latest, called⟩ := List.mem_flatMap.mp (mem_fresh.mp member).1
    exact .through (ih latest) called

/-- What a generation calls is discovered by the end of the next one. -/
theorem callee_discovered {caller : Int} (latest : caller ∈ generation main table depth)
    (called : id ∈ callees table caller) : id ∈ discoveredBefore main table (depth + 2) := by
  by_cases old : id ∈ discoveredBefore main table (depth + 1)
  · exact List.mem_append_left _ old
  · exact List.mem_append_right _
      (mem_fresh.mpr ⟨List.mem_flatMap.mpr ⟨caller, latest, called⟩, old⟩)

theorem discovered_of_chain (chain : Chain main table depth id) :
    ∃ earlier ≤ depth, id ∈ generation main table earlier := by
  induction chain with
  | direct called => exact ⟨0, Nat.le_refl _, mem_fresh.mpr ⟨called, List.not_mem_nil⟩⟩
  | through _ called ih =>
    obtain ⟨earlier, bound, latest⟩ := ih
    obtain ⟨when, soon, found⟩ := mem_discoveredBefore.mp (callee_discovered latest called)
    exact ⟨when, by omega, found⟩

/-- A function is in the generation that its shortest chain of calls tells. -/
theorem mem_generation_iff_isLeast :
    id ∈ generation main table depth ↔ IsLeast {length | Chain main table length id} depth := by
  constructor
  · refine fun member => ⟨chain_of_mem_generation member, fun length chain => ?_⟩
    obtain ⟨earlier, bound, found⟩ := discovered_of_chain chain
    refine Nat.le_of_not_lt fun shorter => notMem_discoveredBefore member ?_
    exact mem_discoveredBefore.mpr ⟨earlier, by omega, found⟩
  · rintro ⟨chain, least⟩
    obtain ⟨earlier, bound, found⟩ := discovered_of_chain chain
    obtain rfl : earlier = depth := Nat.le_antisymm bound (least (chain_of_mem_generation found))
    exact found

/-- In every generation before one that is not empty there is a function of the table. -/
theorem depth_le_length (member : id ∈ generation main table depth) :
    depth ≤ ((discoveredBefore main table depth).filter fun id => (table.get? id).isSome).length := by
  induction depth generalizing id with
  | zero => exact Nat.zero_le _
  | succ depth ih =>
    obtain ⟨caller, latest, called⟩ := List.mem_flatMap.mp (mem_fresh.mp member).1
    have present : (table.get? caller).isSome = true := by
      cases found : table.get? caller with
      | some => rfl
      | none => simp [callees, found, Listing.calls] at called
    have some : 0 < ((generation main table depth).filter
        fun id => (table.get? id).isSome).length :=
      List.length_pos_of_mem (List.mem_filter.mpr ⟨latest, present⟩)
    have earlier := ih latest
    rw [discoveredBefore, List.filter_append, List.length_append]
    omega

/-- The generations are exhausted before there are more of them than functions in the table. -/
theorem depth_le_of_mem (member : id ∈ generation main table depth) :
    depth ≤ table.entries.length := by
  refine (depth_le_length member).trans (FunctionTable.length_le_of_found ?_ ?_)
  · exact nodup_discoveredBefore.filter _
  · exact fun id among => (List.mem_filter.mp among).2

theorem mem_callOrder : id ∈ callOrder main table ↔ ∃ length, Chain main table length id := by
  simp only [callOrder, List.mem_flatMap, List.mem_range]
  constructor
  · exact fun ⟨depth, _, member⟩ => ⟨depth, chain_of_mem_generation member⟩
  · rintro ⟨length, chain⟩
    obtain ⟨depth, -, member⟩ := discovered_of_chain chain
    exact ⟨depth, Nat.lt_succ_of_le (depth_le_of_mem member), member⟩

theorem nodup_callOrder : (callOrder main table).Nodup := by
  rw [callOrder, ← discoveredBefore_eq]
  exact nodup_discoveredBefore

theorem callOrder_eq_nil : callOrder main table = [] ↔ main.calls = [] := by
  simp only [List.eq_nil_iff_forall_not_mem, mem_callOrder]
  constructor
  · exact fun none id called => none id ⟨0, .direct called⟩
  · rintro none id ⟨length, chain⟩
    induction chain with
    | direct called => exact none _ called
    | through _ _ ih => exact ih

end

/-! ## The search -/

section

variable {table : FunctionTable Listing} {turns : Nat}

/-- The labelled bodies of these functions, or a failure at the first of them that has none. -/
def layOut (table : FunctionTable Listing) (order : List Int) : Except LowerError Listing :=
  match order.find? fun id => (table.get? id).isNone with
  | some id => .error (.unknownFunction id)
  | none => .ok (order.flatMap (labelled table))

theorem bodies_congr {seen others : List Int} (same : ∀ id, id ∈ seen ↔ id ∈ others)
    (queue : List Int) : bodies table turns seen queue = bodies table turns others queue := by
  induction turns generalizing seen others queue with
  | zero => cases queue <;> rfl
  | succ turns ih =>
    cases queue with
    | nil => rfl
    | cons id queue =>
      simp only [bodies]
      cases table.get? id with
      | none => rfl
      | some body =>
        have found : discover seen body = discover others body := by
          rw [discover_eq_fresh, discover_eq_fresh, fresh_congr same]
        simp only [found]
        rw [@ih _ (discover others body ++ others) fun other => by simp [same]]

theorem bodies_missing {id : Int} (missing : table.get? id = none) (seen queue : List Int) :
    bodies table turns seen (id :: queue) = .error (.unknownFunction id) := by
  cases turns with
  | zero => rfl
  | succ turns => simp only [bodies, missing]

/-- A turn lays out the function at the front of the queue, and what it calls is put behind the
queue. -/
theorem bodies_cons {id : Int} (present : (table.get? id).isSome = true) (seen queue : List Int) :
    bodies table (turns + 1) seen (id :: queue) =
      (bodies table turns (fresh seen (callees table id) ++ seen)
        (queue ++ fresh seen (callees table id))).map (labelled table id ++ ·) := by
  obtain ⟨body, found⟩ := Option.isSome_iff_exists.mp present
  simp only [bodies, callees, labelled, found, Option.getD_some, ← discover_eq_fresh]
  cases bodies table turns _ _ <;> rfl

/-- While the functions at the front of the queue are in the table, the search lays them out, and what
they call comes behind the rest of the queue. -/
theorem bodies_present {front : List Int} (present : ∀ id ∈ front, (table.get? id).isSome = true)
    (seen queue : List Int) :
    bodies table (front.length + turns) seen (front ++ queue) =
      (bodies table turns (fresh seen (front.flatMap (callees table)) ++ seen)
        (queue ++ fresh seen (front.flatMap (callees table)))).map
          (front.flatMap (labelled table) ++ ·) := by
  induction front generalizing seen queue with
  | nil =>
    have nothing : fresh seen [] = [] := rfl
    simp only [List.length_nil, Nat.zero_add, List.nil_append, List.flatMap_nil, nothing,
      List.append_nil]
    cases bodies table turns seen queue <;> rfl
  | cons id front ih =>
    obtain ⟨here, others⟩ := List.forall_mem_cons.mp present
    -- The two sides have seen the same functions, though in another order.
    have known (other : Int) :
        other ∈ fresh (fresh seen (callees table id) ++ seen) (front.flatMap (callees table)) ++
          (fresh seen (callees table id) ++ seen) ↔
        other ∈ fresh seen (callees table id) ++
          fresh (fresh seen (callees table id) ++ seen) (front.flatMap (callees table)) ++ seen := by
      simp only [List.mem_append]
      tauto
    rw [List.length_cons, Nat.add_right_comm, List.cons_append, bodies_cons here, List.append_assoc,
      ih others, bodies_congr known, List.flatMap_cons, List.flatMap_cons, fresh_append,
      List.append_assoc queue]
    generalize bodies table turns _ _ = rest
    cases rest with
    | error error => rfl
    | ok rest => simp [Except.map]

end

section

variable {main : Listing} {table : FunctionTable Listing}

/-- From a generation on, the search lays out all that are left. It has turns for as many functions of
the table as have not been laid out yet. -/
theorem bodies_generation (left : Nat) {depth turns : Nat} {seen : List Int}
    (count : depth + left = table.entries.length + 1)
    (present : ∀ id ∈ discoveredBefore main table depth, (table.get? id).isSome = true)
    (enough : table.entries.length ≤ turns + (discoveredBefore main table depth).length)
    (known : ∀ id, id ∈ seen ↔ id ∈ discoveredBefore main table (depth + 1)) :
    bodies table turns seen (generation main table depth) =
      layOut table ((List.range' depth left).flatMap (generation main table)) := by
  induction left generalizing depth turns seen with
  | zero =>
    have empty : generation main table depth = [] := by
      refine List.eq_nil_iff_forall_not_mem.mpr fun id member => ?_
      have bound := depth_le_of_mem member
      omega
    rw [empty]
    cases turns <;> rfl
  | succ left ih =>
    -- As many of this generation as come before the first missing function can be laid out.
    have room {front rest : List Int} (split : generation main table depth = front ++ rest)
        (inside : ∀ id ∈ front, (table.get? id).isSome = true) :
        (discoveredBefore main table depth).length + front.length ≤ table.entries.length := by
      have distinct : (discoveredBefore main table (depth + 1)).Nodup := nodup_discoveredBefore
      rw [discoveredBefore, split, ← List.append_assoc] at distinct
      rw [← List.length_append]
      exact FunctionTable.length_le_of_found distinct.of_append_left
        (List.forall_mem_append.mpr ⟨present, inside⟩)
    rw [List.range'_succ, List.flatMap_cons]
    -- Both sides lay out the functions in turn and fail at the first that is missing.
    cases missing : (generation main table depth).find? fun id => (table.get? id).isNone with
    | some id =>
      rw [layOut, List.find?_append, missing, Option.some_or]
      obtain ⟨isMissing, front, rest, split, before⟩ := List.find?_eq_some_iff_append.mp missing
      have inside : ∀ id ∈ front, (table.get? id).isSome = true := by simpa using before
      obtain ⟨more, rfl⟩ : ∃ more, turns = front.length + more := by
        have bound := room split inside
        exact Nat.exists_eq_add_of_le (by omega)
      rw [split, bodies_present inside, List.cons_append,
        bodies_missing (Option.isNone_iff_eq_none.mp isMissing)]
      rfl
    | none =>
      have inside : ∀ id ∈ generation main table depth, (table.get? id).isSome = true := by
        simpa [Option.isSome_iff_ne_none] using missing
      have bound := room (List.append_nil _).symm inside
      obtain ⟨more, rfl⟩ : ∃ more, turns = (generation main table depth).length + more :=
        Nat.exists_eq_add_of_le (by omega)
      have next : fresh seen ((generation main table depth).flatMap (callees table)) =
          generation main table (depth + 1) := fresh_congr known _
      have step := @bodies_present _ more _ inside seen []
      rw [List.append_nil, List.nil_append, next] at step
      have onwards := @ih (depth + 1) more (generation main table (depth + 1) ++ seen) (by omega)
        (List.forall_mem_append.mpr ⟨present, inside⟩)
        (by rw [discoveredBefore, List.length_append]; omega)
        (fun id => by rw [discoveredBefore, List.mem_append, List.mem_append, known, or_comm])
      rw [step, onwards]
      simp only [layOut, List.find?_append, missing, Option.none_or]
      split <;> simp [Except.map]

theorem discover_main : discover [] main = generation main table 0 := discover_eq_fresh [] main

theorem bodies_main {turns : Nat} (enough : table.entries.length ≤ turns) :
    bodies table turns (discover [] main) (discover [] main) =
      layOut table (callOrder main table) := by
  rw [@discover_main main table, callOrder, List.range_eq_range']
  exact bodies_generation (table.entries.length + 1) (Nat.zero_add _) nofun enough fun _ => Iff.rfl

theorem flatten_eq (finish : Int) :
    flatten main table finish =
      (match (callOrder main table).find? fun id => (table.get? id).isNone with
      | some id => .error (.unknownFunction id)
      | none => .ok (if main.calls = [] then main else
          main ++ [.jump finish] ++ (callOrder main table).flatMap (labelled table) ++
            [.label finish])) := by
  by_cases calls : main.calls = []
  · have nothing : discover [] main = [] := by
      rw [discover_eq_fresh, calls]
      rfl
    rw [flatten, nothing, callOrder_eq_nil.mpr calls, List.find?_nil, if_pos calls]
  · have some : discover [] main ≠ [] := by
      obtain ⟨id, called⟩ := List.exists_mem_of_ne_nil _ calls
      refine List.ne_nil_of_mem (a := id) ?_
      rw [discover_eq_fresh]
      exact mem_fresh.mpr ⟨called, List.not_mem_nil⟩
    rw [if_neg calls, flatten]
    split
    next nothing => exact absurd nothing some
    next =>
      rw [bodies_main (Nat.le_refl _), layOut]
      split <;> rfl

end

/-- Where nothing is called, the stream is the main block. -/
theorem flatten_uncalled {main : Listing} {table : FunctionTable Listing} {finish : Int}
    (uncalled : main.calls = []) : flatten main table finish = .ok main := by
  rw [flatten_eq, callOrder_eq_nil.mpr uncalled, List.find?_nil, if_pos uncalled]

/-- The order of the bodies in the stream of a program, whatever the table and the main block: the
functions that the main block can reach, each once, in breadth-first order. The search fails exactly
if one of them is not in the table, and names the first of these; else it puts the labelled bodies
behind the main block, and what nothing reaches is not there. It does not depend on how many turns it
may take, if only they are as many as the table has functions. -/
theorem flatten_breadthFirst (main : Listing) (table : FunctionTable Listing) (finish : Int) :
    (callOrder main table).Nodup ∧
      (∀ id, id ∈ callOrder main table ↔ ∃ length, Chain main table length id) ∧
      (∀ id depth, id ∈ generation main table depth ↔
        IsLeast {length | Chain main table length id} depth) ∧
      flatten main table finish =
        (match (callOrder main table).find? fun id => (table.get? id).isNone with
        | some id => .error (.unknownFunction id)
        | none => .ok (if main.calls = [] then main else
            main ++ [.jump finish] ++ (callOrder main table).flatMap (labelled table) ++
              [.label finish])) ∧
      ((∃ error, flatten main table finish = .error error) ↔
        ∃ id, (∃ length, Chain main table length id) ∧ table.get? id = none) ∧
      ∀ turns, table.entries.length ≤ turns →
        bodies table turns (discover [] main) (discover [] main) =
          bodies table table.entries.length (discover [] main) (discover [] main) := by
  refine ⟨nodup_callOrder, fun _ => mem_callOrder, fun _ _ => mem_generation_iff_isLeast,
    flatten_eq finish, ?_, fun turns enough => ?_⟩
  · rw [flatten_eq finish]
    simp only [← mem_callOrder]
    -- Whether the search fails is whether something is missing in the order, whose members are the reached.
    cases missing : (callOrder main table).find? fun id => (table.get? id).isNone with
    | some id =>
      refine iff_of_true ⟨_, rfl⟩ ⟨id, List.mem_of_find?_eq_some missing, ?_⟩
      simpa using List.find?_some missing
    | none =>
      refine iff_of_false (by simp) fun ⟨id, reached, lacking⟩ => ?_
      simpa [lacking] using List.find?_eq_none.mp missing id reached
  · rw [bodies_main enough, bodies_main (Nat.le_refl _)]

/-- Functions that call themselves and each other, and one that is not called. -/
def crossingTable : FunctionTable Listing :=
  .ofList [(1, [.invoke 3, .invoke 4]), (2, []), (3, [.invoke 3, .invoke 2]), (4, [.invoke 1]), (9, [])]

theorem flatten_crossingTable :
    flatten [.invoke 3, .invoke 1, .invoke 3] crossingTable 10 =
        .ok [.invoke 3, .invoke 1, .invoke 3, .jump 10, .label 3, .invoke 3, .invoke 2, .label 1,
          .invoke 3, .invoke 4, .label 2, .label 4, .invoke 1, .label 10] ∧
      IsLeast {length | Chain [.invoke 3, .invoke 1, .invoke 3] crossingTable length 4} 1 ∧
      bodies crossingTable 7 [3, 1] [3, 1] = bodies crossingTable 5 [3, 1] [3, 1] := by
  obtain ⟨-, -, generations, laidOut, -, enough⟩ :=
    flatten_breadthFirst [.invoke 3, .invoke 1, .invoke 3] crossingTable 10
  exact ⟨laidOut.trans rfl, (generations 4 1).mp (by decide), enough 7 (by decide)⟩

end Flat

end TapeCode
