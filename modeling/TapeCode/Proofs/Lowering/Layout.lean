import Mathlib.Data.List.Pairwise
import TapeCode.Program.Cases
import TapeCode.Proofs.Lowering.CallOrder
import TapeCode.Stack.Program

/-!
# How a program lies in its stream

A program is well-formed when it is made of intermediate instructions, no number of a label is used
twice, jumps stay in their body, and every function that is called is there. The bodies that such a
program can reach then lie in its stream, each once and behind the label of its function, and the
stream finds every label it names.
-/
namespace TapeCode

namespace Instruction

/-- Whether an intermediate program may have the instruction: it is no part of a state machine and of
no structured condition. -/
def isIntermediate : Instruction → Bool
  | .ifElseBegin | .ifElseElse | .ifElseEnd | .fsmBegin _ | .fsmEnd | .fsmCase | .fsmJump _
  | .fsmIf _ _ | .fsmCall _ | .fsmReturn => false
  | _ => true

/-- The label that a jump leads to. -/
def jumpTarget? : Instruction → Option Int
  | .jump target | .jumpIf target => some target
  | _ => none

/-- The label that a transfer leads to in a stream, where functions are labels too. -/
def target? : Instruction → Option Int
  | .jump target | .jumpIf target | .invoke target => some target
  | _ => none

end Instruction

namespace Listing

def labels (listing : Listing) : List Int := listing.filterMap (·.label?)

theorem mem_labels {listing : Listing} {label : Int} :
    label ∈ labels listing ↔ Instruction.label label ∈ listing := by
  simp only [labels, List.mem_filterMap]
  constructor
  · rintro ⟨instruction, member, named⟩
    cases instruction <;> simp only [Instruction.label?, Option.some.injEq, reduceCtorEq] at named
    exact named ▸ member
  · exact fun member => ⟨_, member, rfl⟩

/-- What a stream has to fulfil to become a state machine. -/
structure SelfContained (stream : Listing) : Prop where
  intermediate : ∀ instruction ∈ stream, instruction.isIntermediate = true
  distinct : (labels stream).Nodup
  targets : ∀ instruction ∈ stream, ∀ label, instruction.target? = some label →
    Instruction.label label ∈ stream

end Listing

namespace Program

/-- The labels of a program, its functions and the label that the passes may use. -/
def allLabels (program : Program) : List Int :=
  Listing.labels program.main ++
    program.functions.entries.flatMap (fun entry => entry.1 :: Listing.labels entry.2) ++
    [program.nextLabel]

/-- The main block and the bodies of all functions. -/
def bodies (program : Program) : List Listing :=
  program.main :: program.functions.entries.map (·.2)

structure WellFormed (program : Program) : Prop where
  intermediate : ∀ body ∈ program.bodies, ∀ instruction ∈ body, instruction.isIntermediate = true
  distinct : program.allLabels.Nodup
  jumps : ∀ body ∈ program.bodies, ∀ instruction ∈ body, ∀ label ∈ instruction.jumpTarget?,
    Instruction.label label ∈ body
  calls : ∀ body ∈ program.bodies, ∀ instruction ∈ body, ∀ id ∈ instruction.invoked?,
    (program.functions.get? id).isSome = true

instance (program : Program) : Decidable program.WellFormed :=
  decidable_of_iff
    ((∀ body ∈ program.bodies, ∀ instruction ∈ body, instruction.isIntermediate = true) ∧
      program.allLabels.Nodup ∧
      (∀ body ∈ program.bodies, ∀ instruction ∈ body, ∀ label ∈ instruction.jumpTarget?,
        Instruction.label label ∈ body) ∧
      ∀ body ∈ program.bodies, ∀ instruction ∈ body, ∀ id ∈ instruction.invoked?,
        (program.functions.get? id).isSome = true)
    ⟨fun ⟨intermediate, distinct, jumps, calls⟩ => ⟨intermediate, distinct, jumps, calls⟩,
      fun ⟨intermediate, distinct, jumps, calls⟩ => ⟨intermediate, distinct, jumps, calls⟩⟩

end Program

theorem Program.mem_bodies {program : Program} {id : Int} {body : Listing}
    (found : program.functions.get? id = some body) : body ∈ program.bodies :=
  List.mem_cons_of_mem _
    (List.mem_map_of_mem (f := (·.2)) (FunctionTable.mem_of_get? found))

namespace Flat

/-! ## The stream -/

/-- What follows the body of a function in the stream. -/
def behindFunction (table : FunctionTable Listing) (finish : Int) (order : List Int) (id : Int) :
    Listing :=
  (order.dropWhile (· ≠ id)).tail.flatMap (labelled table) ++ [.label finish]

/-- How the bodies that a program can reach lie in a stream: the main block at its start, and each
function behind its label. -/
structure Laid (program : Program) (stream : Listing) (tail : Option Int → Listing)
    (reached : Option Int → Prop) : Prop where
  main : reached none
  start : stream = program.main ++ tail none
  placed : ∀ {id body}, reached (some id) → program.functions.get? id = some body →
    ∃ before, stream = before ++ .label id :: (body ++ tail (some id))
  calls : ∀ {function body}, reached function → program.body? function = some body → ∀ id,
    Instruction.invoke id ∈ body → reached (some id)
  finish : tail none = [] ∨
    ∃ finish between, tail none = .jump finish :: (between ++ [.label finish])
  behind : ∀ id, ∃ label rest, tail (some id) = .label label :: rest

private theorem labels_labelled (table : FunctionTable Listing) (order : List Int) :
    Listing.labels (order.flatMap (labelled table)) =
      order.flatMap fun id => id :: Listing.labels ((table.get? id).getD []) := by
  simp only [Listing.labels, labelled, List.filterMap_flatMap, List.filterMap_cons,
    Instruction.label?]

/-- Bodies of different functions of the table have different labels. -/
private theorem nodup_laid {program : Program} (distinct : program.allLabels.Nodup)
    {order : List Int} (once : order.Nodup)
    (known : ∀ id ∈ order, (program.functions.get? id).isSome = true) :
    (Listing.labels program.main ++
      ((order.flatMap fun id => id :: Listing.labels ((program.functions.get? id).getD [])) ++
        [program.nextLabel])).Nodup := by
  simp only [Program.allLabels, List.append_assoc] at distinct
  obtain ⟨main, others, apart⟩ := List.nodup_append'.mp distinct
  obtain ⟨table, last, tableApart⟩ := List.nodup_append'.mp others
  obtain ⟨each, pairs⟩ := List.nodup_flatMap.mp table
  have entry : ∀ id ∈ order, (id, (program.functions.get? id).getD []) ∈
      program.functions.entries := fun id member => by
    obtain ⟨body, has⟩ := Option.isSome_iff_exists.mp (known id member)
    rw [has]
    exact FunctionTable.mem_of_get? has
  -- What is laid out is a part of the table.
  have inside : (order.flatMap fun id => id :: Listing.labels ((program.functions.get? id).getD []))
      ⊆ program.functions.entries.flatMap fun entry => entry.1 :: Listing.labels entry.2 := by
    intro label member
    obtain ⟨id, ordered, labelled⟩ := List.mem_flatMap.mp member
    exact List.mem_flatMap.mpr ⟨_, entry id ordered, labelled⟩
  refine List.nodup_append'.mpr ⟨main, List.nodup_append'.mpr ⟨?_, last, ?_⟩, ?_⟩
  · refine List.nodup_flatMap.mpr ⟨fun id member => each _ (entry id member), ?_⟩
    refine once.imp_of_mem fun {first second} firstIn secondIn different => ?_
    have : Std.Symm (Function.onFun List.Disjoint
        fun entry : Int × Listing => entry.1 :: Listing.labels entry.2) :=
      ⟨fun _ _ apart => List.disjoint_symm apart⟩
    exact pairs.forall (entry first firstIn) (entry second secondIn)
      fun same => different (congrArg (·.1) same)
  · exact List.disjoint_of_subset_left inside tableApart
  · refine List.disjoint_of_subset_right (fun label member => ?_) apart
    exact (List.mem_append.mp member).elim (fun laid => List.mem_append_left _ (inside laid))
      (List.mem_append_right _)

private theorem split_at {order : List Int} {id : Int} (member : id ∈ order) :
    ∃ before, order = before ++ id :: (order.dropWhile (· ≠ id)).tail := by
  induction order with
  | nil => simp at member
  | cons first order ih =>
    by_cases same : first = id
    · exact ⟨[], by simp [same]⟩
    · obtain ⟨before, split⟩ := ih ((List.mem_cons.mp member).resolve_left (Ne.symm same))
      refine ⟨first :: before, ?_⟩
      rw [List.dropWhile_cons_of_pos (by simpa using same), List.cons_append]
      exact congrArg (first :: ·) split

private theorem mem_labelled {table : FunctionTable Listing} {order : List Int}
    {instruction : Instruction} (member : instruction ∈ order.flatMap (labelled table)) :
    (∃ id ∈ order, instruction = .label id) ∨
      ∃ id ∈ order, ∃ body, table.get? id = some body ∧ instruction ∈ body := by
  obtain ⟨id, ordered, laid⟩ := List.mem_flatMap.mp member
  rcases List.mem_cons.mp laid with rfl | inside
  · exact .inl ⟨id, ordered, rfl⟩
  · cases has : table.get? id with
    | none => simp [has] at inside
    | some body => exact .inr ⟨id, ordered, body, has, by simpa [has] using inside⟩

/-- A target of a listing is a label of a body around it, or a function. -/
private theorem target_cases {instruction : Instruction} {label : Int}
    (leads : instruction.target? = some label) :
    instruction.jumpTarget? = some label ∨ instruction = .invoke label := by
  cases instruction <;> simp_all [Instruction.target?, Instruction.jumpTarget?]

private theorem flatten_alone {program : Program} (wellFormed : program.WellFormed)
    (none : program.main.calls = []) :
    flatten program.main program.functions program.nextLabel = .ok program.main ∧
      program.main.SelfContained ∧
      Laid program program.main (fun | .none => [] | some _ => [.label program.nextLabel])
        (· = .none) := by
  have uncalled : ∀ id, Instruction.invoke id ∉ program.main := fun id called => by
    have found := Listing.mem_calls.mpr called
    simp [none] at found
  have main : program.main ∈ program.bodies := List.mem_cons_self
  refine ⟨flatten_uncalled none, ⟨wellFormed.intermediate _ main, ?_, ?_⟩,
    ⟨rfl, (List.append_nil _).symm, ?_, ?_, .inl rfl, ?_⟩⟩
  · exact (wellFormed.distinct.sublist (List.sublist_append_left _ _)).sublist
      (List.sublist_append_left _ _)
  · intro instruction member label leads
    rcases target_cases leads with jump | rfl
    · exact wellFormed.jumps _ main _ member _ jump
    · exact absurd member (uncalled label)
  · exact fun reached => nomatch reached
  · rintro function body rfl has id called
    obtain rfl : program.main = body := Option.some.inj has
    exact absurd called (uncalled id)
  · exact fun id => ⟨program.nextLabel, [], rfl⟩

/-! ### Programs with calls -/

section

variable {program : Program}

private theorem called_reached {id : Int} (calls : Instruction.invoke id ∈ program.main) :
    id ∈ callOrder program.main program.functions :=
  mem_callOrder.mpr ⟨0, .direct (Listing.mem_calls.mpr calls)⟩

/-- What a function calls that the main block can reach, the main block can reach, too. -/
private theorem callee_reached {id callee : Int}
    (reached : id ∈ callOrder program.main program.functions) {body : Listing}
    (has : program.functions.get? id = some body) (calls : Instruction.invoke callee ∈ body) :
    callee ∈ callOrder program.main program.functions := by
  obtain ⟨length, chain⟩ := mem_callOrder.mp reached
  exact mem_callOrder.mpr ⟨_, chain.through (mem_callees.mpr ⟨body, has, calls⟩)⟩

private theorem reached_present (wellFormed : program.WellFormed) {id : Int}
    (reached : id ∈ callOrder program.main program.functions) :
    (program.functions.get? id).isSome = true := by
  obtain ⟨length, chain⟩ := mem_callOrder.mp reached
  cases chain with
  | direct calls =>
    exact wellFormed.calls _ List.mem_cons_self _ (Listing.mem_calls.mp calls) id rfl
  | through chain calls =>
    obtain ⟨body, has, calls⟩ := mem_callees.mp calls
    exact wellFormed.calls body (Program.mem_bodies has) _ calls id rfl

/-- The main block, a jump over the functions it can reach, and these. -/
def laidOut (program : Program) : Listing :=
  program.main ++ .jump program.nextLabel ::
    ((callOrder program.main program.functions).flatMap (labelled program.functions) ++
      [.label program.nextLabel])

private theorem flatten_laidOut (wellFormed : program.WellFormed) (some : program.main.calls ≠ []) :
    flatten program.main program.functions program.nextLabel = .ok (laidOut program) := by
  have complete : (callOrder program.main program.functions).find?
      (fun id => (program.functions.get? id).isNone) = none := by
    simpa [Option.isSome_iff_ne_none] using fun id reached => reached_present wellFormed reached
  rw [flatten_eq, complete, if_neg some, laidOut]
  simp

/-- An instruction of the stream is one of the main block, the jump over the functions, one of a function
that the main block can reach, or a label. -/
private theorem mem_laidOut {instruction : Instruction} (member : instruction ∈ laidOut program) :
    instruction ∈ program.main ∨ instruction = .jump program.nextLabel ∨
      (∃ id ∈ callOrder program.main program.functions, ∃ body,
        program.functions.get? id = some body ∧ instruction ∈ body) ∨
      ∃ label, instruction = .label label := by
  simp only [laidOut, List.mem_append, List.mem_cons, List.not_mem_nil, or_false] at member
  rcases member with inside | rfl | inside | rfl
  · exact .inl inside
  · exact .inr (.inl rfl)
  · rcases mem_labelled inside with ⟨id, -, rfl⟩ | found
    · exact .inr (.inr (.inr ⟨id, rfl⟩))
    · exact .inr (.inr (.inl found))
  · exact .inr (.inr (.inr ⟨_, rfl⟩))

private theorem main_mem_laidOut {instruction : Instruction} (member : instruction ∈ program.main) :
    instruction ∈ laidOut program :=
  List.mem_append_left _ member

private theorem labelled_mem_laidOut {instruction : Instruction} {id : Int}
    (reached : id ∈ callOrder program.main program.functions)
    (member : instruction ∈ labelled program.functions id) : instruction ∈ laidOut program :=
  List.mem_append_right _ (List.mem_cons_of_mem _
    (List.mem_append_left _ (List.mem_flatMap.mpr ⟨id, reached, member⟩)))

/-- A jump finds its label in its own body, and a call the label in front of the body it calls. -/
private theorem selfContained_laidOut (wellFormed : program.WellFormed) :
    (laidOut program).SelfContained := by
  have main : program.main ∈ program.bodies := List.mem_cons_self
  refine ⟨fun instruction member => ?_, ?_, fun instruction member label leads => ?_⟩
  · rcases mem_laidOut member with inside | rfl | ⟨id, -, body, has, inside⟩ | ⟨label, rfl⟩
    · exact wellFormed.intermediate _ main _ inside
    · rfl
    · exact wellFormed.intermediate _ (Program.mem_bodies has) _ inside
    · rfl
  · -- The labels of the stream are those of the program, less those of functions without a call.
    have labels := nodup_laid wellFormed.distinct nodup_callOrder
      fun id reached => reached_present wellFormed reached
    rw [← labels_labelled] at labels
    simpa [laidOut, Listing.labels, Instruction.label?] using labels
  · rcases mem_laidOut member with inside | rfl | ⟨id, reached, body, has, inside⟩ | ⟨other, rfl⟩
    · rcases target_cases leads with jump | rfl
      · exact main_mem_laidOut (wellFormed.jumps _ main _ inside _ jump)
      · exact labelled_mem_laidOut (called_reached inside) List.mem_cons_self
    · obtain rfl : program.nextLabel = label := by simpa [Instruction.target?] using leads
      simp [laidOut]
    · rcases target_cases leads with jump | rfl
      · refine labelled_mem_laidOut reached (List.mem_cons_of_mem _ ?_)
        rw [has]
        exact wellFormed.jumps _ (Program.mem_bodies has) _ inside _ jump
      · exact labelled_mem_laidOut (callee_reached reached has inside) List.mem_cons_self
    · cases leads

/-- The stream is split where a function begins that the main block can reach. -/
private theorem laidOut_split {id : Int} (reached : id ∈ callOrder program.main program.functions)
    {body : Listing} (has : program.functions.get? id = some body) :
    ∃ before, laidOut program = before ++ .label id :: (body ++
      behindFunction program.functions program.nextLabel (callOrder program.main program.functions)
        id) := by
  obtain ⟨before, split⟩ := split_at reached
  have bodies : (callOrder program.main program.functions).flatMap (labelled program.functions) =
      before.flatMap (labelled program.functions) ++ (labelled program.functions id ++
        ((callOrder program.main program.functions).dropWhile (· ≠ id)).tail.flatMap
          (labelled program.functions)) := by
    conv_lhs => rw [split]
    simp
  refine ⟨program.main ++ .jump program.nextLabel :: before.flatMap (labelled program.functions), ?_⟩
  rw [laidOut, bodies]
  simp [behindFunction, labelled, has]

end

private theorem flatten_called {program : Program} (wellFormed : program.WellFormed)
    (some : program.main.calls ≠ []) :
    ∃ stream tail reached, flatten program.main program.functions program.nextLabel = .ok stream ∧
      stream.SelfContained ∧ Laid program stream tail reached := by
  refine ⟨laidOut program,
    (fun | none => .jump program.nextLabel ::
            ((callOrder program.main program.functions).flatMap (labelled program.functions) ++
              [.label program.nextLabel])
         | .some id => behindFunction program.functions program.nextLabel
            (callOrder program.main program.functions) id),
    (fun function => ∀ id, function = .some id → id ∈ callOrder program.main program.functions),
    flatten_laidOut wellFormed some, selfContained_laidOut wellFormed,
    ⟨?_, rfl, ?_, ?_, .inr ⟨_, _, rfl⟩, ?_⟩⟩
  · exact fun id equal => nomatch equal
  · exact fun reached has => laidOut_split (reached _ rfl) has
  · intro function body reached has id calls other equal
    obtain rfl : id = other := Option.some.inj equal
    cases function with
    | none =>
      obtain rfl : program.main = body := Option.some.inj has
      exact called_reached calls
    | some caller => exact callee_reached (reached caller rfl) has calls
  · intro id
    simp only [behindFunction]
    generalize (List.dropWhile _ _).tail = others
    cases others with
    | nil => exact ⟨program.nextLabel, [], rfl⟩
    | cons other rest => exact ⟨other, _, rfl⟩

/-- A well-formed program has a stream, and its bodies lie in it. -/
theorem flatten_laid {program : Program} (wellFormed : program.WellFormed) :
    ∃ stream tail reached, flatten program.main program.functions program.nextLabel = .ok stream ∧
      stream.SelfContained ∧ Laid program stream tail reached := by
  by_cases uncalled : program.main.calls = []
  · exact ⟨_, _, _, flatten_alone wellFormed uncalled⟩
  · exact flatten_called wellFormed uncalled

end Flat

end TapeCode
