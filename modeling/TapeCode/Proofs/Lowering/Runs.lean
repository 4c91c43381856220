import Mathlib.Data.List.Basic
import TapeCode.Proofs.Lowering.Layout
import TapeCode.Stack.Cases

/-!
# The cases of a stream

The runs of a stream are found from its end, so the runs of a rest of the stream are the last ones of
the stream, but for the first of them, which may lack what stands before the rest. A rest therefore
lies in a case whose number is told by how many runs it has, and it lies at the start of the case when
nothing of its first run is missing. Each run is a case of the state machine.
-/
namespace TapeCode

theorem Instruction.label?_eq_some {instruction : Instruction} {id : Int} :
    instruction.label? = some id ↔ instruction = .label id := by
  cases instruction <;> simp [label?]

namespace Cases

/-! ## Runs -/

/-- Whether an instruction is the last one of its run. -/
def endsRun (first : Instruction) (rest : Listing) : Bool :=
  rest.isEmpty || first.isTransfer || (label? rest).isSome

theorem runs_ne_nil {listing : Listing} (some : listing ≠ []) : runs listing ≠ [] := by
  cases listing with
  | nil => exact absurd rfl some
  | cons first rest =>
    simp only [runs]
    split
    · split <;> exact List.cons_ne_nil _ _
    · exact List.cons_ne_nil _ _

theorem runs_cons_ends {first : Instruction} {rest : Listing} (ends : endsRun first rest = true) :
    runs (first :: rest) = [first] :: runs rest := by
  cases rest with
  | nil => rfl
  | cons next rest =>
    obtain ⟨run, others, split⟩ := List.exists_cons_of_ne_nil (runs_ne_nil (List.cons_ne_nil next rest))
    have cut : (first.isTransfer || next.label?.isSome) = true := by
      simpa [endsRun, label?] using ends
    rw [runs.eq_def]
    simp only [split, cut, if_true]

theorem runs_cons_continues {first : Instruction} {rest : Listing}
    (continues : endsRun first rest = false) :
    ∃ run others, runs rest = run :: others ∧ runs (first :: rest) = (first :: run) :: others := by
  cases rest with
  | nil => simp [endsRun] at continues
  | cons next rest =>
    obtain ⟨run, others, split⟩ := List.exists_cons_of_ne_nil (runs_ne_nil (List.cons_ne_nil next rest))
    have joined : (first.isTransfer || next.label?.isSome) = false := by
      simpa [endsRun, label?] using continues
    refine ⟨run, others, split, ?_⟩
    rw [runs.eq_def]
    simp only [split, joined, if_neg Bool.false_ne_true]

/-- The runs are the stream. -/
theorem runs_flatten (listing : Listing) : (runs listing).flatten = listing := by
  induction listing with
  | nil => rfl
  | cons first rest ih =>
    cases ends : endsRun first rest with
    | true => simp [runs_cons_ends ends, ih]
    | false =>
      obtain ⟨run, others, split, joined⟩ := runs_cons_continues ends
      rw [joined, List.flatten_cons, List.cons_append, ← List.flatten_cons, ← split, ih]

/-- The run that a listing starts with. -/
def headRun (listing : Listing) : Listing := (runs listing).headD []

theorem runs_cons (first : Instruction) (rest : Listing) :
    ∃ run others, runs (first :: rest) = (first :: run) :: others := by
  cases ends : endsRun first rest with
  | true => exact ⟨[], _, runs_cons_ends ends⟩
  | false =>
    obtain ⟨run, others, -, joined⟩ := runs_cons_continues ends
    exact ⟨run, others, joined⟩

theorem label?_headRun (listing : Listing) : label? (headRun listing) = label? listing := by
  cases listing with
  | nil => rfl
  | cons first rest =>
    obtain ⟨run, others, split⟩ := runs_cons first rest
    simp [headRun, split, label?]

theorem headRun_ends {first : Instruction} {rest : Listing} (ends : endsRun first rest = true) :
    headRun (first :: rest) = [first] := by
  simp [headRun, runs_cons_ends ends]

theorem headRun_continues {first : Instruction} {rest : Listing}
    (continues : endsRun first rest = false) :
    headRun (first :: rest) = first :: headRun rest ∧ headRun rest ≠ [] ∧
      label? (headRun rest) = none := by
  obtain ⟨run, others, split, joined⟩ := runs_cons_continues continues
  refine ⟨by simp [headRun, split, joined], ?_, ?_⟩
  · cases rest with
    | nil => simp [endsRun] at continues
    | cons next rest =>
      obtain ⟨behind, more, cut⟩ := runs_cons next rest
      simp [headRun, cut]
  · rw [label?_headRun]
    simpa [endsRun] using (Bool.or_eq_false_iff.mp continues).2

/-- A run is an instruction alone, or one that is no transfer before a run that starts with no label. -/
inductive IsRun : Listing → Prop
  | single (first : Instruction) : IsRun [first]
  | cons {first : Instruction} {run : Listing} (stays : first.isTransfer = false)
      (bare : label? run = none) (further : IsRun run) : IsRun (first :: run)

theorem IsRun.ne_nil {run : Listing} (isRun : IsRun run) : run ≠ [] := by
  cases isRun <;> exact List.cons_ne_nil _ _

theorem isRun_of_mem {listing run : Listing} (cut : run ∈ runs listing) : IsRun run := by
  induction listing generalizing run with
  | nil => cases cut
  | cons first rest ih =>
    cases ends : endsRun first rest with
    | true =>
      rw [runs_cons_ends ends] at cut
      rcases List.mem_cons.mp cut with rfl | behind
      · exact .single first
      · exact ih behind
    | false =>
      obtain ⟨head, others, split, joined⟩ := runs_cons_continues ends
      have bare : label? head = none := by
        simpa [headRun, split] using (headRun_continues ends).2.2
      have stays : first.isTransfer = false :=
        (Bool.or_eq_false_iff.mp (Bool.or_eq_false_iff.mp ends).1).2
      rw [joined] at cut
      rcases List.mem_cons.mp cut with rfl | behind
      · exact .cons stays bare (ih (split ▸ List.mem_cons_self))
      · exact ih (split ▸ List.mem_cons_of_mem _ behind)

/-- Cut where a run ends, a stream has the runs of its two parts. -/
theorem runs_append {before rest : Listing}
    (boundary : ∀ last, before.getLast? = some last → endsRun last rest = true) :
    runs (before ++ rest) = runs before ++ runs rest := by
  induction before with
  | nil => rfl
  | cons first before ih =>
    cases before with
    | nil => exact runs_cons_ends (boundary first rfl)
    | cons next before =>
      have parts := ih fun last found => boundary last (by simpa using found)
      cases ends : endsRun first (next :: before) with
      | true =>
        have endsWhole : endsRun first (next :: before ++ rest) = true := by
          simpa [endsRun, label?] using ends
        rw [List.cons_append, runs_cons_ends endsWhole, parts, runs_cons_ends ends]
        rfl
      | false =>
        have continues : endsRun first (next :: before ++ rest) = false := by
          simpa [endsRun, label?] using ends
        obtain ⟨run, others, split, joined⟩ := runs_cons_continues ends
        obtain ⟨whole, behind, splitWhole, joinedWhole⟩ := runs_cons_continues continues
        rw [parts, split, List.cons_append, List.cons.injEq] at splitWhole
        obtain ⟨rfl, rfl⟩ := splitWhole
        rw [List.cons_append, joinedWhole, joined, List.cons_append]

/-! ## Numbers of cases -/

/-- The number of the case in which a rest of a stream lies. -/
def caseNumber (stream rest : Listing) : Int := (runs stream).length + 1 - (runs rest).length

theorem caseNumber_ends {stream rest : Listing} {first : Instruction}
    (ends : endsRun first rest = true) :
    caseNumber stream rest = caseNumber stream (first :: rest) + 1 := by
  simp only [caseNumber, runs_cons_ends ends, List.length_cons]
  omega

theorem caseNumber_continues {stream rest : Listing} {first : Instruction}
    (continues : endsRun first rest = false) :
    caseNumber stream rest = caseNumber stream (first :: rest) := by
  obtain ⟨run, others, split, joined⟩ := runs_cons_continues continues
  simp only [caseNumber, split, joined, List.length_cons]

/-- Where the runs of a stream are cut in two parts. -/
structure StartsRun (stream rest : Listing) (before : Listing) : Prop where
  split : stream = before ++ rest
  boundary : ∀ last, before.getLast? = some last → endsRun last rest = true

theorem StartsRun.caseNumber {stream rest before : Listing} (starts : StartsRun stream rest before) :
    caseNumber stream rest = (runs before).length + 1 := by
  simp only [Cases.caseNumber, starts.split, runs_append starts.boundary, List.length_append]
  omega

theorem startsRun_label {stream before rest : Listing} {id : Int}
    (split : stream = before ++ .label id :: rest) :
    StartsRun stream (.label id :: rest) before :=
  ⟨split, fun last _ => by simp [endsRun, label?, Instruction.label?]⟩

theorem startsRun_behind {stream before rest : Listing} {last : Instruction}
    (split : stream = before ++ last :: rest) (ends : endsRun last rest = true) :
    StartsRun stream rest (before ++ [last]) :=
  ⟨by simpa using split, fun other found => by
    obtain rfl : last = other := by simpa using found
    exact ends⟩

private theorem caseOf_append {before others : List Listing} {run : Listing} {label : Int}
    (here : label? run = some label) (behind : ∀ other ∈ others, label? other ≠ some label) :
    caseOf (before ++ run :: others) label = .ok (before.length + 1) := by
  have none : ((others.zipIdx (1 + before.length + 1)).reverse.find?
      fun entry => decide (label? entry.1 = some label)) = none := by
    refine List.find?_eq_none.mpr fun entry member => ?_
    have inside := List.fst_mem_of_mem_zipIdx (List.mem_reverse.mp member)
    simpa using behind _ inside
  simp only [caseOf, List.zipIdx_append, List.zipIdx_cons, List.reverse_append, List.reverse_cons,
    List.append_assoc, List.find?_append, none, Option.none_or, List.find?_cons, here, decide_true,
    List.singleton_append]
  exact congrArg Except.ok (by push_cast; omega)

/-- A jump leads to the case that starts with its label. -/
theorem caseOf_label {stream before rest : Listing} {label : Int}
    (distinct : (Listing.labels stream).Nodup) (split : stream = before ++ .label label :: rest) :
    caseOf (runs stream) label = .ok (caseNumber stream (.label label :: rest)) := by
  have starts := startsRun_label split
  obtain ⟨run, others, joined⟩ := runs_cons (.label label) rest
  have whole := runs_flatten (.label label :: rest)
  rw [joined, List.flatten_cons, List.cons_append, List.cons.injEq] at whole
  have onlyOnce : label ∉ Listing.labels rest := by
    rw [split] at distinct
    have later := (List.nodup_append'.mp (by simpa only [Listing.labels, List.filterMap_append] using
      distinct)).2.1
    simp only [List.filterMap_cons, Instruction.label?, List.nodup_cons] at later
    exact later.1
  rw [starts.caseNumber, starts.split, runs_append starts.boundary, joined]
  refine caseOf_append rfl fun other member named => onlyOnce ?_
  -- The label of another run is an instruction behind this one.
  cases other with
  | nil => cases named
  | cons first others' =>
    have isLabel : first = .label label := Instruction.label?_eq_some.mp named
    rw [Listing.mem_labels, ← whole.2]
    exact List.mem_append_right _ (List.mem_flatten.mpr ⟨_, member, isLabel ▸ List.mem_cons_self⟩)

end Cases

end TapeCode
