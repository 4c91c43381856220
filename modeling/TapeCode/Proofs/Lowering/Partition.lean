import TapeCode.Proofs.Lowering.Leftovers

/-!
# Runs are basic blocks

Cutting a stream loses nothing and repeats nothing: the runs are the stream, a label can only be the first
instruction of its run and a transfer only the last one, and a run starts at the labels, behind the
transfers, at the start of the stream, and nowhere else. So when a stream becomes a state machine, the
bodies of its cases are the stream without what tells where control goes, and all dispatches name cases of
the machine or the place behind the last one.
-/
namespace TapeCode

/-! ## Parts of a stream -/

/-- Whether the part with that number, counted from zero, starts behind the instructions `before`. -/
def Listing.Starts (parts : List Listing) (before : Listing) (number : Nat) : Prop :=
  number < parts.length ∧ (parts.take number).flatten = before

/-- The parts are the basic blocks of the stream. -/
structure Listing.IsDivided (stream : Listing) (parts : List Listing) : Prop where
  joined : parts.flatten = stream
  nonempty : ∀ part ∈ parts, part ≠ []
  labelFirst : ∀ part ∈ parts, ∀ before instruction rest, part = before ++ instruction :: rest →
    instruction.label?.isSome = true → before = []
  transferLast : ∀ part ∈ parts, ∀ before instruction rest, part = before ++ instruction :: rest →
    instruction.isTransfer = true → rest = []
  labelStarts : ∀ before id rest, stream = before ++ .label id :: rest →
    ∃! number, Starts parts before number
  transferCuts : ∀ before instruction rest, stream = before ++ instruction :: rest →
    instruction.isTransfer = true → rest ≠ [] → ∃! number, Starts parts (before ++ [instruction]) number
  /-- Nothing is cut elsewhere. -/
  onlyThere : ∀ before rest, stream = before ++ rest → (∃ number, Starts parts before number) →
    before = [] ∨ (Cases.label? rest).isSome = true ∨
      ∃ last, before.getLast? = some last ∧ last.isTransfer = true

/-- Parts that are not empty start at different places. -/
theorem Listing.Starts.unique {parts : List Listing} (nonempty : ∀ part ∈ parts, part ≠ [])
    {before : Listing} {first second : Nat} (starts : Starts parts before first)
    (again : Starts parts before second) : first = second := by
  obtain ⟨inside, rfl⟩ := starts
  obtain ⟨insideToo, same⟩ := again
  -- Both numbers are zero, or the first part is passed in both counts.
  induction parts generalizing first second with
  | nil => exact absurd inside (Nat.not_lt_zero _)
  | cons part parts ih =>
    obtain ⟨here, later⟩ := List.forall_mem_cons.mp nonempty
    cases first with
    | zero =>
      cases second with
      | zero => rfl
      | succ second => exact absurd (List.append_eq_nil_iff.mp same).1 here
    | succ first =>
      cases second with
      | zero => exact absurd (List.append_eq_nil_iff.mp same.symm).1 here
      | succ second =>
        have behind := List.append_cancel_left same
        exact congrArg (· + 1) (ih later (Nat.lt_of_succ_lt_succ inside)
          (Nat.lt_of_succ_lt_succ insideToo) behind)

/-! ## What is left of a stream -/

/-- Whether a conditional jump behind the instruction takes it up: a negation directly before the jump. -/
def Instruction.isTakenUp (first : Instruction) (rest : Listing) : Bool :=
  match first, rest with
  | .not, .jumpIf _ :: _ => true
  | _, _ => false

/-- A stream without what tells where control goes: labels, transfers, and the negations that conditional
jumps take up. -/
def Listing.withoutControl : Listing → Listing
  | [] => []
  | first :: rest =>
    if first.isControl || first.isTakenUp rest then withoutControl rest
    else first :: withoutControl rest

/-- Whether a stream is cut, or ends in a transfer. All others stay as they are. -/
def Listing.NeedsMachine (stream : Listing) : Prop :=
  1 < (Cases.runs stream).length ∨ ∃ last, stream.getLast? = some last ∧ last.isTransfer = true

namespace Cases

variable {stream run code : Listing}

/-! ## Inside a run -/

/-- In a run nothing but its first instruction is a label, and nothing but its last one a transfer. -/
theorem IsRun.shape (isRun : IsRun run) {before rest : Listing} {instruction : Instruction}
    (split : run = before ++ instruction :: rest) :
    (instruction.label?.isSome = true → before = []) ∧
      (instruction.isTransfer = true → rest = []) := by
  induction isRun generalizing before with
  | single first =>
    cases before with
    | nil => exact ⟨fun _ => rfl, fun _ => (List.cons.inj split).2.symm⟩
    | cons other before => simp at split
  | @cons first run stays bare further ih =>
    cases before with
    | nil =>
      obtain ⟨rfl, rfl⟩ := List.cons.inj split
      exact ⟨fun _ => rfl, fun transfers => absurd transfers (by simp [stays])⟩
    | cons other before =>
      obtain ⟨rfl, inside⟩ := List.cons.inj split
      have shape := ih inside
      refine ⟨fun labelled => ?_, shape.2⟩
      -- A label behind the first instruction would start a run of its own.
      obtain rfl := shape.1 labelled
      rw [inside] at bare
      have none : instruction.label? = none := bare
      rw [none] at labelled
      cases labelled

/-- A negation is taken up by a conditional jump behind it, and only by that. -/
theorem isTakenUp_eq_true {first : Instruction} {rest : Listing} : first.isTakenUp rest = true ↔
    first = .not ∧ ∃ target behind, rest = .jumpIf target :: behind := by
  constructor
  · intro taken
    unfold Instruction.isTakenUp at taken
    split at taken
    · exact ⟨rfl, _, _, rfl⟩
    · cases taken
  · rintro ⟨rfl, target, behind, rfl⟩
    rfl

/-- The body of a case is its run without what tells where control goes. -/
theorem IsRun.runBody_eq (isRun : IsRun run) : runBody run = run.withoutControl := by
  induction isRun with
  | single first => cases first <;> rfl
  | @cons first run stays bare further ih =>
    cases labelled : first.label? with
    | some id =>
      -- Behind its label a run has the same body as without it.
      obtain rfl := Instruction.label?_eq_some.mp labelled
      exact (@run_label [] 0 id _ bare).1.trans ih
    | none =>
      have plain := Instruction.isControl_eq_false.mpr ⟨labelled, stays⟩
      rcases @run_plain [] 0 _ _ labelled further.ne_nil bare with ⟨rfl, target, rfl⟩ | ⟨whole, -⟩
      · rfl
      · have alone : first.isTakenUp run = false := by
          -- A jump ends its run, so a negation that it takes up has no body behind it.
          refine Bool.eq_false_iff.mpr fun taken => ?_
          obtain ⟨rfl, target, behind, rfl⟩ := isTakenUp_eq_true.mp taken
          obtain rfl := (@shape _ further [] _ _ rfl).2 rfl
          cases whole
        rw [whole, ih]
        simp [Listing.withoutControl, plain, alone]

/-! ## All runs -/

/-- Whether an instruction is taken up is told by the instruction behind it. -/
theorem isTakenUp_append (first : Instruction) {run : Listing} (nonempty : run ≠ []) (rest : Listing) :
    first.isTakenUp (run ++ rest) = first.isTakenUp run := by
  cases run with
  | nil => exact absurd rfl nonempty
  | cons next run =>
    rw [Bool.eq_iff_iff]
    simp [isTakenUp_eq_true]

/-- Without what tells where control goes, the runs are the stream without it. -/
theorem flatMap_withoutControl (stream : Listing) :
    (runs stream).flatMap Listing.withoutControl = stream.withoutControl := by
  induction stream with
  | nil => rfl
  | cons first rest ih =>
    cases ends : endsRun first rest with
    | true =>
      rw [runs_cons_ends ends, List.flatMap_cons, ih]
      cases control : first.isControl with
      | true => simp [Listing.withoutControl, control]
      | false =>
        -- Behind a cut there is a label or nothing, but no conditional jump.
        have alone : first.isTakenUp rest = false := by
          refine Bool.eq_false_iff.mpr fun taken => ?_
          obtain ⟨rfl, target, behind, rfl⟩ := isTakenUp_eq_true.mp taken
          cases ends
        have last : first.isTakenUp [] = false := by
          simp [Bool.eq_false_iff, isTakenUp_eq_true]
        simp [Listing.withoutControl, control, alone, last]
    | false =>
      -- The first run grows at its start, and the instruction behind it stays the same.
      obtain ⟨run, others, split, joined⟩ := runs_cons_continues ends
      have cut : run ∈ runs rest := split ▸ List.mem_cons_self
      have flat : run ++ others.flatten = rest := by
        rw [← runs_flatten rest, split, List.flatten_cons]
      have alike : first.isTakenUp rest = first.isTakenUp run := by
        rw [← flat, isTakenUp_append first (isRun_of_mem cut).ne_nil]
      rw [split, List.flatMap_cons] at ih
      rw [joined, List.flatMap_cons]
      simp only [Listing.withoutControl, alike]
      split
      · exact ih
      · rw [List.cons_append, ih]

/-! ## Where runs start -/

theorem nonempty_of_mem : ∀ run ∈ runs stream, run ≠ [] := fun _ cut => (isRun_of_mem cut).ne_nil

/-- Where the stream is cut, one run starts. -/
theorem existsUnique_starts {before rest : Listing} (nonempty : rest ≠ [])
    (boundary : ∀ last, before.getLast? = some last → endsRun last rest = true) :
    ∃! number, Listing.Starts (runs (before ++ rest)) before number := by
  have starts : Listing.Starts (runs (before ++ rest)) before (runs before).length := by
    have more := List.length_pos_iff.mpr (runs_ne_nil nonempty)
    rw [runs_append boundary]
    constructor
    · rw [List.length_append]
      omega
    · rw [List.take_left, runs_flatten]
  exact ⟨_, starts, fun number again => again.unique nonempty_of_mem starts⟩

/-- Where a run starts, the stream is cut. -/
theorem endsRun_of_split {first second : List Listing} (parts : runs stream = first ++ second)
    {last : Instruction} (found : first.flatten.getLast? = some last) :
    endsRun last second.flatten = true := by
  induction stream generalizing first with
  | nil =>
    obtain ⟨rfl, -⟩ := List.append_eq_nil_iff.mp parts.symm
    cases found
  | cons here rest ih =>
    -- Behind the instruction `here` the parts are those of the rest, and the last one is the same.
    have later {others : List Listing} (behind : runs rest = others ++ second)
        (some : others ≠ []) (ended : (here :: others.flatten).getLast? = .some last) :
        endsRun last second.flatten = true := by
      refine ih behind ?_
      obtain ⟨run, others, rfl⟩ := List.exists_cons_of_ne_nil some
      have cut : run ∈ runs rest := by
        rw [behind]
        exact List.mem_cons_self
      rwa [List.getLast?_cons_of_ne_nil (by simp [nonempty_of_mem run cut])] at ended
    cases first with
    | nil => cases found
    | cons run first =>
      cases ends : endsRun here rest with
      | true =>
        rw [runs_cons_ends ends] at parts
        obtain ⟨rfl, behind⟩ := List.cons.inj parts
        cases first with
        | nil =>
          obtain rfl : here = last := by simpa using found
          obtain rfl : runs rest = second := behind
          rwa [runs_flatten]
        | cons next first => exact later behind (List.cons_ne_nil _ _) found
      | false =>
        obtain ⟨head, others, split, joined⟩ := runs_cons_continues ends
        rw [joined] at parts
        obtain ⟨rfl, rfl⟩ := List.cons.inj parts
        exact later split (List.cons_ne_nil _ _) found

/-- A run starts at the start of the stream, at a label or behind a transfer. -/
theorem cut_of_starts {before rest : Listing} (split : stream = before ++ rest) {number : Nat}
    (starts : Listing.Starts (runs stream) before number) :
    before = [] ∨ (label? rest).isSome = true ∨
      ∃ last, before.getLast? = some last ∧ last.isTransfer = true := by
  obtain ⟨inside, flat⟩ := starts
  cases found : before.getLast? with
  | none => exact .inl (List.getLast?_eq_none_iff.mp found)
  | some last =>
    -- The runs from here on are the rest of the stream.
    have parts := (List.take_append_drop number (runs stream)).symm
    have whole : before ++ ((runs stream).drop number).flatten = stream := by
      rw [← flat, ← List.flatten_append, ← parts, runs_flatten]
    obtain rfl : ((runs stream).drop number).flatten = rest :=
      List.append_cancel_left (whole.trans split)
    have ends := endsRun_of_split parts (flat ▸ found)
    simp only [endsRun, Bool.or_eq_true, List.isEmpty_iff] at ends
    rcases ends with (nothing | transfers) | labelled
    · -- The run that starts here is not empty.
      rw [List.drop_eq_getElem_cons inside, List.flatten_cons] at nothing
      have empty := (List.append_eq_nil_iff.mp nothing).1
      exact absurd empty (nonempty_of_mem _ (List.getElem_mem inside))
    · exact .inr (.inr ⟨last, rfl, transfers⟩)
    · exact .inr (.inl labelled)

/-- Cutting a stream into runs divides it into its basic blocks. -/
theorem isDivided_runs (stream : Listing) : stream.IsDivided (runs stream) where
  joined := runs_flatten stream
  nonempty := nonempty_of_mem
  labelFirst := fun _ cut _ _ _ split => ((isRun_of_mem cut).shape split).1
  transferLast := fun _ cut _ _ _ split => ((isRun_of_mem cut).shape split).2
  labelStarts := by
    rintro before id rest rfl
    refine existsUnique_starts (List.cons_ne_nil _ _) fun last _ => ?_
    simp [endsRun, label?, Instruction.label?]
  transferCuts := by
    rintro before instruction rest rfl transfers nonempty
    rw [List.append_cons]
    refine existsUnique_starts nonempty fun last found => ?_
    obtain rfl : instruction = last := by simpa using found
    simp [endsRun, transfers]
  onlyThere := fun _ _ split ⟨_, starts⟩ => cut_of_starts split starts

/-! ## The state machine -/

/-- The transfer of a run is its last instruction, whether there is a label before it or not. -/
theorem transfer?_eq (run : Listing) : transfer? run = run.getLast?.filter (·.isTransfer) := by
  cases labelled : label? run with
  | none => rw [transfer?, unlabelled_of_none labelled]
  | some id =>
    cases run with
    | nil => rfl
    | cons first rest =>
      obtain rfl : first = .label id := Instruction.label?_eq_some.mp labelled
      cases rest with
      | nil => rfl
      | cons next rest =>
        rw [List.getLast?_cons_of_ne_nil (List.cons_ne_nil _ _)]
        rfl

theorem ofStream_straight (straight : ¬stream.NeedsMachine) : ofStream stream = .ok stream := by
  obtain ⟨few, stays⟩ := not_or.mp straight
  have flat := runs_flatten stream
  match cut : runs stream with
  | [] => simp [ofStream, cut]
  | [only] =>
    obtain rfl : only = stream := by simpa [cut] using flat
    have stops : transfer? only = none := by
      rw [transfer?_eq, Option.filter_eq_none_iff]
      exact fun last found transfers => stays ⟨last, found, transfers⟩
    simp [ofStream, cut, stops]
  | _ :: _ :: _ => simp [cut] at few

/-- A stream that is a single run without a transfer needs no machine. -/
theorem not_needsMachine (whole : ∀ run ∈ runs stream, run = stream ∧ transfer? run = none) :
    ¬stream.NeedsMachine := by
  have flat := runs_flatten stream
  intro needed
  match cut : runs stream with
  | [] =>
    obtain rfl : [] = stream := by simpa [cut] using flat
    rcases needed with many | ⟨last, found, -⟩
    · cases many
    · cases found
  | [only] =>
    obtain ⟨rfl, stops⟩ := whole only (by simp [cut])
    rcases needed with many | ⟨last, found, transfers⟩
    · simp [cut] at many
    · simp [transfer?_eq, found, transfers] at stops
  | first :: second :: others =>
    -- Two runs that both are the whole stream leave no room for each other.
    have among : second ∈ runs stream := by simp [cut]
    have some := List.length_pos_iff.mpr (nonempty_of_mem second among)
    have lengths := congrArg List.length flat
    obtain ⟨firstWhole, -⟩ := whole first (by simp [cut])
    obtain ⟨secondWhole, -⟩ := whole second among
    simp only [cut, List.flatten_cons, List.length_append, firstWhole, secondWhole] at lengths some
    omega

theorem ofStream_machine (needed : stream.NeedsMachine) (made : ofStream stream = .ok code) :
    ∃ inner, cases (runs stream) 1 (runs stream) = .ok inner ∧
      code = .fsmBegin (runs stream).length :: inner ++ [.fsmEnd] :=
  (ofStream_eq_ok made).resolve_left fun straight => not_needsMachine straight.2 needed

/-- The runs of a stream are its basic blocks: nothing is lost or repeated, labels come first and transfers
last, and both cut the stream, which is cut nowhere else. A stream that needs a state machine becomes one
with a case for each run. The bodies of the cases, one behind the other, are the stream without its labels,
its transfers and the negations directly before its conditional jumps, and all dispatches lead to cases of
the machine or behind the last one. -/
theorem runs_partition (stream : Listing) :
    stream.IsDivided (runs stream) ∧
      (¬stream.NeedsMachine → ofStream stream = .ok stream) ∧
      (stream.NeedsMachine → ∀ code, ofStream stream = .ok code → ∃ machine : List MachineCase,
        code = machineListing machine ∧
        machine.map (·.body) = (runs stream).map Listing.withoutControl ∧
        machine.flatMap (·.body) = stream.withoutControl ∧
        ∀ source ∈ machine, ∀ target ∈ source.dispatch.instruction.caseTargets,
          1 ≤ target ∧ target ≤ machine.length + 1) := by
  refine ⟨isDivided_runs stream, ofStream_straight, fun needed code made => ?_⟩
  obtain ⟨inner, madeInner, rfl⟩ := ofStream_machine needed made
  obtain ⟨machine, rfl, bodies, targets⟩ := cases_eq_ok madeInner
  replace bodies : machine.map (·.body) = (runs stream).map Listing.withoutControl :=
    bodies.trans (List.map_congr_left fun run cut => (isRun_of_mem cut).runBody_eq)
  have count : machine.length = (runs stream).length := by
    simpa using congrArg List.length bodies
  refine ⟨machine, ?_, bodies, ?_, ?_⟩
  · rw [machineListing, count]
  · rw [← flatMap_withoutControl, List.flatMap_def, bodies, List.flatMap_def]
  · rw [count]
    exact targets (by omega)

/-- A loop between two labels in a row, left by a jump that is negated, with a return behind it. -/
def leavingLoop : Listing :=
  [.label 0, .label 1, .readChar, .not, .not, .jumpIf 2, .printChar, .jump 0, .label 2, .leave]

theorem runs_partition_leavingLoop : ∃ machine : List MachineCase,
    ofStream leavingLoop = .ok (machineListing machine) ∧ machine.length = 4 ∧
      machine.map (·.body) = [[], [.readChar, .not], [.printChar], []] ∧
      ∀ source ∈ machine, ∀ target ∈ source.dispatch.instruction.caseTargets,
        1 ≤ target ∧ target ≤ 5 := by
  have needed : leavingLoop.NeedsMachine := .inl (by decide)
  obtain ⟨code, made⟩ : ∃ code, ofStream leavingLoop = .ok code := ⟨_, rfl⟩
  obtain ⟨machine, rfl, bodies, -, targets⟩ := (runs_partition leavingLoop).2.2 needed code made
  have count : machine.length = 4 := by
    rw [← List.length_map, bodies]
    rfl
  rw [count] at targets
  exact ⟨machine, made, count, bodies, targets⟩

end Cases

end TapeCode
