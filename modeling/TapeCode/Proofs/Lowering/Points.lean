import TapeCode.Proofs.CasePoint
import TapeCode.Proofs.Lowering.MachineCases
import TapeCode.Proofs.Lowering.Stream

/-!
# The state machine runs the stream

At every rest of its stream the state machine is in the case of the rest, with what is left of the
case's body before it. Labels are no instructions of a case, and a negation that the dispatch takes up
is none either: the machine takes no step there, which is counted as a step it owes. It never owes
more than two. Where a run ends without a transfer it takes a step more, to the next case.
-/
namespace TapeCode

namespace Cases

variable {stream : Listing} {ending : EndOfInput}

/-- What stands for a place to return to is the number of the case that starts there. -/
def StandsFor (stream rest : Listing) (value : StackValue Int) : Prop :=
  (∃ before, StartsRun stream rest before) ∧ value = .address (caseNumber stream rest)

/-- Where the state machine is, and how many steps it owes. -/
inductive Matches (stream : Listing) : Nat → StreamState → CasePoint → Prop
  | level {owed : Nat} {rest : Listing} {values : StackState Listing} {others : StackState Int}
    (inside : rest <:+ stream)
    (dispatch : rest ≠ [] → ∃ current,
      MachineCase.find? (ofRuns stream) (caseNumber stream rest) = some current ∧
      current.dispatch = runDispatch (runs stream) (caseNumber stream rest + 1) (headRun rest))
    (same : values.Corresponds (StandsFor stream) others) (few : owed ≤ 1)
    (none : (label? rest).isSome = true → owed = 0) :
    Matches stream owed ⟨rest, values⟩ ⟨caseNumber stream rest, runBody (headRun rest), others⟩
  | negated {owed : Nat} {target : Int} {rest : Listing} {values : StackState Listing}
    {others below : StackState Int} {value : UInt8} {current : MachineCase}
    (inside : .jumpIf target :: rest <:+ stream)
    (found : MachineCase.find? (ofRuns stream) (caseNumber stream (.jumpIf target :: rest)) =
      some current)
    (dispatch : current.dispatch =
      .branch (caseNumber stream (.jumpIf target :: rest) + 1) (jumpNumber (runs stream) target))
    (popped : others.popByte? = some (value, below))
    (same : values.Corresponds (StandsFor stream)
      (below.push (.byte (Byte.ofBool (value = 0))))) (few : owed ≤ 2) :
    Matches stream owed ⟨.jumpIf target :: rest, values⟩
      ⟨caseNumber stream (.jumpIf target :: rest), [], others⟩

/-- The machine goes on to where the stream is, in no more steps than the limit, and pays for one step
of the stream. A step pays for three, since it never owes more than two before. -/
def Proceeds (stream : Listing) (ending : EndOfInput) (limit owed : Nat) (point : CasePoint)
    (next : StreamState) : Prop :=
  ∃ marks following left, Path (CasePoint.step? (ofRuns stream) ending) (·.case) point marks
      following ∧
    Matches stream left next following ∧ owed + 1 ≤ 3 * marks.length + left ∧ marks.length ≤ limit

theorem Proceeds.mono {limit more owed : Nat} {point : CasePoint} {next : StreamState}
    (proceeds : Proceeds stream ending limit owed point next) (atMost : limit ≤ more) :
    Proceeds stream ending more owed point next := by
  obtain ⟨marks, following, left, path, matched, paid, short⟩ := proceeds
  exact ⟨marks, following, left, path, matched, paid, Nat.le_trans short atMost⟩

theorem Proceeds.after {limit owed : Nat} {point middle : CasePoint} {next : StreamState}
    (stepped : CasePoint.step? (ofRuns stream) ending point = some middle)
    (proceeds : Proceeds stream ending limit 0 middle next) (few : owed ≤ 2) :
    Proceeds stream ending (limit + 1) owed point next := by
  obtain ⟨marks, following, left, path, matched, paid, short⟩ := proceeds
  refine ⟨point.case :: marks, following, left, .next stepped path, matched, ?_, ?_⟩
  · rw [List.length_cons]
    omega
  · rw [List.length_cons]
    omega

theorem length_runs_le {rest listing : Listing} (inside : rest <:+ listing) :
    (runs rest).length ≤ (runs listing).length := by
  obtain ⟨before, rfl⟩ := inside
  induction before with
  | nil => exact Nat.le_refl _
  | cons first before ih =>
    refine Nat.le_trans ih ?_
    rw [List.cons_append]
    cases ends : endsRun first (before ++ rest) with
    | true => simp [runs_cons_ends ends]
    | false =>
      obtain ⟨run, others, split, joined⟩ := runs_cons_continues ends
      simp [split, joined]

theorem caseNumber_positive {rest : Listing} (inside : rest <:+ stream) :
    1 ≤ caseNumber stream rest := by
  have length := length_runs_le inside
  simp only [caseNumber]
  omega

/-- The machine arrives at the start of a run. -/
theorem StartsRun.matches {rest before : Listing} (starts : StartsRun stream rest before)
    {values : StackState Listing} {others : StackState Int}
    (same : values.Corresponds (StandsFor stream) others) :
    Matches stream 0 ⟨rest, values⟩
      (CasePoint.enter (ofRuns stream) ⟨Cases.caseNumber stream rest, others⟩) := by
  have inside : rest <:+ stream := ⟨before, starts.split.symm⟩
  by_cases empty : rest = []
  · subst empty
    have left : CasePoint.bodyOf (ofRuns stream) (Cases.caseNumber stream []) = [] := by
      rw [show Cases.caseNumber stream [] = (ofRuns stream).length + 1 by
        simp [Cases.caseNumber, length_ofRuns, runs]]
      exact CasePoint.bodyOf_left _
    rw [CasePoint.enter, left]
    exact .level inside (fun some => absurd rfl some) same (Nat.zero_le 1) fun _ => rfl
  · have found := find?_of_startsRun starts empty
    have body : CasePoint.bodyOf (ofRuns stream) (Cases.caseNumber stream rest) =
        runBody (headRun rest) := by
      simp [CasePoint.bodyOf, found, machineCase]
    rw [CasePoint.enter, body]
    exact .level inside (fun _ => ⟨_, found, rfl⟩) same (Nat.zero_le 1) fun _ => rfl

/-- The machine starts in its first case. -/
theorem matches_start (stream : Listing) (input : List UInt8) :
    Matches stream 0 ⟨stream, .start input⟩
      (CasePoint.enter (ofRuns stream) ⟨1, .start input⟩) := by
  have starts : StartsRun stream stream [] := ⟨rfl, fun last found => nomatch found⟩
  have arrived := starts.matches (.start input)
  rwa [starts.caseNumber] at arrived

theorem target_eq {cases : List MachineCase} {number : Int} (positive : 1 ≤ number) :
    MachineCase.target cases number = number := by
  rw [MachineCase.target, if_neg (by omega)]

/-- A dispatch that selects the case of a run takes the machine to its start. -/
theorem dispatch_arrives {number : Int} {current : MachineCase} {rest before : Listing}
    (found : MachineCase.find? (ofRuns stream) number = some current)
    {values : StackState Listing} {others after : StackState Int}
    (selected : MachineCase.select? .asAddress (ofRuns stream) number others current.dispatch =
      some ⟨caseNumber stream rest, after⟩)
    (starts : StartsRun stream rest before)
    (same : values.Corresponds (StandsFor stream) after) {owed : Nat} (few : owed ≤ 2) :
    Proceeds stream ending 1 owed ⟨number, [], others⟩ ⟨rest, values⟩ :=
  ⟨[number], _, 0, .single (CasePoint.step?_dispatch found selected), starts.matches same,
    by simp only [List.length_singleton]; omega, by simp⟩

/-- Behind a run without a transfer is the next one. -/
theorem falls_through {rest : Listing} {first : Instruction} (inside : first :: rest <:+ stream)
    (ends : endsRun first rest = true) {current : MachineCase}
    (found : MachineCase.find? (ofRuns stream) (caseNumber stream (first :: rest)) = some current)
    (dispatch : current.dispatch = .jump (caseNumber stream (first :: rest) + 1))
    {values : StackState Listing} {others : StackState Int}
    (same : values.Corresponds (StandsFor stream) others) {owed : Nat} (few : owed ≤ 2) :
    Proceeds stream ending 1 owed ⟨caseNumber stream (first :: rest), [], others⟩ ⟨rest, values⟩ := by
  obtain ⟨before, split⟩ := inside
  have positive := @caseNumber_positive stream _ ⟨before, split⟩
  refine dispatch_arrives found ?_ (startsRun_behind split.symm ends) same few
  rw [dispatch, MachineCase.select?, target_eq (by omega), caseNumber_ends ends]

/-! ## Labels -/

/-- A label takes no step, unless its run is over behind it. -/
theorem label_proceeds {id : Int} {rest : Listing} {values : StackState Listing} {owed : Nat}
    {point : CasePoint} (matched : Matches stream owed ⟨.label id :: rest, values⟩ point) :
    Proceeds stream ending 1 owed point ⟨rest, values⟩ := by
  cases matched with
  | level inside dispatch same few none =>
    obtain rfl := none rfl
    obtain ⟨current, found, chosen⟩ := dispatch (List.cons_ne_nil _ _)
    cases ends : endsRun (.label id) rest with
    | true =>
      rw [headRun_ends ends] at chosen ⊢
      exact falls_through inside ends found chosen same (Nat.zero_le 2)
    | false =>
      obtain ⟨whole, -, bare⟩ := headRun_continues ends
      obtain ⟨body, dispatches⟩ := @run_label (runs stream) (caseNumber stream rest + 1) id _ bare
      rw [← caseNumber_continues ends] at found chosen ⊢
      rw [whole] at chosen ⊢
      refine ⟨[], _, 1, .here, ?_, by simp, by simp⟩
      rw [body]
      refine .level ((List.suffix_cons _ _).trans inside)
        (fun _ => ⟨current, found, chosen.trans dispatches⟩) same (Nat.le_refl 1) fun labelled => ?_
      rw [← label?_headRun, bare] at labelled
      cases labelled

/-! ## Jumps, calls and returns -/

/-- A dispatch that selects the case of a label takes the machine behind the label. -/
theorem dispatch_passes_label {number label : Int} {current : MachineCase} {next before : Listing}
    (found : MachineCase.find? (ofRuns stream) number = some current)
    {values : StackState Listing} {others after : StackState Int}
    (split : stream = before ++ .label label :: next)
    (selected : MachineCase.select? .asAddress (ofRuns stream) number others current.dispatch =
      some ⟨caseNumber stream (.label label :: next), after⟩)
    (same : values.Corresponds (StandsFor stream) after) {owed : Nat} (few : owed ≤ 2) :
    Proceeds stream ending 2 owed ⟨number, [], others⟩ ⟨next, values⟩ :=
  .after (CasePoint.step?_dispatch found selected)
    (label_proceeds ((startsRun_label split).matches same)) few

theorem jumpNumber_eq (distinct : (Listing.labels stream).Nodup) {label : Int}
    {before next : Listing} (split : stream = before ++ .label label :: next) :
    jumpNumber (runs stream) label = caseNumber stream (.label label :: next) := by
  rw [jumpNumber, caseOf_label distinct split]

theorem target_label (distinct : (Listing.labels stream).Nodup) {label : Int}
    {before next : Listing} (split : stream = before ++ .label label :: next) :
    MachineCase.target (ofRuns stream) (jumpNumber (runs stream) label) =
      caseNumber stream (.label label :: next) := by
  rw [jumpNumber_eq distinct split, target_eq (caseNumber_positive ⟨before, split.symm⟩)]

theorem target_behind {first : Instruction} {rest : Listing} (inside : first :: rest <:+ stream)
    (ends : endsRun first rest = true) :
    MachineCase.target (ofRuns stream) (caseNumber stream (first :: rest) + 1) =
      caseNumber stream rest := by
  rw [← caseNumber_ends ends, target_eq (caseNumber_positive ((List.suffix_cons _ _).trans inside))]

/-- A transfer is the last instruction of its run, and nothing is left of its case's body. -/
theorem headRun_transfer {first : Instruction} {rest : Listing} (transfers : first.isTransfer = true) :
    endsRun first rest = true ∧ headRun (first :: rest) = [first] := by
  have ends : endsRun first rest = true := by simp [endsRun, transfers]
  exact ⟨ends, by simp [headRun, runs_cons_ends ends]⟩

theorem jump_proceeds (distinct : (Listing.labels stream).Nodup) {target : Int}
    {rest before next : Listing} {values : StackState Listing} {owed : Nat} {point : CasePoint}
    (matched : Matches stream owed ⟨.jump target :: rest, values⟩ point)
    (split : stream = before ++ .label target :: next) :
    Proceeds stream ending 2 owed point ⟨next, values⟩ := by
  cases matched with
  | level inside dispatch same few none =>
    obtain ⟨current, found, chosen⟩ := dispatch (List.cons_ne_nil _ _)
    obtain ⟨-, alone⟩ := @headRun_transfer (.jump target) rest rfl
    rw [alone, runDispatch_jump] at chosen
    rw [alone, runBody_jump]
    refine dispatch_passes_label found split ?_ same (Nat.le_succ_of_le few)
    rw [chosen, MachineCase.select?, target_label distinct split]

/-- A conditional jump that is taken. If the machine has taken up a negation, it finds the value from
before it, which must then be zero. -/
theorem branch_proceeds (distinct : (Listing.labels stream).Nodup) {target : Int}
    {rest before next : Listing} {values below : StackState Listing} {condition : UInt8} {owed : Nat}
    {point : CasePoint} (matched : Matches stream owed ⟨.jumpIf target :: rest, values⟩ point)
    (popped : values.popByte? = some (condition, below)) (holds : condition ≠ 0)
    (split : stream = before ++ .label target :: next) :
    Proceeds stream ending 2 owed point ⟨next, below⟩ := by
  cases matched with
  | level inside dispatch same few none =>
    obtain ⟨current, found, chosen⟩ := dispatch (List.cons_ne_nil _ _)
    obtain ⟨-, alone⟩ := @headRun_transfer (.jumpIf target) rest rfl
    obtain ⟨after, taken, corresponds⟩ := same.popByte? popped
    rw [alone, runDispatch_jumpIf] at chosen
    rw [alone, runBody_jumpIf]
    refine dispatch_passes_label found split ?_ corresponds (Nat.le_succ_of_le few)
    simp [chosen, MachineCase.select?, taken, holds, target_label distinct split]
  | negated inside found dispatch value same few =>
    obtain ⟨after, taken, corresponds⟩ := same.popByte? popped
    simp only [StackState.popByte?, StackState.pop?, StackState.push, Option.some.injEq,
      Prod.mk.injEq] at taken
    obtain ⟨rfl, rfl⟩ := taken
    have zero : ‹UInt8› = 0 := by
      by_contra other
      exact holds (by simp [Byte.ofBool, other])
    refine dispatch_passes_label found split ?_ corresponds few
    simp [dispatch, MachineCase.select?, value, zero, target_label distinct split]

/-- A conditional jump that is not taken. -/
theorem pass_proceeds {target : Int} {rest : Listing} {values below : StackState Listing} {owed : Nat}
    {point : CasePoint} (matched : Matches stream owed ⟨.jumpIf target :: rest, values⟩ point)
    (popped : values.popByte? = some (0, below)) :
    Proceeds stream ending 1 owed point ⟨rest, below⟩ := by
  obtain ⟨ends, alone⟩ := @headRun_transfer (.jumpIf target) rest rfl
  cases matched with
  | level inside dispatch same few none =>
    obtain ⟨current, found, chosen⟩ := dispatch (List.cons_ne_nil _ _)
    obtain ⟨after, taken, corresponds⟩ := same.popByte? popped
    rw [alone, runDispatch_jumpIf] at chosen
    rw [alone, runBody_jumpIf]
    obtain ⟨before, split⟩ := id inside
    refine dispatch_arrives found ?_ (startsRun_behind split.symm ends) corresponds
      (Nat.le_succ_of_le few)
    simp [chosen, MachineCase.select?, taken, target_behind inside ends]
  | negated inside found dispatch value same few =>
    obtain ⟨after, taken, corresponds⟩ := same.popByte? popped
    simp only [StackState.popByte?, StackState.pop?, StackState.push, Option.some.injEq,
      Prod.mk.injEq] at taken
    obtain ⟨negation, rfl⟩ := taken
    have nonzero : ‹UInt8› ≠ 0 := fun zero => by simp [Byte.ofBool, zero] at negation
    obtain ⟨before, split⟩ := id inside
    refine dispatch_arrives found ?_ (startsRun_behind split.symm ends) corresponds few
    simp [dispatch, MachineCase.select?, value, nonzero, target_behind inside ends]

/-- A call leaves the number of the case behind it, which starts there. -/
theorem invoke_proceeds (distinct : (Listing.labels stream).Nodup) {id : Int}
    {rest before next : Listing} {values : StackState Listing} {owed : Nat} {point : CasePoint}
    (matched : Matches stream owed ⟨.invoke id :: rest, values⟩ point)
    (split : stream = before ++ .label id :: next) :
    Proceeds stream ending 2 owed point ⟨next, values.push (.address rest)⟩ := by
  cases matched with
  | level inside dispatch same few none =>
    obtain ⟨current, found, chosen⟩ := dispatch (List.cons_ne_nil _ _)
    obtain ⟨ends, alone⟩ := @headRun_transfer (.invoke id) rest rfl
    rw [alone, runDispatch_invoke] at chosen
    rw [alone, runBody_invoke]
    obtain ⟨call, behind⟩ := inside
    have stands : StandsFor stream rest (.address (caseNumber stream (.invoke id :: rest) + 1)) :=
      ⟨⟨_, startsRun_behind behind.symm ends⟩, by rw [caseNumber_ends ends]⟩
    refine dispatch_passes_label found split ?_ (same.push (.address stands)) (Nat.le_succ_of_le few)
    rw [chosen, MachineCase.select?, target_label distinct split]
    rfl

theorem leave_proceeds {rest next : Listing} {values below : StackState Listing} {owed : Nat}
    {point : CasePoint} (matched : Matches stream owed ⟨.leave :: rest, values⟩ point)
    (popped : values.pop? = some (.address next, below)) :
    Proceeds stream ending 1 owed point ⟨next, below⟩ := by
  cases matched with
  | level inside dispatch same few none =>
    obtain ⟨current, found, chosen⟩ := dispatch (List.cons_ne_nil _ _)
    obtain ⟨-, alone⟩ := @headRun_transfer .leave rest rfl
    rw [alone, runDispatch_leave] at chosen
    rw [alone, runBody_leave]
    obtain ⟨_, after, taken, stands, corresponds⟩ := same.pop? popped
    obtain ⟨⟨before, starts⟩, rfl⟩ : StandsFor stream next _ := by
      cases stands with
      | address kept => exact kept
    refine dispatch_arrives found ?_ starts corresponds (Nat.le_succ_of_le few)
    simp [chosen, MachineCase.select?, taken, CaseKeeping.asAddress]

/-! ## Ordinary instructions -/

/-- Labels and transfers are not ordinary. -/
theorem ordinary_of_execute? {α : Type} {values after : StackState α} {instruction : Instruction}
    (executed : values.execute? ending instruction = some after) :
    instruction.label? = none ∧ instruction.isTransfer = false := by
  cases instruction <;> first | exact ⟨rfl, rfl⟩ | cases executed

theorem starts_with_headRun {listing run : Listing} {first : Instruction}
    (starts : headRun listing = first :: run) : ∃ rest, listing = first :: rest := by
  cases listing with
  | nil => simp [headRun, runs] at starts
  | cons other rest =>
    obtain ⟨tail, others, split⟩ := runs_cons other rest
    simp only [headRun, split, List.headD_cons, List.cons.injEq] at starts
    exact ⟨rest, by rw [starts.1]⟩

/-- An ordinary instruction is a step, unless it is a negation that the dispatch takes up. -/
theorem plain_proceeds {instruction : Instruction} {rest : Listing}
    {values after : StackState Listing} {owed : Nat} {point : CasePoint}
    (matched : Matches stream owed ⟨instruction :: rest, values⟩ point)
    (executed : values.execute? ending instruction = some after) :
    Proceeds stream ending 2 owed point ⟨rest, after⟩ := by
  obtain ⟨ordinary, stays⟩ := ordinary_of_execute? executed
  cases matched with
  | negated => cases executed
  | level inside dispatch same few none =>
    obtain ⟨current, found, chosen⟩ := dispatch (List.cons_ne_nil _ _)
    obtain ⟨next, went, corresponds⟩ := same.execute? executed
    have owes : owed ≤ 2 := Nat.le_succ_of_le few
    -- At the end of its run the machine falls through to the next case by a dispatch, else the point goes
    -- on within the case.
    cases ends : endsRun instruction rest with
    | true =>
      obtain ⟨body, dispatches⟩ := @run_single (runs stream)
        (caseNumber stream (instruction :: rest) + 1) _ ordinary stays
      rw [headRun_ends ends, dispatches] at chosen
      rw [headRun_ends ends, body]
      exact .after (CasePoint.step?_execute went)
        (falls_through inside ends found chosen corresponds (Nat.zero_le 2)) owes
    | false =>
      obtain ⟨whole, nonempty, bare⟩ := headRun_continues ends
      have unlabelled : (label? rest).isSome = true → 0 = 0 := fun _ => rfl
      rw [← caseNumber_continues ends] at found chosen ⊢
      rw [whole] at chosen ⊢
      rcases @run_plain (runs stream) (caseNumber stream rest + 1) _ _ ordinary nonempty bare with
        ⟨rfl, target, alone⟩ | ⟨body, dispatches⟩
      · obtain ⟨rest, rfl⟩ := starts_with_headRun alone
        rw [alone] at chosen ⊢
        cases StackState.execute?_eq_some.mp went with
        | not value =>
          exact ⟨[], _, 2, .here, .negated ((List.suffix_cons _ _).trans inside) found chosen rfl
            corresponds (Nat.le_refl 2), by simp only [List.length_nil]; omega, by simp⟩
      · rw [body]
        refine ⟨[_], _, 0, .single (CasePoint.step?_execute went), ?_,
          by simp only [List.length_singleton]; omega, by simp⟩
        exact .level ((List.suffix_cons _ _).trans inside)
          (fun _ => ⟨current, found, chosen.trans dispatches⟩) corresponds (Nat.zero_le 1) unlabelled

/-! ## All instructions -/

/-- Whatever the stream does, its state machine does. -/
theorem Matches.proceeds (distinct : (Listing.labels stream).Nodup) {owed : Nat}
    {state next : StreamState} {point : CasePoint} (matched : Matches stream owed state point)
    (moves : stream.Moves ending state next) : Proceeds stream ending 2 owed point next := by
  cases moves with
  | label => exact (label_proceeds matched).mono (Nat.le_succ 1)
  | jump split => exact jump_proceeds distinct matched split
  | branch popped holds split => exact branch_proceeds distinct matched popped holds split
  | pass popped => exact (pass_proceeds matched popped).mono (Nat.le_succ 1)
  | invoke split => exact invoke_proceeds distinct matched split
  | leave popped => exact (leave_proceeds matched popped).mono (Nat.le_succ 1)
  | plain executed => exact plain_proceeds matched executed

/-- Behind the stream the machine is left. -/
theorem Matches.left {owed : Nat} {values : StackState Listing} {point : CasePoint}
    (matched : Matches stream owed ⟨[], values⟩ point) :
    ∃ others, point = CasePoint.enter (ofRuns stream) ⟨(ofRuns stream).length + 1, others⟩ ∧
      values.Corresponds (StandsFor stream) others := by
  cases matched with
  | level inside dispatch same few none =>
    have number : caseNumber stream [] = (ofRuns stream).length + 1 := by
      simp [caseNumber, length_ofRuns, runs]
    refine ⟨_, ?_, same⟩
    rw [CasePoint.enter, CasePoint.bodyOf_left, number]
    rfl

theorem Matches.case_eq {owed : Nat} {state : StreamState} {point : CasePoint}
    (matched : Matches stream owed state point) : point.case = caseNumber stream state.rest := by
  cases matched <;> rfl

theorem Matches.owed_le {owed : Nat} {state : StreamState} {point : CasePoint}
    (matched : Matches stream owed state point) : owed ≤ 2 := by
  cases matched with
  | level _ _ _ few => exact Nat.le_succ_of_le few
  | negated _ _ _ _ _ few => exact few

end Cases

end TapeCode
