import TapeCode.Proofs.Lowering.Code
import TapeCode.Proofs.Lowering.Points

/-!
# Lowering preserves meaning

A well-formed program becomes a stream, and the stream's state machine does what the program does. At
every point of a run of the program, however long and however many calls deep, the machine is in the
case for the program's place and has the same values, where the number of a case stands for a place
to return to. Only between a negation and the conditional jump behind it, where the machine has taken
up the negation in its dispatch, the value on top is still the one before it.

The two go step for step: an instruction is at most two steps of the machine, and the machine is never
more than two instructions behind three for each of its steps, so a run without end is a run without
end of the machine. The machine is left when the program has ended, and not before.
-/
namespace TapeCode

namespace Program

/-- The values of a program are those of the machine, with numbers of cases for its places. -/
abbrev SameValues (number : ProgramPlace → Int) (values : StackState ProgramPlace)
    (others : StackState Int) : Prop :=
  values.Corresponds (fun place value => value = .address (number place)) others

/-- The values at a place, where a negation may be taken up by the dispatch of the case. -/
inductive Agrees (number : ProgramPlace → Int) : ProgramState → CasePoint → Prop
  | level {state : ProgramState} {point : CasePoint}
    (same : SameValues number state.values point.values) : Agrees number state point
  | negated {state : ProgramState} {point : CasePoint} {target : Int} {rest : Listing}
    {value : UInt8} {below : StackState Int} (before : state.place.rest = .jumpIf target :: rest)
    (popped : point.values.popByte? = some (value, below))
    (same : SameValues number state.values (below.push (.byte (Byte.ofBool (value = 0))))) :
    Agrees number state point

/-- Where a program and a state machine are after as much of their runs. -/
structure Matched (cases : List MachineCase) (ending : EndOfInput) (number : ProgramPlace → Int)
    (state : ProgramState) (point : CasePoint) : Prop where
  case : point.case = number state.place
  agrees : Agrees number state point
  finished : hasFinished state = true → ∃ marks values,
    Path (CasePoint.step? cases ending) (·.case) point marks
      (CasePoint.enter cases ⟨cases.length + 1, values⟩) ∧
    marks.length ≤ 2 ∧ SameValues number state.values values
  left : point.hasLeft cases = true → hasFinished state = true

private theorem sameValues {tail : Option Int → Listing} {reached : Option Int → Prop}
    {program : Program} {stream : Listing} {values : StackState ProgramPlace}
    {middle : StackState Listing} {others : StackState Int}
    (follows : values.Corresponds
      (fun place value => Flat.Lies program reached place ∧ value = .address (Flat.restAt tail place))
      middle)
    (stands : middle.Corresponds (Cases.StandsFor stream) others) :
    SameValues (fun place => Cases.caseNumber stream (Flat.restAt tail place)) values others := by
  refine follows.trans stands fun place value final first second => ?_
  obtain ⟨-, rfl⟩ := first
  cases second with
  | address kept => exact kept.2

variable {program : Program} {stream : Listing} {tail : Option Int → Listing}
  {reached : Option Int → Prop} {ending : EndOfInput}

/-- The machine is left at the end of the stream, where the main block ends too, perhaps behind a jump
over the functions. -/
private theorem finishes (contained : stream.SelfContained)
    (laid : Flat.Laid program stream tail reached) {state : ProgramState} {other : StreamState}
    {point : CasePoint} {owed : Nat} (follows : Flat.Follows program tail reached state other)
    (matched : Cases.Matches stream owed other point) (finished : hasFinished state = true) :
    ∃ marks values, Path (CasePoint.step? (Cases.ofRuns stream) ending) (·.case) point marks
        (CasePoint.enter (Cases.ofRuns stream) ⟨(Cases.ofRuns stream).length + 1, values⟩) ∧
      marks.length ≤ 2 ∧
      SameValues (fun place => Cases.caseNumber stream (Flat.restAt tail place)) state.values
        values := by
  obtain ⟨⟨function, rest⟩, programValues⟩ := state
  obtain ⟨streamRest, streamValues⟩ := other
  obtain ⟨rfl, rfl⟩ : function = none ∧ rest = [] := by
    simpa [hasFinished] using finished
  have behind : streamRest = tail none := follows.rest
  rcases laid.finish with nothing | ⟨label, between, jumps⟩
  · obtain rfl : streamRest = [] := behind.trans nothing
    obtain ⟨values, rfl, stands⟩ := matched.left
    exact ⟨[], values, .here, Nat.zero_le 2, sameValues follows.values stands⟩
  · obtain rfl : streamRest = _ := behind.trans jumps
    have split : stream = (program.main ++ .jump label :: between) ++ .label label :: [] := by
      rw [laid.start, jumps]
      simp
    obtain ⟨marks, following, left, path, arrived, -, short⟩ :=
      matched.proceeds contained.distinct (.jump split)
    obtain ⟨values, rfl, stands⟩ := arrived.left
    exact ⟨marks, values, path, short, sameValues follows.values stands⟩

private theorem jumpIf_before (laid : Flat.Laid program stream tail reached) (place : ProgramPlace)
    {target : Int} {rest : Listing} (here : Flat.restAt tail place = .jumpIf target :: rest) :
    ∃ before, place.rest = .jumpIf target :: before := by
  obtain ⟨function, placeRest⟩ := place
  cases placeRest with
  | cons first before =>
    obtain ⟨rfl, -⟩ := List.cons.inj here
    exact ⟨before, rfl⟩
  | nil =>
    -- Behind a body is the end, a jump over the functions, or the label of the next one.
    simp only [Flat.restAt, List.nil_append] at here
    cases function with
    | none => rcases laid.finish with nothing | ⟨label, between, jumps⟩ <;> simp_all
    | some id =>
      obtain ⟨label, behind, begins⟩ := laid.behind id
      simp_all

private theorem finished_of_nothing (laid : Flat.Laid program stream tail reached)
    {state : ProgramState} (nothing : Flat.restAt tail state.place = []) :
    hasFinished state = true := by
  obtain ⟨⟨function, rest⟩, values⟩ := state
  obtain ⟨rfl, ended⟩ := List.append_eq_nil_iff.mp nothing
  cases function with
  | none => rfl
  | some id =>
    obtain ⟨label, behind, begins⟩ := laid.behind id
    simp_all

private theorem matched_of (contained : stream.SelfContained)
    (laid : Flat.Laid program stream tail reached) {state : ProgramState} {other : StreamState}
    {point : CasePoint} {owed : Nat} (follows : Flat.Follows program tail reached state other)
    (matched : Cases.Matches stream owed other point) :
    Matched (Cases.ofRuns stream) ending
      (fun place => Cases.caseNumber stream (Flat.restAt tail place)) state point := by
  have number : point.case = Cases.caseNumber stream (Flat.restAt tail state.place) := by
    rw [matched.case_eq, follows.rest]
  refine ⟨number, ?_, finishes contained laid follows matched, fun left => ?_⟩
  · cases matched with
    | level inside dispatch same few none => exact .level (sameValues follows.values same)
    | negated inside found dispatch popped same few =>
      obtain ⟨before, here⟩ := jumpIf_before laid state.place follows.rest.symm
      exact .negated here popped
        (sameValues follows.values same)
  · have count : (Cases.runs (Flat.restAt tail state.place)).length = 0 := by
      have last : point.case = (Cases.ofRuns stream).length + 1 := by
        simpa [CasePoint.hasLeft] using left
      rw [number, Cases.caseNumber, Cases.length_ofRuns] at last
      omega
    have nothing : Flat.restAt tail state.place = [] := by
      rw [← Cases.runs_flatten (Flat.restAt tail state.place), List.length_eq_zero_iff.mp count]
      rfl
    exact finished_of_nothing laid nothing

/-! ## Runs -/

/-- A run of a program is a run of the state machine of its stream, as long as both are looked at from
their starts. -/
theorem run_matched (contained : stream.SelfContained)
    (laid : Flat.Laid program stream tail reached) {first state : ProgramState}
    {places : List ProgramPlace} (path : Path (program.step? ending) (·.place) first places state)
    {other : StreamState} {point : CasePoint} {owed : Nat}
    (follows : Flat.Follows program tail reached first other)
    (matched : Cases.Matches stream owed other point) :
    ∃ visited final, Path (CasePoint.step? (Cases.ofRuns stream) ending) (·.case) point visited
        final ∧
      Matched (Cases.ofRuns stream) ending
        (fun place => Cases.caseNumber stream (Flat.restAt tail place)) state final ∧
      places.length + owed ≤ 3 * visited.length + 2 ∧ visited.length ≤ 2 * places.length := by
  induction path generalizing other point owed with
  | here =>
    refine ⟨[], point, .here, matched_of contained laid follows matched, ?_, Nat.zero_le _⟩
    simpa using matched.owed_le
  | next stepped onwards ih =>
    obtain ⟨middle, moved, followsOn⟩ := laid.follows_move follows (moves_of_step? stepped)
    obtain ⟨marks, following, left, path, matchedOn, paid, short⟩ :=
      matched.proceeds contained.distinct moved
    obtain ⟨visited, final, rest, matches', behind, ahead⟩ := ih followsOn matchedOn
    refine ⟨marks ++ visited, final, path.append rest, matches', ?_, ?_⟩
    · simp only [List.length_cons, List.length_append]
      omega
    · simp only [List.length_cons, List.length_append]
      omega

/-- Lowering preserves meaning: a well-formed program has a stream, and every run of the program is
matched by a run of the cases that the stream means, from the first one on. -/
theorem lower_runs {program : Program} (wellFormed : program.WellFormed) :
    ∃ stream cases number, program.lower = .ok stream ∧ stream.Means cases ∧
      (∀ source ∈ cases, (∀ instruction ∈ source.body, instruction.isOrdinary = true) ∧
        MachineCase.staysWithin cases.length source.dispatch = true) ∧
      ∀ (ending : EndOfInput) (input : List UInt8) (places : List ProgramPlace)
        (state : ProgramState),
        Path (program.step? ending) (·.place) (program.start input) places state →
        ∃ visited point,
          Path (CasePoint.step? cases ending) (·.case) (CasePoint.enter cases ⟨1, .start input⟩)
            visited point ∧
          Matched cases ending number state point ∧
          places.length ≤ 3 * visited.length + 2 ∧ visited.length ≤ 2 * places.length := by
  obtain ⟨stream, tail, reached, flat, contained, laid⟩ := Flat.flatten_laid wellFormed
  obtain ⟨code, written, means⟩ := Cases.ofStream_means contained
  refine ⟨code, Cases.ofRuns stream,
    fun place => Cases.caseNumber stream (Flat.restAt tail place), ?_, means, ?_, ?_⟩
  · simp [lower, flat, written, bind, Except.bind]
  · intro source member
    obtain ⟨body, dispatch⟩ := Cases.ofRuns_proper contained member
    exact ⟨fun instruction has => (body instruction has).2, dispatch⟩
  · intro ending input places state path
    obtain ⟨visited, point, run, matched, behind, ahead⟩ :=
      run_matched contained laid path (laid.follows_start input) (Cases.matches_start stream input)
    exact ⟨visited, point, run, matched, by simpa using behind, ahead⟩

/-- The main block calls a function that jumps over a breakpoint, as it finds zero to be zero, and
prints a byte behind the call. -/
def negatingProgram : Program :=
  ⟨[.invoke 5, .pushInt 7, .printChar],
    .ofList [(5, [.pushInt 0, .not, .jumpIf 6, .breakpoint, .label 6, .leave])], 7⟩

theorem lower_runs_negatingProgram : negatingProgram.WellFormed ∧
    ∃ stream cases number, negatingProgram.lower = .ok stream ∧ stream.Means cases ∧
      ∃ visited point values, values.output = [7] ∧
        Path (CasePoint.step? cases .zero) (·.case) (CasePoint.enter cases ⟨1, .start []⟩) visited
          point ∧
        Matched cases .zero number ⟨⟨none, []⟩, values⟩ point := by
  have wellFormed : negatingProgram.WellFormed := by decide
  refine ⟨wellFormed, ?_⟩
  obtain ⟨stream, cases, number, lowered, means, -, runs⟩ := lower_runs wellFormed
  obtain ⟨visited, point, path, matched, -, -⟩ := runs .zero [] _
    ⟨⟨none, []⟩, ⟨[.byte 7], fun _ => .byte 0, [], [7]⟩⟩
    (.next rfl (.next rfl (.next rfl (.next rfl (.next rfl (.next rfl (.next rfl .here)))))))
  exact ⟨stream, cases, number, lowered, means, visited, point, _, rfl, path, matched⟩

end Program

end TapeCode
