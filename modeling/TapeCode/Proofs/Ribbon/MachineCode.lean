import TapeCode.Proofs.Ribbon.StateMachine

/-!
# The text of a state machine

What the writer makes of a state machine has the shape that runs of the cases need: a loop over one
block for each case.
-/
namespace TapeCode

variable {ending : EndOfInput} {style : CodeStyle}

namespace Writer

/-- The text of instructions in a row. -/
def written (style : CodeStyle) (opened : List OpenMachine) : Listing → List Char
  | [] => []
  | instruction :: rest =>
    let emission := perform opened (effects style opened instruction)
    emission.text ++ written style emission.opened rest

theorem Emits.written_eq {opened after : List OpenMachine} {stream : Listing} {text : List Char}
    (emits : Emits style opened stream text after) : written style opened stream = text := by
  induction emits with
  | nil => rfl
  | cons first _ ih => rw [written, first, ih]

/-- The place at which the block of a case is entered: behind the opening bracket of the block. -/
def caseEntry (style : CodeStyle) (cases : List MachineCase) (index : Nat) : Nat :=
  (written style [] (.fsmBegin cases.length :: (cases.take index).flatMap (·.listing))).length +
    (preamble style .fsmCase).length + Template.caseTest.length + 1

def caseEntries (style : CodeStyle) (cases : List MachineCase) : List Nat :=
  (List.range cases.length).map (caseEntry style cases)

end Writer

/-- Bodies of stack, input, output and locals instructions, and dispatches to cases of the machine. -/
def MachineCase.isProper (count : Nat) (source : MachineCase) : Bool :=
  source.body.all (·.isBody) && MachineCase.staysWithin count source.dispatch

/-! ## Moves over empty numbers -/

private theorem down_runs (values : StackState Empty) :
    Runs ending "<<".toList (values.count 0).ribbon values.ribbon := by
  have down : Runs ending "<<".toList (values.count 0).ribbon
      ⟨(Ribbon.column values.heapCells values.stackCells).tail,
        (Ribbon.column values.heapCells values.stackCells).head, .cons 0 (.cons 0 zeros),
        values.input, values.output⟩ :=
    .straight "<<" rfl rfl
  exact .recast rfl down (by simp [StackState.ribbon, Ribbon.top])

private theorem downTwice_runs (values : StackState Empty) :
    Runs ending "<<<<".toList ((values.count 0).count 0).ribbon values.ribbon := by
  have down : Runs ending ("<<" ++ "<<").toList ((values.count 0).count 0).ribbon values.ribbon :=
    (down_runs (values.count 0)).andThen (down_runs values)
  exact down

private theorem up_runs (values : StackState Empty) (counter : UInt8) :
    Runs ending ">>".toList (values.count counter).ribbon
      ((values.count counter).count 0).ribbon :=
  .straight ">>" rfl rfl

namespace CaseText

open Writer (Emits preamble postamble)

/-- A case as the writer writes it. -/
theorem written_fits (ending : EndOfInput) (quiet : style.isQuiet = true) {cases : List MachineCase}
    (few : cases.length ≤ 127) {index : Nat} {source : MachineCase}
    (found : cases[index]? = some source) (proper : source.isProper cases.length = true) :
    ∃ text : CaseText,
      Emits style [⟨index, cases.length⟩] source.listing text.code
        [⟨(index + 1 : Nat), cases.length⟩] ∧
      text.Fits ending cases index ∧
      text.head.length = (preamble style .fsmCase).length + Template.caseTest.length := by
  obtain ⟨inside, named⟩ := List.getElem?_eq_some_iff.mp found
  simp only [MachineCase.isProper, Bool.and_eq_true] at proper
  obtain ⟨body, bodyEmits, bodyMatched, bodyRuns⟩ :=
    Writer.listing_runs ending quiet [⟨(index + 1 : Nat), cases.length⟩] proper.1
  have begun : 1 ≤ index + 1 := by omega
  obtain ⟨dispatch, performed, dispatchMatched, dispatchRuns⟩ :=
    Writer.dispatch_runs ending style [] few begun inside proper.2
  have first : Emits style [⟨index, cases.length⟩] [.fsmCase]
      (preamble style .fsmCase ++ Template.caseBegin ++ postamble style)
      [⟨(index + 1 : Nat), cases.length⟩] :=
    .single (by simp [Writer.bodyEffects, Writer.caseEffects, Writer.perform])
  have emits := first.append (bodyEmits.append (.single performed))
  have headSilent := Writer.preamble_silent quiet .fsmCase
  have dispatchSilent := Writer.preamble_silent quiet source.dispatch.instruction
  have endSilent := Writer.postamble_silent style
  -- The head ends with the test of the counter, so the bracket behind it and the `-` that follows are
  -- neither of the head nor of the rest.
  refine ⟨⟨preamble style .fsmCase ++ Template.caseTest,
    "<<<<".toList ++ (postamble style ++ (body ++ (preamble style source.dispatch.instruction ++
      (dispatch ++ ">>".toList)))), "<<".toList ++ postamble style⟩, ?_, ⟨?_, ?_, ?_, ?_⟩,
    List.length_append⟩
  · rw [Template.caseBegin_text, Template.caseEnd_text] at emits
    simpa only [MachineCase.listing, code, List.append_assoc, List.cons_append, List.nil_append]
      using emits
  · intro values counter
    exact (Runs.silent headSilent _).append (Template.caseTest_runs _ _ _ counter)
  -- The rest is the listing of the case and its dispatch, between the two moves that the bracket needs.
  · intro values after next stepped low high
    obtain ⟨current, between, here, executed, selected⟩ := MachineCase.step?_eq_some.mp stepped
    obtain rfl : source = current := by
      have listed : (1 : Int) ≤ index + 1 := by omega
      simpa [MachineCase.find?, listed, found] using here
    obtain ⟨counter, runs, leads⟩ := dispatchRuns between after next selected low high
    exact ⟨counter, (downTwice_runs values).append ((Runs.silent endSilent _).append
      ((bodyRuns values between executed).append ((Runs.silent dispatchSilent _).append
        (runs.append (up_runs after counter))))), leads⟩
  · intro values
    exact (down_runs values).append (Runs.silent endSilent _)
  · exact (Balanced.of_scan rfl).append (endSilent.balanced.append (bodyMatched.append
      (dispatchSilent.balanced.append (dispatchMatched.append (.of_scan rfl)))))

end CaseText

namespace MachineText

open Writer (Emits preamble postamble)

/-- The blocks of the cases behind those already written. -/
private theorem blocks_fit (ending : EndOfInput) (quiet : style.isQuiet = true)
    {cases : List MachineCase} (few : cases.length ≤ 127)
    (proper : ∀ source ∈ cases, source.isProper cases.length = true) (rest : List MachineCase)
    (index : Nat) (split : cases.drop index = rest) :
    ∃ blocks : List CaseText, blocks.length = rest.length ∧
      (∀ count ≤ rest.length, Emits style [⟨index, cases.length⟩]
        ((rest.take count).flatMap (·.listing)) (blocksCode (blocks.take count))
        [⟨(index + count : Nat), cases.length⟩]) ∧
      ∀ (other : Nat) (inside : other < blocks.length),
        (blocks[other]).Fits ending cases (index + other) ∧
        (blocks[other]).head.length =
          (preamble style .fsmCase).length + Template.caseTest.length := by
  -- One case after the other is written; what is written up to any of them is kept for the entries.
  induction rest generalizing index with
  | nil =>
    refine ⟨[], rfl, fun count none => ?_, fun other inside => by simp at inside⟩
    obtain rfl : count = 0 := by simpa using none
    exact .nil
  | cons source rest ih =>
    have found : cases[index]? = some source := by
      rw [← Nat.add_zero index, ← List.getElem?_drop, split]
      rfl
    have member := List.mem_of_getElem? found
    obtain ⟨first, firstEmits, firstFits, length⟩ :=
      CaseText.written_fits ending quiet few found (proper source member)
    obtain ⟨blocks, same, emits, fit⟩ := ih (index + 1) (by rw [← List.tail_drop, split]; rfl)
    refine ⟨first :: blocks, by simp [same], fun count within => ?_, fun other inside => ?_⟩
    · cases count with
      | zero => exact .nil
      | succ count =>
        have others := emits count (by simpa using within)
        rw [show index + 1 + count = index + (count + 1) by omega] at others
        simpa [blocksCode] using firstEmits.append others
    · cases other with
      | zero => exact ⟨firstFits, length⟩
      | succ other =>
        have later := fit other (by simpa using inside)
        rw [show index + 1 + other = index + (other + 1) by omega] at later
        exact later

/-- A state machine as the writer writes it. -/
theorem written_fits (ending : EndOfInput) (quiet : style.isQuiet = true) {cases : List MachineCase}
    (few : cases.length ≤ 127) (proper : ∀ source ∈ cases, source.isProper cases.length = true) :
    ∃ text : MachineText, Emits style [] (machineListing cases) text.code [] ∧
      text.Fits ending cases ∧ text.entries = Writer.caseEntries style cases := by
  obtain ⟨blocks, same, emits, fit⟩ := blocks_fit ending quiet few proper cases 0 rfl
  have fewCases : ¬Dispatch.mostCases < cases.length := by
    rw [Dispatch.mostCases]
    omega
  have opening : Emits style [] [.fsmBegin cases.length]
      (preamble style (.fsmBegin cases.length) ++ Template.machineBegin ++ postamble style)
      [⟨0, cases.length⟩] :=
    .single (by simp [Writer.bodyEffects, Writer.beginEffects, Writer.perform, fewCases])
  have closing : Emits style [⟨cases.length, cases.length⟩] [.fsmEnd]
      (preamble style .fsmEnd ++ Template.machineEnd ++ postamble style) [] :=
    .single (by simp [Writer.bodyEffects, Writer.endEffects, Writer.perform])
  have beginText : Template.machineBegin = Template.pushInt 1 ++ ['['] := rfl
  have endText : Template.machineEnd = '-' :: ']' :: "<<".toList := rfl
  let text : MachineText :=
    ⟨preamble style (.fsmBegin cases.length) ++ Template.pushInt 1, postamble style, blocks,
      preamble style .fsmEnd ++ ['-'], "<<".toList ++ postamble style⟩
  have beginSilent := Writer.preamble_silent quiet (.fsmBegin cases.length)
  have finishSilent := Writer.preamble_silent quiet .fsmEnd
  have endSilent := Writer.postamble_silent style
  refine ⟨text, ?_, ⟨same, ?_, ?_, ?_, ?_, ?_⟩, ?_⟩
  · have whole := opening.append ((emits cases.length (Nat.le_refl _)).append (by simpa using closing))
    rw [beginText, endText, List.take_length, List.take_of_length_le (by omega)] at whole
    simpa only [machineListing, code, text, List.append_assoc, List.cons_append, List.nil_append]
      using whole
  · intro values
    exact (Runs.silent beginSilent _).append (Template.pushInt_runs _ _ _ 1)
  · intro ribbon
    exact Runs.silent endSilent ribbon
  · intro index inside
    simpa using (fit index inside).1
  · intro values counter
    exact (Runs.silent finishSilent _).append (.act rfl .done)
  · intro values
    exact (down_runs values).append (Runs.silent endSilent _)
  · rw [entries, Writer.caseEntries, same]
    refine List.map_congr_left fun index member => ?_
    rw [List.mem_range] at member
    have written := (opening.append (emits index (by omega))).written_eq
    rw [beginText] at written
    have inside : index < text.blocks.length := by
      change index < blocks.length
      omega
    have before : text.upTo index = Writer.written style []
        ([.fsmBegin cases.length] ++ (cases.take index).flatMap (·.listing)) := by
      rw [written]
      simp only [upTo, text, List.append_assoc, List.cons_append, List.nil_append]
    rw [entry_eq inside, (fit index inside).2, before, Writer.caseEntry]
    simp only [List.cons_append, List.nil_append, Nat.add_assoc]

end MachineText

end TapeCode
