import TapeCode.Proofs.Folding.Comments
import TapeCode.Proofs.Lowering.Contents
import TapeCode.Proofs.Writing.Texts

/-!
# Lowered programs can be loaded

A case opens a loop that only its dispatch closes, and the state machine is a loop around all cases. In
a lowered stream there is one dispatch for every case, at its end, and all of them name cases of the
machine. So the writer fails for no reason of structure, and what it writes has matched brackets: inside
a machine the loops around the text are one between two cases, and two within a case.
-/
namespace TapeCode

/-- Failures that come from state machines being put together wrongly. -/
def EmitError.isStructural : EmitError → Bool
  | .caseCountMismatch _ _ | .outsideMachine _ | .unterminated _ | .dispatch _ => true
  | _ => false

theorem Silent.depthBehind {text : List Char} (silent : Silent text) (depth : Nat) :
    Balanced.depthBehind depth text = some depth := by
  refine Balanced.depthBehind_of_all (List.all_eq_true.mpr fun c member => ?_) depth
  have comment := silent c member
  refine Bool.and_eq_true_iff.mpr ⟨decide_eq_true ?_, decide_eq_true ?_⟩ <;>
  · rintro rfl
    cases comment

namespace Writer

/-- Code that closes the loops around it, or a failure that says nothing about its structure. -/
def Closes (depth : Nat) : Except EmitError (List Char) → Prop
  | .error error => error.isStructural = false
  | .ok text => Balanced.depthBehind depth text = some 0

variable {style : CodeStyle} {opened between : List OpenMachine} {instruction : Instruction}
  {rest : Listing}

/-- An instruction that is written stands before code that closes the loops left by it. -/
theorem closes_cons (quiet : style.isQuiet = true) {depth inner : Nat} {text : List Char}
    (done : perform opened (bodyEffects style opened instruction) = ⟨text, between, none⟩)
    (code : Balanced.depthBehind depth text = some inner)
    (behind : Closes inner (streamCode style between rest)) :
    Closes depth (streamCode style opened (instruction :: rest)) := by
  rw [streamCode_cons style done]
  cases streamed : streamCode style between rest with
  | error error => rwa [streamed] at behind
  | ok more =>
    rw [streamed] at behind
    show Balanced.depthBehind depth
      (preamble style instruction ++ text ++ postamble style ++ more) = some 0
    have before := (preamble_silent quiet instruction).depthBehind depth
    have after := (postamble_silent style).depthBehind inner
    rw [List.append_assoc, List.append_assoc, Balanced.depthBehind_append before,
      Balanced.depthBehind_append code, Balanced.depthBehind_append after]
    exact behind

theorem closes_failing {depth : Nat} {text : List Char} {error : EmitError}
    (failed : perform opened (bodyEffects style opened instruction) = ⟨text, between, some error⟩)
    (other : error.isStructural = false) :
    Closes depth (streamCode style opened (instruction :: rest)) := by
  rw [streamCode_cons_failing style failed]
  exact other

/-! ## Instructions of a case -/

/-- An intermediate instruction leaves the open machines alone, and fails only for a reason of its
own. -/
theorem perform_intermediate (intermediate : instruction.isIntermediate = true)
    (opened : List OpenMachine) :
    (perform opened (bodyEffects style opened instruction)).opened = opened ∧
      ∀ error, (perform opened (bodyEffects style opened instruction)).failure = some error →
        error.isStructural = false := by
  have heap (code : Template.HeapWalk → List Char) (layout : List Int) :
      (perform opened (heapEffects code layout)).opened = opened ∧
        ∀ error, (perform opened (heapEffects code layout)).failure = some error →
          error.isStructural = false := by
    unfold heapEffects
    split
    next cause _ => exact ⟨rfl, fun error failed => Option.some.inj failed ▸ rfl⟩
    next => exact ⟨rfl, nofun⟩
  cases instruction with
  | readLocal layout | writeLocal layout | clearLocal layout => exact heap _ layout
  | jump | jumpIf | label | invoke | leave =>
    exact ⟨rfl, fun error failed => Option.some.inj failed ▸ rfl⟩
  | ifElseBegin | ifElseElse | ifElseEnd | fsmBegin | fsmEnd | fsmCase | fsmJump | fsmIf | fsmCall
  | fsmReturn => cases intermediate
  | _ => exact ⟨rfl, nofun⟩

theorem closes_intermediate (mark : isCommand style.breakpoint = false)
    (intermediate : instruction.isIntermediate = true) {depth : Nat}
    (behind : Closes depth (streamCode style opened rest)) :
    Closes depth (streamCode style opened (instruction :: rest)) := by
  obtain ⟨stays, other⟩ := @perform_intermediate style instruction intermediate opened
  generalize body : perform opened (bodyEffects style opened instruction) = emission at stays other
  obtain ⟨text, after, failure⟩ := emission
  obtain rfl : after = opened := stays
  cases failure with
  | some error => exact closes_failing body (other error rfl)
  | none =>
    refine closes_cons (CodeStyle.isQuiet_of_mark mark) body ?_ behind
    by_cases pauses : instruction = .breakpoint
    · subst pauses
      rw [bodyEffects, perform_write] at body
      obtain ⟨rfl, -, -⟩ := Emission.mk.inj body
      have silent : Silent [style.breakpoint] := fun c member => List.mem_singleton.mp member ▸ mark
      exact silent.depthBehind depth
    · have code := (bodyEffects_isCode pauses body).within depth
      obtain ⟨closes, opens⟩ : instruction.closes = 0 ∧ instruction.opens = 0 := by
        cases instruction <;> first | exact ⟨rfl, rfl⟩ | cases intermediate
      rw [closes, opens, Nat.zero_add] at code
      exact code.brackets

theorem closes_listing (mark : isCommand style.breakpoint = false) {listing : Listing}
    (intermediate : ∀ instruction ∈ listing, instruction.isIntermediate = true) {depth : Nat}
    (behind : Closes depth (streamCode style opened rest)) :
    Closes depth (streamCode style opened (listing ++ rest)) := by
  induction listing with
  | nil => exact behind
  | cons instruction listing ih =>
    obtain ⟨first, others⟩ := List.forall_mem_cons.mp intermediate
    exact closes_intermediate mark first (ih others)

/-! ## Cases -/

/-- A dispatch is written if it names cases of the machine. -/
theorem dispatch_written (style : CodeStyle) {count place : Nat} (few : count ≤ 127)
    (begun : 1 ≤ place) (placed : place ≤ count) {dispatch : CaseDispatch}
    (legal : MachineCase.staysWithin count dispatch = true) :
    ∃ text, perform [⟨place, count⟩] (bodyEffects style [⟨place, count⟩] dispatch.instruction) =
      ⟨text, [⟨place, count⟩], none⟩ ∧ IsCode 1 0 text := by
  -- Only the number of the cases matters.
  obtain ⟨cases, rfl⟩ : ∃ cases : List MachineCase, cases.length = count :=
    ⟨List.replicate count ⟨[], .back⟩, List.length_replicate⟩
  obtain ⟨text, done, -⟩ := dispatch_runs .zero style [] few begun placed legal
  have ordinary : dispatch.instruction ≠ .breakpoint := by cases dispatch <;> nofun
  have code := bodyEffects_isCode ordinary done
  exact ⟨_, done, by cases dispatch <;> exact code⟩

/-- A dispatch that names cases of a machine, or the place behind the last one, stays within it. -/
theorem staysWithin_of_targets {count : Nat} {dispatch : CaseDispatch}
    (targets : ∀ target ∈ dispatch.instruction.caseTargets, 1 ≤ target ∧ target ≤ count + 1) :
    MachineCase.staysWithin count dispatch = true := by
  have legal {target : Int} (member : target ∈ dispatch.instruction.caseTargets) :
      Dispatch.isTarget count target = true := by
    have within := targets target member
    simp [Dispatch.isTarget, within]
  cases dispatch with
  | jump target => exact legal List.mem_cons_self
  | branch nonzero zero =>
    exact Bool.and_eq_true_iff.mpr
      ⟨legal List.mem_cons_self, legal (List.mem_cons_of_mem _ List.mem_cons_self)⟩
  | call target => exact legal List.mem_cons_self
  | back => rfl

/-- The loops that the cases from `number` on, and the end of the machine behind them, close. -/
theorem closes_cases (mark : isCommand style.breakpoint = false) {all runs : List Listing}
    (few : all.length ≤ 127) (intermediate : ∀ run ∈ runs, ∀ instruction ∈ run,
      instruction.isIntermediate = true) {number : Nat} {code : Listing}
    (made : Cases.cases all (number + 1) runs = .ok code)
    (within : number + runs.length = all.length) :
    Closes 1 (streamCode style [⟨number, all.length⟩] (code ++ [.fsmEnd])) := by
  have quiet := CodeStyle.isQuiet_of_mark mark
  -- Each case is closed by its own dispatch, so what stays open all along is the loop of the machine.
  induction runs generalizing number code with
  | nil =>
    obtain rfl := Except.ok.inj made
    have ended : (number : Int) = all.length := by
      rw [List.length_nil] at within
      omega
    have done : perform [⟨number, all.length⟩]
        (bodyEffects style [⟨number, all.length⟩] .fsmEnd) = ⟨Template.machineEnd, [], none⟩ := by
      simp [bodyEffects, endEffects, ended, perform]
    exact closes_cons quiet done Template.machineEnd_isCode.brackets rfl
  | cons run runs ih =>
    obtain ⟨own, others⟩ := List.forall_mem_cons.mp intermediate
    rw [List.length_cons] at within
    simp only [Cases.cases, Except.bind_eq_ok] at made
    obtain ⟨one, madeOne, more, madeMore, made⟩ := made
    obtain rfl := Except.ok.inj made
    -- A case is its bracket, what it does, and the dispatch that closes the bracket.
    obtain ⟨dispatch, rfl, legal⟩ := Cases.caseCode_eq_ok madeOne
    have begins : perform [⟨number, all.length⟩]
        (bodyEffects style [⟨number, all.length⟩] .fsmCase) =
          ⟨Template.caseBegin, [⟨(number + 1 : Nat), all.length⟩], none⟩ := by
      simp [bodyEffects, caseEffects, perform]
    obtain ⟨text, dispatched, closing⟩ :=
      dispatch_written style few (Nat.succ_pos number) (by omega)
        (staysWithin_of_targets (legal (by omega)))
    have onwards := ih others madeMore (by omega)
    simp only [List.append_assoc, List.cons_append, List.nil_append]
    refine closes_cons quiet begins (Template.caseBegin_isCode.within 1).brackets ?_
    refine closes_listing mark (fun instruction member => own _ (Cases.mem_runBody member)) ?_
    exact closes_cons quiet dispatched (closing.within 1).brackets onwards

/-- A lowered stream of intermediate instructions, with the machine around it, if there is one. -/
theorem closes_ofStream (mark : isCommand style.breakpoint = false) {flat stream : Listing}
    (intermediate : ∀ instruction ∈ flat, instruction.isIntermediate = true)
    (made : Cases.ofStream flat = .ok stream) : Closes 0 (streamCode style [] stream) := by
  rcases Cases.ofStream_eq_ok made with ⟨rfl, -⟩ | ⟨inner, madeInner, rfl⟩
  · have ends : Closes 0 (streamCode style [] []) := rfl
    simpa using closes_listing mark intermediate ends
  · have runs : ∀ run ∈ Cases.runs flat, ∀ instruction ∈ run, instruction.isIntermediate = true := by
      intro run among instruction inside
      refine intermediate instruction ?_
      rw [← Cases.runs_flatten flat]
      exact List.mem_flatten_of_mem among inside
    by_cases few : (Cases.runs flat).length ≤ 127
    · have begins : perform [] (bodyEffects style [] (.fsmBegin (Cases.runs flat).length)) =
          ⟨Template.machineBegin, [⟨(0 : Nat), (Cases.runs flat).length⟩], none⟩ := by
        have allowed : ¬Dispatch.mostCases < (Cases.runs flat).length := by
          rw [Dispatch.mostCases]
          omega
        simp [bodyEffects, beginEffects, perform, allowed]
      exact closes_cons (CodeStyle.isQuiet_of_mark mark) begins
        Template.machineBegin_isCode.brackets (closes_cases mark few runs madeInner (Nat.zero_add _))
    · -- The first instruction is refused.
      have fails : perform [] (bodyEffects style [] (.fsmBegin (Cases.runs flat).length)) =
          ⟨[], [], some (.tooManyCases (Cases.runs flat).length)⟩ := by
        have tooMany : Dispatch.mostCases < (Cases.runs flat).length := by
          rw [Dispatch.mostCases]
          omega
        simp [bodyEffects, beginEffects, perform, tooMany]
      exact closes_failing fails rfl

/-- A program without instructions of state machines or conditions, once it is lowered, is written or
refused for no reason of structure; and what is written can be loaded, whatever the length of the tape
and the mark of breakpoints, and with comments as without. -/
theorem lower_loads {program : Program} {stream : Listing}
    (intermediate : ∀ body ∈ program.bodies, ∀ instruction ∈ body,
      instruction.isIntermediate = true) (lowered : program.lower = .ok stream)
    (mark : isCommand style.breakpoint = false) :
    (∀ error, generate style stream = .error error → error.isStructural = false) ∧
      ∀ code, generate style stream = .ok code → ∀ (settings : MachineSettings) (input : List UInt8),
        0 < settings.tapeLength →
        ∃ loaded machine, Machine.load settings code input = .ok (loaded, machine) := by
  obtain ⟨flat, flattened, made⟩ := Except.bind_eq_ok.mp lowered
  have closes := closes_ofStream mark (Flat.flatten_intermediate flattened intermediate) made
  rw [generate_eq]
  cases streamed : streamCode style [] stream with
  | error error =>
    rw [streamed] at closes
    exact ⟨fun other failed => Except.error.inj failed ▸ closes, nofun⟩
  | ok text =>
    rw [streamed] at closes
    refine ⟨nofun, fun code written settings input positive => ?_⟩
    obtain rfl : startText style ++ text = code := Except.ok.inj written
    refine Machine.load_ok_iff.mpr ⟨positive, ?_⟩
    have begins : IsCode 0 0 Template.start := by decide
    rw [Balanced.scan_eq_depthBehind, startText, List.append_assoc,
      Balanced.depthBehind_append begins.brackets,
      Balanced.depthBehind_append ((postamble_silent style).depthBehind 0)]
    exact decide_eq_true closes

/-- A loop around a call, with a string in the way to the value that is tested. -/
def loopingProgram : Program :=
  ⟨[.pushInt 2, .label 0, .invoke 1, .readLocal [5, 1], .jumpIf 0],
    .ofList [(1, [.pushInt 1, .sub, .writeLocal [5, 1], .leave])], 2⟩

/-- The code is loaded with the mark of its breakpoints, which stands in its comments too, on a tape of a
single cell. -/
theorem lower_loads_loopingProgram :
    (∀ body ∈ loopingProgram.bodies, ∀ instruction ∈ body, instruction.isIntermediate = true) ∧
      isCommand '(' = false ∧ ∃ stream code, loopingProgram.lower = .ok stream ∧
        stream.count .fsmCase = 6 ∧ generate ⟨true, true, '('⟩ stream = .ok code ∧
        ∃ loaded machine,
          Machine.load { tapeLength := 1, breakpoint := some '(' } code [] = .ok (loaded, machine) := by
  have intermediate : ∀ body ∈ loopingProgram.bodies, ∀ instruction ∈ body,
      instruction.isIntermediate = true := by decide
  obtain ⟨stream, lowered, six⟩ :
      ∃ stream, loopingProgram.lower = .ok stream ∧ stream.count .fsmCase = 6 := ⟨_, rfl, rfl⟩
  have written : ((loopingProgram.lower.toOption.bind fun stream =>
      (generate ⟨true, true, '('⟩ stream).toOption).isSome) = true := by decide +kernel
  rw [lowered] at written
  have mark : isCommand '(' = false := rfl
  have loads := @lower_loads ⟨true, true, '('⟩ _ _ intermediate lowered mark
  cases code : generate ⟨true, true, '('⟩ stream with
  | error error =>
    rw [Except.toOption, Option.bind_some, code] at written
    cases written
  | ok code => exact ⟨intermediate, mark, stream, _, lowered, six, code, loads.2 _ code _ [] Nat.one_pos⟩

end Writer

end TapeCode
