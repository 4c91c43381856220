import TapeCode.Proofs.Correspondence
import TapeCode.Proofs.Lowering.Layout

/-!
# Running the stream of a program

The stream of a program runs like the program: its places are its rests, functions are entered at
their labels, and a call leaves the rest behind it on the stack. A program and its stream do the same
instructions one by one, as long as the program does not get stuck.
-/
namespace TapeCode

/-- The instructions still to execute, and values in which the places are such rests. -/
structure StreamState where
  rest : Listing
  values : StackState Listing

/-- One instruction of a stream. -/
inductive Listing.Moves (stream : Listing) (ending : EndOfInput) : StreamState → StreamState → Prop
  | label {id : Int} {rest : Listing} {values : StackState Listing} :
    Moves stream ending ⟨.label id :: rest, values⟩ ⟨rest, values⟩
  | jump {target : Int} {rest before next : Listing} {values : StackState Listing}
    (found : stream = before ++ .label target :: next) :
    Moves stream ending ⟨.jump target :: rest, values⟩ ⟨next, values⟩
  | branch {target : Int} {rest before next : Listing} {values below : StackState Listing}
    {condition : UInt8} (popped : values.popByte? = some (condition, below))
    (holds : condition ≠ 0) (found : stream = before ++ .label target :: next) :
    Moves stream ending ⟨.jumpIf target :: rest, values⟩ ⟨next, below⟩
  | pass {target : Int} {rest : Listing} {values below : StackState Listing}
    (popped : values.popByte? = some (0, below)) :
    Moves stream ending ⟨.jumpIf target :: rest, values⟩ ⟨rest, below⟩
  | invoke {id : Int} {rest before next : Listing} {values : StackState Listing}
    (found : stream = before ++ .label id :: next) :
    Moves stream ending ⟨.invoke id :: rest, values⟩ ⟨next, values.push (.address rest)⟩
  | leave {rest next : Listing} {values below : StackState Listing}
    (popped : values.pop? = some (.address next, below)) :
    Moves stream ending ⟨.leave :: rest, values⟩ ⟨next, below⟩
  | plain {instruction : Instruction} {rest : Listing} {values after : StackState Listing}
    (executed : values.execute? ending instruction = some after) :
    Moves stream ending ⟨instruction :: rest, values⟩ ⟨rest, after⟩

namespace Program

variable {program : Program} {ending : EndOfInput}

/-- One instruction of a program. -/
inductive Moves (program : Program) (ending : EndOfInput) : ProgramState → ProgramState → Prop
  | label {function : Option Int} {id : Int} {rest : Listing} {values : StackState ProgramPlace} :
    Moves program ending ⟨⟨function, .label id :: rest⟩, values⟩ ⟨⟨function, rest⟩, values⟩
  | jump {function : Option Int} {target : Int} {rest body next : Listing}
    {values : StackState ProgramPlace} (around : program.body? function = some body)
    (found : Listing.behindLabel? target body = some next) :
    Moves program ending ⟨⟨function, .jump target :: rest⟩, values⟩ ⟨⟨function, next⟩, values⟩
  | branch {function : Option Int} {target : Int} {rest body next : Listing}
    {values below : StackState ProgramPlace} {condition : UInt8}
    (popped : values.popByte? = some (condition, below)) (holds : condition ≠ 0)
    (around : program.body? function = some body)
    (found : Listing.behindLabel? target body = some next) :
    Moves program ending ⟨⟨function, .jumpIf target :: rest⟩, values⟩ ⟨⟨function, next⟩, below⟩
  | pass {function : Option Int} {target : Int} {rest : Listing}
    {values below : StackState ProgramPlace} (popped : values.popByte? = some (0, below)) :
    Moves program ending ⟨⟨function, .jumpIf target :: rest⟩, values⟩ ⟨⟨function, rest⟩, below⟩
  | invoke {function : Option Int} {id : Int} {rest body : Listing}
    {values : StackState ProgramPlace} (found : program.functions.get? id = some body) :
    Moves program ending ⟨⟨function, .invoke id :: rest⟩, values⟩
      ⟨⟨some id, body⟩, values.push (.address ⟨function, rest⟩)⟩
  | leave {function : Option Int} {rest : Listing} {place : ProgramPlace}
    {values below : StackState ProgramPlace} (popped : values.popAddress? = some (place, below)) :
    Moves program ending ⟨⟨function, .leave :: rest⟩, values⟩ ⟨place, below⟩
  | plain {function : Option Int} {instruction : Instruction} {rest : Listing}
    {values after : StackState ProgramPlace}
    (executed : values.execute? ending instruction = some after) :
    Moves program ending ⟨⟨function, instruction :: rest⟩, values⟩ ⟨⟨function, rest⟩, after⟩

theorem jump?_eq_some {place : ProgramPlace} {label : Int} {values : StackState ProgramPlace}
    {state : ProgramState} (jumped : program.jump? place label values = some state) :
    ∃ body next, program.body? place.function = some body ∧
      Listing.behindLabel? label body = some next ∧ state = ⟨⟨place.function, next⟩, values⟩ := by
  simp only [jump?, Option.bind_eq_bind, Option.bind_eq_some_iff, Option.pure_def,
    Option.some.injEq] at jumped
  obtain ⟨body, around, next, found, rfl⟩ := jumped
  exact ⟨body, next, around, found, rfl⟩

/-- Every step of a program is one of these moves. -/
theorem moves_of_step? {state following : ProgramState}
    (stepped : program.step? ending state = some following) :
    program.Moves ending state following := by
  obtain ⟨⟨function, rest⟩, values⟩ := state
  cases rest with
  | nil => cases stepped
  | cons instruction rest =>
    cases instruction
    case label id =>
      obtain rfl := Option.some.inj stepped
      exact .label
    case jump target =>
      obtain ⟨body, next, around, found, rfl⟩ := jump?_eq_some stepped
      exact .jump around found
    case jumpIf target =>
      simp only [step?, Option.bind_eq_bind, Option.bind_eq_some_iff, Prod.exists] at stepped
      obtain ⟨condition, below, popped, chosen⟩ := stepped
      split at chosen
      next holds =>
        obtain ⟨body, next, around, found, rfl⟩ := jump?_eq_some chosen
        exact .branch popped holds around found
      next fails =>
        obtain rfl := Option.some.inj chosen
        obtain rfl : condition = 0 := not_not.mp fails
        exact .pass popped
    case invoke id =>
      simp only [step?, Option.bind_eq_bind, Option.bind_eq_some_iff, Option.pure_def,
        Option.some.injEq] at stepped
      obtain ⟨body, found, rfl⟩ := stepped
      exact .invoke found
    case leave =>
      simp only [step?, Option.bind_eq_bind, Option.bind_eq_some_iff, Option.pure_def,
        Option.some.injEq, Prod.exists] at stepped
      obtain ⟨place, below, popped, rfl⟩ := stepped
      exact .leave popped
    all_goals
      simp only [step?, Option.bind_eq_bind, Option.bind_eq_some_iff, Option.pure_def,
        Option.some.injEq] at stepped
      obtain ⟨after, executed, rfl⟩ := stepped
      exact .plain executed

end Program

/-- A label lies before what is behind it. -/
theorem Listing.split_of_behindLabel? {label : Int} {listing next : Listing}
    (found : behindLabel? label listing = some next) :
    ∃ before, listing = before ++ .label label :: next := by
  induction listing with
  | nil => cases found
  | cons instruction rest ih =>
    simp only [behindLabel?] at found
    split at found
    next here =>
      obtain rfl := Option.some.inj found
      exact ⟨[], by rw [here, List.nil_append]⟩
    next =>
      obtain ⟨before, split⟩ := ih found
      exact ⟨instruction :: before, by rw [split, List.cons_append]⟩

namespace Flat

variable {program : Program} {stream : Listing} {tail : Option Int → Listing}
  {reached : Option Int → Prop} {ending : EndOfInput}

/-- The rest of the stream from a place of the program on. -/
def restAt (tail : Option Int → Listing) (place : ProgramPlace) : Listing :=
  place.rest ++ tail place.function

/-- Whether a place lies in a body that the program can reach. -/
def Lies (program : Program) (reached : Option Int → Prop) (place : ProgramPlace) : Prop :=
  reached place.function ∧
    ∃ body, program.body? place.function = some body ∧ place.rest <:+ body

/-- The stream is where the program is, and has the same values. -/
structure Follows (program : Program) (tail : Option Int → Listing) (reached : Option Int → Prop)
    (state : ProgramState) (other : StreamState) : Prop where
  lies : Lies program reached state.place
  rest : other.rest = restAt tail state.place
  values : state.values.Corresponds
    (fun place value => Lies program reached place ∧ value = .address (restAt tail place))
    other.values

namespace Laid

/-- Every reachable body lies in the stream, before what follows it. -/
theorem body_lies (laid : Laid program stream tail reached) {function : Option Int}
    {body : Listing} (reaches : reached function) (has : program.body? function = some body) :
    ∃ before, stream = before ++ (body ++ tail function) := by
  cases function with
  | none =>
    obtain rfl : program.main = body := Option.some.inj has
    exact ⟨[], laid.start⟩
  | some id =>
    obtain ⟨before, split⟩ := laid.placed reaches has
    exact ⟨before ++ [.label id], by simpa using split⟩

/-- A label of a reachable body is in the stream, before the rest for what is behind it. -/
theorem label_lies (laid : Laid program stream tail reached) {function : Option Int}
    {body next : Listing} {label : Int} (reaches : reached function)
    (has : program.body? function = some body)
    (found : Listing.behindLabel? label body = some next) :
    Lies program reached ⟨function, next⟩ ∧
      ∃ before, stream = before ++ .label label :: restAt tail ⟨function, next⟩ := by
  obtain ⟨inside, rfl⟩ := Listing.split_of_behindLabel? found
  obtain ⟨before, split⟩ := laid.body_lies reaches has
  exact ⟨⟨reaches, _, has, inside ++ [.label label], by simp⟩,
    before ++ inside, by simp [split, restAt]⟩

theorem follows_start (laid : Laid program stream tail reached) (input : List UInt8) :
    Follows program tail reached (program.start input) ⟨stream, .start input⟩ :=
  ⟨⟨laid.main, program.main, rfl, List.suffix_refl _⟩, laid.start, .start input⟩

private theorem lies_behind {function : Option Int} {instruction : Instruction} {rest : Listing}
    (lies : Lies program reached ⟨function, instruction :: rest⟩) :
    Lies program reached ⟨function, rest⟩ := by
  obtain ⟨reaches, body, has, within⟩ := lies
  exact ⟨reaches, body, has, (List.suffix_cons instruction rest).trans within⟩

/-- Whatever the program does, its stream does. -/
theorem follows_move (laid : Laid program stream tail reached) {state following : ProgramState}
    {other : StreamState} (follows : Follows program tail reached state other)
    (moves : program.Moves ending state following) :
    ∃ next, stream.Moves ending other next ∧ Follows program tail reached following next := by
  obtain ⟨lies, rest, values⟩ := follows
  obtain ⟨otherRest, otherValues⟩ := other
  obtain rfl : otherRest = _ := rest
  cases moves with
  | label => exact ⟨_, .label, lies_behind lies, rfl, values⟩
  | jump around found =>
    obtain ⟨there, before, split⟩ := laid.label_lies lies.1 around found
    exact ⟨_, .jump split, there, rfl, values⟩
  | branch popped holds around found =>
    obtain ⟨there, before, split⟩ := laid.label_lies lies.1 around found
    obtain ⟨below, taken, corresponds⟩ := values.popByte? popped
    exact ⟨_, .branch taken holds split, there, rfl, corresponds⟩
  | pass popped =>
    obtain ⟨below, taken, corresponds⟩ := values.popByte? popped
    exact ⟨_, .pass taken, lies_behind lies, rfl, corresponds⟩
  -- The address pushed is where the program goes on, and the stream has the same code there.
  | @invoke function id behind body values found =>
    obtain ⟨reaches, around, has, within⟩ := lies
    have called := laid.calls reaches has id (within.subset List.mem_cons_self)
    obtain ⟨before, split⟩ := laid.placed called found
    exact ⟨_, .invoke split, ⟨called, body, found, List.suffix_refl _⟩, rfl,
      values.push (.address ⟨lies_behind ⟨reaches, around, has, within⟩, rfl⟩)⟩
  | leave popped =>
    obtain ⟨_, below, taken, ⟨there, rfl⟩, corresponds⟩ := values.popAddress? popped
    exact ⟨_, .leave taken, there, rfl, corresponds⟩
  | plain executed =>
    obtain ⟨after, went, corresponds⟩ := values.execute? executed
    exact ⟨_, .plain went, lies_behind lies, rfl, corresponds⟩

end Laid

end Flat

end TapeCode
