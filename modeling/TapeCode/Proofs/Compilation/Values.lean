import TapeCode.Proofs.Compilation.Labels
import TapeCode.Proofs.Path
import TapeCode.Proofs.Ribbon.Instructions
import TapeCode.Stack.Program
import TapeCode.Typed.Evaluation

/-!
# Worlds as values of the stack machine

Between two instructions of compiled code the heap of the machine holds what the world holds, but in
the slot for return addresses, which is then zero. The stack is whatever the code around has left
there; an expression puts its value on top of it.
-/
namespace TapeCode

namespace World

/-- What the machine holds in a world, on top of a stack. -/
def values (world : World) (stack : List (StackValue ProgramPlace)) : StackState ProgramPlace :=
  ⟨stack, fun slot => .byte (if slot = 0 then 0 else world.heap slot), world.input, world.output⟩

variable {world : World} {stack : List (StackValue ProgramPlace)}

theorem values_start (input : List UInt8) : (start input).values [] = StackState.start input := by
  simp [values, start, StackState.start]

theorem values_store {slot : Nat} (ownSlot : slot ≠ 0) (value : UInt8) :
    (world.values stack).store slot (.byte value) = (world.store slot value).values stack := by
  simp only [values, store, StackState.store, StackState.mk.injEq, true_and, and_true]
  funext other
  split
  next same => rw [if_neg (same ▸ ownSlot)]
  next => rfl

/-- A world in which the first slot holds something else for a while. -/
theorem values_store_first {slot : Nat} (ownSlot : slot ≠ 0) (value : UInt8)
    (parked : StackValue ProgramPlace) :
    ((world.values stack).store 0 parked).store slot (.byte value) =
      ((world.store slot value).values stack).store 0 parked := by
  rw [← values_store ownSlot]
  simp only [StackState.store, StackState.mk.injEq, true_and, and_true]
  funext other
  split <;> split <;> simp_all

theorem values_cleared (parked : StackValue ProgramPlace) :
    ((world.values stack).store 0 parked).store 0 (.byte 0) = world.values stack := by
  simp only [values, StackState.store, StackState.mk.injEq, true_and, and_true]
  funext other
  split
  next => simp
  next => rfl

theorem store_comm {first second : Nat} (different : first ≠ second) (one other : UInt8) :
    (world.store first one).store second other = (world.store second other).store first one := by
  simp only [store, World.mk.injEq, and_true]
  funext slot
  split <;> split <;> simp_all

theorem execute?_writeLocal {ending : EndOfInput} {layout : List Int} {slot : Nat}
    (addressed : StackState.slot? layout = some slot) (ownSlot : slot ≠ 0) (value : UInt8) :
    (world.values (.byte value :: stack)).execute? ending (.writeLocal layout) =
      some ((world.store slot value).values stack) := by
  rw [← values_store ownSlot]
  simp [StackState.execute?, addressed, StackState.pop?, values]

/-- A slot that is read is written back, as reading empties it. -/
theorem executeAll?_read {ending : EndOfInput} {layout : List Int} {slot : Nat}
    (addressed : StackState.slot? layout = some slot) (ownSlot : slot ≠ 0) :
    (world.values stack).executeAll? ending [.readLocal layout, .dupInt, .writeLocal layout] =
      some (world.values (.byte (world.heap slot) :: stack)) := by
  simp only [StackState.executeAll?, StackState.execute?, addressed, StackState.pop?, values,
    StackState.push, StackState.store, if_neg ownSlot, Option.bind_eq_bind, Option.bind_some,
    Option.pure_def, Option.some.injEq, StackState.mk.injEq, true_and, and_true]
  funext other
  split
  next same => rw [same, if_neg ownSlot]
  next => rfl

end World

/-- What an expression leaves on the stack: nothing if it has no value. -/
def ValueType.pushed (type : ValueType) (value : UInt8) (stack : List (StackValue ProgramPlace)) :
    List (StackValue ProgramPlace) :=
  if type = .void then stack else .byte value :: stack

theorem ValueType.pushed_of_ne {type : ValueType} (has : type ≠ .void) (value : UInt8)
    (stack : List (StackValue ProgramPlace)) : type.pushed value stack = .byte value :: stack :=
  if_neg has

namespace Program

variable {program : Program} {ending : EndOfInput}

/-- One state of a program leads to another. -/
def Leads (program : Program) (ending : EndOfInput) (first last : ProgramState) : Prop :=
  ∃ places, Path (program.step? ending) (·.place) first places last

namespace Leads

theorem refl (state : ProgramState) : program.Leads ending state state := ⟨[], .here⟩

theorem trans {first middle last : ProgramState} (left : program.Leads ending first middle)
    (right : program.Leads ending middle last) : program.Leads ending first last := by
  obtain ⟨places, path⟩ := left
  obtain ⟨more, onwards⟩ := right
  exact ⟨places ++ more, path.append onwards⟩

theorem step {first middle last : ProgramState} (stepped : program.step? ending first = some middle)
    (right : program.Leads ending middle last) : program.Leads ending first last := by
  obtain ⟨places, onwards⟩ := right
  exact ⟨first.place :: places, .next stepped onwards⟩

/-- What leads elsewhere does so from the state behind its first step. -/
theorem behind_step {first middle last : ProgramState}
    (path : program.Leads ending first last) (stepped : program.step? ending first = some middle)
    (elsewhere : first ≠ last) : program.Leads ending middle last := by
  obtain ⟨places, path⟩ := path
  obtain ⟨more, -, onwards⟩ := path.behind_step stepped elsewhere
  exact ⟨more, onwards⟩

end Leads

theorem step?_body {instruction : Instruction} (body : instruction.isBody = true)
    (function : Option Int) (rest : Listing) (values : StackState ProgramPlace) :
    program.step? ending ⟨⟨function, instruction :: rest⟩, values⟩ =
      (values.execute? ending instruction).map fun after => ⟨⟨function, rest⟩, after⟩ := by
  cases instruction <;> first | cases body | skip
  all_goals cases executed : values.execute? ending _ <;> simp [step?, executed]

/-- Instructions that compute lead behind themselves. -/
theorem leads_body {listing : Listing} (body : listing.all (·.isBody) = true)
    {function : Option Int} {rest : Listing} {values after : StackState ProgramPlace}
    (executed : values.executeAll? ending listing = some after) :
    program.Leads ending ⟨⟨function, listing ++ rest⟩, values⟩ ⟨⟨function, rest⟩, after⟩ := by
  induction listing generalizing values with
  | nil =>
    obtain rfl := Option.some.inj executed
    exact .refl _
  | cons instruction others ih =>
    simp only [List.all_cons, Bool.and_eq_true] at body
    obtain ⟨middle, first, executed⟩ := StackState.executeAll?_cons.mp executed
    refine .step ?_ (ih body.2 executed)
    rw [List.cons_append, step?_body body.1, first]
    rfl

end Program

namespace Listing

/-- A listing in which no label stands twice finds the one behind which a part of it begins. -/
theorem behindLabel?_eq_some {listing before rest : Listing} {label : Int}
    (split : listing = before ++ .label label :: rest) (distinct : (labels listing).Nodup) :
    behindLabel? label listing = some rest := by
  subst split
  induction before with
  | nil => simp [behindLabel?]
  | cons instruction before ih =>
    have other : instruction ≠ .label label := by
      rintro rfl
      simp [Compile.labels_cons, Compile.labels_append, Instruction.label?] at distinct
    rw [List.cons_append, behindLabel?, if_neg other]
    refine ih ?_
    rw [List.cons_append, Compile.labels_cons] at distinct
    exact (List.nodup_append'.mp distinct).2.1

end Listing

end TapeCode
