import Mathlib.Data.List.Forall2
import TapeCode.Proofs.StackSteps

/-!
# Stacks that correspond

Two stack machines may keep the places that calls leave on the stack in different ways: as a place of
a program, as a number of a case, or as a byte like all others. Their states correspond when they have
the same bytes, input and output, and a value that stands for the place wherever the first has one.
Instructions that find what they need in the first state find it in the second, and what they leave
corresponds again. Nothing is said the other way round: where places are kept as bytes, an instruction
may find a byte that the first machine does not have.
-/
namespace TapeCode

variable {α β : Type}

inductive StackValue.Corresponds (stands : α → StackValue β → Prop) :
    StackValue α → StackValue β → Prop
  | byte (value : UInt8) : Corresponds stands (.byte value) (.byte value)
  | address {place : α} {value : StackValue β} (kept : stands place value) :
    Corresponds stands (.address place) value

namespace StackState

structure Corresponds (stands : α → StackValue β → Prop) (left : StackState α)
    (right : StackState β) : Prop where
  stack : List.Forall₂ (StackValue.Corresponds stands) left.stack right.stack
  heap : ∀ slot, (left.heap slot).Corresponds stands (right.heap slot)
  input : left.input = right.input
  output : left.output = right.output

namespace Corresponds

/-- Three machines one after the other. -/
theorem trans {γ : Type} {first : α → StackValue β → Prop} {second : β → StackValue γ → Prop}
    {both : α → StackValue γ → Prop} {left : StackState α} {middle : StackState β}
    {right : StackState γ} (one : Corresponds first left middle)
    (other : Corresponds second middle right)
    (together : ∀ place value final, first place value → value.Corresponds second final →
      both place final) :
    Corresponds both left right := by
  have value {a : StackValue α} {b : StackValue β} {c : StackValue γ}
      (ab : a.Corresponds first b) (bc : b.Corresponds second c) : a.Corresponds both c := by
    cases ab with
    | byte =>
      cases bc with
      | byte => exact .byte _
    | address kept => exact .address (together _ _ _ kept bc)
  refine ⟨?_, fun slot => value (one.heap slot) (other.heap slot), one.input.trans other.input,
    one.output.trans other.output⟩
  -- `Forall₂` composes only for a single relation, so the stacks are gone through here.
  have chain {ones : List (StackValue α)} {twos : List (StackValue β)} {threes : List (StackValue γ)}
      (below : List.Forall₂ (StackValue.Corresponds first) ones twos)
      (above : List.Forall₂ (StackValue.Corresponds second) twos threes) :
      List.Forall₂ (StackValue.Corresponds both) ones threes := by
    induction below generalizing threes with
    | nil =>
      cases above
      exact .nil
    | cons here _ ih =>
      cases above with
      | cons there onwards => exact .cons (value here there) (ih onwards)
  exact chain one.stack other.stack

variable {stands : α → StackValue β → Prop} {left after : StackState α} {right : StackState β}
  {ending : EndOfInput}

theorem start (input : List UInt8) : Corresponds stands (.start input) (.start input) :=
  ⟨.nil, fun _ => .byte 0, rfl, rfl⟩

theorem push (same : Corresponds stands left right) {value : StackValue α} {other : StackValue β}
    (values : value.Corresponds stands other) :
    Corresponds stands (left.push value) (right.push other) :=
  ⟨.cons values same.stack, same.heap, same.input, same.output⟩

theorem store (same : Corresponds stands left right) (slot : Nat) {value : StackValue α}
    {other : StackValue β} (values : value.Corresponds stands other) :
    Corresponds stands (left.store slot value) (right.store slot other) := by
  refine ⟨same.stack, fun index => ?_, same.input, same.output⟩
  simp only [StackState.store]
  split
  · exact values
  · exact same.heap index

theorem print (same : Corresponds stands left right) (bytes : List UInt8) :
    Corresponds stands (left.print bytes) (right.print bytes) :=
  ⟨same.stack, same.heap, same.input, congrArg (· ++ bytes) same.output⟩

theorem read (same : Corresponds stands left right) (ending : EndOfInput) :
    Corresponds stands (left.read ending) (right.read ending) := by
  have inputs := same.input
  cases available : right.input with
  | nil =>
    rw [available] at inputs
    simp only [StackState.read, inputs, available]
    exact same.push (.byte _)
  | cons byte rest =>
    rw [available] at inputs
    simp only [StackState.read, inputs, available]
    exact ⟨.cons (.byte byte) same.stack, same.heap, rfl, same.output⟩

theorem pop? (same : Corresponds stands left right) {value : StackValue α}
    (popped : left.pop? = some (value, after)) :
    ∃ other rest, right.pop? = some (other, rest) ∧ value.Corresponds stands other ∧
      Corresponds stands after rest := by
  obtain ⟨stack, heap, input, output⟩ := left
  obtain ⟨otherStack, otherHeap, otherInput, otherOutput⟩ := right
  cases same.stack with
  | nil => simp [StackState.pop?] at popped
  | cons values below =>
    simp only [StackState.pop?, Option.some.injEq, Prod.mk.injEq] at popped
    obtain ⟨rfl, rfl⟩ := popped
    exact ⟨_, _, rfl, values, below, same.heap, same.input, same.output⟩

theorem popByte? (same : Corresponds stands left right) {byte : UInt8}
    (popped : left.popByte? = some (byte, after)) :
    ∃ rest, right.popByte? = some (byte, rest) ∧ Corresponds stands after rest := by
  simp only [StackState.popByte?] at popped
  split at popped
  next taken =>
    simp only [Option.some.injEq, Prod.mk.injEq] at popped
    obtain ⟨rfl, rfl⟩ := popped
    obtain ⟨other, rest, found, values, corresponds⟩ := same.pop? taken
    cases values
    exact ⟨rest, by simp only [StackState.popByte?, found], corresponds⟩
  next => cases popped

theorem popAddress? (same : Corresponds stands left right) {place : α}
    (popped : left.popAddress? = some (place, after)) :
    ∃ other rest, right.pop? = some (other, rest) ∧ stands place other ∧
      Corresponds stands after rest := by
  simp only [StackState.popAddress?] at popped
  split at popped
  next taken =>
    simp only [Option.some.injEq, Prod.mk.injEq] at popped
    obtain ⟨rfl, rfl⟩ := popped
    obtain ⟨other, rest, found, values, corresponds⟩ := same.pop? taken
    cases values with
    | address kept => exact ⟨other, rest, found, kept, corresponds⟩
  next => cases popped

/-- A value lies on top of a state if one lies on top of a state that corresponds. -/
theorem of_push {value : StackValue α} (same : Corresponds stands (left.push value) right) :
    ∃ other rest, right = rest.push other ∧ value.Corresponds stands other ∧
      Corresponds stands left rest := by
  obtain ⟨other, rest, popped, values, below⟩ := same.pop? rfl
  exact ⟨other, rest, right.pop?_eq_some popped, values, below⟩

theorem of_pushByte {value : UInt8} (same : Corresponds stands (left.push (.byte value)) right) :
    ∃ rest, right = rest.push (.byte value) ∧ Corresponds stands left rest := by
  obtain ⟨other, rest, rfl, values, below⟩ := same.of_push
  cases values
  exact ⟨rest, rfl, below⟩

/-- An instruction that goes on in a state goes on in every corresponding one. -/
theorem execute? (same : Corresponds stands left right) {instruction : Instruction}
    (executed : left.execute? ending instruction = some after) :
    ∃ rest, right.execute? ending instruction = some rest ∧ Corresponds stands after rest := by
  -- What an instruction takes from the first stack lies on the second one, and what it leaves is the same.
  cases execute?_eq_some.mp executed with
  | nop | breakpoint => exact ⟨right, rfl, same⟩
  | readChar => exact ⟨_, rfl, same.read ending⟩
  | printChar value | printInt value =>
    obtain ⟨rest, rfl, -⟩ := same.of_pushByte
    exact ⟨_, rfl, same.print _⟩
  | pushInt value => exact ⟨_, rfl, same.push (.byte _)⟩
  | popInt value =>
    obtain ⟨_, rest, rfl, -, below⟩ := same.of_push
    exact ⟨rest, rfl, below⟩
  | dupInt value =>
    obtain ⟨_, _, rfl, values, -⟩ := same.of_push
    exact ⟨_, rfl, same.push values⟩
  | swapInt first second =>
    obtain ⟨_, _, rfl, seconds, below⟩ := same.of_push
    obtain ⟨_, _, rfl, firsts, bottom⟩ := below.of_push
    exact ⟨_, rfl, (bottom.push seconds).push firsts⟩
  | not value =>
    obtain ⟨_, rfl, below⟩ := same.of_pushByte
    exact ⟨_, rfl, below.push (.byte _)⟩
  | add first second | sub first second | mul first second | div first second | greater first second =>
    obtain ⟨_, rfl, below⟩ := same.of_pushByte
    obtain ⟨_, rfl, bottom⟩ := below.of_pushByte
    exact ⟨_, rfl, bottom.push (.byte _)⟩
  | readLocal addressed =>
    exact ⟨_, execute?_eq_some.mpr (.readLocal addressed),
      (same.store _ (.byte 0)).push (same.heap _)⟩
  | writeLocal addressed value =>
    obtain ⟨other, _, rfl, values, below⟩ := same.of_push
    exact ⟨_, execute?_eq_some.mpr (.writeLocal addressed other), below.store _ values⟩
  | clearLocal addressed =>
    exact ⟨_, execute?_eq_some.mpr (.clearLocal addressed), same.store _ (.byte 0)⟩

theorem executeAll? {listing : Listing} (same : Corresponds stands left right)
    (executed : left.executeAll? ending listing = some after) :
    ∃ rest, right.executeAll? ending listing = some rest ∧ Corresponds stands after rest := by
  induction listing generalizing left right with
  | nil =>
    obtain rfl : left = after := by simpa [StackState.executeAll?] using executed
    exact ⟨right, rfl, same⟩
  | cons instruction listing ih =>
    obtain ⟨middle, first, others⟩ := executeAll?_cons.mp executed
    obtain ⟨next, went, between⟩ := same.execute? first
    obtain ⟨rest, finished, corresponds⟩ := ih between others
    exact ⟨rest, executeAll?_cons.mpr ⟨next, went, finished⟩, corresponds⟩

end Corresponds

end StackState

end TapeCode
