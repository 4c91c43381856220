import TapeCode.Proofs.Compilation.Heights
import TapeCode.Proofs.StackEffects

/-!
# Shapes of the stack

What is known of the stack at a place of compiled code, whatever brings the machine there: which cells
above the stack of the caller hold bytes and which one the return address, and whether the return address
is parked in its slot instead. Instructions that find the cells they need can be executed and leave the
cells that their effect says.
-/
namespace TapeCode

/-- What stands in a cell of the stack. -/
inductive Cell
  | byte
  | address
  deriving DecidableEq, Repr

/-- The cells above the stack of the caller, the top first, and whether the return address is parked. -/
structure Shape where
  cells : List Cell
  parked : Bool
  deriving DecidableEq, Repr

/-- A stack with these cells on a base. The only address is the place that the function returns to. -/
inductive Cell.Stacked (place : ProgramPlace) (base : List (StackValue ProgramPlace)) :
    List Cell → List (StackValue ProgramPlace) → Prop
  | base : Stacked place base [] base
  | byte (value : UInt8) {cells : List Cell} {stack : List (StackValue ProgramPlace)}
      (rest : Stacked place base cells stack) :
      Stacked place base (.byte :: cells) (.byte value :: stack)
  | address {cells : List Cell} {stack : List (StackValue ProgramPlace)}
      (rest : Stacked place base cells stack) :
      Stacked place base (.address :: cells) (.address place :: stack)

/-- The function that an `invoke` with the number calls. -/
def ScopeTree.invoked? (tree : ScopeTree) (id : Int) : Option Function :=
  tree.functions.find? fun function => function.label?.map Int.ofNat = some id

/-- What a call of the function takes from the stack and leaves there. -/
def Function.effect (function : Function) : StackEffect :=
  ⟨function.parameters.length, function.result.height⟩

/-- Instructions that compute with bytes and leave the slot for return addresses alone. -/
def Instruction.isOnBytes (instruction : Instruction) : Bool :=
  instruction.isBody && match instruction with
    | .swapInt => false
    | .readLocal layout | .writeLocal layout | .clearLocal layout =>
      StackState.slot? layout ≠ some 0
    | _ => true

namespace Shape

def bytes (count : Nat) : List Cell := List.replicate count .byte

theorem bytes_zero : bytes 0 = [] := rfl

/-- Between two statements there is only the return address, and in the main block nothing. -/
def level (result : Option ValueType) : Shape := ⟨if result.isSome then [.address] else [], false⟩

/-- At a `return` the result lies below the return address. -/
def leaving (type : ValueType) : Shape := ⟨.address :: bytes type.height, false⟩

def replace? (shape : Shape) (effect : StackEffect) : Option Shape :=
  if bytes effect.pops <+: shape.cells then
    some { shape with cells := bytes effect.pushes ++ shape.cells.drop effect.pops }
  else none

/-- The shape behind an instruction that computes. -/
def computed? (shape : Shape) (instruction : Instruction) : Option Shape :=
  if instruction.isOnBytes then instruction.stackEffect?.bind shape.replace?
  else match instruction, shape with
    | .swapInt, ⟨first :: second :: rest, parked⟩ => some ⟨second :: first :: rest, parked⟩
    | .writeLocal layout, ⟨.address :: rest, false⟩ =>
      if StackState.slot? layout = some 0 then some ⟨rest, true⟩ else none
    | .readLocal layout, ⟨cells, true⟩ =>
      if StackState.slot? layout = some 0 then some ⟨.address :: cells, false⟩ else none
    | _, _ => none

/-- The shape behind an instruction, in a function with this result or in the main block. Labels and
jumps stand between statements, and so does what follows a `return`. -/
def after? (tree : ScopeTree) (result : Option ValueType) (shape : Shape) :
    Instruction → Option Shape
  | .label _ | .jump _ => if shape = level result then some shape else none
  | .jumpIf _ => if shape.cells = .byte :: (level result).cells ∧ shape.parked = false then
      some (level result) else none
  | .leave => result.bind fun type => if shape = leaving type then some (level result) else none
  | .invoke id =>
    if shape.parked then none
    else (tree.invoked? id).bind fun called => shape.replace? called.effect
  | instruction => if instruction.isBody then shape.computed? instruction else none

/-- The shape behind a listing. -/
def scan (tree : ScopeTree) (result : Option ValueType) (shape : Shape) : Listing → Option Shape
  | [] => some shape
  | instruction :: rest => (shape.after? tree result instruction).bind fun next =>
      next.scan tree result rest

variable {tree : ScopeTree} {result : Option ValueType} {shape next : Shape}

theorem scan_append (first second : Listing) : shape.scan tree result (first ++ second) =
    (shape.scan tree result first).bind fun middle => middle.scan tree result second := by
  induction first generalizing shape with
  | nil => rfl
  | cons instruction rest ih =>
    simp only [List.cons_append, scan, Option.bind_assoc]
    exact congrArg _ (funext fun next => ih)

theorem after?_body {instruction : Instruction} (body : instruction.isBody = true) :
    shape.after? tree result instruction = shape.computed? instruction := by
  cases instruction <;> first | (cases body; done) | simp only [after?, body, if_true]

theorem computed?_onBytes {instruction : Instruction} (onBytes : instruction.isOnBytes = true) :
    shape.computed? instruction = instruction.stackEffect?.bind shape.replace? :=
  if_pos onBytes

theorem replace?_eq_some {effect : StackEffect} : shape.replace? effect = some next ↔
    ∃ cells, shape.cells = bytes effect.pops ++ cells ∧
      next = ⟨bytes effect.pushes ++ cells, shape.parked⟩ := by
  unfold replace?
  constructor
  · intro replaced
    split at replaced
    next found =>
      obtain ⟨cells, same⟩ := found
      refine ⟨cells, same.symm, ?_⟩
      rw [← Option.some.inj replaced, ← same]
      simp [bytes]
    next => cases replaced
  · rintro ⟨cells, same, rfl⟩
    rw [if_pos ⟨cells, same.symm⟩, same]
    simp [bytes]

theorem replace?_injective {effect : StackEffect} {other : Shape}
    (one : shape.replace? effect = some next) (two : other.replace? effect = some next) :
    shape = other := by
  obtain ⟨cells, same, rfl⟩ := replace?_eq_some.mp one
  obtain ⟨others, sameOther, equal⟩ := replace?_eq_some.mp two
  obtain ⟨below, parked⟩ := Shape.mk.inj equal
  obtain ⟨shapeCells, shapeParked⟩ := shape
  obtain ⟨otherCells, otherParked⟩ := other
  obtain rfl : shapeCells = _ := same
  obtain rfl : otherCells = _ := sameOther
  rw [List.append_cancel_left below]
  exact congrArg _ parked

theorem computed?_injective {instruction : Instruction} {other : Shape}
    (one : shape.computed? instruction = some next)
    (two : other.computed? instruction = some next) : shape = other := by
  unfold computed? at one two
  split at one
  next onBytes =>
    rw [if_pos onBytes] at two
    obtain ⟨effect, has, replaced⟩ := Option.bind_eq_some_iff.mp one
    obtain ⟨same, hasToo, replacedToo⟩ := Option.bind_eq_some_iff.mp two
    obtain rfl := Option.some.inj (has.symm.trans hasToo)
    exact replace?_injective replaced replacedToo
  next notOnBytes =>
    rw [if_neg notOnBytes] at two
    split at one <;> split at two <;> grind

/-- Behind an instruction that goes on to the next one there is only one shape for each shape before. -/
theorem after?_injective {instruction : Instruction} {other : Shape}
    (ordinary : instruction.isBody = true ∨ ∃ id, instruction = .invoke id)
    (one : shape.after? tree result instruction = some next)
    (two : other.after? tree result instruction = some next) : shape = other := by
  rcases ordinary with body | ⟨id, rfl⟩
  · rw [after?_body body] at one two
    exact computed?_injective one two
  · simp only [after?, Option.ite_none_left_eq_some, Option.bind_eq_some_iff] at one two
    obtain ⟨-, called, found, replaced⟩ := one
    obtain ⟨-, same, foundToo, replacedToo⟩ := two
    obtain rfl := Option.some.inj (found.symm.trans foundToo)
    exact replace?_injective replaced replacedToo

/-- What the machine holds at a place with that shape. -/
structure Fits (shape : Shape) (place : ProgramPlace) (base : List (StackValue ProgramPlace))
    (values : StackState ProgramPlace) : Prop where
  stack : Cell.Stacked place base shape.cells values.stack
  slots : ∀ slot, slot ≠ 0 → ∃ value, values.heap slot = .byte value
  parked : shape.parked = true → values.heap 0 = .address place

end Shape

/-- The bytes that an expression leaves on the stack. -/
theorem ValueType.pushed_eq (type : ValueType) (value : UInt8) (stack : List (StackValue ProgramPlace)) :
    ∃ left : List UInt8, left.length = type.height ∧
      type.pushed value stack = left.map .byte ++ stack := by
  by_cases void : type = .void
  · exact ⟨[], by simp [height, void], by simp [pushed, void]⟩
  · exact ⟨[value], by simp [height, void], by simp [pushed, void]⟩

theorem ValueType.pushed_of_height {type : ValueType} {left : List UInt8}
    (count : left.length = type.height) (stack : List (StackValue ProgramPlace)) :
    ∃ value, left.map .byte ++ stack = type.pushed value stack := by
  by_cases void : type = .void
  · simp only [height, void, if_true, List.length_eq_zero_iff] at count
    exact ⟨0, by simp [pushed, void, count]⟩
  · simp only [height, void, if_false, List.length_eq_one_iff] at count
    obtain ⟨value, rfl⟩ := count
    exact ⟨value, by simp [pushed, void]⟩

namespace Cell.Stacked

variable {place : ProgramPlace} {base stack : List (StackValue ProgramPlace)} {cells : List Cell}

theorem on_base (stacked : Stacked place base cells stack) : base <:+ stack := by
  induction stacked with
  | base => exact List.suffix_refl _
  | byte value rest ih | address rest ih => exact ih.trans (List.suffix_cons ..)

theorem eq_base (stacked : Stacked place base [] stack) : stack = base := by
  cases stacked
  rfl

theorem bytes_iff {count : Nat} : Stacked place base (Shape.bytes count ++ cells) stack ↔
    ∃ (values : List UInt8) (rest : List (StackValue ProgramPlace)),
      values.length = count ∧ stack = values.map .byte ++ rest ∧ Stacked place base cells rest := by
  induction count generalizing stack with
  | zero => simp [Shape.bytes, List.length_eq_zero_iff]
  | succ count ih =>
    rw [Shape.bytes, List.replicate_succ, List.cons_append]
    constructor
    · intro stacked
      cases stacked with
      | byte value below =>
        obtain ⟨values, rest, same, rfl, stacked⟩ := ih.mp below
        exact ⟨value :: values, rest, congrArg (· + 1) same, rfl, stacked⟩
    · rintro ⟨values, rest, same, rfl, stacked⟩
      obtain ⟨value, values, rfl⟩ := List.exists_cons_of_length_eq_add_one same
      exact .byte value (ih.mpr ⟨values, rest, Nat.succ.inj same, rfl, stacked⟩)

/-- The bytes of a value of the type. -/
theorem pushed {type : ValueType} (stacked : Stacked place base (Shape.bytes type.height) stack) :
    ∃ value, stack = type.pushed value base := by
  rw [← List.append_nil (Shape.bytes type.height)] at stacked
  obtain ⟨left, rest, count, rfl, onBase⟩ := bytes_iff.mp stacked
  cases onBase
  exact ValueType.pushed_of_height count base

end Cell.Stacked

namespace Shape

variable {shape next : Shape} {place : ProgramPlace} {base : List (StackValue ProgramPlace)}
  {values : StackState ProgramPlace} {ending : EndOfInput} {instruction : Instruction}

/-- Bytes that are replaced by others. -/
theorem Fits.replace {effect : StackEffect} (fits : shape.Fits place base values)
    (replaced : shape.replace? effect = some next) : ∃ (taken : List UInt8)
      (rest : List (StackValue ProgramPlace)), taken.length = effect.pops ∧
      values.stack = taken.map .byte ++ rest ∧ base <:+ rest ∧
      ∀ (left : List UInt8) (after : StackState ProgramPlace), left.length = effect.pushes →
        after.stack = left.map .byte ++ rest →
        (∀ slot, slot ≠ 0 → ∃ value, after.heap slot = .byte value) →
        (shape.parked = true → after.heap 0 = values.heap 0) → next.Fits place base after := by
  obtain ⟨cells, same, rfl⟩ := replace?_eq_some.mp replaced
  have stack := fits.stack
  rw [same] at stack
  obtain ⟨taken, rest, count, onTop, below⟩ := Cell.Stacked.bytes_iff.mp stack
  refine ⟨taken, rest, count, onTop, below.on_base, fun left after pushed leaves slots kept => ?_⟩
  exact ⟨Cell.Stacked.bytes_iff.mpr ⟨left, rest, pushed, leaves, below⟩, slots,
    fun parked => (kept parked).trans (fits.parked parked)⟩

/-- Between two statements the stack of the caller is untouched. -/
theorem Fits.leveled {result : Option ValueType} (fits : (level result).Fits place base values) :
    values.stack = if result.isSome then .address place :: base else base := by
  obtain ⟨stacked, -, -⟩ := fits
  generalize values.stack = stack at stacked ⊢
  cases result with
  | none =>
    cases stacked
    rfl
  | some type =>
    cases stacked with
    | address rest =>
      cases rest
      rfl

/-- At a `return` the result stands below the return address. -/
theorem Fits.result {type : ValueType} (fits : (leaving type).Fits place base values) :
    ∃ value, values.stack = .address place :: type.pushed value base := by
  obtain ⟨stacked, -, -⟩ := fits
  rw [leaving] at stacked
  generalize values.stack = stack at stacked ⊢
  cases stacked with
  | address stacked => exact stacked.pushed.imp fun value same => congrArg _ same

theorem slot?_of_body {layout : List Int}
    (body : (!layout.isEmpty && layout.all Template.fillsCell) = true) :
    ∃ slot, StackState.slot? layout = some slot := by
  cases layout with
  | nil => cases body
  | cons number before => exact ⟨_, rfl⟩

theorem slots_store (slots : ∀ slot, slot ≠ 0 → ∃ value, values.heap slot = .byte value)
    (changed : Nat) (value : UInt8) :
    ∀ slot, slot ≠ 0 → ∃ value', (values.store changed (.byte value)).heap slot = .byte value' := by
  intro slot own
  by_cases same : slot = changed
  · exact ⟨value, if_pos same⟩
  · obtain ⟨other, holds⟩ := slots slot own
    exact ⟨other, (if_neg same).trans holds⟩

/-- An instruction that finds the bytes it computes with can be executed. -/
theorem Fits.execute?_onBytes (fits : shape.Fits place base values) (body : instruction.isBody = true)
    (onBytes : instruction.isOnBytes = true) {effect : StackEffect}
    (has : instruction.stackEffect? = some effect) (replaced : shape.replace? effect = some next) :
    ∃ after, values.execute? ending instruction = some after ∧ next.Fits place base after := by
  obtain ⟨taken, rest, count, onTop, -, fits'⟩ := fits.replace replaced
  obtain ⟨stack, heap, input, output⟩ := values
  obtain rfl : stack = taken.map .byte ++ rest := onTop
  have slots := fits.slots
  -- As many bytes are taken as the effect says, and the state behind them is what is computed from them.
  cases instruction
  case nop =>
    obtain rfl := Option.some.inj has
    exact ⟨_, rfl, fits' taken _ count rfl slots fun _ => rfl⟩
  case readChar =>
    obtain rfl := Option.some.inj has
    obtain rfl := List.length_eq_zero_iff.mp count
    cases input with
    | nil => exact ⟨_, rfl, fits' [_] _ rfl rfl slots fun _ => rfl⟩
    | cons byte input => exact ⟨_, rfl, fits' [byte] _ rfl rfl slots fun _ => rfl⟩
  case pushInt value =>
    obtain rfl := Option.some.inj has
    obtain rfl := List.length_eq_zero_iff.mp count
    exact ⟨_, rfl, fits' [_] _ rfl rfl slots fun _ => rfl⟩
  case printChar | printInt | «not» =>
    obtain rfl := Option.some.inj has
    obtain ⟨value, rfl⟩ := List.length_eq_one_iff.mp count
    exact ⟨_, rfl, fits' [_] _ rfl rfl slots fun _ => rfl⟩
  case dupInt =>
    obtain rfl := Option.some.inj has
    obtain ⟨value, rfl⟩ := List.length_eq_one_iff.mp count
    exact ⟨_, rfl, fits' [value, value] _ rfl rfl slots fun _ => rfl⟩
  case popInt =>
    obtain rfl := Option.some.inj has
    obtain ⟨value, rfl⟩ := List.length_eq_one_iff.mp count
    exact ⟨_, rfl, fits' [] _ rfl rfl slots fun _ => rfl⟩
  case add | sub | mul | div | greater =>
    obtain rfl := Option.some.inj has
    obtain ⟨second, first, rfl⟩ := List.length_eq_two.mp count
    exact ⟨_, rfl, fits' [_] _ rfl rfl slots fun _ => rfl⟩
  -- A slot that is addressed is not the one for return addresses, so it holds a byte.
  case readLocal layout =>
    obtain rfl := Option.some.inj has
    obtain rfl := List.length_eq_zero_iff.mp count
    obtain ⟨slot, addressed⟩ := slot?_of_body body
    have own : slot ≠ 0 := by simpa [Instruction.isOnBytes, body, addressed] using onBytes
    obtain ⟨value, holds⟩ := slots slot own
    exact ⟨_, StackState.execute?_eq_some.mpr (.readLocal addressed), fits' [value] _ rfl
      (congrArg (· :: rest) holds) (slots_store slots slot 0) fun _ => if_neg own.symm⟩
  case writeLocal layout =>
    obtain rfl := Option.some.inj has
    obtain ⟨value, rfl⟩ := List.length_eq_one_iff.mp count
    obtain ⟨slot, addressed⟩ := slot?_of_body body
    have own : slot ≠ 0 := by simpa [Instruction.isOnBytes, body, addressed] using onBytes
    have writes := @StackState.Executes.writeLocal _ ending _ _ addressed ⟨rest, heap, input, output⟩
      (.byte value)
    exact ⟨_, StackState.execute?_eq_some.mpr writes,
      fits' [] _ rfl rfl (slots_store slots slot value) fun _ => if_neg own.symm⟩
  case clearLocal layout =>
    obtain rfl := Option.some.inj has
    obtain rfl := List.length_eq_zero_iff.mp count
    obtain ⟨slot, addressed⟩ := slot?_of_body body
    have own : slot ≠ 0 := by simpa [Instruction.isOnBytes, body, addressed] using onBytes
    exact ⟨_, StackState.execute?_eq_some.mpr (.clearLocal addressed),
      fits' [] _ rfl rfl (slots_store slots slot 0) fun _ => if_neg own.symm⟩
  case swapInt => cases onBytes
  all_goals cases body

/-- Two values are swapped, whatever they are. -/
theorem Fits.swap {first second : Cell} {rest : List Cell} {parked : Bool}
    (fits : Fits ⟨first :: second :: rest, parked⟩ place base values) :
    ∃ after, values.execute? ending .swapInt = some after ∧
      Fits ⟨second :: first :: rest, parked⟩ place base after := by
  obtain ⟨stack, heap, input, output⟩ := values
  cases fits.stack with
  | byte one below =>
    cases below with
    | byte other below => exact ⟨_, rfl, .byte other (.byte one below), fits.slots, fits.parked⟩
    | address below => exact ⟨_, rfl, .address (.byte one below), fits.slots, fits.parked⟩
  | address below =>
    cases below with
    | byte other below => exact ⟨_, rfl, .byte other (.address below), fits.slots, fits.parked⟩
    | address below => exact ⟨_, rfl, .address (.address below), fits.slots, fits.parked⟩

/-- The return address goes to its slot. -/
theorem Fits.park {layout : List Int} (addressed : StackState.slot? layout = some 0) {rest : List Cell}
    (fits : Fits ⟨.address :: rest, false⟩ place base values) :
    ∃ after, values.execute? ending (.writeLocal layout) = some after ∧
      Fits ⟨rest, true⟩ place base after := by
  obtain ⟨stack, heap, input, output⟩ := values
  cases fits.stack with
  | @address _ below stacked =>
    have writes := @StackState.Executes.writeLocal _ ending _ _ addressed ⟨below, heap, input, output⟩
      (.address place)
    refine ⟨_, StackState.execute?_eq_some.mpr writes, stacked, fun slot own => ?_, fun _ => rfl⟩
    obtain ⟨value, holds⟩ := fits.slots slot own
    exact ⟨value, (if_neg own).trans holds⟩

/-- The return address comes back from its slot. -/
theorem Fits.unpark {layout : List Int} (addressed : StackState.slot? layout = some 0)
    {cells : List Cell} (fits : Fits ⟨cells, true⟩ place base values) :
    ∃ after, values.execute? ending (.readLocal layout) = some after ∧
      Fits ⟨.address :: cells, false⟩ place base after := by
  have reads := StackState.execute?_eq_some.mpr
    (@StackState.Executes.readLocal _ ending _ _ addressed values)
  rw [fits.parked rfl] at reads
  exact ⟨_, reads, .address fits.stack, slots_store fits.slots 0 0, Bool.noConfusion⟩

/-- An instruction that finds the cells it computes with can be executed. -/
theorem Fits.execute? (fits : shape.Fits place base values)
    (body : instruction.isBody = true) (computed : shape.computed? instruction = some next) :
    ∃ after, values.execute? ending instruction = some after ∧ next.Fits place base after := by
  unfold computed? at computed
  split at computed
  next onBytes =>
    obtain ⟨effect, has, replaced⟩ := Option.bind_eq_some_iff.mp computed
    exact fits.execute?_onBytes body onBytes has replaced
  next =>
    split at computed
    next first second below parked =>
      obtain rfl := Option.some.inj computed
      exact fits.swap
    next layout cells _ =>
      split at computed
      next addressed =>
        obtain rfl := Option.some.inj computed
        exact fits.park addressed
      next => cases computed
    next layout cells _ =>
      split at computed
      next addressed =>
        obtain rfl := Option.some.inj computed
        exact fits.unpark addressed
      next => cases computed
    next => cases computed

end Shape

end TapeCode
