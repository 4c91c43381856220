import TapeCode.Proofs.Monads
import TapeCode.Proofs.Ribbon.Displacement

/-!
# Walks over strings

A string ends with a zero cell, so an empty string takes two cells where a value of another type takes
one. The code that steps over a string comes back to its first cell only if that cell is zero, and the
code that clears it stays on it only then: a walk leads to its slot and back if all strings on the way
are empty.
-/
namespace TapeCode

open Stream' (cons)

namespace Template

open Ribbon (atTop marked)

/-- Whether values of the type are runs of cells. -/
def isString (number : Int) : Bool := number = (ValueType.string.number : Int)

theorem cellCode_cases {number : Int} {code : ValueType.CellCode} (found : cellCode number = .ok code) :
    code = if isString number then .run else .single := by
  unfold cellCode at found
  split at found
  · cases found
  next type known =>
    obtain rfl : (type.number : Int) = number := by
      simpa using List.find?_some known
    cases type <;> cases found <;> rfl

/-! ## The cells of slots -/

/-- The number of cells that an empty value takes. -/
def width (number : Int) : Nat := if isString number then 2 else 1

/-- The cells of slots one behind the other, with the zero cell behind each string. -/
def spread : List Int → Stream' UInt8 → Stream' UInt8
  | [], slots => slots
  | number :: rest, slots =>
    let others := spread rest slots.tail
    cons slots.head (if isString number then cons 0 others else others)

/-- The cell of a slot, counted from the sentinel on. -/
def place : List Int → Nat → Nat
  | _, 0 => 0
  | [], slot + 1 => slot + 1
  | number :: rest, slot + 1 => place rest slot + width number

variable {whole : List Int} (slots : Stream' UInt8) {slot : Nat} {number : Int}

theorem place_succ (here : whole[slot]? = some number) :
    place whole (slot + 1) = place whole slot + width number := by
  induction whole generalizing slot with
  | nil => simp at here
  | cons first rest ih =>
    cases slot with
    | zero =>
      obtain rfl : first = number := by simpa using here
      simp [place]
    | succ slot =>
      rw [place, ih (by simpa using here), place]
      omega

/-- Behind the cells of the first slot stand those of the others. -/
theorem get_spread_cons (number : Int) (rest : List Int) (cell : Nat) :
    (spread (number :: rest) slots).get (cell + width number) = (spread rest slots.tail).get cell := by
  rw [spread, width]
  split <;> rfl

theorem spread_get (whole : List Int) (slot : Nat) :
    (spread whole slots).get (place whole slot) = slots.get slot := by
  induction whole generalizing slots slot with
  | nil => cases slot <;> rfl
  | cons first rest ih =>
    cases slot with
    | zero => rfl
    | succ slot =>
      rw [place, get_spread_cons]
      exact ih slots.tail slot

/-- Behind the first cell of an empty string stands the zero cell that ends it. -/
theorem spread_get_end (here : whole[slot]? = some number) (string : isString number = true) :
    (spread whole slots).get (place whole slot + 1) = 0 := by
  induction whole generalizing slots slot with
  | nil => simp at here
  | cons first rest ih =>
    cases slot with
    | zero =>
      obtain rfl : first = number := by simpa using here
      simp only [spread, place, string, if_true]
      rfl
    | succ slot =>
      rw [place, Nat.add_right_comm, get_spread_cons]
      exact ih slots.tail (by simpa using here)

theorem spread_setSlot (whole : List Int) (slot : Nat) (value : UInt8) :
    spread whole (setSlot slots slot value) = setSlot (spread whole slots) (place whole slot) value := by
  induction whole generalizing slots slot with
  | nil => cases slot <;> rfl
  | cons first rest ih =>
    cases slot with
    | zero =>
      refine Stream'.ext fun cell => ?_
      cases cell <;> rfl
    | succ slot =>
      have others := ih slots.tail slot
      by_cases string : isString first = true
      · simp only [spread, place, width, string, if_true, tail_setSlot, head_setSlot, others]
        rw [← setSlot_cons, ← setSlot_cons]
      · simp only [spread, place, width, string, tail_setSlot, head_setSlot, others]
        exact (setSlot_cons _ _ _ _).symm

theorem setSlot_comm {slot other : Nat} (apart : slot ≠ other) (value second : UInt8) :
    setSlot (setSlot slots slot value) other second = setSlot (setSlot slots other second) slot value := by
  refine Stream'.ext fun index => ?_
  simp only [get_setSlot_eq_ite]
  split <;> split <;> simp_all

/-- Slots behind the layout fill one cell each. -/
theorem place_add (whole : List Int) (more : Nat) :
    place whole (whole.length + more) = place whole whole.length + more := by
  induction whole with
  | nil => cases more <;> simp [place]
  | cons first rest ih =>
    rw [List.length_cons, Nat.add_right_comm, place, place, ih]
    omega

theorem le_place (whole : List Int) (slot : Nat) : slot ≤ place whole slot := by
  induction whole generalizing slot with
  | nil => cases slot <;> exact Nat.le_refl _
  | cons first rest ih =>
    cases slot with
    | zero => exact Nat.zero_le _
    | succ slot =>
      have further := ih slot
      have least : 1 ≤ width first := by
        unfold width
        split <;> decide
      rw [place]
      omega

theorem place_le (whole : List Int) (slot : Nat) : place whole slot ≤ 2 * slot := by
  induction whole generalizing slot with
  | nil =>
    cases slot with
    | zero => exact Nat.le_refl 0
    | succ slot => exact Nat.le_mul_of_pos_left _ Nat.two_pos
  | cons first rest ih =>
    cases slot with
    | zero => simp [place]
    | succ slot =>
      have further := ih slot
      have most : width first ≤ 2 := by
        unfold width
        split <;> decide
      rw [place]
      omega

/-! ## Walks over slots -/

section

variable {ending : EndOfInput} {code : ValueType.CellCode} (cells : Stream' UInt8)
  (stack : List UInt8) (right : Stream' UInt8) (input output : List UInt8)

/-- Over one value, which has to end behind its first cell if it is a string. -/
private theorem value_away_runs (found : cellCode number = .ok code) (cell : Nat)
    (ends : isString number = true → cells.get (cell + 1) = 0) :
    Runs ending code.away.toList (atSlot cells stack right input output cell)
      (atSlot cells stack right input output (cell + width number)) := by
  obtain rfl := cellCode_cases found
  have step := fun cell => @slot_away_runs ending cells stack right input output cell
  by_cases string : isString number = true
  · have scan : Runs ending "[<]".toList (atSlot cells stack right input output (cell + 1))
        (atSlot cells stack right input output (cell + 1)) :=
      .skip "<" rfl (ends string)
    simp only [string, if_true, width]
    exact ((step cell).append scan).append (step (cell + 1))
  · simp only [string, width]
    exact step cell

/-- Back over one value to a cell that has to be zero if the value is a string. -/
private theorem value_back_runs (found : cellCode number = .ok code) (cell : Nat)
    (begins : isString number = true → cells.get cell = 0) :
    Runs ending code.back.toList (atSlot cells stack right input output (cell + width number))
      (atSlot cells stack right input output cell) := by
  obtain rfl := cellCode_cases found
  have step := fun cell => @slot_back_runs ending cells stack right input output cell
  by_cases string : isString number = true
  · have scan : Runs ending "[>]".toList (atSlot cells stack right input output cell)
        (atSlot cells stack right input output cell) :=
      .skip ">" rfl (begins string)
    simp only [string, if_true, width]
    exact ((step (cell + 1)).append (step cell)).append scan
  · simp only [string, width]
    exact step cell

private theorem current_of_scan {c : Char} (plain : isPlain c = true) {before after : Ribbon}
    (runs : Runs ending ['[', c, ']'] before after) : after.current = 0 := by
  -- The loop is read as one character between brackets in one way only.
  have inside {body rest : List Char} (same : ['[', c, ']'] = '[' :: body ++ ']' :: rest) :
      rest = [] := by
    cases body with
    | nil =>
      obtain rfl : c = ']' := by simpa using (List.cons.inj (List.cons.inj same).2).1
      cases plain
    | cons first body =>
      have more := (List.cons.inj (List.cons.inj same).2).2
      cases body with
      | nil => exact (List.cons.inj more).2.symm
      | cons second body => simp at more
  generalize text : ['[', c, ']'] = code at runs
  induction runs with
  | done => cases text
  | act isPlain _ _ =>
    obtain ⟨rfl, -⟩ := List.cons.inj text
    cases isPlain
  | leave _ zero onwards _ =>
    obtain rfl := inside text
    cases onwards
    exact zero
  | again _ _ _ _ ih => exact ih text

/-- The code for the way back over a string undoes the code for the way there only if the string is
empty. -/
theorem string_back_runs_iff (cell : Nat) :
    Runs ending ValueType.CellCode.run.back.toList (atSlot cells stack right input output (cell + 2))
      (atSlot cells stack right input output cell) ↔ cells.get cell = 0 := by
  constructor
  · intro runs
    have scans : ∀ {before after : Ribbon}, Runs ending ['>', '>', '[', '>', ']'] before after →
        after.current = 0 := by
      intro before after runs
      cases runs with
      | act _ runs =>
        cases runs with
        | act _ runs => exact current_of_scan rfl runs
    exact scans runs
  · intro zero
    exact @value_back_runs ValueType.string.number ending .run cells stack right input output rfl cell
      fun _ => zero

/-- Away over some slots of the layout, and back to as many cells behind the first of them as the way back
begins behind the last one. -/
private theorem values_runs {before rest : List Int} {codes : List ValueType.CellCode}
    (found : cellCodes before = .ok codes) (first : Nat) (here : whole.drop first = before ++ rest)
    (beyond : Nat) :
    Runs ending (codes.flatMap (·.away.toList))
        (atSlot (spread whole slots) stack right input output (place whole first))
        (atSlot (spread whole slots) stack right input output (place whole (first + before.length))) ∧
      ((∀ slot < first + before.length, whole[slot]?.any isString = true →
          (spread whole slots).get (place whole slot + beyond) = 0) →
        Runs ending (codes.reverse.flatMap (·.back.toList))
          (atSlot (spread whole slots) stack right input output
            (place whole (first + before.length) + beyond))
          (atSlot (spread whole slots) stack right input output (place whole first + beyond))) := by
  -- The way back takes the same slots the other way round, so its last part goes over the first slot.
  induction before generalizing first codes with
  | nil =>
    obtain rfl := Except.ok.inj found
    exact ⟨.done, fun _ => .done⟩
  | cons number before ih =>
    obtain ⟨code, foundFirst, onwards⟩ := Except.bind_eq_ok.mp found
    obtain ⟨others, foundOthers, made⟩ := Except.bind_eq_ok.mp onwards
    obtain rfl := Except.ok.inj made
    have slotHere : whole[first]? = some number := by
      have head := congrArg (·.head?) here
      simpa [List.head?_drop] using head
    have next : whole.drop (first + 1) = before ++ rest := by
      rw [← List.tail_drop, here]
      rfl
    obtain ⟨away, back⟩ := ih foundOthers (first + 1) next
    have behind : first + 1 + before.length = first + (number :: before).length := by
      rw [List.length_cons]
      omega
    rw [place_succ slotHere, behind] at away back
    refine ⟨?_, fun zero => ?_⟩
    · rw [List.flatMap_cons]
      exact (value_away_runs (spread whole slots) stack right input output foundFirst _
        fun string => spread_get_end slots slotHere string).append away
    · have begins (string : isString number = true) :
          (spread whole slots).get (place whole first + beyond) = 0 :=
        zero first (by simp) (by simp [slotHere, string])
      have last := @value_back_runs number ending code (spread whole slots) stack right input output
        foundFirst (place whole first + beyond) begins
      rw [Nat.add_right_comm] at last
      rw [List.reverse_cons, List.flatMap_append, List.flatMap_singleton]
      exact (back zero).append last

end

/-! ## The walk to a slot -/

theorem cellCodes_append {before more : List Int} {codes : List ValueType.CellCode}
    (found : cellCodes (before ++ more) = .ok codes) :
    ∃ first second, cellCodes before = .ok first ∧ cellCodes more = .ok second ∧
      codes = first ++ second := by
  induction before generalizing codes with
  | nil => exact ⟨[], codes, rfl, found, rfl⟩
  | cons number before ih =>
    obtain ⟨code, foundFirst, onwards⟩ := Except.bind_eq_ok.mp found
    obtain ⟨others, foundOthers, made⟩ := Except.bind_eq_ok.mp onwards
    obtain rfl := Except.ok.inj made
    obtain ⟨first, second, foundBefore, foundMore, rfl⟩ := ih foundOthers
    refine ⟨code :: first, second, ?_, foundMore, rfl⟩
    rw [cellCodes, foundFirst, foundBefore]
    rfl

theorem heapWalk_eq_ok {layout : List Int} {walk : HeapWalk} (found : heapWalk layout = .ok walk) :
    ∃ before target codes code, layout = before ++ [target] ∧ cellCodes before = .ok codes ∧
      cellCode target = .ok code ∧
      walk = ⟨"<+[<<+]<".toList ++ codes.flatMap (·.away.toList),
        codes.reverse.flatMap (·.back.toList) ++ ">->>[->>]<".toList, code.clear.toList⟩ := by
  obtain ⟨all, foundAll, made⟩ := Except.bind_eq_ok.mp found
  rcases List.eq_nil_or_concat layout with rfl | ⟨before, target, concat⟩
  · obtain rfl := Except.ok.inj foundAll
    cases made
  · rw [List.concat_eq_append] at concat
    subst concat
    obtain ⟨codes, last, foundBefore, foundLast, rfl⟩ := cellCodes_append foundAll
    obtain ⟨code, foundTarget, onwards⟩ := Except.bind_eq_ok.mp foundLast
    obtain rfl := Except.ok.inj onwards
    simp only [List.getLast?_concat, List.dropLast_concat] at made
    exact ⟨before, target, codes, code, rfl, foundBefore, foundTarget, (Except.ok.inj made).symm⟩

variable {ending : EndOfInput} {layout : List Int} {walk : HeapWalk}

/-- The strings among the first slots of the layout are empty. -/
def AreEmpty (whole : List Int) (slots : Stream' UInt8) (count : Nat) : Prop :=
  ∀ slot < count, whole[slot]?.any isString = true → slots.get slot = 0

instance (count : Nat) : Decidable (AreEmpty whole slots count) :=
  inferInstanceAs (Decidable (∀ slot < count, _ → _))

section

variable {slots}

theorem AreEmpty.spread_get {count : Nat} (empty : AreEmpty whole slots count) :
    ∀ slot < count, whole[slot]?.any isString = true →
      (spread whole slots).get (place whole slot) = 0 := by
  intro slot below string
  rw [Template.spread_get]
  exact empty slot below string

/-- Strings before a slot stay empty whatever the slot holds. -/
theorem AreEmpty.setSlot {count other : Nat} (empty : AreEmpty whole slots count) (behind : count ≤ other)
    (value : UInt8) : AreEmpty whole (setSlot slots other value) count := by
  intro slot below string
  rw [get_setSlot_eq_ite, if_neg (by omega)]
  exact empty slot below string

/-- A walk that passes only empty strings leads to its slot and back. -/
theorem heapWalk_leads (found : heapWalk layout = .ok walk) (common : layout <+: whole)
    (empty : AreEmpty whole slots (layout.length - 1)) :
    walk.Leads ending (spread whole slots) (place whole (layout.length - 1)) := by
  obtain ⟨before, target, codes, code, rfl, foundBefore, -, rfl⟩ := heapWalk_eq_ok found
  obtain ⟨rest, split⟩ := common
  have here : whole.drop 0 = before ++ target :: rest := by simpa using split.symm
  have last : (before ++ [target]).length - 1 = before.length := by simp
  rw [last] at empty ⊢
  have walks (value : UInt8) (stack input output : List UInt8) :=
    @values_runs whole (setSlot slots before.length value) ending stack zeros input output before _
      codes foundBefore 0 here 0
  simp only [Nat.zero_add, Nat.add_zero, place, spread_setSlot] at walks
  constructor
  · intro value stack input output
    exact (away_runs _ stack zeros input output).append (walks value stack input output).1
  · intro value stack input output
    have stay := (empty.setSlot (Nat.le_refl _) value).spread_get
    rw [spread_setSlot] at stay
    exact ((walks value stack input output).2 stay).append (back_runs _ stack zeros input output rfl)

/-- A string that is empty already is left alone, and any other value is zeroed in place. -/
theorem heapWalk_erase_runs (found : heapWalk layout = .ok walk) (common : layout <+: whole)
    (empty : AreEmpty whole slots layout.length) (stack input output : List UInt8) :
    Runs ending walk.erase (atTop (spread whole slots) stack zeros input output)
      (atTop (spread whole (setSlot slots (layout.length - 1) 0)) stack zeros input output) := by
  have leads : walk.Leads ending (spread whole slots) (place whole (layout.length - 1)) :=
    heapWalk_leads found common fun slot below => empty slot (by omega)
  obtain ⟨before, target, codes, code, rfl, -, foundTarget, rfl⟩ := heapWalk_eq_ok found
  obtain rfl := cellCode_cases foundTarget
  have last : (before ++ [target]).length - 1 = before.length := by simp
  have here : whole[before.length]? = some target := by
    obtain ⟨rest, rfl⟩ := common
    simp
  rw [last] at leads ⊢
  rw [spread_setSlot]
  by_cases string : isString target = true
  · have zero : slots.get before.length = 0 := empty _ (by simp) (by simp [here, string])
    have same := setSlot_get (spread whole slots) (place whole before.length)
    rw [spread_get, zero] at same
    refine leads.around _ _ _ _ ?_
    rw [same, if_pos string]
    exact .skip "[-]<" rfl ((spread_get slots whole before.length).trans zero)
  · exact erase_runs _ _ _ _ leads (by rw [if_neg string]; rfl)

/-- What clearing a string that is not empty ends with: the pointer is on the sentinel, which is zero, the
links are set, and the first cell of the heap is one less than it should be. -/
def stranded (cells : Stream' UInt8) (stack : List UInt8) (right : Stream' UInt8)
    (input output : List UInt8) : Ribbon :=
  ⟨setSlot cells 0 (cells.get 0 - 1), 0, cons 0 (marked stack right), input, output⟩

theorem stranded_setSlot (cells : Stream' UInt8) (stack : List UInt8) (right : Stream' UInt8)
    (input output : List UInt8) {cell : Nat} (behind : cell ≠ 0) (value : UInt8) :
    stranded (setSlot cells cell value) stack right input output =
      (stranded cells stack right input output).mark cell value := by
  have kept : (setSlot cells cell value).get 0 = cells.get 0 := by
    rw [get_setSlot_eq_ite, if_neg behind.symm]
  rw [stranded, kept, setSlot_comm _ behind]
  rfl

/-- The way back from the cell behind the first slot. -/
private theorem back_strands (cells : Stream' UInt8) (stack : List UInt8) (right : Stream' UInt8)
    (input output : List UInt8) :
    Runs ending ">->>[->>]<".toList (atSlot cells stack right input output 1)
      (stranded cells stack right input output) := by
  have near := @slot_back_runs ending cells stack right input output 0
  have lowered : Runs ending "->>".toList (atSlot cells stack right input output 0)
      ⟨cons 0 (cons (cells.get 0 - 1) cells.tail), 0, marked stack right, input, output⟩ :=
    .straight "->>" rfl rfl
  have passed : Runs ending "[->>]".toList
      ⟨cons 0 (cons (cells.get 0 - 1) cells.tail), 0, marked stack right, input, output⟩
      ⟨cons 0 (cons (cells.get 0 - 1) cells.tail), 0, marked stack right, input, output⟩ :=
    .skip "->>" rfl rfl
  have first : setSlot cells 0 (cells.get 0 - 1) = cons (cells.get 0 - 1) cells.tail := by
    refine Stream'.ext fun cell => ?_
    cases cell <;> rfl
  rw [stranded, first]
  exact near.append (lowered.andThen (passed.andThen (.straight "<" rfl rfl)))

/-- A string that is not empty is zeroed up to its end, and the way back from there misses the sentinel. -/
theorem heapWalk_erase_strands (found : heapWalk layout = .ok walk) (common : layout <+: whole)
    (empty : AreEmpty whole slots (layout.length - 1))
    (string : whole[layout.length - 1]?.any isString = true) (full : slots.get (layout.length - 1) ≠ 0)
    (stack input output : List UInt8) :
    Runs ending walk.erase (atTop (spread whole slots) stack zeros input output)
      (stranded (spread whole (setSlot slots (layout.length - 1) 0)) stack zeros input output) := by
  have leads : walk.Leads ending (spread whole slots) (place whole (layout.length - 1)) :=
    heapWalk_leads found common empty
  obtain ⟨before, target, codes, code, rfl, foundBefore, foundTarget, rfl⟩ := heapWalk_eq_ok found
  obtain ⟨rest, split⟩ := common
  have last : (before ++ [target]).length - 1 = before.length := by simp
  have here : whole[before.length]? = some target := by simp [← split]
  rw [last] at leads string full ⊢
  rw [here, Option.any_some] at string
  obtain rfl : code = .run := by rw [cellCode_cases foundTarget, if_pos string]
  have away := leads.away (slots.get before.length) stack input output
  rw [← spread_setSlot, setSlot_get] at away
  generalize after : setSlot slots before.length 0 = zeroed
  have turn : Runs ending "[-]<".toList
      (atSlot (spread whole slots) stack zeros input output (place whole before.length))
      (atSlot (spread whole zeroed) stack zeros input output (place whole before.length + 1)) := by
    rw [← after, spread_setSlot]
    exact (zero_runs _ stack zeros input output _).append (slot_away_runs _ stack zeros input output _)
  have ended (slot : Nat) (string : whole[slot]?.any isString = true) :
      (spread whole zeroed).get (place whole slot + 1) = 0 := by
    obtain ⟨number, here, string⟩ := (Option.any_eq_true _ _).mp string
    exact spread_get_end zeroed here string
  -- The loop over the characters ends on the zero behind the last one, one cell beyond the slot, so that
  -- the way back starts one cell too far.
  have erased : Runs ending "[[-]<]".toList
      (atSlot (spread whole slots) stack zeros input output (place whole before.length))
      (atSlot (spread whole zeroed) stack zeros input output (place whole before.length + 1)) :=
    .once "[-]<" ((spread_get slots whole before.length).trans_ne full) turn
      (ended before.length (by simp [here, string]))
  have back := (@values_runs whole zeroed ending stack zeros input output before _ codes foundBefore 0
    (by simpa using split.symm) 1).2 fun slot _ => ended slot
  simp only [Nat.zero_add, place] at back
  exact (away.append erased).append (back.append (back_strands _ stack zeros input output))

end

end Template

end TapeCode
