import TapeCode.Proofs.Compilation.Discipline

/-!
# How the labels of a program are numbered

Resolution numbers the functions, and compilation numbers the labels inside their bodies from there on,
with one counter for both. So no number is used twice and none reaches the next label, although the two
stages never look at each other's numbers. Jumps stay in their body, calls find their function, a
function ends in a `return`, and the main block has none.
-/
namespace TapeCode

/-- The numbers that a program uses up: those of its labels and those of its functions. -/
def Program.numbers (program : Program) : List Int :=
  Listing.labels program.main ++
    program.functions.entries.flatMap fun entry => entry.1 :: Listing.labels entry.2

/-- What the passes rely on without checking it. Of two equal labels the later one would win, so a
number that is used twice would lead a jump into another body. -/
structure Program.IsNumbered (program : Program) : Prop where
  distinct : program.numbers.Nodup
  within : ∀ number ∈ program.numbers, 0 ≤ number ∧ number < program.nextLabel
  jumps : ∀ body ∈ program.bodies, ∀ instruction ∈ body, ∀ label ∈ instruction.jumpTarget?,
    Instruction.label label ∈ body
  calls : ∀ body ∈ program.bodies, ∀ instruction ∈ body, ∀ id ∈ instruction.invoked?,
    id ∈ program.functions.entries.map (·.1)
  returns : ∀ entry ∈ program.functions.entries, entry.2.getLast? = some .leave
  main : Instruction.leave ∉ program.main

theorem Program.mem_numbers {program : Program} {number : Int} : number ∈ program.numbers ↔
    number ∈ Listing.labels program.main ∨
      ∃ entry ∈ program.functions.entries, number = entry.1 ∨ number ∈ Listing.labels entry.2 := by
  simp only [numbers, List.mem_append, List.mem_flatMap, List.mem_cons]

/-- In the main block there is no place for a `return`: no shape of the stack allows one. -/
theorem Shape.scan_no_leave {tree : ScopeTree} {code : Listing} {shape last : Shape}
    (scanned : shape.scan tree none code = some last) : Instruction.leave ∉ code := by
  induction code generalizing shape with
  | nil => exact List.not_mem_nil
  | cons instruction rest ih =>
    obtain ⟨next, after, onwards⟩ := Option.bind_eq_some_iff.mp scanned
    intro member
    rcases List.mem_cons.mp member with same | later
    · subst same
      cases after
    · exact ih onwards later

namespace TypedProgram.IsCompiled

variable {whole : TypedProgram} {tree : ScopeTree} {program : Program}

/-- Labels inside bodies are numbered behind all functions, and both before the next label. -/
theorem numbers_within (sound : whole.IsSound tree) (compiled : whole.IsCompiled tree program) :
    ∀ number ∈ program.numbers, 0 ≤ number ∧ number < program.nextLabel := by
  obtain ⟨next, nextLabel, grows, labels⟩ := compiled.next
  intro number member
  rw [nextLabel]
  -- The labels of all bodies are the numbers from those of the functions on.
  have ofLabel (among : number ∈ Listing.labels program.main ++
      program.functions.entries.flatMap fun entry => Listing.labels entry.2) :
      0 ≤ number ∧ number < next := by
    obtain ⟨later, inRange, same⟩ := List.mem_map.mp (labels.mem_iff.mp among)
    have bounds := List.mem_range'_1.mp inRange
    rw [← same]
    constructor
    · exact Int.natCast_nonneg later
    · exact Int.ofNat_lt.mpr (by omega)
  rcases Program.mem_numbers.mp member with ofMain | ⟨entry, among, key | inside⟩
  · exact ofLabel (List.mem_append_left _ ofMain)
  · -- A function has the number that resolution gave it.
    obtain ⟨source, -, ⟨label, has, same⟩, -⟩ := compiled.only entry among
    have below := Compile.labelOf?_lt sound.scopes has
    omega
  · exact ofLabel (List.mem_append_right _ (List.mem_flatMap.mpr ⟨entry, among, inside⟩))

theorem returns (sound : whole.IsSound tree) (compiled : whole.IsCompiled tree program) :
    ∀ entry ∈ program.functions.entries, entry.2.getLast? = some .leave := by
  intro entry member
  obtain ⟨source, among, -, first, last, made⟩ := compiled.only entry member
  obtain ⟨called, found, -⟩ := (sound.functions source among).declared
  obtain ⟨code, ends, -⟩ := function_scan sound among found made
  rw [ends]
  exact List.getLast?_concat

theorem numbered (sound : whole.IsSound tree) (compiled : whole.IsCompiled tree program) :
    program.IsNumbered := by
  have wellFormed := compiled.wellFormed sound
  constructor
  case distinct =>
    -- Well-formedness also keeps the next label apart from all others.
    exact (List.nodup_append.mp wellFormed.distinct).1
  case within => exact compiled.numbers_within sound
  case jumps => exact wellFormed.jumps
  case calls =>
    intro body member instruction inside id called
    obtain ⟨code, found⟩ := Option.isSome_iff_exists.mp
      (wellFormed.calls body member instruction inside id called)
    exact List.mem_map_of_mem (FunctionTable.mem_of_get? found)
  case returns => exact compiled.returns sound
  case main => exact Shape.scan_no_leave (compiled.main_checked sound).scanned

end TypedProgram.IsCompiled

namespace Build

variable {source : String} {compiled : Program}

theorem program_eq_ok (built : program source = .ok compiled) : ∃ typed scopes,
    Resolves source typed scopes ∧ typed.compile scopes = .ok compiled := by
  obtain ⟨statements, read, rest⟩ := Except.bind_eq_ok.mp built
  obtain ⟨⟨typed, scopes⟩, resolved, rest⟩ := Except.bind_eq_ok.mp rest
  obtain ⟨program, made, rest⟩ := Except.bind_eq_ok.mp rest
  obtain ⟨height, -, same⟩ := Except.bind_eq_ok.mp rest
  obtain rfl := Except.ok.inj same
  exact ⟨typed, scopes, ⟨statements, read, Except.mapError_eq_ok.mp resolved⟩,
    Except.mapError_eq_ok.mp made⟩

/-- Every program that a source text becomes is numbered, so the passes may rely on its labels. -/
theorem program_numbered (built : program source = .ok compiled) : compiled.IsNumbered := by
  obtain ⟨typed, scopes, resolves, made⟩ := program_eq_ok built
  have sound := resolves.sound
  exact (TypedProgram.compile_eq_ok sound made).numbered sound

/-- A function with a loop and a condition, one within it, and a call of it from a condition. -/
def nestingSource : String :=
  "func f(n: int): int \x7b func g() \x7b while (n) n = n - 1; \x7d g(); if (n) return 1; \x7d if (f(2)) print(65); else f(3);"

theorem program_numbered_nestingSource : ∃ compiled,
    program nestingSource = .ok compiled ∧ compiled.numbers.length = 7 ∧ compiled.IsNumbered := by
  obtain ⟨compiled, built, many⟩ : ∃ compiled, program nestingSource = .ok compiled ∧
      compiled.numbers.length = 7 := by
    decide +kernel
  exact ⟨compiled, built, many, program_numbered built⟩

end Build

end TapeCode
