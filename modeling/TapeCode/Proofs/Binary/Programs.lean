import TapeCode.Program.Binary
import TapeCode.Proofs.Binary.Readers

/-!
# Programs survive being written

A program is read back from its bytes, whatever follows them, and from no part of them. A program that
was read from any bytes at all, in whatever spelling, is read back from its own. The check of the
arguments stands between the two: it passes exactly what comes from a program.
-/
namespace TapeCode

/-- Whether an opcode takes so many arguments. -/
def Arity.Admits : Arity → Nat → Prop
  | .fixed count, given => given = count
  | .variable, _ => True

/-! ## Function tables -/

section

variable {α : Type}

/-- A function with a number above all others goes to the end. -/
theorem insertFunction_last {id : Int} {body : α} {entries : List (Int × α)}
    (above : ∀ entry ∈ entries, entry.1 < id) :
    insertFunction id body entries = entries ++ [(id, body)] := by
  induction entries with
  | nil => rfl
  | cons first rest ih =>
    obtain ⟨below, others⟩ := List.forall_mem_cons.mp above
    rw [insertFunction, if_neg (Int.not_lt.mpr (Int.le_of_lt below)), if_neg (Int.ne_of_gt below),
      ih others, List.cons_append]

theorem length_insertFunction_le (id : Int) (body : α) (entries : List (Int × α)) :
    (insertFunction id body entries).length ≤ entries.length + 1 := by
  induction entries with
  | nil => exact Nat.le_refl _
  | cons first rest ih =>
    simp only [insertFunction]
    split
    · exact Nat.le_refl _
    · split
      · exact Nat.le_succ _
      · exact Nat.succ_le_succ ih

namespace FunctionTable

theorem foldl_insert_ascending {rest : List (Int × α)} (table : FunctionTable α)
    (ascending : (table.entries ++ rest).Pairwise fun a b => a.1 < b.1) :
    (rest.foldl (fun table entry => table.insert entry.1 entry.2) table).entries =
      table.entries ++ rest := by
  induction rest generalizing table with
  | nil => exact (List.append_nil _).symm
  | cons first rest ih =>
    have above : ∀ entry ∈ table.entries, entry.1 < first.1 := fun entry member =>
      (List.pairwise_append.mp ascending).2.2 entry member first List.mem_cons_self
    have inserted : (table.insert first.1 first.2).entries = table.entries ++ [first] :=
      insertFunction_last above
    rw [List.foldl_cons, ih _ (by rw [inserted]; simpa using ascending), inserted]
    simp

theorem entries_ofList {entries : List (Int × α)}
    (ascending : entries.Pairwise fun a b => a.1 < b.1) : (ofList entries).entries = entries :=
  foldl_insert_ascending empty ascending

/-- A table is made of its own entries. -/
theorem ofList_entries (table : FunctionTable α) : ofList table.entries = table := by
  have same := entries_ofList table.ascending
  obtain ⟨entries, ascending⟩ := table
  generalize ofList entries = other at same
  obtain ⟨others, _⟩ := other
  obtain rfl : others = entries := same
  rfl

theorem foldl_insert_bound (rest : List (Int × α)) (table : FunctionTable α) :
    let after := rest.foldl (fun table entry => table.insert entry.1 entry.2) table
    after.entries.length ≤ table.entries.length + rest.length ∧
      ∀ entry ∈ after.entries, entry ∈ table.entries ∨ entry ∈ rest := by
  induction rest generalizing table with
  | nil => exact ⟨Nat.le_refl _, fun _ => .inl⟩
  | cons first rest ih =>
    obtain ⟨length, members⟩ := ih (table.insert first.1 first.2)
    constructor
    · have inserted := length_insertFunction_le first.1 first.2 table.entries
      simp only [List.foldl_cons, List.length_cons, insert] at length ⊢
      omega
    · intro entry member
      rcases members entry member with within | later
      · rcases mem_insertFunction within with rfl | before
        · exact .inr List.mem_cons_self
        · exact .inl before
      · exact .inr (List.mem_cons_of_mem _ later)

/-- Nothing comes into a table but what it is made of. -/
theorem ofList_fits {holds : Int × α → Prop} {entries : List (Int × α)}
    (fits : Binary.FitsList holds entries) : Binary.FitsList holds (ofList entries).entries := by
  obtain ⟨length, members⟩ := foldl_insert_bound entries empty
  constructor
  · refine Nat.lt_of_le_of_lt length ?_
    rw [show (empty : FunctionTable α).entries.length = 0 from rfl, Nat.zero_add]
    exact fits.short
  · intro entry member
    rcases members entry member with nothing | given
    · cases nothing
    · exact fits.each entry given

end FunctionTable

end

/-! ## Instructions without their check -/

namespace Program

open Binary Binary.Reader

/-- The instruction as it is written. -/
def RawInstruction.of (instruction : Instruction) : RawInstruction :=
  ⟨instruction.opcode, instruction.arguments⟩

/-- The program as it is written. -/
def raw (program : Program) : RawProgram :=
  ⟨program.main.map .of,
    .ofList (program.functions.entries.map fun (id, body) => (id, body.map .of)), program.nextLabel⟩

/-- The numbers of an instruction have their places in the bytes. -/
def RawInstruction.Fits (instruction : RawInstruction) : Prop :=
  FitsList (fitsArgument · = true) instruction.arguments

instance : DecidablePred RawInstruction.Fits := fun instruction =>
  inferInstanceAs (Decidable (FitsList (fitsArgument · = true) instruction.arguments))

/-- All numbers of a program have their places in the bytes: lists have lengths of 64 bits, and
arguments and labels have 32 bits with a sign. -/
structure RawProgram.Fits (program : RawProgram) : Prop where
  main : FitsList RawInstruction.Fits program.main
  functions : FitsList (fun entry => fitsArgument entry.1 = true ∧
    FitsList RawInstruction.Fits entry.2) program.functions.entries
  nextLabel : fitsArgument program.nextLabel = true

instance (program : RawProgram) : Decidable program.Fits :=
  decidable_of_iff (FitsList RawInstruction.Fits program.main ∧
      FitsList (fun entry => fitsArgument entry.1 = true ∧ FitsList RawInstruction.Fits entry.2)
        program.functions.entries ∧ fitsArgument program.nextLabel = true)
    ⟨fun ⟨main, functions, label⟩ => ⟨main, functions, label⟩,
      fun ⟨main, functions, label⟩ => ⟨main, functions, label⟩⟩

/-- All instructions of a program, those of the main block first. -/
def instructions (program : Program) : Listing :=
  program.main ++ program.functions.entries.flatMap (·.2)

theorem make?_eq_some {opcode : Opcode} {arguments : List Int} {instruction : Instruction} :
    Instruction.make? opcode arguments = some instruction ↔
      (⟨opcode, arguments⟩ : RawInstruction) = .of instruction := by
  constructor
  · intro made
    unfold Instruction.make? at made
    split at made <;> cases made <;> rfl
  · intro same
    obtain ⟨rfl, rfl⟩ := RawInstruction.mk.inj same
    cases instruction <;> rfl

/-- The check of the arguments passes for an instruction as it is written, and for nothing else. -/
theorem make_eq_ok {raw : RawInstruction} {instruction : Instruction} :
    Instruction.make raw.opcode raw.arguments = .ok instruction ↔ raw = .of instruction := by
  rw [← make?_eq_some, Instruction.make]
  cases Instruction.make? raw.opcode raw.arguments <;> simp

theorem arity_admits (instruction : Instruction) :
    instruction.opcode.prototype.arity.Admits instruction.arguments.length := by
  cases instruction <;> first | rfl | trivial

theorem checkListing_eq_ok {raws : List RawInstruction} {listing : Listing} :
    checkListing raws = .ok listing ↔ raws = listing.map .of := by
  unfold checkListing
  induction raws generalizing listing with
  | nil =>
    rw [List.mapM_nil]
    constructor
    · intro done
      obtain rfl := Except.ok.inj done
      rfl
    · intro none
      rw [List.map_eq_nil_iff.mp none.symm]
      rfl
  | cons first rest ih =>
    rw [List.mapM_cons]
    simp only [Except.bind_eq_ok, make_eq_ok, ih]
    constructor
    · rintro ⟨instruction, rfl, others, rfl, done⟩
      obtain rfl := Except.ok.inj done
      rfl
    · intro whole
      obtain ⟨instruction, others, rfl, here, there⟩ := List.map_eq_cons_iff.mp whole.symm
      exact ⟨instruction, here.symm, others, there.symm, rfl⟩

theorem checkFunctions_eq_ok {raws : List (Int × List RawInstruction)} {bodies : List (Int × Listing)} :
    checkFunctions raws = .ok bodies ↔ raws = bodies.map fun (id, body) => (id, body.map .of) := by
  induction raws generalizing bodies with
  | nil =>
    constructor
    · intro done
      obtain rfl := Except.ok.inj done
      rfl
    · intro none
      rw [List.map_eq_nil_iff.mp none.symm]
      rfl
  | cons first rest ih =>
    obtain ⟨id, body⟩ := first
    simp only [checkFunctions, Except.bind_eq_ok, checkListing_eq_ok, ih]
    constructor
    · rintro ⟨listing, rfl, others, rfl, done⟩
      obtain rfl := Except.ok.inj done
      rfl
    · intro whole
      obtain ⟨⟨number, listing⟩, others, rfl, here, there⟩ := List.map_eq_cons_iff.mp whole.symm
      obtain ⟨rfl, rfl⟩ := Prod.mk.inj here
      exact ⟨listing, rfl, others, there.symm, rfl⟩

theorem raw_entries (program : Program) : program.raw.functions.entries =
    program.functions.entries.map fun (id, body) => (id, body.map .of) :=
  FunctionTable.entries_ofList (List.pairwise_map.mpr program.functions.ascending)

/-- The check passes for a program as it is written, and for nothing else. -/
theorem checkRaw_eq_ok {read : RawProgram} {program : Program} :
    checkRaw read = .ok program ↔ read = program.raw := by
  simp only [checkRaw, Except.bind_eq_ok, checkListing_eq_ok, checkFunctions_eq_ok]
  constructor
  · rintro ⟨main, written, bodies, entries, done⟩
    obtain rfl := Except.ok.inj done
    obtain ⟨_, table, label⟩ := read
    obtain rfl := written
    -- The numbers of the functions are those of the table read, so they are in order already.
    have ascending : bodies.Pairwise fun a b => a.1 < b.1 := by
      have inOrder := table.ascending
      rw [show table.entries = _ from entries] at inOrder
      simpa only [List.pairwise_map] using inOrder
    rw [raw, FunctionTable.entries_ofList ascending, ← entries, FunctionTable.ofList_entries]
  · rintro rfl
    refine ⟨program.main, rfl, program.functions.entries, raw_entries program, ?_⟩
    rw [FunctionTable.ofList_entries]
    rfl

/-! ## Writing and reading -/

theorem readOpcode_takes (opcode : Opcode) : Takes readOpcode (Varint.write opcode.number) opcode := by
  have found : Opcode.all[opcode.number]? = some opcode := by cases opcode <;> rfl
  have small : opcode.number < 2 ^ 32 := by cases opcode <;> decide
  refine (Varint.readWord_takes small).bind_last ?_
  rw [found]
  exact takes_pure

theorem readInstruction_takes {instruction : Instruction}
    (fits : (RawInstruction.of instruction).Fits) :
    Takes readInstruction (writeInstruction instruction) (.of instruction) := by
  have arguments : Takes (readList Varint.readInteger)
      (writeList Varint.writeInteger instruction.arguments) (instruction.arguments.map id) :=
    readList_takes fits.short fun argument member =>
      Varint.readInteger_takes (fits.each argument member)
  rw [List.map_id] at arguments
  exact (readOpcode_takes _).bind (arguments.bind_last takes_pure)

theorem readListing_takes {listing : Listing} (fits : FitsList RawInstruction.Fits (listing.map .of)) :
    Takes readListing (writeListing listing) (listing.map .of) := by
  refine readList_takes (by simpa using fits.short) fun instruction member => ?_
  exact readInstruction_takes (fits.each _ (List.mem_map_of_mem member))

theorem readRaw_takes {program : Program} (fits : program.raw.Fits) :
    Takes readRaw program.toBytes program.raw := by
  obtain ⟨main, functions, label⟩ := fits
  rw [raw_entries] at functions
  have bodies : Takes (readList readFunction)
      (writeList (fun (id, body) => Varint.writeInteger id ++ writeListing body)
        program.functions.entries)
      (program.functions.entries.map fun (id, body) => (id, body.map .of)) := by
    refine readList_takes (by simpa using functions.short) fun entry member => ?_
    obtain ⟨number, body⟩ := functions.each _ (List.mem_map_of_mem member)
    exact (Varint.readInteger_takes number).bind ((readListing_takes body).bind_last takes_pure)
  rw [toBytes, List.append_assoc]
  exact (readListing_takes main).bind (bodies.bind ((Varint.readInteger_takes label).bind_last takes_pure))

theorem readInstruction_gives : Gives readInstruction RawInstruction.Fits := by
  have opcode : Gives readOpcode fun _ => True := fun _ _ _ _ => trivial
  refine opcode.bind fun _ _ => ?_
  exact (readList_gives Varint.readInteger_gives).bind fun _ fits => gives_pure fits

theorem readListing_gives : Gives readListing (FitsList RawInstruction.Fits) :=
  readList_gives readInstruction_gives

/-- What is read has places in the bytes. -/
theorem readRaw_gives : Gives readRaw RawProgram.Fits := by
  have function : Gives readFunction fun entry => fitsArgument entry.1 = true ∧
      FitsList RawInstruction.Fits entry.2 :=
    Varint.readInteger_gives.bind fun _ number => readListing_gives.bind fun _ body =>
      gives_pure ⟨number, body⟩
  refine readListing_gives.bind fun main inMain => ?_
  refine (readList_gives function).bind fun functions inFunctions => ?_
  refine Varint.readInteger_gives.bind fun label inLabel => gives_pure ?_
  exact ⟨inMain, FunctionTable.ofList_fits inFunctions, inLabel⟩

theorem ofBytes_eq_ok {bytes : List UInt8} {program : Program} :
    ofBytes bytes = .ok program ↔ ∃ rest, readRaw bytes = .ok (program.raw, rest) := by
  unfold ofBytes
  cases readRaw bytes with
  | error error => simp
  | ok result =>
    obtain ⟨read, rest⟩ := result
    simp [Except.mapError_eq_ok, checkRaw_eq_ok]

/-- A program is read back from its bytes, whatever follows them, and from no part of them. What is read
from any bytes keeps the numbers of arguments, and is read back from its own bytes. -/
theorem ofBytes_toBytes :
    (∀ program : Program, program.raw.Fits →
      (∀ rest, ofBytes (program.toBytes ++ rest) = .ok program) ∧
      ∀ front back, front ++ back = program.toBytes → back ≠ [] →
        ∃ error, ofBytes front = .error error) ∧
    ∀ bytes program, ofBytes bytes = .ok program →
      (∀ instruction ∈ program.instructions,
        instruction.opcode.prototype.arity.Admits instruction.arguments.length) ∧
      ofBytes program.toBytes = .ok program := by
  constructor
  · intro program fits
    have takes := readRaw_takes fits
    constructor
    · exact fun rest => ofBytes_eq_ok.mpr ⟨rest, takes.whole rest⟩
    · intro front back same proper
      obtain ⟨error, failed⟩ := takes.cut front back same proper
      exact ⟨.malformed error, by rw [ofBytes, failed]⟩
  · intro bytes program read
    obtain ⟨rest, found⟩ := ofBytes_eq_ok.mp read
    have takes := readRaw_takes (readRaw_gives _ _ _ found)
    refine ⟨fun instruction _ => arity_admits instruction, ofBytes_eq_ok.mpr ⟨[], ?_⟩⟩
    rw [← List.append_nil program.toBytes]
    exact takes.whole []

/-- A program with the least and the greatest argument, and with a function that has no body. -/
def extremeProgram : Program :=
  ⟨[.pushInt (-2147483648), .fsmIf 2147483647 (-1), .invoke 3],
    .ofList [(3, [.readLocal [0, 0], .leave]), (-7, [])], 2147483647⟩

/-- A program in another spelling: two numbers are longer than they need to be, and the functions are
not in order. -/
def looseBytes : List UInt8 := [129, 0, 5, 1, 2, 2, 6, 0, 5, 0, 128, 0]

theorem ofBytes_toBytes_extremeProgram :
    extremeProgram.raw.Fits ∧ ofBytes (extremeProgram.toBytes ++ [255]) = .ok extremeProgram ∧
      (∃ error, ofBytes extremeProgram.toBytes.dropLast = .error error) ∧
      ∃ program, ofBytes looseBytes = .ok program ∧ ofBytes program.toBytes = .ok program := by
  have fits : extremeProgram.raw.Fits := by decide
  obtain ⟨whole, cut⟩ := ofBytes_toBytes.1 extremeProgram fits
  have written : extremeProgram.toBytes ≠ [] := by
    intro nothing
    have read := whole []
    rw [nothing] at read
    cases read
  have readable : (ofBytes looseBytes).toOption =
      some ⟨[.pushInt 1], .ofList [(3, []), (-3, [])], 0⟩ := by decide +kernel
  refine ⟨fits, whole [255], cut _ _ (List.dropLast_concat_getLast written) nofun, ?_⟩
  cases loose : ofBytes looseBytes with
  | error => simp [loose, Except.toOption] at readable
  | ok program => exact ⟨program, rfl, (ofBytes_toBytes.2 _ _ loose).2⟩

end Program

end TapeCode
