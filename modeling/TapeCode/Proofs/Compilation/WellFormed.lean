import TapeCode.Proofs.Compilation.Labels

/-!
# Compiled programs are well-formed

Every function of a sound program gets a body in the table, under its label. All labels of a program
are different: those of functions were handed out by resolution, and the others later, one after
another.
-/
namespace TapeCode

namespace FunctionTable

variable {α : Type}

theorem insert_perm {table : FunctionTable α} {id : Int} {body : α}
    (new : id ∉ table.entries.map (·.1)) :
    (table.insert id body).entries.Perm ((id, body) :: table.entries) := by
  show (insertFunction id body table.entries).Perm _
  generalize table.entries = entries at new
  induction entries with
  | nil => exact .refl _
  | cons entry rest ih =>
    obtain ⟨other, otherBody⟩ := entry
    obtain ⟨different, new⟩ : id ≠ other ∧ id ∉ rest.map (·.1) := by simpa using new
    simp only [insertFunction]
    split
    · exact .refl _
    · exact ((ih new).cons _).trans (.swap _ _ _)

theorem get?_of_mem {table : FunctionTable α} {id : Int} {body : α}
    (member : (id, body) ∈ table.entries) : table.get? id = some body := by
  obtain ⟨before, after, split⟩ := List.append_of_mem member
  have ascending := table.ascending
  rw [split] at ascending
  refine List.lookup_eq_some_iff.mpr ⟨before, after, split, fun entry early => ?_⟩
  have below := (List.pairwise_append.mp ascending).2.2 entry early (id, body) List.mem_cons_self
  simpa using (Int.ne_of_lt below).symm

theorem nodup_keys (table : FunctionTable α) : (table.entries.map (·.1)).Nodup :=
  List.pairwise_map.mpr (table.ascending.imp fun below => Int.ne_of_lt below)

end FunctionTable

theorem ScopeTree.IsSound.user_of_label {tree : ScopeTree} (sound : tree.IsSound) {id : FunctionId}
    {function : Function} {label : Nat} (found : tree.functions[id]? = some function)
    (has : function.label? = some label) : Function.builtins.length ≤ id := by
  obtain ⟨users, functions, -⟩ := sound.functions
  by_contra below
  rw [functions, List.getElem?_append_left (Nat.lt_of_not_le below)] at found
  have computed := Compile.builtins_computed function (List.mem_of_getElem? found)
  unfold Function.label? at has
  split at has
  next => cases has
  next body => simp [body, Compile.isComputed] at computed

namespace Compile

variable {tree : ScopeTree} {code : Listing}

/-- The label of a function in the scope tree. -/
def labelOf? (tree : ScopeTree) (id : FunctionId) : Option Nat :=
  (tree.functions[id]?).bind (·.label?)

theorem labelOf?_injective (sound : tree.IsSound) {first second : FunctionId} {label : Nat}
    (one : labelOf? tree first = some label) (other : labelOf? tree second = some label) :
    first = second := by
  obtain ⟨firstFunction, firstFound, firstLabel⟩ := Option.bind_eq_some_iff.mp one
  obtain ⟨secondFunction, secondFound, secondLabel⟩ := Option.bind_eq_some_iff.mp other
  exact sound.labelled.unique firstFound secondFound firstLabel secondLabel

theorem labelOf?_lt (sound : tree.IsSound) {id : FunctionId} {label : Nat}
    (has : labelOf? tree id = some label) : label < tree.nextLabel := by
  obtain ⟨function, found, named⟩ := Option.bind_eq_some_iff.mp has
  exact sound.fresh label (List.mem_filterMap.mpr ⟨function, List.mem_of_getElem? found, named⟩)

theorem storeParameters_body (sound : tree.IsSound) {ids : List VariableId}
    (made : storeParameters tree ids = .ok code) : code.all (·.isBody) = true := by
  induction ids generalizing code with
  | nil =>
    obtain rfl := Except.ok.inj made
    rfl
  | cons first rest ih =>
    simp only [storeParameters, Except.bind_eq_ok] at made
    obtain ⟨layout, found, others, madeOthers, made⟩ := made
    obtain rfl := Except.ok.inj made
    obtain ⟨slot, -, -, -, cells⟩ := numberLayout_eq_ok sound found
    simpa [Instruction.isBody, cells] using ih madeOthers

theorem ending_tidy {type : ValueType} {number : Nat} (made : ending type = .ok code) :
    Tidy tree number number code := by
  unfold ending at made
  split at made
  case h_1 =>
    obtain rfl := Except.ok.inj made
    exact @Tidy.of_leave tree number [] (by simp)
  case h_2 =>
    obtain rfl := Except.ok.inj made
    exact @Tidy.of_leave tree number [.pushInt 0, .swapInt] (by simp [IsPlain, Instruction.isBody])
  case h_3 => cases made

theorem function_tidy (sound : tree.IsSound) {source : TypedFunction} {first last : Nat}
    (made : function tree source first = .ok (code, last)) : Tidy tree first last code := by
  simp only [function, stateExcept_bind, stateExcept_lift, stateExcept_pure] at made
  obtain ⟨address, _, ⟨found, rfl⟩, parameters, _, ⟨stored, rfl⟩, body, _, madeBody, finish, _,
    ⟨ended, rfl⟩, rfl, rfl⟩ := made
  have cells : IsPlain tree (.writeLocal address) ∧ IsPlain tree (.readLocal address) :=
    ⟨.inl (addressLayout sound found).2, .inl (addressLayout sound found).2⟩
  refine .append (.append (.of_plain ?_) (statement_tidy sound madeBody)) (ending_tidy ended)
  simp only [List.forall_mem_append, List.forall_mem_cons]
  exact ⟨⟨cells.1, fun instruction member =>
    .inl (List.all_eq_true.mp (storeParameters_body sound stored) instruction member)⟩, cells.2,
    by simp⟩

/-- An entry of the table is a function's label with its code. -/
def IsEntry (tree : ScopeTree) (source : TypedFunction) (entry : Int × Listing) : Prop :=
  (∃ label : Nat, labelOf? tree source.function = some label ∧ entry.1 = label) ∧
    ∃ first last, function tree source first = .ok (entry.2, last)

theorem functions_eq_ok (sound : tree.IsSound) {sources : List TypedFunction}
    {table result : FunctionTable Listing} {first last : Nat}
    (made : functions tree table sources first = .ok (result, last))
    (distinct : (sources.map (·.function)).Nodup)
    (apart : ∀ source ∈ sources, ∀ label : Nat, labelOf? tree source.function = some label →
      (label : Int) ∉ table.entries.map (·.1)) :
    ∃ added : List (Int × Listing), result.entries.Perm (table.entries ++ added) ∧
      (∀ source ∈ sources, ∃ entry ∈ added, IsEntry tree source entry) ∧
      (∀ entry ∈ added, ∃ source ∈ sources, IsEntry tree source entry) ∧ first ≤ last ∧
      (added.flatMap fun entry => Listing.labels entry.2).Perm
        ((List.range' first (last - first)).map Int.ofNat) := by
  induction sources generalizing table first with
  | nil =>
    simp only [functions, stateExcept_pure] at made
    obtain ⟨rfl, rfl⟩ := made
    exact ⟨[], by simp, by simp, by simp, Nat.le_refl _, by simp⟩
  | cons source rest ih =>
    cases has : labelOf? tree source.function with
    | none =>
      rw [labelOf?] at has
      simp only [functions, has] at made
      exact absurd made stateExcept_throw
    | some label =>
      rw [labelOf?] at has
      simp only [functions, has, stateExcept_bind] at made
      obtain ⟨body, middle, madeBody, made⟩ := made
      obtain ⟨new, others⟩ := List.nodup_cons.mp distinct
      have tidy := function_tidy sound madeBody
      have inserted := @FunctionTable.insert_perm _ table label body
        (apart source List.mem_cons_self label has)
      -- The labels of the functions still to come are not among the keys, now that this one is.
      have later : ∀ other ∈ rest, ∀ number : Nat, labelOf? tree other.function = some number →
          (number : Int) ∉ (table.insert label body).entries.map (·.1) := by
        intro other member number named
        rw [(inserted.map _).mem_iff, List.map_cons, List.mem_cons, not_or]
        refine ⟨fun same => new ?_, apart other (List.mem_cons_of_mem _ member) number named⟩
        obtain rfl : number = label := Int.ofNat.inj same
        exact List.mem_map.mpr ⟨other, member, (labelOf?_injective sound has named).symm⟩
      obtain ⟨added, entries, all, only, grows, labels⟩ := ih made others later
      have entry : IsEntry tree source (label, body) := ⟨⟨label, has, rfl⟩, first, middle, madeBody⟩
      refine ⟨(label, body) :: added, ?_, ?_, ?_, Nat.le_trans tidy.grows grows, ?_⟩
      · exact (entries.trans (inserted.append_right _)).trans List.perm_middle.symm
      · refine List.forall_mem_cons.mpr ⟨⟨_, List.mem_cons_self, entry⟩, fun other member => ?_⟩
        obtain ⟨there, among, made⟩ := all other member
        exact ⟨there, List.mem_cons_of_mem _ among, made⟩
      · refine List.forall_mem_cons.mpr ⟨⟨_, List.mem_cons_self, entry⟩, fun other member => ?_⟩
        obtain ⟨there, among, made⟩ := only other member
        exact ⟨there, List.mem_cons_of_mem _ among, made⟩
      · rw [List.flatMap_cons, range_append tidy.grows grows, List.map_append]
        exact tidy.labels.append labels

end Compile

namespace TypedProgram

variable {source : TypedProgram} {tree : ScopeTree} {program : Program}

/-- A program is made of the code of its main block and of the code of its functions, each under its
label, and all its own labels come after those of the scope tree. -/
structure IsCompiled (source : TypedProgram) (tree : ScopeTree) (program : Program) : Prop where
  main : ∃ last, Compile.blockStatements tree source.main tree.nextLabel = .ok (program.main, last)
  all : ∀ function ∈ source.functions, ∃ entry ∈ program.functions.entries,
    Compile.IsEntry tree function entry
  only : ∀ entry ∈ program.functions.entries, ∃ function ∈ source.functions,
    Compile.IsEntry tree function entry
  next : ∃ next : Nat, program.nextLabel = next ∧ tree.nextLabel ≤ next ∧
    (Listing.labels program.main ++
      program.functions.entries.flatMap fun entry => Listing.labels entry.2).Perm
        ((List.range' tree.nextLabel (next - tree.nextLabel)).map Int.ofNat)

theorem compile_eq_ok (sound : source.IsSound tree) (made : source.compile tree = .ok program) :
    source.IsCompiled tree program := by
  simp only [compile, StateT.run, Except.bind_eq_ok, Prod.exists, stateExcept_bind,
    stateExcept_pure] at made
  obtain ⟨_, _, last, ⟨main, middle, madeMain, table, _, madeTable, pair, rfl⟩, made⟩ := made
  obtain ⟨rfl, rfl⟩ := Prod.mk.inj pair
  obtain rfl := Except.ok.inj made
  have tidy := Compile.blockStatements_tidy sound.scopes madeMain
  obtain ⟨added, entries, all, only, grows, labels⟩ :=
    Compile.functions_eq_ok sound.scopes madeTable sound.unique (by simp [FunctionTable.empty])
  replace entries : table.entries.Perm added := by simpa [FunctionTable.empty] using entries
  refine ⟨⟨middle, madeMain⟩, fun function member => ?_, fun entry member =>
    only entry (entries.mem_iff.mp member), ?_⟩
  · obtain ⟨entry, among, made⟩ := all function member
    exact ⟨entry, entries.mem_iff.mpr among, made⟩
  · refine ⟨_, rfl, Nat.le_trans tidy.grows grows, ?_⟩
    rw [Compile.range_append tidy.grows grows, List.map_append]
    exact tidy.labels.append ((entries.flatMap_right _).trans labels)

namespace IsCompiled

/-- The body of a function stands in the table under the label that calls of it name. -/
theorem body (compiled : source.IsCompiled tree program) {function : TypedFunction}
    (member : function ∈ source.functions) : ∃ (label : Nat) (body : Listing),
      Compile.labelOf? tree function.function = some label ∧
      program.functions.get? label = some body ∧
      ∃ first last, Compile.function tree function first = .ok (body, last) := by
  obtain ⟨⟨id, body⟩, among, ⟨label, has, rfl⟩, made⟩ := compiled.all function member
  exact ⟨label, body, has, FunctionTable.get?_of_mem among, made⟩

theorem tidy (sound : source.IsSound tree) (compiled : source.IsCompiled tree program)
    {body : Listing} (member : body ∈ program.bodies) :
    ∃ first last, Compile.Tidy tree first last body := by
  rcases List.mem_cons.mp member with rfl | member
  · obtain ⟨last, made⟩ := compiled.main
    exact ⟨_, _, Compile.blockStatements_tidy sound.scopes made⟩
  · obtain ⟨⟨id, body⟩, entry, rfl⟩ := List.mem_map.mp member
    obtain ⟨function, -, -, first, last, made⟩ := compiled.only _ entry
    exact ⟨first, last, Compile.function_tidy sound.scopes made⟩

theorem wellFormed (sound : source.IsSound tree) (compiled : source.IsCompiled tree program) :
    program.WellFormed where
  intermediate := by
    intro body member instruction inside
    obtain ⟨first, last, tidy⟩ := compiled.tidy sound member
    exact Compile.intermediate_of_allowed (tidy.allowed instruction inside)
  distinct := by
    obtain ⟨next, nextLabel, grows, labels⟩ := compiled.next
    rw [Program.allLabels, nextLabel]
    -- The functions' labels come first, then all others in the order in which they were handed out.
    have order : (Listing.labels program.main ++
        program.functions.entries.flatMap (fun entry => entry.1 :: Listing.labels entry.2) ++
          [(next : Int)]).Perm (program.functions.entries.map (·.1) ++
            (List.range' tree.nextLabel (next + 1 - tree.nextLabel)).map Int.ofNat) := by
      rw [Compile.range_append grows (Nat.le_succ next), List.map_append, ← List.append_assoc]
      refine .append ?_ (by simp)
      refine (((List.map_append_flatMap_perm _ _ _).symm.append_left _).trans ?_).trans
        (labels.append_left _)
      exact (List.perm_append_comm_assoc _ _ _)
    refine order.nodup_iff.mpr (List.nodup_append'.mpr ⟨program.functions.nodup_keys, ?_, ?_⟩)
    · exact (List.nodup_range' ..).map fun _ _ same => Int.ofNat.inj same
    · intro label key other
      obtain ⟨entry, member, rfl⟩ := List.mem_map.mp key
      obtain ⟨function, -, ⟨number, has, same⟩, -⟩ := compiled.only entry member
      obtain ⟨later, inRange, equal⟩ := List.mem_map.mp other
      have below := Compile.labelOf?_lt sound.scopes has
      have above := (List.mem_range'_1.mp inRange).1
      rw [same] at equal
      have := Int.ofNat.inj equal
      omega
  jumps := by
    intro body member instruction inside label leads
    obtain ⟨first, last, tidy⟩ := compiled.tidy sound member
    exact Listing.mem_labels.mp
      ((tidy.targets label).mp (List.mem_filterMap.mpr ⟨instruction, inside, leads⟩))
  calls := by
    intro body member instruction inside id called
    obtain ⟨first, last, tidy⟩ := compiled.tidy sound member
    cases instruction <;> simp only [Instruction.invoked?, Option.mem_def, Option.some.injEq,
      reduceCtorEq] at called
    subst called
    obtain ⟨function, among, label, has, rfl⟩ := Compile.invoked_of_allowed (tidy.allowed _ inside)
    obtain ⟨index, found⟩ := List.mem_iff_getElem?.mp among
    -- Built-in functions have no label, so the function is one of the program.
    have user := sound.scopes.user_of_label found has
    obtain ⟨source, member, same⟩ := List.mem_map.mp
      (sound.complete index user (List.getElem?_eq_some_iff.mp found).1)
    obtain ⟨label, body, named, there, -⟩ := compiled.body member
    rw [same, Compile.labelOf?, found, Option.bind_some, has] at named
    obtain rfl := Option.some.inj named
    simp [there]

end IsCompiled

end TypedProgram

end TapeCode
