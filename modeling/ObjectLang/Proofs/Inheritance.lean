import Mathlib.Data.List.Basic
import ObjectLang.Layout

/-! The layout of fields along inheritance. The ancestors of an ancestor are the end of a class's own
ancestor list, so the fields it inherits are the end of its field hierarchy. Offsets count from that
end: they are indices into the reversed hierarchy, which a derived class can only make longer. One
table of offsets therefore serves a class and all its ancestors. -/

namespace ObjectLang

namespace ClassTable

variable {table : ClassTable}

theorem declared?_name {name : String} {info : ClassInfo} (h : table.declared? name = some info) :
    info.name = name := by
  have hname := List.find?_some h
  simpa using hname

theorem declared?_mem {name : String} {info : ClassInfo} (h : table.declared? name = some info) :
    info ∈ table.classes :=
  List.mem_of_find?_eq_some h

/-- One step up: what a successful walk found at a class, and the walk from its parent. -/
theorem chainFrom_succ_ok {steps : Nat} {passed : List String} {name : String}
    {infos : List ClassInfo} (hname : name ≠ "")
    (h : table.chainFrom (steps + 1) passed name = .ok infos) :
    ∃ info above, infos = info :: above ∧ table.declared? name = some info ∧ name ∉ passed ∧
      table.chainFrom steps (name :: passed) info.parent = .ok above := by
  rw [chainFrom, if_neg hname] at h
  split at h
  · cases h
  · rename_i hpassed
    split at h
    · cases h
    · rename_i info hinfo
      cases habove : table.chainFrom steps (name :: passed) info.parent with
      | error cause =>
          rw [habove] at h
          cases h
      | ok above =>
          rw [habove] at h
          cases h
          exact ⟨info, above, rfl, hinfo, by simpa using hpassed, habove⟩

/-- A walk that succeeds also succeeds with more steps and fewer classes passed before. -/
theorem chainFrom_mono {steps steps' : Nat} {passed passed' : List String} {name : String}
    {infos : List ClassInfo} (hsteps : steps ≤ steps') (hpassed : passed' ⊆ passed)
    (h : table.chainFrom steps passed name = .ok infos) :
    table.chainFrom steps' passed' name = .ok infos := by
  induction steps generalizing steps' passed passed' name infos with
  | zero => cases h
  | succ steps ih =>
      obtain ⟨more, rfl⟩ : ∃ more, steps' = more + 1 := ⟨steps' - 1, by omega⟩
      by_cases hname : name = ""
      · subst hname
        rw [chainFrom, if_pos rfl] at h ⊢
        exact h
      · obtain ⟨info, above, rfl, hinfo, hnot, habove⟩ := chainFrom_succ_ok hname h
        have hnot' : name ∉ passed' := fun hmem => hnot (hpassed hmem)
        have hrest := ih (by omega : steps ≤ more) (List.cons_subset_cons name hpassed) habove
        rw [chainFrom, if_neg hname, if_neg (by simpa using hnot')]
        simp only [hinfo, hrest]
        rfl

theorem chainFrom_of_mem {steps : Nat} {passed : List String} {name : String}
    {infos : List ClassInfo} (h : table.chainFrom steps passed name = .ok infos)
    {info : ClassInfo} (hmem : info ∈ infos) :
    ∃ below above, infos = below ++ info :: above ∧ info.name ≠ "" ∧
      table.declared? info.name = some info ∧
      ∃ fewer ≤ steps, ∃ more, table.chainFrom fewer more info.name = .ok (info :: above) := by
  induction steps generalizing passed name infos with
  | zero => cases h
  | succ steps ih =>
      by_cases hname : name = ""
      · subst hname
        rw [chainFrom, if_pos rfl] at h
        cases h
        cases hmem
      · obtain ⟨first, rest, rfl, hfirst, -, hrest⟩ := chainFrom_succ_ok hname h
        rcases List.mem_cons.mp hmem with heq | hmem
        · subst heq
          have heq := declared?_name hfirst
          subst heq
          exact ⟨[], rest, rfl, hname, hfirst, steps + 1, Nat.le_refl _, passed, h⟩
        · obtain ⟨below, above, rfl, hne, hinfo, fewer, hle, more, hwalk⟩ := ih hrest hmem
          exact ⟨first :: below, above, rfl, hne, hinfo, fewer, by omega, more, hwalk⟩

/-- The ancestors of an ancestor are the end of the ancestors of a class. -/
theorem chain_of_mem {name : String} {infos : List ClassInfo} (h : table.chain name = .ok infos)
    {info : ClassInfo} (hmem : info ∈ infos) :
    ∃ below above, infos = below ++ info :: above ∧ info.name ≠ "" ∧
      table.declared? info.name = some info ∧ table.chain info.name = .ok (info :: above) := by
  obtain ⟨below, above, rfl, hne, hinfo, fewer, hle, more, hwalk⟩ := chainFrom_of_mem h hmem
  exact ⟨below, above, rfl, hne, hinfo, chainFrom_mono hle (List.nil_subset more) hwalk⟩

theorem fieldHierarchy_of_chain {name : String} {infos : List ClassInfo}
    (h : table.chain name = .ok infos) :
    table.fieldHierarchy name = .ok (infos.flatMap (·.fields)) := by
  rw [fieldHierarchy, h]
  rfl

theorem fieldCount_of_chain {name : String} {infos : List ClassInfo}
    (h : table.chain name = .ok infos) :
    table.fieldCount name = .ok (infos.flatMap (·.fields)).length := by
  have hsum : ∀ infos : List ClassInfo, infos.foldr (fun c count => c.fields.length + count) 0 =
      (infos.flatMap (·.fields)).length := by
    intro infos
    induction infos with
    | nil => rfl
    | cons info infos ih => rw [List.foldr_cons, ih, List.flatMap_cons, List.length_append]
  rw [fieldCount, h, ← hsum]
  rfl

end ClassTable

namespace Layout

/-! ### Offsets as indices -/

theorem lastIndex?_eq_some {names : List String} {name : String} {index : Nat}
    (h : lastIndex? names name = some index) :
    ∃ i, names.reverse.idxOf? name = some i ∧ i < names.length ∧ index = names.length - 1 - i := by
  obtain ⟨i, hi, rfl⟩ := Option.map_eq_some_iff.mp h
  have hlt := (List.idxOf?_eq_some_iff.mp hi).1
  rw [List.length_reverse] at hlt
  exact ⟨i, hi, hlt, rfl⟩

/-- The offset of a field is its index in the reversed hierarchy, for one field as for many. -/
theorem fieldOffset?_eq (hierarchy : List String) (name : String) :
    fieldOffset? hierarchy name = (hierarchy.reverse.idxOf? name).map fun i : Nat => (i : Int) := by
  cases hi : hierarchy.reverse.idxOf? name with
  | none => simp [fieldOffset?, lastIndex?, hi]
  | some i =>
      have hlt := (List.idxOf?_eq_some_iff.mp hi).1
      rw [List.length_reverse] at hlt
      simp only [fieldOffset?, lastIndex?, hi, Option.map_some, Option.bind_eq_bind, Option.bind_some,
        Option.pure_def, Option.some.injEq]
      split <;> omega

theorem fieldOffset?_some {hierarchy : List String} {name : String} {offset : Int}
    (h : fieldOffset? hierarchy name = some offset) :
    0 ≤ offset ∧ offset < hierarchy.length := by
  rw [fieldOffset?_eq] at h
  obtain ⟨i, hi, rfl⟩ := Option.map_eq_some_iff.mp h
  have hlt := (List.idxOf?_eq_some_iff.mp hi).1
  rw [List.length_reverse] at hlt
  omega

theorem fieldOffset?_of_mem {hierarchy : List String} {name : String} (hmem : name ∈ hierarchy) :
    fieldOffset? hierarchy name = some (hierarchy.reverse.idxOf name : Int) := by
  obtain ⟨i, hi⟩ := Option.isSome_iff_exists.mp
    (List.isSome_idxOf?.mpr (List.mem_reverse.mpr hmem))
  rw [fieldOffset?_eq, hi, List.idxOf_eq_getD_idxOf?, hi]
  rfl

/-- A name that is neither a parameter nor a local means a field. -/
theorem resolve_of_field {scope : Scope} {locals hierarchy : List String} {name : String}
    {offset : Int} (hparams : name ∉ scope.params) (hlocals : name ∉ locals)
    (hfields : scope.fields = .ok hierarchy) (hoffset : fieldOffset? hierarchy name = some offset) :
    resolve scope locals name = .ok (.field offset) := by
  have hlast : lastIndex? locals name = none := by
    rw [lastIndex?, List.idxOf?_eq_none_iff.mpr (by simpa using hlocals)]
    rfl
  rw [resolve, List.idxOf?_eq_none_iff.mpr hparams, hlast, hfields]
  simp only [hoffset]

/-- The routines of a class address a field at an offset: there the name, where no parameter and no
local has it, means that slot of the object they run on. -/
def Addresses (table : ClassTable) (className name : String) (offset : Int) : Prop :=
  ∀ (r : Routine) (locals : List String), name ∉ r.params.map (·.name) → name ∉ locals →
    resolve (routineScope table className r) locals name = .ok (.field offset)

theorem addresses_of_mem {table : ClassTable} {className name : String} {hierarchy : List String}
    (h : table.fieldHierarchy className = .ok hierarchy) (hmem : name ∈ hierarchy) :
    Addresses table className name (hierarchy.reverse.idxOf name) := by
  intro r locals hparams hlocals
  exact resolve_of_field hparams hlocals h (fieldOffset?_of_mem hmem)

/-- **Field layout is coherent along inheritance.** One table of offsets serves a class and all its
ancestors: each addresses the fields it has at the offsets of the table, which tell the fields of
the class apart and lie within its objects. -/
theorem field_layout_coherent {table : ClassTable} {derived : String} {infos : List ClassInfo}
    (h : table.chain derived = .ok infos) :
    ∃ fields : List String, table.fieldHierarchy derived = .ok fields ∧
      table.fieldCount derived = .ok fields.length ∧
      ∃ offset : String → Int,
        (∀ f ∈ fields, Addresses table derived f (offset f) ∧ 0 ≤ offset f ∧
          offset f < fields.length) ∧
        (∀ f ∈ fields, ∀ g ∈ fields, offset f = offset g → f = g) ∧
        ∀ info ∈ infos, ∃ inherited : List String,
          table.fieldHierarchy info.name = .ok inherited ∧
          ∀ f ∈ inherited, f ∈ fields ∧ Addresses table info.name f (offset f) := by
  have hfields := ClassTable.fieldHierarchy_of_chain h
  refine ⟨infos.flatMap (·.fields), hfields, ClassTable.fieldCount_of_chain h,
    fun f => ((infos.flatMap (·.fields)).reverse.idxOf f : Int), ?_, ?_, ?_⟩
  · intro f hf
    exact ⟨addresses_of_mem hfields hf, fieldOffset?_some (fieldOffset?_of_mem hf)⟩
  · intro f hf g _ heq
    exact (List.idxOf_inj (List.mem_reverse.mpr hf)).mp (Int.ofNat.inj heq)
  · intro info hmem
    obtain ⟨below, above, rfl, -, -, habove⟩ := ClassTable.chain_of_mem h hmem
    have hinherited := ClassTable.fieldHierarchy_of_chain habove
    refine ⟨_, hinherited, ?_⟩
    intro f hf
    have hindex : ((below ++ info :: above).flatMap (·.fields)).reverse.idxOf f =
        ((info :: above).flatMap (·.fields)).reverse.idxOf f := by
      rw [List.flatMap_append, List.reverse_append]
      exact List.idxOf_append_of_mem (List.mem_reverse.mpr hf)
    have haddress := addresses_of_mem hinherited hf
    rw [← hindex] at haddress
    refine ⟨?_, haddress⟩
    rw [List.flatMap_append]
    exact List.mem_append_right _ hf

/-- Three classes in line: the base declares a field twice, the middle one declares none and the
derived one declares the name again. -/
def shadowedFields : ClassTable where
  top := []
  classes := [⟨"Derived", "Middle", .unknown, ["tag", "size"], []⟩, ⟨"Middle", "Base", .unknown, [], []⟩,
    ⟨"Base", "", .unknown, ["size", "tag", "size"], []⟩]

theorem field_layout_coherent_shadowed :
    shadowedFields.chain "Derived" = .ok shadowedFields.classes ∧
      ∃ fields : List String, shadowedFields.fieldHierarchy "Derived" = .ok fields ∧
        shadowedFields.fieldCount "Derived" = .ok fields.length ∧
        ∃ offset : String → Int,
          (∀ f ∈ fields, Addresses shadowedFields "Derived" f (offset f) ∧ 0 ≤ offset f ∧
            offset f < fields.length) ∧
          (∀ f ∈ fields, ∀ g ∈ fields, offset f = offset g → f = g) ∧
          ∀ info ∈ shadowedFields.classes, ∃ inherited : List String,
            shadowedFields.fieldHierarchy info.name = .ok inherited ∧
            ∀ f ∈ inherited, f ∈ fields ∧ Addresses shadowedFields info.name f (offset f) :=
  have h : shadowedFields.chain "Derived" = .ok shadowedFields.classes := by rfl
  ⟨h, field_layout_coherent h⟩

end Layout

end ObjectLang
