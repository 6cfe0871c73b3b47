import Mathlib.Data.List.Perm.Subperm
import Mathlib.Logic.Relation
import ObjectLang.Proofs.Declarations

/-! What the diagnostics of a program say. A walk from a class to its ancestors ends at a class without
parent, at a parent that nobody declares, or at a class that it has passed, which then is its own
ancestor; the number of steps that it may take never matters. So a program has no diagnostics exactly
if it declares every name once, declares every parent and lets no class be its own ancestor, and then
no question about a declared class is answered by an error. -/

namespace ObjectLang

namespace ClassTable

variable {table : ClassTable}

/-- A class extends another one. The empty name stands for no parent. -/
def Extends (table : ClassTable) (name parent : String) : Prop :=
  ∃ info, table.declared? name = some info ∧ info.parent = parent ∧ parent ≠ ""

theorem chainFrom_empty_ok {steps : Nat} {passed : List String} {infos : List ClassInfo}
    (h : table.chainFrom steps passed "" = .ok infos) : infos = [] := by
  cases steps with
  | zero => cases h
  | succ steps =>
      rw [chainFrom, if_pos rfl] at h
      cases h
      rfl

/-- The classes that a walk lists are those that its start leads to. -/
theorem mem_chainFrom_iff {steps : Nat} {passed : List String} {name : String}
    {infos : List ClassInfo} (hname : name ≠ "")
    (h : table.chainFrom steps passed name = .ok infos) {info : ClassInfo} :
    info ∈ infos ↔ table.declared? info.name = some info ∧
      Relation.ReflTransGen table.Extends name info.name := by
  induction steps generalizing passed name infos with
  | zero => cases h
  | succ steps ih =>
      obtain ⟨first, above, rfl, hfirst, -, habove⟩ := chainFrom_succ_ok hname h
      constructor
      · intro hmem
        rcases List.mem_cons.mp hmem with rfl | hmem
        · rw [declared?_name hfirst]
          exact ⟨hfirst, .refl⟩
        · by_cases hparent : first.parent = ""
          · rw [hparent] at habove
            rw [chainFrom_empty_ok habove] at hmem
            cases hmem
          · obtain ⟨hinfo, hreach⟩ := (ih hparent habove).mp hmem
            exact ⟨hinfo, .head ⟨first, hfirst, rfl, hparent⟩ hreach⟩
      · rintro ⟨hinfo, hreach⟩
        rcases hreach.cases_head with heq | ⟨parent, ⟨first', hfirst', rfl, hparent⟩, hreach⟩
        · rw [← heq, hfirst] at hinfo
          cases hinfo
          exact List.mem_cons_self
        · rw [hfirst] at hfirst'
          cases hfirst'
          exact List.mem_cons_of_mem _ ((ih hparent habove).mpr ⟨hinfo, hreach⟩)

theorem chain_of_extends {name parent : String} {infos : List ClassInfo} (hname : name ≠ "")
    (h : table.chain name = .ok infos) (hextends : table.Extends name parent) :
    ∃ above, table.chain parent = .ok above ∧ above.length < infos.length := by
  obtain ⟨first, above, rfl, hfirst, -, habove⟩ := chainFrom_succ_ok hname h
  obtain ⟨first', hfirst', rfl, -⟩ := hextends
  rw [hfirst] at hfirst'
  cases hfirst'
  exact ⟨above, chainFrom_mono (Nat.le_succ _) (List.nil_subset _) habove, Nat.lt_succ_self _⟩

theorem chain_of_transGen {name ancestor : String} {infos : List ClassInfo} (hname : name ≠ "")
    (h : table.chain name = .ok infos) (hreach : Relation.TransGen table.Extends name ancestor) :
    ancestor ≠ "" ∧ ∃ above, table.chain ancestor = .ok above ∧ above.length < infos.length := by
  induction hreach with
  | single hextends => exact ⟨hextends.choose_spec.2.2, chain_of_extends hname h hextends⟩
  | tail _ hextends ih =>
      obtain ⟨hne, between, hbetween, hlt⟩ := ih
      obtain ⟨above, habove, hlt'⟩ := chain_of_extends hne hbetween hextends
      exact ⟨hextends.choose_spec.2.2, above, habove, Nat.lt_trans hlt' hlt⟩

/-- A class whose ancestors can be listed is none of them: they have fewer ancestors. -/
theorem not_transGen_of_chain {name : String} {infos : List ClassInfo} (hname : name ≠ "")
    (h : table.chain name = .ok infos) : ¬ Relation.TransGen table.Extends name name := by
  intro hcycle
  obtain ⟨-, above, habove, hlt⟩ := chain_of_transGen hname h hcycle
  rw [h] at habove
  cases habove
  exact Nat.lt_irrefl _ hlt

section Passed

variable {passed : List String} (hdistinct : passed.Nodup)
  (hdeclared : passed ⊆ table.classes.map (·.name))
include hdistinct hdeclared

/-- A walk that has steps left for all classes that it has not passed yet has a step left. -/
theorem exists_step {steps : Nat} (hsteps : table.classes.length < passed.length + steps) :
    ∃ fewer, steps = fewer + 1 := by
  have hlength := (List.Nodup.subperm hdistinct hdeclared).length_le
  rw [List.length_map] at hlength
  exact ⟨steps - 1, by omega⟩

/-- A walk that fails has come to a class that nobody declares, or to one that it had passed. -/
theorem chainFrom_error {steps : Nat} (hsteps : table.classes.length < passed.length + steps)
    {name : String} {cause : ChainError} (h : table.chainFrom steps passed name = .error cause) :
    ∃ stop, Relation.ReflTransGen table.Extends name stop ∧
      ((cause = .unknown stop ∧ stop ≠ "" ∧ table.declared? stop = none) ∨
        (cause = .cycle stop ∧ (stop ∈ passed ∨ Relation.TransGen table.Extends stop stop))) := by
  induction steps generalizing passed name with
  | zero =>
      obtain ⟨_, heq⟩ := exists_step hdistinct hdeclared hsteps
      cases heq
  | succ steps ih =>
      rw [chainFrom] at h
      split at h
      · cases h
      · next hname =>
        split at h
        · next hpassed =>
            cases h
            exact ⟨name, .refl, .inr ⟨rfl, .inl (by simpa using hpassed)⟩⟩
        · next hnew =>
            split at h
            · next hnone =>
                cases h
                exact ⟨name, .refl, .inl ⟨rfl, hname, hnone⟩⟩
            · next info hinfo =>
                cases habove : table.chainFrom steps (name :: passed) info.parent with
                | ok above =>
                    rw [habove] at h
                    cases h
                | error cause' =>
                    rw [habove] at h
                    cases h
                    have hmem : name ∈ table.classes.map (·.name) :=
                      List.mem_map.mpr ⟨info, declared?_mem hinfo, declared?_name hinfo⟩
                    have hdistinct' : (name :: passed).Nodup :=
                      List.nodup_cons.mpr ⟨by simpa using hnew, hdistinct⟩
                    have hdeclared' := List.cons_subset.mpr ⟨hmem, hdeclared⟩
                    have hsteps' : table.classes.length < (name :: passed).length + steps := by
                      rw [List.length_cons]
                      omega
                    obtain ⟨fewer, rfl⟩ := exists_step hdistinct' hdeclared' hsteps'
                    have hparent : info.parent ≠ "" := by
                      intro hempty
                      rw [hempty, chainFrom, if_pos rfl] at habove
                      cases habove
                    have hextends : table.Extends name info.parent := ⟨info, hinfo, rfl, hparent⟩
                    obtain ⟨stop, hreach, hstop⟩ := ih hdistinct' hdeclared' hsteps' habove
                    refine ⟨stop, .head hextends hreach, ?_⟩
                    rcases hstop with hunknown | ⟨hcause, hback | hcycle⟩
                    · exact .inl hunknown
                    · rcases List.mem_cons.mp hback with rfl | hback
                      · exact .inr ⟨hcause, .inr (.head' hextends hreach)⟩
                      · exact .inr ⟨hcause, .inl hback⟩
                    · exact .inr ⟨hcause, .inr hcycle⟩

end Passed

/-- The ancestors of a class can be listed unless it leads to a class that nobody declares, or to one
that is its own ancestor. -/
theorem chain_ok {name : String}
    (hknown : ∀ stop, Relation.ReflTransGen table.Extends name stop → stop ≠ "" →
      table.declared? stop ≠ none)
    (hacyclic : ∀ stop, Relation.ReflTransGen table.Extends name stop →
      ¬ Relation.TransGen table.Extends stop stop) :
    ∃ infos, table.chain name = .ok infos := by
  cases hchain : table.chain name with
  | ok infos => exact ⟨infos, rfl⟩
  | error cause =>
      obtain ⟨stop, hreach, ⟨-, hne, hnone⟩ | ⟨-, hback | hcycle⟩⟩ :=
        chainFrom_error List.nodup_nil (List.nil_subset _) (by simp) hchain
      · exact absurd hnone (hknown stop hreach hne)
      · cases hback
      · exact absurd hcycle (hacyclic stop hreach)

/-- The check of a class finds nothing exactly if the class has no parent, or has one that is declared
and ancestors that can be listed. -/
theorem inheritanceCheck_eq_none_iff (info : ClassInfo) :
    table.inheritanceCheck info = none ↔ (info.parent ≠ "" →
      (table.declared? info.parent).isSome = true ∧
        ∃ infos, table.chain info.name = .ok infos) := by
  rw [inheritanceCheck]
  by_cases hparent : info.parent = ""
  · simp [hparent]
  · cases table.declared? info.parent <;> cases table.chain info.name <;> simp [hparent]

end ClassTable

namespace Program

/-- A class of the program names another one as its parent. -/
def Extends (p : Program) (name parent : String) : Prop :=
  parent ≠ "" ∧ ∃ decl ∈ p.classDecls, decl.name = name ∧ decl.parent = parent

/-- Every name is declared once in its scope, every parent is declared, and no class is its own
ancestor. -/
structure WellDeclared (p : Program) : Prop extends p.Distinct where
  parents : ∀ decl ∈ p.classDecls, decl.parent ≠ "" → decl.parent ∈ p.classDecls.map (·.name)
  acyclic : ∀ decl ∈ p.classDecls, ¬ Relation.TransGen p.Extends decl.name decl.name

/-- A method is declared by a class or an ancestor of it; in the scope with the empty name it is a
routine of the top level. -/
def Offers (p : Program) (className method : String) : Prop :=
  if className = "" then method ∈ p.topRoutines.map (·.name)
  else ∃ owner ∈ p.classDecls, Relation.ReflTransGen p.Extends className owner.name ∧
    method ∈ owner.routines.map (·.name)

variable {p : Program}

theorem Distinct.extends_iff (h : p.Distinct) {name parent : String} :
    p.declarations.Extends name parent ↔ p.Extends name parent := by
  constructor
  · rintro ⟨info, hinfo, rfl, hparent⟩
    obtain ⟨hmem, rfl⟩ := h.declared?.mp hinfo
    obtain ⟨decl, hdecl, rfl⟩ := List.mem_map.mp hmem
    exact ⟨hparent, decl, hdecl, rfl, rfl⟩
  · rintro ⟨hparent, decl, hdecl, rfl, rfl⟩
    exact ⟨decl.info, h.declared?.mpr ⟨List.mem_map_of_mem hdecl, rfl⟩, rfl, hparent⟩

theorem Distinct.extends_eq (h : p.Distinct) : p.declarations.Extends = p.Extends := by
  ext name parent
  exact h.extends_iff

theorem isSome_findMethod? (owner : String) (routines : List Routine) (method : String) :
    (findMethod? (routines.map (Method.mk owner)) method).isSome = true ↔
      method ∈ routines.map (·.name) := by
  simp [findMethod?, List.isSome_find?, Method.name]

/-- A method that the ancestors of a class declare is found. -/
theorem Distinct.isSome_lookup? (h : p.Distinct) {className : String} {infos : List ClassInfo}
    (hchain : p.declarations.chain className = .ok infos) (method : String) :
    (p.declarations.lookup? className method).isSome = true ↔ p.Offers className method := by
  unfold ClassTable.lookup? Offers
  by_cases hname : className = ""
  · rw [if_pos hname, if_pos hname]
    exact isSome_findMethod? "" p.topRoutines method
  · rw [if_neg hname, if_neg hname, hchain]
    dsimp only
    rw [List.findSome?_isSome_iff]
    constructor
    · rintro ⟨info, hinfo, hfound⟩
      obtain ⟨hdeclared, hreach⟩ := (ClassTable.mem_chainFrom_iff hname hchain).mp hinfo
      obtain ⟨decl, hdecl, rfl⟩ := List.mem_map.mp (ClassTable.declared?_mem hdeclared)
      exact ⟨decl, hdecl, h.extends_eq ▸ hreach, (isSome_findMethod? _ _ _).mp hfound⟩
    · rintro ⟨owner, howner, hreach, hmethod⟩
      refine ⟨owner.info, ?_, (isSome_findMethod? _ _ _).mpr hmethod⟩
      rw [ClassTable.mem_chainFrom_iff hname hchain, h.extends_eq]
      exact ⟨h.declared?.mpr ⟨List.mem_map_of_mem howner, rfl⟩, hreach⟩

/-! ### The check of inheritance -/

theorem isSome_declared? (p : Program) (name : String) :
    (p.declarations.declared? name).isSome = true ↔ name ∈ p.classDecls.map (·.name) := by
  simp [declarations, ClassTable.declared?, ClassDecl.info]

/-- Where nothing is wrong with the declarations, the ancestors of every class can be listed. -/
theorem WellDeclared.chain_ok (h : p.WellDeclared) {name : String}
    (hname : name ∈ p.classDecls.map (·.name)) :
    ∃ infos, p.declarations.chain name = .ok infos := by
  have hextends := h.toDistinct.extends_eq
  apply ClassTable.chain_ok
  · intro stop hreach hne
    have hstop : stop ∈ p.classDecls.map (·.name) := by
      rw [hextends] at hreach
      rcases hreach.cases_tail with rfl | ⟨_, -, -, decl, hdecl, -, rfl⟩
      · exact hname
      · exact h.parents decl hdecl hne
    rw [← Option.isSome_iff_ne_none]
    exact (p.isSome_declared? stop).mpr hstop
  · intro stop _ hcycle
    rw [hextends] at hcycle
    obtain ⟨_, ⟨-, decl, hdecl, rfl, -⟩, -⟩ := Relation.TransGen.head'_iff.mp hcycle
    exact h.acyclic decl hdecl hcycle

theorem inheritanceCheck_eq_none_iff (p : Program) (decl : ClassDecl) :
    p.declarations.inheritanceCheck decl.info = none ↔ (decl.parent ≠ "" →
      decl.parent ∈ p.classDecls.map (·.name) ∧
        ∃ infos, p.declarations.chain decl.name = .ok infos) := by
  rw [← isSome_declared?]
  exact ClassTable.inheritanceCheck_eq_none_iff decl.info

theorem wellDeclared_of_checks (h : p.Distinct)
    (hcheck : ∀ info ∈ p.declarations.classes, p.declarations.inheritanceCheck info = none) :
    p.WellDeclared := by
  refine ⟨h, fun decl hdecl hparent => ?_, fun decl hdecl hcycle => ?_⟩
  · have hnone := hcheck decl.info (List.mem_map_of_mem hdecl)
    exact ((p.inheritanceCheck_eq_none_iff decl).mp hnone hparent).1
  · obtain ⟨_, -, hname, -⟩ := Relation.TransGen.tail'_iff.mp hcycle
    obtain ⟨infos, hchain⟩ :=
      ClassTable.settled_declarations h hcheck decl.info (List.mem_map_of_mem hdecl)
    rw [← h.extends_eq] at hcycle
    exact ClassTable.not_transGen_of_chain hname hchain hcycle

theorem WellDeclared.checks (h : p.WellDeclared) :
    ∀ info ∈ p.declarations.classes, p.declarations.inheritanceCheck info = none := by
  intro info hinfo
  obtain ⟨decl, hdecl, rfl⟩ := List.mem_map.mp hinfo
  rw [inheritanceCheck_eq_none_iff]
  exact fun hparent =>
    ⟨h.parents decl hdecl hparent, h.chain_ok (List.mem_map_of_mem hdecl)⟩

end Program

/-- **Structural checking is exact.** A program has no diagnostics exactly if it declares every name
once in its scope and every parent, and no class is its own ancestor. Then the ancestors of every
declared class can be listed, its fields listed and counted, and a method is found wherever the class
or an ancestor declares it. -/
theorem structural_checks_exact (p : Program) :
    ((ClassTable.build p).2 = [] ↔ p.WellDeclared) ∧
    ((ClassTable.build p).2 = [] → ∀ decl ∈ p.classDecls, ∃ infos,
      (ClassTable.build p).1.chain decl.name = .ok infos ∧
      (ClassTable.build p).1.fieldHierarchy decl.name = .ok (infos.flatMap (·.fields)) ∧
      (ClassTable.build p).1.fieldCount decl.name = .ok (infos.flatMap (·.fields)).length ∧
      ∀ method, ((ClassTable.build p).1.lookup? decl.name method).isSome = true ↔
        p.Offers decl.name method) := by
  have hexact : (ClassTable.build p).2 = [] ↔ p.WellDeclared := by
    rw [ClassTable.diagnostics_eq_nil_iff]
    exact ⟨fun ⟨hdistinct, hcheck⟩ => Program.wellDeclared_of_checks hdistinct hcheck,
      fun h => ⟨h.toDistinct, h.checks⟩⟩
  refine ⟨hexact, fun hnone decl hdecl => ?_⟩
  have hwell := hexact.mp hnone
  rw [ClassTable.build_of_diagnostics hnone]
  obtain ⟨infos, hchain⟩ := hwell.chain_ok (List.mem_map_of_mem hdecl)
  exact ⟨infos, hchain, ClassTable.fieldHierarchy_of_chain hchain,
    ClassTable.fieldCount_of_chain hchain, hwell.toDistinct.isSome_lookup? hchain⟩

/-- Three classes in line, each declared before its parent. The last one extends a class of the given
name. -/
def plantProgram (base : String) : Program :=
  let plant (name parent method : String) : ClassDecl :=
    ⟨.unknown, name, parent, true, [⟨.unknown, .missing, "height"⟩], true,
      [some ⟨.unknown, method, true, [], true, [], none, 0⟩]⟩
  let classes := [plant "Oak" "Tree" "shed", plant "Tree" "Plant" "grow", plant "Plant" base "grow"]
  ⟨.unknown, true, [], true, classes.map some, true, []⟩

/-- Where the line ends its classes can be asked; where it leads back to its middle it is at fault. -/
theorem structural_checks_exact_plant :
    (ClassTable.build (plantProgram "")).2 = [] ∧ (plantProgram "").WellDeclared ∧
    ¬ (plantProgram "Tree").WellDeclared ∧
    ∃ infos, (ClassTable.build (plantProgram "")).1.chain "Oak" = .ok infos ∧
      (ClassTable.build (plantProgram "")).1.fieldHierarchy "Oak" =
        .ok (infos.flatMap (·.fields)) ∧
      (ClassTable.build (plantProgram "")).1.fieldCount "Oak" =
        .ok (infos.flatMap (·.fields)).length ∧
      ∀ method, ((ClassTable.build (plantProgram "")).1.lookup? "Oak" method).isSome = true ↔
        (plantProgram "").Offers "Oak" method := by
  have hnone : (ClassTable.build (plantProgram "")).2 = [] := by decide
  have hsome : (ClassTable.build (plantProgram "Tree")).2 ≠ [] := by decide
  obtain ⟨hexact, hanswers⟩ := structural_checks_exact (plantProgram "")
  refine ⟨hnone, hexact.mp hnone, ?_, hanswers hnone _ List.mem_cons_self⟩
  exact fun hwell => hsome ((structural_checks_exact (plantProgram "Tree")).1.mpr hwell)

end ObjectLang
