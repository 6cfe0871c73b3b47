import ObjectLang.Proofs.StructuralChecks

/-! What the reports about inheritance say. The check of a class looks at its own parent first and then
asks for its ancestors, and whatever keeps them from being listed is reported as a cycle. So a parent is
reported as unknown exactly if no class of its name is declared, while a class is reported as cyclic if
following parent names from it comes to some class again, and also if it leads to an undeclared class
above a declared parent, where there is no cycle. A class without a name is never reported as cyclic:
its name reads as the end of a walk. -/

namespace ObjectLang

namespace ClassTable

variable {table : ClassTable} {name : String}

/-- Following parent names from a class comes to some class again. -/
def Revisits (table : ClassTable) (name : String) : Prop :=
  ∃ again, Relation.ReflTransGen table.Extends name again ∧
    Relation.TransGen table.Extends again again

/-- Following parent names from a class leads past its parent to a class that nobody declares. -/
def BreaksOff (table : ClassTable) (name : String) : Prop :=
  ∃ parent lost, table.Extends name parent ∧ Relation.TransGen table.Extends parent lost ∧
    table.declared? lost = none

theorem Extends.unique {parent parent' : String} (h : table.Extends name parent)
    (h' : table.Extends name parent') : parent = parent' := by
  obtain ⟨info, hinfo, rfl, -⟩ := h
  obtain ⟨info', hinfo', rfl, -⟩ := h'
  rw [hinfo] at hinfo'
  cases hinfo'
  rfl

theorem declared?_of_extends {parent : String} (h : table.Extends name parent) :
    table.declared? name ≠ none := by
  obtain ⟨info, hinfo, -⟩ := h
  rw [hinfo]
  exact Option.some_ne_none info

/-- A class that leads to an undeclared one is not its own ancestor. -/
theorem not_transGen_of_lost {lost : String}
    (hreach : Relation.ReflTransGen table.Extends name lost) (hlost : table.declared? lost = none) :
    ¬ Relation.TransGen table.Extends name name := by
  induction hreach using Relation.ReflTransGen.head_induction_on with
  | refl =>
      intro hcycle
      obtain ⟨_, hextends, -⟩ := Relation.TransGen.head'_iff.mp hcycle
      exact declared?_of_extends hextends hlost
  | head hextends _ ih =>
      intro hcycle
      obtain ⟨_, hextends', hback⟩ := Relation.TransGen.head'_iff.mp hcycle
      obtain rfl := hextends.unique hextends'
      exact ih (.tail' hback hextends)

/-- What a class leads to leads on to whatever undeclared class it leads to. -/
theorem reaches_lost {again lost : String}
    (hreach : Relation.ReflTransGen table.Extends name again)
    (hlost : Relation.ReflTransGen table.Extends name lost) (hnone : table.declared? lost = none) :
    Relation.ReflTransGen table.Extends again lost := by
  rcases Relation.ReflTransGen.total_of_right_unique (fun _ _ _ h h' => h.unique h') hreach hlost
    with hto | hfrom
  · exact hto
  · rcases hfrom.cases_head with rfl | ⟨_, hextends, -⟩
    · exact .refl
    · exact absurd hnone (declared?_of_extends hextends)

/-- A line of ancestors that breaks off does not come to a class again. -/
theorem BreaksOff.not_revisits (h : table.BreaksOff name) : ¬ table.Revisits name := by
  rintro ⟨again, hreach, hcycle⟩
  obtain ⟨parent, lost, hextends, hlost, hnone⟩ := h
  have hline : Relation.ReflTransGen table.Extends name lost := .head hextends hlost.to_reflTransGen
  exact not_transGen_of_lost (reaches_lost hreach hline hnone) hnone hcycle

/-- A class whose line of ancestors comes to a class again has a parent that is declared. -/
theorem Revisits.parent (h : table.Revisits name) :
    ∃ parent, table.Extends name parent ∧ table.declared? parent ≠ none := by
  obtain ⟨again, hreach, hcycle⟩ := h
  obtain ⟨_, hnext, hback⟩ := Relation.TransGen.head'_iff.mp hcycle
  rcases hreach.cases_head with rfl | ⟨parent, hextends, hrest⟩
  · rcases hback.cases_head with rfl | ⟨_, hextends, -⟩
    · exact ⟨_, hnext, declared?_of_extends hnext⟩
    · exact ⟨_, hnext, declared?_of_extends hextends⟩
  · rcases hrest.cases_head with rfl | ⟨_, hextends', -⟩
    · exact ⟨parent, hextends, declared?_of_extends hnext⟩
    · exact ⟨parent, hextends, declared?_of_extends hextends'⟩

/-- The ancestors of a class with a declared parent cannot be listed exactly if its line comes to a
class again or breaks off. -/
theorem exists_chain_error_iff {parent : String} (hname : name ≠ "")
    (hextends : table.Extends name parent) (hparent : table.declared? parent ≠ none) :
    (∃ cause, table.chain name = .error cause) ↔ table.Revisits name ∨ table.BreaksOff name := by
  constructor
  · rintro ⟨cause, hchain⟩
    obtain ⟨stop, hreach, ⟨-, -, hnone⟩ | ⟨-, hback | hcycle⟩⟩ :=
      chainFrom_error List.nodup_nil (List.nil_subset _) (by simp) hchain
    · rcases hreach.cases_head with rfl | ⟨parent', hextends', hrest⟩
      · exact absurd hnone (declared?_of_extends hextends)
      · obtain rfl := hextends.unique hextends'
        rcases Relation.reflTransGen_iff_eq_or_transGen.mp hrest with rfl | hrest
        · exact absurd hnone hparent
        · exact .inr ⟨parent, stop, hextends, hrest, hnone⟩
    · cases hback
    · exact .inl ⟨stop, hreach, hcycle⟩
  · intro h
    cases hchain : table.chain name with
    | error cause => exact ⟨cause, rfl⟩
    | ok infos =>
        have habove : ∀ stop, Relation.TransGen table.Extends name stop →
            stop ≠ "" ∧ ∃ above, table.chain stop = .ok above := by
          intro stop hreach
          obtain ⟨hne, above, habove, -⟩ := chain_of_transGen hname hchain hreach
          exact ⟨hne, above, habove⟩
        rcases h with ⟨again, hreach, hcycle⟩ | ⟨parent', lost, hextends', hrest, hnone⟩
        · obtain ⟨hne, above, hagain⟩ := habove again (.trans_right hreach hcycle)
          exact absurd hcycle (not_transGen_of_chain hne hagain)
        · obtain ⟨hne, above, hlost⟩ := habove lost (.head hextends' hrest)
          obtain ⟨_, _, -, hdeclared, -⟩ := chainFrom_succ_ok hne hlost
          rw [hnone] at hdeclared
          cases hdeclared

theorem inheritanceCheck_eq_unknownParent_iff {info : ClassInfo} {parent : String} {span : Span} :
    table.inheritanceCheck info = some ⟨.unknownParent name parent, span⟩ ↔
      name = info.name ∧ parent = info.parent ∧ span = info.span ∧ parent ≠ "" ∧
        table.declared? parent = none := by
  rw [inheritanceCheck]
  by_cases hparent : info.parent = ""
  · rw [if_pos hparent]
    refine iff_of_false (Option.some_ne_none _).symm ?_
    rintro ⟨-, rfl, -, hne, -⟩
    exact hne hparent
  · cases hdeclared : table.declared? info.parent with
    | none => grind
    | some above => cases hchain : table.chain info.name <;> grind

theorem inheritanceCheck_eq_cyclic_iff {info : ClassInfo} {span : Span} :
    table.inheritanceCheck info = some ⟨.cyclicInheritance name, span⟩ ↔
      name = info.name ∧ span = info.span ∧ info.parent ≠ "" ∧
        table.declared? info.parent ≠ none ∧ ∃ cause, table.chain info.name = .error cause := by
  rw [inheritanceCheck]
  by_cases hparent : info.parent = ""
  · simp [hparent]
  · cases hdeclared : table.declared? info.parent with
    | none => simp [hparent]
    | some above => cases hchain : table.chain info.name <;> simp [hparent, eq_comm]

end ClassTable

/-! ### Reports about a program -/

def DiagnosticCause.AboutInheritance : DiagnosticCause → Prop
  | .duplicateRoutine _ _ | .duplicateClass _ => False
  | .unknownParent _ _ | .cyclicInheritance _ => True

/-- The diagnostics of a program include one with a given cause. -/
def Program.Reports (p : Program) (cause : DiagnosticCause) : Prop :=
  ∃ span, ⟨cause, span⟩ ∈ (ClassTable.build p).2

namespace ClassTable

variable {p : Program}

theorem nodup_names_build (p : Program) : ((build p).1.classes.map (·.name)).Nodup :=
  nodup_collect addClass_eq (fun _ => rfl) p.classDecls ([], []) List.nodup_nil

/-- A class of the table is found under its name. -/
theorem declared?_of_mem_build {info : ClassInfo} (hinfo : info ∈ (build p).1.classes) :
    (build p).1.declared? info.name = some info :=
  (find?_name_iff (nodup_names_build p)).mpr ⟨hinfo, rfl⟩

theorem declared?_build_eq_none_iff {name : String} :
    (build p).1.declared? name = none ↔ ∀ decl ∈ p.classDecls, decl.name ≠ name := by
  have hnames : name ∈ (build p).1.classes.map (·.name) ↔ name ∈ p.classDecls.map (·.name) :=
    (mem_names_collect addClass_eq (fun _ => rfl) p.classDecls ([], [])).trans
      (or_iff_right List.not_mem_nil)
  rw [declared?, List.find?_eq_none]
  simpa using not_congr hnames

/-- Collecting routines reports nothing about inheritance. -/
theorem not_aboutInheritance_of_collectMethods {owner : String} {routines : List (Option Routine)}
    {d : Diagnostic} (h : d ∈ (collectMethods owner routines).2) : ¬ d.cause.AboutInheritance := by
  rcases mem_reports_collect (addMethod_eq owner) _ _ h with hnone | ⟨r, -, rfl | hnone⟩
  · cases hnone
  · exact id
  · cases hnone

theorem mem_diagnostics_of_check {info : ClassInfo} (hinfo : info ∈ (build p).1.classes)
    {d : Diagnostic} (h : (build p).1.inheritanceCheck info = some d) : d ∈ (build p).2 :=
  List.mem_append_right _ (List.mem_filterMap.mpr ⟨info, hinfo, h⟩)

/-- What the diagnostics say about inheritance comes from the check of a class. -/
theorem check_of_mem_diagnostics {d : Diagnostic} (h : d ∈ (build p).2)
    (habout : d.cause.AboutInheritance) :
    ∃ info ∈ (build p).1.classes, (build p).1.inheritanceCheck info = some d := by
  rcases List.mem_append.mp h with hduplicate | hcheck
  · rcases List.mem_append.mp hduplicate with htop | hmembers
    · exact absurd habout (not_aboutInheritance_of_collectMethods htop)
    · rcases mem_reports_collect addClass_eq _ _ hmembers with hnone | ⟨decl, -, rfl | hmethod⟩
      · cases hnone
      · exact habout.elim
      · exact absurd habout (not_aboutInheritance_of_collectMethods hmethod)
  · exact List.mem_filterMap.mp hcheck

section Class

variable {info : ClassInfo} (hinfo : info ∈ (build p).1.classes)
include hinfo

theorem reports_unknownParent_iff {parent : String} :
    p.Reports (.unknownParent info.name parent) ↔
      parent = info.parent ∧ parent ≠ "" ∧ (build p).1.declared? parent = none := by
  constructor
  · rintro ⟨span, hspan⟩
    obtain ⟨other, hother, hcheck⟩ := check_of_mem_diagnostics hspan trivial
    obtain ⟨hname, hparent, -, hne, hnone⟩ := inheritanceCheck_eq_unknownParent_iff.mp hcheck
    obtain rfl := List.inj_on_of_nodup_map (nodup_names_build p) hinfo hother hname
    exact ⟨hparent, hne, hnone⟩
  · rintro ⟨hparent, hne, hnone⟩
    exact ⟨info.span, mem_diagnostics_of_check hinfo
      (inheritanceCheck_eq_unknownParent_iff.mpr ⟨rfl, hparent, rfl, hne, hnone⟩)⟩

theorem reports_cyclic_iff_check :
    p.Reports (.cyclicInheritance info.name) ↔ info.parent ≠ "" ∧
      (build p).1.declared? info.parent ≠ none ∧
        ∃ cause, (build p).1.chain info.name = .error cause := by
  constructor
  · rintro ⟨span, hspan⟩
    obtain ⟨other, hother, hcheck⟩ := check_of_mem_diagnostics hspan trivial
    obtain ⟨hname, -, hrest⟩ := inheritanceCheck_eq_cyclic_iff.mp hcheck
    obtain rfl := List.inj_on_of_nodup_map (nodup_names_build p) hinfo hother hname
    exact hrest
  · intro hrest
    exact ⟨info.span, mem_diagnostics_of_check hinfo
      (inheritanceCheck_eq_cyclic_iff.mpr ⟨rfl, rfl, hrest⟩)⟩

theorem reports_cyclic_iff :
    p.Reports (.cyclicInheritance info.name) ↔ info.name ≠ "" ∧
      ((build p).1.Revisits info.name ∨ (build p).1.BreaksOff info.name) := by
  rw [reports_cyclic_iff_check hinfo]
  constructor
  · rintro ⟨hparent, hdeclared, cause, hchain⟩
    have hname : info.name ≠ "" := by
      intro hempty
      rw [hempty, chain_empty] at hchain
      cases hchain
    have hextends : (build p).1.Extends info.name info.parent :=
      ⟨info, declared?_of_mem_build hinfo, rfl, hparent⟩
    exact ⟨hname, (exists_chain_error_iff hname hextends hdeclared).mp ⟨cause, hchain⟩⟩
  · rintro ⟨hname, hline⟩
    obtain ⟨parent, hextends, hdeclared⟩ : ∃ parent, (build p).1.Extends info.name parent ∧
        (build p).1.declared? parent ≠ none := by
      rcases hline with hrevisits | ⟨parent, lost, hextends, hrest, -⟩
      · exact hrevisits.parent
      · obtain ⟨_, hnext, -⟩ := Relation.TransGen.head'_iff.mp hrest
        exact ⟨parent, hextends, declared?_of_extends hnext⟩
    have herror := (exists_chain_error_iff hname hextends hdeclared).mpr hline
    obtain ⟨found, hfound, rfl, hparent⟩ := hextends
    rw [declared?_of_mem_build hinfo] at hfound
    cases hfound
    exact ⟨hparent, hdeclared, herror⟩

end Class

end ClassTable

/-- **What the reports about inheritance say.** For every class of the table of any program: its
diagnostics report a parent as unknown exactly if that is the class's own parent and no class of that
name is declared. They report the class as cyclic exactly if it has a name and following parent names
from it comes to some class again or leads past its parent to a class that nobody declares; in the
second case no class is come to again. -/
theorem inheritance_reports_exact (p : Program) {info : ClassInfo}
    (hinfo : info ∈ (ClassTable.build p).1.classes) :
    (∀ parent, p.Reports (.unknownParent info.name parent) ↔
      parent = info.parent ∧ parent ≠ "" ∧ ∀ decl ∈ p.classDecls, decl.name ≠ parent) ∧
    (p.Reports (.cyclicInheritance info.name) ↔ info.name ≠ "" ∧
      ((ClassTable.build p).1.Revisits info.name ∨ (ClassTable.build p).1.BreaksOff info.name)) ∧
    ((ClassTable.build p).1.BreaksOff info.name → ¬ (ClassTable.build p).1.Revisits info.name) := by
  refine ⟨fun parent => ?_, ClassTable.reports_cyclic_iff hinfo, ClassTable.BreaksOff.not_revisits⟩
  rw [ClassTable.reports_unknownParent_iff hinfo, ClassTable.declared?_build_eq_none_iff]

/-- In a line of three classes the last one either has a parent that nobody declares or leads back to
the middle one, which is reported as cyclic both times. -/
theorem inheritance_reports_of_plants :
    (∃ tree ∈ (ClassTable.build (plantProgram "Life")).1.classes, tree.name = "Tree" ∧
      (plantProgram "Life").Reports (.cyclicInheritance "Tree") ∧
      ¬ (plantProgram "Life").Reports (.unknownParent "Tree" "Life") ∧
      (ClassTable.build (plantProgram "Life")).1.BreaksOff "Tree" ∧
      ¬ (ClassTable.build (plantProgram "Life")).1.Revisits "Tree") ∧
    ∃ tree ∈ (ClassTable.build (plantProgram "Tree")).1.classes, tree.name = "Tree" ∧
      (plantProgram "Tree").Reports (.cyclicInheritance "Tree") ∧
      (ClassTable.build (plantProgram "Tree")).1.Revisits "Tree" := by
  constructor
  · obtain ⟨tree, hmem, htree, hparent⟩ : ∃ tree ∈ (ClassTable.build (plantProgram "Life")).1.classes,
        tree.name = "Tree" ∧ tree.parent = "Plant" := by decide
    obtain ⟨hunknown, hcyclic, hsafe⟩ := inheritance_reports_exact (plantProgram "Life") hmem
    rw [htree] at hunknown hcyclic hsafe
    have hbreaks : (ClassTable.build (plantProgram "Life")).1.BreaksOff "Tree" :=
      ⟨"Plant", "Life", ⟨_, rfl, rfl, by decide⟩, .single ⟨_, rfl, rfl, by decide⟩, rfl⟩
    refine ⟨tree, hmem, htree, hcyclic.mpr ⟨by decide, .inr hbreaks⟩, fun hreport => ?_, hbreaks,
      hsafe hbreaks⟩
    have hlife : "Life" = tree.parent := ((hunknown "Life").mp hreport).1
    rw [hparent] at hlife
    exact absurd hlife (by decide)
  · obtain ⟨tree, hmem, htree⟩ : ∃ tree ∈ (ClassTable.build (plantProgram "Tree")).1.classes,
        tree.name = "Tree" := by decide
    obtain ⟨-, hcyclic, -⟩ := inheritance_reports_exact (plantProgram "Tree") hmem
    rw [htree] at hcyclic
    have hrevisits : (ClassTable.build (plantProgram "Tree")).1.Revisits "Tree" :=
      ⟨"Tree", .refl, .head ⟨_, rfl, rfl, by decide⟩ (.single ⟨_, rfl, rfl, by decide⟩)⟩
    exact ⟨tree, hmem, htree, hcyclic.mpr ⟨by decide, .inl hrevisits⟩, hrevisits⟩

/-- A class whose grandparent nobody declares is reported as cyclic, and nothing is come to again. -/
theorem line_that_breaks_off_reported_cyclic :
    (plantProgram "Life").Reports (.cyclicInheritance "Tree") ∧
      ¬ (ClassTable.build (plantProgram "Life")).1.Revisits "Tree" := by
  refine ⟨⟨.unknown, by decide⟩, ClassTable.BreaksOff.not_revisits ?_⟩
  exact ⟨"Plant", "Life", ⟨_, rfl, rfl, by decide⟩, .single ⟨_, rfl, rfl, by decide⟩, rfl⟩

end ObjectLang
