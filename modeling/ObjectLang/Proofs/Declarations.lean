import Mathlib.Data.List.Nodup
import ObjectLang.Proofs.PlacedTable

/-! Programs that declare every name once. The table of such a program lists what it declares, so a
name finds its one declaration wherever that stands. Without diagnostics the ancestors of every class
can be listed as well, and all that a table then lacks are classes that nobody declares. -/

namespace ObjectLang

/-- Where names are distinct, a name finds the one entry that has it. -/
theorem find?_name_iff {α : Type} {name : α → String} {l : List α} (hdistinct : (l.map name).Nodup)
    {key : String} {a : α} : l.find? (name · == key) = some a ↔ a ∈ l ∧ name a = key := by
  constructor
  · intro h
    exact ⟨List.mem_of_find?_eq_some h, by simpa using List.find?_some h⟩
  · rintro ⟨hmem, rfl⟩
    cases hfind : l.find? (name · == name a) with
    | none => exact absurd BEq.rfl (List.find?_eq_none.mp hfind a hmem)
    | some b =>
        have hname : name b = name a := by simpa using List.find?_some hfind
        rw [List.inj_on_of_nodup_map hdistinct (List.mem_of_find?_eq_some hfind) hmem hname]

section Collecting

variable {α β δ : Type} {add : List β × List δ → α → List β × List δ} {name : α → String}
  {label : β → String} {entry : α → β} {twice : α → δ} {within : α → List δ}
  (hadd : ∀ acc a, add acc a =
    if acc.1.any (label · == name a) then (acc.1, acc.2 ++ [twice a])
    else (acc.1 ++ [entry a], acc.2 ++ within a))
  (hlabel : ∀ a, label (entry a) = name a)
include hadd hlabel

theorem collect_distinct (l : List α) (acc : List β × List δ)
    (hdistinct : (acc.1.map label ++ l.map name).Nodup) :
    l.foldl add acc = (acc.1 ++ l.map entry, acc.2 ++ l.flatMap within) := by
  induction l generalizing acc with
  | nil => simp
  | cons a l ih =>
      have hfree : acc.1.any (label · == name a) = false := by
        rw [List.map_cons, List.nodup_append] at hdistinct
        simp only [List.any_eq_false, beq_iff_eq]
        intro b hb heq
        exact hdistinct.2.2 _ (List.mem_map_of_mem hb) _ List.mem_cons_self heq
      rw [List.foldl_cons, hadd, hfree, if_neg Bool.false_ne_true, ih]
      · simp
      · simpa [hlabel] using hdistinct

/-- Names that are collected without a report are distinct. -/
theorem distinct_of_collect (l : List α) (acc : List β × List δ) (hacc : (acc.1.map label).Nodup)
    (h : (l.foldl add acc).2 = []) : acc.2 = [] ∧ (acc.1.map label ++ l.map name).Nodup := by
  induction l generalizing acc with
  | nil => exact ⟨h, by simpa using hacc⟩
  | cons a l ih =>
      rw [List.foldl_cons, hadd] at h
      by_cases htaken : acc.1.any (label · == name a) = true
      · rw [if_pos htaken] at h
        exact absurd (ih (acc.1, acc.2 ++ [twice a]) hacc h).1 (by simp)
      · rw [if_neg htaken] at h
        have hnext : ((acc.1 ++ [entry a]).map label).Nodup := by
          rw [List.map_append, List.nodup_append]
          refine ⟨hacc, by simp, ?_⟩
          intro left hleft right hright heq
          obtain ⟨b, hb, rfl⟩ := List.mem_map.mp hleft
          apply htaken
          rw [List.any_eq_true]
          refine ⟨b, hb, ?_⟩
          simpa [hlabel, heq] using hright
        obtain ⟨hnone, hdistinct⟩ := ih _ hnext h
        exact ⟨(List.append_eq_nil_iff.mp hnone).1, by simpa [hlabel] using hdistinct⟩

/-- What was collected has distinct names, whatever was reported. -/
theorem nodup_collect (l : List α) (acc : List β × List δ) (hacc : (acc.1.map label).Nodup) :
    ((l.foldl add acc).1.map label).Nodup := by
  induction l generalizing acc with
  | nil => exact hacc
  | cons a l ih =>
      rw [List.foldl_cons, hadd]
      split
      · exact ih _ hacc
      · next hfree =>
          refine ih _ ?_
          rw [List.map_append, List.nodup_append]
          refine ⟨hacc, List.nodup_singleton _, ?_⟩
          rintro left hleft right hright rfl
          obtain ⟨b, hb, rfl⟩ := List.mem_map.mp hleft
          apply hfree
          rw [List.any_eq_true]
          exact ⟨b, hb, by simpa [hlabel] using hright⟩

/-- Every name is collected once it is declared. -/
theorem mem_names_collect (l : List α) (acc : List β × List δ) {key : String} :
    key ∈ (l.foldl add acc).1.map label ↔ key ∈ acc.1.map label ∨ key ∈ l.map name := by
  induction l generalizing acc with
  | nil => simp
  | cons a l ih =>
      rw [List.foldl_cons, hadd, ih, List.map_cons, List.mem_cons]
      split
      · next htaken =>
          obtain ⟨b, hb, heq⟩ := List.any_eq_true.mp htaken
          have hmem : name a ∈ acc.1.map label :=
            List.mem_map.mpr ⟨b, hb, by simpa using heq⟩
          grind
      · simp only [List.map_append, List.map_singleton, hlabel, List.mem_append, List.mem_singleton,
          or_assoc]

omit hlabel in
/-- What is reported is a declaration made twice, or a report of the declaration itself. -/
theorem mem_reports_collect (l : List α) (acc : List β × List δ) {report : δ}
    (h : report ∈ (l.foldl add acc).2) :
    report ∈ acc.2 ∨ ∃ a ∈ l, report = twice a ∨ report ∈ within a := by
  induction l generalizing acc with
  | nil => exact .inl h
  | cons a l ih =>
      rw [List.foldl_cons, hadd] at h
      rcases ih _ h with hacc | ⟨b, hb, hreport⟩
      · split at hacc
        · rcases List.mem_append.mp hacc with hacc | htwice
          · exact .inl hacc
          · exact .inr ⟨a, List.mem_cons_self, .inl (List.mem_singleton.mp htwice)⟩
        · rcases List.mem_append.mp hacc with hacc | hwithin
          · exact .inl hacc
          · exact .inr ⟨a, List.mem_cons_self, .inr hwithin⟩
      · exact .inr ⟨b, List.mem_cons_of_mem a hb, hreport⟩

end Collecting

def ClassDecl.routines (decl : ClassDecl) : List Routine := decl.methods.filterMap id

/-- The routines that a program declares at the top level. -/
def Program.topRoutines (p : Program) : List Routine := p.routines.filterMap id

def Program.classDecls (p : Program) : List ClassDecl := p.classes.filterMap id

/-- Every name is declared once in its scope. -/
structure Program.Distinct (p : Program) : Prop where
  routines : (p.topRoutines.map (·.name)).Nodup
  classes : (p.classDecls.map (·.name)).Nodup
  methods : ∀ decl ∈ p.classDecls, (decl.routines.map (·.name)).Nodup

theorem Program.mem_topRoutines {p : Program} {r : Routine} :
    r ∈ p.topRoutines ↔ some r ∈ p.routines := by
  simp [topRoutines]

theorem Program.mem_classDecls {p : Program} {decl : ClassDecl} :
    decl ∈ p.classDecls ↔ some decl ∈ p.classes := by
  simp [classDecls]

/-- What a table knows of a class that declares every method once. -/
def ClassDecl.info (decl : ClassDecl) : ClassInfo :=
  ⟨decl.name, decl.parent, decl.span, decl.fields.map (·.name), decl.routines.map (Method.mk decl.name)⟩

def Program.declarations (p : Program) : ClassTable :=
  ⟨p.topRoutines.map (Method.mk ""), p.classDecls.map ClassDecl.info⟩

namespace Program.Distinct

variable {p : Program} (h : p.Distinct)
include h

theorem findMethod?_top {name : String} {m : Method} :
    findMethod? p.declarations.top name = some m ↔ m ∈ p.declarations.top ∧ m.name = name := by
  apply find?_name_iff
  rw [declarations, List.map_map]
  exact h.routines

theorem declared? {name : String} {info : ClassInfo} :
    p.declarations.declared? name = some info ↔
      info ∈ p.declarations.classes ∧ info.name = name := by
  apply find?_name_iff
  rw [declarations, List.map_map]
  exact h.classes

theorem findMethod?_class {decl : ClassDecl} (hdecl : decl ∈ p.classDecls) {name : String}
    {m : Method} :
    findMethod? decl.info.methods name = some m ↔ m ∈ decl.info.methods ∧ m.name = name := by
  apply find?_name_iff
  rw [ClassDecl.info, List.map_map]
  exact h.methods decl hdecl

end Program.Distinct

namespace ClassTable

theorem addMethod_eq (owner : String) (acc : List Method × List Diagnostic) (r : Routine) :
    addMethod owner acc r =
      if acc.1.any (Method.name · == r.name) then
        (acc.1, acc.2 ++ [⟨.duplicateRoutine r.name owner, r.span⟩])
      else (acc.1 ++ [⟨owner, r⟩], acc.2 ++ []) := by
  rw [addMethod, findMethod?, List.isSome_find?, List.append_nil]

theorem collectMethods_of_distinct (owner : String) {routines : List (Option Routine)}
    (h : ((routines.filterMap id).map (·.name)).Nodup) :
    collectMethods owner routines = ((routines.filterMap id).map (Method.mk owner), []) := by
  have hcollect := collect_distinct (addMethod_eq owner) (fun _ => rfl) (routines.filterMap id)
    ([], []) (by simpa using h)
  rw [collectMethods, hcollect]
  simp

theorem distinct_of_collectMethods {owner : String} {routines : List (Option Routine)}
    (h : (collectMethods owner routines).2 = []) :
    ((routines.filterMap id).map (·.name)).Nodup := by
  have hdistinct := distinct_of_collect (addMethod_eq owner) (fun _ => rfl) (routines.filterMap id)
    ([], []) (by simp) h
  simpa using hdistinct.2

theorem addClass_eq (acc : List ClassInfo × List Diagnostic) (decl : ClassDecl) :
    addClass acc decl =
      if acc.1.any (ClassInfo.name · == decl.name) then
        (acc.1, acc.2 ++ [⟨.duplicateClass decl.name, decl.span⟩])
      else
        (acc.1 ++ [{ decl.info with methods := (collectMethods decl.name decl.methods).1 }],
          acc.2 ++ (collectMethods decl.name decl.methods).2) := rfl

theorem collectClasses_of_distinct {p : Program} (h : p.Distinct) :
    p.classDecls.foldl addClass ([], []) = (p.declarations.classes, []) := by
  have hcollect := collect_distinct addClass_eq (fun _ => rfl) p.classDecls ([], [])
    (by simpa using h.classes)
  have hmethods (decl : ClassDecl) (hdecl : decl ∈ p.classDecls) :
      collectMethods decl.name decl.methods = (decl.info.methods, []) :=
    collectMethods_of_distinct decl.name (h.methods decl hdecl)
  rw [hcollect]
  refine Prod.ext ?_ ?_
  · refine List.map_congr_left fun decl hdecl => ?_
    rw [hmethods decl hdecl]
  · simpa using fun decl hdecl => congrArg Prod.snd (hmethods decl hdecl)

/-- The table of a program that declares every name once lists its declarations. -/
theorem build_of_distinct {p : Program} (h : p.Distinct) :
    build p = (p.declarations, p.declarations.classes.filterMap p.declarations.inheritanceCheck) := by
  have htop : collectMethods "" p.routines = (p.declarations.top, []) :=
    collectMethods_of_distinct "" h.routines
  have hclasses : (p.classes.filterMap id).foldl addClass ([], []) = (p.declarations.classes, []) :=
    collectClasses_of_distinct h
  unfold build
  rw [htop, hclasses]
  rfl

theorem distinct_of_build {p : Program} (h : (build p).2 = []) : p.Distinct := by
  obtain ⟨hduplicates, -⟩ := List.append_eq_nil_iff.mp h
  obtain ⟨htop, hclasses⟩ := List.append_eq_nil_iff.mp hduplicates
  have hdistinct := distinct_of_collect addClass_eq (fun _ => rfl) p.classDecls ([], []) (by simp)
    hclasses
  have hnames : (p.classDecls.map (·.name)).Nodup := by simpa using hdistinct.2
  refine ⟨distinct_of_collectMethods htop, hnames, fun decl hdecl => ?_⟩
  have hcollect := collect_distinct addClass_eq (fun _ => rfl) p.classDecls ([], [])
    (by simpa using hnames)
  have hwithin : (p.classDecls.flatMap fun decl => (collectMethods decl.name decl.methods).2) = [] := by
    have hreports := congrArg Prod.snd hcollect
    rw [show (p.classDecls.foldl addClass ([], [])).2 = [] from hclasses] at hreports
    simpa using hreports.symm
  exact distinct_of_collectMethods (List.flatMap_eq_nil_iff.mp hwithin decl hdecl)

/-- A program has no diagnostics exactly if it declares every name once and nothing is wrong with the
inheritance of its classes. -/
theorem diagnostics_eq_nil_iff (p : Program) :
    (build p).2 = [] ↔ p.Distinct ∧
      ∀ info ∈ p.declarations.classes, p.declarations.inheritanceCheck info = none := by
  constructor
  · intro h
    have hdistinct := distinct_of_build h
    rw [build_of_distinct hdistinct] at h
    exact ⟨hdistinct, List.filterMap_eq_nil_iff.mp h⟩
  · rintro ⟨hdistinct, hcheck⟩
    rw [build_of_distinct hdistinct]
    exact List.filterMap_eq_nil_iff.mpr hcheck

theorem build_of_diagnostics {p : Program} (h : (build p).2 = []) : (build p).1 = p.declarations := by
  rw [build_of_distinct (distinct_of_build h)]

/-! ### Tables that lack no ancestor -/

/-- The ancestors of every class of the table can be listed. -/
def Settled (table : ClassTable) : Prop :=
  ∀ info ∈ table.classes, ∃ infos, table.chain info.name = .ok infos

theorem Settled.mapRoutines {table : ClassTable} (h : table.Settled)
    (f : String → Routine → Routine) : (table.mapRoutines f).Settled := by
  intro info hinfo
  obtain ⟨source, hsource, rfl⟩ := List.mem_map.mp hinfo
  obtain ⟨infos, hchain⟩ := h source hsource
  refine ⟨infos.map (ClassInfo.mapRoutines f), ?_⟩
  rw [show (ClassInfo.mapRoutines f source).name = source.name from rfl, chain_mapRoutines, hchain]
  rfl

theorem chain_empty (table : ClassTable) : table.chain "" = .ok [] := by
  rw [chain, chainFrom, if_pos rfl]

/-- Nothing but an undeclared class is without ancestors. -/
theorem Settled.chain_error {table : ClassTable} (h : table.Settled) {name : String}
    {cause : ChainError} (hchain : table.chain name = .error cause) :
    cause = .unknown name ∧ name ≠ "" ∧ table.declared? name = none := by
  have hname : name ≠ "" := by
    rintro rfl
    rw [chain_empty] at hchain
    cases hchain
  cases hdeclared : table.declared? name with
  | some info =>
      obtain ⟨infos, hok⟩ := h info (declared?_mem hdeclared)
      rw [declared?_name hdeclared, hchain] at hok
      cases hok
  | none =>
      rw [chain, chainFrom, if_neg hname, if_neg (by simp), hdeclared] at hchain
      cases hchain
      exact ⟨rfl, hname, rfl⟩

/-- Where nothing is wrong with the inheritance of the classes, their ancestors can be listed. -/
theorem settled_declarations {p : Program} (hdistinct : p.Distinct)
    (hcheck : ∀ info ∈ p.declarations.classes, p.declarations.inheritanceCheck info = none) :
    p.declarations.Settled := by
  intro info hinfo
  have hnone := hcheck info hinfo
  by_cases hname : info.name = ""
  · exact ⟨[], by rw [hname, chain_empty]⟩
  · by_cases hparent : info.parent = ""
    · have hdeclared := hdistinct.declared?.mpr ⟨hinfo, rfl⟩
      have hpositive := List.length_pos_of_mem hinfo
      obtain ⟨steps, hsteps⟩ : ∃ steps, p.declarations.classes.length = steps + 1 :=
        ⟨p.declarations.classes.length - 1, by omega⟩
      refine ⟨[info], ?_⟩
      rw [chain, chainFrom, if_neg hname, if_neg (by simp), hdeclared, hsteps]
      simp only [hparent, chainFrom, if_true]
      rfl
    · rw [inheritanceCheck, if_neg hparent] at hnone
      split at hnone
      · cases hnone
      · split at hnone
        · next infos hchain => exact ⟨infos, hchain⟩
        · cases hnone

theorem settled_build {p : Program} (h : (build p).2 = []) : (build p).1.Settled := by
  rw [build_of_diagnostics h]
  obtain ⟨hdistinct, hcheck⟩ := (diagnostics_eq_nil_iff p).mp h
  exact settled_declarations hdistinct hcheck

/-- Every class of a program without diagnostics gets a layout. -/
theorem isKnown_of_diagnostics {p : Program} (h : (build p).2 = []) {decl : ClassDecl}
    (hdecl : decl ∈ p.classDecls) : Layout.isKnown (build p).1 decl = true := by
  have hdeclared := (distinct_of_build h).declared?.mpr ⟨List.mem_map_of_mem hdecl, rfl⟩
  rw [build_of_diagnostics h, Layout.isKnown, scope?]
  split
  · rfl
  · rw [show p.declarations.declared? decl.name = _ from hdeclared]
    rfl

end ClassTable

end ObjectLang
