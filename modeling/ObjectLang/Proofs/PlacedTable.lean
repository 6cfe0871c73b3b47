import ObjectLang.Proofs.Placement

/-! The table of a placed program. Placing changes routines only within, so the table of a placed
program is the table of the program with each routine placed for the class that owns it. Both list
the same ancestors and fields, and a name means the same method in both. -/

namespace ObjectLang

/-- A method with its routine changed, as its owner wants it. -/
def Method.mapRoutine (f : String → Routine → Routine) (m : Method) : Method :=
  ⟨m.owner, f m.owner m.decl⟩

/-- A class with its methods changed. -/
def ClassInfo.mapRoutines (f : String → Routine → Routine) (info : ClassInfo) : ClassInfo :=
  { info with methods := info.methods.map (Method.mapRoutine f) }

namespace ClassTable

def mapRoutines (f : String → Routine → Routine) (table : ClassTable) : ClassTable :=
  ⟨table.top.map (Method.mapRoutine f), table.classes.map (ClassInfo.mapRoutines f)⟩

section MapRoutines

variable {f : String → Routine → Routine} {table : ClassTable}

theorem declared?_mapRoutines (name : String) :
    (table.mapRoutines f).declared? name = (table.declared? name).map (ClassInfo.mapRoutines f) := by
  unfold declared? mapRoutines
  rw [List.find?_map]
  rfl

theorem chainFrom_mapRoutines (steps : Nat) (passed : List String) (name : String) :
    (table.mapRoutines f).chainFrom steps passed name =
      (table.chainFrom steps passed name).map (List.map (ClassInfo.mapRoutines f)) := by
  induction steps generalizing passed name with
  | zero => rfl
  | succ steps ih =>
      unfold chainFrom
      split
      · rfl
      · split
        · rfl
        · rw [declared?_mapRoutines]
          cases table.declared? name with
          | none => rfl
          | some info =>
              have hrest := ih (name :: passed) info.parent
              simp only [Option.map_some]
              change (do let above ← (table.mapRoutines f).chainFrom steps (name :: passed) info.parent
                         return ClassInfo.mapRoutines f info :: above) = _
              rw [hrest]
              cases table.chainFrom steps (name :: passed) info.parent <;> rfl

theorem chain_mapRoutines (name : String) :
    (table.mapRoutines f).chain name =
      (table.chain name).map (List.map (ClassInfo.mapRoutines f)) := by
  unfold chain
  rw [chainFrom_mapRoutines]
  simp only [mapRoutines, List.length_map]

theorem fieldHierarchy_mapRoutines (name : String) :
    (table.mapRoutines f).fieldHierarchy name = table.fieldHierarchy name := by
  unfold fieldHierarchy
  rw [chain_mapRoutines]
  cases table.chain name with
  | error cause => rfl
  | ok infos =>
      change Except.ok ((infos.map (ClassInfo.mapRoutines f)).flatMap (·.fields)) = _
      rw [List.flatMap_map]
      rfl

theorem fieldCount_mapRoutines (name : String) :
    (table.mapRoutines f).fieldCount name = table.fieldCount name := by
  unfold fieldCount
  rw [chain_mapRoutines]
  cases table.chain name with
  | error cause => rfl
  | ok infos =>
      change Except.ok ((infos.map (ClassInfo.mapRoutines f)).foldr _ 0) = _
      rw [List.foldr_map]
      rfl

variable (hname : ∀ owner r, (f owner r).name = r.name)
include hname

theorem findMethod?_mapRoutines (methods : List Method) (name : String) :
    findMethod? (methods.map (Method.mapRoutine f)) name =
      (findMethod? methods name).map (Method.mapRoutine f) := by
  unfold findMethod?
  rw [List.find?_map]
  congr 2
  funext m
  exact congrArg (· == name) (hname m.owner m.decl)

theorem lookup?_mapRoutines (className name : String) :
    (table.mapRoutines f).lookup? className name =
      (table.lookup? className name).map (Method.mapRoutine f) := by
  unfold lookup?
  split
  · exact findMethod?_mapRoutines hname table.top name
  · rw [chain_mapRoutines]
    cases table.chain className with
    | error cause => rfl
    | ok infos =>
        change (infos.map (ClassInfo.mapRoutines f)).findSome? (findMethod? ·.methods name) =
          (infos.findSome? (findMethod? ·.methods name)).map (Method.mapRoutine f)
        induction infos with
        | nil => rfl
        | cons info infos ih =>
            rw [List.map_cons, List.findSome?_cons, List.findSome?_cons, ih]
            have hfind : findMethod? (ClassInfo.mapRoutines f info).methods name = _ :=
              findMethod?_mapRoutines hname info.methods name
            rw [hfind]
            cases findMethod? info.methods name <;> rfl

end MapRoutines

section Build

variable {f : String → Routine → Routine} (hname : ∀ owner r, (f owner r).name = r.name)

theorem filterMap_id_map {α β : Type} (g : α → β) (l : List (Option α)) :
    (l.map (Option.map g)).filterMap id = (l.filterMap id).map g := by
  rw [List.filterMap_map, List.map_filterMap]
  rfl

include hname in
theorem addMethod_mapRoutine (owner : String) (acc : List Method) (left right : List Diagnostic)
    (r : Routine) :
    (addMethod owner (acc.map (Method.mapRoutine f), left) (f owner r)).1 =
      (addMethod owner (acc, right) r).1.map (Method.mapRoutine f) := by
  unfold addMethod
  simp only [hname, findMethod?_mapRoutines hname, Option.isSome_map]
  split
  · rfl
  · rw [List.map_append]
    rfl

include hname in
theorem collectMethods_mapRoutine (owner : String) (routines : List (Option Routine)) :
    (collectMethods owner (routines.map (Option.map (f owner)))).1 =
      (collectMethods owner routines).1.map (Method.mapRoutine f) := by
  have hfold : ∀ (rs : List Routine) (acc : List Method) (left right : List Diagnostic),
      ((rs.map (f owner)).foldl (addMethod owner) (acc.map (Method.mapRoutine f), left)).1 =
        (rs.foldl (addMethod owner) (acc, right)).1.map (Method.mapRoutine f) := by
    intro rs
    induction rs with
    | nil => intro acc left right; rfl
    | cons r rs ih =>
        intro acc left right
        rw [List.map_cons, List.foldl_cons, List.foldl_cons]
        have hstep := addMethod_mapRoutine hname owner acc left right r
        have hrest := ih (addMethod owner (acc, right) r).1
          (addMethod owner (acc.map (Method.mapRoutine f), left) (f owner r)).2
          (addMethod owner (acc, right) r).2
        rw [← hstep] at hrest
        exact hrest
  unfold collectMethods
  rw [filterMap_id_map]
  exact hfold _ [] [] []

end Build

/-- Every method collected for a scope is one of its routines. -/
theorem mem_collectMethods {owner : String} {routines : List (Option Routine)} {m : Method}
    (h : m ∈ (collectMethods owner routines).1) : m.owner = owner ∧ some m.decl ∈ routines := by
  have hfold : ∀ (rs : List Routine) (acc : List Method × List Diagnostic),
      m ∈ (rs.foldl (addMethod owner) acc).1 → m ∈ acc.1 ∨ m.owner = owner ∧ m.decl ∈ rs := by
    intro rs
    induction rs with
    | nil => exact fun acc hm => .inl hm
    | cons r rs ih =>
        intro acc hm
        rcases ih _ hm with hm | ⟨howner, hdecl⟩
        · unfold addMethod at hm
          split at hm
          · exact .inl hm
          · rcases List.mem_append.mp hm with hm | hm
            · exact .inl hm
            · rw [List.mem_singleton] at hm
              subst hm
              exact .inr ⟨rfl, List.mem_cons_self⟩
        · exact .inr ⟨howner, List.mem_cons_of_mem _ hdecl⟩
  rcases hfold _ _ h with hm | ⟨howner, hdecl⟩
  · cases hm
  · obtain ⟨r, hr, hid⟩ := List.mem_filterMap.mp hdecl
    rw [id_eq] at hid
    subst hid
    exact ⟨howner, hr⟩

/-- Every class of the table of a program is one of its classes. -/
theorem mem_classes_build {p : Program} {info : ClassInfo} (h : info ∈ (build p).1.classes) :
    ∃ decl, some decl ∈ p.classes ∧ info.name = decl.name ∧
      info.methods = (collectMethods decl.name decl.methods).1 := by
  have hfold : ∀ (ds : List ClassDecl) (acc : List ClassInfo × List Diagnostic),
      info ∈ (ds.foldl addClass acc).1 → info ∈ acc.1 ∨ ∃ decl ∈ ds, info.name = decl.name ∧
        info.methods = (collectMethods decl.name decl.methods).1 := by
    intro ds
    induction ds with
    | nil => exact fun acc hm => .inl hm
    | cons d ds ih =>
        intro acc hm
        rcases ih _ hm with hm | ⟨decl, hdecl, hinfo⟩
        · unfold addClass at hm
          split at hm
          · exact .inl hm
          · rcases List.mem_append.mp hm with hm | hm
            · exact .inl hm
            · rw [List.mem_singleton] at hm
              subst hm
              exact .inr ⟨d, List.mem_cons_self, rfl, rfl⟩
        · exact .inr ⟨decl, List.mem_cons_of_mem _ hdecl, hinfo⟩
  rcases hfold _ _ h with hm | ⟨decl, hdecl, hinfo⟩
  · cases hm
  · obtain ⟨d, hd, hid⟩ := List.mem_filterMap.mp hdecl
    rw [id_eq] at hid
    subst hid
    exact ⟨decl, hd, hinfo⟩

def methods (table : ClassTable) : List Method := table.top ++ table.classes.flatMap (·.methods)

theorem mem_methods_of_top {table : ClassTable} {name : String} {m : Method}
    (h : findMethod? table.top name = some m) : m ∈ table.top ∧ m ∈ table.methods := by
  have hmem := List.mem_of_find?_eq_some h
  exact ⟨hmem, List.mem_append_left _ hmem⟩

/-- Dispatch finds a routine of the top level, or a method of an ancestor. -/
theorem lookup?_cases {table : ClassTable} {className name : String} {m : Method}
    (h : table.lookup? className name = some m) :
    m ∈ table.methods ∧ ((className = "" ∧ m ∈ table.top) ∨
      ∃ infos, table.chain className = .ok infos ∧ ∃ info ∈ infos, m ∈ info.methods) := by
  unfold lookup? at h
  split at h
  · rename_i hempty
    obtain ⟨htop, hmem⟩ := mem_methods_of_top h
    exact ⟨hmem, .inl ⟨hempty, htop⟩⟩
  · cases hchain : table.chain className with
    | error cause =>
        rw [hchain] at h
        cases h
    | ok infos =>
        rw [hchain] at h
        obtain ⟨info, hinfo, hfind⟩ := List.exists_of_findSome?_eq_some h
        have hm := List.mem_of_find?_eq_some hfind
        obtain ⟨_, _, _, _, hdeclared, _⟩ := chain_of_mem hchain hinfo
        refine ⟨List.mem_append_right _ ?_, .inr ⟨infos, rfl, info, hinfo, hm⟩⟩
        exact List.mem_flatMap.mpr ⟨info, declared?_mem hdeclared, hm⟩

/-- Every method stands in the scope that it names as its owner. -/
def Owned (table : ClassTable) : Prop :=
  (∀ m ∈ table.top, m.owner = "") ∧ ∀ info ∈ table.classes, ∀ m ∈ info.methods, m.owner = info.name

theorem owned_build (p : Program) : (build p).1.Owned := by
  constructor
  · intro m hm
    exact (mem_collectMethods hm).1
  · intro info hinfo m hm
    obtain ⟨decl, -, hname, hmethods⟩ := mem_classes_build hinfo
    rw [hmethods] at hm
    rw [hname]
    exact (mem_collectMethods hm).1

theorem Owned.mapRoutines {table : ClassTable} (h : table.Owned) (f : String → Routine → Routine) :
    (table.mapRoutines f).Owned := by
  constructor
  · intro m hm
    obtain ⟨source, hsource, rfl⟩ := List.mem_map.mp hm
    exact h.1 source hsource
  · intro info hinfo m hm
    obtain ⟨info, hsource, rfl⟩ := List.mem_map.mp hinfo
    obtain ⟨source, hmem, rfl⟩ := List.mem_map.mp hm
    exact h.2 info hsource source hmem

theorem mem_methods_mapRoutines {table : ClassTable} {f : String → Routine → Routine} {m : Method}
    (h : m ∈ (table.mapRoutines f).methods) :
    ∃ source ∈ table.methods, m = source.mapRoutine f := by
  rcases List.mem_append.mp h with hm | hm
  · obtain ⟨source, hsource, rfl⟩ := List.mem_map.mp hm
    exact ⟨source, List.mem_append_left _ hsource, rfl⟩
  · obtain ⟨info, hinfo, hm⟩ := List.mem_flatMap.mp hm
    obtain ⟨plain, hplain, rfl⟩ := List.mem_map.mp hinfo
    obtain ⟨source, hsource, rfl⟩ := List.mem_map.mp hm
    exact ⟨source, List.mem_append_right _ (List.mem_flatMap.mpr ⟨plain, hplain, hsource⟩), rfl⟩

end ClassTable

namespace Layout

def placeIn (table : ClassTable) (owner : String) (r : Routine) : Routine :=
  placeRoutine (routineScope table owner r) r

theorem placeIn_name (table : ClassTable) (owner : String) (r : Routine) :
    (placeIn table owner r).name = r.name := rfl

theorem addClass_place {table : ClassTable} {decl : ClassDecl} (hknown : isKnown table decl = true)
    (acc : List ClassInfo) (left right : List Diagnostic) :
    (ClassTable.addClass (acc.map (ClassInfo.mapRoutines (placeIn table)), left)
        (placeClass table decl)).1 =
      (ClassTable.addClass (acc, right) decl).1.map (ClassInfo.mapRoutines (placeIn table)) := by
  have hmethods := ClassTable.collectMethods_mapRoutine (f := placeIn table) (fun _ _ => rfl) decl.name
    decl.methods
  have hany : (acc.map (ClassInfo.mapRoutines (placeIn table))).any (·.name == decl.name) =
      acc.any (·.name == decl.name) := by
    rw [List.any_map]
    rfl
  rw [placeClass, if_pos hknown]
  unfold ClassTable.addClass
  simp only [hany]
  split
  · rfl
  · rw [List.map_append]
    exact congrArg (fun ms => acc.map (ClassInfo.mapRoutines (placeIn table)) ++
      [(⟨decl.name, decl.parent, decl.span, decl.fields.map (·.name), ms⟩ : ClassInfo)]) hmethods

/-- The table of a placed program has the program's routines, placed. -/
theorem build_place {table : ClassTable} {p : Program}
    (hknown : ∀ decl, some decl ∈ p.classes → isKnown table decl = true) :
    (ClassTable.build (p.place table)).1 =
      (ClassTable.build p).1.mapRoutines (placeIn table) := by
  have hfold : ∀ (ds : List ClassDecl), (∀ decl ∈ ds, isKnown table decl = true) →
      ∀ (acc : List ClassInfo) (left right : List Diagnostic),
      ((ds.map (placeClass table)).foldl ClassTable.addClass
          (acc.map (ClassInfo.mapRoutines (placeIn table)), left)).1 =
        (ds.foldl ClassTable.addClass (acc, right)).1.map
          (ClassInfo.mapRoutines (placeIn table)) := by
    intro ds
    induction ds with
    | nil => intro _ acc left right; rfl
    | cons d ds ih =>
        intro hds acc left right
        rw [List.map_cons, List.foldl_cons, List.foldl_cons]
        have hstep := addClass_place (hds d List.mem_cons_self) acc left right
        have hrest := ih (fun decl hdecl => hds decl (List.mem_cons_of_mem _ hdecl))
          (ClassTable.addClass (acc, right) d).1
          (ClassTable.addClass (acc.map (ClassInfo.mapRoutines (placeIn table)), left)
            (placeClass table d)).2
          (ClassTable.addClass (acc, right) d).2
        rw [← hstep] at hrest
        exact hrest
  have hclasses : ∀ decl ∈ p.classes.filterMap id, isKnown table decl = true := by
    intro decl hdecl
    obtain ⟨d, hd, hid⟩ := List.mem_filterMap.mp hdecl
    rw [id_eq] at hid
    subst hid
    exact hknown decl hd
  have htop := ClassTable.collectMethods_mapRoutine (f := placeIn table) (fun _ _ => rfl) "" p.routines
  have hall := hfold _ hclasses [] [] []
  rw [← ClassTable.filterMap_id_map] at hall
  exact congrArg₂ ClassTable.mk htop hall

/-! ### Programs with a layout -/

variable {p : Program} {table : ClassTable}

theorem isKnown_of_layoutErrors (h : p.layoutErrors table = []) {decl : ClassDecl}
    (hdecl : some decl ∈ p.classes) : isKnown table decl = true := by
  have hclasses := (List.append_eq_nil_iff.mp h).2
  have herrors := List.flatMap_eq_nil_iff.mp hclasses decl
    (List.mem_filterMap.mpr ⟨some decl, hdecl, rfl⟩)
  cases hknown : isKnown table decl with
  | true => rfl
  | false =>
      rw [classErrors, if_neg (by simp [hknown])] at herrors
      cases herrors

theorem resolved_of_routineErrors {owner : String} {r : Routine}
    (h : routineErrors table owner r = []) :
    Resolved (routineOutcomes (routineScope table owner r) r) := by
  intro o ho
  have hnone := List.filterMap_eq_nil_iff.mp h o ho
  cases o with
  | error cause => cases hnone
  | ok placement => exact ⟨placement, rfl⟩

/-- In a program without layout errors every variable of every method has a slot. -/
theorem resolved_of_layoutErrors (h : p.layoutErrors table = []) {m : Method}
    (hm : m ∈ (ClassTable.build p).1.methods) :
    Resolved (routineOutcomes (routineScope table m.owner m.decl) m.decl) := by
  obtain ⟨htop, hclasses⟩ := List.append_eq_nil_iff.mp h
  rcases List.mem_append.mp hm with hm | hm
  · obtain ⟨howner, hdecl⟩ := ClassTable.mem_collectMethods hm
    rw [howner]
    exact resolved_of_routineErrors (List.flatMap_eq_nil_iff.mp htop m.decl
      (List.mem_filterMap.mpr ⟨some m.decl, hdecl, rfl⟩))
  · obtain ⟨info, hinfo, hm⟩ := List.mem_flatMap.mp hm
    obtain ⟨decl, hdecl, -, hmethods⟩ := ClassTable.mem_classes_build hinfo
    rw [hmethods] at hm
    obtain ⟨howner, hroutine⟩ := ClassTable.mem_collectMethods hm
    have herrors := List.flatMap_eq_nil_iff.mp hclasses decl
      (List.mem_filterMap.mpr ⟨some decl, hdecl, rfl⟩)
    rw [classErrors, if_pos (isKnown_of_layoutErrors h hdecl)] at herrors
    rw [howner]
    exact resolved_of_routineErrors (List.flatMap_eq_nil_iff.mp herrors m.decl
      (List.mem_filterMap.mpr ⟨some m.decl, hroutine, rfl⟩))

end Layout

end ObjectLang
