import Mathlib.Data.List.Forall2
import ObjectLang.Proofs.AllocatorWalks
import ObjectLang.Proofs.PlacedTable
import ObjectLang.Proofs.ScopeTexts

/-! The rule of scope. A name means the first parameter of that name, else the last local in scope of
that name, else the field of that name that is nearest to the base class. The allocator gives each use
of a variable the slot that its name means there, notes the uses with a slot in order and an error for
each other one, and gives each routine as many slots as there are ever locals in scope at once. -/

namespace ObjectLang

namespace ScopeRule

open Layout

/-- The first place at which a name stands. -/
def First (names : List String) (name : String) (i : Nat) : Prop :=
  names[i]? = some name ∧ ∀ j, j < i → names[j]? ≠ some name

/-- The last place at which a name stands. -/
def Last (names : List String) (name : String) (i : Nat) : Prop :=
  names[i]? = some name ∧ ∀ j, i < j → names[j]? ≠ some name

/-- The slot that a name means. The fields of a class are listed after those of the classes derived
from it, and counted from the base class upward. -/
inductive Means (scope : Scope) (locals : List String) (name : String) : Slot → Prop
  | param {i : Nat} (h : First scope.params name i) : Means scope locals name (.frame (-3 - i))
  | localVar {j : Nat} (hparam : name ∉ scope.params) (h : Last locals name j) :
    Means scope locals name (.frame (1 + j))
  | field {hierarchy : List String} {i : Nat} (hparam : name ∉ scope.params)
    (hlocal : name ∉ locals) (hfields : scope.fields = .ok hierarchy)
    (h : First hierarchy.reverse name i) : Means scope locals name (.field i)

def complaint (scope : Scope) (name : String) : LayoutError :=
  match scope.fields with
  | .error cause => .badChain cause
  | .ok _ => .unbound name scope.className

/-- What the rule makes of a use. -/
inductive Decides (scope : Scope) (u : Use) : Outcome → Prop
  | resolved {slot : Slot} (h : Means scope u.locals u.var.name slot) :
    Decides scope u (.ok ⟨u.var.name, slot⟩)
  | unresolved (h : ∀ slot, ¬ Means scope u.locals u.var.name slot) :
    Decides scope u (.error (complaint scope u.var.name))

/-- A use after an outcome: it has the slot that it was given, or the one that it had. -/
def Use.after (u : Use) : Outcome → Use
  | .ok p => { u with var := { u.var with slot := p.slot } }
  | .error _ => u

/-- A routine was placed, laid out and found fault with as the rule says. -/
structure Follows (scope : Scope) (r placed : Routine) (layout : RoutineLayout)
    (errors : List LayoutError) : Prop where
  owner : layout.owner = scope.className
  name : layout.name = r.name
  /-- Each use has an outcome: the placed ones are the variables of the layout, in order, and each
  other one is an error. -/
  uses : ∃ outcomes, List.Forall₂ (Decides scope) (routineUses r) outcomes ∧
    routineUses placed = List.zipWith Use.after (routineUses r) outcomes ∧
    layout.vars = outcomes.filterMap Except.toOption ∧ errors = outcomes.filterMap error?
  /-- As long as it is in scope, a declaration has the offset that a use of it is given. -/
  stable : ∀ start, start <+: routineText r → ∀ (j : Nat) (d : Declaration),
    (inScope 0 start)[j]? = some d → slotOffset (routineText r) d = 1 + j
  /-- Declarations in scope at the same time have different offsets. -/
  apart : ∀ start, start <+: routineText r → ∀ d ∈ inScope 0 start, ∀ d' ∈ inScope 0 start,
    slotOffset (routineText r) d = slotOffset (routineText r) d' → d = d'
  /-- There are as many slots as there are locals in scope where they are most. -/
  slots : IsGreatest {n | ∃ start, start <+: routineText r ∧ (localsAfter start).length = n}
    layout.slots
  stackSlots : placed.stackSlots = layout.slots

/-- What a walk through a program comes by: a routine in the scope that declares it, or a class that it
leaves out. -/
inductive Visit where
  | routine (owner : String) (r : Routine)
  | leftOut (className : String)

/-- What a walk through a class comes by. -/
def classVisits (table : ClassTable) (decl : ClassDecl) : List Visit :=
  if (table.scope? decl.name).isSome then (decl.methods.filterMap id).map (.routine decl.name)
  else [.leftOut decl.name]

/-- What a walk through a program comes by: the routines of the top level, then the methods of each
class that the table knows. -/
def programVisits (table : ClassTable) (p : Program) : List Visit :=
  (p.routines.filterMap id).map (.routine "") ++
    (p.classes.filterMap id).flatMap (classVisits table)

/-- What is left of a visit, and the layouts and errors that it adds. -/
structure Report where
  after : Visit
  layouts : List RoutineLayout
  errors : List LayoutError

/-- What the rule asks of a visit. -/
inductive Obeys (table : ClassTable) : Visit → Report → Prop
  | routine {owner : String} {r placed : Routine} {layout : RoutineLayout}
    {errors : List LayoutError}
    (h : Follows ⟨owner, r.params.map (·.name), table.fieldHierarchy owner⟩ r placed layout errors) :
    Obeys table (.routine owner r) ⟨.routine owner placed, [layout], errors⟩
  | leftOut {className : String} :
    Obeys table (.leftOut className) ⟨.leftOut className, [], [.unknownClass className]⟩

section Outcomes

variable {scope : Scope}

mutual

theorem view_stmtText : (s : Stmt) → (locals : List String) →
    view (outcome scope) locals (stmtText s) = stmtOutcomes scope locals s
  | .missing, _ => rfl
  | .block b, locals => view_blockText b locals
  | .declare _ _ _, _ => rfl
  | .branch _ cond onTrue onFalse, locals => by
      rw [stmtText, stmtOutcomes, view_append _ _ ((balanced_blockText onTrue).append
          (balanced_blockText onFalse)).keeps,
        view_append _ _ (balanced_blockText onFalse).keeps, view_varsText, localsAfter_varsText,
        localsAfter_blockText, List.append_nil, List.append_nil, view_blockText onTrue,
        view_blockText onFalse, List.append_assoc]
      rfl
  | .loop _ cond body, locals => by
      rw [stmtText, stmtOutcomes, view_append _ _ (balanced_blockText body).keeps, view_varsText,
        localsAfter_varsText, List.append_nil, view_blockText body]
      rfl
  | .output _ _, locals => view_varsText _ locals _
  | .assign _ _ _, locals => view_varsText _ locals _
  | .assignIndex _ _ _ _, locals => by
      rw [stmtText, view_varsText, List.map_append, List.map_append]
      rfl
  | .call _ _ _ _ _, locals => by
      rw [stmtText, view_varsText, List.map_append]
      rfl

theorem view_blockText : (b : Block) → (locals : List String) →
    view (outcome scope) locals (blockText b) = blockOutcomes scope locals b
  | .absent, _ => rfl
  | .mk _ _ body, locals => by
      rw [blockText, view_enclosed _ _ (balanced_stmtsText body).keeps]
      exact view_stmtsText body locals

theorem view_stmtsText : (ss : List Stmt) → (locals : List String) →
    view (outcome scope) locals (stmtsText ss) = stmtsOutcomes scope locals ss
  | [], _ => rfl
  | s :: ss, locals => by
      rw [stmtsText, view_append _ _ (balanced_stmtsText ss).keeps, view_stmtText s,
        localsAfter_stmtText, view_stmtsText ss]
      rfl

end

section Placed

variable {α : Type} (g : List String → Var → α)

/-- A view of placed code is a view of the code through placed variables. -/
theorem view_place_vars (locals : List String) (vars : List Var) :
    view g locals (varsText (vars.map (placeVar scope locals))) =
      view (fun locals v => g locals (placeVar scope locals v)) locals (varsText vars) := by
  rw [view_varsText, view_varsText, List.map_map]
  rfl

mutual

theorem view_placeStmt : (s : Stmt) → (locals : List String) →
    view g locals (stmtText (placeStmt scope locals s)) =
      view (fun locals v => g locals (placeVar scope locals v)) locals (stmtText s)
  | .missing, _ => rfl
  | .block b, locals => view_placeBlock b locals
  | .declare _ _ _, _ => rfl
  | .branch _ cond onTrue onFalse, locals => by
      rw [placeStmt, stmtText, stmtText]
      simp only [view_append _ _ ((balanced_blockText _).append (balanced_blockText _)).keeps,
        view_append _ _ (balanced_blockText _).keeps, localsAfter_varsText, localsAfter_blockText,
        List.append_nil, exprVars_place, view_place_vars, view_placeBlock onTrue,
        view_placeBlock onFalse]
  | .loop _ cond body, locals => by
      rw [placeStmt, stmtText, stmtText]
      simp only [view_append _ _ (balanced_blockText _).keeps, localsAfter_varsText,
        List.append_nil, exprVars_place, view_place_vars, view_placeBlock body]
  | .output _ value, locals => by
      rw [placeStmt, stmtText, stmtText, exprVars_place, view_place_vars]
  | .assign _ v value, locals => by
      rw [placeStmt, stmtText, stmtText, exprVars_place, ← List.map_cons, view_place_vars]
  | .assignIndex _ array index value, locals => by
      rw [placeStmt, stmtText, stmtText, exprVars_place, exprVars_place, exprVars_place,
        ← List.map_append, ← List.map_append, view_place_vars]
  | .call _ receiver _ _ args, locals => by
      rw [placeStmt, stmtText, stmtText, exprVars_place, exprsVars_place, ← List.map_append,
        view_place_vars]

theorem view_placeBlock : (b : Block) → (locals : List String) →
    view g locals (blockText (placeBlock scope locals b)) =
      view (fun locals v => g locals (placeVar scope locals v)) locals (blockText b)
  | .absent, _ => rfl
  | .mk _ _ body, locals => by
      rw [placeBlock, blockText, blockText, view_enclosed _ _ (balanced_stmtsText _).keeps,
        view_enclosed _ _ (balanced_stmtsText _).keeps]
      exact view_placeStmts body locals

theorem view_placeStmts : (ss : List Stmt) → (locals : List String) →
    view g locals (stmtsText (placeStmts scope locals ss)) =
      view (fun locals v => g locals (placeVar scope locals v)) locals (stmtsText ss)
  | [], _ => rfl
  | s :: ss, locals => by
      rw [placeStmts, stmtsText, stmtsText, view_append _ _ (balanced_stmtsText _).keeps,
        view_append _ _ (balanced_stmtsText _).keeps, localsAfter_stmtText, localsAfter_stmtText,
        declared_placeStmt, view_placeStmt s, view_placeStmts ss]

end

end Placed

theorem uses_eq_view (text : List Mark) : uses [] text = view Use.mk [] text :=
  (List.map_id' _).symm

/-- The outcomes of a routine are those of its uses. -/
theorem outcomes_eq_uses (r : Routine) :
    routineOutcomes scope r = (routineUses r).map fun u => outcome scope u.locals u.var := by
  have hview : (routineUses r).map (fun u => outcome scope u.locals u.var) =
      view (outcome scope) [] (routineText r) := rfl
  rw [hview, routineText, view_append _ _ (balanced_varsText _).keeps, view_stmtsText,
    localsAfter_stmtsText, view_varsText, List.nil_append, routineOutcomes]
  cases r.returns <;> rfl

/-- The uses of a placed routine are its uses, placed. -/
theorem uses_placeRoutine (r : Routine) :
    routineUses (placeRoutine scope r) =
      (routineUses r).map fun u => ⟨u.locals, placeVar scope u.locals u.var⟩ := by
  have hresult : resultVars ((placeRoutine scope r).returns.map (·.result)) =
      (resultVars (r.returns.map (·.result))).map (placeVar scope (bodyLocals r.body)) := by
    unfold placeRoutine
    cases r.returns with
    | none => rfl
    | some returns => exact exprVars_place _ _
  have hview : (routineUses r).map (fun u => Use.mk u.locals (placeVar scope u.locals u.var)) =
      view (fun locals v => Use.mk locals (placeVar scope locals v)) [] (routineText r) := rfl
  rw [hview, routineUses, uses_eq_view, routineText, routineText, hresult,
    view_append _ _ (balanced_varsText _).keeps, view_append _ _ (balanced_varsText _).keeps]
  show view _ _ (stmtsText (placeStmts scope [] r.body)) ++ view _ (_ ++ localsAfter
    (stmtsText (placeStmts scope [] r.body))) _ = _
  rw [view_placeStmts, localsAfter_stmtsText, localsAfter_stmtsText, bodyLocals_placeStmts,
    List.nil_append, view_place_vars]

theorem idxOf?_eq_some_iff_first {names : List String} {name : String} {i : Nat} :
    names.idxOf? name = some i ↔ First names name i := by
  rw [List.idxOf?_eq_some_iff]
  constructor
  · rintro ⟨hi, hname, hfirst⟩
    refine ⟨List.getElem?_eq_some_iff.mpr ⟨hi, hname⟩, fun j hj hfound => ?_⟩
    exact hfirst j hj (List.getElem?_eq_some_iff.mp hfound).2
  · rintro ⟨hname, hfirst⟩
    obtain ⟨hi, hname⟩ := List.getElem?_eq_some_iff.mp hname
    exact ⟨hi, hname, fun j hj hfound =>
      hfirst j hj (List.getElem?_eq_some_iff.mpr ⟨Nat.lt_trans hj hi, hfound⟩)⟩

/-- The last place of a name is its first one from the end. -/
theorem first_reverse_iff_last {names : List String} {name : String} {i : Nat} (hi : i < names.length) :
    First names.reverse name i ↔ Last names name (names.length - 1 - i) := by
  unfold First Last
  rw [List.getElem?_reverse hi]
  refine and_congr_right fun _ => ⟨fun h j hj hfound => ?_, fun h j hj hfound => ?_⟩
  · have hj' : j < names.length := (List.getElem?_eq_some_iff.mp hfound).1
    refine h (names.length - 1 - j) (by omega) ?_
    rw [List.getElem?_reverse (by omega), show names.length - 1 - (names.length - 1 - j) = j by omega]
    exact hfound
  · rw [List.getElem?_reverse (by omega)] at hfound
    exact h _ (by omega) hfound

theorem lastIndex?_eq_some_iff_last {names : List String} {name : String} {j : Nat} :
    lastIndex? names name = some j ↔ Last names name j := by
  unfold lastIndex?
  rw [Option.map_eq_some_iff]
  constructor
  · rintro ⟨i, hi, rfl⟩
    have hfirst := idxOf?_eq_some_iff_first.mp hi
    have hlt : i < names.length := by
      have hlt' := (List.getElem?_eq_some_iff.mp hfirst.1).1
      rwa [List.length_reverse] at hlt'
    exact (first_reverse_iff_last hlt).mp hfirst
  · intro hlast
    have hlt : j < names.length := (List.getElem?_eq_some_iff.mp hlast.1).1
    refine ⟨names.length - 1 - j, idxOf?_eq_some_iff_first.mpr ?_, by omega⟩
    rw [first_reverse_iff_last (by omega),
      show names.length - 1 - (names.length - 1 - j) = j by omega]
    exact hlast

theorem lastIndex?_eq_none_iff {names : List String} {name : String} :
    lastIndex? names name = none ↔ name ∉ names := by
  rw [lastIndex?, Option.map_eq_none_iff, List.idxOf?_eq_none_iff, List.mem_reverse]

theorem fieldOffset?_eq_some_iff {hierarchy : List String} {name : String} {offset : Int} :
    fieldOffset? hierarchy name = some offset ↔
      ∃ i : Nat, First hierarchy.reverse name i ∧ (i : Int) = offset := by
  rw [fieldOffset?_eq, Option.map_eq_some_iff]
  simp only [idxOf?_eq_some_iff_first]

/-- A name is given the slot that it means. -/
theorem resolve_eq_ok_iff {locals : List String} {name : String} {slot : Slot} :
    resolve scope locals name = .ok slot ↔ Means scope locals name slot := by
  constructor
  · intro h
    rcases resolve_cases h with ⟨i, hparam, -, rfl⟩ | ⟨hparam, j, hlocal, -, rfl⟩ |
      ⟨hparam, hlocal, hierarchy, offset, hfields, hoffset, rfl⟩
    · exact .param (idxOf?_eq_some_iff_first.mp hparam)
    · exact .localVar (List.idxOf?_eq_none_iff.mp hparam) (lastIndex?_eq_some_iff_last.mp hlocal)
    · obtain ⟨i, hfirst, rfl⟩ := fieldOffset?_eq_some_iff.mp hoffset
      exact .field (List.idxOf?_eq_none_iff.mp hparam) (lastIndex?_eq_none_iff.mp hlocal) hfields
        hfirst
  · intro h
    unfold resolve
    cases h with
    | param hfirst =>
        rw [idxOf?_eq_some_iff_first.mpr hfirst]
        rfl
    | localVar hparam hlast =>
        rw [List.idxOf?_eq_none_iff.mpr hparam, lastIndex?_eq_some_iff_last.mpr hlast]
        rfl
    | field hparam hlocal hfields hfirst =>
        rw [List.idxOf?_eq_none_iff.mpr hparam, lastIndex?_eq_none_iff.mpr hlocal, hfields]
        dsimp only
        rw [fieldOffset?_eq_some_iff.mpr ⟨_, hfirst, rfl⟩]

/-- A name means one slot at most. -/
theorem Means.unique {locals : List String} {name : String} {slot slot' : Slot}
    (h : Means scope locals name slot) (h' : Means scope locals name slot') : slot = slot' :=
  Except.ok.inj ((resolve_eq_ok_iff.mpr h).symm.trans (resolve_eq_ok_iff.mpr h'))

theorem complaint_of_resolve {locals : List String} {name : String} {e : LayoutError}
    (h : resolve scope locals name = .error e) : e = complaint scope name := by
  unfold resolve at h
  cases hparam : scope.params.idxOf? name with
  | some i =>
      rw [hparam] at h
      cases h
  | none =>
      cases hlocal : lastIndex? locals name with
      | some j =>
          rw [hparam, hlocal] at h
          cases h
      | none =>
          simp only [hparam, hlocal] at h
          unfold complaint
          cases hfields : scope.fields with
          | error cause =>
              rw [hfields] at h
              cases h
              rfl
          | ok hierarchy =>
              simp only [hfields] at h
              cases hoffset : fieldOffset? hierarchy name with
              | some offset =>
                  rw [hoffset] at h
                  cases h
              | none =>
                  rw [hoffset] at h
                  cases h
                  rfl

/-- The outcome for a use is what the rule makes of it. -/
theorem decides_outcome (u : Use) : Decides scope u (outcome scope u.locals u.var) := by
  cases hslot : resolve scope u.locals u.var.name with
  | ok slot =>
      have houtcome : outcome scope u.locals u.var = .ok ⟨u.var.name, slot⟩ := by
        rw [outcome, hslot]
        rfl
      rw [houtcome]
      exact .resolved (resolve_eq_ok_iff.mp hslot)
  | error e =>
      have houtcome : outcome scope u.locals u.var = .error (complaint scope u.var.name) := by
        rw [outcome, hslot, complaint_of_resolve hslot]
        rfl
      rw [houtcome]
      refine .unresolved fun slot hmeans => ?_
      have hok := resolve_eq_ok_iff.mpr hmeans
      rw [hslot] at hok
      cases hok

theorem after_outcome (u : Use) :
    u.after (outcome scope u.locals u.var) = ⟨u.locals, placeVar scope u.locals u.var⟩ := by
  unfold outcome placeVar
  cases resolve scope u.locals u.var.name <;> rfl

end Outcomes

/-- Layout follows the rule in every routine. -/
theorem follows_placeRoutine (table : ClassTable) (owner : String) (r : Routine) :
    Follows (routineScope table owner r) r (placeRoutine (routineScope table owner r) r)
      (routineLayout table owner r) (routineErrors table owner r) where
  owner := rfl
  name := rfl
  uses := by
    refine ⟨(routineUses r).map fun u => outcome (routineScope table owner r) u.locals u.var,
      ?_, ?_, ?_, ?_⟩
    · rw [List.forall₂_map_right_iff, List.forall₂_same]
      exact fun u _ => decides_outcome u
    · rw [uses_placeRoutine, List.zipWith_map_right, List.zipWith_self]
      exact List.map_congr_left fun u _ => (after_outcome u).symm
    · rw [← outcomes_eq_uses]
      rfl
    · rw [← outcomes_eq_uses]
      rfl
  stable := fun start hstart j d hd => slotOffset_eq hstart hd
  apart := fun start hstart d hd d' hd' heq => eq_of_slotOffset_eq hstart hd hd' heq
  slots := by
    have hpeak := peak_routineText r
    simp only [Peak, Nat.zero_add] at hpeak
    exact hpeak
  stackSlots := rfl

/-! ### Programs -/

/-- What layout makes of a visit. -/
def report (table : ClassTable) : Visit → Report
  | .routine owner r =>
    ⟨.routine owner (placeRoutine (routineScope table owner r) r), [routineLayout table owner r],
      routineErrors table owner r⟩
  | .leftOut className => ⟨.leftOut className, [], [.unknownClass className]⟩

theorem obeys_report (table : ClassTable) (v : Visit) : Obeys table v (report table v) := by
  cases v with
  | routine owner r => exact .routine (follows_placeRoutine table owner r)
  | leftOut className => exact .leftOut

section Visits

variable {table : ClassTable}

/-- Routines after they were placed, as visits. -/
theorem routines_place (owner : String) (rs : List (Option Routine)) :
    ((rs.map (Option.map fun r => placeRoutine (routineScope table owner r) r)).filterMap id).map
        (Visit.routine owner) =
      ((rs.filterMap id).map (Visit.routine owner)).map fun v => (report table v).after := by
  rw [ClassTable.filterMap_id_map, List.map_map, List.map_map]
  rfl

theorem classVisits_place (decl : ClassDecl) :
    classVisits table (placeClass table decl) =
      (classVisits table decl).map fun v => (report table v).after := by
  unfold classVisits placeClass isKnown
  by_cases hknown : (table.scope? decl.name).isSome = true
  · simp only [if_pos hknown]
    exact routines_place decl.name decl.methods
  · simp only [if_neg hknown]
    rfl

theorem programVisits_place (p : Program) :
    programVisits table (p.place table) =
      (programVisits table p).map fun v => (report table v).after := by
  unfold programVisits Program.place
  rw [List.map_append, List.map_flatMap]
  dsimp only
  congr 1
  · exact routines_place "" p.routines
  · show ((p.classes.map (Option.map (placeClass table))).filterMap id).flatMap _ = _
    rw [ClassTable.filterMap_id_map, List.flatMap_map]
    exact List.flatMap_congr fun decl _ => classVisits_place decl

/-- Layouts and errors are those of the visits. -/
theorem layouts_eq_visits (p : Program) :
    p.layouts table = (programVisits table p).flatMap fun v => (report table v).layouts := by
  unfold programVisits Program.layouts
  rw [List.flatMap_append, List.flatMap_assoc, List.flatMap_map]
  congr 1
  · exact List.map_eq_flatMap
  · refine List.flatMap_congr fun decl _ => ?_
    unfold classVisits classLayouts isKnown
    split
    · rw [List.flatMap_map]
      exact List.map_eq_flatMap
    · rfl

theorem errors_eq_visits (p : Program) :
    p.layoutErrors table = (programVisits table p).flatMap fun v => (report table v).errors := by
  unfold programVisits Program.layoutErrors
  rw [List.flatMap_append, List.flatMap_assoc, List.flatMap_map]
  congr 1
  refine List.flatMap_congr fun decl _ => ?_
  unfold classVisits classErrors isKnown
  split
  · rw [List.flatMap_map]
    rfl
  · rfl

end Visits

/-- **The allocator resolves names by the rule of scope.** Whatever it has walked before, a walk through
a program comes by the routines of the top level and by the methods of the classes that the table knows.
Each of them is placed, laid out and found fault with as the rule says, and there are no other layouts
and no other errors than these, but for the classes that were left out. -/
theorem walk_resolves_by_scope (table : ClassTable) (history : List (Option Program)) (p : Program) :
    ∃ placed a reports,
      (Allocator.program (some p)).run (Allocator.used table history) = (some placed, a) ∧
      List.Forall₂ (Obeys table) (programVisits table p) reports ∧
      programVisits table placed = reports.map (·.after) ∧
      a.layouts = reports.flatMap (·.layouts) ∧ a.errors = reports.flatMap (·.errors) := by
  obtain ⟨a, hrun, hlayouts, herrors⟩ := Allocator.run_used table history p
  refine ⟨p.place table, a, (programVisits table p).map (report table), hrun, ?_, ?_, ?_, ?_⟩
  · rw [List.forall₂_map_right_iff, List.forall₂_same]
    exact fun v _ => obeys_report table v
  · rw [programVisits_place, List.map_map]
    rfl
  · rw [hlayouts, layouts_eq_visits, List.flatMap_map]
  · rw [herrors, errors_eq_visits, List.flatMap_map]

end ScopeRule

end ObjectLang
