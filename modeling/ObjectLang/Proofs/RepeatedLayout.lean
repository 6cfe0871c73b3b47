import ObjectLang.Interpreter
import ObjectLang.Proofs.AllocatorWalks
import ObjectLang.Proofs.PlacedTable
import ObjectLang.Proofs.Trees

/-! Layout can be repeated. What layout finds in a tree does not depend on the annotations that are in
it, and all that placing changes are annotations. So a program that was placed is laid out as before,
and a variable that was placed is given the slot that it has. -/

namespace ObjectLang

/-- Clears the annotations. -/
def Change.erase : Change := ⟨fun _ => .unresolved, fun _ => 0, id⟩

namespace Layout

variable {scope : Scope} {table : ClassTable}

/-- Two changes of whatever is not missing are one change of it. -/
theorem map_map_option {α β γ : Type} {f : α → β} {g : β → γ} {h : α → γ} (hboth : ∀ x, g (f x) = h x)
    (l : List (Option α)) : (l.map (Option.map f)).map (Option.map g) = l.map (Option.map h) := by
  rw [List.map_map]
  refine List.map_congr_left fun x _ => ?_
  cases x with
  | none => rfl
  | some x => exact congrArg some (hboth x)

section Change

variable (c : Change)

mutual

theorem exprVars_change : (e : Expr) → exprVars (e.change c) = (exprVars e).map (Var.change c)
  | .missing | .integer _ _ | .truth _ _ | .self _ | .var _ _ => rfl
  | .not _ operand => exprVars_change operand
  | .isNull _ operand => exprVars_change operand
  | .length _ array => exprVars_change array
  | .newArray _ _ length => exprVars_change length
  | .newObject _ _ _ args => exprsVars_change args
  | .binary _ _ left right => by
      rw [Expr.change, exprVars, exprVars, List.map_append, exprVars_change left,
        exprVars_change right]
  | .index _ array index => by
      rw [Expr.change, exprVars, exprVars, List.map_append, exprVars_change array,
        exprVars_change index]
  | .call _ receiver _ _ args => by
      rw [Expr.change, exprVars, exprVars, List.map_append, exprVars_change receiver,
        exprsVars_change args]

theorem exprsVars_change : (es : List Expr) →
    exprsVars (Expr.changeAll c es) = (exprsVars es).map (Var.change c)
  | [] => rfl
  | e :: es => by
      rw [Expr.changeAll, exprsVars, exprsVars, List.map_append, exprVars_change e,
        exprsVars_change es]

end

/-- The outcome for a variable depends on its name only. -/
theorem exprOutcomes_change (locals : List String) (e : Expr) :
    exprOutcomes scope locals (e.change c) = exprOutcomes scope locals e := by
  rw [exprOutcomes, exprVars_change, List.map_map]
  rfl

theorem exprsOutcomes_change (locals : List String) (es : List Expr) :
    exprsOutcomes scope locals (Expr.changeAll c es) = exprsOutcomes scope locals es := by
  rw [exprsOutcomes, exprsVars_change, List.map_map]
  rfl

theorem declared_change (s : Stmt) : declared (s.change c) = declared s := by
  cases s <;> rfl

theorem bodyLocals_change (ss : List Stmt) : bodyLocals (Stmt.changeAll c ss) = bodyLocals ss := by
  rw [bodyLocals, Stmt.changeAll_eq_map, List.flatMap_map]
  exact List.flatMap_congr fun s _ => declared_change c s

mutual

theorem stmtOutcomes_change : (s : Stmt) → (locals : List String) →
    stmtOutcomes scope locals (s.change c) = stmtOutcomes scope locals s
  | .missing, _ | .declare _ _ _, _ => rfl
  | .block b, locals => blockOutcomes_change b locals
  | .branch _ cond onTrue onFalse, locals => by
      rw [Stmt.change, stmtOutcomes, stmtOutcomes, exprOutcomes_change,
        blockOutcomes_change onTrue, blockOutcomes_change onFalse]
  | .loop _ cond body, locals => by
      rw [Stmt.change, stmtOutcomes, stmtOutcomes, exprOutcomes_change, blockOutcomes_change body]
  | .output _ value, locals => exprOutcomes_change c locals value
  | .assign _ v value, locals => by
      rw [Stmt.change, stmtOutcomes, stmtOutcomes, exprOutcomes_change]
      rfl
  | .assignIndex _ array index value, locals => by
      rw [Stmt.change, stmtOutcomes, stmtOutcomes, exprOutcomes_change, exprOutcomes_change,
        exprOutcomes_change]
  | .call _ receiver _ _ args, locals => by
      rw [Stmt.change, stmtOutcomes, stmtOutcomes, exprOutcomes_change, exprsOutcomes_change]

theorem blockOutcomes_change : (b : Block) → (locals : List String) →
    blockOutcomes scope locals (b.change c) = blockOutcomes scope locals b
  | .absent, _ => rfl
  | .mk _ _ body, locals => stmtsOutcomes_change body locals

theorem stmtsOutcomes_change : (ss : List Stmt) → (locals : List String) →
    stmtsOutcomes scope locals (Stmt.changeAll c ss) = stmtsOutcomes scope locals ss
  | [], _ => rfl
  | s :: ss, locals => by
      rw [Stmt.changeAll, stmtsOutcomes, stmtsOutcomes, stmtOutcomes_change s, declared_change,
        stmtsOutcomes_change ss]

end

mutual

theorem stmtPeak_change : (s : Stmt) → (count : Nat) → stmtPeak count (s.change c) = stmtPeak count s
  | .missing, _ | .declare _ _ _, _ | .output _ _, _ | .assign _ _ _, _
  | .assignIndex _ _ _ _, _ | .call _ _ _ _ _, _ => rfl
  | .block b, count => blockPeak_change b count
  | .branch _ cond onTrue onFalse, count => by
      rw [Stmt.change, stmtPeak, stmtPeak, blockPeak_change onTrue, blockPeak_change onFalse]
  | .loop _ cond body, count => blockPeak_change body count

theorem blockPeak_change : (b : Block) → (count : Nat) →
    blockPeak count (b.change c) = blockPeak count b
  | .absent, _ => rfl
  | .mk _ _ body, count => stmtsPeak_change body count

theorem stmtsPeak_change : (ss : List Stmt) → (count : Nat) →
    stmtsPeak count (Stmt.changeAll c ss) = stmtsPeak count ss
  | [], _ => rfl
  | s :: ss, count => by
      rw [Stmt.changeAll, stmtsPeak, stmtsPeak, stmtPeak_change s, declared_change,
        stmtsPeak_change ss]

end

theorem routineOutcomes_change (r : Routine) :
    routineOutcomes scope (r.change c) = routineOutcomes scope r := by
  unfold routineOutcomes Routine.change
  dsimp only
  rw [stmtsOutcomes_change, bodyLocals_change]
  cases r.returns with
  | none => rfl
  | some returns => exact congrArg (_ ++ ·) (exprOutcomes_change c _ returns.result)

theorem routineLayout_change (owner : String) (r : Routine) :
    routineLayout table owner (r.change c) = routineLayout table owner r := by
  have hscope : routineScope table owner (r.change c) = routineScope table owner r := rfl
  have hpeak : stmtsPeak 0 (r.change c).body = stmtsPeak 0 r.body := stmtsPeak_change c r.body 0
  rw [routineLayout, routineLayout, hscope, hpeak, routineOutcomes_change]
  rfl

theorem routineErrors_change (owner : String) (r : Routine) :
    routineErrors table owner (r.change c) = routineErrors table owner r := by
  have hscope : routineScope table owner (r.change c) = routineScope table owner r := rfl
  rw [routineErrors, routineErrors, hscope, routineOutcomes_change]

theorem classLayouts_change (decl : ClassDecl) :
    classLayouts table (decl.change c) = classLayouts table decl := by
  unfold classLayouts
  have hmethods : ((decl.change c).methods.filterMap id).map (routineLayout table decl.name) =
      (decl.methods.filterMap id).map (routineLayout table decl.name) := by
    rw [ClassDecl.change, ClassTable.filterMap_id_map, List.map_map]
    exact List.map_congr_left fun r _ => routineLayout_change c decl.name r
  exact if_congr Iff.rfl hmethods rfl

theorem classErrors_change (decl : ClassDecl) :
    classErrors table (decl.change c) = classErrors table decl := by
  unfold classErrors
  have hmethods : ((decl.change c).methods.filterMap id).flatMap (routineErrors table decl.name) =
      (decl.methods.filterMap id).flatMap (routineErrors table decl.name) := by
    rw [ClassDecl.change, ClassTable.filterMap_id_map, List.flatMap_map]
    exact List.flatMap_congr fun r _ => routineErrors_change c decl.name r
  exact if_congr Iff.rfl hmethods rfl

end Change

/-- Layouts do not depend on annotations. -/
theorem layouts_change (c : Change) (p : Program) :
    (p.change c).layouts table = p.layouts table := by
  unfold Program.layouts Program.change
  dsimp only
  rw [ClassTable.filterMap_id_map, ClassTable.filterMap_id_map, List.map_map, List.flatMap_map]
  congr 1
  · exact List.map_congr_left fun r _ => routineLayout_change c "" r
  · exact List.flatMap_congr fun decl _ => classLayouts_change c decl

/-- Layout errors do not depend on annotations. -/
theorem layoutErrors_change (c : Change) (p : Program) :
    (p.change c).layoutErrors table = p.layoutErrors table := by
  unfold Program.layoutErrors Program.change
  dsimp only
  rw [ClassTable.filterMap_id_map, ClassTable.filterMap_id_map, List.flatMap_map, List.flatMap_map]
  congr 1
  · exact List.flatMap_congr fun r _ => routineErrors_change c "" r
  · exact List.flatMap_congr fun decl _ => classErrors_change c decl

theorem placeVar_erase (locals : List String) (v : Var) :
    (placeVar scope locals v).change .erase = v.change .erase := by
  unfold placeVar
  cases resolve scope locals v.name <;> rfl

mutual

theorem placeExpr_erase (locals : List String) : (e : Expr) →
    (placeExpr scope locals e).change .erase = e.change .erase
  | .missing | .integer _ _ | .truth _ _ | .self _ => rfl
  | .var _ v => congrArg (Expr.var _) (placeVar_erase locals v)
  | .not _ operand => congrArg (Expr.not _) (placeExpr_erase locals operand)
  | .isNull _ operand => congrArg (Expr.isNull _) (placeExpr_erase locals operand)
  | .length _ array => congrArg (Expr.length _) (placeExpr_erase locals array)
  | .newArray _ _ length => congrArg (Expr.newArray _ _) (placeExpr_erase locals length)
  | .newObject _ _ _ args => congrArg (Expr.newObject _ _ _) (placeExprs_erase locals args)
  | .binary _ _ left right => by
      rw [placeExpr, Expr.change, Expr.change, placeExpr_erase locals left,
        placeExpr_erase locals right]
  | .index _ array index => by
      rw [placeExpr, Expr.change, Expr.change, placeExpr_erase locals array,
        placeExpr_erase locals index]
  | .call _ receiver _ _ args => by
      rw [placeExpr, Expr.change, Expr.change, placeExpr_erase locals receiver,
        placeExprs_erase locals args]

theorem placeExprs_erase (locals : List String) : (es : List Expr) →
    Expr.changeAll .erase (placeExprs scope locals es) = Expr.changeAll .erase es
  | [] => rfl
  | e :: es => by
      rw [placeExprs, Expr.changeAll, Expr.changeAll, placeExpr_erase locals e,
        placeExprs_erase locals es]

end

mutual

theorem placeStmt_erase : (s : Stmt) → (locals : List String) →
    (placeStmt scope locals s).change .erase = s.change .erase
  | .missing, _ | .declare _ _ _, _ => rfl
  | .block b, locals => congrArg Stmt.block (placeBlock_erase b locals)
  | .branch _ cond onTrue onFalse, locals => by
      rw [placeStmt, Stmt.change, Stmt.change, placeExpr_erase, placeBlock_erase onTrue,
        placeBlock_erase onFalse]
  | .loop _ cond body, locals => by
      rw [placeStmt, Stmt.change, Stmt.change, placeExpr_erase, placeBlock_erase body]
  | .output _ value, locals => congrArg (Stmt.output _) (placeExpr_erase locals value)
  | .assign _ v value, locals => by
      rw [placeStmt, Stmt.change, Stmt.change, placeVar_erase, placeExpr_erase]
  | .assignIndex _ array index value, locals => by
      rw [placeStmt, Stmt.change, Stmt.change, placeExpr_erase, placeExpr_erase, placeExpr_erase]
  | .call _ receiver _ _ args, locals => by
      rw [placeStmt, Stmt.change, Stmt.change, placeExpr_erase, placeExprs_erase]

theorem placeBlock_erase : (b : Block) → (locals : List String) →
    (placeBlock scope locals b).change .erase = b.change .erase
  | .absent, _ => rfl
  | .mk _ _ body, locals => congrArg (Block.mk _ _) (placeStmts_erase body locals)

theorem placeStmts_erase : (ss : List Stmt) → (locals : List String) →
    Stmt.changeAll .erase (placeStmts scope locals ss) = Stmt.changeAll .erase ss
  | [], _ => rfl
  | s :: ss, locals => by
      rw [placeStmts, Stmt.changeAll, Stmt.changeAll, placeStmt_erase s, placeStmts_erase ss]

end

theorem placeRoutine_erase (r : Routine) : (placeRoutine scope r).change .erase = r.change .erase := by
  have hreturns : (placeRoutine scope r).returns.map (Returns.change .erase) =
      r.returns.map (Returns.change .erase) := by
    unfold placeRoutine
    cases r.returns with
    | none => rfl
    | some returns =>
        simp only [Option.map_some, Returns.change, placeExpr_erase]
  have hbody : Stmt.changeAll .erase (placeRoutine scope r).body = Stmt.changeAll .erase r.body :=
    placeStmts_erase r.body []
  rw [Routine.change, Routine.change, hreturns, hbody]
  rfl

theorem placeClass_erase (decl : ClassDecl) :
    (placeClass table decl).change .erase = decl.change .erase := by
  unfold placeClass
  split
  · unfold ClassDecl.change
    dsimp only
    rw [map_map_option fun r => placeRoutine_erase r]
  · rfl

/-- All that placing a program changes are annotations. -/
theorem place_erase (p : Program) : (p.place table).change .erase = p.change .erase := by
  unfold Program.place Program.change
  dsimp only
  rw [map_map_option fun r => placeRoutine_erase r, map_map_option fun decl => placeClass_erase decl]

theorem layouts_place (p : Program) : (p.place table).layouts table = p.layouts table := by
  rw [← layouts_change .erase (p.place table), place_erase, layouts_change]

theorem layoutErrors_place (p : Program) :
    (p.place table).layoutErrors table = p.layoutErrors table := by
  rw [← layoutErrors_change .erase (p.place table), place_erase, layoutErrors_change]

/-- A variable that was placed has the slot that it is given. -/
theorem placeVar_placeVar (locals : List String) (v : Var) :
    placeVar scope locals (placeVar scope locals v) = placeVar scope locals v := by
  cases hslot : resolve scope locals v.name with
  | ok slot =>
      have hplaced : placeVar scope locals v = { v with slot := slot } := by
        rw [placeVar, hslot]
      rw [hplaced, placeVar]
      dsimp only
      rw [hslot]
  | error e =>
      have hkept : placeVar scope locals v = v := by
        rw [placeVar, hslot]
      rw [hkept, hkept]

mutual

theorem placeExpr_placeExpr (locals : List String) : (e : Expr) →
    placeExpr scope locals (placeExpr scope locals e) = placeExpr scope locals e
  | .missing | .integer _ _ | .truth _ _ | .self _ => rfl
  | .var _ v => congrArg (Expr.var _) (placeVar_placeVar locals v)
  | .not _ operand => congrArg (Expr.not _) (placeExpr_placeExpr locals operand)
  | .isNull _ operand => congrArg (Expr.isNull _) (placeExpr_placeExpr locals operand)
  | .length _ array => congrArg (Expr.length _) (placeExpr_placeExpr locals array)
  | .newArray _ _ length => congrArg (Expr.newArray _ _) (placeExpr_placeExpr locals length)
  | .newObject _ _ _ args => congrArg (Expr.newObject _ _ _) (placeExprs_placeExprs locals args)
  | .binary _ _ left right => by
      rw [placeExpr, placeExpr, placeExpr_placeExpr locals left, placeExpr_placeExpr locals right]
  | .index _ array index => by
      rw [placeExpr, placeExpr, placeExpr_placeExpr locals array, placeExpr_placeExpr locals index]
  | .call _ receiver _ _ args => by
      rw [placeExpr, placeExpr, placeExpr_placeExpr locals receiver,
        placeExprs_placeExprs locals args]

theorem placeExprs_placeExprs (locals : List String) : (es : List Expr) →
    placeExprs scope locals (placeExprs scope locals es) = placeExprs scope locals es
  | [] => rfl
  | e :: es => by
      rw [placeExprs, placeExprs, placeExpr_placeExpr locals e, placeExprs_placeExprs locals es]

end

mutual

theorem placeStmt_placeStmt : (s : Stmt) → (locals : List String) →
    placeStmt scope locals (placeStmt scope locals s) = placeStmt scope locals s
  | .missing, _ | .declare _ _ _, _ => rfl
  | .block b, locals => congrArg Stmt.block (placeBlock_placeBlock b locals)
  | .branch _ cond onTrue onFalse, locals => by
      rw [placeStmt, placeStmt, placeExpr_placeExpr, placeBlock_placeBlock onTrue,
        placeBlock_placeBlock onFalse]
  | .loop _ cond body, locals => by
      rw [placeStmt, placeStmt, placeExpr_placeExpr, placeBlock_placeBlock body]
  | .output _ value, locals => congrArg (Stmt.output _) (placeExpr_placeExpr locals value)
  | .assign _ v value, locals => by
      rw [placeStmt, placeStmt, placeVar_placeVar, placeExpr_placeExpr]
  | .assignIndex _ array index value, locals => by
      rw [placeStmt, placeStmt, placeExpr_placeExpr, placeExpr_placeExpr, placeExpr_placeExpr]
  | .call _ receiver _ _ args, locals => by
      rw [placeStmt, placeStmt, placeExpr_placeExpr, placeExprs_placeExprs]

theorem placeBlock_placeBlock : (b : Block) → (locals : List String) →
    placeBlock scope locals (placeBlock scope locals b) = placeBlock scope locals b
  | .absent, _ => rfl
  | .mk _ _ body, locals => congrArg (Block.mk _ _) (placeStmts_placeStmts body locals)

theorem placeStmts_placeStmts : (ss : List Stmt) → (locals : List String) →
    placeStmts scope locals (placeStmts scope locals ss) = placeStmts scope locals ss
  | [], _ => rfl
  | s :: ss, locals => by
      rw [placeStmts, placeStmts, declared_placeStmt, placeStmt_placeStmt s,
        placeStmts_placeStmts ss]

end

theorem placeRoutine_placeRoutine (r : Routine) :
    placeRoutine scope (placeRoutine scope r) = placeRoutine scope r := by
  have hpeak : stmtsPeak 0 (placeStmts scope [] r.body) = stmtsPeak 0 r.body := by
    rw [← stmtsPeak_change .erase (placeStmts scope [] r.body), placeStmts_erase, stmtsPeak_change]
  rw [placeRoutine, placeRoutine]
  dsimp only
  rw [placeStmts_placeStmts, bodyLocals_placeStmts, hpeak, Option.map_map]
  congr 2
  funext returns
  simp only [Function.comp_apply, placeExpr_placeExpr]

theorem placeIn_placeIn (owner : String) (r : Routine) :
    placeIn table owner (placeIn table owner r) = placeIn table owner r :=
  placeRoutine_placeRoutine r

/-- Routines that were placed stay as they are when they are placed again. -/
theorem map_placeIn_placeIn (owner : String) (rs : List (Option Routine)) :
    (rs.map (Option.map (placeIn table owner))).map (Option.map (placeIn table owner)) =
      rs.map (Option.map (placeIn table owner)) :=
  map_map_option (placeIn_placeIn owner) rs

theorem placeClass_placeClass (decl : ClassDecl) :
    placeClass table (placeClass table decl) = placeClass table decl := by
  by_cases hknown : isKnown table decl = true
  · have hplaced : placeClass table decl =
        { decl with methods := decl.methods.map (Option.map (placeIn table decl.name)) } :=
      if_pos hknown
    have hknown' : isKnown table (placeClass table decl) = true := by
      rw [hplaced]
      exact hknown
    rw [placeClass, if_pos hknown', hplaced]
    exact congrArg (fun methods => { decl with methods := methods })
      (map_placeIn_placeIn decl.name decl.methods)
  · have hkept : placeClass table decl = decl := if_neg hknown
    rw [hkept, hkept]

/-- Placing a program again changes nothing. -/
theorem place_place (p : Program) : (p.place table).place table = p.place table := by
  have hclasses : (p.classes.map (Option.map (placeClass table))).map
      (Option.map (placeClass table)) = p.classes.map (Option.map (placeClass table)) :=
    map_map_option placeClass_placeClass p.classes
  unfold Program.place
  dsimp only
  congr 1
  exact map_placeIn_placeIn "" p.routines

section MapRoutines

variable {f : String → Routine → Routine}

theorem routineScope_mapRoutines (owner : String) (r : Routine) :
    routineScope (table.mapRoutines f) owner r = routineScope table owner r := by
  rw [routineScope, ClassTable.fieldHierarchy_mapRoutines, routineScope]

theorem isKnown_mapRoutines (decl : ClassDecl) :
    isKnown (table.mapRoutines f) decl = isKnown table decl := by
  unfold isKnown ClassTable.scope?
  split
  · rfl
  · rw [ClassTable.declared?_mapRoutines, Option.isSome_map]

/-- The routines of a table do not matter to placing. -/
theorem place_mapRoutines (p : Program) : p.place (table.mapRoutines f) = p.place table := by
  unfold Program.place placeClass
  simp only [routineScope_mapRoutines, isKnown_mapRoutines]

theorem layoutErrors_mapRoutines (p : Program) :
    p.layoutErrors (table.mapRoutines f) = p.layoutErrors table := by
  unfold Program.layoutErrors routineErrors classErrors routineErrors
  simp only [routineScope_mapRoutines, isKnown_mapRoutines]

end MapRoutines

end Layout

/-! ### Programs that were laid out -/

namespace Interpreter

/-- A placed program without layout errors is evaluated in the same way with its layout kept. -/
theorem evaluate_keepLayout {p : Program} (h : p.layoutErrors (ClassTable.build p).1 = [])
    (i : Interpreter) (steps : Nat) :
    i.evaluate steps true (some (p.place (ClassTable.build p).1)) =
      i.evaluate steps false (some (p.place (ClassTable.build p).1)) := by
  have htable : (ClassTable.build (p.place (ClassTable.build p).1)).1 =
      (ClassTable.build p).1.mapRoutines (Layout.placeIn (ClassTable.build p).1) :=
    Layout.build_place fun decl hdecl => Layout.isKnown_of_layoutErrors h hdecl
  have herrors : (p.place (ClassTable.build p).1).layoutErrors
      (ClassTable.build (p.place (ClassTable.build p).1)).1 = [] := by
    rw [htable, Layout.layoutErrors_mapRoutines, Layout.layoutErrors_place, h]
  have hplace : (p.place (ClassTable.build p).1).place
      (ClassTable.build (p.place (ClassTable.build p).1)).1 = p.place (ClassTable.build p).1 := by
    rw [htable, Layout.place_mapRoutines, Layout.place_place]
  unfold evaluate
  dsimp only
  rw [herrors, hplace]
  rfl

end Interpreter

open Allocator (used)

/-- **Laying out a program again changes nothing.** An allocator finds in a program what it finds in the
program without annotations, whatever either has been through; and when the program is walked again, by
the same allocator or by a new one, no annotation changes, and layouts and errors are what they were.
So a program that was laid out without errors is evaluated in the same way whether its layout is kept
or not. -/
theorem layout_repeats (table : ClassTable) (history history' : List (Option Program))
    (p : Program) :
    let first := (Allocator.program (some p)).run (used table history)
    let erased := (Allocator.program (some (p.change .erase))).run (used table history')
    let again := (Allocator.program first.1).run first.2
    let anew := (Allocator.program first.1).run (.new table)
    (first.2.layouts = erased.2.layouts ∧ first.2.errors = erased.2.errors) ∧
    (again.1 = first.1 ∧ again.2.layouts = first.2.layouts ∧ again.2.errors = first.2.errors) ∧
    (anew.1 = first.1 ∧ anew.2.layouts = first.2.layouts ∧ anew.2.errors = first.2.errors) ∧
    (table = (ClassTable.build p).1 → first.2.errors = [] → ∀ (i : Interpreter) (steps : Nat),
      i.evaluate steps true first.1 = i.evaluate steps false first.1) := by
  intro first erased again anew
  obtain ⟨a, hfirst, hlayouts, herrors⟩ := Allocator.run_used table history p
  obtain ⟨b, herased, hlayouts', herrors'⟩ := Allocator.run_used table history' (p.change .erase)
  obtain ⟨c, hagain, hlayouts'', herrors''⟩ :=
    Allocator.run_used table (history ++ [some p]) (p.place table)
  obtain ⟨d, hanew, hlayouts₃, herrors₃⟩ := Allocator.run_used table [] (p.place table)
  rw [Allocator.used_concat, hfirst, Layout.place_place] at hagain
  rw [Layout.place_place] at hanew
  rw [Layout.layouts_change] at hlayouts'
  rw [Layout.layoutErrors_change] at herrors'
  rw [Layout.layouts_place] at hlayouts'' hlayouts₃
  rw [Layout.layoutErrors_place] at herrors'' herrors₃
  have hfirst_eq : first = (some (p.place table), a) := hfirst
  have herased_eq : erased = (some ((p.change .erase).place table), b) := herased
  have hagain_eq : again = (some (p.place table), c) := by
    show (Allocator.program first.1).run first.2 = _
    rw [hfirst_eq, hagain]
  have hanew_eq : anew = (some (p.place table), d) := by
    show (Allocator.program first.1).run (.new table) = _
    rw [hfirst_eq]
    exact hanew
  rw [hfirst_eq, herased_eq, hagain_eq, hanew_eq, hlayouts, hlayouts', hlayouts'', hlayouts₃,
    herrors, herrors', herrors'', herrors₃]
  refine ⟨⟨rfl, rfl⟩, ⟨rfl, rfl, rfl⟩, ⟨rfl, rfl, rfl⟩, ?_⟩
  rintro rfl hnone i steps
  exact i.evaluate_keepLayout hnone steps

/-- A program with slots that are left over from elsewhere. -/
def staleProgram : Program :=
  let x : Var := ⟨.unknown, "x", .frame 9⟩
  let n : Var := ⟨.unknown, "n", .field 3⟩
  let body : List Stmt := [.declare .unknown (.int .unknown) "x",
    .assign .unknown x (.var .unknown n), .output .unknown (.var .unknown x)]
  ⟨.unknown, true,
    [some ⟨.unknown, "main", true, [⟨.unknown, .int .unknown, "n"⟩], true, body, none, 5⟩],
    true, [], true, [.call .unknown "main" true [.integer .unknown 4]]⟩

theorem layout_repeats_stale :
    let first := (Allocator.program (some staleProgram)).run
      (.new (ClassTable.build staleProgram).1)
    let i := Interpreter.fresh 10 .unlimited false
    (first.2.layouts.map fun l => (l.slots, l.vars.map (·.slot))) =
      [(1, [.frame 1, .frame (-3), .frame 1])] ∧
    first.2.errors = [] ∧ (i.evaluate 50 true first.1).1.store.printed = #[4] ∧
    i.evaluate 50 true first.1 = i.evaluate 50 false first.1 := by
  intro first i
  have hnone : first.2.errors = [] := by decide +kernel
  obtain ⟨-, -, -, hkeep⟩ := layout_repeats (ClassTable.build staleProgram).1 [] [] staleProgram
  exact ⟨by decide +kernel, hnone, by decide +kernel, hkeep rfl hnone i 50⟩

end ObjectLang
