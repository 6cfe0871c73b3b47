import ObjectLang.Allocator
import ObjectLang.Proofs.Placement

/-! What the allocator leaves behind. Wherever it stands in the code, it knows the scope, the locals
before it and, of some classes, the fields that the table lists for them. So a walk gives each variable
what layout gives it there and notes nothing but that, and a whole program gets the layouts and the
errors that it has, whatever the allocator has walked before. -/

namespace ObjectLang

namespace Allocator

open Layout

/-- The fields that are kept are those that the table lists. -/
def Knows (table : ClassTable) (fields : List (String × List String)) : Prop :=
  ∀ name hierarchy, fields.lookup name = some hierarchy → table.fieldHierarchy name = .ok hierarchy

theorem Knows.cons {table : ClassTable} {fields : List (String × List String)} {name : String}
    {hierarchy : List String} (h : Knows table fields)
    (hlists : table.fieldHierarchy name = .ok hierarchy) :
    Knows table ((name, hierarchy) :: fields) := by
  intro other found hfound
  rw [List.lookup_cons] at hfound
  cases heq : other == name with
  | true =>
      rw [heq] at hfound
      cases hfound
      rw [beq_iff_eq.mp heq, hlists]
  | false =>
      rw [heq] at hfound
      exact h other found hfound

/-- The allocator stands in a scope, behind some locals, and has counted them. -/
structure Stands (a : Allocator) (scope : Scope) (locals : List String) : Prop where
  scope_eq : Scope.mk a.className a.params (a.table.fieldHierarchy a.className) = scope
  locals_eq : a.locals = locals
  counted : locals.length ≤ a.maxLocals
  knows : Knows a.table a.fields

/-- From one allocator to another, nothing happened but that variables with some outcomes were met. -/
structure Noted (a b : Allocator) (outcomes : List Outcome) : Prop where
  table : b.table = a.table
  layouts : b.layouts = a.layouts
  current : b.current = a.current.map fun l =>
    { l with vars := l.vars ++ outcomes.filterMap Except.toOption }
  errors : b.errors = a.errors ++ outcomes.filterMap error?

theorem Noted.refl (a : Allocator) : Noted a a [] := by
  refine ⟨rfl, rfl, ?_, (List.append_nil _).symm⟩
  cases a.current <;> simp

theorem Noted.trans {a b c : Allocator} {before after : List Outcome} (hab : Noted a b before)
    (hbc : Noted b c after) : Noted a c (before ++ after) := by
  refine ⟨hbc.table.trans hab.table, hbc.layouts.trans hab.layouts, ?_, ?_⟩
  · rw [hbc.current, hab.current, Option.map_map]
    congr 1
    funext l
    simp [List.filterMap_append]
  · rw [hbc.errors, hab.errors, List.filterMap_append, List.append_assoc]

variable {α β : Type} {scope : Scope} {locals : List String}

/-- A walk that gives a result wherever the allocator stands in a scope behind some locals: it meets
variables with some outcomes, adds locals, and counts up to some number of locals at once. -/
def Walks (m : StateM Allocator α) (scope : Scope) (locals : List String) (x : α)
    (outcomes : List Outcome) (added : List String) (peak : Nat) : Prop :=
  ∀ a : Allocator, a.Stands scope locals → ∃ b, m.run a = (x, b) ∧ Noted a b outcomes ∧
    b.Stands scope (locals ++ added) ∧ b.maxLocals = max a.maxLocals peak

/-- A walk that adds no locals. -/
abbrev Reads (m : StateM Allocator α) (scope : Scope) (locals : List String) (x : α)
    (outcomes : List Outcome) : Prop :=
  Walks m scope locals x outcomes [] locals.length

section Compose

variable {m : StateM Allocator α} {k : α → StateM Allocator β} {x : α} {y : β}
  {before after : List Outcome} {added added' : List String} {peak peak' : Nat}

theorem run_bind {a b : Allocator} (h : m.run a = (x, b)) :
    (m >>= k).run a = (k x).run b := by
  rw [StateT.run_bind, h]
  rfl

theorem run_get (k : Allocator → StateM Allocator β) (a : Allocator) :
    (get >>= k).run a = (k a).run a := rfl

theorem run_set (k : PUnit → StateM Allocator β) (a b : Allocator) :
    (set b >>= k).run a = (k ⟨⟩).run b := rfl

theorem run_modify (f : Allocator → Allocator) (k : PUnit → StateM Allocator β) (a : Allocator) :
    (modify f >>= k).run a = (k ⟨⟩).run (f a) := rfl

theorem Reads.pure (scope : Scope) (locals : List String) (x : α) :
    Reads (pure x) scope locals x [] := by
  intro a ha
  refine ⟨a, rfl, .refl a, ?_, (Nat.max_eq_left ha.counted).symm⟩
  rw [List.append_nil]
  exact ha

theorem Walks.bind (hm : Walks m scope locals x before added peak)
    (hk : Walks (k x) scope (locals ++ added) y after added' peak') :
    Walks (m >>= k) scope locals y (before ++ after) (added ++ added') (max peak peak') := by
  intro a ha
  obtain ⟨b, hab, hnoted, hb, hpeak⟩ := hm a ha
  obtain ⟨c, hbc, hnoted', hc, hpeak'⟩ := hk b hb
  refine ⟨c, (run_bind hab).trans hbc, hnoted.trans hnoted', ?_, ?_⟩
  · rw [← List.append_assoc]
    exact hc
  · rw [hpeak', hpeak, Nat.max_assoc]

/-- A walk goes on after one that added no locals. -/
theorem Walks.andThen (hm : Walks m scope locals x before [] peak)
    (hk : Walks (k x) scope locals y after added' peak') :
    Walks (m >>= k) scope locals y (before ++ after) added' (max peak peak') := by
  have hk' : Walks (k x) scope (locals ++ []) y after added' peak' := by
    rw [List.append_nil]
    exact hk
  exact hm.bind hk'

/-- A walk whose result is put into a larger one. -/
theorem Walks.into {f : α → β} (hm : Walks m scope locals x before added peak) :
    Walks (m >>= fun x => Pure.pure (f x)) scope locals (f x) before added peak := by
  intro a ha
  obtain ⟨b, hab, hrest⟩ := hm a ha
  exact ⟨b, run_bind hab, hrest⟩

theorem Reads.andThen (hm : Reads m scope locals x before)
    (hk : Reads (k x) scope locals y after) : Reads (m >>= k) scope locals y (before ++ after) := by
  have hwalks := Walks.andThen hm hk
  rw [Nat.max_self] at hwalks
  exact hwalks

/-- A walk goes on after one that added no locals, and counts them at least. -/
theorem Reads.followed (hm : Reads m scope locals x before)
    (hk : Walks (k x) scope locals y after added peak) (hle : locals.length ≤ peak) :
    Walks (m >>= k) scope locals y (before ++ after) added peak := by
  have hwalks := Walks.andThen hm hk
  rw [Nat.max_eq_right hle] at hwalks
  exact hwalks

end Compose

theorem reads_hierarchy : Reads hierarchy scope locals scope.fields [] := by
  intro a ha
  have hfields : a.table.fieldHierarchy a.className = scope.fields := congrArg Scope.fields ha.scope_eq
  have hstays : ∃ b, (pure scope.fields : StateM Allocator _).run a = (scope.fields, b) ∧
      Noted a b [] ∧ b.Stands scope (locals ++ []) ∧ b.maxLocals = max a.maxLocals locals.length :=
    Reads.pure scope locals scope.fields a ha
  cases hkept : a.fields.lookup a.className with
  | some kept =>
      have hrun : hierarchy.run a = (pure (.ok kept) : StateM Allocator _).run a := by
        rw [hierarchy, run_get]
        simp only [hkept]
      rw [hrun, ← ha.knows _ _ hkept, hfields]
      exact hstays
  | none =>
      cases hlists : a.table.fieldHierarchy a.className with
      | error cause =>
          have hrun : hierarchy.run a = (pure (.error cause) : StateM Allocator _).run a := by
            rw [hierarchy, run_get]
            simp only [hkept, hlists]
          rw [hrun, ← hlists, hfields]
          exact hstays
      | ok listed =>
          have hrun : hierarchy.run a =
              (.ok listed, { a with fields := (a.className, listed) :: a.fields }) := by
            rw [hierarchy, run_get]
            simp only [hkept, hlists]
            rfl
          refine ⟨_, by rw [hrun, ← hfields, hlists], ?_, ?_, ?_⟩
          · obtain ⟨-, -, hcurrent, herrors⟩ := Noted.refl a
            exact ⟨rfl, rfl, hcurrent, herrors⟩
          · rw [List.append_nil]
            exact ⟨ha.scope_eq, ha.locals_eq, ha.counted, ha.knows.cons hlists⟩
          · exact (Nat.max_eq_left ha.counted).symm

/-- The offset of a field in a scope, or why there is none. -/
def fieldResult (scope : Scope) (name : String) : Except LayoutError Int :=
  match scope.fields with
  | .error cause => .error (.badChain cause)
  | .ok hierarchy =>
    match fieldOffset? hierarchy name with
    | some offset => .ok offset
    | none => .error (.unbound name scope.className)

theorem reads_fieldOffset (name : String) :
    Reads (fieldOffset name) scope locals (fieldResult scope name) [] := by
  refine Reads.andThen reads_hierarchy ?_
  unfold fieldResult
  cases scope.fields with
  | error cause => exact .pure _ _ _
  | ok fields =>
      dsimp only
      cases hoffset : fieldOffset? fields name with
      | some offset => exact .pure _ _ _
      | none =>
          intro a ha
          have hclass : scope.className = a.className := congrArg Scope.className ha.scope_eq.symm
          rw [hclass]
          exact Reads.pure scope locals (Except.error (LayoutError.unbound name a.className)) a ha

theorem reads_record {v : Var} {slot : Slot} (h : resolve scope locals v.name = .ok slot) :
    Reads (record v slot) scope locals (placeVar scope locals v) [outcome scope locals v] := by
  intro a ha
  have houtcome : outcome scope locals v = .ok ⟨v.name, slot⟩ := by
    rw [outcome, h]
    rfl
  have hplaced : placeVar scope locals v = { v with slot := slot } := by
    rw [placeVar, h]
  rw [houtcome, hplaced, List.append_nil]
  exact ⟨_, rfl, ⟨rfl, rfl, rfl, (List.append_nil _).symm⟩,
    ⟨ha.scope_eq, ha.locals_eq, ha.counted, ha.knows⟩, (Nat.max_eq_left ha.counted).symm⟩

theorem reads_complain {v : Var} {e : LayoutError} (h : resolve scope locals v.name = .error e) :
    Reads (do complain e; return v) scope locals (placeVar scope locals v)
      [outcome scope locals v] := by
  intro a ha
  have houtcome : outcome scope locals v = .error e := by
    rw [outcome, h]
    rfl
  have hplaced : placeVar scope locals v = v := by
    rw [placeVar, h]
  rw [houtcome, hplaced, List.append_nil]
  exact ⟨_, rfl, ⟨rfl, rfl, (Noted.refl a).current, rfl⟩,
    ⟨ha.scope_eq, ha.locals_eq, ha.counted, ha.knows⟩, (Nat.max_eq_left ha.counted).symm⟩

theorem reads_assignField {v : Var} (hparam : scope.params.idxOf? v.name = none)
    (hlocal : lastIndex? locals v.name = none) :
    Reads (assignField v) scope locals (placeVar scope locals v) [outcome scope locals v] := by
  have hresolve : resolve scope locals v.name = (fieldResult scope v.name).map Slot.field := by
    simp only [resolve, fieldResult, hparam, hlocal]
    cases scope.fields with
    | error cause => rfl
    | ok hierarchy =>
        dsimp only
        cases fieldOffset? hierarchy v.name <;> rfl
  refine Reads.andThen (reads_fieldOffset v.name) ?_
  cases hfield : fieldResult scope v.name with
  | ok offset =>
      rw [hfield] at hresolve
      exact reads_record hresolve
  | error e =>
      rw [hfield] at hresolve
      exact reads_complain hresolve

theorem reads_assignOffset (v : Var) :
    Reads (assignOffset v) scope locals (placeVar scope locals v) [outcome scope locals v] := by
  intro a ha
  have hparams : a.params = scope.params := congrArg Scope.params ha.scope_eq
  rw [assignOffset, run_get, hparams, ha.locals_eq]
  cases hparam : scope.params.idxOf? v.name with
  | some i =>
      have hslot : resolve scope locals v.name = .ok (.frame (paramOffset i)) := by
        simp only [resolve, hparam]
      exact reads_record hslot a ha
  | none =>
      dsimp only
      cases hlocal : lastIndex? locals v.name with
      | some j =>
          have hslot : resolve scope locals v.name = .ok (.frame (localOffset j)) := by
            simp only [resolve, hparam, hlocal]
          exact reads_record hslot a ha
      | none => exact reads_assignField hparam hlocal a ha

mutual

theorem reads_expression : (e : Expr) →
    Reads (expression e) scope locals (placeExpr scope locals e) (exprOutcomes scope locals e)
  | .missing | .integer _ _ | .truth _ _ | .self _ => .pure _ _ _
  | .var _ v => (reads_assignOffset v).into
  | .not _ operand => (reads_expression operand).into
  | .isNull _ operand => (reads_expression operand).into
  | .length _ array => (reads_expression array).into
  | .newArray _ _ length => (reads_expression length).into
  | .newObject _ _ _ args => (reads_expressions args).into
  | .binary _ _ left right => by
      rw [exprOutcomes, exprVars, List.map_append]
      exact Reads.andThen (reads_expression left) (reads_expression right).into
  | .index _ array index => by
      rw [exprOutcomes, exprVars, List.map_append]
      exact Reads.andThen (reads_expression array) (reads_expression index).into
  | .call _ receiver _ _ args => by
      rw [exprOutcomes, exprVars, List.map_append]
      exact Reads.andThen (reads_expression receiver) (reads_expressions args).into

theorem reads_expressions : (es : List Expr) →
    Reads (expressions es) scope locals (placeExprs scope locals es) (exprsOutcomes scope locals es)
  | [] => .pure _ _ _
  | e :: es => by
      rw [exprsOutcomes, exprsVars, List.map_append]
      exact Reads.andThen (reads_expression e) (reads_expressions es).into

end

theorem walks_declare (name : String) :
    Walks (declare name) scope locals () [] [name] (locals.length + 1) := by
  intro a ha
  have hcount : max a.maxLocals (a.locals.length + 1) = max a.maxLocals (locals.length + 1) := by
    rw [ha.locals_eq]
  refine ⟨_, rfl, ⟨rfl, rfl, (Noted.refl a).current, (Noted.refl a).errors⟩,
    ⟨ha.scope_eq, congrArg (· ++ [name]) ha.locals_eq, ?_, ha.knows⟩, hcount⟩
  rw [List.length_append]
  exact Nat.le_trans (Nat.le_max_right _ _) (Nat.le_of_eq hcount.symm)

/-- A walk through a block drops the locals that it has added. -/
theorem walks_block_of {span : Span} {listed : Bool} {body body' : List Stmt} {outcomes : List Outcome}
    {added : List String} {peak : Nat}
    (h : Walks (statements body) scope locals body' outcomes added peak) :
    Walks (block (.mk span listed body)) scope locals (.mk span listed body') outcomes [] peak := by
  intro a ha
  obtain ⟨b, hrun, hnoted, hb, hpeak⟩ := h a ha
  refine ⟨{ b with locals := b.locals.take a.locals.length }, ?_, ?_, ?_, hpeak⟩
  · rw [block, run_get, run_bind hrun]
    rfl
  · exact ⟨hnoted.table, hnoted.layouts, hnoted.current, hnoted.errors⟩
  · refine ⟨hb.scope_eq, ?_, ?_, hb.knows⟩
    · rw [hb.locals_eq, ha.locals_eq, List.take_left, List.append_nil]
    · rw [List.append_nil]
      exact Nat.le_trans (by rw [List.length_append]; omega) hb.counted

mutual

theorem walks_statement : (s : Stmt) → (locals : List String) →
    Walks (statement s) scope locals (placeStmt scope locals s) (stmtOutcomes scope locals s)
      (declared s) (stmtPeak locals.length s)
  | .missing, _ => Reads.pure _ _ _
  | .block b, locals => (walks_block b locals).into
  | .declare _ _ name, _ => (walks_declare name).into
  | .branch _ cond onTrue onFalse, locals => by
      rw [stmtOutcomes, List.append_assoc]
      exact Reads.followed (reads_expression cond)
        (Walks.andThen (walks_block onTrue locals) (walks_block onFalse locals).into)
        (Nat.le_trans (le_blockPeak _ onTrue) (Nat.le_max_left _ _))
  | .loop _ cond body, locals =>
      Reads.followed (reads_expression cond) (walks_block body locals).into (le_blockPeak _ body)
  | .output _ value, _ => (reads_expression value).into
  | .assign _ v value, _ =>
      Reads.andThen (reads_assignOffset v) (reads_expression value).into
  | .assignIndex _ array index value, _ => by
      rw [stmtOutcomes, List.append_assoc]
      exact Reads.andThen (reads_expression array)
        (Reads.andThen (reads_expression index) (reads_expression value).into)
  | .call _ receiver _ _ args, _ =>
      Reads.andThen (reads_expression receiver) (reads_expressions args).into

theorem walks_block : (b : Block) → (locals : List String) →
    Walks (block b) scope locals (placeBlock scope locals b) (blockOutcomes scope locals b) []
      (blockPeak locals.length b)
  | .absent, _ => Reads.pure _ _ _
  | .mk _ _ body, locals => walks_block_of (walks_statements body locals)

theorem walks_statements : (ss : List Stmt) → (locals : List String) →
    Walks (statements ss) scope locals (placeStmts scope locals ss) (stmtsOutcomes scope locals ss)
      (bodyLocals ss) (stmtsPeak locals.length ss)
  | [], _ => Reads.pure _ _ _
  | s :: ss, locals => by
      have hrest := walks_statements ss (locals ++ declared s)
      rw [List.length_append] at hrest
      exact Walks.bind (walks_statement s locals) hrest.into

end

/-- The outcomes for the variables of what a function returns. -/
def resultOutcomes (scope : Scope) (locals : List String) : Option Returns → List Outcome
  | none => []
  | some returns => exprOutcomes scope locals returns.result

theorem reads_result (returns : Option Returns) :
    Reads (result returns) scope locals
      (returns.map fun returns => { returns with result := placeExpr scope locals returns.result })
      (resultOutcomes scope locals returns) := by
  cases returns with
  | none => exact .pure _ _ _
  | some returns => exact (reads_expression returns.result).into

/-- From one allocator to another, some layouts and errors were added. -/
structure Visited (a b : Allocator) (layouts : List RoutineLayout) (errors : List LayoutError) :
    Prop where
  table : b.table = a.table
  knows : Knows b.table b.fields
  layouts : b.layouts = a.layouts ++ layouts
  errors : b.errors = a.errors ++ errors

theorem Visited.refl {a : Allocator} (h : Knows a.table a.fields) : Visited a a [] [] :=
  ⟨rfl, h, (List.append_nil _).symm, (List.append_nil _).symm⟩

theorem Visited.trans {a b c : Allocator} {layouts layouts' : List RoutineLayout}
    {errors errors' : List LayoutError} (hab : Visited a b layouts errors)
    (hbc : Visited b c layouts' errors') : Visited a c (layouts ++ layouts') (errors ++ errors') := by
  refine ⟨hbc.table.trans hab.table, hbc.knows, ?_, ?_⟩
  · rw [hbc.layouts, hab.layouts, List.append_assoc]
  · rw [hbc.errors, hab.errors, List.append_assoc]

theorem run_routine {a : Allocator} (h : Knows a.table a.fields) (r : Routine) :
    ∃ b, (routine r).run a = (placeRoutine (routineScope a.table a.className r) r, b) ∧
      b.className = a.className ∧
      Visited a b [routineLayout a.table a.className r] (routineErrors a.table a.className r) := by
  let entered : Allocator :=
    { a with
      params := r.params.map (·.name)
      locals := []
      maxLocals := 0
      current := some ⟨a.className, r.name, 0, []⟩ }
  have hentered : entered.Stands (routineScope a.table a.className r) [] :=
    ⟨rfl, rfl, Nat.le_refl _, h⟩
  obtain ⟨b, hbody, hnoted, hb, hpeak⟩ := walks_statements r.body [] entered hentered
  obtain ⟨c, hresult, hnoted', hc, hpeak'⟩ := reads_result r.returns b hb
  have hslots : c.maxLocals = stmtsPeak 0 r.body := by
    rw [hpeak', Nat.max_eq_left hb.counted, hpeak]
    exact Nat.zero_max _
  have hall : Noted entered c (routineOutcomes (routineScope a.table a.className r) r) := by
    have hboth := hnoted.trans hnoted'
    unfold routineOutcomes
    cases hreturns : r.returns with
    | none =>
        rw [hreturns] at hboth
        exact hboth
    | some returns =>
        rw [hreturns] at hboth
        exact hboth
  have hrun : (routine r).run a =
      (placeRoutine (routineScope a.table a.className r) r,
        { c with
          layouts := c.layouts ++ (c.current.map fun l => { l with slots := c.maxLocals }).toList
          current := none }) := by
    rw [routine, enter, run_modify, run_bind hbody, run_bind hresult, placeRoutine, ← hslots]
    rfl
  refine ⟨_, hrun, ?_, hall.table, ?_, ?_, hall.errors⟩
  · exact congrArg Scope.className hc.scope_eq
  · exact hc.knows
  · show c.layouts ++ (c.current.map fun l => { l with slots := c.maxLocals }).toList = _
    rw [hall.layouts, hall.current, hslots]
    rfl

theorem run_routines {a : Allocator} (h : Knows a.table a.fields) (rs : List (Option Routine)) :
    ∃ b, (routines rs).run a = (rs.map (Option.map fun r =>
        placeRoutine (routineScope a.table a.className r) r), b) ∧
      b.className = a.className ∧
      Visited a b ((rs.filterMap id).map (routineLayout a.table a.className))
        ((rs.filterMap id).flatMap (routineErrors a.table a.className)) := by
  induction rs generalizing a with
  | nil => exact ⟨a, rfl, rfl, .refl h⟩
  | cons r rs ih =>
      cases r with
      | none =>
          obtain ⟨b, hrun, hclass, hvisited⟩ := ih h
          exact ⟨b, run_bind hrun, hclass, hvisited⟩
      | some r =>
          obtain ⟨b, hrun, hclass, hvisited⟩ := run_routine h r
          obtain ⟨c, hrun', hclass', hvisited'⟩ := ih hvisited.knows
          rw [hclass, hvisited.table] at hrun' hvisited'
          refine ⟨c, ?_, hclass'.trans hclass, hvisited.trans hvisited'⟩
          show (routine r >>= _).run a = _
          rw [run_bind hrun, run_bind hrun']
          rfl

theorem run_classDecl {a : Allocator} (h : Knows a.table a.fields) (decl : ClassDecl) :
    ∃ b, (classDecl decl).run a = (placeClass a.table decl, b) ∧
      Visited a b (classLayouts a.table decl) (classErrors a.table decl) := by
  rw [classDecl, run_get]
  unfold placeClass classLayouts classErrors isKnown
  by_cases hknown : (a.table.scope? decl.name).isSome = true
  · obtain ⟨b, hrun, -, hvisited⟩ :=
      run_routines (a := { a with className := decl.name }) h decl.methods
    simp only [if_pos hknown]
    refine ⟨b, ?_, hvisited.table, hvisited.knows, hvisited.layouts, hvisited.errors⟩
    rw [run_set, run_bind hrun]
    rfl
  · simp only [if_neg hknown]
    exact ⟨{ a with errors := a.errors ++ [.unknownClass decl.name] }, rfl, rfl, h,
      (List.append_nil _).symm, rfl⟩

theorem run_classDecls {a : Allocator} (h : Knows a.table a.fields)
    (ds : List (Option ClassDecl)) :
    ∃ b, (classDecls ds).run a = (ds.map (Option.map (placeClass a.table)), b) ∧
      Visited a b ((ds.filterMap id).flatMap (classLayouts a.table))
        ((ds.filterMap id).flatMap (classErrors a.table)) := by
  induction ds generalizing a with
  | nil => exact ⟨a, rfl, .refl h⟩
  | cons d ds ih =>
      cases d with
      | none =>
          obtain ⟨b, hrun, hvisited⟩ := ih h
          exact ⟨b, run_bind hrun, hvisited⟩
      | some d =>
          obtain ⟨b, hrun, hvisited⟩ := run_classDecl h d
          obtain ⟨c, hrun', hvisited'⟩ := ih hvisited.knows
          rw [hvisited.table] at hrun' hvisited'
          refine ⟨c, ?_, hvisited.trans hvisited'⟩
          show (classDecl d >>= _).run a = _
          rw [run_bind hrun, run_bind hrun']
          rfl

/-! ### Programs -/

/-- A walk through a program places it and leaves its layouts and its errors. -/
theorem run_program {a : Allocator} (h : Knows a.table a.fields) (p : Program) :
    ∃ b, (program (some p)).run a = (some (p.place a.table), b) ∧ b.table = a.table ∧
      Knows b.table b.fields ∧ b.layouts = p.layouts a.table ∧
      b.errors = p.layoutErrors a.table := by
  obtain ⟨b, hrun, -, hvisited⟩ :=
    run_routines (a := { a with layouts := [], errors := [], className := "" }) h p.routines
  obtain ⟨c, hrun', hvisited'⟩ := run_classDecls hvisited.knows p.classes
  rw [hvisited.table] at hrun' hvisited'
  obtain ⟨htable, hknows, hlayouts, herrors⟩ := hvisited.trans hvisited'
  refine ⟨{ c with className := "" }, ?_, htable, hknows, hlayouts, herrors⟩
  rw [program, restart, toTop, run_modify, run_modify, run_bind hrun, run_bind hrun']
  rfl

/-- The allocator over a table that has walked some programs. -/
def used (table : ClassTable) (history : List (Option Program)) : Allocator :=
  history.foldl (fun a p => ((program p).run a).2) (new table)

theorem used_concat (table : ClassTable) (history : List (Option Program)) (p : Option Program) :
    used table (history ++ [p]) = ((program p).run (used table history)).2 := by
  rw [used, List.foldl_append]
  rfl

/-- Whatever an allocator has walked, it is over its table and knows nothing wrong about it. -/
theorem knows_used (table : ClassTable) (history : List (Option Program)) :
    (used table history).table = table ∧ Knows table (used table history).fields := by
  have hfold : ∀ a : Allocator, a.table = table → Knows table a.fields →
      (history.foldl (fun a p => ((program p).run a).2) a).table = table ∧
        Knows table (history.foldl (fun a p => ((program p).run a).2) a).fields := by
    induction history with
    | nil => exact fun a htable hknows => ⟨htable, hknows⟩
    | cons p history ih =>
        rintro a rfl hknows
        cases p with
        | none => exact ih _ rfl hknows
        | some p =>
            obtain ⟨b, hrun, htable, hknows', -⟩ := run_program hknows p
            rw [List.foldl_cons, hrun]
            exact ih b htable (htable ▸ hknows')
  exact hfold (new table) rfl nofun

/-- **What an allocator does to a program does not depend on what it has done before**: it places the
program and has the program's layouts and errors. -/
theorem run_used (table : ClassTable) (history : List (Option Program)) (p : Program) :
    ∃ b, (program (some p)).run (used table history) = (some (p.place table), b) ∧
      b.layouts = p.layouts table ∧ b.errors = p.layoutErrors table := by
  obtain ⟨htable, hknows⟩ := knows_used table history
  have hknows' : Knows (used table history).table (used table history).fields := by
    rw [htable]
    exact hknows
  obtain ⟨b, hrun, -, -, hlayouts, herrors⟩ := run_program hknows' p
  rw [htable] at hrun hlayouts herrors
  exact ⟨b, hrun, hlayouts, herrors⟩

end Allocator

end ObjectLang
