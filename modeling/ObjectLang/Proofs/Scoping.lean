import ObjectLang.Proofs.Simulation

/-! Layout keeps lexical scoping: evaluating a placed program and running its commands by names print
the same, leave the same heap, give the same values and end in the same way. -/

namespace ObjectLang

namespace Lexical

open Layout (placeExpr placeExprs)

/-! ### Commands -/

mutual

theorem placeExpr_unscoped : (e : Expr) → placeExpr unscoped [] e = e
  | .missing | .integer _ _ | .truth _ _ | .self _ | .var _ _ => rfl
  | .not _ operand => by rw [placeExpr, placeExpr_unscoped operand]
  | .isNull _ operand => by rw [placeExpr, placeExpr_unscoped operand]
  | .binary _ _ left right => by
      rw [placeExpr, placeExpr_unscoped left, placeExpr_unscoped right]
  | .index _ array index => by
      rw [placeExpr, placeExpr_unscoped array, placeExpr_unscoped index]
  | .length _ array => by rw [placeExpr, placeExpr_unscoped array]
  | .newArray _ _ length => by rw [placeExpr, placeExpr_unscoped length]
  | .newObject _ _ _ args => by rw [placeExpr, placeExprs_unscoped args]
  | .call _ receiver _ _ args => by
      rw [placeExpr, placeExpr_unscoped receiver, placeExprs_unscoped args]

theorem placeExprs_unscoped : (es : List Expr) → placeExprs unscoped [] es = es
  | [] => rfl
  | e :: es => by rw [placeExprs, placeExpr_unscoped e, placeExprs_unscoped es]

end

theorem linked_command {ctx : Context} (hscope : ctx.scope = none) (v : Var) : Linked ctx [] v := by
  unfold Linked
  rw [hscope]

theorem Context.layout_command {ctx : Context} (hscope : ctx.scope = none) :
    ctx.layout = unscoped := by
  unfold Context.layout
  rw [hscope]
  rfl

section Commands

variable {n : Nat} {site : Site} {σ : Store} {w : World} {t : State}

theorem ends_command (hscope : site.ctx.scope = none) (h : Sim site [] σ w) {c : Command}
    {control : Control}
    (hrun : Machine.run (placed site.ctx.setting) n
      (Machine.exec (placed site.ctx.setting) ⟨control, [], σ⟩ c.toStmt) = some t) :
    Ends site [] finish (command (meaning n) site.ctx c) w t := by
  have hlayout := Context.layout_command hscope
  cases c with
  | call span name listed args =>
      have hargs := placeExprs_unscoped args
      rw [← hlayout] at hargs
      have hcall : Machine.run (placed site.ctx.setting) n (Machine.startCall
          (placed site.ctx.setting) (State.under ⟨control, [], σ⟩ [.discard])
          (placeExpr site.ctx.layout [] .missing) name (placeExprs site.ctx.layout [] args) false) =
          some t := by
        rw [hargs]
        exact hrun
      exact (simulated n).callStmt h (fun v _ => linked_command hscope v) hcall
  | eval span e =>
      have he := placeExpr_unscoped e
      rw [← hlayout] at he
      have heval : Machine.run (placed site.ctx.setting) n
          ⟨.expr (placeExpr site.ctx.layout [] e), [.print], σ⟩ = some t := by
        rw [he]
        exact hrun
      refine (simulated n).evalThen h (fun v _ => linked_command hscope v) (fun _ _ => rfl) heval ?_
      intro v τ u hsim hrest
      exact Simulated.print hsim hrest

theorem ends_commands (hscope : site.ctx.scope = none) (h : Sim site [] σ w) {cs : List Command}
    (hrun : Machine.run (placed site.ctx.setting) n
      ⟨.stmts (cs.map Command.toStmt), [], σ⟩ = some t) :
    Ends site [] finish (commands (meaning n) site.ctx cs) w t := by
  induction cs generalizing σ w with
  | nil =>
      rw [Machine.eq_of_run_of_isFinal rfl (Machine.run_step hrun)]
      exact .ret h
  | cons c rest ih =>
      have hstep : Machine.step (placed site.ctx.setting)
          ⟨.stmts ((c :: rest).map Command.toStmt), [], σ⟩ = _ :=
        Machine.exec_under (placed site.ctx.setting)
          ⟨.stmts ((c :: rest).map Command.toStmt), [], σ⟩
          [.next c.toStmt.span (rest.map Command.toStmt)] c.toStmt
      have hrun := Machine.run_step hrun
      rw [hstep] at hrun
      obtain ⟨u, hcommand, -, hnext⟩ := Machine.run_under hrun
      have hspan : c.toStmt.span = c.span := by cases c <;> rfl
      rcases ends_command hscope h hcommand with
        ⟨a, τ, w', rfl, ha, hsim⟩ | ⟨f, τ, w', rfl, hf, hleft⟩
      · exact .andThen ⟨.ok (), ha, rfl⟩ (ih hsim (Machine.run_step hnext))
      · have hnext := Machine.run_step hnext
        rw [hspan] at hnext
        rw [Machine.eq_of_run_of_isFinal rfl hnext]
        exact .failed ⟨.error f, hf, rfl⟩ hleft

end Commands

/-- The frame of the commands shows the world in which they start. -/
theorem sim_start {table : ClassTable} (hlaid : Laid table) (i : Interpreter) {stack : CallStack}
    (hpush : i.store.stack.push "" 0 [] 0 = .ok stack) :
    Sim ⟨.commands table i, i.store.stack.live, 0⟩ [] { i.store with stack := stack }
      (.start i.store) := by
  obtain ⟨-, hlimit, hlive⟩ := CallStack.push_ok hpush
  refine ⟨rfl, rfl, rfl, hlimit, ⟨commandFrame, hlive, ?_⟩, rfl, hlaid⟩
  constructor
  case values => exact List.nil_prefix
  case arity =>
    intro scope hscope
    cases hscope
  case command => exact fun _ => rfl
  all_goals rfl

/-- How a run of commands ends with a result. -/
def ending : Except Failure Unit → Ending
  | .ok _ => .finished
  | .error f => .failed f

/-- What is handed on as the result of an expression. -/
def handed : Except Failure Word → Control
  | .ok v => .value v
  | .error f => .failed f

/-- An interpreter that was left in some way, as a result and a world say. -/
def LeftAs (after : Interpreter × Ending) (r : Except Failure Unit) (w : World) : Prop :=
  after.1.store.heap = w.heap ∧ after.1.store.printed = w.printed ∧
    after.1.store.traced = w.traced ∧ after.2 = ending r

/-- A run of commands that ends is matched by a run of their meaning. -/
theorem runs_of_runCommands {table : ClassTable} (hlaid : Laid table) (i : Interpreter) (steps : Nat)
    (cs : List Command)
    (hends : ((i.bind (table.mapRoutines (Layout.placeIn table))).runCommands steps cs).2 ≠
      .outOfSteps) :
    ∃ r w, Runs table i cs (.start i.store) r w ∧
      LeftAs ((i.bind (table.mapRoutines (Layout.placeIn table))).runCommands steps cs) r w := by
  unfold Interpreter.runCommands at hends ⊢
  dsimp only [Interpreter.bind] at hends ⊢
  cases hpush : i.store.stack.push "" 0 [] 0 with
  | error f =>
      refine ⟨.error (.fault f), .start i.store, ⟨0, ?_⟩, rfl, rfl, rfl, rfl⟩
      unfold CallStack.push at hpush
      split at hpush
      · cases hpush
      · rename_i hdepth
        cases hpush
        rw [if_neg hdepth, String.append_empty]
        exact ⟨rfl, rfl⟩
  | ok stack =>
      have hdepth := (CallStack.push_ok hpush).1
      simp only [hpush] at hends ⊢
      cases hrun : Machine.run (placed ⟨table, i.sink, i.tracing⟩) steps
          ⟨.stmts (cs.map Command.toStmt), [], { i.store with stack := stack }⟩ with
      | none =>
          rw [placed] at hrun
          simp only [hrun] at hends
          exact absurd rfl hends
      | some final =>
          have hmatch := ends_commands rfl (sim_start hlaid i hpush) hrun
          rw [placed] at hrun
          simp only [hrun]
          rcases hmatch with ⟨a, τ, w, rfl, ha, hsim⟩ | ⟨f, τ, w, rfl, hf, hleft⟩
          · refine ⟨.ok (), w, ⟨steps, ?_⟩, hsim.heap.symm, hsim.printed.symm, hsim.traced.symm, rfl⟩
            rw [if_pos hdepth]
            exact ha
          · refine ⟨.error f, w, ⟨steps, ?_⟩, hleft.heap.symm, hleft.printed.symm, hleft.traced.symm,
              rfl⟩
            rw [if_pos hdepth]
            exact hf

/-- **Layout keeps lexical scoping.** Let a program have no diagnostics and no layout errors. Every
evaluation of it that ends is matched by a run of its meaning by names that leaves the same heap, the
same printed values and the same traced lines, and ends well or in the same failure; and every
expression that is evaluated to its end against its table has, by names, the same value or the same
failure. -/
theorem layout_keeps_scoping {p : Program} (hdiagnostics : (ClassTable.build p).2 = [])
    (herrors : p.layoutErrors (ClassTable.build p).1 = []) (i : Interpreter) :
    (∀ steps, (i.evaluate steps false (some p)).2 ≠ .outOfSteps →
      ∃ r w, Runs (ClassTable.build p).1 i p.commands (.start i.store) r w ∧
        LeftAs (i.evaluate steps false (some p)) r w) ∧
    ∀ n stack e t, i.store.stack.push "" 0 [] 0 = .ok stack →
      Machine.run
        ⟨(ClassTable.build (p.place (ClassTable.build p).1)).1, i.sink, i.tracing⟩ n
        ⟨.expr e, [], { i.store with stack := stack }⟩ = some t →
      ∃ r w, Evaluates (ClassTable.build p).1 i e (.start i.store) r w ∧
        t.store.heap = w.heap ∧ t.store.printed = w.printed ∧ t.store.traced = w.traced ∧
        t.control = handed r := by
  have hlaid : Laid (ClassTable.build p).1 := fun m hm => Layout.resolved_of_layoutErrors herrors hm
  have hknown : ∀ decl, some decl ∈ p.classes → Layout.isKnown (ClassTable.build p).1 decl = true :=
    fun decl hdecl => Layout.isKnown_of_layoutErrors herrors hdecl
  have htable := Layout.build_place hknown
  constructor
  · intro steps
    rw [i.evaluate_placed hdiagnostics herrors steps, htable]
    exact runs_of_runCommands hlaid i steps p.commands
  · intro n stack e t hpush hrun
    rw [htable] at hrun
    have hsim := sim_start hlaid i hpush
    have he : placeExpr (Context.commands (ClassTable.build p).1 i).layout [] e = e :=
      placeExpr_unscoped e
    rw [← he] at hrun
    rcases (simulated n).expr hsim (fun v _ => rfl) hrun with
      ⟨v, τ, w, rfl, hv, hafter⟩ | ⟨f, τ, w, rfl, hf, hleft⟩
    · exact ⟨.ok v, w, ⟨n, hv⟩, hafter.heap.symm, hafter.printed.symm, hafter.traced.symm, rfl⟩
    · exact ⟨.error f, w, ⟨n, hf⟩, hleft.heap.symm, hleft.printed.symm, hleft.traced.symm, rfl⟩

/-- A routine with a local that an inner one of the same name hides, a loop whose local stands in the
slot of the hidden one, and a local that the parameter hides. -/
def shadowingProgram : Program :=
  let named (name : String) : Var := ⟨.unknown, name, .unresolved⟩
  let read (name : String) : Expr := .var .unknown (named name)
  let number (value : Word) : Expr := .integer .unknown value
  let inner : List Stmt := [.declare .unknown .missing "x", .assign .unknown (named "x") (read "n"),
    .output .unknown (read "x")]
  let round : List Stmt := [.declare .unknown .missing "y", .assign .unknown (named "y") (read "n"),
    .output .unknown (read "y"),
    .assign .unknown (named "n") (.binary .unknown "-" (read "n") (number 1))]
  let body : List Stmt := [.declare .unknown .missing "x", .assign .unknown (named "x") (number 1),
    .branch .unknown (.truth .unknown true) (.mk .unknown true inner) .absent,
    .loop .unknown (.binary .unknown "<" (number 0) (read "n")) (.mk .unknown true round),
    .declare .unknown .missing "n", .assign .unknown (named "n") (number 7),
    .output .unknown (read "n"), .output .unknown (read "x")]
  let main : Routine :=
    ⟨.unknown, "main", true, [⟨.unknown, .missing, "n"⟩], true, body, none, 0⟩
  ⟨.unknown, true, [some main], true, [], true, [.call .unknown "main" true [number 2]]⟩

theorem layout_keeps_scoping_shadowing :
    ∃ w, Runs (ClassTable.build shadowingProgram).1 (.fresh 10 .unlimited false)
        shadowingProgram.commands (.start (.fresh 10)) (.ok ()) w ∧
      w.printed = #[2, 2, 1, 7, 1] := by
  have hprinted : ((Interpreter.fresh 10 .unlimited false).evaluate 200 false
      (some shadowingProgram)).1.store.printed = #[2, 2, 1, 7, 1] := by
    decide +kernel
  have hfinished : ((Interpreter.fresh 10 .unlimited false).evaluate 200 false
      (some shadowingProgram)).2 = .finished := by
    decide +kernel
  obtain ⟨hruns, -⟩ := layout_keeps_scoping (p := shadowingProgram) (by decide +kernel)
    (by decide +kernel) (.fresh 10 .unlimited false)
  obtain ⟨r, w, hrun, -, hsame, -, hending⟩ := hruns 200 (by rw [hfinished]; decide)
  rw [hprinted] at hsame
  rw [hfinished] at hending
  cases r with
  | ok u => exact ⟨w, hrun, hsame.symm⟩
  | error f => cases hending

end Lexical

end ObjectLang
