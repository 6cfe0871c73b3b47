import ObjectLang.Proofs.Activations

/-! Runs follow the meaning by names. Code that is placed where some locals are in scope, run in a frame
that shows an activation, ends as the meaning of the code says, in a frame that shows the activation
afterwards; a new cell has the value that its slot held before. The proof goes by the number of steps
of the run, which is also the number of levels of nesting that the meaning needs. -/

namespace ObjectLang

namespace Lexical

open Layout (placeVar placeExpr placeExprs exprVars exprsVars)

/-- Runs of at most so many steps end as the approximation of that many levels says. -/
structure Simulated (n : Nat) : Prop where
  expr : ∀ {site locals σ w e t}, Sim site locals σ w →
    (∀ v ∈ exprVars e, Linked site.ctx locals v) →
    Machine.run (placed site.ctx.setting) n ⟨.expr (placeExpr site.ctx.layout locals e), [], σ⟩ =
      some t →
    Ends site locals .value ((meaning n).expr site.ctx e) w t
  stmts : ∀ {site locals σ w body t}, Sim site locals σ w → site.ctx.scope = some site.ctx.layout →
    Layout.Resolved (Layout.stmtsOutcomes site.ctx.layout locals body) →
    Layout.stmtsPeak locals.length body ≤ site.slots →
    Machine.run (placed site.ctx.setting) n
      ⟨.stmts (Layout.placeStmts site.ctx.layout locals body), [], σ⟩ = some t →
    Ends site (locals ++ Layout.bodyLocals body) finish ((meaning n).stmts site.ctx body) w t
  loop : ∀ {site locals σ w cond body t}, Sim site locals σ w →
    site.ctx.scope = some site.ctx.layout →
    Layout.Resolved (Layout.exprOutcomes site.ctx.layout locals cond) →
    Layout.Resolved (Layout.blockOutcomes site.ctx.layout locals body) →
    Layout.blockPeak locals.length body ≤ site.slots →
    Machine.run (placed site.ctx.setting) n
      ⟨.expr (placeExpr site.ctx.layout locals cond),
        [.test (placeExpr site.ctx.layout locals cond)
          (Layout.placeBlock site.ctx.layout locals body)], σ⟩ = some t →
    Ends site locals finish ((meaning n).loop site.ctx cond body) w t

theorem linked_of_resolved {ctx : Context} (hscope : ctx.scope = some ctx.layout)
    {locals : List String} {vars : List Var}
    (h : Layout.Resolved (vars.map (Layout.outcome ctx.layout locals))) :
    ∀ v ∈ vars, Linked ctx locals v := by
  intro v hv
  obtain ⟨p, hp⟩ := h _ (List.mem_map_of_mem hv)
  unfold Linked
  rw [hscope]
  exact ⟨_, Layout.resolve_of_outcome hp⟩

namespace Simulated

variable {n : Nat} {site : Site} {locals : List String} {σ : Store} {w : World} {t : State}

/-- An operand is evaluated, and what waits for it goes on as the computation does. -/
theorem evalThen {α : Type} {hand : α → Control} {locals' : List String} (hn : Simulated n)
    (h : Sim site locals σ w) {e : Expr} (hlinked : ∀ v ∈ exprVars e, Linked site.ctx locals v)
    {p : Pending} (hp : ∀ s f, Machine.unwind s f p = s.fail f) {k : Word → Sem α}
    (hrun : Machine.run (placed site.ctx.setting) n
      ⟨.expr (placeExpr site.ctx.layout locals e), [p], σ⟩ = some t)
    (hk : ∀ v τ u, Sim site locals τ u → Machine.run (placed site.ctx.setting) n
        (Machine.resume (placed site.ctx.setting) ⟨.value v, [], τ⟩ v p) = some t →
      Ends site locals' hand (k v) u t) :
    Ends site locals' hand ((meaning n).expr site.ctx e >>= k) w t := by
  rcases Machine.run_expr hrun with ⟨v, τ, hoperand, hrest⟩ | ⟨f, τ, hoperand, hrest⟩
  · obtain ⟨u, hm, hsim⟩ := (hn.expr h hlinked hoperand).value_inv
    exact .andThen hm (hk v τ u hsim hrest)
  · obtain ⟨u, hm, hleft⟩ := (hn.expr h hlinked hoperand).failed_inv (by simp)
    rw [hp] at hrest
    rw [Machine.eq_of_run_of_isFinal rfl hrest]
    exact .failed hm hleft

/-- The arguments of a call are evaluated, and the call goes on as the computation does. -/
theorem argsThen (hn : Simulated n) (h : Sim site locals σ w) {control : Control} {callee : Callee}
    {evaluated : List Word} {args : List Expr}
    (hlinked : ∀ v ∈ exprsVars args, Linked site.ctx locals v) {k : List Word → Sem Word}
    (hrun : Machine.run (placed site.ctx.setting) n
      (Machine.evalArgs (placed site.ctx.setting) ⟨control, [], σ⟩ callee evaluated
        (placeExprs site.ctx.layout locals args)) = some t)
    (hk : ∀ vs control τ u, Sim site locals τ u → Machine.run (placed site.ctx.setting) n
        (Machine.call (placed site.ctx.setting) ⟨control, [], τ⟩ (evaluated.reverse ++ vs) callee) =
          some t →
      Ends site locals .value (k vs) u t) :
    Ends site locals .value (evalArgs (meaning n) site.ctx args >>= k) w t := by
  induction args generalizing σ w control evaluated k with
  | nil =>
      refine .andThen ⟨rfl, rfl⟩ (hk [] control σ w h ?_)
      rw [List.append_nil]
      exact hrun
  | cons e rest ih =>
      have hvars : ∀ v ∈ exprVars e ++ exprsVars rest, Linked site.ctx locals v := hlinked
      have hhead := fun v hv => hvars v (List.mem_append_left _ hv)
      have htail := fun v hv => hvars v (List.mem_append_right _ hv)
      rw [evalArgs, Sem.bind_assoc]
      refine hn.evalThen h hhead (fun _ _ => rfl) hrun ?_
      intro v τ u hsim hrest
      rw [Sem.bind_assoc]
      refine ih hsim htail hrest ?_
      intro vs control' τ' u' hsim' hcall
      rw [Sem.pure_bind]
      refine hk (v :: vs) control' τ' u' hsim' ?_
      simpa using hcall

end Simulated

theorem shown_eq_line {f : Frame} {ctx : Context} (hroutine : f.routine = ctx.routine)
    (hself : f.self = ctx.self) : f.shown = ctx.line := by
  simp only [Frame.shown, Frame.label, Context.line, hroutine, hself]

theorem Left.trace {site : Site} {σ : Store} {w : World} (h : Left site σ w)
    (hcallers : site.below.map Frame.shown = site.ctx.callers) :
    σ.stack.trace = site.ctx.trace := by
  obtain ⟨f, hlive, hroutine, hself⟩ := h.frame
  have htrace : σ.stack.trace = σ.stack.live.map Frame.shown := rfl
  rw [htrace, hlive, List.map_cons, hcallers, shown_eq_line hroutine hself]
  rfl

theorem Sim.depth {site : Site} {locals : List String} {σ : Store} {w : World}
    (h : Sim site locals σ w) : σ.stack.depth = site.ctx.trace.length := by
  obtain ⟨f, hlive, -⟩ := h.frame
  rw [CallStack.depth_eq, hlive, Context.trace, ← h.callers]
  simp

/-- The site of a routine that is called from a frame of a site. -/
def Site.enter (site : Site) (caller : Frame) (m : Method) (self : Word) : Site :=
  ⟨site.ctx.enter m self, caller :: site.below, Layout.stmtsPeak 0 m.decl.body⟩

/-- The frame of a routine that is called shows its activation. -/
theorem Sim.enter {site : Site} {locals : List String} {σ : Store} {w : World} {caller : Frame}
    (h : Sim site locals σ w) (hlive : σ.stack.live = caller :: site.below)
    (hcaller : Shows site.ctx site.slots locals caller w) {m : Method} {self : Word}
    {args : List Word} (harity : m.decl.params.length = args.length) {stack : CallStack}
    (hpush : σ.stack.push m.qualified self args (Layout.stmtsPeak 0 m.decl.body) = .ok stack) :
    Sim (site.enter caller m self) [] { σ with stack := stack }
      { w with args := args, cells := [] } := by
  obtain ⟨-, hlimit, hstack⟩ := CallStack.push_ok hpush
  refine ⟨h.heap, h.printed, h.traced, hlimit.trans h.limit, ⟨_, by rw [hstack, hlive]; rfl, ?_⟩, ?_,
    h.laid⟩
  · constructor
    case size => simp [Site.enter]
    case names => rfl
    case values => exact List.nil_prefix
    case arity =>
      intro scope hscope
      cases hscope
      simp [Layout.routineScope, harity]
    case command =>
      intro hnone
      cases hnone
    all_goals rfl
  · have hline := shown_eq_line hcaller.routine hcaller.self
    simp only [Site.enter, Context.enter, Context.trace, List.map_cons, hline, h.callers]

/-- A routine that is left leaves the activation of its caller. -/
theorem Sim.leave {site : Site} {locals : List String} {σ τ : Store} {w u : World} {caller : Frame}
    (h : Sim site locals σ w) (hcaller : Shows site.ctx site.slots locals caller w) {m : Method}
    {self : Word} (hleft : Left (site.enter caller m self) τ u) :
    Sim site locals { τ with stack := τ.stack.pop } { u with args := w.args, cells := w.cells } := by
  obtain ⟨f, hlive, -, -⟩ := hleft.frame
  refine ⟨hleft.heap, hleft.printed, hleft.traced, hleft.limit, ⟨caller, ?_, { hcaller with }⟩,
    h.callers, h.laid⟩
  dsimp only
  rw [CallStack.live_pop, hlive]
  rfl

/-- The state in which a routine is left. -/
def returned (trace : List String) (τ : Store) : Except Failure Word → State
  | .ok v => ⟨.value v, [], { τ with stack := τ.stack.pop }⟩
  | .error f => ⟨.failed (f.capture trace), [], { τ with stack := τ.stack.pop }⟩

theorem findMethod?_placed (setting : Setting) (name : String) :
    findMethod? (placed setting).table.top name =
      (findMethod? setting.table.top name).map
        (Method.mapRoutine (Layout.placeIn setting.table)) :=
  ClassTable.findMethod?_mapRoutines (Layout.placeIn_name setting.table) _ name

theorem lookup?_placed (setting : Setting) (className name : String) :
    (placed setting).table.lookup? className name =
      (setting.table.lookup? className name).map
        (Method.mapRoutine (Layout.placeIn setting.table)) :=
  ClassTable.lookup?_mapRoutines (Layout.placeIn_name setting.table) className name

namespace Simulated

variable {n : Nat} {site : Site} {locals : List String} {σ : Store} {w : World} {t : State}

/-- The body of a routine is run and left. -/
theorem body (hn : Simulated n) (h : Sim site [] σ w) (hscope : site.ctx.scope = some site.ctx.layout)
    {m : Method} (hresolved : Layout.Resolved (Layout.routineOutcomes site.ctx.layout m.decl))
    (hpeak : Layout.stmtsPeak 0 m.decl.body ≤ site.slots) {wantsValue : Bool}
    (hrun : Machine.run (placed site.ctx.setting) n
      ⟨.stmts (Layout.placeStmts site.ctx.layout [] m.decl.body),
        [.activation (if wantsValue then
          (Layout.placeRoutine site.ctx.layout m.decl).returns.map (·.result) else none)], σ⟩ =
        some t) :
    ∃ r τ u, runBody (meaning n) site.ctx m wantsValue w r u ∧ Left site τ u ∧
      t = returned site.ctx.trace τ r := by
  obtain ⟨hbody, hresult⟩ := Layout.resolved_append.mp hresolved
  rcases Machine.run_stmts hrun with ⟨τ, hdone, hrest⟩ | ⟨f, τ, hfailed, hrest⟩
  · obtain ⟨u, hm, hsim⟩ := (hn.stmts h hscope hbody hpeak hdone).done_inv
    cases wantsValue with
    | false =>
        refine ⟨.ok 0, τ, u, .inl ⟨(), u, hm, rfl, rfl⟩, hsim.left, ?_⟩
        exact Machine.eq_of_run_of_isFinal rfl hrest
    | true =>
        cases hreturns : m.decl.returns with
        | none =>
            simp only [Layout.placeRoutine, hreturns] at hrest
            refine ⟨.ok 0, τ, u, .inl ⟨(), u, hm, ?_⟩, hsim.left,
              Machine.eq_of_run_of_isFinal rfl hrest⟩
            simp only [hreturns]
            exact ⟨rfl, rfl⟩
        | some returns =>
            simp only [Layout.placeRoutine, hreturns, Option.map_some, if_true] at hrest
            simp only [hreturns] at hresult
            have hlinked := linked_of_resolved hscope hresult
            have hmeans : ∀ r u', (meaning n).expr site.ctx returns.result u r u' →
                runBody (meaning n) site.ctx m true w r u' := by
              intro r u' hr
              refine .inl ⟨(), u, hm, ?_⟩
              simp only [hreturns]
              exact hr
            rcases Machine.run_expr hrest with ⟨v, τ', hvalue, hpop⟩ | ⟨f, τ', hvalue, hpop⟩
            · obtain ⟨u', hr, hsim'⟩ := (hn.expr hsim hlinked hvalue).value_inv
              exact ⟨.ok v, τ', u', hmeans _ _ hr, hsim'.left,
                Machine.eq_of_run_of_isFinal rfl hpop⟩
            · obtain ⟨u', hr, hleft⟩ := (hn.expr hsim hlinked hvalue).failed_inv (by simp)
              refine ⟨.error f, τ', u', hmeans _ _ hr, hleft, ?_⟩
              rw [Machine.eq_of_run_of_isFinal rfl hpop, ← hleft.trace h.callers]
              rfl
  · obtain ⟨u, hm, hleft⟩ := (hn.stmts h hscope hbody hpeak hfailed).failed_inv (by simp [finish])
    refine ⟨.error f, τ, u, .inr ⟨f, hm, rfl⟩, hleft, ?_⟩
    rw [Machine.eq_of_run_of_isFinal rfl hrest, ← hleft.trace h.callers]
    rfl

/-- What entering a placed routine does. -/
theorem enter_placed (table : ClassTable) (m : Method) (control : Control) (σ : Store) (self : Word)
    (args : List Word) (wantsValue : Bool) :
    Machine.enter ⟨control, [], σ⟩ (m.mapRoutine (Layout.placeIn table)) self args wantsValue =
      if m.decl.params.length ≠ args.length then
        State.raise ⟨control, [], σ⟩ .unresolvedDispatch (m.qualified ++ " expects " ++
          toString m.decl.params.length ++ " arguments, got " ++ toString args.length)
      else if wantsValue && m.decl.returns.isNone then
        State.raise ⟨control, [], σ⟩ .unresolvedDispatch
          ("procedure " ++ m.qualified ++ " does not produce a value")
      else match σ.stack.push m.qualified self args (Layout.stmtsPeak 0 m.decl.body) with
        | .error f => State.fail ⟨control, [], σ⟩ (.fault f)
        | .ok stack =>
          ⟨.stmts (Layout.placeStmts (Layout.routineScope table m.owner m.decl) [] m.decl.body),
            [.activation (if wantsValue then
              (Layout.placeRoutine (Layout.routineScope table m.owner m.decl) m.decl).returns.map
                (·.result) else none)], { σ with stack := stack }⟩ := by
  have hreturns : (m.mapRoutine (Layout.placeIn table)).decl.returns.isNone =
      m.decl.returns.isNone := Option.isNone_map
  unfold Machine.enter
  rw [hreturns]
  rfl

theorem invoke (hn : Simulated n) (h : Sim site locals σ w) {m : Method}
    (hm : m ∈ site.ctx.setting.table.methods) {control : Control} {self : Word} {args : List Word}
    {wantsValue : Bool}
    (hrun : Machine.run (placed site.ctx.setting) n (Machine.enter ⟨control, [], σ⟩
      (m.mapRoutine (Layout.placeIn site.ctx.setting.table)) self args wantsValue) = some t) :
    Ends site locals .value (Lexical.invoke (meaning n) site.ctx m self args wantsValue) w t := by
  obtain ⟨caller, hlive, hcaller⟩ := h.frame
  rw [enter_placed] at hrun
  unfold Lexical.invoke
  by_cases harity : m.decl.params.length ≠ args.length
  · rw [if_pos harity] at hrun ⊢
    rw [Machine.eq_of_run_of_isFinal rfl hrun]
    exact .fail h.left
  · rw [if_neg harity] at hrun ⊢
    by_cases hvalue : (wantsValue && m.decl.returns.isNone) = true
    · rw [if_pos hvalue] at hrun ⊢
      rw [Machine.eq_of_run_of_isFinal rfl hrun]
      exact .fail h.left
    · rw [if_neg hvalue] at hrun ⊢
      cases hpush : σ.stack.push m.qualified self args (Layout.stmtsPeak 0 m.decl.body) with
      | error f =>
          rw [hpush] at hrun
          unfold CallStack.push at hpush
          rw [h.depth, h.limit] at hpush
          split at hpush
          · cases hpush
          · rename_i hdepth
            cases hpush
            rw [if_neg hdepth, Machine.eq_of_run_of_isFinal rfl hrun]
            exact .fail h.left
      | ok stack =>
          rw [hpush] at hrun
          have hdepth := (CallStack.push_ok hpush).1
          rw [h.depth, h.limit] at hdepth
          have hsim := h.enter hlive hcaller (not_not.mp harity) hpush
          obtain ⟨r, τ, u, hbody, hleft, rfl⟩ :=
            hn.body hsim rfl (h.laid m hm) (Nat.le_refl _) hrun
          rw [if_pos hdepth]
          have hcaller := h.leave hcaller hleft
          cases r with
          | ok v => exact .inl ⟨v, _, _, rfl, ⟨.ok v, u, hbody, rfl, rfl⟩, hcaller⟩
          | error f => exact .inr ⟨_, _, _, rfl, ⟨.error f, u, hbody, rfl, rfl⟩, hcaller.left⟩

theorem callTop (hn : Simulated n) (h : Sim site locals σ w) {control : Control} {name : String}
    {args : List Expr} {wantsValue : Bool}
    (hlinked : ∀ v ∈ exprsVars args, Linked site.ctx locals v)
    (hrun : Machine.run (placed site.ctx.setting) n (Machine.callTop (placed site.ctx.setting)
      ⟨control, [], σ⟩ name (placeExprs site.ctx.layout locals args) wantsValue) = some t) :
    Ends site locals .value (Lexical.callTop (meaning n) site.ctx name args wantsValue) w t := by
  unfold Machine.callTop at hrun
  rw [findMethod?_placed] at hrun
  unfold Lexical.callTop
  cases hfind : findMethod? site.ctx.setting.table.top name with
  | none =>
      rw [hfind] at hrun
      rw [Machine.eq_of_run_of_isFinal rfl hrun]
      exact .fail h.left
  | some m =>
      rw [hfind] at hrun
      refine hn.argsThen h hlinked hrun ?_
      intro vs control' τ u hsim hcall
      exact hn.invoke hsim (ClassTable.mem_methods_of_top hfind).2 hcall

/-- A call on a receiver that is known goes on with the arguments. -/
theorem receive (hn : Simulated n) (h : Sim site locals σ w) {control : Control} {ref : Word}
    {name : String} {args : List Expr} {wantsValue : Bool} (hne : ref ≠ 0)
    (hlinked : ∀ v ∈ exprsVars args, Linked site.ctx locals v)
    (hrun : Machine.run (placed site.ctx.setting) n (Machine.receive (placed site.ctx.setting)
      ⟨control, [], σ⟩ ref name (placeExprs site.ctx.layout locals args) wantsValue) = some t) :
    Ends site locals .value (do
      let w ← Sem.world
      let o ← Sem.ofExcept (w.heap.deref ref)
      let vs ← evalArgs (meaning n) site.ctx args
      match site.ctx.setting.table.lookup? o.type name with
      | none => .raise .unresolvedDispatch ("class " ++ o.type ++ " has no method " ++ name)
      | some m => Lexical.invoke (meaning n) site.ctx m ref vs wantsValue) w t := by
  unfold Machine.receive at hrun
  rw [if_neg hne] at hrun
  refine .world ?_
  rw [h.heap]
  cases hderef : σ.heap.deref ref with
  | error f =>
      simp only [hderef] at hrun
      rw [Machine.eq_of_run_of_isFinal rfl hrun]
      exact .ofError rfl h.left
  | ok o =>
      simp only [hderef] at hrun
      refine .ofOk rfl (hn.argsThen h hlinked hrun ?_)
      intro vs control' τ u hsim hcall
      unfold Machine.call at hcall
      simp only [lookup?_placed] at hcall
      cases hlookup : site.ctx.setting.table.lookup? o.type name with
      | none =>
          simp only [hlookup] at hcall
          rw [Machine.eq_of_run_of_isFinal rfl hcall]
          exact .fail hsim.left
      | some m =>
          simp only [hlookup] at hcall
          exact hn.invoke hsim (ClassTable.lookup?_cases hlookup).1 hcall

theorem callOn (hn : Simulated n) (h : Sim site locals σ w) {receiver : Expr} {name : String}
    {args : List Expr} {wantsValue : Bool}
    (hreceiver : ∀ v ∈ exprVars receiver, Linked site.ctx locals v)
    (hlinked : ∀ v ∈ exprsVars args, Linked site.ctx locals v)
    (hrun : Machine.run (placed site.ctx.setting) n
      ⟨.expr (placeExpr site.ctx.layout locals receiver),
        [.receive name (placeExprs site.ctx.layout locals args) wantsValue], σ⟩ = some t) :
    Ends site locals .value (Lexical.callOn (meaning n) site.ctx receiver name args wantsValue) w
      t := by
  refine hn.evalThen h hreceiver (fun _ _ => rfl) hrun ?_
  intro ref τ u hsim hrest
  by_cases hnull : ref = 0
  · rw [if_pos hnull]
    simp only [Machine.resume, Machine.receive, if_pos hnull] at hrest
    rw [Machine.eq_of_run_of_isFinal rfl hrest]
    exact .fail hsim.left
  · rw [if_neg hnull]
    exact hn.receive hsim hnull hlinked hrest

theorem call (hn : Simulated n) (h : Sim site locals σ w) {control : Control} {receiver : Expr}
    {name : String} {args : List Expr} {wantsValue : Bool}
    (hlinked : ∀ v ∈ exprVars receiver ++ exprsVars args, Linked site.ctx locals v)
    (hrun : Machine.run (placed site.ctx.setting) n (Machine.startCall (placed site.ctx.setting)
      ⟨control, [], σ⟩ (placeExpr site.ctx.layout locals receiver) name
        (placeExprs site.ctx.layout locals args) wantsValue) = some t) :
    Ends site locals .value (Lexical.call (meaning n) site.ctx receiver name args wantsValue) w t := by
  have hreceiver := fun v hv => hlinked v (List.mem_append_left _ hv)
  have hargs := fun v hv => hlinked v (List.mem_append_right _ hv)
  cases receiver with
  | missing => exact hn.callTop h hargs hrun
  | _ => exact hn.callOn h hreceiver hargs hrun

/-- A constructed object is traced. -/
theorem traceObject (h : Sim site locals σ w) {control : Control} {className : String} {ref : Word}
    (hrun : Machine.run (placed site.ctx.setting) n (Machine.constructed (placed site.ctx.setting)
      ⟨control, [], σ⟩ className ref) = some t) :
    Ends site locals .value (Lexical.traceObject site.ctx className ref) w t := by
  obtain ⟨f, hlive, hshows⟩ := h.frame
  have hsame : (placed site.ctx.setting).tracing = site.ctx.setting.tracing := rfl
  unfold Machine.constructed at hrun
  refine .world ?_
  rw [hsame] at hrun
  by_cases htracing : site.ctx.setting.tracing = true
  · rw [if_pos htracing] at hrun ⊢
    rw [h.heap]
    cases hderef : σ.heap.deref ref with
    | error fault =>
        simp only [hderef] at hrun
        rw [Machine.eq_of_run_of_isFinal rfl hrun]
        exact .ret h
    | ok o =>
        simp only [hderef] at hrun
        rw [Machine.eq_of_run_of_isFinal rfl hrun]
        refine .andThen ⟨rfl, rfl⟩ (.ret { h with traced := ?_, heap := rfl, frame := ?_ })
        · rw [h.traced]
        · exact ⟨f, hlive, { hshows with }⟩
  · rw [if_neg htracing] at hrun ⊢
    rw [Machine.eq_of_run_of_isFinal rfl hrun]
    exact .ret h

/-- The constructor of an object is called, and the object is then traced. -/
theorem runConstructor (hn : Simulated n) (h : Sim site locals σ w) {m : Method}
    (hm : m ∈ site.ctx.setting.table.methods) {control : Control} {className : String} {ref : Word}
    {args : List Expr} (hlinked : ∀ v ∈ exprsVars args, Linked site.ctx locals v)
    (hrun : Machine.run (placed site.ctx.setting) n (Machine.evalArgs (placed site.ctx.setting)
      (State.under ⟨control, [], σ⟩ [.constructed className ref])
      (.routine (m.mapRoutine (Layout.placeIn site.ctx.setting.table)) ref false) []
      (placeExprs site.ctx.layout locals args)) = some t) :
    Ends site locals .value (do
      let vs ← evalArgs (meaning n) site.ctx args
      let _ ← Lexical.invoke (meaning n) site.ctx m ref vs false
      Lexical.traceObject site.ctx className ref) w t := by
  rw [Machine.evalArgs_under] at hrun
  obtain ⟨u, hcall, -, hrest⟩ := Machine.run_under hrun
  have hends : Ends site locals .value (evalArgs (meaning n) site.ctx args >>= fun vs =>
      Lexical.invoke (meaning n) site.ctx m ref vs false) w u := by
    refine hn.argsThen h hlinked hcall ?_
    intro vs control' τ u' hsim hinvoke
    exact hn.invoke hsim hm hinvoke
  rw [← Sem.bind_assoc]
  rcases hends with ⟨v, τ, w', rfl, hv, hsim⟩ | ⟨f, τ, w', rfl, hf, hleft⟩
  · exact .andThen hv (traceObject hsim (Machine.run_step hrest))
  · rw [Machine.eq_of_run_of_isFinal rfl (Machine.run_step hrest)]
    exact .failed hf hleft

theorem construct (hn : Simulated n) (h : Sim site locals σ w) {control : Control}
    {className : String} {args : List Expr}
    (hlinked : ∀ v ∈ exprsVars args, Linked site.ctx locals v)
    (hrun : Machine.run (placed site.ctx.setting) n (Machine.construct (placed site.ctx.setting)
      ⟨control, [], σ⟩ className (placeExprs site.ctx.layout locals args)) = some t) :
    Ends site locals .value (Lexical.construct (meaning n) site.ctx className args) w t := by
  obtain ⟨f, hlive, hshows⟩ := h.frame
  have hcountPlaced : (placed site.ctx.setting).table.fieldCount className =
      site.ctx.setting.table.fieldCount className := ClassTable.fieldCount_mapRoutines className
  unfold Machine.construct at hrun
  unfold Lexical.construct
  rw [hcountPlaced] at hrun
  cases hcount : site.ctx.setting.table.fieldCount className with
  | error cause =>
      simp only [hcount] at hrun
      rw [Machine.eq_of_run_of_isFinal rfl hrun]
      exact .fail h.left
  | ok count =>
      have hgrown : Sim site locals { σ with heap := w.heap.addInstance count className }
          { w with heap := w.heap.addInstance count className } :=
        { h with heap := rfl, frame := ⟨f, hlive, { hshows with }⟩ }
      simp only [hcount, ← h.heap] at hrun
      refine .world (.andThen ⟨rfl, rfl⟩ ?_)
      cases hlookup : site.ctx.setting.table.lookup? className className with
      | some m =>
          simp only [lookup?_placed, hlookup, Option.map_some] at hrun
          exact hn.runConstructor hgrown (ClassTable.lookup?_cases hlookup).1 hlinked hrun
      | none =>
          simp only [lookup?_placed, hlookup, Option.map_none] at hrun
          cases args with
          | nil => exact traceObject hgrown hrun
          | cons e rest =>
              rw [Layout.length_placeExprs] at hrun
              rw [Machine.eq_of_run_of_isFinal rfl hrun]
              exact .fail hgrown.left

/-! ### Expressions -/

/-- What is evaluated ends as its meaning says, and a failure is then given its span. -/
theorem located {s : State} {span : Span} {m : Sem Word}
    (hrun : Machine.run (placed site.ctx.setting) n (s.under [.locate span]) = some t)
    (hm : ∀ u, Machine.run (placed site.ctx.setting) n s = some u →
      Ends site locals .value m w u) :
    Ends site locals .value (Sem.located span m) w t := by
  obtain ⟨u, hu, -, hrest⟩ := Machine.run_under hrun
  rcases hm u hu with ⟨v, τ, w', rfl, hv, hsim⟩ | ⟨f, τ, w', rfl, hf, hleft⟩
  · rw [Machine.eq_of_run_of_isFinal rfl (Machine.run_step hrest)]
    exact .inl ⟨v, τ, w', rfl, ⟨.ok v, hv, rfl⟩, hsim⟩
  · rw [Machine.eq_of_run_of_isFinal rfl (Machine.run_step hrest)]
    exact .inr ⟨_, τ, w', rfl, ⟨.error f, hf, rfl⟩, hleft⟩

theorem binary (hn : Simulated n) (h : Sim site locals σ w) {span : Span} {op : String}
    {left right : Expr} (hlinked : ∀ v ∈ exprVars left ++ exprVars right, Linked site.ctx locals v)
    (hrun : Machine.run (placed site.ctx.setting) n
      ⟨.expr (placeExpr site.ctx.layout locals left),
        [.rightOperand op (placeExpr site.ctx.layout locals right)], σ⟩ = some t) :
    Ends site locals .value (eval (meaning n) site.ctx (.binary span op left right)) w t := by
  have hleft := fun v hv => hlinked v (List.mem_append_left _ hv)
  have hright := fun v hv => hlinked v (List.mem_append_right _ hv)
  refine hn.evalThen h hleft (fun _ _ => rfl) hrun ?_
  intro l τ u hsim hrest
  refine hn.evalThen hsim hright (fun _ _ => rfl) hrest ?_
  intro r τ' u' hsim' hresult
  rw [Machine.eq_of_run_of_isFinal (isFinal_yield _ _ _) hresult]
  exact .yield hsim'

theorem index (hn : Simulated n) (h : Sim site locals σ w) {span : Span} {array index : Expr}
    (hlinked : ∀ v ∈ exprVars array ++ exprVars index, Linked site.ctx locals v)
    (hrun : Machine.run (placed site.ctx.setting) n
      ⟨.expr (placeExpr site.ctx.layout locals array),
        [.indexOf (placeExpr site.ctx.layout locals index)], σ⟩ = some t) :
    Ends site locals .value (eval (meaning n) site.ctx (.index span array index)) w t := by
  have harray := fun v hv => hlinked v (List.mem_append_left _ hv)
  have hindex := fun v hv => hlinked v (List.mem_append_right _ hv)
  refine hn.evalThen h harray (fun _ _ => rfl) hrun ?_
  intro ref τ u hsim hrest
  refine .world ?_
  rw [hsim.heap]
  unfold Machine.resume at hrest
  cases hderef : τ.heap.deref ref with
  | error f =>
      simp only [hderef] at hrest
      rw [Machine.eq_of_run_of_isFinal rfl hrest]
      exact .ofError rfl hsim.left
  | ok o =>
      simp only [hderef] at hrest
      refine .ofOk rfl (hn.evalThen hsim hindex (fun _ _ => rfl) hrest ?_)
      intro i τ' u' hsim' hresult
      refine .world ?_
      rw [hsim'.heap, Machine.eq_of_run_of_isFinal (isFinal_yield _ _ _) hresult]
      exact .yield hsim'

theorem newArray (hn : Simulated n) (h : Sim site locals σ w) {span : Span} {elem : TypeName}
    {length : Expr} (hlinked : ∀ v ∈ exprVars length, Linked site.ctx locals v)
    (hrun : Machine.run (placed site.ctx.setting) n
      ⟨.expr (placeExpr site.ctx.layout locals length), [.makeArray elem], σ⟩ = some t) :
    Ends site locals .value (eval (meaning n) site.ctx (.newArray span elem length)) w t := by
  refine hn.evalThen h hlinked (fun _ _ => rfl) hrun ?_
  intro count τ u hsim hrest
  obtain ⟨f, hlive, hshows⟩ := hsim.frame
  refine .world ?_
  rw [hsim.heap]
  unfold Machine.resume at hrest
  cases hadd : τ.heap.addArray count elem.text with
  | error f =>
      simp only [hadd] at hrest
      rw [Machine.eq_of_run_of_isFinal rfl hrest]
      exact .ofError rfl hsim.left
  | ok heap =>
      simp only [hadd] at hrest
      rw [Machine.eq_of_run_of_isFinal rfl hrest]
      refine .ofOk rfl (.andThen ⟨rfl, rfl⟩ (.ret { hsim with heap := rfl, frame := ?_ }))
      exact ⟨f, hlive, { hshows with }⟩

/-- Expressions are evaluated as they mean, one level deeper. -/
theorem expr_succ (hn : Simulated n) (h : Sim site locals σ w) {e : Expr}
    (hlinked : ∀ v ∈ exprVars e, Linked site.ctx locals v)
    (hrun : Machine.run (placed site.ctx.setting) (n + 1)
      ⟨.expr (placeExpr site.ctx.layout locals e), [], σ⟩ = some t) :
    Ends site locals .value ((meaning (n + 1)).expr site.ctx e) w t := by
  obtain ⟨f, hlive, hshows⟩ := h.frame
  rw [Machine.run_succ rfl] at hrun
  cases e with
  | missing =>
      refine located (s := ⟨.failed _, [], σ⟩) hrun ?_
      intro u hu
      rw [Machine.eq_of_run_of_isFinal rfl hu]
      exact .fail h.left
  | integer span value =>
      refine located (s := ⟨.value value, [], σ⟩) hrun ?_
      intro u hu
      rw [Machine.eq_of_run_of_isFinal rfl hu]
      exact .ret h
  | truth span value =>
      refine located (s := ⟨.value (Word.ofBool value), [], σ⟩) hrun ?_
      intro u hu
      rw [Machine.eq_of_run_of_isFinal rfl hu]
      exact .ret h
  | var span v =>
      have hread := read_eq hshows hlive h.heap (hlinked v List.mem_cons_self)
      have hyield : Machine.step (placed site.ctx.setting)
          ⟨.expr (placeExpr site.ctx.layout locals (.var span v)), [], σ⟩ =
          State.under (State.yield ⟨.done, [], σ⟩ (read site.ctx w v)) [.locate span] := by
        rw [← hread, ← Machine.yield_under]
        rfl
      rw [hyield] at hrun
      refine located hrun ?_
      intro u hu
      rw [Machine.eq_of_run_of_isFinal (isFinal_yield _ _ _) hu]
      exact .world (.yield h)
  | self span =>
      have hself : σ.stack.read Layout.selfOffset = .ok site.ctx.self := by
        rw [CallStack.read_eq hlive, ← hshows.self]
        rfl
      have hyield : Machine.step (placed site.ctx.setting)
          ⟨.expr (placeExpr site.ctx.layout locals (.self span)), [], σ⟩ =
          State.under ⟨.value site.ctx.self, [], σ⟩ [.locate span] := by
        simp only [placeExpr, Machine.step, Machine.eval, hself]
        rfl
      rw [hyield] at hrun
      refine located hrun ?_
      intro u hu
      rw [Machine.eq_of_run_of_isFinal rfl hu]
      exact .ret h
  | not span operand =>
      have hoperand : ∀ v ∈ exprVars operand, Linked site.ctx locals v := hlinked
      refine located (s := ⟨.expr (placeExpr site.ctx.layout locals operand), [.negate], σ⟩) hrun ?_
      intro u hu
      refine hn.evalThen h hoperand (fun _ _ => rfl) hu ?_
      intro v τ u' hsim hrest
      rw [Machine.eq_of_run_of_isFinal rfl hrest]
      exact .ret hsim
  | isNull span operand =>
      have hoperand : ∀ v ∈ exprVars operand, Linked site.ctx locals v := hlinked
      refine located (s := ⟨.expr (placeExpr site.ctx.layout locals operand), [.testNull], σ⟩) hrun ?_
      intro u hu
      refine hn.evalThen h hoperand (fun _ _ => rfl) hu ?_
      intro v τ u' hsim hrest
      rw [Machine.eq_of_run_of_isFinal rfl hrest]
      exact .ret hsim
  | binary span op left right =>
      refine located (s := ⟨.expr (placeExpr site.ctx.layout locals left),
        [.rightOperand op (placeExpr site.ctx.layout locals right)], σ⟩) hrun ?_
      intro u hu
      exact hn.binary h hlinked hu
  | index span array index =>
      refine located (s := ⟨.expr (placeExpr site.ctx.layout locals array),
        [.indexOf (placeExpr site.ctx.layout locals index)], σ⟩) hrun ?_
      intro u hu
      exact hn.index h hlinked hu
  | length span array =>
      have hoperand : ∀ v ∈ exprVars array, Linked site.ctx locals v := hlinked
      refine located (s := ⟨.expr (placeExpr site.ctx.layout locals array), [.measure], σ⟩) hrun ?_
      intro u hu
      refine hn.evalThen h hoperand (fun _ _ => rfl) hu ?_
      intro ref τ u' hsim hrest
      refine .world ?_
      rw [hsim.heap, Machine.eq_of_run_of_isFinal (isFinal_yield _ _ _) hrest]
      exact .yield hsim
  | newArray span elem length =>
      refine located (s := ⟨.expr (placeExpr site.ctx.layout locals length), [.makeArray elem], σ⟩)
        hrun ?_
      intro u hu
      exact hn.newArray h hlinked hu
  | newObject span className listed args =>
      have hstep : Machine.step (placed site.ctx.setting) ⟨.expr (placeExpr site.ctx.layout locals
          (.newObject span className listed args)), [], σ⟩ = _ :=
        Machine.construct_under (placed site.ctx.setting) ⟨.expr (placeExpr site.ctx.layout locals
          (.newObject span className listed args)), [], σ⟩ [.locate span] className
          (placeExprs site.ctx.layout locals args)
      rw [hstep] at hrun
      refine located hrun ?_
      intro u hu
      exact hn.construct h hlinked hu
  | call span receiver name listed args =>
      have hstep : Machine.step (placed site.ctx.setting) ⟨.expr (placeExpr site.ctx.layout locals
          (.call span receiver name listed args)), [], σ⟩ = _ :=
        Machine.startCall_under (placed site.ctx.setting) ⟨.expr (placeExpr site.ctx.layout locals
          (.call span receiver name listed args)), [], σ⟩ [.locate span]
          (placeExpr site.ctx.layout locals receiver) name
          (placeExprs site.ctx.layout locals args) true
      rw [hstep] at hrun
      refine located hrun ?_
      intro u hu
      exact hn.call h hlinked hu

/-! ### Statements -/

/-- The statements of a block are run in a scope of their own. -/
theorem block (hn : Simulated n) (h : Sim site locals σ w)
    (hscope : site.ctx.scope = some site.ctx.layout) {b : Block}
    (hresolved : Layout.Resolved (Layout.blockOutcomes site.ctx.layout locals b))
    (hpeak : Layout.blockPeak locals.length b ≤ site.slots)
    (hrun : Machine.run (placed site.ctx.setting) n
      ⟨.stmts (Layout.placeBlock site.ctx.layout locals b).body, [], σ⟩ = some t) :
    Ends site locals finish (Sem.inScope ((meaning n).stmts site.ctx b.body)) w t := by
  cases b with
  | absent => exact .inScope h (hn.stmts h hscope hresolved hpeak hrun)
  | mk span listed body => exact .inScope h (hn.stmts h hscope hresolved hpeak hrun)

theorem declare (h : Sim site locals σ w) (name : String) (hfree : locals.length < site.slots) :
    Ends site (locals ++ [name]) finish (Sem.declare name) w ⟨.done, [], σ⟩ := by
  obtain ⟨f, hlive, hshows⟩ := h.frame
  obtain ⟨initial, hinitial⟩ := hshows.declare name hfree
  exact .inl ⟨(), σ, _, rfl, ⟨rfl, initial, rfl⟩, { h with frame := ⟨f, hlive, hinitial⟩ }⟩

theorem print (h : Sim site locals σ w) {control : Control} {value : Word}
    (hrun : Machine.run (placed site.ctx.setting) n
      (Machine.print (placed site.ctx.setting) ⟨control, [], σ⟩ value) = some t) :
    Ends site locals finish (Lexical.print site.ctx value) w t := by
  obtain ⟨f, hlive, hshows⟩ := h.frame
  have hsink : (placed site.ctx.setting).sink = site.ctx.setting.sink := rfl
  have haccept : Ends site locals finish (Sem.put { w with printed := w.printed.push value }) w
      ⟨.done, [], { σ with printed := σ.printed.push value }⟩ := by
    refine .inl ⟨(), _, _, rfl, ⟨rfl, rfl⟩, { h with printed := ?_, frame := ?_ }⟩
    · rw [h.printed]
    · exact ⟨f, hlive, { hshows with }⟩
  unfold Machine.print at hrun
  refine .world ?_
  rw [hsink] at hrun
  cases hsinks : site.ctx.setting.sink with
  | unlimited =>
      simp only [hsinks] at hrun
      rw [Machine.eq_of_run_of_isFinal rfl hrun]
      exact haccept
  | limited capacity complaint =>
      simp only [hsinks, ← h.printed] at hrun
      by_cases hroom : w.printed.size < capacity
      · rw [if_pos hroom] at hrun
        dsimp only
        rw [if_pos hroom, Machine.eq_of_run_of_isFinal rfl hrun]
        rw [← h.printed] at haccept
        exact haccept
      · rw [if_neg hroom] at hrun
        dsimp only
        rw [if_neg hroom, Machine.eq_of_run_of_isFinal rfl hrun]
        exact .fail h.left

theorem assign (hn : Simulated n) (h : Sim site locals σ w)
    (hscope : site.ctx.scope = some site.ctx.layout) {span : Span} {v : Var} {value : Expr}
    (hlinked : ∀ u ∈ v :: exprVars value, Linked site.ctx locals u)
    (hrun : Machine.run (placed site.ctx.setting) n
      ⟨.expr (placeExpr site.ctx.layout locals value),
        [.assign (placeVar site.ctx.layout locals v)], σ⟩ = some t) :
    Ends site locals finish (Lexical.exec (meaning n) site.ctx (.assign span v value)) w t := by
  have hvalue := fun u hu => hlinked u (List.mem_cons_of_mem v hu)
  have hvar := hlinked v List.mem_cons_self
  unfold Linked at hvar
  rw [hscope] at hvar
  refine hn.evalThen h hvalue (fun _ _ => rfl) hrun ?_
  intro x τ u hsim hrest
  have hends := hsim.assign hscope hvar (.value x) x
  have hfinal : (Machine.writeVar ⟨.value x, [], τ⟩ (placeVar site.ctx.layout locals v) x).isFinal =
      true := by
    rcases hends with ⟨a, τ', u', heq, -⟩ | ⟨f, τ', u', heq, -⟩
    · rw [heq]
      rfl
    · rw [heq]
      rfl
  rw [Machine.eq_of_run_of_isFinal hfinal hrest]
  refine .world ?_
  simp only [hscope]
  exact hends

theorem assignIndex (hn : Simulated n) (h : Sim site locals σ w) {span : Span}
    {array index value : Expr}
    (hlinked : ∀ v ∈ exprVars array ++ (exprVars index ++ exprVars value), Linked site.ctx locals v)
    (hrun : Machine.run (placed site.ctx.setting) n
      ⟨.expr (placeExpr site.ctx.layout locals array),
        [.assignIndexOf (placeExpr site.ctx.layout locals index)
          (placeExpr site.ctx.layout locals value)], σ⟩ = some t) :
    Ends site locals finish
      (Lexical.exec (meaning n) site.ctx (.assignIndex span array index value)) w t := by
  have harray := fun v hv => hlinked v (List.mem_append_left _ hv)
  have hindex := fun v hv =>
    hlinked v (List.mem_append_right _ (List.mem_append_left _ hv))
  have hvalue := fun v hv =>
    hlinked v (List.mem_append_right _ (List.mem_append_right _ hv))
  refine hn.evalThen h harray (fun _ _ => rfl) hrun ?_
  intro ref τ u hsim hrest
  refine .world ?_
  rw [hsim.heap]
  unfold Machine.resume at hrest
  cases hderef : τ.heap.deref ref with
  | error f =>
      simp only [hderef] at hrest
      rw [Machine.eq_of_run_of_isFinal rfl hrest]
      exact .ofError rfl hsim.left
  | ok o =>
      simp only [hderef] at hrest
      refine .ofOk rfl (hn.evalThen hsim hindex (fun _ _ => rfl) hrest ?_)
      intro i τ' u' hsim' hrest'
      refine hn.evalThen hsim' hvalue (fun _ _ => rfl) hrest' ?_
      intro x τ'' u'' hsim'' hresult
      obtain ⟨f, hlive, hshows⟩ := hsim''.frame
      refine .world ?_
      rw [hsim''.heap]
      unfold Machine.resume Machine.writeAt at hresult
      cases hplace : τ''.heap.place ref i with
      | error fault =>
          simp only [hplace] at hresult
          rw [Machine.eq_of_run_of_isFinal rfl hresult]
          exact .ofError rfl hsim''.left
      | ok place =>
          simp only [hplace] at hresult
          rw [Machine.eq_of_run_of_isFinal rfl hresult]
          refine .ofOk rfl (.inl ⟨(), _, _, rfl, ⟨rfl, rfl⟩, { hsim'' with heap := rfl, frame := ?_ }⟩)
          exact ⟨f, hlive, { hshows with }⟩

theorem callStmt (hn : Simulated n) (h : Sim site locals σ w) {control : Control} {receiver : Expr}
    {name : String} {args : List Expr}
    (hlinked : ∀ v ∈ exprVars receiver ++ exprsVars args, Linked site.ctx locals v)
    (hrun : Machine.run (placed site.ctx.setting) n (Machine.startCall (placed site.ctx.setting)
      (State.under ⟨control, [], σ⟩ [.discard]) (placeExpr site.ctx.layout locals receiver) name
        (placeExprs site.ctx.layout locals args) false) = some t) :
    Ends site locals finish (do
      let _ ← Lexical.call (meaning n) site.ctx receiver name args false
      pure ()) w t := by
  rw [Machine.startCall_under] at hrun
  obtain ⟨u, hcall, -, hrest⟩ := Machine.run_under hrun
  rcases hn.call h hlinked hcall with ⟨v, τ, w', rfl, hv, hsim⟩ | ⟨f, τ, w', rfl, hf, hleft⟩
  · rw [Machine.eq_of_run_of_isFinal rfl (Machine.run_step hrest)]
    exact .andThen hv (.ret hsim)
  · rw [Machine.eq_of_run_of_isFinal rfl (Machine.run_step hrest)]
    exact .failed hf hleft

/-- Statements are executed as they mean. -/
theorem exec (hn : Simulated n) (h : Sim site locals σ w)
    (hscope : site.ctx.scope = some site.ctx.layout) {stmt : Stmt}
    (hresolved : Layout.Resolved (Layout.stmtOutcomes site.ctx.layout locals stmt))
    (hpeak : Layout.stmtPeak locals.length stmt ≤ site.slots) {control : Control}
    (hrun : Machine.run (placed site.ctx.setting) n (Machine.exec (placed site.ctx.setting)
      ⟨control, [], σ⟩ (Layout.placeStmt site.ctx.layout locals stmt)) = some t) :
    Ends site (locals ++ Layout.declared stmt) finish (Lexical.exec (meaning n) site.ctx stmt) w
      t := by
  cases stmt with
  | missing =>
      rw [Machine.eq_of_run_of_isFinal rfl hrun]
      exact .fail h.left
  | block b =>
      simp only [Layout.declared, List.append_nil]
      exact hn.block h hscope hresolved hpeak hrun
  | declare span type name =>
      rw [Machine.eq_of_run_of_isFinal rfl hrun]
      exact declare h name hpeak
  | branch span cond onTrue onFalse =>
      simp only [Layout.declared, List.append_nil]
      simp only [Layout.stmtOutcomes, Layout.resolved_append] at hresolved
      obtain ⟨⟨hcond, htrue⟩, hfalse⟩ := hresolved
      refine hn.evalThen h (linked_of_resolved hscope hcond) (fun _ _ => rfl) hrun ?_
      intro v τ u hsim hrest
      by_cases hone : v = 1
      · rw [if_pos hone]
        simp only [Machine.resume, if_pos hone] at hrest
        exact hn.block hsim hscope htrue (Nat.le_trans (Nat.le_max_left _ _) hpeak) hrest
      · rw [if_neg hone]
        simp only [Machine.resume, if_neg hone] at hrest
        exact hn.block hsim hscope hfalse (Nat.le_trans (Nat.le_max_right _ _) hpeak) hrest
  | loop span cond body =>
      simp only [Layout.declared, List.append_nil]
      obtain ⟨hcond, hbody⟩ := Layout.resolved_append.mp hresolved
      exact hn.loop h hscope hcond hbody hpeak hrun
  | output span value =>
      simp only [Layout.declared, List.append_nil]
      refine hn.evalThen h (linked_of_resolved hscope hresolved) (fun _ _ => rfl) hrun ?_
      intro v τ u hsim hrest
      exact print hsim hrest
  | assign span v value =>
      simp only [Layout.declared, List.append_nil]
      have hvars : Layout.Resolved ((v :: exprVars value).map
        (Layout.outcome site.ctx.layout locals)) := hresolved
      exact hn.assign h hscope (linked_of_resolved hscope hvars) hrun
  | assignIndex span array index value =>
      simp only [Layout.declared, List.append_nil]
      have hvars : Layout.Resolved ((exprVars array ++ (exprVars index ++ exprVars value)).map
          (Layout.outcome site.ctx.layout locals)) := by
        rw [List.map_append, List.map_append, ← List.append_assoc]
        exact hresolved
      exact hn.assignIndex h (linked_of_resolved hscope hvars) hrun
  | call span receiver name listed args =>
      simp only [Layout.declared, List.append_nil]
      have hvars : Layout.Resolved ((exprVars receiver ++ exprsVars args).map
          (Layout.outcome site.ctx.layout locals)) := by
        rw [List.map_append]
        exact hresolved
      exact hn.callStmt h (linked_of_resolved hscope hvars) hrun

theorem stmts_succ (hn : Simulated n) (h : Sim site locals σ w)
    (hscope : site.ctx.scope = some site.ctx.layout) {body : List Stmt}
    (hresolved : Layout.Resolved (Layout.stmtsOutcomes site.ctx.layout locals body))
    (hpeak : Layout.stmtsPeak locals.length body ≤ site.slots)
    (hrun : Machine.run (placed site.ctx.setting) (n + 1)
      ⟨.stmts (Layout.placeStmts site.ctx.layout locals body), [], σ⟩ = some t) :
    Ends site (locals ++ Layout.bodyLocals body) finish ((meaning (n + 1)).stmts site.ctx body) w
      t := by
  rw [Machine.run_succ rfl] at hrun
  cases body with
  | nil =>
      rw [Machine.eq_of_run_of_isFinal rfl hrun, Layout.bodyLocals, List.flatMap_nil, List.append_nil]
      exact .ret h
  | cons stmt rest =>
      obtain ⟨hstmt, hrest⟩ := Layout.resolved_append.mp hresolved
      have hstep : Machine.step (placed site.ctx.setting)
          ⟨.stmts (Layout.placeStmts site.ctx.layout locals (stmt :: rest)), [], σ⟩ = _ :=
        Machine.exec_under (placed site.ctx.setting)
          ⟨.stmts (Layout.placeStmts site.ctx.layout locals (stmt :: rest)), [], σ⟩
          [.next (Layout.placeStmt site.ctx.layout locals stmt).span
            (Layout.placeStmts site.ctx.layout (locals ++ Layout.declared stmt) rest)]
          (Layout.placeStmt site.ctx.layout locals stmt)
      rw [hstep] at hrun
      obtain ⟨u, hexec, -, hnext⟩ := Machine.run_under hrun
      have hnext := Machine.run_step hnext
      rw [Layout.bodyLocals, List.flatMap_cons, ← List.append_assoc]
      rcases hn.exec h hscope hstmt (Nat.le_trans (Nat.le_max_left _ _) hpeak) hexec with
        ⟨a, τ, w', rfl, ha, hsim⟩ | ⟨f, τ, w', rfl, hf, hleft⟩
      · refine .andThen ⟨.ok (), ha, rfl⟩ (hn.stmts hsim hscope hrest ?_ hnext)
        rw [List.length_append]
        exact Nat.le_trans (Nat.le_max_right _ _) hpeak
      · rw [Layout.span_placeStmt] at hnext
        rw [Machine.eq_of_run_of_isFinal rfl hnext]
        exact .failed ⟨.error f, hf, rfl⟩ hleft

theorem loop_succ (hn : Simulated n) (h : Sim site locals σ w)
    (hscope : site.ctx.scope = some site.ctx.layout) {cond : Expr} {body : Block}
    (hcond : Layout.Resolved (Layout.exprOutcomes site.ctx.layout locals cond))
    (hbody : Layout.Resolved (Layout.blockOutcomes site.ctx.layout locals body))
    (hpeak : Layout.blockPeak locals.length body ≤ site.slots)
    (hrun : Machine.run (placed site.ctx.setting) (n + 1)
      ⟨.expr (placeExpr site.ctx.layout locals cond),
        [.test (placeExpr site.ctx.layout locals cond)
          (Layout.placeBlock site.ctx.layout locals body)], σ⟩ = some t) :
    Ends site locals finish ((meaning (n + 1)).loop site.ctx cond body) w t := by
  have hlinked := linked_of_resolved hscope hcond
  -- a round takes a step at least, so the rounds that are left end as the level below says
  rcases Machine.run_expr_succ hrun with ⟨v, τ, hvalue, hrest⟩ | ⟨f, τ, hvalue, hrest⟩
  · obtain ⟨u, hm, hsim⟩ := (hn.expr h hlinked hvalue).value_inv
    refine .andThen hm ?_
    by_cases hone : v = 1
    · rw [if_pos hone]
      simp only [Machine.resume, if_pos hone] at hrest
      rcases Machine.run_stmts hrest with ⟨τ', hdone, hagain⟩ | ⟨f, τ', hfailed, hagain⟩
      · obtain ⟨u', hu', hsim'⟩ := (hn.block hsim hscope hbody hpeak hdone).done_inv
        exact .andThen hu' (hn.loop hsim' hscope hcond hbody hpeak hagain)
      · obtain ⟨u', hu', hleft⟩ :=
          (hn.block hsim hscope hbody hpeak hfailed).failed_inv (by simp [finish])
        rw [Machine.eq_of_run_of_isFinal rfl hagain]
        exact .failed hu' hleft
    · rw [if_neg hone]
      simp only [Machine.resume, if_neg hone] at hrest
      rw [Machine.eq_of_run_of_isFinal rfl hrest]
      exact .ret hsim
  · obtain ⟨u, hm, hleft⟩ := (hn.expr h hlinked hvalue).failed_inv (by simp)
    rw [Machine.eq_of_run_of_isFinal rfl hrest]
    exact .failed hm hleft

end Simulated

/-- Every run ends as some approximation says. -/
theorem simulated (n : Nat) : Simulated n := by
  induction n with
  | zero =>
      constructor
      case expr =>
        intro site locals σ w e t _ _ hrun
        cases hrun
      case stmts =>
        intro site locals σ w body t _ _ _ _ hrun
        cases hrun
      case loop =>
        intro site locals σ w cond body t _ _ _ _ _ hrun
        cases hrun
  | succ n hn =>
      exact ⟨fun h => hn.expr_succ h, fun h hscope => hn.stmts_succ h hscope,
        fun h hscope => hn.loop_succ h hscope⟩

end Lexical

end ObjectLang
