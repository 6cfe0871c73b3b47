import ObjectLang.Proofs.FaultTrace
import ObjectLang.Proofs.OpenCode

/-! The span of a fault. A fault is raised without a span. On its way out it passes the markers of the
code that is open, the innermost first, and takes the first known span; a span that it has stays. The
outermost code that is open is a command. -/

namespace ObjectLang

def Span.firstKnown (spans : List Span) : Span := (spans.find? Span.isKnown).getD .unknown

@[simp] theorem Span.isKnown_unknown : Span.unknown.isKnown = false := rfl

theorem Span.isKnown_of_ne {span : Span} (h : span ≠ .unknown) : span.isKnown = true := by
  simpa [isKnown] using h

theorem Span.firstKnown_cons (span : Span) (rest : List Span) :
    firstKnown (span :: rest) = if span.isKnown then span else firstKnown rest := by
  rw [firstKnown, List.find?_cons]
  cases span.isKnown <;> rfl

theorem Span.firstKnown_singleton (span : Span) : firstKnown [span] = span := by
  rw [firstKnown_cons]
  by_cases h : span = .unknown
  · rw [h]
    rfl
  · rw [isKnown_of_ne h, if_pos rfl]

theorem Span.firstKnown_eq_unknown {spans : List Span} :
    firstKnown spans = .unknown ↔ ∀ span ∈ spans, span = .unknown := by
  induction spans with
  | nil => simp [firstKnown]
  | cons span rest ih =>
      rw [firstKnown_cons]
      by_cases h : span = .unknown
      · simp [h, ih]
      · simp [h, isKnown_of_ne h]

theorem Fault.firstKnown_locate (span : Span) (f : Fault) (rest : List Span) :
    Span.firstKnown ((f.locate span).span :: rest) = Span.firstKnown (f.span :: span :: rest) := by
  unfold Fault.locate
  by_cases hknown : f.span.isKnown = true
  · simp [hknown, Span.firstKnown_cons]
  · simp [hknown, Span.firstKnown_cons]

theorem Fault.span_capture (trace : List String) (f : Fault) : (f.capture trace).span = f.span := by
  unfold Fault.capture
  split <;> rfl

namespace Machine

variable (setting : Setting)

/-- The first known span of a fault on its way out and the markers before it stays the same. -/
theorem firstKnown_step {s : State} {f : Fault} (h : s.fault? = some f) :
    ∃ g, (step setting s).fault? = some g ∧
      Span.firstKnown (g.span :: (step setting s).pending.filterMap Pending.span?) =
        Span.firstKnown (f.span :: s.pending.filterMap Pending.span?) := by
  obtain ⟨failure, hcontrol, hfault⟩ := State.failed_of_fault? h
  obtain ⟨control, pending, store⟩ := s
  dsimp only at hcontrol
  subst hcontrol
  have hmap (change : Fault → Fault) : (failure.mapFault change).fault? = some (change f) := by
    rw [Failure.fault?_mapFault, hfault]
    rfl
  cases pending with
  | nil => exact ⟨f, hfault, rfl⟩
  | cons p rest =>
      cases p with
      | locate span | next span body =>
          exact ⟨f.locate span, hmap (Fault.locate span), f.firstKnown_locate span _⟩
      | result | activation value =>
          refine ⟨f.capture store.stack.trace, hmap (Fault.capture store.stack.trace), ?_⟩
          rw [Fault.span_capture]
          rfl
      | _ => exact ⟨f, hfault, rfl⟩

variable {setting}

/-- At the end a fault has the first known span of the markers that it passed. -/
theorem span_of_reaches {s t : State} (h : Reaches setting s t) (hfinal : t.isFinal = true)
    {raised f : Fault} (hs : s.fault? = some raised) (ht : t.fault? = some f) :
    f.span = Span.firstKnown (raised.span :: s.pending.filterMap Pending.span?) := by
  obtain ⟨g, hg, hspan⟩ := h.invariant (P := fun u => ∃ g, u.fault? = some g ∧
      Span.firstKnown (g.span :: u.pending.filterMap Pending.span?) =
        Span.firstKnown (raised.span :: s.pending.filterMap Pending.span?))
    (fun u ⟨g, hg, hspan⟩ =>
      let ⟨next, hnext, hstep⟩ := firstKnown_step setting hg
      ⟨next, hnext, hstep.trans hspan⟩)
    ⟨raised, hs, rfl⟩
  cases ht.symm.trans hg
  rw [← hspan, ((State.isFinal_iff t).mp hfinal).1]
  exact (Span.firstKnown_singleton f.span).symm

/-- At the end a fault has the first known span of the code that was open when it was raised. -/
theorem span_eq_openCode {start final : State} (hstart : start.pending = []) {n : Nat}
    {raised f : Fault} (hraised : ((step setting)^[n] start).fault? = some raised)
    (hunknown : raised.span = .unknown) (hrest : Reaches setting ((step setting)^[n] start) final)
    (hfinal : final.isFinal = true) (hf : final.fault? = some f) :
    f.span = Span.firstKnown ((openCode setting start n).map Locus.span) := by
  have hspan := span_of_reaches hrest hfinal hraised hf
  rw [hunknown, Span.firstKnown_cons] at hspan
  rw [spans_openCode setting hstart]
  exact hspan

/-- How a run of a list of statements stands: before some of them, within one, or at its end. -/
inductive InList (body : List Stmt) (s : State) : Prop
  | before (rest : List Stmt) (hrest : rest <:+ body) (hcontrol : s.control = .stmts rest)
      (hpending : s.pending = [])
  | within (stmt : Stmt) (rest : List Stmt) (u : State) (hrest : stmt :: rest <:+ body)
      (hs : s = u.under [.next stmt.span rest])
  | ended (hfinal : s.isFinal = true)

theorem under_pending_ne_nil (u : State) (p : Pending) : (u.under [p]).pending ≠ [] := by
  simp [State.under]

variable (setting)

theorem step_before {stmt : Stmt} {rest : List Stmt} {s : State}
    (hcontrol : s.control = .stmts (stmt :: rest)) (hpending : s.pending = []) :
    ∃ u : State, step setting s = u.under [.next stmt.span rest] := by
  obtain ⟨control, pending, store⟩ := s
  dsimp only at hcontrol hpending
  subst hcontrol hpending
  exact ⟨_, exec_under setting ⟨.stmts (stmt :: rest), [], store⟩ [.next stmt.span rest] stmt⟩

/-- After a statement of a list come those that follow, unless the run ends with it. -/
theorem step_within {u : State} (hfinal : u.isFinal = true) (span : Span) (rest : List Stmt) :
    step setting (u.under [.next span rest]) = ⟨.stmts rest, [], u.store⟩ ∨
      ((step setting (u.under [.next span rest])).isFinal = true ∧
        (u.Running → (step setting (u.under [.next span rest])).Running)) := by
  obtain ⟨control, pending, store⟩ := u
  obtain ⟨hpending, hcontrol⟩ := (State.isFinal_iff _).mp hfinal
  dsimp only at hpending hcontrol
  subst hpending
  obtain ⟨v, rfl⟩ | rfl | ⟨f, rfl⟩ := hcontrol
  · exact .inr ⟨rfl, fun _ => nofun⟩
  · exact .inl rfl
  · exact .inr ⟨rfl, fun hrunning => absurd rfl (hrunning f)⟩

/-- A step stays in the list, and one that fails is within a statement. -/
theorem InList.step {body : List Stmt} {s : State} (h : InList body s) :
    InList body (Machine.step setting s) ∧ (s.Running → ¬ (Machine.step setting s).Running →
      (Machine.step setting s).pending ≠ []) := by
  cases h with
  | before rest hrest hcontrol hpending =>
      cases rest with
      | nil =>
          have hstep : Machine.step setting s = s.goto .done := by
            rw [Machine.step, hcontrol]
            rfl
          rw [hstep]
          exact ⟨.ended ((State.isFinal_iff _).mpr ⟨hpending, .inr (.inl rfl)⟩),
            fun _ hfails => absurd (nofun : (s.goto .done).Running) hfails⟩
      | cons stmt rest =>
          obtain ⟨u, hu⟩ := step_before setting hcontrol hpending
          rw [hu]
          exact ⟨.within stmt rest u hrest rfl, fun _ _ => under_pending_ne_nil u _⟩
  | within stmt rest u hrest hs =>
      subst hs
      cases hfinal : u.isFinal with
      | false =>
          rw [step_under setting u [.next stmt.span rest] hfinal]
          exact ⟨.within stmt rest _ hrest rfl, fun _ _ => under_pending_ne_nil _ _⟩
      | true =>
          rcases step_within setting hfinal stmt.span rest with hnext | ⟨hend, hkeeps⟩
          · rw [hnext]
            exact ⟨.before rest ((List.suffix_cons stmt rest).trans hrest) rfl rfl,
              fun _ hfails => absurd nofun hfails⟩
          · exact ⟨.ended hend, fun hrunning hfails => absurd (hkeeps hrunning) hfails⟩
  | ended hfinal =>
      rw [step_of_isFinal hfinal]
      exact ⟨.ended hfinal, fun hrunning hfails => absurd hrunning hfails⟩

theorem InList.entered {body : List Stmt} {s : State} (h : InList body s) (hpending : s.pending = [])
    {locus : Locus} (hentered : s.entered? = some locus) : ∃ stmt ∈ body, locus = .stmt stmt := by
  cases h with
  | before rest hrest hcontrol =>
      rw [State.entered?, hcontrol] at hentered
      cases rest with
      | nil => cases hentered
      | cons stmt rest =>
          cases hentered
          exact ⟨stmt, hrest.subset List.mem_cons_self, rfl⟩
  | within stmt rest u hrest hs =>
      subst hs
      exact absurd hpending (under_pending_ne_nil u _)
  | ended hfinal =>
      rw [State.entered?] at hentered
      rcases ((State.isFinal_iff s).mp hfinal).2 with ⟨v, hv⟩ | hdone | ⟨f, hf⟩
      · rw [hv] at hentered
        cases hentered
      · rw [hdone] at hentered
        cases hentered
      · rw [hf] at hentered
        cases hentered

/-- Where a run of a list of statements fails, the outermost open code is a statement of the list. -/
theorem outermost_of_fails {body : List Stmt} {store : Store} {n : Nat} :
    let start : State := ⟨.stmts body, [], store⟩
    ((Machine.step setting)^[n] start).Running →
    ¬ ((Machine.step setting)^[n + 1] start).Running →
    ∃ stmt ∈ body, (openCode setting start (n + 1)).getLast? = some (.stmt stmt) := by
  intro start hrunning hfails
  have hlist (u : State) (hu : Reaches setting start u) : InList body u :=
    hu.invariant (P := InList body) (fun v hv => (hv.step setting).1)
      (.before body List.suffix_rfl rfl rfl)
  have hlast := hlist _ ⟨n + 1, rfl⟩
  rw [Function.iterate_succ_apply'] at hfails hlast
  have hpending := ((hlist _ ⟨n, rfl⟩).step setting).2 hrunning hfails
  cases hlast with
  | before rest hrest hcontrol hnil => exact absurd hnil hpending
  | ended hfinal => exact absurd ((State.isFinal_iff _).mp hfinal).1 hpending
  | within stmt rest u hrest hs =>
      have hmarked := marked_openStates setting (s := start) rfl (n + 1)
      rw [Function.iterate_succ_apply', hs] at hmarked
      obtain ⟨v, hv, locus, hentered, hnil, hlast⟩ := hmarked.outermost rfl (by simp [Pending.span?])
      obtain ⟨stmt, hstmt, rfl⟩ :=
        (hlist v (reaches_of_mem_openStates setting hv)).entered hnil hentered
      exact ⟨stmt, hstmt, hlast⟩

end Machine

/-! ### Runs that end in a fault -/

namespace Interpreter

/-- A fault of a run of commands as it is raised, and the code that is open then: there is no room
for the frame of the commands, or a step of the run raises it. -/
def RaisedIn (i : Interpreter) (commands : List Command) (raised : Fault) (code : List Locus) :
    Prop :=
  (i.store.stack.push "" 0 [] 0 = .error raised ∧ code = []) ∨
    ∃ table stack n, i.table = some table ∧ i.store.stack.push "" 0 [] 0 = .ok stack ∧
      let setting : Setting := ⟨table, i.sink, i.tracing⟩
      let start : State :=
        ⟨.stmts (commands.map Command.toStmt), [], { i.store with stack := stack }⟩
      ((Machine.step setting)^[n] start).Running ∧
      ((Machine.step setting)^[n + 1] start).fault? = some raised ∧
      code = Machine.openCode setting start (n + 1) ∧
      ∃ c ∈ commands, code.getLast? = some (.stmt c.toStmt)

/-- The fault of a run of commands has the innermost known span of the code that was open when it
was raised. -/
def Locates (i : Interpreter) (commands : List Command) (f : Fault) : Prop :=
  ∃ code, i.RaisedIn commands (.raise f.kind f.text) code ∧
    f.span = Span.firstKnown (code.map Locus.span) ∧
    (f.span = .unknown ↔ ∀ locus ∈ code, locus.span = .unknown)

variable {i : Interpreter} {commands : List Command} {f : Fault}

theorem locates_of_raisedIn {code : List Locus}
    (h : i.RaisedIn commands (.raise f.kind f.text) code)
    (hspan : f.span = Span.firstKnown (code.map Locus.span)) : i.Locates commands f := by
  refine ⟨code, h, hspan, ?_⟩
  rw [hspan, Span.firstKnown_eq_unknown]
  simp

theorem locates_of_failed {steps : Nat} {failure : Failure}
    (hfailed : (i.runCommands steps commands).2 = .failed failure)
    (hfault : failure.fault? = some f) : i.Locates commands f := by
  rcases failed_runCommands hfailed hfault with hpush | ⟨final, hruns, hfinal, hcontrol⟩
  · obtain ⟨-, hraise⟩ := CallStack.push_error hpush
    have hkind : f.kind = .stackOverflow := by rw [hraise]; rfl
    refine locates_of_raisedIn (.inl ⟨?_, rfl⟩) ?_
    · rw [hpush, hkind, ← hraise]
    · rw [hraise]
      rfl
  · have hf : final.fault? = some f := by
      rw [State.fault?_of_failed hcontrol, hfault]
    obtain ⟨table, s, raised, htable, hs, hrunning, -, hstep, hraises, hrest⟩ := hruns.raised_fault hf
    obtain ⟨_, stack, hbound, hpush, n, rfl⟩ := hs
    cases htable.symm.trans hbound
    rw [← Function.iterate_succ_apply' (Machine.step _)] at hstep hrest
    obtain ⟨hraised, -⟩ := hraises raised rfl
    obtain ⟨_, hsame, hkind, htext⟩ := Machine.same_of_reaches hrest hstep
    cases hf.symm.trans hsame
    have hunknown : raised.span = .unknown := by rw [hraised]; rfl
    have hspan := Machine.span_eq_openCode rfl hstep hunknown hrest hfinal hf
    have hfails : ¬ ((Machine.step ⟨table, i.sink, i.tracing⟩)^[n + 1]
        ⟨.stmts (commands.map Command.toStmt), [], { i.store with stack := stack }⟩).Running := by
      obtain ⟨g, hg, -⟩ := State.failed_of_fault? hstep
      exact fun h => h g hg
    obtain ⟨stmt, hstmt, hlast⟩ := Machine.outermost_of_fails _ hrunning hfails
    obtain ⟨c, hc, rfl⟩ := List.mem_map.mp hstmt
    rw [hraised, ← hkind, ← htext] at hstep
    exact locates_of_raisedIn
      (.inr ⟨table, stack, n, htable, hpush, hrunning, hstep, rfl, c, hc, hlast⟩) hspan

end Interpreter

/-- **A fault reports the innermost known location.** A run that ends in a fault has a step that
raised it, with the same kind and text and no span. Of the code that was open in that step, the
expressions and statements of the routines that were running and last the command, the first with a
known span gives the fault its own; it has none exactly if they have none. -/
theorem fault_span_is_innermost_known :
    (∀ (i : Interpreter) (steps : Nat) (commands : List Command) (failure : Failure) (f : Fault),
      (i.runCommands steps commands).2 = .failed failure → failure.fault? = some f →
      i.Locates commands f) ∧
    ∀ (i : Interpreter) (steps : Nat) (keepLayout : Bool) (program : Option Program)
        (failure : Failure) (f : Fault),
      (i.evaluate steps keepLayout program).2 = .failed failure → failure.fault? = some f →
      ∃ p, program = some p ∧ (i.bind (Interpreter.boundTable keepLayout p)).Locates p.commands f := by
  constructor
  · intro i steps commands failure f hfailed hfault
    exact Interpreter.locates_of_failed hfailed hfault
  · intro i steps keepLayout program failure f hfailed hfault
    rcases Interpreter.evaluate_uniform keepLayout program with ⟨ending, hearly, h⟩ | ⟨p, hp, -, h⟩
    · rw [h i steps] at hfailed
      rcases hearly with ⟨diagnostics, rfl⟩ | ⟨text, rfl⟩
      · cases hfailed
      · cases hfailed
        cases hfault
    · rw [h i steps] at hfailed
      exact ⟨p, hp, Interpreter.locates_of_failed hfailed hfault⟩

/-- A procedure that prints a quotient whose place is not known. -/
def quotientProgram : Program :=
  let quotient : Expr := .binary .unknown "/" (.integer ⟨3, 9⟩ 1) (.integer .unknown 0)
  ⟨.unknown, true, [some ⟨⟨2, 1⟩, "show", true, [], true, [.output ⟨3, 5⟩ quotient], none, 0⟩], true,
    [], true, [.call ⟨6, 1⟩ "show" true []]⟩

def quotientFault : Fault :=
  ⟨.divisionByZero, "division by zero is undefined", ⟨3, 5⟩,
    some ["show (self=0)", "<root> (self=0)"]⟩

theorem fault_span_of_printed_quotient :
    ((Interpreter.fresh 10 .unlimited false).evaluate 40 false (some quotientProgram)).2 =
      .failed (.fault quotientFault) ∧
    ((Interpreter.fresh 10 .unlimited false).bind
      (Interpreter.boundTable false quotientProgram)).Locates quotientProgram.commands
        quotientFault := by
  have hfailed : ((Interpreter.fresh 10 .unlimited false).evaluate 40 false
      (some quotientProgram)).2 = .failed (.fault quotientFault) := by
    decide +kernel
  obtain ⟨_, ⟨⟩, hlocates⟩ := fault_span_is_innermost_known.2 _ _ _ _ _ _ hfailed rfl
  exact ⟨hfailed, hlocates⟩

end ObjectLang
