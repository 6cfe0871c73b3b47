import ObjectLang.Proofs.FaultTrace

/-! Commands one after the other. An expression leaves every frame exactly as it was: only an
assignment writes to a frame, and assignments stand in routines, which run in frames of their own.
Commands only evaluate expressions in their frame, so at the end of a list of commands that frame is
as new, and going on in it is the same as dropping it and adding another. -/

namespace ObjectLang

namespace Machine

variable {setting : Setting} {s t : State} {σ : Store} {n : Nat} {span : Span}

/-- The run from one state ends in the other. -/
def Ends (setting : Setting) (s t : State) : Prop := ∃ n, run setting n s = some t

theorem ends_of_isFinal (hs : s.isFinal = true) : Ends setting s t ↔ t = s := by
  constructor
  · rintro ⟨n, h⟩
    exact eq_of_run_of_isFinal hs h
  · rintro rfl
    exact ⟨0, run_of_isFinal 0 hs⟩

theorem ends_step : Ends setting (step setting s) t ↔ Ends setting s t := by
  constructor
  · rintro ⟨n, h⟩
    cases hfinal : s.isFinal with
    | true =>
        rw [step_of_isFinal hfinal] at h
        exact ⟨n, h⟩
    | false => exact ⟨n + 1, by rw [run_succ hfinal]; exact h⟩
  · rintro ⟨n, h⟩
    exact ⟨n, run_step h⟩

/-- A run with more pending ends where the run alone ends with it pending. -/
theorem ends_under {outer : List Pending} :
    Ends setting (s.under outer) t ↔
      ∃ u, Ends setting s u ∧ u.isFinal = true ∧ Ends setting (u.under outer) t := by
  constructor
  · rintro ⟨n, h⟩
    obtain ⟨u, hu, hfinal, ht⟩ := run_under h
    exact ⟨u, ⟨n, hu⟩, hfinal, ⟨n, ht⟩⟩
  · rintro ⟨u, ⟨n, hu⟩, hfinal, ht⟩
    induction n generalizing s with
    | zero =>
        rw [run_zero, Option.ite_none_right_eq_some] at hu
        obtain ⟨-, hsame⟩ := hu
        cases hsame
        exact ht
    | succ n ih =>
        cases hs : s.isFinal with
        | true =>
            cases eq_of_run_of_isFinal hs hu
            exact ht
        | false =>
            rw [run_succ hs] at hu
            rw [← ends_step, step_under setting s outer hs]
            exact ih hu

theorem exec_control (control : Control) (pending : List Pending) (stmt : Stmt) :
    exec setting ⟨control, pending, σ⟩ stmt = exec setting ⟨.done, pending, σ⟩ stmt := by
  cases stmt <;> rfl

/-- A statement is done or fails. -/
theorem ends_stmt_cases {stmt : Stmt} (h : Ends setting (Task.start setting σ (.stmt stmt)) t) :
    (∃ τ, t = ⟨.done, [], τ⟩) ∨ ∃ f τ, t = ⟨.failed f, [], τ⟩ := by
  obtain ⟨n, h⟩ := h
  have hready : (Discipline.handing setting .done).Ready .done ⟨.done, [], σ⟩ := ⟨trivial, rfl⟩
  obtain ⟨k, hhands, rfl⟩ := (hready.exec fun _ _ _ _ _ => Nat.zero_le _).final h
  obtain ⟨control, pending, τ⟩ := t
  obtain ⟨hpending, hcontrol⟩ := (State.isFinal_iff _).mp (isFinal_of_run h)
  dsimp only at hpending hcontrol hhands
  subst hpending
  rcases hcontrol with ⟨v, rfl⟩ | rfl | ⟨f, rfl⟩
  · cases hhands
  · exact .inl ⟨τ, rfl⟩
  · exact .inr ⟨f, τ, rfl⟩

theorem ends_stmts_nil : Ends setting ⟨.stmts [], [], σ⟩ t ↔ t = ⟨.done, [], σ⟩ := by
  rw [← ends_step]
  exact ends_of_isFinal rfl

/-- Statements end with the first that fails, or with the end of those after the first. -/
theorem ends_stmts_cons {stmt : Stmt} {rest : List Stmt} :
    Ends setting ⟨.stmts (stmt :: rest), [], σ⟩ t ↔
      (∃ τ, Ends setting (Task.start setting σ (.stmt stmt)) ⟨.done, [], τ⟩ ∧
        Ends setting ⟨.stmts rest, [], τ⟩ t) ∨
      ∃ f τ, Ends setting (Task.start setting σ (.stmt stmt)) ⟨.failed f, [], τ⟩ ∧
        t = ⟨.failed (f.locate stmt.span), [], τ⟩ := by
  have hfirst : step setting ⟨.stmts (stmt :: rest), [], σ⟩ =
      (Task.start setting σ (.stmt stmt)).under [.next stmt.span rest] := by
    change exec setting (State.under ⟨.stmts (stmt :: rest), [], σ⟩ [.next stmt.span rest]) stmt = _
    rw [exec_under, exec_control]
    rfl
  have hdone (τ : Store) :
      Ends setting (State.under ⟨.done, [], τ⟩ [.next stmt.span rest]) t ↔
        Ends setting ⟨.stmts rest, [], τ⟩ t := ends_step.symm
  have hfailed (f : Failure) (τ : Store) :
      Ends setting (State.under ⟨.failed f, [], τ⟩ [.next stmt.span rest]) t ↔
        t = ⟨.failed (f.locate stmt.span), [], τ⟩ := ends_step.symm.trans (ends_of_isFinal rfl)
  rw [← ends_step, hfirst, ends_under]
  constructor
  · rintro ⟨u, hu, -, ht⟩
    rcases ends_stmt_cases hu with ⟨τ, rfl⟩ | ⟨f, τ, rfl⟩
    · exact .inl ⟨τ, hu, (hdone τ).mp ht⟩
    · exact .inr ⟨f, τ, hu, (hfailed f τ).mp ht⟩
  · rintro (⟨τ, hu, ht⟩ | ⟨f, τ, hu, ht⟩)
    · exact ⟨_, hu, rfl, (hdone τ).mpr ht⟩
    · exact ⟨_, hu, rfl, (hfailed f τ).mpr ht⟩

/-- A list of statements followed by another: the second runs unless the first fails. -/
theorem ends_stmts_append {left right : List Stmt} :
    Ends setting ⟨.stmts (left ++ right), [], σ⟩ t ↔
      (∃ τ, Ends setting ⟨.stmts left, [], σ⟩ ⟨.done, [], τ⟩ ∧
        Ends setting ⟨.stmts right, [], τ⟩ t) ∨
      ∃ f τ, Ends setting ⟨.stmts left, [], σ⟩ ⟨.failed f, [], τ⟩ ∧ t = ⟨.failed f, [], τ⟩ := by
  induction left generalizing σ with
  | nil =>
      simp only [List.nil_append, ends_stmts_nil]
      constructor
      · intro ht
        exact .inl ⟨σ, rfl, ht⟩
      · rintro (⟨τ, heq, ht⟩ | ⟨f, τ, heq, -⟩)
        · cases heq
          exact ht
        · cases heq
  | cons stmt rest ih =>
      simp only [List.cons_append, ends_stmts_cons, ih]
      constructor
      · rintro (⟨τ, hstmt, ⟨υ, hrest, ht⟩ | ⟨f, υ, hrest, rfl⟩⟩ | ⟨f, τ, hstmt, rfl⟩)
        · exact .inl ⟨υ, .inl ⟨τ, hstmt, hrest⟩, ht⟩
        · exact .inr ⟨f, υ, .inl ⟨τ, hstmt, hrest⟩, rfl⟩
        · exact .inr ⟨_, τ, .inr ⟨f, τ, hstmt, rfl⟩, rfl⟩
      · rintro (⟨υ, ⟨τ, hstmt, hrest⟩ | ⟨f, τ, -, heq⟩, ht⟩ |
          ⟨f, υ, ⟨τ, hstmt, hrest⟩ | ⟨g, τ, hstmt, heq⟩, rfl⟩)
        · exact .inl ⟨τ, hstmt, .inl ⟨υ, hrest, ht⟩⟩
        · cases heq
        · exact .inl ⟨τ, hstmt, .inr ⟨f, υ, hrest, rfl⟩⟩
        · cases heq
          exact .inr ⟨g, υ, hstmt, rfl⟩

/-- Evaluating the expression, to a value or to a failure, leaves the frames as they were. -/
def KeepsFrames (setting : Setting) (e : Expr) : Prop :=
  ∀ n σ t, run setting n ⟨.expr e, [], σ⟩ = some t → t.store.stack.live = σ.stack.live

theorem live_of_holds (hs : (Discipline.above setting σ.stack.live).Holds s)
    (h : run setting n s = some t) : t.store.stack.live = σ.stack.live := by
  obtain ⟨k, -, hlive⟩ := hs.final h
  exact hlive

/-- Only the span of an expression is pending when its parts are evaluated. -/
theorem ready_locate (control : Control) :
    (Discipline.above setting σ.stack.live).Ready .value ⟨control, [.locate span], σ⟩ :=
  ⟨trivial, rfl, Discipline.usable_nil, nofun, rfl⟩

/-- What goes on with a value and uses no variable leaves the frames. -/
theorem live_resume {control : Control} {p : Pending} (hawaits : p.awaits = .value)
    (hhands : p.hands = .value) (hdrops : p.dropsFrame = false) (hcallee : p.callee? = none)
    (hvars : p.vars = []) {v : Word}
    (h : run setting n (resume setting ⟨control, [.locate span], σ⟩ v p) = some t) :
    t.store.stack.live = σ.stack.live := by
  have hready : (Discipline.above setting σ.stack.live).Ready p.hands ⟨control, [.locate span], σ⟩ := by
    rw [hhands]
    exact ready_locate control
  refine live_of_holds (hready.resume v hawaits hdrops ?_ ?_) h
  · rw [hcallee]
    exact nofun
  · rw [hvars]
    exact Discipline.usable_nil

/-- An operand leaves the frames, and so does the expression if what goes on with the value does. -/
theorem live_operand {e : Expr} (he : KeepsFrames setting e) {p : Pending}
    (hdrops : p.dropsFrame = false)
    (hnext : ∀ v τ, run setting n (resume setting ⟨.value v, [.locate span], τ⟩ v p) = some t →
      t.store.stack.live = τ.stack.live)
    (h : run setting n ⟨.expr e, [p, .locate span], σ⟩ = some t) :
    t.store.stack.live = σ.stack.live := by
  rcases run_expr h with ⟨v, τ, hvalue, ht⟩ | ⟨f, τ, hfailed, ht⟩
  · rw [hnext v τ ht]
    exact he n σ _ hvalue
  · rw [live_of_holds ((ready_locate _).unwind f hdrops) ht]
    exact he n σ _ hfailed

theorem live_of_evaluates {operands : List Expr} (hoperands : ∀ e ∈ operands, KeepsFrames setting e)
    {τ : Store} (h : Evaluates setting σ operands τ) : τ.stack.live = σ.stack.live := by
  induction h with
  | nil => rfl
  | value head _ ih =>
      rw [ih fun e he => hoperands e (List.mem_cons_of_mem _ he)]
      exact hoperands _ List.mem_cons_self _ _ _ head
  | failed head => exact hoperands _ List.mem_cons_self _ _ _ head

theorem live_of_leavesCaller {operands : List Expr}
    (hoperands : ∀ e ∈ operands, KeepsFrames setting e) (h : LeavesCaller setting σ operands t) :
    t.store.stack.live = σ.stack.live := by
  obtain ⟨evaluated, rest, τ, rfl, -, hevaluated, hlive⟩ := h
  rw [hlive]
  exact live_of_evaluates (fun e he => hoperands e (List.mem_append_left _ he)) hevaluated

/-- What passes a result on leaves the store. -/
theorem store_of_under {u : State} (hu : u.isFinal = true) {p : Pending}
    (hp : (∃ span, p = .locate span) ∨ p = .discard) (h : run setting n (u.under [p]) = some t) :
    t.store = u.store := by
  obtain ⟨control, pending, store⟩ := u
  obtain ⟨hpending, hcontrol⟩ := (State.isFinal_iff _).mp hu
  dsimp only at hpending hcontrol
  subst hpending
  have hstep := run_step h
  rcases hp with ⟨span, rfl⟩ | rfl <;> rcases hcontrol with ⟨v, rfl⟩ | rfl | ⟨f, rfl⟩
  all_goals
    rw [eq_of_run_of_isFinal rfl hstep]
    rfl

theorem live_call {c : Call} (hoperands : ∀ e ∈ c.operands, KeepsFrames setting e) {p : Pending}
    (hp : (∃ span, p = .locate span) ∨ p = .discard)
    (h : run setting n ((c.start setting σ).under [p]) = some t) :
    t.store.stack.live = σ.stack.live := by
  obtain ⟨u, hu, hfinal, ht⟩ := run_under h
  have hstore : (c.operandStore setting σ).stack = σ.stack := by
    cases c with
    | constructor className args =>
        simp only [Call.operandStore]
        split <;> rfl
    | _ => rfl
  rw [store_of_under hfinal hp ht, live_of_leavesCaller hoperands (run_call hu), hstore]

theorem keeps_operands {receiver : Expr} {args : List Expr} {name : String} {wantsValue : Bool}
    (hreceiver : KeepsFrames setting receiver) (hargs : ∀ e ∈ args, KeepsFrames setting e) :
    ∀ e ∈ Call.operands (.onReceiver receiver name args wantsValue), KeepsFrames setting e := by
  unfold Call.operands
  split
  · next heq =>
      cases heq
      exact hargs
  · next heq =>
      cases heq
      exact List.forall_mem_cons.mpr ⟨hreceiver, hargs⟩
  all_goals next heq => cases heq

mutual

/-- An expression leaves every frame as it was. -/
theorem keepsFrames : (e : Expr) → KeepsFrames setting e
  | .missing => fun _ _ _ h => live_of_holds ((ready_locate .done).fail _) (run_step h)
  | .integer _ value => fun _ _ _ h =>
      live_of_holds ((ready_locate .done).yield (.ok value)) (run_step h)
  | .truth _ value => fun _ _ _ h =>
      live_of_holds ((ready_locate .done).yield (.ok (Word.ofBool value))) (run_step h)
  | .var _ _ => fun _ _ _ h => live_of_holds ((ready_locate .done).yield _) (run_step h)
  | .self _ => fun _ _ _ h => live_of_holds ((ready_locate .done).yield _) (run_step h)
  | .not _ operand => fun _ _ _ h => live_operand (p := .negate) (keepsFrames operand) rfl
      (fun _ _ ht => live_resume rfl rfl rfl rfl rfl ht) (run_step h)
  | .isNull _ operand => fun _ _ _ h => live_operand (p := .testNull) (keepsFrames operand) rfl
      (fun _ _ ht => live_resume rfl rfl rfl rfl rfl ht) (run_step h)
  | .binary _ op left right => fun _ _ _ h =>
      live_operand (p := .rightOperand op right) (keepsFrames left) rfl
        (fun v _ ht => live_operand (p := .combine op v) (keepsFrames right) rfl
          (fun _ _ hu => live_resume rfl rfl rfl rfl rfl hu) ht) (run_step h)
  | .index _ array index => fun _ _ _ h =>
      live_operand (p := .indexOf index) (keepsFrames array) rfl
        (fun v τ ht => by
          simp only [resume] at ht
          split at ht
          · exact live_of_holds ((ready_locate _).fail _) ht
          · exact live_operand (p := .readAt v) (keepsFrames index) rfl
              (fun _ _ hu => live_resume rfl rfl rfl rfl rfl hu) ht) (run_step h)
  | .length _ array => fun _ _ _ h => live_operand (p := .measure) (keepsFrames array) rfl
      (fun _ _ ht => live_resume rfl rfl rfl rfl rfl ht) (run_step h)
  | .newArray _ elem length => fun _ _ _ h =>
      live_operand (p := .makeArray elem) (keepsFrames length) rfl
        (fun _ _ ht => live_resume rfl rfl rfl rfl rfl ht) (run_step h)
  | .newObject span className listed args => fun n σ t h => by
      have hstep : run setting n
          ((Call.start setting σ (.constructor className args)).under [.locate span]) = some t := by
        rw [Call.start, ← construct_under]
        exact run_step h
      exact live_call (c := .constructor className args) (keepsFrames_list args) (.inl ⟨span, rfl⟩)
        hstep
  | .call span receiver name listed args => fun n σ t h => by
      have hstep : run setting n
          ((Call.start setting σ (.onReceiver receiver name args true)).under [.locate span]) =
            some t := by
        rw [Call.start, ← startCall_under]
        exact run_step h
      exact live_call (keeps_operands (keepsFrames receiver) (keepsFrames_list args))
        (.inl ⟨span, rfl⟩) hstep

theorem keepsFrames_list : (es : List Expr) → ∀ e ∈ es, KeepsFrames setting e
  | [], _, he => nomatch he
  | first :: rest, e, he => by
      rcases List.mem_cons.mp he with heq | he
      · rw [heq]
        exact keepsFrames first
      · exact keepsFrames_list rest e he

end

/-! ### Commands leave their frame as it was -/

theorem live_of_command {command : Command}
    (h : Ends setting (Task.start setting σ (.stmt command.toStmt)) t) :
    t.store.stack.live = σ.stack.live := by
  obtain ⟨n, h⟩ := h
  cases command with
  | call span name listed args =>
      have hcall : run setting n
          ((Call.start setting σ (.topLevel name args false)).under [.discard]) = some t := by
        rw [Call.start, ← callTop_under]
        exact h
      exact live_call (c := .topLevel name args false) (keepsFrames_list args) (.inr rfl) hcall
  | eval span e =>
      have hready (τ : Store) (control : Control) :
          (Discipline.above setting τ.stack.live).Ready .done ⟨control, [], τ⟩ := ⟨trivial, rfl⟩
      rcases run_expr (p := .print) h with ⟨v, τ, hvalue, ht⟩ | ⟨f, τ, hfailed, ht⟩
      · rw [live_of_holds ((hready τ _).print v) ht]
        exact keepsFrames e n σ _ hvalue
      · rw [live_of_holds ((hready τ _).fail f) ht]
        exact keepsFrames e n σ _ hfailed

theorem live_of_commands {commands : List Command}
    (h : Ends setting ⟨.stmts (commands.map Command.toStmt), [], σ⟩ t) :
    t.store.stack.live = σ.stack.live := by
  induction commands generalizing σ with
  | nil =>
      rw [ends_stmts_nil.mp h]
  | cons command rest ih =>
      rcases ends_stmts_cons.mp h with ⟨τ, hcommand, hrest⟩ | ⟨f, τ, hcommand, rfl⟩
      · calc t.store.stack.live = τ.stack.live := ih hrest
          _ = σ.stack.live := live_of_command hcommand
      · have hlive := live_of_command hcommand
        exact hlive

end Machine

namespace CallStack

theorem eq_of_live {s t : CallStack} (hlimit : t.limit = s.limit) (hlive : t.live = s.live) :
    t = s := by
  obtain ⟨limit, frames⟩ := s
  obtain ⟨limit', frames'⟩ := t
  have hframes : frames'.toList = frames.toList := List.reverse_injective hlive
  cases hlimit
  cases Array.toList_inj.mp hframes
  rfl

theorem pop_of_push {s t : CallStack} {routine : String} {self : Word} {params : List Word}
    {slots : Int} (h : s.push routine self params slots = .ok t) : t.pop = s := by
  obtain ⟨-, hlimit, hlive⟩ := push_ok h
  refine eq_of_live hlimit ?_
  rw [live_pop, hlive]
  rfl

end CallStack

namespace Interpreter

/-- Running the commands comes to an end, and leaves that interpreter. -/
def Ends (i : Interpreter) (commands : List Command) (i' : Interpreter) (ending : Ending) : Prop :=
  ending ≠ .outOfSteps ∧ ∃ steps, i.runCommands steps commands = (i', ending)

variable {i i' : Interpreter} {commands : List Command} {ending : Ending}

section Bound

variable {table : ClassTable} {stack : CallStack} (htable : i.table = some table)
  (hpush : i.store.stack.push "" 0 [] 0 = .ok stack)
include hpush

/-- The stack is at the end as it was when the frame of the commands was added. -/
theorem stack_of_ends {final : State}
    (h : Machine.Ends ⟨table, i.sink, i.tracing⟩
      ⟨.stmts (commands.map Command.toStmt), [], { i.store with stack := stack }⟩ final) :
    final.store.stack = stack := by
  have hlive := Machine.live_of_commands h
  obtain ⟨n, hrun⟩ := h
  obtain ⟨hroom, hlimit, hframes⟩ := CallStack.push_ok hpush
  have hwithin : stack.Within stack.limit := by
    refine ⟨rfl, ?_⟩
    rw [CallStack.depth_eq] at hroom ⊢
    rw [hframes, hlimit, List.length_cons]
    exact hroom
  have hfinal := (Machine.reaches_of_run hrun).invariant
    (P := fun u => u.store.stack.Within stack.limit) (fun _ => Machine.within_step) hwithin
  exact CallStack.eq_of_live hfinal.1 hlive

include htable

/-- Running commands ends as the run of the machine does, with the stack that was there before. -/
theorem ends_iff :
    i.Ends commands i' ending ↔ ∃ final,
      Machine.Ends ⟨table, i.sink, i.tracing⟩
        ⟨.stmts (commands.map Command.toStmt), [], { i.store with stack := stack }⟩ final ∧
      i' = { i with store := { final.store with stack := i.store.stack } } ∧
      ending = final.control.ending := by
  have hpop {final : State} (h : Machine.Ends ⟨table, i.sink, i.tracing⟩
      ⟨.stmts (commands.map Command.toStmt), [], { i.store with stack := stack }⟩ final) :
      final.store.stack.pop = i.store.stack := by
    rw [stack_of_ends hpush h, CallStack.pop_of_push hpush]
  constructor
  · rintro ⟨hends, steps, h⟩
    rw [i.runCommands_eq htable hpush] at h
    split at h
    · cases h
      exact absurd rfl hends
    · next final hrun =>
        cases h
        exact ⟨final, ⟨steps, hrun⟩, by rw [hpop ⟨steps, hrun⟩], rfl⟩
  · rintro ⟨final, ⟨steps, hrun⟩, rfl, rfl⟩
    refine ⟨?_, steps, ?_⟩
    · cases final.control <;> exact nofun
    · rw [i.runCommands_eq htable hpush, hrun]
      dsimp only
      rw [hpop ⟨steps, hrun⟩]

theorem ends_append {first second : List Command} :
    i.Ends (first ++ second) i' ending ↔
      (∃ failure, ending = .failed failure ∧ i.Ends first i' ending) ∨
      ∃ mid, i.Ends first mid .finished ∧ mid.Ends second i' ending := by
  have hmid {τ : Store} (h : Machine.Ends ⟨table, i.sink, i.tracing⟩
      ⟨.stmts (first.map Command.toStmt), [], { i.store with stack := stack }⟩ ⟨.done, [], τ⟩) :
      Interpreter.Ends { i with store := { τ with stack := i.store.stack } } second i' ending ↔
        ∃ final, Machine.Ends ⟨table, i.sink, i.tracing⟩
            ⟨.stmts (second.map Command.toStmt), [], τ⟩ final ∧
          i' = { i with store := { final.store with stack := i.store.stack } } ∧
          ending = final.control.ending := by
    rw [ends_iff (i := { i with store := { τ with stack := i.store.stack } }) htable hpush]
    obtain rfl : τ.stack = stack := stack_of_ends hpush h
    rfl
  rw [ends_iff htable hpush, ends_iff htable hpush, List.map_append]
  constructor
  · rintro ⟨final, hends, rfl, rfl⟩
    rcases Machine.ends_stmts_append.mp hends with ⟨τ, hfirst, hsecond⟩ | ⟨f, τ, hfirst, rfl⟩
    · refine .inr ⟨_, (ends_iff htable hpush).mpr ⟨_, hfirst, rfl, rfl⟩, ?_⟩
      exact (hmid hfirst).mpr ⟨final, hsecond, rfl, rfl⟩
    · exact .inl ⟨f, rfl, _, hfirst, rfl, rfl⟩
  · rintro (⟨failure, rfl, final, hfirst, rfl, hending⟩ | ⟨mid, hfirst, hsecond⟩)
    · obtain ⟨n, hrun⟩ := hfirst
      rcases Machine.run_stmts_cases hrun with ⟨τ, rfl⟩ | ⟨f, τ, rfl⟩
      · cases hending
      · exact ⟨_, Machine.ends_stmts_append.mpr (.inr ⟨f, τ, ⟨n, hrun⟩, rfl⟩), rfl, hending⟩
    · obtain ⟨final, ⟨n, hrun⟩, rfl, hfinished⟩ := (ends_iff htable hpush).mp hfirst
      rcases Machine.run_stmts_cases hrun with ⟨τ, rfl⟩ | ⟨f, τ, rfl⟩
      · obtain ⟨last, hlast, rfl, rfl⟩ := (hmid ⟨n, hrun⟩).mp hsecond
        exact ⟨last, Machine.ends_stmts_append.mpr (.inl ⟨τ, ⟨n, hrun⟩, hlast⟩), rfl, rfl⟩
      · cases hfinished

end Bound

section Stuck

variable {failure : Failure}
  (h : ∀ steps commands, i.runCommands steps commands = (i, .failed failure))
include h

/-- Without a table or room for a frame every list of commands fails at once. -/
theorem ends_stuck : i.Ends commands i' ending ↔ i' = i ∧ ending = .failed failure := by
  constructor
  · rintro ⟨-, steps, heq⟩
    rw [h] at heq
    cases heq
    exact ⟨rfl, rfl⟩
  · rintro ⟨rfl, rfl⟩
    exact ⟨nofun, 0, h 0 commands⟩

theorem ends_append_stuck {first second : List Command} :
    i.Ends (first ++ second) i' ending ↔
      (∃ failure, ending = .failed failure ∧ i.Ends first i' ending) ∨
      ∃ mid, i.Ends first mid .finished ∧ mid.Ends second i' ending := by
  simp only [ends_stuck h, reduceCtorEq, and_false, false_and, exists_false, or_false]
  constructor
  · rintro ⟨rfl, rfl⟩
    exact ⟨failure, rfl, rfl, rfl⟩
  · rintro ⟨-, -, hsame⟩
    exact hsame

end Stuck

end Interpreter

/-- **Running commands composes.** Running a list of commands followed by another comes to an end
exactly if the first list fails, and then with what that leaves, or if the first list is run to its
end and the second, run by the interpreter that this leaves, comes to an end, and then with that. -/
theorem runCommands_append (i : Interpreter) (first second : List Command) (i' : Interpreter)
    (ending : Ending) :
    i.Ends (first ++ second) i' ending ↔
      (∃ failure, ending = .failed failure ∧ i.Ends first i' ending) ∨
      ∃ mid, i.Ends first mid .finished ∧ mid.Ends second i' ending := by
  cases htable : i.table with
  | none =>
      have hfails (steps : Nat) (commands : List Command) : i.runCommands steps commands =
          (i, .failed (.plain "interpreter: no symbol table bound")) := by
        simp only [Interpreter.runCommands, htable]
      exact Interpreter.ends_append_stuck hfails
  | some table =>
      cases hpush : i.store.stack.push "" 0 [] 0 with
      | error f =>
          have hfails (steps : Nat) (commands : List Command) :
              i.runCommands steps commands = (i, .failed (.fault f)) := by
            simp only [Interpreter.runCommands, htable, hpush]
          exact Interpreter.ends_append_stuck hfails
      | ok stack => exact Interpreter.ends_append htable hpush

end ObjectLang
