import Mathlib.Logic.Function.Iterate
import ObjectLang.Interpreter

/-! Runs of the machine. A run that ends has taken finitely many steps to a final state. What is
pending at the bottom does not matter before everything above it is done: a run with more pending
first does what it would do alone, and then goes on with the result. -/

namespace ObjectLang

namespace State

/-- The state with more to be done after all that is pending. -/
def under (s : State) (outer : List Pending) : State := { s with pending := s.pending ++ outer }

variable (s : State) (outer : List Pending)

theorem under_store : (s.under outer).store = s.store := rfl

/-- The final states: nothing is pending, and a value, the end or a failure is handed on. -/
theorem isFinal_iff : s.isFinal = true ↔ s.pending = [] ∧
    ((∃ v, s.control = .value v) ∨ s.control = .done ∨ ∃ f, s.control = .failed f) := by
  obtain ⟨control, pending, store⟩ := s
  cases control <;> cases pending <;> simp [isFinal]

theorem isFinal_of_under (h : (s.under outer).isFinal = true) : s.isFinal = true := by
  rw [isFinal_iff] at h ⊢
  exact ⟨(List.append_eq_nil_iff.mp h.1).1, h.2⟩

end State

namespace Machine

variable {setting : Setting}

section Under

variable (setting) (s : State) (outer : List Pending)

theorem yield_under (r : Except Fault Word) : (s.under outer).yield r = (s.yield r).under outer := by
  cases r <;> rfl

theorem writeVar_under (v : Var) (value : Word) :
    writeVar (s.under outer) v value = (writeVar s v value).under outer := by
  unfold writeVar
  cases v.slot with
  | unresolved => rfl
  | frame offset =>
      simp only [State.under_store]
      split <;> rfl
  | field offset =>
      simp only [State.under_store]
      split <;> rfl

theorem writeAt_under (ref index value : Word) :
    writeAt (s.under outer) ref index value = (writeAt s ref index value).under outer := by
  unfold writeAt
  simp only [State.under_store]
  split <;> rfl

theorem print_under (value : Word) :
    print setting (s.under outer) value = (print setting s value).under outer := by
  unfold print
  cases setting.sink with
  | unlimited => rfl
  | limited capacity complaint =>
      dsimp only
      rw [apply_ite (State.under · outer)]
      rfl

theorem constructed_under (className : String) (ref : Word) :
    constructed setting (s.under outer) className ref =
      (constructed setting s className ref).under outer := by
  unfold constructed
  simp only [State.under_store]
  split
  · split <;> rfl
  · rfl

theorem enter_under (m : Method) (self : Word) (args : List Word) (wantsValue : Bool) :
    enter (s.under outer) m self args wantsValue = (enter s m self args wantsValue).under outer := by
  unfold enter
  simp only [State.under_store]
  split
  · rfl
  · split
    · rfl
    · split <;> rfl

theorem call_under (args : List Word) (callee : Callee) :
    call setting (s.under outer) args callee = (call setting s args callee).under outer := by
  cases callee with
  | routine m self wantsValue => exact enter_under s outer m self args wantsValue
  | method className name self wantsValue =>
      unfold call
      dsimp only
      split
      · rfl
      · exact enter_under s outer _ self args wantsValue

theorem evalArgs_under (callee : Callee) (evaluated : List Word) (args : List Expr) :
    evalArgs setting (s.under outer) callee evaluated args =
      (evalArgs setting s callee evaluated args).under outer := by
  cases args with
  | nil => exact call_under setting s outer _ callee
  | cons e rest => rfl

theorem callTop_under (name : String) (args : List Expr) (wantsValue : Bool) :
    callTop setting (s.under outer) name args wantsValue =
      (callTop setting s name args wantsValue).under outer := by
  unfold callTop
  split
  · rfl
  · exact evalArgs_under setting s outer _ _ args

theorem startCall_under (receiver : Expr) (name : String) (args : List Expr) (wantsValue : Bool) :
    startCall setting (s.under outer) receiver name args wantsValue =
      (startCall setting s receiver name args wantsValue).under outer := by
  cases receiver with
  | missing => exact callTop_under setting s outer name args wantsValue
  | _ => rfl

theorem receive_under (ref : Word) (name : String) (args : List Expr) (wantsValue : Bool) :
    receive setting (s.under outer) ref name args wantsValue =
      (receive setting s ref name args wantsValue).under outer := by
  unfold receive
  simp only [State.under_store]
  split
  · rfl
  · split
    · rfl
    · exact evalArgs_under setting s outer _ _ args

theorem construct_under (className : String) (args : List Expr) :
    construct setting (s.under outer) className args =
      (construct setting s className args).under outer := by
  unfold construct
  simp only [State.under_store]
  split
  · rfl
  · rename_i count _
    let grown : State := { s with store.heap := s.store.heap.addInstance count className }
    split
    · exact evalArgs_under setting { grown with
        pending := .constructed className grown.store.heap.lastAddress.toWord :: s.pending }
        outer _ _ args
    · split
      · exact constructed_under setting grown outer className _
      · rfl

theorem eval_under (e : Expr) : eval setting (s.under outer) e = (eval setting s e).under outer := by
  let located : State := { s with pending := .locate e.span :: s.pending }
  cases e with
  | var span v => exact yield_under located outer _
  | self span => exact yield_under located outer _
  | newObject span className listed args => exact construct_under setting located outer className args
  | call span receiver name listed args =>
      exact startCall_under setting located outer receiver name args true
  | _ => rfl

theorem exec_under (stmt : Stmt) :
    exec setting (s.under outer) stmt = (exec setting s stmt).under outer := by
  cases stmt with
  | call span receiver name listed args =>
      exact startCall_under setting { s with pending := .discard :: s.pending } outer receiver name
        args false
  | _ => rfl

theorem execAll_under (stmts : List Stmt) :
    execAll setting (s.under outer) stmts = (execAll setting s stmts).under outer := by
  cases stmts with
  | nil => rfl
  | cons stmt rest =>
      exact exec_under setting { s with pending := .next stmt.span rest :: s.pending } outer stmt

theorem resume_under (v : Word) (p : Pending) :
    resume setting (s.under outer) v p = (resume setting s v p).under outer := by
  cases p with
  | combine op left => exact yield_under s outer _
  | readAt ref => exact yield_under s outer _
  | measure => exact yield_under s outer _
  | indexOf index | makeArray elem | assignIndexOf index value =>
      unfold resume
      simp only [State.under_store]
      split <;> rfl
  | receive name args wantsValue => exact receive_under setting s outer v name args wantsValue
  | argument callee evaluated rest => exact evalArgs_under setting s outer callee _ rest
  | constructed className ref => exact constructed_under setting s outer className ref
  | test cond body =>
      unfold resume
      dsimp only
      split <;> rfl
  | print => exact print_under setting s outer v
  | assign var => exact writeVar_under s outer var v
  | writeAt ref index => exact writeAt_under s outer ref index v
  | _ => rfl

theorem proceed_under (p : Pending) : proceed (s.under outer) p = (proceed s p).under outer := by
  cases p with
  | activation result => cases result <;> rfl
  | _ => rfl

theorem unwind_under (f : Failure) (p : Pending) :
    unwind (s.under outer) f p = (unwind s f p).under outer := by
  cases p <;> rfl

/-- Before a state is final, its step does not see what is pending below. -/
theorem step_under (h : s.isFinal = false) :
    step setting (s.under outer) = (step setting s).under outer := by
  obtain ⟨control, pending, store⟩ := s
  cases control with
  | expr e => exact eval_under setting ⟨.expr e, pending, store⟩ outer e
  | stmts stmts => exact execAll_under setting ⟨.stmts stmts, pending, store⟩ outer stmts
  | value v =>
      cases pending with
      | nil => cases h
      | cons p pending => exact resume_under setting ⟨.value v, pending, store⟩ outer v p
  | done =>
      cases pending with
      | nil => cases h
      | cons p pending => exact proceed_under ⟨.done, pending, store⟩ outer p
  | failed f =>
      cases pending with
      | nil => cases h
      | cons p pending => exact unwind_under ⟨.failed f, pending, store⟩ outer f p

end Under

/-! ### Steps and runs -/

theorem step_of_isFinal {s : State} (h : s.isFinal = true) : step setting s = s := by
  obtain ⟨control, pending, store⟩ := s
  obtain ⟨hpending, hcontrol⟩ := (State.isFinal_iff _).mp h
  dsimp only at hpending hcontrol
  subst hpending
  obtain ⟨v, rfl⟩ | rfl | ⟨f, rfl⟩ := hcontrol <;> rfl

/-- A state is reached from another by some number of steps. -/
def Reaches (setting : Setting) (s t : State) : Prop := ∃ n, (step setting)^[n] s = t

namespace Reaches

theorem refl (s : State) : Reaches setting s s := ⟨0, rfl⟩

theorem head {s t : State} (h : Reaches setting (step setting s) t) : Reaches setting s t := by
  obtain ⟨n, rfl⟩ := h
  exact ⟨n + 1, Function.iterate_succ_apply (step setting) n s⟩

theorem tail {s t : State} (h : Reaches setting s t) : Reaches setting s (step setting t) := by
  obtain ⟨n, rfl⟩ := h
  exact ⟨n + 1, Function.iterate_succ_apply' (step setting) n s⟩

/-- What holds at the end and not at the start begins to hold at some step. -/
theorem first {P : State → Prop} {s t : State} (h : Reaches setting s t) (hs : ¬ P s) (ht : P t) :
    ∃ u, Reaches setting s u ∧ ¬ P u ∧ P (step setting u) ∧ Reaches setting (step setting u) t := by
  obtain ⟨n, rfl⟩ := h
  induction n generalizing s with
  | zero => exact absurd ht hs
  | succ n ih =>
      rw [Function.iterate_succ_apply] at ht ⊢
      by_cases hnext : P (step setting s)
      · exact ⟨s, refl s, hs, hnext, n, rfl⟩
      · obtain ⟨u, hu, hbefore, hafter, hrest⟩ := ih hnext ht
        exact ⟨u, hu.head, hbefore, hafter, hrest⟩

/-- What every step keeps, every state reached has. -/
theorem invariant {P : State → Prop} (hstep : ∀ s, P s → P (step setting s)) {s t : State}
    (h : Reaches setting s t) (hs : P s) : P t := by
  obtain ⟨n, rfl⟩ := h
  induction n generalizing s with
  | zero => exact hs
  | succ n ih =>
      rw [Function.iterate_succ_apply]
      exact ih (hstep s hs)

end Reaches

theorem run_zero (s : State) : run setting 0 s = if s.isFinal then some s else none := rfl

theorem run_of_isFinal (n : Nat) {s : State} (h : s.isFinal = true) : run setting n s = some s := by
  cases n <;> exact if_pos h

theorem eq_of_run_of_isFinal {n : Nat} {s t : State} (hfinal : s.isFinal = true)
    (h : run setting n s = some t) : t = s := by
  rw [run_of_isFinal n hfinal] at h
  exact (Option.some.inj h).symm

theorem run_succ {n : Nat} {s : State} (h : s.isFinal = false) :
    run setting (n + 1) s = run setting n (step setting s) :=
  if_neg (by simp [h])

theorem run_step {n : Nat} {s t : State} (h : run setting n s = some t) :
    run setting n (step setting s) = some t := by
  induction n generalizing s with
  | zero =>
      rw [run_zero] at h
      split at h
      · rename_i hfinal
        rw [step_of_isFinal hfinal, run_zero, if_pos hfinal]
        exact h
      · cases h
  | succ n ih =>
      cases hfinal : s.isFinal with
      | true =>
          rw [step_of_isFinal hfinal]
          exact h
      | false =>
          rw [run_succ hfinal] at h
          cases hnext : (step setting s).isFinal with
          | true =>
              rw [run_of_isFinal n hnext] at h
              rw [run_of_isFinal (n + 1) hnext]
              exact h
          | false =>
              rw [run_succ hnext]
              exact ih h

theorem run_iterate {n : Nat} {s t : State} (h : run setting n s = some t) (k : Nat) :
    run setting n ((step setting)^[k] s) = some t := by
  induction k with
  | zero => exact h
  | succ k ih =>
      rw [Function.iterate_succ_apply']
      exact run_step ih

theorem run_mono {n m : Nat} {s t : State} (hle : n ≤ m) (h : run setting n s = some t) :
    run setting m s = some t := by
  induction m with
  | zero =>
      obtain rfl : n = 0 := by omega
      exact h
  | succ m ih =>
      rcases Nat.lt_or_ge n (m + 1) with hlt | hge
      · have hm := ih (by omega)
        cases hfinal : s.isFinal with
        | true =>
            rw [run_of_isFinal m hfinal] at hm
            rw [run_of_isFinal (m + 1) hfinal]
            exact hm
        | false =>
            rw [run_succ hfinal]
            exact run_step hm
      · obtain rfl : n = m + 1 := by omega
        exact h

theorem run_unique {n m : Nat} {s t u : State} (ht : run setting n s = some t)
    (hu : run setting m s = some u) : t = u := by
  have htu := (run_mono (Nat.le_max_left n m) ht).symm.trans (run_mono (Nat.le_max_right n m) hu)
  exact Option.some.inj htu

/-- A run ends in the state that is reached after as many steps, if that is final. -/
theorem run_eq_some_iff {n : Nat} {s t : State} :
    run setting n s = some t ↔ (step setting)^[n] s = t ∧ t.isFinal = true := by
  induction n generalizing s with
  | zero =>
      rw [run_zero, Option.ite_none_right_eq_some, Option.some.injEq, Function.iterate_zero, id_eq]
      constructor
      · rintro ⟨hfinal, rfl⟩
        exact ⟨rfl, hfinal⟩
      · rintro ⟨rfl, hfinal⟩
        exact ⟨hfinal, rfl⟩
  | succ n ih =>
      rw [Function.iterate_succ_apply, ← ih]
      cases hfinal : s.isFinal with
      | true => rw [run_of_isFinal _ hfinal, step_of_isFinal hfinal, run_of_isFinal _ hfinal]
      | false => rw [run_succ hfinal]

theorem run_add {n m : Nat} {s t : State} :
    run setting (n + m) s = some t ↔ run setting n ((step setting)^[m] s) = some t := by
  rw [run_eq_some_iff, run_eq_some_iff, Function.iterate_add_apply]

theorem isFinal_of_run {n : Nat} {s t : State} (h : run setting n s = some t) :
    t.isFinal = true := (run_eq_some_iff.mp h).2

theorem reaches_of_run {n : Nat} {s t : State} (h : run setting n s = some t) :
    Reaches setting s t := ⟨n, (run_eq_some_iff.mp h).1⟩

/-- A run with more pending ends alone first, and then goes on with the result. -/
theorem run_under {n : Nat} {s t : State} {outer : List Pending}
    (h : run setting n (s.under outer) = some t) :
    ∃ u, run setting n s = some u ∧ u.isFinal = true ∧ run setting n (u.under outer) = some t := by
  induction n generalizing s with
  | zero =>
      have hfinal : s.isFinal = true := by
        apply State.isFinal_of_under s outer
        rw [run_zero] at h
        split at h
        · assumption
        · cases h
      exact ⟨s, run_of_isFinal 0 hfinal, hfinal, h⟩
  | succ n ih =>
      cases hfinal : s.isFinal with
      | true => exact ⟨s, run_of_isFinal _ hfinal, hfinal, h⟩
      | false =>
          have hunder : (s.under outer).isFinal = false := by
            cases hcase : (s.under outer).isFinal with
            | false => rfl
            | true => exact absurd (State.isFinal_of_under s outer hcase) (by simp [hfinal])
          rw [run_succ hunder, step_under setting s outer hfinal] at h
          obtain ⟨u, hu, huf, ht⟩ := ih h
          exact ⟨u, by rw [run_succ hfinal]; exact hu, huf, run_mono (Nat.le_succ n) ht⟩

/-- A run with something more pending that ends takes a step more than the run alone. -/
theorem run_under_succ {n : Nat} {s t : State} {p : Pending} {outer : List Pending}
    (h : run setting (n + 1) (s.under (p :: outer)) = some t) :
    ∃ u, run setting n s = some u ∧ u.isFinal = true ∧
      run setting n (step setting (u.under (p :: outer))) = some t := by
  have hunder (s : State) : (s.under (p :: outer)).isFinal = false := by
    cases hcase : (s.under (p :: outer)).isFinal with
    | false => rfl
    | true =>
        have hpending := ((State.isFinal_iff _).mp hcase).1
        exact absurd hpending (by simp [State.under])
  induction n generalizing s with
  | zero =>
      cases hfinal : s.isFinal with
      | true =>
          rw [run_succ (hunder s)] at h
          exact ⟨s, run_of_isFinal 0 hfinal, hfinal, h⟩
      | false =>
          rw [run_succ (hunder s), step_under setting s _ hfinal, run_zero, if_neg (by simp [hunder])] at h
          cases h
  | succ n ih =>
      cases hfinal : s.isFinal with
      | true =>
          rw [run_succ (hunder s)] at h
          exact ⟨s, run_of_isFinal _ hfinal, hfinal, h⟩
      | false =>
          rw [run_succ (hunder s), step_under setting s _ hfinal] at h
          obtain ⟨u, hu, huf, ht⟩ := ih h
          exact ⟨u, by rw [run_succ hfinal]; exact hu, huf, run_mono (Nat.le_succ n) ht⟩

end Machine

/-! ### Runs of commands -/

/-- How a run of commands ends that ends in a state with this control. -/
def Control.ending : Control → Ending
  | .failed f => .failed f
  | _ => .finished

namespace Interpreter

variable (i : Interpreter)

/-- The states that a run of commands passes through. -/
def Runs (commands : List Command) (s : State) : Prop :=
  ∃ table stack, i.table = some table ∧ i.store.stack.push "" 0 [] 0 = .ok stack ∧
    Machine.Reaches ⟨table, i.sink, i.tracing⟩
      ⟨.stmts (commands.map Command.toStmt), [], { i.store with stack := stack }⟩ s

/-- With a table and room for a frame, running commands is a run of the machine. -/
theorem runCommands_eq {table : ClassTable} {stack : CallStack} (htable : i.table = some table)
    (hpush : i.store.stack.push "" 0 [] 0 = .ok stack) (steps : Nat) (commands : List Command) :
    i.runCommands steps commands =
      match Machine.run ⟨table, i.sink, i.tracing⟩ steps
        ⟨.stmts (commands.map Command.toStmt), [], { i.store with stack := stack }⟩ with
      | none => (i, .outOfSteps)
      | some final =>
        ({ i with store := { final.store with stack := final.store.stack.pop } },
          final.control.ending) := by
  simp only [runCommands, htable, hpush]
  cases Machine.run ⟨table, i.sink, i.tracing⟩ steps
      ⟨.stmts (commands.map Command.toStmt), [], { i.store with stack := stack }⟩ with
  | none => rfl
  | some final =>
      obtain ⟨control, pending, store⟩ := final
      cases control <;> rfl

/-- Running commands leaves the interpreter as it is, or leaves it with the store of a final state
less the frame of the commands. -/
theorem runCommands_cases (steps : Nat) (commands : List Command) :
    (i.runCommands steps commands).1 = i ∨
      ∃ final, i.Runs commands final ∧ final.isFinal = true ∧
        i.runCommands steps commands =
          ({ i with store := { final.store with stack := final.store.stack.pop } },
            final.control.ending) := by
  cases htable : i.table with
  | none =>
      left
      simp only [runCommands, htable]
  | some table =>
      cases hpush : i.store.stack.push "" 0 [] 0 with
      | error f =>
          left
          simp only [runCommands, htable, hpush]
      | ok stack =>
          rw [i.runCommands_eq htable hpush]
          split
          · exact .inl rfl
          · rename_i final hfinal
            exact .inr ⟨final, ⟨table, stack, htable, hpush, Machine.reaches_of_run hfinal⟩,
              Machine.isFinal_of_run hfinal, by rw [htable]⟩

/-- With a table and room for a frame, running commands takes too many steps or ends as a final state
does. -/
theorem runCommands_ending {table : ClassTable} {stack : CallStack} (htable : i.table = some table)
    (hpush : i.store.stack.push "" 0 [] 0 = .ok stack) (steps : Nat) (commands : List Command) :
    (i.runCommands steps commands).2 = .outOfSteps ∨
      ∃ final, i.Runs commands final ∧ final.isFinal = true ∧
        (i.runCommands steps commands).2 = final.control.ending := by
  rw [i.runCommands_eq htable hpush]
  split
  · exact .inl rfl
  · rename_i final hfinal
    exact .inr ⟨final, ⟨table, stack, htable, hpush, Machine.reaches_of_run hfinal⟩,
      Machine.isFinal_of_run hfinal, rfl⟩

/-- A program with diagnostics is rejected. -/
theorem evaluate_rejected {p : Program} (hdiagnostics : (ClassTable.build p).2 ≠ []) (steps : Nat)
    (keepLayout : Bool) :
    i.evaluate steps keepLayout (some p) = (i, .rejected (ClassTable.build p).2) := by
  have hreject : (!(ClassTable.build p).2.isEmpty) = true := by simpa using hdiagnostics
  simp only [evaluate, hreject, if_true]

/-- A program with layout errors that is to be placed does not run. -/
theorem evaluate_unplaced {p : Program} (hdiagnostics : (ClassTable.build p).2 = [])
    (herrors : p.layoutErrors (ClassTable.build p).1 ≠ []) (steps : Nat) :
    i.evaluate steps false (some p) =
      (i, .failed (.plain (LayoutError.messages (p.layoutErrors (ClassTable.build p).1)))) := by
  have hempty : (p.layoutErrors (ClassTable.build p).1).isEmpty = false := by simpa using herrors
  simp only [evaluate, hdiagnostics, hempty, List.isEmpty_nil, Bool.not_true, Bool.false_eq_true,
    if_false]

/-- A program without diagnostics whose layout is kept is bound and run as it stands. -/
theorem evaluate_kept {p : Program} (hdiagnostics : (ClassTable.build p).2 = []) (steps : Nat) :
    i.evaluate steps true (some p) =
      (i.bind (ClassTable.build p).1).runCommands steps p.commands := by
  simp only [evaluate, hdiagnostics, List.isEmpty_nil, Bool.not_true, Bool.false_eq_true, if_false,
    if_true]

/-- A program without diagnostics and layout errors is placed, bound and run. -/
theorem evaluate_placed {p : Program} (hdiagnostics : (ClassTable.build p).2 = [])
    (herrors : p.layoutErrors (ClassTable.build p).1 = []) (steps : Nat) :
    i.evaluate steps false (some p) =
      (i.bind (ClassTable.build (p.place (ClassTable.build p).1)).1).runCommands steps p.commands := by
  simp only [evaluate, hdiagnostics, herrors, List.isEmpty_nil, Bool.not_true, Bool.false_eq_true,
    if_false, if_true]
  rfl

/-- The table that is bound for a program without errors. -/
def boundTable (keepLayout : Bool) (p : Program) : ClassTable :=
  if keepLayout then (ClassTable.build p).1
  else (ClassTable.build (p.place (ClassTable.build p).1)).1

/-- Evaluating a program ends before anything runs, or binds its table and runs its commands; which
of the two does not depend on the interpreter. -/
theorem evaluate_uniform (keepLayout : Bool) (program : Option Program) :
    (∃ ending, ((∃ diagnostics, ending = .rejected diagnostics) ∨
        ∃ text, ending = .failed (.plain text)) ∧
      ∀ (i : Interpreter) steps, i.evaluate steps keepLayout program = (i, ending)) ∨
    ∃ p, program = some p ∧ (keepLayout = true ∨ p.layoutErrors (ClassTable.build p).1 = []) ∧
      ∀ (i : Interpreter) steps, i.evaluate steps keepLayout program =
        (i.bind (boundTable keepLayout p)).runCommands steps p.commands := by
  cases program with
  | none => exact .inl ⟨_, .inr ⟨_, rfl⟩, fun _ _ => rfl⟩
  | some p =>
      by_cases hdiagnostics : (ClassTable.build p).2 = []
      · by_cases herrors : p.layoutErrors (ClassTable.build p).1 = []
        · refine .inr ⟨p, rfl, .inr herrors, fun i steps => ?_⟩
          cases keepLayout with
          | true => exact i.evaluate_kept hdiagnostics steps
          | false => exact i.evaluate_placed hdiagnostics herrors steps
        · cases keepLayout with
          | true => exact .inr ⟨p, rfl, .inl rfl, fun i steps => i.evaluate_kept hdiagnostics steps⟩
          | false =>
              exact .inl ⟨_, .inr ⟨_, rfl⟩, fun i steps =>
                i.evaluate_unplaced hdiagnostics herrors steps⟩
      · exact .inl ⟨_, .inl ⟨_, rfl⟩, fun i steps =>
          i.evaluate_rejected hdiagnostics steps keepLayout⟩

end Interpreter

end ObjectLang
