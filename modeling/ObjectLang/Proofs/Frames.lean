import ObjectLang.Proofs.Discipline

/-! Frames on every way out. Whatever is evaluated, and whether it ends well or in a failure, leaves
the frames below the innermost one as they were and the innermost one in its shape. A call leaves all
frames as they were once its operands were evaluated. So an interpreter has no frame left between two
evaluations, and no frame is dropped that is not there. -/

namespace ObjectLang

open Layout (exprVars exprsVars stmtVars stmtsVars routineVars)

/-- The slot of a variable is still open, or was given to its name by some layout. -/
def Var.Annotated (v : Var) : Prop :=
  v.slot = .unresolved ∨ ∃ scope locals, Layout.resolve scope locals v.name = .ok v.slot

theorem Var.Annotated.slot_ne_self {v : Var} (h : v.Annotated) :
    v.slot ≠ .frame Layout.selfOffset := by
  rcases h with h | ⟨scope, locals, h⟩
  · rw [h]
    simp
  · exact Layout.resolve_ne_self h

/-- The code of a table has annotated variables. -/
def ClassTable.Annotated (table : ClassTable) : Prop :=
  ∀ m ∈ table.methods, ∀ v ∈ routineVars m.decl, v.Annotated

/-- The code of a placed program is annotated. -/
theorem Layout.annotated_of_layoutErrors {p : Program}
    (h : p.layoutErrors (ClassTable.build p).1 = []) :
    (ClassTable.build (p.place (ClassTable.build p).1)).1.Annotated := by
  intro m hm v hv
  rw [build_place fun decl hdecl => isKnown_of_layoutErrors h hdecl] at hm
  obtain ⟨source, hsource, rfl⟩ := ClassTable.mem_methods_mapRoutines hm
  obtain ⟨locals, -, hslot⟩ := routine_placed (resolved_of_layoutErrors h hsource) v hv
  exact .inr ⟨_, locals, hslot⟩

/-- A call in one of its forms: of a method, of a routine of the top level, of a routine that is
known with its arguments, or of the constructor of a class. -/
inductive Call where
  | onReceiver (receiver : Expr) (name : String) (args : List Expr) (wantsValue : Bool)
  | topLevel (name : String) (args : List Expr) (wantsValue : Bool)
  | routine (method : Method) (self : Word) (args : List Word) (wantsValue : Bool)
  | constructor (className : String) (args : List Expr)

namespace Call

def start (setting : Setting) (σ : Store) : Call → State
  | .onReceiver receiver name args wantsValue =>
    Machine.startCall setting ⟨.done, [], σ⟩ receiver name args wantsValue
  | .topLevel name args wantsValue => Machine.callTop setting ⟨.done, [], σ⟩ name args wantsValue
  | .routine m self args wantsValue => Machine.enter ⟨.done, [], σ⟩ m self args wantsValue
  | .constructor className args => Machine.construct setting ⟨.done, [], σ⟩ className args

/-- The variables that a call uses, apart from what it dispatches to. -/
def vars : Call → List Var
  | .onReceiver receiver _ args _ => exprVars receiver ++ exprsVars args
  | .topLevel _ args _ | .constructor _ args => exprsVars args
  | .routine m _ _ _ => routineVars m.decl

/-- What a call evaluates in the frame of the caller: the receiver, then the arguments. -/
def operands : Call → List Expr
  | .onReceiver .missing _ args _ => args
  | .onReceiver receiver _ args _ => receiver :: args
  | .topLevel _ args _ | .constructor _ args => args
  | .routine _ _ _ _ => []

/-- The store in which the operands of a call are evaluated: an object is allocated before the
arguments of its constructor are evaluated. -/
def operandStore (setting : Setting) (σ : Store) : Call → Store
  | .constructor className _ =>
    match setting.table.fieldCount className with
    | .ok count => { σ with heap := σ.heap.addInstance count className }
    | .error _ => σ
  | _ => σ

end Call

/-- What can be evaluated: an expression, a statement, statements or a call. -/
inductive Task where
  | expr (expr : Expr)
  | stmt (stmt : Stmt)
  | stmts (stmts : List Stmt)
  | call (call : Call)

namespace Task

def start (setting : Setting) (σ : Store) : Task → State
  | .expr e => ⟨.expr e, [], σ⟩
  | .stmt s => Machine.exec setting ⟨.done, [], σ⟩ s
  | .stmts body => ⟨.stmts body, [], σ⟩
  | .call c => c.start setting σ

/-- The variables that a task uses, apart from what it calls. -/
def vars : Task → List Var
  | .expr e => exprVars e
  | .stmt s => stmtVars s
  | .stmts body => stmtsVars body
  | .call c => c.vars

end Task

namespace Discipline

variable {setting : Setting} {D : Discipline setting} {σ : Store}

/-- A call follows a discipline in whose frame its operands may be used. -/
theorem Ready.start_call (hs : D.Ready .value ⟨.done, [], σ⟩) {c : Call}
    (hvars : D.Usable σ.heap σ.stack.live c.vars)
    (hroutine : ∀ m self args wantsValue, c = .routine m self args wantsValue →
      D.admits σ.heap m self) : D.Holds (c.start setting σ) := by
  cases c with
  | onReceiver receiver name args wantsValue => exact hs.startCall name wantsValue hvars
  | topLevel name args wantsValue => exact hs.callTop name wantsValue hvars
  | routine m self args wantsValue => exact hs.enter (hroutine m self args _ rfl) args wantsValue
  | constructor className args => exact hs.construct className hvars

end Discipline

/-- The frames are the same, but for the values of parameters and locals of the innermost. -/
inductive CallStack.Kept : List Frame → List Frame → Prop
  | empty : Kept [] []
  | top {f g : Frame} {below : List Frame} (shape : f.SameShape g) : Kept (f :: below) (g :: below)

theorem CallStack.Kept.refl (frames : List Frame) : Kept frames frames := by
  cases frames with
  | nil => exact .empty
  | cons f below => exact .top (.refl f)

/-- Annotated variables never mean the receiver, so writes keep the shape of frames. -/
def Discipline.annotated (setting : Setting) (htable : setting.table.Annotated)
    (frames : List Frame) : Discipline setting where
  heap _ := True
  allows _ _ _ v := v.Annotated
  admits _ m _ := ∀ v ∈ routineVars m.decl, v.Annotated
  base _ last := CallStack.Kept frames last
  floor := 0
  floor_le _ := Nat.zero_le _
  grow_heap _ h := h
  grow_allows _ h := h
  grow_admits _ h := h
  write_allows _ _ _ _ h := h
  write_base value hv hslot hplace hbase := by
    cases hbase with
    | top shape =>
        refine .top (shape.trans (Frame.sameShape_store _ value ?_))
        refine Frame.place?_ne_self hplace ?_
        rintro rfl
        exact hv.slot_ne_self hslot
  enter _ hm _ hv := hm _ hv
  callTop _ hm := htable _ (ClassTable.mem_methods_of_top hm).2
  dispatch _ _ hm := htable _ (ClassTable.lookup?_cases hm).1
  construct _ _ hm := htable _ (ClassTable.lookup?_cases hm).1

/-- Whatever is evaluated keeps the frames. -/
theorem Machine.run_keeps_frames {setting : Setting} {σ : Store} {task : Task} {n : Nat} {t : State}
    (htable : setting.table.Annotated) (htask : ∀ v ∈ task.vars, v.Annotated)
    (h : run setting n (task.start setting σ) = some t) :
    CallStack.Kept σ.stack.live t.store.stack.live := by
  have hready (k : Handed) : (Discipline.annotated setting htable σ.stack.live).Ready k
      ⟨.done, [], σ⟩ := ⟨trivial, CallStack.Kept.refl _⟩
  have husable : (Discipline.annotated setting htable σ.stack.live).Usable σ.heap σ.stack.live
      task.vars := fun _ _ _ v hv => htask v hv
  have hstart : (Discipline.annotated setting htable σ.stack.live).Holds (task.start setting σ) := by
    cases task with
    | expr e => exact (hready .value).goto rfl husable
    | stmt s => exact (hready .done).exec husable
    | stmts body => exact (hready .done).goto rfl husable
    | call c =>
        refine (hready .value).start_call husable ?_
        rintro m self args wantsValue rfl
        exact htask
  obtain ⟨k, -, hkept⟩ := hstart.final h
  exact hkept

/-- Expressions are evaluated from left to right, up to the first that fails. -/
inductive Evaluates (setting : Setting) : Store → List Expr → Store → Prop
  | nil {σ : Store} : Evaluates setting σ [] σ
  | value {σ τ υ : Store} {e : Expr} {rest : List Expr} {n : Nat} {v : Word}
      (head : Machine.run setting n ⟨.expr e, [], σ⟩ = some ⟨.value v, [], τ⟩)
      (tail : Evaluates setting τ rest υ) : Evaluates setting σ (e :: rest) υ
  | failed {σ τ : Store} {e : Expr} {rest : List Expr} {n : Nat} {f : Failure}
      (head : Machine.run setting n ⟨.expr e, [], σ⟩ = some ⟨.failed f, [], τ⟩) :
      Evaluates setting σ (e :: rest) τ

/-- A call leaves the frames as they were after the operands that it evaluated; one that does not
fail evaluates all. -/
def LeavesCaller (setting : Setting) (σ : Store) (operands : List Expr) (t : State) : Prop :=
  ∃ evaluated rest τ, operands = evaluated ++ rest ∧
    (rest = [] ∨ ∃ f, t.control = .failed f) ∧ Evaluates setting σ evaluated τ ∧
    t.store.stack.live = τ.stack.live

theorem LeavesCaller.cons {setting : Setting} {σ τ : Store} {e : Expr} {operands : List Expr}
    {n : Nat} {v : Word} {t : State}
    (head : Machine.run setting n ⟨.expr e, [], σ⟩ = some ⟨.value v, [], τ⟩)
    (tail : LeavesCaller setting τ operands t) : LeavesCaller setting σ (e :: operands) t := by
  obtain ⟨evaluated, rest, υ, rfl, hrest, hevaluated, hlive⟩ := tail
  exact ⟨e :: evaluated, rest, υ, rfl, hrest, .value head hevaluated, hlive⟩

theorem LeavesCaller.stop {setting : Setting} {σ : Store} (operands : List Expr) {t : State}
    {f : Failure} (hfailed : t.control = .failed f) (hlive : t.store.stack.live = σ.stack.live) :
    LeavesCaller setting σ operands t :=
  ⟨[], operands, σ, rfl, .inr ⟨f, hfailed⟩, .nil, hlive⟩

theorem LeavesCaller.failed {setting : Setting} {σ τ : Store} {e : Expr} (operands : List Expr)
    {n : Nat} {f : Failure} {t : State}
    (head : Machine.run setting n ⟨.expr e, [], σ⟩ = some ⟨.failed f, [], τ⟩)
    (hlive : t.store.stack.live = τ.stack.live) : LeavesCaller setting σ (e :: operands) t :=
  ⟨e :: operands, [], τ, (List.append_nil _).symm, .inl rfl, .failed head, hlive⟩

/-- The discipline in which exactly the given frames are left, and none of them is used. -/
def Discipline.above (setting : Setting) (frames : List Frame) : Discipline setting :=
  heights setting frames.length (fun _ last => last = frames) (by rintro k _ rfl; exact Nat.le_refl _)
    (by
      rintro k f g below hle rfl
      exact absurd hle (Nat.not_succ_le_self _))

/-- What may be pending when the arguments of a call are known: nothing, or the object that is
constructed. -/
def Pending.AfterCall (pending : List Pending) : Prop :=
  pending = [] ∨ ∃ className ref, pending = [.constructed className ref]

namespace Machine

variable {setting : Setting} {σ : Store} {pending : List Pending} {n : Nat} {t : State}

theorem ready_afterCall (control : Control) (h : Pending.AfterCall pending) :
    (Discipline.above setting σ.stack.live).Ready .value ⟨control, pending, σ⟩ := by
  refine ⟨trivial, ?_⟩
  rcases h with rfl | ⟨className, ref, rfl⟩
  · rfl
  · exact ⟨rfl, Discipline.usable_nil, fun callee hc => (by cases hc), rfl⟩

/-- A failure passes what is pending after a call. -/
theorem run_failed {f : Failure} (hpending : Pending.AfterCall pending)
    (h : run setting n ⟨.failed f, pending, σ⟩ = some t) :
    t.store.stack.live = σ.stack.live := by
  obtain ⟨k, -, hlive⟩ := ((ready_afterCall (.failed f) hpending).fail f).final h
  exact hlive

/-- The arguments are evaluated in the frame of the caller, and the call then leaves it. -/
theorem run_evalArgs {callee : Callee} {evaluated : List Word} {args : List Expr}
    {control : Control} (hpending : Pending.AfterCall pending)
    (h : run setting n (evalArgs setting ⟨control, pending, σ⟩ callee evaluated args) = some t) :
    LeavesCaller setting σ args t := by
  induction args generalizing σ control evaluated with
  | nil =>
      have hcallable : (Discipline.above setting σ.stack.live).Callable σ.heap callee := by
        cases callee with
        | routine m self wantsValue => exact trivial
        | method className name self wantsValue => exact fun _ _ => trivial
      obtain ⟨k, -, hlive⟩ := ((ready_afterCall control hpending).call hcallable _).final h
      exact ⟨[], [], σ, rfl, .inl rfl, .nil, hlive⟩
  | cons e rest ih =>
      rcases run_expr h with ⟨v, τ, head, htail⟩ | ⟨f, τ, head, htail⟩
      · exact .cons head (ih htail)
      · exact .failed rest head (run_failed hpending htail)

theorem run_callTop {name : String} {args : List Expr} {wantsValue : Bool} {control : Control}
    (h : run setting n (callTop setting ⟨control, [], σ⟩ name args wantsValue) = some t) :
    LeavesCaller setting σ args t := by
  unfold callTop at h
  split at h
  · rw [eq_of_run_of_isFinal rfl h]
    exact .stop args rfl rfl
  · exact run_evalArgs (.inl rfl) h

theorem run_receive {name : String} {args : List Expr} {wantsValue : Bool} {ref : Word}
    {control : Control}
    (h : run setting n (receive setting ⟨control, [], σ⟩ ref name args wantsValue) = some t) :
    LeavesCaller setting σ args t := by
  unfold receive at h
  split at h
  · rw [eq_of_run_of_isFinal rfl h]
    exact .stop args rfl rfl
  · split at h
    · rw [eq_of_run_of_isFinal rfl h]
      exact .stop args rfl rfl
    · exact run_evalArgs (.inl rfl) h

theorem run_construct {className : String} {args : List Expr}
    (h : run setting n (Call.start setting σ (.constructor className args)) = some t) :
    LeavesCaller setting (Call.operandStore setting σ (.constructor className args)) args t := by
  simp only [Call.start, construct] at h
  simp only [Call.operandStore]
  cases hcount : setting.table.fieldCount className with
  | error cause =>
      simp only [hcount] at h
      rw [eq_of_run_of_isFinal rfl h]
      exact .stop args rfl rfl
  | ok count =>
      simp only [hcount] at h
      split at h
      · exact run_evalArgs (.inr ⟨className, _, rfl⟩) h
      · split at h
        · rename_i hargs
          obtain rfl : args = [] := List.isEmpty_iff.mp hargs
          obtain ⟨k, -, hlive⟩ := ((ready_afterCall .done (.inl rfl)).constructed className _).final h
          exact ⟨[], [], _, rfl, .inl rfl, .nil, hlive⟩
        · rw [eq_of_run_of_isFinal rfl h]
          exact .stop args rfl rfl

/-- A call leaves the frames of its caller as they were after its operands. -/
theorem run_call {c : Call} (h : run setting n (c.start setting σ) = some t) :
    LeavesCaller setting (c.operandStore setting σ) c.operands t := by
  cases c with
  | onReceiver receiver name args wantsValue =>
      cases receiver with
      | missing => exact run_callTop h
      | _ =>
          rcases run_expr h with ⟨v, τ, head, htail⟩ | ⟨f, τ, head, htail⟩
          · exact .cons head (run_receive htail)
          · exact .failed args head (run_failed (.inl rfl) htail)
  | topLevel name args wantsValue => exact run_callTop h
  | routine m self args wantsValue =>
      have hready : (Discipline.above setting σ.stack.live).Ready .value ⟨.done, [], σ⟩ :=
        ready_afterCall .done (.inl rfl)
      obtain ⟨k, -, hlive⟩ := (hready.enter trivial args wantsValue).final h
      exact ⟨[], [], σ, rfl, .inl rfl, .nil, hlive⟩
  | constructor className args => exact run_construct h

end Machine

/-! ### Sessions -/

/-- The next step drops the innermost frame. -/
def State.Drops (s : State) : Prop :=
  match s.control, s.pending with
  | .value _, .result :: _ | .done, .activation none :: _ => True
  | .failed _, p :: _ => p.dropsFrame = true
  | _, _ => False

theorem State.Drops.pending {s : State} (h : s.Drops) :
    ∃ p rest, s.pending = p :: rest ∧ p.dropsFrame = true := by
  unfold State.Drops at h
  split at h
  · rename_i hpending
    exact ⟨_, _, hpending, rfl⟩
  · rename_i hpending
    exact ⟨_, _, hpending, rfl⟩
  · rename_i hpending
    exact ⟨_, _, hpending, h⟩
  · exact h.elim

/-- The discipline in which one frame on top of the given ones is left. -/
def Discipline.rooted (setting : Setting) (below : List Frame) : Discipline setting :=
  heights setting below.length (fun _ last => ∃ root, last = root :: below)
    (by
      rintro k _ ⟨root, rfl⟩
      exact Nat.le_succ _)
    (by
      rintro k f g _ - ⟨root, h⟩
      cases h
      exact ⟨g, rfl⟩)

namespace Interpreter

variable {i : Interpreter} {commands : List Command} {s : State}

/-- Commands run in a frame of their own on top of the frames that were there. -/
theorem Runs.rooted (h : i.Runs commands s) :
    ∃ setting k, (Discipline.rooted setting i.store.stack.live).Ready k s := by
  obtain ⟨table, stack, -, hpush, hreaches⟩ := h
  obtain ⟨-, -, hlive⟩ := CallStack.push_ok hpush
  have hstart : (Discipline.rooted ⟨table, i.sink, i.tracing⟩ i.store.stack.live).Holds
      ⟨.stmts (commands.map Command.toStmt), [], { i.store with stack := stack }⟩ := by
    refine ⟨.done, ⟨trivial, _, hlive⟩, rfl, ?_⟩
    intro frame below hframes v _
    rw [hlive] at hframes
    cases hframes
    exact Nat.le_refl _
  obtain ⟨k, hready, -⟩ := hstart.reaches hreaches
  exact ⟨_, k, hready⟩

/-- A frame that is dropped stands on the frame of the commands. -/
theorem Runs.depth_of_drops (h : i.Runs commands s) (hdrops : s.Drops) :
    i.store.stack.depth + 1 < s.store.stack.depth := by
  obtain ⟨setting, k, hready⟩ := h.rooted
  obtain ⟨p, rest, hpending, hp⟩ := hdrops.pending
  obtain ⟨control, pending, store⟩ := s
  cases hpending
  obtain ⟨frame, below, hlive, hsegments⟩ := hready.drop hp
  obtain ⟨k', last, ⟨root, rfl⟩, hsuffix⟩ := hsegments.base
  have hle := hsuffix.length_le
  rw [CallStack.depth_eq, CallStack.depth_eq, hlive]
  simp only [List.length_cons] at hle ⊢
  omega

/-- At the end the frame of the commands is left. -/
theorem Runs.live_of_isFinal (h : i.Runs commands s) (hfinal : s.isFinal = true) :
    ∃ root, s.store.stack.live = root :: i.store.stack.live := by
  obtain ⟨setting, k, hready⟩ := h.rooted
  have hpending := hready.pending
  rw [((State.isFinal_iff s).mp hfinal).1] at hpending
  exact hpending

theorem live_runCommands (steps : Nat) (commands : List Command) (i : Interpreter) :
    (i.runCommands steps commands).1.store.stack.live = i.store.stack.live := by
  rcases i.runCommands_cases steps commands with h | ⟨final, hruns, hfinal, h⟩
  · rw [h]
  · obtain ⟨root, hlive⟩ := hruns.live_of_isFinal hfinal
    rw [h]
    dsimp only
    rw [CallStack.live_pop, hlive]
    rfl

theorem live_evaluate (steps : Nat) (keepLayout : Bool) (program : Option Program)
    (i : Interpreter) :
    (i.evaluate steps keepLayout program).1.store.stack.live = i.store.stack.live := by
  rcases evaluate_uniform keepLayout program with ⟨ending, -, h⟩ | ⟨p, -, -, h⟩
  · rw [h i steps]
  · rw [h i steps, live_runCommands]
    rfl

/-- What can be asked of an interpreter. -/
inductive Action where
  | evaluate (steps : Nat) (keepLayout : Bool) (program : Option Program)
  | bind (table : ClassTable)
  | runCommands (steps : Nat) (commands : List Command)

def perform (i : Interpreter) : Action → Interpreter
  | .evaluate steps keepLayout program => (i.evaluate steps keepLayout program).1
  | .bind table => i.bind table
  | .runCommands steps commands => (i.runCommands steps commands).1

theorem live_perform (i : Interpreter) (action : Action) :
    (i.perform action).store.stack.live = i.store.stack.live := by
  cases action with
  | evaluate steps keepLayout program => exact live_evaluate steps keepLayout program i
  | bind table => rfl
  | runCommands steps commands => exact live_runCommands steps commands i

def session (i : Interpreter) (actions : List Action) : Interpreter := actions.foldl perform i

theorem live_session (i : Interpreter) (actions : List Action) :
    (i.session actions).store.stack.live = i.store.stack.live := by
  induction actions generalizing i with
  | nil => rfl
  | cons action rest ih =>
      have hrest := ih (i.perform action)
      rw [live_perform] at hrest
      exact hrest

theorem depth_session (limit : Int) (sink : Sink) (tracing : Bool) (actions : List Action) :
    ((fresh limit sink tracing).session actions).store.stack.depth = 0 := by
  rw [CallStack.depth_eq, live_session]
  rfl

end Interpreter

theorem CallStack.Kept.length_eq {frames frames' : List Frame} (h : Kept frames frames') :
    frames'.length = frames.length := by
  cases h <;> rfl

/-- **Frames are kept on every way out.** Whatever is evaluated to its end keeps the number of
frames, all frames below the innermost, and the shape of the innermost; a call moreover leaves all
frames as they were after its operands, and commands leave those that were there. So after any
session no frame is left, and a frame is only ever dropped when there is one. -/
theorem frames_kept_on_every_exit :
    (∀ (setting : Setting) (σ : Store) (task : Task) (n : Nat) (t : State),
      setting.table.Annotated → (∀ v ∈ task.vars, v.Annotated) →
      Machine.run setting n (task.start setting σ) = some t →
      t.store.stack.depth = σ.stack.depth ∧ CallStack.Kept σ.stack.live t.store.stack.live) ∧
    (∀ (setting : Setting) (σ : Store) (c : Call) (n : Nat) (t : State),
      Machine.run setting n (c.start setting σ) = some t →
      LeavesCaller setting (c.operandStore setting σ) c.operands t) ∧
    (∀ (i : Interpreter) (steps : Nat) (commands : List Command),
      (i.runCommands steps commands).1.store.stack.live = i.store.stack.live) ∧
    ∀ (limit : Int) (sink : Sink) (tracing : Bool) (actions : List Interpreter.Action),
      ((Interpreter.fresh limit sink tracing).session actions).store.stack.depth = 0 ∧
      ∀ (table : ClassTable) (commands : List Command) (s : State),
        (((Interpreter.fresh limit sink tracing).session actions).bind table).Runs commands s →
        (s.Drops → 1 < s.store.stack.depth) ∧
        (s.isFinal = true → s.store.stack.depth = 1) := by
  refine ⟨?_, fun setting σ c n t h => Machine.run_call h, ?_, ?_⟩
  · intro setting σ task n t htable htask h
    have hkept := Machine.run_keeps_frames htable htask h
    refine ⟨?_, hkept⟩
    rw [CallStack.depth_eq, CallStack.depth_eq, hkept.length_eq]
  · intro i steps commands
    exact Interpreter.live_runCommands steps commands i
  · intro limit sink tracing actions
    have hdepth := Interpreter.depth_session limit sink tracing actions
    refine ⟨hdepth, ?_⟩
    intro table commands s hruns
    constructor
    · intro hdrops
      have hlt := hruns.depth_of_drops hdrops
      exact Nat.lt_of_le_of_lt (Nat.le_add_left 1 _) hlt
    · intro hfinal
      obtain ⟨root, hlive⟩ := hruns.live_of_isFinal hfinal
      rw [CallStack.depth_eq] at hdepth
      rw [CallStack.depth_eq, hlive, List.length_cons]
      exact congrArg Nat.succ hdepth

/-- A class with a method that divides a field by its parameter, having used another local of the
same name in a block before. -/
def ratioProgram : Program :=
  let named (name : String) : Var := ⟨.unknown, name, .unresolved⟩
  let read (name : String) : Expr := .var .unknown (named name)
  let inner : List Stmt := [.declare .unknown .missing "quotient",
    .assign .unknown (named "quotient") (.integer .unknown 1)]
  let body : List Stmt := [.declare .unknown .missing "quotient", .block (.mk .unknown true inner),
    .assign .unknown (named "quotient") (.binary .unknown "/" (read "value") (read "divisor"))]
  let ratio : Routine := ⟨.unknown, "ratio", true, [⟨.unknown, .missing, "divisor"⟩], true, body,
    some ⟨.missing, read "quotient"⟩, 0⟩
  ⟨.unknown, true, [], true, [some ⟨.unknown, "Cell", "", true, [⟨.unknown, .missing, "value"⟩], true,
    [some ratio]⟩], true, []⟩

/-- The table of the placed class. -/
def ratioSetting : Setting :=
  ⟨(ClassTable.build (ratioProgram.place (ClassTable.build ratioProgram).1)).1, .unlimited, false⟩

/-- A store with an object of the class, and a frame with a reference to it on top of another. -/
def ratioStore : Store :=
  ⟨⟨#[⟨.classInstance, "Cell", #[7]⟩]⟩,
    ⟨10, #[⟨"", 0, #[], #[]⟩, ⟨"main", 0, #[5], #[1]⟩]⟩, #[], #[]⟩

/-- A call that divides by zero. -/
def ratioCall : Call :=
  .onReceiver (.var .unknown ⟨.unknown, "cell", .frame 1⟩) "ratio" [.integer .unknown 0] true

theorem frames_kept_after_division_by_zero :
    ∃ t f, Machine.run ratioSetting 40 (Task.start ratioSetting ratioStore (.call ratioCall)) =
        some t ∧ t.control = .failed f ∧ t.store.stack.depth = ratioStore.stack.depth ∧
      CallStack.Kept ratioStore.stack.live t.store.stack.live := by
  have hfails : ((Machine.run ratioSetting 40 (Task.start ratioSetting ratioStore
      (.call ratioCall))).any fun t => t.control.ending != .finished) = true := by
    decide +kernel
  obtain ⟨t, ht, hcontrol⟩ := (Option.any_eq_true _ _).mp hfails
  have hannotated : ∀ v ∈ ratioCall.vars, v.Annotated := by
    intro v hv
    obtain rfl : v = ⟨.unknown, "cell", .frame 1⟩ := List.mem_singleton.mp hv
    exact .inr ⟨⟨"", [], .ok []⟩, ["cell"], rfl⟩
  have herrors : ratioProgram.layoutErrors (ClassTable.build ratioProgram).1 = [] := by
    decide +kernel
  obtain ⟨hdepth, hkept⟩ := frames_kept_on_every_exit.1 ratioSetting ratioStore (.call ratioCall) 40 t
    (Layout.annotated_of_layoutErrors herrors) hannotated ht
  obtain ⟨control, pending, store⟩ := t
  cases control with
  | failed f => exact ⟨_, f, ht, rfl, hdepth, hkept⟩
  | _ => cases hcontrol

end ObjectLang
