import ObjectLang.Proofs.CheckedPrograms
import ObjectLang.Proofs.HeapGrowth

/-! Dispatch. What a step calls it has come by in one of three ways: it is a routine of the top level,
the constructor of an object that the step makes, or what the type of a receiver has under a name. A
callee that waits for its arguments stays what it was, so every frame of a class's method runs on an
object whose type has the class among its ancestors. A constructor runs on an instance. A method runs
on whatever its receiver is: the type of an array is that of its elements, so dispatch on an array of
a class finds the methods of the class. -/

namespace ObjectLang

/-- A class is among the ancestors of a type. -/
def ClassTable.Inherits (table : ClassTable) (type owner : String) : Prop :=
  ∃ infos, table.chain type = .ok infos ∧ owner ∈ infos.map (·.name)

/-- The method that dispatch finds in a type is of the top level or belongs to an ancestor. -/
theorem ClassTable.Owned.owner_of_lookup? {table : ClassTable} (h : table.Owned)
    {type name : String} {m : Method} (hm : table.lookup? type name = some m) :
    m.owner = "" ∨ table.Inherits type m.owner := by
  rcases (lookup?_cases hm).2 with ⟨-, htop⟩ | ⟨infos, hchain, info, hinfo, hmethod⟩
  · exact .inl (h.1 m htop)
  · obtain ⟨-, -, -, -, hdeclared, -⟩ := chain_of_mem hchain hinfo
    refine .inr ⟨infos, hchain, ?_⟩
    rw [h.2 info (declared?_mem hdeclared) m hmethod]
    exact List.mem_map_of_mem hinfo

namespace Callee

def self : Callee → Word
  | .routine _ self _ | .method _ _ self _ => self

def method? (table : ClassTable) : Callee → Option Method
  | .routine m _ _ => some m
  | .method className name _ _ => table.lookup? className name

/-- How a step that leads from one heap to another comes by a callee. -/
inductive Made (table : ClassTable) (h h' : Heap) : Callee → Prop
  | top {name : String} {m : Method} {wantsValue : Bool}
      (hm : findMethod? table.top name = some m) : Made table h h' (.routine m 0 wantsValue)
  | received {ref : Word} {o : HeapObject} {name : String} {wantsValue : Bool}
      (ho : h.deref ref = .ok o) : Made table h h' (.method o.type name ref wantsValue)
  | constructor {className : String} {count : Nat} {m : Method}
      (hcount : table.fieldCount className = .ok count)
      (hm : table.lookup? className className = some m)
      (hheap : h' = h.addInstance count className) :
      Made table h h' (.routine m h'.lastAddress.toWord false)

/-- A callee has a receiver that it may run on: a routine of a class an instance with the class among
its ancestors, as long as addresses fit, and a method an object of the type it is looked up in. -/
def Sound (table : ClassTable) (h : Heap) : Callee → Prop
  | .routine m self _ => m.owner ≠ "" → h.size < 2 ^ 31 →
      ∃ o, h.deref self = .ok o ∧ o.kind = .classInstance ∧ table.Inherits o.type m.owner
  | .method className _ self _ => ∃ o, h.deref self = .ok o ∧ o.type = className

variable {table : ClassTable} {h h' : Heap} {c : Callee}

theorem Sound.grow (step : Heap.Step table h h') (hc : c.Sound table h) : c.Sound table h' := by
  cases c with
  | routine m self wantsValue =>
      intro howner hsmall
      obtain ⟨o, ho, hkind, htype⟩ := hc howner (Nat.lt_of_le_of_lt step.size_le hsmall)
      obtain ⟨o', ho', hkind', htype', -⟩ := step.deref ho
      exact ⟨o', ho', hkind'.trans hkind, htype' ▸ htype⟩
  | method className name self wantsValue =>
      obtain ⟨o, ho, htype⟩ := hc
      obtain ⟨o', ho', -, htype', -⟩ := step.deref ho
      exact ⟨o', ho', htype'.trans htype⟩

theorem Made.sound (howned : table.Owned) (step : Heap.Step table h h')
    (hmade : c.Made table h h') : c.Sound table h' := by
  cases hmade with
  | top hm => exact fun howner => absurd (howned.1 _ (ClassTable.mem_methods_of_top hm).1) howner
  | received ho => exact Sound.grow step ⟨_, ho, rfl⟩
  | constructor hcount hm hheap =>
      subst hheap
      intro howner hsmall
      exact ⟨_, Heap.deref_lastAddress _ hsmall, rfl, (howned.owner_of_lookup? hm).resolve_left howner⟩

/-- A sound callee that runs a method of a class has a receiver for it, which is an instance unless a
method was called on it. -/
theorem Sound.receiver (howned : table.Owned) (hc : c.Sound table h) (hsmall : h.size < 2 ^ 31)
    {m : Method} (hm : c.method? table = some m) (howner : m.owner ≠ "") :
    ∃ o, h.deref c.self = .ok o ∧ table.Inherits o.type m.owner ∧
      (o.kind = .classInstance ∨ ∃ name wantsValue, c = .method o.type name c.self wantsValue) := by
  cases c with
  | routine m' self wantsValue =>
      cases hm
      obtain ⟨o, ho, hkind, htype⟩ := hc howner hsmall
      exact ⟨o, ho, htype, .inl hkind⟩
  | method className name self wantsValue =>
      obtain ⟨o, ho, rfl⟩ := hc
      exact ⟨o, ho, (howned.owner_of_lookup? hm).resolve_left howner, .inr ⟨name, wantsValue, rfl⟩⟩

end Callee

/-! ### What a step calls -/

namespace State

/-- What waits for its arguments to be called. -/
def callees (s : State) : List Callee := s.pending.filterMap Pending.callee?

theorem mem_callees_cons {control : Control} {p : Pending} {pending : List Pending} {store : Store}
    {c : Callee} : c ∈ callees ⟨control, p :: pending, store⟩ ↔
      p.callee? = some c ∨ c ∈ callees ⟨control, pending, store⟩ := by
  simp only [callees, List.mem_filterMap, List.exists_mem_cons_iff]

/-- The next step runs a callee on arguments: the call has none, or the last one is there. -/
inductive Calls (table : ClassTable) (s : State) : Callee → List Word → Prop
  | topExpr {span : Span} {name : String} {listed : Bool} {m : Method}
      (hcontrol : s.control = .expr (.call span .missing name listed []))
      (hm : findMethod? table.top name = some m) : Calls table s (.routine m 0 true) []
  | topStmt {span : Span} {name : String} {listed : Bool} {rest : List Stmt} {m : Method}
      (hcontrol : s.control = .stmts (.call span .missing name listed [] :: rest))
      (hm : findMethod? table.top name = some m) : Calls table s (.routine m 0 false) []
  | constructor {span : Span} {className : String} {listed : Bool} {count : Nat} {m : Method}
      (hcontrol : s.control = .expr (.newObject span className listed []))
      (hcount : table.fieldCount className = .ok count)
      (hm : table.lookup? className className = some m) :
      Calls table s
        (.routine m (s.store.heap.addInstance count className).lastAddress.toWord false) []
  | received {ref : Word} {name : String} {wantsValue : Bool} {rest : List Pending}
      {o : HeapObject} (hcontrol : s.control = .value ref)
      (hpending : s.pending = .receive name [] wantsValue :: rest) (hne : ref ≠ 0)
      (ho : s.store.heap.deref ref = .ok o) : Calls table s (.method o.type name ref wantsValue) []
  | lastArgument {v : Word} {c : Callee} {evaluated : List Word} {rest : List Pending}
      (hcontrol : s.control = .value v) (hpending : s.pending = .argument c evaluated [] :: rest) :
      Calls table s c (v :: evaluated).reverse

/-- A callee was waiting, or the step makes it. -/
def Knows (table : ClassTable) (s : State) (h : Heap) (c : Callee) : Prop :=
  c ∈ s.callees ∨ c.Made table s.store.heap h

/-- What the step from one state to another does about calls: it adds no frame, and what waits
afterwards is known, or it runs a callee that is known. -/
inductive CallStep (setting : Setting) (s t : State) : Prop
  | passes (hcallees : ∀ c ∈ t.callees, s.Knows setting.table t.store.heap c)
      (hdepth : t.store.stack.depth ≤ s.store.stack.depth)
  | runs {c : Callee} {args : List Word} {u : State} (hcalls : s.Calls setting.table c args)
      (hknown : s.Knows setting.table u.store.heap c) (hstack : u.store.stack = s.store.stack)
      (hcallees : ∀ c ∈ u.callees, c ∈ s.callees) (heq : t = Machine.call setting u args c)

end State

namespace Machine

open State (CallStep)

section CallSteps

variable {setting : Setting} {s u : State} (hu : u.store.stack = s.store.stack)
  (hc : ∀ c ∈ u.callees, c ∈ s.callees)
include hu hc

theorem callStep_goto (control : Control) : CallStep setting s (u.goto control) :=
  .passes (fun c hmem => .inl (hc c hmem)) (by rw [← hu]; exact Nat.le_refl _)

theorem callStep_push {p : Pending} (hp : p.callee? = none) (control : Control) :
    CallStep setting s (u.push p control) := by
  refine .passes (fun c hmem => .inl (hc c ?_)) (by rw [← hu]; exact Nat.le_refl _)
  exact (State.mem_callees_cons.mp hmem).resolve_left (by rw [hp]; exact nofun)

theorem callStep_yield (r : Except Fault Word) : CallStep setting s (u.yield r) := by
  cases r with
  | ok v => exact callStep_goto hu hc _
  | error f => exact callStep_goto hu hc _

/-- Another heap or other lines in the store say nothing about calls. -/
theorem callStep_keeps {t : State} (hstack : t.store.stack = u.store.stack)
    (hpending : t.pending = u.pending) : CallStep setting s t := by
  refine .passes (fun c hmem => .inl (hc c ?_)) ?_
  · rw [State.callees, hpending] at hmem
    exact hmem
  · exact Nat.le_of_eq (by rw [hstack, hu])

theorem callStep_constructed (className : String) (ref : Word) :
    CallStep setting s (constructed setting u className ref) := by
  unfold constructed
  split
  · split
    · exact callStep_keeps hu hc rfl rfl
    · exact callStep_goto hu hc _
  · exact callStep_goto hu hc _

theorem callStep_print (value : Word) : CallStep setting s (print setting u value) := by
  unfold print
  dsimp only
  split
  · exact callStep_keeps hu hc rfl rfl
  · split
    · exact callStep_keeps hu hc rfl rfl
    · exact callStep_goto hu hc _

theorem callStep_writeVar (v : Var) (value : Word) : CallStep setting s (writeVar u v value) := by
  unfold writeVar
  split
  · split
    · exact callStep_goto hu hc _
    · refine .passes (fun c hmem => .inl (hc c hmem)) ?_
      dsimp only
      exact Nat.le_of_eq (by rw [CallStack.depth_store, hu])
  · split
    · exact callStep_goto hu hc _
    · exact callStep_keeps hu hc rfl rfl
  · exact callStep_goto hu hc _

theorem callStep_writeAt (ref index value : Word) :
    CallStep setting s (writeAt u ref index value) := by
  unfold writeAt
  split
  · exact callStep_goto hu hc _
  · exact callStep_keeps hu hc rfl rfl

theorem callStep_evalArgs {c : Callee} {evaluated : List Word} {args : List Expr}
    (hknown : s.Knows setting.table u.store.heap c)
    (hcalls : args = [] → s.Calls setting.table c evaluated.reverse) :
    CallStep setting s (evalArgs setting u c evaluated args) := by
  cases args with
  | nil => exact .runs (hcalls rfl) hknown hu hc rfl
  | cons e rest =>
      refine .passes (fun c' hmem => ?_) (by rw [← hu]; exact Nat.le_refl _)
      rcases State.mem_callees_cons.mp hmem with heq | hmem
      · cases heq
        exact hknown
      · exact .inl (hc c' hmem)

theorem callStep_receive {ref : Word} {name : String} {args : List Expr} {wantsValue : Bool}
    (hheap : u.store.heap = s.store.heap)
    (hcalls : ∀ o, args = [] → ref ≠ 0 → s.store.heap.deref ref = .ok o →
      s.Calls setting.table (.method o.type name ref wantsValue) []) :
    CallStep setting s (receive setting u ref name args wantsValue) := by
  unfold receive
  split
  · exact callStep_goto hu hc _
  · next hne =>
      split
      · exact callStep_goto hu hc _
      · next o ho =>
          rw [hheap] at ho
          exact callStep_evalArgs hu hc (.inr (.received ho)) fun hargs => hcalls o hargs hne ho

theorem callStep_startCall {receiver : Expr} {name : String} {args : List Expr} {wantsValue : Bool}
    (hcalls : ∀ m, receiver = .missing → args = [] → findMethod? setting.table.top name = some m →
      s.Calls setting.table (.routine m 0 wantsValue) []) :
    CallStep setting s (startCall setting u receiver name args wantsValue) := by
  cases receiver with
  | missing =>
      unfold startCall callTop
      dsimp only
      split
      · exact callStep_goto hu hc _
      · next m hm =>
          exact callStep_evalArgs hu hc (.inr (.top hm)) fun hargs => hcalls m rfl hargs hm
  | _ => exact callStep_push hu hc rfl _

theorem callStep_construct {className : String} {args : List Expr}
    (hheap : u.store.heap = s.store.heap)
    (hcalls : ∀ count m, args = [] → setting.table.fieldCount className = .ok count →
      setting.table.lookup? className className = some m → s.Calls setting.table
        (.routine m (s.store.heap.addInstance count className).lastAddress.toWord false) []) :
    CallStep setting s (construct setting u className args) := by
  unfold construct
  split
  · exact callStep_goto hu hc _
  · next count hcount =>
      let grown : State := { u with store.heap := u.store.heap.addInstance count className }
      have hgrown : grown.store.stack = s.store.stack := hu
      dsimp only
      split
      · next m hm =>
          refine callStep_evalArgs
            (u := { grown with pending := .constructed className _ :: u.pending }) hu ?_
            (.inr ?_) ?_
          · intro c hmem
            exact hc c ((State.mem_callees_cons.mp hmem).resolve_left nofun)
          · exact .constructor hcount hm (congrArg (Heap.addInstance · count className) hheap)
          · intro hargs
            rw [hheap]
            exact hcalls count m hargs hcount hm
      · split
        · exact callStep_constructed hgrown hc className _
        · exact callStep_goto hgrown hc _

end CallSteps

variable {setting : Setting} {s : State}

/-- What waits is the same once a step has noted something that is no callee. -/
theorem mem_callees_of_cons {p : Pending} (hp : p.callee? = none) {pending : List Pending}
    (hpending : s.pending = pending) (control : Control) :
    ∀ c ∈ State.callees ⟨control, p :: pending, s.store⟩, c ∈ s.callees := by
  intro c hmem
  subst hpending
  exact (State.mem_callees_cons.mp hmem).resolve_left (by rw [hp]; exact nofun)

theorem mem_callees_of_tail {p : Pending} {rest : List Pending} (hpending : s.pending = p :: rest)
    (control : Control) : ∀ c ∈ State.callees ⟨control, rest, s.store⟩, c ∈ s.callees := by
  intro c hmem
  obtain ⟨control', pending, store⟩ := s
  cases hpending
  exact State.mem_callees_cons.mpr (.inr hmem)

theorem callStep_eval {e : Expr} (he : s.control = .expr e) :
    CallStep setting s (eval setting s e) := by
  have hu : (State.mk s.control (.locate e.span :: s.pending) s.store).store.stack =
      s.store.stack := rfl
  have hc := mem_callees_of_cons (s := s) (p := .locate e.span) rfl rfl s.control
  cases e with
  | missing => exact callStep_goto hu hc _
  | integer span value => exact callStep_goto hu hc _
  | truth span value => exact callStep_goto hu hc _
  | var span v => exact callStep_yield hu hc _
  | self span => exact callStep_yield hu hc _
  | newObject span className listed args =>
      refine callStep_construct hu hc rfl ?_
      rintro count m rfl hcount hm
      exact .constructor he hcount hm
  | call span receiver name listed args =>
      refine callStep_startCall hu hc ?_
      rintro m rfl rfl hm
      exact .topExpr he hm
  | _ => exact callStep_push hu hc rfl _

theorem callStep_exec {stmt : Stmt} {rest : List Stmt} (hstmt : s.control = .stmts (stmt :: rest)) :
    CallStep setting s (execAll setting s (stmt :: rest)) := by
  have hu : (State.mk s.control (.next stmt.span rest :: s.pending) s.store).store.stack =
      s.store.stack := rfl
  have hc := mem_callees_of_cons (s := s) (p := .next stmt.span rest) rfl rfl s.control
  cases stmt with
  | missing => exact callStep_goto hu hc _
  | block b => exact callStep_goto hu hc _
  | declare span type name => exact callStep_goto hu hc _
  | call span receiver name listed args =>
      refine callStep_startCall (s := s)
        (u := ⟨s.control, .discard :: .next span rest :: s.pending, s.store⟩) rfl ?_ ?_
      · intro c hmem
        exact hc c ((State.mem_callees_cons.mp hmem).resolve_left nofun)
      · rintro m rfl rfl hm
        exact .topStmt hstmt hm
  | _ => exact callStep_push hu hc rfl _

theorem callStep_resume {v : Word} {p : Pending} {rest : List Pending}
    (hcontrol : s.control = .value v) (hpending : s.pending = p :: rest) :
    CallStep setting s (resume setting { s with pending := rest } v p) := by
  have hu : (State.mk s.control rest s.store).store.stack = s.store.stack := rfl
  have hc := mem_callees_of_tail hpending s.control
  cases p with
  | rightOperand op right => exact callStep_push hu hc rfl _
  | combine op left => exact callStep_yield hu hc _
  | indexOf index | assignIndexOf index value =>
      unfold resume
      dsimp only
      split
      · exact callStep_goto hu hc _
      · exact callStep_push hu hc rfl _
  | readAt ref => exact callStep_yield hu hc _
  | measure => exact callStep_yield hu hc _
  | makeArray elem =>
      unfold resume
      dsimp only
      split
      · exact callStep_goto hu hc _
      · exact callStep_keeps hu hc rfl rfl
  | receive name args wantsValue =>
      refine callStep_receive hu hc rfl ?_
      rintro o rfl hne ho
      exact .received hcontrol hpending hne ho
  | argument c evaluated args =>
      refine callStep_evalArgs hu hc (.inl ?_) ?_
      · rw [State.callees, hpending]
        exact List.mem_filterMap.mpr ⟨_, List.mem_cons_self, rfl⟩
      · rintro rfl
        exact .lastArgument hcontrol hpending
  | constructed className ref => exact callStep_constructed hu hc className ref
  | result =>
      exact .passes (fun c hmem => .inl (hc c hmem)) (CallStack.depth_pop_le _)
  | test cond body =>
      unfold resume
      dsimp only
      split
      · exact callStep_push hu hc rfl _
      · exact callStep_goto hu hc _
  | print => exact callStep_print hu hc v
  | assign var => exact callStep_writeVar hu hc var v
  | assignValueOf ref value => exact callStep_push hu hc rfl _
  | writeAt ref index => exact callStep_writeAt hu hc ref index v
  | _ => exact callStep_goto hu hc _

theorem callStep_proceed {p : Pending} {rest : List Pending} (hpending : s.pending = p :: rest) :
    CallStep setting s (proceed { s with pending := rest } p) := by
  have hu : (State.mk s.control rest s.store).store.stack = s.store.stack := rfl
  have hc := mem_callees_of_tail hpending s.control
  unfold proceed
  split
  · exact callStep_goto hu hc _
  · exact callStep_push hu hc rfl _
  · exact .passes (fun c hmem => .inl (hc c hmem)) (CallStack.depth_pop_le _)
  · exact callStep_push hu hc rfl _
  · exact callStep_goto hu hc _

theorem callStep_unwind (f : Failure) {p : Pending} {rest : List Pending}
    (hpending : s.pending = p :: rest) :
    CallStep setting s (unwind { s with pending := rest } f p) := by
  have hu : (State.mk s.control rest s.store).store.stack = s.store.stack := rfl
  have hc := mem_callees_of_tail hpending s.control
  unfold unwind
  split
  · exact callStep_goto hu hc _
  · exact callStep_goto hu hc _
  · exact .passes (fun c hmem => .inl (hc c hmem)) (CallStack.depth_pop_le _)
  · exact .passes (fun c hmem => .inl (hc c hmem)) (CallStack.depth_pop_le _)
  · exact callStep_goto hu hc _

theorem callStep_step (setting : Setting) (s : State) : CallStep setting s (step setting s) := by
  have hstays : CallStep setting s s := .passes (fun c hmem => .inl hmem) (Nat.le_refl _)
  unfold step
  split
  · next e he => exact callStep_eval he
  · next stmts hstmts =>
      cases stmts with
      | nil => exact callStep_goto rfl (fun _ h => h) _
      | cons stmt rest => exact callStep_exec hstmts
  · next v hv =>
      split
      · exact hstays
      · next p rest hpending => exact callStep_resume hv hpending
  · split
    · exact hstays
    · next p rest hpending => exact callStep_proceed hpending
  · next f _ =>
      split
      · exact hstays
      · next p rest hpending => exact callStep_unwind f hpending

/-- Entering a routine fails with a fault and keeps the frames, or adds a frame for the routine on its
receiver. -/
theorem enter_cases (u : State) (m : Method) (self : Word) (args : List Word) (wantsValue : Bool) :
    let t := enter u m self args wantsValue
    t.store.heap = u.store.heap ∧ t.callees = u.callees ∧
      ((t.store.stack = u.store.stack ∧ ∃ f, t.control = .failed (.fault f)) ∨
        ∃ f, t.store.stack.live = f :: u.store.stack.live ∧ f.routine = m.qualified ∧
          f.self = self) := by
  unfold enter
  dsimp only
  split
  · exact ⟨rfl, rfl, .inl ⟨rfl, _, rfl⟩⟩
  · split
    · exact ⟨rfl, rfl, .inl ⟨rfl, _, rfl⟩⟩
    · split
      · exact ⟨rfl, rfl, .inl ⟨rfl, _, rfl⟩⟩
      · next stack hpush =>
          obtain ⟨-, -, hlive⟩ := CallStack.push_ok hpush
          exact ⟨rfl, rfl, .inr ⟨_, hlive, rfl, rfl⟩⟩

/-- Running a callee fails with a fault and keeps the frames, or adds a frame for its method on its
receiver. -/
theorem call_cases (setting : Setting) (u : State) (args : List Word) (c : Callee) :
    let t := call setting u args c
    t.store.heap = u.store.heap ∧ t.callees = u.callees ∧
      ((t.store.stack = u.store.stack ∧ ∃ f, t.control = .failed (.fault f)) ∨
        ∃ m f, c.method? setting.table = some m ∧
          t.store.stack.live = f :: u.store.stack.live ∧ f.routine = m.qualified ∧
          f.self = c.self) := by
  cases c with
  | routine m self wantsValue =>
      obtain ⟨hheap, hcallees, hstack⟩ := enter_cases u m self args wantsValue
      refine ⟨hheap, hcallees, hstack.imp_right ?_⟩
      rintro ⟨f, hlive, hroutine, hself⟩
      exact ⟨m, f, rfl, hlive, hroutine, hself⟩
  | method className name self wantsValue =>
      unfold call
      dsimp only
      split
      · exact ⟨rfl, rfl, .inl ⟨rfl, _, rfl⟩⟩
      · next m hm =>
          obtain ⟨hheap, hcallees, hstack⟩ := enter_cases u m self args wantsValue
          refine ⟨hheap, hcallees, hstack.imp_right ?_⟩
          rintro ⟨f, hlive, hroutine, hself⟩
          exact ⟨m, f, hm, hlive, hroutine, hself⟩

/-- The step that runs a callee calls it with the stack of before. -/
theorem step_of_calls (setting : Setting) {c : Callee} {args : List Word} (h : s.Calls setting.table c args) :
    ∃ u, u.store.stack = s.store.stack ∧ s.Knows setting.table u.store.heap c ∧
      step setting s = call setting u args c := by
  obtain ⟨control, pending, store⟩ := s
  cases h with
  | topExpr hcontrol hm | topStmt hcontrol hm =>
      cases hcontrol
      simp only [step, execAll, exec, eval, startCall, callTop, hm, evalArgs, List.reverse_nil]
      exact ⟨_, rfl, .inr (.top hm), rfl⟩
  | constructor hcontrol hcount hm =>
      cases hcontrol
      simp only [step, eval, construct, hcount, hm, evalArgs, List.reverse_nil]
      exact ⟨_, rfl, .inr (.constructor hcount hm rfl), rfl⟩
  | received hcontrol hpending hne ho =>
      cases hcontrol
      cases hpending
      simp only [step, resume, receive, if_neg hne, ho, evalArgs, List.reverse_nil]
      exact ⟨_, rfl, .inr (.received ho), rfl⟩
  | lastArgument hcontrol hpending =>
      rename_i v evaluated rest
      cases hcontrol
      cases hpending
      exact ⟨⟨.value v, rest, store⟩, rfl, .inl (State.mem_callees_cons.mpr (.inl rfl)), rfl⟩

/-- A method call on what is no object fails. -/
theorem step_receive_none {ref : Word} {name : String} {args : List Expr} {wantsValue : Bool}
    {rest : List Pending} (hcontrol : s.control = .value ref)
    (hpending : s.pending = .receive name args wantsValue :: rest)
    (hnone : ∀ o, s.store.heap.deref ref ≠ .ok o) :
    ∃ f, (step setting s).control = .failed (.fault f) := by
  obtain ⟨control, pending, store⟩ := s
  cases hcontrol
  cases hpending
  simp only [step, resume, receive]
  split
  · exact ⟨_, rfl⟩
  · split
    · exact ⟨_, rfl⟩
    · next o ho => exact absurd ho (hnone o)

/-- Whatever waits to be called is sound. -/
def SoundCallees (table : ClassTable) (s : State) : Prop :=
  ∀ c ∈ s.callees, c.Sound table s.store.heap

theorem sound_of_knows (setting : Setting) (howned : setting.table.Owned) (h : SoundCallees setting.table s) {heap : Heap}
    (hstep : Heap.Step setting.table s.store.heap heap) {c : Callee}
    (hknows : s.Knows setting.table heap c) : c.Sound setting.table heap := by
  rcases hknows with hmem | hmade
  · exact (h c hmem).grow hstep
  · exact hmade.sound howned hstep

theorem soundCallees_step (setting : Setting) (howned : setting.table.Owned) (h : SoundCallees setting.table s) :
    SoundCallees setting.table (step setting s) := by
  have hheap := (grows_step setting s).heap
  intro c hmem
  cases callStep_step setting s with
  | passes hcallees => exact sound_of_knows setting howned h hheap (hcallees c hmem)
  | @runs c' args u _ _ _ hcallees heq =>
      obtain ⟨-, hsame, -⟩ := call_cases setting u args c'
      rw [heq, hsame] at hmem
      exact (h c (hcallees c hmem)).grow hheap

end Machine

/-! ### The frames of a run -/

namespace Interpreter

variable {limit : Int} {sink : Sink} {tracing : Bool} {table : ClassTable}
  {commands : List Command} {s : State}

theorem Runs.soundCallees (howned : table.Owned)
    (h : ((fresh limit sink tracing).bind table).Runs commands s) :
    Machine.SoundCallees table s := by
  obtain ⟨_, stack, ⟨⟩, -, hreaches⟩ := h
  exact hreaches.invariant (P := Machine.SoundCallees table)
    (fun _ hu => Machine.soundCallees_step ⟨table, sink, tracing⟩ howned hu) nofun

/-- What a run calls is sound once it is called. -/
theorem Runs.sound_of_calls (howned : table.Owned)
    (h : ((fresh limit sink tracing).bind table).Runs commands s) {c : Callee} {args : List Word}
    (hcalls : s.Calls table c args) :
    c.Sound table (Machine.step ⟨table, sink, tracing⟩ s).store.heap := by
  obtain ⟨u, -, hknows, heq⟩ :=
    Machine.step_of_calls ⟨table, sink, tracing⟩ hcalls
  have hheap := (Machine.grows_step ⟨table, sink, tracing⟩ s).heap
  rw [heq, (Machine.call_cases ⟨table, sink, tracing⟩ u args c).1] at hheap ⊢
  exact Machine.sound_of_knows ⟨table, sink, tracing⟩ howned
    (h.soundCallees howned) hheap hknows

/-- The frame at a height was added to run a callee in a run of commands, and has been live since. -/
inductive Activation (i : Interpreter) (table : ClassTable) (commands : List Command) (height : Nat)
    (c : Callee) : State → Prop
  | entered {s : State} {args : List Word} (hruns : i.Runs commands s)
      (hcalls : s.Calls table c args) (hbefore : s.store.stack.depth < height)
      (hafter : (Machine.step ⟨table, i.sink, i.tracing⟩ s).store.stack.depth = height) :
      Activation i table commands height c (Machine.step ⟨table, i.sink, i.tracing⟩ s)
  | passed {s : State} (h : Activation i table commands height c s)
      (hlive : height ≤ (Machine.step ⟨table, i.sink, i.tracing⟩ s).store.stack.depth) :
      Activation i table commands height c (Machine.step ⟨table, i.sink, i.tracing⟩ s)

namespace Activation

variable {height : Nat} {c : Callee}

theorem runs {i : Interpreter} (htable : i.table = some table)
    (h : Activation i table commands height c s) : i.Runs commands s := by
  induction h with
  | entered hruns => exact hruns.step htable
  | passed _ _ ih => exact ih.step htable

/-- The callee of a live frame stays sound. -/
theorem sound (howned : table.Owned)
    (h : Activation ((fresh limit sink tracing).bind table) table commands height c s) :
    c.Sound table s.store.heap := by
  induction h with
  | entered hruns hcalls => exact hruns.sound_of_calls howned hcalls
  | passed _ _ ih =>
      exact ih.grow (Machine.grows_step ⟨table, sink, tracing⟩ _).heap

/-- The frame of an activation belongs to the method of its callee and runs on its receiver. -/
theorem frame (hlaid : table.LaidOut)
    (h : Activation ((fresh limit sink tracing).bind table) table commands height c s) :
    ∃ m above f below, c.method? table = some m ∧ s.store.stack.live = above ++ f :: below ∧
      below.length + 1 = height ∧ below.length ≠ 0 ∧ f.routine = m.qualified ∧ f.self = c.self := by
  induction h with
  | @entered s args hruns hcalls hbefore hafter =>
      obtain ⟨u, hstack, -, heq⟩ :=
        Machine.step_of_calls ⟨table, sink, tracing⟩ hcalls
      have hstep : Machine.step ⟨table, sink, tracing⟩ s =
        Machine.call ⟨table, sink, tracing⟩ u args c := heq
      obtain ⟨k, hready, -⟩ := hruns.checked hlaid
      have hfloor : 1 ≤ s.store.stack.live.length := hready.pending.floor_le
      obtain ⟨-, -, ⟨hkept, -⟩ | ⟨m, f, hm, hlive, hroutine, hself⟩⟩ :=
        Machine.call_cases ⟨table, sink, tracing⟩ u args c
      · change (Machine.step ⟨table, sink, tracing⟩ s).store.stack.depth = height at hafter
        rw [hstep, hkept, hstack] at hafter
        omega
      · change (Machine.step ⟨table, sink, tracing⟩ s).store.stack.depth = height at hafter
        change ∃ m above f below, _ ∧
          (Machine.step ⟨table, sink, tracing⟩ s).store.stack.live = above ++ f :: below ∧ _
        rw [hstack] at hlive
        rw [hstep, CallStack.depth_eq, hlive, List.length_cons] at hafter
        rw [hstep]
        exact ⟨m, [], f, s.store.stack.live, hm, hlive, hafter, by omega, hroutine, hself⟩
  | @passed s h hstays ih =>
      obtain ⟨m, above, f, below, hm, hlive, hheight, hbelow, hroutine, hself⟩ := ih
      have hruns := h.runs rfl
      change height ≤ (Machine.step ⟨table, sink, tracing⟩ s).store.stack.depth at hstays
      change ∃ m above f below, _ ∧
        (Machine.step ⟨table, sink, tracing⟩ s).store.stack.live = above ++ f :: below ∧ _
      rw [CallStack.depth_eq] at hstays
      rcases Machine.live_step ⟨table, sink, tracing⟩ s with hnext | hnext | ⟨g, hnext, -⟩ | ⟨place, value, hassigns⟩
      · exact ⟨m, above, f, below, hm, hnext.trans hlive, hheight, hbelow, hroutine, hself⟩
      · rw [hlive] at hnext
        cases above with
        | nil =>
            rw [hnext, List.nil_append, List.tail_cons] at hstays
            omega
        | cons a above =>
            exact ⟨m, above, f, below, hm, hnext, hheight, hbelow, hroutine, hself⟩
      · exact ⟨m, g :: above, f, below, hm, by rw [hnext, hlive, List.cons_append], hheight, hbelow,
          hroutine, hself⟩
      · obtain ⟨top, rest, htop, -, hnext⟩ :=
          Machine.live_of_assigns ⟨table, sink, tracing⟩ hassigns
        cases above with
        | nil =>
            obtain ⟨rfl, rfl⟩ := List.cons_eq_cons.mp (hlive.symm.trans htop)
            obtain ⟨v, pending, offset, hcontrol, hpending, hslot, hplace⟩ := hassigns
            obtain ⟨hhas, -⟩ := (hruns.accesses hlaid hlive
              (.inr ⟨value, pending, hcontrol, hpending⟩)).2 hbelow
            rw [CallStack.place_eq htop] at hplace
            have hother := Frame.place?_ne_self (Frame.place?_of_place hplace) (hhas offset hslot).1
            have hshape := Frame.sameShape_store f value hother
            exact ⟨m, [], _, below, hm, hnext, hheight, hbelow, hshape.routine.trans hroutine,
              hshape.self.trans hself⟩
        | cons a above =>
            obtain ⟨rfl, rfl⟩ := List.cons_eq_cons.mp (htop.symm.trans hlive)
            exact ⟨m, top.store value place :: above, f, below, hm, hnext, hheight, hbelow, hroutine,
              hself⟩

end Activation

/-- Every frame above that of the commands was added to run a callee. -/
theorem Runs.activation (h : ((fresh limit sink tracing).bind table).Runs commands s) {height : Nat}
    (hlow : 1 < height) (hlive : height ≤ s.store.stack.depth) :
    ∃ c, Activation ((fresh limit sink tracing).bind table) table commands height c s := by
  let i := (fresh limit sink tracing).bind table
  obtain ⟨_, stack, ⟨⟩, hpush, hreaches⟩ := id h
  obtain ⟨-, -, hroot⟩ := CallStack.push_ok hpush
  refine (hreaches.invariant (P := fun u => i.Runs commands u ∧
    (height ≤ u.store.stack.depth → ∃ c, Activation i table commands height c u)) ?_ ?_).2 hlive
  · rintro u ⟨hruns, hu⟩
    refine ⟨hruns.step rfl, fun hnext => ?_⟩
    rcases Nat.lt_or_ge u.store.stack.depth height with hlt | hge
    · have hle := Machine.depth_step_le ⟨table, sink, tracing⟩ u
      have hafter := Nat.le_antisymm (Nat.le_trans hle hlt) hnext
      cases Machine.callStep_step ⟨table, sink, tracing⟩ u with
      | passes _ hdepth => exact absurd (Nat.le_trans hnext hdepth) (Nat.not_le.mpr hlt)
      | runs hcalls => exact ⟨_, .entered hruns hcalls hlt hafter⟩
    · obtain ⟨c, hc⟩ := hu hge
      exact ⟨c, .passed hc hnext⟩
  · refine ⟨⟨table, stack, rfl, hpush, .refl _⟩, fun hstart => ?_⟩
    have hone : stack.depth = 1 := by
      rw [CallStack.depth_eq, hroot]
      rfl
    exact absurd (Nat.le_trans hstart (Nat.le_of_eq hone)) (Nat.not_le.mpr hlow)

end Interpreter

/-- **Dispatch gives a method a receiver of its class.** In every run of a placed program, each frame
above that of the commands was added to run a callee and has been live since. Where it runs a method
of a class, it runs on an object whose type has the class among its ancestors, as long as addresses
fit; and this is an instance, unless the frame was added by a method call on that very object. A method
call that finds no object, or no method in the type of the object, fails with a fault; the method of
a class that it finds belongs to an ancestor of that type. -/
theorem dispatch_gives_receiver_of_class {p : Program} (hdiagnostics : (ClassTable.build p).2 = [])
    (herrors : p.layoutErrors (ClassTable.build p).1 = []) (limit : Int) (sink : Sink)
    (tracing : Bool) :
    let i := Interpreter.fresh limit sink tracing
    let table := (ClassTable.build (p.place (ClassTable.build p).1)).1
    let next := Machine.step ⟨table, sink, tracing⟩
    (∀ steps, i.evaluate steps false (some p) = (i.bind table).runCommands steps p.commands) ∧
    ∀ s, (i.bind table).Runs p.commands s →
      (∀ height, 1 < height → height ≤ s.store.stack.depth →
        ∃ c, (i.bind table).Activation table p.commands height c s) ∧
      (∀ height c, (i.bind table).Activation table p.commands height c s →
        ∃ m above f below, c.method? table = some m ∧ s.store.stack.live = above ++ f :: below ∧
          below.length + 1 = height ∧ f.routine = m.qualified ∧ f.self = c.self ∧
          (m.owner ≠ "" → s.store.heap.size < 2 ^ 31 →
            ∃ o, s.store.heap.deref f.self = .ok o ∧ table.Inherits o.type m.owner ∧
              (o.kind = .classInstance ∨
                ∃ name wantsValue, c = .method o.type name f.self wantsValue))) ∧
      (∀ ref name args wantsValue rest, s.control = .value ref →
        s.pending = .receive name args wantsValue :: rest →
        (∀ o, s.store.heap.deref ref ≠ .ok o) → ∃ f, (next s).control = .failed (.fault f)) ∧
      ∀ type name self wantsValue args, s.Calls table (.method type name self wantsValue) args →
        (∃ o, (next s).store.heap.deref self = .ok o ∧ o.type = type) ∧
        (table.lookup? type name = none →
          ∃ f, (next s).control = .failed (.fault f) ∧ f.kind = .unresolvedDispatch) ∧
        ∀ m, table.lookup? type name = some m → m.owner ≠ "" → table.Inherits type m.owner := by
  have hlaid := ClassTable.laidOut_place herrors
  intro i table next
  refine ⟨fun steps => i.evaluate_placed hdiagnostics herrors steps, fun s hs => ⟨?_, ?_, ?_, ?_⟩⟩
  · intro height hlow hlive
    exact hs.activation hlow hlive
  · intro height c hc
    obtain ⟨m, above, f, below, hm, hlive, hheight, -, hroutine, hself⟩ := hc.frame hlaid
    refine ⟨m, above, f, below, hm, hlive, hheight, hroutine, hself, fun howner hsmall => ?_⟩
    rw [hself]
    exact (hc.sound hlaid.owned).receiver hlaid.owned hsmall hm howner
  · intro ref name args wantsValue rest hcontrol hpending hnone
    exact Machine.step_receive_none hcontrol hpending hnone
  · intro type name self wantsValue args hcalls
    refine ⟨hs.sound_of_calls hlaid.owned hcalls, fun hnone => ?_, fun m hm howner => ?_⟩
    · obtain ⟨u, -, -, hstep⟩ :=
        Machine.step_of_calls ⟨table, sink, tracing⟩ hcalls
      change ∃ f, (Machine.step ⟨table, sink, tracing⟩ s).control = _ ∧ _
      rw [hstep, Machine.call]
      dsimp only
      rw [hnone]
      exact ⟨_, rfl, rfl⟩
    · exact (hlaid.owned.owner_of_lookup? hm).resolve_left howner

def Program.placedTable (p : Program) : ClassTable :=
  (ClassTable.build (p.place (ClassTable.build p).1)).1

/-- The state that the commands of a program come to in some steps. -/
def Program.stateAfter (p : Program) (steps : Nat) : State :=
  (Machine.step ⟨p.placedTable, .unlimited, false⟩)^[steps]
    ⟨.stmts (p.commands.map Command.toStmt), [],
      { Store.fresh 10 with stack := ⟨10, #[⟨"", 0, #[], #[]⟩]⟩ }⟩

theorem Program.runs_stateAfter (p : Program) (steps : Nat) :
    ((Interpreter.fresh 10 .unlimited false).bind p.placedTable).Runs p.commands
      (p.stateAfter steps) :=
  ⟨_, ⟨10, #[⟨"", 0, #[], #[]⟩]⟩, rfl, rfl, steps, rfl⟩

theorem dispatch_gives_receiver_of_account :
    ∃ o, ((Interpreter.fresh 10 .unlimited false).bind accountProgram.placedTable).Activation
        accountProgram.placedTable accountProgram.commands 3 (.method "Account" "spend" 1 true)
        (accountProgram.stateAfter 27) ∧
      (accountProgram.stateAfter 27).store.heap.deref 1 = .ok o ∧
      accountProgram.placedTable.Inherits o.type "Account" := by
  have hactive : ((Interpreter.fresh 10 .unlimited false).bind
      accountProgram.placedTable).Activation accountProgram.placedTable accountProgram.commands 3
      (.method "Account" "spend" 1 true) (accountProgram.stateAfter 27) := by
    refine .entered (s := accountProgram.stateAfter 26) (accountProgram.runs_stateAfter 26)
      (.lastArgument (v := 4) rfl rfl) ?_ ?_
    · decide +kernel
    · decide +kernel
  obtain ⟨-, hsound⟩ := dispatch_gives_receiver_of_class (p := accountProgram) (by decide +kernel)
    (by decide +kernel) 10 .unlimited false
  obtain ⟨-, hreceiver, -⟩ := hsound _ (accountProgram.runs_stateAfter 27)
  obtain ⟨m, above, f, below, hm, -, -, -, hself, hobject⟩ := hreceiver 3 _ hactive
  have howner : (accountProgram.placedTable.lookup? "Account" "spend").map (·.owner) =
      some "Account" := by decide +kernel
  rw [show accountProgram.placedTable.lookup? "Account" "spend" = some m from hm] at howner
  have howner : m.owner = "Account" := Option.some.inj howner
  obtain ⟨o, ho, htype, -⟩ := hobject (by rw [howner]; decide) (by decide +kernel)
  rw [hself] at ho
  rw [howner] at htype
  exact ⟨o, hactive, ho, htype⟩

/-- A class with a field and a method that sets it, and a routine that calls the method on an array of
the class. -/
def cellProgram : Program :=
  let named (name : String) : Var := ⟨.unknown, name, .unresolved⟩
  let read (name : String) : Expr := .var .unknown (named name)
  let fill : Routine := ⟨.unknown, "fill", true, [], true,
    [.assign .unknown (named "content") (.integer .unknown 7)], none, 0⟩
  let cell : ClassDecl :=
    ⟨.unknown, "Cell", "", true, [⟨.unknown, .missing, "content"⟩], true, [some fill]⟩
  let main : Routine := ⟨.unknown, "main", true, [], true,
    [.declare .unknown .missing "cells",
      .assign .unknown (named "cells")
        (.newArray .unknown (.named .unknown "Cell") (.integer .unknown 1)),
      .call .unknown (read "cells") "fill" true [],
      .output .unknown (.index .unknown (read "cells") (.integer .unknown 0))], none, 0⟩
  ⟨.unknown, true, [some main], true, [some cell], true, [.call .unknown "main" true []]⟩

/-- The method of the class runs on the array, and its field is the first element. -/
theorem method_runs_on_array :
    ((Interpreter.fresh 10 .unlimited false).bind cellProgram.placedTable).Activation
        cellProgram.placedTable cellProgram.commands 3 (.method "Cell" "fill" 1 false)
        (cellProgram.stateAfter 15) ∧
      (cellProgram.placedTable.lookup? "Cell" "fill").map (·.owner) = some "Cell" ∧
      (cellProgram.stateAfter 15).store.heap.deref 1 = .ok ⟨.array, "Cell", #[0]⟩ ∧
      ((Interpreter.fresh 10 .unlimited false).evaluate 100 false (some cellProgram)).2 = .finished ∧
      ((Interpreter.fresh 10 .unlimited false).evaluate 100 false
        (some cellProgram)).1.store.printed = #[7] := by
  refine ⟨.entered (s := cellProgram.stateAfter 14) (cellProgram.runs_stateAfter 14)
    (.received (o := ⟨.array, "Cell", #[0]⟩) rfl rfl ?_ ?_) ?_ ?_, ?_, ?_, ?_, ?_⟩
  all_goals decide +kernel

end ObjectLang
