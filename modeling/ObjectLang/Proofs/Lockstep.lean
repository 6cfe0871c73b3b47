import ObjectLang.Proofs.FaultTrace
import ObjectLang.Proofs.HeapGrowth

/-! Two runs in step. The limit of the stack is read only where a frame is added, and what is traced
is never read. So two runs that differ in these go through the same states, the limits and the traced
lines apart, until the one with less room finds no room for a frame. A failure that has begun is only
passed on, up to the end of the run. -/

namespace ObjectLang

/-- Two iterations stay together, or there is a first step in which they part. -/
theorem iterate_together {α β : Type} {f : α → α} {g : β → β} {R E : α → β → Prop}
    (hstep : ∀ a b, R a b → R (f a) (g b) ∨ E a b) {a : α} {b : β} (hab : R a b) (n : Nat) :
    R (f^[n] a) (g^[n] b) ∨ ∃ m < n, R (f^[m] a) (g^[m] b) ∧ E (f^[m] a) (g^[m] b) := by
  induction n with
  | zero => exact .inl hab
  | succ n ih =>
      rw [Function.iterate_succ_apply', Function.iterate_succ_apply']
      rcases ih with htogether | ⟨m, hm, hparted⟩
      · rcases hstep _ _ htogether with hnext | hparts
        · exact .inl hnext
        · exact .inr ⟨n, Nat.lt_succ_self n, htogether, hparts⟩
      · exact .inr ⟨m, Nat.lt_succ_of_lt hm, hparted⟩

theorem Failure.mapFault_of_plain (change : Fault → Fault) {failure : Failure}
    (h : failure.fault? = none) : failure.mapFault change = failure := by
  induction failure with
  | plain text => rfl
  | fault f => cases h
  | headed text cause ih => rw [mapFault, ih h]

namespace Machine

section Failures

variable (setting : Setting)

theorem step_failed (failure : Failure) (p : Pending) (rest : List Pending) (store : Store) :
    ∃ failure' stack, step setting ⟨.failed failure, p :: rest, store⟩ =
        ⟨.failed failure', rest, { store with stack := stack }⟩ ∧
      (failure.fault? = none → failure' = failure) := by
  cases p with
  | locate span | next span body => exact ⟨_, _, rfl, Failure.mapFault_of_plain _⟩
  | result | activation value => exact ⟨_, _, rfl, Failure.mapFault_of_plain _⟩
  | _ => exact ⟨_, _, rfl, fun _ => rfl⟩

/-- A failure takes one thing after the other off what is pending, and changes only the stack; one
without a fault stays as it is. -/
theorem iterate_failed (failure : Failure) (pending : List Pending) (store : Store) (n : Nat) :
    ∃ failure' stack, (step setting)^[n] ⟨.failed failure, pending, store⟩ =
        ⟨.failed failure', pending.drop n, { store with stack := stack }⟩ ∧
      (failure.fault? = none → failure' = failure) := by
  induction n generalizing failure pending store with
  | zero => exact ⟨failure, store.stack, rfl, fun _ => rfl⟩
  | succ n ih =>
      rw [Function.iterate_succ_apply]
      cases pending with
      | nil =>
          have hnil := ih failure [] store
          rw [List.drop_nil] at hnil ⊢
          exact hnil
      | cons p rest =>
          obtain ⟨failure', stack, hstep, hplain⟩ := step_failed setting failure p rest store
          obtain ⟨failure'', stack', hrest, hplain'⟩ := ih failure' rest { store with stack := stack }
          rw [hstep]
          refine ⟨failure'', stack', hrest, fun hnone => ?_⟩
          rw [hplain' (by rw [hplain hnone]; exact hnone), hplain hnone]

/-- A failure without a fault takes as many steps to its end as there are things pending. -/
theorem run_plain {failure : Failure} (hplain : failure.fault? = none) {pending : List Pending}
    (store : Store) {n : Nat} (hn : pending.length ≤ n) :
    ∃ stack, run setting n ⟨.failed failure, pending, store⟩ =
      some ⟨.failed failure, [], { store with stack := stack }⟩ := by
  obtain ⟨_, stack, hend, hkept⟩ := iterate_failed setting failure pending store n
  obtain rfl := hkept hplain
  rw [List.drop_of_length_le hn] at hend
  exact ⟨stack, run_eq_some_iff.mpr ⟨hend, rfl⟩⟩

end Failures

end Machine

/-- The state with another limit and other lines traced. -/
def State.recast (limit : Nat) (traced : Array String) (s : State) : State :=
  { s with store := { s.store with stack := { s.store.stack with limit := limit }, traced := traced } }

namespace State

variable (limit : Nat) (traced : Array String) (s : State)

theorem recast_heap : (s.recast limit traced).store.heap = s.store.heap := rfl

theorem recast_read (offset : Int) :
    (s.recast limit traced).store.stack.read offset = s.store.stack.read offset := rfl

theorem recast_place (offset : Int) :
    (s.recast limit traced).store.stack.place offset = s.store.stack.place offset := rfl

theorem recast_printed : (s.recast limit traced).store.printed = s.store.printed := rfl

/-- The states of two runs: they are the same but for the limit and, unless the two runs trace the
same, the traced lines. -/
def Alike (limit : Nat) (same : Prop) (s t : State) : Prop :=
  ∃ traced, t = s.recast limit traced ∧ (same → traced = s.store.traced)

/-- The first of two runs has just failed for want of room for a frame, and the second has a greater
limit. -/
structure Parted (limit : Nat) (same : Prop) (s t : State) : Prop where
  room : s.store.stack.limit < limit
  control : ∃ text, s.control = .failed (.fault (.raise .stackOverflow text))
  printed : t.store.printed = s.store.printed
  traced : same → t.store.traced = s.store.traced

/-- Two runs are still together, or have just parted. -/
def Together (limit : Nat) (same : Prop) (s t : State) : Prop :=
  Alike limit same s t ∨ Parted limit same s t

end State

/-- With more room a frame is added as before. -/
theorem CallStack.push_of_le {s t : CallStack} {routine : String} {self : Word}
    {params : List Word} {slots : Int} (h : s.push routine self params slots = .ok t) {limit : Nat}
    (hlimit : s.limit ≤ limit) :
    { s with limit := limit }.push routine self params slots = .ok { t with limit := limit } := by
  have hroom : s.depth < s.limit := (push_ok h).1
  rw [push, if_pos hroom] at h
  cases h
  exact if_pos (Nat.lt_of_lt_of_le hroom hlimit)

namespace Machine

open State (Together)

section Together

variable {setting : Setting} {tracing : Bool} {limit : Nat} {traced : Array String} {s : State}
  (hlimit : s.store.stack.limit ≤ limit)
  (htraced : setting.tracing = tracing → traced = s.store.traced)
include htraced

theorem together_goto (control : Control) :
    Together limit (setting.tracing = tracing) (s.goto control)
      ((s.recast limit traced).goto control) := .inl ⟨traced, rfl, htraced⟩

theorem together_push (p : Pending) (control : Control) :
    Together limit (setting.tracing = tracing) (s.push p control)
      ((s.recast limit traced).push p control) := .inl ⟨traced, rfl, htraced⟩

theorem together_yield (r : Except Fault Word) :
    Together limit (setting.tracing = tracing) (s.yield r) ((s.recast limit traced).yield r) := by
  cases r <;> exact .inl ⟨traced, rfl, htraced⟩

theorem together_writeVar (v : Var) (value : Word) :
    Together limit (setting.tracing = tracing) (writeVar s v value)
      (writeVar (s.recast limit traced) v value) := by
  unfold writeVar
  cases v.slot with
  | unresolved => exact .inl ⟨traced, rfl, htraced⟩
  | frame offset =>
      simp only [State.recast_place]
      split <;> exact .inl ⟨traced, rfl, htraced⟩
  | field offset =>
      simp only [State.recast_read, State.recast_heap]
      split <;> exact .inl ⟨traced, rfl, htraced⟩

theorem together_writeAt (ref index value : Word) :
    Together limit (setting.tracing = tracing) (writeAt s ref index value)
      (writeAt (s.recast limit traced) ref index value) := by
  unfold writeAt
  simp only [State.recast_heap]
  split <;> exact .inl ⟨traced, rfl, htraced⟩

theorem together_print (value : Word) :
    Together limit (setting.tracing = tracing) (print setting s value)
      (print { setting with tracing := tracing } (s.recast limit traced) value) := by
  unfold print
  cases setting.sink with
  | unlimited => exact .inl ⟨traced, rfl, htraced⟩
  | limited capacity complaint =>
      simp only [State.recast_printed]
      by_cases hroom : s.store.printed.size < capacity
      · simp only [hroom, if_true]
        exact .inl ⟨traced, rfl, htraced⟩
      · simp only [hroom, if_false]
        exact .inl ⟨traced, rfl, htraced⟩

theorem together_constructed (className : String) (ref : Word) :
    Together limit (setting.tracing = tracing) (constructed setting s className ref)
      (constructed { setting with tracing := tracing } (s.recast limit traced) className ref) := by
  by_cases hsame : setting.tracing = tracing
  · subst hsame
    obtain rfl : traced = s.store.traced := htraced rfl
    unfold constructed
    simp only [State.recast_heap]
    split
    · split <;> exact .inl ⟨_, rfl, fun _ => rfl⟩
    · exact .inl ⟨_, rfl, fun _ => rfl⟩
  · obtain ⟨left, hleft⟩ := constructed_eq setting s className ref
    obtain ⟨right, hright⟩ :=
      constructed_eq { setting with tracing := tracing } (s.recast limit traced) className ref
    rw [hleft, hright]
    exact .inl ⟨right, rfl, fun h => absurd h hsame⟩

include hlimit

/-- Only where a frame is added does the limit matter. -/
theorem together_enter (m : Method) (self : Word) (args : List Word) (wantsValue : Bool) :
    Together limit (setting.tracing = tracing) (enter s m self args wantsValue)
      (enter (s.recast limit traced) m self args wantsValue) := by
  unfold enter
  dsimp only
  split
  · exact together_goto htraced _
  · split
    · exact together_goto htraced _
    · cases hpush : s.store.stack.push m.qualified self args m.decl.stackSlots with
      | ok stack =>
          rw [show (s.recast limit traced).store.stack.push m.qualified self args m.decl.stackSlots =
            _ from CallStack.push_of_le hpush hlimit]
          exact .inl ⟨traced, rfl, htraced⟩
      | error f =>
          rcases Nat.lt_or_eq_of_le hlimit with hroom | rfl
          · have hraise := (CallStack.push_error hpush).2
            refine .inr ⟨hroom, ⟨f.text, by rw [← hraise]; rfl⟩, ?_, fun hsame => ?_⟩
            · split <;> rfl
            · split <;> exact htraced hsame
          · rw [show (s.recast s.store.stack.limit traced).store.stack.push m.qualified self args
              m.decl.stackSlots = _ from hpush]
            exact together_goto htraced _

theorem together_evalArgs (callee : Callee) (evaluated : List Word) (args : List Expr) :
    Together limit (setting.tracing = tracing) (evalArgs setting s callee evaluated args)
      (evalArgs { setting with tracing := tracing } (s.recast limit traced) callee evaluated args) := by
  cases args with
  | cons e rest => exact together_push htraced _ (.expr e)
  | nil =>
      cases callee with
      | routine m self wantsValue => exact together_enter hlimit htraced m self _ wantsValue
      | method className name self wantsValue =>
          unfold evalArgs call
          dsimp only
          split
          · exact together_goto htraced _
          · exact together_enter hlimit htraced _ self _ wantsValue

theorem together_startCall (receiver : Expr) (name : String) (args : List Expr)
    (wantsValue : Bool) :
    Together limit (setting.tracing = tracing) (startCall setting s receiver name args wantsValue)
      (startCall { setting with tracing := tracing } (s.recast limit traced) receiver name args
        wantsValue) := by
  cases receiver with
  | missing =>
      unfold startCall callTop
      dsimp only
      split
      · exact together_goto htraced _
      · exact together_evalArgs hlimit htraced _ [] args
  | _ => exact together_push htraced _ _

theorem together_receive (ref : Word) (name : String) (args : List Expr) (wantsValue : Bool) :
    Together limit (setting.tracing = tracing) (receive setting s ref name args wantsValue)
      (receive { setting with tracing := tracing } (s.recast limit traced) ref name args
        wantsValue) := by
  unfold receive
  simp only [State.recast_heap]
  split
  · exact together_goto htraced _
  · split
    · exact together_goto htraced _
    · exact together_evalArgs hlimit htraced _ [] args

theorem together_construct (className : String) (args : List Expr) :
    Together limit (setting.tracing = tracing) (construct setting s className args)
      (construct { setting with tracing := tracing } (s.recast limit traced) className args) := by
  unfold construct
  simp only [State.recast_heap]
  split
  · exact together_goto htraced _
  · next count _ =>
      let grown : State := { s with store.heap := s.store.heap.addInstance count className }
      split
      · exact together_evalArgs (s := { grown with
          pending := .constructed className grown.store.heap.lastAddress.toWord :: s.pending })
          hlimit htraced _ [] args
      · split
        · exact together_constructed (s := grown) htraced className _
        · exact together_goto (s := grown) htraced _

theorem together_eval (e : Expr) :
    Together limit (setting.tracing = tracing) (eval setting s e)
      (eval { setting with tracing := tracing } (s.recast limit traced) e) := by
  let located : State := { s with pending := .locate e.span :: s.pending }
  cases e with
  | var span v => exact together_yield (s := located) htraced _
  | self span => exact together_yield (s := located) htraced _
  | newObject span className listed args =>
      exact together_construct (s := located) hlimit htraced className args
  | call span receiver name listed args =>
      exact together_startCall (s := located) hlimit htraced receiver name args true
  | _ => exact .inl ⟨traced, rfl, htraced⟩

theorem together_exec (stmt : Stmt) :
    Together limit (setting.tracing = tracing) (exec setting s stmt)
      (exec { setting with tracing := tracing } (s.recast limit traced) stmt) := by
  cases stmt with
  | call span receiver name listed args =>
      exact together_startCall (s := { s with pending := .discard :: s.pending }) hlimit htraced
        receiver name args false
  | _ => exact .inl ⟨traced, rfl, htraced⟩

theorem together_resume (v : Word) (p : Pending) :
    Together limit (setting.tracing = tracing) (resume setting s v p)
      (resume { setting with tracing := tracing } (s.recast limit traced) v p) := by
  cases p with
  | combine op left => exact together_yield htraced _
  | readAt ref => exact together_yield htraced _
  | measure => exact together_yield htraced _
  | indexOf index | makeArray elem | assignIndexOf index value =>
      unfold resume
      simp only [State.recast_heap]
      split <;> exact .inl ⟨traced, rfl, htraced⟩
  | receive name args wantsValue => exact together_receive hlimit htraced v name args wantsValue
  | argument callee evaluated rest => exact together_evalArgs hlimit htraced callee _ rest
  | constructed className ref => exact together_constructed htraced className ref
  | test cond body =>
      unfold resume
      dsimp only
      split <;> exact .inl ⟨traced, rfl, htraced⟩
  | print => exact together_print htraced v
  | assign var => exact together_writeVar htraced var v
  | writeAt ref index => exact together_writeAt htraced ref index v
  | _ => exact .inl ⟨traced, rfl, htraced⟩

omit hlimit in
theorem together_proceed (p : Pending) :
    Together limit (setting.tracing = tracing) (proceed s p)
      (proceed (s.recast limit traced) p) := by
  cases p with
  | activation result => cases result <;> exact .inl ⟨traced, rfl, htraced⟩
  | _ => exact .inl ⟨traced, rfl, htraced⟩

omit hlimit in
theorem together_unwind (f : Failure) (p : Pending) :
    Together limit (setting.tracing = tracing) (unwind s f p)
      (unwind (s.recast limit traced) f p) := by
  cases p <;> exact .inl ⟨traced, rfl, htraced⟩

theorem together_step :
    Together limit (setting.tracing = tracing) (step setting s)
      (step { setting with tracing := tracing } (s.recast limit traced)) := by
  obtain ⟨control, pending, store⟩ := s
  cases control with
  | expr e => exact together_eval (s := ⟨.expr e, pending, store⟩) hlimit htraced e
  | stmts stmts =>
      cases stmts with
      | nil => exact .inl ⟨traced, rfl, htraced⟩
      | cons stmt rest =>
          exact together_exec
            (s := ⟨.stmts (stmt :: rest), .next stmt.span rest :: pending, store⟩) hlimit htraced stmt
  | value v =>
      cases pending with
      | nil => exact .inl ⟨traced, rfl, htraced⟩
      | cons p rest => exact together_resume (s := ⟨.value v, rest, store⟩) hlimit htraced v p
  | done =>
      cases pending with
      | nil => exact .inl ⟨traced, rfl, htraced⟩
      | cons p rest => exact together_proceed (s := ⟨.done, rest, store⟩) htraced p
  | failed f =>
      cases pending with
      | nil => exact .inl ⟨traced, rfl, htraced⟩
      | cons p rest => exact together_unwind (s := ⟨.failed f, rest, store⟩) htraced f p

end Together

end Machine

/-- The run ends for want of room for a frame. -/
def State.Overflowed (s : State) : Prop := ∃ f, s.fault? = some f ∧ f.kind = .stackOverflow

namespace State

variable {limit : Nat} {same : Prop} {s t : State}

theorem Alike.isFinal (h : Alike limit same s t) : t.isFinal = s.isFinal := by
  obtain ⟨traced, rfl, -⟩ := h
  rfl

theorem Parted.overflowed (h : Parted limit same s t) {setting : Setting} {u : State}
    (hu : Machine.Reaches setting s u) : u.Overflowed := by
  obtain ⟨text, hcontrol⟩ := h.control
  obtain ⟨f, hf, hsame⟩ := Machine.same_of_reaches hu (fault?_of_failed hcontrol)
  exact ⟨f, hf, hsame.1⟩

/-- After the parting the first run prints and traces nothing more. -/
theorem Parted.begins (h : Parted limit same s t) {left right : Setting} {u v : State}
    (hu : Machine.Reaches left s u) (hv : Machine.Reaches right t v) :
    u.store.printed.toList <+: v.store.printed.toList ∧
      (same → u.store.traced.toList <+: v.store.traced.toList) := by
  have hkept : u.store.printed = s.store.printed ∧ u.store.traced = s.store.traced := by
    obtain ⟨text, hcontrol⟩ := h.control
    obtain ⟨control, pending, store⟩ := s
    dsimp only at hcontrol
    subst hcontrol
    obtain ⟨n, rfl⟩ := hu
    obtain ⟨failure, stack, hfailed, -⟩ := Machine.iterate_failed left
      (.fault (.raise .stackOverflow text)) pending store n
    rw [hfailed]
    exact ⟨rfl, rfl⟩
  rw [hkept.1, hkept.2, ← h.printed]
  refine ⟨Machine.printed_of_reaches hv, fun hsame => ?_⟩
  rw [← h.traced hsame]
  exact Machine.traced_of_reaches hv

end State

namespace Machine

open State (Alike Parted)

variable {setting : Setting} {tracing : Bool} {room limit : Nat} {s t : State}

theorem iterate_alike (hwithin : s.store.stack.Within room) (hroom : room ≤ limit)
    (h : Alike limit (setting.tracing = tracing) s t) (n : Nat) :
    Alike limit (setting.tracing = tracing) ((step setting)^[n] s)
        ((step { setting with tracing := tracing })^[n] t) ∨
      ∃ m, Parted limit (setting.tracing = tracing) ((step setting)^[m] s)
        ((step { setting with tracing := tracing })^[m] t) := by
  let right : Setting := { setting with tracing := tracing }
  have hstep (a b : State) (hab : a.store.stack.Within room ∧
      Alike limit (setting.tracing = tracing) a b) :
      ((step setting a).store.stack.Within room ∧
        Alike limit (setting.tracing = tracing) (step setting a) (step right b)) ∨
      Parted limit (setting.tracing = tracing) (step setting a) (step right b) := by
    obtain ⟨hwithin, traced, rfl, htraced⟩ := hab
    have hlimit : a.store.stack.limit ≤ limit := by
      rw [hwithin.1]
      exact hroom
    exact (together_step hlimit htraced).imp_left fun halike => ⟨within_step hwithin, halike⟩
  rcases iterate_together hstep ⟨hwithin, h⟩ n with ⟨-, halike⟩ | ⟨m, -, -, hparted⟩
  · exact .inl halike
  · rw [← Function.iterate_succ_apply' (step setting), ← Function.iterate_succ_apply' (step right)]
      at hparted
    exact .inr ⟨m + 1, hparted⟩

/-- A run that ends, and the run with more room: it ends alike in as many steps, unless the first
overflows; what the first had printed and traced then begins what the second prints and traces. -/
theorem run_alike (hwithin : s.store.stack.Within room) (hroom : room ≤ limit)
    (h : Alike limit (setting.tracing = tracing) s t) {n : Nat} {u : State}
    (hrun : run setting n s = some u) :
    (∃ v, run { setting with tracing := tracing } n t = some v ∧
        Alike limit (setting.tracing = tracing) u v) ∨
      room < limit ∧ u.Overflowed ∧
        ∀ m v, run { setting with tracing := tracing } m t = some v →
          u.store.printed.toList <+: v.store.printed.toList ∧
            (setting.tracing = tracing → u.store.traced.toList <+: v.store.traced.toList) := by
  obtain ⟨rfl, hfinal⟩ := run_eq_some_iff.mp hrun
  rcases iterate_alike hwithin hroom h n with halike | ⟨m, hparted⟩
  · exact .inl ⟨_, run_eq_some_iff.mpr ⟨rfl, halike.isFinal.trans hfinal⟩, halike⟩
  · have hu := reaches_of_run (run_iterate hrun m)
    have hlimit : ((step setting)^[m] s).store.stack.limit = room :=
      (Reaches.invariant (P := fun u => u.store.stack.Within room) (fun _ => within_step) ⟨m, rfl⟩
        hwithin).1
    refine .inr ⟨?_, hparted.overflowed hu, fun k v hv => ?_⟩
    · rw [← hlimit]
      exact hparted.room
    · exact hparted.begins hu (reaches_of_run (run_iterate hv m))

end Machine

/-! ### Fresh interpreters -/

/-- The first state of a run of commands on a fresh machine. -/
def State.initial (limit : Int) (commands : List Command) : State :=
  ⟨.stmts (commands.map Command.toStmt), [],
    { Store.fresh limit with stack := ⟨(CallStack.empty limit).limit, #[⟨"", 0, #[], #[]⟩]⟩ }⟩

theorem State.within_initial (limit : Int) (commands : List Command) :
    (State.initial limit commands).store.stack.Within (CallStack.empty limit).limit :=
  ⟨rfl, CallStack.limit_empty_pos limit⟩

/-- What a run of commands that ended in a state leaves. -/
def Setting.outcome (setting : Setting) (final : State) : Interpreter × Ending :=
  (⟨some setting.table, setting.sink, setting.tracing,
    { final.store with stack := final.store.stack.pop }⟩, final.control.ending)

namespace Interpreter

variable (limit : Int) (sink : Sink) (tracing : Bool) (table : ClassTable) (steps : Nat)
  (commands : List Command)

theorem fresh_runCommands :
    ((fresh limit sink tracing).bind table).runCommands steps commands =
      match Machine.run ⟨table, sink, tracing⟩ steps (.initial limit commands) with
      | none => ((fresh limit sink tracing).bind table, .outOfSteps)
      | some final => Setting.outcome ⟨table, sink, tracing⟩ final := by
  have hroom : (CallStack.empty limit).push "" 0 [] 0 =
      .ok ⟨(CallStack.empty limit).limit, #[⟨"", 0, #[], #[]⟩]⟩ :=
    if_pos (CallStack.limit_empty_pos limit)
  exact runCommands_eq ((fresh limit sink tracing).bind table) rfl hroom steps commands

variable {limit sink tracing table steps commands}

theorem fresh_runCommands_of_run {final : State}
    (h : Machine.run ⟨table, sink, tracing⟩ steps (.initial limit commands) = some final) :
    ((fresh limit sink tracing).bind table).runCommands steps commands =
      Setting.outcome ⟨table, sink, tracing⟩ final := by
  rw [fresh_runCommands, h]

theorem run_of_fresh_runCommands
    (h : (((fresh limit sink tracing).bind table).runCommands steps commands).2 ≠ .outOfSteps) :
    ∃ final, Machine.run ⟨table, sink, tracing⟩ steps (.initial limit commands) = some final := by
  rw [fresh_runCommands] at h
  cases hrun : Machine.run ⟨table, sink, tracing⟩ steps (.initial limit commands) with
  | none =>
      rw [hrun] at h
      exact absurd rfl h
  | some final => exact ⟨final, rfl⟩

end Interpreter

end ObjectLang
