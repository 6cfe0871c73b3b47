import ObjectLang.Proofs.Memory
import ObjectLang.Proofs.Runs

/-! What one step does to the call stack, and how it fails. A step that is not on the way out of a
failure keeps the stack, adds a frame, drops one or writes one part of the innermost; where it fails
it keeps the stack, and the fault is as it was raised: an overflow only on a full stack, and an
unresolved dispatch only where a call is being made. -/

namespace ObjectLang

/-- The kinds of faults that operations on words, objects and frames raise. -/
def FaultKind.operational : List FaultKind :=
  [.divisionByZero, .nullReference, .negativeArrayLength, .indexOutOfRange, .unsupportedOperator,
    .invalidAddress, .frameOffset]

/-- An error is the fault of an operation, as it was raised. -/
def Operational {α : Type} (r : Except Fault α) : Prop :=
  ∀ f, r = .error f → f = .raise f.kind f.text ∧ f.kind ∈ FaultKind.operational

namespace Operational

variable {α β : Type}

theorem ok (a : α) : Operational (.ok a) := nofun

theorem raise {kind : FaultKind} (text : String) (h : kind ∈ FaultKind.operational) :
    Operational (.error (.raise kind text) : Except Fault α) := by
  rintro _ ⟨⟩
  exact ⟨rfl, h⟩

theorem bind {r : Except Fault α} (h : Operational r) {g : α → Except Fault β}
    (hg : ∀ a, Operational (g a)) : Operational (r >>= g) := by
  cases r with
  | ok a => exact hg a
  | error f =>
      rintro _ ⟨⟩
      exact h f rfl

theorem map {r : Except Fault α} (h : Operational r) (g : α → β) : Operational (r.map g) := by
  cases r with
  | ok a => exact ok _
  | error f =>
      rintro _ ⟨⟩
      exact h f rfl

end Operational

theorem Heap.operational_index (h : Heap) (ref : Word) : Operational (h.index ref) := by
  unfold Heap.index
  split
  · exact .raise _ (by decide)
  · split
    · exact .raise _ (by decide)
    · exact .ok _

theorem Heap.operational_deref (h : Heap) (ref : Word) : Operational (h.deref ref) :=
  (h.operational_index ref).map _

theorem HeapObject.operational_position (o : HeapObject) (index : Word) :
    Operational (o.position index) := by
  unfold HeapObject.position
  split
  · exact .ok _
  · exact .raise _ (by decide)

theorem Heap.operational_read (h : Heap) (ref index : Word) : Operational (h.read ref index) :=
  (h.operational_deref ref).bind fun o => (o.operational_position index).map _

theorem Heap.operational_place (h : Heap) (ref index : Word) : Operational (h.place ref index) :=
  (h.operational_index ref).bind fun _ => (h.operational_deref ref).bind fun o =>
    (o.operational_position index).bind fun _ => .ok _

theorem Heap.operational_addArray (h : Heap) (length : Word) (elem : String) :
    Operational (h.addArray length elem) := by
  unfold Heap.addArray
  split
  · exact .raise _ (by decide)
  · exact .ok _

theorem Frame.operational_place (f : Frame) (offset : Int) : Operational (f.place offset) := by
  unfold Frame.place
  split
  · exact .ok _
  · exact .raise _ (by decide)

theorem CallStack.operational_read (s : CallStack) (offset : Int) :
    Operational (s.read offset) := by
  unfold CallStack.read
  split
  · exact .raise _ (by decide)
  · exact (Frame.operational_place _ offset).map _

theorem CallStack.operational_place (s : CallStack) (offset : Int) :
    Operational (s.place offset) := by
  unfold CallStack.place
  split
  · exact .raise _ (by decide)
  · exact Frame.operational_place _ offset

theorem Machine.operational_apply (op : String) (left right : Word) :
    Operational (apply op left right) := by
  unfold apply
  split
  · exact .ok _
  · split
    · exact .raise _ (by decide)
    · exact .ok _
  · exact .ok _
  · exact .ok _
  · exact .ok _
  · exact .ok _
  · exact .ok _
  · exact .raise _ (by decide)

theorem Machine.operational_readVar (σ : Store) (v : Var) : Operational (readVar σ v) := by
  unfold readVar
  split
  · exact σ.stack.operational_read _
  · exact (σ.stack.operational_read _).bind fun self => σ.heap.operational_read self _
  · exact .raise _ (by decide)

theorem CallStack.push_error {s : CallStack} {routine : String} {self : Word} {params : List Word}
    {slots : Int} {f : Fault} (h : s.push routine self params slots = .error f) :
    s.limit ≤ s.depth ∧ f = .raise .stackOverflow f.text := by
  unfold CallStack.push at h
  split at h
  · cases h
  · cases h
    exact ⟨by omega, rfl⟩

/-! ### Effects of steps -/

namespace State

/-- No failure is on its way out. -/
def Running (s : State) : Prop := ∀ failure, s.control ≠ .failed failure

theorem failed_of_not_running {s : State} (h : ¬ s.Running) :
    ∃ failure, s.control = .failed failure := by
  simpa [Running] using h

/-- A call is being made: it starts, or its receiver or an argument has just been evaluated. -/
def AtCall (s : State) : Prop :=
  match s.control, s.pending with
  | .expr (.call _ _ _ _ _), _ | .expr (.newObject _ _ _ _), _ | .stmts (.call _ _ _ _ _ :: _), _
  | .value _, .receive _ _ _ :: _ | .value _, .argument _ _ _ :: _ => True
  | _, _ => False

/-- A value is about to be assigned to a part of the innermost frame. -/
def Assigns (s : State) (place : FramePlace) (value : Word) : Prop :=
  ∃ v rest offset, s.control = .value value ∧ s.pending = .assign v :: rest ∧
    v.slot = .frame offset ∧ s.store.stack.place offset = .ok place

/-- A failure of the next step. -/
def Raises (s : State) (failure : Failure) : Prop :=
  ∀ f, failure.fault? = some f → f = .raise f.kind f.text ∧
    (f.kind = .stackOverflow → s.store.stack.limit ≤ s.store.stack.depth) ∧
    (f.kind = .unresolvedDispatch → s.AtCall)

/-- What the step from one state to another does to the stack. -/
inductive Effect (s t : State) : Prop
  | keeps (hstack : t.store.stack = s.store.stack) (hrunning : t.Running)
  | fails (failure : Failure) (hstack : t.store.stack = s.store.stack)
      (hcontrol : t.control = .failed failure) (hraises : s.Raises failure)
  | enters (routine : String) (self : Word) (params : List Word) (slots : Int)
      (hpush : s.store.stack.push routine self params slots = .ok t.store.stack)
      (hrunning : t.Running)
  | drops (hstack : t.store.stack = s.store.stack.pop) (hrunning : t.Running)
  | writes (place : FramePlace) (value : Word) (hassigns : s.Assigns place value)
      (hstack : t.store.stack = s.store.stack.store place value) (hrunning : t.Running)

end State

namespace Machine

open State (Effect)

section Effects

variable {setting : Setting} {s u : State} (hu : u.store.stack = s.store.stack)
include hu

theorem effect_goto {control : Control} (h : ∀ failure, control ≠ .failed failure) :
    Effect s (u.goto control) := .keeps hu h

theorem effect_push (p : Pending) (e : Expr) : Effect s (u.push p (.expr e)) := .keeps hu nofun

theorem effect_fault {α : Type} {r : Except Fault α} {f : Fault} (hr : Operational r)
    (hf : r = .error f) : Effect s (u.fail (.fault f)) := by
  refine .fails (.fault f) hu rfl ?_
  rintro _ ⟨⟩
  obtain ⟨hraise, hkind⟩ := hr f hf
  refine ⟨hraise, fun h => ?_, fun h => ?_⟩
  · rw [h] at hkind
    exact absurd hkind (by decide)
  · rw [h] at hkind
    exact absurd hkind (by decide)

theorem effect_plain (failure : Failure) (h : failure.fault? = none) :
    Effect s (u.fail failure) := by
  refine .fails failure hu rfl fun f hf => ?_
  rw [h] at hf
  cases hf

theorem effect_yield {r : Except Fault Word} (hr : Operational r) : Effect s (u.yield r) := by
  cases r with
  | ok v => exact effect_goto hu nofun
  | error f => exact effect_fault hu hr rfl

theorem effect_dispatch (hcall : s.AtCall) (text : String) :
    Effect s (u.raise .unresolvedDispatch text) := by
  refine .fails _ hu rfl ?_
  rintro _ ⟨⟩
  exact ⟨rfl, nofun, fun _ => hcall⟩

theorem effect_writeAt (ref index value : Word) : Effect s (writeAt u ref index value) := by
  unfold writeAt
  split
  · next f hf => exact effect_fault hu (Heap.operational_place _ ref index) hf
  · exact .keeps hu nofun

theorem effect_writeVar {v : Var} {value : Word} (hcontrol : s.control = .value value)
    {rest : List Pending} (hpending : s.pending = .assign v :: rest) :
    Effect s (writeVar u v value) := by
  unfold writeVar
  split
  · next offset hslot =>
      split
      · next f hf => exact effect_fault hu (CallStack.operational_place _ offset) hf
      · next place hplace =>
          rw [hu] at hplace
          refine .writes place value ⟨v, rest, offset, hcontrol, hpending, hslot, hplace⟩ ?_ nofun
          exact congrArg (CallStack.store · place value) hu
  · next offset _ =>
      split
      · next f hf =>
          have hop := (u.store.stack.operational_read Layout.selfOffset).bind fun self =>
            u.store.heap.operational_place self (Int32.ofInt offset)
          exact effect_fault hu hop hf
      · exact .keeps hu nofun
  · exact effect_fault (r := (.error (unplaced v) : Except Fault Word)) hu
      (.raise _ (by decide)) rfl

theorem effect_print (value : Word) : Effect s (print setting u value) := by
  unfold print
  dsimp only
  split
  · exact .keeps hu nofun
  · split
    · exact .keeps hu nofun
    · exact effect_plain hu _ rfl

theorem effect_constructed (className : String) (ref : Word) :
    Effect s (constructed setting u className ref) := by
  unfold constructed
  split
  · split
    · exact .keeps hu nofun
    · exact effect_goto hu nofun
  · exact effect_goto hu nofun

section Call

variable (hcall : s.AtCall)
include hcall

theorem effect_enter (m : Method) (self : Word) (args : List Word) (wantsValue : Bool) :
    Effect s (enter u m self args wantsValue) := by
  unfold enter
  dsimp only
  split
  · exact effect_dispatch hu hcall _
  · split
    · exact effect_dispatch hu hcall _
    · split
      · next f hf =>
          rw [hu] at hf
          obtain ⟨hfull, hraise⟩ := CallStack.push_error hf
          refine .fails (.fault f) hu rfl ?_
          rintro _ ⟨⟩
          rw [hraise]
          exact ⟨rfl, fun _ => hfull, nofun⟩
      · next stack hstack =>
          rw [hu] at hstack
          exact .enters _ _ _ _ hstack nofun

theorem effect_evalArgs (callee : Callee) (evaluated : List Word) (args : List Expr) :
    Effect s (evalArgs setting u callee evaluated args) := by
  cases args with
  | cons e rest => exact effect_push hu _ e
  | nil =>
      cases callee with
      | routine m self wantsValue => exact effect_enter hu hcall m self _ wantsValue
      | method className name self wantsValue =>
          unfold evalArgs call
          dsimp only
          split
          · exact effect_dispatch hu hcall _
          · exact effect_enter hu hcall _ self _ wantsValue

theorem effect_startCall (receiver : Expr) (name : String) (args : List Expr) (wantsValue : Bool) :
    Effect s (startCall setting u receiver name args wantsValue) := by
  cases receiver with
  | missing =>
      unfold startCall callTop
      dsimp only
      split
      · exact effect_dispatch hu hcall _
      · exact effect_evalArgs hu hcall _ [] args
  | _ => exact effect_push hu _ _

theorem effect_receive (ref : Word) (name : String) (args : List Expr) (wantsValue : Bool) :
    Effect s (receive setting u ref name args wantsValue) := by
  unfold receive
  split
  · exact effect_fault (r := (.error (.raise .nullReference _) : Except Fault Word)) hu
      (.raise _ (by decide)) rfl
  · split
    · next f hf => exact effect_fault hu (Heap.operational_deref _ ref) hf
    · exact effect_evalArgs hu hcall _ [] args

theorem effect_construct (className : String) (args : List Expr) :
    Effect s (construct setting u className args) := by
  unfold construct
  split
  · exact effect_dispatch hu hcall _
  · next count _ =>
      let grown : State := { u with store.heap := u.store.heap.addInstance count className }
      have hgrown : grown.store.stack = s.store.stack := hu
      dsimp only
      split
      · refine effect_evalArgs ?_ hcall _ [] args
        exact hu
      · split
        · exact effect_constructed hgrown className _
        · exact effect_dispatch hgrown hcall _

end Call

end Effects

theorem effect_eval {setting : Setting} {s : State} {e : Expr} (he : s.control = .expr e) :
    Effect s (eval setting s e) := by
  let located : State := { s with pending := .locate e.span :: s.pending }
  have hlocated : located.store.stack = s.store.stack := rfl
  cases e with
  | missing => exact effect_plain hlocated _ rfl
  | integer span value => exact effect_goto hlocated nofun
  | truth span value => exact effect_goto hlocated nofun
  | var span v => exact effect_yield hlocated (operational_readVar _ v)
  | self span => exact effect_yield hlocated (CallStack.operational_read _ _)
  | newObject span className listed args =>
      have hcall : s.AtCall := by
        rw [State.AtCall, he]
        trivial
      exact effect_construct hlocated hcall className args
  | call span receiver name listed args =>
      have hcall : s.AtCall := by
        rw [State.AtCall, he]
        trivial
      exact effect_startCall hlocated hcall receiver name args true
  | _ => exact effect_push hlocated _ _

theorem effect_exec {setting : Setting} {s u : State} (hu : u.store.stack = s.store.stack)
    {stmt : Stmt} {rest : List Stmt} (hstmt : s.control = .stmts (stmt :: rest)) :
    Effect s (exec setting u stmt) := by
  cases stmt with
  | missing => exact effect_plain hu _ rfl
  | block b => exact effect_goto hu nofun
  | declare span type name => exact effect_goto hu nofun
  | call span receiver name listed args =>
      have hcall : s.AtCall := by
        rw [State.AtCall, hstmt]
        trivial
      exact effect_startCall (u := { u with pending := .discard :: u.pending }) hu hcall receiver
        name args false
  | _ => exact effect_push hu _ _

theorem effect_resume {setting : Setting} {s : State} {v : Word} {p : Pending}
    {rest : List Pending} (hcontrol : s.control = .value v) (hpending : s.pending = p :: rest) :
    Effect s (resume setting { s with pending := rest } v p) := by
  let u : State := { s with pending := rest }
  have hu : u.store.stack = s.store.stack := rfl
  cases p with
  | combine op left => exact effect_yield hu (operational_apply op left v)
  | readAt ref => exact effect_yield hu (Heap.operational_read _ ref v)
  | measure => exact effect_yield hu ((Heap.operational_deref _ v).map _)
  | indexOf index | assignIndexOf index value =>
      unfold resume
      dsimp only
      split
      · next f hf => exact effect_fault hu (Heap.operational_deref _ v) hf
      · exact effect_push hu _ index
  | makeArray elem =>
      unfold resume
      dsimp only
      split
      · next f hf => exact effect_fault hu (Heap.operational_addArray _ v elem.text) hf
      · exact .keeps hu nofun
  | receive name args wantsValue =>
      have hcall : s.AtCall := by
        rw [State.AtCall, hcontrol, hpending]
        trivial
      exact effect_receive hu hcall v name args wantsValue
  | argument callee evaluated args =>
      have hcall : s.AtCall := by
        rw [State.AtCall, hcontrol, hpending]
        trivial
      exact effect_evalArgs hu hcall callee _ args
  | constructed className ref => exact effect_constructed hu className ref
  | result => exact .drops rfl nofun
  | test cond body =>
      unfold resume
      dsimp only
      split
      · exact .keeps hu nofun
      · exact effect_goto hu nofun
  | print => exact effect_print hu v
  | assign var => exact effect_writeVar hu hcontrol hpending
  | writeAt ref index => exact effect_writeAt hu ref index v
  | _ => exact .keeps hu nofun

theorem effect_proceed {s : State} (rest : List Pending) (p : Pending) :
    Effect s (proceed { s with pending := rest } p) := by
  cases p with
  | activation value =>
      cases value with
      | none => exact .drops rfl nofun
      | some result => exact .keeps rfl nofun
  | _ => exact .keeps rfl nofun

/-- What a step that is not on the way out of a failure does to the stack. -/
theorem effect_step (setting : Setting) {s : State} (hrunning : s.Running) :
    Effect s (step setting s) := by
  obtain ⟨control, pending, store⟩ := s
  cases control with
  | expr e => exact effect_eval rfl
  | stmts stmts =>
      cases stmts with
      | nil => exact .keeps rfl nofun
      | cons stmt rest =>
          refine effect_exec (s := ⟨.stmts (stmt :: rest), pending, store⟩) ?_ rfl
          rfl
  | value v =>
      cases pending with
      | nil => exact .keeps rfl hrunning
      | cons p rest => exact effect_resume rfl rfl
  | done =>
      cases pending with
      | nil => exact .keeps rfl hrunning
      | cons p rest => exact effect_proceed rest p
  | failed failure => exact absurd rfl (hrunning failure)

end Machine

end ObjectLang
