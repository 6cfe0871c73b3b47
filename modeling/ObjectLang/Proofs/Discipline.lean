import ObjectLang.Proofs.Memory
import ObjectLang.Proofs.PlacedTable
import ObjectLang.Proofs.Runs

/-! Disciplines for variables. What is pending falls into segments, one for each live frame: the end of
an activation drops the frame, and what is pending below it belongs to the caller. A discipline says
which variables a frame may use and on which receiver a routine may run, in a form that growth of the
heap and its own writes keep. A state follows it if all code to be run in each frame uses only what
the frame may use. One step keeps this, so every state of a run follows the discipline that its first
state follows. -/

namespace ObjectLang

open Layout (exprVars exprsVars stmtVars blockVars stmtsVars resultVars routineVars)

/-- What is handed on when something is done: a value, or only that it is done. -/
inductive Handed where
  | value
  | done
  deriving DecidableEq, Repr

/-- Whether a control hands on what is expected. A failure hands on nothing and fits everywhere. -/
def Control.Hands : Control → Handed → Prop
  | .expr _, k | .value _, k => k = .value
  | .stmts _, k | .done, k => k = .done
  | .failed _, _ => True

/-- The variables of what is being done. -/
def Control.vars : Control → List Var
  | .expr e => exprVars e
  | .stmts body => stmtsVars body
  | .value _ | .done | .failed _ => []

namespace Pending

/-- The variables of what is still to be done. -/
def vars : Pending → List Var
  | .rightOperand _ right => exprVars right
  | .indexOf index => exprVars index
  | .receive _ args _ => exprsVars args
  | .argument _ _ rest => exprsVars rest
  | .activation value => resultVars value
  | .next _ rest => stmtsVars rest
  | .choose onTrue onFalse => blockVars onTrue ++ blockVars onFalse
  | .test cond body | .again cond body => exprVars cond ++ blockVars body
  | .assign v => [v]
  | .assignIndexOf index value => exprVars index ++ exprVars value
  | .assignValueOf _ value => exprVars value
  | .locate _ | .negate | .testNull | .combine _ _ | .readAt _ | .measure | .makeArray _
  | .constructed _ _ | .result | .print | .writeAt _ _ | .discard => []

/-- What is waited for. -/
def awaits : Pending → Handed
  | .activation _ | .next _ _ | .again _ _ => .done
  | _ => .value

/-- What is handed on once this and all that comes of it is done. -/
def hands : Pending → Handed
  | .next _ _ | .choose _ _ | .test _ _ | .again _ _ | .print | .assign _ | .assignIndexOf _ _
  | .assignValueOf _ _ | .writeAt _ _ | .discard => .done
  | _ => .value

/-- What waits for its arguments to be called. -/
def callee? : Pending → Option Callee
  | .argument callee _ _ => some callee
  | _ => none

def dropsFrame : Pending → Bool
  | .activation _ | .result => true
  | _ => false

theorem dropsFrame_cases {p : Pending} (h : p.dropsFrame = true) :
    p = .result ∨ ∃ value, p = .activation value := by
  cases p with
  | result => exact .inl rfl
  | activation value => exact .inr ⟨value, rfl⟩
  | _ => cases h

end Pending

/-- Which variables may be used in a frame that stands on so many others, and on which receiver a
routine may run, in heaps of some kind. What is allowed stays allowed when the heap changes and when
a variable that is allowed is written; a routine that may run may use its variables; and every way to
call one gives it a receiver that it may run on. `base` is what is known at the end: what is handed
on, and the frames that are left, of which there are at least `floor`. -/
structure Discipline (setting : Setting) where
  heap : Heap → Prop
  allows : Nat → Heap → Frame → Var → Prop
  admits : Heap → Method → Word → Prop
  base : Handed → List Frame → Prop
  floor : Nat
  floor_le : ∀ {k frames}, base k frames → floor ≤ frames.length
  grow_heap : ∀ {h h'}, Heap.Step setting.table h h' → heap h → heap h'
  grow_allows : ∀ {h h' height f v}, Heap.Step setting.table h h' → allows height h f v →
    allows height h' f v
  grow_admits : ∀ {h h' m self}, Heap.Step setting.table h h' → admits h m self → admits h' m self
  write_allows : ∀ {height h f v offset place u} (value : Word), allows height h f v →
    v.slot = .frame offset → f.place? offset = some place → allows height h f u →
    allows height h (f.store value place) u
  write_base : ∀ {k below h f v offset place} (value : Word), allows below.length h f v →
    v.slot = .frame offset → f.place? offset = some place → base k (f :: below) →
    base k (f.store value place :: below)
  enter : ∀ {height h m self v} {args : List Word}, floor ≤ height → admits h m self →
    m.decl.params.length = args.length → v ∈ routineVars m.decl →
    allows height h ⟨m.qualified, self, args.toArray, Array.replicate m.decl.stackSlots 0⟩ v
  callTop : ∀ {h name m}, heap h → findMethod? setting.table.top name = some m → admits h m 0
  dispatch : ∀ {h ref o name m}, heap h → h.deref ref = .ok o →
    setting.table.lookup? o.type name = some m → admits h m ref
  construct : ∀ {h className count m}, heap h → setting.table.fieldCount className = .ok count →
    setting.table.lookup? className className = some m →
    admits (h.addInstance count className) m (h.addInstance count className).lastAddress.toWord

namespace Discipline

/-- Where the frame of the commands is left alone, there is a frame. -/
theorem floor_of_root {frames : List Frame} (h : frames.length = 1) : 1 ≤ frames.length :=
  Nat.le_of_eq h.symm

variable {setting : Setting} (D : Discipline setting)

/-- The variables may be used in the innermost frame. -/
def Usable (h : Heap) (frames : List Frame) (vars : List Var) : Prop :=
  ∀ frame below, frames = frame :: below → ∀ v ∈ vars, D.allows below.length h frame v

/-- What is called may run on its receiver. -/
def Callable (h : Heap) : Callee → Prop
  | .routine m self _ => D.admits h m self
  | .method className name self _ =>
    ∀ m, setting.table.lookup? className name = some m → D.admits h m self

/-- What is pending may be done with what is handed to it, each segment in its own frame. -/
def Segments (h : Heap) : Handed → List Pending → List Frame → Prop
  | k, [], frames => D.base k frames
  | k, p :: pending, frames =>
    k = p.awaits ∧ D.Usable h frames p.vars ∧
      (∀ callee, p.callee? = some callee → D.Callable h callee) ∧
      match p.dropsFrame, frames with
      | false, frames => Segments h p.hands pending frames
      | true, _ :: below => Segments h p.hands pending below
      | true, [] => False

/-- A state is ready to hand something on: all but its control follows the discipline. -/
structure Ready (k : Handed) (s : State) : Prop where
  heap : D.heap s.store.heap
  pending : D.Segments s.store.heap k s.pending s.store.stack.live

/-- A state follows the discipline. -/
def Holds (s : State) : Prop :=
  ∃ k, D.Ready k s ∧ s.control.Hands k ∧ D.Usable s.store.heap s.store.stack.live s.control.vars

variable {D}

theorem usable_nil {h : Heap} {frames : List Frame} : D.Usable h frames [] := by
  intro _ _ _ v hv
  cases hv

theorem Usable.append {h : Heap} {frames : List Frame} {left right : List Var} :
    D.Usable h frames (left ++ right) ↔ D.Usable h frames left ∧ D.Usable h frames right := by
  constructor
  · intro hu
    exact ⟨fun f below hf v hv => hu f below hf v (List.mem_append_left _ hv),
      fun f below hf v hv => hu f below hf v (List.mem_append_right _ hv)⟩
  · rintro ⟨hleft, hright⟩ f below hf v hv
    rcases List.mem_append.mp hv with hv | hv
    · exact hleft f below hf v hv
    · exact hright f below hf v hv

theorem Usable.grow {h h' : Heap} {frames : List Frame} {vars : List Var}
    (step : Heap.Step setting.table h h') (hu : D.Usable h frames vars) :
    D.Usable h' frames vars := by
  intro frame below hframes v hv
  exact D.grow_allows step (hu frame below hframes v hv)

theorem Callable.grow {h h' : Heap} {callee : Callee} (step : Heap.Step setting.table h h')
    (hcallee : D.Callable h callee) : D.Callable h' callee := by
  cases callee with
  | routine m self wantsValue => exact D.grow_admits step hcallee
  | method className name self wantsValue =>
      intro m hm
      exact D.grow_admits step (hcallee m hm)

theorem Segments.grow {h h' : Heap} {k : Handed} {pending : List Pending} {frames : List Frame}
    (step : Heap.Step setting.table h h') (hs : D.Segments h k pending frames) :
    D.Segments h' k pending frames := by
  induction pending generalizing k frames with
  | nil => exact hs
  | cons p pending ih =>
      obtain ⟨hawaits, hvars, hcallee, hrest⟩ := hs
      refine ⟨hawaits, hvars.grow step, fun callee hc => (hcallee callee hc).grow step, ?_⟩
      cases hdrops : p.dropsFrame with
      | false =>
          rw [hdrops] at hrest
          exact ih hrest
      | true =>
          rw [hdrops] at hrest
          cases frames with
          | nil => exact hrest
          | cons frame below => exact ih hrest

theorem Segments.write {h : Heap} {k : Handed} {pending : List Pending} {f : Frame}
    {below : List Frame} {v : Var} {offset : Int} {place : FramePlace} (value : Word)
    (hv : D.allows below.length h f v) (hslot : v.slot = .frame offset)
    (hplace : f.place? offset = some place) (hs : D.Segments h k pending (f :: below)) :
    D.Segments h k pending (f.store value place :: below) := by
  induction pending generalizing k with
  | nil => exact D.write_base value hv hslot hplace hs
  | cons p pending ih =>
      obtain ⟨hawaits, hvars, hcallee, hrest⟩ := hs
      refine ⟨hawaits, ?_, hcallee, ?_⟩
      · intro frame below' hframes u hu
        cases hframes
        exact D.write_allows value hv hslot hplace (hvars f below rfl u hu)
      · cases hdrops : p.dropsFrame with
        | false =>
            rw [hdrops] at hrest
            exact ih hrest
        | true =>
            rw [hdrops] at hrest
            exact hrest

/-- What is left at the end lies at the bottom of the frames. -/
theorem Segments.base {h : Heap} {k : Handed} {pending : List Pending} {frames : List Frame}
    (hs : D.Segments h k pending frames) : ∃ k' last, D.base k' last ∧ last <:+ frames := by
  induction pending generalizing k frames with
  | nil => exact ⟨k, frames, hs, List.suffix_refl frames⟩
  | cons p pending ih =>
      obtain ⟨-, -, -, hrest⟩ := hs
      cases hdrops : p.dropsFrame with
      | false =>
          rw [hdrops] at hrest
          exact ih hrest
      | true =>
          rw [hdrops] at hrest
          cases frames with
          | nil => exact hrest.elim
          | cons frame below =>
              obtain ⟨k', last, hlast, hsuffix⟩ := ih hrest
              exact ⟨k', last, hlast, hsuffix.trans (List.suffix_cons frame below)⟩

theorem Segments.floor_le {h : Heap} {k : Handed} {pending : List Pending} {frames : List Frame}
    (hs : D.Segments h k pending frames) : D.floor ≤ frames.length := by
  obtain ⟨k', last, hlast, hsuffix⟩ := hs.base
  exact Nat.le_trans (D.floor_le hlast) hsuffix.length_le

/-! ### The steps of a run -/

section Step

variable {s : State} {k : Handed}

theorem Ready.goto (hs : D.Ready k s) {control : Control} (hk : control.Hands k)
    (hvars : D.Usable s.store.heap s.store.stack.live control.vars) : D.Holds (s.goto control) :=
  ⟨k, ⟨hs.heap, hs.pending⟩, hk, hvars⟩

theorem Ready.fail (hs : D.Ready k s) (f : Failure) : D.Holds (s.fail f) :=
  hs.goto trivial usable_nil

theorem Ready.raise (hs : D.Ready k s) (kind : FaultKind) (text : String) :
    D.Holds (s.raise kind text) := hs.fail _

theorem Ready.yield (hs : D.Ready .value s) (r : Except Fault Word) : D.Holds (s.yield r) := by
  cases r with
  | error f => exact hs.fail _
  | ok v => exact hs.goto rfl usable_nil

/-- Something more is pending that belongs to the innermost frame. -/
theorem Ready.pend {p : Pending} (hs : D.Ready p.hands s) (hdrops : p.dropsFrame = false)
    (hcallee : ∀ callee, p.callee? = some callee → D.Callable s.store.heap callee)
    (hvars : D.Usable s.store.heap s.store.stack.live p.vars) :
    D.Ready p.awaits { s with pending := p :: s.pending } := by
  refine ⟨hs.heap, rfl, hvars, hcallee, ?_⟩
  rw [hdrops]
  exact hs.pending

theorem Ready.push {p : Pending} (hs : D.Ready p.hands s) {control : Control}
    (hdrops : p.dropsFrame = false) (hcallee : p.callee? = none) (hk : control.Hands p.awaits)
    (hvars : D.Usable s.store.heap s.store.stack.live (control.vars ++ p.vars)) :
    D.Holds (s.push p control) := by
  obtain ⟨hcontrol, hpending⟩ := Usable.append.mp hvars
  have hready := hs.pend hdrops (fun callee hc => by rw [hcallee] at hc; cases hc) hpending
  exact ⟨p.awaits, ⟨hready.heap, hready.pending⟩, hk, hcontrol⟩

theorem Ready.setHeap (hs : D.Ready k s) {h : Heap} (step : Heap.Step setting.table s.store.heap h) :
    D.Ready k { s with store.heap := h } :=
  ⟨D.grow_heap step hs.heap, hs.pending.grow step⟩

theorem Ready.writeVar (hs : D.Ready .done s) {v : Var} (value : Word)
    (hv : D.Usable s.store.heap s.store.stack.live [v]) : D.Holds (Machine.writeVar s v value) := by
  unfold Machine.writeVar
  split
  · rename_i offset hslot
    split
    · exact hs.fail _
    · rename_i place hplace
      obtain ⟨f, below, hlive, hplace⟩ := CallStack.place_ok hplace
      have hallows := hv f below hlive v List.mem_cons_self
      have hpending := hs.pending
      rw [hlive] at hpending
      refine ⟨.done, ⟨hs.heap, ?_⟩, rfl, usable_nil⟩
      dsimp only
      rw [CallStack.live_store place value hlive]
      exact hpending.write value hallows hslot hplace
  · split
    · exact hs.fail _
    · rename_i offset hslot _ place hplace
      obtain ⟨self, -, hplace⟩ := bind_ok hplace
      have hready := hs.setHeap (Heap.Step.write value hplace)
      exact ⟨.done, ⟨hready.heap, hready.pending⟩, rfl, usable_nil⟩
  · exact hs.fail _

theorem Ready.writeAt (hs : D.Ready .done s) (ref index value : Word) :
    D.Holds (Machine.writeAt s ref index value) := by
  unfold Machine.writeAt
  split
  · exact hs.fail _
  · rename_i place hplace
    have hready := hs.setHeap (Heap.Step.write value hplace)
    exact ⟨.done, ⟨hready.heap, hready.pending⟩, rfl, usable_nil⟩

theorem Ready.print (hs : D.Ready .done s) (value : Word) :
    D.Holds (Machine.print setting s value) := by
  have haccept : D.Holds
      { s with control := .done, store.printed := s.store.printed.push value } :=
    ⟨.done, ⟨hs.heap, hs.pending⟩, rfl, usable_nil⟩
  unfold Machine.print
  dsimp only
  split
  · exact haccept
  · split
    · exact haccept
    · exact hs.fail _

theorem Ready.constructed (hs : D.Ready .value s) (className : String) (ref : Word) :
    D.Holds (Machine.constructed setting s className ref) := by
  unfold Machine.constructed
  split
  · split
    · exact ⟨.value, ⟨hs.heap, hs.pending⟩, rfl, usable_nil⟩
    · exact hs.goto rfl usable_nil
  · exact hs.goto rfl usable_nil

/-- A routine that may run on its receiver is entered: its frame may use what its code uses. -/
theorem Ready.enter (hs : D.Ready .value s) {m : Method} {self : Word}
    (hm : D.admits s.store.heap m self) (args : List Word) (wantsValue : Bool) :
    D.Holds (Machine.enter s m self args wantsValue) := by
  unfold Machine.enter
  dsimp only
  split
  · exact hs.raise _ _
  · rename_i harity
    split
    · exact hs.raise _ _
    · split
      · exact hs.fail _
      · rename_i stack hpush
        obtain ⟨-, -, hlive⟩ := CallStack.push_ok hpush
        rw [Int.toNat_natCast] at hlive
        have hvars : D.Usable s.store.heap stack.live (routineVars m.decl) := by
          intro frame below hframes v hv
          rw [hlive] at hframes
          cases hframes
          exact D.enter hs.pending.floor_le hm (not_not.mp harity) hv
        obtain ⟨hbody, hresult⟩ := Usable.append.mp hvars
        refine ⟨.done, ⟨hs.heap, rfl, ?_, ?_, ?_⟩, rfl, hbody⟩
        · cases wantsValue with
          | false => exact usable_nil
          | true => exact hresult
        · intro callee hc
          cases hc
        · dsimp only [Pending.dropsFrame]
          rw [hlive]
          exact hs.pending

theorem Ready.call (hs : D.Ready .value s) {callee : Callee}
    (hcallee : D.Callable s.store.heap callee) (args : List Word) :
    D.Holds (Machine.call setting s args callee) := by
  cases callee with
  | routine m self wantsValue => exact hs.enter hcallee args wantsValue
  | method className name self wantsValue =>
      unfold Machine.call
      dsimp only
      split
      · exact hs.raise _ _
      · rename_i m hm
        exact hs.enter (hcallee m hm) args wantsValue

theorem Ready.evalArgs (hs : D.Ready .value s) (callee : Callee)
    (hcallee : D.Callable s.store.heap callee) (evaluated : List Word) {args : List Expr}
    (hargs : D.Usable s.store.heap s.store.stack.live (exprsVars args)) :
    D.Holds (Machine.evalArgs setting s callee evaluated args) := by
  cases args with
  | nil => exact hs.call hcallee _
  | cons e rest =>
      obtain ⟨he, hrest⟩ := Usable.append.mp hargs
      have hready := Ready.pend (p := .argument callee evaluated rest) hs rfl
        (fun c hc => by cases hc; exact hcallee) hrest
      exact ⟨.value, ⟨hready.heap, hready.pending⟩, rfl, he⟩

theorem Ready.callTop (hs : D.Ready .value s) (name : String) {args : List Expr} (wantsValue : Bool)
    (hargs : D.Usable s.store.heap s.store.stack.live (exprsVars args)) :
    D.Holds (Machine.callTop setting s name args wantsValue) := by
  unfold Machine.callTop
  split
  · exact hs.raise _ _
  · rename_i m hm
    exact hs.evalArgs (.routine m 0 wantsValue) (D.callTop hs.heap hm) [] hargs

theorem Ready.startCall (hs : D.Ready .value s) {receiver : Expr} (name : String) {args : List Expr}
    (wantsValue : Bool)
    (hvars : D.Usable s.store.heap s.store.stack.live (exprVars receiver ++ exprsVars args)) :
    D.Holds (Machine.startCall setting s receiver name args wantsValue) := by
  unfold Machine.startCall
  split
  · exact hs.callTop name wantsValue (Usable.append.mp hvars).2
  · exact Ready.push hs rfl rfl rfl hvars

theorem Ready.receive (hs : D.Ready .value s) (ref : Word) (name : String) {args : List Expr}
    (wantsValue : Bool) (hargs : D.Usable s.store.heap s.store.stack.live (exprsVars args)) :
    D.Holds (Machine.receive setting s ref name args wantsValue) := by
  unfold Machine.receive
  split
  · exact hs.raise _ _
  · split
    · exact hs.fail _
    · rename_i o ho
      refine hs.evalArgs (.method o.type name ref wantsValue) ?_ [] hargs
      intro m hm
      exact D.dispatch hs.heap ho hm

theorem Ready.construct (hs : D.Ready .value s) (className : String) {args : List Expr}
    (hargs : D.Usable s.store.heap s.store.stack.live (exprsVars args)) :
    D.Holds (Machine.construct setting s className args) := by
  unfold Machine.construct
  split
  · exact hs.raise _ _
  · rename_i count hcount
    have hstep : Heap.Step setting.table s.store.heap (s.store.heap.addInstance count className) :=
      .addInstance hcount
    have hgrown := hs.setHeap hstep
    dsimp only
    split
    · rename_i m hm
      have hready := Ready.pend (p := .constructed className
        (s.store.heap.addInstance count className).lastAddress.toWord) hgrown rfl
        (fun callee hc => by cases hc) usable_nil
      exact Ready.evalArgs hready (.routine m _ false) (D.construct hs.heap hcount hm) []
        (hargs.grow hstep)
    · split
      · exact hgrown.constructed className _
      · exact hgrown.raise _ _

theorem Ready.eval (hs : D.Ready .value s) {e : Expr}
    (he : D.Usable s.store.heap s.store.stack.live (exprVars e)) :
    D.Holds (Machine.eval setting s e) := by
  have hready : D.Ready .value { s with pending := .locate e.span :: s.pending } :=
    Ready.pend (p := .locate e.span) hs rfl (fun callee hc => by cases hc) usable_nil
  cases e with
  | missing => exact hready.fail _
  | integer span value => exact hready.goto rfl usable_nil
  | truth span value => exact hready.goto rfl usable_nil
  | var span v => exact hready.yield _
  | self span => exact hready.yield _
  | not span operand => exact Ready.push hready rfl rfl rfl (Usable.append.mpr ⟨he, usable_nil⟩)
  | isNull span operand => exact Ready.push hready rfl rfl rfl (Usable.append.mpr ⟨he, usable_nil⟩)
  | binary span op left right => exact Ready.push hready rfl rfl rfl he
  | index span array index => exact Ready.push hready rfl rfl rfl he
  | length span array => exact Ready.push hready rfl rfl rfl (Usable.append.mpr ⟨he, usable_nil⟩)
  | newArray span elem length =>
      exact Ready.push hready rfl rfl rfl (Usable.append.mpr ⟨he, usable_nil⟩)
  | newObject span className listed args => exact hready.construct className he
  | call span receiver name listed args => exact hready.startCall name true he

theorem Ready.exec (hs : D.Ready .done s) {stmt : Stmt}
    (hstmt : D.Usable s.store.heap s.store.stack.live (stmtVars stmt)) :
    D.Holds (Machine.exec setting s stmt) := by
  cases stmt with
  | missing => exact hs.fail _
  | block b =>
      refine hs.goto rfl ?_
      rw [Control.vars, Layout.stmtsVars_body]
      exact hstmt
  | declare span type name => exact hs.goto rfl usable_nil
  | branch span cond onTrue onFalse => exact Ready.push hs rfl rfl rfl hstmt
  | loop span cond body =>
      obtain ⟨hcond, -⟩ := Usable.append.mp hstmt
      exact Ready.push hs rfl rfl rfl (Usable.append.mpr ⟨hcond, hstmt⟩)
  | output span value => exact Ready.push hs rfl rfl rfl (Usable.append.mpr ⟨hstmt, usable_nil⟩)
  | assign span v value =>
      have hvars : D.Usable s.store.heap s.store.stack.live ([v] ++ exprVars value) := hstmt
      obtain ⟨hv, hvalue⟩ := Usable.append.mp hvars
      exact Ready.push hs rfl rfl rfl (Usable.append.mpr ⟨hvalue, hv⟩)
  | assignIndex span array index value => exact Ready.push hs rfl rfl rfl hstmt
  | call span receiver name listed args =>
      have hready := Ready.pend (p := .discard) hs rfl (fun callee hc => by cases hc) usable_nil
      exact Ready.startCall hready name false hstmt

theorem Ready.execAll (hs : D.Ready .done s) {stmts : List Stmt}
    (hstmts : D.Usable s.store.heap s.store.stack.live (stmtsVars stmts)) :
    D.Holds (Machine.execAll setting s stmts) := by
  cases stmts with
  | nil => exact hs.goto rfl usable_nil
  | cons stmt rest =>
      obtain ⟨hstmt, hrest⟩ := Usable.append.mp hstmts
      have hready := Ready.pend (p := .next stmt.span rest) hs rfl (fun callee hc => by cases hc)
        hrest
      exact Ready.exec hready hstmt

/-- What waits for a value in the innermost frame goes on. -/
theorem Ready.resume {p : Pending} (hs : D.Ready p.hands s) (v : Word) (hawaits : p.awaits = .value)
    (hdrops : p.dropsFrame = false)
    (hcallee : ∀ callee, p.callee? = some callee → D.Callable s.store.heap callee)
    (hvars : D.Usable s.store.heap s.store.stack.live p.vars) :
    D.Holds (Machine.resume setting s v p) := by
  cases p with
  | locate span => exact hs.goto rfl usable_nil
  | negate => exact hs.goto rfl usable_nil
  | testNull => exact hs.goto rfl usable_nil
  | rightOperand op right =>
      exact Ready.push (p := .combine op v) hs rfl rfl rfl (Usable.append.mpr ⟨hvars, usable_nil⟩)
  | combine op left => exact Ready.yield hs _
  | indexOf index =>
      unfold Machine.resume
      dsimp only
      split
      · exact hs.fail _
      · exact Ready.push (p := .readAt v) hs rfl rfl rfl (Usable.append.mpr ⟨hvars, usable_nil⟩)
  | readAt ref => exact Ready.yield hs _
  | measure => exact Ready.yield hs _
  | makeArray elem =>
      unfold Machine.resume
      dsimp only
      split
      · exact hs.fail _
      · rename_i h hadd
        have hready := hs.setHeap (Heap.Step.addArray hadd)
        exact ⟨.value, ⟨hready.heap, hready.pending⟩, rfl, usable_nil⟩
  | receive name args wantsValue => exact Ready.receive hs v name wantsValue hvars
  | argument callee evaluated rest =>
      exact Ready.evalArgs hs callee (hcallee callee rfl) _ hvars
  | constructed className ref => exact Ready.constructed hs className ref
  | choose onTrue onFalse =>
      obtain ⟨htrue, hfalse⟩ := Usable.append.mp hvars
      refine hs.goto rfl ?_
      rw [Control.vars]
      split
      · rw [Layout.stmtsVars_body]
        exact htrue
      · rw [Layout.stmtsVars_body]
        exact hfalse
  | test cond body =>
      obtain ⟨hcond, hbody⟩ := Usable.append.mp hvars
      unfold Machine.resume
      dsimp only
      split
      · refine Ready.push (p := .again cond body) hs rfl rfl rfl (Usable.append.mpr ⟨?_, hvars⟩)
        rw [Control.vars, Layout.stmtsVars_body]
        exact hbody
      · exact hs.goto rfl usable_nil
  | print => exact Ready.print hs v
  | assign var => exact Ready.writeVar hs v hvars
  | assignIndexOf index value =>
      unfold Machine.resume
      dsimp only
      split
      · exact hs.fail _
      · exact Ready.push (p := .assignValueOf v value) hs rfl rfl rfl hvars
  | assignValueOf ref value =>
      exact Ready.push (p := .writeAt ref v) hs rfl rfl rfl (Usable.append.mpr ⟨hvars, usable_nil⟩)
  | writeAt ref index => exact Ready.writeAt hs ref index v
  | discard => exact hs.goto rfl usable_nil
  | result => cases hdrops
  | activation value => cases hdrops
  | next span rest => cases hawaits
  | again cond body => cases hawaits

/-- What waits for the end of statements in the innermost frame goes on. -/
theorem Ready.proceed {p : Pending} (hs : D.Ready p.hands s) (hawaits : p.awaits = .done)
    (hdrops : p.dropsFrame = false)
    (hvars : D.Usable s.store.heap s.store.stack.live p.vars) : D.Holds (Machine.proceed s p) := by
  cases p with
  | next span rest => exact hs.goto rfl hvars
  | again cond body =>
      obtain ⟨hcond, -⟩ := Usable.append.mp hvars
      exact Ready.push (p := .test cond body) hs rfl rfl rfl (Usable.append.mpr ⟨hcond, hvars⟩)
  | activation value => cases hdrops
  | _ => cases hawaits

theorem Ready.unwind (hs : D.Ready k s) (f : Failure) {p : Pending} (hdrops : p.dropsFrame = false) :
    D.Holds (Machine.unwind s f p) := by
  cases p with
  | activation value => cases hdrops
  | result => cases hdrops
  | _ => exact hs.fail _

/-- Dropping the innermost frame leaves what is pending to the caller. -/
theorem holds_pop {control : Control} {pending : List Pending} {frame : Frame} {below : List Frame}
    (hheap : D.heap s.store.heap) (hlive : s.store.stack.live = frame :: below)
    (hpending : D.Segments s.store.heap k pending below) (hk : control.Hands k)
    (hvars : control.vars = []) :
    D.Holds { s with
      control := control
      pending := pending
      store.stack := s.store.stack.pop } := by
  refine ⟨k, ⟨hheap, ?_⟩, hk, ?_⟩
  · dsimp only
    rw [CallStack.live_pop, hlive]
    exact hpending
  · dsimp only
    rw [hvars]
    exact usable_nil

end Step

/-! ### Runs -/

/-- What is pending below the top, if the top belongs to the innermost frame. -/
theorem Ready.stay {k : Handed} {control : Control} {p : Pending} {pending : List Pending}
    {store : Store} (hs : D.Ready k ⟨control, p :: pending, store⟩) (hdrops : p.dropsFrame = false) :
    D.Ready p.hands ⟨control, pending, store⟩ := by
  obtain ⟨hheap, -, -, -, hrest⟩ := hs
  rw [hdrops] at hrest
  exact ⟨hheap, hrest⟩

/-- What is pending below the top, if the innermost frame is dropped with it. -/
theorem Ready.drop {k : Handed} {control : Control} {p : Pending} {pending : List Pending}
    {store : Store} (hs : D.Ready k ⟨control, p :: pending, store⟩) (hdrops : p.dropsFrame = true) :
    ∃ frame below, store.stack.live = frame :: below ∧
      D.Segments store.heap p.hands pending below := by
  obtain ⟨-, -, -, -, hrest⟩ := hs
  rw [hdrops] at hrest
  dsimp only at hrest
  cases hlive : store.stack.live with
  | nil =>
      rw [hlive] at hrest
      exact hrest.elim
  | cons frame below =>
      rw [hlive] at hrest
      exact ⟨frame, below, rfl, hrest⟩

theorem holds_resume {v : Word} {pending : List Pending} {store : Store}
    (hs : D.Ready .value ⟨.value v, pending, store⟩) :
    D.Holds (Machine.step setting ⟨.value v, pending, store⟩) := by
  cases pending with
  | nil => exact ⟨.value, hs, rfl, usable_nil⟩
  | cons p pending =>
      obtain ⟨hawaits, hvars, hcallee, -⟩ := hs.pending
      cases hdrops : p.dropsFrame with
      | false => exact (hs.stay hdrops).resume v hawaits.symm hdrops hcallee hvars
      | true =>
          obtain ⟨frame, below, hlive, hrest⟩ := hs.drop hdrops
          rcases Pending.dropsFrame_cases hdrops with rfl | ⟨value, rfl⟩
          · exact holds_pop hs.heap hlive hrest rfl rfl
          · cases hawaits

theorem holds_proceed {pending : List Pending} {store : Store}
    (hs : D.Ready .done ⟨.done, pending, store⟩) :
    D.Holds (Machine.step setting ⟨.done, pending, store⟩) := by
  cases pending with
  | nil => exact ⟨.done, hs, rfl, usable_nil⟩
  | cons p pending =>
      obtain ⟨hawaits, hvars, -, -⟩ := hs.pending
      cases hdrops : p.dropsFrame with
      | false => exact (hs.stay hdrops).proceed hawaits.symm hdrops hvars
      | true =>
          obtain ⟨frame, below, hlive, hrest⟩ := hs.drop hdrops
          rcases Pending.dropsFrame_cases hdrops with rfl | ⟨value, rfl⟩
          · cases hawaits
          · cases value with
            | none => exact holds_pop hs.heap hlive hrest rfl rfl
            | some result =>
                change D.Holds ⟨.expr result, .result :: pending, store⟩
                refine ⟨.value, ⟨hs.heap, rfl, usable_nil, ?_, ?_⟩, rfl, hvars⟩
                · intro callee hc
                  cases hc
                · dsimp only [Pending.dropsFrame]
                  rw [hlive]
                  exact hrest

theorem holds_unwind {k : Handed} {f : Failure} {pending : List Pending} {store : Store}
    (hs : D.Ready k ⟨.failed f, pending, store⟩) :
    D.Holds (Machine.step setting ⟨.failed f, pending, store⟩) := by
  cases pending with
  | nil => exact ⟨k, hs, trivial, usable_nil⟩
  | cons p pending =>
      cases hdrops : p.dropsFrame with
      | false => exact (hs.stay hdrops).unwind f hdrops
      | true =>
          obtain ⟨frame, below, hlive, hrest⟩ := hs.drop hdrops
          rcases Pending.dropsFrame_cases hdrops with rfl | ⟨value, rfl⟩
          · exact holds_pop hs.heap hlive hrest trivial rfl
          · exact holds_pop hs.heap hlive hrest trivial rfl

/-- One step keeps a discipline. -/
theorem Holds.step {s : State} (hs : D.Holds s) : D.Holds (Machine.step setting s) := by
  obtain ⟨control, pending, store⟩ := s
  obtain ⟨k, hready, hk, hcontrol⟩ := hs
  cases control with
  | expr e =>
      cases hk
      exact hready.eval hcontrol
  | stmts stmts =>
      cases hk
      exact hready.execAll hcontrol
  | value v =>
      cases hk
      exact holds_resume hready
  | done =>
      cases hk
      exact holds_proceed hready
  | failed f => exact holds_unwind hready

/-- Every state of a run follows the discipline that its first state follows. -/
theorem Holds.reaches {s t : State} (hs : D.Holds s) (h : Machine.Reaches setting s t) :
    D.Holds t :=
  h.invariant (P := D.Holds) (fun _ hstate => hstate.step) hs

/-- What is known at the end holds in a final state that is reached. -/
theorem Holds.final {s t : State} {n : Nat} (hs : D.Holds s)
    (h : Machine.run setting n s = some t) :
    ∃ k, t.control.Hands k ∧ D.base k t.store.stack.live := by
  obtain ⟨k, hready, hhands, -⟩ := hs.reaches (Machine.reaches_of_run h)
  have hpending := hready.pending
  rw [((State.isFinal_iff t).mp (Machine.isFinal_of_run h)).1] at hpending
  exact ⟨k, hhands, hpending⟩

/-- The discipline of heights: a frame that stands on fewer than `least` others is not used, and what
is known at the end does not tell apart what is written to the others. -/
def heights (setting : Setting) (least : Nat) (base : Handed → List Frame → Prop)
    (hfloor : ∀ {k frames}, base k frames → least ≤ frames.length)
    (hwrite : ∀ {k f g below}, least ≤ below.length → base k (f :: below) → base k (g :: below)) :
    Discipline setting where
  heap _ := True
  allows height _ _ _ := least ≤ height
  admits _ _ _ := True
  base := base
  floor := least
  floor_le := hfloor
  grow_heap _ h := h
  grow_allows _ h := h
  grow_admits _ h := h
  write_allows _ _ _ _ h := h
  write_base _ h _ _ hbase := hwrite h hbase
  enter h _ _ _ := h
  callTop _ _ := trivial
  dispatch _ _ _ := trivial
  construct _ _ _ := trivial

/-- The discipline that knows only what is handed on at the end. -/
def handing (setting : Setting) (k : Handed) : Discipline setting :=
  heights setting 0 (fun k' _ => k' = k) (fun _ => Nat.zero_le _) (fun _ h => h)

end Discipline

namespace Machine

variable {setting : Setting} {n : Nat} {σ : Store} {t : State}

/-- Code hands on what its kind hands on, or fails. -/
theorem hands_of_run {k : Handed} {control : Control}
    (h : run setting n ⟨control, [], σ⟩ = some t) (hk : control.Hands k) : t.control.Hands k := by
  have hstart : (Discipline.handing setting k).Holds ⟨control, [], σ⟩ :=
    ⟨k, ⟨trivial, rfl⟩, hk, fun _ _ _ _ _ => Nat.zero_le _⟩
  obtain ⟨k', hhands, hbase⟩ := hstart.final h
  cases hbase
  exact hhands

theorem run_expr_cases {e : Expr} (h : run setting n ⟨.expr e, [], σ⟩ = some t) :
    (∃ v τ, t = ⟨.value v, [], τ⟩) ∨ ∃ f τ, t = ⟨.failed f, [], τ⟩ := by
  have hhands : t.control.Hands .value := hands_of_run h rfl
  obtain ⟨control, pending, τ⟩ := t
  obtain ⟨hpending, hcontrol⟩ := (State.isFinal_iff _).mp (isFinal_of_run h)
  dsimp only at hpending hcontrol hhands
  subst hpending
  rcases hcontrol with ⟨v, rfl⟩ | rfl | ⟨f, rfl⟩
  · exact .inl ⟨v, τ, rfl⟩
  · cases hhands
  · exact .inr ⟨f, τ, rfl⟩

theorem run_stmts_cases {body : List Stmt} (h : run setting n ⟨.stmts body, [], σ⟩ = some t) :
    (∃ τ, t = ⟨.done, [], τ⟩) ∨ ∃ f τ, t = ⟨.failed f, [], τ⟩ := by
  have hhands : t.control.Hands .done := hands_of_run h rfl
  obtain ⟨control, pending, τ⟩ := t
  obtain ⟨hpending, hcontrol⟩ := (State.isFinal_iff _).mp (isFinal_of_run h)
  dsimp only at hpending hcontrol hhands
  subst hpending
  rcases hcontrol with ⟨v, rfl⟩ | rfl | ⟨f, rfl⟩
  · cases hhands
  · exact .inl ⟨τ, rfl⟩
  · exact .inr ⟨f, τ, rfl⟩

/-- An expression is evaluated first; what is pending then goes on with its value or is dropped. -/
theorem run_expr_succ {e : Expr} {p : Pending} {pending : List Pending}
    (h : run setting (n + 1) ⟨.expr e, p :: pending, σ⟩ = some t) :
    (∃ v τ, run setting n ⟨.expr e, [], σ⟩ = some ⟨.value v, [], τ⟩ ∧
        run setting n (resume setting ⟨.value v, pending, τ⟩ v p) = some t) ∨
      ∃ f τ, run setting n ⟨.expr e, [], σ⟩ = some ⟨.failed f, [], τ⟩ ∧
        run setting n (unwind ⟨.failed f, pending, τ⟩ f p) = some t := by
  have hunder : run setting (n + 1) (State.under ⟨.expr e, [], σ⟩ (p :: pending)) = some t := h
  obtain ⟨u, hu, -, ht⟩ := run_under_succ hunder
  rcases run_expr_cases hu with ⟨v, τ, rfl⟩ | ⟨f, τ, rfl⟩
  · exact .inl ⟨v, τ, hu, ht⟩
  · exact .inr ⟨f, τ, hu, ht⟩

theorem run_expr {e : Expr} {p : Pending} {pending : List Pending}
    (h : run setting n ⟨.expr e, p :: pending, σ⟩ = some t) :
    (∃ v τ, run setting n ⟨.expr e, [], σ⟩ = some ⟨.value v, [], τ⟩ ∧
        run setting n (resume setting ⟨.value v, pending, τ⟩ v p) = some t) ∨
      ∃ f τ, run setting n ⟨.expr e, [], σ⟩ = some ⟨.failed f, [], τ⟩ ∧
        run setting n (unwind ⟨.failed f, pending, τ⟩ f p) = some t := by
  cases n with
  | zero => cases h
  | succ n =>
      have hle := Nat.le_succ n
      rcases run_expr_succ h with ⟨v, τ, hvalue, ht⟩ | ⟨f, τ, hfailed, ht⟩
      · exact .inl ⟨v, τ, run_mono hle hvalue, run_mono hle ht⟩
      · exact .inr ⟨f, τ, run_mono hle hfailed, run_mono hle ht⟩

/-- Statements are executed first; what is pending then goes on or is dropped. -/
theorem run_stmts {body : List Stmt} {p : Pending} {pending : List Pending}
    (h : run setting n ⟨.stmts body, p :: pending, σ⟩ = some t) :
    (∃ τ, run setting n ⟨.stmts body, [], σ⟩ = some ⟨.done, [], τ⟩ ∧
        run setting n (proceed ⟨.done, pending, τ⟩ p) = some t) ∨
      ∃ f τ, run setting n ⟨.stmts body, [], σ⟩ = some ⟨.failed f, [], τ⟩ ∧
        run setting n (unwind ⟨.failed f, pending, τ⟩ f p) = some t := by
  have hunder : run setting n (State.under ⟨.stmts body, [], σ⟩ (p :: pending)) = some t := h
  obtain ⟨u, hu, -, ht⟩ := run_under hunder
  rcases run_stmts_cases hu with ⟨τ, rfl⟩ | ⟨f, τ, rfl⟩
  · exact .inl ⟨τ, hu, run_step ht⟩
  · exact .inr ⟨f, τ, hu, run_step ht⟩

end Machine

end ObjectLang
