import ObjectLang.Proofs.Frames

/-! The growth of the store. A step adds one object of zeros to the heap, at the next address, or
writes a value into an object that is there, or leaves the heap as it is; what was printed and traced
stays. So whatever is evaluated, and however it ends, leaves every object with its kind, its type and
its length, and gives addresses to new objects one after the other. -/

namespace ObjectLang

/-- Two objects of one kind, type and length. -/
structure HeapObject.SameShape (o o' : HeapObject) : Prop where
  kind : o'.kind = o.kind
  type : o'.type = o.type
  length : o'.length = o.length

theorem HeapObject.SameShape.trans {o o' o'' : HeapObject} (h : o.SameShape o')
    (h' : o'.SameShape o'') : o.SameShape o'' :=
  ⟨h'.kind.trans h.kind, h'.type.trans h.type, h'.length.trans h.length⟩

namespace Heap

variable {h h' h'' : Heap} {table : ClassTable}

/-- What a heap may grow to: references still mean an object of the same shape. -/
structure Extends (h h' : Heap) : Prop where
  size_le : h.size ≤ h'.size
  keeps : ∀ {ref o}, h.deref ref = .ok o → ∃ o', h'.deref ref = .ok o' ∧ o.SameShape o'

theorem Extends.refl (h : Heap) : h.Extends h :=
  ⟨Nat.le_refl _, fun ho => ⟨_, ho, rfl, rfl, rfl⟩⟩

theorem Extends.trans (first : h.Extends h') (second : h'.Extends h'') : h.Extends h'' := by
  refine ⟨Nat.le_trans first.size_le second.size_le, ?_⟩
  intro ref o ho
  obtain ⟨o', ho', hshape⟩ := first.keeps ho
  obtain ⟨o'', ho'', hshape'⟩ := second.keeps ho'
  exact ⟨o'', ho'', hshape.trans hshape'⟩

theorem Step.extends (step : Step table h h') : h.Extends h' := by
  refine ⟨step.size_le, ?_⟩
  intro ref o ho
  obtain ⟨o', ho', hkind, htype, hlength⟩ := step.deref ho
  exact ⟨o', ho', hkind, htype, hlength⟩

/-- The next address is given to an object of zeros. -/
structure Allocates (h h' : Heap) (ref : Word) (o : HeapObject) : Prop where
  zeroed : o = .zeroed o.kind o.type o.length
  added : h' = h.add o
  toInt_ref : ref.toInt = h.size + 1
  deref : h'.deref ref = .ok o

theorem allocates_add {o : HeapObject} (hzeroed : o = .zeroed o.kind o.type o.length)
    (hsmall : (h.add o).size < 2 ^ 31) : h.Allocates (h.add o) (h.add o).lastAddress.toWord o := by
  refine ⟨hzeroed, rfl, ?_, deref_lastAddress o hsmall⟩
  rw [toInt_lastAddress hsmall, size_add]
  rfl

theorem zeroed_zeroed (kind : ObjectKind) (type : String) (length : Nat) :
    HeapObject.zeroed kind type length =
      .zeroed kind type (HeapObject.zeroed kind type length).length := by
  simp [HeapObject.zeroed, HeapObject.length]

/-- A step of a run keeps the number of objects, or adds one of zeros. -/
theorem Step.size_eq_or_added (step : Step table h h') :
    h'.size = h.size ∨ ∃ o : HeapObject, o = .zeroed o.kind o.type o.length ∧ h' = h.add o := by
  cases step with
  | stay => exact .inl rfl
  | addInstance hcount => exact .inr ⟨_, zeroed_zeroed _ _ _, rfl⟩
  | addArray hadd => exact .inr ⟨_, zeroed_zeroed _ _ _, addArray_ok hadd⟩
  | write value hplace => exact .inl (by simp [Heap.store, Heap.size])

theorem Step.size_eq_or_allocates (step : Step table h h') (hsmall : h'.size < 2 ^ 31) :
    h'.size = h.size ∨ ∃ ref o, h.Allocates h' ref o := by
  rcases step.size_eq_or_added with hsize | ⟨o, hzeroed, rfl⟩
  · exact .inl hsize
  · exact .inr ⟨_, o, allocates_add hzeroed hsmall⟩

/-- Where the number of objects passes a number, the object of that address is allocated. -/
theorem Step.allocates_of_lt (step : Step table h h') {k : Nat} (hle : h.size ≤ k)
    (hlt : k < h'.size) (hsmall : k + 1 < 2 ^ 31) :
    ∃ ref o, h.Allocates h' ref o ∧ ref.toInt = k + 1 := by
  rcases step.size_eq_or_added with hsize | ⟨o, hzeroed, rfl⟩
  · omega
  · have hk : h.size = k := by
      rw [size_add] at hlt
      omega
    have halloc := allocates_add hzeroed (h := h) (by rw [size_add, hk]; exact hsmall)
    exact ⟨_, o, halloc, by rw [halloc.toInt_ref, hk]⟩

end Heap

/-- Whether a sink takes a line after a number of them. -/
def Sink.Accepts : Sink → Nat → Prop
  | .unlimited, _ => True
  | .limited capacity _, count => count < capacity

/-- What a step does to what was printed: nothing, or it adds a line that the sink takes. -/
inductive Prints (sink : Sink) (printed : Array Word) : Array Word → Prop
  | stay : Prints sink printed printed
  | line (value : Word) (haccepts : sink.Accepts printed.size) :
      Prints sink printed (printed.push value)

theorem Prints.isPrefix {sink : Sink} {printed printed' : Array Word}
    (h : Prints sink printed printed') : printed.toList <+: printed'.toList := by
  cases h with
  | stay => exact List.prefix_rfl
  | line value haccepts => simp

/-- What a step does to the heap and to what was printed and traced. -/
structure Store.Grows (setting : Setting) (σ τ : Store) : Prop where
  heap : Heap.Step setting.table σ.heap τ.heap
  printed : Prints setting.sink σ.printed τ.printed
  traced : σ.traced.toList <+: τ.traced.toList

theorem Store.Grows.refl (setting : Setting) (σ : Store) : σ.Grows setting σ :=
  ⟨.stay, .stay, List.prefix_rfl⟩

namespace Machine

section Calls

variable {setting : Setting} {σ : Store} {u : State} (hu : σ.Grows setting u.store)
include hu

theorem grows_constructed (className : String) (ref : Word) :
    σ.Grows setting (constructed setting u className ref).store := by
  unfold constructed
  split
  · split
    · refine ⟨hu.heap, hu.printed, hu.traced.trans ?_⟩
      simp
    · exact hu
  · exact hu

theorem grows_enter (m : Method) (self : Word) (args : List Word) (wantsValue : Bool) :
    σ.Grows setting (enter u m self args wantsValue).store := by
  unfold enter
  dsimp only
  split
  · exact hu
  · split
    · exact hu
    · split
      · exact hu
      · exact ⟨hu.heap, hu.printed, hu.traced⟩

theorem grows_evalArgs (callee : Callee) (evaluated : List Word) (args : List Expr) :
    σ.Grows setting (evalArgs setting u callee evaluated args).store := by
  cases args with
  | cons e rest => exact hu
  | nil =>
      cases callee with
      | routine m self wantsValue => exact grows_enter hu m self _ wantsValue
      | method className name self wantsValue =>
          unfold evalArgs call
          dsimp only
          split
          · exact hu
          · exact grows_enter hu _ self _ wantsValue

theorem grows_callTop (name : String) (args : List Expr) (wantsValue : Bool) :
    σ.Grows setting (callTop setting u name args wantsValue).store := by
  unfold callTop
  split
  · exact hu
  · exact grows_evalArgs hu _ [] args

theorem grows_startCall (receiver : Expr) (name : String) (args : List Expr) (wantsValue : Bool) :
    σ.Grows setting (startCall setting u receiver name args wantsValue).store := by
  cases receiver with
  | missing => exact grows_callTop hu name args wantsValue
  | _ => exact hu

theorem grows_receive (ref : Word) (name : String) (args : List Expr) (wantsValue : Bool) :
    σ.Grows setting (receive setting u ref name args wantsValue).store := by
  unfold receive
  split
  · exact hu
  · split
    · exact hu
    · exact grows_evalArgs hu _ [] args

end Calls

section Steps

variable (setting : Setting) (s : State)

theorem grows_yield (r : Except Fault Word) : s.store.Grows setting (s.yield r).store := by
  cases r <;> exact .refl _ _

theorem grows_writeAt (ref index value : Word) :
    s.store.Grows setting (writeAt s ref index value).store := by
  unfold writeAt
  split
  · exact .refl _ _
  · next place hplace => exact ⟨.write value hplace, .stay, List.prefix_rfl⟩

theorem grows_writeVar (v : Var) (value : Word) :
    s.store.Grows setting (writeVar s v value).store := by
  unfold writeVar
  split
  · split
    · exact .refl _ _
    · exact ⟨.stay, .stay, List.prefix_rfl⟩
  · split
    · exact .refl _ _
    · next place hplace =>
        obtain ⟨self, -, hplace⟩ := bind_ok hplace
        exact ⟨.write value hplace, .stay, List.prefix_rfl⟩
  · exact .refl _ _

theorem grows_print (value : Word) : s.store.Grows setting (print setting s value).store := by
  unfold print
  dsimp only
  split
  · next hsink => exact ⟨.stay, .line value (by rw [hsink]; trivial), List.prefix_rfl⟩
  · next capacity complaint hsink =>
      split
      · next hroom => exact ⟨.stay, .line value (by rw [hsink]; exact hroom), List.prefix_rfl⟩
      · exact .refl _ _

theorem grows_construct (className : String) (args : List Expr) :
    s.store.Grows setting (construct setting s className args).store := by
  unfold construct
  split
  · exact .refl _ _
  · next count hcount =>
      let grown : State :=
        { s with store.heap := s.store.heap.addInstance count className }
      have hgrown : s.store.Grows setting grown.store :=
        ⟨.addInstance hcount, .stay, List.prefix_rfl⟩
      dsimp only
      split
      · exact grows_evalArgs (u := { grown with
          pending := .constructed className grown.store.heap.lastAddress.toWord :: s.pending })
          hgrown _ [] args
      · split
        · exact grows_constructed hgrown className _
        · exact hgrown

theorem grows_eval (e : Expr) : s.store.Grows setting (eval setting s e).store := by
  let located : State := { s with pending := .locate e.span :: s.pending }
  have hlocated : s.store.Grows setting located.store := .refl _ _
  cases e with
  | var span v => exact grows_yield setting located _
  | self span => exact grows_yield setting located _
  | newObject span className listed args => exact grows_construct setting located className args
  | call span receiver name listed args => exact grows_startCall hlocated receiver name args true
  | _ => exact hlocated

theorem grows_exec (stmt : Stmt) : s.store.Grows setting (exec setting s stmt).store := by
  cases stmt with
  | call span receiver name listed args =>
      let discarding : State := { s with pending := .discard :: s.pending }
      have hdiscarding : s.store.Grows setting discarding.store := .refl _ _
      exact grows_startCall hdiscarding receiver name args false
  | _ => exact .refl _ _

theorem grows_resume (v : Word) (p : Pending) :
    s.store.Grows setting (resume setting s v p).store := by
  have hs : s.store.Grows setting s.store := .refl _ _
  cases p with
  | combine op left => exact grows_yield setting s _
  | readAt ref => exact grows_yield setting s _
  | measure => exact grows_yield setting s _
  | indexOf index | assignIndexOf index value =>
      unfold resume
      dsimp only
      split <;> exact hs
  | makeArray elem =>
      unfold resume
      dsimp only
      split
      · exact hs
      · next heap hadd => exact ⟨.addArray hadd, .stay, List.prefix_rfl⟩
  | receive name args wantsValue => exact grows_receive hs v name args wantsValue
  | argument callee evaluated rest => exact grows_evalArgs hs callee _ rest
  | constructed className ref => exact grows_constructed hs className ref
  | result => exact ⟨.stay, .stay, List.prefix_rfl⟩
  | test cond body =>
      unfold resume
      dsimp only
      split <;> exact hs
  | print => exact grows_print setting s v
  | assign var => exact grows_writeVar setting s var v
  | writeAt ref index => exact grows_writeAt setting s ref index v
  | _ => exact hs

theorem grows_proceed (p : Pending) : s.store.Grows setting (proceed s p).store := by
  cases p with
  | activation result =>
      cases result with
      | none => exact ⟨.stay, .stay, List.prefix_rfl⟩
      | some result => exact .refl _ _
  | _ => exact .refl _ _

theorem grows_unwind (f : Failure) (p : Pending) :
    s.store.Grows setting (unwind s f p).store := by
  cases p with
  | result | activation value => exact ⟨.stay, .stay, List.prefix_rfl⟩
  | _ => exact .refl _ _

/-- What one step does to the store, the stack apart. -/
theorem grows_step : s.store.Grows setting (step setting s).store := by
  obtain ⟨control, pending, store⟩ := s
  cases control with
  | expr e => exact grows_eval setting ⟨.expr e, pending, store⟩ e
  | stmts stmts =>
      cases stmts with
      | nil => exact .refl _ _
      | cons stmt rest =>
          exact grows_exec setting ⟨.stmts (stmt :: rest), .next stmt.span rest :: pending, store⟩
            stmt
  | value v =>
      cases pending with
      | nil => exact .refl _ _
      | cons p rest => exact grows_resume setting ⟨.value v, rest, store⟩ v p
  | done =>
      cases pending with
      | nil => exact .refl _ _
      | cons p rest => exact grows_proceed setting ⟨.done, rest, store⟩ p
  | failed f =>
      cases pending with
      | nil => exact .refl _ _
      | cons p rest => exact grows_unwind setting ⟨.failed f, rest, store⟩ f p

end Steps

theorem extends_of_reaches {setting : Setting} {s t : State} (h : Reaches setting s t) :
    s.store.heap.Extends t.store.heap :=
  h.invariant (P := fun u => s.store.heap.Extends u.store.heap)
    (fun u hu => hu.trans (grows_step setting u).heap.extends) (.refl _)

theorem printed_of_reaches {setting : Setting} {s t : State} (h : Reaches setting s t) :
    s.store.printed.toList <+: t.store.printed.toList :=
  h.invariant (P := fun u => s.store.printed.toList <+: u.store.printed.toList)
    (fun u hu => hu.trans (grows_step setting u).printed.isPrefix) List.prefix_rfl

theorem traced_of_reaches {setting : Setting} {s t : State} (h : Reaches setting s t) :
    s.store.traced.toList <+: t.store.traced.toList :=
  h.invariant (P := fun u => s.store.traced.toList <+: u.store.traced.toList)
    (fun u hu => hu.trans (grows_step setting u).traced) List.prefix_rfl

end Machine

namespace Task

variable {setting : Setting} {σ : Store} {task : Task} {h h' : Heap}

theorem grows_start (setting : Setting) (σ : Store) (task : Task) :
    σ.Grows setting (task.start setting σ).store := by
  have hstart : σ.Grows setting (⟨.done, [], σ⟩ : State).store := .refl _ _
  cases task with
  | expr e => exact hstart
  | stmt s => exact Machine.grows_exec setting ⟨.done, [], σ⟩ s
  | stmts body => exact hstart
  | call c =>
      cases c with
      | onReceiver receiver name args wantsValue =>
          exact Machine.grows_startCall hstart receiver name args wantsValue
      | topLevel name args wantsValue => exact Machine.grows_callTop hstart name args wantsValue
      | routine m self args wantsValue => exact Machine.grows_enter hstart m self args wantsValue
      | constructor className args =>
          exact Machine.grows_construct setting ⟨.done, [], σ⟩ className args

/-- At some moment of the evaluation the heap goes from one to another. -/
def Passes (setting : Setting) (σ : Store) (task : Task) (h h' : Heap) : Prop :=
  (h = σ.heap ∧ h' = (task.start setting σ).store.heap) ∨
    ∃ u, Machine.Reaches setting (task.start setting σ) u ∧ h = u.store.heap ∧
      h' = (Machine.step setting u).store.heap

theorem Passes.step (hpasses : task.Passes setting σ h h') : Heap.Step setting.table h h' := by
  rcases hpasses with ⟨rfl, rfl⟩ | ⟨u, -, rfl, rfl⟩
  · exact (task.grows_start setting σ).heap
  · exact (Machine.grows_step setting u).heap

theorem extends_of_run {n : Nat} {t : State}
    (hrun : Machine.run setting n (task.start setting σ) = some t) :
    σ.heap.Extends t.store.heap :=
  (task.grows_start setting σ).heap.extends.trans
    (Machine.extends_of_reaches (Machine.reaches_of_run hrun))

/-- Every address that is new at the end was given to an object of zeros at some moment. -/
theorem allocates_of_run {n : Nat} {t : State}
    (hrun : Machine.run setting n (task.start setting σ) = some t) {k : Nat}
    (hle : σ.heap.size ≤ k) (hlt : k < t.store.heap.size) (hsmall : k + 1 < 2 ^ 31) :
    ∃ h h' ref o, task.Passes setting σ h h' ∧ h.Allocates h' ref o ∧ ref.toInt = k + 1 ∧
      ∃ o', t.store.heap.deref ref = .ok o' ∧ o.SameShape o' := by
  have hreaches := Machine.reaches_of_run hrun
  by_cases hstart : k < (task.start setting σ).store.heap.size
  · obtain ⟨ref, o, halloc, href⟩ :=
      (task.grows_start setting σ).heap.allocates_of_lt hle hstart hsmall
    exact ⟨_, _, ref, o, .inl ⟨rfl, rfl⟩, halloc, href,
      (Machine.extends_of_reaches hreaches).keeps halloc.deref⟩
  · obtain ⟨u, hu, hbefore, hafter, hrest⟩ :=
      hreaches.first (P := fun u => k < u.store.heap.size) hstart hlt
    obtain ⟨ref, o, halloc, href⟩ :=
      (Machine.grows_step setting u).heap.allocates_of_lt (by omega) hafter hsmall
    exact ⟨_, _, ref, o, .inr ⟨u, hu, rfl, rfl⟩, halloc, href,
      (Machine.extends_of_reaches hrest).keeps halloc.deref⟩

end Task

/-! ### New objects and arrays -/

namespace Machine

variable {setting : Setting} {σ τ : Store} {n : Nat} {t : State} {span : Span}

/-- An object that is constructed is handed on, and nothing else happens but that it may be traced. -/
theorem constructed_eq (setting : Setting) (s : State) (className : String) (ref : Word) :
    ∃ traced, constructed setting s className ref =
      { s with control := .value ref, store.traced := traced } := by
  unfold constructed
  split
  · split <;> exact ⟨_, rfl⟩
  · exact ⟨_, rfl⟩

/-- A construction that ends hands on the reference to its object. -/
theorem run_constructed {s : State} {className : String} {ref v : Word}
    (hpending : s.pending = [.locate span])
    (hrun : run setting n (constructed setting s className ref) = some ⟨.value v, [], τ⟩) :
    v = ref ∧ s.store.heap.Extends τ.heap := by
  have hgrows := grows_constructed (.refl setting s.store) className ref
  refine ⟨?_, hgrows.heap.extends.trans (extends_of_reaches (reaches_of_run hrun))⟩
  obtain ⟨traced, hconstructed⟩ := constructed_eq setting s className ref
  rw [hconstructed, hpending] at hrun
  cases eq_of_run_of_isFinal rfl (run_step hrun)
  rfl

/-- What is pending after a constructor hands on the reference, unless the constructor failed. -/
theorem value_of_constructed {s : State} (hfinal : s.isFinal = true) {className : String}
    {ref v : Word}
    (hrun : run setting n (s.under [.constructed className ref, .locate span]) =
      some ⟨.value v, [], τ⟩) : v = ref := by
  obtain ⟨control, pending, store⟩ := s
  obtain ⟨hpending, hcontrol⟩ := (State.isFinal_iff _).mp hfinal
  dsimp only at hpending hcontrol
  subst hpending
  obtain ⟨w, rfl⟩ | rfl | ⟨f, rfl⟩ := hcontrol
  · have hstep : run setting n (constructed setting ⟨.value w, [.locate span], store⟩ className ref)
        = some ⟨.value v, [], τ⟩ := run_step hrun
    exact (run_constructed rfl hstep).1
  · have hend : run setting n ⟨.done, [], store⟩ = some ⟨.value v, [], τ⟩ :=
      run_step (run_step hrun)
    cases eq_of_run_of_isFinal rfl hend
  · have hend : run setting n ⟨.failed (f.locate span), [], store⟩ = some ⟨.value v, [], τ⟩ :=
      run_step (run_step hrun)
    cases eq_of_run_of_isFinal rfl hend

theorem run_constructor {control : Control} {callee : Callee} {className : String}
    {args : List Expr} {ref v : Word}
    (hrun : run setting n (evalArgs setting ⟨control, [.constructed className ref, .locate span], σ⟩
      callee [] args) = some ⟨.value v, [], τ⟩) : v = ref ∧ σ.heap.Extends τ.heap := by
  have hgrows := grows_evalArgs (u := ⟨control, [.constructed className ref, .locate span], σ⟩)
    (.refl setting σ) callee [] args
  refine ⟨?_, hgrows.heap.extends.trans (extends_of_reaches (reaches_of_run hrun))⟩
  have hunder : run setting n ((evalArgs setting ⟨control, [], σ⟩ callee [] args).under
      [.constructed className ref, .locate span]) = some ⟨.value v, [], τ⟩ := by
    rw [← evalArgs_under]
    exact hrun
  obtain ⟨u, -, hfinal, hend⟩ := run_under hunder
  exact value_of_constructed hfinal hend

/-- An object has the address that was next before the arguments of its constructor were
evaluated. -/
theorem run_newObject {className : String} {listed : Bool} {args : List Expr} {v : Word}
    (hrun : run setting n ⟨.expr (.newObject span className listed args), [], σ⟩ =
      some ⟨.value v, [], τ⟩) (hsmall : σ.heap.size + 1 < 2 ^ 31) :
    ∃ h o, σ.heap.Allocates h v o ∧ o.kind = .classInstance ∧ o.type = className ∧
      ∃ o', τ.heap.deref v = .ok o' ∧ o.SameShape o' := by
  have hconstruct : run setting n (construct setting
      ⟨.expr (.newObject span className listed args), [.locate span], σ⟩ className args) =
        some ⟨.value v, [], τ⟩ := run_step hrun
  unfold construct at hconstruct
  split at hconstruct
  · cases eq_of_run_of_isFinal rfl (run_step hconstruct)
  · next count hcount =>
      let heap := σ.heap.addInstance count className
      have halloc : σ.heap.Allocates heap heap.lastAddress.toWord _ :=
        Heap.allocates_add (Heap.zeroed_zeroed _ _ _) (by rw [Heap.size_add]; exact hsmall)
      have hvalue : v = heap.lastAddress.toWord ∧ heap.Extends τ.heap := by
        dsimp only at hconstruct
        split at hconstruct
        · exact run_constructor hconstruct
        · split at hconstruct
          · exact run_constructed rfl hconstruct
          · cases eq_of_run_of_isFinal rfl (run_step hconstruct)
      obtain ⟨rfl, hextends⟩ := hvalue
      exact ⟨heap, _, halloc, rfl, rfl, hextends.keeps halloc.deref⟩

/-- An array has the address that was next after its length was evaluated; a negative length takes
no address. -/
theorem run_newArray {elem : TypeName} {length : Expr}
    (hrun : run setting n ⟨.expr (.newArray span elem length), [], σ⟩ = some t) {m : Nat} {k : Word}
    (hlength : run setting m ⟨.expr length, [], σ⟩ = some ⟨.value k, [], τ⟩) :
    (k.toInt < 0 → t.store.heap = τ.heap ∧
      ∃ f, t.control = .failed (.fault f) ∧ f.kind = .negativeArrayLength) ∧
    (0 ≤ k.toInt → τ.heap.size + 1 < 2 ^ 31 → ∃ ref, t.control = .value ref ∧
      τ.heap.Allocates t.store.heap ref (.zeroed .array elem.text k.toInt.toNat)) := by
  have hpending : run setting n ⟨.expr length, [.makeArray elem, .locate span], σ⟩ = some t :=
    run_step hrun
  have hresume : run setting n (resume setting ⟨.value k, [.locate span], τ⟩ k (.makeArray elem)) =
      some t := by
    rcases run_expr hpending with ⟨v, υ, hvalue, hrest⟩ | ⟨f, υ, hfailed, -⟩
    · cases run_unique hlength hvalue
      exact hrest
    · cases run_unique hlength hfailed
  unfold resume Heap.addArray at hresume
  dsimp only at hresume
  constructor
  · intro hneg
    rw [if_pos hneg] at hresume
    cases eq_of_run_of_isFinal rfl (run_step hresume)
    exact ⟨rfl, _, rfl, rfl⟩
  · intro hnonneg hsmall
    rw [if_neg (by omega)] at hresume
    cases eq_of_run_of_isFinal rfl (run_step hresume)
    have hzeroed := Heap.zeroed_zeroed .array elem.text k.toInt.toNat
    exact ⟨_, rfl, Heap.allocates_add hzeroed (by rw [Heap.size_add]; exact hsmall)⟩

end Machine

/-! ### Programs -/

/-- A program has the same fields in the table that is bound for it. -/
theorem Interpreter.fieldCount_boundTable {keepLayout : Bool} {p : Program}
    (hplaced : keepLayout = true ∨ p.layoutErrors (ClassTable.build p).1 = []) (name : String) :
    (Interpreter.boundTable keepLayout p).fieldCount name = (ClassTable.build p).1.fieldCount name := by
  cases keepLayout with
  | true => rfl
  | false =>
      have herrors : p.layoutErrors (ClassTable.build p).1 = [] := by simpa using hplaced
      have hknown (decl : ClassDecl) (hdecl : some decl ∈ p.classes) :
          Layout.isKnown (ClassTable.build p).1 decl = true :=
        Layout.isKnown_of_layoutErrors herrors hdecl
      have htable := Layout.build_place hknown
      rw [Interpreter.boundTable, if_neg Bool.false_ne_true, htable, ClassTable.fieldCount_mapRoutines]

theorem Heap.Sized.of_boundTable {keepLayout : Bool} {p : Program} {h : Heap}
    (hsized : h.Sized (Interpreter.boundTable keepLayout p))
    (hplaced : keepLayout = true ∨ p.layoutErrors (ClassTable.build p).1 = []) :
    h.Sized (ClassTable.build p).1 := by
  intro o ho hkind
  rw [← Interpreter.fieldCount_boundTable hplaced]
  exact hsized o ho hkind

namespace Interpreter

variable {i : Interpreter} {commands : List Command} {table : ClassTable} {s : State}

theorem Runs.sized (h : (i.bind table).Runs commands s) (hi : i.store.heap.Sized table) :
    s.store.heap.Sized table := by
  obtain ⟨_, stack, htable, -, hreaches⟩ := h
  cases htable
  exact hreaches.invariant (P := fun u => u.store.heap.Sized table)
    (fun u hu => (Machine.grows_step ⟨table, i.sink, i.tracing⟩ u).heap.sized hu) hi

theorem extends_runCommands (i : Interpreter) (steps : Nat) (commands : List Command) :
    i.store.heap.Extends (i.runCommands steps commands).1.store.heap := by
  rcases i.runCommands_cases steps commands with h | ⟨final, ⟨table, stack, -, -, hreaches⟩, -, h⟩
  · rw [h]
    exact .refl _
  · rw [h]
    exact Machine.extends_of_reaches hreaches

theorem extends_evaluate (i : Interpreter) (steps : Nat) (keepLayout : Bool)
    (program : Option Program) :
    i.store.heap.Extends (i.evaluate steps keepLayout program).1.store.heap := by
  rcases evaluate_uniform keepLayout program with ⟨ending, -, h⟩ | ⟨p, -, -, h⟩
  · rw [h i steps]
    exact .refl _
  · rw [h i steps]
    exact extends_runCommands (i.bind _) steps p.commands

theorem sized_runCommands (hi : i.store.heap.Sized table) (steps : Nat) (commands : List Command) :
    ((i.bind table).runCommands steps commands).1.store.heap.Sized table := by
  rcases (i.bind table).runCommands_cases steps commands with h | ⟨final, hruns, -, h⟩
  · rw [h]
    exact hi
  · rw [h]
    exact hruns.sized hi

end Interpreter

/-- **The heap only grows and keeps its shape.** Whatever is evaluated, and however it ends, leaves
every object that was there with its kind, its type and its length. At each moment the heap keeps
the number of its objects or is given one of zeros at the next address, so the addresses that are new
at the end were given one after the other. A new object has the address that was next when its
evaluation began, and a new array the one that was next when its length was known; a negative length
takes none. Every instance that a program makes has the fields of its class. -/
theorem heap_grows_in_shape :
    (∀ (setting : Setting) (σ : Store) (task : Task) (n : Nat) (t : State),
      Machine.run setting n (task.start setting σ) = some t →
      σ.heap.Extends t.store.heap ∧
      (∀ h h', task.Passes setting σ h h' → h'.size < 2 ^ 31 →
        h.Extends h' ∧ (h'.size = h.size ∨ ∃ ref o, h.Allocates h' ref o)) ∧
      ∀ k, σ.heap.size ≤ k → k < t.store.heap.size → k + 1 < 2 ^ 31 →
        ∃ h h' ref o, task.Passes setting σ h h' ∧ h.Allocates h' ref o ∧ ref.toInt = k + 1 ∧
          ∃ o', t.store.heap.deref ref = .ok o' ∧ o.SameShape o') ∧
    (∀ (setting : Setting) (σ τ : Store) (span : Span) (className : String) (listed : Bool)
        (args : List Expr) (n : Nat) (v : Word),
      Machine.run setting n ⟨.expr (.newObject span className listed args), [], σ⟩ =
        some ⟨.value v, [], τ⟩ → σ.heap.size + 1 < 2 ^ 31 →
      ∃ h o, σ.heap.Allocates h v o ∧ o.kind = .classInstance ∧ o.type = className ∧
        ∃ o', τ.heap.deref v = .ok o' ∧ o.SameShape o') ∧
    (∀ (setting : Setting) (σ τ : Store) (span : Span) (elem : TypeName) (length : Expr)
        (n m : Nat) (t : State) (k : Word),
      Machine.run setting n ⟨.expr (.newArray span elem length), [], σ⟩ = some t →
      Machine.run setting m ⟨.expr length, [], σ⟩ = some ⟨.value k, [], τ⟩ →
      (k.toInt < 0 → t.store.heap = τ.heap ∧
        ∃ f, t.control = .failed (.fault f) ∧ f.kind = .negativeArrayLength) ∧
      (0 ≤ k.toInt → τ.heap.size + 1 < 2 ^ 31 → ∃ ref, t.control = .value ref ∧
        τ.heap.Allocates t.store.heap ref (.zeroed .array elem.text k.toInt.toNat))) ∧
    (∀ (i : Interpreter) (steps : Nat) (commands : List Command),
      i.store.heap.Extends (i.runCommands steps commands).1.store.heap) ∧
    (∀ (i : Interpreter) (steps : Nat) (keepLayout : Bool) (program : Option Program),
      i.store.heap.Extends (i.evaluate steps keepLayout program).1.store.heap) ∧
    ∀ (limit : Int) (sink : Sink) (tracing keepLayout : Bool) (p : Program),
      let i := Interpreter.fresh limit sink tracing
      (∀ steps, (i.evaluate steps keepLayout (some p)).1.store.heap.Sized (ClassTable.build p).1) ∧
      ((keepLayout = true ∨ p.layoutErrors (ClassTable.build p).1 = []) →
        ∀ s, (i.bind (Interpreter.boundTable keepLayout p)).Runs p.commands s →
          s.store.heap.Sized (ClassTable.build p).1) := by
  refine ⟨?_, ?_, ?_, Interpreter.extends_runCommands, Interpreter.extends_evaluate, ?_⟩
  · intro setting σ task n t hrun
    refine ⟨Task.extends_of_run hrun, ?_, fun k => Task.allocates_of_run hrun⟩
    intro h h' hpasses hsmall
    exact ⟨hpasses.step.extends, hpasses.step.size_eq_or_allocates hsmall⟩
  · intro setting σ τ span className listed args n v hrun hsmall
    exact Machine.run_newObject hrun hsmall
  · intro setting σ τ span elem length n m t k hrun hlength
    exact Machine.run_newArray hrun hlength
  · intro limit sink tracing keepLayout p i
    have hempty (table : ClassTable) : i.store.heap.Sized table := by
      intro o ho
      exact absurd ho (Array.not_mem_empty o)
    constructor
    · intro steps
      rcases Interpreter.evaluate_uniform keepLayout (some p) with ⟨_, -, h⟩ | ⟨_, ⟨⟩, hplaced, h⟩
      · rw [h i steps]
        exact hempty _
      · rw [h i steps]
        exact (Interpreter.sized_runCommands (hempty _) steps p.commands).of_boundTable hplaced
    · intro hplaced s hruns
      exact (hruns.sized (hempty _)).of_boundTable hplaced

/-- A class whose constructor makes an array of a given length. -/
def rowSetting : Setting :=
  let cells : Stmt := .assign .unknown ⟨.unknown, "cells", .field 0⟩
    (.newArray .unknown (.int .unknown) (.var .unknown ⟨.unknown, "length", .frame (-3)⟩))
  ⟨⟨[], [⟨"Row", "", .unknown, ["cells"], [⟨"Row", ⟨.unknown, "Row", true,
    [⟨.unknown, .missing, "length"⟩], true, [cells], none, 0⟩⟩]⟩]⟩, .unlimited, false⟩

def rowStore : Store := { Store.fresh 10 with heap := ⟨#[⟨.array, "int", #[7]⟩]⟩ }

def newRow (length : Word) : Expr :=
  .newObject .unknown "Row" true [.integer .unknown length]

/-- A constructor that fails leaves its object; its array took no address. -/
theorem heap_grows_in_failed_constructor :
    ∃ t f, Machine.run rowSetting 40 (Task.start rowSetting rowStore (.expr (newRow (-2)))) =
        some t ∧ t.control = .failed f ∧ t.store.heap.size = 2 ∧
      rowStore.heap.Extends t.store.heap ∧
      ∃ ref o, ref.toInt = 2 ∧ t.store.heap.deref ref = .ok o := by
  have hruns : ((Machine.run rowSetting 40 (Task.start rowSetting rowStore
      (.expr (newRow (-2))))).any fun t =>
        t.control.ending != .finished && t.store.heap.size == 2) = true := by
    decide +kernel
  obtain ⟨t, ht, hend⟩ := (Option.any_eq_true _ _).mp hruns
  obtain ⟨hfailed, hsize⟩ := Bool.and_eq_true_iff.mp hend
  have hsize : t.store.heap.size = 2 := by simpa using hsize
  obtain ⟨hextends, -, hnew⟩ := heap_grows_in_shape.1 rowSetting rowStore (.expr (newRow (-2))) 40 t ht
  obtain ⟨-, -, ref, -, -, -, href, o, ho, -⟩ :=
    hnew 1 (by decide) (by rw [hsize]; decide) (by decide)
  obtain ⟨control, pending, store⟩ := t
  cases control with
  | failed f => exact ⟨_, f, ht, rfl, hsize, hextends, ref, o, href, ho⟩
  | _ => cases hfailed

end ObjectLang
