import ObjectLang.Proofs.Discipline

/-! Allocation is sound. In a placed program every variable of a routine has a slot, and every frame
in which the routine runs has that slot: parameters and locals lie in the frame, and fields lie in the
object that the routine runs on, for dispatch only gives a routine an object of its class or of one
derived from it. So no routine reaches beyond its frame, and none reaches beyond its object. -/

namespace ObjectLang

open Layout (routineVars)

/-- Every routine stands in the scope of its owner and has a slot for each of its variables. -/
structure ClassTable.LaidOut (table : ClassTable) : Prop where
  owned : table.Owned
  placed : ∀ m ∈ table.methods, ∀ v ∈ routineVars m.decl,
    Layout.Placed (Layout.routineScope table m.owner m.decl) m.decl.stackSlots v

/-- The table of a placed program has a layout. -/
theorem ClassTable.laidOut_place {p : Program} (h : p.layoutErrors (build p).1 = []) :
    (build (p.place (build p).1)).1.LaidOut := by
  rw [Layout.build_place fun decl hdecl => Layout.isKnown_of_layoutErrors h hdecl]
  refine ⟨(owned_build p).mapRoutines _, ?_⟩
  intro m hm v hv
  obtain ⟨source, hsource, rfl⟩ := mem_methods_mapRoutines hm
  have hplaced := Layout.routine_placed (Layout.resolved_of_layoutErrors h hsource) v hv
  have hscope : Layout.routineScope ((build p).1.mapRoutines (Layout.placeIn (build p).1))
      source.owner (Layout.placeIn (build p).1 source.owner source.decl) =
        Layout.routineScope (build p).1 source.owner source.decl := by
    rw [Layout.routineScope, fieldHierarchy_mapRoutines]
    rfl
  show Layout.Placed (Layout.routineScope _ source.owner _) _ v
  rw [Method.mapRoutine, hscope]
  exact hplaced

/-- A routine of a class with fields runs on an object, which has at least these fields if it is an
instance. -/
def Heap.Receives (table : ClassTable) (h : Heap) (owner : String) (self : Word) : Prop :=
  ∀ fields, table.fieldHierarchy owner = .ok fields → fields ≠ [] →
    ∃ o, h.deref self = .ok o ∧ (o.kind = .classInstance → fields.length ≤ o.length)

namespace ClassTable

variable {table : ClassTable}

theorem fieldHierarchy_empty (table : ClassTable) : table.fieldHierarchy "" = .ok [] := by
  rw [fieldHierarchy_of_chain (show table.chain "" = .ok [] from rfl)]
  rfl

/-- The top level has no fields, so its routines run on anything. -/
theorem receives_top (h : Heap) (self : Word) : h.Receives table "" self := by
  intro fields hfields hne
  rw [fieldHierarchy_empty] at hfields
  cases hfields
  exact absurd rfl hne

/-- A class has at least the fields of the owner of a method that dispatch finds in it. -/
theorem LaidOut.fields_le (hlaid : table.LaidOut) {className name : String} {m : Method}
    (hm : table.lookup? className name = some m) {fields : List String}
    (hfields : table.fieldHierarchy m.owner = .ok fields) {count : Nat}
    (hcount : table.fieldCount className = .ok count) : fields.length ≤ count := by
  rcases (lookup?_cases hm).2 with ⟨-, htop⟩ | ⟨infos, hchain, info, hinfo, hmethod⟩
  · rw [hlaid.owned.1 m htop, fieldHierarchy_empty] at hfields
    cases hfields
    exact Nat.zero_le _
  · obtain ⟨below, above, rfl, -, hdeclared, habove⟩ := chain_of_mem hchain hinfo
    rw [hlaid.owned.2 info (declared?_mem hdeclared) m hmethod, fieldHierarchy_of_chain habove]
      at hfields
    rw [fieldCount_of_chain hchain] at hcount
    cases hfields
    cases hcount
    rw [List.flatMap_append, List.length_append]
    exact Nat.le_add_left _ _

/-- Dispatch on an object gives its method a receiver that has its fields. -/
theorem LaidOut.receives (hlaid : table.LaidOut) {h : Heap} (hsized : h.Sized table) {ref : Word}
    {o : HeapObject} (ho : h.deref ref = .ok o) {name : String} {m : Method}
    (hm : table.lookup? o.type name = some m) : h.Receives table m.owner ref := by
  intro fields hfields _
  refine ⟨o, ho, ?_⟩
  intro hkind
  have hmem : o ∈ h.objects := Array.mem_of_getElem? (Heap.deref_ok.mp ho).2
  exact hlaid.fields_le hm hfields (hsized o hmem hkind)

end ClassTable

theorem Heap.Receives.grow {table : ClassTable} {h h' : Heap} {owner : String} {self : Word}
    (step : Heap.Step table h h') (hself : h.Receives table owner self) :
    h'.Receives table owner self := by
  intro fields hfields hne
  obtain ⟨o, ho, hlength⟩ := hself fields hfields hne
  obtain ⟨o', ho', hkind, -, hlength'⟩ := step.deref ho
  refine ⟨o', ho', ?_⟩
  rw [hkind, hlength']
  exact hlength

/-- The slot of a variable is there: a part of the frame other than the receiver, or a field of the
object that the frame runs on. -/
def Frame.Fits (h : Heap) (f : Frame) (v : Var) : Prop :=
  match v.slot with
  | .frame offset => offset ≠ Layout.selfOffset ∧ ∃ place, f.place? offset = some place
  | .field offset => ∃ o, h.deref f.self = .ok o ∧
      (o.kind = .classInstance → 0 ≤ offset ∧ offset < o.length)
  | .unresolved => False

/-- A slot that is there is either in the frame or in the object. -/
theorem Frame.fits_iff {h : Heap} {f : Frame} {v : Var} :
    f.Fits h v ↔
      (∃ offset place, v.slot = .frame offset ∧ offset ≠ Layout.selfOffset ∧
        f.place? offset = some place) ∨
      ∃ offset o, v.slot = .field offset ∧ h.deref f.self = .ok o ∧
        (o.kind = .classInstance → 0 ≤ offset ∧ offset < o.length) := by
  unfold Frame.Fits
  cases v.slot <;> simp

theorem Frame.Fits.grow {table : ClassTable} {h h' : Heap} {f : Frame} {v : Var}
    (step : Heap.Step table h h') (hv : f.Fits h v) : f.Fits h' v := by
  rw [Frame.fits_iff] at hv ⊢
  rcases hv with hframe | ⟨offset, o, hslot, ho, hoffset⟩
  · exact .inl hframe
  · obtain ⟨o', ho', hkind, -, hlength⟩ := step.deref ho
    refine .inr ⟨offset, o', hslot, ho', ?_⟩
    rw [hkind, hlength]
    exact hoffset

theorem Frame.Fits.of_sameShape {h : Heap} {f g : Frame} {v : Var} (hshape : f.SameShape g)
    (hv : f.Fits h v) : g.Fits h v := by
  unfold Frame.Fits at hv ⊢
  simp only [hshape.self, hshape.place?]
  exact hv

/-- The variables of a routine fit the frame in which it runs. -/
theorem ClassTable.LaidOut.fits {table : ClassTable} (hlaid : table.LaidOut) {h : Heap} {m : Method}
    {self : Word} (hm : m ∈ table.methods) (hself : h.Receives table m.owner self)
    {args : List Word} (harity : m.decl.params.length = args.length) {v : Var}
    (hv : v ∈ routineVars m.decl) :
    Frame.Fits h ⟨m.qualified, self, args.toArray, Array.replicate m.decl.stackSlots 0⟩ v := by
  obtain ⟨locals, hlocals, hslot⟩ := hlaid.placed m hm v hv
  unfold Frame.Fits
  rcases Layout.resolve_cases hslot with
    ⟨i, -, hi, hslot⟩ | ⟨-, j, -, hj, hslot⟩ | ⟨-, -, fields, offset, hfields, hoffset, hslot⟩
  · rw [hslot]
    refine ⟨?_, .param i, Frame.place?_param ?_⟩
    · simp only [Layout.paramOffset, Layout.selfOffset]
      omega
    · simp only [Layout.routineScope, List.length_map] at hi
      simp only [List.size_toArray]
      omega
  · rw [hslot]
    refine ⟨?_, .local j, Frame.place?_local ?_⟩
    · simp only [Layout.localOffset, Layout.selfOffset]
      omega
    · simp only [Array.size_replicate]
      omega
  · rw [hslot]
    obtain ⟨hnonneg, hlt⟩ := Layout.fieldOffset?_some hoffset
    have hne : fields ≠ [] := by
      rintro rfl
      simp only [List.length_nil] at hlt
      omega
    obtain ⟨o, ho, hlength⟩ := hself fields hfields hne
    refine ⟨o, ho, ?_⟩
    intro hkind
    have := hlength hkind
    omega

/-- As long as addresses fit, a frame of a routine uses only slots that are there. In the frame of the
commands, which stands on no other, anything may be tried. -/
def Discipline.slots (setting : Setting) (hlaid : setting.table.LaidOut) : Discipline setting where
  heap h := h.Sized setting.table
  allows height h f v := height ≠ 0 → h.size < 2 ^ 31 → f.Fits h v
  admits h m self := m ∈ setting.table.methods ∧
    (h.size < 2 ^ 31 → h.Receives setting.table m.owner self)
  base _ last := last.length = 1
  floor := 1
  floor_le := Discipline.floor_of_root
  grow_heap step h := step.sized h
  grow_allows step h hheight hsmall :=
    (h hheight (Nat.lt_of_le_of_lt step.size_le hsmall)).grow step
  grow_admits step h :=
    ⟨h.1, fun hsmall => (h.2 (Nat.lt_of_le_of_lt step.size_le hsmall)).grow step⟩
  write_allows value hv hslot hplace hu hheight hsmall := by
    have hfits := hv hheight hsmall
    unfold Frame.Fits at hfits
    rw [hslot] at hfits
    refine (hu hheight hsmall).of_sameShape (Frame.sameShape_store _ value ?_)
    exact Frame.place?_ne_self hplace hfits.1
  write_base _ _ _ _ h := h
  enter hheight hm harity hv _ hsmall := hlaid.fits hm.1 (hm.2 hsmall) harity hv
  callTop _ hm := by
    obtain ⟨htop, hmem⟩ := ClassTable.mem_methods_of_top hm
    refine ⟨hmem, fun _ => ?_⟩
    rw [hlaid.owned.1 _ htop]
    exact ClassTable.receives_top _ _
  dispatch hsized ho hm := ⟨(ClassTable.lookup?_cases hm).1, fun _ => hlaid.receives hsized ho hm⟩
  construct hsized hcount hm := by
    refine ⟨(ClassTable.lookup?_cases hm).1, fun hsmall => ?_⟩
    exact hlaid.receives ((Heap.Step.addInstance hcount).sized hsized)
      (Heap.deref_lastAddress _ hsmall) hm

/-- The next step reads or writes a variable. -/
def State.Accesses (s : State) (v : Var) : Prop :=
  (∃ span, s.control = .expr (.var span v)) ∨
    ∃ value rest, s.control = .value value ∧ s.pending = .assign v :: rest

/-- An offset within an object is the index of a position, as long as indices fit. -/
theorem HeapObject.position_ofInt {o : HeapObject} {offset : Int} (hnonneg : 0 ≤ offset)
    (hlt : offset < o.length) (hsmall : o.length < 2 ^ 31) :
    ∃ j, o.position (Int32.ofInt offset) = .ok j := by
  have hindex : (Int32.ofInt offset).toInt = offset := by
    rw [Int32.toInt_ofInt, Int.bmod_def]
    simp only [Int32.size]
    omega
  refine ⟨offset.toNat, ?_⟩
  rw [HeapObject.position, hindex, if_pos (by simp; omega)]

section Access

variable {σ : Store} {f : Frame} {below : List Frame} {v : Var}

/-- The variable stands in the frame, or in an instance with so few fields that offsets fit. -/
def Frame.Serves (h : Heap) (f : Frame) (v : Var) : Prop :=
  (∃ offset, v.slot = .frame offset) ∨
    ∃ o, h.deref f.self = .ok o ∧ o.kind = .classInstance ∧ o.length < 2 ^ 31

theorem Machine.read_self (hlive : σ.stack.live = f :: below) :
    σ.stack.read Layout.selfOffset = .ok f.self := by
  rw [CallStack.read_eq hlive]
  rfl

/-- Where the variable stands, in the frame or in the instance. -/
theorem Frame.Fits.found {h : Heap} (hfits : f.Fits h v) (hserves : f.Serves h v) :
    (∃ offset place, v.slot = .frame offset ∧ f.place? offset = some place) ∨
      ∃ offset o j, v.slot = .field offset ∧ h.deref f.self = .ok o ∧
        o.position (Int32.ofInt offset) = .ok j := by
  rcases Frame.fits_iff.mp hfits with
    ⟨offset, place, hslot, -, hplace⟩ | ⟨offset, o, hslot, ho, hrange⟩
  · exact .inl ⟨offset, place, hslot, hplace⟩
  · rcases hserves with ⟨offset', hframe⟩ | ⟨o', ho', hkind, hsmall⟩
    · rw [hslot] at hframe
      cases hframe
    · obtain rfl : o = o' := Except.ok.inj (ho.symm.trans ho')
      obtain ⟨hnonneg, hlt⟩ := hrange hkind
      obtain ⟨j, hj⟩ := HeapObject.position_ofInt hnonneg hlt hsmall
      exact .inr ⟨offset, o, j, hslot, ho, hj⟩

theorem Machine.readVar_ok (hlive : σ.stack.live = f :: below) (hfits : f.Fits σ.heap v)
    (hserves : f.Serves σ.heap v) : ∃ value, readVar σ v = .ok value := by
  rcases hfits.found hserves with ⟨offset, place, hslot, hplace⟩ | ⟨offset, o, j, hslot, ho, hj⟩
  · refine ⟨f.load place, ?_⟩
    simp only [readVar, hslot]
    rw [CallStack.read_eq hlive, Frame.place_of_place? hplace]
    rfl
  · refine ⟨o.elements.getD j 0, ?_⟩
    simp only [readVar, hslot, read_self hlive, Heap.read, HeapObject.read, ho, hj, bind,
      Except.bind, Except.map]

theorem Machine.writeVar_done {control : Control} {pending : List Pending} (value : Word)
    (hlive : σ.stack.live = f :: below) (hfits : f.Fits σ.heap v) (hserves : f.Serves σ.heap v) :
    (writeVar ⟨control, pending, σ⟩ v value).control = .done := by
  rcases hfits.found hserves with ⟨offset, place, hslot, hplace⟩ | ⟨offset, o, j, hslot, ho, hj⟩
  · simp only [writeVar, hslot, CallStack.place_eq hlive, Frame.place_of_place? hplace]
  · cases hindex : σ.heap.index f.self with
    | error fault =>
        rw [Heap.deref, hindex] at ho
        cases ho
    | ok i =>
        simp only [writeVar, hslot, read_self hlive, Heap.place, hindex, ho, hj, bind, Except.bind,
          pure, Except.pure]

/-- An access to a slot that is there does not fail. -/
theorem State.Accesses.step_ne_failed {setting : Setting} {s : State} (h : s.Accesses v)
    (hlive : s.store.stack.live = f :: below) (hfits : f.Fits s.store.heap v)
    (hserves : f.Serves s.store.heap v) (failure : Failure) :
    (Machine.step setting s).control ≠ .failed failure := by
  obtain ⟨control, pending, σ⟩ := s
  rcases h with ⟨span, rfl⟩ | ⟨value, rest, rfl, rfl⟩
  · obtain ⟨value, hvalue⟩ := Machine.readVar_ok hlive hfits hserves
    simp only [Machine.step, Machine.eval, hvalue, State.yield, State.goto]
    simp
  · have hdone : (Machine.writeVar ⟨.value value, rest, σ⟩ v value).control = .done :=
      Machine.writeVar_done value hlive hfits hserves
    show (Machine.writeVar ⟨.value value, rest, σ⟩ v value).control ≠ .failed failure
    rw [hdone]
    simp

end Access

/-! ### Faults of frames -/

/-- The error, if there is one, is not that of reaching beyond a frame. -/
def InFrame {α : Type} (r : Except Fault α) : Prop := ∀ f, r = .error f → f.kind ≠ .frameOffset

theorem inFrame_ok {α : Type} (a : α) : InFrame (.ok a) := by
  intro f hf
  cases hf

theorem inFrame_raise {α : Type} {kind : FaultKind} (text : String) (h : kind ≠ .frameOffset) :
    InFrame (.error (.raise kind text) : Except Fault α) := by
  intro f hf
  cases hf
  exact h

theorem InFrame.map {α β : Type} {r : Except Fault α} (h : InFrame r) (g : α → β) :
    InFrame (r.map g) := by
  cases r with
  | ok a => exact inFrame_ok _
  | error f =>
      intro f' hf
      cases hf
      exact h f rfl

theorem InFrame.bind {α β : Type} {r : Except Fault α} (h : InFrame r) {g : α → Except Fault β}
    (hg : ∀ a, InFrame (g a)) : InFrame (r >>= g) := by
  cases r with
  | ok a => exact hg a
  | error f =>
      intro f' hf
      cases hf
      exact h f rfl

theorem Heap.inFrame_index (h : Heap) (ref : Word) : InFrame (h.index ref) := by
  unfold Heap.index
  split
  · exact inFrame_raise _ (by decide)
  · split
    · exact inFrame_raise _ (by decide)
    · exact inFrame_ok _

theorem Heap.inFrame_deref (h : Heap) (ref : Word) : InFrame (h.deref ref) :=
  (h.inFrame_index ref).map _

theorem HeapObject.inFrame_position (o : HeapObject) (index : Word) : InFrame (o.position index) := by
  unfold HeapObject.position
  split
  · exact inFrame_ok _
  · exact inFrame_raise _ (by decide)

theorem Heap.inFrame_read (h : Heap) (ref index : Word) : InFrame (h.read ref index) :=
  (h.inFrame_deref ref).bind fun o => (o.inFrame_position index).map _

theorem Heap.inFrame_place (h : Heap) (ref index : Word) : InFrame (h.place ref index) :=
  (h.inFrame_index ref).bind fun _ => (h.inFrame_deref ref).bind fun o =>
    (o.inFrame_position index).bind fun _ => inFrame_ok _

theorem Heap.inFrame_addArray (h : Heap) (length : Word) (elem : String) :
    InFrame (h.addArray length elem) := by
  unfold Heap.addArray
  split
  · exact inFrame_raise _ (by decide)
  · exact inFrame_ok _

theorem CallStack.inFrame_push (s : CallStack) (routine : String) (self : Word) (params : List Word)
    (slots : Int) : InFrame (s.push routine self params slots) := by
  unfold CallStack.push
  split
  · exact inFrame_ok _
  · exact inFrame_raise _ (by decide)

theorem Machine.inFrame_apply (op : String) (left right : Word) : InFrame (apply op left right) := by
  unfold apply
  split
  · exact inFrame_ok _
  · split
    · exact inFrame_raise _ (by decide)
    · exact inFrame_ok _
  · exact inFrame_ok _
  · exact inFrame_ok _
  · exact inFrame_ok _
  · exact inFrame_ok _
  · exact inFrame_ok _
  · exact inFrame_raise _ (by decide)

/-- The state has not failed with the fault of reaching beyond a frame. -/
def State.InFrame (s : State) : Prop :=
  ∀ failure f, s.control = .failed failure → failure.fault? = some f → f.kind ≠ .frameOffset

namespace Machine

variable {setting : Setting} {s : State}

theorem inFrame_goto {control : Control} (h : ∀ failure, control ≠ .failed failure) :
    (s.goto control).InFrame := by
  intro failure f hfailed
  exact absurd hfailed (h failure)

theorem inFrame_expr (p : Pending) (e : Expr) : (s.push p (.expr e)).InFrame := by
  intro failure f hfailed
  cases hfailed

theorem inFrame_fault {α : Type} {r : Except Fault α} {f : Fault} (h : InFrame r)
    (hf : r = .error f) : (s.fail (.fault f)).InFrame := by
  intro failure f' hfailed hfault
  cases hfailed
  cases hfault
  exact h f hf

theorem inFrame_plain (text : String) : (s.fail (.plain text)).InFrame := by
  intro failure f hfailed hfault
  cases hfailed
  cases hfault

theorem inFrame_raised {kind : FaultKind} (text : String) (h : kind ≠ .frameOffset) :
    (s.raise kind text).InFrame := by
  intro failure f hfailed hfault
  cases hfailed
  cases hfault
  exact h

theorem inFrame_yield {r : Except Fault Word} (h : InFrame r) : (s.yield r).InFrame := by
  cases r with
  | ok v => exact inFrame_goto (by simp)
  | error f => exact inFrame_fault h rfl

theorem inFrame_enter (m : Method) (self : Word) (args : List Word) (wantsValue : Bool) :
    (enter s m self args wantsValue).InFrame := by
  unfold enter
  dsimp only
  split
  · exact inFrame_raised _ (by decide)
  · split
    · exact inFrame_raised _ (by decide)
    · split
      · rename_i f hf
        exact inFrame_fault (CallStack.inFrame_push _ _ _ _ _) hf
      · intro failure f hfailed
        cases hfailed

theorem inFrame_evalArgs (callee : Callee) (evaluated : List Word) (args : List Expr) :
    (evalArgs setting s callee evaluated args).InFrame := by
  unfold evalArgs
  split
  · unfold call
    split
    · exact inFrame_enter _ _ _ _
    · split
      · exact inFrame_raised _ (by decide)
      · exact inFrame_enter _ _ _ _
  · exact inFrame_expr _ _

theorem inFrame_startCall (receiver : Expr) (name : String) (args : List Expr) (wantsValue : Bool) :
    (startCall setting s receiver name args wantsValue).InFrame := by
  unfold startCall
  split
  · unfold callTop
    split
    · exact inFrame_raised _ (by decide)
    · exact inFrame_evalArgs _ _ _
  · exact inFrame_expr _ _

theorem inFrame_constructed (className : String) (ref : Word) :
    (constructed setting s className ref).InFrame := by
  unfold constructed
  split
  · split
    · intro failure f hfailed
      cases hfailed
    · exact inFrame_goto (by simp)
  · exact inFrame_goto (by simp)

theorem inFrame_construct (className : String) (args : List Expr) :
    (construct setting s className args).InFrame := by
  unfold construct
  split
  · exact inFrame_raised _ (by decide)
  · dsimp only
    split
    · exact inFrame_evalArgs _ _ _
    · split
      · exact inFrame_constructed _ _
      · exact inFrame_raised _ (by decide)

theorem inFrame_receive (ref : Word) (name : String) (args : List Expr) (wantsValue : Bool) :
    (receive setting s ref name args wantsValue).InFrame := by
  unfold receive
  split
  · exact inFrame_raised _ (by decide)
  · split
    · rename_i f hf
      exact inFrame_fault (Heap.inFrame_deref _ _) hf
    · exact inFrame_evalArgs _ _ _

theorem inFrame_print (value : Word) : (print setting s value).InFrame := by
  have haccept : State.InFrame
      { s with control := .done, store.printed := s.store.printed.push value } := by
    intro failure f hfailed
    cases hfailed
  unfold print
  dsimp only
  split
  · exact haccept
  · split
    · exact haccept
    · intro failure f hfailed hfault
      cases hfailed
      cases hfault

section Fits

variable {f : Frame} {below : List Frame} {v : Var}

theorem inFrame_readVar {σ : Store} (hlive : σ.stack.live = f :: below) (hfits : f.Fits σ.heap v) :
    ObjectLang.InFrame (readVar σ v) := by
  rcases Frame.fits_iff.mp hfits with ⟨offset, place, hslot, -, hplace⟩ | ⟨offset, -, hslot, -, -⟩
  · simp only [readVar, hslot]
    rw [CallStack.read_eq hlive, Frame.place_of_place? hplace]
    exact inFrame_ok _
  · simp only [readVar, hslot]
    rw [read_self hlive]
    exact Heap.inFrame_read _ _ _

theorem inFrame_writeVar (value : Word) (hlive : s.store.stack.live = f :: below)
    (hfits : f.Fits s.store.heap v) : (writeVar s v value).InFrame := by
  have hself := read_self hlive
  rcases Frame.fits_iff.mp hfits with ⟨offset, place, hslot, -, hplace⟩ | ⟨offset, -, hslot, -, -⟩
  · simp only [writeVar, hslot, CallStack.place_eq hlive, Frame.place_of_place? hplace]
    intro failure f' hfailed
    cases hfailed
  · simp only [writeVar, hslot]
    split
    · rename_i f' hf
      rw [hself] at hf
      exact inFrame_fault (Heap.inFrame_place _ _ _) hf
    · intro failure f' hfailed
      cases hfailed

theorem inFrame_eval {e : Expr} (hlive : s.store.stack.live = f :: below)
    (hfits : ∀ span v, e = .var span v → f.Fits s.store.heap v) : (eval setting s e).InFrame := by
  cases e with
  | missing => exact inFrame_plain _
  | integer span value => exact inFrame_goto (by simp)
  | truth span value => exact inFrame_goto (by simp)
  | var span v => exact inFrame_yield (inFrame_readVar hlive (hfits span v rfl))
  | self span =>
      refine inFrame_yield ?_
      dsimp only
      rw [read_self hlive]
      exact inFrame_ok _
  | newObject span className listed args => exact inFrame_construct _ _
  | call span receiver name listed args => exact inFrame_startCall _ _ _ _
  | _ => exact inFrame_expr _ _

theorem inFrame_exec (stmt : Stmt) : (exec setting s stmt).InFrame := by
  cases stmt with
  | missing => exact inFrame_plain _
  | block b => exact inFrame_goto (by simp)
  | declare span type name => exact inFrame_goto (by simp)
  | call span receiver name listed args => exact inFrame_startCall _ _ _ _
  | _ => exact inFrame_expr _ _

theorem inFrame_resume {value : Word} {p : Pending} (hlive : s.store.stack.live = f :: below)
    (hfits : ∀ v, p = .assign v → f.Fits s.store.heap v) : (resume setting s value p).InFrame := by
  cases p with
  | rightOperand op right => exact inFrame_expr _ _
  | combine op left => exact inFrame_yield (inFrame_apply _ _ _)
  | indexOf index =>
      unfold resume
      dsimp only
      split
      · rename_i f' hf
        exact inFrame_fault (Heap.inFrame_deref _ _) hf
      · exact inFrame_expr _ _
  | readAt ref => exact inFrame_yield (Heap.inFrame_read _ _ _)
  | measure => exact inFrame_yield ((Heap.inFrame_deref _ _).map _)
  | makeArray elem =>
      unfold resume
      dsimp only
      split
      · rename_i f' hf
        exact inFrame_fault (Heap.inFrame_addArray _ _ _) hf
      · intro failure f' hfailed
        cases hfailed
  | receive name args wantsValue => exact inFrame_receive _ _ _ _
  | argument callee evaluated rest => exact inFrame_evalArgs _ _ _
  | constructed className ref => exact inFrame_constructed _ _
  | result =>
      intro failure f' hfailed
      cases hfailed
  | test cond body =>
      unfold resume
      dsimp only
      split
      · intro failure f' hfailed
        cases hfailed
      · exact inFrame_goto (by simp)
  | print => exact inFrame_print _
  | assign v => exact inFrame_writeVar value hlive (hfits v rfl)
  | assignIndexOf index value' =>
      unfold resume
      dsimp only
      split
      · rename_i f' hf
        exact inFrame_fault (Heap.inFrame_deref _ _) hf
      · exact inFrame_expr _ _
  | assignValueOf ref value' => exact inFrame_expr _ _
  | writeAt ref index =>
      unfold resume writeAt
      dsimp only
      split
      · rename_i f' hf
        exact inFrame_fault (Heap.inFrame_place _ _ _) hf
      · intro failure f' hfailed
        cases hfailed
  | _ => exact inFrame_goto (by simp)

theorem inFrame_proceed (p : Pending) : (proceed s p).InFrame := by
  unfold proceed
  split
  · exact inFrame_goto (by simp)
  · exact inFrame_expr _ _
  · intro failure f hfailed
    cases hfailed
  · exact inFrame_expr _ _
  · exact inFrame_goto (by simp)

/-- A step that is not on the way out of a failure reaches beyond the frame only by a variable. -/
theorem inFrame_step (hlive : s.store.stack.live = f :: below)
    (hrunning : ∀ failure, s.control ≠ .failed failure)
    (hfits : ∀ v, s.Accesses v → f.Fits s.store.heap v) : (step setting s).InFrame := by
  obtain ⟨control, pending, σ⟩ := s
  cases control with
  | expr e =>
      refine inFrame_eval hlive ?_
      rintro span v rfl
      exact hfits v (.inl ⟨span, rfl⟩)
  | stmts stmts =>
      cases stmts with
      | nil => exact inFrame_goto (by simp)
      | cons stmt rest => exact inFrame_exec stmt
  | value value =>
      cases pending with
      | nil =>
          intro failure f' hfailed
          cases hfailed
      | cons p pending =>
          refine inFrame_resume hlive ?_
          rintro v rfl
          exact hfits v (.inr ⟨value, pending, rfl, rfl⟩)
  | done =>
      cases pending with
      | nil =>
          intro failure f' hfailed
          cases hfailed
      | cons p pending => exact inFrame_proceed p
  | failed failure => exact absurd rfl (hrunning failure)

end Fits

end Machine

/-! ### Runs of placed programs -/

namespace ClassTable

variable {table : ClassTable}

/-- A class with a number of fields is declared, or is the scope of the top level. -/
theorem fieldCount_lt {bound : Nat} (hpos : 0 < bound)
    (hfields : ∀ info ∈ table.classes, ∀ count, table.fieldCount info.name = .ok count →
      count < bound) {className : String} {count : Nat}
    (hcount : table.fieldCount className = .ok count) : count < bound := by
  by_cases hempty : className = ""
  · subst hempty
    rw [fieldCount_of_chain (show table.chain "" = .ok [] from rfl)] at hcount
    cases hcount
    exact hpos
  · cases hdeclared : table.declared? className with
    | none =>
        simp [fieldCount, chain, chainFrom, hempty, hdeclared, bind, Except.bind] at hcount
    | some info =>
        have hname := declared?_name hdeclared
        refine hfields info (declared?_mem hdeclared) count ?_
        rw [hname]
        exact hcount

end ClassTable

namespace Interpreter

variable {limit : Int} {sink : Sink} {tracing : Bool} {table : ClassTable}
  {commands : List Command} {s : State}

/-- Every state of a run on a fresh interpreter follows the discipline of slots. -/
theorem Runs.slots (hlaid : table.LaidOut)
    (h : ((fresh limit sink tracing).bind table).Runs commands s) :
    (Discipline.slots ⟨table, sink, tracing⟩ hlaid).Holds s := by
  obtain ⟨table', stack, htable, hpush, hreaches⟩ := h
  cases htable
  obtain ⟨-, -, hlive⟩ := CallStack.push_ok hpush
  refine Discipline.Holds.reaches ?_ hreaches
  refine ⟨.done, ⟨?_, ?_⟩, rfl, ?_⟩
  · intro o ho
    cases ho with
    | mk hmem => cases hmem
  · show stack.live.length = 1
    rw [hlive]
    rfl
  · intro frame below hframes v _ hheight
    rw [hlive] at hframes
    cases hframes
    exact absurd rfl hheight

/-- A routine's access finds the slot in the innermost frame or in the object that it runs on. -/
theorem Runs.fits (hlaid : table.LaidOut)
    (h : ((fresh limit sink tracing).bind table).Runs commands s)
    (hsmall : s.store.heap.size < 2 ^ 31) {f : Frame} {below : List Frame}
    (hlive : s.store.stack.live = f :: below) (hbelow : below.length ≠ 0) {v : Var}
    (haccess : s.Accesses v) : f.Fits s.store.heap v := by
  obtain ⟨k, hready, -, hcontrol⟩ := h.slots hlaid
  rcases haccess with ⟨span, hvar⟩ | ⟨value, rest, -, hassign⟩
  · rw [hvar] at hcontrol
    exact hcontrol f below hlive v List.mem_cons_self hbelow hsmall
  · have hpending := hready.pending
    rw [hassign] at hpending
    obtain ⟨-, hvars, -⟩ := hpending
    exact hvars f below hlive v List.mem_cons_self hbelow hsmall

end Interpreter

/-- **Allocation is sound over whole runs.** In every state of a run of a placed program in which a
routine is running, an access finds its slot in the frame of the routine or its field in the object
that the routine runs on; an access to the frame or to an instance does not fail; and no step raises
the fault of reaching beyond a frame. -/
theorem allocation_sound {p : Program} (hdiagnostics : (ClassTable.build p).2 = [])
    (herrors : p.layoutErrors (ClassTable.build p).1 = [])
    (hfields : ∀ info ∈ (ClassTable.build p).1.classes, ∀ count,
      (ClassTable.build p).1.fieldCount info.name = .ok count → count < 2 ^ 31)
    (limit : Int) (sink : Sink) (tracing : Bool) :
    let i := Interpreter.fresh limit sink tracing
    let table := (ClassTable.build (p.place (ClassTable.build p).1)).1
    (∀ steps, i.evaluate steps false (some p) = (i.bind table).runCommands steps p.commands) ∧
    ∀ s, (i.bind table).Runs p.commands s → s.store.heap.size < 2 ^ 31 →
      1 < s.store.stack.depth →
      (∀ v, s.Accesses v → ∃ f, s.store.stack.top? = some f ∧ f.Fits s.store.heap v ∧
        ((∃ offset, v.slot = .frame offset) ∨
            (∃ o, s.store.heap.deref f.self = .ok o ∧ o.kind = .classInstance) →
          ∀ failure, (Machine.step ⟨table, sink, tracing⟩ s).control ≠ .failed failure)) ∧
      ((∀ failure, s.control ≠ .failed failure) →
        (Machine.step ⟨table, sink, tracing⟩ s).InFrame) := by
  have hlaid := ClassTable.laidOut_place herrors
  have hknown : ∀ decl, some decl ∈ p.classes → Layout.isKnown (ClassTable.build p).1 decl = true :=
    fun decl hdecl => Layout.isKnown_of_layoutErrors herrors hdecl
  have htable := Layout.build_place hknown
  intro i table
  refine ⟨fun steps => i.evaluate_placed hdiagnostics herrors steps, ?_⟩
  intro s hruns hsmall hdepth
  obtain ⟨f, below, hlive, hbelow⟩ : ∃ f below, s.store.stack.live = f :: below ∧
      below.length ≠ 0 := by
    rw [CallStack.depth_eq] at hdepth
    cases hframes : s.store.stack.live with
    | nil =>
        rw [hframes] at hdepth
        exact absurd hdepth (by simp)
    | cons f below =>
        rw [hframes, List.length_cons] at hdepth
        exact ⟨f, below, rfl, by omega⟩
  have hfits : ∀ v, s.Accesses v → f.Fits s.store.heap v := fun v hv =>
    hruns.fits hlaid hsmall hlive hbelow hv
  constructor
  · intro v hv
    refine ⟨f, by rw [CallStack.top?_eq, hlive]; rfl, hfits v hv, ?_⟩
    intro hplain
    refine hv.step_ne_failed hlive (hfits v hv) ?_
    rcases hplain with hframe | ⟨o, ho, hkind⟩
    · exact .inl hframe
    · obtain ⟨k, hready, -⟩ := hruns.slots hlaid
      have hcount := hready.heap o (Array.mem_of_getElem? (Heap.deref_ok.mp ho).2) hkind
      dsimp only at hcount
      rw [htable, ClassTable.fieldCount_mapRoutines] at hcount
      exact .inr ⟨o, ho, hkind, ClassTable.fieldCount_lt (by decide) hfields hcount⟩
  · intro hrunning
    exact Machine.inFrame_step hlive hrunning hfits

/-- A class whose constructor and method use a field of its own and an inherited one, and a routine
that makes an object of it. -/
def accountProgram : Program :=
  let named (name : String) : Var := ⟨.unknown, name, .unresolved⟩
  let read (name : String) : Expr := .var .unknown (named name)
  let param (name : String) : Param := ⟨.unknown, .missing, name⟩
  let owned : ClassDecl := ⟨.unknown, "Owned", "", true, [⟨.unknown, .missing, "owner"⟩], true, []⟩
  let create : Routine := ⟨.unknown, "Account", true, [param "amount"], true,
    [.assign .unknown (named "balance") (read "amount")], none, 0⟩
  let spend : Routine := ⟨.unknown, "spend", true, [param "amount"], true,
    [.declare .unknown .missing "left", .assign .unknown (named "owner") (read "amount"),
      .assign .unknown (named "left") (.binary .unknown "-" (read "balance") (read "owner"))],
    some ⟨.missing, read "left"⟩, 0⟩
  let account : ClassDecl := ⟨.unknown, "Account", "Owned", true, [⟨.unknown, .missing, "balance"⟩],
    true, [some create, some spend]⟩
  let main : Routine := ⟨.unknown, "main", true, [], true,
    [.declare .unknown .missing "account",
      .assign .unknown (named "account")
        (.newObject .unknown "Account" true [.integer .unknown 9]),
      .output .unknown (.call .unknown (read "account") "spend" true [.integer .unknown 4])], none, 0⟩
  ⟨.unknown, true, [some main], true, [some owned, some account], true,
    [.call .unknown "main" true []]⟩

/-- The state in which the method is about to read the field that its class adds. -/
def accountState : State :=
  (Machine.step
      ⟨(ClassTable.build (accountProgram.place (ClassTable.build accountProgram).1)).1, .unlimited,
        false⟩)^[36]
    ⟨.stmts (accountProgram.commands.map Command.toStmt), [],
      { Store.fresh 10 with stack := ⟨10, #[⟨"", 0, #[], #[]⟩]⟩ }⟩

theorem allocation_sound_account :
    ∃ v f, ((Interpreter.fresh 10 .unlimited false).bind
        (ClassTable.build (accountProgram.place (ClassTable.build accountProgram).1)).1).Runs
        accountProgram.commands accountState ∧
      accountState.Accesses v ∧ v.slot = .field 1 ∧ accountState.store.stack.depth = 3 ∧
      accountState.store.stack.top? = some f ∧ f.Fits accountState.store.heap v := by
  have hfields : ∀ info ∈ (ClassTable.build accountProgram).1.classes, ∀ count,
      (ClassTable.build accountProgram).1.fieldCount info.name = .ok count → count < 2 ^ 31 := by
    have hall : ((ClassTable.build accountProgram).1.classes.all fun info =>
        ((ClassTable.build accountProgram).1.fieldCount info.name).toOption.all (· < 2 ^ 31)) =
          true := by
      decide +kernel
    intro info hinfo count hcount
    have hinfo := List.all_eq_true.mp hall info hinfo
    rw [hcount] at hinfo
    exact of_decide_eq_true hinfo
  have hruns : ((Interpreter.fresh 10 .unlimited false).bind
      (ClassTable.build (accountProgram.place (ClassTable.build accountProgram).1)).1).Runs
      accountProgram.commands accountState :=
    ⟨_, ⟨10, #[⟨"", 0, #[], #[]⟩]⟩, rfl, rfl, 36, rfl⟩
  have hdepth : accountState.store.stack.depth = 3 := by decide +kernel
  have hreads : (match accountState.control with
      | .expr (.var _ v) => decide (v.slot = .field 1)
      | _ => false) = true := by
    decide +kernel
  split at hreads
  · rename_i span v hcontrol
    have haccess : accountState.Accesses v := .inl ⟨span, hcontrol⟩
    obtain ⟨-, hsound⟩ := allocation_sound (p := accountProgram) (by decide +kernel)
      (by decide +kernel) hfields 10 .unlimited false
    obtain ⟨haccesses, -⟩ := hsound accountState hruns (by decide +kernel) (by rw [hdepth]; decide)
    obtain ⟨f, htop, hfits, -⟩ := haccesses v haccess
    exact ⟨v, f, hruns, haccess, of_decide_eq_true hreads, hdepth, htop, hfits⟩
  · cases hreads

end ObjectLang
