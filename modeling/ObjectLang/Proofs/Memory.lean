import Mathlib.Algebra.Group.Nat.Defs
import Mathlib.Data.List.Basic
import ObjectLang.Machine.CallStack

/-! The call stack and the heap by what can be seen of them: the live frames, the innermost first,
and the objects that references mean. A write changes neither the shape of a frame nor the kind, the
type and the length of an object, and the heap only grows. -/

namespace ObjectLang

theorem bind_ok {α β : Type} {r : Except Fault α} {next : α → Except Fault β} {b : β}
    (h : r >>= next = .ok b) : ∃ a, r = .ok a ∧ next a = .ok b := by
  cases r with
  | error f => cases h
  | ok a => exact ⟨a, rfl, h⟩

theorem bind_eq_ok_iff {α β : Type} {r : Except Fault α} {next : α → Except Fault β} {b : β} :
    r >>= next = .ok b ↔ ∃ a, r = .ok a ∧ next a = .ok b := by
  refine ⟨bind_ok, ?_⟩
  rintro ⟨a, rfl, h⟩
  exact h

theorem map_eq_ok_iff {α β : Type} {r : Except Fault α} {g : α → β} {b : β} :
    r.map g = .ok b ↔ ∃ a, r = .ok a ∧ b = g a := by
  cases r with
  | error f => exact ⟨nofun, nofun⟩
  | ok a => simp [Except.map, eq_comm]

theorem exists_map_eq_ok_iff {α β : Type} {r : Except Fault α} {g : α → β} :
    (∃ b, r.map g = .ok b) ↔ ∃ a, r = .ok a := by
  simp only [map_eq_ok_iff]
  exact ⟨fun ⟨_, a, h, _⟩ => ⟨a, h⟩, fun ⟨a, h⟩ => ⟨g a, a, h, rfl⟩⟩

theorem map_eq_error_iff {α β : Type} {r : Except Fault α} {g : α → β} {f : Fault} :
    r.map g = .error f ↔ r = .error f := by
  cases r with
  | error _ => simp [Except.map]
  | ok a => exact ⟨nofun, nofun⟩

theorem isOk_iff {α : Type} {r : Except Fault α} : r.isOk = true ↔ ∃ a, r = .ok a := by
  cases r with
  | error f => exact ⟨nofun, nofun⟩
  | ok a => exact ⟨fun _ => ⟨a, rfl⟩, fun _ => rfl⟩

/-- What operations leave of a store, the latest operation first. One that fails leaves it as it was. -/
def leftBy {Store Operation : Type} (perform : Store → Operation → Except Fault Store) (start : Store) :
    List Operation → Store
  | [] => start
  | op :: before =>
    match perform (leftBy perform start before) op with
    | .ok next => next
    | .error _ => leftBy perform start before

section

variable {Store Operation : Type} {perform : Store → Operation → Except Fault Store} {start : Store}
  {before : List Operation} {op : Operation}

theorem leftBy_cons_ok {next : Store} (h : perform (leftBy perform start before) op = .ok next) :
    leftBy perform start (op :: before) = next := by
  rw [leftBy, h]

theorem leftBy_cons_error {f : Fault} (h : perform (leftBy perform start before) op = .error f) :
    leftBy perform start (op :: before) = leftBy perform start before := by
  rw [leftBy, h]

end

theorem getD_setIfInBounds {values : Array Word} {i : Nat} (hi : i < values.size) (value : Word)
    (k : Nat) : (values.setIfInBounds i value).getD k 0 = if k = i then value else values.getD k 0 := by
  rw [Array.getD_eq_getD_getElem?, Array.getElem?_setIfInBounds]
  by_cases hk : k = i
  · subst hk
    simp [hi]
  · simp [hk, Ne.symm hk]

def FramePlace.offset : FramePlace → Int
  | .self => -2
  | .param i => -3 - i
  | .local j => 1 + j

theorem FramePlace.offset_inj {place other : FramePlace} (h : place.offset = other.offset) :
    place = other := by
  cases place <;> cases other <;> simp [offset] at h ⊢ <;> omega

namespace Frame

/-- Two frames of one routine on one receiver, with as many parameters and locals. -/
structure SameShape (f g : Frame) : Prop where
  routine : g.routine = f.routine
  self : g.self = f.self
  params : g.params.size = f.params.size
  locals : g.locals.size = f.locals.size

theorem SameShape.refl (f : Frame) : f.SameShape f := ⟨rfl, rfl, rfl, rfl⟩

theorem SameShape.trans {f g k : Frame} (h : f.SameShape g) (h' : g.SameShape k) : f.SameShape k :=
  ⟨h'.routine.trans h.routine, h'.self.trans h.self, h'.params.trans h.params,
    h'.locals.trans h.locals⟩

theorem SameShape.place? {f g : Frame} (h : f.SameShape g) (offset : Int) :
    g.place? offset = f.place? offset := by
  unfold Frame.place?
  rw [h.params, h.locals]

theorem sameShape_store (f : Frame) (value : Word) {place : FramePlace} (h : place ≠ .self) :
    f.SameShape (f.store value place) := by
  cases place with
  | self => exact absurd rfl h
  | param i => exact ⟨rfl, rfl, Array.size_setIfInBounds, rfl⟩
  | «local» j => exact ⟨rfl, rfl, rfl, Array.size_setIfInBounds⟩

theorem place?_param {f : Frame} {i : Nat} (h : i < f.params.size) :
    f.place? (Layout.paramOffset i) = some (.param i) := by
  have hself : Layout.paramOffset i ≠ Layout.selfOffset := by
    simp only [Layout.paramOffset, Layout.selfOffset]
    omega
  have hle : Layout.paramOffset i ≤ Layout.paramOffset 0 := by
    simp only [Layout.paramOffset]
    omega
  have hindex : (Layout.paramOffset 0 - Layout.paramOffset i).toNat = i := by
    simp only [Layout.paramOffset]
    omega
  rw [place?, if_neg hself, if_pos hle]
  simp only [hindex, if_pos h]

theorem place?_localOffset (f : Frame) (j : Nat) :
    f.place? (Layout.localOffset j) = if j < f.locals.size then some (.local j) else none := by
  have hself : Layout.localOffset j ≠ Layout.selfOffset := by
    simp only [Layout.localOffset, Layout.selfOffset]
    omega
  have hparam : ¬Layout.localOffset j ≤ Layout.paramOffset 0 := by
    simp only [Layout.paramOffset, Layout.localOffset]
    omega
  have hle : Layout.localOffset 0 ≤ Layout.localOffset j := by
    simp only [Layout.localOffset]
    omega
  have hindex : (Layout.localOffset j - Layout.localOffset 0).toNat = j := by
    simp only [Layout.localOffset]
    omega
  rw [place?, if_neg hself, if_neg hparam, if_pos hle]
  simp only [hindex]

theorem place?_local {f : Frame} {j : Nat} (h : j < f.locals.size) :
    f.place? (Layout.localOffset j) = some (.local j) := by
  rw [place?_localOffset, if_pos h]

def HasPart (f : Frame) : FramePlace → Prop
  | .self => True
  | .param i => i < f.params.size
  | .local j => j < f.locals.size

/-- Each part of a frame has one offset, and no other offset means anything. -/
theorem place?_eq_some_iff {f : Frame} {offset : Int} {place : FramePlace} :
    f.place? offset = some place ↔ offset = place.offset ∧ f.HasPart place := by
  constructor
  · intro h
    unfold place? at h
    split at h
    · next hself =>
        cases h
        exact ⟨hself, trivial⟩
    · split at h
      · next hparam =>
          dsimp only at h
          split at h
          · next hlt =>
              cases h
              refine ⟨?_, hlt⟩
              simp only [FramePlace.offset, Layout.paramOffset] at hparam ⊢
              omega
          · cases h
      · split at h
        · next hlocal =>
            dsimp only at h
            split at h
            · next hlt =>
                cases h
                refine ⟨?_, hlt⟩
                simp only [FramePlace.offset, Layout.localOffset] at hlocal ⊢
                omega
            · cases h
        · cases h
  · rintro ⟨rfl, hhas⟩
    cases place with
    | self => rfl
    | param i => exact place?_param hhas
    | «local» j => exact place?_local hhas

theorem place?_ne_self {f : Frame} {offset : Int} {place : FramePlace}
    (h : f.place? offset = some place) (hoffset : offset ≠ Layout.selfOffset) : place ≠ .self := by
  rintro rfl
  exact hoffset (place?_eq_some_iff.mp h).1

theorem hasPart_store {f : Frame} {value : Word} {place other : FramePlace} :
    (f.store value place).HasPart other ↔ f.HasPart other := by
  cases place <;> cases other <;> simp [HasPart, store]

/-- A part that is written to holds the value, and every other part what it held. -/
theorem load_store {f : Frame} {place : FramePlace} (hhas : f.HasPart place) (value : Word)
    (other : FramePlace) :
    (f.store value place).load other = if other = place then value else f.load other := by
  cases place with
  | self => cases other <;> simp [store, load]
  | param i =>
      cases other with
      | param k => simpa [store, load] using getD_setIfInBounds hhas value k
      | _ => simp [store, load]
  | «local» j =>
      cases other with
      | «local» k => simpa [store, load] using getD_setIfInBounds hhas value k
      | _ => simp [store, load]

theorem place_of_place? {f : Frame} {offset : Int} {place : FramePlace}
    (h : f.place? offset = some place) : f.place offset = .ok place := by
  rw [Frame.place, h]

theorem place?_of_place {f : Frame} {offset : Int} {place : FramePlace}
    (h : f.place offset = .ok place) : f.place? offset = some place := by
  unfold Frame.place at h
  split at h
  · cases h
    assumption
  · cases h

end Frame

namespace CallStack

def live (s : CallStack) : List Frame := s.frames.toList.reverse

variable {s t : CallStack}

theorem depth_eq (s : CallStack) : s.depth = s.live.length := by
  simp [depth, live]

theorem top?_eq (s : CallStack) : s.top? = s.live.head? := by
  rw [top?, live, List.head?_reverse, ← Array.getLast?_toList]

theorem live_pop (s : CallStack) : s.pop.live = s.live.tail := by
  rw [pop, live, live, Array.toList_pop, List.tail_reverse]

theorem push_ok {routine : String} {self : Word} {params : List Word} {slots : Int}
    (h : s.push routine self params slots = .ok t) :
    s.depth < s.limit ∧ t.limit = s.limit ∧
      t.live = ⟨routine, self, params.toArray, Array.replicate slots.toNat 0⟩ :: s.live := by
  unfold push at h
  split at h
  · rename_i hlt
    cases h
    exact ⟨hlt, rfl, by simp [live]⟩
  · cases h

theorem limit_empty_pos (limit : Int) : 0 < (empty limit).limit := by
  unfold empty
  dsimp only
  split
  · decide
  · omega

/-- An empty stack has room for a frame. -/
theorem push_empty (limit : Int) (routine : String) (self : Word) (params : List Word)
    (slots : Int) : ∃ stack, (empty limit).push routine self params slots = .ok stack := by
  unfold push
  rw [if_pos (show (empty limit).depth < (empty limit).limit from limit_empty_pos limit)]
  exact ⟨_, rfl⟩

theorem live_store {f : Frame} {below : List Frame} (place : FramePlace) (value : Word)
    (h : s.live = f :: below) : (s.store place value).live = f.store value place :: below := by
  obtain ⟨limit, ⟨frames⟩⟩ := s
  have hframes : frames = below.reverse ++ [f] := by
    have := congrArg List.reverse h
    simpa [live] using this
  subst hframes
  simp [store, live, List.modify_eq_set_getElem?]

theorem place_ok {offset : Int} {place : FramePlace} (h : s.place offset = .ok place) :
    ∃ f below, s.live = f :: below ∧ f.place? offset = some place := by
  unfold CallStack.place at h
  rw [top?_eq] at h
  cases hlive : s.live with
  | nil =>
      rw [hlive] at h
      cases h
  | cons f below =>
      rw [hlive] at h
      exact ⟨f, below, rfl, Frame.place?_of_place h⟩

theorem read_eq {f : Frame} {below : List Frame} (h : s.live = f :: below) (offset : Int) :
    s.read offset = (f.place offset).map f.load := by
  rw [read, top?_eq, h]
  rfl

theorem place_eq {f : Frame} {below : List Frame} (h : s.live = f :: below) (offset : Int) :
    s.place offset = f.place offset := by
  rw [CallStack.place, top?_eq, h]
  rfl

end CallStack

namespace Heap

variable {h h' : Heap} {ref : Word} {o : HeapObject}

theorem toInt_eq_zero_iff : ref.toInt = 0 ↔ ref = 0 := by
  rw [← Int32.toInt_zero, Int32.toInt_inj]

theorem index_ok {i : Nat} : h.index ref = .ok i ↔
    0 < ref.toInt ∧ ref.toInt ≤ h.size ∧ i = ref.toInt.toNat - 1 := by
  unfold Heap.index
  by_cases hzero : ref = 0
  · subst hzero
    simp
  · rw [if_neg hzero]
    have hne : ref.toInt ≠ 0 := fun heq => hzero (toInt_eq_zero_iff.mp heq)
    by_cases hrange : 0 < ref.toInt ∧ ref.toInt ≤ h.size
    · rw [if_neg (by simp; omega)]
      simp only [Except.ok.injEq]
      omega
    · rw [if_pos (by simp; omega)]
      simp only [reduceCtorEq, false_iff]
      omega

/-- A reference means the object at its index. -/
theorem deref_ok : h.deref ref = .ok o ↔
    0 < ref.toInt ∧ h.objects[ref.toInt.toNat - 1]? = some o := by
  have hsize : h.size = h.objects.size := rfl
  unfold Heap.deref
  cases hindex : h.index ref with
  | error f =>
      have hout : ¬(0 < ref.toInt ∧ ref.toInt ≤ h.size) := by
        intro hin
        have := index_ok.mpr ⟨hin.1, hin.2, rfl⟩
        rw [hindex] at this
        cases this
      simp only [Except.map, reduceCtorEq, false_iff, not_and]
      intro hpos hget
      obtain ⟨hlt, -⟩ := Array.getElem?_eq_some_iff.mp hget
      omega
  | ok i =>
      obtain ⟨hpos, hle, rfl⟩ := index_ok.mp hindex
      have hlt : ref.toInt.toNat - 1 < h.objects.size := by omega
      obtain ⟨object, hobject⟩ : ∃ object, h.objects[ref.toInt.toNat - 1]? = some object :=
        ⟨_, Array.getElem?_eq_getElem hlt⟩
      rw [hobject, Except.map, Array.getD_eq_getD_getElem?, hobject, Option.getD_some]
      simp only [Except.ok.injEq, hpos, Option.some.injEq, true_and]

/-- What a step of a run can do to the heap. -/
inductive Step (table : ClassTable) (h : Heap) : Heap → Prop
  | stay : Step table h h
  | addInstance {className : String} {count : Nat} (hcount : table.fieldCount className = .ok count) :
      Step table h (h.addInstance count className)
  | addArray {length : Word} {elem : String} {h' : Heap} (hadd : h.addArray length elem = .ok h') :
      Step table h h'
  | write {ref index : Word} {place : Nat × Nat} (value : Word)
      (hplace : h.place ref index = .ok place) : Step table h (h.store place value)

theorem addArray_ok {length : Word} {elem : String} (hadd : h.addArray length elem = .ok h') :
    h' = h.add (.zeroed .array elem length.toInt.toNat) := by
  unfold Heap.addArray at hadd
  split at hadd
  · cases hadd
  · cases hadd
    rfl

/-- A step adds one object, or changes the values of one. -/
theorem Step.cases {table : ClassTable} (step : Step table h h') :
    h' = h ∨ (∃ o, h' = h.add o ∧ (o.kind = .classInstance → table.fieldCount o.type = .ok o.length)) ∨
      ∃ place value, h' = h.store place value := by
  cases step with
  | stay => exact .inl rfl
  | addInstance hcount =>
      refine .inr (.inl ⟨_, rfl, ?_⟩)
      intro _
      simpa [HeapObject.zeroed, HeapObject.length] using hcount
  | addArray hadd =>
      rw [addArray_ok hadd]
      refine .inr (.inl ⟨_, rfl, ?_⟩)
      intro hkind
      cases hkind
  | write value hplace => exact .inr (.inr ⟨_, value, rfl⟩)

theorem getElem?_store (place : Nat × Nat) (value : Word) (i : Nat) :
    (h.store place value).objects[i]? = (h.objects[i]?).map fun o =>
      if place.1 = i then HeapObject.store place.2 value o else o := by
  simp only [Heap.store, Array.getElem?_modify]
  split
  · rfl
  · simp

theorem Step.size_le {table : ClassTable} (step : Step table h h') : h.size ≤ h'.size := by
  rcases step.cases with rfl | ⟨o, rfl, -⟩ | ⟨place, value, rfl⟩
  · exact Nat.le_refl _
  · simp [Heap.add, Heap.size]
  · simp [Heap.store, Heap.size]

/-- An object once there keeps its kind, its type and its length. -/
theorem Step.deref {table : ClassTable} (step : Step table h h') (ho : h.deref ref = .ok o) :
    ∃ o', h'.deref ref = .ok o' ∧ o'.kind = o.kind ∧ o'.type = o.type ∧ o'.length = o.length := by
  obtain ⟨hpos, hget⟩ := deref_ok.mp ho
  rcases step.cases with rfl | ⟨new, rfl, -⟩ | ⟨place, value, rfl⟩
  · exact ⟨o, ho, rfl, rfl, rfl⟩
  · refine ⟨o, deref_ok.mpr ⟨hpos, ?_⟩, rfl, rfl, rfl⟩
    obtain ⟨hlt, -⟩ := Array.getElem?_eq_some_iff.mp hget
    rw [Heap.add, Array.getElem?_push_lt hlt]
    rw [Array.getElem?_eq_getElem hlt] at hget
    exact hget
  · refine ⟨_, deref_ok.mpr ⟨hpos, by rw [getElem?_store, hget]; rfl⟩, ?_⟩
    split <;> simp [HeapObject.store, HeapObject.length]

/-- Every instance has the fields of its class. -/
def Sized (table : ClassTable) (h : Heap) : Prop :=
  ∀ o ∈ h.objects, o.kind = .classInstance → table.fieldCount o.type = .ok o.length

theorem Step.sized {table : ClassTable} (step : Step table h h') (hsized : h.Sized table) :
    h'.Sized table := by
  rcases step.cases with rfl | ⟨new, rfl, hnew⟩ | ⟨place, value, rfl⟩
  · exact hsized
  · intro o ho
    rcases Array.mem_push.mp ho with ho | rfl
    · exact hsized o ho
    · exact hnew
  · intro o ho
    obtain ⟨i, hi⟩ := Array.mem_iff_getElem?.mp ho
    rw [getElem?_store] at hi
    obtain ⟨old, hold, rfl⟩ := Option.map_eq_some_iff.mp hi
    have hold := hsized old (Array.mem_of_getElem? hold)
    split
    · simpa [HeapObject.store, HeapObject.length] using hold
    · exact hold

theorem size_add (o : HeapObject) : (h.add o).size = h.size + 1 := by
  simp [Heap.add, Heap.size]

/-- While addresses fit, the last address is the number of objects. -/
theorem toInt_lastAddress (hsmall : h.size < 2 ^ 31) : h.lastAddress.toWord.toInt = h.size := by
  change (BitVec.ofNat 32 h.size).toInt = _
  rw [BitVec.toInt_ofNat', Int.bmod_def]
  omega

/-- While addresses fit, the last address means the last object. -/
theorem deref_lastAddress (o : HeapObject) (hsmall : (h.add o).size < 2 ^ 31) :
    (h.add o).deref (h.add o).lastAddress.toWord = .ok o := by
  rw [deref_ok, toInt_lastAddress hsmall, size_add]
  refine ⟨by omega, ?_⟩
  simp [Heap.add, Heap.size]

end Heap

end ObjectLang
