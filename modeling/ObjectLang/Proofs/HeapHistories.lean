import ObjectLang.Proofs.Memory

/-! What a heap holds after any operations. A reference means the object of the allocation with that
number, which keeps the kind, the type and the length it was made with; an index of it holds what was set
there last, or zero. -/

namespace ObjectLang.Heap

/-! ### Operations -/

section

variable {h h' : Heap} {ref index value : Word}

/-- The kind of fault that a reference to no object raises. -/
def faultKindOf (ref : Word) : FaultKind := if ref = 0 then .nullReference else .invalidAddress

theorem kind_of_index {fault : Fault} (hindex : h.index ref = .error fault) :
    fault.kind = faultKindOf ref := by
  unfold Heap.index at hindex
  rw [faultKindOf]
  split at hindex
  · next hzero =>
      cases hindex
      rw [if_pos hzero]
      rfl
  · next hne =>
      rw [if_neg hne]
      split at hindex
      · cases hindex
        rfl
      · cases hindex

theorem kind_of_position {o : HeapObject} {fault : Fault} (hposition : o.position index = .error fault) :
    fault.kind = .indexOutOfRange := by
  unfold HeapObject.position at hposition
  split at hposition
  · cases hposition
  · cases hposition
    rfl

theorem position_eq_ok_iff {o : HeapObject} {i : Nat} : o.position index = .ok i ↔
    0 ≤ index.toInt ∧ index.toInt < o.length ∧ i = index.toInt.toNat := by
  unfold HeapObject.position
  split
  · next hin =>
      rw [Bool.and_eq_true, decide_eq_true_eq, decide_eq_true_eq] at hin
      simp only [Except.ok.injEq, hin, true_and, eq_comm]
  · next hout =>
      rw [Bool.and_eq_true, decide_eq_true_eq, decide_eq_true_eq] at hout
      exact iff_of_false nofun fun ⟨hlow, hhigh, _⟩ => hout ⟨hlow, hhigh⟩

theorem read_eq_ok_iff : h.read ref index = .ok value ↔ ∃ o, h.deref ref = .ok o ∧
    (0 ≤ index.toInt ∧ index.toInt < o.length) ∧ value = o.elements.getD index.toInt.toNat 0 := by
  simp only [Heap.read, HeapObject.read, bind_eq_ok_iff, map_eq_ok_iff, position_eq_ok_iff]
  refine exists_congr fun o => and_congr_right fun _ => ?_
  constructor
  · rintro ⟨i, ⟨hlow, hhigh, rfl⟩, rfl⟩
    exact ⟨⟨hlow, hhigh⟩, rfl⟩
  · rintro ⟨⟨hlow, hhigh⟩, rfl⟩
    exact ⟨_, ⟨hlow, hhigh, rfl⟩, rfl⟩

theorem index_of_deref {o : HeapObject} (ho : h.deref ref = .ok o) :
    h.index ref = .ok (ref.toInt.toNat - 1) := by
  obtain ⟨hpos, hget⟩ := deref_ok.mp ho
  obtain ⟨hlt, -⟩ := Array.getElem?_eq_some_iff.mp hget
  refine index_ok.mpr ⟨hpos, ?_, rfl⟩
  have hsize : h.size = h.objects.size := rfl
  omega

theorem write_eq_ok_iff : h.write ref index value = .ok h' ↔ ∃ o, h.deref ref = .ok o ∧
    (0 ≤ index.toInt ∧ index.toInt < o.length) ∧
      h' = h.store (ref.toInt.toNat - 1, index.toInt.toNat) value := by
  simp only [Heap.write, Heap.place, bind_eq_ok_iff, map_eq_ok_iff, position_eq_ok_iff]
  constructor
  · rintro ⟨place, ⟨i, hi, o, ho, j, ⟨hlow, hhigh, rfl⟩, hplace⟩, rfl⟩
    rw [index_of_deref ho] at hi
    cases hi
    cases hplace
    exact ⟨o, ho, ⟨hlow, hhigh⟩, rfl⟩
  · rintro ⟨o, ho, ⟨hlow, hhigh⟩, rfl⟩
    exact ⟨_, ⟨_, index_of_deref ho, o, ho, _, ⟨hlow, hhigh, rfl⟩, rfl⟩, rfl⟩

/-- A new object leaves the others what they are. -/
theorem deref_add (new : HeapObject) {o : HeapObject} (ho : h.deref ref = .ok o) :
    (h.add new).deref ref = .ok o := by
  obtain ⟨hpos, hget⟩ := deref_ok.mp ho
  obtain ⟨hlt, rfl⟩ := Array.getElem?_eq_some_iff.mp hget
  exact deref_ok.mpr ⟨hpos, Array.getElem?_push_lt hlt⟩

theorem deref_add_last (new : HeapObject) (hlast : ref.toInt = h.size + 1) :
    (h.add new).deref ref = .ok new := by
  refine deref_ok.mpr ⟨by omega, ?_⟩
  rw [hlast]
  simp [Heap.add, Heap.size]

/-- Reading fails for the reference, or for the index in the object that it means. -/
theorem kind_of_read {fault : Fault} (hread : h.read ref index = .error fault) :
    fault.kind = match h.deref ref with
      | .ok _ => .indexOutOfRange
      | .error _ => faultKindOf ref := by
  unfold Heap.read at hread
  cases hderef : h.deref ref with
  | error fault' =>
      rw [hderef] at hread
      cases hread
      exact kind_of_index (map_eq_error_iff.mp hderef)
  | ok o =>
      rw [hderef] at hread
      exact kind_of_position (map_eq_error_iff.mp hread)

/-- Where writing fails, reading fails alike. -/
theorem read_of_write_error {fault : Fault} (hwrite : h.write ref index value = .error fault) :
    h.read ref index = .error fault := by
  have hplace := map_eq_error_iff.mp hwrite
  unfold Heap.place at hplace
  unfold Heap.read
  cases hi : h.index ref with
  | error fault' =>
      have hderef : h.deref ref = .error fault' := by rw [deref, hi]; rfl
      rw [hi] at hplace
      cases hplace
      rw [hderef]
      rfl
  | ok i =>
      rw [hi] at hplace
      cases hderef : h.deref ref with
      | error fault' =>
          rw [hderef] at hplace
          cases hplace
          rfl
      | ok o =>
          rw [hderef] at hplace
          change o.read index = .error fault
          cases hposition : o.position index with
          | error fault' =>
              change (o.position index >>= fun j => pure (i, j)) = .error fault at hplace
              rw [hposition] at hplace
              cases hplace
              exact map_eq_error_iff.mpr hposition
          | ok j =>
              change (o.position index >>= fun j => pure (i, j)) = .error fault at hplace
              rw [hposition] at hplace
              cases hplace

theorem size_store (place : Nat × Nat) (value : Word) : (h.store place value).size = h.size := by
  simp [store, size]

/-- Another value in an object leaves every reference what it means. -/
theorem deref_store (place : Nat × Nat) (value : Word) (ref : Word) :
    (h.store place value).deref ref = (h.deref ref).map fun o =>
      if place.1 = ref.toInt.toNat - 1 then o.store place.2 value else o := by
  have hindex : (h.store place value).index ref = h.index ref := by
    rw [Heap.index, Heap.index, size_store]
  rw [deref, deref, hindex]
  cases hi : h.index ref with
  | error fault => rfl
  | ok i =>
      obtain ⟨hpos, hle, rfl⟩ := index_ok.mp hi
      have hsize : h.size = h.objects.size := rfl
      have hlt : ref.toInt.toNat - 1 < h.objects.size := by omega
      simp only [Except.map, Array.getD_eq_getD_getElem?, getElem?_store,
        Array.getElem?_eq_getElem hlt, Option.map_some, Option.getD_some]

theorem length_store (o : HeapObject) (i : Nat) (value : Word) : (o.store i value).length = o.length := by
  simp [HeapObject.store, HeapObject.length]

theorem position_store (o : HeapObject) (i : Nat) (value index : Word) :
    (o.store i value).position index = o.position index := by
  rw [HeapObject.position, HeapObject.position, length_store]
  rfl

theorem getD_store {o : HeapObject} {i : Nat} (hi : i < o.length) (value : Word) (j : Nat) :
    (o.store i value).elements.getD j 0 = if j = i then value else o.elements.getD j 0 :=
  getD_setIfInBounds hi value j

/-- Writing at an index changes nothing that is read anywhere else. -/
theorem read_write_of_ne {other position : Word} (hwrite : h.write ref index value = .ok h')
    (hne : other ≠ ref ∨ position ≠ index) : h'.read other position = h.read other position := by
  obtain ⟨o, ho, hrange, rfl⟩ := write_eq_ok_iff.mp hwrite
  rw [Heap.read, Heap.read, deref_store]
  cases hother : h.deref other with
  | error fault => rfl
  | ok o' =>
      change HeapObject.read _ position = HeapObject.read o' position
      split
      · next hsame =>
          have hpos := (deref_ok.mp ho).1
          have hpos' := (deref_ok.mp hother).1
          obtain rfl : other = ref := Int32.toInt_inj.mp (by omega)
          obtain rfl : o = o' := Except.ok.inj (ho.symm.trans hother)
          rw [HeapObject.read, HeapObject.read, position_store]
          cases hj : o.position position with
          | error fault => rfl
          | ok j =>
              obtain ⟨hlow, hhigh, rfl⟩ := position_eq_ok_iff.mp hj
              have hother : position.toInt ≠ index.toInt := fun heq =>
                hne.resolve_left (fun h => h rfl) (Int32.toInt_inj.mp heq)
              have hin : index.toInt.toNat < o.length := by omega
              simp only [Except.map]
              rw [getD_store hin, if_neg (by omega)]
      · rfl

end

/-! ### Histories -/

/-- The operations on a heap. -/
inductive Operation where
  | addInstance (fieldCount : Int) (className : String)
  | addArray (length : Word) (elem : String)
  | deref (ref : Word)
  | get (ref index : Word)
  | set (ref index value : Word)
  deriving DecidableEq, Repr

/-- The heap that an operation leaves, unless it fails. -/
def perform (h : Heap) : Operation → Except Fault Heap
  | .addInstance fieldCount className => .ok (h.addInstance fieldCount className)
  | .addArray length elem => h.addArray length elem
  | .deref ref => (h.deref ref).map fun _ => h
  | .get ref index => (h.read ref index).map fun _ => h
  | .set ref index value => h.write ref index value

/-- The kind of the fault that an operation can raise among as many objects as given. -/
def Operation.faultKind (count : Nat) : Operation → FaultKind
  | .addInstance _ _ | .addArray _ _ => .negativeArrayLength
  | .deref ref => faultKindOf ref
  | .get ref _ | .set ref _ _ =>
    if 1 ≤ ref.toInt ∧ ref.toInt ≤ count then .indexOutOfRange else faultKindOf ref

/-- The object that an operation allocates if it succeeds. -/
def Operation.object? : Operation → Option HeapObject
  | .addInstance fieldCount className => some (.zeroed .classInstance className fieldCount.toNat)
  | .addArray length elem => some (.zeroed .array elem length.toInt.toNat)
  | .deref _ | .get _ _ | .set _ _ _ => none

/-- The heap that a history leaves of the empty one. -/
def after (history : List Operation) : Heap := leftBy perform empty history

def succeeds (history : List Operation) (op : Operation) : Bool := ((after history).perform op).isOk

/-- The objects that a history allocated, as they were made; the first one has the address one. -/
def allocated : List Operation → List HeapObject
  | [] => []
  | op :: before =>
    if succeeds before op then allocated before ++ op.object?.toList else allocated before

/-- A reference is the number of an allocation, which made an object. -/
def Made (history : List Operation) (ref : Word) (first : HeapObject) : Prop :=
  1 ≤ ref.toInt ∧ (allocated history)[ref.toInt.toNat - 1]? = some first

/-- The values that were set at an index of the object that a reference means, the latest first. -/
def sets (ref index : Word) : List Operation → List Word
  | [] => []
  | .set target position value :: before =>
    if (target = ref ∧ position = index) ∧ succeeds before (.set target position value) then
      value :: sets ref index before
    else sets ref index before
  | .addInstance _ _ :: before | .addArray _ _ :: before | .deref _ :: before | .get _ _ :: before =>
    sets ref index before

variable {history before : List Operation} {op : Operation} {ref index : Word}

theorem succeeds_iff : succeeds history op = true ↔ ∃ next, (after history).perform op = .ok next := isOk_iff

theorem after_cons_ok {next : Heap} (h : (after before).perform op = .ok next) :
    after (op :: before) = next := leftBy_cons_ok h

theorem after_cons_error {fault : Fault} (h : (after before).perform op = .error fault) :
    after (op :: before) = after before := leftBy_cons_error h

/-- What one more operation does: nothing, be it a look-up or a fault; an allocation at the next address,
with zeros; or the setting of a value. -/
inductive Change (op : Operation) (before : List Operation) : Prop
  | nothing (hafter : after (op :: before) = after before)
      (hallocated : allocated (op :: before) = allocated before)
      (hsets : ∀ ref index, sets ref index (op :: before) = sets ref index before)
  | allocates (kind : ObjectKind) (type : String) (length : Nat)
      (hafter : after (op :: before) = (after before).add (.zeroed kind type length))
      (hallocated : allocated (op :: before) = allocated before ++ [.zeroed kind type length])
      (hsets : ∀ ref index, sets ref index (op :: before) = sets ref index before)
  | sets (target position value : Word)
      (hafter : (after before).write target position value = .ok (after (op :: before)))
      (hallocated : allocated (op :: before) = allocated before)
      (hsets : ∀ ref index, sets ref index (op :: before) =
        if target = ref ∧ position = index then value :: sets ref index before
        else sets ref index before)

theorem change (op : Operation) (before : List Operation) : Change op before := by
  cases hperform : (after before).perform op with
  | error fault =>
      have hfails : succeeds before op = false :=
        Bool.eq_false_iff.mpr fun h => by simp [succeeds_iff, hperform] at h
      refine .nothing (after_cons_error hperform) (by rw [allocated, hfails]; rfl) fun ref index => ?_
      cases op with
      | set target position value => rw [sets, if_neg fun h => by simp [hfails] at h]
      | addInstance fieldCount className => rfl
      | addArray length elem => rfl
      | deref target => rfl
      | get target position => rfl
  | ok next =>
      have hsucceeds : succeeds before op = true := succeeds_iff.mpr ⟨next, hperform⟩
      have hafter := after_cons_ok hperform
      have hallocated : allocated (op :: before) = allocated before ++ op.object?.toList :=
        if_pos hsucceeds
      have hsame (h : op.object? = none) : allocated (op :: before) = allocated before := by
        rw [hallocated, h, Option.toList_none, List.append_nil]
      cases op with
      | addInstance fieldCount className =>
          cases hperform
          exact .allocates _ _ _ hafter hallocated fun _ _ => rfl
      | addArray length elem =>
          obtain rfl := addArray_ok hperform
          exact .allocates _ _ _ hafter hallocated fun _ _ => rfl
      | deref target =>
          obtain ⟨o, -, rfl⟩ := map_eq_ok_iff.mp hperform
          exact .nothing hafter (hsame rfl) fun _ _ => rfl
      | get target position =>
          obtain ⟨value, -, rfl⟩ := map_eq_ok_iff.mp hperform
          exact .nothing hafter (hsame rfl) fun _ _ => rfl
      | set target position value =>
          refine .sets target position value (hafter ▸ hperform) (hsame rfl) fun ref index => ?_
          rw [sets, hsucceeds]
          simp only [and_true]

theorem size_after (history : List Operation) :
    (after history).size = (allocated history).length := by
  induction history with
  | nil => rfl
  | cons op before ih =>
      cases change op before with
      | nothing hafter hallocated => rw [hafter, hallocated, ih]
      | allocates kind type length hafter hallocated =>
          rw [hafter, hallocated, size_add, ih, List.length_append, List.length_singleton]
      | sets target position value hafter hallocated =>
          obtain ⟨o, -, -, hstore⟩ := write_eq_ok_iff.mp hafter
          rw [hstore, hallocated, size_store, ih]

/-- A reference means an object exactly if it is the number of an allocation. -/
theorem deref_iff : (∃ o, (after history).deref ref = .ok o) ↔
    1 ≤ ref.toInt ∧ ref.toInt ≤ (allocated history).length := by
  have hsize : (after history).objects.size = (allocated history).length := size_after history
  simp only [deref_ok, exists_and_left, ← Option.isSome_iff_exists, isSome_getElem?, hsize]
  exact and_congr_right fun _ => by omega

theorem made_iff : (∃ first, Made history ref first) ↔
    1 ≤ ref.toInt ∧ ref.toInt ≤ (allocated history).length := by
  simp only [Made, exists_and_left, ← Option.isSome_iff_exists, isSome_getElem?]
  exact and_congr_right fun _ => by omega

/-- Nothing is set in an object before it is allocated. -/
theorem sets_eq_nil (index : Word) (h : (allocated history).length < ref.toInt) :
    sets ref index history = [] := by
  induction history with
  | nil => rfl
  | cons op before ih =>
      cases change op before with
      | nothing hafter hallocated hsets => rw [hsets, ih (hallocated ▸ h)]
      | allocates kind type length hafter hallocated hsets =>
          rw [hallocated, List.length_append] at h
          rw [hsets, ih (by omega)]
      | sets target position value hafter hallocated hsets =>
          rw [hallocated] at h
          rw [hsets, ih h, if_neg]
          rintro ⟨rfl, -⟩
          obtain ⟨o, ho, -⟩ := write_eq_ok_iff.mp hafter
          have := (deref_iff.mp ⟨o, ho⟩).2
          omega

/-- An object as it was made, and as it is after a history. -/
structure Tracks (history : List Operation) (ref : Word) (first o : HeapObject) : Prop where
  kind : o.kind = first.kind
  type : o.type = first.type
  length : o.length = first.length
  holds : ∀ index : Word, 0 ≤ index.toInt → index.toInt < first.length →
    o.elements.getD index.toInt.toNat 0 = (sets ref index history).headD 0

section

variable {first o : HeapObject}

theorem Tracks.of_sets (h : Tracks before ref first o)
    (hsets : ∀ index, sets ref index (op :: before) = sets ref index before) :
    Tracks (op :: before) ref first o :=
  ⟨h.kind, h.type, h.length, fun index hlow hhigh => by rw [hsets, h.holds index hlow hhigh]⟩

/-- A new object holds zeros. -/
theorem tracks_zeroed (kind : ObjectKind) (type : String) (length : Nat)
    (hsets : ∀ index, sets ref index history = []) :
    Tracks history ref (.zeroed kind type length) (.zeroed kind type length) := by
  refine ⟨rfl, rfl, rfl, fun index _ _ => ?_⟩
  rw [hsets, HeapObject.zeroed, Array.getD_eq_getD_getElem?, Array.getElem?_replicate]
  split <;> rfl

/-- An object in which a value is set holds it at its index. -/
theorem Tracks.store {position value : Word} (h : Tracks before ref first o)
    (hlow : 0 ≤ position.toInt) (hhigh : position.toInt < o.length)
    (hsets : ∀ index, sets ref index (op :: before) =
      if position = index then value :: sets ref index before else sets ref index before) :
    Tracks (op :: before) ref first (o.store position.toInt.toNat value) := by
  refine ⟨h.kind, h.type, (length_store o _ value).trans h.length, fun index hlow' hhigh' => ?_⟩
  rw [getD_store (by omega), hsets]
  by_cases hindex : position = index
  · subst hindex
    rw [if_pos rfl, if_pos rfl, List.headD_cons]
  · have hne : position.toInt ≠ index.toInt := fun heq => hindex (Int32.toInt_inj.mp heq)
    rw [if_neg (by omega), if_neg hindex, h.holds index hlow' hhigh']

/-- Every object that was made is there, with what was set in it. -/
theorem tracks (h : Made history ref first) :
    ∃ o, (after history).deref ref = .ok o ∧ Tracks history ref first o := by
  induction history generalizing first with
  | nil => cases h.2
  | cons op before ih =>
      cases change op before with
      | nothing hafter hallocated hsets =>
          rw [Made, hallocated] at h
          obtain ⟨o, ho, htracks⟩ := ih h
          exact ⟨o, hafter ▸ ho, htracks.of_sets (hsets ref)⟩
      | allocates kind type length hafter hallocated hsets =>
          obtain ⟨hpos, hget⟩ := h
          rw [hallocated] at hget
          rcases Nat.lt_or_ge (ref.toInt.toNat - 1) (allocated before).length with hold | hnew
          · rw [List.getElem?_append_left hold] at hget
            obtain ⟨o, ho, htracks⟩ := ih ⟨hpos, hget⟩
            exact ⟨o, hafter ▸ deref_add _ ho, htracks.of_sets (hsets ref)⟩
          · rw [List.getElem?_append_right hnew] at hget
            obtain ⟨hlt, rfl⟩ := List.getElem?_eq_some_iff.mp hget
            rw [List.length_singleton] at hlt
            have hlast : ref.toInt = (allocated before).length + 1 := by omega
            refine ⟨_, hafter ▸ deref_add_last _ (by rw [size_after, hlast]), ?_⟩
            rw [List.getElem_singleton]
            refine tracks_zeroed kind type length fun index => ?_
            rw [hsets, sets_eq_nil index (by omega)]
      | sets target position value hafter hallocated hsets =>
          rw [Made, hallocated] at h
          obtain ⟨o, ho, htracks⟩ := ih h
          obtain ⟨written, hwritten, ⟨hlow, hhigh⟩, hstore⟩ := write_eq_ok_iff.mp hafter
          rw [hstore, deref_store, ho]
          refine ⟨_, rfl, ?_⟩
          dsimp only
          by_cases htarget : target = ref
          · subst htarget
            obtain rfl : written = o := Except.ok.inj (hwritten.symm.trans ho)
            rw [if_pos rfl]
            exact htracks.store hlow hhigh fun index => by simp only [hsets, true_and]
          · have hpos := (deref_ok.mp hwritten).1
            have hne : target.toInt ≠ ref.toInt := fun heq => htarget (Int32.toInt_inj.mp heq)
            have hother : target.toInt.toNat - 1 ≠ ref.toInt.toNat - 1 := by
              have := h.1
              omega
            rw [if_neg hother]
            exact htracks.of_sets fun index => by rw [hsets, if_neg fun hsame => htarget hsame.1]

end

/-- What a reference means is the object of its allocation, with what was set in it. -/
theorem made_of_deref {o : HeapObject} (ho : (after history).deref ref = .ok o) :
    ∃ first, Made history ref first ∧ Tracks history ref first o := by
  obtain ⟨first, hmade⟩ := made_iff.mpr (deref_iff.mp ⟨o, ho⟩)
  obtain ⟨o', ho', htracks⟩ := tracks hmade
  obtain rfl : o = o' := Except.ok.inj (ho.symm.trans ho')
  exact ⟨first, hmade, htracks⟩

/-- An index of the object that an allocation made. -/
def Reaches (history : List Operation) (ref index : Word) : Prop :=
  ∃ first, Made history ref first ∧ 0 ≤ index.toInt ∧ index.toInt < first.length

theorem reaches_iff : Reaches history ref index ↔ ∃ o, (after history).deref ref = .ok o ∧
    0 ≤ index.toInt ∧ index.toInt < o.length := by
  constructor
  · rintro ⟨first, hmade, hlow, hhigh⟩
    obtain ⟨o, ho, htracks⟩ := tracks hmade
    exact ⟨o, ho, hlow, htracks.length ▸ hhigh⟩
  · rintro ⟨o, ho, hlow, hhigh⟩
    obtain ⟨first, hmade, htracks⟩ := made_of_deref ho
    exact ⟨first, hmade, hlow, htracks.length ▸ hhigh⟩

theorem read_after {value : Word} : (after history).read ref index = .ok value ↔
    Reaches history ref index ∧ value = (sets ref index history).headD 0 := by
  rw [read_eq_ok_iff]
  constructor
  · rintro ⟨o, ho, ⟨hlow, hhigh⟩, rfl⟩
    obtain ⟨first, hmade, htracks⟩ := made_of_deref ho
    have hhigh' := htracks.length ▸ hhigh
    exact ⟨⟨first, hmade, hlow, hhigh'⟩, htracks.holds index hlow hhigh'⟩
  · rintro ⟨⟨first, hmade, hlow, hhigh⟩, rfl⟩
    obtain ⟨o, ho, htracks⟩ := tracks hmade
    exact ⟨o, ho, ⟨hlow, htracks.length ▸ hhigh⟩, (htracks.holds index hlow hhigh).symm⟩

theorem kind_of_read_after {fault : Fault}
    (hread : (after history).read ref index = .error fault) :
    fault.kind = (Operation.get ref index).faultKind (allocated history).length := by
  rw [kind_of_read hread, Operation.faultKind]
  cases hderef : (after history).deref ref with
  | error fault' =>
      rw [if_neg]
      intro hin
      obtain ⟨o, ho⟩ := deref_iff.mpr hin
      rw [hderef] at ho
      cases ho
  | ok o => rw [if_pos (deref_iff.mp ⟨o, hderef⟩)]

theorem kind_of_perform {fault : Fault} (h : (after history).perform op = .error fault) :
    fault.kind = op.faultKind (allocated history).length := by
  cases op with
  | addInstance fieldCount className => cases h
  | addArray length elem =>
      change Heap.addArray _ _ _ = _ at h
      unfold addArray at h
      split at h
      · cases h
        rfl
      · cases h
  | deref ref => exact kind_of_index (map_eq_error_iff.mp (map_eq_error_iff.mp h))
  | get ref index => exact kind_of_read_after (map_eq_error_iff.mp h)
  | set ref index value => exact kind_of_read_after (read_of_write_error h)

/-- **The heap is a lawful store of objects.** After any operations a reference means an object exactly if
it is the number of an allocation that succeeded; while there are fewer than two to the thirty-first, the
address of the last one is their number. The object keeps the kind, the type and the length that it was
made with. Getting and setting succeed at the same indices, those below this length. What is got is the
value that was set last at this index of this object, or zero, and setting changes nothing that is got
elsewhere. What faults, a negative length of an array among it, leaves the heap as it was; a reference to
nothing faults by its own kind. -/
theorem heap_lawful (history : List Operation) (hsmall : (allocated history).length < 2 ^ 31) :
    let h := after history
    (h.size = (allocated history).length ∧
      h.lastAddress.toWord.toInt = (allocated history).length) ∧
    (∀ fieldCount className length elem,
      succeeds history (.addInstance fieldCount className) = true ∧
      (succeeds history (.addArray length elem) = true ↔ 0 ≤ length.toInt)) ∧
    (∀ ref, succeeds history (.deref ref) = true ↔
      1 ≤ ref.toInt ∧ ref.toInt ≤ (allocated history).length) ∧
    (∀ ref o, h.deref ref = .ok o → ∃ first, Made history ref first ∧
      o.kind = first.kind ∧ o.type = first.type ∧ o.length = first.length) ∧
    (∀ ref index value, (succeeds history (.get ref index) = true ↔ Reaches history ref index) ∧
      (succeeds history (.set ref index value) = true ↔ Reaches history ref index)) ∧
    (∀ ref index value, h.read ref index = .ok value ↔
      Reaches history ref index ∧ value = (sets ref index history).headD 0) ∧
    (∀ ref index value next, h.write ref index value = .ok next →
      ∀ other position, other ≠ ref ∨ position ≠ index →
        next.read other position = h.read other position) ∧
    (∀ op fault, h.perform op = .error fault →
      fault.kind = op.faultKind (allocated history).length ∧ after (op :: history) = h) := by
  dsimp only
  refine ⟨⟨size_after history, ?_⟩, fun fieldCount className length elem => ⟨rfl, ?_⟩, fun ref => ?_,
    fun ref o ho => ?_, fun ref index value => ⟨?_, ?_⟩, fun ref index value => read_after,
    fun ref index value next hwrite other position hne => read_write_of_ne hwrite hne,
    fun op fault h => ⟨kind_of_perform h, after_cons_error h⟩⟩
  · rw [toInt_lastAddress (size_after history ▸ hsmall), size_after]
  · rw [succeeds_iff, perform, addArray]
    split
    · next hneg => exact iff_of_false (fun ⟨_, h⟩ => nomatch h) (by omega)
    · next hpos => exact iff_of_true ⟨_, rfl⟩ (by omega)
  · rw [succeeds_iff, perform, exists_map_eq_ok_iff, deref_iff]
  · obtain ⟨first, hmade, htracks⟩ := made_of_deref ho
    exact ⟨first, hmade, htracks.kind, htracks.type, htracks.length⟩
  · rw [succeeds_iff, perform, exists_map_eq_ok_iff]
    simp only [read_after, exists_and_left, exists_eq, and_true]
  · rw [succeeds_iff, perform, reaches_iff]
    simp only [write_eq_ok_iff]
    constructor
    · rintro ⟨_, o, ho, hrange, -⟩
      exact ⟨o, ho, hrange⟩
    · rintro ⟨o, ho, hrange⟩
      exact ⟨_, o, ho, hrange, rfl⟩

/-- Two arrays and an instance, with a value set in one array between the allocations. -/
def allocations : List Operation :=
  [.addInstance (-2) "Cell", .addArray 2 "int", .set 1 1 5, .addArray (-1) "int", .addArray 2 "int"]

theorem heap_lawful_allocations :
    (allocated allocations).length = 3 ∧ (after allocations).lastAddress.toWord.toInt = 3 ∧
    (Reaches allocations 1 1 ∧ 5 = (sets 1 1 allocations).headD 0) ∧
    (Reaches allocations 2 1 ∧ 0 = (sets 2 1 allocations).headD 0) ∧
    ∃ fault, (after allocations).perform (.addArray (-1) "int") = .error fault ∧
      fault.kind = .negativeArrayLength ∧
      after (.addArray (-1) "int" :: allocations) = after allocations := by
  have hlength : (allocated allocations).length = 3 := by decide
  have hlawful := heap_lawful allocations (by rw [hlength]; decide)
  dsimp only at hlawful
  obtain ⟨⟨-, haddress⟩, -, -, -, -, hread, -, hfaults⟩ := hlawful
  refine ⟨hlength, haddress.trans (congrArg _ hlength), (hread 1 1 5).mp (by decide),
    (hread 2 1 0).mp (by decide), _, rfl, hfaults (.addArray (-1) "int") _ rfl⟩

end ObjectLang.Heap
