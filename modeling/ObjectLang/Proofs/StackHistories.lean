import Mathlib.Data.List.Forall2
import ObjectLang.Proofs.Memory

/-! What a call stack holds after any operations. A frame is known by the time at which it was pushed, so
a history says which frame was on top at any time. An offset of the frame on top holds what was written to
it last while this frame was on top, or what the frame began with; what other frames were given meanwhile
does not matter. -/

namespace ObjectLang

namespace CallStack

section

variable {s t : CallStack} {offset : Int} {value : Word}

theorem place_eq_ok_iff {place : FramePlace} : s.place offset = .ok place ↔
    ∃ f, s.live.head? = some f ∧ offset = place.offset ∧ f.HasPart place := by
  rw [CallStack.place, top?_eq]
  cases s.live.head? with
  | none =>
      constructor
      · intro h
        cases h
      · rintro ⟨f, hf, -⟩
        cases hf
  | some f =>
      have hplace : f.place offset = .ok place ↔ f.place? offset = some place :=
        ⟨Frame.place?_of_place, Frame.place_of_place?⟩
      simp only [Option.some.injEq, exists_eq_left', hplace, Frame.place?_eq_some_iff]

/-- Reading and writing reach the same offsets. -/
theorem read_eq_ok_iff : s.read offset = .ok value ↔
    ∃ f place, s.live.head? = some f ∧ s.place offset = .ok place ∧ value = f.load place := by
  rw [read, CallStack.place, top?_eq]
  cases s.live.head? with
  | none =>
      constructor
      · intro h
        cases h
      · rintro ⟨f, place, hf, -⟩
        cases hf
  | some f => simp only [map_eq_ok_iff, Option.some.injEq, exists_and_left, exists_eq_left']

theorem write_eq_ok_iff : s.write offset value = .ok t ↔
    ∃ place, s.place offset = .ok place ∧ t = s.store place value := map_eq_ok_iff

theorem kind_of_push {routine : String} {self : Word} {params : List Word} {slots : Int} {fault : Fault}
    (h : s.push routine self params slots = .error fault) : fault.kind = .stackOverflow := by
  unfold push at h
  split at h
  · cases h
  · cases h
    rfl

theorem kind_of_place {f : Frame} {fault : Fault} (h : f.place offset = .error fault) :
    fault.kind = .frameOffset := by
  unfold Frame.place at h
  split at h
  · cases h
  · cases h
    rfl

theorem kind_of_read {fault : Fault} (h : s.read offset = .error fault) :
    fault.kind = .frameOffset := by
  unfold read at h
  split at h
  · cases h
    rfl
  · exact kind_of_place (map_eq_error_iff.mp h)

theorem kind_of_write {fault : Fault} (h : s.write offset value = .error fault) :
    fault.kind = .frameOffset := by
  have hplace := map_eq_error_iff.mp h
  unfold CallStack.place at hplace
  split at hplace
  · cases hplace
    rfl
  · exact kind_of_place hplace

end

/-- The operations on a call stack. -/
inductive Operation where
  | push (routine : String) (self : Word) (params : List Word) (slots : Int)
  | pop
  | read (offset : Int)
  | write (offset : Int) (value : Word)
  deriving DecidableEq, Repr

/-- The stack that an operation leaves, unless it fails. -/
def perform (s : CallStack) : Operation → Except Fault CallStack
  | .push routine self params slots => s.push routine self params slots
  | .pop => .ok s.pop
  | .read offset => (s.read offset).map fun _ => s
  | .write offset value => s.write offset value

def Operation.faultKind : Operation → FaultKind
  | .push _ _ _ _ => .stackOverflow
  | .pop | .read _ | .write _ _ => .frameOffset

def after (limit : Int) (history : List Operation) : CallStack := leftBy perform (.empty limit) history

def succeeds (limit : Int) (history : List Operation) (op : Operation) : Bool :=
  ((after limit history).perform op).isOk

/-- A frame as it was pushed, and how many operations were made before. -/
structure Opening where
  time : Nat
  routine : String
  self : Word
  params : List Word
  slots : Int
  deriving DecidableEq, Repr

/-- The frames that a history leaves, the innermost first. -/
def openings (limit : Int) : List Operation → List Opening
  | [] => []
  | .push routine self params slots :: before =>
    if succeeds limit before (.push routine self params slots) then
      ⟨before.length, routine, self, params, slots⟩ :: openings limit before
    else openings limit before
  | .pop :: before => (openings limit before).tail
  | .read _ :: before | .write _ _ :: before => openings limit before

/-- What a frame begins with at an offset: the receiver, the arguments, and zeros. -/
inductive Opening.Begins (o : Opening) : Int → Word → Prop
  | self : o.Begins (-2) o.self
  | param {i : Nat} {value : Word} (h : o.params[i]? = some value) : o.Begins (-3 - i) value
  | slot {j : Nat} (h : (j : Int) < o.slots) : o.Begins (1 + j) 0

/-- The values that were written to an offset while a frame was on top, the latest first. -/
def writes (limit : Int) (o : Opening) (offset : Int) : List Operation → List Word
  | [] => []
  | .write target value :: before =>
    if target = offset ∧ (openings limit before).head? = some o ∧
        succeeds limit before (.write target value) then
      value :: writes limit o offset before
    else writes limit o offset before
  | .push _ _ _ _ :: before | .pop :: before | .read _ :: before => writes limit o offset before

/-- What an offset of a frame holds after a history: what was written last while the frame was on top,
or what the frame began with. -/
def Opening.Holds (limit : Int) (history : List Operation) (o : Opening) (offset : Int)
    (value : Word) : Prop :=
  ∃ start, o.Begins offset start ∧ value = (writes limit o offset history).headD start

variable {limit : Int} {history before : List Operation} {op : Operation} {o : Opening} {f : Frame}

theorem succeeds_iff : succeeds limit history op = true ↔
    ∃ next, (after limit history).perform op = .ok next := isOk_iff

theorem after_cons_ok {next : CallStack} (h : (after limit before).perform op = .ok next) :
    after limit (op :: before) = next := leftBy_cons_ok h

theorem after_cons_error {fault : Fault} (h : (after limit before).perform op = .error fault) :
    after limit (op :: before) = after limit before := leftBy_cons_error h

theorem after_cons_read (limit : Int) (before : List Operation) (offset : Int) :
    after limit (.read offset :: before) = after limit before := by
  cases hread : (after limit before).read offset with
  | error fault => exact after_cons_error (by rw [perform, hread]; rfl)
  | ok value => exact after_cons_ok (by rw [perform, hread]; rfl)

/-! ### What a history leaves -/

/-- A frame was pushed by one of the operations made. -/
theorem time_lt (h : o ∈ openings limit history) : o.time < history.length := by
  induction history with
  | nil => cases h
  | cons op before ih =>
      have hrest (h : o ∈ openings limit before) : o.time < (op :: before).length :=
        Nat.lt_succ_of_lt (ih h)
      cases op with
      | push routine self params slots =>
          rw [openings] at h
          split at h
          · rcases List.mem_cons.mp h with rfl | h
            · exact Nat.lt_succ_self _
            · exact hrest h
          · exact hrest h
      | pop => exact hrest (List.mem_of_mem_tail h)
      | read offset => exact hrest h
      | write offset value => exact hrest h

/-- Of two frames the inner one was pushed later. -/
theorem pairwise_time (limit : Int) (history : List Operation) :
    (openings limit history).Pairwise fun inner outer => outer.time < inner.time := by
  induction history with
  | nil => exact .nil
  | cons op before ih =>
      cases op with
      | push routine self params slots =>
          rw [openings]
          split
          · exact List.pairwise_cons.mpr ⟨fun outer houter => time_lt houter, ih⟩
          · exact ih
      | pop => exact ih.tail
      | read offset => exact ih
      | write offset value => exact ih

/-- Nothing is written to a frame before it is pushed. -/
theorem writes_eq_nil (offset : Int) (h : history.length ≤ o.time) :
    writes limit o offset history = [] := by
  induction history with
  | nil => rfl
  | cons op before ih =>
      have hbefore := ih (Nat.le_of_succ_le h)
      cases op with
      | write target value =>
          rw [writes, if_neg, hbefore]
          rintro ⟨-, htop, -⟩
          have := time_lt (List.mem_of_mem_head? htop)
          rw [List.length_cons] at h
          omega
      | push routine self params slots => exact hbefore
      | pop => exact hbefore
      | read offset => exact hbefore

/-- How a live frame looks like behind a history: it is as large as it was pushed, and each part holds
what was written there last. -/
structure Opening.Describes (limit : Int) (history : List Operation) (o : Opening) (f : Frame) : Prop where
  params : f.params.size = o.params.length
  locals : f.locals.size = o.slots.toNat
  holds : ∀ place start, f.HasPart place → o.Begins place.offset start →
    f.load place = (writes limit o place.offset history).headD start

/-- A frame begins with something at the offsets of its parts. -/
theorem exists_begins_iff (hparams : f.params.size = o.params.length)
    (hlocals : f.locals.size = o.slots.toNat) {offset : Int} :
    (∃ start, o.Begins offset start) ↔ ∃ place, offset = place.offset ∧ f.HasPart place := by
  constructor
  · rintro ⟨start, h⟩
    cases h with
    | self => exact ⟨.self, rfl, trivial⟩
    | @param i value h =>
        obtain ⟨hlt, -⟩ := List.getElem?_eq_some_iff.mp h
        exact ⟨.param i, rfl, show i < f.params.size from hparams ▸ hlt⟩
    | @slot j h => exact ⟨.local j, rfl, show j < f.locals.size by omega⟩
  · rintro ⟨place, rfl, hhas⟩
    cases place with
    | self => exact ⟨_, .self⟩
    | param i => exact ⟨_, .param (List.getElem?_eq_getElem (show i < o.params.length from hparams ▸ hhas))⟩
    | «local» j =>
        have hlt : j < f.locals.size := hhas
        exact ⟨_, .slot (by omega)⟩

/-- The frame that a push makes. -/
def Opening.frame (o : Opening) : Frame :=
  ⟨o.routine, o.self, o.params.toArray, Array.replicate o.slots.toNat 0⟩

theorem load_frame {place : FramePlace} {start : Word} (h : o.Begins place.offset start) :
    o.frame.load place = start := by
  generalize hoffset : place.offset = offset at h
  cases h with
  | self =>
      obtain rfl : place = .self := FramePlace.offset_inj hoffset
      rfl
  | @param i value h =>
      obtain rfl : place = .param i := FramePlace.offset_inj hoffset
      simp [Opening.frame, Frame.load, h]
  | @slot j h =>
      obtain rfl : place = .local j := FramePlace.offset_inj hoffset
      rw [Opening.frame, Frame.load, Array.getD_eq_getD_getElem?, Array.getElem?_replicate]
      split <;> rfl

/-- A frame goes on to hold what it held where nothing is written to it. -/
theorem Opening.Describes.of_writes (h : o.Describes limit history f) (next : List Operation)
    (hwrites : ∀ offset, writes limit o offset next = writes limit o offset history) :
    o.Describes limit next f :=
  ⟨h.params, h.locals, fun place start hhas hbegins => by
    rw [hwrites]
    exact h.holds place start hhas hbegins⟩

/-- A new frame holds what it begins with. -/
theorem Opening.describes_frame (h : history.length ≤ o.time) : o.Describes limit history o.frame := by
  refine ⟨by simp [Opening.frame], by simp [Opening.frame], fun place start _ hbegins => ?_⟩
  rw [writes_eq_nil _ h]
  exact load_frame hbegins

/-- The frame on top holds what is written to it. -/
theorem Opening.Describes.store {place : FramePlace} {value : Word} (h : o.Describes limit before f)
    (hhas : f.HasPart place) (htop : (openings limit before).head? = some o)
    (hsucceeds : succeeds limit before (.write place.offset value) = true) :
    o.Describes limit (.write place.offset value :: before) (f.store value place) := by
  refine ⟨?_, ?_, fun other start hother hbegins => ?_⟩
  · rw [← h.params]
    cases place <;> simp [Frame.store]
  · rw [← h.locals]
    cases place <;> simp [Frame.store]
  · rw [Frame.load_store hhas, writes]
    by_cases hplace : other = place
    · rw [if_pos hplace, if_pos ⟨hplace ▸ rfl, htop, hsucceeds⟩]
      rfl
    · rw [if_neg hplace, if_neg fun hsame => hplace (FramePlace.offset_inj hsame.1).symm]
      exact h.holds other start (Frame.hasPart_store.mp hother) hbegins

/-- What is written goes to the frame on top. Those below were pushed earlier, so it is not theirs. -/
theorem describes_write {place : FramePlace} {value : Word} {below : List Frame}
    (h : List.Forall₂ (Opening.Describes limit before) (openings limit before) (f :: below))
    (hhas : f.HasPart place)
    (hsucceeds : succeeds limit before (.write place.offset value) = true) :
    List.Forall₂ (Opening.Describes limit (.write place.offset value :: before))
      (openings limit (.write place.offset value :: before)) (f.store value place :: below) := by
  obtain ⟨o, covered, hf, hbelow, hopenings⟩ := List.forall₂_cons_right_iff.mp h
  have hearlier := (List.pairwise_cons.mp (hopenings ▸ pairwise_time limit before)).1
  rw [openings, hopenings]
  refine .cons (hf.store hhas (by rw [hopenings]; rfl) hsucceeds) ?_
  refine (((List.forall₂_and_left covered below).mpr ⟨hearlier, hbelow⟩).imp
    fun outer g h => h.2.of_writes _ fun other => ?_)
  rw [writes, if_neg]
  rintro ⟨-, hsame, -⟩
  rw [hopenings] at hsame
  cases hsame
  exact absurd h.1 (Nat.lt_irrefl _)

/-- What a history leaves: the frames that it pushed and did not pop, each with what was written to it. -/
theorem describes (limit : Int) (history : List Operation) :
    List.Forall₂ (Opening.Describes limit history) (openings limit history)
      (after limit history).live := by
  induction history with
  | nil => exact .nil
  | cons op before ih =>
      cases op with
      | push routine self params slots =>
          have hkept := ih.imp fun o f h =>
            h.of_writes (.push routine self params slots :: before) fun _ => rfl
          cases hperform : (after limit before).perform (.push routine self params slots) with
          | error fault =>
              rw [after_cons_error hperform, openings, if_neg (by simp [succeeds_iff, hperform])]
              exact hkept
          | ok next =>
              rw [after_cons_ok hperform, openings, if_pos (succeeds_iff.mpr ⟨next, hperform⟩),
                (push_ok hperform).2.2]
              have hnew : (⟨before.length, routine, self, params, slots⟩ : Opening).Describes limit before _ :=
                Opening.describes_frame (Nat.le_refl _)
              exact .cons (hnew.of_writes _ fun _ => rfl) hkept
      | pop =>
          have hkept := ih.imp fun o f h => h.of_writes (.pop :: before) fun _ => rfl
          have hafter : after limit (.pop :: before) = (after limit before).pop := after_cons_ok rfl
          rw [hafter, openings, live_pop, ← List.drop_one, ← List.drop_one]
          exact List.forall₂_drop 1 hkept
      | read offset =>
          have hkept := ih.imp fun o f h => h.of_writes (.read offset :: before) fun _ => rfl
          rwa [after_cons_read, openings]
      | write offset value =>
          cases hperform : (after limit before).perform (.write offset value) with
          | error fault =>
              rw [after_cons_error hperform]
              refine ih.imp fun o f h => h.of_writes _ fun other => ?_
              rw [writes, if_neg (by simp [succeeds_iff, hperform])]
          | ok next =>
              have hsucceeds := succeeds_iff.mpr ⟨next, hperform⟩
              obtain ⟨place, hplace, rfl⟩ := write_eq_ok_iff.mp hperform
              obtain ⟨f, htop, rfl, hhas⟩ := place_eq_ok_iff.mp hplace
              obtain ⟨below, hlive⟩ := List.head?_eq_some_iff.mp htop
              rw [after_cons_ok hperform, live_store place value hlive]
              exact describes_write (hlive ▸ ih) hhas hsucceeds

/-- An operation keeps the limit, and it adds a frame only below the limit. -/
theorem perform_ok {s t : CallStack} (h : s.perform op = .ok t) :
    t.limit = s.limit ∧ (t.depth ≤ s.depth ∨ t.depth = s.depth + 1 ∧ s.depth < s.limit) := by
  cases op with
  | push routine self params slots =>
      obtain ⟨hroom, hlimit, hlive⟩ := push_ok h
      refine ⟨hlimit, .inr ⟨?_, hroom⟩⟩
      rw [depth_eq, depth_eq, hlive, List.length_cons]
  | pop =>
      cases h
      refine ⟨rfl, .inl ?_⟩
      rw [depth_eq, depth_eq, live_pop, List.length_tail]
      exact Nat.sub_le _ _
  | read offset =>
      cases hread : s.read offset with
      | error fault => rw [perform, hread] at h; cases h
      | ok value =>
          rw [perform, hread] at h
          cases h
          exact ⟨rfl, .inl (Nat.le_refl _)⟩
  | write offset value =>
      obtain ⟨place, -, rfl⟩ := write_eq_ok_iff.mp h
      exact ⟨rfl, .inl (by simp [depth, store])⟩

/-- The limit is kept, and no history gets beyond it. -/
theorem within_limit (limit : Int) (history : List Operation) :
    (after limit history).limit = (empty limit).limit ∧
      (after limit history).depth ≤ (empty limit).limit := by
  induction history with
  | nil => exact ⟨rfl, Nat.zero_le _⟩
  | cons op before ih =>
      cases hperform : (after limit before).perform op with
      | error fault => rwa [after_cons_error hperform]
      | ok next =>
          obtain ⟨hlimit, hdepth⟩ := perform_ok hperform
          rw [after_cons_ok hperform]
          rw [ih.1] at hlimit hdepth
          exact ⟨hlimit, by omega⟩

/-- There is a frame on top exactly if the history left one, and then it is as described. -/
theorem top_cases (limit : Int) (history : List Operation) :
    (openings limit history).head? = none ∧ (after limit history).live.head? = none ∨
      ∃ o f, (openings limit history).head? = some o ∧ (after limit history).live.head? = some f ∧
        o.Describes limit history f := by
  have hdescribes := describes limit history
  generalize openings limit history = openings at hdescribes
  generalize (after limit history).live = live at hdescribes
  cases hdescribes with
  | nil => exact .inl ⟨rfl, rfl⟩
  | cons htop _ => exact .inr ⟨_, _, rfl, rfl, htop⟩

/-- What an offset holds is the value of the part that it means. -/
theorem Opening.Describes.holds_iff (h : o.Describes limit history f) {offset : Int} {value : Word} :
    o.Holds limit history offset value ↔
      ∃ place : FramePlace, (offset = place.offset ∧ f.HasPart place) ∧ value = f.load place := by
  constructor
  · rintro ⟨start, hbegins, rfl⟩
    obtain ⟨place, rfl, hhas⟩ := (exists_begins_iff h.params h.locals).mp ⟨start, hbegins⟩
    exact ⟨place, ⟨rfl, hhas⟩, (h.holds place start hhas hbegins).symm⟩
  · rintro ⟨place, ⟨rfl, hhas⟩, rfl⟩
    obtain ⟨start, hbegins⟩ := (exists_begins_iff h.params h.locals).mpr ⟨place, rfl, hhas⟩
    exact ⟨start, hbegins, h.holds place start hhas hbegins⟩

/-- Whether an offset is one of the frame on top. -/
def Reaches (limit : Int) (history : List Operation) (offset : Int) : Prop :=
  ∃ o start, (openings limit history).head? = some o ∧ o.Begins offset start

theorem reaches_iff {offset : Int} : Reaches limit history offset ↔
    ∃ place, (after limit history).place offset = .ok place := by
  simp only [Reaches, place_eq_ok_iff]
  rcases top_cases limit history with ⟨hnone, hlive⟩ | ⟨o, f, hsome, hlive, htop⟩
  · simp [hnone, hlive]
  · simp only [hsome, hlive, Option.some.injEq, exists_eq_left', exists_and_left]
    exact exists_begins_iff htop.params htop.locals

theorem read_after {offset : Int} {value : Word} : (after limit history).read offset = .ok value ↔
    ∃ o, (openings limit history).head? = some o ∧ o.Holds limit history offset value := by
  simp only [read_eq_ok_iff, place_eq_ok_iff]
  rcases top_cases limit history with ⟨hnone, hlive⟩ | ⟨o, f, hsome, hlive, htop⟩
  · simp [hnone, hlive]
  · simp only [hsome, hlive, Option.some.injEq, exists_eq_left', exists_and_left]
    exact htop.holds_iff.symm

theorem kind_of_perform {s : CallStack} {fault : Fault} (h : s.perform op = .error fault) :
    fault.kind = op.faultKind := by
  cases op with
  | push routine self params slots => exact kind_of_push h
  | pop => cases h
  | read offset => exact kind_of_read (map_eq_error_iff.mp h)
  | write offset value => exact kind_of_write h

/-- **The call stack is a lawful store of frames.** After any operations the live frames are those that
were pushed and not popped, never more than the limit, and a push succeeds exactly below it. Reading and
writing succeed at the same offsets: those of the receiver, the arguments and the slots of the frame on
top. What is read is the value that was written there last while this very frame was on top, or else the
receiver, the argument or the zero that the frame began with. What faults leaves the stack as it was. -/
theorem call_stack_lawful (limit : Int) (history : List Operation) :
    let s := after limit history
    (s.depth = (openings limit history).length ∧ s.depth ≤ s.limit ∧
      s.limit = if limit ≤ 0 then 10000 else limit.toNat) ∧
    (∀ routine self params slots,
      succeeds limit history (.push routine self params slots) = true ↔ s.depth < s.limit) ∧
    (∀ offset value, (succeeds limit history (.read offset) = true ↔ Reaches limit history offset) ∧
      (succeeds limit history (.write offset value) = true ↔ Reaches limit history offset)) ∧
    (∀ offset value, s.read offset = .ok value ↔
      ∃ o, (openings limit history).head? = some o ∧ o.Holds limit history offset value) ∧
    (∀ op fault, s.perform op = .error fault →
      fault.kind = op.faultKind ∧ after limit (op :: history) = s) := by
  dsimp only
  obtain ⟨hlimit, hdepth⟩ := within_limit limit history
  refine ⟨⟨?_, hlimit ▸ hdepth, hlimit ▸ rfl⟩, fun routine self params slots => ?_,
    fun offset value => ⟨?_, ?_⟩, fun offset value => read_after,
    fun op fault h => ⟨kind_of_perform h, after_cons_error h⟩⟩
  · rw [depth_eq, (describes limit history).length_eq]
  · rw [succeeds_iff, perform, push]
    split
    · next hroom => exact iff_of_true ⟨_, rfl⟩ hroom
    · next hfull => exact iff_of_false (fun ⟨_, h⟩ => nomatch h) hfull
  · rw [succeeds_iff, perform, exists_map_eq_ok_iff]
    simp only [read_after]
    constructor
    · rintro ⟨_, o, htop, start, hbegins, -⟩
      exact ⟨o, start, htop, hbegins⟩
    · rintro ⟨o, start, htop, hbegins⟩
      exact ⟨_, o, htop, start, hbegins, rfl⟩
  · rw [succeeds_iff, reaches_iff, perform, write, exists_map_eq_ok_iff]

/-- A frame writes to its slot and is covered by another one. -/
def nested : List Operation := [.push "inner" 7 [6] 1, .write 1 5, .push "outer" 0 [4] 1]

/-- What the inner frame writes is not seen by the outer one, and there is no room for a third. -/
theorem call_stack_lawful_nested :
    (∃ o, (openings 2 (.pop :: .write 1 9 :: nested)).head? = some o ∧
      o.Holds 2 (.pop :: .write 1 9 :: nested) 1 5) ∧
    ∃ fault, (after 2 nested).perform (.push "third" 0 [] 0) = .error fault ∧
      fault.kind = .stackOverflow ∧ after 2 (.push "third" 0 [] 0 :: nested) = after 2 nested :=
  ⟨((call_stack_lawful 2 (.pop :: .write 1 9 :: nested)).2.2.2.1 1 5).mp (by decide), _, rfl,
    (call_stack_lawful 2 nested).2.2.2.2 (.push "third" 0 [] 0) _ rfl⟩

end CallStack

end ObjectLang
