import ObjectLang.Proofs.Discipline
import ObjectLang.Proofs.Lexical

/-! Frames that show activations. The parameters of a frame are the arguments of an activation, and its
first slots are the local cells that are live, in the order in which they were added. So the slot that
layout gives to a name where some locals are in scope holds what the name means, for reading and for
writing. What a store shows of a world is kept when a cell is added, when a scope is left and when a
variable is assigned. -/

namespace ObjectLang

namespace Lexical

open Layout (Scope placeVar resolve lastIndex?)

section Cells

variable {cells : List (String × Word)} {name : String}

theorem find_cell {i : Nat} (h : (cells.map (·.1)).idxOf? name = some i) :
    ∃ cell, cells.find? (·.1 == name) = some cell ∧ cells[i]? = some cell := by
  induction cells generalizing i with
  | nil => simp at h
  | cons cell older ih =>
      simp only [List.map_cons, List.idxOf?_cons] at h
      by_cases hname : cell.1 = name
      · simp only [hname, beq_self_eq_true, if_true, Option.some.injEq] at h
        subst h
        exact ⟨cell, by simp [hname], rfl⟩
      · have hne : (cell.1 == name) = false := by simp [hname]
        simp only [hne, Bool.false_eq_true, if_false, Option.map_eq_some_iff] at h
        obtain ⟨j, hj, rfl⟩ := h
        obtain ⟨found, hfind, hget⟩ := ih hj
        exact ⟨found, by rw [List.find?_cons_of_neg (by simp [hname])]; exact hfind, hget⟩

theorem find_cell_none (h : (cells.map (·.1)).idxOf? name = none) :
    cells.find? (·.1 == name) = none := by
  rw [List.idxOf?_eq_none_iff] at h
  rw [List.find?_eq_none]
  intro cell hcell hname
  exact h (List.mem_map.mpr ⟨cell, hcell, by simpa using hname⟩)

theorem setCell_eq {i : Nat} (value : Word) (h : (cells.map (·.1)).idxOf? name = some i) :
    setCell name value cells = cells.set i (name, value) := by
  induction cells generalizing i with
  | nil => simp at h
  | cons cell older ih =>
      simp only [List.map_cons, List.idxOf?_cons] at h
      by_cases hname : cell.1 = name
      · simp only [hname, beq_self_eq_true, if_true, Option.some.injEq] at h
        subst h
        simp [setCell, hname]
      · have hne : (cell.1 == name) = false := by simp [hname]
        simp only [hne, Bool.false_eq_true, if_false, Option.map_eq_some_iff] at h
        obtain ⟨j, hj, rfl⟩ := h
        simp [setCell, hname, ih hj]

end Cells

/-- The scope in which no name means anything. -/
def unscoped : Scope := ⟨"", [], .error (.unknown "")⟩

def Context.layout (ctx : Context) : Scope := ctx.scope.getD unscoped

/-- A frame shows the running activation where the given locals are in scope. -/
structure Shows (ctx : Context) (slots : Nat) (locals : List String) (f : Frame) (w : World) :
    Prop where
  routine : f.routine = ctx.routine
  self : f.self = ctx.self
  size : f.locals.size = slots
  params : f.params.toList = w.args
  names : w.cells.map (·.1) = locals.reverse
  values : (w.cells.map (·.2)).reverse <+: f.locals.toList
  arity : ∀ scope, ctx.scope = some scope → w.args.length = scope.params.length
  command : ctx.scope = none → f = commandFrame

/-- A name means something in a routine; in commands there are no locals. -/
def Linked (ctx : Context) (locals : List String) (v : Var) : Prop :=
  match ctx.scope with
  | none => locals = []
  | some scope => ∃ slot, resolve scope locals v.name = .ok slot

namespace Shows

variable {ctx : Context} {slots : Nat} {locals : List String} {f : Frame} {w : World}

theorem length_cells (h : Shows ctx slots locals f w) : w.cells.length = locals.length := by
  have hlength := congrArg List.length h.names
  simpa using hlength

/-- The cell that a name in scope means stands in the slot of the name. -/
theorem cell (h : Shows ctx slots locals f w) {name : String} {j : Nat}
    (hj : lastIndex? locals name = some j) :
    ∃ i cell, (w.cells.map (·.1)).idxOf? name = some i ∧ i < w.cells.length ∧
      j = w.cells.length - 1 - i ∧ w.cells.find? (·.1 == name) = some cell ∧
      f.locals[j]? = some cell.2 := by
  unfold lastIndex? at hj
  rw [← h.names] at hj
  obtain ⟨i, hi, rfl⟩ := Option.map_eq_some_iff.mp hj
  obtain ⟨cell, hfind, hget⟩ := find_cell hi
  obtain ⟨hlt, hcell⟩ := List.getElem?_eq_some_iff.mp hget
  refine ⟨i, cell, hi, hlt, by rw [h.length_cells], hfind, ?_⟩
  have hvalue : (w.cells.map (·.2)).reverse[locals.length - 1 - i]? = some cell.2 := by
    rw [← h.length_cells, List.getElem?_reverse (by simp; omega)]
    have hindex : (w.cells.map (·.2)).length - 1 - (w.cells.length - 1 - i) = i := by
      simp
      omega
    rw [hindex, List.getElem?_map, hget]
    rfl
  obtain ⟨unused, hunused⟩ := h.values
  have hslot : f.locals.toList[locals.length - 1 - i]? = some cell.2 := by
    rw [← hunused, List.getElem?_append_left (List.getElem?_eq_some_iff.mp hvalue).1]
    exact hvalue
  rw [← Array.getElem?_toList]
  exact hslot

theorem cell_none (h : Shows ctx slots locals f w) {name : String}
    (hnone : lastIndex? locals name = none) : w.cells.find? (·.1 == name) = none := by
  unfold lastIndex? at hnone
  rw [← h.names] at hnone
  exact find_cell_none (Option.map_eq_none_iff.mp hnone)

/-- A slot that is free holds what becomes the value of a new cell. -/
theorem declare (h : Shows ctx slots locals f w) (name : String) (hfree : locals.length < slots) :
    ∃ initial, Shows ctx slots (locals ++ [name]) f
      { w with cells := (name, initial) :: w.cells } := by
  obtain ⟨unused, hunused⟩ := h.values
  cases unused with
  | nil =>
      have hlength := congrArg List.length hunused
      have hcells := h.length_cells
      have hsize := h.size
      simp at hlength
      omega
  | cons initial unused =>
      refine ⟨initial, { h with names := ?_, values := ?_ }⟩
      · simp [h.names]
      · exact ⟨unused, by simp [← hunused]⟩

/-- Leaving a scope leaves the cells that were there. -/
theorem leave (h : Shows ctx slots locals f w) {outer added : List String}
    (hlocals : locals = outer ++ added) :
    Shows ctx slots outer f { w with cells := w.cells.drop (w.cells.length - outer.length) } := by
  subst hlocals
  have hadded : w.cells.length - outer.length = added.length := by
    rw [h.length_cells, List.length_append, Nat.add_sub_cancel_left]
  refine { h with names := ?_, values := ?_ }
  · simp only [hadded]
    rw [List.map_drop, h.names, List.reverse_append, List.drop_left' (by simp)]
  · refine List.IsPrefix.trans ?_ h.values
    simp only [List.map_drop, List.reverse_prefix]
    exact List.drop_suffix _ _

theorem assignParam (h : Shows ctx slots locals f w) {scope : Scope} (hscope : ctx.scope = some scope)
    (i : Nat) (value : Word) :
    Shows ctx slots locals (f.store value (.param i)) { w with args := w.args.set i value } := by
  refine { h with params := ?_, arity := ?_, command := ?_ }
  · simp [Frame.store, h.params]
  · intro scope' hscope'
    simp [h.arity scope' hscope']
  · intro hnone
    rw [hscope] at hnone
    cases hnone

theorem assignCell (h : Shows ctx slots locals f w) {scope : Scope} (hscope : ctx.scope = some scope)
    {name : String} {i : Nat} (hi : (w.cells.map (·.1)).idxOf? name = some i)
    (hlt : i < w.cells.length) (value : Word) :
    Shows ctx slots locals (f.store value (.local (w.cells.length - 1 - i)))
      { w with cells := setCell name value w.cells } := by
  have hname : (w.cells.map (·.1)).set i name = w.cells.map (·.1) := by
    obtain ⟨hbound, hget, -⟩ := List.idxOf?_eq_some_iff.mp hi
    rw [← hget]
    exact List.set_getElem_self hbound
  refine { h with size := ?_, names := ?_, values := ?_, command := ?_ }
  · simp [Frame.store, h.size]
  · dsimp only
    rw [setCell_eq value hi, List.map_set, hname, h.names]
  · obtain ⟨unused, hunused⟩ := h.values
    refine ⟨unused, ?_⟩
    have hreverse : ((w.cells.map (·.2)).set i value).reverse =
        (w.cells.map (·.2)).reverse.set (w.cells.length - 1 - i) value := by
      apply List.ext_getElem
      · simp
      · intro k hk _
        have hk : k < w.cells.length := by simpa using hk
        simp only [List.getElem_reverse, List.getElem_set, List.length_set, List.length_map]
        have hiff : i = w.cells.length - 1 - k ↔ w.cells.length - 1 - i = k := by omega
        simp only [hiff]
    dsimp only [Frame.store]
    rw [setCell_eq value hi, List.map_set, hreverse, Array.toList_setIfInBounds, ← hunused,
      List.set_append_left _ _ (by simp; omega)]
  · intro hnone
    rw [hscope] at hnone
    cases hnone

end Shows

theorem placeVar_unscoped (v : Var) : placeVar unscoped [] v = v := rfl

/-- A placed variable has the value that its name means. -/
theorem read_eq {ctx : Context} {slots : Nat} {locals : List String} {f : Frame} {below : List Frame}
    {σ : Store} {w : World} {v : Var} (hshows : Shows ctx slots locals f w)
    (hlive : σ.stack.live = f :: below) (hheap : w.heap = σ.heap) (hlinked : Linked ctx locals v) :
    Machine.readVar σ (placeVar ctx.layout locals v) = read ctx w v := by
  unfold Linked at hlinked
  unfold Context.layout read
  cases hscope : ctx.scope with
  | none =>
      rw [hscope] at hlinked
      dsimp only at hlinked ⊢
      subst hlinked
      rw [Option.getD_none, placeVar_unscoped, hheap]
      rw [hshows.command hscope] at hlive
      unfold Machine.readVar
      cases v.slot with
      | unresolved => rfl
      | frame offset => exact CallStack.read_eq hlive offset
      | field offset =>
          dsimp only
          rw [CallStack.read_eq hlive]
          rfl
  | some scope =>
      rw [hscope] at hlinked
      obtain ⟨slot, hslot⟩ := hlinked
      have hplaced : placeVar scope locals v = { v with slot := slot } := by
        unfold placeVar
        rw [hslot]
      dsimp only
      rw [Option.getD_some, hplaced]
      unfold Machine.readVar
      dsimp only
      rcases Layout.resolve_cases hslot with
        ⟨i, hi, hlt, rfl⟩ | ⟨hparam, j, hj, -, rfl⟩ |
          ⟨hparam, hlocal, fields, offset, hfields, hoffset, rfl⟩
      · have hsize : i < f.params.size := by
          rw [← Array.length_toList, hshows.params, hshows.arity scope hscope]
          exact hlt
        dsimp only
        rw [CallStack.read_eq hlive, Frame.place_of_place? (Frame.place?_param hsize), hi]
        simp [Except.map, Frame.load, ← hshows.params]
      · obtain ⟨i, cell, -, -, -, hfind, hvalue⟩ := hshows.cell hj
        have hsize := (Array.getElem?_eq_some_iff.mp hvalue).1
        dsimp only
        rw [CallStack.read_eq hlive, Frame.place_of_place? (Frame.place?_local hsize), hparam, hfind]
        simp [Except.map, Frame.load, hvalue]
      · dsimp only
        rw [CallStack.read_eq hlive, hparam, hshows.cell_none hlocal]
        simp only [field?, hfields, hoffset, hheap, ← hshows.self]
        rfl

/-! ### Stores that show worlds -/

/-- Every variable of every method has a slot. -/
def Laid (table : ClassTable) : Prop :=
  ∀ m ∈ table.methods, Layout.Resolved
    (Layout.routineOutcomes (Layout.routineScope table m.owner m.decl) m.decl)

/-- Where code runs on the machine: in a context, on top of some frames, with a number of slots for
locals. -/
structure Site where
  ctx : Context
  below : List Frame
  slots : Nat

/-- The setting of the machine: the routines of the table are placed. -/
def placed (setting : Setting) : Setting :=
  { setting with table := setting.table.mapRoutines (Layout.placeIn setting.table) }

/-- A store and a world after a failure: they have the same to show, and the frames below are left. -/
structure Left (site : Site) (σ : Store) (w : World) : Prop where
  heap : w.heap = σ.heap
  printed : w.printed = σ.printed
  traced : w.traced = σ.traced
  limit : σ.stack.limit = site.ctx.limit
  frame : ∃ f, σ.stack.live = f :: site.below ∧ f.routine = site.ctx.routine ∧
    f.self = site.ctx.self

/-- A store shows a world at a site where the given locals are in scope. -/
structure Sim (site : Site) (locals : List String) (σ : Store) (w : World) : Prop where
  heap : w.heap = σ.heap
  printed : w.printed = σ.printed
  traced : w.traced = σ.traced
  limit : σ.stack.limit = site.ctx.limit
  frame : ∃ f, σ.stack.live = f :: site.below ∧ Shows site.ctx site.slots locals f w
  callers : site.below.map Frame.shown = site.ctx.callers
  laid : Laid site.ctx.setting.table

theorem Sim.left {site : Site} {locals : List String} {σ : Store} {w : World}
    (h : Sim site locals σ w) : Left site σ w := by
  obtain ⟨f, hlive, hshows⟩ := h.frame
  exact ⟨h.heap, h.printed, h.traced, h.limit, f, hlive, hshows.routine, hshows.self⟩

/-- A run ends as a computation may: with a result that is handed on, or in the same failure. -/
def Ends {α : Type} (site : Site) (locals : List String) (hand : α → Control) (m : Sem α) (w : World)
    (t : State) : Prop :=
  (∃ a τ w', t = ⟨hand a, [], τ⟩ ∧ m w (.ok a) w' ∧ Sim site locals τ w') ∨
    ∃ f τ w', t = ⟨.failed f, [], τ⟩ ∧ m w (.error f) w' ∧ Left site τ w'

/-- The end of statements is handed on. -/
def finish (_ : Unit) : Control := .done

namespace Ends

variable {α β : Type} {site : Site} {locals : List String} {hand : α → Control}
  {hand' : β → Control} {w u : World} {t : State}

theorem ret {a : α} {τ : Store} (h : Sim site locals τ w) :
    Ends site locals hand (pure a) w ⟨hand a, [], τ⟩ :=
  .inl ⟨a, τ, w, rfl, ⟨rfl, rfl⟩, h⟩

theorem fail {f : Failure} {τ : Store} (h : Left site τ w) :
    Ends site locals hand (Sem.fail f) w ⟨.failed f, [], τ⟩ :=
  .inr ⟨f, τ, w, rfl, ⟨rfl, rfl⟩, h⟩

theorem andThen {m : Sem α} {k : α → Sem β} {a : α} (hm : m w (.ok a) u)
    (hk : Ends site locals hand' (k a) u t) : Ends site locals hand' (m >>= k) w t := by
  rcases hk with ⟨b, τ, w', rfl, hb, hsim⟩ | ⟨f, τ, w', rfl, hf, hleft⟩
  · exact .inl ⟨b, τ, w', rfl, .inl ⟨a, u, hm, hb⟩, hsim⟩
  · exact .inr ⟨f, τ, w', rfl, .inl ⟨a, u, hm, hf⟩, hleft⟩

theorem failed {m : Sem α} {k : α → Sem β} {f : Failure} {τ : Store} (hm : m w (.error f) u)
    (hleft : Left site τ u) : Ends site locals hand' (m >>= k) w ⟨.failed f, [], τ⟩ :=
  .inr ⟨f, τ, u, rfl, .inr ⟨f, hm, rfl⟩, hleft⟩

theorem world {k : World → Sem β} (hk : Ends site locals hand' (k w) w t) :
    Ends site locals hand' (Sem.world >>= k) w t :=
  andThen ⟨rfl, rfl⟩ hk

theorem ofOk {r : Except Fault α} {a : α} {k : α → Sem β} (hr : r = .ok a)
    (hk : Ends site locals hand' (k a) w t) : Ends site locals hand' (Sem.ofExcept r >>= k) w t := by
  subst hr
  exact andThen ⟨rfl, rfl⟩ hk

theorem ofError {r : Except Fault α} {f : Fault} {k : α → Sem β} {τ : Store} (hr : r = .error f)
    (hleft : Left site τ w) :
    Ends site locals hand' (Sem.ofExcept r >>= k) w ⟨.failed (.fault f), [], τ⟩ := by
  subst hr
  exact failed ⟨rfl, rfl⟩ hleft

theorem yield {r : Except Fault Word} {control : Control} {τ : Store} (h : Sim site locals τ w) :
    Ends site locals .value (Sem.ofExcept r) w (State.yield ⟨control, [], τ⟩ r) := by
  cases r with
  | ok v => exact ret h
  | error f => exact fail h.left

theorem value_inv {m : Sem Word} {v : Word} {τ : Store}
    (h : Ends site locals .value m w ⟨.value v, [], τ⟩) : ∃ u, m w (.ok v) u ∧ Sim site locals τ u := by
  rcases h with ⟨v', τ', u, heq, hv, hsim⟩ | ⟨f, τ', u, heq, -⟩
  · cases heq
    exact ⟨u, hv, hsim⟩
  · cases heq

theorem done_inv {m : Sem Unit} {τ : Store} (h : Ends site locals finish m w ⟨.done, [], τ⟩) :
    ∃ u, m w (.ok ()) u ∧ Sim site locals τ u := by
  rcases h with ⟨_, τ', u, heq, hm, hsim⟩ | ⟨f, τ', u, heq, -⟩
  · cases heq
    exact ⟨u, hm, hsim⟩
  · cases heq

theorem failed_inv {m : Sem α} {f : Failure} {τ : Store} (hhand : ∀ a, hand a ≠ .failed f)
    (h : Ends site locals hand m w ⟨.failed f, [], τ⟩) : ∃ u, m w (.error f) u ∧ Left site τ u := by
  rcases h with ⟨a, τ', u, heq, -⟩ | ⟨f', τ', u, heq, hf, hleft⟩
  · exact absurd (congrArg State.control heq).symm (hhand a)
  · cases heq
    exact ⟨u, hf, hleft⟩

/-- A scope is left with the cells that were there before. -/
theorem inScope {m : Sem Unit} {σ : Store} {added : List String} (h : Sim site locals σ w)
    (hm : Ends site (locals ++ added) finish m w t) : Ends site locals finish (Sem.inScope m) w t := by
  obtain ⟨f, -, hshows⟩ := h.frame
  rcases hm with ⟨a, τ, w', rfl, ha, hsim⟩ | ⟨f, τ, w', rfl, hf, hleft⟩
  · obtain ⟨g, hlive, hg⟩ := hsim.frame
    refine .inl ⟨a, τ, _, rfl, ⟨w', ha, rfl⟩, { hsim with frame := ⟨g, hlive, ?_⟩ }⟩
    rw [hshows.length_cells]
    exact hg.leave rfl
  · exact .inr ⟨f, τ, _, rfl, ⟨w', hf, rfl⟩, { hleft with }⟩

end Ends

/-- A placed assignment changes what its name means. -/
theorem Sim.assign {site : Site} {locals : List String} {σ : Store} {w : World} {v : Var}
    {scope : Scope} (h : Sim site locals σ w) (hscope : site.ctx.scope = some scope)
    (hlinked : ∃ slot, resolve scope locals v.name = .ok slot) (control : Control) (value : Word) :
    Ends site locals finish (Sem.ofExcept (write site.ctx scope w v value) >>= Sem.put) w
      (Machine.writeVar ⟨control, [], σ⟩ (placeVar scope locals v) value) := by
  obtain ⟨f, hlive, hshows⟩ := h.frame
  obtain ⟨slot, hslot⟩ := hlinked
  have hplaced : placeVar scope locals v = { v with slot := slot } := by
    unfold placeVar
    rw [hslot]
  rw [hplaced]
  unfold Machine.writeVar write
  dsimp only
  rcases Layout.resolve_cases hslot with
    ⟨i, hi, hlt, rfl⟩ | ⟨hparam, j, hj, -, rfl⟩ |
      ⟨hparam, hlocal, fields, offset, hfields, hoffset, rfl⟩
  · have hsize : i < f.params.size := by
      rw [← Array.length_toList, hshows.params, hshows.arity scope hscope]
      exact hlt
    simp only [CallStack.place_eq hlive, Frame.place_of_place? (Frame.place?_param hsize), hi]
    refine .ofOk rfl (.inl ⟨(), _, _, rfl, ⟨rfl, rfl⟩, { h with frame := ?_ }⟩)
    exact ⟨_, CallStack.live_store _ _ hlive, hshows.assignParam hscope i value⟩
  · obtain ⟨i, cell, hi, hlt, rfl, hfind, hvalue⟩ := hshows.cell hj
    have hsize := (Array.getElem?_eq_some_iff.mp hvalue).1
    simp only [CallStack.place_eq hlive, Frame.place_of_place? (Frame.place?_local hsize), hparam,
      hfind]
    refine .ofOk rfl (.inl ⟨(), _, _, rfl, ⟨rfl, rfl⟩, { h with frame := ?_ }⟩)
    exact ⟨_, CallStack.live_store _ _ hlive, hshows.assignCell hscope hi hlt value⟩
  · have hself : σ.stack.read Layout.selfOffset = .ok site.ctx.self := by
      rw [CallStack.read_eq hlive, ← hshows.self]
      rfl
    simp only [hself, hparam, hshows.cell_none hlocal, field?, hfields, hoffset, h.heap]
    cases hplace : σ.heap.place site.ctx.self (Int32.ofInt offset) with
    | error fault =>
        simp only [bind, Except.bind, hplace]
        exact .ofError rfl h.left
    | ok place =>
        simp only [bind, Except.bind, hplace]
        refine .ofOk rfl (.inl ⟨(), _, _, rfl, ⟨rfl, rfl⟩, { h with heap := rfl, frame := ?_ }⟩)
        exact ⟨f, hlive, { hshows with }⟩

theorem isFinal_yield (control : Control) (σ : Store) (r : Except Fault Word) :
    (State.yield ⟨control, [], σ⟩ r).isFinal = true := by
  cases r <;> rfl

end Lexical

end ObjectLang
