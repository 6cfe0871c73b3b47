import ObjectLang.Proofs.Runs

/-! The code that is being evaluated. An expression, or a statement of a list, is entered in one state
of a run, and it is open as long as more is pending than was pending then. What is pending has a
marker for each expression and statement that is open, and no other, so the markers tell the open code
in order. A step takes at most one thing off what is pending. -/

namespace ObjectLang

/-- Code that is evaluated in its own right: an expression, or a statement of a list. A command is a
statement of the list of commands. -/
inductive Locus where
  | expr (expr : Expr)
  | stmt (stmt : Stmt)

namespace Locus

def span : Locus → Span
  | .expr e => e.span
  | .stmt s => s.span

end Locus

def State.entered? (s : State) : Option Locus :=
  match s.control with
  | .expr e => some (.expr e)
  | .stmts (stmt :: _) => some (.stmt stmt)
  | _ => none

def Pending.span? : Pending → Option Span
  | .locate span | .next span _ => some span
  | _ => none

theorem Pending.span?_eq_some {p : Pending} {span : Span} (h : p.span? = some span) :
    p = .locate span ∨ ∃ rest, p = .next span rest := by
  cases p with
  | locate place =>
      cases h
      exact .inl rfl
  | next place rest =>
      cases h
      exact .inr ⟨rest, rfl⟩
  | _ => cases h

/-- What is pending stands on a given rest, without further markers. -/
def State.Above (base : List Pending) (s : State) : Prop :=
  ∃ above, (∀ p ∈ above, p.span? = none) ∧ s.pending = above ++ base

theorem State.above_self (s : State) : s.Above s.pending := ⟨[], nofun, rfl⟩

namespace Machine

section Above

variable {setting : Setting} {base : List Pending} {s : State} (hs : s.Above base)
include hs

theorem above_pend {p : Pending} (hp : p.span? = none) (control : Control) :
    (s.push p control).Above base := by
  obtain ⟨above, habove, hpending⟩ := hs
  refine ⟨p :: above, ?_, by rw [State.push, hpending, List.cons_append]⟩
  intro q hq
  rcases List.mem_cons.mp hq with rfl | hq
  · exact hp
  · exact habove q hq

theorem above_yield (r : Except Fault Word) : (s.yield r).Above base := by
  cases r <;> exact hs

theorem above_writeVar (v : Var) (value : Word) : (writeVar s v value).Above base := by
  unfold writeVar
  split
  · split <;> exact hs
  · split <;> exact hs
  · exact hs

theorem above_writeAt (ref index value : Word) : (writeAt s ref index value).Above base := by
  unfold writeAt
  split <;> exact hs

theorem above_print (value : Word) : (print setting s value).Above base := by
  unfold print
  dsimp only
  split
  · exact hs
  · split <;> exact hs

theorem above_constructed (className : String) (ref : Word) :
    (constructed setting s className ref).Above base := by
  unfold constructed
  split
  · split <;> exact hs
  · exact hs

theorem above_enter (m : Method) (self : Word) (args : List Word) (wantsValue : Bool) :
    (enter s m self args wantsValue).Above base := by
  unfold enter
  dsimp only
  split
  · exact hs
  · split
    · exact hs
    · split
      · exact hs
      · exact above_pend hs rfl (.stmts m.decl.body)

theorem above_evalArgs (callee : Callee) (evaluated : List Word) (args : List Expr) :
    (evalArgs setting s callee evaluated args).Above base := by
  cases args with
  | cons e rest => exact above_pend hs rfl (.expr e)
  | nil =>
      cases callee with
      | routine m self wantsValue => exact above_enter hs m self _ wantsValue
      | method className name self wantsValue =>
          unfold evalArgs call
          dsimp only
          split
          · exact hs
          · exact above_enter hs _ self _ wantsValue

theorem above_startCall (receiver : Expr) (name : String) (args : List Expr) (wantsValue : Bool) :
    (startCall setting s receiver name args wantsValue).Above base := by
  cases receiver with
  | missing =>
      unfold startCall callTop
      dsimp only
      split
      · exact hs
      · exact above_evalArgs hs _ [] args
  | _ => exact above_pend hs rfl _

theorem above_receive (ref : Word) (name : String) (args : List Expr) (wantsValue : Bool) :
    (receive setting s ref name args wantsValue).Above base := by
  unfold receive
  split
  · exact hs
  · split
    · exact hs
    · exact above_evalArgs hs _ [] args

theorem above_construct (className : String) (args : List Expr) :
    (construct setting s className args).Above base := by
  unfold construct
  split
  · exact hs
  · dsimp only
    split
    · refine above_evalArgs ?_ _ [] args
      exact above_pend hs rfl s.control
    · split
      · refine above_constructed ?_ className _
        exact hs
      · exact hs

end Above

variable (setting : Setting) (s : State)

theorem above_eval (e : Expr) : (eval setting s e).Above (.locate e.span :: s.pending) := by
  let located : State := { s with pending := .locate e.span :: s.pending }
  have hlocated : located.Above (.locate e.span :: s.pending) := located.above_self
  cases e with
  | var span v => exact above_yield hlocated _
  | self span => exact above_yield hlocated _
  | newObject span className listed args => exact above_construct hlocated className args
  | call span receiver name listed args => exact above_startCall hlocated receiver name args true
  | missing | integer span value | truth span value => exact hlocated
  | _ => exact above_pend hlocated rfl _

theorem above_exec (stmt : Stmt) : (exec setting s stmt).Above s.pending := by
  have hs := s.above_self
  cases stmt with
  | missing | block b | declare span type name => exact hs
  | call span receiver name listed args =>
      exact above_startCall (above_pend hs (p := .discard) rfl s.control) receiver name args false
  | _ => exact above_pend hs rfl _

theorem above_resume (v : Word) (p : Pending) : (resume setting s v p).Above s.pending := by
  have hs := s.above_self
  cases p with
  | rightOperand op right => exact above_pend hs rfl _
  | combine op left => exact above_yield hs _
  | readAt ref => exact above_yield hs _
  | measure => exact above_yield hs _
  | indexOf index | assignIndexOf index value =>
      unfold resume
      dsimp only
      split
      · exact hs
      · exact above_pend hs rfl _
  | makeArray elem =>
      unfold resume
      dsimp only
      split <;> exact hs
  | receive name args wantsValue => exact above_receive hs v name args wantsValue
  | argument callee evaluated rest => exact above_evalArgs hs callee _ rest
  | constructed className ref => exact above_constructed hs className ref
  | test cond body =>
      unfold resume
      dsimp only
      split
      · exact above_pend hs rfl _
      · exact hs
  | print => exact above_print hs v
  | assign var => exact above_writeVar hs var v
  | assignValueOf ref value => exact above_pend hs rfl _
  | writeAt ref index => exact above_writeAt hs ref index v
  | _ => exact hs

theorem above_proceed (p : Pending) : (proceed s p).Above s.pending := by
  have hs := s.above_self
  cases p with
  | again cond body => exact above_pend hs rfl _
  | activation result =>
      cases result with
      | none => exact hs
      | some result => exact above_pend hs rfl _
  | _ => exact hs

end Machine

namespace State

/-- What a step does to what is pending: it enters code and marks it, or takes one thing off, or
puts others in the place of one that is no marker, or does none of these. -/
inductive Moves (s t : State) : Prop
  | enters (locus : Locus) (marker : Pending) (hentered : s.entered? = some locus)
      (hmarker : marker.span? = some locus.span) (habove : t.Above (marker :: s.pending))
  | takesOff (p : Pending) (hentered : s.entered? = none) (hpending : s.pending = p :: t.pending)
  | replaces (p : Pending) (rest : List Pending) (hentered : s.entered? = none)
      (hpending : s.pending = p :: rest) (hp : p.span? = none) (habove : t.Above rest)
  | stays (hentered : s.entered? = none) (hpending : t.pending = s.pending)

theorem Above.length_le {base : List Pending} {s : State} (h : s.Above base) :
    base.length ≤ s.pending.length := by
  obtain ⟨above, -, hpending⟩ := h
  rw [hpending, List.length_append]
  omega

theorem Moves.length_le {s t : State} (h : s.Moves t) :
    s.pending.length ≤ t.pending.length + 1 := by
  cases h with
  | enters locus marker hentered hmarker habove =>
      have hle := habove.length_le
      rw [List.length_cons] at hle
      omega
  | takesOff p hentered hpending => exact Nat.le_of_eq (by rw [hpending, List.length_cons])
  | replaces p rest hentered hpending hp habove =>
      have hle := habove.length_le
      rw [hpending, List.length_cons]
      omega
  | stays hentered hpending =>
      rw [hpending]
      omega

end State

namespace Machine

variable (setting : Setting)

theorem moves_step (s : State) : s.Moves (step setting s) := by
  obtain ⟨control, pending, store⟩ := s
  cases control with
  | expr e =>
      exact .enters (.expr e) (.locate e.span) rfl rfl
        (above_eval setting ⟨.expr e, pending, store⟩ e)
  | stmts stmts =>
      cases stmts with
      | nil => exact .stays rfl rfl
      | cons stmt rest =>
          exact .enters (.stmt stmt) (.next stmt.span rest) rfl rfl (above_exec setting
            ⟨.stmts (stmt :: rest), .next stmt.span rest :: pending, store⟩ stmt)
  | value v =>
      cases pending with
      | nil => exact .stays rfl rfl
      | cons p rest =>
          cases hp : p.span? with
          | none => exact .replaces p rest rfl rfl hp (above_resume setting ⟨.value v, rest, store⟩ v p)
          | some span =>
              obtain rfl | ⟨body, rfl⟩ := Pending.span?_eq_some hp
              · exact .takesOff _ rfl rfl
              · exact .takesOff _ rfl rfl
  | done =>
      cases pending with
      | nil => exact .stays rfl rfl
      | cons p rest =>
          cases hp : p.span? with
          | none => exact .replaces p rest rfl rfl hp (above_proceed ⟨.done, rest, store⟩ p)
          | some span =>
              obtain rfl | ⟨body, rfl⟩ := Pending.span?_eq_some hp
              · exact .takesOff _ rfl rfl
              · exact .takesOff _ rfl rfl
  | failed f =>
      cases pending with
      | nil => exact .stays rfl rfl
      | cons p rest =>
          refine .takesOff p rfl ?_
          cases p <;> rfl

theorem length_pending_iterate (s : State) (n : Nat) :
    s.pending.length ≤ ((step setting)^[n] s).pending.length + n := by
  induction n with
  | zero => exact Nat.le_refl _
  | succ n ih =>
      have hstep := (moves_step setting ((step setting)^[n] s)).length_le
      rw [Function.iterate_succ_apply']
      omega

/-- A run takes at least as many steps as it has things pending. -/
theorem length_pending_le {s t : State} {n : Nat} (h : run setting n s = some t) :
    s.pending.length ≤ n := by
  obtain ⟨rfl, hfinal⟩ := run_eq_some_iff.mp h
  have hle := length_pending_iterate setting s n
  rw [((State.isFinal_iff _).mp hfinal).1] at hle
  simpa using hle

/-- What was entered after some steps of a run is open after more of them: since then more has been
pending than when it was entered. -/
def Open (s : State) (i n : Nat) : Prop :=
  ∀ j ≤ n, i < j → ((step setting)^[i] s).pending.length < ((step setting)^[j] s).pending.length

instance (s : State) (i n : Nat) : Decidable (Open setting s i n) :=
  inferInstanceAs (Decidable (∀ j ≤ n, _))

/-- The states since which more has been pending than in them, the last first. -/
def openStates (s : State) (n : Nat) : List State :=
  ((List.range n).reverse.filter fun i => Open setting s i n).map fun i => (step setting)^[i] s

/-- The code that is open after some steps of a run, the innermost first. -/
def openCode (s : State) (n : Nat) : List Locus :=
  (openStates setting s n).filterMap State.entered?

theorem open_succ (s : State) (i n : Nat) : Open setting s i (n + 1) ↔ Open setting s i n ∧
    (i < n + 1 → ((step setting)^[i] s).pending.length <
      ((step setting)^[n + 1] s).pending.length) := by
  constructor
  · intro h
    exact ⟨fun j hj => h j (by omega), h (n + 1) (Nat.le_refl _)⟩
  · rintro ⟨hbefore, hlast⟩ j hj hij
    rcases Nat.lt_or_ge n j with hlt | hge
    · obtain rfl : j = n + 1 := by omega
      exact hlast hij
    · exact hbefore j hge hij

theorem openStates_succ (s : State) (n : Nat) :
    openStates setting s (n + 1) = ((step setting)^[n] s :: openStates setting s n).filter
      fun u => u.pending.length < ((step setting)^[n + 1] s).pending.length := by
  have hnow : Open setting s n n := fun j hj hlt => absurd hlt (by omega)
  have hpast : ∀ i ∈ (List.range n).reverse, decide (Open setting s i (n + 1)) =
      (decide (((step setting)^[i] s).pending.length <
        ((step setting)^[n + 1] s).pending.length) && decide (Open setting s i n)) := by
    intro i hi
    have hi : i < n + 1 := by
      rw [List.mem_reverse, List.mem_range] at hi
      omega
    rw [Bool.eq_iff_iff, Bool.and_eq_true, decide_eq_true_iff, decide_eq_true_iff,
      decide_eq_true_iff, open_succ]
    exact ⟨fun h => ⟨h.2 hi, h.1⟩, fun h => ⟨h.2, fun _ => h.1⟩⟩
  rw [openStates, List.range_succ, List.reverse_append, List.reverse_singleton,
    List.singleton_append, List.filter_cons, List.filter_cons, List.filter_congr hpast, openStates,
    List.filter_map, List.filter_filter]
  simp only [open_succ, hnow, true_and, Nat.lt_succ_self, forall_const, decide_eq_true_eq]
  split <;> rfl

/-! ### Markers -/

/-- The open code has its markers in what is pending, in order, and each marker stands on what was
pending when its code was entered. -/
inductive Marked : List State → List Pending → Prop
  | nil : Marked [] []
  | marker {u : State} {locus : Locus} {p : Pending} {states : List State} {rest : List Pending}
      (hentered : u.entered? = some locus) (hspan : p.span? = some locus.span)
      (hlength : u.pending.length = rest.length) (hrest : Marked states rest) :
      Marked (u :: states) (p :: rest)
  | other {p : Pending} {states : List State} {rest : List Pending} (hspan : p.span? = none)
      (hrest : Marked states rest) : Marked states (p :: rest)
  | silent {u : State} {states : List State} {pending : List Pending} (hentered : u.entered? = none)
      (hrest : Marked states pending) : Marked (u :: states) pending

namespace Marked

variable {states : List State} {pending : List Pending}

theorem above (h : Marked states pending) {above : List Pending}
    (habove : ∀ p ∈ above, p.span? = none) : Marked states (above ++ pending) := by
  induction above with
  | nil => exact h
  | cons p above ih =>
      exact .other (habove p List.mem_cons_self) (ih fun q hq => habove q (List.mem_cons_of_mem p hq))

theorem filter_of_le (h : Marked states pending) {k : Nat} (hk : pending.length ≤ k) :
    Marked (states.filter fun u => u.pending.length < k) pending := by
  induction h with
  | nil => exact .nil
  | marker hentered hspan hlength hrest ih =>
      rw [List.length_cons] at hk
      rw [List.filter_cons_of_pos (by rw [hlength]; exact decide_eq_true (by omega))]
      exact .marker hentered hspan hlength (ih (by omega))
  | other hspan hrest ih =>
      rw [List.length_cons] at hk
      exact .other hspan (ih (by omega))
  | silent hentered hrest ih =>
      rw [List.filter_cons]
      split
      · exact .silent hentered (ih hk)
      · exact ih hk

theorem takeOff {p : Pending} {rest : List Pending} (h : Marked states (p :: rest)) :
    Marked (states.filter fun u => u.pending.length < rest.length) rest := by
  generalize hpending : p :: rest = pending at h
  induction h with
  | nil => cases hpending
  | marker hentered hspan hlength hrest ih =>
      cases hpending
      rw [List.filter_cons_of_neg (by simp [hlength])]
      exact hrest.filter_of_le (Nat.le_refl _)
  | other hspan hrest ih =>
      cases hpending
      exact hrest.filter_of_le (Nat.le_refl _)
  | silent hentered hrest ih =>
      rw [List.filter_cons]
      split
      · exact .silent hentered (ih hpending)
      · exact ih hpending

/-- Without its top that is no marker, what is pending still has the markers of all open code. -/
theorem tail_of_other {p : Pending} {rest : List Pending} (h : Marked states (p :: rest))
    (hp : p.span? = none) : Marked states rest := by
  generalize hpending : p :: rest = pending at h
  induction h with
  | nil => cases hpending
  | marker hentered hspan hlength hrest ih =>
      cases hpending
      rw [hp] at hspan
      cases hspan
  | other hspan hrest ih =>
      cases hpending
      exact hrest
  | silent hentered hrest ih => exact .silent hentered (ih hpending)

theorem spans_eq (h : Marked states pending) :
    (states.filterMap State.entered?).map Locus.span = pending.filterMap Pending.span? := by
  induction h with
  | nil => rfl
  | marker hentered hspan hlength hrest ih => simp [hentered, hspan, ih]
  | other hspan hrest ih => simp [hspan, ih]
  | silent hentered hrest ih => simp [hentered, ih]

/-- The outermost open code was entered when nothing was pending, if its marker is at the bottom. -/
theorem outermost (h : Marked states pending) {front : List Pending} {p : Pending}
    (hpending : pending = front ++ [p]) (hp : p.span? ≠ none) :
    ∃ u ∈ states, ∃ locus, u.entered? = some locus ∧ u.pending = [] ∧
      (states.filterMap State.entered?).getLast? = some locus := by
  induction h generalizing front with
  | nil => simp at hpending
  | @marker u locus q states rest hentered hspan hlength hrest ih =>
      cases front with
      | nil =>
          obtain ⟨rfl, rfl⟩ := List.cons.inj hpending
          have hnone : states.filterMap State.entered? = [] := by simpa using hrest.spans_eq
          exact ⟨u, List.mem_cons_self, locus, hentered, List.length_eq_zero_iff.mp hlength,
            by simp [hentered, hnone]⟩
      | cons r front =>
          obtain ⟨v, hv, outer, hentered', hnone, hlast⟩ := ih (List.cons.inj hpending).2
          exact ⟨v, List.mem_cons_of_mem u hv, outer, hentered', hnone,
            by simp [hentered, List.getLast?_cons, hlast]⟩
  | other hspan hrest ih =>
      cases front with
      | nil =>
          obtain ⟨rfl, -⟩ := List.cons.inj hpending
          exact absurd hspan hp
      | cons r front => exact ih (List.cons.inj hpending).2
  | silent hentered hrest ih =>
      obtain ⟨v, hv, outer, hentered', hnone, hlast⟩ := ih hpending
      exact ⟨v, List.mem_cons_of_mem _ hv, outer, hentered', hnone, by simp [hentered, hlast]⟩

/-- One step keeps the markers. -/
theorem step {s t : State} (h : Marked states s.pending) (hmoves : s.Moves t) :
    Marked ((s :: states).filter fun u => u.pending.length < t.pending.length) t.pending := by
  cases hmoves with
  | enters locus marker hentered hmarker habove =>
      obtain ⟨above, hunmarked, hpending⟩ := habove
      have hmarked : Marked (s :: states) t.pending := by
        rw [hpending]
        exact (Marked.marker hentered hmarker rfl h).above hunmarked
      exact hmarked.filter_of_le (Nat.le_refl _)
  | takesOff p hentered hpending =>
      rw [hpending] at h
      exact (Marked.silent hentered h).takeOff
  | replaces p rest hentered hpending hp habove =>
      obtain ⟨above, hunmarked, hpending'⟩ := habove
      rw [hpending] at h
      have hmarked : Marked (s :: states) t.pending := by
        rw [hpending']
        exact ((Marked.silent hentered h).tail_of_other hp).above hunmarked
      exact hmarked.filter_of_le (Nat.le_refl _)
  | stays hentered hpending =>
      rw [hpending]
      exact (Marked.silent hentered h).filter_of_le (Nat.le_refl _)

end Marked

/-- Along a run the markers tell the open code. -/
theorem marked_openStates {s : State} (hs : s.pending = []) (n : Nat) :
    Marked (openStates setting s n) ((step setting)^[n] s).pending := by
  induction n with
  | zero =>
      rw [Function.iterate_zero, id_eq, hs]
      exact .nil
  | succ n ih =>
      rw [openStates_succ, Function.iterate_succ_apply']
      exact ih.step (moves_step setting _)

theorem reaches_of_mem_openStates {s u : State} {n : Nat} (h : u ∈ openStates setting s n) :
    Reaches setting s u := by
  obtain ⟨i, -, hi⟩ := List.mem_map.mp h
  exact ⟨i, hi⟩

/-- The spans of the open code are those of the markers. -/
theorem spans_openCode {s : State} (hs : s.pending = []) (n : Nat) :
    (openCode setting s n).map Locus.span =
      ((step setting)^[n] s).pending.filterMap Pending.span? :=
  (marked_openStates setting hs n).spans_eq

example :
    let quotient : Expr := .binary .unknown "/" (.integer ⟨3, 9⟩ 1) (.integer .unknown 0)
    let table : ClassTable :=
      ⟨[⟨"", ⟨.unknown, "show", true, [], true, [.output ⟨3, 5⟩ quotient], none, 0⟩⟩], []⟩
    let start : State := ⟨.stmts [.call ⟨6, 1⟩ .missing "show" true []], [], .fresh 10⟩
    (openCode ⟨table, .unlimited, false⟩ start 9).map Locus.span = [.unknown, ⟨3, 5⟩, ⟨6, 1⟩] := by
  decide +kernel

end Machine

end ObjectLang
