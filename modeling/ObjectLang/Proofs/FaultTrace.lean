import ObjectLang.Proofs.Effects
import ObjectLang.Proofs.Frames

/-! The trace of a fault. A fault is raised without a trace, and the step that raises it keeps the
stack. On its way out it is given the trace of the stack where the first routine is left, whose
frame is then dropped; until then the stack is the one on which it was raised, and afterwards the
trace stays. Only the frame of the commands is never dropped, so a fault is left without a trace
exactly where no routine was running. -/

namespace ObjectLang

theorem Failure.fault?_mapFault (change : Fault → Fault) (failure : Failure) :
    (failure.mapFault change).fault? = failure.fault?.map change := by
  induction failure with
  | plain text => rfl
  | fault f => rfl
  | headed text cause ih => exact ih

/-- A fault on its way is still the fault that was raised. -/
def Fault.Same (f g : Fault) : Prop := g.kind = f.kind ∧ g.text = f.text

theorem Fault.same_locate (span : Span) (f : Fault) :
    f.Same (f.locate span) ∧ (f.locate span).stack = f.stack := by
  unfold Fault.locate
  split
  · exact ⟨⟨rfl, rfl⟩, rfl⟩
  · exact ⟨⟨rfl, rfl⟩, rfl⟩

theorem Fault.same_capture (trace : List String) (f : Fault) :
    f.Same (f.capture trace) ∧ (f.capture trace).stack = some (f.stack.getD trace) := by
  unfold Fault.capture
  split
  · next h =>
      obtain ⟨old, hold⟩ := Option.isSome_iff_exists.mp h
      rw [hold]
      exact ⟨⟨rfl, rfl⟩, rfl⟩
  · next h =>
      rw [Option.not_isSome_iff_eq_none] at h
      rw [h]
      exact ⟨⟨rfl, rfl⟩, rfl⟩

def State.fault? (s : State) : Option Fault :=
  match s.control with
  | .failed failure => failure.fault?
  | _ => none

theorem State.fault?_of_failed {s : State} {failure : Failure} (h : s.control = .failed failure) :
    s.fault? = failure.fault? := by
  rw [State.fault?, h]

theorem State.failed_of_fault? {s : State} {f : Fault} (h : s.fault? = some f) :
    ∃ failure, s.control = .failed failure ∧ failure.fault? = some f := by
  unfold State.fault? at h
  split at h
  · next failure hcontrol => exact ⟨failure, hcontrol, h⟩
  · cases h

namespace Machine

variable (setting : Setting) {s : State} {f : Fault}

/-- A fault keeps its trace and the stack, or leaves a routine, whose frame is dropped, with a
trace. -/
theorem fault?_step (h : s.fault? = some f) :
    ∃ g, (step setting s).fault? = some g ∧ f.Same g ∧
      ((g.stack = f.stack ∧ (step setting s).store.stack = s.store.stack) ∨
        (s.Drops ∧ g.stack = some (f.stack.getD s.store.stack.trace) ∧
          (step setting s).store.stack = s.store.stack.pop)) := by
  obtain ⟨failure, hcontrol, hfault⟩ := State.failed_of_fault? h
  obtain ⟨control, pending, store⟩ := s
  dsimp only at hcontrol
  subst hcontrol
  have hmap (change : Fault → Fault) : (failure.mapFault change).fault? = some (change f) := by
    rw [Failure.fault?_mapFault, hfault]
    rfl
  cases pending with
  | nil => exact ⟨f, hfault, ⟨rfl, rfl⟩, .inl ⟨rfl, rfl⟩⟩
  | cons p rest =>
      cases p with
      | locate span | next span body =>
          obtain ⟨hsame, hstack⟩ := Fault.same_locate span f
          exact ⟨f.locate span, hmap (Fault.locate span), hsame, .inl ⟨hstack, rfl⟩⟩
      | result | activation value =>
          obtain ⟨hsame, hstack⟩ := Fault.same_capture store.stack.trace f
          exact ⟨f.capture store.stack.trace, hmap (Fault.capture store.stack.trace), hsame,
            .inr ⟨rfl, hstack, rfl⟩⟩
      | _ => exact ⟨f, hfault, ⟨rfl, rfl⟩, .inl ⟨rfl, rfl⟩⟩

variable {setting}

/-- A failure without a fault does not come by one. -/
theorem fault?_of_reaches_plain {t : State} (h : Reaches setting s t) (hs : ¬ s.Running)
    (hplain : s.fault? = none) : t.fault? = none := by
  refine (h.invariant (P := fun u => ¬ u.Running ∧ u.fault? = none) ?_ ⟨hs, hplain⟩).2
  rintro ⟨control, pending, store⟩ ⟨hu, hnone⟩
  obtain ⟨failure, rfl⟩ : ∃ failure, control = .failed failure := State.failed_of_not_running hu
  have hmap (change : Fault → Fault) : (failure.mapFault change).fault? = none := by
    rw [Failure.fault?_mapFault, show failure.fault? = none from hnone]
    rfl
  cases pending with
  | nil => exact ⟨hu, hnone⟩
  | cons p rest =>
      cases p with
      | locate span | next span body => exact ⟨fun h => h _ rfl, hmap _⟩
      | result | activation value => exact ⟨fun h => h _ rfl, hmap _⟩
      | _ => exact ⟨fun h => h _ rfl, hnone⟩

/-- A fault on its way out does not get lost. -/
theorem same_of_reaches {t : State} (h : Reaches setting s t) {raised : Fault}
    (hs : s.fault? = some raised) : ∃ f, t.fault? = some f ∧ raised.Same f := by
  refine h.invariant (P := fun u => ∃ g, u.fault? = some g ∧ raised.Same g) ?_ ⟨raised, hs, rfl, rfl⟩
  rintro u ⟨g, hg, hsame⟩
  obtain ⟨next, hnext, hkept, -⟩ := fault?_step setting hg
  exact ⟨next, hnext, hkept.1.trans hsame.1, hkept.2.trans hsame.2⟩

/-- A trace stays with its fault. -/
theorem trace_of_reaches {t : State} (h : Reaches setting s t) {trace : List String}
    (hs : ∃ f, s.fault? = some f ∧ f.stack = some trace) :
    ∃ f, t.fault? = some f ∧ f.stack = some trace := by
  refine h.invariant (P := fun u => ∃ f, u.fault? = some f ∧ f.stack = some trace) ?_ hs
  rintro u ⟨f, hfault, hstack⟩
  obtain ⟨g, hg, -, hcase⟩ := fault?_step setting hfault
  refine ⟨g, hg, ?_⟩
  rcases hcase with ⟨hkept, -⟩ | ⟨-, hcaptured, -⟩
  · rw [hkept, hstack]
  · rw [hcaptured, hstack]
    rfl

end Machine

namespace CallStack

theorem depth_pop_le (s : CallStack) : s.pop.depth ≤ s.depth := by
  simp [pop, depth]

theorem depth_store (s : CallStack) (place : FramePlace) (value : Word) :
    (s.store place value).depth = s.depth := by
  simp [store, depth]

theorem length_trace (s : CallStack) : s.trace.length = s.depth := by
  simp [trace, depth]

/-- There are no more frames than the limit. -/
def Within (limit : Nat) (s : CallStack) : Prop := s.limit = limit ∧ s.depth ≤ limit

theorem Within.push {limit : Nat} {s t : CallStack} (h : s.Within limit) {routine : String}
    {self : Word} {params : List Word} {slots : Int}
    (hpush : s.push routine self params slots = .ok t) : t.Within limit := by
  obtain ⟨hroom, hlimit, hlive⟩ := push_ok hpush
  rw [depth_eq] at hroom
  refine ⟨hlimit.trans h.1, ?_⟩
  rw [depth_eq, hlive, ← h.1]
  exact hroom

theorem Within.pop {limit : Nat} {s : CallStack} (h : s.Within limit) : s.pop.Within limit :=
  ⟨h.1, Nat.le_trans s.depth_pop_le h.2⟩

theorem Within.store {limit : Nat} {s : CallStack} (h : s.Within limit) (place : FramePlace)
    (value : Word) : (s.store place value).Within limit :=
  ⟨h.1, Nat.le_trans (Nat.le_of_eq (s.depth_store place value)) h.2⟩

end CallStack

/-- A step on the way out of a failure keeps the stack or drops a frame. -/
theorem Machine.stack_of_failed (setting : Setting) {s : State} {failure : Failure}
    (h : s.control = .failed failure) :
    (step setting s).store.stack = s.store.stack ∨
      (step setting s).store.stack = s.store.stack.pop := by
  obtain ⟨control, pending, store⟩ := s
  dsimp only at h
  subst h
  cases pending with
  | nil => exact .inl rfl
  | cons p rest =>
      cases p with
      | result | activation value => exact .inr rfl
      | _ => exact .inl rfl

theorem Machine.within_step {setting : Setting} {limit : Nat} {s : State}
    (h : s.store.stack.Within limit) : (step setting s).store.stack.Within limit := by
  by_cases hrunning : s.Running
  · cases effect_step setting hrunning with
    | keeps hstack | fails failure hstack =>
        rw [hstack]
        exact h
    | enters routine self params slots hpush => exact h.push hpush
    | drops hstack =>
        rw [hstack]
        exact h.pop
    | writes place value hassigns hstack =>
        rw [hstack]
        exact h.store place value
  · obtain ⟨failure, hfailed⟩ := State.failed_of_not_running hrunning
    rcases stack_of_failed setting hfailed with hstack | hstack
    · rw [hstack]
      exact h
    · rw [hstack]
      exact h.pop

/-! ### Runs that end in a fault -/

/-- The evaluation ended in a fault of a kind. -/
def Ending.FailedWith (kind : FaultKind) (ending : Ending) : Prop :=
  ∃ failure f, ending = .failed failure ∧ failure.fault? = some f ∧ f.kind = kind

namespace Interpreter

variable {i : Interpreter} {commands : List Command}

theorem Runs.step {s : State} (h : i.Runs commands s) {table : ClassTable}
    (htable : i.table = some table) :
    i.Runs commands (Machine.step ⟨table, i.sink, i.tracing⟩ s) := by
  obtain ⟨_, stack, hbound, hpush, hreaches⟩ := h
  cases htable.symm.trans hbound
  exact ⟨table, stack, htable, hpush, hreaches.tail⟩

theorem Runs.within {s : State} (h : i.Runs commands s)
    (hi : i.store.stack.Within i.store.stack.limit) :
    s.store.stack.Within i.store.stack.limit := by
  obtain ⟨_, stack, -, hpush, hreaches⟩ := h
  exact hreaches.invariant (P := fun u => u.store.stack.Within i.store.stack.limit)
    (fun _ hu => Machine.within_step hu) (hi.push hpush)

/-- A run of commands that fails has a step that raises the failure. -/
theorem Runs.raised {t : State} (h : i.Runs commands t) {failure : Failure}
    (ht : t.control = .failed failure) :
    ∃ table s, i.table = some table ∧ i.Runs commands s ∧ s.Running ∧
      ¬ (Machine.step ⟨table, i.sink, i.tracing⟩ s).Running ∧
      Machine.Reaches ⟨table, i.sink, i.tracing⟩
        (Machine.step ⟨table, i.sink, i.tracing⟩ s) t := by
  obtain ⟨table, stack, htable, hpush, hreaches⟩ := h
  obtain ⟨s, hs, hbefore, hafter, hrest⟩ :=
    hreaches.first (P := fun u => ¬ u.Running) (not_not.mpr nofun) (fun hrunning => hrunning _ ht)
  exact ⟨table, s, htable, ⟨table, stack, htable, hpush, hs⟩, not_not.mp hbefore, hafter, hrest⟩

/-- On its way out a fault has no trace while the stack is as it was, and then the trace of that
stack, which had a frame besides that of the commands. -/
def Carries (stack : CallStack) (raised : Fault) (u : State) : Prop :=
  ∃ g, u.fault? = some g ∧ raised.Same g ∧
    ((g.stack = none ∧ u.store.stack = stack) ∨
      (g.stack = some stack.trace ∧ 1 < stack.depth))

theorem Runs.carries_step {u : State} (hu : i.Runs commands u) (hdepth : i.store.stack.depth = 0)
    {table : ClassTable} {stack : CallStack} {raised : Fault} (h : Carries stack raised u) :
    Carries stack raised (Machine.step ⟨table, i.sink, i.tracing⟩ u) := by
  obtain ⟨g, hg, hsame, hcase⟩ := h
  obtain ⟨next, hnext, hkept, hstep⟩ := Machine.fault?_step ⟨table, i.sink, i.tracing⟩ hg
  refine ⟨next, hnext, ⟨hkept.1.trans hsame.1, hkept.2.trans hsame.2⟩, ?_⟩
  rcases hstep with ⟨htrace, hstack⟩ | ⟨hdrops, htrace, hstack⟩
  · rw [htrace, hstack]
    exact hcase
  · refine .inr ?_
    rcases hcase with ⟨hnone, hlive⟩ | ⟨hsome, hdeep⟩
    · -- the first routine that is left gives the stack of the raise, for nothing was dropped so far
      have hdeep := hu.depth_of_drops hdrops
      rw [hdepth, hlive] at hdeep
      rw [htrace, hnone, hlive]
      exact ⟨rfl, hdeep⟩
    · rw [htrace, hsome]
      exact ⟨rfl, hdeep⟩

theorem Runs.carries {s t : State} (hs : i.Runs commands s) (hdepth : i.store.stack.depth = 0)
    {table : ClassTable} (htable : i.table = some table)
    (h : Machine.Reaches ⟨table, i.sink, i.tracing⟩ s t) {stack : CallStack} {raised : Fault}
    (hcarries : Carries stack raised s) : i.Runs commands t ∧ Carries stack raised t :=
  h.invariant (P := fun u => i.Runs commands u ∧ Carries stack raised u)
    (fun _ ⟨hu, hc⟩ => ⟨hu.step htable, hu.carries_step hdepth hc⟩) ⟨hs, hcarries⟩

/-- At the end a fault has the trace of the stack on which it was raised, if a routine was running.
-/
theorem Runs.trace_of_carries {t : State} (ht : i.Runs commands t)
    (hdepth : i.store.stack.depth = 0) (hfinal : t.isFinal = true) {stack : CallStack}
    {raised f : Fault} (h : Carries stack raised t) (hf : t.fault? = some f) :
    f.stack = if stack.depth = 1 then none else some stack.trace := by
  obtain ⟨g, hg, -, hcase⟩ := h
  cases hf.symm.trans hg
  rcases hcase with ⟨hnone, hlive⟩ | ⟨hsome, hdeep⟩
  · obtain ⟨root, hroot⟩ := ht.live_of_isFinal hfinal
    have hone : stack.depth = 1 := by
      rw [CallStack.depth_eq] at hdepth ⊢
      rw [← hlive, hroot, List.length_cons, hdepth]
    rw [hnone, if_pos hone]
  · rw [hsome, if_neg (by omega)]

theorem ending_eq_failed {control : Control} {failure : Failure}
    (h : control.ending = .failed failure) : control = .failed failure := by
  cases control with
  | failed g =>
      cases h
      rfl
  | _ => cases h

/-- A run of commands that fails with a fault has no room for their frame, or ends in a final state
with that failure. -/
theorem failed_runCommands {steps : Nat} {failure : Failure} {f : Fault}
    (hfailed : (i.runCommands steps commands).2 = .failed failure)
    (hfault : failure.fault? = some f) :
    i.store.stack.push "" 0 [] 0 = .error f ∨
      ∃ final, i.Runs commands final ∧ final.isFinal = true ∧ final.control = .failed failure := by
  cases htable : i.table with
  | none =>
      rw [runCommands, htable] at hfailed
      cases hfailed
      cases hfault
  | some table =>
      cases hpush : i.store.stack.push "" 0 [] 0 with
      | error g =>
          simp only [runCommands, htable, hpush] at hfailed
          cases hfailed
          cases hfault
          exact .inl rfl
      | ok stack =>
          refine .inr ?_
          rcases i.runCommands_ending htable hpush steps commands with
            hsteps | ⟨final, hruns, hfinal, hend⟩
          · rw [hsteps] at hfailed
            cases hfailed
          · rw [hend] at hfailed
            exact ⟨final, hruns, hfinal, ending_eq_failed hfailed⟩

/-- A run on an empty stack that fails with a fault ends in a final state with that failure. -/
theorem final_of_runCommands {limit : Int} (hempty : i.store.stack = .empty limit) {steps : Nat}
    {failure : Failure} {f : Fault} (hfailed : (i.runCommands steps commands).2 = .failed failure)
    (hfault : failure.fault? = some f) :
    ∃ final, i.Runs commands final ∧ final.isFinal = true ∧ final.control = .failed failure := by
  rcases failed_runCommands hfailed hfault with hpush | hfinal
  · obtain ⟨root, hroot⟩ := CallStack.push_empty limit "" 0 [] 0
    rw [hempty, hroot] at hpush
    cases hpush
  · exact hfinal

/-- The step that raised the fault of a final state keeps the stack. -/
theorem Runs.raised_fault {final : State} (h : i.Runs commands final) {f : Fault}
    (hf : final.fault? = some f) :
    ∃ table s raised, i.table = some table ∧ i.Runs commands s ∧ s.Running ∧
      (Machine.step ⟨table, i.sink, i.tracing⟩ s).store.stack = s.store.stack ∧
      (Machine.step ⟨table, i.sink, i.tracing⟩ s).fault? = some raised ∧
      s.Raises (.fault raised) ∧
      Machine.Reaches ⟨table, i.sink, i.tracing⟩
        (Machine.step ⟨table, i.sink, i.tracing⟩ s) final := by
  obtain ⟨failure, hcontrol, -⟩ := State.failed_of_fault? hf
  obtain ⟨table, s, htable, hs, hrunning, hfails, hrest⟩ := h.raised hcontrol
  cases Machine.effect_step ⟨table, i.sink, i.tracing⟩ hrunning with
  | fails g hstack hg hraises =>
      cases hfault : g.fault? with
      | none =>
          have hplain : (Machine.step ⟨table, i.sink, i.tracing⟩ s).fault? = none := by
            rw [State.fault?_of_failed hg, hfault]
          rw [Machine.fault?_of_reaches_plain hrest hfails hplain] at hf
          cases hf
      | some raised =>
          have hstep : (Machine.step ⟨table, i.sink, i.tracing⟩ s).fault? = some raised := by
            rw [State.fault?_of_failed hg, hfault]
          refine ⟨table, s, raised, htable, hs, hrunning, hstack, hstep, ?_, hrest⟩
          rintro _ ⟨⟩
          exact hraises raised hfault
  | keeps hstack hkeeps => exact absurd hkeeps hfails
  | enters routine self params slots hpush hkeeps => exact absurd hkeeps hfails
  | drops hstack hkeeps => exact absurd hkeeps hfails
  | writes place value hassigns hstack hkeeps => exact absurd hkeeps hfails

end Interpreter

/-- **The trace of a fault is the stack on which it was raised.** A run of commands on an empty
stack that ends in a fault has a step that raised it: the step keeps the stack, and the fault has no
trace yet. At the end it has none if only the frame of the commands was live in that step, and else
the trace of all frames live in it; a trace that it has been given is never replaced. The fault of
an unresolved dispatch is raised in the frame of the caller, and that of an overflow shows as many
frames as the limit allows. -/
theorem fault_trace_is_live_stack {i : Interpreter} {limit : Int}
    (hempty : i.store.stack = .empty limit) {steps : Nat} {commands : List Command}
    {failure : Failure} {f : Fault} (hfailed : (i.runCommands steps commands).2 = .failed failure)
    (hfault : failure.fault? = some f) :
    ∃ table s, i.table = some table ∧ i.Runs commands s ∧ s.Running ∧
      let setting : Setting := ⟨table, i.sink, i.tracing⟩
      let t := Machine.step setting s
      t.store.stack = s.store.stack ∧
      t.fault? = some (.raise f.kind f.text) ∧
      (∃ final, Machine.Reaches setting t final ∧ final.isFinal = true ∧
        final.control = .failed failure) ∧
      f.stack = (if s.store.stack.depth = 1 then none else some s.store.stack.trace) ∧
      (∀ u v trace, Machine.Reaches setting t u → Machine.Reaches setting u v →
        (∃ g, u.fault? = some g ∧ g.stack = some trace) →
        ∃ g, v.fault? = some g ∧ g.stack = some trace) ∧
      (f.kind = .unresolvedDispatch → s.AtCall) ∧
      (f.kind = .stackOverflow → 1 < i.store.stack.limit →
        ∃ trace, f.stack = some trace ∧ trace.length = i.store.stack.limit) := by
  have hdepth : i.store.stack.depth = 0 := by
    rw [hempty]
    rfl
  obtain ⟨final, hruns, hfinal, hcontrol⟩ := Interpreter.final_of_runCommands hempty hfailed hfault
  have hf : final.fault? = some f := by
    rw [State.fault?_of_failed hcontrol, hfault]
  obtain ⟨table, s, raised, htable, hs, hrunning, hstack, hstep, hraises, hrest⟩ :=
    hruns.raised_fault hf
  obtain ⟨hraised, hoverflow, hdispatch⟩ := hraises raised rfl
  have hcarries : Interpreter.Carries s.store.stack raised
      (Machine.step ⟨table, i.sink, i.tracing⟩ s) :=
    ⟨raised, hstep, ⟨rfl, rfl⟩, .inl ⟨by rw [hraised]; rfl, hstack⟩⟩
  have hend := ((hs.step htable).carries hdepth htable hrest hcarries).2
  have htrace := hruns.trace_of_carries hdepth hfinal hend hf
  obtain ⟨hkind, htext⟩ : raised.Same f := by
    obtain ⟨g, hg, hsame, -⟩ := hend
    cases hf.symm.trans hg
    exact hsame
  rw [← hkind] at hoverflow hdispatch
  refine ⟨table, s, htable, hs, hrunning, hstack, ?_, ⟨final, hrest, hfinal, hcontrol⟩, htrace,
    fun u v trace _ huv hu => Machine.trace_of_reaches huv hu, hdispatch, ?_⟩
  · rw [hstep, hraised, hkind, htext]
  · intro hkind hlimit
    have hwithin := hs.within ⟨rfl, by omega⟩
    have hfull : s.store.stack.depth = i.store.stack.limit := by
      have hle := hoverflow hkind
      rw [hwithin.1] at hle
      exact Nat.le_antisymm hwithin.2 hle
    refine ⟨s.store.stack.trace, ?_, ?_⟩
    · rw [htrace, if_neg (by omega)]
    · rw [CallStack.length_trace, hfull]

/-- An interpreter with room for three frames and a procedure that calls itself. -/
def descentInterpreter : Interpreter where
  table := some ⟨[⟨"", ⟨.unknown, "descend", true, [], true,
    [.call ⟨2, 3⟩ .missing "descend" true []], none, 0⟩⟩], []⟩
  sink := .unlimited
  tracing := false
  store := .fresh 3

def descentCommands : List Command := [.call ⟨4, 1⟩ "descend" true []]

/-- The fault in which the command ends. -/
def descentFault : Fault :=
  ⟨.stackOverflow, "call depth exceeded 3 entering descend", ⟨2, 3⟩,
    some ["descend (self=0)", "descend (self=0)", "<root> (self=0)"]⟩

theorem fault_trace_of_runaway_recursion :
    descentInterpreter.store.stack = .empty 3 ∧
    (descentInterpreter.runCommands 40 descentCommands).2 = .failed (.fault descentFault) ∧
    ∃ s, descentInterpreter.Runs descentCommands s ∧ s.Running ∧
      descentFault.stack = some s.store.stack.trace := by
  have hfailed : (descentInterpreter.runCommands 40 descentCommands).2 =
      .failed (.fault descentFault) := by decide +kernel
  obtain ⟨-, s, -, hs, hrunning, -, -, -, htrace, -⟩ :=
    fault_trace_is_live_stack (show descentInterpreter.store.stack = .empty 3 from rfl) hfailed rfl
  refine ⟨rfl, hfailed, s, hs, hrunning, ?_⟩
  split at htrace
  · cases htrace
  · exact htrace

end ObjectLang
