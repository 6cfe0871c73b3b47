import ObjectLang.Proofs.Lockstep

/-! The limit of the stack. It decides only when a run stops: a run that does not overflow is the same
with more room, and one that overflows has until then done what the run with more room does. -/

namespace ObjectLang

/-- The evaluation stopped for want of room for a frame. -/
def Ending.Overflowed (ending : Ending) : Prop :=
  ∃ failure f, ending = .failed failure ∧ failure.fault? = some f ∧ f.kind = .stackOverflow

theorem State.overflowed_ending {s : State} : s.control.ending.Overflowed ↔ s.Overflowed := by
  constructor
  · rintro ⟨failure, f, hending, hf, hkind⟩
    have hcontrol := Interpreter.ending_eq_failed hending
    exact ⟨f, (fault?_of_failed hcontrol).trans hf, hkind⟩
  · rintro ⟨f, hf, hkind⟩
    obtain ⟨failure, hcontrol, hfault⟩ := failed_of_fault? hf
    exact ⟨failure, f, by rw [hcontrol]; rfl, hfault, hkind⟩

theorem Ending.Overflowed.ne_outOfSteps {ending : Ending} (h : ending.Overflowed) :
    ending ≠ .outOfSteps := by
  rintro rfl
  obtain ⟨failure, f, hending, -⟩ := h
  cases hending

theorem CallStack.limit_empty {limit : Int} (h : 1 ≤ limit) : ((empty limit).limit : Int) = limit := by
  rw [empty, if_neg (by omega)]
  exact Int.toNat_of_nonneg (by omega)

namespace Interpreter

section Wider

variable {d d' : Int} (hle : (CallStack.empty d).limit ≤ (CallStack.empty d').limit) {sink : Sink}
  {tracing : Bool}
include hle

theorem run_initial_wider {table : ClassTable} {commands : List Command} {n : Nat} {final : State}
    (hrun : Machine.run ⟨table, sink, tracing⟩ n (.initial d commands) = some final) :
    (∃ final', Machine.run ⟨table, sink, tracing⟩ n (.initial d' commands) = some final' ∧
        State.Alike (CallStack.empty d').limit (tracing = tracing) final final') ∨
      final.Overflowed ∧
        ∀ m final', Machine.run ⟨table, sink, tracing⟩ m (.initial d' commands) = some final' →
          final.store.printed.toList <+: final'.store.printed.toList ∧
            final.store.traced.toList <+: final'.store.traced.toList := by
  have hstart : State.Alike (CallStack.empty d').limit (tracing = tracing) (.initial d commands)
      (.initial d' commands) := ⟨#[], rfl, fun _ => rfl⟩
  rcases Machine.run_alike (State.within_initial d commands) hle hstart hrun with
    halike | ⟨-, hoverflowed, hbegins⟩
  · exact .inl halike
  · exact .inr ⟨hoverflowed, fun m final' h => (hbegins m final' h).imp_right fun htraced => htraced rfl⟩

/-- A run that does not overflow is the same with more room. -/
theorem evaluate_wider {steps : Nat} {keepLayout : Bool} {program : Option Program}
    (hends : ((fresh d sink tracing).evaluate steps keepLayout program).2 ≠ .outOfSteps)
    (hroom : ¬ ((fresh d sink tracing).evaluate steps keepLayout program).2.Overflowed) :
    let narrow := (fresh d sink tracing).evaluate steps keepLayout program
    let wide := (fresh d' sink tracing).evaluate steps keepLayout program
    wide.2 = narrow.2 ∧ wide.1.store.printed = narrow.1.store.printed ∧
      wide.1.store.traced = narrow.1.store.traced ∧ wide.1.store.heap = narrow.1.store.heap := by
  intro narrow wide
  rcases evaluate_uniform keepLayout program with ⟨ending, -, h⟩ | ⟨p, -, -, h⟩
  · dsimp only [narrow, wide]
    rw [h, h]
    exact ⟨rfl, rfl, rfl, rfl⟩
  · simp only [narrow, wide, h] at hends hroom ⊢
    obtain ⟨final, hrun⟩ := run_of_fresh_runCommands hends
    rw [fresh_runCommands_of_run hrun] at hroom ⊢
    rcases run_initial_wider hle hrun with ⟨final', hrun', traced, rfl, htraced⟩ | ⟨hoverflowed, -⟩
    · rw [fresh_runCommands_of_run hrun']
      exact ⟨rfl, rfl, htraced rfl, rfl⟩
    · exact absurd (State.overflowed_ending.mpr hoverflowed) hroom

/-- What a run that overflows prints and traces begins what the run with more room does. -/
theorem evaluate_begins {steps steps' : Nat} {keepLayout : Bool} {program : Option Program}
    (hends : ((fresh d sink tracing).evaluate steps keepLayout program).2 ≠ .outOfSteps)
    (hends' : ((fresh d' sink tracing).evaluate steps' keepLayout program).2 ≠ .outOfSteps) :
    let narrow := (fresh d sink tracing).evaluate steps keepLayout program
    let wide := (fresh d' sink tracing).evaluate steps' keepLayout program
    narrow.1.store.printed.toList <+: wide.1.store.printed.toList ∧
      narrow.1.store.traced.toList <+: wide.1.store.traced.toList := by
  intro narrow wide
  rcases evaluate_uniform keepLayout program with ⟨ending, -, h⟩ | ⟨p, -, -, h⟩
  · dsimp only [narrow, wide]
    rw [h, h]
    exact ⟨List.prefix_rfl, List.prefix_rfl⟩
  · simp only [narrow, wide, h] at hends hends' ⊢
    obtain ⟨final, hrun⟩ := run_of_fresh_runCommands hends
    obtain ⟨final', hrun'⟩ := run_of_fresh_runCommands hends'
    rw [fresh_runCommands_of_run hrun, fresh_runCommands_of_run hrun']
    rcases run_initial_wider hle hrun with ⟨_, hsame, traced, rfl, htraced⟩ | ⟨-, hbegins⟩
    · cases Machine.run_unique hsame hrun'
      obtain rfl := htraced rfl
      exact ⟨List.prefix_rfl, List.prefix_rfl⟩
    · exact hbegins steps' final' hrun'

end Wider

theorem depth_le_of_runs {d : Int} (hd : 1 ≤ d) {sink : Sink} {tracing : Bool} {table : ClassTable}
    {commands : List Command} {s : State}
    (h : ((fresh d sink tracing).bind table).Runs commands s) : (s.store.stack.depth : Int) ≤ d := by
  have hwithin := h.within ⟨rfl, Nat.zero_le _⟩
  have hdepth : s.store.stack.depth ≤ (CallStack.empty d).limit := hwithin.2
  have hlimit := CallStack.limit_empty hd
  omega

end Interpreter

/-- **The limit of the stack only decides when to stop.** With a limit there are never more frames
than it allows. An evaluation that ends without an overflow ends in the same way with any greater
limit, in as many steps, with the same lines printed and traced and the same heap; and if one ends in
an overflow, what it printed and traced begins what the evaluation with the greater limit, if that
ends, prints and traces. -/
theorem depth_limit_only_stops {d d' : Int} (hd : 1 ≤ d) (hle : d ≤ d') (sink : Sink)
    (tracing keepLayout : Bool) (program : Option Program) :
    let narrow (steps : Nat) := (Interpreter.fresh d sink tracing).evaluate steps keepLayout program
    let wide (steps : Nat) := (Interpreter.fresh d' sink tracing).evaluate steps keepLayout program
    (∀ table commands s, ((Interpreter.fresh d sink tracing).bind table).Runs commands s →
      (s.store.stack.depth : Int) ≤ d) ∧
    (∀ steps, (narrow steps).2 ≠ .outOfSteps → ¬ (narrow steps).2.Overflowed →
      (wide steps).2 = (narrow steps).2 ∧
      (wide steps).1.store.printed = (narrow steps).1.store.printed ∧
      (wide steps).1.store.traced = (narrow steps).1.store.traced ∧
      (wide steps).1.store.heap = (narrow steps).1.store.heap) ∧
    ∀ steps steps', (narrow steps).2.Overflowed → (wide steps').2 ≠ .outOfSteps →
      (narrow steps).1.store.printed.toList <+: (wide steps').1.store.printed.toList ∧
      (narrow steps).1.store.traced.toList <+: (wide steps').1.store.traced.toList := by
  intro narrow wide
  have hlimit : (CallStack.empty d).limit ≤ (CallStack.empty d').limit := by
    have hd' := CallStack.limit_empty (show 1 ≤ d' by omega)
    have hd := CallStack.limit_empty hd
    omega
  refine ⟨fun table commands s h => Interpreter.depth_le_of_runs hd h, ?_, ?_⟩
  · intro steps hends hroom
    exact Interpreter.evaluate_wider hlimit hends hroom
  · intro steps steps' hoverflowed hends
    exact Interpreter.evaluate_begins hlimit hoverflowed.ne_outOfSteps hends

/-- A procedure that counts down by calling itself, and a command that counts down from three. -/
def runDownProgram : Program :=
  let count : Expr := .var .unknown ⟨.unknown, "count", .unresolved⟩
  let again : Stmt := .call .unknown .missing "down" true [.binary .unknown "-" count (.integer .unknown 1)]
  let body : List Stmt := [.output .unknown count,
    .branch .unknown (.binary .unknown "<" (.integer .unknown 0) count)
      (.mk .unknown true [again]) (.mk .unknown true [])]
  ⟨.unknown, true, [some ⟨.unknown, "down", true, [⟨.unknown, .missing, "count"⟩], true, body, none, 0⟩],
    true, [], true, [.call .unknown "down" true [.integer .unknown 3]]⟩

theorem depth_limit_of_run_down :
    let evaluate (limit : Int) :=
      (Interpreter.fresh limit .unlimited true).evaluate 120 false (some runDownProgram)
    ((evaluate 3).2.Overflowed ∧ (evaluate 3).1.store.printed = #[3, 2] ∧
      (evaluate 3).1.store.printed.toList <+: (evaluate 5).1.store.printed.toList) ∧
    (evaluate 5).2 = .finished ∧ (evaluate 8).2 = (evaluate 5).2 ∧
      (evaluate 8).1.store.printed = (evaluate 5).1.store.printed := by
  intro evaluate
  have hnarrow : (evaluate 3).2 = .failed (.fault ⟨.stackOverflow,
      "call depth exceeded 3 entering down", .unknown,
      some ["down (self=0)", "down (self=0)", "<root> (self=0)"]⟩) := by decide +kernel
  have hprinted : (evaluate 3).1.store.printed = #[3, 2] := by decide +kernel
  have hwide : (evaluate 5).2 = .finished := by decide +kernel
  have hoverflowed : (evaluate 3).2.Overflowed := ⟨_, _, hnarrow, rfl, rfl⟩
  obtain ⟨-, -, hbegins⟩ := depth_limit_only_stops (show 1 ≤ 3 by decide) (show 3 ≤ 5 by decide)
    .unlimited true false (some runDownProgram)
  obtain ⟨-, hsame, -⟩ := depth_limit_only_stops (show 1 ≤ 5 by decide) (show 5 ≤ 8 by decide)
    .unlimited true false (some runDownProgram)
  have hends : (evaluate 5).2 ≠ .outOfSteps := by
    rw [hwide]
    decide
  have hroom : ¬ (evaluate 5).2.Overflowed := by
    rw [hwide]
    rintro ⟨_, _, ⟨⟩, -⟩
  obtain ⟨hending, hlines, -⟩ := hsame 120 hends hroom
  exact ⟨⟨hoverflowed, hprinted, (hbegins 120 120 hoverflowed hends).1⟩, hwide, hending, hlines⟩

end ObjectLang
