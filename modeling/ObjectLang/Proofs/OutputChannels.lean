import ObjectLang.Proofs.Lockstep
import ObjectLang.Proofs.OpenCode

/-! Printed and traced lines are only written. The sink is asked only where a value is printed, so runs
with two sinks go through the same states until one of them refuses a line; that ends the run, with a
failure that is no fault and stays as it is on its way out. -/

namespace ObjectLang

/-- A value is about to be printed that the sink refuses. -/
def State.Refused (setting : Setting) (s : State) : Prop :=
  ∃ value rest capacity complaint, s.control = .value value ∧ s.pending = .print :: rest ∧
    setting.sink = .limited capacity complaint ∧ capacity ≤ s.store.printed.size

namespace Machine

variable {setting : Setting}

/-- Only where a value is printed does the sink matter. -/
theorem step_unlimited (setting : Setting) (s : State) :
    step { setting with sink := .unlimited } s = step setting s ∨ s.Refused setting := by
  obtain ⟨control, pending, store⟩ := s
  cases control with
  | value v =>
      cases pending with
      | nil => exact .inl rfl
      | cons p rest =>
          cases p with
          | print =>
              cases hsink : setting.sink with
              | unlimited =>
                  left
                  simp only [step, resume, print, hsink]
              | limited capacity complaint =>
                  by_cases hroom : store.printed.size < capacity
                  · left
                    simp only [step, resume, print, hsink, hroom, if_true]
                  · exact .inr ⟨v, rest, capacity, complaint, rfl, rfl, hsink, Nat.le_of_not_lt hroom⟩
          | _ => exact .inl rfl
  | _ => exact .inl rfl

theorem printed_size_le {capacity : Nat} {complaint : String}
    (hsink : setting.sink = .limited capacity complaint) {s t : State} (h : Reaches setting s t)
    (hs : s.store.printed.size ≤ capacity) : t.store.printed.size ≤ capacity := by
  refine h.invariant (P := fun u => u.store.printed.size ≤ capacity) (fun u hu => ?_) hs
  have hprints := (grows_step setting u).printed
  rw [hsink] at hprints
  generalize (step setting u).store.printed = printed at hprints
  cases hprints with
  | stay => exact hu
  | line value haccepts =>
      rw [Array.size_push]
      exact haccepts

/-- The end of a run of which a line was refused, and the end of the run with all lines. -/
structure Cut (capacity : Nat) (complaint : String) (full cut : State) : Prop where
  control : cut.control = .failed (.under "interpreter: write output" (.plain complaint))
  capacity_le : capacity ≤ cut.store.printed.size
  size_lt : cut.store.printed.size < full.store.printed.size
  printed : cut.store.printed.toList <+: full.store.printed.toList
  heap : cut.store.heap.Extends full.store.heap

/-- Where a line is refused, the run fails within the steps that the run with all lines takes. -/
theorem run_of_refused {s full : State} (hs : s.Refused setting) {n : Nat}
    (hrun : run { setting with sink := .unlimited } n s = some full) :
    ∃ capacity complaint cut, setting.sink = .limited capacity complaint ∧
      run setting n s = some cut ∧ Cut capacity complaint full cut := by
  obtain ⟨value, rest, capacity, complaint, hcontrol, hpending, hsink, hcapacity⟩ := hs
  obtain ⟨control, pending, store⟩ := s
  dsimp only at hcontrol hpending hcapacity
  subst hcontrol hpending
  let refusal : Failure := .under "interpreter: write output" (.plain complaint)
  have hfails : step setting ⟨.value value, .print :: rest, store⟩ = ⟨.failed refusal, rest, store⟩ := by
    simp only [step, resume, print, hsink, Nat.not_lt.mpr hcapacity, if_false]
    rfl
  have haccepts : Reaches { setting with sink := .unlimited }
      ⟨.done, rest, { store with printed := store.printed.push value }⟩ full :=
    reaches_of_run (run_step hrun)
  -- the failure drops what the run with all lines has to do, so it needs no more steps
  have hsteps : rest.length + 1 ≤ n := length_pending_le _ hrun
  obtain ⟨k, rfl⟩ := Nat.exists_eq_add_of_le' (Nat.le_trans (Nat.le_add_left 1 _) hsteps)
  have hplain : refusal.fault? = none := rfl
  obtain ⟨stack, hcut⟩ := run_plain setting hplain store (Nat.le_of_succ_le_succ hsteps)
  have hprinted : store.printed.toList ++ [value] <+: full.store.printed.toList := by
    rw [← Array.toList_push]
    exact printed_of_reaches haccepts
  have hheap : store.heap.Extends full.store.heap := extends_of_reaches haccepts
  refine ⟨capacity, complaint, ⟨.failed refusal, [], { store with stack := stack }⟩, hsink, ?_, rfl,
    hcapacity, ?_, ?_, hheap⟩
  · rw [run_succ rfl, hfails]
    exact hcut
  · have hle := hprinted.length_le
    simpa [Nat.succ_le_iff] using hle
  · exact (List.prefix_append _ _).trans hprinted

/-- A run with all lines, and the run with a sink that may refuse some: it ends in the same state, or
is cut. -/
theorem run_unlimited {s full : State} {n : Nat}
    (hrun : run { setting with sink := .unlimited } n s = some full) :
    run setting n s = some full ∨ ∃ capacity complaint cut,
      setting.sink = .limited capacity complaint ∧ run setting n s = some cut ∧
        Cut capacity complaint full cut := by
  have hstep (a b : State) (hab : b = a) :
      step { setting with sink := .unlimited } b = step setting a ∨ a.Refused setting := by
    rw [hab]
    exact step_unlimited setting a
  rcases iterate_together hstep (rfl : s = s) n with heq | ⟨m, hm, heq, hrefused⟩
  · rw [run_eq_some_iff, heq] at hrun
    exact .inl (run_eq_some_iff.mpr hrun)
  · obtain ⟨k, rfl⟩ := Nat.exists_eq_add_of_le' (Nat.le_of_lt hm)
    rw [run_add, heq] at hrun
    simp only [run_add]
    exact .inr (run_of_refused hrefused hrun)

/-- A sink with room for all lines does not change the run; one with less cuts it after the lines that
it takes. -/
theorem run_limited {capacity : Nat} {complaint : String}
    (hsink : setting.sink = .limited capacity complaint) {s full : State}
    (hs : s.store.printed.size ≤ capacity) {n : Nat}
    (hrun : run { setting with sink := .unlimited } n s = some full) :
    ∃ cut, run setting n s = some cut ∧
      (full.store.printed.size ≤ capacity → cut = full) ∧
      (capacity < full.store.printed.size →
        cut.control = .failed (.under "interpreter: write output" (.plain complaint)) ∧
        cut.store.printed.toList = full.store.printed.toList.take capacity ∧
        cut.store.heap.Extends full.store.heap) := by
  have hbound {t : State} (ht : run setting n s = some t) : t.store.printed.size ≤ capacity :=
    printed_size_le hsink (reaches_of_run ht) hs
  rcases run_unlimited hrun with hsame | ⟨_, _, cut, hlimited, hcut, hends⟩
  · refine ⟨full, hsame, fun _ => rfl, fun hlt => ?_⟩
    exact absurd (hbound hsame) (by omega)
  · cases hsink.symm.trans hlimited
    have hle := hends.capacity_le
    have hlt := hends.size_lt
    have hsize : cut.store.printed.toList.length = capacity := Nat.le_antisymm (hbound hcut) hle
    refine ⟨cut, hcut, fun hall => ?_, fun _ => ⟨hends.control, ?_, hends.heap⟩⟩
    · omega
    · rw [← hsize]
      exact List.prefix_iff_eq_take.mp hends.printed

end Machine

/-! ### Evaluations -/

namespace Interpreter

theorem run_initial_tracing {limit : Int} {sink : Sink} {table : ClassTable} {steps : Nat}
    {commands : List Command} {tracing : Bool} {final : State}
    (hrun : Machine.run ⟨table, sink, tracing⟩ steps (.initial limit commands) = some final)
    (tracing' : Bool) :
    ∃ final', Machine.run ⟨table, sink, tracing'⟩ steps (.initial limit commands) = some final' ∧
      State.Alike (CallStack.empty limit).limit (tracing = tracing') final final' := by
  have hstart : State.Alike (CallStack.empty limit).limit (tracing = tracing')
      (.initial limit commands) (.initial limit commands) := ⟨#[], rfl, fun _ => rfl⟩
  rcases Machine.run_alike (State.within_initial limit commands) (Nat.le_refl _) hstart hrun with
    halike | ⟨hlt, -⟩
  · exact halike
  · exact absurd hlt (Nat.lt_irrefl _)

theorem runCommands_tracing (limit : Int) (sink : Sink) (tracing tracing' : Bool)
    (table : ClassTable) (steps : Nat) (commands : List Command) :
    let left := ((fresh limit sink tracing).bind table).runCommands steps commands
    let right := ((fresh limit sink tracing').bind table).runCommands steps commands
    right.2 = left.2 ∧ right.1.store.printed = left.1.store.printed ∧
      right.1.store.heap = left.1.store.heap ∧ right.1.store.stack.depth = left.1.store.stack.depth := by
  intro left right
  dsimp only [left, right]
  cases hrun : Machine.run ⟨table, sink, tracing⟩ steps (.initial limit commands) with
  | some final =>
      obtain ⟨_, hrun', traced, rfl, -⟩ := run_initial_tracing hrun tracing'
      rw [fresh_runCommands_of_run hrun, fresh_runCommands_of_run hrun']
      exact ⟨rfl, rfl, rfl, rfl⟩
  | none =>
      cases hrun' : Machine.run ⟨table, sink, tracing'⟩ steps (.initial limit commands) with
      | none =>
          rw [fresh_runCommands, fresh_runCommands, hrun, hrun']
          exact ⟨rfl, rfl, rfl, rfl⟩
      | some final =>
          obtain ⟨_, hsome, -⟩ := run_initial_tracing hrun' tracing
          rw [hrun] at hsome
          cases hsome

/-- A sink that takes all lines of an evaluation does not change it; one that takes fewer cuts it. -/
theorem evaluate_limited {limit : Int} {tracing keepLayout : Bool} {program : Option Program}
    {steps capacity : Nat} {complaint : String}
    (hends : ((fresh limit .unlimited tracing).evaluate steps keepLayout program).2 ≠ .outOfSteps) :
    let full := (fresh limit .unlimited tracing).evaluate steps keepLayout program
    let cut := (fresh limit (.limited capacity complaint) tracing).evaluate steps keepLayout program
    (full.1.store.printed.size ≤ capacity → cut.2 = full.2 ∧ cut.1.store = full.1.store) ∧
    (capacity < full.1.store.printed.size →
      cut.2 = .failed (.under "interpreter: write output" (.plain complaint)) ∧
      cut.1.store.printed.toList = full.1.store.printed.toList.take capacity ∧
      cut.1.store.heap.Extends full.1.store.heap) := by
  intro full cut
  dsimp only [full, cut]
  rcases evaluate_uniform keepLayout program with ⟨ending, -, h⟩ | ⟨p, -, -, h⟩
  · rw [h, h]
    exact ⟨fun _ => ⟨rfl, rfl⟩, fun hlt => absurd hlt (Nat.not_lt_zero _)⟩
  · rw [h] at hends
    rw [h, h]
    obtain ⟨final, hrun⟩ := run_of_fresh_runCommands hends
    let setting : Setting := ⟨boundTable keepLayout p, .limited capacity complaint, tracing⟩
    have hsink : setting.sink = .limited capacity complaint := rfl
    have hnone : (State.initial limit p.commands).store.printed.size ≤ capacity := Nat.zero_le capacity
    obtain ⟨_, hcut, hall, hsome⟩ := Machine.run_limited hsink hnone hrun
    rw [fresh_runCommands_of_run hrun, fresh_runCommands_of_run hcut]
    refine ⟨fun hle => ?_, fun hlt => ?_⟩
    · rw [hall hle]
      exact ⟨rfl, rfl⟩
    · obtain ⟨hcontrol, hprinted, hheap⟩ := hsome hlt
      exact ⟨congrArg Control.ending hcontrol, hprinted, hheap⟩

theorem depth_evaluate (limit : Int) (sink : Sink) (tracing : Bool) (steps : Nat)
    (keepLayout : Bool) (program : Option Program) :
    ((fresh limit sink tracing).evaluate steps keepLayout program).1.store.stack.depth = 0 := by
  rw [CallStack.depth_eq, live_evaluate]
  rfl

end Interpreter

/-- **Output never feeds back into evaluation.** Whether objects are traced or not, an evaluation ends
in the same way, with the same lines printed, the same heap and as many frames. With a sink that takes
as many lines as an evaluation prints with an unlimited one, the evaluation is the same. With one that
takes fewer, it prints those, ends in a failure that is no fault and is not changed on its way out,
leaves no frame, and its objects are those of the full evaluation up to their number. -/
theorem output_never_feeds_back :
    (∀ (limit : Int) (sink : Sink) (keepLayout : Bool) (program : Option Program) (steps : Nat),
      let quiet := (Interpreter.fresh limit sink false).evaluate steps keepLayout program
      let traced := (Interpreter.fresh limit sink true).evaluate steps keepLayout program
      traced.2 = quiet.2 ∧ traced.1.store.printed = quiet.1.store.printed ∧
        traced.1.store.heap = quiet.1.store.heap ∧
        traced.1.store.stack.depth = quiet.1.store.stack.depth) ∧
    ∀ (limit : Int) (tracing keepLayout : Bool) (program : Option Program) (steps capacity : Nat)
        (complaint : String),
      let full := (Interpreter.fresh limit .unlimited tracing).evaluate steps keepLayout program
      let cut := (Interpreter.fresh limit (.limited capacity complaint) tracing).evaluate steps
        keepLayout program
      let refusal : Failure := .under "interpreter: write output" (.plain complaint)
      full.2 ≠ .outOfSteps →
      (full.1.store.printed.size ≤ capacity → cut.2 = full.2 ∧ cut.1.store = full.1.store) ∧
      (capacity < full.1.store.printed.size →
        cut.1.store.printed.toList = full.1.store.printed.toList.take capacity ∧
        cut.2 = .failed refusal ∧ refusal.fault? = none ∧
        refusal.message = "interpreter: write output: " ++ complaint ∧
        (∀ span, refusal.locate span = refusal) ∧ (∀ trace, refusal.capture trace = refusal) ∧
        cut.1.store.stack.depth = 0 ∧ cut.1.store.heap.size ≤ full.1.store.heap.size ∧
        cut.1.store.heap.Extends full.1.store.heap) := by
  constructor
  · intro limit sink keepLayout program steps quiet traced
    dsimp only [quiet, traced]
    rcases Interpreter.evaluate_uniform keepLayout program with ⟨ending, -, h⟩ | ⟨p, -, -, h⟩
    · rw [h, h]
      exact ⟨rfl, rfl, rfl, rfl⟩
    · rw [h, h]
      exact Interpreter.runCommands_tracing limit sink false true _ steps p.commands
  · intro limit tracing keepLayout program steps capacity complaint full cut refusal hends
    have hdepth : cut.1.store.stack.depth = 0 := Interpreter.depth_evaluate ..
    obtain ⟨hall, hsome⟩ := Interpreter.evaluate_limited hends
    refine ⟨hall, fun hlt => ?_⟩
    obtain ⟨hending, hprinted, hheap⟩ := hsome hlt
    exact ⟨hprinted, hending, rfl, rfl, fun _ => rfl, fun _ => rfl, hdepth, hheap.size_le, hheap⟩

/-- A class whose objects print their number and make the next smaller one. -/
def chainProgram : Program :=
  let named (name : String) : Var := ⟨.unknown, name, .unresolved⟩
  let number : Expr := .var .unknown (named "number")
  let smaller : Expr := .newObject .unknown "Chain" true
    [.binary .unknown "-" number (.integer .unknown 1)]
  let body : List Stmt := [.output .unknown number,
    .branch .unknown (.binary .unknown "<" (.integer .unknown 0) number)
      (.mk .unknown true [.assign .unknown (named "next") smaller]) (.mk .unknown true [])]
  let make : Routine := ⟨.unknown, "Chain", true, [⟨.unknown, .missing, "number"⟩], true, body, none, 0⟩
  ⟨.unknown, true, [], true, [some ⟨.unknown, "Chain", "", true, [⟨.unknown, .missing, "next"⟩], true,
    [some make]⟩], true, [.eval .unknown (.newObject .unknown "Chain" true [.integer .unknown 3])]⟩

/-- The third line is refused when the third object has been made. -/
theorem output_of_cut_chain :
    let evaluate (sink : Sink) (tracing : Bool) :=
      (Interpreter.fresh 10 sink tracing).evaluate 200 false (some chainProgram)
    let full := evaluate .unlimited true
    let cut := evaluate (.limited 2 "disk full") true
    (full.2 = .finished ∧ full.1.store.printed = #[3, 2, 1, 0, 1] ∧ full.1.store.heap.size = 4) ∧
    (evaluate .unlimited false).1.store.printed = full.1.store.printed ∧
    cut.1.store.printed.toList = [3, 2] ∧ cut.1.store.heap.size = 3 ∧
    cut.2 = .failed (.under "interpreter: write output" (.plain "disk full")) ∧
    cut.1.store.stack.depth = 0 ∧ cut.1.store.heap.Extends full.1.store.heap := by
  intro evaluate full cut
  have hfull : full.2 = .finished := by decide +kernel
  have hlines : full.1.store.printed = #[3, 2, 1, 0, 1] := by decide +kernel
  have hobjects : full.1.store.heap.size = 4 := by decide +kernel
  have hcut : cut.1.store.heap.size = 3 := by decide +kernel
  have hends : full.2 ≠ .outOfSteps := by
    rw [hfull]
    decide
  have hlt : 2 < full.1.store.printed.size := by
    rw [hlines]
    decide
  obtain ⟨htracing, hsink⟩ := output_never_feeds_back
  obtain ⟨-, hquiet, -⟩ := htracing 10 .unlimited false (some chainProgram) 200
  obtain ⟨hprinted, hending, -, -, -, -, hdepth, -, hheap⟩ :=
    (hsink 10 true false (some chainProgram) 200 2 "disk full" hends).2 hlt
  rw [show ((Interpreter.fresh 10 .unlimited true).evaluate 200 false
    (some chainProgram)).1.store.printed = _ from hlines] at hprinted
  exact ⟨⟨hfull, hlines, hobjects⟩, hquiet.symm, hprinted, hcut, hending, hdepth, hheap⟩

end ObjectLang
