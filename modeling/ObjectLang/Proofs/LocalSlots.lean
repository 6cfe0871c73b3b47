import ObjectLang.Proofs.Allocation
import ObjectLang.Proofs.FaultTrace

/-! The history of local slots. A frame starts with zeros in its local slots, and only assignments
executed in that frame write to them, so a slot holds what was assigned to it last in the same
activation, or zero. A declaration is not among them: a variable declared again, in the next
iteration of a loop or in a later block that uses the slot, starts with what the slot holds. -/

namespace ObjectLang

/-- The frame whose height is the depth of the stack is the innermost one. -/
theorem CallStack.eq_innermost {s : CallStack} {above below rest : List Frame} {f top : Frame}
    (hlive : s.live = above ++ f :: below) (hdepth : below.length + 1 = s.depth)
    (htop : s.live = top :: rest) : f = top ∧ below = rest := by
  have habove : above = [] := by
    rw [depth_eq, hlive, List.length_append, List.length_cons] at hdepth
    exact List.length_eq_zero_iff.mp (by omega)
  rw [habove, List.nil_append, htop] at hlive
  obtain ⟨rfl, rfl⟩ := List.cons_eq_cons.mp hlive
  exact ⟨rfl, rfl⟩

namespace Machine

variable (setting : Setting) {s : State}

theorem stack_of_assigns {place : FramePlace} {value : Word} (h : s.Assigns place value) :
    (step setting s).store.stack = s.store.stack.store place value := by
  obtain ⟨v, rest, offset, hcontrol, hpending, hslot, hplace⟩ := h
  obtain ⟨control, pending, store⟩ := s
  cases hcontrol
  cases hpending
  change (writeVar ⟨.value value, rest, store⟩ v value).store.stack = _
  unfold writeVar
  rw [hslot]
  dsimp only at hplace ⊢
  rw [hplace]

theorem live_of_assigns {place : FramePlace} {value : Word} (h : s.Assigns place value) :
    ∃ f below, s.store.stack.live = f :: below ∧ f.HasPart place ∧
      (step setting s).store.stack.live = f.store value place :: below := by
  obtain ⟨-, -, offset, -, -, -, hplace⟩ := id h
  obtain ⟨f, below, hlive, hf⟩ := CallStack.place_ok hplace
  refine ⟨f, below, hlive, (Frame.place?_eq_some_iff.mp hf).2, ?_⟩
  rw [stack_of_assigns setting h, CallStack.live_store place value hlive]

/-- A step keeps the live frames, drops the innermost, adds one with zeroed locals, or assigns to a
part of the innermost. -/
theorem live_step (s : State) :
    (step setting s).store.stack.live = s.store.stack.live ∨
    (step setting s).store.stack.live = s.store.stack.live.tail ∨
    (∃ g, (step setting s).store.stack.live = g :: s.store.stack.live ∧
      ∀ j, g.load (.local j) = 0) ∨
    ∃ place value, s.Assigns place value := by
  by_cases hrunning : s.Running
  · cases effect_step setting hrunning with
    | keeps hstack | fails failure hstack => exact .inl (congrArg CallStack.live hstack)
    | drops hstack =>
        refine .inr (.inl ?_)
        rw [hstack, CallStack.live_pop]
    | enters routine self params slots hpush =>
        obtain ⟨-, -, hlive⟩ := CallStack.push_ok hpush
        refine .inr (.inr (.inl ⟨_, hlive, fun j => ?_⟩))
        rw [Frame.load, Array.getD_eq_getD_getElem?, Array.getElem?_replicate]
        split <;> rfl
    | writes place value hassigns => exact .inr (.inr (.inr ⟨place, value, hassigns⟩))
  · obtain ⟨failure, hfailed⟩ := State.failed_of_not_running hrunning
    rcases stack_of_failed setting hfailed with hstack | hstack
    · exact .inl (congrArg CallStack.live hstack)
    · refine .inr (.inl ?_)
      rw [hstack, CallStack.live_pop]

theorem depth_step_le (s : State) :
    (step setting s).store.stack.depth ≤ s.store.stack.depth + 1 := by
  rw [CallStack.depth_eq, CallStack.depth_eq]
  rcases live_step setting s with h | h | ⟨g, h, -⟩ | ⟨place, value, h⟩
  · rw [h]
    omega
  · rw [h, List.length_tail]
    omega
  · have hlength := congrArg List.length h
    rw [List.length_cons] at hlength
    omega
  · obtain ⟨f, below, hlive, -, hnext⟩ := live_of_assigns setting h
    rw [hnext, hlive, List.length_cons, List.length_cons]
    omega

/-- The frame at a height was added by a step and has been live since, and these are the assignments
to its local slots that were executed since, the last one first. -/
inductive Written (height : Nat) : State → List (Nat × Word) → Prop
  | entered {s : State} (hbefore : s.store.stack.depth < height)
      (hafter : (step setting s).store.stack.depth = height) : Written height (step setting s) []
  | assigned {s : State} {writes : List (Nat × Word)} {j : Nat} {value : Word}
      (h : Written height s writes) (htop : s.store.stack.depth = height)
      (hassigns : s.Assigns (.local j) value) :
      Written height (step setting s) ((j, value) :: writes)
  | passed {s : State} {writes : List (Nat × Word)} (h : Written height s writes)
      (hlive : height ≤ (step setting s).store.stack.depth)
      (hother : s.store.stack.depth = height → ∀ j value, ¬ s.Assigns (.local j) value) :
      Written height (step setting s) writes

variable {setting}

/-- The frame at a height holds what was assigned last to each of its local slots. -/
theorem Written.holds {height : Nat} {writes : List (Nat × Word)}
    (h : Written setting height s writes) :
    ∃ above f below, s.store.stack.live = above ++ f :: below ∧ below.length + 1 = height ∧
      ∀ j, f.load (.local j) = (writes.lookup j).getD 0 := by
  induction h with
  | @entered s hbefore hafter =>
      rw [CallStack.depth_eq] at hbefore hafter
      rcases live_step setting s with h | h | ⟨g, h, hzero⟩ | ⟨place, value, h⟩
      · rw [h] at hafter
        omega
      · rw [h, List.length_tail] at hafter
        omega
      · rw [h, List.length_cons] at hafter
        exact ⟨[], g, s.store.stack.live, h, hafter, hzero⟩
      · obtain ⟨f, below, hlive, -, hnext⟩ := live_of_assigns setting h
        rw [hnext, List.length_cons] at hafter
        rw [hlive, List.length_cons] at hbefore
        omega
  | @assigned s writes j value _ htop hassigns ih =>
      obtain ⟨above, f, below, hlive, hheight, hholds⟩ := ih
      obtain ⟨top, rest, htoplive, hhas, hnext⟩ := live_of_assigns setting hassigns
      obtain ⟨rfl, rfl⟩ := CallStack.eq_innermost hlive (hheight.trans htop.symm) htoplive
      refine ⟨[], _, below, hnext, hheight, fun k => ?_⟩
      rw [Frame.load_store hhas, List.lookup_cons]
      by_cases hk : k = j
      · subst hk
        simp
      · rw [if_neg fun heq => hk (FramePlace.local.inj heq), beq_false_of_ne hk]
        exact hholds k
  | @passed s writes _ hstays hother ih =>
      obtain ⟨above, f, below, hlive, hheight, hholds⟩ := ih
      rw [CallStack.depth_eq] at hstays
      rcases live_step setting s with h | h | ⟨g, h, -⟩ | ⟨place, value, h⟩
      · exact ⟨above, f, below, h.trans hlive, hheight, hholds⟩
      · rw [hlive] at h
        cases above with
        | nil =>
            rw [h, List.nil_append, List.tail_cons] at hstays
            omega
        | cons a above => exact ⟨above, f, below, h, hheight, hholds⟩
      · exact ⟨g :: above, f, below, by rw [h, hlive, List.cons_append], hheight, hholds⟩
      · obtain ⟨top, rest, htoplive, hhas, hnext⟩ := live_of_assigns setting h
        cases above with
        | nil =>
            have hdepth : s.store.stack.depth = height := by
              rw [CallStack.depth_eq, hlive, List.nil_append, List.length_cons, hheight]
            obtain ⟨rfl, rfl⟩ := CallStack.eq_innermost hlive (hheight.trans hdepth.symm) htoplive
            refine ⟨[], _, below, hnext, hheight, fun k => ?_⟩
            rw [Frame.load_store hhas, if_neg]
            · exact hholds k
            · rintro rfl
              exact hother hdepth k value h
        | cons a above =>
            rw [htoplive, List.cons_append] at hlive
            obtain ⟨rfl, rfl⟩ := List.cons_eq_cons.mp hlive
            exact ⟨top.store value place :: above, f, below, hnext, hheight, hholds⟩

/-- A step carries the history of a frame on, as long as the frame is live. -/
theorem Written.step {height : Nat} {writes : List (Nat × Word)}
    (h : Written setting height s writes)
    (hlive : height ≤ (Machine.step setting s).store.stack.depth) :
    ∃ writes', Written setting height (Machine.step setting s) writes' := by
  by_cases hassigns : s.store.stack.depth = height ∧ ∃ j value, s.Assigns (.local j) value
  · obtain ⟨htop, j, value, hassigns⟩ := hassigns
    exact ⟨_, .assigned h htop hassigns⟩
  · refine ⟨_, .passed h hlive fun htop j value hassign => ?_⟩
    exact hassigns ⟨htop, j, value, hassign⟩

/-- Where the read of a local finds its slot, it finds what was assigned to the slot last. -/
theorem Written.read {writes : List (Nat × Word)}
    (h : Written setting s.store.stack.depth s writes) {f : Frame} {below : List Frame}
    (hlive : s.store.stack.live = f :: below) {span : Span} {v : Var} {j : Nat}
    (hread : s.control = .expr (.var span v)) (hslot : v.slot = .frame (Layout.localOffset j))
    {place : FramePlace} (hplace : f.place? (Layout.localOffset j) = some place) :
    (Machine.step setting s).control = .value ((writes.lookup j).getD 0) := by
  obtain ⟨above, top, rest, hframes, hheight, hholds⟩ := h.holds
  obtain ⟨rfl, rfl⟩ := CallStack.eq_innermost hframes hheight hlive
  obtain ⟨control, pending, store⟩ := s
  cases hread
  change (State.yield _ (readVar store v)).control = _
  rw [readVar, hslot]
  dsimp only
  obtain rfl : place = .local j :=
    FramePlace.offset_inj (Frame.place?_eq_some_iff.mp hplace).1.symm
  rw [CallStack.read_eq hlive, Frame.place_of_place? hplace]
  exact congrArg Control.value (hholds j)

end Machine

/-! ### Runs of placed programs -/

/-- A variable in a frame has a place there other than the receiver's. -/
def Frame.Has (f : Frame) (v : Var) : Prop :=
  ∀ offset, v.slot = .frame offset → offset ≠ Layout.selfOffset ∧
    ∃ place, f.place? offset = some place

theorem Frame.Has.of_sameShape {f g : Frame} {v : Var} (hshape : f.SameShape g) (h : f.Has v) :
    g.Has v := by
  intro offset hslot
  rw [hshape.place?]
  exact h offset hslot

/-- The frame in which a routine runs has its variables. -/
theorem ClassTable.LaidOut.has {table : ClassTable} (hlaid : table.LaidOut) {m : Method}
    (hm : m ∈ table.methods) {self : Word} {args : List Word}
    (harity : m.decl.params.length = args.length) {v : Var}
    (hv : v ∈ Layout.routineVars m.decl) :
    Frame.Has ⟨m.qualified, self, args.toArray, Array.replicate m.decl.stackSlots 0⟩ v := by
  obtain ⟨locals, hlocals, hresolve⟩ := hlaid.placed m hm v hv
  intro offset hslot
  rcases Layout.resolve_cases hresolve with
    ⟨i, -, hi, hparam⟩ | ⟨-, j, -, hj, hlocal⟩ | ⟨-, -, fields, other, -, -, hfield⟩
  · cases hslot.symm.trans hparam
    refine ⟨?_, .param i, Frame.place?_param ?_⟩
    · simp only [Layout.paramOffset, Layout.selfOffset]
      omega
    · simp only [Layout.routineScope, List.length_map] at hi
      simp only [List.size_toArray]
      omega
  · cases hslot.symm.trans hlocal
    refine ⟨?_, .local j, Frame.place?_local ?_⟩
    · simp only [Layout.localOffset, Layout.selfOffset]
      omega
    · simp only [Array.size_replicate]
      omega
  · cases hslot.symm.trans hfield

/-- A frame of a routine uses only variables that it has; in the frame of the commands anything may
be tried. -/
def Discipline.frames (setting : Setting) (hlaid : setting.table.LaidOut) : Discipline setting where
  heap _ := True
  allows height _ f v := height ≠ 0 → f.Has v
  admits _ m _ := m ∈ setting.table.methods
  base _ last := last.length = 1
  floor := 1
  floor_le := Discipline.floor_of_root
  grow_heap _ h := h
  grow_allows _ h := h
  grow_admits _ h := h
  write_allows value hv hslot hplace hu hheight :=
    (hu hheight).of_sameShape
      (Frame.sameShape_store _ value (Frame.place?_ne_self hplace (hv hheight _ hslot).1))
  write_base _ _ _ _ h := h
  enter _ hm harity hv _ := hlaid.has hm harity hv
  callTop _ hm := (ClassTable.mem_methods_of_top hm).2
  dispatch _ _ hm := (ClassTable.lookup?_cases hm).1
  construct _ _ hm := (ClassTable.lookup?_cases hm).1

namespace Interpreter

variable {limit : Int} {sink : Sink} {tracing : Bool} {table : ClassTable}
  {commands : List Command} {s : State}

/-- A routine that reads a variable has it in its frame. -/
theorem Runs.has (hlaid : table.LaidOut)
    (h : ((fresh limit sink tracing).bind table).Runs commands s) {f : Frame} {below : List Frame}
    (hlive : s.store.stack.live = f :: below) (hbelow : below.length ≠ 0) {span : Span} {v : Var}
    (hread : s.control = .expr (.var span v)) : f.Has v := by
  obtain ⟨_, stack, ⟨⟩, hpush, hreaches⟩ := h
  obtain ⟨-, -, hroot⟩ := CallStack.push_ok hpush
  have hstart : (Discipline.frames ⟨table, sink, tracing⟩ hlaid).Holds
      ⟨.stmts (commands.map Command.toStmt), [], { Store.fresh limit with stack := stack }⟩ := by
    refine ⟨.done, ⟨trivial, ?_⟩, rfl, ?_⟩
    · show stack.live.length = 1
      rw [hroot]
      rfl
    · intro frame below hframes v _ hheight
      rw [hroot] at hframes
      cases hframes
      exact absurd rfl hheight
  obtain ⟨k, -, -, hcontrol⟩ := hstart.reaches hreaches
  rw [hread] at hcontrol
  exact hcontrol f below hlive v List.mem_cons_self hbelow

/-- Every frame of a run above that of the commands has a history. -/
theorem Runs.written (h : ((fresh limit sink tracing).bind table).Runs commands s) {height : Nat}
    (hlow : 1 < height) (hlive : height ≤ s.store.stack.depth) :
    ∃ writes, Machine.Written ⟨table, sink, tracing⟩ height s writes := by
  obtain ⟨_, stack, ⟨⟩, hpush, hreaches⟩ := h
  obtain ⟨-, -, hroot⟩ := CallStack.push_ok hpush
  refine hreaches.invariant (P := fun u => height ≤ u.store.stack.depth →
    ∃ writes, Machine.Written ⟨table, sink, tracing⟩ height u writes) ?_ ?_ hlive
  · intro u hu hnext
    rcases Nat.lt_or_ge u.store.stack.depth height with hlt | hge
    · have hle := Machine.depth_step_le ⟨table, sink, tracing⟩ u
      exact ⟨[], .entered hlt (Nat.le_antisymm (Nat.le_trans hle hlt) hnext)⟩
    · obtain ⟨writes, hwrites⟩ := hu hge
      exact hwrites.step hnext
  · intro hstart
    have hone : stack.depth = 1 := by
      rw [CallStack.depth_eq, hroot]
      rfl
    exact absurd (Nat.le_trans hstart (Nat.le_of_eq hone)) (Nat.not_le.mpr hlow)

end Interpreter

/-- **A local slot holds what was assigned to it last.** In every run of a placed program, the frame
of a routine that is running was added by a step, and a read of a local gives the value assigned
last to its slot since then, in the same activation and by whichever variable, or zero if none was.
-/
theorem local_holds_last_assignment {p : Program} (hdiagnostics : (ClassTable.build p).2 = [])
    (herrors : p.layoutErrors (ClassTable.build p).1 = []) (limit : Int) (sink : Sink)
    (tracing : Bool) :
    let i := Interpreter.fresh limit sink tracing
    let table := (ClassTable.build (p.place (ClassTable.build p).1)).1
    (∀ steps, i.evaluate steps false (some p) = (i.bind table).runCommands steps p.commands) ∧
    ∀ s, (i.bind table).Runs p.commands s → 1 < s.store.stack.depth →
      ∃ writes, Machine.Written ⟨table, sink, tracing⟩ s.store.stack.depth s writes ∧
        ∀ span v j, s.control = .expr (.var span v) → v.slot = .frame (Layout.localOffset j) →
          (Machine.step ⟨table, sink, tracing⟩ s).control =
            .value ((writes.lookup j).getD 0) := by
  have hlaid := ClassTable.laidOut_place herrors
  intro i table
  refine ⟨fun steps => i.evaluate_placed hdiagnostics herrors steps, fun s hs hdepth => ?_⟩
  obtain ⟨writes, hwrites⟩ := hs.written hdepth (Nat.le_refl _)
  refine ⟨writes, hwrites, fun span v j hread hslot => ?_⟩
  cases hlive : s.store.stack.live with
  | nil =>
      rw [CallStack.depth_eq, hlive] at hdepth
      exact absurd hdepth (by simp)
  | cons f below =>
      rw [CallStack.depth_eq, hlive, List.length_cons] at hdepth
      obtain ⟨-, place, hplace⟩ := hs.has hlaid hlive (by omega) hread _ hslot
      exact hwrites.read hlive hread hslot hplace

/-- A loop whose body declares a variable, prints it and assigns to it. -/
def redeclaringProgram : Program :=
  ⟨.unknown, true, [some ⟨.unknown, "main", true, [], true,
    [.declare .unknown (.int .unknown) "i",
      .loop .unknown
        (.binary .unknown "<" (.var .unknown ⟨.unknown, "i", .unresolved⟩) (.integer .unknown 2))
        (.mk .unknown true
          [.declare .unknown (.int .unknown) "x",
            .output .unknown (.var .unknown ⟨.unknown, "x", .unresolved⟩),
            .assign .unknown ⟨.unknown, "x", .unresolved⟩ (.integer .unknown 5),
            .assign .unknown ⟨.unknown, "i", .unresolved⟩
              (.binary .unknown "+" (.var .unknown ⟨.unknown, "i", .unresolved⟩)
                (.integer .unknown 1))])], none, 0⟩],
    true, [], true, [.call .unknown "main" true []]⟩

/-- The program laid out and bound to a machine that prints every line. -/
def redeclaringSetting : Setting :=
  ⟨(ClassTable.build (redeclaringProgram.place (ClassTable.build redeclaringProgram).1)).1,
    .unlimited, false⟩

/-- The state in which the loop reads the variable that it has just declared again. -/
def redeclaredState : State :=
  (Machine.step redeclaringSetting)^[50]
    ⟨.stmts (redeclaringProgram.commands.map Command.toStmt), [],
      { Store.fresh 10 with stack := ⟨10, #[⟨"", 0, #[], #[]⟩]⟩ }⟩

theorem local_holds_last_assignment_redeclared :
    (ClassTable.build redeclaringProgram).2 = [] ∧
    redeclaringProgram.layoutErrors (ClassTable.build redeclaringProgram).1 = [] ∧
    ((Interpreter.fresh 10 .unlimited false).bind redeclaringSetting.table).Runs
      redeclaringProgram.commands redeclaredState ∧
    redeclaredState.control =
      .expr (.var .unknown ⟨.unknown, "x", .frame (Layout.localOffset 1)⟩) ∧
    ∃ writes, Machine.Written redeclaringSetting 2 redeclaredState writes ∧
      (writes.lookup 1).getD 0 = 5 := by
  have hdiagnostics : (ClassTable.build redeclaringProgram).2 = [] := by decide +kernel
  have herrors : redeclaringProgram.layoutErrors (ClassTable.build redeclaringProgram).1 = [] := by
    decide +kernel
  have hruns : ((Interpreter.fresh 10 .unlimited false).bind redeclaringSetting.table).Runs
      redeclaringProgram.commands redeclaredState := ⟨_, _, rfl, rfl, 50, rfl⟩
  have hread : redeclaredState.control =
      .expr (.var .unknown ⟨.unknown, "x", .frame (Layout.localOffset 1)⟩) := by rfl
  have hdepth : redeclaredState.store.stack.depth = 2 := by decide +kernel
  have hvalue : (Machine.step redeclaringSetting redeclaredState).control = .value 5 := by rfl
  obtain ⟨-, hall⟩ := local_holds_last_assignment hdiagnostics herrors 10 .unlimited false
  obtain ⟨writes, hwrites, hreads⟩ := hall redeclaredState hruns (by rw [hdepth]; decide)
  rw [hdepth] at hwrites
  refine ⟨hdiagnostics, herrors, hruns, hread, writes, hwrites, ?_⟩
  have hstep : Control.value ((writes.lookup 1).getD 0) = .value 5 :=
    (hreads _ _ 1 hread rfl).symm.trans hvalue
  injection hstep

/-- The second time that the loop declares the variable, it is read with the value of the first. -/
theorem redeclared_local_is_not_zero :
    (ClassTable.build redeclaringProgram).2 = [] ∧
    redeclaringProgram.layoutErrors (ClassTable.build redeclaringProgram).1 = [] ∧
    ((Interpreter.fresh 10 .unlimited false).evaluate 150 false (some redeclaringProgram)).2 =
      .finished ∧
    ((Interpreter.fresh 10 .unlimited false).evaluate 150 false
      (some redeclaringProgram)).1.store.printed = #[0, 5] := by
  decide +kernel

end ObjectLang
