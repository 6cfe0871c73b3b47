import ObjectLang.Proofs.CompleteRuns
import ObjectLang.Proofs.Loading
import ObjectLang.Proofs.LocalSlots
import ObjectLang.Proofs.Lockstep
import ObjectLang.Proofs.TableAgreement

/-! Programs that pass the check. The check lays out routines and classes only, so it says nothing of
the variables that commands use: these never get a slot. A checked program is never kept from running,
and its routines never reach beyond their frames, however many objects there are. But it ends in the
fault of a frame as soon as one of its commands comes to use a variable, and in no other case. -/

namespace ObjectLang

open Layout (exprVars exprsVars)

def Command.vars : Command → List Var
  | .call _ _ _ args => exprsVars args
  | .eval _ e => exprVars e

theorem stmtsVars_commands (commands : List Command) :
    Layout.stmtsVars (commands.map Command.toStmt) = commands.flatMap Command.vars := by
  induction commands with
  | nil => rfl
  | cons command rest ih =>
      rw [List.map_cons, Layout.stmtsVars, ih, List.flatMap_cons]
      cases command <;> rfl

section Annotations

variable {A : Annotations}

mutual

theorem Expr.Complete.slot_vars : (e : Expr) → e.Complete A → ∀ v ∈ exprVars e, A.slot v.slot
  | .missing, h => h.elim
  | .integer _ _, _ | .truth _ _, _ | .self _, _ => nofun
  | .var _ v, h => by
      intro u hu
      rw [exprVars, List.mem_singleton] at hu
      rw [hu]
      exact h
  | .not _ operand, h => slot_vars operand h
  | .isNull _ operand, h => slot_vars operand h
  | .length _ array, h => slot_vars array h
  | .newArray _ _ size, h => slot_vars size h.2
  | .binary _ _ left right, h => List.forall_mem_append.mpr ⟨slot_vars left h.2.1, slot_vars right h.2.2⟩
  | .index _ a i, h => List.forall_mem_append.mpr ⟨slot_vars a h.1, slot_vars i h.2⟩
  | .newObject _ _ _ args, h => slot_varsList args h.2
  | .call _ receiver _ _ args, h => by
      refine List.forall_mem_append.mpr ⟨?_, slot_varsList args h.2.2⟩
      rcases h.1 with hmissing | hreceiver
      · rw [hmissing]
        exact nofun
      · exact slot_vars receiver hreceiver

theorem Expr.Complete.slot_varsList :
    (es : List Expr) → Expr.AllComplete A es → ∀ v ∈ exprsVars es, A.slot v.slot
  | [], _ => nofun
  | e :: es, h => List.forall_mem_append.mpr ⟨slot_vars e h.1, slot_varsList es h.2⟩

end

theorem Command.Complete.slot_vars {command : Command} (h : command.Complete A) :
    ∀ v ∈ command.vars, A.slot v.slot := by
  cases command with
  | call span name listed args => exact Expr.Complete.slot_varsList args h.2
  | eval span e => exact Expr.Complete.slot_vars e h

end Annotations

namespace Machine

variable {setting : Setting} {s : State} {f : Frame} {below : List Frame} {v : Var}

theorem inFrame_readVar_of_has {σ : Store} (hlive : σ.stack.live = f :: below) (hhas : f.Has v)
    (hplaced : v.slot ≠ .unresolved) : ObjectLang.InFrame (readVar σ v) := by
  cases hslot : v.slot with
  | unresolved => exact absurd hslot hplaced
  | frame offset =>
      apply inFrame_readVar hlive
      rw [Frame.Fits, hslot]
      exact hhas offset hslot
  | field offset =>
      simp only [readVar, hslot]
      rw [read_self hlive]
      exact Heap.inFrame_read _ _ _

theorem inFrame_writeVar_of_has (value : Word) (hlive : s.store.stack.live = f :: below)
    (hhas : f.Has v) (hplaced : v.slot ≠ .unresolved) : (writeVar s v value).InFrame := by
  cases hslot : v.slot with
  | unresolved => exact absurd hslot hplaced
  | frame offset =>
      apply inFrame_writeVar value hlive
      rw [Frame.Fits, hslot]
      exact hhas offset hslot
  | field offset =>
      simp only [writeVar, hslot]
      split
      · next g hg =>
          rw [read_self hlive] at hg
          exact inFrame_fault (Heap.inFrame_place _ _ _) hg
      · intro failure g hfailed
        cases hfailed

/-- A step reaches beyond the frame only by a variable that has no slot or is not in the frame. -/
theorem inFrame_step_of_has (hlive : s.store.stack.live = f :: below)
    (hrunning : ∀ failure, s.control ≠ .failed failure)
    (hhas : ∀ v, s.Accesses v → f.Has v ∧ v.slot ≠ .unresolved) : (step setting s).InFrame := by
  by_cases haccess : ∃ v, s.Accesses v
  · obtain ⟨v, hv⟩ := haccess
    obtain ⟨hin, hplaced⟩ := hhas v hv
    obtain ⟨control, pending, σ⟩ := s
    rcases hv with ⟨span, rfl⟩ | ⟨value, rest, rfl, rfl⟩
    · exact inFrame_yield (inFrame_readVar_of_has hlive hin hplaced)
    · exact inFrame_writeVar_of_has (s := ⟨.value value, rest, σ⟩) value hlive hin hplaced
  · exact inFrame_step hlive hrunning fun v hv => absurd ⟨v, hv⟩ haccess

/-- Using a variable without a slot is the fault of a frame. -/
theorem step_unplaced (setting : Setting) (haccess : s.Accesses v) (hslot : v.slot = .unresolved) :
    (step setting s).control = .failed (.fault (unplaced v)) := by
  obtain ⟨control, pending, σ⟩ := s
  rcases haccess with ⟨span, rfl⟩ | ⟨value, rest, rfl, rfl⟩
  · change (State.yield _ (readVar σ v)).control = _
    rw [readVar, hslot]
    rfl
  · change (writeVar _ v value).control = _
    rw [writeVar, hslot]
    rfl

/-- A fault comes out at the end of a run. -/
theorem run_of_fault (setting : Setting) {f : Fault} (h : s.fault? = some f) :
    ∃ n final g, run setting n s = some final ∧ final.fault? = some g ∧ f.Same g := by
  obtain ⟨failure, hcontrol, -⟩ := State.failed_of_fault? h
  obtain ⟨control, pending, store⟩ := s
  dsimp only at hcontrol
  subst hcontrol
  obtain ⟨failure', stack, hend, -⟩ := iterate_failed setting failure pending store pending.length
  rw [List.drop_length] at hend
  have hrun := run_eq_some_iff.mpr ⟨hend, rfl⟩
  obtain ⟨g, hg, hsame⟩ := same_of_reaches (reaches_of_run hrun) h
  exact ⟨_, _, g, hrun, hg, hsame⟩

end Machine

/-- In the frame of the commands only their variables are used; a frame of a routine has all that the
routine uses, and its variables have slots. -/
def Discipline.checked (setting : Setting) (hlaid : setting.table.LaidOut) (vars : List Var) :
    Discipline setting where
  heap _ := True
  allows height _ f v := (height = 0 → v ∈ vars) ∧ (height ≠ 0 → f.Has v ∧ v.slot ≠ .unresolved)
  admits _ m _ := m ∈ setting.table.methods
  base _ last := last.length = 1
  floor := 1
  floor_le := Discipline.floor_of_root
  grow_heap _ h := h
  grow_allows _ h := h
  grow_admits _ h := h
  write_allows value hv hslot hplace hu := by
    refine ⟨hu.1, fun hheight => ⟨?_, (hu.2 hheight).2⟩⟩
    have hself := ((hv.2 hheight).1 _ hslot).1
    exact (hu.2 hheight).1.of_sameShape
      (Frame.sameShape_store _ value (Frame.place?_ne_self hplace hself))
  write_base _ _ _ _ h := h
  enter hheight hm harity hv := by
    refine ⟨fun hzero => absurd hheight (by omega), fun _ => ⟨hlaid.has hm harity hv, ?_⟩⟩
    obtain ⟨locals, -, hresolve⟩ := hlaid.placed _ hm _ hv
    rcases Layout.resolve_cases hresolve with ⟨i, -, -, h⟩ | ⟨-, j, -, -, h⟩ | ⟨-, -, fields, k, -, -, h⟩
    all_goals
      rw [h]
      intro hslot
      cases hslot
  callTop := @Discipline.callTop _ (Discipline.frames setting hlaid)
  dispatch := @Discipline.dispatch _ (Discipline.frames setting hlaid)
  construct := @Discipline.construct _ (Discipline.frames setting hlaid)

namespace Interpreter

variable {limit : Int} {sink : Sink} {tracing : Bool} {table : ClassTable}
  {commands : List Command} {s : State}

theorem Runs.checked (hlaid : table.LaidOut)
    (h : ((fresh limit sink tracing).bind table).Runs commands s) :
    (Discipline.checked ⟨table, sink, tracing⟩ hlaid (commands.flatMap Command.vars)).Holds s := by
  obtain ⟨_, stack, ⟨⟩, hpush, hreaches⟩ := h
  obtain ⟨-, -, hroot⟩ := CallStack.push_ok hpush
  refine Discipline.Holds.reaches ?_ hreaches
  refine ⟨.done, ⟨trivial, ?_⟩, rfl, ?_⟩
  · show stack.live.length = 1
    rw [hroot]
    rfl
  · intro frame below hframes v hv
    rw [hroot] at hframes
    cases hframes
    refine ⟨fun _ => ?_, fun hheight => absurd rfl hheight⟩
    rw [← stmtsVars_commands]
    exact hv

/-- What is accessed is a variable of the commands, in their frame, or one that its frame has. -/
theorem Runs.accesses (hlaid : table.LaidOut)
    (h : ((fresh limit sink tracing).bind table).Runs commands s) {f : Frame} {below : List Frame}
    (hlive : s.store.stack.live = f :: below) {v : Var} (haccess : s.Accesses v) :
    (below.length = 0 → v ∈ commands.flatMap Command.vars) ∧
      (below.length ≠ 0 → f.Has v ∧ v.slot ≠ .unresolved) := by
  obtain ⟨k, hready, -, hcontrol⟩ := h.checked hlaid
  rcases haccess with ⟨span, hvar⟩ | ⟨value, rest, -, hassign⟩
  · rw [hvar] at hcontrol
    exact hcontrol f below hlive v List.mem_cons_self
  · have hpending := hready.pending
    rw [hassign] at hpending
    obtain ⟨-, hvars, -⟩ := hpending
    exact hvars f below hlive v List.mem_cons_self

/-- There is always a frame, and the fault of a frame is raised in that of the commands, by one of
their variables. -/
theorem Runs.raises_frameOffset (hlaid : table.LaidOut)
    (h : ((fresh limit sink tracing).bind table).Runs commands s) (hrunning : s.Running)
    {raised : Fault} (hraised : (Machine.step ⟨table, sink, tracing⟩ s).fault? = some raised)
    (hkind : raised.kind = .frameOffset) :
    s.store.stack.depth = 1 ∧ ∃ v ∈ commands.flatMap Command.vars, s.Accesses v := by
  obtain ⟨failure, hcontrol, hfault⟩ := State.failed_of_fault? hraised
  have hout : ¬ (Machine.step ⟨table, sink, tracing⟩ s).InFrame := fun hin =>
    hin failure raised hcontrol hfault hkind
  cases hlive : s.store.stack.live with
  | nil =>
      obtain ⟨k, hready, -⟩ := h.checked hlaid
      have hfloor := hready.pending.floor_le
      rw [hlive] at hfloor
      exact absurd (show 1 ≤ 0 from hfloor) (by decide)
  | cons f below =>
      by_cases haccess : ∃ v, s.Accesses v
      · obtain ⟨v, hv⟩ := haccess
        by_cases hbelow : below.length = 0
        · rw [CallStack.depth_eq, hlive, List.length_cons, hbelow]
          exact ⟨rfl, v, (h.accesses hlaid hlive hv).1 hbelow, hv⟩
        · exact absurd (Machine.inFrame_step_of_has hlive hrunning
            fun u hu => (h.accesses hlaid hlive hu).2 hbelow) hout
      · exact absurd (Machine.inFrame_step_of_has hlive hrunning
          fun u hu => absurd ⟨u, hu⟩ haccess) hout

/-- The fault of a frame in which a run ends was raised in the frame of the commands, by one of their
variables. -/
theorem raised_of_frameOffset (hlaid : table.LaidOut) {steps : Nat} {failure : Failure} {f : Fault}
    (hfailed : (((fresh limit sink tracing).bind table).runCommands steps commands).2 =
      .failed failure)
    (hfault : failure.fault? = some f) (hkind : f.kind = .frameOffset) :
    ∃ s raised, ((fresh limit sink tracing).bind table).Runs commands s ∧
      (Machine.step ⟨table, sink, tracing⟩ s).fault? = some raised ∧ raised.Same f ∧
      s.store.stack.depth = 1 ∧ ∃ v ∈ commands.flatMap Command.vars, s.Accesses v := by
  obtain ⟨final, hruns, -, hcontrol⟩ := final_of_runCommands rfl hfailed hfault
  have hfinal : final.fault? = some f := by
    rw [State.fault?_of_failed hcontrol, hfault]
  obtain ⟨_, s, raised, ⟨⟩, hs, hrunning, -, hraised, -, hrest⟩ := hruns.raised_fault hfinal
  obtain ⟨g, hg, hsame⟩ := Machine.same_of_reaches hrest hraised
  cases hfinal.symm.trans hg
  have hraises := hs.raises_frameOffset hlaid hrunning hraised (hsame.1.symm.trans hkind)
  exact ⟨s, raised, hs, hraised, hsame, hraises⟩

/-- A run of commands that comes to a fault ends in a fault of that kind. -/
theorem Runs.fails {i : Interpreter} (h : i.Runs commands s) {f : Fault} (hf : s.fault? = some f) :
    ∃ steps, (i.runCommands steps commands).2.FailedWith f.kind := by
  obtain ⟨table, stack, htable, hpush, k, hk⟩ := h
  obtain ⟨n, final, g, hrun, hg, hsame⟩ := Machine.run_of_fault ⟨table, i.sink, i.tracing⟩ hf
  obtain ⟨failure, hcontrol, hfault⟩ := State.failed_of_fault? hg
  refine ⟨n + k, failure, g, ?_, hfault, hsame.1⟩
  rw [← hk] at hrun
  rw [i.runCommands_eq htable hpush, Machine.run_add.mpr hrun]
  dsimp only
  rw [hcontrol]
  rfl

/-- Where commands have no slots, using a variable in their frame is the fault of a frame. -/
theorem Runs.fails_of_accesses (hlaid : table.LaidOut)
    (hcommands : ∀ v ∈ commands.flatMap Command.vars, v.slot = .unresolved)
    (h : ((fresh limit sink tracing).bind table).Runs commands s) (hdepth : s.store.stack.depth = 1)
    {v : Var} (haccess : s.Accesses v) :
    ∃ steps, (((fresh limit sink tracing).bind table).runCommands steps commands).2.FailedWith
      .frameOffset := by
  rw [CallStack.depth_eq] at hdepth
  obtain ⟨f, hlive⟩ := List.length_eq_one_iff.mp hdepth
  have hslot := hcommands v ((h.accesses hlaid hlive haccess).1 rfl)
  have hstep := Machine.step_unplaced ⟨table, sink, tracing⟩ haccess hslot
  exact (h.step rfl).fails (State.fault?_of_failed hstep)

end Interpreter

/-! ### The check of the tool -/

/-- A check that succeeds has found neither diagnostics nor layout errors. -/
theorem CommandLine.World.passes_of_check {w : World} {file : String} {offsets : Bool}
    (h : (w.check file offsets).status = 0) :
    ∃ m p, w.manifestFor file = .ok m ∧ w.program file m = .ok p ∧
      (ClassTable.build p).2 = [] ∧ p.layoutErrors (ClassTable.build p).1 = [] := by
  unfold check at h
  split at h
  · cases h
  · split at h
    · cases h
    · next m hm =>
        split at h
        · cases h
        · next p hp =>
            dsimp only at h
            split at h
            · cases h
            · next hdiagnostics =>
                split at h
                · cases h
                · next herrors =>
                    exact ⟨m, p, hm, hp, by simpa using hdiagnostics, by simpa using herrors⟩

/-- **What the check is worth at run time.** A program that the check accepts is not kept from running
by diagnostics or layout errors, however many frames there may be. No routine of it reaches beyond its
frame: the fault of a frame only comes from a variable of a command, which has no slot. It comes just
in those runs that use a variable while no routine is running. -/
theorem checked_program_frame_faults {w : CommandLine.World} {file : String} {offsets : Bool}
    (hcheck : (w.check file offsets).status = 0) :
    ∃ m p, w.manifestFor file = .ok m ∧ w.program file m = .ok p ∧
      ∀ (limit : Int) (sink : Sink) (tracing : Bool),
        let i := Interpreter.fresh limit sink tracing
        let bound := i.bind (Interpreter.boundTable false p)
        (∀ steps, i.evaluate steps false (some p) = bound.runCommands steps p.commands) ∧
        (∀ steps, sink = .unlimited →
          let ending := (i.evaluate steps false (some p)).2
          ending = .outOfSteps ∨ ending = .finished ∨ ∃ fault, ending = .failed (.fault fault)) ∧
        (∀ steps failure f, (i.evaluate steps false (some p)).2 = .failed failure →
          failure.fault? = some f → f.kind = .frameOffset →
          ∃ v ∈ p.commands.flatMap Command.vars,
            f.text = "variable " ++ v.name ++ " was never allocated") ∧
        ((∃ steps, (i.evaluate steps false (some p)).2.FailedWith .frameOffset) ↔
          ∃ s v, bound.Runs p.commands s ∧ s.store.stack.depth = 1 ∧ s.Accesses v) := by
  obtain ⟨m, p, hm, hp, hdiagnostics, herrors⟩ := CommandLine.World.passes_of_check hcheck
  refine ⟨m, p, hm, hp, fun limit sink tracing => ?_⟩
  intro i bound
  obtain ⟨paths, b, hload, rfl⟩ := CommandLine.World.link_of_program hp
  have hlaid : (Interpreter.boundTable false b.link).LaidOut := ClassTable.laidOut_place herrors
  have hslots : ∀ v ∈ b.link.commands.flatMap Command.vars, v.slot = .unresolved := by
    intro v hv
    obtain ⟨command, hcommand, hv⟩ := List.mem_flatMap.mp hv
    exact ((Bundle.complete_of_load Annotations.optional_none hload).commands _ hcommand).slot_vars v hv
  have hevaluate (steps : Nat) : i.evaluate steps false (some b.link) =
      bound.runCommands steps b.link.commands :=
    Interpreter.evaluate_bound hdiagnostics (.inr herrors) i steps
  simp only [hevaluate]
  refine ⟨fun _ => trivial, ?_, ?_, ?_, ?_⟩
  · rintro steps rfl
    have hcomplete := Bundle.complete_of_load Annotations.optional_any hload
    exact Interpreter.ending_of_program (hcomplete.place _) limit tracing steps
  · intro steps failure f hfailed hfault hkind
    obtain ⟨s, raised, hs, hraised, hsame, -, v, hv, haccess⟩ :=
      Interpreter.raised_of_frameOffset hlaid hfailed hfault hkind
    rw [State.fault?_of_failed (Machine.step_unplaced _ haccess (hslots v hv))] at hraised
    cases hraised
    exact ⟨v, hv, hsame.2⟩
  · rintro ⟨steps, failure, f, hfailed, hfault, hkind⟩
    obtain ⟨s, -, hs, -, -, hdepth, v, -, haccess⟩ :=
      Interpreter.raised_of_frameOffset hlaid hfailed hfault hkind
    exact ⟨s, v, hs, hdepth, haccess⟩
  · rintro ⟨s, v, hs, hdepth, haccess⟩
    exact hs.fails_of_accesses hlaid hslots hdepth haccess

/-- A directory with one file that holds a program. -/
def worldOf (text : String) : CommandLine.World :=
  ⟨⟨[(["w", "main.json"], .file text)]⟩, "/w", "", "", "", []⟩

/-- A procedure that prints a local, and a command that calls it. -/
def localWorld : CommandLine.World := worldOf (
  "\x7b\"type\":\"Program\",\"routines\":[\x7b\"type\":\"ProcDecl\",\"name\":\"f\",\"body\":[" ++
  "\x7b\"type\":\"StmVarDecl\",\"varType\":\"int\",\"name\":\"x\"\x7d," ++
  "\x7b\"type\":\"StmOutput\",\"expr\":\x7b\"type\":\"ExpVar\",\"var\":\"x\"\x7d\x7d]\x7d]," ++
  "\"commands\":[\x7b\"type\":\"ICall\",\"name\":\"f\"\x7d]\x7d")

theorem checked_local_is_in_frame :
    (localWorld.check "main.json" false).status = 0 ∧
    ∃ p, localWorld.program "main.json" none = .ok p ∧
      ∀ limit sink tracing steps,
        ¬ ((Interpreter.fresh limit sink tracing).evaluate steps false (some p)).2.FailedWith
          .frameOffset := by
  obtain ⟨hcheck, hmanifest, hvars⟩ : (localWorld.check "main.json" false).status = 0 ∧
      (localWorld.manifestFor "main.json").toOption.map Option.isNone = some true ∧
      (localWorld.program "main.json" none).toOption.map
        (fun p => p.commands.flatMap Command.vars) = some [] := by decide +kernel
  obtain ⟨m, p, hm, hp, hruns⟩ := checked_program_frame_faults hcheck
  rw [hm] at hmanifest
  obtain rfl : m = none := Option.isNone_iff_eq_none.mp (Option.some.inj hmanifest)
  rw [hp] at hvars
  refine ⟨hcheck, p, hp, fun limit sink tracing steps => ?_⟩
  rintro ⟨failure, f, hfailed, hfault, hkind⟩
  obtain ⟨v, hv, -⟩ := (hruns limit sink tracing).2.2.1 steps failure f hfailed hfault hkind
  rw [show p.commands.flatMap Command.vars = [] from Option.some.inj hvars] at hv
  exact absurd hv List.not_mem_nil

/-- A command that prints a variable which is declared nowhere. -/
def danglingWorld : CommandLine.World := worldOf (
  "\x7b\"type\":\"Program\",\"commands\":[" ++
  "\x7b\"type\":\"IEval\",\"expr\":\x7b\"type\":\"ExpVar\",\"var\":\"x\"\x7d\x7d]\x7d")

theorem checked_command_has_no_slot :
    (danglingWorld.check "main.json" false).status = 0 ∧
    (danglingWorld.program "main.json" none).toOption.map
        (fun p => ((Interpreter.fresh 0 .unlimited false).evaluate 10 false (some p)).2) =
      some (.failed (.fault ⟨.frameOffset, "variable x was never allocated", .unknown, none⟩)) := by
  decide +kernel

end ObjectLang
