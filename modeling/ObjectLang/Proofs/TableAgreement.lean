import Mathlib.Data.List.Perm.Subperm
import ObjectLang.Proofs.Declarations
import ObjectLang.Proofs.Lockstep

/-! Runs under another table. A table is part of another that finds all it finds. What a run asks a
table is then answered alike by both: the ancestors of a class that the smaller one declares, its
fields and its methods. Two runs under such tables go through the same states until the smaller table
has no answer, which is an unresolved dispatch. Tables that are part of each other and lack no
ancestor answer alike throughout. -/

namespace ObjectLang

/-- A table knows the same of two classes, whatever the order of their methods. -/
structure ClassInfo.Agrees (c d : ClassInfo) : Prop where
  parent : d.parent = c.parent
  fields : d.fields = c.fields
  methods : ∀ name, findMethod? d.methods name = findMethod? c.methods name

theorem ClassInfo.flatMap_fields {infos infos' : List ClassInfo}
    (h : List.Forall₂ Agrees infos infos') :
    infos'.flatMap (·.fields) = infos.flatMap (·.fields) := by
  induction h with
  | nil => rfl
  | cons hagrees _ ih => rw [List.flatMap_cons, List.flatMap_cons, hagrees.fields, ih]

theorem ClassInfo.findSome?_methods {infos infos' : List ClassInfo}
    (h : List.Forall₂ Agrees infos infos') (name : String) :
    infos'.findSome? (findMethod? ·.methods name) = infos.findSome? (findMethod? ·.methods name) := by
  induction h with
  | nil => rfl
  | cons hagrees _ ih => rw [List.findSome?_cons, List.findSome?_cons, hagrees.methods, ih]

namespace ClassTable

/-- What the table finds, the other finds too. -/
structure PartOf (table other : ClassTable) : Prop where
  top : ∀ name m, findMethod? table.top name = some m → findMethod? other.top name = some m
  classes : ∀ name c, table.declared? name = some c →
    ∃ d, other.declared? name = some d ∧ c.Agrees d
  size : table.classes.length ≤ other.classes.length

namespace PartOf

variable {table other : ClassTable} (h : table.PartOf other)
include h

theorem chainFrom {steps : Nat} {passed : List String} {name : String} {infos : List ClassInfo}
    (hchain : table.chainFrom steps passed name = .ok infos) :
    ∃ infos', other.chainFrom steps passed name = .ok infos' ∧
      List.Forall₂ ClassInfo.Agrees infos infos' := by
  induction steps generalizing passed name infos with
  | zero => cases hchain
  | succ steps ih =>
      by_cases hname : name = ""
      · subst hname
        rw [ClassTable.chainFrom, if_pos rfl] at hchain
        cases hchain
        exact ⟨[], by rw [ClassTable.chainFrom, if_pos rfl], .nil⟩
      · obtain ⟨c, above, rfl, hc, hnew, hrest⟩ := chainFrom_succ_ok hname hchain
        obtain ⟨d, hd, hagrees⟩ := h.classes name c hc
        obtain ⟨above', habove, hrest'⟩ := ih hrest
        refine ⟨d :: above', ?_, .cons hagrees hrest'⟩
        rw [ClassTable.chainFrom, if_neg hname, if_neg (by simpa using hnew), hd]
        simp only [hagrees.parent, habove]
        rfl

theorem chain {name : String} {infos : List ClassInfo} (hchain : table.chain name = .ok infos) :
    ∃ infos', other.chain name = .ok infos' ∧ List.Forall₂ ClassInfo.Agrees infos infos' := by
  obtain ⟨infos', hother, hagree⟩ := h.chainFrom hchain
  exact ⟨infos', chainFrom_mono (Nat.succ_le_succ h.size) (List.Subset.refl _) hother, hagree⟩

theorem fieldHierarchy {name : String} {infos : List ClassInfo}
    (hchain : table.chain name = .ok infos) :
    other.fieldHierarchy name = table.fieldHierarchy name := by
  obtain ⟨infos', hother, hagree⟩ := h.chain hchain
  rw [fieldHierarchy_of_chain hchain, fieldHierarchy_of_chain hother, ClassInfo.flatMap_fields hagree]

theorem fieldCount {name : String} {infos : List ClassInfo} (hchain : table.chain name = .ok infos) :
    other.fieldCount name = table.fieldCount name := by
  obtain ⟨infos', hother, hagree⟩ := h.chain hchain
  rw [fieldCount_of_chain hchain, fieldCount_of_chain hother, ClassInfo.flatMap_fields hagree]

theorem lookup? {className : String} (hname : className ≠ "") {infos : List ClassInfo}
    (hchain : table.chain className = .ok infos) (name : String) :
    other.lookup? className name = table.lookup? className name := by
  obtain ⟨infos', hother, hagree⟩ := h.chain hchain
  unfold ClassTable.lookup?
  rw [if_neg hname, if_neg hname, hchain, hother]
  exact ClassInfo.findSome?_methods hagree name

theorem isSome_scope? {name : String} (hscope : (table.scope? name).isSome = true) :
    (other.scope? name).isSome = true := by
  by_cases hname : name = ""
  · rw [scope?, if_pos hname]
    rfl
  · rw [scope?, if_neg hname] at hscope ⊢
    obtain ⟨c, hc⟩ := Option.isSome_iff_exists.mp hscope
    obtain ⟨d, hd, -⟩ := h.classes name c hc
    rw [hd]
    rfl

/-- Changing the routines of both tables alike keeps one part of the other. -/
theorem mapRoutines {f g : String → Routine → Routine} (hf : ∀ owner r, (f owner r).name = r.name)
    (hg : ∀ owner r, (g owner r).name = r.name)
    (hsame : ∀ m ∈ table.methods, g m.owner m.decl = f m.owner m.decl) :
    (table.mapRoutines f).PartOf (other.mapRoutines g) := by
  have hmethod (m : Method) (hm : m ∈ table.methods) : m.mapRoutine g = m.mapRoutine f := by
    rw [Method.mapRoutine, hsame m hm]
    rfl
  constructor
  · intro name m hm
    change findMethod? (table.top.map _) name = some m at hm
    rw [findMethod?_mapRoutines hf] at hm
    obtain ⟨source, hsource, rfl⟩ := Option.map_eq_some_iff.mp hm
    change findMethod? (other.top.map _) name = _
    rw [findMethod?_mapRoutines hg, h.top name source hsource, Option.map_some,
      hmethod source (mem_methods_of_top hsource).2]
  · intro name c hc
    rw [declared?_mapRoutines] at hc
    obtain ⟨source, hsource, rfl⟩ := Option.map_eq_some_iff.mp hc
    obtain ⟨d, hd, hagrees⟩ := h.classes name source hsource
    refine ⟨d.mapRoutines g, by rw [declared?_mapRoutines, hd]; rfl, hagrees.parent, hagrees.fields, ?_⟩
    intro key
    change findMethod? (d.methods.map _) key = findMethod? (source.methods.map _) key
    rw [findMethod?_mapRoutines hf, findMethod?_mapRoutines hg, hagrees.methods]
    cases hfind : findMethod? source.methods key with
    | none => rfl
    | some m =>
        have hm : m ∈ table.methods := by
          apply List.mem_append_right
          exact List.mem_flatMap.mpr
            ⟨source, declared?_mem hsource, List.mem_of_find?_eq_some hfind⟩
        rw [Option.map_some, Option.map_some, hmethod m hm]
  · simpa [ClassTable.mapRoutines] using h.size

end PartOf

/-- The ancestors of the owner of a method can be listed. -/
theorem Settled.chain_owner {table : ClassTable} (h : table.Settled) (howned : table.Owned)
    {m : Method} (hm : m ∈ table.methods) : ∃ infos, table.chain m.owner = .ok infos := by
  rcases List.mem_append.mp hm with htop | hclass
  · exact ⟨[], by rw [howned.1 m htop, chain_empty]⟩
  · obtain ⟨info, hinfo, hm⟩ := List.mem_flatMap.mp hclass
    rw [howned.2 info hinfo m hm]
    exact h info hinfo

/-- The tables of two placed programs: a method is placed alike in both. -/
theorem PartOf.place {table other : ClassTable} (h : table.PartOf other) (hsettled : table.Settled)
    (howned : table.Owned) :
    (table.mapRoutines (Layout.placeIn table)).PartOf (other.mapRoutines (Layout.placeIn other)) := by
  apply h.mapRoutines (Layout.placeIn_name table) (Layout.placeIn_name other)
  intro m hm
  obtain ⟨infos, hchain⟩ := hsettled.chain_owner howned hm
  rw [Layout.placeIn, Layout.placeIn, Layout.routineScope, h.fieldHierarchy hchain]
  rfl

/-- What a run asks a table is answered alike by another, unless the table has no answer and such
gaps are allowed. An object whose fields are known has the same constructor in both. -/
structure Answers (gaps : Prop) (table other : ClassTable) : Prop where
  top : ∀ name, findMethod? other.top name = findMethod? table.top name ∨
    gaps ∧ findMethod? table.top name = none
  lookup : ∀ className name, other.lookup? className name = table.lookup? className name ∨
    gaps ∧ table.lookup? className name = none
  count : ∀ className, other.fieldCount className = table.fieldCount className ∨
    gaps ∧ ∃ cause, table.fieldCount className = .error cause
  constructor : ∀ className count, table.fieldCount className = .ok count →
    other.lookup? className className = table.lookup? className className

theorem fieldCount_of_error {table : ClassTable} {name : String} {cause : ChainError}
    (h : table.chain name = .error cause) : table.fieldCount name = .error cause := by
  rw [fieldCount, h]
  rfl

theorem lookup?_of_error {table : ClassTable} {className : String} {cause : ChainError}
    (hname : className ≠ "") (h : table.chain className = .error cause) (name : String) :
    table.lookup? className name = none := by
  rw [lookup?, if_neg hname, h]

/-- A part of a table may lack answers; what stands under the empty name must be the same in both. -/
theorem PartOf.answers {table other : ClassTable} (h : table.PartOf other)
    (hunnamed : findMethod? other.top "" = findMethod? table.top "") :
    table.Answers True other := by
  have htop (name : String) : findMethod? other.top name = findMethod? table.top name ∨
      True ∧ findMethod? table.top name = none := by
    cases hfind : findMethod? table.top name with
    | none => exact .inr ⟨trivial, rfl⟩
    | some m => exact .inl (h.top name m hfind)
  constructor
  · exact htop
  · intro className name
    by_cases hname : className = ""
    · subst hname
      exact htop name
    · cases hchain : table.chain className with
      | error cause => exact .inr ⟨trivial, lookup?_of_error hname hchain name⟩
      | ok infos => exact .inl (h.lookup? hname hchain name)
  · intro className
    cases hchain : table.chain className with
    | error cause => exact .inr ⟨trivial, cause, fieldCount_of_error hchain⟩
    | ok infos => exact .inl (h.fieldCount hchain)
  · intro className count hcount
    by_cases hname : className = ""
    · subst hname
      exact hunnamed
    · cases hchain : table.chain className with
      | error cause =>
          rw [fieldCount_of_error hchain] at hcount
          cases hcount
      | ok infos => exact h.lookup? hname hchain className

section Mutual

variable {table other : ClassTable} (h : table.PartOf other) (hback : other.PartOf table)
  (hsettled : table.Settled) (hother : other.Settled)

include h hback in
theorem PartOf.top_eq (name : String) : findMethod? other.top name = findMethod? table.top name := by
  apply Option.ext
  intro m
  exact ⟨hback.top name m, h.top name m⟩

include hback hsettled hother

/-- A class that a table lacks is lacking in its parts. -/
theorem Settled.chain_lacking {name : String} {cause : ChainError}
    (hchain : table.chain name = .error cause) : other.chain name = .error cause := by
  cases hcase : other.chain name with
  | ok infos =>
      obtain ⟨infos', hok, -⟩ := hback.chain hcase
      rw [hchain] at hok
      cases hok
  | error cause' => rw [(hsettled.chain_error hchain).1, (hother.chain_error hcase).1]

include h

theorem Settled.fieldHierarchy_eq (name : String) :
    other.fieldHierarchy name = table.fieldHierarchy name := by
  cases hchain : table.chain name with
  | ok infos => exact h.fieldHierarchy hchain
  | error cause =>
      rw [fieldHierarchy, fieldHierarchy, hchain, hsettled.chain_lacking hback hother hchain]

/-- Two tables that are part of each other and lack no ancestor answer alike. -/
theorem Settled.answers : table.Answers False other := by
  have hlookup (className name : String) :
      other.lookup? className name = table.lookup? className name := by
    by_cases hname : className = ""
    · subst hname
      exact h.top_eq hback name
    · cases hchain : table.chain className with
      | ok infos => exact h.lookup? hname hchain name
      | error cause =>
          have hcause := hsettled.chain_lacking hback hother hchain
          rw [lookup?_of_error hname hchain, lookup?_of_error hname hcause]
  constructor
  · exact fun name => .inl (h.top_eq hback name)
  · exact fun className name => .inl (hlookup className name)
  · intro className
    left
    cases hchain : table.chain className with
    | ok infos => exact h.fieldCount hchain
    | error cause =>
        have hcause := hsettled.chain_lacking hback hother hchain
        rw [fieldCount_of_error hchain, fieldCount_of_error hcause]
  · exact fun className _ _ => hlookup className className

end Mutual

end ClassTable

/-- A step under another table led to the same state, unless it failed under the first for want of an
answer and gaps are allowed. -/
def State.Agrees (gaps : Prop) (s t : State) : Prop :=
  t = s ∨ gaps ∧ ∃ text, s.control = .failed (.fault (.raise .unresolvedDispatch text))

namespace Machine

open State (Agrees)

section Agrees

variable {gaps : Prop} {table other : ClassTable} (h : table.Answers gaps other) (sink : Sink)
  (tracing : Bool) (s : State)
include h

theorem agrees_evalArgs (callee : Callee) (evaluated : List Word) (args : List Expr) :
    Agrees gaps (evalArgs ⟨table, sink, tracing⟩ s callee evaluated args)
      (evalArgs ⟨other, sink, tracing⟩ s callee evaluated args) := by
  cases args with
  | cons e rest => exact .inl rfl
  | nil =>
      cases callee with
      | routine m self wantsValue => exact .inl rfl
      | method className name self wantsValue =>
          simp only [evalArgs, call]
          rcases h.lookup className name with hsame | ⟨hgaps, hnone⟩
          · rw [hsame]
            exact .inl rfl
          · rw [hnone]
            exact .inr ⟨hgaps, _, rfl⟩

theorem agrees_startCall (receiver : Expr) (name : String) (args : List Expr) (wantsValue : Bool) :
    Agrees gaps (startCall ⟨table, sink, tracing⟩ s receiver name args wantsValue)
      (startCall ⟨other, sink, tracing⟩ s receiver name args wantsValue) := by
  cases receiver with
  | missing =>
      simp only [startCall, callTop]
      rcases h.top name with hsame | ⟨hgaps, hnone⟩
      · rw [hsame]
        split
        · exact .inl rfl
        · exact agrees_evalArgs h sink tracing s _ [] args
      · rw [hnone]
        exact .inr ⟨hgaps, _, rfl⟩
  | _ => exact .inl rfl

theorem agrees_receive (ref : Word) (name : String) (args : List Expr) (wantsValue : Bool) :
    Agrees gaps (receive ⟨table, sink, tracing⟩ s ref name args wantsValue)
      (receive ⟨other, sink, tracing⟩ s ref name args wantsValue) := by
  unfold receive
  split
  · exact .inl rfl
  · split
    · exact .inl rfl
    · exact agrees_evalArgs h sink tracing s _ [] args

theorem agrees_construct (className : String) (args : List Expr) :
    Agrees gaps (construct ⟨table, sink, tracing⟩ s className args)
      (construct ⟨other, sink, tracing⟩ s className args) := by
  simp only [construct]
  rcases h.count className with hsame | ⟨hgaps, cause, herror⟩
  · rw [hsame]
    cases hcount : table.fieldCount className with
    | error cause => exact .inl rfl
    | ok count =>
        simp only [h.constructor className count hcount]
        split
        · exact agrees_evalArgs h sink tracing _ _ [] args
        · exact .inl rfl
  · rw [herror]
    exact .inr ⟨hgaps, _, rfl⟩

theorem agrees_eval (e : Expr) :
    Agrees gaps (eval ⟨table, sink, tracing⟩ s e) (eval ⟨other, sink, tracing⟩ s e) := by
  cases e with
  | newObject span className listed args => exact agrees_construct h sink tracing _ className args
  | call span receiver name listed args =>
      exact agrees_startCall h sink tracing _ receiver name args true
  | _ => exact .inl rfl

theorem agrees_exec (stmt : Stmt) :
    Agrees gaps (exec ⟨table, sink, tracing⟩ s stmt) (exec ⟨other, sink, tracing⟩ s stmt) := by
  cases stmt with
  | call span receiver name listed args =>
      exact agrees_startCall h sink tracing _ receiver name args false
  | _ => exact .inl rfl

theorem agrees_resume (v : Word) (p : Pending) :
    Agrees gaps (resume ⟨table, sink, tracing⟩ s v p) (resume ⟨other, sink, tracing⟩ s v p) := by
  cases p with
  | receive name args wantsValue => exact agrees_receive h sink tracing s v name args wantsValue
  | argument callee evaluated rest => exact agrees_evalArgs h sink tracing s callee _ rest
  | _ => exact .inl rfl

/-- Under a table that answers alike a step does the same. -/
theorem agrees_step : Agrees gaps (step ⟨table, sink, tracing⟩ s) (step ⟨other, sink, tracing⟩ s) := by
  obtain ⟨control, pending, store⟩ := s
  cases control with
  | expr e => exact agrees_eval h sink tracing ⟨.expr e, pending, store⟩ e
  | stmts stmts =>
      cases stmts with
      | nil => exact .inl rfl
      | cons stmt rest => exact agrees_exec h sink tracing _ stmt
  | value v =>
      cases pending with
      | nil => exact .inl rfl
      | cons p rest => exact agrees_resume h sink tracing ⟨.value v, rest, store⟩ v p
  | done | failed f => cases pending <;> exact .inl rfl

end Agrees

/-- How far a run has come after its steps decides what it ends in. -/
theorem run_eq_iterate (setting : Setting) (n : Nat) (s : State) :
    run setting n s =
      if ((step setting)^[n] s).isFinal then some ((step setting)^[n] s) else none := by
  apply Option.ext
  intro t
  rw [run_eq_some_iff, Option.ite_none_right_eq_some, Option.some.injEq]
  constructor
  · rintro ⟨rfl, hfinal⟩
    exact ⟨hfinal, rfl⟩
  · rintro ⟨hfinal, rfl⟩
    exact ⟨rfl, hfinal⟩

/-- A run under a table that answers alike is the same run, or it ends, if at all, in an unresolved
dispatch. -/
theorem run_agrees {gaps : Prop} {table other : ClassTable} (h : table.Answers gaps other)
    (sink : Sink) (tracing : Bool) (n : Nat) (s : State) :
    run ⟨other, sink, tracing⟩ n s = run ⟨table, sink, tracing⟩ n s ∨
      gaps ∧ ∀ final, run ⟨table, sink, tracing⟩ n s = some final →
        ∃ f, final.fault? = some f ∧ f.kind = .unresolvedDispatch := by
  let left : Setting := ⟨table, sink, tracing⟩
  let right : Setting := ⟨other, sink, tracing⟩
  have hstep (a b : State) (hab : b = a) : step right b = step left a ∨
      gaps ∧ ∃ text, (step left a).control = .failed (.fault (.raise .unresolvedDispatch text)) := by
    subst hab
    exact agrees_step h sink tracing b
  rcases iterate_together hstep (rfl : s = s) n with htogether | ⟨m, -, -, hgaps, text, hfailed⟩
  · left
    rw [run_eq_iterate, run_eq_iterate, htogether]
  · right
    refine ⟨hgaps, fun final hrun => ?_⟩
    rw [← Function.iterate_succ_apply' (step left)] at hfailed
    obtain ⟨f, hf, hsame⟩ :=
      same_of_reaches (reaches_of_run (run_iterate hrun (m + 1))) (State.fault?_of_failed hfailed)
    exact ⟨f, hf, hsame.1⟩

end Machine

namespace Interpreter

/-- With room for a frame, running commands under a table is a run of the machine. -/
theorem bind_runCommands (i : Interpreter) {stack : CallStack}
    (hpush : i.store.stack.push "" 0 [] 0 = .ok stack) (table : ClassTable) (steps : Nat)
    (commands : List Command) :
    (i.bind table).runCommands steps commands =
      match Machine.run ⟨table, i.sink, i.tracing⟩ steps
        ⟨.stmts (commands.map Command.toStmt), [], { i.store with stack := stack }⟩ with
      | none => (i.bind table, .outOfSteps)
      | some final => Setting.outcome ⟨table, i.sink, i.tracing⟩ final :=
  (i.bind table).runCommands_eq rfl hpush steps commands

/-- Running commands under a table that answers alike leaves the same store and ends in the same way,
or the run under the first table, if it ends, ends in an unresolved dispatch. -/
theorem runCommands_agrees {gaps : Prop} {table other : ClassTable} (h : table.Answers gaps other)
    (i : Interpreter) (steps : Nat) (commands : List Command) :
    let left := (i.bind table).runCommands steps commands
    let right := (i.bind other).runCommands steps commands
    (right.2 = left.2 ∧ right.1.store = left.1.store) ∨
      gaps ∧ (left.2 = .outOfSteps ∨ left.2.FailedWith .unresolvedDispatch) := by
  intro left right
  cases hpush : i.store.stack.push "" 0 [] 0 with
  | error f =>
      have hfails (t : ClassTable) :
          (i.bind t).runCommands steps commands = (i.bind t, .failed (.fault f)) := by
        simp only [runCommands, bind, hpush]
      left
      simp only [left, right, hfails, bind, and_self]
  | ok stack =>
      simp only [left, right, i.bind_runCommands hpush]
      generalize (⟨.stmts (commands.map Command.toStmt), [], { i.store with stack := stack }⟩ : State) =
        start
      rcases Machine.run_agrees h i.sink i.tracing steps start with hsame | ⟨hgaps, hunresolved⟩
      · left
        rw [hsame]
        cases Machine.run ⟨table, i.sink, i.tracing⟩ steps start <;> exact ⟨rfl, rfl⟩
      · right
        refine ⟨hgaps, ?_⟩
        cases hrun : Machine.run ⟨table, i.sink, i.tracing⟩ steps start with
        | none => exact .inl rfl
        | some final =>
            obtain ⟨f, hf, hkind⟩ := hunresolved final hrun
            obtain ⟨failure, hcontrol, hfault⟩ := State.failed_of_fault? hf
            refine .inr ⟨failure, f, ?_, hfault, hkind⟩
            change final.control.ending = _
            rw [hcontrol]
            rfl

end Interpreter

/-! ### The tables of two programs -/

section Programs

variable {p q : Program}

theorem Program.Distinct.partOf (hp : p.Distinct) (hq : q.Distinct)
    (htop : ∀ r ∈ p.topRoutines, r ∈ q.topRoutines)
    (hclasses : ∀ c ∈ p.classDecls, ∃ d ∈ q.classDecls, d.name = c.name ∧ c.info.Agrees d.info) :
    p.declarations.PartOf q.declarations := by
  constructor
  · intro name m hm
    obtain ⟨hmem, hname⟩ := hp.findMethod?_top.mp hm
    obtain ⟨r, hr, rfl⟩ := List.mem_map.mp hmem
    exact hq.findMethod?_top.mpr ⟨List.mem_map_of_mem (htop r hr), hname⟩
  · intro name info hinfo
    obtain ⟨hmem, rfl⟩ := hp.declared?.mp hinfo
    obtain ⟨c, hc, rfl⟩ := List.mem_map.mp hmem
    obtain ⟨d, hd, hname, hagrees⟩ := hclasses c hc
    exact ⟨d.info, hq.declared?.mpr ⟨List.mem_map_of_mem hd, hname⟩, hagrees⟩
  · have hnames : p.classDecls.map (·.name) ⊆ q.classDecls.map (·.name) := by
      intro name hname
      obtain ⟨c, hc, rfl⟩ := List.mem_map.mp hname
      obtain ⟨d, hd, hsame, -⟩ := hclasses c hc
      exact List.mem_map.mpr ⟨d, hd, hsame⟩
    simpa [declarations] using (hp.classes.subperm hnames).length_le

namespace Interpreter

/-- A program without diagnostics that is not kept from running is bound and run. -/
theorem evaluate_bound {keepLayout : Bool} (hdiagnostics : (ClassTable.build p).2 = [])
    (hlayout : keepLayout = true ∨ p.layoutErrors (ClassTable.build p).1 = []) (i : Interpreter)
    (steps : Nat) :
    i.evaluate steps keepLayout (some p) =
      (i.bind (boundTable keepLayout p)).runCommands steps p.commands := by
  cases keepLayout with
  | true => exact i.evaluate_kept hdiagnostics steps
  | false =>
      obtain hlayout : p.layoutErrors (ClassTable.build p).1 = [] := by simpa using hlayout
      exact i.evaluate_placed hdiagnostics hlayout steps

theorem boundTable_false (h : (ClassTable.build p).2 = []) :
    boundTable false p =
      (ClassTable.build p).1.mapRoutines (Layout.placeIn (ClassTable.build p).1) := by
  apply Layout.build_place
  intro decl hdecl
  exact ClassTable.isKnown_of_diagnostics h (Program.mem_classDecls.mpr hdecl)

theorem settled_boundTable (h : (ClassTable.build p).2 = []) (keepLayout : Bool) :
    (boundTable keepLayout p).Settled := by
  have hsettled := ClassTable.settled_build h
  cases keepLayout with
  | true => exact hsettled
  | false =>
      rw [boundTable_false h]
      exact hsettled.mapRoutines _

theorem partOf_boundTable (hp : (ClassTable.build p).2 = []) (hq : (ClassTable.build q).2 = [])
    (h : (ClassTable.build p).1.PartOf (ClassTable.build q).1) (keepLayout : Bool) :
    (boundTable keepLayout p).PartOf (boundTable keepLayout q) := by
  cases keepLayout with
  | true => exact h
  | false =>
      rw [boundTable_false hp, boundTable_false hq]
      exact h.place (ClassTable.settled_build hp) (ClassTable.owned_build p)

end Interpreter

end Programs

end ObjectLang
