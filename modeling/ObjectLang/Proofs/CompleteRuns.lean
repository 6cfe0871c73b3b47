import ObjectLang.Proofs.Decoding
import ObjectLang.Proofs.Memory
import ObjectLang.Proofs.PlacedTable
import ObjectLang.Proofs.Runs

/-! Runs of complete programs. Laying out a program keeps it complete, and so does every step of a
run: what is being done and what is still to be done is code of the program. A run therefore never
comes upon code that is missing, and while lines can be printed it fails only with a fault. -/

namespace ObjectLang

namespace Layout

variable (scope : Scope)

mutual

theorem complete_placeExpr (locals : List String) :
    (e : Expr) → e.Complete .any → (placeExpr scope locals e).Complete .any
  | .integer _ _, _ | .truth _ _, _ | .self _, _ | .var _ _, _ => trivial
  | .not _ operand, h => complete_placeExpr locals operand h
  | .isNull _ operand, h => complete_placeExpr locals operand h
  | .length _ array, h => complete_placeExpr locals array h
  | .newArray _ _ n, ⟨helem, hn⟩ => ⟨helem, complete_placeExpr locals n hn⟩
  | .binary _ _ left right, ⟨hop, hl, hr⟩ =>
      ⟨hop, complete_placeExpr locals left hl, complete_placeExpr locals right hr⟩
  | .index _ a i, ⟨ha, hi⟩ => ⟨complete_placeExpr locals a ha, complete_placeExpr locals i hi⟩
  | .newObject _ _ _ args, ⟨hlisted, hargs⟩ => by
      refine ⟨fun h => ?_, complete_placeExprs locals args hargs⟩
      rw [hlisted h]
      rfl
  | .call _ receiver _ _ args, ⟨hr, hlisted, hargs⟩ => by
      refine ⟨?_, fun h => ?_, complete_placeExprs locals args hargs⟩
      · rcases hr with rfl | hr
        · exact .inl rfl
        · exact .inr (complete_placeExpr locals receiver hr)
      · rw [hlisted h]
        rfl

theorem complete_placeExprs (locals : List String) :
    (es : List Expr) → Expr.AllComplete .any es → Expr.AllComplete .any (placeExprs scope locals es)
  | [], _ => trivial
  | e :: es, ⟨he, hes⟩ => ⟨complete_placeExpr locals e he, complete_placeExprs locals es hes⟩

end

mutual

theorem complete_placeStmt (locals : List String) :
    (s : Stmt) → s.Complete .any → (placeStmt scope locals s).Complete .any
  | .block b, h => complete_placeBlock locals b h
  | .declare _ _ _, h => h
  | .branch _ cond onTrue onFalse, ⟨hc, ht, hf⟩ =>
      ⟨complete_placeExpr scope locals cond hc, complete_placeBlock locals onTrue ht,
        complete_placeBlock locals onFalse hf⟩
  | .loop _ cond body, ⟨hc, hb⟩ =>
      ⟨complete_placeExpr scope locals cond hc, complete_placeBlock locals body hb⟩
  | .output _ value, h => complete_placeExpr scope locals value h
  | .assign _ _ value, ⟨_, hv⟩ => ⟨trivial, complete_placeExpr scope locals value hv⟩
  | .assignIndex _ array index value, ⟨ha, hi, hv⟩ =>
      ⟨complete_placeExpr scope locals array ha, complete_placeExpr scope locals index hi,
        complete_placeExpr scope locals value hv⟩
  | .call span receiver name listed args, h =>
      complete_placeExpr scope locals (.call span receiver name listed args) h

theorem complete_placeBlock (locals : List String) :
    (b : Block) → b.Complete .any → (placeBlock scope locals b).Complete .any
  | .mk _ _ body, ⟨hlisted, hbody⟩ => by
      refine ⟨fun h => ?_, complete_placeStmts locals body hbody⟩
      rw [hlisted h]
      rfl

theorem complete_placeStmts (locals : List String) :
    (ss : List Stmt) → Stmt.AllComplete .any ss → Stmt.AllComplete .any (placeStmts scope locals ss)
  | [], _ => trivial
  | s :: ss, ⟨hs, hss⟩ =>
      ⟨complete_placeStmt locals s hs, complete_placeStmts (locals ++ declared s) ss hss⟩

end

theorem complete_placeRoutine {r : Routine} (h : r.Complete .any) :
    (placeRoutine scope r).Complete .any := by
  refine ⟨h.paramsListed, h.params, fun hlisted => ?_, complete_placeStmts scope [] r.body h.body,
    ?_, trivial⟩
  · change placeStmts scope [] r.body = []
    rw [h.bodyListed hlisted]
    rfl
  · intro returns hreturns
    obtain ⟨plain, hplain, rfl⟩ := Option.map_eq_some_iff.mp hreturns
    obtain ⟨htype, hresult⟩ := h.returns plain hplain
    exact ⟨htype, complete_placeExpr scope _ plain.result hresult⟩

end Layout

theorem Listing.map {listed : Bool} {items : List α} (h : Listing listed items) (f : α → β) :
    Listing listed (items.map f) := by
  intro hlisted
  rw [h hlisted]
  rfl

theorem Routine.present_map {routines : List (Option Routine)} {f : Routine → Routine}
    (hf : ∀ r, r.Complete .any → (f r).Complete .any)
    (h : ∀ r ∈ routines, Routine.Present .any r) :
    ∀ r ∈ routines.map (Option.map f), Routine.Present .any r := by
  intro r hr
  obtain ⟨source, hsource, rfl⟩ := List.mem_map.mp hr
  obtain ⟨routine, rfl, hroutine⟩ := h source hsource
  exact ⟨f routine, rfl, hf routine hroutine⟩

theorem Layout.complete_placeClass (table : ClassTable) {decl : ClassDecl}
    (h : decl.Complete .any) : (placeClass table decl).Complete .any := by
  unfold placeClass
  split
  · exact ⟨h.fieldsListed, h.fields, h.methodsListed.map _,
      Routine.present_map (fun r hr => complete_placeRoutine _ hr) h.methods⟩
  · exact h

/-- A program stays complete when it is laid out. -/
theorem Program.Complete.place {p : Program} (h : p.Complete .any) (table : ClassTable) :
    (p.place table).Complete .any := by
  refine ⟨h.routinesListed.map _,
    Routine.present_map (fun r hr => Layout.complete_placeRoutine _ hr) h.routines,
    h.classesListed.map _, ?_, h.commandsListed, h.commands⟩
  intro c hc
  obtain ⟨source, hsource, rfl⟩ := List.mem_map.mp hc
  obtain ⟨decl, rfl, hdecl⟩ := h.classes source hsource
  exact ⟨_, rfl, Layout.complete_placeClass table hdecl⟩

/-- Nothing is missing in the methods of a table. -/
def ClassTable.Complete (table : ClassTable) : Prop := ∀ m ∈ table.methods, m.decl.Complete .any

theorem Routine.Present.complete {r : Routine} (h : Routine.Present .any (some r)) :
    r.Complete .any := by
  obtain ⟨routine, hr, hroutine⟩ := h
  cases hr
  exact hroutine

theorem Program.Complete.table {p : Program} (h : p.Complete .any) :
    (ClassTable.build p).1.Complete := by
  intro m hm
  rcases List.mem_append.mp hm with hm | hm
  · exact (h.routines _ (ClassTable.mem_collectMethods hm).2).complete
  · obtain ⟨info, hinfo, hm⟩ := List.mem_flatMap.mp hm
    obtain ⟨decl, hdecl, -, hmethods⟩ := ClassTable.mem_classes_build hinfo
    obtain ⟨_, ⟨⟩, hcomplete⟩ := h.classes _ hdecl
    rw [hmethods] at hm
    exact (hcomplete.methods _ (ClassTable.mem_collectMethods hm).2).complete

theorem Command.Complete.toStmt {c : Command} (h : c.Complete .any) : c.toStmt.Complete .any := by
  cases c with
  | call span name listed args => exact ⟨.inl rfl, h⟩
  | eval span e => exact h

/-- Nothing is missing in what is being done, and a failure is a fault. -/
def Control.Complete : Control → Prop
  | .expr e => e.Complete .any
  | .stmts body => Stmt.AllComplete .any body
  | .value _ | .done => True
  | .failed failure => ∃ fault, failure = .fault fault

/-- Nothing is missing in a routine to be called; a method is looked up when it is called. -/
def Callee.Complete : Callee → Prop
  | .routine m _ _ => m.decl.Complete .any
  | .method _ _ _ _ => True

def Pending.Complete : Pending → Prop
  | .rightOperand _ right => right.Complete .any
  | .indexOf index => index.Complete .any
  | .receive _ args _ => Expr.AllComplete .any args
  | .argument callee _ rest => callee.Complete ∧ Expr.AllComplete .any rest
  | .activation value => ∀ e, value = some e → e.Complete .any
  | .next _ rest => Stmt.AllComplete .any rest
  | .choose onTrue onFalse => onTrue.Complete .any ∧ onFalse.Complete .any
  | .test cond body | .again cond body => cond.Complete .any ∧ body.Complete .any
  | .assignIndexOf index value => index.Complete .any ∧ value.Complete .any
  | .assignValueOf _ value => value.Complete .any
  | .locate _ | .negate | .testNull | .combine _ _ | .readAt _ | .measure | .makeArray _
  | .constructed _ _ | .result | .print | .assign _ | .writeAt _ _ | .discard => True

structure State.Complete (s : State) : Prop where
  control : s.control.Complete
  pending : ∀ p ∈ s.pending, p.Complete

/-! ### Steps keep states complete -/

namespace Machine

variable {setting : Setting} {s : State}

theorem complete_goto (hs : ∀ p ∈ s.pending, p.Complete) {control : Control}
    (h : control.Complete) : (s.goto control).Complete := ⟨h, hs⟩

theorem complete_push (hs : ∀ p ∈ s.pending, p.Complete) (p : Pending) (hp : p.Complete)
    {e : Expr} (he : e.Complete .any) : (s.push p (.expr e)).Complete :=
  ⟨he, List.forall_mem_cons.mpr ⟨hp, hs⟩⟩

theorem complete_fault (hs : ∀ p ∈ s.pending, p.Complete) (f : Fault) :
    (s.fail (.fault f)).Complete := ⟨⟨f, rfl⟩, hs⟩

theorem complete_yield (hs : ∀ p ∈ s.pending, p.Complete) (r : Except Fault Word) :
    (s.yield r).Complete := by
  cases r with
  | error f => exact complete_fault hs f
  | ok v => exact complete_goto hs trivial

theorem complete_writeVar (hs : ∀ p ∈ s.pending, p.Complete) (v : Var) (value : Word) :
    (writeVar s v value).Complete := by
  unfold writeVar
  split
  · split
    · exact complete_fault hs _
    · exact ⟨trivial, hs⟩
  · split
    · exact complete_fault hs _
    · exact ⟨trivial, hs⟩
  · exact complete_fault hs _

theorem complete_writeAt (hs : ∀ p ∈ s.pending, p.Complete) (ref index value : Word) :
    (writeAt s ref index value).Complete := by
  unfold writeAt
  split
  · exact complete_fault hs _
  · exact ⟨trivial, hs⟩

theorem complete_constructed (hs : ∀ p ∈ s.pending, p.Complete) (className : String)
    (ref : Word) : (constructed setting s className ref).Complete := by
  unfold constructed
  split
  · split
    · exact ⟨trivial, hs⟩
    · exact complete_goto hs trivial
  · exact complete_goto hs trivial

theorem complete_enter (hs : ∀ p ∈ s.pending, p.Complete) {m : Method}
    (hm : m.decl.Complete .any) (self : Word) (args : List Word) (wantsValue : Bool) :
    (enter s m self args wantsValue).Complete := by
  unfold enter
  dsimp only
  split
  · exact complete_fault hs _
  · split
    · exact complete_fault hs _
    · split
      · exact complete_fault hs _
      · refine ⟨hm.body, List.forall_mem_cons.mpr ⟨?_, hs⟩⟩
        intro e he
        split at he
        · obtain ⟨returns, hreturns, rfl⟩ := Option.map_eq_some_iff.mp he
          exact (hm.returns returns hreturns).2
        · cases he

section Table

variable (htable : setting.table.Complete)
include htable

theorem complete_call (hs : ∀ p ∈ s.pending, p.Complete) (args : List Word) {callee : Callee}
    (hcallee : callee.Complete) : (call setting s args callee).Complete := by
  cases callee with
  | routine m self wantsValue => exact complete_enter hs hcallee self args wantsValue
  | method className name self wantsValue =>
      unfold call
      dsimp only
      split
      · exact complete_fault hs _
      · next m hm =>
          exact complete_enter hs (htable m (ClassTable.lookup?_cases hm).1) self args wantsValue

theorem complete_evalArgs (hs : ∀ p ∈ s.pending, p.Complete) (callee : Callee)
    (hcallee : callee.Complete) (evaluated : List Word) {args : List Expr}
    (hargs : Expr.AllComplete .any args) :
    (evalArgs setting s callee evaluated args).Complete := by
  cases args with
  | nil => exact complete_call htable hs _ hcallee
  | cons e rest =>
      exact complete_push hs (.argument callee evaluated rest) ⟨hcallee, hargs.2⟩ hargs.1

theorem complete_startCall (hs : ∀ p ∈ s.pending, p.Complete) {receiver : Expr}
    (hreceiver : receiver = .missing ∨ receiver.Complete .any) (name : String) {args : List Expr}
    (hargs : Expr.AllComplete .any args) (wantsValue : Bool) :
    (startCall setting s receiver name args wantsValue).Complete := by
  rcases hreceiver with rfl | hreceiver
  · unfold startCall callTop
    dsimp only
    split
    · exact complete_fault hs _
    · next m hm =>
        exact complete_evalArgs htable hs (.routine m 0 wantsValue)
          (htable m (ClassTable.mem_methods_of_top hm).2) [] hargs
  · cases receiver with
    | missing => exact hreceiver.elim
    | _ => exact complete_push hs (.receive name args wantsValue) hargs hreceiver

theorem complete_receive (hs : ∀ p ∈ s.pending, p.Complete) (ref : Word) (name : String)
    {args : List Expr} (hargs : Expr.AllComplete .any args) (wantsValue : Bool) :
    (receive setting s ref name args wantsValue).Complete := by
  unfold receive
  split
  · exact complete_fault hs _
  · split
    · exact complete_fault hs _
    · next o _ =>
        exact complete_evalArgs htable hs (.method o.type name ref wantsValue) trivial [] hargs

theorem complete_construct (hs : ∀ p ∈ s.pending, p.Complete) (className : String)
    {args : List Expr} (hargs : Expr.AllComplete .any args) :
    (construct setting s className args).Complete := by
  unfold construct
  split
  · exact complete_fault hs _
  · next count _ =>
      let heap := s.store.heap.addInstance count className
      let grown : State := { s with store.heap := heap }
      dsimp only
      split
      · next m hm =>
          let waiting : State :=
            { grown with pending := .constructed className heap.lastAddress.toWord :: s.pending }
          exact complete_evalArgs (s := waiting) htable (List.forall_mem_cons.mpr ⟨trivial, hs⟩)
            (.routine m heap.lastAddress.toWord false) (htable m (ClassTable.lookup?_cases hm).1) []
            hargs
      · split
        · exact complete_constructed (s := grown) hs className _
        · exact complete_fault (s := grown) hs _

theorem complete_eval (hs : ∀ p ∈ s.pending, p.Complete) {e : Expr} (he : e.Complete .any) :
    (eval setting s e).Complete := by
  have hlocated : ∀ p ∈ Pending.locate e.span :: s.pending, p.Complete :=
    List.forall_mem_cons.mpr ⟨trivial, hs⟩
  cases e with
  | missing => exact he.elim
  | integer span value => exact ⟨trivial, hlocated⟩
  | truth span value => exact ⟨trivial, hlocated⟩
  | var span v => exact complete_yield hlocated _
  | self span => exact complete_yield hlocated _
  | not span operand => exact complete_push hlocated .negate trivial he
  | isNull span operand => exact complete_push hlocated .testNull trivial he
  | binary span op left right => exact complete_push hlocated (.rightOperand op right) he.2.2 he.2.1
  | index span array index => exact complete_push hlocated (.indexOf index) he.2 he.1
  | length span array => exact complete_push hlocated .measure trivial he
  | newArray span elem n => exact complete_push hlocated (.makeArray elem) trivial he.2
  | newObject span className listed args =>
      exact complete_construct htable hlocated className he.2
  | call span receiver name listed args =>
      exact complete_startCall htable hlocated he.1 name he.2.2 true

theorem complete_exec (hs : ∀ p ∈ s.pending, p.Complete) {stmt : Stmt}
    (h : stmt.Complete .any) : (exec setting s stmt).Complete := by
  cases stmt with
  | missing => exact h.elim
  | block b => exact complete_goto hs h.body
  | declare span type name => exact complete_goto hs trivial
  | branch span cond onTrue onFalse => exact complete_push hs (.choose onTrue onFalse) h.2 h.1
  | loop span cond body => exact complete_push hs (.test cond body) h h.1
  | output span value => exact complete_push hs .print trivial h
  | assign span v value => exact complete_push hs (.assign v) trivial h.2
  | assignIndex span array index value =>
      exact complete_push hs (.assignIndexOf index value) h.2 h.1
  | call span receiver name listed args =>
      have hdiscard : ∀ p ∈ Pending.discard :: s.pending, p.Complete :=
        List.forall_mem_cons.mpr ⟨trivial, hs⟩
      exact complete_startCall htable hdiscard h.1 name h.2.2 false

theorem complete_execAll (hs : ∀ p ∈ s.pending, p.Complete) {stmts : List Stmt}
    (h : Stmt.AllComplete .any stmts) : (execAll setting s stmts).Complete := by
  cases stmts with
  | nil => exact complete_goto hs trivial
  | cons stmt rest =>
      have hnext : ∀ p ∈ Pending.next stmt.span rest :: s.pending, p.Complete :=
        List.forall_mem_cons.mpr ⟨h.2, hs⟩
      exact complete_exec htable hnext h.1

theorem complete_resume (hsink : setting.sink = .unlimited) (hs : ∀ p ∈ s.pending, p.Complete)
    (v : Word) {p : Pending} (hp : p.Complete) : (resume setting s v p).Complete := by
  cases p with
  | rightOperand op right => exact complete_push hs (.combine op v) trivial hp
  | combine op left => exact complete_yield hs _
  | indexOf index =>
      unfold resume
      dsimp only
      split
      · exact complete_fault hs _
      · exact complete_push hs (.readAt v) trivial hp
  | readAt ref => exact complete_yield hs _
  | measure => exact complete_yield hs _
  | makeArray elem =>
      unfold resume
      dsimp only
      split
      · exact complete_fault hs _
      · exact ⟨trivial, hs⟩
  | receive name args wantsValue => exact complete_receive htable hs v name hp wantsValue
  | argument callee evaluated rest => exact complete_evalArgs htable hs callee hp.1 _ hp.2
  | constructed className ref => exact complete_constructed hs className ref
  | choose onTrue onFalse =>
      refine complete_goto hs ?_
      change Stmt.AllComplete .any _
      split
      · exact hp.1.body
      · exact hp.2.body
  | test cond body =>
      unfold resume
      dsimp only
      split
      · exact ⟨hp.2.body, List.forall_mem_cons.mpr ⟨hp, hs⟩⟩
      · exact complete_goto hs trivial
  | print =>
      unfold resume print
      rw [hsink]
      exact ⟨trivial, hs⟩
  | assign var => exact complete_writeVar hs var v
  | assignIndexOf index value =>
      unfold resume
      dsimp only
      split
      · exact complete_fault hs _
      · exact complete_push hs (.assignValueOf v value) hp.2 hp.1
  | assignValueOf ref value => exact complete_push hs (.writeAt ref v) trivial hp
  | writeAt ref index => exact complete_writeAt hs ref index v
  | locate _ | negate | testNull | result | activation _ | next _ _ | again _ _ | discard =>
      exact ⟨trivial, hs⟩

omit htable in
theorem complete_proceed (hs : ∀ p ∈ s.pending, p.Complete) {p : Pending} (hp : p.Complete) :
    (proceed s p).Complete := by
  cases p with
  | next span rest => exact complete_goto hs hp
  | again cond body => exact complete_push hs (.test cond body) hp hp.1
  | activation result =>
      cases result with
      | none => exact ⟨trivial, hs⟩
      | some e => exact complete_push hs .result trivial (hp e rfl)
  | _ => exact ⟨trivial, hs⟩

omit htable in
theorem complete_unwind (hs : ∀ p ∈ s.pending, p.Complete) (f : Fault) (p : Pending) :
    (unwind s (.fault f) p).Complete := by
  cases p <;> exact ⟨⟨_, rfl⟩, hs⟩

/-- One step keeps a state complete, where every line can be printed. -/
theorem complete_step (hsink : setting.sink = .unlimited) (h : s.Complete) :
    (step setting s).Complete := by
  obtain ⟨control, pending, store⟩ := s
  obtain ⟨hcontrol, hpending⟩ := h
  cases control with
  | expr e => exact complete_eval htable hpending hcontrol
  | stmts stmts => exact complete_execAll htable hpending hcontrol
  | value v =>
      cases pending with
      | nil => exact ⟨trivial, hpending⟩
      | cons p pending =>
          obtain ⟨hp, hrest⟩ := List.forall_mem_cons.mp hpending
          exact complete_resume htable hsink hrest v hp
  | done =>
      cases pending with
      | nil => exact ⟨trivial, hpending⟩
      | cons p pending =>
          obtain ⟨hp, hrest⟩ := List.forall_mem_cons.mp hpending
          exact complete_proceed hrest hp
  | failed failure =>
      obtain ⟨f, rfl⟩ := hcontrol
      cases pending with
      | nil => exact ⟨⟨f, rfl⟩, hpending⟩
      | cons p pending =>
          obtain ⟨-, hrest⟩ := List.forall_mem_cons.mp hpending
          exact complete_unwind hrest f p

end Table

end Machine

/-! ### Runs of decoded programs -/

namespace Interpreter

variable {i : Interpreter} {table : ClassTable} {commands : List Command} {s : State}

/-- Every state of a run of complete commands against a complete table is complete. -/
theorem Runs.complete (h : i.Runs commands s) (hi : i.table = some table) (htable : table.Complete)
    (hsink : i.sink = .unlimited) (hcommands : ∀ c ∈ commands, c.Complete .any) : s.Complete := by
  obtain ⟨_, stack, hbound, -, hreaches⟩ := h
  cases hi.symm.trans hbound
  refine hreaches.invariant (P := State.Complete)
    (fun t ht => Machine.complete_step htable hsink ht) ⟨?_, List.forall_mem_nil _⟩
  refine Stmt.allComplete_iff.mpr fun stmt hstmt => ?_
  obtain ⟨c, hc, rfl⟩ := List.mem_map.mp hstmt
  exact (hcommands c hc).toStmt

/-- A final state that is complete is no failure but a fault. -/
theorem ending_of_complete (h : s.Complete) :
    s.control.ending = .finished ∨ ∃ fault, s.control.ending = .failed (.fault fault) := by
  obtain ⟨control, pending, store⟩ := s
  cases control with
  | failed failure =>
      obtain ⟨fault, rfl⟩ := h.control
      exact .inr ⟨fault, rfl⟩
  | _ => exact .inl rfl

/-- A run of a complete program on a fresh interpreter that prints every line succeeds or ends in a
fault, if it ends. -/
theorem ending_of_program {q : Program} (hq : q.Complete .any) (limit : Int) (tracing : Bool)
    (steps : Nat) :
    let ending := (((fresh limit .unlimited tracing).bind (ClassTable.build q).1).runCommands steps
      q.commands).2
    ending = .outOfSteps ∨ ending = .finished ∨ ∃ fault, ending = .failed (.fault fault) := by
  obtain ⟨stack, hpush⟩ := CallStack.push_empty limit "" 0 [] 0
  let i := (fresh limit .unlimited tracing).bind (ClassTable.build q).1
  rcases runCommands_ending i rfl hpush steps q.commands with h | ⟨final, hruns, -, h⟩
  · exact .inl h
  · have hcomplete := hruns.complete rfl hq.table rfl hq.commands
    intro ending
    change ending = _ at h
    rw [h]
    exact .inr (ending_of_complete hcomplete)

end Interpreter

/-- **Decoded programs run.** A program that was read from a document is complete, and its literals
are the numbers of the document. On a fresh interpreter that prints every line, as it stands or laid
out, no state of its run has come upon missing code. Evaluating it ends, if it ends, with the
diagnostics if there are any, else with the layout errors if there are any and layout was asked for,
else in success or a fault. -/
theorem decoded_program_runs {document : List (String × Document)} {p : Program}
    (h : Program.ofFields document = .ok p) :
    p.Complete .none ∧
    (∀ fields span value,
      Decode.node (Document.fieldReadings fields) = .ok (.expr (.integer span value)) →
      (Document.field fields "value").toInt = .ok value.toInt) ∧
    ∀ (limit : Int) (tracing : Bool),
      let i := Interpreter.fresh limit .unlimited tracing
      let table := (ClassTable.build p).1
      let diagnostics := (ClassTable.build p).2
      let errors := p.layoutErrors table
      (∀ q, q = p ∨ q = p.place table →
        ∀ s, (i.bind (ClassTable.build q).1).Runs q.commands s → s.Complete) ∧
      ∀ (steps : Nat) (keepLayout : Bool),
        let ending := (i.evaluate steps keepLayout (some p)).2
        (diagnostics ≠ [] → ending = .rejected diagnostics) ∧
        (diagnostics = [] → keepLayout = false → errors ≠ [] →
          ending = .failed (.plain (LayoutError.messages errors))) ∧
        (diagnostics = [] → (keepLayout = true ∨ errors = []) →
          ending = .outOfSteps ∨ ending = .finished ∨
            ∃ fault, ending = .failed (.fault fault)) := by
  have hany : p.Complete .any := Program.complete_of_ofFields Annotations.optional_any h
  refine ⟨Program.complete_of_ofFields Annotations.optional_none h,
    fun fields span value hliteral => Decode.toInt_of_node hliteral, ?_⟩
  intro limit tracing i table diagnostics errors
  have hcomplete : ∀ q, q = p ∨ q = p.place table → q.Complete .any := by
    rintro q (rfl | rfl)
    · exact hany
    · exact hany.place table
  refine ⟨fun q hq s hs =>
    hs.complete rfl (hcomplete q hq).table rfl (hcomplete q hq).commands, ?_⟩
  intro steps keepLayout ending
  refine ⟨fun hdiagnostics => ?_, fun hdiagnostics hlayout herrors => ?_,
    fun hdiagnostics hlayout => ?_⟩
  · exact congrArg Prod.snd (i.evaluate_rejected hdiagnostics steps keepLayout)
  · subst hlayout
    exact congrArg Prod.snd (i.evaluate_unplaced hdiagnostics herrors steps)
  · cases keepLayout with
    | true =>
        have hending : ending = _ := congrArg Prod.snd (i.evaluate_kept hdiagnostics steps)
        rw [hending]
        exact Interpreter.ending_of_program hany limit tracing steps
    | false =>
        have herrors : errors = [] := hlayout.resolve_left (by decide)
        have hending : ending = _ :=
          congrArg Prod.snd (i.evaluate_placed hdiagnostics herrors steps)
        rw [hending]
        exact Interpreter.ending_of_program (hany.place table) limit tracing steps

/-- A procedure that divides by zero in a branch without a second block, and its call. -/
def divisionDocument : List (String × Document) :=
  [("type", .text "Program"),
    ("routines", .list [.object [("type", .text "ProcDecl"), ("name", .text "main"),
      ("body", .list [.object [("type", .text "StmIf"),
        ("cond", .object [("type", .text "ExpTrue")]),
        ("then", .list [.object [("type", .text "StmOutput"), ("expr", .object
          [("type", .text "ExpOp"), ("op", .text "/"),
            ("left", .object [("type", .text "ExpInteger"), ("value", .integer 1)]),
            ("right", .object [("type", .text "ExpInteger"), ("value", .integer 0)])])]])]])]]),
    ("commands", .list [.object [("type", .text "ICall"), ("name", .text "main")]])]

/-- What `divisionDocument` is read as. -/
def divisionProgram : Program :=
  ⟨.unknown, true, [some ⟨.unknown, "main", true, [], true,
    [.branch .unknown (.truth .unknown true)
      (.mk .unknown true [.output .unknown
        (.binary .unknown "/" (.integer .unknown 1) (.integer .unknown 0))])
      (.mk .unknown false [])], none, 0⟩], true, [], true, [.call .unknown "main" true []]⟩

theorem decoded_program_runs_division :
    Program.ofFields divisionDocument = .ok divisionProgram ∧
    divisionProgram.Complete .none ∧
    ((Interpreter.fresh 10 .unlimited false).evaluate 40 false (some divisionProgram)).2 =
      .failed (.fault ⟨.divisionByZero, "division by zero is undefined", .unknown,
        some ["main (self=0)", "<root> (self=0)"]⟩) ∧
    ∀ steps, ((Interpreter.fresh 10 .unlimited false).evaluate steps false
        (some divisionProgram)).2 = .outOfSteps ∨
      ((Interpreter.fresh 10 .unlimited false).evaluate steps false
        (some divisionProgram)).2 = .finished ∨
      ∃ fault, ((Interpreter.fresh 10 .unlimited false).evaluate steps false
        (some divisionProgram)).2 = .failed (.fault fault) := by
  have hdecoded : Program.ofFields divisionDocument = .ok divisionProgram := by rfl
  obtain ⟨hcomplete, -, hruns⟩ := decoded_program_runs hdecoded
  refine ⟨hdecoded, hcomplete, by decide +kernel, fun steps => ?_⟩
  exact ((hruns 10 false).2 steps false).2.2 (by decide +kernel) (.inr (by decide +kernel))

end ObjectLang
