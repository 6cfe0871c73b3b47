import ObjectLang.Layout
import ObjectLang.Syntax.Node

/-! Whole trees. A tree is complete if nothing that its place asks for is missing: only the receiver
of a call may be left out, and a list that is not listed has no items. What layout leaves in a tree,
the slots of variables and the slot counts of routines, can be asked for and changed everywhere at
once, and so can whether lists are listed. -/

namespace ObjectLang

/-- What is asked of the annotations in a tree: of the slots of its variables, and of the slot
counts of its routines. -/
structure Annotations where
  slot : Slot → Prop
  count : Nat → Prop

def Annotations.any : Annotations := ⟨fun _ => True, fun _ => True⟩

/-- There are no annotations: no variable has a slot, and no routine has slots. -/
def Annotations.none : Annotations := ⟨(· = .unresolved), (· = 0)⟩

/-- There may be no annotations. -/
def Annotations.Optional (A : Annotations) : Prop := A.slot .unresolved ∧ A.count 0

theorem Annotations.optional_any : Annotations.any.Optional := ⟨trivial, trivial⟩

theorem Annotations.optional_none : Annotations.none.Optional := ⟨rfl, rfl⟩

/-- A list that is not listed is empty. -/
def Listing (listed : Bool) (items : List α) : Prop := listed = false → items = []

/-- Nothing is missing in a type. -/
def TypeName.Complete : TypeName → Prop
  | .missing => False
  | .int _ | .boolean _ | .named _ _ => True
  | .array _ elem => elem.Complete

section Complete

variable (A : Annotations)

mutual

/-- Nothing is missing in an expression but receivers. -/
def Expr.Complete : Expr → Prop
  | .missing => False
  | .integer _ _ | .truth _ _ | .self _ => True
  | .var _ v => A.slot v.slot
  | .not _ operand => operand.Complete
  | .isNull _ operand => operand.Complete
  | .binary _ op left right => op ≠ "" ∧ left.Complete ∧ right.Complete
  | .index _ a i => a.Complete ∧ i.Complete
  | .length _ array => array.Complete
  | .newArray _ elem n => elem.Complete ∧ n.Complete
  | .newObject _ _ listed args => Listing listed args ∧ Expr.AllComplete args
  | .call _ receiver _ listed args =>
    (receiver = .missing ∨ receiver.Complete) ∧ Listing listed args ∧ Expr.AllComplete args

def Expr.AllComplete : List Expr → Prop
  | [] => True
  | e :: es => e.Complete ∧ Expr.AllComplete es

end

mutual

def Stmt.Complete : Stmt → Prop
  | .missing => False
  | .block b => b.Complete
  | .declare _ type _ => type.Complete
  | .branch _ cond onTrue onFalse => cond.Complete A ∧ onTrue.Complete ∧ onFalse.Complete
  | .loop _ cond body => cond.Complete A ∧ body.Complete
  | .output _ value => value.Complete A
  | .assign _ v value => A.slot v.slot ∧ value.Complete A
  | .assignIndex _ array index value => array.Complete A ∧ index.Complete A ∧ value.Complete A
  | .call _ receiver _ listed args =>
    (receiver = .missing ∨ receiver.Complete A) ∧ Listing listed args ∧ Expr.AllComplete A args

/-- A block is there, and nothing is missing in it. -/
def Block.Complete : Block → Prop
  | .absent => False
  | .mk _ listed body => Listing listed body ∧ Stmt.AllComplete body

def Stmt.AllComplete : List Stmt → Prop
  | [] => True
  | s :: ss => s.Complete ∧ Stmt.AllComplete ss

end

def Returns.Complete (r : Returns) : Prop := r.type.Complete ∧ r.result.Complete A

structure Routine.Complete (r : Routine) : Prop where
  paramsListed : Listing r.paramsListed r.params
  params : ∀ p ∈ r.params, p.type.Complete
  bodyListed : Listing r.bodyListed r.body
  body : Stmt.AllComplete A r.body
  returns : ∀ returns, r.returns = some returns → returns.Complete A
  count : A.count r.stackSlots

/-- A routine is there, and nothing is missing in it. -/
def Routine.Present (r : Option Routine) : Prop := ∃ routine, r = some routine ∧ routine.Complete A

structure ClassDecl.Complete (c : ClassDecl) : Prop where
  fieldsListed : Listing c.fieldsListed c.fields
  fields : ∀ f ∈ c.fields, f.type.Complete
  methodsListed : Listing c.methodsListed c.methods
  methods : ∀ m ∈ c.methods, Routine.Present A m

def ClassDecl.Present (c : Option ClassDecl) : Prop := ∃ decl, c = some decl ∧ decl.Complete A

def Command.Complete : Command → Prop
  | .call _ _ listed args => Listing listed args ∧ Expr.AllComplete A args
  | .eval _ e => e.Complete A

/-- Nothing is missing in a program. -/
structure Program.Complete (p : Program) : Prop where
  routinesListed : Listing p.routinesListed p.routines
  routines : ∀ r ∈ p.routines, Routine.Present A r
  classesListed : Listing p.classesListed p.classes
  classes : ∀ c ∈ p.classes, ClassDecl.Present A c
  commandsListed : Listing p.commandsListed p.commands
  commands : ∀ c ∈ p.commands, c.Complete A

end Complete

section Lists

variable {A : Annotations}

theorem Block.Complete.body {b : Block} (h : b.Complete A) : Stmt.AllComplete A b.body := by
  cases b with
  | absent => exact h.elim
  | mk span listed body => exact h.2

theorem Expr.allComplete_iff {es : List Expr} :
    Expr.AllComplete A es ↔ ∀ e ∈ es, e.Complete A := by
  induction es with
  | nil => simp [Expr.AllComplete]
  | cons e es ih => rw [Expr.AllComplete, ih, List.forall_mem_cons]

theorem Stmt.allComplete_iff {ss : List Stmt} :
    Stmt.AllComplete A ss ↔ ∀ s ∈ ss, s.Complete A := by
  induction ss with
  | nil => simp [Stmt.AllComplete]
  | cons s ss ih => rw [Stmt.AllComplete, ih, List.forall_mem_cons]

end Lists

def TypeName.spans : TypeName → List Span
  | .missing => []
  | .int span | .boolean span | .named span _ => [span]
  | .array span elem => span :: elem.spans

mutual

def Expr.spans : Expr → List Span
  | .missing => []
  | .integer span _ | .truth span _ | .self span => [span]
  | .var span v => [span, v.span]
  | .not span operand => span :: operand.spans
  | .isNull span operand => span :: operand.spans
  | .binary span _ left right => span :: (left.spans ++ right.spans)
  | .index span a i => span :: (a.spans ++ i.spans)
  | .length span a => span :: a.spans
  | .newArray span elem n => span :: (elem.spans ++ n.spans)
  | .newObject span _ _ args => span :: Expr.allSpans args
  | .call span receiver _ _ args => span :: (receiver.spans ++ Expr.allSpans args)

def Expr.allSpans : List Expr → List Span
  | [] => []
  | e :: es => e.spans ++ Expr.allSpans es

end

mutual

def Stmt.spans : Stmt → List Span
  | .missing => []
  | .block b => b.spans
  | .declare span type _ => span :: type.spans
  | .branch span cond onTrue onFalse => span :: (cond.spans ++ (onTrue.spans ++ onFalse.spans))
  | .loop span cond body => span :: (cond.spans ++ body.spans)
  | .output span value => span :: value.spans
  | .assign span v value => span :: v.span :: value.spans
  | .assignIndex span array index value =>
    span :: (array.spans ++ (index.spans ++ value.spans))
  | .call span receiver _ _ args => span :: (receiver.spans ++ Expr.allSpans args)

def Block.spans : Block → List Span
  | .absent => []
  | .mk span _ body => span :: Stmt.allSpans body

def Stmt.allSpans : List Stmt → List Span
  | [] => []
  | s :: ss => s.spans ++ Stmt.allSpans ss

end

def Param.spans (p : Param) : List Span := p.span :: p.type.spans

def Field.spans (f : Field) : List Span := f.span :: f.type.spans

def Returns.spans (r : Returns) : List Span := r.type.spans ++ r.result.spans

def Routine.spans (r : Routine) : List Span :=
  r.span :: (r.params.flatMap Param.spans ++
    (Stmt.allSpans r.body ++ r.returns.toList.flatMap Returns.spans))

def ClassDecl.spans (c : ClassDecl) : List Span :=
  c.span :: (c.fields.flatMap Field.spans ++ (c.methods.filterMap id).flatMap Routine.spans)

def Command.spans : Command → List Span
  | .call span _ _ args => span :: Expr.allSpans args
  | .eval span e => span :: e.spans

def Program.spans (p : Program) : List Span :=
  p.span :: ((p.routines.filterMap id).flatMap Routine.spans ++
    ((p.classes.filterMap id).flatMap ClassDecl.spans ++ p.commands.flatMap Command.spans))

/-- A change of what layout leaves in a tree and of whether its lists are listed. -/
structure Change where
  slot : Slot → Slot
  count : Nat → Nat
  listed : Bool → Bool

def Change.list : Change := ⟨id, id, fun _ => true⟩

/-- Clears the annotations and lists every list. -/
def Change.clear : Change := ⟨fun _ => .unresolved, fun _ => 0, fun _ => true⟩

section Change

variable (c : Change)

def Var.change (v : Var) : Var := { v with slot := c.slot v.slot }

mutual

def Expr.change : Expr → Expr
  | .missing => .missing
  | .integer span value => .integer span value
  | .truth span value => .truth span value
  | .var span v => .var span (v.change c)
  | .self span => .self span
  | .not span operand => .not span operand.change
  | .isNull span operand => .isNull span operand.change
  | .binary span op left right => .binary span op left.change right.change
  | .index span a i => .index span a.change i.change
  | .length span array => .length span array.change
  | .newArray span elem n => .newArray span elem n.change
  | .newObject span className listed args =>
    .newObject span className (c.listed listed) (Expr.changeAll args)
  | .call span receiver name listed args =>
    .call span receiver.change name (c.listed listed) (Expr.changeAll args)

def Expr.changeAll : List Expr → List Expr
  | [] => []
  | e :: es => e.change :: Expr.changeAll es

end

mutual

def Stmt.change : Stmt → Stmt
  | .missing => .missing
  | .block b => .block b.change
  | .declare span type name => .declare span type name
  | .branch span cond onTrue onFalse => .branch span (cond.change c) onTrue.change onFalse.change
  | .loop span cond body => .loop span (cond.change c) body.change
  | .output span value => .output span (value.change c)
  | .assign span v value => .assign span (v.change c) (value.change c)
  | .assignIndex span array index value =>
    .assignIndex span (array.change c) (index.change c) (value.change c)
  | .call span receiver name listed args =>
    .call span (receiver.change c) name (c.listed listed) (Expr.changeAll c args)

def Block.change : Block → Block
  | .absent => .absent
  | .mk span listed body => .mk span (c.listed listed) (Stmt.changeAll body)

def Stmt.changeAll : List Stmt → List Stmt
  | [] => []
  | s :: ss => s.change :: Stmt.changeAll ss

end

theorem Expr.changeAll_eq_map (es : List Expr) : Expr.changeAll c es = es.map (Expr.change c) := by
  induction es with
  | nil => rfl
  | cons e es ih => rw [Expr.changeAll, ih, List.map_cons]

theorem Stmt.changeAll_eq_map (ss : List Stmt) : Stmt.changeAll c ss = ss.map (Stmt.change c) := by
  induction ss with
  | nil => rfl
  | cons s ss ih => rw [Stmt.changeAll, ih, List.map_cons]

theorem Expr.change_ne_missing {A : Annotations} {e : Expr} (h : e.Complete A) :
    e.change c ≠ .missing := by
  cases e with
  | missing => exact h.elim
  | _ => exact Expr.noConfusion

def Returns.change (r : Returns) : Returns := { r with result := r.result.change c }

def Routine.change (r : Routine) : Routine :=
  { r with
    paramsListed := c.listed r.paramsListed
    bodyListed := c.listed r.bodyListed
    body := Stmt.changeAll c r.body
    returns := r.returns.map (Returns.change c)
    stackSlots := c.count r.stackSlots }

def ClassDecl.change (decl : ClassDecl) : ClassDecl :=
  { decl with
    fieldsListed := c.listed decl.fieldsListed
    methodsListed := c.listed decl.methodsListed
    methods := decl.methods.map (Option.map (Routine.change c)) }

def Command.change : Command → Command
  | .call span name listed args => .call span name (c.listed listed) (Expr.changeAll c args)
  | .eval span e => .eval span (e.change c)

def Program.change (p : Program) : Program :=
  { p with
    routinesListed := c.listed p.routinesListed
    routines := p.routines.map (Option.map (Routine.change c))
    classesListed := c.listed p.classesListed
    classes := p.classes.map (Option.map (ClassDecl.change c))
    commandsListed := c.listed p.commandsListed
    commands := p.commands.map (Command.change c) }

end Change

/-! ### Trees without annotations -/

/-- Where there are no annotations, clearing them does nothing. -/
theorem Var.change_clear {v : Var} (h : v.slot = .unresolved) :
    v.change .clear = v.change .list := by
  simp [Var.change, Change.clear, Change.list, h]

mutual

theorem Expr.change_clear : (e : Expr) → e.Complete .none → e.change .clear = e.change .list
  | .missing, _ | .integer _ _, _ | .truth _ _, _ | .self _, _ => rfl
  | .var _ v, h => congrArg (Expr.var _) (Var.change_clear h)
  | .not _ operand, h => congrArg (Expr.not _) (operand.change_clear h)
  | .isNull _ operand, h => congrArg (Expr.isNull _) (operand.change_clear h)
  | .length _ array, h => congrArg (Expr.length _) (array.change_clear h)
  | .newArray _ _ n, h => congrArg (Expr.newArray _ _) (n.change_clear h.2)
  | .binary _ _ left right, ⟨_, hl, hr⟩ => by
      rw [Expr.change, Expr.change, left.change_clear hl, right.change_clear hr]
  | .index _ a i, ⟨ha, hi⟩ => by
      rw [Expr.change, Expr.change, a.change_clear ha, i.change_clear hi]
  | .newObject _ _ _ args, ⟨_, hargs⟩ => by
      rw [Expr.change, Expr.change, Expr.changeAll_clear args hargs]
      rfl
  | .call _ receiver _ _ args, ⟨hr, _, hargs⟩ => by
      have hreceiver : receiver.change .clear = receiver.change .list := by
        rcases hr with rfl | hr
        · rfl
        · exact receiver.change_clear hr
      rw [Expr.change, Expr.change, hreceiver, Expr.changeAll_clear args hargs]
      rfl

theorem Expr.changeAll_clear : (es : List Expr) → Expr.AllComplete .none es →
    Expr.changeAll .clear es = Expr.changeAll .list es
  | [], _ => rfl
  | e :: es, ⟨he, hes⟩ => by
      rw [Expr.changeAll, Expr.changeAll, e.change_clear he, Expr.changeAll_clear es hes]

end

mutual

theorem Stmt.change_clear : (s : Stmt) → s.Complete .none → s.change .clear = s.change .list
  | .missing, _ | .declare _ _ _, _ => rfl
  | .block b, h => congrArg Stmt.block (b.change_clear h)
  | .branch _ cond onTrue onFalse, ⟨hc, ht, hf⟩ => by
      rw [Stmt.change, Stmt.change, cond.change_clear hc, onTrue.change_clear ht,
        onFalse.change_clear hf]
  | .loop _ cond body, ⟨hc, hb⟩ => by
      rw [Stmt.change, Stmt.change, cond.change_clear hc, body.change_clear hb]
  | .output _ value, h => congrArg (Stmt.output _) (value.change_clear h)
  | .assign _ v value, ⟨hv, hvalue⟩ => by
      rw [Stmt.change, Stmt.change, Var.change_clear hv, value.change_clear hvalue]
  | .assignIndex _ array index value, ⟨ha, hi, hv⟩ => by
      rw [Stmt.change, Stmt.change, array.change_clear ha, index.change_clear hi,
        value.change_clear hv]
  | .call span receiver name listed args, h =>
      have hcall : Expr.change .clear (.call span receiver name listed args) =
          Expr.change .list (.call span receiver name listed args) := Expr.change_clear _ h
      by
        rw [Expr.change, Expr.change] at hcall
        injection hcall with _ hreceiver _ hlisted hargs
        rw [Stmt.change, Stmt.change, hreceiver, hlisted, hargs]

theorem Block.change_clear : (b : Block) → b.Complete .none → b.change .clear = b.change .list
  | .absent, h => h.elim
  | .mk _ _ body, ⟨_, hbody⟩ => by
      rw [Block.change, Block.change, Stmt.changeAll_clear body hbody]
      rfl

theorem Stmt.changeAll_clear : (ss : List Stmt) → Stmt.AllComplete .none ss →
    Stmt.changeAll .clear ss = Stmt.changeAll .list ss
  | [], _ => rfl
  | s :: ss, ⟨hs, hss⟩ => by
      rw [Stmt.changeAll, Stmt.changeAll, s.change_clear hs, Stmt.changeAll_clear ss hss]

end

theorem Routine.change_clear {r : Routine} (h : r.Complete .none) :
    r.change .clear = r.change .list := by
  have hreturns : r.returns.map (Returns.change .clear) = r.returns.map (Returns.change .list) := by
    cases hr : r.returns with
    | none => rfl
    | some returns =>
        obtain ⟨-, hresult⟩ := h.returns returns hr
        simp only [Option.map_some, Returns.change, returns.result.change_clear hresult]
  have hcount : Change.clear.count r.stackSlots = Change.list.count r.stackSlots := h.count.symm
  rw [Routine.change, Routine.change, Stmt.changeAll_clear r.body h.body, hreturns, hcount]
  rfl

theorem Routine.map_change_clear {routines : List (Option Routine)}
    (h : ∀ r ∈ routines, Routine.Present .none r) :
    routines.map (Option.map (Routine.change .clear)) =
      routines.map (Option.map (Routine.change .list)) := by
  refine List.map_congr_left fun r hr => ?_
  obtain ⟨routine, rfl, hroutine⟩ := h r hr
  exact congrArg some (Routine.change_clear hroutine)

theorem ClassDecl.change_clear {decl : ClassDecl} (h : decl.Complete .none) :
    decl.change .clear = decl.change .list := by
  rw [ClassDecl.change, ClassDecl.change, Routine.map_change_clear h.methods]
  rfl

theorem Command.change_clear {c : Command} (h : c.Complete .none) :
    c.change .clear = c.change .list := by
  cases c with
  | call span name listed args =>
      rw [Command.change, Command.change, Expr.changeAll_clear args h.2]
      rfl
  | eval span e => exact congrArg (Command.eval span) (e.change_clear h)

/-- In a program without annotations, clearing them does no more than listing every list. -/
theorem Program.change_clear {p : Program} (h : p.Complete .none) :
    p.change .clear = p.change .list := by
  have hclasses : p.classes.map (Option.map (ClassDecl.change .clear)) =
      p.classes.map (Option.map (ClassDecl.change .list)) := by
    refine List.map_congr_left fun c hc => ?_
    obtain ⟨decl, rfl, hdecl⟩ := h.classes c hc
    exact congrArg some (ClassDecl.change_clear hdecl)
  have hcommands : p.commands.map (Command.change .clear) = p.commands.map (Command.change .list) :=
    List.map_congr_left fun c hc => Command.change_clear (h.commands c hc)
  rw [Program.change, Program.change, Routine.map_change_clear h.routines, hclasses, hcommands]
  rfl

end ObjectLang
