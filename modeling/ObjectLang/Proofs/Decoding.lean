import ObjectLang.Proofs.Trees
import ObjectLang.Syntax.Decode

/-! What is read from a document. A part that its place asks for is looked for under its key, and
decoding fails where it is not found, so a node that was decoded is complete. No annotations are
read, so it has none, which is all that is asked of them here. A literal is the number that stands
in its document, which has 32 bits. -/

namespace ObjectLang

/-- Whatever is decoded has a property. -/
def Ensures (P : α → Prop) (r : Except DecodeError α) : Prop := ∀ a, r = .ok a → P a

namespace Ensures

variable {P : α → Prop} {Q : β → Prop}

theorem ok {a : α} (h : P a) : Ensures P (.ok a) := by
  rintro _ ⟨⟩
  exact h

theorem error (e : DecodeError) : Ensures P (.error e) := nofun

theorem bind {r : Except DecodeError α} {f : α → Except DecodeError β} (hr : Ensures P r)
    (hf : ∀ a, P a → Ensures Q (f a)) : Ensures Q (r >>= f) := by
  cases r with
  | error e => exact error e
  | ok a => exact hf a (hr a rfl)

theorem within {r : Except DecodeError α} (wrap : DecodeError → DecodeError) (hr : Ensures P r) :
    Ensures P (within wrap r) := by
  cases r with
  | error e => exact error (wrap e)
  | ok a => exact hr

theorem mapM {f : α → Except DecodeError β} {xs : List α} (h : ∀ x ∈ xs, Ensures Q (f x)) :
    Ensures (fun ys => ∀ y ∈ ys, Q y) (xs.mapM f) := by
  induction xs with
  | nil => exact ok (List.forall_mem_nil Q)
  | cons x xs ih =>
      obtain ⟨hx, hxs⟩ := List.forall_mem_cons.mp h
      rw [List.mapM_cons]
      exact hx.bind fun y hy => (ih hxs).bind fun ys hys =>
        ok (List.forall_mem_cons.mpr ⟨hy, hys⟩)

end Ensures

/-- Nothing is missing in a node. -/
def Node.Complete (A : Annotations) : Node → Prop
  | .program p => p.Complete A
  | .classDecl c => c.Complete A
  | .field f => f.type.Complete
  | .param p => p.type.Complete
  | .routine r => r.Complete A
  | .type t => t.Complete
  | .var v => A.slot v.slot
  | .command c => c.Complete A
  | .stmt s => s.Complete A
  | .expr e => e.Complete A

/-- A literal has the value that stands in the document, and another node is no literal. -/
def Node.Literal (value : Document) : Node → Prop
  | .expr (.integer _ n) => value.toInt = .ok n.toInt
  | _ => True

/-- A span tells nothing about what is missing. -/
theorem Node.Complete.withSpan {A : Annotations} {n : Node} (h : n.Complete A) (span : Span) :
    (n.withSpan span).Complete A := by
  cases n with
  | program p => exact ⟨h.1, h.2, h.3, h.4, h.5, h.6⟩
  | classDecl c => exact ⟨h.1, h.2, h.3, h.4⟩
  | routine r => exact ⟨h.1, h.2, h.3, h.4, h.5, h.6⟩
  | field f => exact h
  | param p => exact h
  | var v => exact h
  | type t => cases t <;> exact h
  | command c => cases c <;> exact h
  | expr e => cases e <;> exact h
  | stmt s =>
      cases s with
      | block b => cases b <;> exact h
      | _ => exact h

theorem Node.Literal.withSpan {value : Document} {n : Node} (h : n.Literal value) (span : Span) :
    (n.withSpan span).Literal value := by
  cases n with
  | expr e => cases e <;> exact h
  | _ => trivial

/-- What was read is complete, as a node and as a list of nodes. -/
structure Reading.Sound (A : Annotations) (r : Reading) : Prop where
  node : Ensures (Node.Complete A) r.node
  items : ∀ item ∈ r.items, Ensures (Node.Complete A) item

theorem Reading.sound_plain (A : Annotations) (d : Document) : (Reading.plain d).Sound A :=
  ⟨.error _, List.forall_mem_nil _⟩

theorem TypeName.parse_ensures (cs : List Char) :
    Ensures TypeName.Complete (TypeName.parse cs) := by
  fun_induction TypeName.parse cs with
  | case1 => exact .error _
  | case2 cs rest h ih => exact ih.bind fun elem helem => .ok helem
  | case3 => exact .ok trivial
  | case4 => exact .ok trivial
  | case5 => exact .ok trivial

namespace Decode

/-- What was decoded is complete, and a literal is the number under its key. -/
structure Decoded (A : Annotations) (fields : Fields) (n : Node) : Prop where
  complete : n.Complete A
  literal : n.Literal (part fields "value").source

section Parts

variable {A : Annotations} {fields : Fields} (hfields : ∀ key r, (key, r) ∈ fields → r.Sound A)
include hfields

theorem part_sound (key : String) : (part fields key).Sound A := by
  rw [part]
  cases h : fields.lookup key with
  | none => exact Reading.sound_plain A _
  | some r =>
      obtain ⟨before, after, hsplit, -⟩ := List.lookup_eq_some_iff.mp h
      exact hfields key r (hsplit ▸ List.mem_append_right before List.mem_cons_self)

omit hfields in
theorem items_ensures {P : α → Prop} {narrow : Node → Except DecodeError α} {r : Reading}
    (hr : r.Sound A) (h : ∀ n, n.Complete A → Ensures P (narrow n)) :
    Ensures (fun as => ∀ a ∈ as, P a) (items narrow r) :=
  .mapM fun item hitem => (hr.items item hitem).bind h

theorem exprs_ensures (key : String) :
    Ensures (Expr.AllComplete A) (items asExpr (part fields key)) := by
  intro es h
  refine Expr.allComplete_iff.mpr (items_ensures (part_sound hfields key) (fun n hn => ?_) es h)
  cases n with
  | expr e => exact .ok hn
  | _ => exact .error _

theorem stmts_ensures (key : String) :
    Ensures (Stmt.AllComplete A) (items asStmt (part fields key)) := by
  intro ss h
  refine Stmt.allComplete_iff.mpr (items_ensures (part_sound hfields key) (fun n hn => ?_) ss h)
  cases n with
  | stmt s => exact .ok hn
  | _ => exact .error _

theorem routines_ensures (key : String) :
    Ensures (fun rs => ∀ r ∈ rs, Routine.Present A r) (items asRoutine (part fields key)) := by
  refine items_ensures (part_sound hfields key) fun n hn => ?_
  cases n with
  | routine r => exact .ok ⟨r, rfl, hn⟩
  | _ => exact .error _

theorem classes_ensures (key : String) :
    Ensures (fun cs => ∀ c ∈ cs, ClassDecl.Present A c) (items asClass (part fields key)) := by
  refine items_ensures (part_sound hfields key) fun n hn => ?_
  cases n with
  | classDecl c => exact .ok ⟨c, rfl, hn⟩
  | _ => exact .error _

theorem commands_ensures (key : String) :
    Ensures (fun cs => ∀ c ∈ cs, c.Complete A) (items asCommand (part fields key)) := by
  refine items_ensures (part_sound hfields key) fun n hn => ?_
  cases n with
  | command c => exact .ok hn
  | _ => exact .error _

theorem fields_ensures (className key : String) :
    Ensures (fun fs => ∀ f ∈ fs, f.type.Complete)
      (items (asField className) (part fields key)) := by
  refine items_ensures (part_sound hfields key) fun n hn => ?_
  cases n with
  | field f => exact .ok hn
  | _ => exact .error _

theorem params_ensures (label key : String) :
    Ensures (fun ps => ∀ p ∈ ps, p.type.Complete) (items (asParam label) (part fields key)) := by
  refine items_ensures (part_sound hfields key) fun n hn => ?_
  cases n with
  | param p => exact .ok hn
  | _ => exact .error _

theorem typePart_ensures (key : String) : Ensures TypeName.Complete (typePart fields key) := by
  dsimp only [typePart]
  split
  · exact .error _
  · exact TypeName.parse_ensures _
  · refine (part_sound hfields key).node.bind fun n hn => ?_
    cases n with
    | type t => exact .ok hn
    | _ => exact .error _

theorem optionalExpr_ensures (key : String) :
    Ensures (fun e => e = .missing ∨ e.Complete A) (optionalExpr fields key) := by
  dsimp only [optionalExpr]
  split
  · exact .ok (.inl rfl)
  · refine ((part_sound hfields key).node.within _).bind fun n hn => ?_
    cases n with
    | expr e => exact .ok (.inr hn)
    | _ => exact .error _

theorem exprPart_ensures (key : String) :
    Ensures (Expr.Complete A) (exprPart fields key) := by
  refine (optionalExpr_ensures hfields key).bind fun e he => ?_
  split
  · exact .error _
  · next hmissing => exact .ok (he.resolve_left fun h => hmissing h)

theorem blockPart_ensures (key : String) :
    Ensures (Block.Complete A) (blockPart fields key) := by
  dsimp only [blockPart]
  split
  · exact .ok ⟨fun _ => rfl, trivial⟩
  · exact ((stmts_ensures hfields key).within _).bind fun body hbody => .ok ⟨nofun, hbody⟩
  · refine ((part_sound hfields key).node.within _).bind fun n hn => ?_
    split
    · exact .ok hn
    · exact .error _

theorem varPart_ensures (hA : A.Optional) (key : String) :
    Ensures (fun v => A.slot v.slot) (varPart fields key) := by
  dsimp only [varPart]
  split
  · exact .error _
  · exact .ok hA.1
  · refine ((part_sound hfields key).node.within _).bind fun n hn => ?_
    cases n with
    | var v => exact .ok hn
    | _ => exact .error _
  · exact .error _

theorem routine_ensures (hA : A.Optional) (isFunction : Bool) :
    Ensures (Decoded A fields) (routine fields isFunction) := by
  refine (params_ensures hfields _ "params").bind fun params hparams =>
    ((stmts_ensures hfields "body").within _).bind fun body hbody => ?_
  split
  · refine ((typePart_ensures hfields "returnType").within _).bind fun type htype =>
      ((exprPart_ensures hfields "result").within _).bind fun result hresult => .ok ?_
    refine ⟨⟨nofun, hparams, nofun, hbody, ?_, hA.2⟩, trivial⟩
    rintro _ ⟨⟩
    exact ⟨htype, hresult⟩
  · exact .ok ⟨⟨nofun, hparams, nofun, hbody, nofun, hA.2⟩, trivial⟩

theorem classDecl_ensures : Ensures (Decoded A fields) (classDecl fields) :=
  (fields_ensures hfields _ "fields").bind fun _ hmembers =>
    ((routines_ensures hfields "methods").within _).bind fun _ hmethods =>
      .ok ⟨⟨nofun, hmembers, nofun, hmethods⟩, trivial⟩

theorem program_ensures : Ensures (Decoded A fields) (program fields) :=
  (routines_ensures hfields "routines").bind fun _ hroutines =>
    (classes_ensures hfields "classes").bind fun _ hclasses =>
      (commands_ensures hfields "commands").bind fun _ hcommands =>
        .ok ⟨⟨nofun, hroutines, nofun, hclasses, nofun, hcommands⟩, trivial⟩

omit hfields in
/-- A literal in range keeps its value. -/
theorem literal_ensures : Ensures (Decoded A fields) (literal fields) := by
  have hvalue : Ensures (fun n => (part fields "value").source.toInt = .ok n)
    (part fields "value").source.toInt := fun _ h => h
  refine hvalue.bind fun n hn => ?_
  split
  · next hrange =>
      rw [Bool.and_eq_true, decide_eq_true_eq, decide_eq_true_eq] at hrange
      refine .ok ⟨trivial, ?_⟩
      rw [Node.Literal, Int32.toInt_ofInt_of_le hrange.1 (Int.lt_add_one_of_le hrange.2)]
      exact hn
  · exact .error _

theorem binary_ensures : Ensures (Decoded A fields) (binary fields) := by
  dsimp only [binary]
  split
  · exact .error _
  · next hop =>
      exact (exprPart_ensures hfields "left").bind fun _ hl =>
        (exprPart_ensures hfields "right").bind fun _ hr => .ok ⟨⟨hop, hl, hr⟩, trivial⟩

/-- What the fields of an object describe is complete, whatever its tag. -/
theorem unplaced_ensures (hA : A.Optional) : Ensures (Decoded A fields) (unplaced fields) := by
  unfold unplaced
  split
  · exact program_ensures hfields
  · exact classDecl_ensures hfields
  · exact (typePart_ensures hfields "fieldType").bind fun _ ht => .ok ⟨ht, trivial⟩
  · exact (typePart_ensures hfields "paramType").bind fun _ ht => .ok ⟨ht, trivial⟩
  · exact routine_ensures hfields hA false
  · exact routine_ensures hfields hA true
  · exact .ok ⟨trivial, trivial⟩
  · exact .ok ⟨trivial, trivial⟩
  · exact .ok ⟨trivial, trivial⟩
  · exact (typePart_ensures hfields "elem").bind fun _ ht => .ok ⟨ht, trivial⟩
  · exact (exprs_ensures hfields "args").bind fun _ hargs => .ok ⟨⟨nofun, hargs⟩, trivial⟩
  · exact (exprPart_ensures hfields "expr").bind fun _ he => .ok ⟨he, trivial⟩
  · exact .ok ⟨hA.1, trivial⟩
  · exact (stmts_ensures hfields "body").bind fun _ hbody => .ok ⟨⟨nofun, hbody⟩, trivial⟩
  · exact (typePart_ensures hfields "varType").bind fun _ ht => .ok ⟨ht, trivial⟩
  · exact (exprPart_ensures hfields "cond").bind fun _ hc =>
      (blockPart_ensures hfields "then").bind fun _ ht =>
        (blockPart_ensures hfields "else").bind fun _ hf => .ok ⟨⟨hc, ht, hf⟩, trivial⟩
  · exact (exprPart_ensures hfields "cond").bind fun _ hc =>
      (blockPart_ensures hfields "body").bind fun _ hb => .ok ⟨⟨hc, hb⟩, trivial⟩
  · exact (exprPart_ensures hfields "expr").bind fun _ he => .ok ⟨he, trivial⟩
  · exact (varPart_ensures hfields hA "var").bind fun _ hv =>
      (exprPart_ensures hfields "value").bind fun _ he => .ok ⟨⟨hv, he⟩, trivial⟩
  · exact (exprPart_ensures hfields "array").bind fun _ ha =>
      (exprPart_ensures hfields "index").bind fun _ hi =>
        (exprPart_ensures hfields "value").bind fun _ hv => .ok ⟨⟨ha, hi, hv⟩, trivial⟩
  · exact (optionalExpr_ensures hfields "receiver").bind fun _ hr =>
      (exprs_ensures hfields "args").bind fun _ hargs => .ok ⟨⟨hr, nofun, hargs⟩, trivial⟩
  · exact literal_ensures
  · exact .ok ⟨trivial, trivial⟩
  · exact .ok ⟨trivial, trivial⟩
  · exact (varPart_ensures hfields hA "var").bind fun _ hv => .ok ⟨hv, trivial⟩
  · exact .ok ⟨trivial, trivial⟩
  · exact (exprPart_ensures hfields "operand").bind fun _ he => .ok ⟨he, trivial⟩
  · exact (exprPart_ensures hfields "operand").bind fun _ he => .ok ⟨he, trivial⟩
  · exact binary_ensures hfields
  · exact (exprPart_ensures hfields "array").bind fun _ ha =>
      (exprPart_ensures hfields "index").bind fun _ hi => .ok ⟨⟨ha, hi⟩, trivial⟩
  · exact (exprPart_ensures hfields "array").bind fun _ ha => .ok ⟨ha, trivial⟩
  · exact (typePart_ensures hfields "elemType").bind fun _ ht =>
      (exprPart_ensures hfields "length").bind fun _ hn => .ok ⟨⟨ht, hn⟩, trivial⟩
  · exact (exprs_ensures hfields "args").bind fun _ hargs => .ok ⟨⟨nofun, hargs⟩, trivial⟩
  · exact (optionalExpr_ensures hfields "receiver").bind fun _ hr =>
      (exprs_ensures hfields "args").bind fun _ hargs => .ok ⟨⟨hr, nofun, hargs⟩, trivial⟩
  · exact .error _
  · exact .error _

theorem node_ensures (hA : A.Optional) : Ensures (Decoded A fields) (node fields) := by
  refine (unplaced_ensures hfields hA).bind fun n hn => ?_
  split
  · exact .ok ⟨hn.complete.withSpan _, hn.literal.withSpan _⟩
  · exact .ok hn

end Parts

end Decode

/-! ### Documents -/

section Documents

variable {A : Annotations}

mutual

/-- Whatever a document is read as is complete. -/
theorem Document.reading_sound (hA : A.Optional) : (d : Document) → d.reading.Sound A
  | .list items => ⟨.error _, Document.itemReadings_sound hA items⟩
  | .object fields =>
      ⟨fun n h => (Decode.node_ensures (Document.fieldReadings_sound hA fields) hA n h).complete,
        List.forall_mem_nil _⟩
  | .null | .bool _ | .text _ | .float _ | .integer _ | .int64 _ | .unsigned _ | .literal _
  | .timestamp | .mapping _ => Reading.sound_plain A _

theorem Document.itemReadings_sound (hA : A.Optional) : (ds : List Document) →
    ∀ item ∈ Document.itemReadings ds, Ensures (Node.Complete A) item
  | [] => List.forall_mem_nil _
  | d :: ds =>
      List.forall_mem_cons.mpr ⟨(d.reading_sound hA).node, Document.itemReadings_sound hA ds⟩

theorem Document.fieldReadings_sound (hA : A.Optional) : (fields : List (String × Document)) →
    ∀ key r, (key, r) ∈ Document.fieldReadings fields → r.Sound A
  | [], _, _, h => absurd h List.not_mem_nil
  | (_, d) :: rest, key, r, h => by
      rcases List.mem_cons.mp h with h | h
      · cases h
        exact d.reading_sound hA
      · exact Document.fieldReadings_sound hA rest key r h

end

/-- A program that was decoded is complete. -/
theorem Program.complete_of_ofFields (hA : A.Optional) {fields : List (String × Document)}
    {p : Program} (h : Program.ofFields fields = .ok p) : p.Complete A := by
  refine (Decode.node_ensures (Document.fieldReadings_sound hA fields) hA).bind
    (fun n hn => ?_) p h
  split
  · exact .ok hn.complete
  · exact .error _

end Documents

theorem Document.source_reading (d : Document) : d.reading.source = d := by
  cases d <;> rfl

theorem Decode.source_part (fields : List (String × Document)) (key : String) :
    (part (Document.fieldReadings fields) key).source = Document.field fields key := by
  induction fields with
  | nil => rfl
  | cons field rest ih =>
      obtain ⟨other, d⟩ := field
      rw [part, Document.field, Document.fieldReadings, List.lookup_cons, List.lookup_cons]
      cases key == other with
      | true => exact d.source_reading
      | false => exact ih

/-- A decoded literal is the number that stands in its document. -/
theorem Decode.toInt_of_node {fields : List (String × Document)} {span : Span} {value : Int32}
    (h : Decode.node (Document.fieldReadings fields) = .ok (.expr (.integer span value))) :
    (Document.field fields "value").toInt = .ok value.toInt := by
  rw [← source_part]
  exact (node_ensures (Document.fieldReadings_sound Annotations.optional_any fields)
    Annotations.optional_any _ h).literal

end ObjectLang
