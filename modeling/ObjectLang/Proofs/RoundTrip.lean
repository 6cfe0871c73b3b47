import Mathlib.Computability.Primrec.List
import ObjectLang.Proofs.Decoding
import ObjectLang.Proofs.WholeNumbers
import ObjectLang.Syntax.Encode

/-! Writing a program as a document and reading it again. Every node is written with its tag, its
span and its parts under the keys under which it is read, so a complete tree is found again in its
document, without its annotations and with every list listed. What was read from a document is
complete, so it is found again too. -/

namespace ObjectLang

/-- Both numbers of a span have at most 53 bits. -/
def Span.Exact (s : Span) : Prop := s.line.natAbs ≤ 2 ^ 53 ∧ s.column.natAbs ≤ 2 ^ 53

instance (s : Span) : Decidable s.Exact := inferInstanceAs (Decidable (_ ∧ _))

namespace Encode

open Decode (Fields part name)

/-- A form of numbers in documents in which whole numbers of at most 53 bits are found again. -/
def Faithful (number : Int → Document) : Prop :=
  ∀ n : Int, n.natAbs ≤ 2 ^ 53 → (number n).toInt = .ok n

/-- A document is an object that is read as a node. -/
def Writes (d : Document) (n : Node) : Prop :=
  ∃ fields, d = .object fields ∧ Decode.node (Document.fieldReadings fields) = .ok n

theorem fieldReadings_append (xs ys : List (String × Document)) :
    Document.fieldReadings (xs ++ ys) =
      Document.fieldReadings xs ++ Document.fieldReadings ys := by
  induction xs with
  | nil => rfl
  | cons x xs ih =>
      obtain ⟨key, d⟩ := x
      rw [List.cons_append, Document.fieldReadings, Document.fieldReadings, ih, List.cons_append]

theorem part_append_of_lookup_none {key : String} {xs : Fields} (h : xs.lookup key = none)
    (ys : Fields) : part (xs ++ ys) key = part ys key := by
  rw [part, part, List.lookup_append, h]
  rfl

section Header

variable {number : Int → Document} {tag : String} {span : Span}
  {parts : List (String × Document)}

/-- The parts of a node are found behind its header. -/
theorem part_header {key : String} (htype : key ≠ "type") (hspan : key ≠ "span") :
    part (Document.fieldReadings (header number tag span ++ parts)) key =
      part (Document.fieldReadings parts) key := by
  rw [fieldReadings_append]
  refine part_append_of_lookup_none ?_ _
  unfold header
  split
  · simp [Document.fieldReadings, List.lookup_cons, beq_false_of_ne htype, beq_false_of_ne hspan]
  · simp [Document.fieldReadings, List.lookup_cons, beq_false_of_ne htype]

theorem toSpan?_number (hnumber : Faithful number) (hspan : span.Exact) :
    Document.toSpan? (.object [("line", number span.line), ("column", number span.column)]) =
      some span := by
  have hline : (Document.field [("line", number span.line), ("column", number span.column)]
      "line").toInt = .ok span.line := hnumber _ hspan.1
  have hcolumn : (Document.field [("line", number span.line), ("column", number span.column)]
      "column").toInt = .ok span.column := hnumber _ hspan.2
  rw [Document.toSpan?, hline, hcolumn]

/-- The span in a header, or none for an unknown one. -/
theorem span_header (hnumber : Faithful number) (hspan : span.Exact)
    (hparts : (Document.fieldReadings parts).lookup "span" = none) :
    (part (Document.fieldReadings (header number tag span ++ parts)) "span").source.toSpan? =
      if span.isKnown then some span else none := by
  by_cases hknown : span.isKnown = true
  · have hpart : part (Document.fieldReadings (header number tag span ++ parts)) "span" =
        (Document.object [("line", number span.line), ("column", number span.column)]).reading := by
      rw [header, if_pos hknown]
      rfl
    rw [hpart, Document.source_reading, toSpan?_number hnumber hspan, if_pos hknown]
  · have hheader : (Document.fieldReadings (header number tag span)).lookup "span" = none := by
      rw [header, if_neg hknown]
      rfl
    rw [fieldReadings_append, part_append_of_lookup_none hheader, part, hparts, if_neg hknown]
    rfl

/-- A node is read with its span when its parts are read as they stand under their keys. -/
theorem writes_node (hnumber : Faithful number) (hspan : span.Exact)
    (hparts : (Document.fieldReadings parts).lookup "span" = none) {n : Node}
    (hn : n.withSpan .unknown = n)
    (h : ∀ fs : Fields, name fs "type" = tag →
      (∀ key, key ≠ "type" → key ≠ "span" →
        part fs key = part (Document.fieldReadings parts) key) →
      Decode.unplaced fs = .ok n) :
    Writes (.object (header number tag span ++ parts)) (n.withSpan span) := by
  refine ⟨_, rfl, ?_⟩
  rw [Decode.node, h _ rfl fun key => part_header, span_header hnumber hspan hparts]
  by_cases hknown : span.isKnown = true
  · rw [if_pos hknown]
    rfl
  · have hunknown : span = .unknown := by
      simpa [Span.isKnown] using hknown
    rw [if_neg hknown, hunknown, hn]
    rfl

end Header

section Parts

variable {fs : Fields} {key : String} {d : Document}

theorem node_of_writes {n : Node} (h : Writes d n) : d.reading.node = .ok n := by
  obtain ⟨fields, rfl, hnode⟩ := h
  exact hnode

theorem typePart_of_writes {t : TypeName} (hpart : part fs key = d.reading)
    (h : Writes d (.type t)) : Decode.typePart fs key = .ok t := by
  obtain ⟨fields, rfl, hnode⟩ := h
  rw [Decode.typePart, hpart, Document.reading, hnode]
  rfl

theorem varPart_of_writes {v : Var} (hpart : part fs key = d.reading) (h : Writes d (.var v)) :
    Decode.varPart fs key = .ok v := by
  obtain ⟨fields, rfl, hnode⟩ := h
  rw [Decode.varPart, hpart, Document.reading, hnode]
  rfl

theorem blockPart_of_writes {b : Block} (hpart : part fs key = d.reading)
    (h : Writes d (.stmt (.block b))) : Decode.blockPart fs key = .ok b := by
  obtain ⟨fields, rfl, hnode⟩ := h
  rw [Decode.blockPart, hpart, Document.reading, hnode]
  rfl

theorem optionalExpr_of_writes {e : Expr} (hpart : part fs key = d.reading)
    (h : Writes d (.expr e)) : Decode.optionalExpr fs key = .ok e := by
  obtain ⟨fields, rfl, hnode⟩ := h
  rw [Decode.optionalExpr, hpart, Document.reading, hnode]
  rfl

theorem exprPart_of_writes {A : Annotations} {c : Change} {e : Expr}
    (hpart : part fs key = d.reading) (h : Writes d (.expr (e.change c))) (hc : e.Complete A) :
    Decode.exprPart fs key = .ok (e.change c) := by
  have hpresent : e.change c ≠ .missing := Expr.change_ne_missing c hc
  rw [Decode.exprPart, optionalExpr_of_writes hpart h]
  generalize e.change c = changed at hpresent ⊢
  cases changed with
  | missing => exact absurd rfl hpresent
  | _ => rfl

theorem mapM_itemReadings {narrow : Node → Except DecodeError α} {write : β → Document}
    {read : β → α} {xs : List β}
    (h : ∀ x ∈ xs, ∃ n, Writes (write x) n ∧ narrow n = .ok (read x)) :
    (Document.itemReadings (xs.map write)).mapM (fun item => item >>= narrow) =
      .ok (xs.map read) := by
  induction xs with
  | nil => rfl
  | cons x xs ih =>
      obtain ⟨n, hn, hx⟩ := h x List.mem_cons_self
      have htail := ih fun y hy => h y (List.mem_cons_of_mem x hy)
      rw [List.map_cons, Document.itemReadings, List.mapM_cons, htail, node_of_writes hn]
      change (narrow n >>= _) = _
      rw [hx]
      rfl

/-- The items of a list are found again, and those of an unlisted one are none. -/
theorem items_of_writes {narrow : Node → Except DecodeError α} {write : β → Document}
    {read : β → α} {xs : List β} {listed : Bool} {r : Reading}
    (hr : r = (listOf listed (xs.map write)).reading) (hlisted : Listing listed xs)
    (h : ∀ x ∈ xs, ∃ n, Writes (write x) n ∧ narrow n = .ok (read x)) :
    Decode.items narrow r = .ok (xs.map read) := by
  subst hr
  cases listed with
  | true => exact mapM_itemReadings h
  | false =>
      obtain rfl := hlisted rfl
      rfl

end Parts

section Trees

variable {number : Int → Document}

/-- A node without parts is read with its span. -/
theorem writes_bare (hnumber : Faithful number) {tag : String} {span : Span} (hspan : span.Exact)
    {n : Node} (hn : n.withSpan .unknown = n)
    (h : ∀ fs : Fields, name fs "type" = tag → Decode.unplaced fs = .ok n) :
    Writes (.object (header number tag span)) (n.withSpan span) := by
  have hnode : Writes (.object (header number tag span ++ [])) (n.withSpan span) :=
    writes_node hnumber hspan rfl hn fun fs htag _ => h fs htag
  rwa [List.append_nil] at hnode

theorem writes_type (hnumber : Faithful number) : (t : TypeName) → t.Complete →
    (∀ s ∈ t.spans, s.Exact) → Writes (type number t) (.type t)
  | .int span, _, hspans =>
      writes_bare hnumber (n := .type (.int .unknown)) (hspans span List.mem_cons_self) rfl
        fun fs htag => by
          rw [Decode.unplaced, htag]
          rfl
  | .boolean span, _, hspans =>
      writes_bare hnumber (n := .type (.boolean .unknown)) (hspans span List.mem_cons_self) rfl
        fun fs htag => by
          rw [Decode.unplaced, htag]
          rfl
  | .named span label, _, hspans =>
      writes_node hnumber (n := .type (.named .unknown label)) (hspans span List.mem_cons_self) rfl
        rfl fun fs htag hpart => by
          have hname : name fs "name" = label :=
            congrArg Reading.text (hpart "name" (by decide) (by decide))
          rw [Decode.unplaced, htag, hname]
          rfl
  | .array span elem, hc, hspans =>
      writes_node hnumber (n := .type (.array .unknown elem)) (hspans span List.mem_cons_self) rfl
        rfl fun fs htag hpart => by
          have helem : Decode.typePart fs "elem" = .ok elem :=
            typePart_of_writes (hpart "elem" (by decide) (by decide))
              (writes_type hnumber elem hc fun s hs => hspans s (List.mem_cons_of_mem span hs))
          rw [Decode.unplaced, htag, helem]
          rfl

theorem writes_var (hnumber : Faithful number) {v : Var} (hspan : v.span.Exact) :
    Writes (var number v) (.var (v.change .clear)) :=
  writes_node hnumber (n := .var ⟨.unknown, v.name, .unresolved⟩) hspan rfl rfl
    fun fs htag hpart => by
      have hname : name fs "name" = v.name :=
        congrArg Reading.text (hpart "name" (by decide) (by decide))
      rw [Decode.unplaced, htag, hname]
      rfl

/-! ### Expressions -/

theorem exprs_eq_map (es : List Expr) : exprs number es = es.map (expr number) := by
  induction es with
  | nil => rfl
  | cons e es ih => rw [exprs, ih, List.map_cons]

theorem writes_integer (hnumber : Faithful number) {span : Span} (hspan : span.Exact)
    (value : Int32) :
    Writes (expr number (.integer span value)) (.expr (.integer span value)) :=
  writes_node hnumber (n := .expr (.integer .unknown value)) hspan rfl rfl
    fun fs htag hpart => by
      have hlo : (-2147483648 : Int) ≤ value.toInt := value.le_toInt
      have hhi : value.toInt ≤ 2147483647 := Int.le_of_lt_add_one value.toInt_lt
      have hsource : (part fs "value").source = number value.toInt :=
        (congrArg Reading.source (hpart "value" (by decide) (by decide))).trans
          (Document.source_reading _)
      have hvalue : (part fs "value").source.toInt = .ok value.toInt := by
        rw [hsource]
        exact hnumber _ (by omega)
      have hliteral : Decode.literal fs = .ok (.expr (.integer .unknown value)) := by
        rw [Decode.literal, hvalue]
        change (if decide (-2147483648 ≤ value.toInt) && decide (value.toInt ≤ 2147483647) then
          Except.ok (Node.expr (.integer .unknown (Int32.ofInt value.toInt)))
            else .error (DecodeError.literalOutOfRange value.toInt)) = _
        rw [decide_eq_true hlo, decide_eq_true hhi, Int32.ofInt_toInt]
        rfl
      rw [Decode.unplaced, htag]
      exact hliteral

section Call

variable {receiver : Expr} {label : String} {listed : Bool} {args : List Expr} {fs : Fields}
  (hpart : ∀ key, key ≠ "type" → key ≠ "span" → part fs key =
    part (Document.fieldReadings ((if receiver.isPresent then
      [("receiver", expr number receiver)] else []) ++
        [("name", .text label), ("args", listOf listed (exprs number args))])) key)
include hpart

/-- The receiver of a call is read again, also when it is left out. -/
theorem receiver_of_writes
    (h : receiver = .missing ∨ Writes (expr number receiver) (.expr (receiver.change .clear))) :
    Decode.optionalExpr fs "receiver" = .ok (receiver.change .clear) := by
  have hreceiver := hpart "receiver" (by decide) (by decide)
  by_cases hpresent : receiver.isPresent = true
  · rw [if_pos hpresent] at hreceiver
    rcases h with rfl | h
    · exact absurd hpresent Bool.false_ne_true
    · exact optionalExpr_of_writes hreceiver h
  · rw [if_neg hpresent] at hreceiver
    have hmissing : receiver = .missing := by
      cases receiver with
      | missing => rfl
      | _ => exact absurd rfl hpresent
    rw [Decode.optionalExpr, hreceiver, hmissing]
    rfl

theorem name_of_call : name fs "name" = label := by
  rw [name, hpart "name" (by decide) (by decide)]
  split <;> rfl

theorem args_of_call : part fs "args" = (listOf listed (exprs number args)).reading := by
  rw [hpart "args" (by decide) (by decide)]
  split <;> rfl

end Call

theorem items_of_exprs {listed : Bool} {args : List Expr} {r : Reading}
    (hr : r = (listOf listed (exprs number args)).reading) (hlisted : Listing listed args)
    (h : ∀ e ∈ args, Writes (expr number e) (.expr (e.change .clear))) :
    Decode.items Decode.asExpr r = .ok (Expr.changeAll .clear args) := by
  rw [Expr.changeAll_eq_map]
  rw [exprs_eq_map] at hr
  exact items_of_writes hr hlisted fun e he => ⟨_, h e he, rfl⟩

variable {A : Annotations}

mutual

/-- A complete expression is found again in its document. -/
theorem writes_expr (hnumber : Faithful number) : (e : Expr) → e.Complete A →
    (∀ s ∈ e.spans, s.Exact) → Writes (expr number e) (.expr (e.change .clear))
  | .integer span value, _, hspans => writes_integer hnumber (hspans span List.mem_cons_self) value
  | .truth span true, _, hspans =>
      writes_bare hnumber (n := .expr (.truth .unknown true)) (hspans span List.mem_cons_self) rfl
        fun fs htag => by
          rw [Decode.unplaced, htag]
          rfl
  | .truth span false, _, hspans =>
      writes_bare hnumber (n := .expr (.truth .unknown false)) (hspans span List.mem_cons_self) rfl
        fun fs htag => by
          rw [Decode.unplaced, htag]
          rfl
  | .self span, _, hspans =>
      writes_bare hnumber (n := .expr (.self .unknown)) (hspans span List.mem_cons_self) rfl
        fun fs htag => by
          rw [Decode.unplaced, htag]
          rfl
  | .var span v, _, hspans => by
      rw [Expr.spans, List.forall_mem_cons, List.forall_mem_singleton] at hspans
      obtain ⟨hspan, hv⟩ := hspans
      refine writes_node hnumber (n := .expr (.var .unknown (v.change .clear))) hspan rfl rfl
        fun fs htag hpart => ?_
      have hvar : Decode.varPart fs "var" = .ok (v.change .clear) :=
        varPart_of_writes (hpart "var" (by decide) (by decide)) (writes_var hnumber hv)
      rw [Decode.unplaced, htag, hvar]
      rfl
  | .not span operand, hc, hspans => by
      rw [Expr.spans, List.forall_mem_cons] at hspans
      obtain ⟨hspan, hs⟩ := hspans
      refine writes_node hnumber (n := .expr (.not .unknown (operand.change .clear))) hspan rfl rfl
        fun fs htag hpart => ?_
      have hoperand : Decode.exprPart fs "operand" = .ok (operand.change .clear) :=
        exprPart_of_writes (hpart "operand" (by decide) (by decide))
          (writes_expr hnumber operand hc hs) hc
      rw [Decode.unplaced, htag, hoperand]
      rfl
  | .isNull span operand, hc, hspans => by
      rw [Expr.spans, List.forall_mem_cons] at hspans
      obtain ⟨hspan, hs⟩ := hspans
      refine writes_node hnumber (n := .expr (.isNull .unknown (operand.change .clear))) hspan rfl
        rfl fun fs htag hpart => ?_
      have hoperand : Decode.exprPart fs "operand" = .ok (operand.change .clear) :=
        exprPart_of_writes (hpart "operand" (by decide) (by decide))
          (writes_expr hnumber operand hc hs) hc
      rw [Decode.unplaced, htag, hoperand]
      rfl
  | .length span array, hc, hspans => by
      rw [Expr.spans, List.forall_mem_cons] at hspans
      obtain ⟨hspan, hs⟩ := hspans
      refine writes_node hnumber (n := .expr (.length .unknown (array.change .clear))) hspan rfl
        rfl fun fs htag hpart => ?_
      have harray : Decode.exprPart fs "array" = .ok (array.change .clear) :=
        exprPart_of_writes (hpart "array" (by decide) (by decide))
          (writes_expr hnumber array hc hs) hc
      rw [Decode.unplaced, htag, harray]
      rfl
  | .binary span op left right, ⟨hop, hl, hr⟩, hspans => by
      rw [Expr.spans, List.forall_mem_cons, List.forall_mem_append] at hspans
      obtain ⟨hspan, hsl, hsr⟩ := hspans
      refine writes_node hnumber
        (n := .expr (.binary .unknown op (left.change .clear) (right.change .clear))) hspan rfl rfl
        fun fs htag hpart => ?_
      have hname : name fs "op" = op :=
        congrArg Reading.text (hpart "op" (by decide) (by decide))
      have hleft : Decode.exprPart fs "left" = .ok (left.change .clear) :=
        exprPart_of_writes (hpart "left" (by decide) (by decide))
          (writes_expr hnumber left hl hsl) hl
      have hright : Decode.exprPart fs "right" = .ok (right.change .clear) :=
        exprPart_of_writes (hpart "right" (by decide) (by decide))
          (writes_expr hnumber right hr hsr) hr
      have hbinary : Decode.binary fs =
          .ok (.expr (.binary .unknown op (left.change .clear) (right.change .clear))) := by
        rw [Decode.binary, hname, if_neg hop, hleft, hright]
        rfl
      rw [Decode.unplaced, htag]
      exact hbinary
  | .index span a i, ⟨ha, hi⟩, hspans => by
      rw [Expr.spans, List.forall_mem_cons, List.forall_mem_append] at hspans
      obtain ⟨hspan, hsa, hsi⟩ := hspans
      refine writes_node hnumber
        (n := .expr (.index .unknown (a.change .clear) (i.change .clear))) hspan rfl rfl
        fun fs htag hpart => ?_
      have harray : Decode.exprPart fs "array" = .ok (a.change .clear) :=
        exprPart_of_writes (hpart "array" (by decide) (by decide)) (writes_expr hnumber a ha hsa) ha
      have hindex : Decode.exprPart fs "index" = .ok (i.change .clear) :=
        exprPart_of_writes (hpart "index" (by decide) (by decide)) (writes_expr hnumber i hi hsi) hi
      rw [Decode.unplaced, htag, harray, hindex]
      rfl
  | .newArray span elem n, ⟨he, hn⟩, hspans => by
      rw [Expr.spans, List.forall_mem_cons, List.forall_mem_append] at hspans
      obtain ⟨hspan, hse, hsn⟩ := hspans
      refine writes_node hnumber (n := .expr (.newArray .unknown elem (n.change .clear))) hspan rfl
        rfl fun fs htag hpart => ?_
      have helem : Decode.typePart fs "elemType" = .ok elem :=
        typePart_of_writes (hpart "elemType" (by decide) (by decide))
          (writes_type hnumber elem he hse)
      have hlength : Decode.exprPart fs "length" = .ok (n.change .clear) :=
        exprPart_of_writes (hpart "length" (by decide) (by decide))
          (writes_expr hnumber n hn hsn) hn
      rw [Decode.unplaced, htag, helem, hlength]
      rfl
  | .newObject span className listed args, ⟨hlisted, hargs⟩, hspans => by
      rw [Expr.spans, List.forall_mem_cons] at hspans
      obtain ⟨hspan, hs⟩ := hspans
      refine writes_node hnumber
        (n := .expr (.newObject .unknown className true (Expr.changeAll .clear args))) hspan rfl rfl
        fun fs htag hpart => ?_
      have hname : name fs "class" = className :=
        congrArg Reading.text (hpart "class" (by decide) (by decide))
      have hitems : Decode.items Decode.asExpr (part fs "args") =
          .ok (Expr.changeAll .clear args) :=
        items_of_exprs (hpart "args" (by decide) (by decide)) hlisted
          (writes_exprs hnumber args hargs hs)
      rw [Decode.unplaced, htag, hname, hitems]
      rfl
  | .call span receiver label listed args, ⟨hr, hlisted, hargs⟩, hspans => by
      rw [Expr.spans, List.forall_mem_cons, List.forall_mem_append] at hspans
      obtain ⟨hspan, hsr, hsa⟩ := hspans
      rw [expr, List.append_assoc]
      refine writes_node hnumber (n := .expr (.call .unknown (receiver.change .clear) label true
        (Expr.changeAll .clear args))) hspan (by split <;> rfl) rfl fun fs htag hpart => ?_
      have hreceiver :=
        receiver_of_writes hpart (hr.imp_right fun h => writes_expr hnumber receiver h hsr)
      have hitems :=
        items_of_exprs (args_of_call hpart) hlisted (writes_exprs hnumber args hargs hsa)
      rw [Decode.unplaced, htag, hreceiver, name_of_call hpart, hitems]
      rfl

theorem writes_exprs (hnumber : Faithful number) : (es : List Expr) → Expr.AllComplete A es →
    (∀ s ∈ Expr.allSpans es, s.Exact) →
    ∀ e ∈ es, Writes (expr number e) (.expr (e.change .clear))
  | [], _, _ => List.forall_mem_nil _
  | e :: es, ⟨he, hes⟩, hspans => by
      rw [Expr.allSpans, List.forall_mem_append] at hspans
      exact List.forall_mem_cons.mpr
        ⟨writes_expr hnumber e he hspans.1, writes_exprs hnumber es hes hspans.2⟩

end

/-! ### Statements -/

theorem stmts_eq_map (ss : List Stmt) : stmts number ss = ss.map (stmt number) := by
  induction ss with
  | nil => rfl
  | cons s ss ih => rw [stmts, ih, List.map_cons]

theorem items_of_stmts {listed : Bool} {body : List Stmt} {r : Reading}
    (hr : r = (listOf listed (stmts number body)).reading) (hlisted : Listing listed body)
    (h : ∀ s ∈ body, Writes (stmt number s) (.stmt (s.change .clear))) :
    Decode.items Decode.asStmt r = .ok (Stmt.changeAll .clear body) := by
  rw [Stmt.changeAll_eq_map]
  rw [stmts_eq_map] at hr
  exact items_of_writes hr hlisted fun s hs => ⟨_, h s hs, rfl⟩

mutual

theorem writes_stmt (hnumber : Faithful number) : (s : Stmt) → s.Complete A →
    (∀ span ∈ s.spans, span.Exact) → Writes (stmt number s) (.stmt (s.change .clear))
  | .block b, hc, hspans => writes_block hnumber b hc hspans
  | .declare span t label, hc, hspans => by
      rw [Stmt.spans, List.forall_mem_cons] at hspans
      obtain ⟨hspan, hs⟩ := hspans
      refine writes_node hnumber (n := .stmt (.declare .unknown t label)) hspan rfl rfl
        fun fs htag hpart => ?_
      have htype : Decode.typePart fs "varType" = .ok t :=
        typePart_of_writes (hpart "varType" (by decide) (by decide)) (writes_type hnumber t hc hs)
      have hname : name fs "name" = label :=
        congrArg Reading.text (hpart "name" (by decide) (by decide))
      rw [Decode.unplaced, htag, htype, hname]
      rfl
  | .branch span cond onTrue onFalse, ⟨hc, ht, hf⟩, hspans => by
      rw [Stmt.spans, List.forall_mem_cons, List.forall_mem_append,
        List.forall_mem_append] at hspans
      obtain ⟨hspan, hsc, hst, hsf⟩ := hspans
      refine writes_node hnumber (n := .stmt (.branch .unknown (cond.change .clear)
        (onTrue.change .clear) (onFalse.change .clear))) hspan rfl rfl fun fs htag hpart => ?_
      have hcond : Decode.exprPart fs "cond" = .ok (cond.change .clear) :=
        exprPart_of_writes (hpart "cond" (by decide) (by decide))
          (writes_expr hnumber cond hc hsc) hc
      have hthen : Decode.blockPart fs "then" = .ok (onTrue.change .clear) :=
        blockPart_of_writes (hpart "then" (by decide) (by decide))
          (writes_block hnumber onTrue ht hst)
      have helse : Decode.blockPart fs "else" = .ok (onFalse.change .clear) :=
        blockPart_of_writes (hpart "else" (by decide) (by decide))
          (writes_block hnumber onFalse hf hsf)
      rw [Decode.unplaced, htag, hcond, hthen, helse]
      rfl
  | .loop span cond body, ⟨hc, hb⟩, hspans => by
      rw [Stmt.spans, List.forall_mem_cons, List.forall_mem_append] at hspans
      obtain ⟨hspan, hsc, hsb⟩ := hspans
      refine writes_node hnumber (n := .stmt (.loop .unknown (cond.change .clear)
        (body.change .clear))) hspan rfl rfl fun fs htag hpart => ?_
      have hcond : Decode.exprPart fs "cond" = .ok (cond.change .clear) :=
        exprPart_of_writes (hpart "cond" (by decide) (by decide))
          (writes_expr hnumber cond hc hsc) hc
      have hbody : Decode.blockPart fs "body" = .ok (body.change .clear) :=
        blockPart_of_writes (hpart "body" (by decide) (by decide))
          (writes_block hnumber body hb hsb)
      rw [Decode.unplaced, htag, hcond, hbody]
      rfl
  | .output span value, hc, hspans => by
      rw [Stmt.spans, List.forall_mem_cons] at hspans
      obtain ⟨hspan, hs⟩ := hspans
      refine writes_node hnumber (n := .stmt (.output .unknown (value.change .clear))) hspan rfl rfl
        fun fs htag hpart => ?_
      have hvalue : Decode.exprPart fs "expr" = .ok (value.change .clear) :=
        exprPart_of_writes (hpart "expr" (by decide) (by decide))
          (writes_expr hnumber value hc hs) hc
      rw [Decode.unplaced, htag, hvalue]
      rfl
  | .assign span v value, ⟨_, hc⟩, hspans => by
      rw [Stmt.spans, List.forall_mem_cons, List.forall_mem_cons] at hspans
      obtain ⟨hspan, hsv, hs⟩ := hspans
      refine writes_node hnumber
        (n := .stmt (.assign .unknown (v.change .clear) (value.change .clear))) hspan rfl rfl
        fun fs htag hpart => ?_
      have hvar : Decode.varPart fs "var" = .ok (v.change .clear) :=
        varPart_of_writes (hpart "var" (by decide) (by decide)) (writes_var hnumber hsv)
      have hvalue : Decode.exprPart fs "value" = .ok (value.change .clear) :=
        exprPart_of_writes (hpart "value" (by decide) (by decide))
          (writes_expr hnumber value hc hs) hc
      rw [Decode.unplaced, htag, hvar, hvalue]
      rfl
  | .assignIndex span array index value, ⟨ha, hi, hv⟩, hspans => by
      rw [Stmt.spans, List.forall_mem_cons, List.forall_mem_append,
        List.forall_mem_append] at hspans
      obtain ⟨hspan, hsa, hsi, hsv⟩ := hspans
      refine writes_node hnumber (n := .stmt (.assignIndex .unknown (array.change .clear)
        (index.change .clear) (value.change .clear))) hspan rfl rfl fun fs htag hpart => ?_
      have harray : Decode.exprPart fs "array" = .ok (array.change .clear) :=
        exprPart_of_writes (hpart "array" (by decide) (by decide))
          (writes_expr hnumber array ha hsa) ha
      have hindex : Decode.exprPart fs "index" = .ok (index.change .clear) :=
        exprPart_of_writes (hpart "index" (by decide) (by decide))
          (writes_expr hnumber index hi hsi) hi
      have hvalue : Decode.exprPart fs "value" = .ok (value.change .clear) :=
        exprPart_of_writes (hpart "value" (by decide) (by decide))
          (writes_expr hnumber value hv hsv) hv
      rw [Decode.unplaced, htag, harray, hindex, hvalue]
      rfl
  | .call span receiver label listed args, ⟨hr, hlisted, hargs⟩, hspans => by
      rw [Stmt.spans, List.forall_mem_cons, List.forall_mem_append] at hspans
      obtain ⟨hspan, hsr, hsa⟩ := hspans
      rw [stmt, List.append_assoc]
      refine writes_node hnumber (n := .stmt (.call .unknown (receiver.change .clear) label true
        (Expr.changeAll .clear args))) hspan (by split <;> rfl) rfl fun fs htag hpart => ?_
      have hreceiver :=
        receiver_of_writes hpart (hr.imp_right fun h => writes_expr hnumber receiver h hsr)
      have hitems :=
        items_of_exprs (args_of_call hpart) hlisted (writes_exprs hnumber args hargs hsa)
      rw [Decode.unplaced, htag, hreceiver, name_of_call hpart, hitems]
      rfl

theorem writes_block (hnumber : Faithful number) : (b : Block) → b.Complete A →
    (∀ span ∈ b.spans, span.Exact) → Writes (block number b) (.stmt (.block (b.change .clear)))
  | .mk span listed body, ⟨hlisted, hbody⟩, hspans => by
      rw [Block.spans, List.forall_mem_cons] at hspans
      obtain ⟨hspan, hs⟩ := hspans
      refine writes_node hnumber (n := .stmt (.block (.mk .unknown true
        (Stmt.changeAll .clear body)))) hspan rfl rfl fun fs htag hpart => ?_
      have hitems : Decode.items Decode.asStmt (part fs "body") =
          .ok (Stmt.changeAll .clear body) :=
        items_of_stmts (hpart "body" (by decide) (by decide)) hlisted
          (writes_stmts hnumber body hbody hs)
      rw [Decode.unplaced, htag, hitems]
      rfl

theorem writes_stmts (hnumber : Faithful number) : (ss : List Stmt) → Stmt.AllComplete A ss →
    (∀ span ∈ Stmt.allSpans ss, span.Exact) →
    ∀ s ∈ ss, Writes (stmt number s) (.stmt (s.change .clear))
  | [], _, _ => List.forall_mem_nil _
  | s :: ss, ⟨hs, hss⟩, hspans => by
      rw [Stmt.allSpans, List.forall_mem_append] at hspans
      exact List.forall_mem_cons.mpr
        ⟨writes_stmt hnumber s hs hspans.1, writes_stmts hnumber ss hss hspans.2⟩

end

/-! ### Routines, classes, commands and programs -/

theorem writes_param (hnumber : Faithful number) {p : Param} (hc : p.type.Complete)
    (hspans : ∀ s ∈ p.spans, s.Exact) : Writes (param number p) (.param p) := by
  rw [Param.spans, List.forall_mem_cons] at hspans
  refine writes_node hnumber (n := .param ⟨.unknown, p.type, p.name⟩) hspans.1 rfl rfl
    fun fs htag hpart => ?_
  have htype : Decode.typePart fs "paramType" = .ok p.type :=
    typePart_of_writes (hpart "paramType" (by decide) (by decide))
      (writes_type hnumber p.type hc hspans.2)
  have hname : name fs "name" = p.name :=
    congrArg Reading.text (hpart "name" (by decide) (by decide))
  rw [Decode.unplaced, htag, htype, hname]
  rfl

theorem writes_field (hnumber : Faithful number) {f : Field} (hc : f.type.Complete)
    (hspans : ∀ s ∈ f.spans, s.Exact) : Writes (field number f) (.field f) := by
  rw [Field.spans, List.forall_mem_cons] at hspans
  refine writes_node hnumber (n := .field ⟨.unknown, f.type, f.name⟩) hspans.1 rfl rfl
    fun fs htag hpart => ?_
  have htype : Decode.typePart fs "fieldType" = .ok f.type :=
    typePart_of_writes (hpart "fieldType" (by decide) (by decide))
      (writes_type hnumber f.type hc hspans.2)
  have hname : name fs "name" = f.name :=
    congrArg Reading.text (hpart "name" (by decide) (by decide))
  rw [Decode.unplaced, htag, htype, hname]
  rfl

theorem forall_spans_of_mem {items : List α} {spans : α → List Span}
    (h : ∀ s ∈ items.flatMap spans, s.Exact) {a : α} (ha : a ∈ items) : ∀ s ∈ spans a, s.Exact :=
  fun s hs => h s (List.mem_flatMap_of_mem ha hs)

/-- A complete routine is found again in its document, whether or not it returns. -/
theorem writes_routine (hnumber : Faithful number) {r : Routine} (hc : r.Complete A)
    (hspans : ∀ s ∈ r.spans, s.Exact) :
    Writes (routine number r) (.routine (r.change .clear)) := by
  obtain ⟨span, label, paramsListed, params, bodyListed, body, returns, count⟩ := r
  rw [Routine.spans, List.forall_mem_cons, List.forall_mem_append,
    List.forall_mem_append] at hspans
  obtain ⟨hspan, hsparams, hsbody, hsreturns⟩ := hspans
  have hparams : ∀ p ∈ params, ∃ n, Writes (param number p) n ∧
      Decode.asParam label n = .ok (id p) := fun p hp =>
    ⟨_, writes_param hnumber (hc.params p hp) (forall_spans_of_mem hsparams hp), rfl⟩
  have hbody := writes_stmts hnumber body hc.body hsbody
  cases returns with
  | none =>
      rw [routine, List.append_assoc]
      refine writes_node hnumber (n := .routine ⟨.unknown, label, true, params, true,
        Stmt.changeAll .clear body, none, 0⟩) hspan rfl rfl fun fs htag hpart => ?_
      have hname : name fs "name" = label :=
        congrArg Reading.text (hpart "name" (by decide) (by decide))
      have hitems :=
        items_of_writes (hpart "params" (by decide) (by decide)) hc.paramsListed hparams
      have hstmts := items_of_stmts (hpart "body" (by decide) (by decide)) hc.bodyListed hbody
      rw [List.map_id] at hitems
      have hroutine : Decode.routine fs false = .ok (.routine ⟨.unknown, label, true, params, true,
          Stmt.changeAll .clear body, none, 0⟩) := by
        rw [Decode.routine, hname, hitems, hstmts]
        rfl
      rw [Decode.unplaced, htag]
      exact hroutine
  | some returns =>
      obtain ⟨htype, hresult⟩ := hc.returns returns rfl
      rw [Option.toList_some, List.flatMap_singleton, Returns.spans,
        List.forall_mem_append] at hsreturns
      rw [routine, List.append_assoc]
      refine writes_node hnumber (n := .routine ⟨.unknown, label, true, params, true,
        Stmt.changeAll .clear body, some (returns.change .clear), 0⟩) hspan rfl rfl
        fun fs htag hpart => ?_
      have hname : name fs "name" = label :=
        congrArg Reading.text (hpart "name" (by decide) (by decide))
      have hitems :=
        items_of_writes (hpart "params" (by decide) (by decide)) hc.paramsListed hparams
      have hstmts := items_of_stmts (hpart "body" (by decide) (by decide)) hc.bodyListed hbody
      rw [List.map_id] at hitems
      have htypePart : Decode.typePart fs "returnType" = .ok returns.type :=
        typePart_of_writes (hpart "returnType" (by decide) (by decide))
          (writes_type hnumber returns.type htype hsreturns.1)
      have hresultPart : Decode.exprPart fs "result" = .ok (returns.result.change .clear) :=
        exprPart_of_writes (hpart "result" (by decide) (by decide))
          (writes_expr hnumber returns.result hresult hsreturns.2) hresult
      have hroutine : Decode.routine fs true = .ok (.routine ⟨.unknown, label, true, params, true,
          Stmt.changeAll .clear body, some (returns.change .clear), 0⟩) := by
        rw [Decode.routine, hname, hitems, hstmts, htypePart, hresultPart]
        rfl
      rw [Decode.unplaced, htag]
      exact hroutine

theorem writes_routines (hnumber : Faithful number) {routines : List (Option Routine)}
    (hc : ∀ r ∈ routines, Routine.Present A r)
    (hspans : ∀ s ∈ (routines.filterMap id).flatMap Routine.spans, s.Exact) :
    ∀ r ∈ routines, ∃ n, Writes (optional (routine number) r) n ∧
      Decode.asRoutine n = .ok (r.map (Routine.change .clear)) := by
  intro r hr
  obtain ⟨decl, rfl, hdecl⟩ := hc r hr
  have hmem : decl ∈ routines.filterMap id := List.mem_filterMap.mpr ⟨some decl, hr, rfl⟩
  exact ⟨_, writes_routine hnumber hdecl (forall_spans_of_mem hspans hmem), rfl⟩

theorem writes_class (hnumber : Faithful number) {c : ClassDecl} (hc : c.Complete A)
    (hspans : ∀ s ∈ c.spans, s.Exact) :
    Writes (classDecl number c) (.classDecl (c.change .clear)) := by
  rw [ClassDecl.spans, List.forall_mem_cons, List.forall_mem_append] at hspans
  obtain ⟨hspan, hsfields, hsmethods⟩ := hspans
  have hfields : ∀ f ∈ c.fields, ∃ n, Writes (field number f) n ∧
      Decode.asField c.name n = .ok (id f) := fun f hf =>
    ⟨_, writes_field hnumber (hc.fields f hf) (forall_spans_of_mem hsfields hf), rfl⟩
  have hmethods := writes_routines hnumber hc.methods hsmethods
  rw [classDecl, List.append_assoc, List.append_assoc]
  refine writes_node hnumber (n := .classDecl ⟨.unknown, c.name, c.parent, true, c.fields, true,
    c.methods.map (Option.map (Routine.change .clear))⟩) hspan (by split <;> rfl) rfl
    fun fs htag hpart => ?_
  have hname : name fs "name" = c.name := by
    rw [name, hpart "name" (by decide) (by decide)]
    split <;> rfl
  have hparent : name fs "parent" = c.parent := by
    rw [name, hpart "parent" (by decide) (by decide)]
    split
    · next hempty => exact hempty.symm
    · rfl
  have hitems : Decode.items (Decode.asField c.name) (part fs "fields") =
      .ok (c.fields.map id) := by
    refine items_of_writes ?_ hc.fieldsListed hfields
    rw [hpart "fields" (by decide) (by decide)]
    split <;> rfl
  have hmembers : Decode.items Decode.asRoutine (part fs "methods") =
      .ok (c.methods.map (Option.map (Routine.change .clear))) := by
    refine items_of_writes ?_ hc.methodsListed hmethods
    rw [hpart "methods" (by decide) (by decide)]
    split <;> rfl
  rw [List.map_id] at hitems
  have hclass : Decode.classDecl fs = .ok (.classDecl ⟨.unknown, c.name, c.parent, true, c.fields,
      true, c.methods.map (Option.map (Routine.change .clear))⟩) := by
    rw [Decode.classDecl, hname, hparent, hitems, hmembers]
    rfl
  rw [Decode.unplaced, htag]
  exact hclass

theorem writes_command (hnumber : Faithful number) : (c : Command) → c.Complete A →
    (∀ s ∈ c.spans, s.Exact) → Writes (command number c) (.command (c.change .clear))
  | .call span label listed args, ⟨hlisted, hargs⟩, hspans => by
      rw [Command.spans, List.forall_mem_cons] at hspans
      refine writes_node hnumber (n := .command (.call .unknown label true
        (Expr.changeAll .clear args))) hspans.1 rfl rfl fun fs htag hpart => ?_
      have hname : name fs "name" = label :=
        congrArg Reading.text (hpart "name" (by decide) (by decide))
      have hitems := items_of_exprs (hpart "args" (by decide) (by decide)) hlisted
        (writes_exprs hnumber args hargs hspans.2)
      rw [Decode.unplaced, htag, hname, hitems]
      rfl
  | .eval span e, hc, hspans => by
      rw [Command.spans, List.forall_mem_cons] at hspans
      refine writes_node hnumber (n := .command (.eval .unknown (e.change .clear))) hspans.1 rfl rfl
        fun fs htag hpart => ?_
      have hexpr : Decode.exprPart fs "expr" = .ok (e.change .clear) :=
        exprPart_of_writes (hpart "expr" (by decide) (by decide))
          (writes_expr hnumber e hc hspans.2) hc
      rw [Decode.unplaced, htag, hexpr]
      rfl

/-- A complete program is found again in its document. -/
theorem writes_program (hnumber : Faithful number) {p : Program} (hc : p.Complete A)
    (hspans : ∀ s ∈ p.spans, s.Exact) :
    Writes (program number p) (.program (p.change .clear)) := by
  rw [Program.spans, List.forall_mem_cons, List.forall_mem_append,
    List.forall_mem_append] at hspans
  obtain ⟨hspan, hsroutines, hsclasses, hscommands⟩ := hspans
  have hclasses : ∀ c ∈ p.classes, ∃ n, Writes (optional (classDecl number) c) n ∧
      Decode.asClass n = .ok (c.map (ClassDecl.change .clear)) := by
    intro c hmem
    obtain ⟨decl, rfl, hdecl⟩ := hc.classes c hmem
    have hdeclMem : decl ∈ p.classes.filterMap id := List.mem_filterMap.mpr ⟨some decl, hmem, rfl⟩
    exact ⟨_, writes_class hnumber hdecl (forall_spans_of_mem hsclasses hdeclMem), rfl⟩
  have hcommands : ∀ c ∈ p.commands, ∃ n, Writes (command number c) n ∧
      Decode.asCommand n = .ok (c.change .clear) := fun c hmem =>
    ⟨_, writes_command hnumber c (hc.commands c hmem) (forall_spans_of_mem hscommands hmem), rfl⟩
  refine writes_node hnumber (n := .program ⟨.unknown, true,
    p.routines.map (Option.map (Routine.change .clear)), true,
    p.classes.map (Option.map (ClassDecl.change .clear)), true,
    p.commands.map (Command.change .clear)⟩) hspan rfl rfl fun fs htag hpart => ?_
  have hr := items_of_writes (hpart "routines" (by decide) (by decide)) hc.routinesListed
    (writes_routines hnumber hc.routines hsroutines)
  have hcl := items_of_writes (hpart "classes" (by decide) (by decide)) hc.classesListed hclasses
  have hcm := items_of_writes (hpart "commands" (by decide) (by decide)) hc.commandsListed hcommands
  have hprogram : Decode.program fs = .ok (.program ⟨.unknown, true,
      p.routines.map (Option.map (Routine.change .clear)), true,
      p.classes.map (Option.map (ClassDecl.change .clear)), true,
      p.commands.map (Command.change .clear)⟩) := by
    rw [Decode.program, hr, hcl, hcm]
    rfl
  rw [Decode.unplaced, htag]
  exact hprogram

end Trees

theorem faithful_ofWhole : Faithful Document.ofWhole := fun _ h => Document.toInt_ofWhole h

/-- Reading what was written for a complete program gives it back without its annotations. -/
theorem ofFields_program {A : Annotations} {p : Program} (hc : p.Complete A)
    (hspans : ∀ s ∈ p.spans, s.Exact) :
    ∃ fields, program Document.ofWhole p = .object fields ∧
      Program.ofFields fields = .ok (p.change .clear) := by
  obtain ⟨fields, hfields, hnode⟩ := writes_program faithful_ofWhole hc hspans
  refine ⟨fields, hfields, ?_⟩
  rw [Program.ofFields, hnode]
  rfl

end Encode

/-- A complete program whose spans have at most 53 bits is found again in its document, with its
annotations cleared and every list listed; and a program that was read from any document is found
again in its own document as it was, with every list listed. -/
theorem program_round_trip :
    (∀ p : Program, p.Complete .any → (∀ s ∈ p.spans, s.Exact) →
      ∃ fields, Encode.program Document.ofWhole p = .object fields ∧
        Program.ofFields fields = .ok (p.change .clear)) ∧
    (∀ document p, Program.ofFields document = .ok p → (∀ s ∈ p.spans, s.Exact) →
      ∃ fields, Encode.program Document.ofWhole p = .object fields ∧
        Program.ofFields fields = .ok (p.change .list)) := by
  refine ⟨fun p hc hspans => Encode.ofFields_program hc hspans, fun document p h hspans => ?_⟩
  have hc : p.Complete .none := Program.complete_of_ofFields Annotations.optional_none h
  rw [← Program.change_clear hc]
  exact Encode.ofFields_program hc hspans

/-- A function with a slot count, whose loop writes to a variable with a slot, and a call of it
whose arguments are not listed. -/
def countdownProgram : Program where
  span := ⟨1, 1⟩
  routinesListed := true
  routines := [some {
    span := ⟨1, 1⟩
    name := "countdown"
    paramsListed := true
    params := [⟨⟨1, 14⟩, .array ⟨1, 14⟩ (.int ⟨1, 14⟩), "xs"⟩]
    bodyListed := true
    body := [.declare ⟨2, 3⟩ (.int ⟨2, 3⟩) "n",
      .loop ⟨3, 3⟩
        (.binary ⟨3, 10⟩ "<" (.var ⟨3, 10⟩ ⟨⟨3, 10⟩, "n", .frame 2⟩) (.integer ⟨3, 14⟩ 5))
        (.mk .unknown true [.assign ⟨4, 5⟩ ⟨⟨4, 5⟩, "n", .frame 2⟩ (.integer ⟨4, 10⟩ 5)])]
    returns := some ⟨.int .unknown, .integer ⟨6, 9007199254740992⟩ (-2147483648)⟩
    stackSlots := 1 }]
  classesListed := false
  classes := []
  commandsListed := true
  commands := [.eval .unknown (.call .unknown .missing "countdown" false [])]

/-- A branch without a second block, in the shorthand for types and blocks. -/
def shorthandDocument : List (String × Document) :=
  [("type", .text "Program"),
    ("routines", .list [.object [("type", .text "ProcDecl"), ("name", .text "main"),
      ("body", .list [
        .object [("type", .text "StmVarDecl"), ("varType", .text "int[]"), ("name", .text "xs")],
        .object [("type", .text "StmIf"), ("cond", .object [("type", .text "ExpTrue")]),
          ("then", .list [])]])]])]

/-- What `shorthandDocument` is read as. -/
def shorthandProgram : Program :=
  ⟨.unknown, true, [some ⟨.unknown, "main", true, [], true,
    [.declare .unknown (.array .unknown (.int .unknown)) "xs",
      .branch .unknown (.truth .unknown true) (.mk .unknown true []) (.mk .unknown false [])],
    none, 0⟩], true, [], true, []⟩

theorem program_round_trip_countdown :
    (countdownProgram.Complete .any ∧ (∀ s ∈ countdownProgram.spans, s.Exact) ∧
      ∃ fields, Encode.program Document.ofWhole countdownProgram = .object fields ∧
        Program.ofFields fields = .ok (countdownProgram.change .clear)) ∧
    (Program.ofFields shorthandDocument = .ok shorthandProgram ∧
      (∀ s ∈ shorthandProgram.spans, s.Exact) ∧
      ∃ fields, Encode.program Document.ofWhole shorthandProgram = .object fields ∧
        Program.ofFields fields = .ok (shorthandProgram.change .list)) := by
  have hcomplete : countdownProgram.Complete .any := by
    refine ⟨nofun, List.forall_mem_singleton.mpr ⟨_, rfl, nofun, ?_, nofun, ?_, ?_, trivial⟩,
      fun _ => rfl, List.forall_mem_nil _, nofun, List.forall_mem_singleton.mpr ?_⟩
    · exact List.forall_mem_singleton.mpr trivial
    · exact ⟨trivial, ⟨⟨by decide, trivial, trivial⟩, nofun, ⟨trivial, trivial⟩, trivial⟩, trivial⟩
    · rintro _ ⟨⟩
      exact ⟨trivial, trivial⟩
    · exact ⟨.inl rfl, fun _ => rfl, trivial⟩
  have hexact : ∀ s ∈ countdownProgram.spans, s.Exact := by decide
  have hdecoded : Program.ofFields shorthandDocument = .ok shorthandProgram := by cbv
  have hshort : ∀ s ∈ shorthandProgram.spans, s.Exact := by decide
  exact ⟨⟨hcomplete, hexact, program_round_trip.1 _ hcomplete hexact⟩,
    hdecoded, hshort, program_round_trip.2 _ _ hdecoded hshort⟩

end ObjectLang
