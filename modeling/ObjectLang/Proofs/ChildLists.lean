import ObjectLang.Proofs.RoundTrip

/-! What becomes of the children in a document. A node has single children and lists of children, each
under a key of its object, and reading a program goes down to them, also to the statements of a bare
list that stands for a block. At every object that it comes to, a list under such a key is read element
by element into the list of the node. Whatever else stands there is read as no children at all. -/

namespace ObjectLang

namespace Node

/-- The lists of children of a node, under the keys that its document has for them. -/
def childLists : Node → List (String × List (Option Node))
  | .program p =>
    [("routines", p.routines.map (Option.map .routine)),
      ("classes", p.classes.map (Option.map .classDecl)),
      ("commands", p.commands.map fun c => some (.command c))]
  | .classDecl c =>
    [("fields", c.fields.map fun f => some (.field f)),
      ("methods", c.methods.map (Option.map .routine))]
  | .routine r =>
    [("params", r.params.map fun p => some (.param p)), ("body", r.body.map fun s => some (.stmt s))]
  | .stmt (.block b) => [("body", b.body.map fun s => some (.stmt s))]
  | .command (.call _ _ _ args) | .stmt (.call _ _ _ _ args) | .expr (.newObject _ _ _ args)
  | .expr (.call _ _ _ _ args) => [("args", args.map fun e => some (.expr e))]
  | _ => []

/-- The single children of a node, under the keys that its document has for them. -/
def childParts : Node → List (String × Node)
  | .field f => [("fieldType", .type f.type)]
  | .param p => [("paramType", .type p.type)]
  | .routine r =>
    match r.returns with
    | none => []
    | some returns => [("returnType", .type returns.type), ("result", .expr returns.result)]
  | .type (.array _ elem) => [("elem", .type elem)]
  | .command (.eval _ e) => [("expr", .expr e)]
  | .stmt (.declare _ t _) => [("varType", .type t)]
  | .stmt (.branch _ cond onTrue onFalse) =>
    [("cond", .expr cond), ("then", .stmt (.block onTrue)), ("else", .stmt (.block onFalse))]
  | .stmt (.loop _ cond body) => [("cond", .expr cond), ("body", .stmt (.block body))]
  | .stmt (.output _ value) => [("expr", .expr value)]
  | .stmt (.assign _ v value) => [("var", .var v), ("value", .expr value)]
  | .stmt (.assignIndex _ array index value) =>
    [("array", .expr array), ("index", .expr index), ("value", .expr value)]
  | .expr (.var _ v) => [("var", .var v)]
  | .expr (.not _ operand) | .expr (.isNull _ operand) => [("operand", .expr operand)]
  | .expr (.binary _ _ left right) => [("left", .expr left), ("right", .expr right)]
  | .expr (.index _ array index) => [("array", .expr array), ("index", .expr index)]
  | .expr (.length _ array) => [("array", .expr array)]
  | .expr (.newArray _ elem length) => [("elemType", .type elem), ("length", .expr length)]
  | .stmt (.call _ receiver _ _ _) | .expr (.call _ receiver _ _ _) => [("receiver", .expr receiver)]
  | _ => []

theorem childLists_withSpan (n : Node) (span : Span) :
    (n.withSpan span).childLists = n.childLists := by
  cases n with
  | type t => cases t <;> rfl
  | command c => cases c <;> rfl
  | expr e => cases e <;> rfl
  | stmt s =>
      cases s with
      | block b => cases b <;> rfl
      | _ => rfl
  | _ => rfl

theorem childParts_withSpan (n : Node) (span : Span) :
    (n.withSpan span).childParts = n.childParts := by
  cases n with
  | type t => cases t <;> rfl
  | command c => cases c <;> rfl
  | expr e => cases e <;> rfl
  | stmt s => cases s <;> rfl
  | _ => rfl

end Node

/-- A document below the fields of a program, and the node that it was read as. -/
inductive DecodedInto (fields : List (String × Document)) (p : Program) : Document → Node → Prop where
  | root : DecodedInto fields p (.object fields) (.program p)
  | part {node : List (String × Document)} {n child : Node} {key : String}
      (h : DecodedInto fields p (.object node) n) (hkey : (key, child) ∈ n.childParts) :
      DecodedInto fields p (Document.field node key) child
  | item {node : List (String × Document)} {n child : Node} {key : String} {ds : List Document}
      {d : Document} {children : List (Option Node)} (h : DecodedInto fields p (.object node) n)
      (hkey : (key, children) ∈ n.childLists) (hlist : Document.field node key = .list ds)
      (hitem : (d, some child) ∈ ds.zip children) : DecodedInto fields p d child
  | listed {ds : List Document} {b : Block} {d : Document} {s : Stmt}
      (h : DecodedInto fields p (.list ds) (.stmt (.block b))) (hitem : (d, s) ∈ ds.zip b.body) :
      DecodedInto fields p d (.stmt s)

/-- The elements of a list were read as the children of a node, one by one and in order; anything but
a list was read as no children. -/
def Document.Lists : Document → List (Option Node) → Prop
  | .list ds, children =>
    List.Forall₂ (fun d child => ∃ n, child = some n ∧ Encode.Writes d n) ds children
  | _, children => children = []

/-- An object was read as a node, and a bare list as a block of its statements. -/
def Document.Shows : Document → Node → Prop
  | .object fields, n => Decode.node (fieldReadings fields) = .ok n
  | .list ds, n => ∃ b, n = .stmt (.block b) ∧ Document.Lists (.list ds) (b.body.map fun s => some (.stmt s))
  | _, _ => True

/-- Every child of a node was read from what stands under its key. -/
structure Node.ReadFrom (fields : List (String × Document)) (n : Node) : Prop where
  parts : n.childParts.Forall fun part => (Document.field fields part.1).Shows part.2
  lists : n.childLists.Forall fun list => (Document.field fields list.1).Lists list.2

theorem Node.ReadFrom.withSpan {fields : List (String × Document)} {n : Node} (h : n.ReadFrom fields)
    (span : Span) : (n.withSpan span).ReadFrom fields :=
  ⟨n.childParts_withSpan span ▸ h.parts, n.childLists_withSpan span ▸ h.lists⟩

theorem Document.shows_of_node {d : Document} : Ensures d.Shows d.reading.node := by
  intro n h
  cases d with
  | object fields => exact h
  | list ds => cases h
  | _ => trivial

theorem Document.Shows.of_writes {d : Document} {n : Node} (h : Encode.Writes d n) : d.Shows n := by
  obtain ⟨fields, rfl, hnode⟩ := h
  exact hnode

theorem Document.writes_of_node {d : Document} : Ensures (Encode.Writes d) d.reading.node := by
  intro n h
  cases d with
  | object fields => exact ⟨fields, rfl, h⟩
  | _ => cases h

namespace Decode

theorem part_fieldReadings (fields : List (String × Document)) (key : String) :
    part (Document.fieldReadings fields) key = (Document.field fields key).reading := by
  induction fields with
  | nil => rfl
  | cons field rest ih =>
      obtain ⟨other, d⟩ := field
      rw [part, Document.field, Document.fieldReadings, List.lookup_cons, List.lookup_cons]
      cases key == other with
      | true => rfl
      | false => exact ih

theorem mapM_lists {narrow : Node → Except DecodeError α} {wrap : α → Option Node}
    (hnarrow : ∀ n, Ensures (fun a => wrap a = some n) (narrow n)) (ds : List Document) :
    Ensures (fun as => (Document.list ds).Lists (as.map wrap))
      ((Document.itemReadings ds).mapM fun item => item >>= narrow) := by
  induction ds with
  | nil => exact .ok .nil
  | cons d ds ih =>
      rw [Document.itemReadings, List.mapM_cons]
      have hhead : Ensures (fun a => ∃ n, wrap a = some n ∧ Encode.Writes d n)
          (d.reading.node >>= narrow) :=
        Document.writes_of_node.bind fun n hn a ha => ⟨n, hnarrow n a ha, hn⟩
      exact hhead.bind fun a ha => ih.bind fun as has => .ok (.cons ha has)

variable {fields : List (String × Document)}

/-- What the items of a part are narrowed to is what its elements were read as. -/
theorem items_lists {narrow : Node → Except DecodeError α} {wrap : α → Option Node}
    (hnarrow : ∀ n, Ensures (fun a => wrap a = some n) (narrow n)) (key : String) :
    Ensures (fun as => (Document.field fields key).Lists (as.map wrap))
      (items narrow (part (Document.fieldReadings fields) key)) := by
  rw [part_fieldReadings, items]
  cases Document.field fields key with
  | list ds => exact mapM_lists hnarrow ds
  | _ => exact .ok rfl

theorem exprs_lists (key : String) :
    Ensures (fun es => (Document.field fields key).Lists (es.map fun e => some (.expr e)))
      (items asExpr (part (Document.fieldReadings fields) key)) := by
  refine items_lists (fun n => ?_) key
  cases n with
  | expr e => exact .ok rfl
  | _ => exact .error _

theorem stmts_lists (key : String) :
    Ensures (fun ss => (Document.field fields key).Lists (ss.map fun s => some (.stmt s)))
      (items asStmt (part (Document.fieldReadings fields) key)) := by
  refine items_lists (fun n => ?_) key
  cases n with
  | stmt s => exact .ok rfl
  | _ => exact .error _

theorem routines_lists (key : String) :
    Ensures (fun rs => (Document.field fields key).Lists (rs.map (Option.map .routine)))
      (items asRoutine (part (Document.fieldReadings fields) key)) := by
  refine items_lists (fun n => ?_) key
  cases n with
  | routine r => exact .ok rfl
  | _ => exact .error _

theorem classes_lists (key : String) :
    Ensures (fun cs => (Document.field fields key).Lists (cs.map (Option.map .classDecl)))
      (items asClass (part (Document.fieldReadings fields) key)) := by
  refine items_lists (fun n => ?_) key
  cases n with
  | classDecl c => exact .ok rfl
  | _ => exact .error _

theorem commands_lists (key : String) :
    Ensures (fun cs => (Document.field fields key).Lists (cs.map fun c => some (.command c)))
      (items asCommand (part (Document.fieldReadings fields) key)) := by
  refine items_lists (fun n => ?_) key
  cases n with
  | command c => exact .ok rfl
  | _ => exact .error _

theorem fields_lists (className key : String) :
    Ensures (fun fs => (Document.field fields key).Lists (fs.map fun f => some (.field f)))
      (items (asField className) (part (Document.fieldReadings fields) key)) := by
  refine items_lists (fun n => ?_) key
  cases n with
  | field f => exact .ok rfl
  | _ => exact .error _

theorem params_lists (label key : String) :
    Ensures (fun ps => (Document.field fields key).Lists (ps.map fun p => some (.param p)))
      (items (asParam label) (part (Document.fieldReadings fields) key)) := by
  refine items_lists (fun n => ?_) key
  cases n with
  | param p => exact .ok rfl
  | _ => exact .error _

theorem typePart_shows (key : String) :
    Ensures (fun t => (Document.field fields key).Shows (.type t))
      (typePart (Document.fieldReadings fields) key) := by
  dsimp only [typePart]
  rw [part_fieldReadings, Document.source_reading]
  split
  · exact .error _
  · next htext =>
      rw [htext]
      exact fun _ _ => trivial
  · refine Document.shows_of_node.bind fun n hn => ?_
    cases n with
    | type t => exact .ok hn
    | _ => exact .error _

theorem optionalExpr_shows (key : String) :
    Ensures (fun e => (Document.field fields key).Shows (.expr e))
      (optionalExpr (Document.fieldReadings fields) key) := by
  dsimp only [optionalExpr]
  rw [part_fieldReadings, Document.source_reading]
  split
  · next hnull =>
      rw [hnull]
      exact .ok trivial
  · refine (Document.shows_of_node.within _).bind fun n hn => ?_
    cases n with
    | expr e => exact .ok hn
    | _ => exact .error _

theorem exprPart_shows (key : String) :
    Ensures (fun e => (Document.field fields key).Shows (.expr e))
      (exprPart (Document.fieldReadings fields) key) := by
  refine (optionalExpr_shows key).bind fun e he => ?_
  split
  · exact .error _
  · exact .ok he

theorem blockPart_shows (key : String) :
    Ensures (fun b => (Document.field fields key).Shows (.stmt (.block b)))
      (blockPart (Document.fieldReadings fields) key) := by
  have hitems : Ensures _ (items asStmt (part (Document.fieldReadings fields) key)) := stmts_lists key
  dsimp only [blockPart]
  rw [part_fieldReadings] at hitems ⊢
  rw [Document.source_reading]
  split
  · next hnull =>
      rw [hnull]
      exact .ok trivial
  · next ds hlist =>
      rw [hlist] at hitems ⊢
      exact (hitems.within _).bind fun body hbody => .ok ⟨_, rfl, hbody⟩
  · refine (Document.shows_of_node.within _).bind fun n hn => ?_
    split
    · exact .ok hn
    · exact .error _

theorem varPart_shows (key : String) :
    Ensures (fun v => (Document.field fields key).Shows (.var v))
      (varPart (Document.fieldReadings fields) key) := by
  dsimp only [varPart]
  rw [part_fieldReadings, Document.source_reading]
  split
  · exact .error _
  · next htext =>
      rw [htext]
      exact .ok trivial
  · refine (Document.shows_of_node.within _).bind fun n hn => ?_
    cases n with
    | var v => exact .ok hn
    | _ => exact .error _
  · exact .error _

theorem routine_readFrom (isFunction : Bool) :
    Ensures (Node.ReadFrom fields) (routine (Document.fieldReadings fields) isFunction) := by
  refine (params_lists _ "params").bind fun params hparams =>
    ((stmts_lists "body").within _).bind fun body hbody => ?_
  split
  · exact ((typePart_shows "returnType").within _).bind fun type htype =>
      ((exprPart_shows "result").within _).bind fun result hresult =>
        .ok ⟨⟨htype, hresult⟩, ⟨hparams, hbody⟩⟩
  · exact .ok ⟨trivial, ⟨hparams, hbody⟩⟩

theorem classDecl_readFrom :
    Ensures (Node.ReadFrom fields) (classDecl (Document.fieldReadings fields)) :=
  (fields_lists _ "fields").bind fun _ hmembers =>
    ((routines_lists "methods").within _).bind fun _ hmethods =>
      .ok ⟨trivial, ⟨hmembers, hmethods⟩⟩

theorem program_readFrom : Ensures (Node.ReadFrom fields) (program (Document.fieldReadings fields)) :=
  (routines_lists "routines").bind fun _ hroutines =>
    (classes_lists "classes").bind fun _ hclasses =>
      (commands_lists "commands").bind fun _ hcommands =>
        .ok ⟨trivial, ⟨hroutines, hclasses, hcommands⟩⟩

theorem literal_readFrom : Ensures (Node.ReadFrom fields) (literal (Document.fieldReadings fields)) := by
  have hvalue : Ensures (fun _ => True) (part (Document.fieldReadings fields) "value").source.toInt :=
    fun _ _ => trivial
  refine hvalue.bind fun n _ => ?_
  split
  · exact .ok ⟨trivial, trivial⟩
  · exact .error _

theorem binary_readFrom : Ensures (Node.ReadFrom fields) (binary (Document.fieldReadings fields)) := by
  dsimp only [binary]
  split
  · exact .error _
  · exact (exprPart_shows "left").bind fun _ hl =>
      (exprPart_shows "right").bind fun _ hr => .ok ⟨⟨hl, hr⟩, trivial⟩

/-- The children of a node were read from its fields, whatever its tag. -/
theorem unplaced_readFrom : Ensures (Node.ReadFrom fields) (unplaced (Document.fieldReadings fields)) := by
  unfold unplaced
  split
  · exact program_readFrom
  · exact classDecl_readFrom
  · exact (typePart_shows "fieldType").bind fun _ ht => .ok ⟨ht, trivial⟩
  · exact (typePart_shows "paramType").bind fun _ ht => .ok ⟨ht, trivial⟩
  · exact routine_readFrom false
  · exact routine_readFrom true
  · exact .ok ⟨trivial, trivial⟩
  · exact .ok ⟨trivial, trivial⟩
  · exact .ok ⟨trivial, trivial⟩
  · exact (typePart_shows "elem").bind fun _ ht => .ok ⟨ht, trivial⟩
  · exact (exprs_lists "args").bind fun _ hargs => .ok ⟨trivial, hargs⟩
  · exact (exprPart_shows "expr").bind fun _ he => .ok ⟨he, trivial⟩
  · exact .ok ⟨trivial, trivial⟩
  · exact (stmts_lists "body").bind fun _ hbody => .ok ⟨trivial, hbody⟩
  · exact (typePart_shows "varType").bind fun _ ht => .ok ⟨ht, trivial⟩
  · exact (exprPart_shows "cond").bind fun _ hc =>
      (blockPart_shows "then").bind fun _ ht =>
        (blockPart_shows "else").bind fun _ hf => .ok ⟨⟨hc, ht, hf⟩, trivial⟩
  · exact (exprPart_shows "cond").bind fun _ hc =>
      (blockPart_shows "body").bind fun _ hb => .ok ⟨⟨hc, hb⟩, trivial⟩
  · exact (exprPart_shows "expr").bind fun _ he => .ok ⟨he, trivial⟩
  · exact (varPart_shows "var").bind fun _ hv =>
      (exprPart_shows "value").bind fun _ he => .ok ⟨⟨hv, he⟩, trivial⟩
  · exact (exprPart_shows "array").bind fun _ ha =>
      (exprPart_shows "index").bind fun _ hi =>
        (exprPart_shows "value").bind fun _ hv => .ok ⟨⟨ha, hi, hv⟩, trivial⟩
  · exact (optionalExpr_shows "receiver").bind fun _ hr =>
      (exprs_lists "args").bind fun _ hargs => .ok ⟨hr, hargs⟩
  · exact literal_readFrom
  · exact .ok ⟨trivial, trivial⟩
  · exact .ok ⟨trivial, trivial⟩
  · exact (varPart_shows "var").bind fun _ hv => .ok ⟨hv, trivial⟩
  · exact .ok ⟨trivial, trivial⟩
  · exact (exprPart_shows "operand").bind fun _ he => .ok ⟨he, trivial⟩
  · exact (exprPart_shows "operand").bind fun _ he => .ok ⟨he, trivial⟩
  · exact binary_readFrom
  · exact (exprPart_shows "array").bind fun _ ha =>
      (exprPart_shows "index").bind fun _ hi => .ok ⟨⟨ha, hi⟩, trivial⟩
  · exact (exprPart_shows "array").bind fun _ ha => .ok ⟨ha, trivial⟩
  · exact (typePart_shows "elemType").bind fun _ ht =>
      (exprPart_shows "length").bind fun _ hn => .ok ⟨⟨ht, hn⟩, trivial⟩
  · exact (exprs_lists "args").bind fun _ hargs => .ok ⟨trivial, hargs⟩
  · exact (optionalExpr_shows "receiver").bind fun _ hr =>
      (exprs_lists "args").bind fun _ hargs => .ok ⟨hr, hargs⟩
  · exact .error _
  · exact .error _

theorem node_readFrom : Ensures (Node.ReadFrom fields) (node (Document.fieldReadings fields)) := by
  refine unplaced_readFrom.bind fun n hn => ?_
  split
  · exact .ok (hn.withSpan _)
  · exact .ok hn

end Decode

/-! ### Everything that was read -/

/-- Whatever reading a program comes to shows the node that it was read as. -/
theorem DecodedInto.shows {fields : List (String × Document)} {p : Program}
    (hp : Program.ofFields fields = .ok p) {d : Document} {n : Node} (h : DecodedInto fields p d n) :
    d.Shows n := by
  induction h with
  | root =>
      rw [Program.ofFields] at hp
      cases hnode : Decode.node (Document.fieldReadings fields) with
      | error e =>
          rw [hnode] at hp
          cases hp
      | ok n =>
          rw [hnode] at hp
          cases n <;> cases hp
          exact hnode
  | part _ hkey ih =>
      exact List.forall_iff_forall_mem.mp (Decode.node_readFrom _ ih).parts _ hkey
  | item _ hkey hlist hitem ih =>
      have hlists := List.forall_iff_forall_mem.mp (Decode.node_readFrom _ ih).lists _ hkey
      rw [hlist] at hlists
      obtain ⟨n, hn, hwrites⟩ := (List.forall₂_iff_zip.mp hlists).2 hitem
      cases hn
      exact .of_writes hwrites
  | listed _ hitem ih =>
      obtain ⟨b, hb, hlists⟩ := ih
      cases hb
      rw [Document.Lists, List.forall₂_map_right_iff] at hlists
      obtain ⟨n, hn, hwrites⟩ := (List.forall₂_iff_zip.mp hlists).2 hitem
      cases hn
      exact .of_writes hwrites

/-- **What decoding does with lists of children.** At every object that a program was read from, a list
under a key for children is read element by element, in order, into that list of the node; and if
anything else stands there, or nothing, that list of the node is empty. -/
theorem child_lists_kept {fields : List (String × Document)} {p : Program}
    (hp : Program.ofFields fields = .ok p) {node : List (String × Document)} {n : Node}
    (hat : DecodedInto fields p (.object node) n) :
    Decode.node (Document.fieldReadings node) = .ok n ∧
    ∀ key children, (key, children) ∈ n.childLists →
      (∃ ds, Document.field node key = .list ds ∧
        List.Forall₂ (fun d child => ∃ m, child = some m ∧ Encode.Writes d m) ds children) ∨
      ((∀ ds, Document.field node key ≠ .list ds) ∧ children = []) := by
  have hnode : Decode.node (Document.fieldReadings node) = .ok n := hat.shows hp
  refine ⟨hnode, fun key children hkey => ?_⟩
  have hlists : (Document.field node key).Lists children :=
    List.forall_iff_forall_mem.mp (Decode.node_readFrom n hnode).lists _ hkey
  cases hvalue : Document.field node key with
  | list ds =>
      rw [hvalue] at hlists
      exact .inl ⟨ds, rfl, hlists⟩
  | _ =>
      rw [hvalue] at hlists
      exact .inr ⟨nofun, hlists⟩

/-- A procedure that prints a truth value, with a body of a given form. -/
def printingProcedure (name : String) (body : List Document → Document) : List (String × Document) :=
  [("type", .text "ProcDecl"), ("name", .text name),
    ("body", body [.object [("type", .text "StmOutput"),
      ("expr", .object [("type", .text "ExpTrue")])]])]

/-- Two procedures: the body of the first is a list, that of the second a block node. -/
def proceduresDocument : List (String × Document) :=
  [("type", .text "Program"), ("routines", .list [.object (printingProcedure "listed" .list),
    .object (printingProcedure "block" fun body =>
      .object [("type", .text "StmBlock"), ("body", .list body)])])]

/-- A procedure without parameters. -/
def bareProcedure (name : String) (body : List Stmt) : Routine :=
  ⟨.unknown, name, true, [], true, body, none, 0⟩

/-- What `proceduresDocument` is read as. -/
def proceduresProgram : Program :=
  ⟨.unknown, true, [some (bareProcedure "listed" [.output .unknown (.truth .unknown true)]),
    some (bareProcedure "block" [])], true, [], true, []⟩

theorem child_lists_kept_procedures :
    Program.ofFields proceduresDocument = .ok proceduresProgram ∧
    DecodedInto proceduresDocument proceduresProgram (.object (printingProcedure "listed" .list))
      (.routine (bareProcedure "listed" [.output .unknown (.truth .unknown true)])) ∧
    ∃ ds, Document.field (printingProcedure "listed" .list) "body" = .list ds ∧
      List.Forall₂ (fun d child => ∃ m, child = some m ∧ Encode.Writes d m) ds
        [some (.stmt (.output .unknown (.truth .unknown true)))] := by
  have hdecoded : Program.ofFields proceduresDocument = .ok proceduresProgram := rfl
  have hat : DecodedInto proceduresDocument proceduresProgram
      (.object (printingProcedure "listed" .list))
      (.routine (bareProcedure "listed" [.output .unknown (.truth .unknown true)])) :=
    .item .root List.mem_cons_self rfl List.mem_cons_self
  refine ⟨hdecoded, hat, ?_⟩
  rcases (child_lists_kept hdecoded hat).2 "body" _ (.tail _ List.mem_cons_self) with hlist | ⟨-, hnone⟩
  · exact hlist
  · cases hnone

/-- The statements of a block node that stands for the body of a procedure are not read. -/
theorem block_for_body_read_as_empty :
    ∃ block n, Program.ofFields proceduresDocument = .ok proceduresProgram ∧
      Document.field (printingProcedure "block" fun body =>
        .object [("type", .text "StmBlock"), ("body", .list body)]) "body" = .object block ∧
      DecodedInto proceduresDocument proceduresProgram
        (.object (printingProcedure "block" fun body =>
          .object [("type", .text "StmBlock"), ("body", .list body)])) n ∧
      ("body", []) ∈ n.childLists :=
  ⟨_, .routine (bareProcedure "block" []), rfl, rfl,
    .item .root List.mem_cons_self rfl (.tail _ List.mem_cons_self), .tail _ List.mem_cons_self⟩

end ObjectLang
