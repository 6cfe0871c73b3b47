import ObjectLang.Proofs.AlikeReadings
import ObjectLang.Proofs.RoundTrip
import ObjectLang.Proofs.TypeTexts

/-! Shorthands and the nodes that they stand for. Wherever a variable, a block or a type is asked for, its
node may be written in place of the short form, in any number of places at once and also within a block
that is written out. A document and the one with the nodes are read as the same program, or neither is
read as one. -/

namespace ObjectLang

namespace Document

def tag (fields : List (String × Document)) : String :=
  match field fields "type" with
  | .text s => s
  | _ => ""

mutual

/-- A document in which some shorthands were replaced by the nodes they stand for. -/
inductive Expands : Document → Document → Prop where
  | same (d : Document) : Expands d d
  | list {ds ds' : List Document} (h : AllExpand ds ds') : Expands (.list ds) (.list ds')
  | object {fields fields' : List (String × Document)} (h : FieldsExpand (tag fields) fields fields') :
      Expands (.object fields) (.object fields')

inductive AllExpand : List Document → List Document → Prop where
  | nil : AllExpand [] []
  | cons {d d' : Document} {ds ds' : List Document} (h : Expands d d') (hs : AllExpand ds ds') :
      AllExpand (d :: ds) (d' :: ds')

inductive FieldsExpand : String → List (String × Document) → List (String × Document) → Prop where
  | nil {tag : String} : FieldsExpand tag [] []
  | cons {tag key : String} {d d' : Document} {fields fields' : List (String × Document)}
      (h : PartExpands tag key d d') (hs : FieldsExpand tag fields fields') :
      FieldsExpand tag ((key, d) :: fields) ((key, d') :: fields')

/-- What stands under a key of a node: a shorthand that may stand there was replaced, or something
within it. -/
inductive PartExpands : String → String → Document → Document → Prop where
  | inner {tag key : String} {d d' : Document} (h : Expands d d') : PartExpands tag key d d'
  | var {tag key s : String} (hkey : shorthand? tag key = some .var) (hs : s ≠ "") :
      PartExpands tag key (.text s) (.object [("type", .text "Var"), ("name", .text s)])
  | block {tag key : String} {ds ds' : List Document} (hkey : shorthand? tag key = some .block)
      (h : AllExpand ds ds') :
      PartExpands tag key (.list ds) (.object [("type", .text "StmBlock"), ("body", .list ds')])
  | type {tag key s : String} {t : TypeName} (hkey : shorthand? tag key = some .type)
      (hparse : TypeName.parse s.toList = .ok t) :
      PartExpands tag key (.text s) (Encode.type ofWhole t)

end

theorem name_fieldReadings (fields : List (String × Document)) :
    Decode.name (fieldReadings fields) "type" = tag fields := by
  rw [Decode.name, Reading.text_eq, Decode.source_part, tag]
  cases field fields "type" <;> rfl

theorem node_var (s : String) :
    (Document.object [("type", .text "Var"), ("name", .text s)]).reading.node =
      .ok (.var ⟨.unknown, s, .unresolved⟩) := rfl

theorem node_block (ds : List Document) :
    (Document.object [("type", .text "StmBlock"), ("body", .list ds)]).reading.node =
      Decode.bareBlock (Document.list ds).reading := by
  have hunplaced : Decode.unplaced
      [("type", (Document.text "StmBlock").reading), ("body", (Document.list ds).reading)] =
        Decode.bareBlock (Document.list ds).reading := rfl
  change Decode.node _ = _
  unfold Decode.node
  rw [fieldReadings, fieldReadings, fieldReadings, hunplaced]
  cases Decode.bareBlock (Document.list ds).reading <;> rfl

/-- The node of a type that was read from a text is read as that type. -/
theorem writes_parsed {cs : List Char} {t : TypeName} (h : TypeName.parse cs = .ok t) :
    Encode.Writes (Encode.type ofWhole t) (.type t) := by
  have hspans : ∀ s ∈ t.spans, s.Exact := by
    rw [← (TypeName.plain_of_parse cs t h).2]
    intro s hs
    rw [t.spans_bare s hs]
    decide
  exact Encode.writes_type Encode.faithful_ofWhole t (TypeName.parse_ensures cs t h) hspans

/-! ### Documents that are read alike -/

mutual

theorem Expands.alike : {d d' : Document} → Expands d d' → d.reading.Alike d'.reading
  | _, _, .same d => .refl _
  | _, _, .list h => ⟨rfl, .error _ _, rfl, .error _ _, h.alike⟩
  | .object fields, .object fields', .object h => by
      have hparts := h.alike
      rw [← name_fieldReadings] at hparts
      exact alike_object hparts

theorem AllExpand.alike : {ds ds' : List Document} → AllExpand ds ds' →
    List.Forall₂ Agree (itemReadings ds) (itemReadings ds')
  | _, _, .nil => .nil
  | _, _, .cons h hs => .cons h.alike.node hs.alike

theorem FieldsExpand.alike {tag : String} : {fields fields' : List (String × Document)} →
    FieldsExpand tag fields fields' → (key : String) →
      Decode.PartAlike tag key (Decode.part (fieldReadings fields) key)
        (Decode.part (fieldReadings fields') key)
  | _, _, .nil, _ => .inner (.refl _)
  | (other, d) :: fields, (_, d') :: fields', .cons h hs, key => by
      have hpart := h.alike
      have hrest := hs.alike key
      rw [Decode.part, Decode.part] at hrest ⊢
      rw [fieldReadings, fieldReadings, List.lookup_cons, List.lookup_cons]
      cases hkey : key == other with
      | true =>
          rw [beq_iff_eq] at hkey
          subst hkey
          exact hpart
      | false => exact hrest

theorem PartExpands.alike {tag key : String} : {d d' : Document} → PartExpands tag key d d' →
    Decode.PartAlike tag key d.reading d'.reading
  | _, _, .inner h => .inner h.alike
  | _, _, .var hkey hs => .var hkey hs rfl rfl (node_var _)
  | .list ds, .object _, @PartExpands.block _ _ _ ds' hkey h => by
      have hlists : (Document.list ds).reading.Alike (Document.list ds').reading :=
        ⟨rfl, .error _ _, rfl, .error _ _, h.alike⟩
      refine .block hkey rfl rfl ?_
      rw [node_block]
      exact (Decode.items_agree hlists Decode.asStmt).bind fun _ => .refl _
  | _, _, .type hkey hparse => by
      obtain ⟨fields, hobject, hnode⟩ := writes_parsed hparse
      rw [hobject]
      exact .type hkey rfl hparse rfl hnode

end

end Document

/-- **Shorthands and nodes are read alike.** A program is read from a document exactly when it is read
from the document with nodes in place of shorthands. A type whose base is read as it stands is read from
its text, without its spans, and a type that is read from any text is read from its own text again. -/
theorem shorthands_decode_alike :
    (∀ fields fields', Document.Expands (.object fields) (.object fields') →
      ∀ p, Program.ofFields fields = .ok p ↔ Program.ofFields fields' = .ok p) ∧
    (∀ t : TypeName, t.Plain → TypeName.parse t.text.toList = .ok t.bare) ∧
    ∀ (s : String) (t : TypeName), TypeName.parse s.toList = .ok t →
      TypeName.parse t.text.toList = .ok t := by
  refine ⟨fun fields fields' h => ?_, fun t => TypeName.parse_text, fun s t => TypeName.parse_text_of_parse⟩
  have hnode : Agree (Decode.node (Document.fieldReadings fields))
      (Decode.node (Document.fieldReadings fields')) := h.alike.node
  exact hnode.bind fun _ => .refl _

/-- A procedure with a branch whose block is given. -/
def branchDocument (block : Document) : List (String × Document) :=
  [("type", .text "Program"),
    ("routines", .list [.object [("type", .text "ProcDecl"), ("name", .text "main"),
      ("body", .list [.object [("type", .text "StmIf"),
        ("cond", .object [("type", .text "ExpTrue")]), ("then", block)]])]])]

/-- A declaration of a variable and an assignment to it. -/
def declareAndAssign (type var : Document) : List Document :=
  [.object [("type", .text "StmVarDecl"), ("varType", type), ("name", .text "xs")],
    .object [("type", .text "StmAssign"), ("var", var),
      ("value", .object [("type", .text "ExpSelf")])]]

/-- A branch whose block, type and variable are shorthands. -/
def shortBranch : List (String × Document) :=
  branchDocument (.list (declareAndAssign (.text "int[]") (.text "xs")))

/-- The branch with nodes instead. -/
def fullBranch : List (String × Document) :=
  branchDocument (.object [("type", .text "StmBlock"), ("body", .list (declareAndAssign
    (.object [("type", .text "TypeArray"), ("elem", .object [("type", .text "TypeInt")])])
    (.object [("type", .text "Var"), ("name", .text "xs")])))])

theorem expands_branch : Document.Expands (.object shortBranch) (.object fullBranch) := by
  have hparse : TypeName.parse "int[]".toList = .ok (.array .unknown (.int .unknown)) := by cbv
  have hbody : Document.AllExpand (declareAndAssign (.text "int[]") (.text "xs"))
      (declareAndAssign
        (.object [("type", .text "TypeArray"), ("elem", .object [("type", .text "TypeInt")])])
        (.object [("type", .text "Var"), ("name", .text "xs")])) :=
    .cons (.object (.cons (.inner (.same _)) (.cons (.type rfl hparse) (.cons (.inner (.same _)) .nil))))
      (.cons (.object (.cons (.inner (.same _)) (.cons (.var rfl (by decide))
        (.cons (.inner (.same _)) .nil)))) .nil)
  refine .object (.cons (.inner (.same _)) (.cons (.inner (.list (.cons (.object ?_) .nil))) .nil))
  refine .cons (.inner (.same _)) (.cons (.inner (.same _)) (.cons (.inner (.list ?_)) .nil))
  refine .cons (.object (.cons (.inner (.same _)) (.cons (.inner (.same _)) ?_))) .nil
  exact .cons (.block rfl hbody) .nil

/-- What both are read as. -/
def branchProgram : Program :=
  ⟨.unknown, true, [some ⟨.unknown, "main", true, [], true,
    [.branch .unknown (.truth .unknown true)
      (.mk .unknown true [.declare .unknown (.array .unknown (.int .unknown)) "xs",
        .assign .unknown ⟨.unknown, "xs", .unresolved⟩ (.self .unknown)])
      (.mk .unknown false [])],
    none, 0⟩], true, [], true, []⟩

theorem shorthands_decode_alike_branch :
    (Document.Expands (.object shortBranch) (.object fullBranch) ∧
      Program.ofFields shortBranch = .ok branchProgram ∧
      Program.ofFields fullBranch = .ok branchProgram) ∧
    ((TypeName.array ⟨3, 8⟩ (.named ⟨3, 8⟩ "Point")).Plain ∧
      TypeName.parse "Point[]".toList = .ok (.array .unknown (.named .unknown "Point"))) ∧
    TypeName.parse " int []".toList = .ok (.array .unknown (.int .unknown)) ∧
      TypeName.parse "int[]".toList = .ok (.array .unknown (.int .unknown)) := by
  have hshort : Program.ofFields shortBranch = .ok branchProgram := by cbv
  have hpoint : TypeName.IsClassWord "Point" := by
    refine ⟨by decide, by decide, by decide, by decide, by decide⟩
  have hint : TypeName.parse " int []".toList = .ok (.array .unknown (.int .unknown)) := by cbv
  exact ⟨⟨expands_branch, hshort,
      (shorthands_decode_alike.1 _ _ expands_branch branchProgram).mp hshort⟩,
    ⟨hpoint, shorthands_decode_alike.2.1 (.array ⟨3, 8⟩ (.named ⟨3, 8⟩ "Point")) hpoint⟩,
    hint, shorthands_decode_alike.2.2 " int []" _ hint⟩

end ObjectLang
