import Mathlib.Data.List.Forall2
import ObjectLang.Proofs.Decoding

/-! What decoding can tell apart. It sees of a document which kind it is, its text or number, the span
it describes and the nodes it and its items decode to; documents that agree in that have the same
results. The parts for which there are shorthands may differ in more: a variable, a block or a type may
stand there in the short form on one side and as a node on the other. So the node that an object
describes is the same if all its parts agree that far. -/

namespace ObjectLang

/-- Two computations have the same results; where they fail they may fail differently. -/
def Agree (r r' : Except ε α) : Prop := ∀ a, r = .ok a ↔ r' = .ok a

namespace Agree

variable {ε α β : Type} {r r' : Except ε α}

theorem refl (r : Except ε α) : Agree r r := fun _ => Iff.rfl

theorem error (e e' : ε) : Agree (.error e : Except ε α) (.error e') := fun _ => iff_of_false nofun nofun

theorem bind {f f' : α → Except ε β} (h : Agree r r') (hf : ∀ a, Agree (f a) (f' a)) :
    Agree (r >>= f) (r' >>= f') := by
  cases r with
  | ok a =>
      rw [(h a).mp rfl]
      exact hf a
  | error e =>
      cases r' with
      | ok a => exact absurd ((h a).mpr rfl) nofun
      | error e' => exact error e e'

theorem within {r r' : Except DecodeError α} (h : Agree r r') (wrap : DecodeError → DecodeError) :
    Agree (within wrap r) (within wrap r') := by
  cases r with
  | ok a =>
      rw [(h a).mp rfl]
      exact refl _
  | error e =>
      cases r' with
      | ok a => exact absurd ((h a).mpr rfl) nofun
      | error e' => exact error _ _

theorem toOption_eq (h : Agree r r') : r.toOption = r'.toOption := by
  cases r with
  | ok a => rw [(h a).mp rfl]
  | error e =>
      cases r' with
      | ok a => exact absurd ((h a).mpr rfl) nofun
      | error e' => rfl

theorem mapM {f : α → Except ε β} {γ : Type} {f' : γ → Except ε β} {xs : List α} {ys : List γ}
    (h : List.Forall₂ (fun x y => Agree (f x) (f' y)) xs ys) : Agree (xs.mapM f) (ys.mapM f') := by
  induction h with
  | nil => exact refl _
  | cons hxy _ ih =>
      rw [List.mapM_cons, List.mapM_cons]
      exact hxy.bind fun a => ih.bind fun as => refl _

end Agree

/-- What decoding sees of a document at first. -/
inductive Document.Shape where
  | null
  | text (s : String)
  | list
  | object
  | other
  deriving DecidableEq

def Document.shape : Document → Shape
  | .null => .null
  | .text s => .text s
  | .list _ => .list
  | .object _ => .object
  | _ => .other

/-- Objects whose lines and columns agree describe the same span. -/
theorem Document.toSpan?_of_agree {fields fields' : List (String × Document)}
    (hline : Agree (field fields "line").toInt (field fields' "line").toInt)
    (hcolumn : Agree (field fields "column").toInt (field fields' "column").toInt) :
    (Document.object fields).toSpan? = (Document.object fields').toSpan? := by
  have hspan (fields : List (String × Document)) : (Document.object fields).toSpan? =
      (field fields "line").toInt.toOption.bind fun line =>
        (field fields "column").toInt.toOption.map (Span.mk line) := by
    rw [toSpan?]
    cases (field fields "line").toInt <;> cases (field fields "column").toInt <;> rfl
  rw [hspan, hspan, hline.toOption_eq, hcolumn.toOption_eq]

/-- Decoding cannot tell two readings apart. -/
structure Reading.Alike (r r' : Reading) : Prop where
  shape : r.source.shape = r'.source.shape
  toInt : Agree r.source.toInt r'.source.toInt
  toSpan? : r.source.toSpan? = r'.source.toSpan?
  node : Agree r.node r'.node
  items : List.Forall₂ Agree r.items r'.items

theorem Reading.Alike.refl (r : Reading) : r.Alike r :=
  ⟨rfl, .refl _, rfl, .refl _, List.forall₂_same.mpr fun _ _ => .refl _⟩

theorem Reading.text_eq (r : Reading) :
    r.text = match r.source.shape with
      | .text s => s
      | _ => "" := by
  rw [Reading.text]
  cases r.source <;> rfl

/-- The forms that have a shorthand. -/
inductive Shorthand where
  | var
  | block
  | type
  deriving DecidableEq

def shorthand? (tag key : String) : Option Shorthand :=
  match key with
  | "var" => if tag = "StmAssign" ∨ tag = "ExpVar" then some .var else none
  | "then" | "else" => if tag = "StmIf" then some .block else none
  | "body" => if tag = "StmWhile" then some .block else none
  | "fieldType" => if tag = "FieldDecl" then some .type else none
  | "paramType" => if tag = "Formal" then some .type else none
  | "returnType" => if tag = "FunDecl" then some .type else none
  | "elem" => if tag = "TypeArray" then some .type else none
  | "varType" => if tag = "StmVarDecl" then some .type else none
  | "elemType" => if tag = "ExpNewArray" then some .type else none
  | _ => none

namespace Decode

/-- The block of a list of statements. -/
def bareBlock (r : Reading) : Except DecodeError Node :=
  items asStmt r >>= fun body => .ok (.stmt (.block (.mk .unknown true body)))

/-- Decoding cannot tell apart what stands under a key of a node, but that one may be the shorthand
for the other. -/
inductive PartAlike (tag key : String) : Reading → Reading → Prop where
  | inner {r r' : Reading} (h : r.Alike r') : PartAlike tag key r r'
  | var {r r' : Reading} {s : String} (hkey : shorthand? tag key = some .var) (hs : s ≠ "")
      (hshape : r.source.shape = .text s) (hshape' : r'.source.shape = .object)
      (hnode : r'.node = .ok (.var ⟨.unknown, s, .unresolved⟩)) : PartAlike tag key r r'
  | block {r r' : Reading} (hkey : shorthand? tag key = some .block) (hshape : r.source.shape = .list)
      (hshape' : r'.source.shape = .object) (hnode : Agree (bareBlock r) r'.node) :
      PartAlike tag key r r'
  | type {r r' : Reading} {s : String} {t : TypeName} (hkey : shorthand? tag key = some .type)
      (hshape : r.source.shape = .text s) (hparse : TypeName.parse s.toList = .ok t)
      (hshape' : r'.source.shape = .object) (hnode : r'.node = .ok (.type t)) :
      PartAlike tag key r r'

theorem PartAlike.alike {tag key : String} {r r' : Reading} (h : PartAlike tag key r r')
    (hkey : shorthand? tag key = none) : r.Alike r' := by
  cases h with
  | inner h => exact h
  | var hkey' | block hkey' | type hkey' =>
      rw [hkey] at hkey'
      cases hkey'

def asType (key : String) : Node → Except DecodeError TypeName
  | .type t => .ok t
  | n => .error (.invalidType key n.kindName)

def asVar (key : String) : Node → Except DecodeError Var
  | .var v => .ok v
  | n => .error (.expectedVariable key n.kindName)

def asBlock (key : String) : Node → Except DecodeError Block
  | .stmt (.block b) => .ok b
  | n => .error (.expectedBlock key n.kindName)

def asOperand (key : String) : Node → Except DecodeError Expr
  | .expr e => .ok e
  | n => .error (.invalidOperand key n.kindName)

variable {fields fields' : Fields} {tag : String}

theorem typePart_eq (fields : Fields) (key : String) :
    typePart fields key = match (part fields key).source.shape with
      | .null => .error (.missingPart key)
      | .text s => TypeName.parse s.toList
      | _ => (part fields key).node >>= asType key := by
  dsimp only [typePart]
  cases (part fields key).source <;> rfl

theorem varPart_eq (fields : Fields) (key : String) :
    varPart fields key = match (part fields key).source.shape with
      | .text s => if s = "" then .error (.emptyVariable key) else .ok ⟨.unknown, s, .unresolved⟩
      | .object => within (.inPart key) (part fields key).node >>= asVar key
      | _ => .error (.missingPart key) := by
  dsimp only [varPart]
  cases (part fields key).source with
  | text s =>
      dsimp only [Document.shape]
      by_cases hs : s = ""
      · subst hs
        rfl
      · rw [if_neg hs]
        split
        · next heq => exact absurd (Document.text.inj heq) hs
        · next heq => rw [Document.text.inj heq]
        · next heq => cases heq
        · next htext _ => exact absurd rfl (htext s)
  | _ => rfl

theorem blockPart_eq (fields : Fields) (key : String) :
    blockPart fields key = match (part fields key).source.shape with
      | .null => .ok (.mk .unknown false [])
      | .list => within (.inPart key) (items asStmt (part fields key)) >>= fun body =>
          .ok (.mk .unknown true body)
      | _ => within (.inPart key) (part fields key).node >>= asBlock key := by
  dsimp only [blockPart]
  cases (part fields key).source <;> rfl

theorem optionalExpr_eq (fields : Fields) (key : String) :
    optionalExpr fields key = match (part fields key).source.shape with
      | .null => .ok .missing
      | _ => within (.inPart key) (part fields key).node >>= asOperand key := by
  dsimp only [optionalExpr]
  cases (part fields key).source <;> rfl

theorem items_agree {r r' : Reading} (h : r.Alike r') (narrow : Node → Except DecodeError α) :
    Agree (items narrow r) (items narrow r') :=
  .mapM (h.items.imp fun _ _ hitem => hitem.bind fun _ => .refl _)

section Agree

variable (h : ∀ key, PartAlike tag key (part fields key) (part fields' key))
include h

theorem name_eq (key : String) (hkey : shorthand? tag key = none) : name fields key = name fields' key := by
  rw [name, name, Reading.text_eq, Reading.text_eq, ((h key).alike hkey).shape]

theorem itemsPart_agree (key : String) (hkey : shorthand? tag key = none) (narrow : Node → Except DecodeError α) :
    Agree (items narrow (part fields key)) (items narrow (part fields' key)) :=
  items_agree ((h key).alike hkey) narrow

theorem optionalExpr_agree (key : String) (hkey : shorthand? tag key = none) :
    Agree (optionalExpr fields key) (optionalExpr fields' key) := by
  have hpart := (h key).alike hkey
  rw [optionalExpr_eq, optionalExpr_eq, hpart.shape]
  split
  · exact .refl _
  · exact (hpart.node.within _).bind fun _ => .refl _

theorem exprPart_agree (key : String) (hkey : shorthand? tag key = none) :
    Agree (exprPart fields key) (exprPart fields' key) :=
  (optionalExpr_agree h key hkey).bind fun _ => .refl _

theorem typePart_agree (key : String) (hkey : shorthand? tag key = some .type) :
    Agree (typePart fields key) (typePart fields' key) := by
  rw [typePart_eq, typePart_eq]
  cases h key with
  | inner hpart =>
      rw [hpart.shape]
      split
      · exact .error _ _
      · exact .refl _
      · exact hpart.node.bind fun _ => .refl _
  | type _ hshape hparse hshape' hnode =>
      rw [hshape, hshape', hnode]
      dsimp only
      rw [hparse]
      exact .refl _
  | var hkey' | block hkey' =>
      rw [hkey] at hkey'
      cases hkey'

theorem varPart_agree (key : String) (hkey : shorthand? tag key = some .var) :
    Agree (varPart fields key) (varPart fields' key) := by
  rw [varPart_eq, varPart_eq]
  cases h key with
  | inner hpart =>
      rw [hpart.shape]
      split
      · exact .refl _
      · exact (hpart.node.within _).bind fun _ => .refl _
      · exact .error _ _
  | var _ hs hshape hshape' hnode =>
      rw [hshape, hshape', hnode]
      dsimp only
      rw [if_neg hs]
      exact .refl _
  | block hkey' | type hkey' =>
      rw [hkey] at hkey'
      cases hkey'

theorem blockPart_agree (key : String) (hkey : shorthand? tag key = some .block) :
    Agree (blockPart fields key) (blockPart fields' key) := by
  rw [blockPart_eq, blockPart_eq]
  cases h key with
  | inner hpart =>
      rw [hpart.shape]
      split
      · exact .refl _
      · exact ((items_agree hpart asStmt).within _).bind fun _ => .refl _
      · exact (hpart.node.within _).bind fun _ => .refl _
  | block _ hshape hshape' hnode =>
      rw [hshape, hshape']
      dsimp only
      have hblock : Agree (within (.inPart key) (bareBlock (part fields key)) >>= asBlock key)
          (within (.inPart key) (part fields' key).node >>= asBlock key) :=
        (hnode.within _).bind fun _ => .refl _
      rw [bareBlock] at hblock
      cases hitems : items asStmt (part fields key) with
      | ok body =>
          rw [hitems] at hblock
          exact hblock
      | error e =>
          rw [hitems] at hblock
          exact hblock
  | var hkey' | type hkey' =>
      rw [hkey] at hkey'
      cases hkey'

/-! ### Nodes that agree -/

theorem program_agree : Agree (program fields) (program fields') :=
  (itemsPart_agree h "routines" rfl asRoutine).bind fun _ =>
    (itemsPart_agree h "classes" rfl asClass).bind fun _ =>
      (itemsPart_agree h "commands" rfl asCommand).bind fun _ => .refl _

theorem classDecl_agree : Agree (classDecl fields) (classDecl fields') := by
  unfold classDecl
  rw [name_eq h "name" rfl, name_eq h "parent" rfl]
  exact (itemsPart_agree h "fields" rfl _).bind fun _ =>
    ((itemsPart_agree h "methods" rfl asRoutine).within _).bind fun _ => .refl _

theorem procedure_agree (hbody : shorthand? tag "body" = none) :
    Agree (routine fields false) (routine fields' false) := by
  unfold routine
  rw [name_eq h "name" rfl]
  exact (itemsPart_agree h "params" rfl _).bind fun _ =>
    ((itemsPart_agree h "body" hbody asStmt).within _).bind fun _ => .refl _

theorem function_agree (hbody : shorthand? tag "body" = none)
    (htype : shorthand? tag "returnType" = some .type) :
    Agree (routine fields true) (routine fields' true) := by
  unfold routine
  rw [name_eq h "name" rfl]
  exact (itemsPart_agree h "params" rfl _).bind fun _ =>
    ((itemsPart_agree h "body" hbody asStmt).within _).bind fun _ =>
      ((typePart_agree h "returnType" htype).within _).bind fun _ =>
        ((exprPart_agree h "result" rfl).within _).bind fun _ => .refl _

theorem literal_agree : Agree (literal fields) (literal fields') :=
  ((h "value").alike rfl).toInt.bind fun _ => .refl _

theorem binary_agree : Agree (binary fields) (binary fields') := by
  unfold binary
  rw [name_eq h "op" rfl]
  dsimp only
  split
  · exact .error _ _
  · exact (exprPart_agree h "left" rfl).bind fun _ =>
      (exprPart_agree h "right" rfl).bind fun _ => .refl _

end Agree

/-- Objects with the same tag whose parts agree describe the same node. -/
theorem unplaced_agree (htag : name fields "type" = tag)
    (h : ∀ key, PartAlike tag key (part fields key) (part fields' key)) :
    Agree (unplaced fields) (unplaced fields') := by
  have htag' : name fields' "type" = tag := by
    rw [← htag, name_eq h "type" rfl]
  have hname : name fields "name" = name fields' "name" := name_eq h "name" rfl
  unfold unplaced
  rw [htag, htag']
  clear htag htag'
  split
  · exact program_agree h
  · exact classDecl_agree h
  · rw [hname]
    exact (typePart_agree h "fieldType" rfl).bind fun _ => .refl _
  · rw [hname]
    exact (typePart_agree h "paramType" rfl).bind fun _ => .refl _
  · exact procedure_agree h rfl
  · exact function_agree h rfl rfl
  · exact .refl _
  · exact .refl _
  · rw [hname]
    exact .refl _
  · exact (typePart_agree h "elem" rfl).bind fun _ => .refl _
  · rw [hname]
    exact (itemsPart_agree h "args" rfl asExpr).bind fun _ => .refl _
  · exact (exprPart_agree h "expr" rfl).bind fun _ => .refl _
  · rw [hname]
    exact .refl _
  · exact (itemsPart_agree h "body" rfl asStmt).bind fun _ => .refl _
  · rw [hname]
    exact (typePart_agree h "varType" rfl).bind fun _ => .refl _
  · exact (exprPart_agree h "cond" rfl).bind fun _ =>
      (blockPart_agree h "then" rfl).bind fun _ =>
        (blockPart_agree h "else" rfl).bind fun _ => .refl _
  · exact (exprPart_agree h "cond" rfl).bind fun _ =>
      (blockPart_agree h "body" rfl).bind fun _ => .refl _
  · exact (exprPart_agree h "expr" rfl).bind fun _ => .refl _
  · exact (varPart_agree h "var" rfl).bind fun _ =>
      (exprPart_agree h "value" rfl).bind fun _ => .refl _
  · exact (exprPart_agree h "array" rfl).bind fun _ =>
      (exprPart_agree h "index" rfl).bind fun _ =>
        (exprPart_agree h "value" rfl).bind fun _ => .refl _
  · rw [hname]
    exact (optionalExpr_agree h "receiver" rfl).bind fun _ =>
      (itemsPart_agree h "args" rfl asExpr).bind fun _ => .refl _
  · exact literal_agree h
  · exact .refl _
  · exact .refl _
  · exact (varPart_agree h "var" rfl).bind fun _ => .refl _
  · exact .refl _
  · exact (exprPart_agree h "operand" rfl).bind fun _ => .refl _
  · exact (exprPart_agree h "operand" rfl).bind fun _ => .refl _
  · exact binary_agree h
  · exact (exprPart_agree h "array" rfl).bind fun _ =>
      (exprPart_agree h "index" rfl).bind fun _ => .refl _
  · exact (exprPart_agree h "array" rfl).bind fun _ => .refl _
  · exact (typePart_agree h "elemType" rfl).bind fun _ =>
      (exprPart_agree h "length" rfl).bind fun _ => .refl _
  · rw [name_eq h "class" rfl]
    exact (itemsPart_agree h "args" rfl asExpr).bind fun _ => .refl _
  · rw [hname]
    exact (optionalExpr_agree h "receiver" rfl).bind fun _ =>
      (itemsPart_agree h "args" rfl asExpr).bind fun _ => .refl _
  · exact .error _ _
  · exact .error _ _

theorem node_agree (h : ∀ key, PartAlike (name fields "type") key (part fields key) (part fields' key)) :
    Agree (node fields) (node fields') := by
  have hspan := ((h "span").alike rfl).toSpan?
  unfold node
  rw [hspan]
  exact (unplaced_agree rfl h).bind fun _ => .refl _

end Decode

/-- Objects are read alike if their parts are. -/
theorem Document.alike_object {fields fields' : List (String × Document)}
    (h : ∀ key, Decode.PartAlike (Decode.name (fieldReadings fields) "type") key
      (Decode.part (fieldReadings fields) key) (Decode.part (fieldReadings fields') key)) :
    (Document.object fields).reading.Alike (Document.object fields').reading := by
  have hline := ((h "line").alike rfl).toInt
  have hcolumn := ((h "column").alike rfl).toInt
  rw [Decode.source_part, Decode.source_part] at hline hcolumn
  exact ⟨rfl, .error _ _, toSpan?_of_agree hline hcolumn, Decode.node_agree h, .nil⟩

end ObjectLang
