import ObjectLang.Yaml.Scalar

/-! Decoding YAML nodes into what a place asks for: a generic document, or a record with given fields.
A node of the wrong form is noted and left out, and decoding goes on, so all such complaints are found
at once; a node that cannot be understood at all ends it. So do aliases that would make a small text
into a large value. -/

namespace ObjectLang.Yaml

/-- What does not fit: a node of the wrong form, a key given twice in a mapping, a field that a record
does not have, and a field set twice. -/
inductive Complaint where
  | mismatch (line : Nat) (tag text type : String)
  | duplicateKey (line : Nat) (key : String) (first : Nat)
  | unknownField (line : Nat) (field type : String)
  | repeatedField (line : Nat) (field type : String)
  deriving DecidableEq, Repr

/-- The start of a text as a complaint shows it: whole up to ten bytes, and otherwise its first seven
bytes. -/
def shownText (text : String) : String :=
  if text.utf8ByteSize > 10 then Text.takeBytes 7 text ++ "..." else text

def Complaint.message : Complaint → String
  | .mismatch line tag text type =>
    "line " ++ toString line ++ ": cannot unmarshal " ++ tag ++
      (if tag = "!!seq" || tag = "!!map" then "" else " \x60" ++ shownText text ++ "\x60") ++
      " into " ++ type
  | .duplicateKey line key first =>
    "line " ++ toString line ++ ": mapping key " ++ Text.quoted key ++ " already defined at line " ++
      toString first
  | .unknownField line field type =>
    "line " ++ toString line ++ ": field " ++ field ++ " not found in type " ++ type
  | .repeatedField line field type =>
    "line " ++ toString line ++ ": field " ++ field ++ " already set in type " ++ type

/-- Why a text cannot be decoded. -/
inductive Error where
  | problem (problem : Problem)
  | complaints (complaints : List Complaint)
  | refused (text : String)
  deriving DecidableEq, Repr

def Error.message : Error → String
  | .problem p => "yaml: line " ++ toString (p.line + 1) ++ ": " ++ p.text
  | .complaints list =>
    "yaml: unmarshal errors:\n  " ++ "\n  ".intercalate (list.map Complaint.message)
  | .refused text => text

/-- What a node can be decoded into. -/
inductive Value where
  | document (document : Document)
  | text (text : String)
  | truth (truth : Bool)
  | whole (whole : Int)
  | items (items : List Value)
  | fields (fields : List (String × Value))
  | node (node : Node)
  deriving Inhabited

/-- What a place asks for. A custom place takes any node that a check accepts; the check may have
complaints or end decoding with a text. -/
inductive Shape where
  | any
  | objectOfAny (type : String)
  | text
  | truth
  | whole
  | list (type : String) (item : Shape)
  | record (type : String) (strict : Bool) (fields : List (String × Shape))
  | custom (check : Node → Except String (List Complaint))

/-- The name of what a place asks for. -/
def Shape.typeName : Shape → String
  | .any | .custom _ => "interface \x7b\x7d"
  | .objectOfAny type => type
  | .text => "string"
  | .truth => "bool"
  | .whole => "int"
  | .list type _ => type
  | .record type _ _ => type

/-- The state of decoding: the complaints so far, how many nodes were decoded and how many of them
through an alias, and how many aliases the place is within. -/
structure Progress where
  complaints : List Complaint
  decoded : Nat
  repeated : Nat
  aliases : Nat

def Progress.start : Progress := ⟨[], 0, 0, 0⟩

/-- The state after one more node. -/
def Progress.next (p : Progress) : Progress :=
  { p with
    decoded := p.decoded + 1
    repeated := if p.aliases = 0 then p.repeated else p.repeated + 1 }

/-- Whether too large a share of the nodes comes from aliases. Up to 400000 nodes, 99 in a hundred may;
from there on the share falls evenly, to ten in a hundred at 4000000 nodes. A few nodes may all come
from aliases. -/
def Progress.isExcessive (p : Progress) : Bool :=
  p.repeated > 100 && p.decoded > 1000 &&
    if p.decoded ≤ 400000 then 100 * p.repeated > 99 * p.decoded
    else if p.decoded ≥ 4000000 then 10 * p.repeated > p.decoded
    else 360000000 * p.repeated > (356400000 - 89 * (p.decoded - 400000)) * p.decoded

abbrev Decode := StateT Progress (Except String)

namespace Decode

def complain (c : Complaint) : Decode Unit :=
  modify fun p => { p with complaints := p.complaints ++ [c] }

def refuse (text : String) : Decode α := throw text

/-- Decodes one more node, unless too many come from aliases. -/
def counted (decode : Decode α) : Decode α := do
  modify Progress.next
  if (← get).isExcessive then refuse "yaml: document contains excessive aliasing" else decode

def throughAlias (decode : Decode α) : Decode α := do
  modify fun p => { p with aliases := p.aliases + 1 }
  let value ← decode
  modify fun p => { p with aliases := p.aliases - 1 }
  return value

/-- Notes that a node does not fit, and leaves it out. -/
def misfit (n : Node) (shape : Shape) : Decode (Option α) := do
  complain (.mismatch n.line n.tag n.text shape.typeName)
  return none

/-- Whether a node is the key of a merged mapping. -/
def isMerge (n : Node) : Bool :=
  match n with
  | .scalar _ _ _ text => text = "<<" && n.tag = "!!merge"
  | _ => false

/-- Whether two keys are the same as far as their form and text go. -/
def sameKey : Node → Node → Bool
  | .scalar _ _ _ a, .scalar _ _ _ b => a = b
  | .alias _ a _, .alias _ b _ => a = b
  | .sequence _ _ _, .sequence _ _ _ => true
  | .mapping _ _ _, .mapping _ _ _ => true
  | _, _ => false

/-- The complaints about keys that a mapping gives twice. -/
def duplicates : List (Node × Node) → List Complaint
  | [] => []
  | (key, _) :: rest =>
    ((rest.filter fun entry => sameKey key entry.1).map fun entry =>
      Complaint.duplicateKey entry.1.line entry.1.text key.line) ++ duplicates rest

def toWhole? : Document → Option Int
  | .integer n => some n
  | .float (.infinity true) => some Number.minInt64
  | .float x =>
    match x.truncate? with
    | some n =>
      if n > Number.maxInt64 + 1 then none
      else if Number.minInt64 ≤ n && n ≤ Number.maxInt64 then some n else some Number.minInt64
    | none => none
  | _ => none

/-- The truth value that a value gives a place for one; there the old words count, too. -/
def toTruth? : Document → Option Bool
  | .bool b => some b
  | .text s =>
    if ["y", "Y", "yes", "Yes", "YES", "on", "On", "ON"].contains s then some true
    else if ["n", "N", "no", "No", "NO", "off", "Off", "OFF"].contains s then some false
    else none
  | _ => none

def checked (check : Node → Except String (List Complaint)) (n : Node) : Decode (Option Value) := do
  (← check n).forM complain
  return some (.node n)

/-- Decodes a scalar by its meaning. Nothing fits everywhere, and gives a value only where any document
fits. -/
def meant (shape : Shape) (n : Node) (written : String) (style : ScalarStyle) (text : String) :
    Decode (Option Value) := do
  let (tag, value) ← Node.scalarMeaning written style text
  match shape, value with
  | .any, value => return some (.document value)
  | _, .null => return none
  | .text, .text decoded => return some (.text (if tag = "!!binary" then decoded else text))
  | .text, _ => return some (.text text)
  | .truth, value =>
    match toTruth? value with
    | some b => return some (.truth b)
    | none => misfit n shape
  | .whole, value =>
    match toWhole? value with
    | some i => return some (.whole i)
    | none => misfit n shape
  | .custom _, _ | .objectOfAny _, _ | .list _ _, _ | .record _ _ _, _ => misfit n shape

/-- Decodes a scalar. A custom place takes any scalar that is not nothing, whatever it means. -/
def scalar (shape : Shape) (n : Node) (written : String) (style : ScalarStyle) (text : String) :
    Decode (Option Value) :=
  match shape with
  | .custom check => if n.tag = "!!null" then meant shape n written style text else checked check n
  | _ => meant shape n written style text

/-- What the entries of a mapping are decoded into: any values, under texts or any keys, or the fields
of a record. -/
inductive Target where
  | values (anyKeys : Bool)
  | record (type : String) (strict : Bool) (fields : List (String × Shape))

def Target.keyShape : Target → Shape
  | .values true => .any
  | _ => .text

def keyDocument : Value → Document
  | .document d => d
  | .text s => .text s
  | _ => .null

/-- Whether two keys are the same text, number or truth value. -/
def sameDocument : Document → Document → Bool
  | .text a, .text b => a = b
  | .integer a, .integer b => a = b
  | .unsigned a, .unsigned b => a = b
  | .bool a, .bool b => a = b
  | .null, .null => true
  | .float a, .float b => a = b
  | _, _ => false

/-- The entries decoded so far, last first, and the keys that merged mappings may no longer set. -/
structure Filling where
  entries : List (Document × Value)
  taken : Option (List Document)

/-- What to do with the value under a key: the shape to decode it into, if it is to be decoded. The
names are those of the fields set by the same mapping so far. -/
def Target.valueShape (target : Target) (set : List String) (line : Nat) (key : Document) :
    Decode (Option Shape) := do
  match target, key with
  | .values _, .list _ | .values _, .object _ | .values _, .mapping _ =>
    refuse "yaml: invalid map key"
  | .values _, _ => return some .any
  | .record type strict fields, .text name =>
    match fields.lookup name with
    | some shape =>
      if set.contains name then
        complain (.repeatedField line name type)
        return none
      else return some shape
    | none =>
      if strict then complain (.unknownField line name type)
      return none
  | .record _ _ _, _ => return none

/-- Decodes a mapping from its parts: the entries that it has itself, its keys, and the entries that
it merges, for which its own keys are taken. A mapping that gives a key twice is left out. -/
def assemble (entries : List (Node × Node)) (filling : Filling) (own : Decode Filling)
    (keys : Decode (List Document)) (merged : Filling → Decode Filling) :
    Decode (Option Filling) := do
  if (duplicates entries).isEmpty then
    let filled ← own
    if entries.any fun e => isMerge e.1 then
      let taken ← match filling.taken with
        | some _ => pure (filled.taken.getD [])
        | none => keys
      let whole ← merged { filled with taken := some taken }
      return some { whole with taken := filling.taken.map fun _ => whole.taken.getD [] }
    else return some filled
  else
    (duplicates entries).forM complain
    return none

def textEntries (entries : List (Document × α)) : List (String × α) :=
  entries.filterMap fun e =>
    match e.1 with
    | .text name => some (name, e.2)
    | _ => none

/-- The target that a place for a mapping has. -/
def Shape.target? (entries : List (Node × Node)) : Shape → Option Target
  | .any => some (.values (entries.any fun e => e.1.tag ≠ "!!str" && e.1.tag ≠ "!!merge"))
  | .objectOfAny _ => some (.values false)
  | .record type strict fields => some (.record type strict fields)
  | _ => none

def Filling.value (f : Filling) : Target → Value
  | .values true => .document (.mapping (f.entries.reverse.map fun e => (e.1, keyDocument e.2)))
  | .values false =>
    .document (.object (Document.distinctFields
      (textEntries (f.entries.reverse.map fun e => (e.1, keyDocument e.2)))))
  | .record _ _ _ => .fields (textEntries f.entries.reverse)

mutual

/-- Decodes a node into what a place asks for; `none` if nothing comes of it. -/
def node (shape : Shape) : Node → Decode (Option Value)
  | .alias _ name none => refuse ("yaml: anchor '" ++ name ++ "' value contains itself")
  | .alias _ _ (some target) => counted (throughAlias (node shape target))
  | .scalar line written style text =>
    counted (scalar shape (.scalar line written style text) written style text)
  | .sequence line written items => counted do
    match shape with
    | .any => return some (.document (.list ((← nodes .any items).map keyDocument)))
    | .list _ item => return some (.items (← nodes item items))
    | .custom check => checked check (.sequence line written items)
    | _ => misfit (.sequence line written items) shape
  | .mapping line written entries => counted do
    match shape, Shape.target? entries shape with
    | .custom check, _ => checked check (.mapping line written entries)
    | _, none =>
      if (duplicates entries).isEmpty then misfit (.mapping line written entries) shape
      else
        (duplicates entries).forM complain
        return none
    | _, some target =>
      let filled ← assemble entries ⟨[], none⟩ (ownEntries target ⟨[], none⟩ [] entries)
        (keyDocuments entries) fun filled => mergedEntries target filled entries
      return filled.map fun f => f.value target

/-- Decodes nodes; those of which nothing comes are left out. -/
def nodes (shape : Shape) : List Node → Decode (List Value)
  | [] => return []
  | n :: ns => do
    let first ← node shape n
    let rest ← nodes shape ns
    return first.toList ++ rest

def ownEntries (target : Target) (filling : Filling) (set : List String) :
    List (Node × Node) → Decode Filling
  | [] => return filling
  | (key, value) :: rest => do
    if isMerge key then ownEntries target filling set rest
    else
      match ← node target.keyShape key with
      | none => ownEntries target filling set rest
      | some found =>
        let name := keyDocument found
        if (filling.taken.getD []).any (sameDocument name) then ownEntries target filling set rest
        else
          let filling := { filling with taken := filling.taken.map (name :: ·) }
          match ← target.valueShape set key.line name with
          | none => ownEntries target filling set rest
          | some shape =>
            let set := match name with
              | .text s => s :: set
              | _ => set
            match ← node shape value with
            | none => ownEntries target filling set rest
            | some v =>
              ownEntries target { filling with entries := (name, v) :: filling.entries } set rest

def keyDocuments : List (Node × Node) → Decode (List Document)
  | [] => return []
  | (key, _) :: rest => do
    let first ← node .any key
    let others ← keyDocuments rest
    return (first.map keyDocument).toList ++ others

def mergedEntries (target : Target) (filling : Filling) : List (Node × Node) → Decode Filling
  | [] => return filling
  | (key, value) :: rest => do
    if isMerge key then merge target filling value
    else mergedEntries target filling rest

def merge (target : Target) (filling : Filling) : Node → Decode Filling
  | .mapping _ _ entries => counted do
    let filled ← assemble entries filling (ownEntries target filling [] entries)
      (keyDocuments entries) fun filled => mergedEntries target filled entries
    return filled.getD filling
  | .alias _ _ (some (.mapping line written entries)) =>
    counted (throughAlias (merge target filling (.mapping line written entries)))
  | .sequence _ _ items => mergeItems target filling items
  | .alias _ name none => refuse ("yaml: anchor '" ++ name ++ "' value contains itself")
  | _ => refuse "yaml: map merge requires map or sequence of maps as the value"

/-- Merges each mapping of a sequence. -/
def mergeItems (target : Target) (filling : Filling) : List Node → Decode Filling
  | [] => return filling
  | n :: rest => do
    match n.withoutAlias with
    | .sequence _ _ _ => refuse "yaml: map merge requires map or sequence of maps as the value"
    | _ => mergeItems target (← merge target filling n) rest

end

end Decode

/-- Decodes a node on its own: what comes of it, and the complaints. -/
def Node.decode (shape : Shape) (n : Node) : Except String (Option Value × List Complaint) := do
  let (value, progress) ← (Decode.node shape n).run .start
  return (value, progress.complaints)

/-- Decodes the first document of a text by its characters. The outer `none` means that there is no
document, the inner that nothing comes of it. -/
def decodeChars (shape : Shape) (text : List Char) : Except Error (Option (Option Value)) :=
  match Node.ofChars text with
  | .error p => .error (.problem p)
  | .ok none => .ok none
  | .ok (some root) =>
    match root.decode shape with
    | .error text => .error (.refused text)
    | .ok (value, []) => .ok (some value)
    | .ok (_, complaints) => .error (.complaints complaints)

def decodeText (shape : Shape) (text : String) : Except Error (Option (Option Value)) :=
  decodeChars shape text.toList

/-- The fields of a text that has to be a mapping; a text without a document, or with nothing as its
document, has none. -/
def readObject? (text : String) : Except Error (Option (List (String × Document))) := do
  match ← decodeText (.objectOfAny "map[string]interface \x7b\x7d") text with
  | some (some (.document (.object fields))) => return some fields
  | _ => return none

end ObjectLang.Yaml
