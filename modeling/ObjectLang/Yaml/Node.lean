import ObjectLang.Yaml.Token

/-! The nodes of a YAML document. The first document of a text is read and nothing behind it. An
alias stands for the node with its anchor; within that node itself it stands for nothing. -/

namespace ObjectLang.Yaml

/-- A node; every node has the line where it starts, counted from one, and the tag that was written
before it, if one was. -/
inductive Node where
  | scalar (line : Nat) (tag : String) (style : ScalarStyle) (text : String)
  | sequence (line : Nat) (tag : String) (items : List Node)
  | mapping (line : Nat) (tag : String) (entries : List (Node × Node))
  | alias (line : Nat) (name : String) (target : Option Node)
  deriving Inhabited

namespace Node

/-- What an anchor means: a node that was read, or one that is still being read, by its number. -/
inductive Anchored where
  | opened (number : Nat)
  | closed (node : Node)

/-- The state of reading nodes: the tokens left, the problem behind them, the tag handles, the
anchors, latest first, and how many anchors there were. -/
structure Reader where
  tokens : List Token
  problem : Problem
  handles : List (String × String)
  anchors : List (String × Anchored)
  opened : Nat

abbrev Read := StateT Reader (Except Problem)

/-- The next token, which stays. -/
def peek : Read Token := do
  let r ← get
  match r.tokens with
  | t :: _ => return t
  | [] => throw r.problem

def skip : Read Unit := modify fun r => { r with tokens := r.tokens.drop 1 }

def refuse (t : Token) (text : String) : Read α := throw ⟨t.line, text⟩

/-- The handles that need no directive. -/
def defaultHandles : List (String × String) := [("!", "!"), ("!!", "tag:yaml.org,2002:")]

/-- Reads directives, in as many rounds as given: whether the version was given, and the handles. -/
def directives : Nat → Bool → List (String × String) → Read (List (String × String))
  | 0, _, handles => return handles
  | rounds + 1, versioned, handles => do
    let t ← peek
    match t.kind with
    | .versionDirective major minor =>
      if versioned then refuse t "found duplicate %YAML directive"
      else if major.toNat? ≠ some 1 || minor.toNat? ≠ some 1 then
        refuse t "found incompatible YAML document"
      else
        skip
        directives rounds true handles
    | .tagDirective handle lead =>
      if handles.any (·.1 == handle) then refuse t "found duplicate %TAG directive"
      else
        skip
        directives rounds versioned ((handle, lead) :: handles)
    | _ => return handles

def resolveTag (t : Token) (handle suffix : String) : Read String := do
  if handle = "" then return suffix
  else
    match (← get).handles.lookup handle with
    | some lead => return lead ++ suffix
    | none => refuse t "found undefined tag handle"

/-- Reads the anchor and the tag before a node, in either order. -/
def properties : Read (String × String) := do
  let tagOf (t : Token) : Read String := do
    match t.kind with
    | .tag handle suffix =>
      skip
      resolveTag t handle suffix
    | _ => return ""
  let t ← peek
  match t.kind with
  | .anchor name =>
    skip
    let tag ← tagOf (← peek)
    return (name, tag)
  | .tag _ _ =>
    let tag ← tagOf t
    match (← peek).kind with
    | .anchor name =>
      skip
      return (name, tag)
    | _ => return ("", tag)
  | _ => return ("", "")

/-- Opens an anchor: from here on it means the node that starts. -/
def openAnchor (name : String) : Read Nat := do
  let r ← get
  if name ≠ "" then
    set { r with anchors := (name, .opened r.opened) :: r.anchors, opened := r.opened + 1 }
  return r.opened

/-- Closes an anchor: a node that was read is what it means, unless it was opened again since. -/
def closeAnchor (name : String) (number : Nat) (node : Node) : Read Unit :=
  modify fun r =>
    match r.anchors.lookup name with
    | some (.opened n) =>
      if n = number && name ≠ "" then { r with anchors := (name, .closed node) :: r.anchors } else r
    | _ => r

/-- A node without text. -/
def emptyScalar (t : Token) : Node := .scalar (t.line + 1) "" .plain ""

/-- Whether a token is none of some kinds, so that a node starts with it. -/
def startsNode (t : Token) (others : List TokenKind) : Bool := !others.contains t.kind

def blockMarks : List TokenKind := [.key, .value, .blockEnd]

mutual

/-- Reads a node. Block collections may be refused, and a sequence may start without indentation. -/
def node : Nat → Bool → Bool → Read Node
  | 0, _, _ => do refuse (← peek) "found a node that is nested too deep"
  | rounds + 1, block, indentless => do
    let first ← peek
    match first.kind with
    | .alias name =>
      skip
      match (← get).anchors.lookup name with
      | some (.closed target) => return .alias (first.line + 1) name (some target)
      | some (.opened _) => return .alias (first.line + 1) name none
      | none => refuse first ("unknown anchor '" ++ name ++ "' referenced")
    | _ =>
      let (anchor, tag) ← properties
      let number ← openAnchor anchor
      let t ← peek
      let line := first.line + 1
      let read ← match t.kind with
        | .blockEntry =>
          if indentless then do pure (.sequence line tag (← indentlessItems rounds []))
          else empty t line anchor tag
        | .scalar text style =>
          skip
          pure (.scalar line tag style text)
        | .flowSequenceStart =>
          skip
          do pure (.sequence line tag (← flowItems rounds true []))
        | .flowMappingStart =>
          skip
          do pure (.mapping line tag (← flowEntries rounds true []))
        | .blockSequenceStart =>
          if block then
            skip
            do pure (.sequence line tag (← blockItems rounds []))
          else empty t line anchor tag
        | .blockMappingStart =>
          if block then
            skip
            do pure (.mapping line tag (← blockEntries rounds []))
          else empty t line anchor tag
        | _ => empty t line anchor tag
      closeAnchor anchor number read
      return read
where
  /-- A node of which there are only an anchor or a tag. -/
  empty (t : Token) (line : Nat) (anchor tag : String) : Read Node :=
    if anchor ≠ "" || tag ≠ "" then return .scalar line tag .plain ""
    else refuse t "did not find expected node content"

/-- Reads a node, or an empty one if some mark comes instead. -/
def nodeUnless : Nat → List TokenKind → Bool → Bool → Read Node
  | 0, _, _, _ => do refuse (← peek) "found a node that is nested too deep"
  | rounds + 1, marks, block, indentless => do
    let t ← peek
    if startsNode t marks then node rounds block indentless else return emptyScalar t

def blockItems : Nat → List Node → Read (List Node)
  | 0, _ => do refuse (← peek) "found a node that is nested too deep"
  | rounds + 1, items => do
    let t ← peek
    match t.kind with
    | .blockEntry =>
      skip
      let item ← nodeUnless rounds [.blockEntry, .blockEnd] true false
      blockItems rounds (item :: items)
    | .blockEnd =>
      skip
      return items.reverse
    | _ => refuse t "did not find expected '-' indicator"

/-- Reads the items of a sequence without indentation, last first. -/
def indentlessItems : Nat → List Node → Read (List Node)
  | 0, _ => do refuse (← peek) "found a node that is nested too deep"
  | rounds + 1, items => do
    let t ← peek
    match t.kind with
    | .blockEntry =>
      skip
      let item ← nodeUnless rounds (.blockEntry :: blockMarks) true false
      indentlessItems rounds (item :: items)
    | _ => return items.reverse

def blockEntries : Nat → List (Node × Node) → Read (List (Node × Node))
  | 0, _ => do refuse (← peek) "found a node that is nested too deep"
  | rounds + 1, entries => do
    let t ← peek
    match t.kind with
    | .key =>
      skip
      let key ← nodeUnless rounds blockMarks true true
      let v ← peek
      match v.kind with
      | .value =>
        skip
        let value ← nodeUnless rounds blockMarks true true
        blockEntries rounds ((key, value) :: entries)
      | _ => blockEntries rounds ((key, emptyScalar v) :: entries)
    | .blockEnd =>
      skip
      return entries.reverse
    | _ => refuse t "did not find expected key"

/-- Reads the items of a flow sequence, last first; a key in it starts a mapping of one entry. -/
def flowItems : Nat → Bool → List Node → Read (List Node)
  | 0, _, _ => do refuse (← peek) "found a node that is nested too deep"
  | rounds + 1, first, items => do
    let t ← peek
    if t.kind = .flowSequenceEnd then
      skip
      return items.reverse
    else
      if !first then
        if t.kind = .flowEntry then skip else refuse t "did not find expected ',' or ']'"
      let t ← peek
      match t.kind with
      | .flowSequenceEnd =>
        skip
        return items.reverse
      | .key =>
        skip
        let entry ← pair rounds
        flowItems rounds false (.mapping (t.line + 1) "" [entry] :: items)
      | _ =>
        let item ← node rounds false false
        flowItems rounds false (item :: items)

/-- Reads the entry of a mapping in a flow sequence after its mark. -/
def pair : Nat → Read (Node × Node)
  | 0 => do refuse (← peek) "found a node that is nested too deep"
  | rounds + 1 => do
    let t ← peek
    let key ←
      if startsNode t [.value, .flowEntry, .flowSequenceEnd] then node rounds false false
      else do
        skip
        pure (emptyScalar t)
    let v ← peek
    match v.kind with
    | .value =>
      skip
      let value ← nodeUnless rounds [.flowEntry, .flowSequenceEnd] false false
      return (key, value)
    | _ => return (key, emptyScalar v)

def flowEntries : Nat → Bool → List (Node × Node) → Read (List (Node × Node))
  | 0, _, _ => do refuse (← peek) "found a node that is nested too deep"
  | rounds + 1, first, entries => do
    let t ← peek
    if t.kind = .flowMappingEnd then
      skip
      return entries.reverse
    else
      if !first then
        if t.kind = .flowEntry then skip else refuse t "did not find expected ',' or closing brace"
      let t ← peek
      match t.kind with
      | .flowMappingEnd =>
        skip
        return entries.reverse
      | .key =>
        skip
        let key ← nodeUnless rounds [.value, .flowEntry, .flowMappingEnd] false false
        let v ← peek
        match v.kind with
        | .value =>
          skip
          let value ← nodeUnless rounds [.flowEntry, .flowMappingEnd] false false
          flowEntries rounds false ((key, value) :: entries)
        | _ => flowEntries rounds false ((key, emptyScalar v) :: entries)
      | _ =>
        let key ← node rounds false false
        let v ← peek
        flowEntries rounds false ((key, emptyScalar v) :: entries)

end

/-- Reads the first document of a stream, if there is one. -/
def document (rounds : Nat) : Read (Option Node) := do
  skip
  let t ← peek
  match t.kind with
  | .streamEnd => return none
  | .versionDirective _ _ | .tagDirective _ _ | .documentStart =>
    let handles ← directives rounds false []
    let others := defaultHandles.filter fun h => !handles.any (·.1 == h.1)
    modify fun r => { r with handles := handles ++ others }
    let t ← peek
    if t.kind = .documentStart then
      skip
      let t ← peek
      let marks := [.documentStart, .documentEnd, .streamEnd]
      let isDirective := match t.kind with
        | .versionDirective _ _ | .tagDirective _ _ => true
        | _ => false
      if isDirective || !startsNode t marks then return some (emptyScalar t)
      else
        let root ← node rounds true false
        let _ ← peek
        return some root
    else refuse t "did not find expected <document start>"
  | _ =>
    let root ← node rounds true false
    let _ ← peek
    return some root

/-- The root of the first document of a text, if it has a document. -/
def ofChars (text : List Char) : Except Problem (Option Node) :=
  let ⟨tokens, problem⟩ := Tokens.ofChars text
  let rest := problem.getD ⟨0, "found unexpected end of stream"⟩
  let start : Reader := ⟨tokens, rest, defaultHandles, [], 0⟩
  ((do let _ ← peek; document (3 * tokens.length + 3)) : Read (Option Node)).run' start

end Node

end ObjectLang.Yaml
