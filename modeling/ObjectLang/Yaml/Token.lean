import ObjectLang.Yaml.Cursor

/-! The tokens of a YAML text. Structure that the text shows by indentation becomes tokens of its
own, and a key that is only known for one by the colon after it gets its token afterwards, in front
of the tokens that it turned out to be. -/

namespace ObjectLang.Yaml

/-- How a scalar is written. -/
inductive ScalarStyle where
  | plain
  | singleQuoted
  | doubleQuoted
  | literal
  | folded
  deriving DecidableEq, Repr

/-- The kinds of tokens. -/
inductive TokenKind where
  | streamStart
  | streamEnd
  | versionDirective (major minor : String)
  | tagDirective (handle lead : String)
  | documentStart
  | documentEnd
  | blockSequenceStart
  | blockMappingStart
  | blockEnd
  | flowSequenceStart
  | flowSequenceEnd
  | flowMappingStart
  | flowMappingEnd
  | blockEntry
  | flowEntry
  | key
  | value
  | alias (name : String)
  | anchor (name : String)
  | tag (handle suffix : String)
  | scalar (text : String) (style : ScalarStyle)
  deriving DecidableEq, Repr

/-- A token and the line where it starts, counted from zero. -/
structure Token where
  line : Nat
  kind : TokenKind
  deriving DecidableEq, Repr

/-- What may turn out to be a key once a colon follows: the token that it starts with and its
place. A required one must turn out to be a key. -/
structure KeyCandidate where
  required : Bool
  position : Nat
  index : Nat
  line : Nat
  column : Nat

/-- The state of the scanner: the tokens so far, the open indentations, whether a key may start, and
the candidate for a key of every open flow collection and of the text around them, innermost
first. -/
structure Scanner where
  cursor : Cursor
  tokens : Array Token
  indent : Int
  indents : List Int
  keyAllowed : Bool
  candidates : List (Option KeyCandidate)

namespace Scanner

def start (cs : List Char) : Scanner :=
  ⟨.start cs, #[⟨0, .streamStart⟩], -1, [], true, [none]⟩

/-- Whether the place is within a flow collection. -/
def inFlow (s : Scanner) : Bool := s.candidates.length > 1

def addAt (s : Scanner) (line : Nat) (kind : TokenKind) : Scanner :=
  { s with tokens := s.tokens.push ⟨line, kind⟩ }

/-- Puts a token in front of those from a position on. -/
def insert (s : Scanner) (position line : Nat) (kind : TokenKind) : Scanner :=
  { s with tokens := s.tokens.extract 0 position ++ #[⟨line, kind⟩] ++
      s.tokens.extract position s.tokens.size }

/-- Adds a token for a number of characters at the place and passes them. -/
def take (s : Scanner) (n : Nat) (kind : TokenKind) : Scanner :=
  { s.addAt s.cursor.line kind with cursor := s.cursor.skip n }

/-- Forgets the innermost candidate, which is wrong if it was required. -/
def dropCandidate (s : Scanner) : Except Problem Scanner :=
  match s.candidates with
  | some candidate :: rest =>
    if candidate.required then .error ⟨candidate.line, "could not find expected ':'"⟩
    else .ok { s with candidates := none :: rest }
  | _ => .ok s

/-- Makes the place a candidate, where a key may start. -/
def saveCandidate (s : Scanner) : Except Problem Scanner :=
  if s.keyAllowed then do
    let s ← s.dropCandidate
    let c := s.cursor
    let required := !s.inFlow && s.indent = (c.column : Int)
    let candidate : KeyCandidate := ⟨required, s.tokens.size, c.index, c.line, c.column⟩
    return { s with candidates := some candidate :: s.candidates.drop 1 }
  else .ok s

/-- The innermost candidate, if the place is still near enough for it to be a key. -/
def liveCandidate (s : Scanner) : Except Problem (Option KeyCandidate) :=
  match s.candidates with
  | some candidate :: _ =>
    if candidate.line < s.cursor.line || candidate.index + 1024 < s.cursor.index then
      if candidate.required then .error ⟨candidate.line, "could not find expected ':'"⟩ else .ok none
    else .ok (some candidate)
  | _ => .ok none

/-- Closes the block collections that are indented deeper than a column. -/
def unindent (column : Int) : List Int → Scanner → Scanner
  | [], s => { s with indents := [] }
  | outer :: outers, s =>
    if s.indent > column then
      unindent column outers { s.addAt s.cursor.line .blockEnd with indent := outer }
    else { s with indents := outer :: outers }

/-- Closes the block collections that are indented deeper than a column, outside flow
collections. -/
def closeBlocks (s : Scanner) (column : Int) : Scanner :=
  if s.inFlow then s else unindent column s.indents s

/-- How many block collections, and how many flow collections, may be open at a place. -/
def maxDepth : Nat := 10000

/-- Opens a block collection at a column, outside flow collections, if it is deeper than the one
around it. -/
def openBlock (s : Scanner) (column line : Nat) (position : Nat) (kind : TokenKind) :
    Except Problem Scanner :=
  if s.inFlow || s.indent ≥ (column : Int) then .ok s
  else if s.indents.length < maxDepth then
    .ok { s.insert position line kind with indent := column, indents := s.indent :: s.indents }
  else .error (s.cursor.problem "exceeded max depth of 10000")

/-- Passes blanks, comments and line breaks, in as many rounds as given. -/
def skipSpace : Nat → Scanner → Scanner
  | 0, s => s
  | rounds + 1, s =>
    let c := s.cursor
    let c := if c.column = 0 && c.at? '\ufeff' then c.skip 1 else c
    let tabs := s.inFlow || !s.keyAllowed
    let c := c.skipWhile fun x => x = ' ' || (tabs && x = '\t')
    let c := if c.at? '#' then c.skipToLineEnd else c
    if c.satisfies 0 isBreak then
      skipSpace rounds
        { s with cursor := c.newline.2, keyAllowed := s.keyAllowed || !s.inFlow }
    else { s with cursor := c }

/-! ### Scalars -/

/-- The space inside a scalar: the blanks before the first line break, that break, and the breaks
after it. -/
structure Gap where
  blanks : List Char
  firstBreak : List Char
  moreBreaks : List Char
  broken : Bool

/-- The gap without anything. -/
def Gap.empty : Gap := ⟨[], [], [], false⟩

/-- What a gap reads as: blanks as they are, one break as a space, more breaks without the first. -/
def Gap.text (g : Gap) : List Char :=
  if g.broken then
    if g.firstBreak = ['\n'] then (if g.moreBreaks.isEmpty then [' '] else g.moreBreaks)
    else g.firstBreak ++ g.moreBreaks
  else g.blanks

/-- Reads a gap, in as many rounds as given. In a plain scalar no tab may stand before the column
where its lines begin. -/
def readGap (least : Option Int) : Nat → Gap → Cursor → Except Problem (Gap × Cursor)
  | 0, g, c => .ok (g, c)
  | rounds + 1, g, c =>
    match c.peek? with
    | none => .ok (g, c)
    | some x =>
      if isBlank x then
        let early := match least with
          | some column => g.broken && (c.column : Int) < column && x = '\t'
          | none => false
        if early then .error (c.problem "found a tab character that violates indentation")
        else
          let g := if g.broken then g else { g with blanks := g.blanks ++ [x] }
          readGap least rounds g (c.skip 1)
      else if isBreak x then
        let (text, c) := c.newline
        let g := if g.broken then { g with moreBreaks := g.moreBreaks ++ text }
          else ⟨[], text, [], true⟩
        readGap least rounds g c
      else .ok (g, c)

/-- The run of characters up to a gap or to a character that ends a plain scalar. -/
def plainRun (flow : Bool) : List Char → List Char
  | [] => []
  | x :: rest =>
    if isBlank x || isBreak x then []
    else if x = ':' && (match rest with | [] => true | y :: _ => isBlank y || isBreak y) then []
    else if flow && (x = ',' || x = '?' || x = '[' || x = ']' || x = '\x7b' || x = '\x7d') then []
    else x :: plainRun flow rest

/-- Reads a plain scalar on from what was read of it, in as many rounds as given: its text, the place
after it, and whether it ended after a line break. -/
def plainText (flow : Bool) (least : Int) :
    Nat → List Char → Gap → Cursor → Except Problem (List Char × Cursor × Bool)
  | 0, text, g, c => .ok (text, c, g.broken)
  | rounds + 1, text, g, c =>
    if c.isDocumentMark || c.at? '#' then .ok (text, c, g.broken)
    else
      let run := plainRun flow c.rest
      let after := c.skip run.length
      let (text, g) := if run.isEmpty then (text, g) else (text ++ g.text ++ run, .empty)
      match after.peek? with
      | none => .ok (text, after, g.broken)
      | some x =>
        if isBlank x || isBreak x then do
          let (g, next) ← readGap (some least) (after.rest.length + 1) .empty after
          if !flow && (next.column : Int) < least then return (text, next, g.broken)
          else plainText flow least rounds text g next
        else .ok (text, after, g.broken)

/-- The character that a one-letter escape in double quotes stands for. -/
def escaped? : Char → Option Char
  | '0' => some '\x00'
  | 'a' => some '\x07'
  | 'b' => some '\x08'
  | 't' => some '\t'
  | '\t' => some '\t'
  | 'n' => some '\n'
  | 'v' => some '\x0b'
  | 'f' => some '\x0c'
  | 'r' => some '\r'
  | 'e' => some '\x1b'
  | ' ' => some ' '
  | '"' => some '"'
  | '\'' => some '\''
  | '\\' => some '\\'
  | 'N' => some '\x85'
  | '_' => some '\xa0'
  | 'L' => some '\u2028'
  | 'P' => some '\u2029'
  | _ => none

/-- How many hexadecimal digits follow an escape by code point. -/
def escapeWidth? : Char → Option Nat
  | 'x' => some 2
  | 'u' => some 4
  | 'U' => some 8
  | _ => none

/-- The value of hexadecimal digits, if that is what they are. -/
def hexValue? (cs : List Char) : Option Nat :=
  cs.foldlM (fun n c =>
    if c.isDigit then some (16 * n + (c.toNat - '0'.toNat))
    else if 'a' ≤ c && c ≤ 'f' then some (16 * n + (c.toNat - 'a'.toNat + 10))
    else if 'A' ≤ c && c ≤ 'F' then some (16 * n + (c.toNat - 'A'.toNat + 10))
    else none) 0

/-- Reads an escape after its backslash: the character and the place after it. -/
def readEscape (c : Cursor) : Except Problem (Char × Cursor) :=
  match c.peek? with
  | none => .error (c.problem "found unexpected end of stream")
  | some x =>
    match escaped? x, escapeWidth? x with
    | some e, _ => .ok (e, c.skip 1)
    | none, some width =>
      let digits := (c.rest.drop 1).take width
      match hexValue? digits with
      | none => .error (c.problem "did not find expected hexdecimal number")
      | some n =>
        if digits.length < width then .error (c.problem "did not find expected hexdecimal number")
        else if (0xD800 ≤ n && n ≤ 0xDFFF) || n > 0x10FFFF then
          .error (c.problem "found invalid Unicode character escape code")
        else .ok (Char.ofNat n, c.skip (1 + width))
    | none, none => .error (c.problem "found unknown escape character")

/-- Reads the characters of a quoted scalar up to a gap or its closing quote, in as many rounds as
given: the text so far, last first, whether an escaped line break came last, and the place. -/
def quotedRun (single : Bool) :
    Nat → List Char → Cursor → Except Problem (List Char × Bool × Cursor)
  | 0, text, c => .ok (text, false, c)
  | rounds + 1, text, c =>
    match c.rest with
    | [] => .ok (text, false, c)
    | x :: rest =>
      if isBlank x || isBreak x then .ok (text, false, c)
      else if single then
        if x = '\'' then
          if rest.head? = some '\'' then quotedRun single rounds ('\'' :: text) (c.skip 2)
          else .ok (text, false, c)
        else quotedRun single rounds (x :: text) (c.skip 1)
      else if x = '"' then .ok (text, false, c)
      else if x = '\\' then
        if (c.skip 1).satisfies 0 isBreak then .ok (text, true, (c.skip 1).newline.2)
        else do
          let (e, c) ← readEscape (c.skip 1)
          quotedRun single rounds (e :: text) c
      else quotedRun single rounds (x :: text) (c.skip 1)

/-- Reads a quoted scalar after its opening quote, in as many rounds as given. -/
def quotedText (single : Bool) : Nat → List Char → Cursor → Except Problem (List Char × Cursor)
  | 0, _, c => .error (c.problem "found unexpected end of stream")
  | rounds + 1, text, c => do
    if c.isDocumentMark then .error (c.problem "found unexpected document indicator")
    else if c.rest.isEmpty then .error (c.problem "found unexpected end of stream")
    else
      let (run, escapedBreak, c) ← quotedRun single (c.rest.length + 1) [] c
      let text := text ++ run.reverse
      if c.at? (if single then '\'' else '"') then return (text, c.skip 1)
      else
        let start : Gap := if escapedBreak then ⟨[], [], [], true⟩ else .empty
        let (g, c) ← readGap none (c.rest.length + 1) start c
        quotedText single rounds (text ++ g.text) c

/-- Reads the line breaks and the indentation before a line of a block scalar, in as many rounds as
given: the breaks, the deepest column seen, and the place. The indentation is not known at first. -/
def blockBreaks (indent : Option Nat) :
    Nat → List Char → Nat → Cursor → Except Problem (List Char × Nat × Cursor)
  | 0, breaks, deepest, c => .ok (breaks, deepest, c)
  | rounds + 1, breaks, deepest, c =>
    let spaces := (c.rest.takeWhile (· = ' ')).length
    let wanted := match indent with
      | none => spaces
      | some n => min spaces (n - c.column)
    let c := c.skip wanted
    let deepest := max deepest c.column
    let shallow := match indent with
      | none => true
      | some n => c.column < n
    if shallow && c.at? '\t' then
      .error (c.problem "found a tab character where an indentation space is expected")
    else if c.satisfies 0 isBreak then
      let (text, c) := c.newline
      blockBreaks indent rounds (breaks ++ text) deepest c
    else .ok (breaks, deepest, c)

/-- Reads the lines of a block scalar, in as many rounds as given: its text, the break after its last
line, the breaks after that, and the place. -/
def blockLines (folded : Bool) (indent : Nat) :
    Nat → List Char → List Char → List Char → Bool → Cursor →
      Except Problem (List Char × List Char × List Char × Cursor)
  | 0, text, lead, trail, _, c => .ok (text, lead, trail, c)
  | rounds + 1, text, lead, trail, leadBlank, c =>
    if c.column = indent && !c.rest.isEmpty then do
      let blank := c.satisfies 0 isBlank
      let joint :=
        if folded && !leadBlank && !blank && lead = ['\n'] then
          (if trail.isEmpty then [' '] else [])
        else lead
      let (line, c) := c.takeWhile fun x => !isBreak x
      let (lead, c) := c.newline
      let text := text ++ joint ++ trail ++ line
      let (trail, _, c) ← blockBreaks (some indent) (c.rest.length + 1) [] 0 c
      blockLines folded indent rounds text lead trail blank c
    else .ok (text, lead, trail, c)

/-- Which of the breaks at its end a block scalar keeps. -/
inductive Chomping where
  | strip
  | clip
  | keep

/-- Reads the header of a block scalar after its mark: the indentation that it gives, what becomes of
the breaks at the end, and the place. -/
def blockHeader (c : Cursor) : Except Problem (Option Nat × Chomping × Cursor) :=
  let chomping? (c : Cursor) : Option Chomping :=
    if c.at? '+' then some .keep else if c.at? '-' then some .strip else none
  let digit? (c : Cursor) : Option Nat :=
    match c.peek? with
    | some x => if x.isDigit then some (x.toNat - '0'.toNat) else none
    | none => none
  let zero := Problem.mk c.line "found an indentation indicator equal to 0"
  match chomping? c with
  | some chomping =>
    let c := c.skip 1
    match digit? c with
    | some 0 => .error zero
    | some n => .ok (some n, chomping, c.skip 1)
    | none => .ok (none, chomping, c)
  | none =>
    match digit? c with
    | some 0 => .error zero
    | some n =>
      let c := c.skip 1
      match chomping? c with
      | some chomping => .ok (some n, chomping, c.skip 1)
      | none => .ok (some n, .clip, c)
    | none => .ok (none, .clip, c)

/-- Reads a block scalar after its mark, within blocks of a given indentation. -/
def blockText (folded : Bool) (around : Int) (c : Cursor) : Except Problem (List Char × Cursor) := do
  let (given, chomping, c) ← blockHeader c
  let c := c.skipWhile isBlank
  let c := if c.at? '#' then c.skipToLineEnd else c
  if !c.isLineEnd then .error (c.problem "did not find expected comment or line break")
  else
    let (_, c) := c.newline
    let given := given.map fun (n : Nat) => if around ≥ 0 then (around + (n : Int)).toNat else n
    let (trail, deepest, c) ← blockBreaks given (c.rest.length + 1) [] 0 c
    let indent := given.getD (max (max deepest (around + 1).toNat) 1)
    let (text, lead, trail, c) ← blockLines folded indent (c.rest.length + 1) [] [] trail false c
    match chomping with
    | .strip => return (text, c)
    | .clip => return (text ++ lead, c)
    | .keep => return (text ++ lead ++ trail, c)

/-! ### Anchors, tags and directives -/

/-- Reads the name of an anchor or an alias after its mark. -/
def readName (c : Cursor) : Except Problem (String × Cursor) :=
  let (name, c) := c.takeWhile isWord
  let ends := c.isGap 0 || c.satisfies 0 fun x =>
    ['?', ':', ',', ']', '\x7d', '%', '@', '\x60'].contains x
  if name.isEmpty || !ends then
    .error (c.problem "did not find expected alphabetic or numeric character")
  else .ok (String.ofList name, c)

def isTagChar (c : Char) : Bool :=
  isWord c || [';', '/', '?', ':', '@', '&', '=', '+', '$', ',', '.', '!', '~', '*', '\'', '(', ')',
    '[', ']', '%'].contains c

/-- The bytes that the escapes of a tag stand for, with all other characters as they are. -/
def unescapeTag : List Char → Option (List UInt8)
  | '%' :: a :: b :: rest => do
    let n ← hexValue? [a, b]
    return n.toUInt8 :: (← unescapeTag rest)
  | '%' :: _ => none
  | c :: rest => do return (String.singleton c).toUTF8.toList ++ (← unescapeTag rest)
  | [] => some []

def readTagText (c : Cursor) : Except Problem (String × Cursor) :=
  let (run, after) := c.takeWhile isTagChar
  match (unescapeTag run).bind fun bytes => String.fromUTF8? ⟨bytes.toArray⟩ with
  | some text => .ok (text, after)
  | none => .error (c.problem "did not find URI escaped octet")

/-- Reads a tag handle: an exclamation mark, perhaps followed by a word and another one. -/
def readHandle (directive : Bool) (c : Cursor) : Except Problem (String × Cursor) :=
  if c.at? '!' then
    let (word, c) := (c.skip 1).takeWhile isWord
    if c.at? '!' then .ok ("!" ++ String.ofList word ++ "!", c.skip 1)
    else if directive && !word.isEmpty then .error (c.problem "did not find expected '!'")
    else .ok ("!" ++ String.ofList word, c)
  else .error (c.problem "did not find expected '!'")

/-- Reads a tag: its handle and suffix, and the place after it. -/
def readTag (c : Cursor) : Except Problem (String × String × Cursor) := do
  let (handle, suffix, c) ←
    if c.satisfies 1 (· = '<') then do
      let (text, c) ← readTagText (c.skip 2)
      if text = "" then .error (c.problem "did not find expected tag URI")
      else if c.at? '>' then pure ("", text, c.skip 1)
      else .error (c.problem "did not find the expected '>'")
    else do
      let (handle, c) ← readHandle false c
      if handle.length ≥ 2 && handle.endsWith "!" then do
        let (text, c) ← readTagText c
        if text = "" then .error (c.problem "did not find expected tag URI")
        else pure (handle, text, c)
      else do
        let (text, c) ← readTagText c
        let suffix := String.ofList (handle.toList.drop 1) ++ text
        if suffix = "" then pure ("", "!", c) else pure ("!", suffix, c)
  if c.isGap 0 then return (handle, suffix, c)
  else .error (c.problem "did not find expected whitespace or line break")

def readVersionNumber (c : Cursor) : Except Problem (String × Cursor) :=
  let (digits, c) := c.takeWhile Char.isDigit
  if digits.isEmpty then .error (c.problem "did not find expected version number")
  else if digits.length > 9 then .error (c.problem "found extremely long version number")
  else .ok (String.ofList digits, c)

def readDirective (c : Cursor) : Except Problem (TokenKind × Cursor) := do
  let (name, c) := c.takeWhile isWord
  if !c.isGap 0 || name.isEmpty then .error (c.problem "could not find expected directive name")
  else
    let c := c.skipWhile isBlank
    let (kind, c) ← match String.ofList name with
      | "YAML" => do
        let (major, c) ← readVersionNumber c
        if c.at? '.' then
          let (minor, c) ← readVersionNumber (c.skip 1)
          pure (.versionDirective major minor, c)
        else .error (c.problem "did not find expected digit or '.' character")
      | "TAG" => do
        let (handle, c) ← readHandle true c
        if !c.satisfies 0 isBlank then .error (c.problem "did not find expected whitespace")
        else
          let (lead, c) ← readTagText (c.skipWhile isBlank)
          if lead = "" || !c.isGap 0 then
            .error (c.problem "did not find expected whitespace or line break")
          else pure (.tagDirective handle lead, c)
      | _ => .error (c.problem "found unknown directive name")
    let c := c.skipWhile isBlank
    let c := if c.at? '#' then c.skipToLineEnd else c
    if c.isLineEnd then return (kind, c.newline.2)
    else .error (c.problem "did not find expected comment or line break")

/-! ### Tokens -/

def addRead (s : Scanner) (kind : TokenKind) (after : Cursor) : Scanner :=
  { s.addAt s.cursor.line kind with cursor := after }

/-- Adds the end of the stream. -/
def fetchEnd (s : Scanner) : Except Problem Scanner := do
  let s ← (s.closeBlocks (-1)).dropCandidate
  return { s.addAt s.cursor.line .streamEnd with keyAllowed := false }

def fetchDirective (s : Scanner) : Except Problem Scanner := do
  let s ← (s.closeBlocks (-1)).dropCandidate
  let (kind, after) ← readDirective (s.cursor.skip 1)
  return { s.addRead kind after with keyAllowed := false }

/-- Adds the mark that starts or ends a document. -/
def fetchDocumentMark (s : Scanner) : Except Problem Scanner := do
  let s ← (s.closeBlocks (-1)).dropCandidate
  let kind := if s.cursor.at? '-' then TokenKind.documentStart else .documentEnd
  return { s.take 3 kind with keyAllowed := false }

/-- Opens a flow collection. -/
def fetchFlowStart (s : Scanner) (kind : TokenKind) : Except Problem Scanner := do
  let s ← s.saveCandidate
  if s.candidates.length ≤ maxDepth then
    return { s.take 1 kind with candidates := none :: s.candidates, keyAllowed := true }
  else .error (s.cursor.problem "exceeded max depth of 10000")

/-- Closes a flow collection. -/
def fetchFlowEnd (s : Scanner) (kind : TokenKind) : Except Problem Scanner := do
  let s ← s.dropCandidate
  let candidates := if s.inFlow then s.candidates.drop 1 else s.candidates
  return { s.take 1 kind with candidates := candidates, keyAllowed := false }

/-- Goes on to the next entry of a flow collection. -/
def fetchFlowEntry (s : Scanner) : Except Problem Scanner := do
  let s ← s.dropCandidate
  return { s.take 1 .flowEntry with keyAllowed := true }

/-- Goes on to the next entry of a block sequence. -/
def fetchBlockEntry (s : Scanner) : Except Problem Scanner := do
  if !s.inFlow && !s.keyAllowed then
    .error (s.cursor.problem "block sequence entries are not allowed in this context")
  else
    let s ← s.openBlock s.cursor.column s.cursor.line s.tokens.size .blockSequenceStart
    let s ← s.dropCandidate
    return { s.take 1 .blockEntry with keyAllowed := true }

/-- Adds the mark of a key. -/
def fetchKey (s : Scanner) : Except Problem Scanner := do
  if !s.inFlow && !s.keyAllowed then
    .error (s.cursor.problem "mapping keys are not allowed in this context")
  else
    let s ← s.openBlock s.cursor.column s.cursor.line s.tokens.size .blockMappingStart
    let s ← s.dropCandidate
    return { s.take 1 .key with keyAllowed := !s.inFlow }

/-- Adds the mark of a value; the candidate before it, if there is one, was a key. -/
def fetchValue (s : Scanner) : Except Problem Scanner := do
  match ← s.liveCandidate with
  | some candidate =>
    let s := s.insert candidate.position candidate.line .key
    let s ← s.openBlock candidate.column candidate.line candidate.position .blockMappingStart
    let s := { s with candidates := none :: s.candidates.drop 1, keyAllowed := false }
    return s.take 1 .value
  | none =>
    let s := { s with candidates := none :: s.candidates.drop 1 }
    if !s.inFlow && !s.keyAllowed then
      .error (s.cursor.problem "mapping values are not allowed in this context")
    else
      let s ← s.openBlock s.cursor.column s.cursor.line s.tokens.size .blockMappingStart
      return { s.take 1 .value with keyAllowed := !s.inFlow }

/-- Adds an alias or an anchor. -/
def fetchName (s : Scanner) (kind : String → TokenKind) : Except Problem Scanner := do
  let s ← s.saveCandidate
  let (name, after) ← readName (s.cursor.skip 1)
  return { s.addRead (kind name) after with keyAllowed := false }

def fetchTag (s : Scanner) : Except Problem Scanner := do
  let s ← s.saveCandidate
  let (handle, suffix, after) ← readTag s.cursor
  return { s.addRead (.tag handle suffix) after with keyAllowed := false }

def fetchBlockScalar (s : Scanner) (folded : Bool) : Except Problem Scanner := do
  let s ← s.dropCandidate
  let (text, after) ← blockText folded s.indent (s.cursor.skip 1)
  let style := if folded then ScalarStyle.folded else .literal
  return { s.addRead (.scalar (String.ofList text) style) after with keyAllowed := true }

/-- Adds a quoted scalar. -/
def fetchQuoted (s : Scanner) (single : Bool) : Except Problem Scanner := do
  let s ← s.saveCandidate
  let c := s.cursor.skip 1
  let (text, after) ← quotedText single (c.rest.length + 1) [] c
  let style := if single then ScalarStyle.singleQuoted else .doubleQuoted
  return { s.addRead (.scalar (String.ofList text) style) after with keyAllowed := false }

/-- Adds a plain scalar. -/
def fetchPlain (s : Scanner) : Except Problem Scanner := do
  let s ← s.saveCandidate
  let c := s.cursor
  let (text, after, broken) ← plainText s.inFlow (s.indent + 1) (c.rest.length + 1) [] .empty c
  return { s.addRead (.scalar (String.ofList text) .plain) after with keyAllowed := broken }

/-- The characters that do not start a plain scalar by themselves. -/
def indicators : List Char :=
  ['-', '?', ':', ',', '[', ']', '\x7b', '\x7d', '#', '&', '*', '!', '|', '>', '\'', '"', '%', '@',
    '\x60']

def startsPlain (s : Scanner) (x : Char) : Bool :=
  (!indicators.contains x && !isBlank x) ||
    (x = '-' && !s.cursor.satisfies 1 isBlank) ||
    (!s.inFlow && (x = '?' || x = ':') && !s.cursor.isGap 1)

/-- Adds the next token. -/
def fetch (s : Scanner) : Except Problem Scanner :=
  let s := skipSpace (s.cursor.rest.length + 1) s
  let s := s.closeBlocks s.cursor.column
  let c := s.cursor
  match c.peek? with
  | none => s.fetchEnd
  | some x =>
    if c.column = 0 && x = '%' then s.fetchDirective
    else if c.isDocumentMark then s.fetchDocumentMark
    else if x = '[' then s.fetchFlowStart .flowSequenceStart
    else if x = '\x7b' then s.fetchFlowStart .flowMappingStart
    else if x = ']' then s.fetchFlowEnd .flowSequenceEnd
    else if x = '\x7d' then s.fetchFlowEnd .flowMappingEnd
    else if x = ',' then s.fetchFlowEntry
    else if x = '-' && c.isGap 1 then s.fetchBlockEntry
    else if x = '?' && (s.inFlow || c.isGap 1) then s.fetchKey
    else if x = ':' && (s.inFlow || c.isGap 1) then s.fetchValue
    else if x = '*' then s.fetchName .alias
    else if x = '&' then s.fetchName .anchor
    else if x = '!' then s.fetchTag
    else if x = '|' && !s.inFlow then s.fetchBlockScalar false
    else if x = '>' && !s.inFlow then s.fetchBlockScalar true
    else if x = '\'' then s.fetchQuoted true
    else if x = '"' then s.fetchQuoted false
    else if s.startsPlain x then s.fetchPlain
    else .error (c.problem "found character that cannot start any token")

/-- Adds tokens up to the end of the text or a problem, in as many rounds as given. -/
def fetchAll : Nat → Scanner → Array Token × Option Problem
  | 0, s => (s.tokens, some (s.cursor.problem "found unexpected end of stream"))
  | rounds + 1, s =>
    match s.fetch with
    | .error problem => (s.tokens, some problem)
    | .ok next =>
      match next.tokens.back? with
      | some ⟨_, .streamEnd⟩ => (next.tokens, none)
      | _ => fetchAll rounds next

end Scanner

def isAllowed (c : Char) : Bool :=
  let n := c.toNat
  n = 0x09 || n = 0x0A || n = 0x0D || (0x20 ≤ n && n ≤ 0x7E) || n = 0x85 ||
    (0xA0 ≤ n && n ≤ 0xD7FF) || (0xE000 ≤ n && n ≤ 0xFFFD) || 0x10000 ≤ n

/-- The tokens that can be relied on, and the problem after them if there is one. Reading looks two
tokens ahead, so the last two tokens before a problem are never reached. -/
structure Tokens where
  tokens : List Token
  problem : Option Problem

/-- The tokens of a text. A byte order mark in front is no part of it. -/
def Tokens.ofChars (text : List Char) : Tokens :=
  let cs := match text with
    | '\ufeff' :: cs => cs
    | cs => cs
  if cs.all isAllowed then
    match Scanner.fetchAll (2 * cs.length + 2) (.start cs) with
    | (tokens, none) => ⟨tokens.toList, none⟩
    | (tokens, some problem) => ⟨tokens.toList.take (tokens.size - 2), some problem⟩
  else ⟨[], some ⟨0, "control characters are not allowed"⟩⟩

end ObjectLang.Yaml
