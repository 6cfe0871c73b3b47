/-! A place in a YAML text: the characters that follow it, and the counts of lines, columns and
characters before it. -/

namespace ObjectLang.Yaml

/-- Something wrong in a YAML text, and the line where, counted from zero. -/
structure Problem where
  line : Nat
  text : String
  deriving DecidableEq, Repr

/-- A place in a text. -/
structure Cursor where
  rest : List Char
  index : Nat
  line : Nat
  column : Nat

/-- The characters that end a line. -/
def isBreak (c : Char) : Bool :=
  c = '\n' || c = '\r' || c = '\x85' || c = '\u2028' || c = '\u2029'

/-- A space or a tab. -/
def isBlank (c : Char) : Bool := c = ' ' || c = '\t'

/-- The characters of anchors, of tag handles and of the names of directives. -/
def isWord (c : Char) : Bool := c.isAlphanum || c = '_' || c = '-'

namespace Cursor

/-- The place before a text. -/
def start (cs : List Char) : Cursor := ⟨cs, 0, 0, 0⟩

def peek? (c : Cursor) : Option Char := c.rest.head?

/-- Whether the character at some distance has a property; beyond the end there is none. -/
def satisfies (c : Cursor) (distance : Nat) (p : Char → Bool) : Bool :=
  match c.rest.drop distance with
  | [] => false
  | x :: _ => p x

/-- Whether a given character stands at the place. -/
def at? (c : Cursor) (x : Char) : Bool := c.satisfies 0 (· = x)

/-- Whether the text ends at some distance or has a blank or a line break there. -/
def isGap (c : Cursor) (distance : Nat) : Bool :=
  match c.rest.drop distance with
  | [] => true
  | x :: _ => isBlank x || isBreak x

def isLineEnd (c : Cursor) : Bool :=
  match c.rest with
  | [] => true
  | x :: _ => isBreak x

/-- Passes a number of characters of one line. -/
def skip (n : Nat) (c : Cursor) : Cursor :=
  ⟨c.rest.drop n, c.index + n, c.line, c.column + n⟩

/-- The run of characters with a property, none of which ends a line, and the place after it. -/
def takeWhile (p : Char → Bool) (c : Cursor) : List Char × Cursor :=
  let run := c.rest.takeWhile p
  (run, c.skip run.length)

/-- The place after a run of characters with a property, none of which ends a line. -/
def skipWhile (p : Char → Bool) (c : Cursor) : Cursor := (c.takeWhile p).2

/-- The place after the rest of the line. -/
def skipToLineEnd (c : Cursor) : Cursor := c.skipWhile (fun x => !isBreak x)

/-- Passes a line break. Breaks read as a line feed, the separators of lines and paragraphs as
themselves. -/
def newline (c : Cursor) : List Char × Cursor :=
  match c.rest with
  | '\r' :: '\n' :: rest => (['\n'], ⟨rest, c.index + 2, c.line + 1, 0⟩)
  | x :: rest =>
    (if x = '\u2028' || x = '\u2029' then [x] else ['\n'], ⟨rest, c.index + 1, c.line + 1, 0⟩)
  | [] => ([], c)

/-- Whether a mark that starts or ends a document stands at the place. -/
def isDocumentMark (c : Cursor) : Bool :=
  c.column = 0 && (['-', '-', '-'].isPrefixOf c.rest || ['.', '.', '.'].isPrefixOf c.rest) && c.isGap 3

def problem (c : Cursor) (text : String) : Problem := ⟨c.line, text⟩

end Cursor

end ObjectLang.Yaml
