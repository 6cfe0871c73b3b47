import ObjectLang.Yaml.Scalar

/-! Texts written as YAML scalars. A text is written plain where it then reads back as itself. One that
would read as something else than a text is put between double quotes, one that no plain scalar can
hold between single quotes, one with special characters between double quotes with escapes, and one
of several lines as a literal block. -/

namespace ObjectLang.Yaml

def isPlainPrintable (c : Char) : Bool :=
  let n := c.toNat
  n = 0x0A || (0x20 ≤ n && n ≤ 0x7E) || (0xA0 ≤ n && n ≤ 0xD7FF) ||
    (0xE000 ≤ n && n ≤ 0xFFFD && n ≠ 0xFEFF)

def isLineEnd (c : Char) : Bool :=
  [0x0A, 0x0D, 0x85, 0x2028, 0x2029].contains c.toNat

/-- The characters that mean something at the start of a node. -/
def isIndicator (c : Char) : Bool :=
  ['#', ',', '[', ']', '\x7b', '\x7d', '&', '*', '!', '|', '>', '\'', '"', '%', '@', '\x60'].contains c

/-- Whether the next character is blank, or there is none. -/
def isBlankNext : List Char → Bool
  | [] => true
  | c :: _ => c = ' ' || c = '\t'

/-- Whether the start of a text would be taken for something else than the start of a scalar. -/
def startsWithIndicator : List Char → Bool
  | [] => false
  | c :: rest =>
    isIndicator c || ((c = '?' || c = ':' || c = '-') && isBlankNext rest) ||
      ['-', '-', '-'].isPrefixOf (c :: rest) || ['.', '.', '.'].isPrefixOf (c :: rest)

/-- Whether a colon before a blank, or a number sign after one, would end a plain scalar behind its
first character. -/
def hasInnerIndicator : List Char → Bool
  | before :: c :: rest =>
    (c = ':' && isBlankNext rest) ||
      (c = '#' && (before = ' ' || before = '\t' || before = '\x00' || isLineEnd before)) ||
      hasInnerIndicator (c :: rest)
  | _ => false

def hasNeighbours (p q : Char → Bool) : List Char → Bool
  | a :: b :: rest => (p a && q b) || hasNeighbours p q (b :: rest)
  | _ => false

/-- Whether some character has to be escaped; a tab is no such character. -/
def hasSpecial (cs : List Char) : Bool := cs.any fun c => c ≠ '\t' && !isPlainPrintable c

def hasSpaceBeforeBreak (cs : List Char) : Bool := hasNeighbours (· = ' ') isLineEnd cs

/-- Whether a text can stand between single quotes. -/
def canQuoteSingly (cs : List Char) : Bool :=
  !(hasNeighbours isLineEnd (· = ' ') cs || hasSpaceBeforeBreak cs || cs.contains '\t' || hasSpecial cs)

def canBePlain (cs : List Char) : Bool :=
  let isEdge (c : Option Char) : Bool := c.any fun c => c = ' ' || isLineEnd c
  canQuoteSingly cs && !(isEdge cs.head? || isEdge cs.getLast? || cs.any isLineEnd ||
    startsWithIndicator cs || hasInnerIndicator cs)

def canBeLiteral (cs : List Char) : Bool :=
  !(cs.isEmpty || cs.getLast? = some ' ' || hasSpaceBeforeBreak cs || hasSpecial cs)

/-- Passes one or more groups of a colon and a number below sixty. -/
def sixties (seen : Bool) : List Char → Option (List Char)
  | ':' :: a :: b :: rest =>
    if a.isDigit && b.isDigit && a ≤ '5' then sixties true rest
    else if a.isDigit then sixties true (b :: rest)
    else if seen then some (':' :: a :: b :: rest) else none
  | [':', a] => if a.isDigit then some [] else if seen then some [':', a] else none
  | cs => if seen then some cs else none

def isBaseSixty (cs : List Char) : Bool :=
  let isPart (c : Char) : Bool := c.isDigit || c = '_'
  let unsigned := match cs with
    | '-' :: rest => rest
    | '+' :: rest => rest
    | rest => rest
  match unsigned with
  | [] => false
  | d :: rest =>
    d.isDigit && (match sixties false (rest.dropWhile isPart) with
      | some [] => true
      | some ('.' :: fraction) => fraction.all isPart
      | _ => false)

/-- The words that once were truth values. -/
def isOldTruth (text : String) : Bool :=
  ["y", "Y", "yes", "Yes", "YES", "on", "On", "ON",
    "n", "N", "no", "No", "NO", "off", "Off", "OFF"].contains text

def readsAsText (text : String) : Bool :=
  (Scalar.meaning "" text).1 = "!!str" && !isBaseSixty text.toList && !isOldTruth text

/-- The upper-case hexadecimal digits of a number, with zeros in front up to a width. -/
def upperHex (width n : Nat) : String :=
  String.ofList ((Text.hexText width n).toList.map Char.toUpper)

/-- A character between double quotes. -/
def escaped (c : Char) : String :=
  if c = '"' then "\\\""
  else if c = '\\' then "\\\\"
  else if isPlainPrintable c && !isLineEnd c then String.singleton c
  else match c.toNat with
    | 0x00 => "\\0"
    | 0x07 => "\\a"
    | 0x08 => "\\b"
    | 0x09 => "\\t"
    | 0x0A => "\\n"
    | 0x0B => "\\v"
    | 0x0C => "\\f"
    | 0x0D => "\\r"
    | 0x1B => "\\e"
    | 0x85 => "\\N"
    | 0x2028 => "\\L"
    | 0x2029 => "\\P"
    | n =>
      if n ≤ 0xFF then "\\x" ++ upperHex 2 n
      else if n ≤ 0xFFFF then "\\u" ++ upperHex 4 n
      else "\\U" ++ upperHex 8 n

def doubleQuoted (cs : List Char) : String :=
  "\"" ++ String.join (cs.map escaped) ++ "\""

/-- The text between single quotes from a character on: quotes are written twice, and what follows the
end of a line is indented. -/
def singleQuotedRest (indent : Nat) (afterBreak : Bool) : List Char → List Char
  | [] => []
  | c :: rest =>
    if isLineEnd c then c :: singleQuotedRest indent true rest
    else
      (if afterBreak then List.replicate indent ' ' else []) ++
        (if c = '\'' then ['\'', '\''] else [c]) ++ singleQuotedRest indent false rest

def singleQuoted (indent : Nat) (cs : List Char) : String :=
  String.ofList ('\'' :: singleQuotedRest indent false cs ++ ['\''])

/-- The sign that says what becomes of the line ends behind a literal block. -/
def chompingSign (cs : List Char) : String :=
  match cs.reverse with
  | [] => "-"
  | [last] => if isLineEnd last then "+" else "-"
  | last :: before :: _ =>
    if !isLineEnd last then "-" else if isLineEnd before then "+" else ""

/-- The lines of a literal block, each indented unless it is empty. -/
def literalRest (indent : Nat) (atStart : Bool) : List Char → List Char
  | [] => []
  | c :: rest =>
    if isLineEnd c then c :: literalRest indent true rest
    else (if atStart then List.replicate indent ' ' else []) ++ c :: literalRest indent false rest

/-- A text as a literal block. The head of the block gives the indentation step if the text starts with
a space or an end of line. -/
def literalBlock (step indent : Nat) (cs : List Char) : String :=
  let startsBlank := cs.head?.any fun c => c = ' ' || isLineEnd c
  let startsBroken := cs.head?.any isLineEnd
  "|" ++ (if startsBlank then toString step else "") ++ chompingSign cs ++
    (if startsBroken then "" else "\n") ++ String.ofList (literalRest indent true cs) ++
    (if cs.getLast?.any isLineEnd then "" else "\n")

/-- A text as the value of a key, with the end of its line. Blocks are indented as far as given, in
steps of a given width. -/
def scalarText (step indent : Nat) (text : String) : String :=
  let cs := text.toList
  let doubly := doubleQuoted cs ++ "\n"
  if cs.contains '\n' then
    if canBeLiteral cs then literalBlock step indent cs else doubly
  else if readsAsText text then
    if canBePlain cs then text ++ "\n"
    else if canQuoteSingly cs then singleQuoted indent cs ++ "\n"
    else doubly
  else doubly

end ObjectLang.Yaml
