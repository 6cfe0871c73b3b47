import ObjectLang.Document.Basic

/-! Reading JSON text. The reader is a pushdown machine that takes one character at a time: a stack
of the containers still open and a mode that says what may come next. Every way to fail is named
after the character that could not be read and the place where it stood. -/

namespace ObjectLang.Json

/-- Why a text is no JSON document. -/
inductive Error where
  | unexpected (found : Char) (place : String)
  | truncated
  | numberTooLarge (written : String)
  | notObject (found : String)
  deriving DecidableEq, Repr

/-- A character in single quotes. One beyond ASCII is shown by the first byte of its encoding. -/
def shownChar (c : Char) : String :=
  let first := c.toString.toUTF8.toList.head?.map (fun b => Char.ofNat b.toNat)
  let shown := first.getD c
  if shown = '\'' then "'\\''"
  else if shown = '"' then "'\"'"
  else "'" ++ Text.quotedChar '"' shown ++ "'"

def Error.message : Error → String
  | .unexpected found place => "invalid character " ++ shownChar found ++ " " ++ place
  | .truncated => "unexpected end of JSON input"
  | .numberTooLarge written =>
    "json: cannot unmarshal number " ++ written ++ " into Go value of type float64"
  | .notObject found =>
    "json: cannot unmarshal " ++ found ++ " into Go value of type map[string]interface \x7b\x7d"

/-- A container that is still open, with what it holds so far, last first. -/
inductive Container where
  | list (items : List Document)
  | object (fields : List (String × Document)) (key : String)

/-- The part of a number that was read last. -/
inductive NumberPart where
  | sign
  | zero
  | whole
  | point
  | fraction
  | exponentMark
  | exponentSign
  | exponent
  deriving DecidableEq, Repr

def NumberPart.mayEnd : NumberPart → Bool
  | .zero | .whole | .fraction | .exponent => true
  | _ => false

/-- What the reader is within. In a string, `half` is the first half of a surrogate pair that waits
for its second; an escape by code point counts the digits still to come. -/
inductive Mode where
  | value
  | firstItem
  | firstKey
  | key
  | colon
  | afterItem
  | afterField
  | string (isKey : Bool) (chars : List Char) (half : Option Nat)
  | escape (isKey : Bool) (chars : List Char) (half : Option Nat)
  | codePoint (isKey : Bool) (chars : List Char) (half : Option Nat) (missing value : Nat)
  | number (part : NumberPart) (chars : List Char)
  | word (name : String) (rest : List Char) (meaning : Document)
  | finished (document : Document)

/-- The reader's state. `overflow` is the first number too large to represent. -/
structure Reader where
  stack : List Container
  mode : Mode
  overflow : Option String

/-- The reader before the first character. -/
def Reader.start : Reader := ⟨[], .value, none⟩

/-- How deep containers may nest. -/
def maxDepth : Nat := 10000

/-- The blanks between the parts of a document. -/
def isSpace (c : Char) : Bool := c = ' ' || c = '\t' || c = '\r' || c = '\n'

/-- Puts a finished value where it belongs. -/
def Reader.complete (r : Reader) (value : Document) : Reader :=
  match r.stack with
  | [] => { r with mode := .finished value }
  | .list items :: rest => { r with stack := .list (value :: items) :: rest, mode := .afterItem }
  | .object fields key :: rest =>
    { r with stack := .object ((key, value) :: fields) "" :: rest, mode := .afterField }

/-- Closes the innermost container. -/
def Reader.close (r : Reader) : Reader :=
  match r.stack with
  | [] => r
  | .list items :: rest => { r with stack := rest }.complete (.list items.reverse)
  | .object fields _ :: rest =>
    { r with stack := rest }.complete (.object (Document.distinctFields fields.reverse))

def Reader.enter (r : Reader) (c : Char) (container : Container) (mode : Mode) :
    Except Error Reader :=
  if r.stack.length < maxDepth then .ok { r with stack := container :: r.stack, mode := mode }
  else .error (.unexpected c "exceeded max depth")

/-- Starts a value at a character that is no blank. -/
def Reader.beginValue (r : Reader) (c : Char) : Except Error Reader :=
  match c with
  | '\x7b' => r.enter c (.object [] "") .firstKey
  | '[' => r.enter c (.list []) .firstItem
  | '"' => .ok { r with mode := .string false [] none }
  | '-' => .ok { r with mode := .number .sign ['-'] }
  | '0' => .ok { r with mode := .number .zero ['0'] }
  | 't' => .ok { r with mode := .word "true" ['r', 'u', 'e'] (.bool true) }
  | 'f' => .ok { r with mode := .word "false" ['a', 'l', 's', 'e'] (.bool false) }
  | 'n' => .ok { r with mode := .word "null" ['u', 'l', 'l'] .null }
  | _ =>
    if c.isDigit then .ok { r with mode := .number .whole [c] }
    else .error (.unexpected c "looking for beginning of value")

/-- Starts a key at a character that is no blank. -/
def Reader.beginKey (r : Reader) (c : Char) : Except Error Reader :=
  if c = '"' then .ok { r with mode := .string true [] none }
  else .error (.unexpected c "looking for beginning of object key string")

def Reader.endString (r : Reader) (isKey : Bool) (chars : List Char) : Reader :=
  let content := String.ofList chars.reverse
  if isKey then
    match r.stack with
    | .object fields _ :: rest => { r with stack := .object fields content :: rest, mode := .colon }
    | _ => r
  else r.complete (.text content)

/-- The characters so far once no second half can follow a waiting first half. -/
def settle (chars : List Char) : Option Nat → List Char
  | none => chars
  | some _ => '\ufffd' :: chars

/-- Adds an escaped code point: halves of a surrogate pair join, and a half without its partner
becomes the replacement character. -/
def addCodePoint (chars : List Char) (half : Option Nat) (u : Nat) : List Char × Option Nat :=
  match half with
  | some high =>
    if 0xDC00 ≤ u && u < 0xE000 then
      (Char.ofNat (0x10000 + (high - 0xD800) * 0x400 + (u - 0xDC00)) :: chars, none)
    else if 0xD800 ≤ u && u < 0xDC00 then ('\ufffd' :: chars, some u)
    else (Char.ofNat u :: '\ufffd' :: chars, none)
  | none =>
    if 0xD800 ≤ u && u < 0xDC00 then (chars, some u)
    else if 0xDC00 ≤ u && u < 0xE000 then ('\ufffd' :: chars, none)
    else (Char.ofNat u :: chars, none)

def escaped? : Char → Option Char
  | 'b' => some '\x08'
  | 'f' => some '\x0c'
  | 'n' => some '\n'
  | 'r' => some '\r'
  | 't' => some '\t'
  | '\\' => some '\\'
  | '/' => some '/'
  | '"' => some '"'
  | _ => none

/-- The value of a hexadecimal digit. -/
def hexDigit? (c : Char) : Option Nat :=
  if c.isDigit then some (c.toNat - '0'.toNat)
  else if 'a' ≤ c && c ≤ 'f' then some (c.toNat - 'a'.toNat + 10)
  else if 'A' ≤ c && c ≤ 'F' then some (c.toNat - 'A'.toNat + 10)
  else none

/-- How a number goes on with a character; `none` when the character is not part of it. -/
def numberStep (part : NumberPart) (c : Char) : Except Error (Option NumberPart) :=
  let orEnd : Except Error (Option NumberPart) := .ok none
  let exponentOr (other : Except Error (Option NumberPart)) :=
    if c = 'e' || c = 'E' then .ok (some .exponentMark) else other
  match part with
  | .sign =>
    if c = '0' then .ok (some .zero)
    else if c.isDigit then .ok (some .whole)
    else .error (.unexpected c "in numeric literal")
  | .zero => if c = '.' then .ok (some .point) else exponentOr orEnd
  | .whole =>
    if c.isDigit then .ok (some .whole)
    else if c = '.' then .ok (some .point)
    else exponentOr orEnd
  | .point =>
    if c.isDigit then .ok (some .fraction)
    else .error (.unexpected c "after decimal point in numeric literal")
  | .fraction => if c.isDigit then .ok (some .fraction) else exponentOr orEnd
  | .exponentMark =>
    if c = '+' || c = '-' then .ok (some .exponentSign)
    else if c.isDigit then .ok (some .exponent)
    else .error (.unexpected c "in exponent of numeric literal")
  | .exponentSign =>
    if c.isDigit then .ok (some .exponent)
    else .error (.unexpected c "in exponent of numeric literal")
  | .exponent => if c.isDigit then .ok (some .exponent) else orEnd

/-- Ends a number, last character first. A kept number stays as it was written. -/
def Reader.endNumber (r : Reader) (keep : Bool) (chars : List Char) : Reader :=
  let written := chars.reverse
  if keep then r.complete (.literal (String.ofList written))
  else match Number.Binary64.ofWritten written with
    | .infinity _ =>
      let overflow := r.overflow.getD (String.ofList written)
      { r with overflow := some overflow }.complete (.float (.infinity false))
    | x => r.complete (.float x)

def Reader.between (r : Reader) (c : Char) : Except Error Reader :=
  if isSpace c then .ok r
  else match r.mode with
    | .firstItem => if c = ']' then .ok r.close else r.beginValue c
    | .firstKey => if c = '\x7d' then .ok r.close else r.beginKey c
    | .key => r.beginKey c
    | .colon =>
      if c = ':' then .ok { r with mode := .value } else .error (.unexpected c "after object key")
    | .afterItem =>
      if c = ',' then .ok { r with mode := .value }
      else if c = ']' then .ok r.close
      else .error (.unexpected c "after array element")
    | .afterField =>
      if c = ',' then .ok { r with mode := .key }
      else if c = '\x7d' then .ok r.close
      else .error (.unexpected c "after object key:value pair")
    | .finished _ => .error (.unexpected c "after top-level value")
    | _ => r.beginValue c

def Reader.step (keep : Bool) (r : Reader) (c : Char) : Except Error Reader :=
  match r.mode with
  | .string isKey chars half =>
    if c = '"' then .ok (r.endString isKey (settle chars half))
    else if c = '\\' then .ok { r with mode := .escape isKey chars half }
    else if c.toNat < 0x20 then .error (.unexpected c "in string literal")
    else .ok { r with mode := .string isKey (c :: settle chars half) none }
  | .escape isKey chars half =>
    if c = 'u' then .ok { r with mode := .codePoint isKey chars half 4 0 }
    else match escaped? c with
      | some e => .ok { r with mode := .string isKey (e :: settle chars half) none }
      | none => .error (.unexpected c "in string escape code")
  | .codePoint isKey chars half missing value =>
    match hexDigit? c with
    | none => .error (.unexpected c "in \\u hexadecimal character escape")
    | some d =>
      if missing = 1 then
        let (chars, half) := addCodePoint chars half (value * 16 + d)
        .ok { r with mode := .string isKey chars half }
      else .ok { r with mode := .codePoint isKey chars half (missing - 1) (value * 16 + d) }
  | .number part chars =>
    match numberStep part c with
    | .error e => .error e
    | .ok (some part) => .ok { r with mode := .number part (c :: chars) }
    | .ok none => (r.endNumber keep chars).between c
  | .word name rest meaning =>
    match rest with
    | [] => .ok r
    | [e] =>
      if c = e then .ok (r.complete meaning)
      else .error (.unexpected c ("in literal " ++ name ++ " (expecting '" ++ e.toString ++ "')"))
    | e :: rest =>
      if c = e then .ok { r with mode := .word name rest meaning }
      else .error (.unexpected c ("in literal " ++ name ++ " (expecting '" ++ e.toString ++ "')"))
  | _ => r.between c

/-- The document that the reader has at the end of the text, and the first number in it that was too
large to represent. -/
def Reader.finish (keep : Bool) (r : Reader) : Except Error (Document × Option String) :=
  let ended := match r.mode with
    | .number part chars => if part.mayEnd then r.endNumber keep chars else r
    | _ => r
  match ended.mode with
  | .finished document => .ok (document, ended.overflow)
  | _ => .error .truncated

/-- Reads a JSON text; numbers are kept as written if asked, and otherwise become floating-point
numbers, with the first that was too large beside the document. -/
def read (keep : Bool) (text : String) : Except Error (Document × Option String) := do
  let reader ← text.toList.foldlM (Reader.step keep) .start
  reader.finish keep

/-- Reads a JSON text that has to be an object; the text `null` gives none. -/
def readObject? (text : String) : Except Error (Option (List (String × Document))) := do
  match ← read false text with
  | (.object fields, none) => .ok (some fields)
  | (.object _, some written) => .error (.numberTooLarge written)
  | (.null, _) => .ok none
  | (.list _, _) => .error (.notObject "array")
  | (.text _, _) => .error (.notObject "string")
  | (.bool _, _) => .error (.notObject "bool")
  | _ => .error (.notObject "number")

end ObjectLang.Json
