import ObjectLang.Document.Basic
import ObjectLang.Number.Integer
import ObjectLang.Text.Utf8
import ObjectLang.Yaml.Node

/-! What YAML scalars mean. A scalar that is written plain means a truth value, nothing, a number, a
point in time or, if it looks like none of them, its text; a tag may ask for a meaning, and a scalar
that does not have it is refused. -/

namespace ObjectLang.Yaml

def shortTag (tag : String) : String :=
  let long := "tag:yaml.org,2002:"
  if tag.startsWith long then "!!" ++ String.ofList (tag.toList.drop long.length) else tag

namespace Scalar

def word? : String → Option (String × Document)
  | "true" | "True" | "TRUE" => some ("!!bool", .bool true)
  | "false" | "False" | "FALSE" => some ("!!bool", .bool false)
  | "" | "~" | "null" | "Null" | "NULL" => some ("!!null", .null)
  | ".nan" | ".NaN" | ".NAN" => some ("!!float", .float .nan)
  | ".inf" | ".Inf" | ".INF" | "+.inf" | "+.Inf" | "+.INF" => some ("!!float", .float (.infinity false))
  | "-.inf" | "-.Inf" | "-.INF" => some ("!!float", .float (.infinity true))
  | _ => none

/-- The base that the front of a magnitude shows, and the digits. -/
def splitBase : List Char → Nat × List Char
  | '0' :: x :: rest =>
    if rest.isEmpty then (8, x :: rest)
    else if x = 'b' || x = 'B' then (2, rest)
    else if x = 'o' || x = 'O' then (8, rest)
    else if x = 'x' || x = 'X' then (16, rest)
    else (8, x :: rest)
  | '0' :: [] => (8, [])
  | cs => (10, cs)

def signed? (negative : Bool) : Number.Magnitude → Option Int
  | .value n =>
    let value : Int := if negative then -(n : Int) else n
    if Number.minInt64 ≤ value && value ≤ Number.maxInt64 then some value else none
  | _ => none

/-- Reads a signed whole number that shows its base. -/
def based? (cs : List Char) : Option Int :=
  let (negative, magnitude) := Number.splitSign cs
  if magnitude.isEmpty then none
  else
    let (base, digits) := splitBase magnitude
    signed? negative (Number.readDigits base 0 digits)

def ofBase? (base : Nat) (cs : List Char) : Option Int :=
  let (negative, digits) := Number.splitSign cs
  signed? negative (Number.readMagnitude base digits)

/-- Reads a whole number without sign that shows its base. -/
def unsigned? (cs : List Char) : Option Nat :=
  if cs.isEmpty then none
  else
    let (base, digits) := splitBase cs
    match Number.readDigits base 0 digits with
    | .value n => some n
    | _ => none

def unsignedOfBase? (base : Nat) (cs : List Char) : Option Nat :=
  match Number.readMagnitude base cs with
  | .value n => some n
  | _ => none

/-- Whether the exponent of a decimal is well formed, or absent. -/
def isExponent : List Char → Bool
  | [] => true
  | mark :: rest =>
    let digits := match rest with
      | '+' :: ds => ds
      | '-' :: ds => ds
      | ds => ds
    (mark = 'e' || mark = 'E') && !digits.isEmpty && digits.all Char.isDigit

/-- Whether characters are a decimal with an optional sign, fraction and exponent. -/
def isDecimal (cs : List Char) : Bool :=
  let (_, cs) := Number.splitSign cs
  let whole := cs.takeWhile Char.isDigit
  match cs.drop whole.length with
  | '.' :: rest =>
    let fraction := rest.takeWhile Char.isDigit
    !(whole.isEmpty && fraction.isEmpty) && isExponent (rest.drop fraction.length)
  | rest => !whole.isEmpty && isExponent rest

/-- Reads a decimal that is not too large. -/
def decimal? (cs : List Char) : Option Number.Binary64 :=
  if isDecimal cs then
    match Number.Binary64.ofWritten cs with
    | .infinity _ => none
    | x => some x
  else none

/-- Reads a number in any of its forms; underscores between the digits count for nothing. -/
def number? (text : String) : Option (String × Document) :=
  let plain := text.toList.filter (· ≠ '_')
  let whole (n : Option Int) (m : Option Nat) : Option (String × Document) :=
    match n, m with
    | some n, _ => some ("!!int", .integer n)
    | none, some m => some ("!!int", .unsigned m)
    | none, none => none
  let prefixed : Option (String × Document) :=
    match plain with
    | '0' :: 'b' :: rest => whole (ofBase? 2 rest) (unsignedOfBase? 2 rest)
    | '-' :: '0' :: 'b' :: rest => whole (ofBase? 2 ('-' :: rest)) none
    | '0' :: 'o' :: rest => whole (ofBase? 8 rest) (unsignedOfBase? 8 rest)
    | '-' :: '0' :: 'o' :: rest => whole (ofBase? 8 ('-' :: rest)) none
    | _ => none
  let float : Option (String × Document) := (decimal? plain).map fun x => ("!!float", .float x)
  (whole (based? plain) (unsigned? plain)).orElse fun _ => float.orElse fun _ => prefixed

/-- Reads a number of one or two digits. -/
def shortNumber? : List Char → Option (Nat × List Char)
  | a :: b :: rest =>
    if a.isDigit then
      if b.isDigit then some ((a.toNat - 48) * 10 + (b.toNat - 48), rest)
      else some (a.toNat - 48, b :: rest)
    else none
  | [a] => if a.isDigit then some (a.toNat - 48, []) else none
  | [] => none

def expect? (c : Char) : List Char → Option (List Char)
  | x :: rest => if x = c then some rest else none
  | [] => none

def daysIn (year month : Nat) : Nat :=
  if month = 2 then
    if year % 4 = 0 && (year % 100 ≠ 0 || year % 400 = 0) then 29 else 28
  else if [4, 6, 9, 11].contains month then 30 else 31

def date? (cs : List Char) : Option (List Char) := do
  let digits := cs.takeWhile Char.isDigit
  if digits.length ≠ 4 then none
  else
    let rest ← expect? '-' (cs.drop 4)
    let (month, rest) ← shortNumber? rest
    let rest ← expect? '-' rest
    let (day, rest) ← shortNumber? rest
    let year := Number.Binary64.digitsValue digits
    if 1 ≤ month && month ≤ 12 && 1 ≤ day && day ≤ daysIn year month then some rest else none

/-- Passes a fraction of a second, if there is one. -/
def skipFraction : List Char → List Char
  | mark :: d :: rest =>
    if (mark = '.' || mark = ',') && d.isDigit then rest.dropWhile Char.isDigit
    else mark :: d :: rest
  | cs => cs

/-- Reads a time of day. -/
def time? (cs : List Char) : Option (List Char) := do
  let (hour, rest) ← shortNumber? cs
  let rest ← expect? ':' rest
  let (minute, rest) ← shortNumber? rest
  let rest ← expect? ':' rest
  let (second, rest) ← shortNumber? rest
  if hour < 24 && minute < 60 && second < 60 then some (skipFraction rest) else none

def isZone : List Char → Bool
  | ['Z'] => true
  | [sign, a, b, ':', c, d] =>
    (sign = '+' || sign = '-') && [a, b, c, d].all Char.isDigit &&
      (a.toNat - 48) * 10 + (b.toNat - 48) ≤ 24 && (c.toNat - 48) * 10 + (d.toNat - 48) ≤ 60
  | _ => false

/-- Whether a text is a point in time: a date, alone, with a time of day after blanks, or with a time
of day and a zone after the letter T. -/
def isTimestamp (text : String) : Bool :=
  match date? text.toList with
  | none => false
  | some [] => true
  | some (' ' :: rest) => time? (rest.dropWhile (· = ' ')) = some []
  | some (t :: rest) =>
    (t = 'T' || t = 't') && (match time? rest with
      | some zone => isZone zone
      | none => false)

/-! ### Resolution -/

/-- What a text means that may mean anything, for a tag that was asked for or none: the tag that it
has and its value. Only the first character decides which forms are tried. -/
def meaning (tag text : String) : String × Document :=
  let asText := ("!!str", Document.text text)
  match text.toList with
  | [] => ("!!null", .null)
  | first :: _ =>
    if first = '+' || first = '-' || first.isDigit then
      match word? text with
      | some found => found
      | none =>
        if (tag = "" || tag = "!!timestamp") && isTimestamp text then ("!!timestamp", .timestamp)
        else (number? text).getD asText
    else if first = '.' then
      match word? text with
      | some found => found
      | none =>
        match decimal? text.toList with
        | some x => ("!!float", .float x)
        | none => asText
    else if ['y', 'Y', 'n', 'N', 't', 'T', 'f', 'F', 'o', 'O', '~'].contains first then
      (word? text).getD asText
    else asText

/-- What a text means under a tag, which may be empty. A whole number passes for a float; any other
meaning than the tag's is refused. -/
def resolve (tag text : String) : Except String (String × Document) :=
  if tag = "!!str" || tag = "!!binary" then .ok ("!!str", .text text)
  else if tag = "!!merge" && text = "<<" then .ok ("!!merge", .text text)
  else
    let (found, value) := meaning tag text
    if tag = "" || tag = found then .ok (found, value)
    else match tag, value with
      | "!!float", .integer n => .ok ("!!float", .float (.ofDecimal (n < 0) n.natAbs 0))
      | _, _ => .error ("yaml: cannot decode " ++ found ++ " \x60" ++ text ++ "\x60 as a " ++ tag)

def base64Digit? (c : Char) : Option Nat :=
  if 'A' ≤ c && c ≤ 'Z' then some (c.toNat - 'A'.toNat)
  else if 'a' ≤ c && c ≤ 'z' then some (c.toNat - 'a'.toNat + 26)
  else if '0' ≤ c && c ≤ '9' then some (c.toNat - '0'.toNat + 52)
  else if c = '+' then some 62
  else if c = '/' then some 63
  else none

/-- The bytes of base-64 text without line breaks. -/
def base64Bytes? : List Char → Option (List UInt8)
  | [] => some []
  | [a, b, '=', '='] => do
    let n := (← base64Digit? a) * 64 + (← base64Digit? b)
    return [(n / 16).toUInt8]
  | [a, b, c, '='] => do
    let n := ((← base64Digit? a) * 64 + (← base64Digit? b)) * 64 + (← base64Digit? c)
    return [(n / 1024).toUInt8, (n / 4 % 256).toUInt8]
  | a :: b :: c :: d :: rest => do
    let n := (((← base64Digit? a) * 64 + (← base64Digit? b)) * 64 + (← base64Digit? c)) * 64
      + (← base64Digit? d)
    return (n / 65536).toUInt8 :: (n / 256 % 256).toUInt8 :: (n % 256).toUInt8 ::
      (← base64Bytes? rest)
  | _ => none

/-- The text of base-64 data. -/
def binaryText? (text : String) : Option String :=
  (base64Bytes? (text.toList.filter fun c => c ≠ '\n' && c ≠ '\r')).map Text.ofBytes

end Scalar

namespace Node

/-- The tag of a node in short form: the one that was written, or the one that it has by its form. -/
def tag : Node → String
  | .scalar _ written style text =>
    if written ≠ "" && written ≠ "!" then shortTag written
    else if style ≠ .plain then "!!str"
    else if text = "<<" then "!!merge"
    else (Scalar.meaning "" text).1
  | .sequence _ written _ =>
    if written ≠ "" && written ≠ "!" then shortTag written else "!!seq"
  | .mapping _ written _ =>
    if written ≠ "" && written ≠ "!" then shortTag written else "!!map"
  | .alias _ _ (some target) => target.tag
  | .alias _ _ none => ""

def withoutAlias : Node → Node
  | .alias _ _ (some target) => target
  | n => n

def line : Node → Nat
  | .scalar line _ _ _ | .sequence line _ _ | .mapping line _ _ | .alias line _ _ => line

/-- The text of a scalar or the name of an alias; other nodes have none. -/
def text : Node → String
  | .scalar _ _ _ text => text
  | .alias _ name _ => name
  | _ => ""

/-- What a scalar means under its tag: the tag and the value. -/
def scalarMeaning (written : String) (style : ScalarStyle) (text : String) :
    Except String (String × Document) := do
  let tag := Node.tag (.scalar 0 written style text)
  if tag = "!!binary" then
    match Scalar.binaryText? text with
    | some decoded => return ("!!binary", .text decoded)
    | none => .error "yaml: !!binary value contains invalid base64 data"
  else Scalar.resolve tag text

end Node

end ObjectLang.Yaml
