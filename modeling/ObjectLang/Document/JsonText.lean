import ObjectLang.Document.Basic

/-! Writing documents as JSON text, in ASCII: what is beyond ASCII is escaped by its UTF-16 units. -/

namespace ObjectLang.Json

/-- The escape of a UTF-16 unit. -/
def unitText (n : Nat) : String := "\\u" ++ Text.hexText 4 n

def charText (c : Char) : String :=
  let n := c.toNat
  if c = '"' then "\\\""
  else if c = '\\' then "\\\\"
  else if 0x20 ≤ n && n < 0x7F then String.singleton c
  else if n < 0x10000 then unitText n
  else unitText (0xD800 + (n - 0x10000) / 0x400) ++ unitText (0xDC00 + (n - 0x10000) % 0x400)

def stringText (s : String) : String := "\"" ++ String.join (s.toList.map charText) ++ "\""

mutual

/-- A document as JSON text. Numbers kept as written are written so; what JSON has no form for is
`null`. -/
def text : Document → String
  | .null | .timestamp | .mapping _ => "null"
  | .bool b => if b then "true" else "false"
  | .text s => stringText s
  | .float x => x.text
  | .integer n => toString n
  | .int64 n => toString n
  | .unsigned n => toString n
  | .literal written => written
  | .list items => "[" ++ ",".intercalate (itemTexts items) ++ "]"
  | .object fields => "\x7b" ++ ",".intercalate (fieldTexts fields) ++ "\x7d"

def itemTexts : List Document → List String
  | [] => []
  | d :: ds => text d :: itemTexts ds

def fieldTexts : List (String × Document) → List String
  | [] => []
  | (key, d) :: rest => (stringText key ++ ":" ++ text d) :: fieldTexts rest

end

end ObjectLang.Json
