import ObjectLang.Number.Binary64
import ObjectLang.Text.Quoted

/-! Documents: the generic trees that program files are read into before they are decoded. JSON and
YAML both produce them, with different representations of numbers and of mappings whose keys are not
all texts. -/

namespace ObjectLang

/-- A generic document. Numbers come in five forms: `float` for JSON numbers, `integer` and
`unsigned` for YAML whole numbers within and beyond the signed 64-bit range, `int64` for whole numbers
that were made with 64 bits, and `literal` for a number kept as it was written. The keys of an `object`
are distinct. -/
inductive Document where
  | null
  | bool (value : Bool)
  | text (value : String)
  | float (value : Number.Binary64)
  | integer (value : Int)
  | int64 (value : Int64)
  | unsigned (value : Nat)
  | literal (written : String)
  | timestamp
  | list (items : List Document)
  | object (fields : List (String × Document))
  | mapping (entries : List (Document × Document))
  deriving Inhabited

namespace Document

def kindName : Document → String
  | .null => "<nil>"
  | .bool _ => "bool"
  | .text _ => "string"
  | .float _ => "float64"
  | .integer _ => "int"
  | .int64 _ => "int64"
  | .unsigned _ => "uint64"
  | .literal _ => "json.Number"
  | .timestamp => "time.Time"
  | .list _ => "[]interface \x7b\x7d"
  | .object _ => "map[string]interface \x7b\x7d"
  | .mapping _ => "map[interface \x7b\x7d]interface \x7b\x7d"

/-- Adds a field in front of others that come later, which win over it. -/
def consField (field : String × α) (later : List (String × α)) : List (String × α) :=
  if later.any (·.1 == field.1) then later else field :: later

/-- The fields of an object in which the last of several entries for one key counts. -/
def distinctFields (fields : List (String × α)) : List (String × α) :=
  fields.foldr consField []

/-- The value under a key; an absent key reads as `null`. -/
def field (fields : List (String × Document)) (key : String) : Document :=
  (fields.lookup key).getD .null

end Document

end ObjectLang
