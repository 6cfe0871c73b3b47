import ObjectLang.Yaml.ScalarText

/-! Records written in block style. Each field has a line of its own; the records of a list stand below
its key, two columns further in, and a dash marks the first field of each. -/

namespace ObjectLang.Yaml

/-- What a field of a record holds: a text, or a list of records that hold texts only. -/
inductive Written where
  | text (text : String)
  | records (records : List (List (String × String)))
  deriving DecidableEq, Repr

/-- A record as it is written: its fields in their order. -/
abbrev Record := List (String × Written)

/-- The width of an indentation step. -/
def step : Nat := 2

/-- The line of a text field behind what stands before its key, with the column of the key. -/
def fieldText (lead : String) (column : Nat) (field : String × String) : String :=
  lead ++ field.1 ++ ": " ++ scalarText step (column + step) field.2

def itemText : List (String × String) → String
  | [] => "  - \x7b\x7d\n"
  | first :: rest =>
    fieldText "  - " (2 * step) first ++ String.join (rest.map (fieldText "    " (2 * step)))

def Record.text (r : Record) : String :=
  String.join (r.map fun (key, written) =>
    match written with
    | .text text => fieldText "" 0 (key, text)
    | .records [] => key ++ ": []\n"
    | .records records => key ++ ":\n" ++ String.join (records.map itemText))

end ObjectLang.Yaml
