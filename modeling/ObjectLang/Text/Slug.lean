import ObjectLang.Text.Blank

/-! Names made safe: the normal form of package names and the directory names of checkouts. -/

namespace ObjectLang.Text

/-- The lower-case form of a character where that form is an ASCII character; all other characters
are left alone. Beside `A` to `Z` these are the dotted capital I and the Kelvin sign. -/
def lowerAscii (c : Char) : Char :=
  if c.toNat = 0x130 then 'i'
  else if c.toNat = 0x212A then 'k'
  else c.toLower

def isNameChar (c : Char) : Bool :=
  ('a' ≤ c && c ≤ 'z') || ('0' ≤ c && c ≤ '9') || c = '_'

/-- The normal form of a package name: trimmed, in lower case, and with an underscore for every
character that is no ASCII letter, digit or underscore. -/
def packageName (s : String) : String :=
  String.ofList ((trimChars s.toList).map fun c =>
    if isNameChar (lowerAscii c) then lowerAscii c else '_')

/-- The characters of a checkout directory's name. -/
def isSegmentChar (c : Char) : Bool :=
  c.isAlphanum || c = '.' || c = '-' || c = '_'

/-- The directory name of a pinned version: trimmed, `head` when nothing is left, and with an
underscore for every character that is no ASCII letter, digit, dot, hyphen or underscore. -/
def pathSegment (s : String) : String :=
  match trimChars s.toList with
  | [] => "head"
  | cs => String.ofList (cs.map fun c => if isSegmentChar c then c else '_')

end ObjectLang.Text
