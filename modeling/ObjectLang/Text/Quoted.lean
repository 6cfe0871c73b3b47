import ObjectLang.Text.Printable

/-! Quoted texts as messages show them: printable characters stand for themselves, the quote and the
backslash are escaped, control characters have short names and everything else its code point in
hexadecimal. -/

namespace ObjectLang.Text

/-- The lower-case hexadecimal digits of a number, filled up with zeros to a least width. -/
def hexText (width n : Nat) : String :=
  let digits := Nat.toDigits 16 n
  String.ofList (List.replicate (width - digits.length) '0' ++ digits)

/-- The escaped or plain form of one character between the given quotes. -/
def quotedChar (quote c : Char) : String :=
  if c = quote || c = '\\' then String.ofList ['\\', c]
  else if isPrintable c then String.singleton c
  else match c.toNat with
    | 0x07 => "\\a"
    | 0x08 => "\\b"
    | 0x09 => "\\t"
    | 0x0A => "\\n"
    | 0x0B => "\\v"
    | 0x0C => "\\f"
    | 0x0D => "\\r"
    | n =>
      if n < 0x20 || n = 0x7F then "\\x" ++ hexText 2 n
      else if n < 0x10000 then "\\u" ++ hexText 4 n
      else "\\U" ++ hexText 8 n

/-- A text between double quotes, with what is not printable escaped. -/
def quoted (s : String) : String :=
  "\"" ++ String.join (s.toList.map (quotedChar '"')) ++ "\""

end ObjectLang.Text
