/-! Texts cut by bytes. Bytes that are not part of a whole character show as replacement characters. -/

namespace ObjectLang.Text

/-- The number of bytes of a character that starts with a byte. -/
def width (b : UInt8) : Nat :=
  if b < 0x80 then 1 else if b < 0xE0 then 2 else if b < 0xF0 then 3 else 4

/-- The text of bytes, in as many rounds as given. -/
def decodeRounds : Nat → List UInt8 → String
  | 0, _ | _, [] => ""
  | rounds + 1, b :: rest =>
    match String.fromUTF8? ⟨((b :: rest).take (width b)).toArray⟩ with
    | some c => c ++ decodeRounds rounds ((b :: rest).drop (width b))
    | none => "\ufffd" ++ decodeRounds rounds rest

/-- The text of bytes, with a replacement character for each byte that is not part of a character. -/
def ofBytes (bytes : List UInt8) : String := decodeRounds bytes.length bytes

def takeBytes (n : Nat) (s : String) : String := ofBytes (s.toUTF8.toList.take n)

end ObjectLang.Text
