/-! Blank characters and trimming. A character is blank when it has the Unicode property
`White_Space`; trimming removes the blanks at both ends of a text and nothing between. -/

namespace ObjectLang.Text

/-- The code points with the property `White_Space`, as closed ranges in increasing order. -/
def blankRanges : List (Nat × Nat) :=
  [(0x09, 0x0D), (0x20, 0x20), (0x85, 0x85), (0xA0, 0xA0), (0x1680, 0x1680), (0x2000, 0x200A),
    (0x2028, 0x2029), (0x202F, 0x202F), (0x205F, 0x205F), (0x3000, 0x3000)]

/-- A character that separates words and that trimming removes. -/
def isBlank (c : Char) : Bool :=
  blankRanges.any fun range => range.1 ≤ c.toNat && c.toNat ≤ range.2

def trimChars (cs : List Char) : List Char :=
  ((cs.dropWhile isBlank).reverse.dropWhile isBlank).reverse

theorem length_dropWhile_le (p : α → Bool) (l : List α) : (l.dropWhile p).length ≤ l.length := by
  induction l with
  | nil => simp
  | cons a l ih =>
    rw [List.dropWhile_cons]
    split
    · exact Nat.le_succ_of_le ih
    · exact Nat.le_refl _

/-- Trimming does not lengthen. -/
theorem length_trimChars_le (cs : List Char) : (trimChars cs).length ≤ cs.length := by
  have inner := length_dropWhile_le isBlank cs
  have outer := length_dropWhile_le isBlank (cs.dropWhile isBlank).reverse
  simp only [trimChars, List.length_reverse] at *
  omega

/-- Drops the blanks at both ends of a text. -/
def trim (s : String) : String :=
  String.ofList (trimChars s.toList)

end ObjectLang.Text
