import ObjectLang.Proofs.Decoding
import ObjectLang.Proofs.NormalTexts

/-! Types and their texts. The text of a type is its base followed by a pair of brackets for every array
around it. A base that is a word, trimmed and without brackets at its end, is found again behind any
number of brackets, and every type that is read from a text has such a base. -/

namespace ObjectLang

namespace TypeName

def brackets : List Char := ['[', ']']

/-- A name that is read as the class of that name: not empty, without blanks around it, no basic type
and no array. -/
structure IsClassWord (name : String) : Prop where
  nonempty : name ≠ ""
  trimmed : Text.trim name = name
  not_int : name ≠ "int"
  not_boolean : name ≠ "boolean"
  not_array : ¬ brackets <:+ name.toList

/-- The base of a type is a basic type or a class that its name is read as. -/
def Plain : TypeName → Prop
  | .missing => False
  | .int _ | .boolean _ => True
  | .named _ name => IsClassWord name
  | .array _ elem => elem.Plain

/-- The type without its spans. -/
def bare : TypeName → TypeName
  | .missing => .missing
  | .int _ => .int .unknown
  | .boolean _ => .boolean .unknown
  | .named _ name => .named .unknown name
  | .array _ elem => .array .unknown elem.bare

theorem spans_bare (t : TypeName) : ∀ s ∈ t.bare.spans, s = .unknown := by
  induction t with
  | missing => exact List.forall_mem_nil _
  | array span elem ih => exact List.forall_mem_cons.mpr ⟨rfl, ih⟩
  | _ => exact List.forall_mem_singleton.mpr rfl

theorem toList_text_array (span : Span) (elem : TypeName) :
    (TypeName.array span elem).text.toList = elem.text.toList ++ brackets := by
  rw [text, String.toList_append]
  rfl

theorem isTrimmed_brackets : Text.IsTrimmed brackets :=
  Text.isTrimmed_of_trim_eq (by decide : Text.trim "[]" = "[]")

theorem Plain.isTrimmed {t : TypeName} (h : t.Plain) : Text.IsTrimmed t.text.toList := by
  induction t with
  | missing => exact h.elim
  | int span => exact Text.isTrimmed_of_trim_eq (by decide : Text.trim "int" = "int")
  | boolean span => exact Text.isTrimmed_of_trim_eq (by decide : Text.trim "boolean" = "boolean")
  | named span name => exact Text.isTrimmed_of_trim_eq h.trimmed
  | array span elem ih =>
      rw [toList_text_array]
      exact isTrimmed_brackets.append (by decide) (ih h)

theorem parse_brackets {cs front : List Char} (h : Text.trimChars cs = front ++ brackets) :
    parse cs = parse front >>= fun elem => .ok (.array .unknown elem) := by
  rw [parse]
  split
  · next hnil => simp [h, brackets] at hnil
  · next rest hrest =>
      have hfront : rest = front.reverse := by
        rw [h, brackets, List.reverse_append] at hrest
        exact (List.cons.inj (List.cons.inj hrest).2).2.symm
      rw [hfront, List.reverse_reverse]
      rfl
  · next hother =>
      exact absurd (by rw [h, List.reverse_append]; rfl) (hother front.reverse)

def ofWord : String → TypeName
  | "int" => .int .unknown
  | "boolean" => .boolean .unknown
  | name => .named .unknown name

theorem ofWord_named {name : String} (hint : name ≠ "int") (hboolean : name ≠ "boolean") :
    ofWord name = .named .unknown name := by
  unfold ofWord
  split
  · exact absurd rfl hint
  · exact absurd rfl hboolean
  · rfl

/-- A text without brackets at its end is read as what its word means. -/
theorem parse_word {cs : List Char} {name : String} (h : Text.trimChars cs = name.toList)
    (hne : name ≠ "") (hend : ¬ brackets <:+ name.toList) : parse cs = .ok (ofWord name) := by
  have hname : String.ofList (Text.trimChars cs).reverse.reverse = name := by
    rw [List.reverse_reverse, h, String.ofList_toList]
  rw [parse]
  split
  · next hnil =>
      rw [h, List.reverse_eq_nil_iff] at hnil
      exact absurd (String.toList_eq_nil_iff.mp hnil) hne
  · next rest hrest =>
      refine absurd ⟨rest.reverse, ?_⟩ hend
      rw [h, List.reverse_eq_iff] at hrest
      rw [hrest, brackets, List.reverse_cons, List.reverse_cons, List.append_assoc]
      rfl
  · rw [hname]
    split
    · rfl
    · rfl
    · next hint hboolean => exact congrArg Except.ok (ofWord_named hint hboolean).symm

/-- The text of a type whose base is read as it stands is read as the type. -/
theorem parse_text {t : TypeName} (h : t.Plain) : parse t.text.toList = .ok t.bare := by
  induction t with
  | missing => exact h.elim
  | int span =>
      have hword : Text.trimChars "int".toList = "int".toList := by decide
      exact parse_word hword (by decide) (by decide)
  | boolean span =>
      have hword : Text.trimChars "boolean".toList = "boolean".toList := by decide
      exact parse_word hword (by decide) (by decide)
  | named span name =>
      have hword : Text.trimChars name.toList = name.toList := h.isTrimmed.trimChars_eq
      rw [text, parse_word hword h.nonempty h.not_array, ofWord_named h.not_int h.not_boolean]
      rfl
  | array span elem ih =>
      have htrim := h.isTrimmed.trimChars_eq
      rw [toList_text_array] at htrim ⊢
      rw [parse_brackets htrim, ih h]
      rfl

/-- The base of every type that is read is read as it stands, and the type has no spans. -/
theorem plain_of_parse (cs : List Char) : Ensures (fun t => t.Plain ∧ t.bare = t) (parse cs) := by
  fun_induction parse cs with
  | case1 => exact .error _
  | case2 cs rest h ih =>
      refine ih.bind fun elem helem => .ok ⟨helem.1, ?_⟩
      rw [bare, helem.2]
  | case3 => exact .ok ⟨trivial, rfl⟩
  | case4 => exact .ok ⟨trivial, rfl⟩
  | case5 cs hnil harray hint hboolean =>
      rw [List.reverse_reverse] at hint hboolean ⊢
      refine .ok ⟨⟨fun hempty => ?_, ?_, hint, hboolean, ?_⟩, rfl⟩
      · rw [String.ofList_eq_empty_iff] at hempty
        exact hnil (by rw [hempty]; rfl)
      · refine Text.IsTrimmed.trim_eq ?_
        rw [String.toList_ofList]
        exact Text.isTrimmed_trimChars cs
      · rw [String.toList_ofList]
        rintro ⟨front, hfront⟩
        refine harray front.reverse ?_
        rw [← hfront, List.reverse_append]
        rfl

theorem parse_text_of_parse {cs : List Char} {t : TypeName} (h : parse cs = .ok t) :
    parse t.text.toList = .ok t := by
  obtain ⟨hplain, hbare⟩ := plain_of_parse cs t h
  rw [parse_text hplain, hbare]

end TypeName

end ObjectLang
