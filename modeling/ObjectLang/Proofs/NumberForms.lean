import ObjectLang.Package.Source
import ObjectLang.Proofs.AlikeReadings
import ObjectLang.Proofs.RoundTrip

/-! The forms of numbers. A whole number of at most 53 bits may stand in a document as an integer, as an
integer of 64 bits, as a floating-point number or as its decimal text, and every form is read as the same
number. So documents that differ in the forms of their numbers alone are read as the same program, or
none of them is read as one, wherever in them the numbers stand. -/

namespace ObjectLang

namespace Number.Binary64

/-- A floating-point number is a whole number exactly: its mantissa times its power of two is the size of
the number, and it has the sign. -/
def Equals : Binary64 → Int → Prop
  | .finite negative m e, n => ∃ size : Nat, m * 2 ^ e.toNat = size * 2 ^ (-e).toNat ∧
      n = if negative then -(size : Int) else size
  | _, _ => False

theorem equals_iff {x : Binary64} {n : Int} :
    x.Equals n ↔ x.isWhole = true ∧ x.truncate? = some n := by
  cases x with
  | infinity negative => exact ⟨nofun, nofun⟩
  | nan => exact ⟨nofun, nofun⟩
  | finite negative m e =>
      simp only [Equals, isWhole, truncate?, Nat.pow_eq, Bool.or_eq_true, decide_eq_true_eq,
        Option.some.injEq]
      by_cases he : 0 ≤ e
      · have hdown : (-e).toNat = 0 := by omega
        simp [he, hdown, eq_comm]
      · have hup : e.toNat = 0 := by omega
        have hpow : 0 < 2 ^ (-e).toNat := Nat.two_pow_pos _
        simp only [he, hup, false_or, if_false, pow_zero, Nat.mul_one]
        constructor
        · rintro ⟨size, rfl, rfl⟩
          rw [Nat.mul_mod_left, Nat.mul_div_cancel _ hpow]
          exact ⟨rfl, rfl⟩
        · rintro ⟨hmod, rfl⟩
          exact ⟨m / 2 ^ (-e).toNat, (Nat.div_mul_cancel (Nat.dvd_of_mod_eq_zero hmod)).symm, rfl⟩

end Number.Binary64

namespace Number

theorem digit?_of_isDigit {c : Char} (h : c.isDigit = true) :
    digit? 10 c = some (c.toNat - '0'.toNat) := by
  obtain ⟨hlow, hhigh⟩ := Char.isDigit_iff_toNat.mp h
  have hfrom : '0' ≤ c := hlow
  have hto : c ≤ '9' := hhigh
  have hrange : ('0' ≤ c && c ≤ '9') = true := by simp [hfrom, hto]
  have hvalue : c.toNat - '0'.toNat < 10 := by
    have hnine : '9'.toNat = '0'.toNat + 9 := rfl
    omega
  simp only [digit?, hrange, if_pos hvalue, if_true]

/-- Digits whose value has 64 bits are read as their value: no start of them has a greater one. -/
theorem readDigits_eq {cs : List Char} (hcs : ∀ c ∈ cs, c.isDigit = true) {n : Nat}
    (h : Nat.ofDigitChars 10 cs n < 2 ^ 64) :
    readDigits 10 n cs = .value (Nat.ofDigitChars 10 cs n) := by
  induction cs generalizing n with
  | nil => rfl
  | cons c cs ih =>
      obtain ⟨hc, hcs⟩ := List.forall_mem_cons.mp hcs
      rw [Nat.ofDigitChars_cons, Nat.mul_comm] at h ⊢
      have hstart : n * 10 + (c.toNat - '0'.toNat) < Nat.pow 2 64 := by
        rw [Nat.ofDigitChars_eq_ofDigitChars_zero] at h
        have hpow : 1 ≤ 10 ^ cs.length := Nat.one_le_pow _ _ (by decide)
        have hle := Nat.mul_le_mul_right (n * 10 + (c.toNat - '0'.toNat)) hpow
        rw [Nat.pow_eq]
        omega
      simp only [readDigits, digit?_of_isDigit hc, if_pos hstart]
      exact ih hcs h

theorem readMagnitude_eq {cs : List Char} (hne : cs ≠ []) (hcs : ∀ c ∈ cs, c.isDigit = true)
    (h : Nat.ofDigitChars 10 cs 0 < 2 ^ 64) :
    readMagnitude 10 cs = .value (Nat.ofDigitChars 10 cs 0) := by
  cases cs with
  | nil => exact absurd rfl hne
  | cons c cs => exact readDigits_eq hcs h

theorem splitSign_of_isDigit {cs : List Char} (hcs : ∀ c ∈ cs, c.isDigit = true) :
    splitSign cs = (false, cs) := by
  cases cs with
  | nil => rfl
  | cons c cs =>
      have hc := hcs c List.mem_cons_self
      unfold splitSign
      split
      · next heq => rw [(List.cons.inj heq).1] at hc; exact absurd hc (by decide)
      · next heq => rw [(List.cons.inj heq).1] at hc; exact absurd hc (by decide)
      · rfl

end Number

namespace Document

/-- The whole number that a number of a document stands for, in each of its forms; a decimal text has
digits and at most a minus before them. -/
inductive Denotes : Document → Int → Prop where
  | integer (n : Int) : Denotes (.integer n) n
  | int64 (n : Int64) : Denotes (.int64 n) n.toInt
  | float {x : Number.Binary64} {n : Int} (h : x.Equals n) : Denotes (.float x) n
  | decimal {digits : List Char} (hne : digits ≠ []) (h : ∀ c ∈ digits, c.isDigit = true) :
      Denotes (.literal (String.ofList digits)) (Nat.ofDigitChars 10 digits 0)
  | negative {digits : List Char} (hne : digits ≠ []) (h : ∀ c ∈ digits, c.isDigit = true) :
      Denotes (.literal (String.ofList ('-' :: digits))) (-(Nat.ofDigitChars 10 digits 0 : Int))

theorem denotes_ofWhole {n : Int} (h : n.natAbs ≤ 2 ^ 53) : (ofWhole n).Denotes n := by
  obtain ⟨hwhole, htruncate⟩ := Number.Binary64.ofDecimal_whole (decide (n < 0)) h
  refine .float ?_
  rw [Number.Binary64.ofWritten_toString, Number.Binary64.equals_iff, htruncate]
  exact ⟨hwhole, congrArg some (signed_natAbs n)⟩

/-- Whatever its form, a number of at most 53 bits is found in a document. -/
theorem Denotes.toInt {d : Document} {n : Int} (h : d.Denotes n) (hn : n.natAbs ≤ 2 ^ 53) :
    d.toInt = .ok n := by
  have hrange : (Number.minInt64 ≤ n && n ≤ Number.maxInt64) = true := by
    rw [Bool.and_eq_true, decide_eq_true_eq, decide_eq_true_eq, Number.minInt64, Number.maxInt64]
    omega
  cases h with
  | integer => rfl
  | int64 => rfl
  | float h =>
      obtain ⟨hwhole, htruncate⟩ := Number.Binary64.equals_iff.mp h
      rw [Document.toInt, if_pos hwhole, Number.Binary64.toInt64, htruncate]
      simp only [if_pos hrange]
  | decimal hne hdigits =>
      have hvalue := Number.readMagnitude_eq hne hdigits (by omega)
      simp only [Document.toInt, Number.parseInt64, String.toList_ofList,
        Number.splitSign_of_isDigit hdigits, hvalue, Bool.false_eq_true, if_false, if_pos hrange]
      rfl
  | negative hne hdigits =>
      have hvalue := Number.readMagnitude_eq hne hdigits (by omega)
      simp only [Document.toInt, Number.parseInt64, String.toList_ofList, Number.splitSign, hvalue,
        if_true, if_pos hrange]
      rfl

/-- Numbers are read alike if they are the same number. -/
theorem Denotes.alike {d d' : Document} {n : Int} (h : d.Denotes n) (h' : d'.Denotes n)
    (hn : n.natAbs ≤ 2 ^ 53) : d.reading.Alike d'.reading := by
  have hplain : ∀ {d : Document}, d.Denotes n →
      d.reading = .plain d ∧ d.shape = .other ∧ d.toSpan? = none := by
    intro d h
    cases h <;> exact ⟨rfl, rfl, rfl⟩
  obtain ⟨hreading, hshape, hspan⟩ := hplain h
  obtain ⟨hreading', hshape', hspan'⟩ := hplain h'
  rw [hreading, hreading']
  refine ⟨hshape.trans hshape'.symm, ?_, hspan.trans hspan'.symm, .error _ _, .nil⟩
  change Agree d.toInt d'.toInt
  rw [h.toInt hn, h'.toInt hn]
  exact .refl _

mutual

/-- A document in which some numbers of at most 53 bits were put into other forms. -/
inductive Recasts : Document → Document → Prop where
  | same (d : Document) : Recasts d d
  | number {d d' : Document} {n : Int} (h : d.Denotes n) (h' : d'.Denotes n)
      (hn : n.natAbs ≤ 2 ^ 53) : Recasts d d'
  | list {ds ds' : List Document} (h : AllRecast ds ds') : Recasts (.list ds) (.list ds')
  | object {fields fields' : List (String × Document)} (h : FieldsRecast fields fields') :
      Recasts (.object fields) (.object fields')
  | mapping {entries entries' : List (Document × Document)} (h : EntriesRecast entries entries') :
      Recasts (.mapping entries) (.mapping entries')

inductive AllRecast : List Document → List Document → Prop where
  | nil : AllRecast [] []
  | cons {d d' : Document} {ds ds' : List Document} (h : Recasts d d') (hs : AllRecast ds ds') :
      AllRecast (d :: ds) (d' :: ds')

inductive FieldsRecast : List (String × Document) → List (String × Document) → Prop where
  | nil : FieldsRecast [] []
  | cons {key : String} {d d' : Document} {fields fields' : List (String × Document)}
      (h : Recasts d d') (hs : FieldsRecast fields fields') :
      FieldsRecast ((key, d) :: fields) ((key, d') :: fields')

inductive EntriesRecast : List (Document × Document) → List (Document × Document) → Prop where
  | nil : EntriesRecast [] []
  | cons {key key' d d' : Document} {entries entries' : List (Document × Document)}
      (hkey : Recasts key key') (h : Recasts d d') (hs : EntriesRecast entries entries') :
      EntriesRecast ((key, d) :: entries) ((key', d') :: entries')

end

mutual

theorem Recasts.alike : {d d' : Document} → Recasts d d' → d.reading.Alike d'.reading
  | _, _, .same d => .refl _
  | _, _, .number h h' hn => h.alike h' hn
  | _, _, .list h => ⟨rfl, .error _ _, rfl, .error _ _, h.alike⟩
  | .object _, .object _, .object h => alike_object fun key => .inner (h.alike key)
  | _, _, .mapping _ => ⟨rfl, .error _ _, rfl, .error _ _, .nil⟩

theorem AllRecast.alike : {ds ds' : List Document} → AllRecast ds ds' →
    List.Forall₂ Agree (itemReadings ds) (itemReadings ds')
  | _, _, .nil => .nil
  | _, _, .cons h hs => .cons h.alike.node hs.alike

theorem FieldsRecast.alike : {fields fields' : List (String × Document)} →
    FieldsRecast fields fields' → (key : String) →
      (Decode.part (fieldReadings fields) key).Alike (Decode.part (fieldReadings fields') key)
  | _, _, .nil, _ => .refl _
  | (other, d) :: fields, (_, d') :: fields', .cons h hs, key => by
      have hrest := hs.alike key
      rw [Decode.part, Decode.part] at hrest ⊢
      rw [fieldReadings, fieldReadings, List.lookup_cons, List.lookup_cons]
      cases key == other with
      | true => exact h.alike
      | false => exact hrest

end

end Document

/-! ### Whole numbers in texts -/

theorem head?_toDigits_ne_zero {n : Nat} (h : 0 < n) : (Nat.toDigits 10 n).head? ≠ some '0' := by
  induction n using Nat.strongRecOn with
  | ind n ih =>
      by_cases hsmall : n < 10
      · have hdigit : ∀ d < 10, 0 < d → [d.digitChar].head? ≠ some '0' := by decide
        rw [Nat.toDigits_of_lt_base hsmall]
        exact hdigit n hsmall h
      · rw [Nat.toDigits_of_base_le (by decide) (by omega),
          List.head?_append_of_ne_nil _ Nat.toDigits_ne_nil]
        exact ih (n / 10) (by omega) (by omega)

/-- JSON holds a whole number of at most 53 bits as a floating-point number. -/
theorem Json.Reader.endNumber_toString (r : Json.Reader) {n : Int} (h : n.natAbs ≤ 2 ^ 53) :
    r.endNumber false (toString n).toList.reverse = r.complete (Document.ofWhole n) := by
  have hdenotes := Document.denotes_ofWhole h
  rw [Json.Reader.endNumber, List.reverse_reverse, Document.ofWhole] at *
  cases hdenotes with
  | float hfloat =>
      cases hwritten : Number.Binary64.ofWritten (toString n).toList with
      | infinity => rw [hwritten] at hfloat; exact hfloat.elim
      | nan => rfl
      | finite => rfl

namespace Yaml.Scalar

theorem splitBase_toDigits (m : Nat) :
    splitBase (Nat.toDigits 10 m) = if m = 0 then (8, []) else (10, Nat.toDigits 10 m) := by
  by_cases hm : m = 0
  · subst hm
    rfl
  · rw [if_neg hm]
    have hhead := head?_toDigits_ne_zero (Nat.pos_of_ne_zero hm)
    unfold splitBase
    split
    · next heq => rw [heq] at hhead; exact absurd rfl hhead
    · next heq => rw [heq] at hhead; exact absurd rfl hhead
    · rfl

theorem signed?_eq {n : Int} (h : n.natAbs ≤ 2 ^ 53) :
    signed? (decide (n < 0)) (.value n.natAbs) = some n := by
  rw [signed?, signed_natAbs, Number.minInt64, Number.maxInt64]
  refine if_pos ?_
  rw [Bool.and_eq_true, decide_eq_true_eq, decide_eq_true_eq]
  omega

theorem based?_toString {n : Int} (h : n.natAbs ≤ 2 ^ 53) :
    based? (toString n).toList = some n := by
  have hdigits : ∀ c ∈ Nat.toDigits 10 n.natAbs, c.isDigit = true := fun c =>
    Number.Binary64.isDigit_of_mem_toDigits
  have hsplit : Number.splitSign (toString n).toList =
      (decide (n < 0), Nat.toDigits 10 n.natAbs) := by
    rw [toList_toString]
    by_cases hn : n < 0
    · rw [if_pos hn, decide_eq_true hn]
      rfl
    · rw [if_neg hn, decide_eq_false hn, List.nil_append, Number.splitSign_of_isDigit hdigits]
  have hne : (Nat.toDigits 10 n.natAbs).isEmpty = false :=
    List.isEmpty_eq_false_iff.mpr Nat.toDigits_ne_nil
  have hvalue : Nat.ofDigitChars 10 (Nat.toDigits 10 n.natAbs) 0 = n.natAbs :=
    Nat.ofDigitChars_toDigits (by decide) (by decide)
  simp only [based?, hsplit, hne, splitBase_toDigits, Bool.false_eq_true, if_false]
  by_cases hzero : n.natAbs = 0
  · obtain rfl := Int.natAbs_eq_zero.mp hzero
    rfl
  · rw [if_neg hzero, Number.readDigits_eq hdigits (by omega), hvalue, signed?_eq h]

/-- A text of digits and minus signs is none of the words. -/
theorem word?_eq_none {text : String} (hne : text ≠ "")
    (h : ∀ c ∈ text.toList, c.isDigit = true ∨ c = '-') : word? text = none := by
  have hall : (text.toList.all fun c => c.isDigit || c = '-') = true :=
    List.all_eq_true.mpr fun c hc => by simpa using h c hc
  unfold word?
  split
  all_goals
    first
    | rfl
    | exact absurd rfl hne
    | exact absurd hall (by decide)

/-- No date starts with a whole number. -/
theorem isTimestamp_toString (n : Int) : isTimestamp (toString n) = false := by
  have hdigits : ∀ c ∈ Nat.toDigits 10 n.natAbs, c.isDigit = true := fun c =>
    Number.Binary64.isDigit_of_mem_toDigits
  have hdate : date? (toString n).toList = none := by
    rw [toList_toString]
    by_cases hn : n < 0
    · rw [if_pos hn]
      rfl
    · rw [if_neg hn, List.nil_append, date?, List.takeWhile_eq_self_iff.mpr hdigits]
      dsimp only
      by_cases hlength : (Nat.toDigits 10 n.natAbs).length = 4
      · rw [if_neg (not_not.mpr hlength), ← hlength, List.drop_length]
        rfl
      · rw [if_pos hlength]
  rw [isTimestamp, hdate]

theorem meaning_toString (tag : String) {n : Int} (h : n.natAbs ≤ 2 ^ 53) :
    meaning tag (toString n) = ("!!int", .integer n) := by
  have hplain : ∀ c ∈ (toString n).toList, c.isDigit = true ∨ c = '-' := fun c =>
    Number.Binary64.isDigit_or_minus_of_mem_toString
  have hchars : (toString n).toList ≠ [] := by
    rw [toList_toString]
    exact fun hnil => Nat.toDigits_ne_nil (List.append_eq_nil_iff.mp hnil).2
  have hne : toString n ≠ "" := by
    intro hempty
    rw [hempty] at hchars
    exact hchars rfl
  have hfilter : (toString n).toList.filter (· ≠ '_') = (toString n).toList := by
    refine List.filter_eq_self.mpr fun c hc => decide_eq_true ?_
    rintro rfl
    exact absurd (hplain '_' hc) (by decide)
  have hnumber : number? (toString n) = some ("!!int", .integer n) := by
    rw [number?, hfilter, based?_toString h]
    rfl
  rw [meaning]
  split
  · next hnil => exact absurd hnil hchars
  · next first rest hcons =>
      have hfirst : first.isDigit = true ∨ first = '-' :=
        hplain first (by rw [hcons]; exact List.mem_cons_self)
      rw [if_pos (by rcases hfirst with hdigit | rfl <;> simp [*]), word?_eq_none hne hplain,
        isTimestamp_toString, Bool.and_false, hnumber]
      rfl

end Yaml.Scalar

/-- YAML holds a whole number of at most 53 bits as an integer. -/
theorem Yaml.Decode.scalar_toString (node : Yaml.Node) {n : Int} (h : n.natAbs ≤ 2 ^ 53) :
    Yaml.Decode.scalar .any node "" .plain (toString n) = pure (some (.document (.integer n))) := by
  have hmerge : toString n ≠ "<<" := by
    intro heq
    have hplain := Number.Binary64.isDigit_or_minus_of_mem_toString (n := n) (c := '<')
    rw [heq] at hplain
    exact absurd (hplain (by decide)) (by decide)
  have htag : Node.tag (.scalar 0 "" .plain (toString n)) = "!!int" := by
    rw [Node.tag, if_neg (by decide), if_neg (by decide), if_neg hmerge, Scalar.meaning_toString _ h]
  have hmeaning : Node.scalarMeaning "" .plain (toString n) = .ok ("!!int", .integer n) := by
    simp only [Node.scalarMeaning, htag, Scalar.resolve, Scalar.meaning_toString _ h]
    rfl
  simp only [scalar, meant, hmeaning]
  rfl

/-- **Forms of numbers are read alike.** A program is read from a document exactly when it is read from
the document with some of its numbers in other forms. What JSON holds for a whole number of at most 53
bits and what YAML holds for it are two such forms. -/
theorem number_forms_decode_alike :
    (∀ fields fields', Document.Recasts (.object fields) (.object fields') →
      ∀ p, Program.ofFields fields = .ok p ↔ Program.ofFields fields' = .ok p) ∧
    ∀ n : Int, n.natAbs ≤ 2 ^ 53 →
      (∀ r : Json.Reader, r.endNumber false (toString n).toList.reverse =
        r.complete (Document.ofWhole n)) ∧
      (∀ node, Yaml.Decode.scalar .any node "" .plain (toString n) =
        pure (some (.document (.integer n)))) ∧
      Document.Recasts (Document.ofWhole n) (.integer n) := by
  refine ⟨fun fields fields' h => ?_, fun n hn => ?_⟩
  · have hnode : Agree (Decode.node (Document.fieldReadings fields))
        (Decode.node (Document.fieldReadings fields')) := h.alike.node
    exact hnode.bind fun _ => .refl _
  · exact ⟨fun r => r.endNumber_toString hn, fun node => Yaml.Decode.scalar_toString node hn,
      .number (Document.denotes_ofWhole hn) (.integer n) hn⟩

/-- A program whose only command is a literal. -/
def literalDocument (value line column : Document) : List (String × Document) :=
  [("type", .text "Program"),
    ("commands", .list [.object [("type", .text "IEval"), ("expr", .object
      [("type", .text "ExpInteger"), ("value", value),
        ("span", .object [("line", line), ("column", column)])])]])]

theorem recasts_literalDocument {value value' line line' column column' : Document}
    (hvalue : value.Recasts value') (hline : line.Recasts line') (hcolumn : column.Recasts column') :
    Document.Recasts (.object (literalDocument value line column))
      (.object (literalDocument value' line' column')) := by
  have hspan : Document.Recasts (.object [("line", line), ("column", column)])
      (.object [("line", line'), ("column", column')]) :=
    .object (.cons hline (.cons hcolumn .nil))
  have hexpr : Document.Recasts
      (.object [("type", .text "ExpInteger"), ("value", value),
        ("span", .object [("line", line), ("column", column)])])
      (.object [("type", .text "ExpInteger"), ("value", value'),
        ("span", .object [("line", line'), ("column", column')])]) :=
    .object (.cons (.same _) (.cons hvalue (.cons hspan .nil)))
  exact .object (.cons (.same _) (.cons
    (.list (.cons (.object (.cons (.same _) (.cons hexpr .nil))) .nil)) .nil))

/-- The program whose only command is the least literal. -/
def leastLiteral : Program :=
  ⟨.unknown, true, [], true, [], true, [.eval .unknown (.integer ⟨3, 7⟩ (-2147483648))]⟩

theorem number_forms_decode_alike_least :
    (Document.Recasts (.object (literalDocument (.integer (-2147483648)) (.integer 3) (.integer 7)))
        (.object (literalDocument (Document.ofWhole (-2147483648)) (.int64 3) (.literal "7"))) ∧
      Program.ofFields (literalDocument (.integer (-2147483648)) (.integer 3) (.integer 7)) =
        .ok leastLiteral ∧
      Program.ofFields (literalDocument (Document.ofWhole (-2147483648)) (.int64 3) (.literal "7")) =
        .ok leastLiteral) ∧
    (-2147483648 : Int).natAbs ≤ 2 ^ 53 ∧
      Document.Recasts (Document.ofWhole (-2147483648)) (.integer (-2147483648)) := by
  have hleast : (-2147483648 : Int).natAbs ≤ 2 ^ 53 := by decide
  have hvalue : Document.Recasts (.integer (-2147483648)) (Document.ofWhole (-2147483648)) :=
    .number (.integer _) (Document.denotes_ofWhole hleast) hleast
  have hthree : (3 : Int64).toInt = 3 := by decide
  have hline : Document.Recasts (.integer 3) (.int64 3) :=
    .number (hthree ▸ .integer _) (.int64 3) (by decide)
  have hseven : (Document.literal "7").Denotes 7 :=
    @Document.Denotes.decimal ['7'] (List.cons_ne_nil _ _) (List.forall_mem_singleton.mpr rfl)
  have hcolumn : Document.Recasts (.integer 7) (.literal "7") :=
    .number (.integer 7) hseven (by decide)
  have hrecasts := recasts_literalDocument hvalue hline hcolumn
  have hread : Program.ofFields (literalDocument (.integer (-2147483648)) (.integer 3) (.integer 7)) =
      .ok leastLiteral := by cbv
  exact ⟨⟨hrecasts, hread, (number_forms_decode_alike.1 _ _ hrecasts leastLiteral).mp hread⟩,
    hleast, (number_forms_decode_alike.2 _ hleast).2.2⟩

end ObjectLang
