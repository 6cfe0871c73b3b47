import Mathlib.Data.List.DropRight
import ObjectLang.Digest.Sha256
import ObjectLang.Text.Slug

/-! Texts that are in their normal form already: trimming a trimmed text, normalizing a normal name and
trimming a digest change nothing. -/

namespace ObjectLang.Text

/-- No blank at either end. -/
structure IsTrimmed (cs : List Char) : Prop where
  head : ∀ c ∈ cs.head?, isBlank c = false
  last : ∀ c ∈ cs.getLast?, isBlank c = false

theorem trimChars_eq (cs : List Char) :
    trimChars cs = (cs.dropWhile isBlank).rdropWhile isBlank := rfl

theorem isTrimmed_trimChars (cs : List Char) : IsTrimmed (trimChars cs) := by
  rw [trimChars_eq]
  constructor
  · intro c hc
    obtain ⟨rest, hrest⟩ := List.rdropWhile_prefix isBlank (cs.dropWhile isBlank)
    have hhead := List.head?_dropWhile_not isBlank cs
    rw [← hrest, List.head?_append, Option.mem_def.mp hc] at hhead
    exact hhead
  · intro c hc
    obtain ⟨hne, rfl⟩ := List.mem_getLast?_eq_getLast hc
    simpa using List.rdropWhile_last_not isBlank _ hne

theorem IsTrimmed.trimChars_eq {cs : List Char} (h : IsTrimmed cs) : trimChars cs = cs := by
  have hdrop : cs.dropWhile isBlank = cs := by
    cases cs with
    | nil => rfl
    | cons c cs => rw [List.dropWhile_cons_of_neg (by simp [h.head c rfl])]
  rw [Text.trimChars_eq, hdrop, List.rdropWhile_eq_self_iff]
  intro hne
  simp [h.last _ (List.getLast?_eq_some_getLast hne)]

theorem trim_trim (s : String) : trim (trim s) = trim s := by
  rw [trim, trim, String.toList_ofList, (isTrimmed_trimChars s.toList).trimChars_eq]

theorem isTrimmed_of_trim_eq {s : String} (h : trim s = s) : IsTrimmed s.toList := by
  rw [← h, trim, String.toList_ofList]
  exact isTrimmed_trimChars s.toList

theorem IsTrimmed.trim_eq {s : String} (h : IsTrimmed s.toList) : trim s = s := by
  rw [trim, h.trimChars_eq, String.ofList_toList]

theorem isTrimmed_of_forall {cs : List Char} (h : ∀ c ∈ cs, isBlank c = false) : IsTrimmed cs :=
  ⟨fun c hc => h c (List.mem_of_mem_head? hc), fun c hc => h c (List.mem_of_mem_getLast? hc)⟩

/-- A trimmed text stays trimmed behind a text that starts with no blank. -/
theorem IsTrimmed.append {front cs : List Char} (h : IsTrimmed cs) (hne : cs ≠ [])
    (hfront : IsTrimmed front) : IsTrimmed (front ++ cs) where
  head c hc := by
    rw [List.head?_append] at hc
    cases hhead : front.head? with
    | none =>
        rw [hhead, Option.none_or] at hc
        exact h.head c hc
    | some first =>
        rw [hhead, Option.some_or] at hc
        exact hfront.head c (hhead ▸ hc)
  last c hc := by
    rw [List.getLast?_append_of_ne_nil _ hne] at hc
    exact h.last c hc

theorem toNat_of_isNameChar {c : Char} (h : isNameChar c = true) :
    (97 ≤ c.toNat ∧ c.toNat ≤ 122) ∨ (48 ≤ c.toNat ∧ c.toNat ≤ 57) ∨ c.toNat = 95 := by
  simp only [isNameChar, Bool.or_eq_true, Bool.and_eq_true, decide_eq_true_eq] at h
  rcases h with (⟨hlow, hhigh⟩ | ⟨hlow, hhigh⟩) | rfl
  · exact .inl ⟨hlow, hhigh⟩
  · exact .inr (.inl ⟨hlow, hhigh⟩)
  · exact .inr (.inr rfl)

theorem isBlank_of_isNameChar {c : Char} (h : isNameChar c = true) : isBlank c = false := by
  have hrange := toNat_of_isNameChar h
  rw [isBlank, List.any_eq_false]
  intro range hmem
  simp only [blankRanges, List.mem_cons, List.not_mem_nil, or_false] at hmem
  rcases hmem with rfl | rfl | rfl | rfl | rfl | rfl | rfl | rfl | rfl | rfl <;>
    simp only [Bool.and_eq_true, decide_eq_true_eq] <;> omega

theorem lowerAscii_of_isNameChar {c : Char} (h : isNameChar c = true) : lowerAscii c = c := by
  have hrange := toNat_of_isNameChar h
  have hlower : c.toLower = c := by
    unfold Char.toLower
    rw [dif_neg]
    rintro ⟨hlow, hhigh⟩
    have hlow' : 65 ≤ c.toNat := hlow
    have hhigh' : c.toNat ≤ 90 := hhigh
    omega
  unfold lowerAscii
  rw [if_neg (by omega), if_neg (by omega), hlower]

/-- A lower-case form that stands before the letters is the character itself. -/
theorem eq_of_lowerAscii_eq {c d : Char} (h : lowerAscii c = d) (hd : d.toNat < 97) :
    c = d := by
  unfold lowerAscii at h
  split at h
  · exact absurd hd (h ▸ by decide)
  · split at h
    · exact absurd hd (h ▸ by decide)
    · unfold Char.toLower at h
      split at h
      · next hupper =>
          obtain ⟨hlow, hhigh⟩ : 65 ≤ c.val.toNat ∧ c.val.toNat ≤ 90 := hupper
          have hvalue : (c.val + 32).toNat < 97 := by
            subst h
            exact hd
          rw [UInt32.toNat_add] at hvalue
          have h32 : (32 : UInt32).toNat = 32 := rfl
          omega
      · exact h

theorem isNameChar_of_mem_packageName {s : String} {c : Char} (h : c ∈ (packageName s).toList) :
    isNameChar c = true := by
  rw [packageName, String.toList_ofList] at h
  obtain ⟨source, -, rfl⟩ := List.mem_map.mp h
  split
  · next hname => exact hname
  · decide

/-- A normal name is its own normal form. -/
theorem packageName_packageName (s : String) : packageName (packageName s) = packageName s := by
  have htrim : trimChars (packageName s).toList = (packageName s).toList :=
    (isTrimmed_of_forall fun c hc =>
      isBlank_of_isNameChar (isNameChar_of_mem_packageName hc)).trimChars_eq
  have hmap : (packageName s).toList.map (fun c =>
      if isNameChar (lowerAscii c) then lowerAscii c else '_') = (packageName s).toList := by
    refine (List.map_congr_left fun c hc => ?_).trans (List.map_id _)
    have hname := isNameChar_of_mem_packageName hc
    rw [lowerAscii_of_isNameChar hname, if_pos hname, id]
  rw [packageName, htrim, hmap, String.ofList_toList]

theorem isBlank_digitChar (n : Nat) : isBlank n.digitChar = false := by
  have hdigit : ∀ n < 16, isBlank n.digitChar = false := by decide
  rcases Nat.lt_or_ge n 16 with hlt | hge
  · exact hdigit n hlt
  · have hstar : n.digitChar = '*' := by
      unfold Nat.digitChar
      repeat rw [if_neg (by omega)]
    rw [hstar]
    decide

theorem isBlank_of_mem_toDigitsCore {base fuel n : Nat} {digits : List Char}
    (h : ∀ c ∈ digits, isBlank c = false) : ∀ c ∈ Nat.toDigitsCore base fuel n digits,
      isBlank c = false := by
  induction fuel generalizing n digits with
  | zero => exact h
  | succ fuel ih =>
      have hmore : ∀ c ∈ (n % base).digitChar :: digits, isBlank c = false :=
        List.forall_mem_cons.mpr ⟨isBlank_digitChar _, h⟩
      rw [Nat.toDigitsCore]
      split
      · exact hmore
      · exact ih hmore

theorem isBlank_of_mem_hexText {width n : Nat} {c : Char} (h : c ∈ (hexText width n).toList) :
    isBlank c = false := by
  rw [hexText, String.toList_ofList] at h
  rcases List.mem_append.mp h with h | h
  · rw [List.eq_of_mem_replicate h]
    decide
  · exact isBlank_of_mem_toDigitsCore (List.forall_mem_nil _) c h

theorem trim_hexDigest (message : List UInt8) :
    trim (Sha256.hexDigest message) = Sha256.hexDigest message := by
  refine (isTrimmed_of_forall fun c hc => ?_).trim_eq
  rw [Sha256.hexDigest, String.toList_join, List.mem_flatMap] at hc
  obtain ⟨text, htext, hc⟩ := hc
  obtain ⟨byte, -, rfl⟩ := List.mem_map.mp htext
  exact isBlank_of_mem_hexText hc

end ObjectLang.Text
