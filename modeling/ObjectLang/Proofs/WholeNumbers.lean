import Mathlib.Algebra.Group.Nat.Defs
import Mathlib.Data.List.TakeWhile
import ObjectLang.Syntax.Decode

/-! Whole numbers in documents. A whole number that is written in decimal and read as a
floating-point number is held exactly as long as it has no more than 53 bits, so it is found again
in the document. -/

namespace ObjectLang

/-- A whole number is its size with its sign. -/
theorem signed_natAbs (n : Int) :
    (if decide (n < 0) = true then -(n.natAbs : Int) else n.natAbs) = n := by
  by_cases hn : n < 0
  · rw [if_pos (decide_eq_true hn)]
    omega
  · rw [if_neg (by simp [hn])]
    omega

/-- The text of a whole number has the digits of its size behind its sign. -/
theorem toList_toString (n : Int) :
    (toString n).toList = (if n < 0 then ['-'] else []) ++ Nat.toDigits 10 n.natAbs := by
  cases n with
  | ofNat m =>
      rw [if_neg (by simp), Int.toString_eq_repr, Int.repr, Nat.repr_eq_ofList_toDigits,
        String.toList_ofList]
      rfl
  | negSucc m =>
      rw [if_pos (Int.negSucc_lt_zero m), Int.toString_eq_repr, Int.repr,
        Nat.repr_eq_ofList_toDigits, String.toList_append]
      exact congrArg ('-' :: ·) String.toList_ofList

namespace Number.Binary64

theorem digitsValue_eq_ofDigitChars {cs : List Char} (h : ∀ c ∈ cs, c.isDigit = true) :
    digitsValue cs = Nat.ofDigitChars 10 cs 0 := by
  have hfold (n : Nat) :
      cs.foldl (fun n c => if c.isDigit then 10 * n + (c.toNat - '0'.toNat) else n) n =
        cs.foldl (fun n c => 10 * n + (c.toNat - '0'.toNat)) n := by
    induction cs generalizing n with
    | nil => rfl
    | cons c cs ih =>
        rw [List.foldl_cons, List.foldl_cons, if_pos (h c List.mem_cons_self)]
        exact ih (fun c hc => h c (List.mem_cons_of_mem _ hc)) _
  exact hfold 0

theorem isDigit_of_mem_toDigits {n : Nat} {c : Char} (h : c ∈ Nat.toDigits 10 n) :
    c.isDigit = true :=
  Nat.isDigit_of_mem_toDigits (by decide) (by decide) h

theorem digitsValue_toDigits (n : Nat) : digitsValue (Nat.toDigits 10 n) = n := by
  rw [digitsValue_eq_ofDigitChars fun c hc => isDigit_of_mem_toDigits hc]
  exact Nat.ofDigitChars_toDigits (by decide) (by decide)

/-- A sign is no digit. -/
theorem digitsValue_minus (cs : List Char) : digitsValue ('-' :: cs) = digitsValue cs := rfl

theorem head?_toDigits_ne_minus (n : Nat) : (Nat.toDigits 10 n).head? ≠ some '-' := by
  intro h
  have hdigit := isDigit_of_mem_toDigits (List.mem_of_mem_head? h)
  exact absurd hdigit (by decide)

/-- A decimal without point and exponent is taken as it stands. -/
theorem ofWritten_of_plain {cs : List Char} (h : ∀ c ∈ cs, c.isDigit = true ∨ c = '-') :
    ofWritten cs = ofDecimal (cs.head? = some '-') (digitsValue cs) 0 := by
  have hmark : ∀ c ∈ cs, (!(decide (c = 'e') || decide (c = 'E'))) = true := by
    intro c hc
    rcases h c hc with hdigit | rfl
    · have he : c ≠ 'e' := by
        rintro rfl
        exact absurd hdigit (by decide)
      have hE : c ≠ 'E' := by
        rintro rfl
        exact absurd hdigit (by decide)
      simp [he, hE]
    · decide
  have hpoint : ∀ c ∈ cs, decide (c ≠ '.') = true := by
    intro c hc
    rcases h c hc with hdigit | rfl
    · refine decide_eq_true ?_
      rintro rfl
      exact absurd hdigit (by decide)
    · decide
  have hmantissa := List.takeWhile_eq_self_iff.2 hmark
  have hpower := List.dropWhile_eq_nil_iff.mpr hmark
  have hfraction := List.dropWhile_eq_nil_iff.mpr hpoint
  simp only [ofWritten, hmantissa, hpower, hfraction, List.drop_nil, List.head?_nil]
  rfl

/-- Only digits and minus signs stand in the text of a whole number. -/
theorem isDigit_or_minus_of_mem_toString {n : Int} {c : Char} (h : c ∈ (toString n).toList) :
    c.isDigit = true ∨ c = '-' := by
  rw [toList_toString, List.mem_append] at h
  rcases h with h | h
  · split at h
    · exact .inr (List.mem_singleton.mp h)
    · cases h
  · exact .inl (isDigit_of_mem_toDigits h)

theorem ofWritten_toString (n : Int) :
    ofWritten (toString n).toList = ofDecimal (decide (n < 0)) n.natAbs 0 := by
  rw [ofWritten_of_plain fun c => isDigit_or_minus_of_mem_toString, toList_toString]
  by_cases hn : n < 0
  · rw [if_pos hn, decide_eq_true hn, List.singleton_append, digitsValue_minus, digitsValue_toDigits]
    rfl
  · rw [if_neg hn, decide_eq_false hn, List.nil_append, digitsValue_toDigits,
      decide_eq_false (head?_toDigits_ne_minus _)]

/-- A whole number below `2 ^ 53` is shifted up to 53 bits and keeps them all. -/
theorem ofFraction_of_lt (negative : Bool) {num : Nat} (hpos : num ≠ 0) (hlt : num < 2 ^ 53) :
    ∃ shift : Nat,
      ofFraction negative num 1 = .finite negative (num * 2 ^ shift) (-(shift : Int)) := by
  have hlog : num.log2 ≤ 52 := Nat.le_of_lt_succ ((Nat.log2_lt hpos).mpr hlt)
  obtain ⟨shift, hsum⟩ : ∃ shift, num.log2 + shift = 52 := ⟨52 - num.log2, by omega⟩
  have hlow : 2 ^ 52 ≤ num * 2 ^ shift := by
    calc 2 ^ 52 = 2 ^ num.log2 * 2 ^ shift := by rw [← Nat.pow_add, hsum]
      _ ≤ num * 2 ^ shift := Nat.mul_le_mul_right _ (Nat.log2_self_le hpos)
  have hhigh : num * 2 ^ shift < 2 ^ 53 := by
    calc num * 2 ^ shift < 2 ^ (num.log2 + 1) * 2 ^ shift :=
          Nat.mul_lt_mul_of_pos_right Nat.lt_log2_self (Nat.two_pow_pos shift)
      _ = 2 ^ 53 := by rw [← Nat.pow_add]; congr 1; omega
  have hguess : (num.log2 : Int) - (Nat.log2 1 : Int) - 52 = -(shift : Int) := by
    have hone : Nat.log2 1 = 0 := by decide
    rw [hone]
    omega
  have hscale : scaleByTwo num 1 (shift : Int) = (num * 2 ^ shift, 1) := rfl
  have hleast : max (-(shift : Int)) leastExponent = -(shift : Int) := by
    rw [leastExponent]
    omega
  have hround : roundQuotient (num * 2 ^ shift) 1 = num * 2 ^ shift := by
    simp [roundQuotient, Nat.mod_one]
  refine ⟨shift, ?_⟩
  simp only [ofFraction, if_neg hpos, hguess, Int.neg_neg, hscale, Nat.mul_one, Nat.pow_eq,
    if_neg (Nat.not_lt.mpr hlow), hleast, hround, if_neg (Nat.ne_of_lt hhigh)]
  rw [if_neg (by omega)]

/-- Every whole number of at most `2 ^ 53` is held exactly. -/
theorem ofDecimal_whole (negative : Bool) {n : Nat} (h : n ≤ 2 ^ 53) :
    (ofDecimal negative n 0).isWhole = true ∧
      (ofDecimal negative n 0).truncate? = some (if negative then -(n : Int) else n) := by
  by_cases hzero : n = 0
  · subst hzero
    cases negative <;> exact ⟨rfl, rfl⟩
  · have hlength : (Nat.toDigits 10 n).length ≤ 16 := by
      rw [Nat.length_toDigits_le_iff (by decide) (by decide)]
      exact Nat.lt_of_le_of_lt h (by decide)
    have hfraction : ofDecimal negative n 0 = ofFraction negative n 1 := by
      have hmany : ¬(0 + ((Nat.toDigits 10 n).length : Int) > 310) := by omega
      have hfew : ¬(0 + ((Nat.toDigits 10 n).length : Int) < -330) := by omega
      simp only [ofDecimal, if_neg hzero, if_neg hmany, if_neg hfew]
      exact congrArg (ofFraction negative · 1) (Nat.mul_one n)
    rw [hfraction]
    rcases Nat.lt_or_eq_of_le h with hlt | rfl
    · obtain ⟨shift, hexact⟩ := ofFraction_of_lt negative hzero hlt
      rw [hexact]
      have hpow : 0 < 2 ^ shift := Nat.two_pow_pos shift
      constructor
      · simp [isWhole, Nat.pow_eq]
      · have hsize : (if 0 ≤ -(shift : Int) then n * 2 ^ shift * Nat.pow 2 (-(shift : Int)).toNat
            else n * 2 ^ shift / Nat.pow 2 (-(-(shift : Int))).toNat) = n := by
          split
          · obtain rfl : shift = 0 := by omega
            simp
          · rw [Int.neg_neg, Int.toNat_natCast]
            exact Nat.mul_div_cancel n hpow
        rw [truncate?]
        exact congrArg (fun size : Nat => some (if negative then -(size : Int) else size)) hsize
    · cases negative <;> decide +kernel

end Number.Binary64

namespace Document

/-- A whole number as a floating-point number, the way its decimal text is read. -/
def ofWhole (n : Int) : Document := .float (.ofWritten (toString n).toList)

/-- A whole number of at most 53 bits is found again in a document. -/
theorem toInt_ofWhole {n : Int} (h : n.natAbs ≤ 2 ^ 53) : (ofWhole n).toInt = .ok n := by
  obtain ⟨hwhole, htruncate⟩ := Number.Binary64.ofDecimal_whole (decide (n < 0)) h
  rw [signed_natAbs] at htruncate
  have hrange : (Number.minInt64 ≤ n && n ≤ Number.maxInt64) = true := by
    rw [Bool.and_eq_true, decide_eq_true_eq, decide_eq_true_eq, Number.minInt64, Number.maxInt64]
    omega
  rw [ofWhole, Number.Binary64.ofWritten_toString, toInt, if_pos hwhole,
    Number.Binary64.toInt64, htruncate]
  simp only [if_pos hrange]

end Document

end ObjectLang
