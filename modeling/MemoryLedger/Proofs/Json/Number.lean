import Mathlib.Data.List.Induction
import Mathlib.Tactic.Lemma
import MemoryLedger.Json.Value

/-!
# Numbers

The grammar of numbers, part by part, and the numerals among them. A number is recognised in every
form that the grammar has. Leading zeros are not among these, so a number that consists of digits
alone is the one numeral of what it denotes.
-/

namespace MemoryLedger.Json

variable {c d : Char} {sign digits rest whole fraction exponent cs ds : List Char} {n : Nat}

/-! ### The grammar of numbers -/

/-- One digit or more. -/
structure Digits (digits : List Char) : Prop where
  ne_nil : digits ≠ []
  isDigit : ∀ c ∈ digits, c.isDigit = true

/-- The whole part of a number has no leading zero. -/
inductive Whole : List Char → Prop where
  | zero : Whole ['0']
  | digits {d : Char} {ds : List Char} (hd : d.isDigit = true) (hne : d ≠ '0')
      (hds : ∀ c ∈ ds, c.isDigit = true) : Whole (d :: ds)

/-- A point and digits, or nothing. -/
inductive Fraction : List Char → Prop where
  | none : Fraction []
  | some {digits : List Char} (hdigits : Digits digits) : Fraction ('.' :: digits)

/-- The letter E in either case, a sign or none, and digits, or nothing. -/
inductive Exponent : List Char → Prop where
  | none : Exponent []
  | some {e : Char} {sign digits : List Char} (he : e = 'e' ∨ e = 'E')
      (hsign : sign = [] ∨ sign = ['+'] ∨ sign = ['-']) (hdigits : Digits digits) :
      Exponent (e :: (sign ++ digits))

/-- A number: a minus sign or none, then its parts. -/
inductive Number : List Char → Prop where
  | parts {sign whole fraction exponent : List Char} (hsign : sign = [] ∨ sign = ['-'])
      (hwhole : Whole whole) (hfraction : Fraction fraction) (hexponent : Exponent exponent) :
      Number (sign ++ (whole ++ (fraction ++ exponent)))

/-! ### Numbers are recognised -/

lemma Digits.exists_cons (h : Digits digits) :
    ∃ d ds, digits = d :: ds ∧ d.isDigit = true ∧ ∀ c ∈ ds, c.isDigit = true := by
  obtain ⟨d, ds, rfl⟩ := List.exists_cons_of_ne_nil h.ne_nil
  exact ⟨d, ds, rfl, List.forall_mem_cons.mp h.isDigit⟩

lemma isDigits_iff : Token.isDigits digits = true ↔ Digits digits := by
  have hparts : Token.isDigits digits = true ↔ digits ≠ [] ∧ ∀ c ∈ digits, c.isDigit = true := by
    simp [Token.isDigits]
  exact hparts.trans ⟨fun h => ⟨h.1, h.2⟩, fun h => ⟨h.ne_nil, h.isDigit⟩⟩

lemma Whole.digits_whole (h : Whole digits) : Digits digits := by
  cases h with
  | zero => exact ⟨by simp, by simp⟩
  | digits hd _ hds => exact ⟨by simp, List.forall_mem_cons.mpr ⟨hd, hds⟩⟩

/-- No digit is one of the marks in a number. -/
lemma isDigit_ne (h : d.isDigit = true) : d ≠ '+' ∧ d ≠ '-' ∧ d ≠ '.' ∧ d ≠ 'e' ∧ d ≠ 'E' := by
  refine ⟨?_, ?_, ?_, ?_, ?_⟩
  all_goals
    rintro rfl
    exact absurd h (by decide)

lemma isExponent_of_digits (hsign : sign = [] ∨ sign = ['+'] ∨ sign = ['-'])
    (hdigits : Digits digits) : Token.isExponent (sign ++ digits) = true := by
  have hrecognised : Token.isDigits digits = true := isDigits_iff.mpr hdigits
  rcases hsign with rfl | rfl | rfl
  · obtain ⟨d, ds, rfl, hd, -⟩ := hdigits.exists_cons
    obtain ⟨hplus, hminus, -⟩ := isDigit_ne hd
    simpa [Token.isExponent, hplus, hminus] using hrecognised
  · exact hrecognised
  · exact hrecognised

lemma Exponent.isScale (h : Exponent exponent) : Token.isScale exponent = true := by
  cases h with
  | none => rfl
  | some he hsign hdigits => simp [Token.isScale, he, isExponent_of_digits hsign hdigits]

/-- What begins without a digit does not lengthen the digits before it. -/
lemma splits_digits (hds : ∀ c ∈ ds, c.isDigit = true)
    (hrest : ∀ c ∈ rest.head?, ¬ c.isDigit = true) :
    (ds ++ rest).takeWhile Char.isDigit = ds ∧ (ds ++ rest).dropWhile Char.isDigit = rest := by
  rw [List.takeWhile_append_of_pos hds, List.dropWhile_append_of_pos hds]
  cases rest with
  | nil => simp
  | cons c rest =>
    have hc : ¬ c.isDigit = true := hrest c rfl
    rw [List.takeWhile_cons_of_neg hc, List.dropWhile_cons_of_neg hc, List.append_nil]
    exact ⟨rfl, rfl⟩

lemma Exponent.head_not_digit (h : Exponent exponent) :
    ∀ c ∈ exponent.head?, ¬ c.isDigit = true := by
  cases h with
  | none => simp
  | some he _ _ =>
    rintro c ⟨⟩
    rcases he with rfl | rfl <;> decide

lemma Fraction.isFraction (h : Fraction fraction) (hexponent : Exponent exponent) :
    Token.isFraction (fraction ++ exponent) = true := by
  cases h with
  | none =>
    cases hexponent with
    | none => rfl
    | some he hsign hdigits =>
      have hscale := (Exponent.some he hsign hdigits).isScale
      rcases he with rfl | rfl <;> exact hscale
  | some hdigits =>
    obtain ⟨htake, hdrop⟩ := splits_digits hdigits.isDigit hexponent.head_not_digit
    rw [List.cons_append, Token.isFraction, htake, hdrop, isDigits_iff.mpr hdigits,
      hexponent.isScale, Bool.and_self]

lemma Fraction.head_not_digit (h : Fraction fraction) (hexponent : Exponent exponent) :
    ∀ c ∈ (fraction ++ exponent).head?, ¬ c.isDigit = true := by
  cases h with
  | none => exact hexponent.head_not_digit
  | some _ =>
    rintro c ⟨⟩
    decide

lemma Whole.isUnsigned (h : Whole whole) (hrest : ∀ c ∈ rest.head?, ¬ c.isDigit = true)
    (hfraction : Token.isFraction rest = true) : Token.isUnsigned (whole ++ rest) = true := by
  have hdigits := h.digits_whole
  obtain ⟨htake, hdrop⟩ := splits_digits hdigits.isDigit hrest
  cases h with
  | zero => exact hfraction
  | digits hd hne hds =>
    rw [Token.isUnsigned, htake, hdrop, isDigits_iff.mpr hdigits, hfraction, Bool.and_self]
    simpa using hne

/-- Every number is recognised. -/
theorem Number.isNumber (h : Number cs) : Token.isNumber cs = true := by
  cases h with
  | @parts sign whole fraction exponent hsign hwhole hfraction hexponent =>
    have hunsigned : Token.isUnsigned (whole ++ (fraction ++ exponent)) = true :=
      hwhole.isUnsigned (hfraction.head_not_digit hexponent) (hfraction.isFraction hexponent)
    rcases hsign with rfl | rfl
    · obtain ⟨d, ds, rfl, hd, -⟩ := hwhole.digits_whole.exists_cons
      have hminus : d ≠ '-' := (isDigit_ne hd).2.1
      simpa [Token.isNumber, hminus] using hunsigned
    · exact hunsigned

lemma Number.ne_nil (h : Number cs) : cs ≠ [] := by
  rintro rfl
  cases h.isNumber

lemma isWordChar_of_isDigit (h : c.isDigit = true) : Token.isWordChar c = true := by
  simp [Token.isWordChar, Char.isAlphanum, h]

/-- A number consists of word characters alone. -/
lemma Number.isWordChar (h : Number cs) : ∀ c ∈ cs, Token.isWordChar c = true := by
  cases h with
  | @parts sign whole fraction exponent hsign hwhole hfraction hexponent =>
    have hdigits : ∀ {ds : List Char}, (∀ c ∈ ds, c.isDigit = true) →
        ∀ c ∈ ds, Token.isWordChar c = true :=
      fun hds c hc => isWordChar_of_isDigit (hds c hc)
    have hmarks : ∀ c ∈ sign, Token.isWordChar c = true := by
      rcases hsign with rfl | rfl <;> exact List.all_eq_true.mp rfl
    have hpoint : ∀ c ∈ fraction, Token.isWordChar c = true := by
      cases hfraction with
      | none => simp
      | some hds => exact List.forall_mem_cons.mpr ⟨by decide, hdigits hds.isDigit⟩
    have hpower : ∀ c ∈ exponent, Token.isWordChar c = true := by
      cases hexponent with
      | none => simp
      | some he hplus hds =>
        refine List.forall_mem_cons.mpr ⟨?_, List.forall_mem_append.mpr ⟨?_, hdigits hds.isDigit⟩⟩
        · rcases he with rfl | rfl <;> decide
        · rcases hplus with rfl | rfl | rfl <;> exact List.all_eq_true.mp rfl
    exact List.forall_mem_append.mpr ⟨hmarks, List.forall_mem_append.mpr
      ⟨hdigits hwhole.digits_whole.isDigit, List.forall_mem_append.mpr ⟨hpoint, hpower⟩⟩⟩

/-! ### Numerals -/

/-- A number of digits alone has no sign, no fraction and no exponent. -/
lemma Number.whole_of_digits (h : Number cs) (hdigits : Digits cs) : Whole cs := by
  cases h with
  | parts hsign hwhole hfraction hexponent =>
    have hnot : ∀ c, c = '-' ∨ c = '.' ∨ c = 'e' ∨ c = 'E' → c ∉ _ := fun c hc hmem =>
      absurd (hdigits.isDigit c hmem) (by rcases hc with rfl | rfl | rfl | rfl <;> decide)
    rcases hsign with rfl | rfl
    · cases hfraction with
      | none =>
        cases hexponent with
        | none => simpa using hwhole
        | @some e _ _ he _ _ => exact absurd (by simp) (hnot e (by tauto))
      | some _ => exact absurd (by simp) (hnot '.' (by tauto))
    · exact absurd (by simp) (hnot '-' (by tauto))

/-- A digit is the digit of its value. -/
lemma exists_digitChar (h : d.isDigit = true) : ∃ k < 10, d = k.digitChar := by
  have hrange : 48 ≤ d.toNat ∧ d.toNat ≤ 57 := by
    simpa [Char.isDigit, UInt32.le_iff_toNat_le] using h
  refine ⟨d.toNat - 48, by omega, ?_⟩
  rw [← Char.toNat_inj, Nat.toNat_digitChar_of_lt_ten (by omega)]
  omega

/-- Without a leading zero, digits are those of the number that they denote. -/
lemma toDigits_ofDigitChars (hd : d.isDigit = true) (hne : d ≠ '0')
    (hds : ∀ c ∈ ds, c.isDigit = true) :
    0 < Nat.ofDigitChars 10 (d :: ds) 0 ∧
      Nat.toDigits 10 (Nat.ofDigitChars 10 (d :: ds) 0) = d :: ds := by
  induction ds using List.reverseRecOn with
  | nil =>
    obtain ⟨k, hk, rfl⟩ := exists_digitChar hd
    have hvalue : Nat.ofDigitChars 10 [k.digitChar] 0 = k := by
      simp [Nat.ofDigitChars_cons_digitChar_of_lt_ten hk]
    have hpos : k ≠ 0 := fun h => hne (Nat.digitChar_eq_zero.mpr h)
    rw [hvalue, Nat.toDigits_of_lt_base hk]
    exact ⟨Nat.pos_of_ne_zero hpos, rfl⟩
  | append_singleton ds e ih =>
    obtain ⟨hds, he⟩ := List.forall_mem_append.mp hds
    obtain ⟨hpos, hdigits⟩ := ih hds
    obtain ⟨k, hk, rfl⟩ := exists_digitChar (he e List.mem_cons_self)
    have hvalue : Nat.ofDigitChars 10 (d :: (ds ++ [k.digitChar])) 0 =
        10 * Nat.ofDigitChars 10 (d :: ds) 0 + k := by
      rw [← List.cons_append, Nat.ofDigitChars_append,
        Nat.ofDigitChars_cons_digitChar_of_lt_ten hk, Nat.ofDigitChars_nil]
    rw [hvalue, ← Nat.toDigits_append_toDigits (by decide) hpos hk, hdigits,
      Nat.toDigits_of_lt_base hk]
    exact ⟨by omega, rfl⟩

/-- A number of digits alone is the numeral of the number that it denotes. -/
theorem Number.eq_toDigits (h : Number cs) (hdigits : Digits cs) :
    Nat.toDigits 10 (Nat.ofDigitChars 10 cs 0) = cs := by
  cases h.whole_of_digits hdigits with
  | zero => rfl
  | digits hd hne hds => exact (toDigits_ofDigitChars hd hne hds).2

/-- Numerals have no leading zero. -/
lemma whole_toDigits (n : Nat) : Whole (Nat.toDigits 10 n) := by
  induction n using Nat.base_induction 10 (by decide) with
  | single k hk =>
    rw [Nat.toDigits_of_lt_base hk]
    by_cases hzero : k = 0
    · subst hzero
      exact .zero
    · exact .digits (by simp [Nat.isDigit_digitChar, hk]) (by simpa using hzero) (by simp)
  | digit m k hk hm ih =>
    have hpos : Nat.toDigits 10 m ≠ ['0'] := fun h => by
      have hvalue : Nat.ofDigitChars 10 (Nat.toDigits 10 m) 0 = 0 := by rw [h]; rfl
      rw [Nat.ofDigitChars_ten_toDigits] at hvalue
      omega
    rw [← Nat.toDigits_append_toDigits (by decide) hm hk, Nat.toDigits_of_lt_base hk]
    cases hdigits : Nat.toDigits 10 m with
    | nil => exact absurd hdigits Nat.toDigits_ne_nil
    | cons d ds =>
      rw [hdigits] at ih hpos
      cases ih with
      | zero => exact absurd rfl hpos
      | digits hd hne hds =>
        refine .digits hd hne (List.forall_mem_append.mpr ⟨hds, ?_⟩)
        simp [Nat.isDigit_digitChar, hk]

/-- A numeral is a number. -/
lemma number_toDigits (n : Nat) : Number (Nat.toDigits 10 n) := by
  simpa using Number.parts (.inl rfl) (whole_toDigits n) .none .none

end MemoryLedger.Json
