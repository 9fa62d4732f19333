import Mathlib.Algebra.Ring.Nat
import MemoryLedger.Json.Text

/-!
# What a spelling spells

`Json.Spells raw text` lists the ways to write a text between quotes: each character as it is, by a
short escape, or by number, which takes one escape for each of the units that it has in UTF-16.
Every such spelling is understood. A string that is not to be understood may hold any escape by
number, even those that stand for no character.
-/

namespace MemoryLedger.Json

variable {c d e : Char} {n : Nat} {digits high low raw text : List Char} {pieces : List Piece}

/-! ### The grammar of strings -/

/-- A character that may stand for itself between quotes. -/
structure IsPlain (c : Char) : Prop where
  ne_quote : c ≠ '"'
  ne_backslash : c ≠ '\\'
  not_control : ¬ c < ' '

instance (c : Char) : Decidable (IsPlain c) :=
  decidable_of_iff (c ≠ '"' ∧ c ≠ '\\' ∧ ¬ c < ' ')
    ⟨fun h => ⟨h.1, h.2.1, h.2.2⟩, fun h => ⟨h.ne_quote, h.ne_backslash, h.not_control⟩⟩

/-- The one-letter escapes and the characters for which they stand. -/
def shortEscapes : List (Char × Char) :=
  [('"', '"'), ('\\', '\\'), ('/', '/'), ('b', '\x08'), ('f', '\x0c'), ('n', '\n'), ('r', '\r'),
    ('t', '\t')]

/-- A hexadecimal digit in either case, and its value. -/
def IsHexDigit (c : Char) (n : Nat) : Prop := n < 16 ∧ (c = n.digitChar ∨ c = n.digitChar.toUpper)

/-- Four hexadecimal digits and the number that they form. -/
inductive HexDigits : List Char → Nat → Prop where
  | four {c₃ c₂ c₁ c₀ : Char} {n₃ n₂ n₁ n₀ : Nat} (h₃ : IsHexDigit c₃ n₃) (h₂ : IsHexDigit c₂ n₂)
      (h₁ : IsHexDigit c₁ n₁) (h₀ : IsHexDigit c₀ n₀) :
      HexDigits [c₃, c₂, c₁, c₀] (n₃ * 16 ^ 3 + n₂ * 16 ^ 2 + n₁ * 16 + n₀)

/-- What may stand between quotes. -/
inductive IsBody : List Char → Prop where
  | nil : IsBody []
  | plain {c : Char} {raw : List Char} (hc : IsPlain c) (hraw : IsBody raw) : IsBody (c :: raw)
  | short {e c : Char} {raw : List Char} (he : (e, c) ∈ shortEscapes) (hraw : IsBody raw) :
      IsBody ('\\' :: e :: raw)
  | hex {digits raw : List Char} {n : Nat} (hdigits : HexDigits digits n) (hraw : IsBody raw) :
      IsBody ('\\' :: 'u' :: digits ++ raw)

/-- A spelling between quotes and the text that it spells. -/
inductive Spells : List Char → List Char → Prop where
  | nil : Spells [] []
  | plain {c : Char} {raw text : List Char} (hc : IsPlain c) (hraw : Spells raw text) :
      Spells (c :: raw) (c :: text)
  | short {e c : Char} {raw text : List Char} (he : (e, c) ∈ shortEscapes)
      (hraw : Spells raw text) : Spells ('\\' :: e :: raw) (c :: text)
  | unit {c : Char} {digits raw text : List Char} (hc : c.toNat < 0x10000)
      (hdigits : HexDigits digits c.toNat) (hraw : Spells raw text) :
      Spells ('\\' :: 'u' :: digits ++ raw) (c :: text)
  | pair {c : Char} {high low raw text : List Char} (hc : 0x10000 ≤ c.toNat)
      (hhigh : HexDigits high (0xD800 + (c.toNat - 0x10000) / 0x400))
      (hlow : HexDigits low (0xDC00 + (c.toNat - 0x10000) % 0x400)) (hraw : Spells raw text) :
      Spells ('\\' :: 'u' :: high ++ ('\\' :: 'u' :: low ++ raw)) (c :: text)

/-- Without special characters, a text spells itself. -/
lemma spells_self (h : text.all fun c => IsPlain c) : Spells text text := by
  induction text with
  | nil => exact .nil
  | cons c text ih =>
    rw [List.all_cons, Bool.and_eq_true, decide_eq_true_eq] at h
    exact .plain h.1 (ih h.2)

/-- What spells a text may stand between quotes. -/
lemma Spells.isBody (h : Spells raw text) : IsBody raw := by
  induction h with
  | nil => exact .nil
  | plain hc _ ih => exact .plain hc ih
  | short he _ ih => exact .short he ih
  | unit _ hdigits _ ih => exact .hex hdigits ih
  | pair _ hhigh hlow _ ih => exact .hex hhigh (.hex hlow ih)

/-! ### Digits and escapes are understood -/

lemma hexDigit?_of_isHexDigit (h : IsHexDigit c n) : hexDigit? c = some n := by
  have hlower : ∀ n < 16, hexDigit? n.digitChar = some n := by decide
  have hupper : ∀ n < 16, hexDigit? n.digitChar.toUpper = some n := by decide
  obtain ⟨hlt, rfl | rfl⟩ := h
  · exact hlower n hlt
  · exact hupper n hlt

lemma simpleEscape?_of_mem (h : (e, c) ∈ shortEscapes) : simpleEscape? e = some c := by
  have hall : ∀ p ∈ shortEscapes, simpleEscape? p.1 = some p.2 := by decide
  exact hall (e, c) h

lemma ne_u_of_mem (h : (e, c) ∈ shortEscapes) : e ≠ 'u' := by
  rintro rfl
  have hu := simpleEscape?_of_mem h
  cases hu

lemma pieces?_plain (hc : IsPlain c) (raw : List Char) :
    pieces? (c :: raw) = (.char c :: ·) <$> pieces? raw := by
  simp [pieces?, hc.ne_backslash]

lemma pieces?_short (he : (e, c) ∈ shortEscapes) (raw : List Char) :
    pieces? ('\\' :: e :: raw) = (.char c :: ·) <$> pieces? raw := by
  simp [pieces?, ne_u_of_mem he, simpleEscape?_of_mem he]

lemma pieces?_hex (hdigits : HexDigits digits n) (raw : List Char) :
    pieces? ('\\' :: 'u' :: digits ++ raw) = (.unit n :: ·) <$> pieces? raw := by
  cases hdigits with
  | @four c₃ c₂ c₁ c₀ n₃ n₂ n₁ n₀ h₃ h₂ h₁ h₀ =>
    have hvalue : ((n₃ * 16 + n₂) * 16 + n₁) * 16 + n₀ =
        n₃ * 16 ^ 3 + n₂ * 16 ^ 2 + n₁ * 16 + n₀ := by omega
    simp only [List.cons_append, List.nil_append, pieces?, hexDigit?_of_isHexDigit h₃,
      hexDigit?_of_isHexDigit h₂, hexDigit?_of_isHexDigit h₁, hexDigit?_of_isHexDigit h₀,
      Option.bind_eq_bind, Option.bind_some, hvalue]

/-! ### Units are joined -/

/-- A character is no surrogate. -/
lemma not_surrogate (c : Char) :
    ¬ IsLeadingSurrogate c.toNat ∧ ¬ IsTrailingSurrogate c.toNat := by
  have hvalid : c.toNat < 0xD800 ∨ 0xDFFF < c.toNat ∧ c.toNat < 0x110000 := c.valid
  constructor
  · rintro ⟨hge, hlt⟩
    omega
  · rintro ⟨hge, hlt⟩
    omega

lemma joinPieces?_unit (c : Char) (pieces : List Piece) :
    joinPieces? (.unit c.toNat :: pieces) = (c :: ·) <$> joinPieces? pieces := by
  obtain ⟨hleading, htrailing⟩ := not_surrogate c
  cases pieces with
  | nil => simp [joinPieces?, hleading, htrailing, Char.ofNat_toNat]
  | cons piece pieces =>
    cases piece with
    | char d => simp [joinPieces?, hleading, htrailing, Char.ofNat_toNat]
    | unit n => simp [joinPieces?, hleading, htrailing, Char.ofNat_toNat]

/-- The two units of a character beyond the first 65536 are joined again. -/
lemma joinPieces?_pair (hc : 0x10000 ≤ c.toNat) (pieces : List Piece) :
    joinPieces? (.unit (0xD800 + (c.toNat - 0x10000) / 0x400) ::
      .unit (0xDC00 + (c.toNat - 0x10000) % 0x400) :: pieces) =
      (c :: ·) <$> joinPieces? pieces := by
  have hvalid : c.toNat < 0xD800 ∨ 0xDFFF < c.toNat ∧ c.toNat < 0x110000 := c.valid
  have hleading : IsLeadingSurrogate (0xD800 + (c.toNat - 0x10000) / 0x400) :=
    ⟨by omega, by omega⟩
  have htrailing : IsTrailingSurrogate (0xDC00 + (c.toNat - 0x10000) % 0x400) :=
    ⟨by omega, by omega⟩
  have hjoined : 0x10000 + (0xD800 + (c.toNat - 0x10000) / 0x400 - 0xD800) * 0x400 +
      (0xDC00 + (c.toNat - 0x10000) % 0x400 - 0xDC00) = c.toNat := by omega
  rw [joinPieces?, if_pos hleading, if_pos htrailing, hjoined, Char.ofNat_toNat]

/-- Every spelling of a text is understood as this text. -/
theorem Spells.unescape? (h : Spells raw text) : unescape? raw = some text := by
  suffices hpieces : ∃ pieces, pieces? raw = some pieces ∧ joinPieces? pieces = some text by
    obtain ⟨pieces, hraw, htext⟩ := hpieces
    rw [Json.unescape?, hraw, Option.bind_eq_bind, Option.bind_some, htext]
  induction h with
  | nil => exact ⟨[], rfl, rfl⟩
  | @plain c _ _ hc _ ih =>
    obtain ⟨pieces, hraw, htext⟩ := ih
    exact ⟨.char c :: pieces, by rw [pieces?_plain hc, hraw]; rfl, by rw [joinPieces?, htext]; rfl⟩
  | @short _ c _ _ he _ ih =>
    obtain ⟨pieces, hraw, htext⟩ := ih
    exact ⟨.char c :: pieces, by rw [pieces?_short he, hraw]; rfl, by rw [joinPieces?, htext]; rfl⟩
  | @unit c _ _ _ _ hdigits _ ih =>
    obtain ⟨pieces, hraw, htext⟩ := ih
    exact ⟨.unit c.toNat :: pieces, by rw [pieces?_hex hdigits, hraw]; rfl,
      by rw [joinPieces?_unit, htext]; rfl⟩
  | @pair c _ _ _ _ hc hhigh hlow _ ih =>
    obtain ⟨pieces, hraw, htext⟩ := ih
    exact ⟨_ :: _ :: pieces, by rw [pieces?_hex hhigh, pieces?_hex hlow, hraw]; rfl,
      by rw [joinPieces?_pair hc, htext]; rfl⟩

end MemoryLedger.Json
