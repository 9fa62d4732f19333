import Mathlib.Algebra.Order.Ring.Int
import Mathlib.Order.Bounds.Basic
import MemoryLedger.Align
import MemoryLedger.Proofs.Computation

/-!
# Rounding is exact

Masking off the low bits of a value takes its remainder away, whether the type has a sign or not,
and what is left of the last number before `v + a` is the least multiple of `a` that is not below
`v`. The one step that can leave the type is the sum of the two.
-/

namespace MemoryLedger

namespace IntType

variable {t : IntType} {v a z : Int} {n k : Nat}

/-! ### Values and bit patterns -/

lemma minValue_eq (t : IntType) : t.minValue = if t.signed then -2 ^ (t.bits - 1) else 0 := by
  simp [minValue]

lemma maxValue_eq (t : IntType) :
    t.maxValue = (if t.signed then 2 ^ (t.bits - 1) else 2 ^ t.bits) - 1 := by
  rw [maxValue]
  split <;> simp

/-- A power of two that the type holds is one of its bits. -/
lemma lt_bits_of_holds (h : t.Holds (2 ^ k)) : k < t.bits := by
  have hmax : (2 : Int) ^ k ≤ t.maxValue := h.2
  have hle : (2 : Int) ^ (t.bits - 1) ≤ 2 ^ t.bits :=
    pow_le_pow_right₀ (by decide) (Nat.sub_le _ _)
  have hlt : (2 : Int) ^ k < 2 ^ t.bits := by
    rw [maxValue_eq] at hmax
    split at hmax <;> omega
  exact (pow_lt_pow_iff_right₀ (by decide)).mp hlt

/-- Without a sign, a pattern stands for the value that it was made from. -/
lemma toNat_ofInt_of_lt (hz : 0 ≤ z) (hlt : z < 2 ^ n) : ((BitVec.ofInt n z).toNat : Int) = z := by
  have hrange : z % 2 ^ n = z := Int.emod_eq_of_lt hz hlt
  rw [BitVec.toNat_ofInt]
  push_cast
  rw [hrange, Int.toNat_of_nonneg hz]

/-- A value is read back from its own bits. -/
lemma ofBits_ofInt (hbits : 0 < t.bits) (hz : t.Holds z) : t.ofBits (.ofInt t.bits z) = z := by
  obtain ⟨hmin, hmax⟩ := hz
  rw [minValue_eq] at hmin
  rw [maxValue_eq] at hmax
  rw [ofBits]
  split
  next hsigned =>
    rw [if_pos hsigned] at hmin hmax
    exact BitVec.toInt_ofInt_eq_self hbits hmin (by omega)
  next hsigned =>
    rw [if_neg hsigned] at hmin hmax
    exact toNat_ofInt_of_lt hmin (by omega)

/-! ### Masks -/

/-- The bits of a mask and the other ones make up the pattern. -/
lemma and_not_add_and (x mask : BitVec n) : (x &&& ~~~mask) + (x &&& mask) = x := by
  have hdisjoint : (x &&& ~~~mask) &&& (x &&& mask) = 0#n := by
    ext i
    simp only [BitVec.getElem_and, BitVec.getElem_not, BitVec.getElem_zero]
    cases mask[i] <;> simp
  rw [BitVec.add_eq_or_of_and_eq_zero _ _ hdisjoint]
  ext i
  simp only [BitVec.getElem_or, BitVec.getElem_and, BitVec.getElem_not]
  cases mask[i] <;> simp

lemma toNat_ofInt_low (hk : k < n) : (BitVec.ofInt n (2 ^ k - 1)).toNat = 2 ^ k - 1 := by
  have hpos : (0 : Int) < 2 ^ k := Int.pow_pos (by decide)
  have hle : (2 : Int) ^ k ≤ 2 ^ n := pow_le_pow_right₀ (by decide) hk.le
  have hlow : ((BitVec.ofInt n (2 ^ k - 1)).toNat : Int) = 2 ^ k - 1 :=
    toNat_ofInt_of_lt (by omega) (by omega)
  have hcast : ((2 ^ k - 1 : Nat) : Int) = 2 ^ k - 1 := by
    rw [Nat.cast_sub Nat.one_le_two_pow]
    push_cast
    rfl
  omega

/-- The low bits of a pattern are the remainder of any value that it stands for. -/
lemma ofInt_and_low (hk : k < n) (z : Int) :
    BitVec.ofInt n z &&& BitVec.ofInt n (2 ^ k - 1) = BitVec.ofInt n (z % 2 ^ k) := by
  have hpos : (0 : Int) < 2 ^ k := Int.pow_pos (by decide)
  have hdvd : (2 : Int) ^ k ∣ 2 ^ n := pow_dvd_pow 2 hk.le
  have hle : (2 : Int) ^ k ≤ 2 ^ n := Int.le_of_dvd (Int.pow_pos (by decide)) hdvd
  have hrem : 0 ≤ z % 2 ^ k := Int.emod_nonneg z hpos.ne'
  have hlt : z % 2 ^ k < 2 ^ k := Int.emod_lt_of_pos z hpos
  have hz : 0 ≤ z % 2 ^ n := Int.emod_nonneg z (by omega)
  apply BitVec.eq_of_toNat_eq
  rw [BitVec.toNat_and, toNat_ofInt_low hk, Nat.and_two_pow_sub_one_eq_mod]
  apply Int.ofNat_inj.mp
  rw [toNat_ofInt_of_lt hrem (by omega), BitVec.toNat_ofInt]
  push_cast
  rw [Int.toNat_of_nonneg hz, Int.emod_emod_of_dvd z hdvd]

/-- Masking off the low bits of a value takes its remainder away. -/
lemma ofInt_and_not_low (hk : k < n) (z : Int) :
    BitVec.ofInt n z &&& ~~~BitVec.ofInt n (2 ^ k - 1) = BitVec.ofInt n (z - z % 2 ^ k) := by
  have hparts := and_not_add_and (BitVec.ofInt n z) (BitVec.ofInt n (2 ^ k - 1))
  rw [ofInt_and_low hk] at hparts
  have hsub : BitVec.ofInt n (z - z % 2 ^ k) = BitVec.ofInt n z - BitVec.ofInt n (z % 2 ^ k) := by
    rw [sub_eq_add_neg, BitVec.ofInt_add, BitVec.ofInt_neg, ← BitVec.sub_eq_add_neg]
  rw [hsub]
  exact BitVec.eq_sub_iff_add_eq.mpr hparts

/-! ### The least multiple -/

/-- With its remainder taken away, the last number before `v + a` is the least multiple of `a` that
is not below `v`. -/
lemma isLeast_sub_emod (ha : 0 < a) (v : Int) :
    IsLeast {m : Int | a ∣ m ∧ v ≤ m} (v + a - 1 - (v + a - 1) % a) := by
  have hdvd : a ∣ v + a - 1 - (v + a - 1) % a := Int.dvd_self_sub_emod
  have hrem : 0 ≤ (v + a - 1) % a := Int.emod_nonneg _ ha.ne'
  have hlt : (v + a - 1) % a < a := Int.emod_lt_of_pos _ ha
  refine ⟨⟨hdvd, by omega⟩, ?_⟩
  rintro m ⟨hm, hv⟩
  by_contra hbelow
  -- a smaller multiple is smaller by `a` at least
  have hgap : a ≤ v + a - 1 - (v + a - 1) % a - m :=
    Int.le_of_dvd (by omega) (Int.dvd_sub hdvd hm)
  omega

/-! ### Rounding -/

lemma minValue_le_zero (t : IntType) : t.minValue ≤ 0 := by
  rw [minValue_eq]
  split
  · exact Int.neg_nonpos_of_nonneg (Int.pow_nonneg (by decide))
  · exact Int.le_refl 0

lemma checked_of_holds {f : Fault} (h : t.Holds z) : t.checked f z = .ok z := if_pos h

lemma alignTo_of_lt (h : t.maxValue < v + a) : t.alignTo v a = .error .addOverflow := by
  have hsum : t.checked .addOverflow (v + a) = .error .addOverflow :=
    if_neg fun hholds => Int.not_le.mpr h hholds.2
  rw [alignTo, hsum, error_bind]

/-- Where the sum is a value, no other step leaves the type. -/
lemma alignTo_of_le (hv : t.Holds v) (ha : t.Holds (2 ^ k)) (h : v + 2 ^ k ≤ t.maxValue) :
    t.alignTo v (2 ^ k) = .ok (v + 2 ^ k - 1 - (v + 2 ^ k - 1) % 2 ^ k) := by
  have hk : k < t.bits := lt_bits_of_holds ha
  have hpos : (0 : Int) < 2 ^ k := Int.pow_pos (by decide)
  have hzero := t.minValue_le_zero
  obtain ⟨hmin, -⟩ := hv
  obtain ⟨-, hmax⟩ := ha
  have hsum : t.Holds (v + 2 ^ k) := ⟨by omega, h⟩
  have htop : t.Holds (v + 2 ^ k - 1) := ⟨by omega, by omega⟩
  have hlow : t.Holds (2 ^ k - 1) := ⟨by omega, by omega⟩
  have hresult : t.Holds (v + 2 ^ k - 1 - (v + 2 ^ k - 1) % 2 ^ k) := by
    obtain ⟨⟨-, hge⟩, -⟩ := isLeast_sub_emod hpos v
    have hrem : 0 ≤ (v + 2 ^ k - 1) % 2 ^ k := Int.emod_nonneg _ hpos.ne'
    exact ⟨hmin.trans hge, by omega⟩
  rw [alignTo, checked_of_holds hsum, ok_bind, checked_of_holds htop, ok_bind,
    checked_of_holds hlow, ok_bind, ofInt_and_not_low hk,
    ofBits_ofInt (Nat.zero_lt_of_lt hk) hresult]

/-- Rounding a value up to a multiple of a power of two. The sum of the two alone decides whether
there is an overflow, even where the multiple would be a value of the type. Otherwise the result is
the least multiple that is not below the value; so it is less than one multiple away, it is the
value itself exactly if this is a multiple, and it grows with the value. Sizes are rounded up to
multiples of eight. -/
theorem alignTo_exact (t : IntType) (hv : t.Holds v) (ha : t.Holds a)
    (hpow : ∃ k : Nat, a = 2 ^ k) :
    (t.maxValue < v + a → ∃ f, t.alignTo v a = .error f ∧
      f.message = "attempt to add with overflow") ∧
    (v + a ≤ t.maxValue → ∃ r, t.alignTo v a = .ok r ∧ IsLeast {m | a ∣ m ∧ v ≤ m} r ∧
      v ≤ r ∧ r < v + a ∧ (r = v ↔ a ∣ v) ∧
      ∀ u q, t.Holds u → u ≤ v → t.alignTo u a = .ok q → q ≤ r) ∧
    align v = size.alignTo v 8 := by
  obtain ⟨k, rfl⟩ := hpow
  have hpos : (0 : Int) < 2 ^ k := Int.pow_pos (by decide)
  refine ⟨fun h => ⟨_, alignTo_of_lt h, rfl⟩, fun h => ?_, rfl⟩
  obtain ⟨⟨hdvd, hge⟩, hleast⟩ := isLeast_sub_emod hpos v
  have hrem : 0 ≤ (v + 2 ^ k - 1) % 2 ^ k := Int.emod_nonneg _ hpos.ne'
  refine ⟨_, alignTo_of_le hv ha h, ⟨⟨hdvd, hge⟩, hleast⟩, hge, by omega, ⟨?_, ?_⟩, ?_⟩
  · intro heq
    rwa [heq] at hdvd
  · intro hmultiple
    exact Int.le_antisymm (hleast ⟨hmultiple, Int.le_refl v⟩) hge
  · intro u q hu hle hq
    rw [alignTo_of_le hu ha (by omega)] at hq
    cases hq
    exact (isLeast_sub_emod hpos u).2 ⟨hdvd, hle.trans hge⟩

/-- As a signed byte, -100 is rounded up to a multiple of 64, but 96 is not rounded up to a multiple
of 32, which it is. -/
theorem alignTo_exact_bytes :
    (twosComplement 8).alignTo (-100) 64 = .ok (-64) ∧
      IsLeast {m : Int | 64 ∣ m ∧ -100 ≤ m} (-64) ∧
      ∃ f, (twosComplement 8).alignTo 96 32 = .error f ∧
        f.message = "attempt to add with overflow" := by
  obtain ⟨-, hround, -⟩ := alignTo_exact (v := -100) (a := 64) (twosComplement 8) (by decide)
    (by decide) ⟨6, rfl⟩
  obtain ⟨hoverflow, -⟩ := alignTo_exact (v := 96) (a := 32) (twosComplement 8) (by decide)
    (by decide) ⟨5, rfl⟩
  obtain ⟨r, hr, hleast, -⟩ := hround (by decide)
  have hvalue : (twosComplement 8).alignTo (-100) 64 = .ok (-64) := by decide
  cases hr.symm.trans hvalue
  exact ⟨hvalue, hleast, hoverflow (by decide)⟩

end IntType

end MemoryLedger
