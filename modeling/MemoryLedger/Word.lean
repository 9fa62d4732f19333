/-!
# Machine words

Sizes and counters are 64-bit words; ids, tags and generations are 32-bit words. Their arithmetic
is checked: a sum or a difference that leaves the range of the word is a `Fault`, the only way in
which a computation of this library stops without an answer.
-/

namespace MemoryLedger

/-- Why a computation stops without an answer. -/
inductive Fault where
  | addOverflow
  | subOverflow
  | indexOutOfBounds (index size : Nat)
deriving DecidableEq, Repr

def Fault.message : Fault → String
  | .addOverflow => "attempt to add with overflow"
  | .subOverflow => "attempt to subtract with overflow"
  | .indexOutOfBounds index size =>
      "index out of bounds: the len is " ++ toString size ++ " but the index is " ++ toString index

/-- The largest 64-bit word. -/
def maxWord : UInt64 := 0xFFFFFFFFFFFFFFFF

/-- The largest 32-bit word, at which a slot's generation is used up. -/
def maxGeneration : UInt32 := 0xFFFFFFFF

@[simp]
theorem toNat_maxWord : maxWord.toNat = 0xFFFFFFFFFFFFFFFF := rfl

@[simp]
theorem toNat_maxGeneration : maxGeneration.toNat = 0xFFFFFFFF := rfl

/-! ### Checked arithmetic -/

def addChecked (a b : UInt64) : Except Fault UInt64 :=
  if a.toNat + b.toNat < 0x10000000000000000 then .ok (a + b) else .error .addOverflow

def subChecked (a b : UInt64) : Except Fault UInt64 :=
  if b ≤ a then .ok (a - b) else .error .subOverflow

/-- The generation after `g`, or a fault when `g` is the last one. -/
def nextGeneration (g : UInt32) : Except Fault UInt32 :=
  if g < maxGeneration then .ok (g + 1) else .error .addOverflow

/-- A difference that stops at zero. -/
def subSaturating (a b : UInt64) : UInt64 :=
  if b ≤ a then a - b else 0

/-- The generation after `g`, where the last one stays the last one. -/
def nextGenerationSaturating (g : UInt32) : UInt32 :=
  if g < maxGeneration then g + 1 else g

/-! ### What the operations mean in exact numbers -/

theorem addChecked_eq_ok_iff {a b c : UInt64} :
    addChecked a b = .ok c ↔ c.toNat = a.toNat + b.toNat := by
  rw [addChecked]
  split
  next h =>
    have hsum : (a + b).toNat = a.toNat + b.toNat := by
      rw [UInt64.toNat_add, Nat.mod_eq_of_lt h]
    constructor
    · intro hc
      cases hc
      exact hsum
    · intro hc
      rw [UInt64.toNat_inj.mp (hsum.trans hc.symm)]
  next h =>
    have := c.toNat_lt
    constructor
    · intro hc
      cases hc
    · intro hc
      omega

theorem subChecked_eq_ok_iff {a b c : UInt64} :
    subChecked a b = .ok c ↔ c.toNat + b.toNat = a.toNat := by
  rw [subChecked]
  split
  next h =>
    have hle : b.toNat ≤ a.toNat := UInt64.le_iff_toNat_le.mp h
    have hdiff : (a - b).toNat = a.toNat - b.toNat := UInt64.toNat_sub_of_le a b h
    constructor
    · intro hc
      cases hc
      omega
    · intro hc
      rw [UInt64.toNat_inj.mp (hdiff.trans (by omega : a.toNat - b.toNat = c.toNat))]
  next h =>
    have hlt : ¬ b.toNat ≤ a.toNat := fun hle => h (UInt64.le_iff_toNat_le.mpr hle)
    constructor
    · intro hc
      cases hc
    · intro hc
      omega

@[simp]
theorem toNat_subSaturating (a b : UInt64) : (subSaturating a b).toNat = a.toNat - b.toNat := by
  rw [subSaturating]
  split
  next h => exact UInt64.toNat_sub_of_le a b h
  next h =>
    have hlt : ¬ b.toNat ≤ a.toNat := fun hle => h (UInt64.le_iff_toNat_le.mpr hle)
    simp
    omega

theorem lt_maxGeneration_iff {g : UInt32} : g < maxGeneration ↔ g.toNat < 0xFFFFFFFF :=
  UInt32.lt_iff_toNat_lt

theorem lt_maxGeneration_iff_ne {g : UInt32} : g < maxGeneration ↔ g ≠ maxGeneration := by
  have hbound := g.toNat_lt
  rw [lt_maxGeneration_iff, ne_eq, ← UInt32.toNat_inj, toNat_maxGeneration]
  omega

theorem nextGeneration_eq_ok_iff {g h : UInt32} :
    nextGeneration g = .ok h ↔ h.toNat = g.toNat + 1 := by
  have hbound := h.toNat_lt
  rw [nextGeneration]
  split
  next hg =>
    rw [lt_maxGeneration_iff] at hg
    have hsucc : (g + 1).toNat = g.toNat + 1 := by
      rw [UInt32.toNat_add, UInt32.toNat_one, Nat.mod_eq_of_lt (by omega)]
    constructor
    · intro hh
      cases hh
      exact hsucc
    · intro hh
      rw [UInt32.toNat_inj.mp (hsucc.trans hh.symm)]
  next hg =>
    rw [lt_maxGeneration_iff] at hg
    constructor
    · intro hh
      cases hh
    · intro hh
      omega

theorem toNat_nextGenerationSaturating (g : UInt32) :
    (nextGenerationSaturating g).toNat = min (g.toNat + 1) 0xFFFFFFFF := by
  have hbound := g.toNat_lt
  rw [nextGenerationSaturating]
  split
  next hg =>
    rw [lt_maxGeneration_iff] at hg
    rw [UInt32.toNat_add, UInt32.toNat_one, Nat.mod_eq_of_lt (by omega)]
    omega
  next hg =>
    rw [lt_maxGeneration_iff] at hg
    omega

end MemoryLedger
