import Mathlib.Logic.Function.Basic
import MemoryLedger.Heap

/-!
# The bytes of a region

`Region.first` are the bytes at the beginning of a region, as a list. Overwriting, filling and
resizing a region are seen there as changes of this list, and only of the region that is named.
-/

namespace MemoryLedger

/-- A text with other bytes from `offset` on, as many as there are in `bytes`. -/
def splice (text : List UInt8) (offset : Nat) (bytes : List UInt8) : List UInt8 :=
  text.take offset ++ bytes ++ text.drop (offset + bytes.length)

namespace Region

variable {r : Region} {n m offset size : Nat} {bytes : List UInt8} {byte : UInt8}
  {tail : Nat → UInt8}

/-- The first `n` bytes. -/
def first (r : Region) (n : Nat) : List UInt8 := (List.range n).map r.bytes

@[simp] lemma length_first : (r.first n).length = n := by simp [first]

@[simp] lemma getElem_first {i : Nat} (h : i < (r.first n).length) :
    (r.first n)[i] = r.bytes i := by
  simp [first]

lemma read_zero (h : n ≤ r.size) : r.read 0 n = some (r.first n) := by
  simp [read, first, h]

lemma take_first : (r.first n).take m = r.first (min m n) := by
  apply List.ext_getElem
  · simp
  · intro i _ _
    simp

lemma first_fill : (r.fill n byte).first n = List.replicate n byte := by
  apply List.ext_getElem
  · simp
  · intro i hi _
    rw [length_first] at hi
    simp [fill, hi]

lemma first_overwrite (h : offset + bytes.length ≤ n) :
    (r.overwrite offset bytes).first n = splice (r.first n) offset bytes := by
  apply List.ext_getElem
  · simp [splice]
    omega
  · intro i hi _
    rw [length_first] at hi
    have hoffset : min offset n = offset := Nat.min_eq_left (by omega)
    simp only [splice, overwrite, getElem_first, List.getElem_append, List.getElem_take,
      List.getElem_drop, List.length_append, List.length_take, length_first, hoffset]
    by_cases hfrom : offset ≤ i
    · by_cases hto : i < offset + bytes.length
      · have hlt : i - offset < bytes.length := by omega
        simp [hfrom, hto, Nat.not_lt.mpr hfrom, hlt]
      · have hge : bytes.length ≤ i - offset := by omega
        have hback : offset + bytes.length + (i - (offset + bytes.length)) = i := by omega
        simp [hfrom, hto, hge, hback]
    · have hto : i < offset + bytes.length := by omega
      simp [hfrom, hto, Nat.lt_of_not_le hfrom]

/-- Resizing keeps the bytes that were there. -/
lemma first_resize (h : n ≤ r.size) : (r.resize size tail).first n = r.first n := by
  apply List.ext_getElem
  · simp
  · intro i hi _
    rw [length_first] at hi
    simp [resize, Nat.lt_of_lt_of_le hi h]

end Region

end MemoryLedger
