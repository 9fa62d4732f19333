import MemoryLedger.Word

/-!
# Usage counters

How many blocks are live and how many bytes they are charged, now and at most since the context
was created.
-/

namespace MemoryLedger

/-- The counters of a context. -/
structure Usage where
  count : UInt64 := 0
  countPeak : UInt64 := 0
  total : UInt64 := 0
  totalPeak : UInt64 := 0
deriving DecidableEq, Repr

/-- Places to write counters to, each of them present or absent. -/
structure Usage.Places where
  count : Option UInt64
  countPeak : Option UInt64
  total : Option UInt64
  totalPeak : Option UInt64
deriving DecidableEq, Repr

namespace Usage

/-- A peak after the counter has come to `n`. -/
def raise (peak n : UInt64) : UInt64 := if peak < n then n else peak

/-- Counts one more block of the given size, and raises the peaks if need be. -/
def charge (u : Usage) (size : UInt64) : Except Fault Usage := do
  let count ← addChecked u.count 1
  let total ← addChecked u.total size
  .ok
    { count
      countPeak := raise u.countPeak count
      total
      totalPeak := raise u.totalPeak total }

/-- Counts one block of the given size less; the peaks stay. -/
def credit (u : Usage) (size : UInt64) : Except Fault Usage := do
  let count ← subChecked u.count 1
  let total ← subChecked u.total size
  .ok { u with count, total }

/-- Writes the counters into the places that are present and leaves the absent ones alone. -/
def fillIn (u : Usage) (places : Places) : Places where
  count := places.count.map fun _ => u.count
  countPeak := places.countPeak.map fun _ => u.countPeak
  total := places.total.map fun _ => u.total
  totalPeak := places.totalPeak.map fun _ => u.totalPeak

/-! ### What the counters become, in exact numbers -/

theorem toNat_raise (peak n : UInt64) : (raise peak n).toNat = max peak.toNat n.toNat := by
  rw [raise]
  split
  next h => have := UInt64.lt_iff_toNat_lt.mp h; omega
  next h => have := mt UInt64.lt_iff_toNat_lt.mpr h; omega

theorem charge_eq_ok_iff {u v : Usage} {size : UInt64} :
    u.charge size = .ok v ↔
      v.count.toNat = u.count.toNat + 1 ∧
      v.countPeak.toNat = max u.countPeak.toNat v.count.toNat ∧
      v.total.toNat = u.total.toNat + size.toNat ∧
      v.totalPeak.toNat = max u.totalPeak.toNat v.total.toNat := by
  rw [charge]
  constructor
  · intro h
    cases hc : addChecked u.count 1 with
    | error f => simp [hc, bind, Except.bind] at h
    | ok count =>
      cases ht : addChecked u.total size with
      | error f => simp [hc, ht, bind, Except.bind] at h
      | ok total =>
        simp only [hc, ht, bind, Except.bind] at h
        cases h
        exact ⟨addChecked_eq_ok_iff.mp hc, toNat_raise _ _, addChecked_eq_ok_iff.mp ht,
          toNat_raise _ _⟩
  · rintro ⟨hc, hcp, ht, htp⟩
    rw [← toNat_raise] at hcp htp
    have hcount : addChecked u.count 1 = .ok v.count := addChecked_eq_ok_iff.mpr hc
    have htotal : addChecked u.total size = .ok v.total := addChecked_eq_ok_iff.mpr ht
    simp only [hcount, htotal, bind, Except.bind, ← UInt64.toNat_inj.mp hcp,
      ← UInt64.toNat_inj.mp htp]

theorem credit_eq_ok_iff {u v : Usage} {size : UInt64} :
    u.credit size = .ok v ↔
      v.count.toNat + 1 = u.count.toNat ∧ v.countPeak = u.countPeak ∧
      v.total.toNat + size.toNat = u.total.toNat ∧ v.totalPeak = u.totalPeak := by
  rw [credit]
  constructor
  · intro h
    cases hc : subChecked u.count 1 with
    | error f => simp [hc, bind, Except.bind] at h
    | ok count =>
      cases ht : subChecked u.total size with
      | error f => simp [hc, ht, bind, Except.bind] at h
      | ok total =>
        simp only [hc, ht, bind, Except.bind] at h
        cases h
        exact ⟨subChecked_eq_ok_iff.mp hc, rfl, subChecked_eq_ok_iff.mp ht, rfl⟩
  · rintro ⟨hc, hcp, ht, htp⟩
    have hcount : subChecked u.count 1 = .ok v.count := subChecked_eq_ok_iff.mpr hc
    have htotal : subChecked u.total size = .ok v.total := subChecked_eq_ok_iff.mpr ht
    simp only [hcount, htotal, bind, Except.bind, ← hcp, ← htp]
end Usage

end MemoryLedger
