import Mathlib.Data.List.Perm.Subperm
import MemoryLedger.Proofs.Registry.Lifecycle

/-!
# Exhausted slots

A slot that holds no block is exhausted when its generation is used up. Every slot of a registry
either holds a block, is on the stack of reusable slots or is exhausted, and no two of these at once
(`Registry.Holds.perm_range`). Generations never fall, so an exhausted slot stays what it is
(`Registry.Ages`).
-/

namespace MemoryLedger

/-- The slot holds no block and never will again. -/
abbrev Descriptor.IsExhausted (d : Descriptor) : Prop :=
  ¬ d.IsLive ∧ d.generation = maxGeneration

namespace Registry

/-- The exhausted slots. -/
def exhausted (r : Registry) : List Nat :=
  (List.range r.slots.size).filter fun slot =>
    r.slots[slot]?.any fun d => decide d.IsExhausted

variable {r r' : Registry} {entries entries' : List Entry} {slot : Nat}

lemma nodup_exhausted (r : Registry) : r.exhausted.Nodup := List.nodup_range.filter _

lemma mem_exhausted : slot ∈ r.exhausted ↔ ∃ d, r.slots[slot]? = some d ∧ d.IsExhausted := by
  rw [exhausted, List.mem_filter, List.mem_range]
  constructor
  · rintro ⟨-, hany⟩
    simpa [Option.any_eq_true] using hany
  · rintro ⟨d, hd, hexhausted⟩
    have hlt : slot < r.slots.size := (Array.getElem?_eq_some_iff.mp hd).1
    refine ⟨hlt, ?_⟩
    rw [hd, Option.any_some]
    exact decide_eq_true hexhausted

/-! ### Every slot is of one kind -/

/-- No slot is of two kinds. -/
lemma Holds.nodup_kinds (h : r.Holds entries) :
    (entries.map Entry.slot ++ r.vacant ++ r.exhausted).Nodup := by
  refine List.nodup_append.mpr ⟨List.nodup_append.mpr ⟨h.threads.nodup, h.vacant_nodup, ?_⟩,
    r.nodup_exhausted, ?_⟩
  · rintro slot hslot _ hvacant rfl
    obtain ⟨d, hd, hlive⟩ := h.mem_slots_iff.mp hslot
    obtain ⟨d', hd', hlive', -⟩ := h.mem_vacant_iff.mp hvacant
    cases hd.symm.trans hd'
    exact hlive' hlive
  · rintro slot hslot _ hexhausted rfl
    obtain ⟨d, hd, hlive, hgen⟩ := mem_exhausted.mp hexhausted
    rcases List.mem_append.mp hslot with hslot | hvacant
    · obtain ⟨d', hd', hlive'⟩ := h.mem_slots_iff.mp hslot
      cases hd.symm.trans hd'
      exact hlive hlive'
    · obtain ⟨d', hd', -, hgen'⟩ := h.mem_vacant_iff.mp hvacant
      cases hd.symm.trans hd'
      exact lt_maxGeneration_iff_ne.mp hgen' hgen

/-- Every slot is of some kind. -/
lemma Holds.mem_kinds_iff (h : r.Holds entries) :
    slot ∈ entries.map Entry.slot ++ r.vacant ++ r.exhausted ↔ slot < r.slots.size := by
  rw [List.mem_append, List.mem_append, h.mem_slots_iff, h.mem_vacant_iff, mem_exhausted]
  constructor
  · rintro ((⟨d, hd, -⟩ | ⟨d, hd, -⟩) | ⟨d, hd, -⟩) <;>
      exact (Array.getElem?_eq_some_iff.mp hd).1
  · intro hlt
    have hd : r.slots[slot]? = some r.slots[slot] := Array.getElem?_eq_getElem hlt
    by_cases hlive : r.slots[slot].IsLive
    · exact .inl (.inl ⟨_, hd, hlive⟩)
    by_cases hgen : r.slots[slot].generation = maxGeneration
    · exact .inr ⟨_, hd, hlive, hgen⟩
    · exact .inl (.inr ⟨_, hd, hlive, lt_maxGeneration_iff_ne.mpr hgen⟩)

/-- The slots of the blocks, the reusable ones and the exhausted ones are all slots, each once. -/
theorem Holds.perm_range (h : r.Holds entries) :
    (entries.map Entry.slot ++ r.vacant ++ r.exhausted).Perm (List.range r.slots.size) :=
  (List.perm_ext_iff_of_nodup h.nodup_kinds List.nodup_range).mpr fun _ =>
    h.mem_kinds_iff.trans List.mem_range.symm

theorem Holds.size_eq (h : r.Holds entries) :
    r.slots.size = entries.length + r.vacant.length + r.exhausted.length := by
  have hlength := h.perm_range.length_eq
  rw [List.length_append, List.length_append, List.length_map, List.length_range] at hlength
  exact hlength.symm

/-! ### Growing older -/

/-- From `r` to `r'`, no slot disappears or becomes younger, and the exhausted ones stay so. -/
structure Ages (r r' : Registry) : Prop where
  size_le : r.slots.size ≤ r'.slots.size
  age_le : r.age ≤ r'.age
  exhausted_subset : r.exhausted ⊆ r'.exhausted

lemma Ages.refl (r : Registry) : r.Ages r := ⟨Nat.le_refl _, fun _ => Nat.le_refl _, fun _ h => h⟩

lemma Ages.trans {r₁ r₂ r₃ : Registry} (h : r₁.Ages r₂) (h' : r₂.Ages r₃) : r₁.Ages r₃ where
  size_le := Nat.le_trans h.size_le h'.size_le
  age_le := fun slot => Nat.le_trans (h.age_le slot) (h'.age_le slot)
  exhausted_subset := fun _ hslot => h'.exhausted_subset (h.exhausted_subset hslot)

lemma Ages.length_le (h : r.Ages r') : r.exhausted.length ≤ r'.exhausted.length :=
  (r.nodup_exhausted.subperm h.exhausted_subset).length_le

/-- A block that was entered later than the slot was exhausted would be one generation too old. -/
lemma Holds.exhausted_of_age_le (h : r.Holds entries) (h' : r'.Holds entries')
    (hsize : r.slots.size ≤ r'.slots.size) (hage : r.age ≤ r'.age)
    (hnew : ∀ e ∈ entries', e ∈ entries ∨ e.generation.toNat = r.age e.slot + 1) :
    r.exhausted ⊆ r'.exhausted := by
  intro slot hslot
  obtain ⟨d, hd, hlive, hgen⟩ := mem_exhausted.mp hslot
  have hlt : slot < r'.slots.size :=
    Nat.lt_of_lt_of_le (Array.getElem?_eq_some_iff.mp hd).1 hsize
  have hd' : r'.slots[slot]? = some r'.slots[slot] := Array.getElem?_eq_getElem hlt
  have hmax : r.age slot = 0xFFFFFFFF := by rw [age_of_getElem? hd, hgen, toNat_maxGeneration]
  refine mem_exhausted.mpr ⟨_, hd', fun hlive' => ?_, ?_⟩
  · obtain ⟨e, he, rfl, -⟩ := h'.exists_entry_of_live hd' hlive'
    rcases hnew e he with hold | hgen'
    · obtain ⟨d', hd', hlive'⟩ := h.mem_slots_iff.mp (List.mem_map_of_mem hold)
      cases hd.symm.trans hd'
      exact hlive hlive'
    · have hbound := e.generation.toNat_lt
      omega
  · have hle : r.age slot ≤ r'.age slot := hage slot
    rw [hmax, age_of_getElem? hd'] at hle
    have hbound := r'.slots[slot].generation.toNat_lt
    rw [← UInt32.toNat_inj, toNat_maxGeneration]
    omega

end Registry

end MemoryLedger
