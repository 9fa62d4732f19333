import Mathlib.Algebra.BigOperators.Group.Finset.Piecewise
import Mathlib.Algebra.BigOperators.Intervals
import MemoryLedger.Proofs.Registry.Lifecycle

/-!
# The wear of a registry

The generations of all slots together are the wear of a registry. It grows by one when a block is
entered and by at most one when a slot is vacated. A slot can be used again until its generation is
used up; so a registry that has no slot to use again is worn to the utmost in every slot that holds
no block.
-/

namespace MemoryLedger

namespace Registry

open Finset

/-- The generations of all slots together. -/
def wear (r : Registry) : Nat := ∑ s ∈ range r.slots.size, r.age s

variable {r r' : Registry} {entries rest : List Entry} {e : Entry} {slot : Nat}

lemma age_of_size_le (h : r.slots.size ≤ slot) : r.age slot = 0 := by
  rw [age, body_eq_none_iff.mpr h]
  rfl

/-- Slots that do not exist yet add nothing. -/
lemma sum_age_of_size_le {n : Nat} (h : r.slots.size ≤ n) : ∑ s ∈ range n, r.age s = r.wear := by
  refine (sum_subset (range_subset_range.mpr h) fun s _ hs => ?_).symm
  exact age_of_size_le (Nat.le_of_not_lt fun hlt => hs (mem_range.mpr hlt))

lemma sum_range_update {n : Nat} (f : Nat → Nat) (g : Nat) (h : slot < n) :
    ∑ s ∈ range n, Function.update f slot g s + f slot = ∑ s ∈ range n, f s + g := by
  rw [sum_update_of_mem (mem_range.mpr h), ← add_sum_erase _ f (mem_range.mpr h),
    sdiff_singleton_eq_erase]
  omega

/-! ### What wears a registry -/

/-- Entering a block wears the registry by one. -/
theorem Entered.wear_eq (h : r.Entered r' e rest) : r'.wear = r.wear + 1 := by
  have hslot : e.slot < r'.slots.size := h.holds.slot_lt List.mem_cons_self
  have hsize : r.slots.size ≤ r'.slots.size := by
    rcases h.size with hsize | ⟨-, -, hsize⟩ <;> omega
  have hsum := sum_range_update r.age e.generation.toNat hslot
  rw [← h.age, sum_age_of_size_le hsize, h.generation] at hsum
  rw [wear]
  omega

/-- Another generation of a slot, one later at the most, wears the registry by one at the most. -/
lemma wear_le_of_update {g : Nat} (hsize : r'.slots.size = r.slots.size)
    (hage : r'.age = Function.update r.age slot g) (hslot : slot < r.slots.size)
    (hg : g ≤ r.age slot + 1) : r'.wear ≤ r.wear + 1 := by
  have hsum := sum_range_update r.age g hslot
  rw [wear, wear, hsize, hage]
  omega

/-! ### No slot to use again -/

/-- A slot that holds no block and cannot be used again has its generation used up. -/
lemma Holds.age_of_vacant_eq_nil (h : r.Holds entries) (hvacant : r.vacant = [])
    (hlt : slot < r.slots.size) (hslot : slot ∉ entries.map Entry.slot) :
    r.age slot = 0xFFFFFFFF := by
  obtain ⟨d, hd⟩ : ∃ d, r.slots[slot]? = some d := ⟨_, Array.getElem?_eq_getElem hlt⟩
  have hlive : ¬ d.IsLive := fun hlive => hslot (h.mem_slots_iff.mpr ⟨d, hd, hlive⟩)
  have hgen : d.generation = maxGeneration := by
    by_contra hne
    have hmem : slot ∈ r.vacant :=
      h.mem_vacant_iff.mpr ⟨d, hd, hlive, lt_maxGeneration_iff_ne.mpr hne⟩
    rw [hvacant] at hmem
    cases hmem
  rw [age_of_getElem? hd, hgen, toNat_maxGeneration]

/-- With no slot to use again, the wear is that of the blocks and of the used up slots. -/
theorem Holds.wear_of_vacant_eq_nil (h : r.Holds entries) (hvacant : r.vacant = []) :
    r.wear = (entries.map fun e => e.generation.toNat).sum +
      (r.slots.size - entries.length) * 0xFFFFFFFF := by
  let held : Finset Nat := (entries.map Entry.slot).toFinset
  have hheld : held ⊆ range r.slots.size := fun s hs =>
    mem_range.mpr (h.threads.lt_size (List.mem_toFinset.mp hs))
  have hcard : held.card = entries.length := by
    rw [List.toFinset_card_of_nodup h.threads.nodup, List.length_map]
  have hblocks : ∑ s ∈ held, r.age s = (entries.map fun e => e.generation.toNat).sum := by
    rw [List.sum_toFinset _ h.threads.nodup, List.map_map]
    exact congrArg List.sum (List.map_congr_left fun e he => h.age_of_mem he)
  have hempty : ∑ s ∈ range r.slots.size \ held, r.age s =
      (r.slots.size - entries.length) * 0xFFFFFFFF := by
    rw [sum_const_nat fun s hs => ?_, card_sdiff_of_subset hheld, card_range, hcard]
    obtain ⟨hlt, hnot⟩ := mem_sdiff.mp hs
    exact h.age_of_vacant_eq_nil hvacant (mem_range.mp hlt) fun hmem =>
      hnot (List.mem_toFinset.mpr hmem)
  rw [wear, ← sum_sdiff hheld, hblocks, hempty, Nat.add_comm]

section

variable (h : r.Entered r' e rest) (hr : r.Holds entries) (hvacant : r.vacant = [])
include h hr hvacant

/-- With no slot to use again, a block comes to a slot of its own if the slots that other blocks
have left are used up. -/
lemma Entered.slot_eq_size
    (hleft : ∀ s ∈ entries.map Entry.slot, s ∉ rest.map Entry.slot → r.age s = 0xFFFFFFFF) :
    e.slot = r.slots.size ∧ r'.slots.size = r.slots.size + 1 := by
  rcases h.size with hsize | ⟨-, hnew⟩
  · -- the generation of the block would be one too late
    have hlt : e.slot < r.slots.size := hsize ▸ h.holds.slot_lt List.mem_cons_self
    have hnot : e.slot ∉ rest.map Entry.slot := (List.nodup_cons.mp h.holds.threads.nodup).1
    have hage : r.age e.slot = 0xFFFFFFFF := by
      by_cases hmem : e.slot ∈ entries.map Entry.slot
      · exact hleft _ hmem hnot
      · exact hr.age_of_vacant_eq_nil hvacant hlt hmem
    have hgen := h.generation
    have hbound := e.generation.toNat_lt
    omega
  · exact hnew

/-- There is still no slot to use again if the slots that other blocks have left are used up. -/
lemma Entered.vacant_eq_nil (hleft : ∀ s ∈ entries.map Entry.slot, s ∉ rest.map Entry.slot →
      s ≠ e.slot → r.age s = 0xFFFFFFFF) : r'.vacant = [] := by
  refine List.eq_nil_iff_forall_not_mem.mpr fun s hs => ?_
  obtain ⟨d, hd, hlive, hgen⟩ := h.holds.mem_vacant_iff.mp hs
  have hslot : s ∉ (e :: rest).map Entry.slot := by
    intro hmem
    obtain ⟨d', hd', hlive'⟩ := h.holds.mem_slots_iff.mp hmem
    cases hd.symm.trans hd'
    exact hlive hlive'
  rw [List.map_cons, List.mem_cons, not_or] at hslot
  have hage : r.age s = d.generation.toNat := by
    rw [← age_of_getElem? hd, h.age, Function.update_of_ne hslot.1]
  have hlt : s < r.slots.size := by
    have hlt' : s < r'.slots.size := (Array.getElem?_eq_some_iff.mp hd).1
    rcases h.size with hsize | ⟨-, hnew, hsize⟩ <;> omega
  have hused : r.age s = 0xFFFFFFFF := by
    by_cases hmem : s ∈ entries.map Entry.slot
    · exact hleft s hmem hslot.2 hslot.1
    · exact hr.age_of_vacant_eq_nil hvacant hlt hmem
  rw [lt_maxGeneration_iff] at hgen
  omega

end

end Registry

end MemoryLedger
