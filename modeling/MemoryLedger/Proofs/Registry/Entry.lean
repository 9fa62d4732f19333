import Mathlib.Data.List.Nodup
import Mathlib.Logic.Function.Basic
import MemoryLedger.Proofs.Registry.Thread

/-!
# The blocks that a registry holds

`Registry.Holds r entries` says that the live blocks of the registry are `entries`, newest first:
the list runs through their slots, each of these slots describes its block, and every other slot
is empty. The reusable slots are exactly the empty ones whose generation is not used up. While a
block is on its way in or out, its slot is set aside: nothing is said about it.

An operation on the registry is described by what it does to `entries` and to the generation of
each slot, its `age`.
-/

namespace MemoryLedger

/-- A live block: its slot, the generation of its handle, the length of its payload and the region
where the payload lies. -/
structure Entry where
  slot : Nat
  generation : UInt32
  length : UInt64
  payload : Nat
  length_le : length ≤ maxWord - descriptorSize

namespace Entry

/-- What the block is charged. -/
def size (e : Entry) : UInt64 := e.length + descriptorSize

lemma toNat_size (e : Entry) : e.size.toNat = e.length.toNat + 56 := by
  have h : e.length.toNat ≤ 2 ^ 64 - 1 - 56 := UInt64.le_iff_toNat_le.mp e.length_le
  rw [size, UInt64.toNat_add, toNat_descriptorSize]
  omega

/-- The handle under which a context gives the block out. -/
def handle (e : Entry) (context : UInt32) : Block := .ofSlot context e.slot e.generation

/-- The descriptor of the block, but for its links. -/
def descriptor (e : Entry) : Descriptor :=
  { tag := liveTag, generation := e.generation, size := e.size, payload := some e.payload }

section

variable {e : Entry} {d : Descriptor}

lemma tag_of_bare (h : d.bare = e.descriptor) : d.tag = liveTag := congrArg Descriptor.tag h

lemma generation_of_bare (h : d.bare = e.descriptor) : d.generation = e.generation :=
  congrArg Descriptor.generation h

lemma size_of_bare (h : d.bare = e.descriptor) : d.size = e.size := congrArg Descriptor.size h

lemma payload_of_bare (h : d.bare = e.descriptor) : d.payload = some e.payload :=
  congrArg Descriptor.payload h

end

end Entry

namespace Registry

/-- The generation of a slot; a slot that does not exist yet has generation zero. -/
def age (r : Registry) (slot : Nat) : Nat := (r.body slot).elim 0 fun d => d.generation.toNat

lemma age_of_getElem? {r : Registry} {slot : Nat} {d : Descriptor} (h : r.slots[slot]? = some d) :
    r.age slot = d.generation.toNat := by
  simp [age, body, h, Descriptor.bare]

lemma age_eq_of_body {r r' : Registry} (h : r'.body = r.body) : r'.age = r.age := by
  funext s
  rw [age, age, h]

/-- The live blocks are `entries`, newest first; the slot `aside`, if any, is left aside. -/
structure Holds (r : Registry) (entries : List Entry) (aside : Option Nat := none) : Prop where
  threads : r.Threads (entries.map Entry.slot)
  described : ∀ {e}, e ∈ entries → r.body e.slot = some e.descriptor
  empty : ∀ {slot d}, r.slots[slot]? = some d → slot ∉ entries.map Entry.slot →
    aside ≠ some slot → d = { generation := d.generation }
  vacant_nodup : r.vacant.Nodup
  mem_vacant : ∀ {slot}, slot ∈ r.vacant ↔
    aside ≠ some slot ∧ ∃ d, r.body slot = some d ∧ ¬ d.IsLive ∧ d.generation < maxGeneration

section

variable {r r' : Registry} {entries : List Entry} {aside aside' : Option Nat} {slot : Nat}

/-! ### A change of one slot off the list -/

lemma Threads.of_eq_on {path : List Nat} (h : r.Threads path) (hhead : r'.head = r.head)
    (hslots : ∀ s ∈ path, r'.slots[s]? = r.slots[s]?) : r'.Threads path where
  head := hhead.trans h.head
  nodup := h.nodup
  links := by
    intro before slot after hpath
    rw [hslots slot (by simp [hpath])]
    exact h.links before slot after hpath

lemma body_eq_of_getElem? {s : Nat} (h : r'.slots[s]? = r.slots[s]?) : r'.body s = r.body s := by
  rw [body, body, h]

/-- A change of one slot off the list and of the stack of reusable slots. -/
lemma Holds.change (h : r.Holds entries aside) (hslot : slot ∉ entries.map Entry.slot)
    (haside : aside ≠ none → aside = some slot) (hhead : r'.head = r.head)
    (hother : ∀ s ≠ slot, r'.slots[s]? = r.slots[s]?)
    (hself : aside' ≠ some slot →
      ∀ d, r'.slots[slot]? = some d → d = { generation := d.generation })
    (hnodup : r'.vacant.Nodup)
    (hvacant : ∀ {s}, s ∈ r'.vacant ↔
      aside' ≠ some s ∧ ∃ d, r'.body s = some d ∧ ¬ d.IsLive ∧ d.generation < maxGeneration) :
    r'.Holds entries aside' where
  threads := h.threads.of_eq_on hhead fun s hs => hother s (by rintro rfl; exact hslot hs)
  described := by
    intro e he
    have hne : e.slot ≠ slot := by
      rintro rfl
      exact hslot (List.mem_map_of_mem he)
    rw [body_eq_of_getElem? (hother _ hne), h.described he]
  empty := by
    intro s d hd hs hs'
    by_cases hne : s = slot
    · subst hne
      exact hself hs' d hd
    · refine h.empty (hother s hne ▸ hd) hs fun has => hne ?_
      simpa [has] using haside (by simp [has])
  vacant_nodup := hnodup
  mem_vacant := hvacant

/-! ### Facts about the slots of blocks -/

lemma Holds.getElem?_of_mem (h : r.Holds entries aside) {e : Entry} (he : e ∈ entries) :
    ∃ d, r.slots[e.slot]? = some d ∧ d.bare = e.descriptor := by
  simpa [body, Option.map_eq_some_iff] using h.described he

lemma Holds.age_of_mem (h : r.Holds entries aside) {e : Entry} (he : e ∈ entries) :
    r.age e.slot = e.generation.toNat := by
  rw [age, h.described he]
  rfl

lemma Holds.slot_lt (h : r.Holds entries aside) {e : Entry} (he : e ∈ entries) :
    e.slot < r.slots.size :=
  h.threads.lt_size (List.mem_map_of_mem he)

lemma Holds.eq_of_slot_eq (h : r.Holds entries aside) {e₁ e₂ : Entry} (h₁ : e₁ ∈ entries)
    (h₂ : e₂ ∈ entries) (hslot : e₁.slot = e₂.slot) : e₁ = e₂ :=
  List.inj_on_of_nodup_map h.threads.nodup h₁ h₂ hslot

/-- The slots of the blocks are the live ones. -/
lemma Holds.mem_slots_iff (h : r.Holds entries) :
    slot ∈ entries.map Entry.slot ↔ ∃ d, r.slots[slot]? = some d ∧ d.IsLive := by
  constructor
  · intro hmem
    obtain ⟨e, he, rfl⟩ := List.mem_map.mp hmem
    obtain ⟨d, hd, hbare⟩ := h.getElem?_of_mem he
    exact ⟨d, hd, Entry.tag_of_bare hbare⟩
  · rintro ⟨d, hd, hlive⟩
    by_contra hmem
    rw [h.empty hd hmem (by simp)] at hlive
    exact absurd hlive (by decide : (0 : UInt32) ≠ liveTag)

/-- The reusable slots are those that neither hold a block nor are exhausted. -/
lemma Holds.mem_vacant_iff (h : r.Holds entries) : slot ∈ r.vacant ↔
    ∃ d, r.slots[slot]? = some d ∧ ¬ d.IsLive ∧ d.generation < maxGeneration := by
  rw [h.mem_vacant, body]
  constructor
  · rintro ⟨-, d, hd, hlive, hgen⟩
    obtain ⟨d', hd', rfl⟩ := Option.map_eq_some_iff.mp hd
    exact ⟨d', hd', hlive, hgen⟩
  · rintro ⟨d, hd, hlive, hgen⟩
    exact ⟨by simp, d.bare, by rw [hd, Option.map_some], hlive, hgen⟩

lemma Holds.exists_entry_of_live (h : r.Holds entries) {d : Descriptor}
    (hd : r.slots[slot]? = some d) (hlive : d.IsLive) :
    ∃ e ∈ entries, e.slot = slot ∧ d.bare = e.descriptor := by
  obtain ⟨e, he, rfl⟩ := List.mem_map.mp (h.mem_slots_iff.mpr ⟨d, hd, hlive⟩)
  obtain ⟨d', hd', hbare⟩ := h.getElem?_of_mem he
  cases hd.symm.trans hd'
  exact ⟨e, he, rfl, hbare⟩

lemma Holds.slot_notMem {before after : List Entry} {e : Entry}
    (h : r.Holds (before ++ e :: after) aside) : e.slot ∉ (before ++ after).map Entry.slot := by
  have hnodup := h.threads.nodup
  rw [List.map_append, List.map_cons] at hnodup
  rw [List.map_append]
  exact (List.nodup_cons.mp (List.nodup_middle.mp hnodup)).1

end

end Registry

end MemoryLedger
