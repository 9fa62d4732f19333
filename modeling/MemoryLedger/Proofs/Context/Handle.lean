import MemoryLedger.Context.Basic
import MemoryLedger.Proofs.Registry.Walk

/-!
# Handles and the blocks they name

A context accepts a handle exactly if it names one of the blocks that its registry holds, and the
listing shows each of them under its handle. As long as slot numbers fit the 32 bits that a handle
has for them, a handle that names a block is the one handle of this block.
-/

namespace MemoryLedger

/-- The rejection of a handle that names no block. -/
def Rejection.stale (func : String) (block : Block) : Rejection :=
  ⟨.invalidPointer func, [.invalidPointer func block]⟩

namespace Context

variable {c : Context} {entries : List Entry} {e : Entry} {block : Block}

/-- The handle gives the context, the slot and the generation of the block `e`. -/
structure Names (c : Context) (block : Block) (e : Entry) : Prop where
  context : block.context = c.id
  slot : block.slot.toNat = e.slot
  generation : block.generation = e.generation

/-! ### Which handles are accepted -/

lemma locate_of_names (h : c.registry.Holds entries) (he : e ∈ entries) (hn : c.Names block e)
    (func : String) : ∃ d, c.locate func block = .ok (e.slot, d) ∧ d.bare = e.descriptor := by
  obtain ⟨d, hd, hbare⟩ := h.getElem?_of_mem he
  have hlive : d.tag = liveTag := Entry.tag_of_bare hbare
  have hgen : d.generation = e.generation := Entry.generation_of_bare hbare
  refine ⟨d, ?_, hbare⟩
  simp only [locate, hn.slot, hd]
  rw [if_pos ⟨hn.context, hlive, hgen.trans hn.generation.symm⟩]

lemma locate_of_forall_not_names (h : c.registry.Holds entries)
    (hn : ∀ e ∈ entries, ¬ c.Names block e) (func : String) :
    c.locate func block = .error (.stale func block) := by
  simp only [locate]
  cases hd : c.registry.slots[block.slot.toNat]? with
  | none => rfl
  | some d =>
    apply if_neg
    rintro ⟨hcontext, hlive, hgen⟩
    obtain ⟨e, he, hslot, hbare⟩ := h.exists_entry_of_live hd hlive
    exact hn e he ⟨hcontext, hslot.symm, hgen.symm.trans (Entry.generation_of_bare hbare)⟩

/-- A handle is accepted if and only if it names a block. -/
theorem locate_isOk_iff (h : c.registry.Holds entries) (func : String) :
    (∃ found, c.locate func block = .ok found) ↔ ∃ e ∈ entries, c.Names block e := by
  constructor
  · rintro ⟨found, hfound⟩
    by_contra hn
    rw [locate_of_forall_not_names h (fun e he hne => hn ⟨e, he, hne⟩)] at hfound
    cases hfound
  · rintro ⟨e, he, hn⟩
    obtain ⟨d, hd, -⟩ := locate_of_names h he hn func
    exact ⟨_, hd⟩

/-! ### Handles with room for every slot number -/

/-- The handle of a block names it if and only if its slot number fits the handle. -/
lemma names_handle_iff : c.Names (e.handle c.id) e ↔ e.slot < 2 ^ 32 := by
  have hslot : (e.handle c.id).slot.toNat = e.slot % 2 ^ 32 := UInt32.toNat_ofNat'
  constructor
  · rintro ⟨-, hs, -⟩
    rw [← hs]
    exact UInt32.toNat_lt _
  · intro hlt
    exact ⟨rfl, hslot.trans (Nat.mod_eq_of_lt hlt), rfl⟩

/-- A handle that names a block is the handle of this block. -/
lemma Names.eq_handle (h : c.Names block e) : block = e.handle c.id := by
  obtain ⟨hcontext, hs, hgen⟩ := h
  obtain ⟨context, slot, generation⟩ := block
  have hs' : slot = e.slot.toUInt32 := by
    rw [← hs]
    exact UInt32.ofNat_toNat.symm
  simp only at hcontext hgen
  rw [hcontext, hs', hgen]
  rfl

lemma names_iff_eq_handle (h : c.registry.Holds entries)
    (hsize : c.registry.slots.size ≤ 2 ^ 32) (he : e ∈ entries) :
    c.Names block e ↔ block = e.handle c.id := by
  have hlt : e.slot < 2 ^ 32 := Nat.lt_of_lt_of_le (h.slot_lt he) hsize
  constructor
  · exact Names.eq_handle
  · rintro rfl
    exact names_handle_iff.mpr hlt

lemma eq_of_handle_eq (h : c.registry.Holds entries) (hsize : c.registry.slots.size ≤ 2 ^ 32)
    {e₁ e₂ : Entry} (h₁ : e₁ ∈ entries) (h₂ : e₂ ∈ entries)
    (heq : e₁.handle c.id = e₂.handle c.id) : e₁ = e₂ := by
  have hn₁ : c.Names (e₁.handle c.id) e₁ := (names_iff_eq_handle h hsize h₁).mpr rfl
  have hn₂ : c.Names (e₁.handle c.id) e₂ := (names_iff_eq_handle h hsize h₂).mpr heq
  exact h.eq_of_slot_eq h₁ h₂ (hn₁.slot.symm.trans hn₂.slot)

/-- The other blocks have other handles than `e`. -/
lemma handle_ne_of_append {before after : List Entry} {e' : Entry}
    (h : c.registry.Holds (before ++ e :: after)) (hsize : c.registry.slots.size ≤ 2 ^ 32)
    (he' : e' ∈ before ++ after) : e'.handle c.id ≠ e.handle c.id := by
  intro heq
  have hsame : e' = e :=
    eq_of_handle_eq h hsize (Registry.mem_append_cons_of_mem he') (by simp) heq
  exact h.slot_notMem (List.mem_map_of_mem (hsame ▸ he'))

/-! ### The listing -/

/-- The listing gives `infos` and ends by itself, whatever room there is beyond their number. -/
def Lists (c : Context) (infos : List BlockInfo) : Prop :=
  ∀ room, infos.length ≤ room → c.blocks room = .ok infos

/-- Where the links end, the listing shows what they meet. -/
lemma lists_of_leads {visited : List (Nat × Descriptor)}
    (h : c.registry.Leads c.registry.head visited) :
    c.Lists (visited.map fun v => ⟨.ofSlot c.id v.1 v.2.generation, v.2.size⟩) := by
  intro room hroom
  rw [blocks, h.walk (by simpa using hroom), ok_bind]

/-- The listing shows each block under its handle, with its size. -/
theorem lists_of_holds (h : c.registry.Holds entries) :
    c.Lists (entries.map fun e => ⟨e.handle c.id, e.size⟩) := by
  obtain ⟨visited, hmeets, hleads⟩ := h.leads
  have hmap := congrArg (List.map fun v : Nat × Descriptor =>
    (⟨.ofSlot c.id v.1 v.2.generation, v.2.size⟩ : BlockInfo)) hmeets
  rw [List.map_map, List.map_map] at hmap
  have hlists := lists_of_leads hleads
  exact hmap ▸ hlists

end Context

end MemoryLedger
