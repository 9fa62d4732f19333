import MemoryLedger.Proofs.Context.Run

/-!
# Consistency of a context

`Context.Consistent` says, in terms of the slot table alone, that the list of a context is well
formed, that the slots off the list are cleared and that the counters are exact. A context that is
`Sound` is consistent and passes its audit, and so does every context that is reached by a run.
-/

namespace MemoryLedger

namespace Context

/-- The list of the context meets `visited`, which are its live slots, and the counters agree. -/
structure Consistent (c : Context) (visited : List (Nat × Descriptor)) : Prop where
  leads : c.registry.Leads c.registry.head visited
  nodup : (visited.map Prod.fst).Nodup
  mem_iff : ∀ {slot}, slot ∈ visited.map Prod.fst ↔
    ∃ d, c.registry.slots[slot]? = some d ∧ d.IsLive
  prev : ∀ {before slot d after}, visited = before ++ (slot, d) :: after →
    d.prev = (before.map Prod.fst).getLast?
  payload : ∀ {slot d}, (slot, d) ∈ visited → ∃ payload, d.payload = some payload
  size : ∀ {slot d}, (slot, d) ∈ visited → descriptorSize ≤ d.size
  cleared : ∀ {slot d}, c.registry.slots[slot]? = some d → slot ∉ visited.map Prod.fst →
    d.prev = none ∧ d.next = none ∧ d.size = 0 ∧ d.payload = none
  count : c.usage.count.toNat = visited.length
  total : c.usage.total.toNat = (visited.map fun v => v.2.size.toNat).sum
  count_le : c.usage.count ≤ c.maxBlocks
  countPeak : c.usage.count ≤ c.usage.countPeak
  totalPeak : c.usage.total ≤ c.usage.totalPeak

variable {c : Context} {entries : List Entry} {visited : List (Nat × Descriptor)}

/-! ### Sound contexts -/

lemma Sound.consistent_of_meets (hc : c.Sound entries) (hmeets : Registry.Meets visited entries)
    (hchains : c.registry.Chains none c.registry.head visited) : c.Consistent visited := by
  obtain ⟨hholds, hbalanced, -⟩ := hc
  have hslots : visited.map Prod.fst = entries.map Entry.slot := hmeets.slots
  refine ⟨hchains.leads, hchains.nodup, ?_, ?_, ?_, ?_, ?_, ?_, ?_, ?_, ?_, ?_⟩
  · intro slot
    rw [hslots]
    exact hholds.mem_slots_iff
  · intro before slot d after hvisited
    rw [hchains.prev_eq hvisited, Option.or_none]
  · intro slot d hmem
    obtain ⟨e, -, -, hbare⟩ := hmeets.exists_entry hmem
    exact ⟨e.payload, Entry.payload_of_bare hbare⟩
  · intro slot d hmem
    obtain ⟨e, -, -, hbare⟩ := hmeets.exists_entry hmem
    have hsize : d.size = e.size := Entry.size_of_bare hbare
    rw [hsize, UInt64.le_iff_toNat_le, e.toNat_size]
    exact Nat.le_add_left _ _
  · intro slot d hd hslot
    rw [hholds.empty hd (hslots ▸ hslot) (by simp)]
    exact ⟨rfl, rfl, rfl, rfl⟩
  · rw [hbalanced.count, hmeets.length_eq]
  · exact hbalanced.total.trans hmeets.span_eq.symm
  · rw [UInt64.le_iff_toNat_le, hbalanced.count]
    exact hbalanced.count_le
  · exact UInt64.le_iff_toNat_le.mpr hbalanced.countPeak
  · exact UInt64.le_iff_toNat_le.mpr hbalanced.totalPeak

/-- A sound context is consistent. -/
theorem Sound.consistent (hc : c.Sound entries) : ∃ visited, c.Consistent visited := by
  obtain ⟨visited, hmeets, hchains⟩ := hc.holds.chains
  exact ⟨visited, hc.consistent_of_meets hmeets hchains⟩

/-- A sound context passes its audit. -/
theorem Sound.audit (hc : c.Sound entries) : c.audit = .ok (.ok ()) := by
  obtain ⟨hholds, hbalanced, -⟩ := hc
  have hintact := hholds.survey (hbalanced.total ▸ c.usage.total.toNat_lt)
  have hcounts : entries.length = c.usage.count.toNat ∧
      Registry.bytes entries = c.usage.total.toNat ∧
      c.usage.count ≤ c.usage.countPeak ∧ c.usage.total ≤ c.usage.totalPeak :=
    ⟨hbalanced.count.symm, hbalanced.total.symm,
      UInt64.le_iff_toNat_le.mpr hbalanced.countPeak,
      UInt64.le_iff_toNat_le.mpr hbalanced.totalPeak⟩
  simp only [Context.audit, hintact, ok_bind, if_pos hcounts]

/-! ### Contexts reached by a run -/

/-- No run of a new context ends with a fault, and the context that it reaches is consistent and
passes its audit. -/
theorem run_consistent (hc : c.IsNew) (ops : List (Operation Block)) :
    ∃ last replies, c.run ops = .ok (last, replies) ∧ (∃ visited, last.Consistent visited) ∧
      last.audit = .ok (.ok ()) := by
  obtain ⟨last, replies, entries, hrun, hlast, -⟩ :=
    hc.run (fun _ _ _ => True) trivial (fun _ _ _ => trivial) ops
  exact ⟨last, replies, hrun, hlast.consistent, hlast.audit⟩

/-- Two blocks, of which the first is resized, then freed and then used again. -/
theorem run_consistent_resize_free : ∃ last replies,
    (create 7 .system).run [.malloc 16, .malloc 8, .realloc ⟨7, 0, 1⟩ 4 8, .free ⟨7, 0, 2⟩,
      .free ⟨7, 0, 2⟩] = .ok (last, replies) ∧ (∃ visited, last.Consistent visited) ∧
      last.audit = .ok (.ok ()) :=
  run_consistent (.plain 7 .system) _

end Context

end MemoryLedger
