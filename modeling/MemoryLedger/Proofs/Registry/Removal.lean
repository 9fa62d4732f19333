import MemoryLedger.Proofs.Registry.Survey

/-!
# Taking a slot off a list

For a slot to be taken off and vacated it is enough that the list chains. Nothing is asked of the
slots off the list, nor of the sizes, generations and payloads in it: the other slots are met as
before, in the same order.
-/

namespace MemoryLedger

namespace Registry

variable {r : Registry} {slot : Nat} {d : Descriptor} {path : List Nat}
  {before after visited : List (Nat × Descriptor)}

/-- Vacating a slot off the list leaves the list alone. -/
lemma Threads.vacate (h : r.Threads path) (hslot : slot ∉ path) (hd : r.slots[slot]? = some d) :
    ∃ r', r.vacate slot = .ok r' ∧ r'.Threads path ∧ ∀ s ∈ path, r'.body s = r.body s := by
  have hlt : slot < r.slots.size := (Array.getElem?_eq_some_iff.mp hd).1
  let cleared : Descriptor → Descriptor := fun e =>
    { e with tag := 0, generation := nextGenerationSaturating d.generation, size := 0,
             payload := none }
  have hother : ∀ s ∈ path, (r.slots.modify slot cleared)[s]? = r.slots[s]? := by
    intro s hs
    rw [Array.getElem?_modify, if_neg]
    rintro rfl
    exact hslot hs
  simp only [Registry.vacate, get_of_getElem? hd, ok_bind, modify_of_lt hlt]
  refine ⟨_, rfl, ?_⟩
  split
  · exact ⟨h.of_eq_on rfl hother, fun s hs => body_eq_of_getElem? (hother s hs)⟩
  · exact ⟨h.of_eq_on rfl hother, fun s hs => body_eq_of_getElem? (hother s hs)⟩

/-- A slot of a list that chains can be taken off and vacated. The list chains through the others
then, which hold what they held but for their links. -/
theorem Chains.remove (h : r.Chains none r.head (before ++ (slot, d) :: after)) :
    ∃ unlinked vacated visited, r.unlink slot = .ok unlinked ∧
      unlinked.slots[slot]? = some d.bare ∧ unlinked.vacate slot = .ok vacated ∧
      vacated.Chains none vacated.head visited ∧
      visited.map (fun v => (v.1, v.2.bare)) =
        (before ++ after).map fun v => (v.1, v.2.bare) := by
  have hthreads := h.threads
  rw [List.map_append, List.map_cons] at hthreads
  have hbody : ∀ v ∈ before ++ (slot, d) :: after, r.body v.1 = some v.2.bare := fun v hv => by
    rw [body, h.leads.getElem?_of_mem hv, Option.map_some]
  obtain ⟨unlinked, hunlink, hpath, hself, hrelinked⟩ := hthreads.unlink
  rw [hbody (slot, d) (by simp)] at hself
  have hslot : slot ∉ before.map Prod.fst ++ after.map Prod.fst := by
    rw [List.mem_append, not_or]
    exact hthreads.notMem
  obtain ⟨vacated, hvacate, hvacated, hkept⟩ := hpath.vacate hslot hself
  rw [← List.map_append] at hvacated hkept
  have hheld : ∀ v ∈ before ++ after, vacated.body v.1 = some v.2.bare := fun v hv => by
    rw [hkept v.1 (List.mem_map_of_mem hv), hrelinked.body]
    exact hbody v (mem_append_cons_of_mem hv)
  have hlive : ∀ s ∈ (before ++ after).map Prod.fst,
      ∀ e, vacated.slots[s]? = some e → e.IsLive := by
    intro s hs e he
    obtain ⟨v, hv, rfl⟩ := List.mem_map.mp hs
    have hbare : some e.bare = some v.2.bare := by
      rw [← hheld v hv, body, he, Option.map_some]
    have htag : e.bare.tag = v.2.bare.tag := congrArg Descriptor.tag (Option.some.inj hbare)
    exact htag.trans (h.live v (mem_append_cons_of_mem hv))
  obtain ⟨visited, hslots, hchains⟩ := hvacated.chains hlive
  exact ⟨unlinked, vacated, visited, hunlink, hself, hvacate, hchains,
    hchains.leads.map_bare_eq hslots hheld⟩

/-! ### What does not depend on the links -/

/-- The payloads that are present on a way. -/
def payloads (visited : List (Nat × Descriptor)) : List Nat :=
  visited.filterMap fun v => v.2.payload

@[simp] lemma payloads_cons (slot : Nat) (d : Descriptor) (visited : List (Nat × Descriptor)) :
    payloads ((slot, d) :: visited) = d.payload.toList ++ payloads visited := by
  cases hpayload : d.payload <;> simp [payloads, hpayload]

variable {visited' : List (Nat × Descriptor)}

lemma length_eq_of_map_bare
    (h : visited'.map (fun v => (v.1, v.2.bare)) = visited.map fun v => (v.1, v.2.bare)) :
    visited'.length = visited.length := by
  have hlengths := congrArg List.length h
  rwa [List.length_map, List.length_map] at hlengths

lemma span_eq_of_map_bare
    (h : visited'.map (fun v => (v.1, v.2.bare)) = visited.map fun v => (v.1, v.2.bare)) :
    span visited' = span visited := by
  have hsizes := congrArg (List.map fun v : Nat × Descriptor => v.2.size.toNat) h
  rw [List.map_map, List.map_map] at hsizes
  exact congrArg List.sum hsizes

lemma payloads_eq_of_map_bare
    (h : visited'.map (fun v => (v.1, v.2.bare)) = visited.map fun v => (v.1, v.2.bare)) :
    payloads visited' = payloads visited := by
  have hpayloads := congrArg payloads h
  rw [payloads, payloads, List.filterMap_map, List.filterMap_map] at hpayloads
  exact hpayloads

end Registry

end MemoryLedger
