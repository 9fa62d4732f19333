import Mathlib.Data.List.Induction
import Mathlib.Data.Prod.Basic
import MemoryLedger.Proofs.Registry.Entry

/-!
# Walking the list of a registry

`Registry.Leads` says what following `next` meets before it ends, which is also what a walk gives
as soon as it has the room. `Registry.Chains` says moreover that the slots on the way are live and
that each points back to the one before. This alone keeps a way from meeting a slot twice, for then
the slot before it would be met twice as well, and so on back to the head, before which there is
none. A registry that `Holds` its blocks chains from its head through all of them, newest first.
-/

namespace MemoryLedger

namespace Registry

variable {r : Registry} {entries : List Entry} {aside cursor prev : Option Nat} {slot : Nat}
  {d : Descriptor} {path : List Nat} {visited visited' seen rest : List (Nat × Descriptor)}

/-! ### Following the links -/

/-- Following `next` from `cursor` meets the slots of `visited`, with these descriptors, and then
ends. -/
inductive Leads (r : Registry) : Option Nat → List (Nat × Descriptor) → Prop where
  | done : Leads r none []
  | step {slot : Nat} {d : Descriptor} {visited : List (Nat × Descriptor)}
      (hd : r.slots[slot]? = some d) (hrest : Leads r d.next visited) :
      Leads r (some slot) ((slot, d) :: visited)

lemma Leads.getElem?_of_mem (h : r.Leads cursor visited) {slot : Nat} {d : Descriptor}
    (hmem : (slot, d) ∈ visited) : r.slots[slot]? = some d := by
  induction h with
  | done => cases hmem
  | step hd _ ih =>
    rcases List.mem_cons.mp hmem with heq | hmem
    · cases heq
      exact hd
    · exact ih hmem

/-- From a cursor the links lead one way only. -/
lemma Leads.unique (h : r.Leads cursor visited) (h' : r.Leads cursor visited') :
    visited' = visited := by
  induction h generalizing visited' with
  | done =>
    cases h'
    rfl
  | step hd _ ih =>
    cases h' with
    | step hd' hrest' =>
      cases hd.symm.trans hd'
      rw [ih hrest']

lemma Leads.cursor_eq (h : r.Leads cursor visited) : cursor = (visited.map Prod.fst).head? := by
  cases h <;> rfl

/-- The link ahead of a slot on the way is the slot that is met next. -/
lemma Leads.next_eq (h : r.Leads cursor (seen ++ (slot, d) :: rest)) :
    d.next = (rest.map Prod.fst).head? := by
  induction seen generalizing cursor with
  | nil =>
    cases h with
    | step _ hrest => exact hrest.cursor_eq
  | cons v seen ih =>
    cases h with
    | step _ hrest => exact ih hrest

/-- A walk follows the links as far as there is room. -/
lemma Leads.walk_take (h : r.Leads cursor visited) (room : Nat) :
    r.walk room cursor = .ok (visited.take room) := by
  induction h generalizing room with
  | done => cases room <;> rfl
  | step hd _ ih =>
    cases room with
    | zero => rfl
    | succ room => rw [Registry.walk, get_of_getElem? hd, ok_bind, ih, ok_bind, List.take_succ_cons]

/-- A walk ends where the links end, whatever room there is beyond. -/
theorem Leads.walk (h : r.Leads cursor visited) {room : Nat} (hroom : visited.length ≤ room) :
    r.walk room cursor = .ok visited := by
  rw [h.walk_take, List.take_of_length_le hroom]

/-! ### Ways that point back -/

/-- Following `next` from `cursor` meets `visited` and then ends; these slots are live, and each
points back to the one before, the first of them to `prev`. -/
inductive Chains (r : Registry) : Option Nat → Option Nat → List (Nat × Descriptor) → Prop where
  | done {prev : Option Nat} : Chains r prev none []
  | step {prev : Option Nat} {slot : Nat} {d : Descriptor} {visited : List (Nat × Descriptor)}
      (hd : r.slots[slot]? = some d) (hlive : d.IsLive) (hprev : d.prev = prev)
      (hrest : Chains r (some slot) d.next visited) :
      Chains r prev (some slot) ((slot, d) :: visited)

lemma Chains.leads (h : r.Chains prev cursor visited) : r.Leads cursor visited := by
  induction h with
  | done => exact .done
  | step hd _ _ _ ih => exact .step hd ih

lemma Chains.live (h : r.Chains prev cursor visited) : ∀ v ∈ visited, v.2.IsLive := by
  induction h with
  | done => simp
  | step _ hlive _ _ ih => exact List.forall_mem_cons.mpr ⟨hlive, ih⟩

/-- The last slot before a later one, as seen from one slot further ahead. -/
lemma getLast?_or_cons (before : List Nat) (slot : Nat) (prev : Option Nat) :
    (slot :: before).getLast?.or prev = before.getLast?.or (some slot) := by
  rw [List.getLast?_cons]
  cases before.getLast? <;> rfl

lemma Chains.prev_eq (h : r.Chains prev cursor visited) {before after : List (Nat × Descriptor)}
    {slot : Nat} {d : Descriptor} (hvisited : visited = before ++ (slot, d) :: after) :
    d.prev = (before.map Prod.fst).getLast?.or prev := by
  induction h generalizing before with
  | done => simp at hvisited
  | step _ _ hprev _ ih =>
    cases before with
    | nil =>
      cases hvisited
      exact hprev
    | cons v before =>
      obtain ⟨rfl, hrest⟩ := List.cons.inj hvisited
      rw [ih hrest, List.map_cons, getLast?_or_cons]

/-- A way chains if its slots are live and point back. -/
lemma Leads.chains (h : r.Leads cursor visited) (hlive : ∀ v ∈ visited, v.2.IsLive)
    (hprev : ∀ before slot d after, visited = before ++ (slot, d) :: after →
      d.prev = (before.map Prod.fst).getLast?.or prev) : r.Chains prev cursor visited := by
  induction h generalizing prev with
  | done => exact .done
  | @step slot d visited hd _ ih =>
    refine .step hd (hlive _ List.mem_cons_self) (hprev [] slot d visited rfl) (ih ?_ ?_)
    · intro v hv
      exact hlive v (List.mem_cons_of_mem _ hv)
    · intro before slot' d' after hvisited
      rw [hprev ((slot, d) :: before) slot' d' after (by rw [hvisited, List.cons_append]),
        List.map_cons, getLast?_or_cons]

/-- The first slot that is met again would have the slot before it met again already. -/
lemma Chains.notMem_before (h : r.Chains none cursor visited)
    {before after : List (Nat × Descriptor)} {slot : Nat} {d : Descriptor}
    (hvisited : visited = before ++ (slot, d) :: after) (hnodup : (before.map Prod.fst).Nodup) :
    slot ∉ before.map Prod.fst := by
  intro hmem
  obtain ⟨⟨slot, d'⟩, hv, rfl⟩ := List.mem_map.mp hmem
  obtain ⟨front, back, rfl⟩ := List.append_of_mem hv
  have hd : r.slots[slot]? = some d := h.leads.getElem?_of_mem (by simp [hvisited])
  have hd' : r.slots[slot]? = some d' := h.leads.getElem?_of_mem (by simp [hvisited])
  cases hd.symm.trans hd'
  have hthen := h.prev_eq (hvisited.trans (List.append_assoc _ _ _))
  have hnow := h.prev_eq hvisited
  obtain ⟨last, hlast⟩ : ∃ last, (((slot, d) :: back).map Prod.fst).getLast? = some last :=
    ⟨_, List.getLast?_cons⟩
  rw [Option.or_none] at hthen hnow
  rw [List.map_append, List.getLast?_append, hlast, Option.some_or, hthen] at hnow
  rw [List.map_append] at hnodup
  exact (List.nodup_append.mp hnodup).2.2 _ (List.mem_of_getLast? hnow) _
    (List.mem_of_getLast? hlast) rfl

/-- A way that starts where nothing is before it meets no slot twice. -/
theorem Chains.nodup (h : r.Chains none cursor visited) : (visited.map Prod.fst).Nodup := by
  suffices hpart : ∀ before after, visited = before ++ after → (before.map Prod.fst).Nodup from
    hpart visited [] (List.append_nil visited).symm
  intro before
  induction before using List.reverseRecOn with
  | nil =>
    intro _ _
    exact List.nodup_nil
  | append_singleton before v ih =>
    intro after hvisited
    rw [List.append_assoc, List.singleton_append] at hvisited
    rw [List.map_append, List.map_singleton, ← List.concat_eq_append]
    exact (ih _ hvisited).concat (h.notMem_before hvisited (ih _ hvisited))

/-! ### Ways along a path -/

/-- A list that chains from the head runs through the slots that it meets. -/
lemma Chains.threads (h : r.Chains none r.head visited) : r.Threads (visited.map Prod.fst) where
  head := h.leads.cursor_eq
  nodup := h.nodup
  links := by
    intro before slot after hpath
    obtain ⟨seen, rest, rfl, rfl, hrest⟩ := List.map_eq_append_iff.mp hpath
    obtain ⟨⟨slot, d⟩, rest, rfl, rfl, rfl⟩ := List.map_eq_cons_iff.mp hrest
    refine ⟨d, h.leads.getElem?_of_mem (by simp), ?_, h.leads.next_eq⟩
    rw [h.prev_eq rfl, Option.or_none]

lemma Threads.leads_from (h : r.Threads path) (before after : List Nat)
    (hpath : path = before ++ after) :
    ∃ visited, visited.map Prod.fst = after ∧ r.Leads after.head? visited := by
  induction after generalizing before with
  | nil => exact ⟨[], rfl, .done⟩
  | cons slot after ih =>
    obtain ⟨d, hd, -, hnext⟩ := h.links before slot after hpath
    obtain ⟨visited, rfl, hleads⟩ := ih (before ++ [slot]) (by simp [hpath])
    rw [← hnext] at hleads
    exact ⟨(slot, d) :: visited, rfl, .step hd hleads⟩

/-- Following the links from the head meets the slots through which the list runs. -/
theorem Threads.leads (h : r.Threads path) :
    ∃ visited, visited.map Prod.fst = path ∧ r.Leads r.head visited := by
  rw [h.head]
  exact h.leads_from [] path rfl

/-- A list that runs through live slots chains from the head through all of them. -/
theorem Threads.chains (h : r.Threads path)
    (hlive : ∀ s ∈ path, ∀ d, r.slots[s]? = some d → d.IsLive) :
    ∃ visited, visited.map Prod.fst = path ∧ r.Chains none r.head visited := by
  obtain ⟨visited, rfl, hleads⟩ := h.leads
  refine ⟨visited, rfl, hleads.chains (fun v hv => ?_) fun before slot d after hvisited => ?_⟩
  · exact hlive v.1 (List.mem_map_of_mem hv) v.2 (hleads.getElem?_of_mem hv)
  · have hd : r.slots[slot]? = some d := hleads.getElem?_of_mem (by simp [hvisited])
    obtain ⟨d', hd', hprev, -⟩ := h.links (before.map Prod.fst) slot (after.map Prod.fst)
      (by simp [hvisited])
    cases hd.symm.trans hd'
    rw [hprev, Option.or_none]

/-- What is met, but for its links, is what the table is known to hold in these slots. -/
lemma Leads.map_bare_eq {α : Type} {xs : List α} {place : α → Nat} {content : α → Descriptor}
    (h : r.Leads cursor visited) (hslots : visited.map Prod.fst = xs.map place)
    (hbody : ∀ x ∈ xs, r.body (place x) = some (content x)) :
    visited.map (fun v => (v.1, v.2.bare)) = xs.map fun x => (place x, content x) := by
  have hmap : Function.Injective (Prod.map id some : Nat × Descriptor → Nat × Option Descriptor) :=
    Function.injective_id.prodMap fun _ _ => Option.some.inj
  apply List.map_injective_iff.mpr hmap
  rw [List.map_map, List.map_map]
  calc visited.map (fun v => (v.1, some v.2.bare))
    _ = (visited.map Prod.fst).map fun s => (s, r.body s) := by
        rw [List.map_map]
        refine List.map_congr_left fun v hv => ?_
        rw [Function.comp_apply, body, h.getElem?_of_mem hv, Option.map_some]
    _ = xs.map fun x => (place x, some (content x)) := by
        rw [hslots, List.map_map]
        refine List.map_congr_left fun x hx => ?_
        rw [Function.comp_apply, hbody x hx]

/-! ### The list of a registry that holds its blocks -/

/-- Each block's descriptor, with the neighbours of the block as links. -/
lemma Holds.links_of_append (h : r.Holds entries aside) {before after : List Entry} {e : Entry}
    (hentries : entries = before ++ e :: after) :
    ∃ d, r.slots[e.slot]? = some d ∧ d.bare = e.descriptor ∧
      d.prev = (before.map Entry.slot).getLast? ∧ d.next = (after.map Entry.slot).head? := by
  obtain ⟨d, hd, hbare⟩ := h.getElem?_of_mem (e := e) (by simp [hentries])
  obtain ⟨d', hd', hprev, hnext⟩ := h.threads.links (before.map Entry.slot) e.slot
    (after.map Entry.slot) (by simp [hentries])
  cases hd.symm.trans hd'
  exact ⟨d, hd, hbare, hprev, hnext⟩

/-- The blocks and the generations of the slots determine the table, with all links in it. -/
theorem Holds.slots_eq {r' : Registry} (h : r.Holds entries) (h' : r'.Holds entries)
    (hsize : r'.slots.size = r.slots.size) (hage : r'.age = r.age) : r'.slots = r.slots := by
  refine Array.ext hsize fun slot hlt' hlt => ?_
  have hd : r.slots[slot]? = some r.slots[slot] := Array.getElem?_eq_getElem hlt
  have hd' : r'.slots[slot]? = some r'.slots[slot] := Array.getElem?_eq_getElem hlt'
  by_cases hmem : slot ∈ entries.map Entry.slot
  · -- a block has the same neighbours in both
    obtain ⟨e, he, rfl⟩ := List.mem_map.mp hmem
    obtain ⟨before, after, hentries⟩ := List.append_of_mem he
    obtain ⟨d, hslot, hbare, hprev, hnext⟩ := h.links_of_append hentries
    obtain ⟨d', hslot', hbare', hprev', hnext'⟩ := h'.links_of_append hentries
    cases hd.symm.trans hslot
    cases hd'.symm.trans hslot'
    exact Descriptor.eq_of_bare_eq (hbare'.trans hbare.symm) (hprev'.trans hprev.symm)
      (hnext'.trans hnext.symm)
  · have hgen : r'.slots[slot].generation = r.slots[slot].generation := by
      rw [← UInt32.toNat_inj, ← age_of_getElem? hd', hage, age_of_getElem? hd]
    rw [h.empty hd hmem (by simp), h'.empty hd' hmem (by simp), hgen]

/-- The table determines the reusable slots, but for their order. -/
theorem Holds.vacant_perm {r' : Registry} {entries' : List Entry} (h : r.Holds entries)
    (h' : r'.Holds entries') (hslots : r'.slots = r.slots) : r'.vacant.Perm r.vacant := by
  refine (List.perm_ext_iff_of_nodup h'.vacant_nodup h.vacant_nodup).mpr fun slot => ?_
  rw [h'.mem_vacant_iff, h.mem_vacant_iff, hslots]

/-- What is met are the slots of the blocks with their descriptors. -/
def Meets (visited : List (Nat × Descriptor)) (entries : List Entry) : Prop :=
  visited.map (fun v => (v.1, v.2.bare)) = entries.map fun e => (e.slot, e.descriptor)

lemma Meets.slots (h : Meets visited entries) : visited.map Prod.fst = entries.map Entry.slot := by
  have := congrArg (List.map Prod.fst) h
  rwa [List.map_map, List.map_map] at this

lemma Meets.length_eq (h : Meets visited entries) : visited.length = entries.length := by
  simpa using congrArg List.length h.slots

lemma Meets.sizes (h : Meets visited entries) :
    visited.map (fun v => v.2.size) = entries.map Entry.size := by
  have := congrArg (List.map fun v : Nat × Descriptor => v.2.size) h
  rwa [List.map_map, List.map_map] at this

lemma Meets.payloads (h : Meets visited entries) :
    visited.map (fun v => v.2.payload) = (entries.map Entry.payload).map some := by
  have := congrArg (List.map fun v : Nat × Descriptor => v.2.payload) h
  rw [List.map_map, List.map_map] at this
  rw [List.map_map]
  exact this

lemma Meets.exists_entry (h : Meets visited entries) {slot : Nat} {d : Descriptor}
    (hmem : (slot, d) ∈ visited) : ∃ e ∈ entries, e.slot = slot ∧ d.bare = e.descriptor := by
  have hmem' : (slot, d.bare) ∈ entries.map fun e => (e.slot, e.descriptor) :=
    h ▸ List.mem_map_of_mem hmem
  obtain ⟨e, he, heq⟩ := List.mem_map.mp hmem'
  exact ⟨e, he, congrArg Prod.fst heq, (congrArg Prod.snd heq).symm⟩

/-- The links lead from the head through all blocks and point back. -/
theorem Holds.chains (h : r.Holds entries aside) :
    ∃ visited, Meets visited entries ∧ r.Chains none r.head visited := by
  have hlive : ∀ s ∈ entries.map Entry.slot, ∀ d, r.slots[s]? = some d → d.IsLive := by
    intro s hs d hd
    obtain ⟨e, he, rfl⟩ := List.mem_map.mp hs
    obtain ⟨d', hd', hbare⟩ := h.getElem?_of_mem he
    cases hd.symm.trans hd'
    exact Entry.tag_of_bare hbare
  obtain ⟨visited, hslots, hchains⟩ := h.threads.chains hlive
  exact ⟨visited, hchains.leads.map_bare_eq hslots fun e he => h.described he, hchains⟩

theorem Holds.leads (h : r.Holds entries aside) :
    ∃ visited, Meets visited entries ∧ r.Leads r.head visited := by
  obtain ⟨visited, hmeets, hchains⟩ := h.chains
  exact ⟨visited, hmeets, hchains.leads⟩

end Registry

end MemoryLedger
