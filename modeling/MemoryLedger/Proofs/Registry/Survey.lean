import Mathlib.Data.List.Perm.Subperm
import MemoryLedger.Proofs.Registry.Walk

/-!
# Surveying the list of a registry

A survey finds the list intact exactly if it chains, whatever else the slot table holds: a way that
chains meets no slot twice, so the number of slots is room enough for it. As long as no link leads
out of the table, a survey that does not find the list intact still comes to an answer.
-/

namespace MemoryLedger

namespace Registry

variable {r : Registry} {entries : List Entry} {aside cursor prev : Option Nat}
  {visited : List (Nat × Descriptor)} {room count total n t : Nat}

/-- A way that meets no slot twice has no more steps than there are slots. -/
lemma Leads.length_le_size (h : r.Leads cursor visited) (hnodup : (visited.map Prod.fst).Nodup) :
    visited.length ≤ r.slots.size := by
  have hsub : visited.map Prod.fst ⊆ List.range r.slots.size := by
    intro slot hslot
    obtain ⟨v, hv, rfl⟩ := List.mem_map.mp hslot
    exact List.mem_range.mpr (Array.getElem?_eq_some_iff.mp (h.getElem?_of_mem hv)).1
  simpa using (hnodup.subperm hsub).length_le

/-! ### What a survey finds -/

/-- The bytes in the slots of a way. -/
def span (visited : List (Nat × Descriptor)) : Nat := (visited.map fun v => v.2.size.toNat).sum

@[simp] lemma span_cons (slot : Nat) (d : Descriptor) (visited : List (Nat × Descriptor)) :
    span ((slot, d) :: visited) = d.size.toNat + span visited := by
  simp [span]

/-- A slot on a way adds its size to that of the others. -/
lemma span_append_cons (before after : List (Nat × Descriptor)) (slot : Nat) (d : Descriptor) :
    span (before ++ (slot, d) :: after) = span (before ++ after) + d.size.toNat := by
  simp only [span, List.map_append, List.map_cons, List.sum_append, List.sum_cons]
  omega

/-- A survey with room for a way that chains follows it to its end. -/
lemma Chains.surveyFrom (h : r.Chains prev cursor visited) (hroom : visited.length ≤ room)
    (hbytes : total + span visited < 2 ^ 64) :
    r.surveyFrom room cursor prev count total =
      .ok (.intact (count + visited.length) (total + span visited)) := by
  induction h generalizing room count total with
  | done => cases room <;> rfl
  | @step prev slot d visited hd hlive hprev _ ih =>
    obtain ⟨room, rfl⟩ := Nat.exists_eq_add_one_of_ne_zero (Nat.ne_zero_of_lt hroom)
    rw [span_cons] at hbytes
    have hsum : total + d.size.toNat < 0x10000000000000000 := by omega
    have hrest : r.surveyFrom room d.next (some slot) (count + 1) (total + d.size.toNat) =
        .ok (.intact (count + 1 + visited.length) (total + d.size.toNat + span visited)) :=
      ih (Nat.le_of_succ_le_succ hroom) (by omega)
    rw [Registry.surveyFrom, get_of_getElem? hd, ok_bind]
    simp only [if_pos (And.intro hlive hprev), if_pos hsum, hrest, span_cons, List.length_cons]
    congr 2 <;> omega

/-- A survey that comes to an end has followed a way that chains. -/
lemma exists_chains_of_surveyFrom (htotal : total < 2 ^ 64)
    (h : r.surveyFrom room cursor prev count total = .ok (.intact n t)) :
    ∃ visited, r.Chains prev cursor visited ∧ n = count + visited.length ∧
      t = total + span visited ∧ t < 2 ^ 64 := by
  induction room generalizing cursor prev count total with
  | zero =>
    cases cursor with
    | none =>
      cases h
      exact ⟨[], .done, rfl, rfl, htotal⟩
    | some slot =>
      rw [Registry.surveyFrom] at h
      obtain ⟨d, -, h⟩ := bind_eq_ok_iff.mp h
      cases h
  | succ room ih =>
    cases cursor with
    | none =>
      cases h
      exact ⟨[], .done, rfl, rfl, htotal⟩
    | some slot =>
      rw [Registry.surveyFrom] at h
      obtain ⟨d, hd, h⟩ := bind_eq_ok_iff.mp h
      simp only at h
      split at h
      next hlink =>
        split at h
        next hsum =>
          obtain ⟨visited, hchains, rfl, rfl, hbytes⟩ := ih hsum h
          refine ⟨(slot, d) :: visited,
            .step (get_eq_ok_iff.mp hd) hlink.1 hlink.2 hchains, ?_, ?_, hbytes⟩
          · rw [List.length_cons]
            omega
          · rw [span_cons]
            omega
        next => cases h
      next => cases h

/-- A survey finds the list intact if and only if it chains and its bytes can be summed up. -/
theorem survey_eq_intact_iff :
    r.survey = .ok (.intact n t) ↔ ∃ visited, r.Chains none r.head visited ∧
      n = visited.length ∧ t = span visited ∧ t < 2 ^ 64 := by
  rw [survey]
  constructor
  · intro h
    simpa using exists_chains_of_surveyFrom (by decide) h
  · rintro ⟨visited, hchains, rfl, rfl, hbytes⟩
    have hroom := hchains.leads.length_le_size hchains.nodup
    have hsurvey : r.surveyFrom r.slots.size r.head none 0 0 =
        .ok (.intact (0 + visited.length) (0 + span visited)) :=
      hchains.surveyFrom hroom (by omega)
    simpa using hsurvey

/-! ### The list of a registry that holds its blocks -/

/-- The bytes that blocks are charged. -/
def bytes (entries : List Entry) : Nat := (entries.map fun e => e.size.toNat).sum

@[simp] lemma bytes_cons (e : Entry) (entries : List Entry) :
    bytes (e :: entries) = e.size.toNat + bytes entries := by
  simp [bytes]

@[simp] lemma bytes_append (xs ys : List Entry) : bytes (xs ++ ys) = bytes xs + bytes ys := by
  simp [bytes]

lemma Meets.span_eq (h : Meets visited entries) : span visited = bytes entries := by
  have hsizes := congrArg (List.map UInt64.toNat) h.sizes
  rw [List.map_map, List.map_map] at hsizes
  exact congrArg List.sum hsizes

/-- A survey finds the list intact. -/
theorem Holds.survey (h : r.Holds entries aside) (hbytes : bytes entries < 2 ^ 64) :
    r.survey = .ok (.intact entries.length (bytes entries)) := by
  obtain ⟨visited, hmeets, hchains⟩ := h.chains
  rw [survey_eq_intact_iff]
  exact ⟨visited, hchains, hmeets.length_eq.symm, hmeets.span_eq.symm, hbytes⟩

/-! ### Links that stay in the table -/

/-- Neither the head nor any `next` leads out of the slot table. -/
structure Closed (r : Registry) : Prop where
  head : ∀ slot, r.head = some slot → slot < r.slots.size
  next : ∀ (slot : Nat) (d : Descriptor), r.slots[slot]? = some d →
    ∀ n, d.next = some n → n < r.slots.size

lemma Closed.surveyFrom (h : r.Closed)
    (hcursor : ∀ slot, cursor = some slot → slot < r.slots.size) :
    ∃ s, r.surveyFrom room cursor prev count total = .ok s := by
  induction room generalizing cursor prev count total with
  | zero =>
    cases cursor with
    | none => exact ⟨_, rfl⟩
    | some slot =>
      have hd := Array.getElem?_eq_getElem (hcursor slot rfl)
      exact ⟨_, by rw [Registry.surveyFrom, get_of_getElem? hd, ok_bind]⟩
  | succ room ih =>
    cases cursor with
    | none => exact ⟨_, rfl⟩
    | some slot =>
      have hd := Array.getElem?_eq_getElem (hcursor slot rfl)
      rw [Registry.surveyFrom, get_of_getElem? hd, ok_bind]
      simp only
      split
      · split
        · exact ih (h.next slot _ hd)
        · exact ⟨_, rfl⟩
      · exact ⟨_, rfl⟩

/-- A survey whose links stay in the table comes to an answer. -/
theorem Closed.survey (h : r.Closed) : ∃ s, r.survey = .ok s := h.surveyFrom h.head

/-- The links of blocks lead to blocks, and the slots that hold none have no links. -/
lemma Holds.closed (h : r.Holds entries) : r.Closed where
  head := by
    intro slot hslot
    rw [h.threads.head] at hslot
    exact h.threads.lt_size (List.mem_of_head? hslot)
  next := by
    intro slot d hd n hn
    by_cases hslot : slot ∈ entries.map Entry.slot
    · obtain ⟨e, he, rfl⟩ := List.mem_map.mp hslot
      obtain ⟨before, after, rfl⟩ := List.append_of_mem he
      obtain ⟨d', hd', -, -, hnext⟩ := h.links_of_append rfl
      cases hd.symm.trans hd'
      rw [hnext] at hn
      refine h.threads.lt_size ?_
      rw [List.map_append, List.map_cons]
      exact List.mem_append_right _ (List.mem_cons_of_mem _ (List.mem_of_head? hn))
    · rw [h.empty hd hslot (by simp)] at hn
      cases hn

end Registry

end MemoryLedger
