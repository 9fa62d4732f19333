import Mathlib.Data.List.Basic
import MemoryLedger.Proofs.Registry.Survey

/-!
# One wrong piece in a list

A list that ends is told twice by its table, by the links ahead and by the links back. Two tables
with the same links ahead have the same list (`Registry.Leads.modify`), and a table in which the
links back and the tags are those of a registry that holds its blocks has no other list of that
length than the one through these blocks (`Registry.Holds.links_of_chains`). So a single wrong piece
always stands against a right one.
-/

namespace MemoryLedger

namespace Registry

variable {r r' : Registry} {entries : List Entry} {cursor : Option Nat} {slot : Nat}
  {d : Descriptor} {f : Descriptor → Descriptor} {path before after : List Nat}
  {visited visited' seen rest : List (Nat × Descriptor)}

/-! ### The links ahead -/

lemma Leads.of_eq_on (h : r.Leads cursor visited)
    (hslots : ∀ s ∈ visited.map Prod.fst, r'.slots[s]? = r.slots[s]?) :
    r'.Leads cursor visited := by
  induction h with
  | done => exact .done
  | step hd _ ih =>
    refine .step ((hslots _ (by simp)).trans hd) (ih fun s hs => hslots s ?_)
    exact List.mem_cons_of_mem _ hs

/-- A slot that changes but for its link ahead is met where it was met before. -/
lemma Leads.modify (h : r.Leads cursor (seen ++ (slot, d) :: rest))
    (hnodup : ((seen ++ (slot, d) :: rest).map Prod.fst).Nodup) (hf : (f d).next = d.next) :
    ({ r with slots := r.slots.modify slot f } : Registry).Leads cursor
      (seen ++ (slot, f d) :: rest) := by
  induction seen generalizing cursor with
  | nil =>
    obtain ⟨hslot, -⟩ := List.nodup_cons.mp hnodup
    cases h with
    | step hd hrest =>
      refine .step ?_ (hf ▸ hrest.of_eq_on fun s hs => ?_)
      · rw [Array.getElem?_modify, if_pos rfl, hd, Option.map_some]
      · rw [Array.getElem?_modify, if_neg]
        rintro rfl
        exact hslot hs
  | cons v seen ih =>
    cases h with
    | step hd hrest =>
      obtain ⟨hv, hnodup⟩ := List.nodup_cons.mp hnodup
      refine .step ?_ (ih hrest hnodup)
      rw [Array.getElem?_modify, if_neg, hd]
      rintro rfl
      exact hv (by simp)

/-! ### The links back -/

/-- On a path without repetitions, the slot that points back to the end of a front part comes
next. -/
lemma Threads.head?_of_prev (h : r.Threads (before ++ after)) (hslot : slot ∈ before ++ after)
    (hd : r.slots[slot]? = some d) (hprev : d.prev = before.getLast?) :
    after.head? = some slot := by
  obtain ⟨front, back, hpath⟩ := List.append_of_mem hslot
  obtain ⟨d', hd', hfront, -⟩ := h.links front slot back hpath
  cases hd.symm.trans hd'
  have hlast : before.getLast? = front.getLast? := hprev.symm.trans hfront
  cases hp : before.getLast? with
  | none =>
    have hbefore : before = [] := List.getLast?_eq_none_iff.mp hp
    have hnil : front = [] := List.getLast?_eq_none_iff.mp (hlast.symm.trans hp)
    rw [hbefore, hnil] at hpath
    rw [show after = slot :: back from hpath, List.head?_cons]
  | some p =>
    obtain ⟨xs, rfl⟩ := List.getLast?_eq_some_iff.mp hp
    obtain ⟨ys, rfl⟩ := List.getLast?_eq_some_iff.mp (hlast.symm.trans hp)
    have hsplit : xs ++ p :: after = ys ++ p :: slot :: back := by simpa using hpath
    have hnodup : (xs ++ p :: after).Nodup := by simpa using h.nodup
    obtain ⟨hnot, -⟩ := List.nodup_cons.mp (List.nodup_middle.mp hnodup)
    rw [List.mem_append, not_or] at hnot
    obtain ⟨-, -, rfl⟩ := (List.append_cons_inj_of_notMem hnot.1 hnot.2).mp hsplit
    exact List.head?_cons

/-- In `r'` the tags and the links back are those of `r`. -/
def SameBack (r r' : Registry) : Prop :=
  ∀ (s : Nat) (d' : Descriptor), r'.slots[s]? = some d' →
    ∃ d, r.slots[s]? = some d ∧ d.tag = d'.tag ∧ d.prev = d'.prev

lemma SameBack.refl (r : Registry) : r.SameBack r := fun _ d hd => ⟨d, hd, rfl, rfl⟩

lemma sameBack_modify (hf : ∀ d, (f d).tag = d.tag ∧ (f d).prev = d.prev) :
    r.SameBack { r with slots := r.slots.modify slot f } := by
  intro s d' hd'
  rw [Array.getElem?_modify] at hd'
  split at hd'
  next =>
    obtain ⟨d, hd, rfl⟩ := Option.map_eq_some_iff.mp hd'
    exact ⟨d, hd, (hf d).1.symm, (hf d).2.symm⟩
  next => exact ⟨d', hd', rfl, rfl⟩

/-- With the links back of a registry that holds its blocks, a way that points back meets the slots
of these blocks, one after the other. -/
lemma Holds.prefix_of_chains (h : r.Holds entries) (hback : r.SameBack r') (before : List Nat)
    (hpath : entries.map Entry.slot = before ++ after)
    (hchains : r'.Chains before.getLast? cursor visited) : visited.map Prod.fst <+: after := by
  generalize hprev : before.getLast? = prev at hchains
  induction hchains generalizing before after with
  | done => exact List.nil_prefix
  | @step prev slot d' visited hd' hlive hprev' _ ih =>
    obtain ⟨d, hd, htag, hprevEq⟩ := hback slot d' hd'
    have hslot : slot ∈ before ++ after :=
      hpath ▸ h.mem_slots_iff.mpr ⟨d, hd, htag.trans hlive⟩
    have hlast : d.prev = before.getLast? := by rw [hprevEq, hprev', hprev]
    have hnext := (hpath ▸ h.threads).head?_of_prev hslot hd hlast
    obtain ⟨after, rfl⟩ := List.head?_eq_some_iff.mp hnext
    rw [List.map_cons, List.cons_prefix_cons]
    exact ⟨rfl, ih (before ++ [slot]) (by simp [hpath]) List.getLast?_concat⟩

/-- The links back and the number of blocks determine the links ahead. -/
theorem Holds.links_of_chains (h : r.Holds entries) (hback : r.SameBack r')
    (hchains : r'.Chains none r'.head visited) (hlength : visited.length = entries.length) :
    r'.head = r.head ∧ ∀ slot d d', slot ∈ entries.map Entry.slot →
      r.slots[slot]? = some d → r'.slots[slot]? = some d' → d'.next = d.next := by
  have hprefix : visited.map Prod.fst <+: entries.map Entry.slot :=
    h.prefix_of_chains hback [] rfl hchains
  have hslots := hprefix.eq_of_length (by simpa using hlength)
  refine ⟨by rw [hchains.leads.cursor_eq, hslots, h.threads.head], ?_⟩
  intro slot d d' hslot hd hd'
  rw [← hslots] at hslot
  obtain ⟨⟨slot, e⟩, hv, rfl⟩ := List.mem_map.mp hslot
  cases hd'.symm.trans (hchains.leads.getElem?_of_mem hv)
  obtain ⟨seen, rest, rfl⟩ := List.append_of_mem hv
  have hpath : entries.map Entry.slot = seen.map Prod.fst ++ slot :: rest.map Prod.fst := by
    rw [← hslots, List.map_append, List.map_cons]
  obtain ⟨e, he, -, hnext⟩ := h.threads.links _ _ _ hpath
  cases hd.symm.trans he
  rw [hchains.leads.next_eq, hnext]

/-! ### Links that stay in the table -/

/-- A change of a slot after which its link ahead stays in the table. -/
lemma Closed.modify (h : r.Closed)
    (hf : ∀ d, r.slots[slot]? = some d → ∀ n, (f d).next = some n → n < r.slots.size) :
    ({ r with slots := r.slots.modify slot f } : Registry).Closed where
  head := by simpa using h.head
  next := by
    intro s d' hd' n hn
    rw [Array.size_modify]
    rw [Array.getElem?_modify] at hd'
    split at hd'
    next heq =>
      subst heq
      obtain ⟨d, hd, rfl⟩ := Option.map_eq_some_iff.mp hd'
      exact hf d hd n hn
    next => exact h.next s d' hd' n hn

end Registry

end MemoryLedger
