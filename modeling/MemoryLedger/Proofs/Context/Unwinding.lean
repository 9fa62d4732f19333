import MemoryLedger.Context.Close
import MemoryLedger.Proofs.Context.Audit
import MemoryLedger.Proofs.Context.Request
import MemoryLedger.Proofs.Heap
import MemoryLedger.Proofs.Registry.Removal

/-!
# An accepted context can be closed

A context that an audit accepts may be closed, however it came about. Releasing any block on its
list leaves a context that the audit accepts as well, so the list is taken down from the head, one
block after the other, and the counters come to nothing when the list does.
-/

namespace MemoryLedger

namespace Context

variable {c closed : Context} {before after visited : List (Nat × Descriptor)} {slot n : Nat}
  {d : Descriptor} {events : List Event}

/-! ### One release -/

/-- Each slot on the list counts as one block of its size. -/
lemma Accounted.usage_eq (h : c.Accounted (before ++ (slot, d) :: after)) :
    c.usage.count.toNat = (before ++ after).length + 1 ∧
      c.usage.total.toNat = Registry.span (before ++ after) + d.size.toNat := by
  constructor
  · rw [h.count, List.length_append, List.length_append, List.length_cons, Nat.add_assoc]
  · rw [← Registry.span_append_cons before after slot]
    exact h.total

lemma Accounted.exists_credit (h : c.Accounted (before ++ (slot, d) :: after)) :
    ∃ usage, c.usage.credit d.size = .ok usage := by
  obtain ⟨hcount, htotal⟩ := h.usage_eq
  exact Usage.exists_credit (by omega) (by omega)

/-- Without the slot, the counters account for the others. -/
lemma Accounted.of_credit {c' : Context} (h : c.Accounted (before ++ (slot, d) :: after))
    (hu : c.usage.credit d.size = .ok c'.usage)
    (hchains : c'.registry.Chains none c'.registry.head visited)
    (hlength : visited.length = (before ++ after).length)
    (hspan : Registry.span visited = Registry.span (before ++ after)) : c'.Accounted visited := by
  obtain ⟨hcount, hcountPeak, htotal, htotalPeak⟩ := Usage.credit_eq_ok_iff.mp hu
  obtain ⟨hcountOf, htotalOf⟩ := h.usage_eq
  have hcountLe := UInt64.le_iff_toNat_le.mp h.countPeak
  have htotalLe := UInt64.le_iff_toNat_le.mp h.totalPeak
  refine accounted_of_chains hchains (by omega) (by omega) ?_ ?_
  · rw [UInt64.le_iff_toNat_le, hcountPeak]
    omega
  · rw [UInt64.le_iff_toNat_le, htotalPeak]
    omega

/-- A slot on the list of an accepted context can be released. The audit accepts what is left, and
its list is the old one without the slot. -/
lemma Accounted.release (h : c.Accounted (before ++ (slot, d) :: after)) (func : String) :
    ∃ c' visited, c.release func slot =
        .ok (c', .freed func slot d.size c'.usage.count c'.usage.total) ∧
      c'.Accounted visited ∧
      visited.map (fun v => (v.1, v.2.bare)) =
        (before ++ after).map (fun v => (v.1, v.2.bare)) ∧
      c'.heap = d.payload.toList.foldl Heap.release c.heap := by
  obtain ⟨unlinked, vacated, visited, hunlink, hself, hvacate, hchains, hbare⟩ := h.chains.remove
  obtain ⟨usage, hu⟩ := h.exists_credit
  let c' : Context :=
    { c with registry := vacated, usage, heap := d.payload.toList.foldl Heap.release c.heap }
  have hsize : d.bare.size = d.size := rfl
  have hpayload : d.bare.payload = d.payload := rfl
  refine ⟨c', visited, ?_, ?_, hbare, rfl⟩
  · simp only [Context.release, hunlink, Registry.get_of_getElem? hself, hvacate, hsize, hpayload,
      hu, ok_bind]
    cases hp : d.payload with
    | none => simp only [c', hp, Option.toList_none, List.foldl_nil]
    | some payload => simp only [c', hp, Option.toList_some, List.foldl_cons, List.foldl_nil]
  · exact h.of_credit hu hchains (Registry.length_eq_of_map_bare hbare)
      (Registry.span_eq_of_map_bare hbare)

/-! ### All releases -/

/-- Releasing the block at the head of the list again and again comes to an end after `n` times. -/
inductive Unwinds : Context → Nat → Context → List Event → Prop where
  | done {c : Context} (hhead : c.registry.head = none) : Unwinds c 0 c []
  | step {c c' closed : Context} {slot n : Nat} {event : Event} {events : List Event}
      (hhead : c.registry.head = some slot) (hrelease : c.release "drop" slot = .ok (c', event))
      (hrest : Unwinds c' n closed events) : Unwinds c (n + 1) closed (event :: events)

/-- With room for them, these are the releases that take place. -/
lemma Unwinds.releaseAll (h : c.Unwinds n closed events) {room : Nat} (hroom : n ≤ room) :
    c.releaseAll room = .ok (closed, events) := by
  induction h generalizing room with
  | done hhead => cases room <;> simp only [Context.releaseAll, hhead]
  | step hhead hrelease _ ih =>
    obtain ⟨room, rfl⟩ := Nat.exists_eq_add_one_of_ne_zero (Nat.ne_zero_of_lt hroom)
    simp only [Context.releaseAll, hhead, hrelease, ih (Nat.le_of_succ_le_succ hroom), ok_bind]

/-- All blocks of an accepted context are released, and nothing is on the list then. -/
lemma Accounted.unwinds (h : c.Accounted visited) :
    ∃ closed events, c.Unwinds visited.length closed events ∧ closed.Accounted [] ∧
      closed.heap = (Registry.payloads visited).foldl Heap.release c.heap := by
  induction hn : visited.length generalizing c visited with
  | zero =>
    cases List.length_eq_zero_iff.mp hn
    exact ⟨c, [], .done h.leads.cursor_eq, h, rfl⟩
  | succ n ih =>
    obtain ⟨⟨slot, d⟩, rest, rfl⟩ := List.exists_cons_of_length_eq_add_one hn
    have hfirst : c.Accounted ([] ++ (slot, d) :: rest) := h
    obtain ⟨c', visited', hrelease, h', hbare, hheap⟩ := hfirst.release "drop"
    have hlength : visited'.length = n :=
      (Registry.length_eq_of_map_bare hbare).trans (Nat.succ.inj hn)
    obtain ⟨closed, events, hrest, hclosed, hall⟩ := ih h' hlength
    refine ⟨closed, _, .step h.leads.cursor_eq hrelease hrest, hclosed, ?_⟩
    rw [hall, hheap, Registry.payloads_eq_of_map_bare hbare, Registry.payloads_cons,
      List.foldl_append, List.nil_append]

/-- An accepted context may be closed, whatever state it is in. Any block on its list can be
released, after which the context is accepted again and its list is the old one without the block.
Releasing them all takes as many releases as the counter says, in which each payload on the list is
passed to the heap once, in the order of the list; the list is empty then and the counters are
zero. -/
theorem audit_unwinds (h : c.audit = .ok (.ok ())) :
    ∃ visited, c.registry.Leads c.registry.head visited ∧
      (∀ func before slot d after, visited = before ++ (slot, d) :: after →
        ∃ c' event visited', c.release func slot = .ok (c', event) ∧ c'.audit = .ok (.ok ()) ∧
          c'.registry.Leads c'.registry.head visited' ∧
          visited'.map (fun v => (v.1, v.2.bare)) =
            (before ++ after).map fun v => (v.1, v.2.bare)) ∧
      ∃ closed events, c.Unwinds c.usage.count.toNat closed events ∧
        (∀ room, c.usage.count.toNat ≤ room → c.releaseAll room = .ok (closed, events)) ∧
        c.close = .ok (closed,
          (if 0 < c.usage.count then [.stillAllocated c.usage.count c.usage.total] else []) ++
            events) ∧
        closed.heap.calls.toList = c.heap.calls.toList ++ (Registry.payloads visited).map .release ∧
        closed.registry.head = none ∧ closed.usage.count = 0 ∧ closed.usage.total = 0 := by
  obtain ⟨visited, hvisited⟩ := audit_eq_ok_iff.mp h
  obtain ⟨closed, events, hunwinds, hclosed, hheap⟩ := hvisited.unwinds
  rw [← hvisited.count] at hunwinds
  refine ⟨visited, hvisited.leads, ?_, closed, events, hunwinds, ?_, ?_, ?_, ?_, ?_, ?_⟩
  · rintro func before slot d after rfl
    obtain ⟨c', visited', hrelease, h', hbare, -⟩ := hvisited.release func
    exact ⟨c', _, visited', hrelease, audit_eq_ok_iff.mpr ⟨visited', h'⟩, h'.leads, hbare⟩
  · exact fun room hroom => hunwinds.releaseAll hroom
  · rw [Context.close, hunwinds.releaseAll le_rfl, ok_bind]
  · rw [hheap, Heap.calls_releaseAll]
  · exact hclosed.leads.cursor_eq
  · exact UInt64.toNat_inj.mp hclosed.count
  · exact UInt64.toNat_inj.mp hclosed.total

/-- A context that no operations lead to. Of the two blocks on its list, the older has no payload,
fewer bytes than a descriptor and the last of all generations; a third slot is live as well, but on
no list and vacant. -/
def forged : Context :=
  { create 7 .system with
    registry :=
      { slots :=
          #[{ tag := liveTag, generation := maxGeneration, size := 5, prev := some 2 },
            { tag := liveTag, generation := 3, size := 60, prev := some 0, next := some 1,
              payload := some 9 },
            { tag := liveTag, generation := 0, size := 70, next := some 0, payload := some 4 }]
        vacant := [1, 1]
        head := some 2 }
    usage := { count := 2, countPeak := 2, total := 75, totalPeak := 75 } }

theorem audit_unwinds_forged : forged.audit = .ok (.ok ()) ∧
    ∃ closed events, forged.Unwinds 2 closed events ∧
      closed.heap.calls.toList = [.release 4] ∧ closed.registry.head = none ∧
      closed.usage.count = 0 ∧ closed.usage.total = 0 := by
  have haudit : forged.audit = .ok (.ok ()) := by decide +kernel
  obtain ⟨visited, hleads, -, closed, events, hunwinds, -, -, hcalls, hclosed⟩ :=
    audit_unwinds haudit
  obtain rfl := Registry.Leads.unique (.step rfl (.step rfl .done)) hleads
  exact ⟨haudit, closed, events, hunwinds, hcalls, hclosed⟩

end Context

end MemoryLedger
