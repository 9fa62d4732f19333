import MemoryLedger.Proofs.Registry.Walk

/-!
# What linking and unlinking change

Taking a slot off the list changes the head, the links of the slot, and one link in each of its at
most two neighbours; putting a slot in front of the list changes the head, the links of the slot,
and one link in the old head. All else in the table stays as it is, so a slot that comes and goes
leaves no trace.
-/

namespace MemoryLedger

namespace Registry

variable {r r' : Registry} {before after path : List Nat} {slot : Nat}

/-! ### The walk over the list -/

/-- A walk from the head with room enough meets the slots of `path` in this order and then ends. -/
def Visits (r : Registry) (path : List Nat) : Prop :=
  ∃ visited, visited.map Prod.fst = path ∧
    ∀ room, path.length ≤ room → r.walk room r.head = .ok visited

/-- Where the list runs, a walk goes. -/
lemma Threads.visits (h : r.Threads path) : r.Visits path := by
  obtain ⟨visited, rfl, hleads⟩ := h.leads
  refine ⟨visited, rfl, fun room hroom => hleads.walk ?_⟩
  rwa [List.length_map] at hroom

/-! ### The extent of a change -/

/-- `r'` is `r` after `slot` has left its place between `prev` and `next`. -/
structure TakenOut (r r' : Registry) (slot : Nat) (prev next : Option Nat) : Prop where
  vacant : r'.vacant = r.vacant
  head : r'.head = if prev = none then next else r.head
  self : r'.slots[slot]? = r.slots[slot]?.map fun d => { d with prev := none, next := none }
  ahead : ∀ p, prev = some p → r'.slots[p]? = r.slots[p]?.map fun d => { d with next := next }
  behind : ∀ n, next = some n → r'.slots[n]? = r.slots[n]?.map fun d => { d with prev := prev }
  frame : ∀ s, s ≠ slot → prev ≠ some s → next ≠ some s → r'.slots[s]? = r.slots[s]?

/-- `r'` is `r` after `slot` has come before the head. -/
structure PutFirst (r r' : Registry) (slot : Nat) : Prop where
  vacant : r'.vacant = r.vacant
  head : r'.head = some slot
  self : r'.slots[slot]? = r.slots[slot]?.map fun d => { d with prev := none, next := r.head }
  behind : ∀ n, r.head = some n →
    r'.slots[n]? = r.slots[n]?.map fun d => { d with prev := some slot }
  frame : ∀ s, s ≠ slot → r.head ≠ some s → r'.slots[s]? = r.slots[s]?

/-- A slot of the list leaves it from between its neighbours. -/
theorem Threads.takenOut (h : r.Threads (before ++ slot :: after)) (hr : r.unlink slot = .ok r') :
    r.TakenOut r' slot before.getLast? after.head? := by
  obtain ⟨d, hd, hprev, hnext⟩ := h.links before slot after rfl
  have hbefore : ∀ p, d.prev = some p → p ∈ before := fun p hp =>
    List.mem_of_getLast? (hprev ▸ hp)
  have hafter : ∀ n, d.next = some n → n ∈ after := fun n hn => List.mem_of_head? (hnext ▸ hn)
  obtain ⟨hnotBefore, hnotAfter⟩ := h.notMem
  -- no slot is both before and after, and neither neighbour is the slot itself
  have hdisjoint : ∀ s, d.prev = some s → d.next ≠ some s := fun s hp hn =>
    (List.nodup_append.mp h.nodup).2.2 s (hbefore s hp) s (List.mem_cons_of_mem _ (hafter s hn)) rfl
  have hprevSlot : d.prev ≠ some slot := fun hp => hnotBefore (hbefore slot hp)
  have hnextSlot : d.next ≠ some slot := fun hn => hnotAfter (hafter slot hn)
  rw [unlink_eq hd (fun p hp => h.lt_size (by simp [hbefore p hp]))
    fun n hn => h.lt_size (by simp [hafter n hn])] at hr
  cases hr
  rw [← hprev, ← hnext]
  refine ⟨rfl, rfl, ?_, fun p hp => ?_, fun n hn => ?_, fun s hs hp hn => ?_⟩
  · rw [Array.getElem?_mapIdx]
    exact Option.map_congr fun e _ => bridged_self hprevSlot hnextSlot
  · have hne : p ≠ slot := fun heq => hprevSlot (heq ▸ hp)
    have hlinks : ∀ e, bridged slot d p e = { e with next := d.next } := fun e => by
      simp [bridged, hne, hp, hdisjoint p hp]
    rw [Array.getElem?_mapIdx, funext hlinks]
  · have hne : n ≠ slot := fun heq => hnextSlot (heq ▸ hn)
    have hp : d.prev ≠ some n := fun hp => hdisjoint n hp hn
    have hlinks : ∀ e, bridged slot d n e = { e with prev := d.prev } := fun e => by
      simp [bridged, hne, hn, hp]
    rw [Array.getElem?_mapIdx, funext hlinks]
  · have hlinks : ∀ e, bridged slot d s e = e := fun e => bridged_eq_self hs hp hn
    rw [Array.getElem?_mapIdx, funext hlinks, Option.map_id']

/-- A slot that is put in front comes before the head. -/
theorem Threads.putFirst (h : r.Threads path) (hlt : slot < r.slots.size) (hslot : slot ∉ path)
    (hr : r.link slot = .ok r') : r.PutFirst r' slot := by
  have hhead : ∀ n, r.head = some n → n ∈ path := fun n hn => List.mem_of_head? (h.head ▸ hn)
  have hne : r.head ≠ some slot := fun hn => hslot (hhead slot hn)
  rw [link_eq hlt fun n hn => h.lt_size (hhead n hn)] at hr
  cases hr
  refine ⟨rfl, rfl, ?_, fun n hn => ?_, fun s hs hn => ?_⟩
  · have hlinks : ∀ e, fronted slot r.head slot e = { e with prev := none, next := r.head } :=
      fun e => by simp [fronted, hne]
    rw [Array.getElem?_mapIdx, funext hlinks]
  · have hslot' : n ≠ slot := fun heq => hne (heq ▸ hn)
    have hlinks : ∀ e, fronted slot r.head n e = { e with prev := some slot } := fun e => by
      simp [fronted, hn, hslot']
    rw [Array.getElem?_mapIdx, funext hlinks]
  · have hlinks : ∀ e, fronted slot r.head s e = e := fun e => fronted_eq_self hs hn
    rw [Array.getElem?_mapIdx, funext hlinks, Option.map_id']

/-- The slot at the head points back to none. -/
lemma Threads.prev_of_head (h : r.Threads path) :
    ∀ n, r.head = some n → ∃ d, r.slots[n]? = some d ∧ d.prev = none := by
  intro n hn
  rw [h.head] at hn
  obtain ⟨after, rfl⟩ := List.head?_eq_some_iff.mp hn
  obtain ⟨d, hd, hprev, -⟩ := h.links [] n after rfl
  exact ⟨d, hd, hprev⟩

/-- A slot without links that is put in front and taken out again leaves no trace. -/
theorem PutFirst.undone {back : Registry} {d : Descriptor} (h : r.PutFirst r' slot)
    (hback : r'.TakenOut back slot none r.head) (hd : r.slots[slot]? = some d)
    (hprev : d.prev = none) (hnext : d.next = none)
    (hhead : ∀ n, r.head = some n → ∃ e, r.slots[n]? = some e ∧ e.prev = none) : back = r := by
  have hslots : back.slots = r.slots := by
    apply Array.ext_getElem?
    intro s
    by_cases hs : s = slot
    · subst hs
      rw [hback.self, h.self, hd, Option.map_some, Option.map_some, ← hprev]
      congr 1
      exact Descriptor.eq_of_bare_eq rfl rfl (hprev.trans hnext.symm)
    by_cases hn : r.head = some s
    · obtain ⟨e, he, heprev⟩ := hhead s hn
      rw [hback.behind s hn, h.behind s hn, he, Option.map_some, Option.map_some, ← heprev]
    · rw [hback.frame s hs (by simp) hn, h.frame s hs hn]
  have hheads : back.head = r.head := hback.head
  calc back
    _ = ⟨back.slots, back.vacant, back.head⟩ := rfl
    _ = ⟨r.slots, r.vacant, r.head⟩ := by rw [hslots, hback.vacant, h.vacant, hheads]

/-! ### The list after a change -/

/-- Linking and unlinking do to the list what its slots say. Any slot of the list can be taken off
it, and the walk then meets the others in the same order; any other slot of the table can be put in
front, and the walk then meets it first. The list is well formed again. Nothing has changed but the
head, the links of the slot, and the one link of each neighbour that leads to it. A slot without
links that is put in front and taken off again leaves the table as it was. -/
theorem Threads.spliced (h : r.Threads path) :
    r.Visits path ∧
    (∀ before slot after, path = before ++ slot :: after →
      ∃ r', r.unlink slot = .ok r' ∧ r'.Threads (before ++ after) ∧ r'.Visits (before ++ after) ∧
        r.TakenOut r' slot before.getLast? after.head?) ∧
    ∀ slot, slot < r.slots.size → slot ∉ path →
      ∃ r', r.link slot = .ok r' ∧ r'.Threads (slot :: path) ∧ r'.Visits (slot :: path) ∧
        r.PutFirst r' slot ∧
        ∀ d, r.slots[slot]? = some d → d.prev = none → d.next = none →
          r'.unlink slot = .ok r := by
  refine ⟨h.visits, ?_, ?_⟩
  · rintro before slot after rfl
    obtain ⟨r', hr', hthreads, -⟩ := h.unlink
    exact ⟨r', hr', hthreads, hthreads.visits, h.takenOut hr'⟩
  · intro slot hlt hslot
    obtain ⟨r', hr', hthreads, -⟩ := h.link hlt hslot
    have hfirst : r.PutFirst r' slot := h.putFirst hlt hslot hr'
    refine ⟨r', hr', hthreads, hthreads.visits, hfirst, fun d hd hprev hnext => ?_⟩
    have hfront : r'.Threads ([] ++ slot :: path) := hthreads
    obtain ⟨back, hback, -⟩ := hfront.unlink
    have hout : r'.TakenOut back slot none path.head? := hfront.takenOut hback
    rw [← h.head] at hout
    rw [hback, hfirst.undone hout hd hprev hnext h.prev_of_head]

/-- Three blocks, linked in the order of slots 2, 0, 1, and a vacant slot. -/
def trio : Registry where
  slots :=
    #[{ tag := liveTag, generation := 1, size := 60, prev := some 2, next := some 1,
        payload := some 1 },
      { tag := liveTag, generation := 4, size := 57, prev := some 0, payload := some 2 },
      { tag := liveTag, generation := 2, size := 90, next := some 0, payload := some 3 },
      { generation := 5 }]
  vacant := [3]
  head := some 2

/-- The slot in the middle can leave, and the vacant one can come and go. -/
theorem spliced_trio : trio.Threads [2, 0, 1] ∧
    (∃ r', trio.unlink 0 = .ok r' ∧ r'.Threads [2, 1] ∧ r'.Visits [2, 1] ∧
      trio.TakenOut r' 0 (some 2) (some 1)) ∧
    ∃ r', trio.link 3 = .ok r' ∧ r'.Threads [3, 2, 0, 1] ∧ r'.Visits [3, 2, 0, 1] ∧
      trio.PutFirst r' 3 ∧ r'.unlink 3 = .ok trio := by
  have hchains : trio.Chains none trio.head _ :=
    .step rfl rfl rfl (.step rfl rfl rfl (.step rfl rfl rfl .done))
  have hthreads : trio.Threads [2, 0, 1] := hchains.threads
  obtain ⟨-, hunlink, hlink⟩ := hthreads.spliced
  obtain ⟨r', hr', hpath, hvisits, hfirst, hback⟩ := hlink 3 (by decide) (by decide)
  exact ⟨hthreads, hunlink [2] 0 [1] rfl, r', hr', hpath, hvisits, hfirst, hback _ rfl rfl rfl⟩

end Registry

end MemoryLedger
