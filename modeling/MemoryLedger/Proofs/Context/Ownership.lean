import MemoryLedger.Proofs.Context.Close
import MemoryLedger.Proofs.Heap

/-!
# Ownership of payloads

What a context owes to its heap are exactly the payloads of its blocks, each of them once. A
context only resizes and releases what is outstanding, and when it is closed it releases all that
still is; so every region that the heap ever granted is released exactly once.
-/

namespace MemoryLedger

namespace Context

open Heap

/-- After `calls` the heap owes the payloads of `entries`: they are what is outstanding, each the
payload of one block only, and of the size of this block. -/
structure Owned (calls : List Call) (heap : Heap) (entries : List Entry) : Prop where
  orderly : Orderly calls
  granted_nodup : (grantedBy calls).Nodup
  granted_le : ∀ id ∈ grantedBy calls, id ≤ heap.granted
  payload_nodup : (entries.map Entry.payload).Nodup
  mem_payload : ∀ {id}, id ∈ entries.map Entry.payload ↔ Outstanding calls id
  region : ∀ e ∈ entries, ∃ region, heap.regions e.payload = some region ∧
    region.size = max e.length.toNat 1

variable {calls : List Call} {heap heap' : Heap} {entries entries' before after : List Entry}
  {e old : Entry} {length : UInt64}

lemma owned_nil : Owned [] heap [] where
  orderly := fun before call after id heq => by simp at heq
  granted_nodup := List.nodup_nil
  granted_le := nofun
  payload_nodup := List.nodup_nil
  mem_payload := by simp [Outstanding, grantedBy]
  region := nofun

/-! ### Payloads of several blocks -/

lemma payload_perm : ((before ++ e :: after).map Entry.payload).Perm
    (e.payload :: (before ++ after).map Entry.payload) :=
  List.perm_middle.map _

lemma Owned.payload_notMem (h : Owned calls heap (before ++ e :: after)) :
    e.payload ∉ (before ++ after).map Entry.payload :=
  (List.nodup_cons.mp (payload_perm.nodup_iff.mp h.payload_nodup)).1

lemma Owned.payload_ne {e' : Entry} (h : Owned calls heap (before ++ e :: after))
    (he' : e' ∈ before ++ after) : e'.payload ≠ e.payload :=
  fun heq => h.payload_notMem (heq ▸ List.mem_map_of_mem he')

/-! ### Calls of the heap -/

/-- A call that neither grants nor releases leaves the payloads as they are. -/
lemma Owned.append_call {call : Call} (h : Owned calls heap entries)
    (htarget : ∀ id, call.target = some id → Outstanding calls id)
    (hgranted : call.granted = none) (hreleased : call.released = none)
    (hle : heap.granted = heap'.granted)
    (hpayload : (entries'.map Entry.payload).Perm (entries.map Entry.payload))
    (hregion : ∀ e ∈ entries', ∃ region, heap'.regions e.payload = some region ∧
      region.size = max e.length.toNat 1) : Owned (calls ++ [call]) heap' entries' where
  orderly := h.orderly.append_call htarget
  granted_nodup := by simpa [grantedBy, hgranted] using h.granted_nodup
  granted_le := by simpa [grantedBy, hgranted, ← hle] using h.granted_le
  payload_nodup := hpayload.nodup_iff.mpr h.payload_nodup
  mem_payload := by
    intro id
    rw [hpayload.mem_iff, h.mem_payload, outstanding_append_of_none hgranted hreleased]
  region := hregion

lemma Owned.allocate_none {size : UInt64} (h : Owned calls heap entries)
    (heq : heap.allocate size = (none, heap')) :
    Owned (calls ++ [.allocate size none]) heap' entries := by
  obtain ⟨-, hgranted, hregions⟩ := allocate_eq_none heq
  exact h.append_call nofun rfl rfl hgranted.symm .rfl (hregions ▸ h.region)

lemma Owned.reallocate_false {id : Nat} {size : UInt64} (h : Owned calls heap entries)
    (hid : Outstanding calls id) (heq : heap.reallocate id size = (false, heap')) :
    Owned (calls ++ [.reallocate id size false]) heap' entries := by
  obtain ⟨-, hgranted, hregions⟩ := reallocate_eq_false heq
  refine h.append_call ?_ rfl rfl hgranted.symm .rfl (hregions ▸ h.region)
  rintro _ ⟨⟩
  exact hid

/-- The region of a block that is resized is resized with it. -/
lemma Owned.reallocate_true (h : Owned calls heap (before ++ old :: after))
    (hpayload : e.payload = old.payload)
    (heq : heap.reallocate old.payload (regionLength e.length) = (true, heap')) :
    Owned (calls ++ [.reallocate old.payload (regionLength e.length) true]) heap'
      (e :: (before ++ after)) := by
  obtain ⟨-, hgranted, tail, hregions⟩ := reallocate_eq_true heq
  refine h.append_call ?_ rfl rfl hgranted.symm ?_ ?_
  · rintro _ ⟨⟩
    exact h.mem_payload.mp (by simp)
  · rw [List.map_cons, hpayload]
    exact payload_perm.symm
  · intro e' he'
    rw [hregions]
    rcases List.mem_cons.mp he' with rfl | he'
    · obtain ⟨region, hregion, -⟩ := h.region old (by simp)
      rw [hpayload, Function.update_self, hregion]
      exact ⟨_, rfl, toNat_regionLength⟩
    · rw [Function.update_of_ne (h.payload_ne he')]
      exact h.region e' (Registry.mem_append_cons_of_mem he')

/-- A region that is granted is not the payload of any other block. -/
lemma Owned.allocate_some (h : Owned calls heap entries)
    (heq : heap.allocate (regionLength e.length) = (some e.payload, heap')) :
    Owned (calls ++ [.allocate (regionLength e.length) (some e.payload)]) heap'
      (e :: entries) := by
  obtain ⟨hnew, -, hgranted, bytes, hregions⟩ := allocate_eq_some heq
  have hnot : e.payload ∉ grantedBy calls := fun hmem => by
    have := h.granted_le _ hmem
    omega
  have hnot' : e.payload ∉ entries.map Entry.payload := fun hmem =>
    hnot (h.mem_payload.mp hmem).1
  have hlast : grantedBy [.allocate (regionLength e.length) (some e.payload)] = [e.payload] := rfl
  refine ⟨h.orderly.append_call nofun, ?_, ?_, ?_, ?_, ?_⟩
  · rw [grantedBy_append, hlast, ← List.concat_eq_append]
    exact h.granted_nodup.concat hnot
  · rw [grantedBy_append, hlast, hgranted]
    intro id hmem
    rcases List.mem_append.mp hmem with hmem | hmem
    · have := h.granted_le id hmem
      omega
    · exact Nat.le_of_eq (List.mem_singleton.mp hmem)
  · exact List.nodup_cons.mpr ⟨hnot', h.payload_nodup⟩
  · intro id
    rw [List.map_cons, List.mem_cons, h.mem_payload,
      outstanding_append_allocate fun hmem => hnot (h.orderly.released_granted hmem)]
  · intro e' he'
    rw [hregions]
    rcases List.mem_cons.mp he' with rfl | he'
    · rw [Function.update_self]
      exact ⟨_, rfl, toNat_regionLength⟩
    · have hne : e'.payload ≠ e.payload := fun h' => hnot' (h' ▸ List.mem_map_of_mem he')
      rw [Function.update_of_ne hne]
      exact h.region e' he'

/-- A block that leaves gives its payload back. -/
lemma Owned.release (h : Owned calls heap (before ++ e :: after)) :
    Owned (calls ++ [.release e.payload]) (heap.release e.payload) (before ++ after) := by
  have hnot := h.payload_notMem
  have hlast : grantedBy [.release e.payload] = [] := rfl
  refine ⟨h.orderly.append_call ?_, ?_, ?_, ?_, ?_, ?_⟩
  · rintro _ ⟨⟩
    exact h.mem_payload.mp (by simp)
  · rw [grantedBy_append, hlast, List.append_nil]
    exact h.granted_nodup
  · rw [grantedBy_append, hlast, List.append_nil]
    exact h.granted_le
  · exact (List.nodup_cons.mp (payload_perm.nodup_iff.mp h.payload_nodup)).2
  · intro id
    rw [outstanding_append_release, ← h.mem_payload, payload_perm.mem_iff, List.mem_cons]
    constructor
    · intro hmem
      exact ⟨.inr hmem, fun h' => hnot (h' ▸ hmem)⟩
    · rintro ⟨hmem, hne⟩
      exact hmem.resolve_left hne
  · intro e' he'
    obtain ⟨region, hregion, hsize⟩ := h.region e' (Registry.mem_append_cons_of_mem he')
    refine ⟨region, ?_, hsize⟩
    rw [regions_release, Function.update_of_ne (h.payload_ne he'), hregion]

/-- Writing into a region does not change what is owed. -/
lemma Owned.update {id : Nat} {f : Region → Region} (h : Owned calls heap entries)
    (hf : ∀ r, (f r).size = r.size) : Owned calls (heap.update id f) entries where
  orderly := h.orderly
  granted_nodup := h.granted_nodup
  granted_le := h.granted_le
  payload_nodup := h.payload_nodup
  mem_payload := h.mem_payload
  region := by
    intro e he
    obtain ⟨region, hregion, hsize⟩ := h.region e he
    rw [Heap.update, regions_setRegion]
    split
    next heq =>
      rw [← heq, hregion]
      exact ⟨f region, rfl, (hf region).trans hsize⟩
    next => exact ⟨region, hregion, hsize⟩

lemma Owned.releaseAll (h : Owned calls heap entries) :
    Owned (calls ++ (entries.map Entry.payload).map .release)
      ((entries.map Entry.payload).foldl Heap.release heap) [] := by
  induction entries generalizing calls heap with
  | nil => simpa using h
  | cons e entries ih =>
    have hhead : Owned calls heap ([] ++ e :: entries) := h
    have hrest := ih hhead.release
    rwa [List.append_assoc] at hrest

/-! ### One operation -/

/-- Since `start` the heap was called in such a way that it owes the payloads of `entries`. -/
def Owes (start heap : Heap) (entries : List Entry) : Prop :=
  ∃ calls, heap.calls.toList = start.calls.toList ++ calls ∧ Owned calls heap entries

lemma Owes.of_push {start : Heap} {call : Call} (h : Owes start heap entries)
    (hpush : heap'.calls = heap.calls.push call)
    (howned : ∀ {calls}, Owned calls heap entries → Owned (calls ++ [call]) heap' entries') :
    Owes start heap' entries' := by
  obtain ⟨calls, hcalls, h⟩ := h
  refine ⟨calls ++ [call], ?_, howned h⟩
  rw [hpush, Array.toList_push, hcalls, List.append_assoc]

variable {c : Context} {start : Heap}

lemma Served.owes {func : String} {block? : Option Block} {reply : Reply (Option Block)}
    (h : Owes start c.heap entries) (hs : Served c func entries block? length reply entries') :
    Owes start reply.context.heap entries' := by
  cases hs with
  | refused => exact h
  | notGranted _ hheap =>
    exact h.of_push (allocate_eq_none hheap).1 fun h => h.allocate_none hheap
  | notResized he _ _ hheap =>
    exact h.of_push (reallocate_eq_false hheap).1 fun h =>
      h.reallocate_false (h.mem_payload.mp (List.mem_map_of_mem he)) hheap
  | freed => exact h.of_push rfl Owned.release
  | allocated _ hheap =>
    exact h.of_push (allocate_eq_some hheap).2.1 fun h => h.allocate_some hheap
  | resized _ _ _ hpayload hheap =>
    exact h.of_push (reallocate_eq_true hheap).1 fun h => h.reallocate_true hpayload hheap

lemma Performed.owes {op : Operation Block} {reply : Reply Outcome}
    (h : Owes start c.heap entries) (hp : Performed c entries op reply entries') :
    Owes start reply.context.heap entries' := by
  cases hp with
  | requested _ hs => exact hs.owes h
  | written | filled =>
    obtain ⟨calls, hcalls, h⟩ := h
    exact ⟨calls, hcalls, h.update fun _ => rfl⟩
  | _ => exact h

/-! ### Runs -/

/-- The live slots of the context own what the heap granted and did not get back. -/
structure Owns (c : Context) (calls : List Call) : Prop where
  orderly : Orderly calls
  granted_nodup : (grantedBy calls).Nodup
  owned : ∀ {slot : Nat} {d : Descriptor}, c.registry.slots[slot]? = some d → d.IsLive →
    ∃ payload length region, d.payload = some payload ∧ d.payloadLength = .ok length ∧
      Outstanding calls payload ∧ c.heap.regions payload = some region ∧
      region.size = max length.toNat 1
  distinct : ∀ {slot₁ slot₂ : Nat} {d₁ d₂ : Descriptor}, c.registry.slots[slot₁]? = some d₁ →
    d₁.IsLive → c.registry.slots[slot₂]? = some d₂ → d₂.IsLive → d₁.payload = d₂.payload →
    slot₁ = slot₂
  covered : ∀ {id : Nat}, Outstanding calls id →
    ∃ (slot : Nat) (d : Descriptor), c.registry.slots[slot]? = some d ∧ d.IsLive ∧
      d.payload = some id

lemma Owned.owns (ho : Owned calls c.heap entries) (h : c.registry.Holds entries) :
    c.Owns calls := by
  refine ⟨ho.orderly, ho.granted_nodup, ?_, ?_, ?_⟩
  · intro slot d hd hlive
    obtain ⟨e, he, -, hbare⟩ := h.exists_entry_of_live hd hlive
    obtain ⟨region, hregion, hsize⟩ := ho.region e he
    exact ⟨e.payload, e.length, region, Entry.payload_of_bare hbare,
      payloadLength_of_bare hbare, ho.mem_payload.mp (List.mem_map_of_mem he), hregion, hsize⟩
  · intro slot₁ slot₂ d₁ d₂ hd₁ hlive₁ hd₂ hlive₂ hpayload
    obtain ⟨e₁, he₁, rfl, hbare₁⟩ := h.exists_entry_of_live hd₁ hlive₁
    obtain ⟨e₂, he₂, rfl, hbare₂⟩ := h.exists_entry_of_live hd₂ hlive₂
    have hpayload₁ : d₁.payload = some e₁.payload := Entry.payload_of_bare hbare₁
    have hpayload₂ : d₂.payload = some e₂.payload := Entry.payload_of_bare hbare₂
    have heq : e₁.payload = e₂.payload :=
      Option.some.inj (hpayload₁.symm.trans (hpayload.trans hpayload₂))
    rw [List.inj_on_of_nodup_map ho.payload_nodup he₁ he₂ heq]
  · intro id hid
    obtain ⟨e, he, rfl⟩ := List.mem_map.mp (ho.mem_payload.mpr hid)
    obtain ⟨d, hd, hbare⟩ := h.getElem?_of_mem he
    exact ⟨e.slot, d, hd, Entry.tag_of_bare hbare, Entry.payload_of_bare hbare⟩

/-- When nothing is owed any more, each region that was granted was released exactly once. -/
lemma Owned.count_released (h : Owned calls heap []) {id : Nat} (hid : id ∈ grantedBy calls) :
    (releasedBy calls).count id = 1 := by
  apply List.count_eq_one_of_mem h.orderly.released_nodup
  by_contra hnot
  exact absurd (h.mem_payload.mpr ⟨hid, hnot⟩) List.not_mem_nil

/-- The calls that a run makes are orderly, and what they leave outstanding are the payloads of the
live slots. Closing the context then releases these payloads in the order of the list, after which
each region that was ever granted has been released exactly once. -/
theorem run_ownership (hc : c.IsNew) (ops : List (Operation Block)) :
    ∃ last replies calls, c.run ops = .ok (last, replies) ∧
      last.heap.calls.toList = c.heap.calls.toList ++ calls ∧ last.Owns calls ∧
      ∃ closed events visited, ∃ payloads : List Nat, last.close = .ok (closed, events) ∧
        last.registry.Leads last.registry.head visited ∧
        visited.map (fun v => v.2.payload) = payloads.map some ∧
        closed.heap.calls.toList = last.heap.calls.toList ++ payloads.map .release ∧
        Orderly (calls ++ payloads.map .release) ∧
        ∀ id ∈ grantedBy calls, (releasedBy (calls ++ payloads.map .release)).count id = 1 := by
  obtain ⟨last, replies, entries, hrun, hlast, calls, hcalls, howned⟩ :=
    hc.run (fun _ c' entries => Owes c.heap c'.heap entries)
      ⟨[], by simp, owned_nil⟩
      (fun _ h hp => hp.owes h) ops
  obtain ⟨closed, events, hclose, -, hheap⟩ := hlast.close
  obtain ⟨visited, hmeets, hleads⟩ := hlast.holds.leads
  have hall := howned.releaseAll
  refine ⟨last, replies, calls, hrun, hcalls, howned.owns hlast.holds, closed, events, visited,
    entries.map Entry.payload, hclose, hleads, hmeets.payloads, ?_, hall.orderly, ?_⟩
  · rw [hheap, calls_releaseAll]
  · intro id hid
    apply hall.count_released
    rw [grantedBy_append]
    exact List.mem_append_left _ hid

/-- Two blocks, the older of which is resized, and then the end of the context. -/
theorem run_ownership_resized : ∃ last replies,
    (create 7 .system).run [.malloc 16, .malloc 8, .realloc ⟨7, 0, 1⟩ 4 8] =
      .ok (last, replies) ∧
    last.Owns [.allocate 16 (some 1), .allocate 8 (some 2), .reallocate 1 32 true] ∧
    ∃ closed events, last.close = .ok (closed, events) := by
  obtain ⟨last, replies, calls, hrun, hcalls, howns, closed, events, -, -, hclose, -⟩ :=
    run_ownership (.plain 7 .system) [.malloc 16, .malloc 8, .realloc ⟨7, 0, 1⟩ 4 8]
  have hvalue : ((create 7 .system).run [.malloc 16, .malloc 8, .realloc ⟨7, 0, 1⟩ 4 8]).map
      (fun p => p.1.heap.calls.toList) =
      .ok [.allocate 16 (some 1), .allocate 8 (some 2), .reallocate 1 32 true] := by
    decide +kernel
  rw [hrun] at hvalue
  have hstart : calls = [.allocate 16 (some 1), .allocate 8 (some 2), .reallocate 1 32 true] :=
    hcalls.symm.trans (Except.ok.inj hvalue)
  exact ⟨last, replies, hrun, hstart ▸ howns, closed, events, hclose⟩

end Context

end MemoryLedger
