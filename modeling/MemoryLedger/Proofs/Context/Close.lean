import MemoryLedger.Context.Close
import MemoryLedger.Proofs.Context.Run

/-!
# Closing a sound context

A sound context can be closed: its blocks are released one by one from the head of the list on, and
nothing is left of them. What the heap sees of this are the releases of their payloads.
-/

namespace MemoryLedger

namespace Context

variable {c : Context} {entries before after : List Entry} {e : Entry}

/-- A block of a sound context can be released, which leaves the context sound. -/
lemma Sound.release (hc : c.Sound (before ++ e :: after)) (func : String) :
    ∃ c', c.release func e.slot =
        .ok (c', .freed func e.slot e.size c'.usage.count c'.usage.total) ∧
      c'.Sound (before ++ after) ∧ c'.heap = c.heap.release e.payload := by
  obtain ⟨usage, hu⟩ := hc.exists_credit (e := e) (by simp)
  obtain ⟨registry, hrelease, hr, -, -⟩ := release_of_holds hc.holds func hu
  exact ⟨_, hrelease, ⟨hr, hc.balanced.of_credit hu rfl rfl, hc.maxBlocks_le⟩, rfl⟩

/-- Releasing the blocks one after the other, from the head of the list on, leads to `closed`. -/
inductive Releases : Context → List Entry → Context → List Event → Prop where
  | done {c : Context} (hc : c.Sound []) : Releases c [] c []
  | step {c c' closed : Context} {e : Entry} {entries : List Entry} {events : List Event}
      (hc : c.Sound (e :: entries)) (hc' : c'.Sound entries)
      (hheap : c'.heap = c.heap.release e.payload) (hrest : Releases c' entries closed events) :
      Releases c (e :: entries) closed
        (.freed "drop" e.slot e.size c'.usage.count c'.usage.total :: events)

lemma Releases.sound {closed : Context} {events : List Event}
    (h : Releases c entries closed events) : closed.Sound [] := by
  induction h with
  | done hc => exact hc
  | step _ _ _ _ ih => exact ih

lemma Releases.heap_eq {closed : Context} {events : List Event}
    (h : Releases c entries closed events) :
    closed.heap = (entries.map Entry.payload).foldl Heap.release c.heap := by
  induction h with
  | done => rfl
  | step _ _ hheap _ ih => rw [ih, hheap, List.map_cons, List.foldl_cons]

/-- All blocks of a sound context are released, newest first. -/
lemma Sound.releaseAll (hc : c.Sound entries) :
    ∃ closed events, c.releaseAll entries.length = .ok (closed, events) ∧
      Releases c entries closed events := by
  induction entries generalizing c with
  | nil =>
    have hhead : c.registry.head = none := hc.holds.threads.head
    refine ⟨c, [], ?_, .done hc⟩
    simp only [List.length_nil, Context.releaseAll, hhead]
  | cons e entries ih =>
    have hhead : c.registry.head = some e.slot := hc.holds.threads.head
    have hfirst : c.Sound ([] ++ e :: entries) := hc
    obtain ⟨c', hrelease, hc', hheap⟩ := hfirst.release "drop"
    obtain ⟨closed, events, hall, hrest⟩ := ih hc'
    refine ⟨closed, .freed "drop" e.slot e.size c'.usage.count c'.usage.total :: events, ?_,
      .step hc hc' hheap hrest⟩
    simp only [List.length_cons, Context.releaseAll, hhead, hrelease, hall, ok_bind]

/-- Closing a sound context warns if there are blocks, and releases them. -/
lemma Sound.close_releases (hc : c.Sound entries) :
    ∃ closed events, c.close = .ok (closed,
        (if 0 < c.usage.count then [.stillAllocated c.usage.count c.usage.total] else []) ++
          events) ∧ Releases c entries closed events := by
  obtain ⟨closed, events, hall, hreleases⟩ := hc.releaseAll
  refine ⟨closed, events, ?_, hreleases⟩
  rw [Context.close, hc.balanced.count, hall, ok_bind]

/-- A sound context can be closed, and is empty then. -/
theorem Sound.close (hc : c.Sound entries) :
    ∃ closed events, c.close = .ok (closed, events) ∧ closed.Sound [] ∧
      closed.heap = (entries.map Entry.payload).foldl Heap.release c.heap := by
  obtain ⟨closed, events, hclose, hreleases⟩ := hc.close_releases
  exact ⟨closed, _, hclose, hreleases.sound, hreleases.heap_eq⟩

end Context

end MemoryLedger
