import Mathlib.Algebra.Ring.Nat
import Mathlib.Data.List.Nodup
import MemoryLedger.Proofs.Computation
import MemoryLedger.Registry

/-!
# The list through the slot table

`Registry.Threads r path` says that the list of the registry runs through the slots of `path`:
`head` is the first of them, and the links of each slot are its neighbours on the path. Unlinking
takes a slot out of the path, linking puts one in front of it. Neither changes more of a descriptor
than its links, and both leave alone the slots that are not on the path (`Registry.Relinked`).
-/

namespace MemoryLedger

/-! ### Descriptors without their links -/

/-- A descriptor without its links. -/
def Descriptor.bare (d : Descriptor) : Descriptor := { d with prev := none, next := none }

/-- A descriptor is known by its links and all else in it. -/
lemma Descriptor.eq_of_bare_eq {d d' : Descriptor} (hbare : d'.bare = d.bare)
    (hprev : d'.prev = d.prev) (hnext : d'.next = d.next) : d' = d := by
  obtain ⟨tag, generation, size, prev, next, payload⟩ := d
  obtain ⟨tag', generation', size', prev', next', payload'⟩ := d'
  simp only [Descriptor.bare, Descriptor.mk.injEq] at hbare
  simp only at hprev hnext
  simp [hbare, hprev, hnext]

namespace Registry

/-- What a slot holds besides its links. -/
def body (r : Registry) (slot : Nat) : Option Descriptor := r.slots[slot]?.map Descriptor.bare

lemma body_eq_none_iff {r : Registry} {slot : Nat} : r.body slot = none ↔ r.slots.size ≤ slot := by
  simp [body]

lemma size_eq_of_body {r r' : Registry} (h : r'.body = r.body) : r'.slots.size = r.slots.size := by
  have hiff : ∀ s, r'.slots.size ≤ s ↔ r.slots.size ≤ s := fun s => by
    rw [← body_eq_none_iff, ← body_eq_none_iff, h]
  exact Nat.le_antisymm ((hiff _).mpr (Nat.le_refl _)) ((hiff _).mp (Nat.le_refl _))

/-! ### Linking and unlinking as one change of the table -/

lemma get_of_getElem? {r : Registry} {slot : Nat} {d : Descriptor}
    (h : r.slots[slot]? = some d) : r.get slot = .ok d := get_eq_ok_iff.mpr h

lemma modify_of_lt {r : Registry} {slot : Nat} (h : slot < r.slots.size)
    (f : Descriptor → Descriptor) :
    r.modify slot f = .ok { r with slots := r.slots.modify slot f } :=
  modify_eq_ok_iff.mpr ⟨h, rfl⟩

lemma modify_eq_mapIdx (slots : Array Descriptor) (slot : Nat) (f : Descriptor → Descriptor) :
    slots.modify slot f = slots.mapIdx fun s d => if s = slot then f d else d := by
  apply Array.ext_getElem?
  intro s
  rw [Array.getElem?_modify, Array.getElem?_mapIdx]
  by_cases h : slot = s
  · simp [h]
  · simp [h, Ne.symm h]

/-- The descriptor of slot `s` after `slot`, with the links of `d`, has left the list. -/
def bridged (slot : Nat) (d : Descriptor) (s : Nat) (e : Descriptor) : Descriptor :=
  { e with
    prev := if d.next = some s then d.prev else if s = slot then none else e.prev
    next := if d.prev = some s then d.next else if s = slot then none else e.next }

/-- The descriptor of slot `s` after `slot` has come before the list that began at `head`. -/
def fronted (slot : Nat) (head : Option Nat) (s : Nat) (e : Descriptor) : Descriptor :=
  { e with
    prev := if head = some s then some slot else if s = slot then none else e.prev
    next := if s = slot then head else e.next }

section

variable {slot s : Nat} {d e : Descriptor} {head : Option Nat}

@[simp] lemma bare_bridged : (bridged slot d s e).bare = e.bare := rfl

@[simp] lemma bare_fronted : (fronted slot head s e).bare = e.bare := rfl

lemma prev_bridged (hs : s ≠ slot) (hnext : d.next ≠ some s) :
    (bridged slot d s e).prev = e.prev := by
  simp [bridged, hs, hnext]

lemma next_bridged (hs : s ≠ slot) (hprev : d.prev ≠ some s) :
    (bridged slot d s e).next = e.next := by
  simp [bridged, hs, hprev]

lemma bridged_self (hprev : d.prev ≠ some slot) (hnext : d.next ≠ some slot) :
    bridged slot d slot e = e.bare := by
  simp [bridged, Descriptor.bare, hprev, hnext]

lemma bridged_eq_self (hs : s ≠ slot) (hprev : d.prev ≠ some s) (hnext : d.next ≠ some s) :
    bridged slot d s e = e := by
  simp [bridged, hs, hprev, hnext]

lemma prev_fronted (hs : s ≠ slot) (hhead : head ≠ some s) :
    (fronted slot head s e).prev = e.prev := by
  simp [fronted, hs, hhead]

lemma next_fronted (hs : s ≠ slot) : (fronted slot head s e).next = e.next := by
  simp [fronted, hs]

lemma fronted_eq_self (hs : s ≠ slot) (hhead : head ≠ some s) : fronted slot head s e = e := by
  simp [fronted, hs, hhead]

end

/-- Unlinking a slot whose links stay in the table, whatever else they are. -/
theorem unlink_eq {r : Registry} {slot : Nat} {d : Descriptor} (hd : r.slots[slot]? = some d)
    (hprev : ∀ p, d.prev = some p → p < r.slots.size)
    (hnext : ∀ n, d.next = some n → n < r.slots.size) :
    r.unlink slot = .ok
      { r with
        slots := r.slots.mapIdx (bridged slot d)
        head := if d.prev = none then d.next else r.head } := by
  have hslot : slot < r.slots.size := (Array.getElem?_eq_some_iff.mp hd).1
  have hbridged : ∀ s (e : Descriptor), bridged slot d s e =
      let e := if s = slot then { e with prev := none, next := none } else e
      let e := if d.prev = some s then { e with next := d.next } else e
      if d.next = some s then { e with prev := d.prev } else e := by
    intro s e
    simp only [bridged]
    split_ifs <;> rfl
  rw [unlink]
  rw [get_of_getElem? hd, ok_bind, modify_of_lt hslot, ok_bind, funext₂ hbridged]
  cases hp : d.prev with
  | none =>
    cases hn : d.next with
    | none => simp [modify_eq_mapIdx]
    | some n =>
      simp only [ok_bind]
      rw [modify_of_lt (by simpa using hnext n hn)]
      simp [modify_eq_mapIdx, Array.mapIdx_mapIdx, Function.comp_def, eq_comm]
  | some p =>
    simp only
    rw [modify_of_lt (by simpa using hprev p hp)]
    cases hn : d.next with
    | none => simp [modify_eq_mapIdx, Array.mapIdx_mapIdx, Function.comp_def, eq_comm]
    | some n =>
      simp only [ok_bind]
      rw [modify_of_lt (by simpa using hnext n hn)]
      simp [modify_eq_mapIdx, Array.mapIdx_mapIdx, Function.comp_def, eq_comm]

/-- Linking a slot in front of a list that begins in the table. -/
theorem link_eq {r : Registry} {slot : Nat} (hslot : slot < r.slots.size)
    (hhead : ∀ n, r.head = some n → n < r.slots.size) :
    r.link slot = .ok
      { r with slots := r.slots.mapIdx (fronted slot r.head), head := some slot } := by
  have hfronted : ∀ s (e : Descriptor), fronted slot r.head s e =
      let e := if s = slot then { e with prev := none, next := r.head } else e
      if r.head = some s then { e with prev := some slot } else e := by
    intro s e
    simp only [fronted]
    split_ifs <;> rfl
  simp only [link, modify_of_lt hslot, ok_bind]
  rw [funext₂ hfronted]
  cases hn : r.head with
  | none => simp [modify_eq_mapIdx]
  | some n =>
    simp only
    rw [modify_of_lt (by simpa using hhead n hn)]
    simp [modify_eq_mapIdx, Array.mapIdx_mapIdx, Function.comp_def, eq_comm]

/-! ### The path of the list -/

/-- The list runs through the slots of `path` in this order: it begins at the first, and the links
of each slot are its neighbours on the path. -/
structure Threads (r : Registry) (path : List Nat) : Prop where
  head : r.head = path.head?
  nodup : path.Nodup
  links : ∀ before slot after, path = before ++ slot :: after →
    ∃ d, r.slots[slot]? = some d ∧ d.prev = before.getLast? ∧ d.next = after.head?

/-- `r'` is `r` with other links in some slots of `touched`. -/
structure Relinked (r r' : Registry) (touched : List Nat) : Prop where
  body : r'.body = r.body
  vacant : r'.vacant = r.vacant
  frame : ∀ s ∉ touched, r'.slots[s]? = r.slots[s]?

lemma Threads.lt_size {r : Registry} {path : List Nat} (h : r.Threads path) {slot : Nat}
    (hslot : slot ∈ path) : slot < r.slots.size := by
  obtain ⟨before, after, hpath⟩ := List.append_of_mem hslot
  obtain ⟨d, hd, -⟩ := h.links before slot after hpath
  exact (Array.getElem?_eq_some_iff.mp hd).1

/-- A member of two joined lists stands in the first or in the second. -/
lemma append_eq_append_cons_iff {α : Type} {xs ys before after : List α} {a : α} :
    xs ++ ys = before ++ a :: after ↔
      (∃ zs, xs = before ++ a :: zs ∧ after = zs ++ ys) ∨
      (∃ zs, before = xs ++ zs ∧ ys = zs ++ a :: after) := by
  rw [List.append_eq_append_iff]
  constructor
  · rintro (⟨zs, rfl, rfl⟩ | ⟨zs, rfl, hzs⟩)
    · exact .inr ⟨zs, rfl, rfl⟩
    · cases zs with
      | nil => exact .inr ⟨[], by simp, by simpa using hzs.symm⟩
      | cons z zs =>
        simp only [List.cons_append, List.cons.injEq] at hzs
        exact .inl ⟨zs, by rw [hzs.1], hzs.2⟩
  · rintro (⟨zs, rfl, rfl⟩ | ⟨zs, rfl, rfl⟩)
    · exact .inr ⟨a :: zs, rfl, by simp⟩
    · exact .inl ⟨zs, rfl, rfl⟩

lemma mem_append_cons_of_mem {α : Type} {xs ys : List α} {a b : α} (h : b ∈ xs ++ ys) :
    b ∈ xs ++ a :: ys := by
  rcases List.mem_append.mp h with h | h
  · exact List.mem_append_left _ h
  · exact List.mem_append_right _ (List.mem_cons_of_mem a h)

section

variable {r : Registry} {before after before' between after' : List Nat} {slot s : Nat}
  {d : Descriptor}

lemma Threads.notMem (h : r.Threads (before ++ slot :: after)) : slot ∉ before ∧ slot ∉ after := by
  have hnot := (List.nodup_cons.mp (List.nodup_middle.mp h.nodup)).1
  rwa [List.mem_append, not_or] at hnot

/-- A slot before the one that leaves, next to it or not, has its new neighbours as links. -/
lemma Threads.bridged_before (h : r.Threads (before' ++ s :: (between ++ slot :: after)))
    (hprev : d.prev = (before' ++ s :: between).getLast?) (hnext : d.next = after.head?) :
    ∃ e, r.slots[s]? = some e ∧ (bridged slot d s e).prev = before'.getLast? ∧
      (bridged slot d s e).next = (between ++ after).head? := by
  obtain ⟨e, he, heprev, henext⟩ := h.links before' s (between ++ slot :: after) rfl
  have hnot := h.notMem.2
  simp only [List.mem_append, List.mem_cons, not_or] at hnot
  obtain ⟨hbetween, hss, hafter⟩ := hnot
  have hns : d.next ≠ some s := fun h' => hafter (List.mem_of_head? (hnext ▸ h'))
  refine ⟨e, he, ?_, ?_⟩
  · rw [prev_bridged hss hns, heprev]
  · rcases between.eq_nil_or_concat with rfl | ⟨bs, b, rfl⟩
    · have hps : d.prev = some s := by simp [hprev]
      simp [bridged, hps, hnext]
    · have hps : d.prev ≠ some s := fun h' => by
        have hb : b = s := by simpa [hprev, List.getLast?_cons] using h'
        exact hbetween (by simp [hb])
      rw [next_bridged hss hps, henext]
      cases bs <;> simp

/-- A slot behind the one that leaves, next to it or not, has its new neighbours as links. -/
lemma Threads.bridged_behind (h : r.Threads ((before ++ slot :: between) ++ s :: after'))
    (hprev : d.prev = before.getLast?) (hnext : d.next = (between ++ s :: after').head?) :
    ∃ e, r.slots[s]? = some e ∧ (bridged slot d s e).prev = (before ++ between).getLast? ∧
      (bridged slot d s e).next = after'.head? := by
  obtain ⟨e, he, heprev, henext⟩ := h.links (before ++ slot :: between) s after' rfl
  have hnot := h.notMem.1
  simp only [List.mem_append, List.mem_cons, not_or] at hnot
  obtain ⟨hbefore, hss, hbetween⟩ := hnot
  have hps : d.prev ≠ some s := fun h' => hbefore (List.mem_of_getLast? (hprev ▸ h'))
  refine ⟨e, he, ?_, ?_⟩
  · cases between with
    | nil =>
      have hns : d.next = some s := by simp [hnext]
      simp [bridged, hns, hprev]
    | cons b bs =>
      have hns : d.next ≠ some s := fun h' => by
        have hb : b = s := by simpa [hnext] using h'
        exact hbetween (by simp [hb])
      rw [prev_bridged hss hns, heprev]
      simp [List.getLast?_cons]
  · rw [next_bridged hss hps, henext]

/-- Taking a slot out of the list leaves the others in their order. -/
theorem Threads.unlink (h : r.Threads (before ++ slot :: after)) :
    ∃ r', r.unlink slot = .ok r' ∧ r'.Threads (before ++ after) ∧
      r'.slots[slot]? = r.body slot ∧ r.Relinked r' (before ++ slot :: after) := by
  obtain ⟨d, hd, hprev, hnext⟩ := h.links before slot after rfl
  have hp : ∀ p, d.prev = some p → p ∈ before := fun p hp => List.mem_of_getLast? (hprev ▸ hp)
  have hn : ∀ n, d.next = some n → n ∈ after := fun n hn => List.mem_of_head? (hnext ▸ hn)
  refine ⟨_, unlink_eq hd (fun p h' => h.lt_size (by simp [hp p h']))
    (fun n h' => h.lt_size (by simp [hn n h'])), ⟨?_, ?_, ?_⟩, ?_, ⟨?_, rfl, ?_⟩⟩
  · -- the head moves on if the slot was the first
    rw [hprev, hnext, h.head]
    cases before with
    | nil => simp
    | cons b before => simp [List.getLast?_cons]
  · exact h.nodup.sublist (by simp)
  · intro before' s after' hs
    simp only [Array.getElem?_mapIdx]
    rcases append_eq_append_cons_iff.mp hs with ⟨between, rfl, rfl⟩ | ⟨between, rfl, rfl⟩
    · rw [List.append_assoc, List.cons_append] at h
      obtain ⟨e, he, hlinks⟩ := h.bridged_before hprev hnext
      exact ⟨bridged slot d s e, by rw [he]; rfl, hlinks⟩
    · rw [← List.cons_append, ← List.append_assoc] at h
      obtain ⟨e, he, hlinks⟩ := h.bridged_behind hprev hnext
      exact ⟨bridged slot d s e, by rw [he]; rfl, hlinks⟩
  · have hsp : d.prev ≠ some slot := fun h' => h.notMem.1 (hp slot h')
    have hsn : d.next ≠ some slot := fun h' => h.notMem.2 (hn slot h')
    rw [Array.getElem?_mapIdx, body, hd, Option.map_some, Option.map_some, bridged_self hsp hsn]
  · funext s
    simp [body, Array.getElem?_mapIdx, Function.comp_def]
  · intro s hs
    rw [Array.getElem?_mapIdx]
    cases r.slots[s]? with
    | none => rfl
    | some e =>
      simp only [List.mem_append, List.mem_cons, not_or] at hs
      rw [Option.map_some, bridged_eq_self hs.2.1 (fun h' => hs.1 (hp s h'))
        (fun h' => hs.2.2 (hn s h'))]

/-- A slot of the list has its neighbours as links when another one has come before the list. -/
lemma Threads.fronted_links (h : r.Threads (before ++ s :: after)) (hss : s ≠ slot) :
    ∃ e, r.slots[s]? = some e ∧ (fronted slot r.head s e).prev = (slot :: before).getLast? ∧
      (fronted slot r.head s e).next = after.head? := by
  obtain ⟨e, he, heprev, henext⟩ := h.links before s after rfl
  refine ⟨e, he, ?_, ?_⟩
  · cases before with
    | nil => simp [fronted, h.head]
    | cons b bs =>
      have hne : r.head ≠ some s := by
        rw [h.head]
        rintro ⟨⟩
        exact h.notMem.1 (by simp)
      rw [prev_fronted hss hne, heprev]
      simp [List.getLast?_cons]
  · rw [next_fronted hss, henext]

/-- Linking a slot puts it in front of the others. -/
theorem Threads.link {path : List Nat} (h : r.Threads path) (hlt : slot < r.slots.size)
    (hslot : slot ∉ path) :
    ∃ r', r.link slot = .ok r' ∧ r'.Threads (slot :: path) ∧ r.Relinked r' (slot :: path) := by
  have hhead : ∀ n, r.head = some n → n ∈ path := fun n hn => List.mem_of_head? (h.head ▸ hn)
  refine ⟨_, link_eq hlt fun n hn => h.lt_size (hhead n hn), ⟨rfl, ?_, ?_⟩, ?_, rfl, ?_⟩
  · exact List.nodup_cons.mpr ⟨hslot, h.nodup⟩
  · intro before s after hs
    simp only [Array.getElem?_mapIdx]
    cases before with
    | nil =>
      obtain ⟨rfl, rfl⟩ := List.cons.inj hs
      have hne : r.head ≠ some slot := fun h' => hslot (hhead slot h')
      refine ⟨_, by rw [Array.getElem?_eq_getElem hlt]; rfl, ?_, ?_⟩
      · simp [fronted, hne]
      · simp [fronted, h.head]
    | cons b before =>
      obtain ⟨rfl, rfl⟩ := List.cons.inj hs
      have hss : s ≠ slot := by
        rintro rfl
        exact hslot (by simp)
      obtain ⟨e, he, hlinks⟩ := h.fronted_links hss
      exact ⟨fronted slot r.head s e, by rw [he]; rfl, hlinks⟩
  · funext s
    simp [body, Array.getElem?_mapIdx, Function.comp_def]
  · intro s hs
    rw [Array.getElem?_mapIdx]
    cases r.slots[s]? with
    | none => rfl
    | some e =>
      simp only [List.mem_cons, not_or] at hs
      rw [Option.map_some, fronted_eq_self hs.1 fun h' => hs.2 (hhead s h')]

end

end Registry

end MemoryLedger
