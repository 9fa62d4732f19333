import MemoryLedger.Proofs.Registry.Entry

/-!
# How blocks enter and leave a registry

A block leaves by `unlink` and then `vacate` or `retire`; it enters a slot, vacant or its own, by
`stamp` and then `link`. Each of these succeeds on a registry that `Holds` its blocks, and keeps
that. A slot's generation changes only when a block is stamped into it or vacated from it, and it
never becomes smaller.
-/

namespace MemoryLedger

namespace Registry

variable {r : Registry} {entries before after : List Entry} {e : Entry} {slot : Nat}

/-! ### Leaving -/

/-- Unlinking takes a block off the list and sets its slot aside. -/
theorem Holds.unlink (h : r.Holds (before ++ e :: after)) :
    ∃ r', r.unlink e.slot = .ok r' ∧ r'.Holds (before ++ after) (some e.slot) ∧
      r'.slots[e.slot]? = some e.descriptor ∧ r'.body = r.body ∧ r'.vacant = r.vacant := by
  have hpath : (before ++ e :: after).map Entry.slot =
      before.map Entry.slot ++ e.slot :: after.map Entry.slot := by simp
  obtain ⟨r', hr', hthreads, hself, hlinks⟩ := Threads.unlink (hpath ▸ h.threads)
  have hbody : r.body e.slot = some e.descriptor := h.described (by simp)
  refine ⟨r', hr', ⟨?_, ?_, ?_, ?_, ?_⟩, hself.trans hbody, hlinks.body, hlinks.vacant⟩
  · simpa using hthreads
  · intro e' he'
    rw [hlinks.body]
    exact h.described (mem_append_cons_of_mem he')
  · intro s d hd hs haside
    have hs' : s ∉ before.map Entry.slot ++ e.slot :: after.map Entry.slot := by
      simp only [List.map_append, List.mem_append, List.mem_cons, not_or] at hs ⊢
      exact ⟨hs.1, fun h' => haside (h' ▸ rfl), hs.2⟩
    rw [hlinks.frame s hs'] at hd
    exact h.empty hd (hpath ▸ hs') (by simp)
  · rw [hlinks.vacant]
    exact h.vacant_nodup
  · intro s
    rw [hlinks.vacant, hlinks.body, h.mem_vacant]
    constructor
    · rintro ⟨-, d, hd, hlive, hgen⟩
      refine ⟨?_, d, hd, hlive, hgen⟩
      rintro ⟨⟩
      exact hlive (by rw [← Option.some.inj (hbody.symm.trans hd)]; rfl)
    · rintro ⟨-, hd⟩
      exact ⟨by simp, hd⟩

/-! ### A change of the slot set aside -/

/-- A change of the slot set aside, after which it is still aside or else empty. -/
lemma Holds.modify {aside : Option Nat} {d : Descriptor} {f : Descriptor → Descriptor}
    {vacant : List Nat} (h : r.Holds entries (some slot)) (hslot : slot ∉ entries.map Entry.slot)
    (hd : r.slots[slot]? = some d) (haside : ∀ s, aside = some s → s = slot)
    (hempty : aside ≠ some slot → f d = { generation := (f d).generation })
    (hnodup : vacant.Nodup) (hother : ∀ s ≠ slot, s ∈ vacant ↔ s ∈ r.vacant)
    (hself : slot ∈ vacant ↔ aside ≠ some slot ∧ (f d).generation < maxGeneration) :
    ({ r with slots := r.slots.modify slot f, vacant } : Registry).Holds entries aside := by
  have hslots : ∀ s ≠ slot, (r.slots.modify slot f)[s]? = r.slots[s]? := fun s hs => by
    rw [Array.getElem?_modify, if_neg hs.symm]
  have hnew : (r.slots.modify slot f)[slot]? = some (f d) := by
    rw [Array.getElem?_modify, if_pos rfl, hd]
    rfl
  refine h.change hslot (fun _ => rfl) rfl hslots ?_ hnodup ?_
  · intro hne d' hd'
    rw [hnew] at hd'
    cases hd'
    exact hempty hne
  · intro s
    by_cases hs : s = slot
    · subst hs
      rw [hself, body, hnew]
      constructor
      · rintro ⟨hne, hgen⟩
        refine ⟨hne, (f d).bare, rfl, ?_, hgen⟩
        rw [hempty hne]
        exact (by decide : (0 : UInt32) ≠ liveTag)
      · rintro ⟨hne, d', hd', -, hgen⟩
        cases hd'
        exact ⟨hne, hgen⟩
    · have hne : aside ≠ some s ∧ some slot ≠ some s :=
        ⟨fun h' => hs (haside s h'), fun h' => hs (Option.some.inj h').symm⟩
      rw [hother s hs, h.mem_vacant, body, body, hslots s hs]
      simp [hne]

lemma age_modify {d : Descriptor} {f : Descriptor → Descriptor} {vacant : List Nat}
    {head : Option Nat} (hd : r.slots[slot]? = some d) :
    ({ slots := r.slots.modify slot f, vacant, head } : Registry).age =
      Function.update r.age slot (f d).generation.toNat := by
  funext s
  by_cases hs : s = slot
  · subst hs
    rw [Function.update_self, age_of_getElem? (d := f d)]
    rw [Array.getElem?_modify, if_pos rfl, hd]
    rfl
  · rw [Function.update_of_ne hs, age, age]
    congr 1
    apply body_eq_of_getElem?
    rw [Array.getElem?_modify, if_neg (Ne.symm hs)]

/-! ### Emptying a slot -/

/-- Vacating the slot set aside empties it; it is reusable unless its generation is used up. -/
theorem Holds.vacate {d : Descriptor} (h : r.Holds entries (some slot))
    (hslot : slot ∉ entries.map Entry.slot) (hd : r.slots[slot]? = some d) (hbare : d.bare = d) :
    ∃ r', r.vacate slot = .ok r' ∧ r'.Holds entries ∧ r'.slots.size = r.slots.size ∧
      r'.age = Function.update r.age slot (min (d.generation.toNat + 1) 0xFFFFFFFF) := by
  have hlt : slot < r.slots.size := (Array.getElem?_eq_some_iff.mp hd).1
  have hempty : ∀ g, ({ d with tag := 0, generation := g, size := 0, payload := none } :
      Descriptor) = { generation := g } := fun g => by
    rw [← hbare]
    rfl
  have hvacant : slot ∉ r.vacant := fun h' => (h.mem_vacant.mp h').1 rfl
  rw [← toNat_nextGenerationSaturating]
  simp only [Registry.vacate, get_of_getElem? hd, ok_bind, modify_of_lt hlt]
  by_cases hgen : nextGenerationSaturating d.generation < maxGeneration
  · rw [if_pos hgen]
    refine ⟨_, rfl, h.modify hslot hd (by simp) (fun _ => hempty _) ?_ ?_ ?_, by simp,
      age_modify hd⟩
    · exact List.nodup_cons.mpr ⟨hvacant, h.vacant_nodup⟩
    · intro s hs
      simp [hs]
    · simp [hgen]
  · rw [if_neg hgen]
    exact ⟨_, rfl, h.modify hslot hd (by simp) (fun _ => hempty _) h.vacant_nodup
      (fun _ _ => Iff.rfl) (by simp [hvacant, hgen]), by simp, age_modify hd⟩

/-- Retiring the slot set aside empties it for good, when its generation is used up. -/
theorem Holds.retire {d : Descriptor} (h : r.Holds entries (some slot))
    (hslot : slot ∉ entries.map Entry.slot) (hd : r.slots[slot]? = some d) (hbare : d.bare = d)
    (hgen : d.generation = maxGeneration) :
    ∃ r', r.retire slot = .ok r' ∧ r'.Holds entries ∧ r'.slots.size = r.slots.size ∧
      r'.vacant = r.vacant ∧ r'.age = r.age := by
  have hlt : slot < r.slots.size := (Array.getElem?_eq_some_iff.mp hd).1
  have hvacant : slot ∉ r.vacant := fun h' => (h.mem_vacant.mp h').1 rfl
  refine ⟨_, modify_of_lt hlt _, h.modify hslot hd (by simp) (fun _ => ?_) h.vacant_nodup
    (fun _ _ => Iff.rfl) ?_, by simp, rfl, ?_⟩
  · rw [← hbare]
    rfl
  · simp [hvacant, hgen]
  · rw [age_modify hd, ← age_of_getElem? hd, Function.update_eq_self]

/-! ### Entering -/

/-- A slot is found for a block: a reusable one or, if there is none, a new one. -/
theorem Holds.takeVacant (h : r.Holds entries) :
    ∃ slot r' g, r.takeVacant = (slot, r') ∧ r'.Holds entries (some slot) ∧
      slot ∉ entries.map Entry.slot ∧ r'.slots[slot]? = some { generation := g } ∧
      g < maxGeneration ∧ r'.age = r.age ∧
      (r'.slots.size = r.slots.size ∨
        r.vacant = [] ∧ slot = r.slots.size ∧ r'.slots.size = r.slots.size + 1) := by
  cases hv : r.vacant with
  | cons slot rest =>
    obtain ⟨d, hd, hlive, hgen⟩ := h.mem_vacant_iff.mp (show slot ∈ r.vacant by simp [hv])
    have hslot : slot ∉ entries.map Entry.slot := by
      intro hmem
      obtain ⟨d', hd', hlive'⟩ := h.mem_slots_iff.mp hmem
      cases hd.symm.trans hd'
      exact hlive hlive'
    have hnodup : slot ∉ rest ∧ rest.Nodup := List.nodup_cons.mp (hv ▸ h.vacant_nodup)
    refine ⟨slot, { r with vacant := rest }, d.generation, by rw [Registry.takeVacant, hv], ?_,
      hslot, ?_, hgen, rfl, .inl rfl⟩
    · refine h.change hslot (by simp) rfl (fun _ _ => rfl) (fun hne => absurd rfl hne) hnodup.2 ?_
      intro s
      have hs : s ∈ r.vacant ↔ _ := h.mem_vacant
      rw [hv, List.mem_cons] at hs
      constructor
      · intro hmem
        refine ⟨?_, (hs.mp (.inr hmem)).2⟩
        rintro ⟨⟩
        exact hnodup.1 hmem
      · rintro ⟨hne, hd⟩
        exact (hs.mpr ⟨by simp, hd⟩).resolve_left fun h' => hne (h' ▸ rfl)
    · rw [hd, ← h.empty hd hslot (by simp)]
  | nil =>
    have hslot : r.slots.size ∉ entries.map Entry.slot := fun hmem =>
      absurd (h.threads.lt_size hmem) (Nat.lt_irrefl _)
    have hother : ∀ s ≠ r.slots.size, (r.slots.push {})[s]? = r.slots[s]? := fun s hs => by
      rw [Array.getElem?_push, if_neg hs]
    refine ⟨r.slots.size, { r with slots := r.slots.push {} }, 0, by rw [Registry.takeVacant, hv],
      ?_, hslot, by simp, by decide, ?_, .inr ⟨rfl, rfl, by simp⟩⟩
    · refine h.change hslot (by simp) rfl hother (fun hne => absurd rfl hne) h.vacant_nodup ?_
      intro s
      rw [h.mem_vacant]
      by_cases hs : s = r.slots.size
      · subst hs
        simp [body]
      · simp [body, hother s hs, Ne.symm hs]
    · funext s
      by_cases hs : s = r.slots.size
      · subst hs
        simp [age, body, Descriptor.bare]
      · rw [age, age, body_eq_of_getElem? (hother s hs)]

/-- Linking the slot set aside puts the block that it describes in front of the others. -/
theorem Holds.link (h : r.Holds entries (some e.slot)) (hslot : e.slot ∉ entries.map Entry.slot)
    (hbody : r.body e.slot = some e.descriptor) :
    ∃ r', r.link e.slot = .ok r' ∧ r'.Holds (e :: entries) ∧ r'.body = r.body := by
  have hlt : e.slot < r.slots.size := by
    rw [← Nat.not_le, ← body_eq_none_iff, hbody]
    exact Option.some_ne_none _
  obtain ⟨r', hlink, hthreads, hlinks⟩ := h.threads.link hlt hslot
  refine ⟨r', hlink, ⟨hthreads, ?_, ?_, ?_, ?_⟩, hlinks.body⟩
  · intro e' he'
    rw [hlinks.body]
    rcases List.mem_cons.mp he' with rfl | he'
    · exact hbody
    · exact h.described he'
  · intro s d hd hs _
    rw [List.map_cons] at hs
    rw [hlinks.frame s hs] at hd
    rw [List.mem_cons, not_or] at hs
    exact h.empty hd hs.2 fun h' => hs.1 (Option.some.inj h').symm
  · rw [hlinks.vacant]
    exact h.vacant_nodup
  · intro s
    rw [hlinks.vacant, hlinks.body, h.mem_vacant]
    constructor
    · rintro ⟨-, hd⟩
      exact ⟨by simp, hd⟩
    · rintro ⟨-, d, hd, hlive, hgen⟩
      refine ⟨?_, d, hd, hlive, hgen⟩
      rintro ⟨⟩
      exact hlive (by rw [← Option.some.inj (hbody.symm.trans hd)]; rfl)

/-- Stamping the slot set aside describes a block in it, under the slot's next generation. -/
lemma Holds.stamp {d : Descriptor} {length : UInt64} (payload : Nat)
    (h : r.Holds entries (some slot)) (hslot : slot ∉ entries.map Entry.slot)
    (hd : r.slots[slot]? = some d) (hgen : d.generation < maxGeneration)
    (hlength : length ≤ maxWord - descriptorSize) :
    ∃ (e : Entry) (r' : Registry), e.slot = slot ∧ e.length = length ∧ e.payload = payload ∧
      e.generation.toNat = r.age slot + 1 ∧ r.stamp slot e.size payload = .ok (e.generation, r') ∧
      r'.Holds entries (some slot) ∧ r'.body slot = some e.descriptor ∧
      r'.slots.size = r.slots.size ∧ r'.age = Function.update r.age slot e.generation.toNat := by
  have hlt : slot < r.slots.size := (Array.getElem?_eq_some_iff.mp hd).1
  have hnext : nextGeneration d.generation = .ok (d.generation + 1) := if_pos hgen
  have hvacant : slot ∉ r.vacant := fun h' => (h.mem_vacant.mp h').1 rfl
  let e : Entry := ⟨slot, d.generation + 1, length, payload, hlength⟩
  let f : Descriptor → Descriptor := fun d =>
    { d with tag := liveTag, generation := e.generation, size := e.size, payload := some payload }
  let r' : Registry := { r with slots := r.slots.modify slot f }
  have h' : r'.Holds entries (some slot) :=
    h.modify hslot hd (fun s hs => (Option.some.inj hs).symm) (fun hne => absurd rfl hne)
      h.vacant_nodup (fun _ _ => Iff.rfl) (by simp [hvacant])
  refine ⟨e, r', rfl, rfl, rfl, ?_, ?_, h', ?_, ?_, age_modify hd⟩
  · rw [age_of_getElem? hd]
    exact nextGeneration_eq_ok_iff.mp hnext
  · simp only [Registry.stamp, get_of_getElem? hd, ok_bind, hnext, modify_of_lt hlt]
    rfl
  · rw [body, Array.getElem?_modify, if_pos rfl, hd]
    rfl
  · simp [r']

/-- `r'` is `r` with the block `e` entered in front of `rest`. The slot of `e` is in use for the
first time since it was given its generation, and it is a new slot only if there was no other. -/
structure Entered (r r' : Registry) (e : Entry) (rest : List Entry) : Prop where
  holds : r'.Holds (e :: rest)
  size : r'.slots.size = r.slots.size ∨
    r.vacant = [] ∧ e.slot = r.slots.size ∧ r'.slots.size = r.slots.size + 1
  generation : e.generation.toNat = r.age e.slot + 1
  age : r'.age = Function.update r.age e.slot e.generation.toNat

/-- Stamping the slot set aside and linking it enters a block. -/
theorem Holds.enter {d : Descriptor} {length : UInt64} (payload : Nat)
    (h : r.Holds entries (some slot)) (hslot : slot ∉ entries.map Entry.slot)
    (hd : r.slots[slot]? = some d) (hgen : d.generation < maxGeneration)
    (hlength : length ≤ maxWord - descriptorSize) :
    ∃ (e : Entry) (r₁ r₂ : Registry), e.slot = slot ∧ e.length = length ∧ e.payload = payload ∧
      r.stamp slot e.size payload = .ok (e.generation, r₁) ∧ r₁.link slot = .ok r₂ ∧
      r.Entered r₂ e entries ∧ r₂.slots.size = r.slots.size := by
  obtain ⟨e, r₁, rfl, rfl, rfl, hage, hstamp, h₁, hbody₁, hsize₁, hage₁⟩ :=
    h.stamp payload hslot hd hgen hlength
  obtain ⟨r₂, hlink, h₂, hbody₂⟩ := h₁.link hslot hbody₁
  have hsize₂ : r₂.slots.size = r.slots.size := (size_eq_of_body hbody₂).trans hsize₁
  exact ⟨e, r₁, r₂, rfl, rfl, rfl, hstamp, hlink,
    ⟨h₂, .inl hsize₂, hage, (age_eq_of_body hbody₂).trans hage₁⟩, hsize₂⟩

/-- Where a block is entered, only the generations of the slots matter, their number and whether
there is a reusable one. -/
lemma Entered.of_eq {r₁ r' : Registry} (h : r₁.Entered r' e entries) (hage : r₁.age = r.age)
    (hsize : r₁.slots.size = r.slots.size) (hvacant : r₁.vacant = r.vacant) :
    r.Entered r' e entries where
  holds := h.holds
  size := hsize ▸ hvacant ▸ h.size
  generation := hage ▸ h.generation
  age := hage ▸ h.age

end Registry

end MemoryLedger
