import MemoryLedger.Proofs.Context.Issued
import MemoryLedger.Proofs.Registry.Exhausted
import MemoryLedger.Proofs.Registry.Wear

/-!
# Slots over a run

No slot is lost and none is used twice. A slot is new only when no other can be used, and then every
slot holds a block or is exhausted; so apart from the exhausted ones there are never more slots than
there were blocks at a time.
-/

namespace MemoryLedger

namespace Context

/-- Every slot holds a block, is reusable or is exhausted, and there is no slot too many. -/
structure Conserved (c : Context) : Prop where
  vacant_nodup : c.registry.vacant.Nodup
  mem_vacant_iff : ∀ slot, slot ∈ c.registry.vacant ↔
    ∃ d : Descriptor, c.registry.slots[slot]? = some d ∧ ¬ d.IsLive ∧ ¬ d.IsExhausted
  exists_next : ∀ slot ∈ c.registry.vacant, ∃ (d : Descriptor) (next : UInt32),
    c.registry.slots[slot]? = some d ∧ d.generation.toNat < 2 ^ 32 - 1 ∧
      nextGeneration d.generation = .ok next
  size_eq : c.registry.slots.size =
    c.usage.count.toNat + c.registry.vacant.length + c.registry.exhausted.length
  size_le : c.registry.slots.size ≤ c.usage.countPeak.toNat + c.registry.exhausted.length
  generation_pos : ∀ (slot : Nat) (d : Descriptor), c.registry.slots[slot]? = some d → d.IsLive →
    1 ≤ d.generation.toNat

/-- What each operation keeps: blocks have generations from one on, and the slots beyond the highest
number of blocks are made up for by exhausted ones. -/
structure Thrifty (c : Context) (entries : List Entry) : Prop where
  generation_pos : ∀ e ∈ entries, 1 ≤ e.generation.toNat
  size_le : c.registry.slots.size ≤ c.usage.countPeak.toNat + c.registry.exhausted.length

variable {c : Context} {entries entries' : List Entry} {func : String} {block? : Option Block}
  {length : UInt64} {op : Operation Block}

/-- What is thrifty and sound conserves its slots. -/
theorem Sound.conserved (hc : c.Sound entries) (ht : c.Thrifty entries) : c.Conserved where
  vacant_nodup := hc.holds.vacant_nodup
  mem_vacant_iff := by
    intro slot
    rw [hc.holds.mem_vacant_iff]
    refine exists_congr fun d => and_congr_right fun _ => and_congr_right fun hlive => ?_
    rw [lt_maxGeneration_iff_ne, Descriptor.IsExhausted, not_and]
    exact ⟨fun hgen _ => hgen, fun hgen => hgen hlive⟩
  exists_next := by
    intro slot hslot
    obtain ⟨d, hd, -, hgen⟩ := hc.holds.mem_vacant_iff.mp hslot
    exact ⟨d, _, hd, lt_maxGeneration_iff.mp hgen, if_pos hgen⟩
  size_eq := by
    rw [hc.balanced.count]
    exact hc.holds.size_eq
  size_le := ht.size_le
  generation_pos := by
    intro slot d hd hlive
    obtain ⟨e, he, rfl, hbare⟩ := hc.holds.exists_entry_of_live hd hlive
    have hgen : d.generation = e.generation := Entry.generation_of_bare hbare
    rw [hgen]
    exact ht.generation_pos e he

/-! ### One operation -/

lemma Performed.ages {reply : Reply Outcome} (hc : c.Sound entries)
    (hp : Performed c entries op reply entries') : c.registry.Ages reply.context.registry := by
  have hf := hp.follows hc.holds
  exact ⟨hf.size_le, hf.age_le, hc.holds.exhausted_of_age_le (hp.sound hc).holds hf.size_le
    hf.age_le hf.mem_or_new⟩

lemma Served.countPeak_le {reply : Reply (Option Block)}
    (hs : Served c func entries block? length reply entries') :
    c.usage.countPeak.toNat ≤ reply.context.usage.countPeak.toNat := by
  cases hs with
  | refused | notGranted | notResized => exact Nat.le_refl _
  | @freed _ _ _ _ _ usage _ hu =>
    obtain ⟨-, hpeak, -⟩ := Usage.credit_eq_ok_iff.mp hu
    show c.usage.countPeak.toNat ≤ usage.countPeak.toNat
    rw [hpeak]
  | allocated _ _ hu =>
    obtain ⟨-, hpeak, -⟩ := Usage.charge_eq_ok_iff.mp hu
    exact hpeak ▸ Nat.le_max_left _ _
  | resized _ _ _ _ _ hcredit hu =>
    obtain ⟨-, hcredited, -⟩ := Usage.credit_eq_ok_iff.mp hcredit
    obtain ⟨-, hpeak, -⟩ := Usage.charge_eq_ok_iff.mp hu
    rw [← hcredited]
    exact hpeak ▸ Nat.le_max_left _ _

/-- A request that makes a slot leaves no slot that can be used again. -/
lemma Served.size_eq_or_vacant_eq_nil {reply : Reply (Option Block)} (hc : c.Sound entries)
    (hs : Served c func entries block? length reply entries') :
    reply.context.registry.slots.size = c.registry.slots.size ∨
      reply.context.registry.vacant = [] := by
  cases hs with
  | refused | notGranted | notResized => exact .inl rfl
  | freed _ _ _ hsize => exact .inl hsize
  | allocated _ _ _ hr =>
    rcases hr.size with hsize | ⟨hvacant, -⟩
    · exact .inl hsize
    · exact .inr (hr.vacant_eq_nil hc.holds hvacant fun s hs hs' _ => absurd hs hs')
  | @resized before after old e _ _ _ _ _ _ _ _ _ _ _ _ hr hslot =>
    rcases hr.size with hsize | ⟨hvacant, -⟩
    · exact .inl hsize
    · refine .inr (hr.vacant_eq_nil hc.holds hvacant fun s hs hs' hne => ?_)
      -- the only slot that is left is that of the old block, and only if it is used up
      have hs : s = old.slot := by
        simp only [List.map_append, List.map_cons, List.mem_append, List.mem_cons, not_or] at hs hs'
        rcases hs with hs | hs | hs
        · exact absurd hs hs'.1
        · exact hs
        · exact absurd hs hs'.2
      have hgen : old.generation = maxGeneration := by
        by_contra hstays
        exact hne (hs.trans (hslot hstays).symm)
      rw [hs, hc.holds.age_of_mem (by simp : old ∈ _), hgen, toNat_maxGeneration]

lemma Thrifty.of_eq {c' : Context} (ht : c.Thrifty entries) (hregistry : c'.registry = c.registry)
    (husage : c'.usage = c.usage) : c'.Thrifty entries where
  generation_pos := ht.generation_pos
  size_le := by
    rw [hregistry, husage]
    exact ht.size_le

/-- Each operation keeps a context thrifty. -/
lemma Performed.thrifty {reply : Reply Outcome} (hc : c.Sound entries) (ht : c.Thrifty entries)
    (hp : Performed c entries op reply entries') : reply.context.Thrifty entries' := by
  have hages := hp.ages hc
  have hf := hp.follows hc.holds
  have hc' := hp.sound hc
  cases hp with
  | requested _ hs =>
    refine ⟨fun e he => ?_, ?_⟩
    · rcases hf.mem_or_new e he with hold | hnew
      · exact ht.generation_pos e hold
      · rw [hnew]
        exact Nat.le_add_left 1 _
    · rw [Reply.context_map] at hages hc' ⊢
      have hsize := ht.size_le
      have hexhausted := hages.length_le
      have hpeak := hs.countPeak_le
      rcases hs.size_eq_or_vacant_eq_nil hc with hsame | hvacant
      · omega
      · -- every slot holds a block or is exhausted
        have hsize' := hc'.holds.size_eq
        have hcount := hc'.balanced.count
        have hcountPeak := hc'.balanced.countPeak
        rw [hvacant, List.length_nil, ← hcount] at hsize'
        omega
  | _ => exact ht.of_eq rfl rfl

/-! ### Runs -/

lemma IsNew.thrifty (hc : c.IsNew) : c.Thrifty [] := by
  refine ⟨by simp, ?_⟩
  rw [hc.registry_eq]
  exact Nat.zero_le _

/-- After any run every slot holds a block, is reusable or is exhausted, and apart from the
exhausted ones there are no more slots than there were blocks at a time. Whatever comes after it, no
slot becomes younger, and an exhausted slot neither holds a block again nor becomes reusable. -/
theorem run_conserves (hc : c.IsNew) (ops more : List (Operation Block)) :
    ∃ last replies, c.run ops = .ok (last, replies) ∧ last.Conserved ∧
      ∃ later laterReplies, last.run more = .ok (later, laterReplies) ∧
        ∀ slot d, last.registry.slots[slot]? = some d →
          ∃ d', later.registry.slots[slot]? = some d' ∧ d.generation ≤ d'.generation ∧
            (d.IsExhausted → d'.IsExhausted ∧ slot ∉ later.registry.vacant) := by
  obtain ⟨last, replies, entries, hrun, hlast, hthrifty⟩ :=
    hc.run (fun _ c entries => c.Thrifty entries) hc.thrifty
      (fun hc ht hp => hp.thrifty hc ht) ops
  obtain ⟨later, laterReplies, entries', hmore, hlater, hages⟩ :=
    @Sound.run last entries [] hlast (fun _ c _ => last.registry.Ages c.registry) (.refl _)
      (fun hc hages hp => hages.trans (hp.ages hc)) more
  refine ⟨last, replies, hrun, hlast.conserved hthrifty, later, laterReplies, hmore, ?_⟩
  intro slot d hd
  have hlt : slot < later.registry.slots.size :=
    Nat.lt_of_lt_of_le (Array.getElem?_eq_some_iff.mp hd).1 hages.size_le
  obtain ⟨d', hd'⟩ : ∃ d', later.registry.slots[slot]? = some d' :=
    ⟨_, Array.getElem?_eq_getElem hlt⟩
  refine ⟨d', hd', ?_, fun hexhausted => ?_⟩
  · have hage := hages.age_le slot
    rw [Registry.age_of_getElem? hd, Registry.age_of_getElem? hd'] at hage
    exact UInt32.le_iff_toNat_le.mpr hage
  · have hslot := hages.exhausted_subset (Registry.mem_exhausted.mpr ⟨d, hd, hexhausted⟩)
    obtain ⟨_, heq, hexhausted'⟩ := Registry.mem_exhausted.mp hslot
    cases hd'.symm.trans heq
    refine ⟨hexhausted', fun hvacant => ?_⟩
    obtain ⟨_, heq, -, hgen⟩ := hlater.holds.mem_vacant_iff.mp hvacant
    cases hd'.symm.trans heq
    exact lt_maxGeneration_iff_ne.mp hgen hexhausted'.2

/-- The slot of the first of two blocks becomes reusable and is used again. -/
theorem run_conserves_reused : ∃ last replies later laterReplies d d',
    (create 7 .system).run [.malloc 16, .malloc 8, .free ⟨7, 0, 1⟩] = .ok (last, replies) ∧
    last.Conserved ∧ last.registry.vacant = [0] ∧ last.registry.slots.size = 2 ∧
    last.run [.malloc 4] = .ok (later, laterReplies) ∧ last.registry.slots[0]? = some d ∧
    later.registry.slots[0]? = some d' ∧ d.generation ≤ d'.generation := by
  obtain ⟨last, replies, hrun, hconserved, later, laterReplies, hmore, hslots⟩ :=
    run_conserves (.plain 7 .system) [.malloc 16, .malloc 8, .free ⟨7, 0, 1⟩] [.malloc 4]
  have hvalue : ((create 7 .system).run [.malloc 16, .malloc 8, .free ⟨7, 0, 1⟩]).map
      (fun p => (p.1.registry.vacant, p.1.registry.slots.size)) = .ok ([0], 2) := by
    decide +kernel
  rw [hrun] at hvalue
  obtain ⟨hvacant, hsize⟩ : last.registry.vacant = [0] ∧ last.registry.slots.size = 2 :=
    Prod.mk.inj (Except.ok.inj hvalue)
  obtain ⟨d, hd⟩ : ∃ d, last.registry.slots[0]? = some d :=
    ⟨_, Array.getElem?_eq_getElem (by omega)⟩
  obtain ⟨d', hd', hgeneration, -⟩ := hslots 0 d hd
  exact ⟨last, replies, later, laterReplies, d, d', hrun, hconserved, hvacant, hsize, hmore, hd,
    hd', hgeneration⟩

end Context

end MemoryLedger
