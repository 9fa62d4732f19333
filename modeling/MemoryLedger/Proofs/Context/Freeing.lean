import MemoryLedger.Proofs.Context.Run

/-!
# Freeing several blocks

Freeing a block takes it off the list and ages its slot by one generation. What comes of freeing
several blocks is told by which of them were freed: the others are left, in the order in which they
were, and the slots of these are older by one (`Freed`). Since the blocks and the generations
determine the slot table with all its links, the order in which blocks are freed shows only in the
order of the reusable slots.
-/

namespace MemoryLedger

namespace Context

/-- The slots that handles give. -/
def slotsOf (blocks : List Block) : List Nat := blocks.map fun block => block.slot.toNat

/-- The blocks that are not in the slots of these handles. -/
def outside (blocks : List Block) (entries : List Entry) : List Entry :=
  entries.filter fun e => e.slot ∉ slotsOf blocks

/-- Every other handle that is accepted stays so, for the same slot with the same generation, size
and payload. -/
def Keeps (c : Context) (blocks : List Block) (c' : Context) : Prop :=
  ∀ func other slot d, other ∉ blocks → c.locate func other = .ok (slot, d) →
    ∃ d', c'.locate func other = .ok (slot, d') ∧ d'.bare = d.bare

/-- `freed` is `c` with the slots of these handles aged, and no ceiling or peak is another. -/
structure Freed (c : Context) (blocks : List Block) (freed : Context) : Prop where
  id : freed.id = c.id
  limit : freed.limit = c.limit
  maxBlocks : freed.maxBlocks = c.maxBlocks
  countPeak : freed.usage.countPeak = c.usage.countPeak
  totalPeak : freed.usage.totalPeak = c.usage.totalPeak
  size : freed.registry.slots.size = c.registry.slots.size
  age : ∀ slot, freed.registry.age slot =
    if slot ∈ slotsOf blocks then min (c.registry.age slot + 1) 0xFFFFFFFF
    else c.registry.age slot

/-- The contexts are the same but for their heaps and for the order of their reusable slots. -/
structure Alike (c c' : Context) : Prop where
  id : c'.id = c.id
  head : c'.registry.head = c.registry.head
  slots : c'.registry.slots = c.registry.slots
  vacant : c'.registry.vacant.Perm c.registry.vacant
  usage : c'.usage = c.usage
  limit : c'.limit = c.limit
  maxBlocks : c'.maxBlocks = c.maxBlocks

variable {c c' freed freed' : Context} {entries entries' before after : List Entry} {e : Entry}
  {block : Block} {blocks blocks' : List Block}

/-! ### The blocks that are left -/

lemma mem_outside : e ∈ outside blocks entries ↔ e ∈ entries ∧ e.slot ∉ slotsOf blocks := by
  rw [outside, List.mem_filter, decide_eq_true_iff]

lemma outside_cons (block : Block) (blocks : List Block) (entries : List Entry) :
    outside (block :: blocks) entries = outside blocks (outside [block] entries) := by
  rw [outside, outside, outside, List.filter_filter]
  refine List.filter_congr fun e _ => ?_
  simp [slotsOf, Bool.and_comm]

lemma outside_congr (h : ∀ slot, slot ∈ slotsOf blocks ↔ slot ∈ slotsOf blocks')
    (entries : List Entry) : outside blocks entries = outside blocks' entries := by
  simp only [outside, h]

/-- Without one block, those before it and those after it are left. -/
lemma outside_singleton (h : c.registry.Holds (before ++ e :: after)) (hname : c.Names block e) :
    outside [block] (before ++ e :: after) = before ++ after := by
  have hother : outside [block] (before ++ after) = before ++ after := by
    refine List.filter_eq_self.mpr fun e' he' => ?_
    have hne : e'.slot ≠ e.slot := fun heq => h.slot_notMem (heq ▸ List.mem_map_of_mem he')
    simpa [slotsOf, hname.slot] using hne
  calc outside [block] (before ++ e :: after)
    _ = outside [block] (before ++ after) := by
      simp [outside, slotsOf, hname.slot]
    _ = before ++ after := hother

/-- Two handles of blocks are the same if they give the same slot. -/
lemma slot_notMem_slotsOf (h : c.registry.Holds entries) (he : e ∈ entries)
    (hname : c.Names block e) (hblock : block ∉ blocks)
    (hnames : ∀ b ∈ blocks, ∃ e ∈ entries, c.Names b e) : e.slot ∉ slotsOf blocks := by
  intro hmem
  obtain ⟨b, hb, hslot⟩ := List.mem_map.mp hmem
  obtain ⟨e', he', hname'⟩ := hnames b hb
  obtain rfl : e' = e := h.eq_of_slot_eq he' he (hname'.slot.symm.trans hslot)
  rw [hname.eq_handle, ← hname'.eq_handle] at hblock
  exact hblock hb

lemma mem_outside_of_names (h : c.registry.Holds entries) (he : e ∈ entries)
    (hname : c.Names block e) (hblock : block ∉ blocks)
    (hnames : ∀ b ∈ blocks, ∃ e ∈ entries, c.Names b e) : e ∈ outside blocks entries :=
  mem_outside.mpr ⟨he, slot_notMem_slotsOf h he hname hblock hnames⟩

lemma Names.of_id (hname : c.Names block e) (hid : c'.id = c.id) : c'.Names block e :=
  ⟨hname.context.trans hid.symm, hname.slot, hname.generation⟩

/-- The other handles are kept with the blocks that are left. -/
lemma keeps_of_holds (h : c.registry.Holds entries) (h' : c'.registry.Holds entries')
    (hid : c'.id = c.id) (hnames : ∀ b ∈ blocks, ∃ e ∈ entries, c.Names b e)
    (hleft : ∀ e ∈ outside blocks entries, e ∈ entries') : c.Keeps blocks c' := by
  intro func other slot d hother hlocate
  obtain ⟨e, he, hname⟩ := (locate_isOk_iff h func).mp ⟨_, hlocate⟩
  obtain ⟨d₁, hlocate₁, hbare₁⟩ := locate_of_names h he hname func
  cases hlocate.symm.trans hlocate₁
  have he' : e ∈ entries' := hleft e (mem_outside_of_names h he hname hother hnames)
  obtain ⟨d', hlocate', hbare'⟩ := locate_of_names h' he' (hname.of_id hid) func
  exact ⟨d', hlocate', hbare'.trans hbare₁.symm⟩

/-- In the listing, the blocks that are left are those of the other handles. -/
lemma map_outside (h : c.registry.Holds entries) (hsize : c.registry.slots.size ≤ 2 ^ 32)
    (hnames : ∀ b ∈ blocks, ∃ e ∈ entries, c.Names b e) :
    (outside blocks entries).map (fun e => (⟨e.handle c.id, e.size⟩ : BlockInfo)) =
      (entries.map fun e => (⟨e.handle c.id, e.size⟩ : BlockInfo)).filter
        fun info => info.block ∉ blocks := by
  rw [outside, List.filter_map]
  congr 1
  refine List.filter_congr fun e he => decide_eq_decide.mpr (not_congr ?_)
  have hname : c.Names (e.handle c.id) e := (names_iff_eq_handle h hsize he).mpr rfl
  constructor
  · intro hmem
    by_contra hblock
    exact slot_notMem_slotsOf h he hname hblock hnames hmem
  · intro hblock
    exact hname.slot ▸ List.mem_map_of_mem hblock

/-! ### One block -/

lemma Sound.plan_free (hc : c.Sound entries) (he : e ∈ entries) (hname : c.Names block e)
    (func : String) : c.plan func (some block) 0 = .ok (.free e.slot) := by
  obtain ⟨d, hlocate, hbare⟩ := locate_of_names hc.holds he hname func
  have hcounters : c.checkCounters func d.size = .ok () := by
    rw [Entry.size_of_bare hbare]
    exact if_pos (hc.included he)
  simp only [plan, hlocate, hcounters, ok_bind, if_pos]

/-- In a sound context a block is freed when its handle is given. -/
theorem Sound.free (hc : c.Sound entries) (he : e ∈ entries) (hname : c.Names block e) :
    ∃ freed event, c.perform (.free block) = .ok ⟨.ok .nothing, freed, [event]⟩ ∧
      freed.Sound (outside [block] entries) ∧ c.Freed [block] freed ∧
      c.usage.credit e.size = .ok freed.usage ∧ freed.heap = c.heap.release e.payload := by
  obtain ⟨usage, hu⟩ := hc.exists_credit he
  have hplan := hc.plan_free he hname "free"
  obtain ⟨before, after, rfl⟩ := List.append_of_mem he
  obtain ⟨registry, hrelease, hr, hsize, hage⟩ := release_of_holds hc.holds "free" hu
  have hs : Served c "free" (before ++ e :: after) (some block) 0 _ (before ++ after) :=
    .freed hname hu hr hsize hage
  have hfree : c.perform (.free block) = .ok _ :=
    perform_of_requests .free hs (by simp only [request, hplan, hrelease, ok_bind])
  obtain ⟨-, hcountPeak, -, htotalPeak⟩ := Usage.credit_eq_ok_iff.mp hu
  refine ⟨_, _, hfree, ?_, ?_, hu, rfl⟩
  · rw [outside_singleton hc.holds hname]
    exact hs.sound hc
  · refine ⟨rfl, rfl, rfl, hcountPeak, htotalPeak, hsize, fun slot => ?_⟩
    show registry.age slot = _
    rw [hage, ← hc.holds.age_of_mem he]
    by_cases hslot : slot = e.slot
    · subst hslot
      simp [slotsOf, hname.slot]
    · simp [slotsOf, hname.slot, hslot]

/-! ### Several blocks -/

lemma freed_nil : c.Freed [] c := ⟨rfl, rfl, rfl, rfl, rfl, rfl, fun _ => rfl⟩

/-- After a first block, whose slot none of the others has, the others are freed. -/
lemma Freed.cons (h : c.Freed [block] c') (h' : c'.Freed blocks freed)
    (hslot : block.slot.toNat ∉ slotsOf blocks) : c.Freed (block :: blocks) freed where
  id := h'.id.trans h.id
  limit := h'.limit.trans h.limit
  maxBlocks := h'.maxBlocks.trans h.maxBlocks
  countPeak := h'.countPeak.trans h.countPeak
  totalPeak := h'.totalPeak.trans h.totalPeak
  size := h'.size.trans h.size
  age := by
    intro slot
    rw [h'.age, h.age]
    by_cases hfirst : slot = block.slot.toNat
    · subst hfirst
      rw [if_neg hslot]
      simp [slotsOf]
    · simp [slotsOf, hfirst]

/-- In a sound context blocks are freed when their handles are given, in any order. -/
theorem Sound.run_frees (hc : c.Sound entries) (hnodup : blocks.Nodup)
    (hnames : ∀ b ∈ blocks, ∃ e ∈ entries, c.Names b e) :
    ∃ freed replies, c.run (blocks.map .free) = .ok (freed, replies) ∧
      (∀ reply ∈ replies, reply.result = .ok .nothing) ∧
      freed.Sound (outside blocks entries) ∧ c.Freed blocks freed := by
  induction blocks generalizing c entries with
  | nil =>
    refine ⟨c, [], rfl, by simp, ?_, freed_nil⟩
    simpa [outside, slotsOf] using hc
  | cons block blocks ih =>
    obtain ⟨hblock, hnodup⟩ := List.nodup_cons.mp hnodup
    obtain ⟨⟨e, he, hname⟩, hnames⟩ := List.forall_mem_cons.mp hnames
    obtain ⟨c₁, event, hfree, hc₁, hfreed₁, -⟩ := hc.free he hname
    -- the other handles name the blocks that they named before
    have hnames₁ : ∀ b ∈ blocks, ∃ e ∈ outside [block] entries, c₁.Names b e := by
      intro b hb
      obtain ⟨e', he', hname'⟩ := hnames b hb
      have hne : b ∉ [block] := fun hmem => hblock (List.mem_singleton.mp hmem ▸ hb)
      have hleft : e' ∈ outside [block] entries := mem_outside_of_names hc.holds he' hname' hne
        (List.forall_mem_singleton.mpr ⟨e, he, hname⟩)
      exact ⟨e', hleft, hname'.of_id hfreed₁.id⟩
    obtain ⟨freed, replies, hrun, hresults, hfreed, hages⟩ := ih hc₁ hnodup hnames₁
    have hslot : block.slot.toNat ∉ slotsOf blocks :=
      hname.slot ▸ slot_notMem_slotsOf hc.holds he hname hblock hnames
    refine ⟨freed, ⟨.ok .nothing, c₁, [event]⟩ :: replies, ?_,
      List.forall_mem_cons.mpr ⟨rfl, hresults⟩, ?_, hfreed₁.cons hages hslot⟩
    · rw [List.map_cons, Context.run, hfree, ok_bind, hrun, ok_bind]
    · rw [outside_cons]
      exact hfreed

/-! ### The order in which blocks are freed -/

/-- The counters are determined by the blocks and the peaks. -/
lemma Balanced.usage_eq (h : c.Balanced entries) (h' : c'.Balanced entries)
    (hcountPeak : c'.usage.countPeak = c.usage.countPeak)
    (htotalPeak : c'.usage.totalPeak = c.usage.totalPeak) : c'.usage = c.usage := by
  have hcount : c'.usage.count = c.usage.count :=
    UInt64.toNat_inj.mp (h'.count.trans h.count.symm)
  have htotal : c'.usage.total = c.usage.total :=
    UInt64.toNat_inj.mp (h'.total.trans h.total.symm)
  calc c'.usage
    _ = ⟨c.usage.count, c.usage.countPeak, c.usage.total, c.usage.totalPeak⟩ := by
      rw [← hcount, ← hcountPeak, ← htotal, ← htotalPeak]
    _ = c.usage := rfl

/-- What is left once the same blocks are freed is the same, in whatever order this was done. -/
lemma Freed.alike (h : c.Freed blocks freed) (h' : c.Freed blocks' freed')
    (hslots : ∀ slot, slot ∈ slotsOf blocks ↔ slot ∈ slotsOf blocks')
    (hc : freed.Sound entries) (hc' : freed'.Sound entries) : freed.Alike freed' := by
  have hage : freed'.registry.age = freed.registry.age := by
    funext slot
    simp only [h.age, h'.age, hslots]
  have htable : freed'.registry.slots = freed.registry.slots :=
    hc.holds.slots_eq hc'.holds (h'.size.trans h.size.symm) hage
  exact
    { id := h'.id.trans h.id.symm
      head := hc'.holds.threads.head.trans hc.holds.threads.head.symm
      slots := htable
      vacant := hc.holds.vacant_perm hc'.holds htable
      usage := hc.balanced.usage_eq hc'.balanced (h'.countPeak.trans h.countPeak.symm)
        (h'.totalPeak.trans h.totalPeak.symm)
      limit := h'.limit.trans h.limit.symm
      maxBlocks := h'.maxBlocks.trans h.maxBlocks.symm }

/-- Freeing the blocks of these handles one after the other succeeds throughout and leads to
`freed`. The other handles are kept, and as long as slot numbers fit 32 bits the listing shows
their blocks in the order in which they were. -/
structure Frees (c : Context) (blocks : List Block) (freed : Context) : Prop where
  run : ∃ replies, c.run (blocks.map .free) = .ok (freed, replies) ∧
    ∀ reply ∈ replies, reply.result = .ok .nothing
  keeps : c.Keeps blocks freed
  lists : c.registry.slots.size ≤ 2 ^ 32 →
    ∃ infos, c.Lists infos ∧ freed.Lists (infos.filter fun info => info.block ∉ blocks)

lemma Sound.exists_frees (hc : c.Sound entries) (hnodup : blocks.Nodup)
    (hnames : ∀ b ∈ blocks, ∃ e ∈ entries, c.Names b e) :
    ∃ freed, c.Frees blocks freed ∧ freed.Sound (outside blocks entries) ∧
      c.Freed blocks freed := by
  obtain ⟨freed, replies, hrun, hresults, hfreed, hages⟩ := hc.run_frees hnodup hnames
  refine ⟨freed, ⟨⟨replies, hrun, hresults⟩, ?_, fun hsize => ?_⟩, hfreed, hages⟩
  · exact keeps_of_holds hc.holds hfreed.holds hages.id hnames fun _ he => he
  · refine ⟨_, lists_of_holds hc.holds, ?_⟩
    rw [← map_outside hc.holds hsize hnames, ← hages.id]
    exact lists_of_holds hfreed.holds

/-- After any run, blocks can be freed in any order: each free succeeds, the other blocks keep
their handles and their order, and what comes of it differs at most in the order of the reusable
slots, and in the heap. -/
theorem run_frees_commute (hc : c.IsNew) (ops : List (Operation Block)) :
    ∃ last replies, c.run ops = .ok (last, replies) ∧
      ∀ blocks blocks' : List Block, blocks.Nodup →
        (∀ b ∈ blocks, ∃ found, last.locate "resolve" b = .ok found) → blocks.Perm blocks' →
        ∃ freed freed', last.Frees blocks freed ∧ last.Frees blocks' freed' ∧
          freed.Alike freed' := by
  obtain ⟨last, replies, entries, hrun, hlast⟩ := hc.run_sound ops
  refine ⟨last, replies, hrun, fun blocks blocks' hnodup hlocate hperm => ?_⟩
  have hnames : ∀ b ∈ blocks, ∃ e ∈ entries, last.Names b e := fun b hb =>
    (locate_isOk_iff hlast.holds _).mp (hlocate b hb)
  have hslots : ∀ slot, slot ∈ slotsOf blocks ↔ slot ∈ slotsOf blocks' := fun _ =>
    (hperm.map _).mem_iff
  obtain ⟨freed, hfrees, hfreed, hages⟩ := hlast.exists_frees hnodup hnames
  obtain ⟨freed', hfrees', hfreed', hages'⟩ :=
    hlast.exists_frees (hperm.nodup_iff.mp hnodup) fun b hb => hnames b (hperm.mem_iff.mpr hb)
  rw [← outside_congr hslots] at hfreed'
  exact ⟨freed, freed', hfrees, hfrees', hages.alike hages' hslots hfreed hfreed'⟩

/-- Of four blocks the two oldest and the newest are freed, in two orders. -/
theorem run_frees_commute_three : ∃ last replies freed freed',
    (create 7 .system).run [.malloc 16, .malloc 8, .malloc 4, .malloc 2] = .ok (last, replies) ∧
      last.Frees [⟨7, 0, 1⟩, ⟨7, 1, 1⟩, ⟨7, 3, 1⟩] freed ∧
      last.Frees [⟨7, 3, 1⟩, ⟨7, 0, 1⟩, ⟨7, 1, 1⟩] freed' ∧ freed.Alike freed' ∧
      freed.registry.vacant = [3, 1, 0] ∧ freed'.registry.vacant = [1, 0, 3] := by
  let ops : List (Operation Block) := [.malloc 16, .malloc 8, .malloc 4, .malloc 2]
  let blocks : List Block := [⟨7, 0, 1⟩, ⟨7, 1, 1⟩, ⟨7, 3, 1⟩]
  let blocks' : List Block := [⟨7, 3, 1⟩, ⟨7, 0, 1⟩, ⟨7, 1, 1⟩]
  obtain ⟨last, replies, hrun, hfrees⟩ := run_frees_commute (.plain 7 .system) ops
  have hvalue : ((create 7 .system).run ops).map (fun p =>
      (blocks.all fun b => (p.1.locate "resolve" b).toBool,
        (p.1.run (blocks.map .free)).map fun q => q.1.registry.vacant,
        (p.1.run (blocks'.map .free)).map fun q => q.1.registry.vacant)) =
      .ok (true, .ok [3, 1, 0], .ok [1, 0, 3]) := by decide +kernel
  rw [hrun] at hvalue
  obtain ⟨hlive, hvalue⟩ := Prod.mk.inj (Except.ok.inj hvalue)
  obtain ⟨hvacant, hvacant'⟩ := Prod.mk.inj hvalue
  have hlocate : ∀ b ∈ blocks, ∃ found, last.locate "resolve" b = .ok found := fun b hb =>
    exists_eq_ok_of_toBool (List.all_eq_true.mp hlive b hb)
  have hperm : blocks.Perm blocks' := by decide
  obtain ⟨freed, freed', hfreed, hfreed', halike⟩ :=
    hfrees blocks blocks' (by decide) hlocate hperm
  obtain ⟨_, hrunFreed, -⟩ := hfreed.run
  obtain ⟨_, hrunFreed', -⟩ := hfreed'.run
  rw [hrunFreed] at hvacant
  rw [hrunFreed'] at hvacant'
  exact ⟨last, replies, freed, freed', hrun, hfreed, hfreed', halike, Except.ok.inj hvacant,
    Except.ok.inj hvacant'⟩

end Context

end MemoryLedger
