import MemoryLedger.Proofs.Context.Ceiling
import MemoryLedger.Proofs.Context.Resolution

/-!
# A slot number that does not fit

After `3 * (2 ^ 32 - 1)` operations, a context can give out a handle for the slot `2 ^ 32`. First it
takes in as many blocks as it may hold, in as many slots. Then the newest block is resized until its
slot is used up, and moves to a new slot, the last one that a handle can name. Resized as often
again, it moves to another new slot. The handle that is given out now is the one of the oldest
block, which is still there.
-/

namespace MemoryLedger

namespace Heap

variable {h : Heap}

/-- The heap grants every request for a single byte. -/
structure Generous (h : Heap) : Prop where
  willing : ∀ n, h.willing n = true
  capacity : 1 ≤ h.capacity

lemma Generous.of_eq {h' : Heap} (hh : h.Generous) (hwilling : h'.willing = h.willing)
    (hcapacity : h'.capacity = h.capacity) : h'.Generous where
  willing := hwilling ▸ hh.willing
  capacity := hcapacity ▸ hh.capacity

lemma Generous.grants (hh : h.Generous) : h.grants 1 = true := by
  rw [Heap.grants, hh.willing, Bool.true_and, decide_eq_true_iff]
  exact hh.capacity

lemma Generous.allocate (hh : h.Generous) :
    ∃ id h', h.allocate 1 = (some id, h') ∧ h'.Generous :=
  ⟨_, _, if_pos hh.grants, hh.of_eq rfl rfl⟩

lemma Generous.reallocate (hh : h.Generous) (id : Nat) :
    (h.reallocate id 1).1 = true ∧ (h.reallocate id 1).2.Generous := by
  rw [Heap.reallocate, if_pos hh.grants]
  exact ⟨rfl, hh.of_eq rfl rfl⟩

end Heap

namespace Context

/-- A context with the id `id` that holds blocks of one byte each, as many as it has slots that are
not used up, and that would take in as many blocks as there can be. -/
structure Packed (id : UInt32) (c : Context) (entries : List Entry) : Prop where
  id : c.id = id
  sound : c.Sound entries
  limit : c.limit = maxWord
  maxBlocks : c.maxBlocks = maxBlocksCeiling
  heap : c.heap.Generous
  vacant : c.registry.vacant = []
  length : ∀ e ∈ entries, e.length = 1

variable {id : UInt32} {c : Context} {entries rest : List Entry} {e : Entry}

lemma bytes_of_length (h : ∀ e ∈ entries, e.length = 1) :
    Registry.bytes entries = 57 * entries.length := by
  induction entries with
  | nil => rfl
  | cons e entries ih =>
    obtain ⟨he, hrest⟩ := List.forall_mem_cons.mp h
    rw [Registry.bytes_cons, ih hrest, List.length_cons, e.toNat_size, he]
    show 1 + 56 + _ = _
    omega

lemma Packed.count_eq (hp : Packed id c entries) : c.usage.count.toNat = entries.length :=
  hp.sound.balanced.count

lemma Packed.total_eq (hp : Packed id c entries) : c.usage.total.toNat = 57 * entries.length :=
  hp.sound.balanced.total.trans (bytes_of_length hp.length)

/-- There is room for one block more beside fewer blocks than there can be. -/
lemma Packed.hasRoom (hp : Packed id c entries) {others : Nat} (h : others < 2 ^ 32 - 1) :
    c.HasRoom ((1 : UInt64).toNat + 56) others (57 * others) := by
  refine ⟨?_, ?_⟩
  · rw [hp.limit, UInt64.toNat_one, toNat_maxWord]
    omega
  · rw [hp.maxBlocks]
    exact h

/-! ### One operation -/

lemma issued_of_result {reply : Reply (Option Block)} {block : Block}
    (h : reply.result = .ok (some block)) : (reply.map outcome).issued = some block := by
  rw [Reply.map, h]
  rfl

/-- A block of one byte that is entered leaves the context packed, if every slot that a block has
left is used up. -/
lemma Packed.enter {func : String} {block? : Option Block} {length : UInt64}
    {reply : Reply (Option Block)} (hp : Packed id c entries)
    (hs : Served c func entries block? length reply (e :: rest)) (hlength : e.length = 1)
    (hr : c.registry.Entered reply.context.registry e rest) (hrest : ∀ e' ∈ rest, e' ∈ entries)
    (hheap : reply.context.heap.Generous)
    (hleft : ∀ s ∈ entries.map Entry.slot, s ∉ rest.map Entry.slot → s ≠ e.slot →
      c.registry.age s = 0xFFFFFFFF) : Packed id reply.context (e :: rest) where
  id := (hs.follows hp.sound.holds).id.trans hp.id
  sound := hs.sound hp.sound
  limit := hs.ceilings.2.trans hp.limit
  maxBlocks := hs.ceilings.1.trans hp.maxBlocks
  heap := hheap
  vacant := hr.vacant_eq_nil hp.sound.holds hp.vacant hleft
  length := List.forall_mem_cons.mpr ⟨hlength, fun e' he' => hp.length e' (hrest e' he')⟩

/-- One block more comes to a new slot. -/
lemma Packed.malloc (hp : Packed id c entries) (hroom : entries.length < 2 ^ 32 - 1) :
    ∃ reply e, c.perform (.malloc 1) = .ok reply ∧ reply.issued = some (e.handle id) ∧
      Packed id reply.context (e :: entries) ∧ e.slot = c.registry.slots.size ∧
      reply.context.registry.slots.size = e.slot + 1 ∧ e.generation.toNat = 1 := by
  have hroom' : c.HasRoom ((1 : UInt64).toNat + 56) c.usage.count.toNat c.usage.total.toNat := by
    rw [hp.count_eq, hp.total_eq]
    exact hp.hasRoom hroom
  obtain ⟨payload, heap, hheap, hgenerous⟩ := hp.heap.allocate
  obtain ⟨served, entries', hrequest, hs⟩ :=
    request_served hp.sound.holds hp.sound.maxBlocks_le "malloc" none 1
  obtain ⟨e, rfl, hlength, hresult, hr, rfl⟩ :=
    hs.allocated_of_granted (plan_none_of_hasRoom (by decide) hroom') hheap
  obtain ⟨hslot, hsize⟩ := hr.slot_eq_size hp.sound.holds hp.vacant fun s hs hnot => absurd hs hnot
  refine ⟨_, e, perform_of_requests (.malloc (by decide)) hs hrequest, ?_, ?_, hslot,
    hsize.trans (hslot ▸ rfl), ?_⟩
  · rw [issued_of_result hresult, hp.id]
  · exact hp.enter hs hlength hr (fun _ he' => he') hgenerous fun s hs hnot => absurd hs hnot
  · rw [hr.generation, hslot, Registry.age_of_size_le (Nat.le_refl _)]

/-- The block with the slot of the newest one is the newest one. -/
lemma others_eq_of_slot_eq {before after : List Entry} {e' : Entry}
    (h : c.registry.Holds (e :: rest)) (hentries : e :: rest = before ++ e' :: after)
    (hslot : e'.slot = e.slot) : e' = e ∧ before ++ after = rest := by
  cases before with
  | nil =>
    cases hentries
    exact ⟨rfl, rfl⟩
  | cons first before =>
    have hnot := Registry.Holds.slot_notMem (hentries ▸ h)
    obtain ⟨rfl, -⟩ := List.cons.inj hentries
    rw [hslot] at hnot
    exact absurd List.mem_cons_self hnot

/-- The newest block is resized, which leaves the other ones where they are. -/
lemma Packed.realloc (hp : Packed id c (e :: rest)) (hslot : e.slot < 2 ^ 32) :
    ∃ reply e', c.perform (.realloc (e.handle id) 1 1) = .ok reply ∧
      reply.issued = some (e'.handle id) ∧ Packed id reply.context (e' :: rest) ∧
      c.registry.Entered reply.context.registry e' rest ∧
      (e.generation ≠ maxGeneration → e'.slot = e.slot) := by
  have he : e ∈ e :: rest := List.mem_cons_self
  have hname : c.Names (e.handle id) e := hp.id ▸ names_handle_iff.mpr hslot
  have harray : arrayLength "realloc" 1 1 = .ok 1 := by decide
  have hsize : e.size.toNat = 57 := by
    rw [e.toNat_size, hp.length e he]
    rfl
  have hcount : c.usage.count.toNat = rest.length + 1 := hp.count_eq
  have htotal : c.usage.total.toNat = 57 * (rest.length + 1) := hp.total_eq
  have hbound : (e :: rest).length ≤ c.maxBlocks.toNat := hp.sound.balanced.count_le
  rw [hp.maxBlocks] at hbound
  have hroom : c.HasRoom ((1 : UInt64).toNat + 56) (c.usage.count.toNat - 1)
      (c.usage.total.toNat - e.size.toNat) := by
    rw [hcount, htotal, hsize]
    exact hp.hasRoom hbound
  obtain ⟨old, -, hplan⟩ := plan_some_of_hasRoom hp.sound.holds he hname (by omega) (by omega)
    (by decide) (by decide) hroom "realloc"
  obtain ⟨served, entries', hrequest, hs⟩ :=
    request_served hp.sound.holds hp.sound.maxBlocks_le "realloc" (some (e.handle id)) 1
  obtain ⟨before, named, after, e', hentries, rfl, hname', hlength, hresult, hr, hstays, hheap⟩ :=
    hs.resized_of_granted (by decide) hplan fun payload => (hp.heap.reallocate payload).1
  obtain ⟨rfl, rfl⟩ := others_eq_of_slot_eq hp.sound.holds hentries
    (hname'.slot.symm.trans hname.slot)
  have hgenerous : served.context.heap.Generous := hheap ▸ (hp.heap.reallocate _).2
  have hop : Operation.Requests (.realloc (named.handle id) 1 1) "realloc" _ 1 := .realloc harray
  refine ⟨_, e', perform_of_requests hop hs hrequest, ?_, ?_, hr, hstays⟩
  · rw [issued_of_result hresult, hp.id]
  · refine hp.enter hs hlength hr (fun _ => List.mem_cons_of_mem _) hgenerous ?_
    -- the slot that is left is used up, or else it is not left
    intro s hmem hnot hne
    have hs : s = named.slot := (List.mem_cons.mp hmem).resolve_right hnot
    subst hs
    have hused : named.generation = maxGeneration := by
      by_contra hstay
      exact hne (hstays hstay).symm
    rw [hp.sound.holds.age_of_mem he, hused]
    rfl

/-! ### Many operations -/

/-- So many operations lead from one context to another, and give these handles out. -/
def Reaches (c : Context) (operations : Nat) (c' : Context) (blocks : List Block) : Prop :=
  ∃ ops replies, ops.length = operations ∧ c.run ops = .ok (c', replies) ∧
    replies.filterMap Reply.issued = blocks

lemma reaches_self : Reaches c 0 c [] := ⟨[], [], rfl, rfl, rfl⟩

lemma reaches_of_perform {op : Operation Block} {reply : Reply Outcome} {block : Block}
    (h : c.perform op = .ok reply) (hissued : reply.issued = some block) :
    Reaches c 1 reply.context [block] := by
  refine ⟨[op], [reply], rfl, ?_, by simp [hissued]⟩
  rw [Context.run, h]
  rfl

lemma Reaches.trans {c₁ c₂ : Context} {m n : Nat} {blocks more : List Block}
    (h : Reaches c m c₁ blocks) (h' : Reaches c₁ n c₂ more) :
    Reaches c (m + n) c₂ (blocks ++ more) := by
  obtain ⟨ops, replies, rfl, hrun, rfl⟩ := h
  obtain ⟨ops', replies', rfl, hrun', rfl⟩ := h'
  exact ⟨_, _, List.length_append, run_append hrun hrun', List.filterMap_append⟩

/-- The newest block of a packed context is in the last slot. -/
structure Poised (id : UInt32) (c : Context) (e : Entry) (rest : List Entry) : Prop where
  packed : Packed id c (e :: rest)
  slot : e.slot + 1 = c.registry.slots.size

/-- One block after the other comes to a new slot. -/
lemma Poised.mallocs (hp : Poised id c e rest) (hgen : e.generation.toNat = 1) (n : Nat)
    (hroom : rest.length + 1 + n ≤ 2 ^ 32 - 1) :
    ∃ c' e' rest' blocks, Reaches c n c' blocks ∧ Poised id c' e' rest' ∧ e'.slot = e.slot + n ∧
      e'.generation.toNat = 1 ∧ ∀ x ∈ e :: rest, x ∈ e' :: rest' := by
  induction n generalizing c e rest with
  | zero => exact ⟨c, e, rest, [], reaches_self, hp, rfl, hgen, fun x hx => hx⟩
  | succ n ih =>
    obtain ⟨reply, e₁, hreply, hissued, hp₁, hslot, hsize, hgen₁⟩ :=
      hp.packed.malloc (by rw [List.length_cons]; omega)
    obtain ⟨c', e', rest', blocks, hreaches, hp', hslot', hgen', hmem⟩ :=
      ih ⟨hp₁, hsize.symm⟩ hgen₁ (by rw [List.length_cons]; omega)
    refine ⟨c', e', rest', [e₁.handle id] ++ blocks, ?_, hp', ?_, hgen',
      fun x hx => hmem x (List.mem_cons_of_mem _ hx)⟩
    · rw [Nat.add_comm n]
      exact (reaches_of_perform hreply hissued).trans hreaches
    · have := hp.slot
      omega

/-- The newest block is resized and stays in its slot, whose generation goes up. -/
lemma Poised.stay (hp : Poised id c e rest) (hslot : e.slot < 2 ^ 32)
    (hgen : e.generation ≠ maxGeneration) :
    ∃ c' e' block, Reaches c 1 c' [block] ∧ Poised id c' e' rest ∧ e'.slot = e.slot ∧
      e'.generation.toNat = e.generation.toNat + 1 := by
  obtain ⟨reply, e', hreply, hissued, hp', hr, hstays⟩ := hp.packed.realloc hslot
  have hsame : e'.slot = e.slot := hstays hgen
  refine ⟨reply.context, e', _, reaches_of_perform hreply hissued, ⟨hp', ?_⟩, hsame, ?_⟩
  · rw [hsame, hp.slot]
    rcases hr.size with hsize | ⟨-, hnew, -⟩
    · exact hsize.symm
    · have := hp.slot
      omega
  · rw [hr.generation, hsame, hp.packed.sound.holds.age_of_mem List.mem_cons_self]

/-- The newest block is resized when its slot is used up, and moves to a new slot. -/
lemma Poised.move (hp : Poised id c e rest) (hslot : e.slot < 2 ^ 32)
    (hgen : e.generation = maxGeneration) :
    ∃ reply e', c.perform (.realloc (e.handle id) 1 1) = .ok reply ∧
      reply.issued = some (e'.handle id) ∧ Poised id reply.context e' rest ∧
      e'.slot = e.slot + 1 ∧ e'.generation.toNat = 1 := by
  obtain ⟨reply, e', hreply, hissued, hp', hr, -⟩ := hp.packed.realloc hslot
  have hholds := hp.packed.sound.holds
  obtain ⟨hnew, hsize⟩ := hr.slot_eq_size hholds hp.packed.vacant fun s hmem hnot => by
    rw [(List.mem_cons.mp hmem).resolve_right hnot, hholds.age_of_mem List.mem_cons_self, hgen]
    rfl
  refine ⟨reply, e', hreply, hissued, ⟨hp', hsize ▸ hnew ▸ rfl⟩, hnew.trans hp.slot.symm, ?_⟩
  rw [hr.generation, hnew, Registry.age_of_size_le (Nat.le_refl _)]

/-- The newest block is resized so many times that it is about to move. -/
lemma Poised.stays (hp : Poised id c e rest) (hslot : e.slot < 2 ^ 32) (n : Nat)
    (hgen : e.generation.toNat + n ≤ 2 ^ 32 - 1) :
    ∃ c' e' blocks, Reaches c n c' blocks ∧ Poised id c' e' rest ∧ e'.slot = e.slot ∧
      e'.generation.toNat = e.generation.toNat + n := by
  induction n generalizing c e with
  | zero => exact ⟨c, e, [], reaches_self, hp, rfl, rfl⟩
  | succ n ih =>
    have hne : e.generation ≠ maxGeneration := fun heq => by
      rw [heq, toNat_maxGeneration] at hgen
      omega
    obtain ⟨c₁, e₁, block, hreaches₁, hp₁, hslot₁, hgen₁⟩ := hp.stay hslot hne
    obtain ⟨c', e', blocks, hreaches, hp', hslot', hgen'⟩ :=
      ih hp₁ (hslot₁ ▸ hslot) (by omega)
    refine ⟨c', e', [block] ++ blocks, ?_, hp', hslot'.trans hslot₁, by omega⟩
    rw [Nat.add_comm n]
    exact hreaches₁.trans hreaches

/-- The slot of the newest block is used up, and with the next operation the block moves. -/
lemma Poised.wearOut (hp : Poised id c e rest) (hslot : e.slot < 2 ^ 32)
    (hgen : e.generation.toNat = 1) :
    ∃ c' e' op reply blocks, Reaches c (2 ^ 32 - 2) c' blocks ∧ c'.perform op = .ok reply ∧
      reply.issued = some (e'.handle id) ∧ Poised id reply.context e' rest ∧
      e'.slot = e.slot + 1 ∧ e'.generation.toNat = 1 := by
  obtain ⟨c', e', blocks, hreaches, hp', hslot', hgen'⟩ :=
    hp.stays hslot (2 ^ 32 - 2) (by omega)
  have hused : e'.generation = maxGeneration := UInt32.toNat_inj.mp (by
    rw [hgen', hgen]
    rfl)
  obtain ⟨reply, e'', hreply, hissued, hp'', hslot'', hgen''⟩ :=
    hp'.move (hslot' ▸ hslot) hused
  exact ⟨c', e'', _, reply, blocks, hreaches, hreply, hissued, hp'', hslot' ▸ hslot'', hgen''⟩

/-! ### The run -/

/-- A new context is packed if it may hold as many blocks as there can be. -/
lemma IsNew.packed (hc : c.IsNew) (hlimit : c.limit = maxWord)
    (hmax : c.maxBlocks = maxBlocksCeiling) (hheap : c.heap.Generous) : Packed c.id c [] where
  id := rfl
  sound := hc.sound
  limit := hlimit
  maxBlocks := hmax
  heap := hheap
  vacant := by rw [hc.registry_eq]
  length := by simp

/-- A block whose slot number is by `2 ^ 32` greater has the same handle. -/
lemma handle_eq_of_slot {e' : Entry} (hslot : e'.slot = e.slot + 2 ^ 32)
    (hgen : e'.generation = e.generation) : e'.handle id = e.handle id := by
  have hslots : e'.slot.toUInt32 = e.slot.toUInt32 := by
    apply UInt32.toNat_inj.mp
    rw [UInt32.toNat_ofNat', UInt32.toNat_ofNat', hslot]
    omega
  rw [Entry.handle, Entry.handle, Block.ofSlot, Block.ofSlot, hslots, hgen]

/-- A context that may hold as many blocks as there can be comes to give a handle out for the second
time while the block that it was given out for first is still there. The handle does not resolve to
the new block, but to the old one. -/
theorem IsNew.exists_overrun (hc : c.IsNew) (hlimit : c.limit = maxWord)
    (hmax : c.maxBlocks = maxBlocksCeiling) (hheap : c.heap.Generous) :
    ∃ ops last replies op reply block found, ops.length + 1 = 3 * (2 ^ 32 - 1) ∧
      c.run ops = .ok (last, replies) ∧ last.perform op = .ok reply ∧
      reply.issued = some block ∧ ¬ reply.context.Resolves block op.length ∧
      block ∈ replies.filterMap Reply.issued ∧
      reply.context.locate "resolve" block = .ok found := by
  have hsize : c.registry.slots.size = 0 := by
    rw [hc.registry_eq]
    rfl
  -- the first block
  obtain ⟨reply₀, e₀, hreply₀, hissued₀, hp₀, hslot₀, hsize₀, hgen₀⟩ :=
    (hc.packed hlimit hmax hheap).malloc (by decide)
  rw [hsize] at hslot₀
  -- as many blocks as there can be
  obtain ⟨c₁, e₁, rest, blocks₁, hreaches₁, hp₁, hslot₁, hgen₁, hmem₁⟩ :=
    Poised.mallocs ⟨hp₀, hsize₀.symm⟩ hgen₀ (2 ^ 32 - 2) (by decide)
  -- the newest block comes to the slots `2 ^ 32 - 1` and `2 ^ 32`
  obtain ⟨c₂, e₂, op₂, reply₂, blocks₂, hreaches₂, hreply₂, hissued₂, hp₂, hslot₂, hgen₂⟩ :=
    hp₁.wearOut (by omega) hgen₁
  obtain ⟨c₃, e₃, op₃, reply₃, blocks₃, hreaches₃, hreply₃, hissued₃, hp₃, hslot₃, hgen₃⟩ :=
    hp₂.wearOut (by omega) hgen₂
  obtain ⟨ops, replies, hlength, hrun, hblocks⟩ :=
    ((((reaches_of_perform hreply₀ hissued₀).trans hreaches₁).trans hreaches₂).trans
      (reaches_of_perform hreply₂ hissued₂)).trans hreaches₃
  have hhandle : e₃.handle c.id = e₀.handle c.id :=
    handle_eq_of_slot (by omega) (UInt32.toNat_inj.mp (hgen₃.trans hgen₀.symm))
  have hholds := hp₃.packed.sound.holds
  have hmem : e₀ ∈ e₃ :: rest := by
    refine List.mem_cons_of_mem _ ((List.mem_cons.mp (hmem₁ e₀ List.mem_cons_self)).resolve_left ?_)
    rintro rfl
    omega
  have hname : reply₃.context.Names (e₀.handle c.id) e₀ :=
    hp₃.packed.id ▸ names_handle_iff.mpr (by omega)
  obtain ⟨d, hd, -⟩ := locate_of_names hholds hmem hname "resolve"
  refine ⟨ops, c₃, replies, op₃, reply₃, e₀.handle c.id, _, by omega, hrun, hreply₃,
    hhandle ▸ hissued₃, fun hresolves => ?_, ?_, hd⟩
  · rw [← hhandle, ← hp₃.packed.id] at hresolves
    have hlt := hresolves.slot_lt hholds
    omega
  · rw [hblocks]
    simp

/-- With `3 * (2 ^ 32 - 1)` operations, the last handle need not resolve any more. -/
theorem run_overrun : ∃ c ops last replies op reply block, IsNew c ∧
    ops.length + 1 = 3 * (2 ^ 32 - 1) ∧ c.run ops = .ok (last, replies) ∧
    last.perform op = .ok reply ∧ reply.issued = some block ∧
    ¬ reply.context.Resolves block op.length := by
  obtain ⟨c, hc⟩ : ∃ c, (Context.configured 7 .system ⟨none, maxBlocksCeiling⟩).1 = .ok c :=
    ⟨_, rfl⟩
  have hnew : c.IsNew := .configured hc
  have heq := configured_eq_ok hc
  obtain ⟨ops, last, replies, op, reply, block, -, hops, hrun, hreply, hissued, hnot, -⟩ :=
    hnew.exists_overrun (heq ▸ rfl) (heq ▸ rfl) (heq ▸ ⟨fun _ => rfl, by decide⟩)
  exact ⟨c, ops, last, replies, op, reply, block, hnew, hops, hrun, hreply, hissued, hnot⟩

end Context

end MemoryLedger
