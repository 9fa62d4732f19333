import MemoryLedger.Context.Request
import MemoryLedger.Proofs.Context.Handle
import MemoryLedger.Proofs.Registry.Lifecycle

/-!
# What a request does

`Context.Served` lists all that can come of a request to a context that holds `entries`: it is
refused by the plan, the heap refuses, a block is freed, allocated or resized. Each case tells the
reply as a whole, the blocks afterwards and what became of the generations of the slots.
`request_served` says that a request always comes to one of these; it asks nothing of the counters,
which may be any.
-/

namespace MemoryLedger

/-! ### Counters -/

namespace Usage

lemma exists_credit {u : Usage} {size : UInt64} (hcount : 1 ≤ u.count.toNat)
    (htotal : size.toNat ≤ u.total.toNat) : ∃ v, u.credit size = .ok v := by
  have hcount' : 1 ≤ u.count := UInt64.le_iff_toNat_le.mpr hcount
  have htotal' : size ≤ u.total := UInt64.le_iff_toNat_le.mpr htotal
  have hc : subChecked u.count 1 = .ok (u.count - 1) := if_pos hcount'
  have ht : subChecked u.total size = .ok (u.total - size) := if_pos htotal'
  exact ⟨_, by rw [credit, hc, ok_bind, ht, ok_bind]⟩

lemma exists_charge {u : Usage} {size : UInt64} (hcount : u.count.toNat + 1 < 2 ^ 64)
    (htotal : u.total.toNat + size.toNat < 2 ^ 64) : ∃ v, u.charge size = .ok v := by
  have hc : addChecked u.count 1 = .ok (u.count + 1) := if_pos hcount
  have ht : addChecked u.total size = .ok (u.total + size) := if_pos htotal
  exact ⟨_, by rw [charge, hc, ok_bind, ht, ok_bind]⟩

end Usage

namespace Context

variable {c : Context} {entries before after : List Entry} {e : Entry} {block : Block}
  {func : String} {length : UInt64}

/-! ### The plan -/

/-- Beside `count` blocks of `total` bytes there is room for `size` bytes more. -/
structure HasRoom (c : Context) (size count total : Nat) : Prop where
  bytes : total + size ≤ c.limit.toNat
  blocks : count < c.maxBlocks.toNat

lemma chargeOf_eq_ok {charge : UInt64} (h : chargeOf func length = .ok charge) :
    length ≤ maxWord - descriptorSize ∧ charge = length + descriptorSize := by
  rw [chargeOf] at h
  split at h
  next => cases h
  next hle =>
    cases h
    exact ⟨UInt64.not_lt.mp hle, rfl⟩

lemma checkRoom_eq_ok {charge count total : UInt64}
    (h : c.checkRoom func charge count total = .ok ()) (hpos : 0 < charge.toNat) :
    c.HasRoom charge.toNat count.toNat total.toNat := by
  rw [checkRoom] at h
  split at h
  next => cases h
  next hbytes =>
    split at h
    next => cases h
    next hblocks =>
      have hbytes' := UInt64.le_iff_toNat_le.mp (UInt64.not_lt.mp hbytes)
      rw [toNat_subSaturating] at hbytes'
      exact ⟨by omega, UInt64.lt_iff_toNat_lt.mp (UInt64.not_le.mp hblocks)⟩

lemma toNat_add_descriptorSize (h : length ≤ maxWord - descriptorSize) :
    (length + descriptorSize).toNat = length.toNat + 56 :=
  (⟨0, 0, length, 0, h⟩ : Entry).toNat_size

/-- The size of a block is formed without a check, but is exact. -/
theorem addChecked_of_chargeOf {charge : UInt64} (h : chargeOf func length = .ok charge) :
    addChecked length descriptorSize = .ok charge := by
  obtain ⟨hlength, rfl⟩ := chargeOf_eq_ok h
  rw [addChecked_eq_ok_iff, toNat_add_descriptorSize hlength, toNat_descriptorSize]

lemma plan_none_eq_ok {p : Plan} (h : c.plan func none length = .ok p) :
    length ≤ maxWord - descriptorSize ∧ p = .allocate (length + descriptorSize) ∧
      c.HasRoom (length.toNat + 56) c.usage.count.toNat c.usage.total.toNat := by
  simp only [plan, bind_eq_ok_iff] at h
  obtain ⟨charge, hcharge, ⟨⟩, hroom, hp⟩ := h
  obtain ⟨hlength, rfl⟩ := chargeOf_eq_ok hcharge
  have hsize := toNat_add_descriptorSize hlength
  have hroom' := checkRoom_eq_ok hroom (by omega)
  rw [hsize] at hroom'
  exact ⟨hlength, (Except.ok.inj hp).symm, hroom'⟩

/-- A plan with a handle is for the block that the handle names, which the counters include. -/
lemma plan_some_eq_ok {p : Plan} (h : c.registry.Holds entries)
    (hplan : c.plan func (some block) length = .ok p) :
    ∃ e ∈ entries, c.Names block e ∧ 1 ≤ c.usage.count.toNat ∧
      e.size.toNat ≤ c.usage.total.toNat ∧
      (length = 0 ∧ p = .free e.slot ∨
        length ≠ 0 ∧ length ≤ maxWord - descriptorSize ∧
          c.HasRoom (length.toNat + 56) (c.usage.count.toNat - 1)
            (c.usage.total.toNat - e.size.toNat) ∧
          ∃ old, old.bare = e.descriptor ∧
            p = .resize e.slot old e.payload (length + descriptorSize)) := by
  simp only [plan, bind_eq_ok_iff] at hplan
  obtain ⟨⟨slot, old⟩, hlocate, ⟨⟩, hcounters, hp⟩ := hplan
  obtain ⟨e, he, hn⟩ := (locate_isOk_iff h func).mp ⟨_, hlocate⟩
  obtain ⟨d, hd, hbare⟩ := locate_of_names h he hn func
  cases hlocate.symm.trans hd
  have hsize : old.size = e.size := Entry.size_of_bare hbare
  have hpayload : old.payload = some e.payload := Entry.payload_of_bare hbare
  obtain ⟨hcount, htotal⟩ : 1 ≤ c.usage.count ∧ old.size ≤ c.usage.total := by
    rw [checkCounters] at hcounters
    split at hcounters
    next hc => exact hc
    next => cases hcounters
  rw [hsize] at htotal
  have hcount' : 1 ≤ c.usage.count.toNat := UInt64.le_iff_toNat_le.mp hcount
  have htotal' : e.size.toNat ≤ c.usage.total.toNat := UInt64.le_iff_toNat_le.mp htotal
  refine ⟨e, he, hn, hcount', htotal', ?_⟩
  split at hp
  next hzero => exact .inl ⟨hzero, (Except.ok.inj hp).symm⟩
  next hzero =>
    simp only [bind_eq_ok_iff, hpayload] at hp
    obtain ⟨charge, hcharge, ⟨⟩, hroom, hp⟩ := hp
    obtain ⟨hlength, rfl⟩ := chargeOf_eq_ok hcharge
    have hcharge' := toNat_add_descriptorSize hlength
    have hroom' := checkRoom_eq_ok hroom (by omega)
    rw [hsize, hcharge', UInt64.toNat_sub_of_le _ _ hcount, UInt64.toNat_sub_of_le _ _ htotal]
      at hroom'
    exact .inr ⟨hzero, hlength, hroom', old, hbare, (Except.ok.inj hp).symm⟩

/-- What has room passes the check. -/
lemma checkRoom_of_hasRoom {charge count total : UInt64}
    (h : c.HasRoom charge.toNat count.toNat total.toNat) :
    c.checkRoom func charge count total = .ok () := by
  have hbytes : ¬ subSaturating c.limit total < charge := by
    rw [UInt64.lt_iff_toNat_lt, toNat_subSaturating]
    have := h.bytes
    omega
  have hblocks : ¬ c.maxBlocks ≤ count := by
    rw [UInt64.le_iff_toNat_le]
    exact Nat.not_le_of_lt h.blocks
  rw [checkRoom, if_neg hbytes, if_neg hblocks]

lemma chargeOf_of_le (h : length ≤ maxWord - descriptorSize) :
    chargeOf func length = .ok (length + descriptorSize) :=
  if_neg (UInt64.not_lt.mpr h)

/-- Where there is room, a block is allocated. -/
lemma plan_none_of_hasRoom (hlength : length ≤ maxWord - descriptorSize)
    (hroom : c.HasRoom (length.toNat + 56) c.usage.count.toNat c.usage.total.toNat) :
    c.plan func none length = .ok (.allocate (length + descriptorSize)) := by
  rw [← toNat_add_descriptorSize hlength] at hroom
  simp only [plan, chargeOf_of_le hlength, checkRoom_of_hasRoom hroom, ok_bind]

/-- Where there is room beside the other blocks, a block that the counters include is resized. -/
lemma plan_some_of_hasRoom (h : c.registry.Holds entries) (he : e ∈ entries)
    (hn : c.Names block e) (hcount : 1 ≤ c.usage.count.toNat)
    (htotal : e.size.toNat ≤ c.usage.total.toNat) (hzero : length ≠ 0)
    (hlength : length ≤ maxWord - descriptorSize)
    (hroom : c.HasRoom (length.toNat + 56) (c.usage.count.toNat - 1)
      (c.usage.total.toNat - e.size.toNat)) (func : String) :
    ∃ old, old.bare = e.descriptor ∧ c.plan func (some block) length =
      .ok (.resize e.slot old e.payload (length + descriptorSize)) := by
  obtain ⟨old, hold, hbare⟩ := locate_of_names h he hn func
  have hsize : old.size = e.size := Entry.size_of_bare hbare
  have hpayload : old.payload = some e.payload := Entry.payload_of_bare hbare
  have hcount' : 1 ≤ c.usage.count := UInt64.le_iff_toNat_le.mpr hcount
  have htotal' : e.size ≤ c.usage.total := UInt64.le_iff_toNat_le.mpr htotal
  have hcounters : c.checkCounters func e.size = .ok () := if_pos ⟨hcount', htotal'⟩
  have hroom' : c.checkRoom func (length + descriptorSize) (c.usage.count - 1)
      (c.usage.total - e.size) = .ok () := by
    apply checkRoom_of_hasRoom
    rw [toNat_add_descriptorSize hlength, UInt64.toNat_sub_of_le _ _ hcount',
      UInt64.toNat_sub_of_le _ _ htotal']
    exact hroom
  refine ⟨old, hbare, ?_⟩
  simp only [plan, hold, hsize, hpayload, hcounters, if_neg hzero, chargeOf_of_le hlength, hroom',
    ok_bind]

lemma toNat_regionLength : (regionLength length).toNat = max length.toNat 1 := by
  rw [regionLength]
  split
  next h =>
    rw [h]
    rfl
  next h =>
    have hpos : length.toNat ≠ 0 := fun h' => h (UInt64.toNat_inj.mp h')
    rw [Nat.max_eq_left (Nat.one_le_iff_ne_zero.mpr hpos)]

/-! ### Releasing and placing one block -/

lemma release_of_holds (h : c.registry.Holds (before ++ e :: after)) (func : String)
    {usage : Usage} (hu : c.usage.credit e.size = .ok usage) :
    ∃ registry, c.release func e.slot =
        .ok ({ c with registry, usage, heap := c.heap.release e.payload },
          .freed func e.slot e.size usage.count usage.total) ∧
      registry.Holds (before ++ after) ∧ registry.slots.size = c.registry.slots.size ∧
      registry.age =
        Function.update c.registry.age e.slot (min (e.generation.toNat + 1) 0xFFFFFFFF) := by
  obtain ⟨r₁, hunlink, h₁, hd, hbody, -⟩ := h.unlink
  obtain ⟨r₂, hvacate, h₂, hsize, hage⟩ := h₁.vacate h.slot_notMem hd rfl
  refine ⟨r₂, ?_, h₂, hsize.trans (Registry.size_eq_of_body hbody), ?_⟩
  · have hsize' : e.descriptor.size = e.size := rfl
    have hpayload : e.descriptor.payload = some e.payload := rfl
    simp only [release, hunlink, Registry.get_of_getElem? hd, hvacate, hsize', hu, hpayload,
      ok_bind]
  · rw [hage, Registry.age_eq_of_body hbody]
    rfl

/-- A block is placed in the slot that was set aside for it. -/
lemma place_of_holds {slot : Nat} {d : Descriptor} {usage : Usage} (payload : Nat)
    (h : c.registry.Holds entries (some slot)) (hslot : slot ∉ entries.map Entry.slot)
    (hd : c.registry.slots[slot]? = some d) (hgen : d.generation < maxGeneration)
    (hlength : length ≤ maxWord - descriptorSize)
    (hu : c.usage.charge (length + descriptorSize) = .ok usage) (func : String) :
    ∃ (e : Entry) (registry : Registry), e.slot = slot ∧ e.length = length ∧
      e.payload = payload ∧ c.registry.Entered registry e entries ∧
      registry.slots.size = c.registry.slots.size ∧
      c.place func slot (length + descriptorSize) payload =
        .ok ⟨.ok (some (e.handle c.id)), { c with registry, usage },
          [.allocated func e.slot e.size usage.count usage.total]⟩ := by
  obtain ⟨e, r₁, r₂, rfl, rfl, hpayload, hstamp, hlink, hentered, hsize⟩ :=
    h.enter payload hslot hd hgen hlength
  refine ⟨e, r₂, rfl, rfl, hpayload, hentered, hsize, ?_⟩
  have hsize' : e.length + descriptorSize = e.size := rfl
  rw [hsize'] at hu ⊢
  simp only [place, hstamp, hlink, hu, ok_bind]
  rfl

/-- A block is placed in the slot that is found for it. -/
lemma place_takeVacant {usage : Usage} (payload : Nat) (h : c.registry.Holds entries)
    (hlength : length ≤ maxWord - descriptorSize)
    (hu : c.usage.charge (length + descriptorSize) = .ok usage) (func : String) :
    ∃ (e : Entry) (registry : Registry), e.length = length ∧ e.payload = payload ∧
      c.registry.Entered registry e entries ∧
      place { c with registry := c.registry.takeVacant.2 } func c.registry.takeVacant.1
          (length + descriptorSize) payload =
        .ok ⟨.ok (some (e.handle c.id)), { c with registry, usage },
          [.allocated func e.slot e.size usage.count usage.total]⟩ := by
  obtain ⟨slot, r₁, g, htake, h₁, hslot, hd, hg, hage₁, hsize₁⟩ := h.takeVacant
  let c₁ : Context := { c with registry := r₁ }
  have hc₁ : c₁.registry.Holds entries (some slot) := h₁
  obtain ⟨e, registry, rfl, rfl, hpayload, hentered, hsize, hplace⟩ :=
    place_of_holds payload hc₁ hslot hd hg hlength hu func
  refine ⟨e, registry, rfl, hpayload, ⟨hentered.holds, ?_, ?_, ?_⟩, ?_⟩
  · rcases hsize₁ with hsize₁ | ⟨hnil, hnew, hsize₁⟩
    · exact .inl (hsize.trans hsize₁)
    · exact .inr ⟨hnil, hnew, hsize.trans hsize₁⟩
  · exact hage₁ ▸ hentered.generation
  · exact hage₁ ▸ hentered.age
  · rw [htake]
    exact hplace

/-! ### All that can come of a request -/

/-- What a request answers, and the blocks that the context holds afterwards. -/
inductive Served (c : Context) (func : String) :
    List Entry → Option Block → UInt64 → Reply (Option Block) → List Entry → Prop where
  | refused {entries : List Entry} {block : Option Block} {length : UInt64} {r : Rejection}
      (hplan : c.plan func block length = .error r) :
      Served c func entries block length (c.reject r) entries
  | notGranted {entries : List Entry} {length : UInt64} {heap : Heap}
      (hlength : length ≤ maxWord - descriptorSize)
      (hheap : c.heap.allocate (regionLength length) = (none, heap)) :
      Served c func entries none length
        (noMemory { c with heap } func (length + descriptorSize)) entries
  | notResized {entries : List Entry} {e : Entry} {block : Block} {length : UInt64} {heap : Heap}
      (he : e ∈ entries) (hname : c.Names block e) (hlength : length ≤ maxWord - descriptorSize)
      (hheap : c.heap.reallocate e.payload (regionLength length) = (false, heap)) :
      Served c func entries (some block) length
        (noMemory { c with heap } func (length + descriptorSize)) entries
  | freed {before after : List Entry} {e : Entry} {block : Block} {registry : Registry}
      {usage : Usage} (hname : c.Names block e) (hu : c.usage.credit e.size = .ok usage)
      (hr : registry.Holds (before ++ after))
      (hsize : registry.slots.size = c.registry.slots.size)
      (hage : registry.age =
        Function.update c.registry.age e.slot (min (e.generation.toNat + 1) 0xFFFFFFFF)) :
      Served c func (before ++ e :: after) (some block) 0
        ⟨.ok none, { c with registry, usage, heap := c.heap.release e.payload },
          [.freed func e.slot e.size usage.count usage.total]⟩ (before ++ after)
  | allocated {entries : List Entry} {e : Entry} {registry : Registry} {usage : Usage}
      {heap : Heap} (hroom : c.HasRoom e.size.toNat c.usage.count.toNat c.usage.total.toNat)
      (hheap : c.heap.allocate (regionLength e.length) = (some e.payload, heap))
      (hu : c.usage.charge e.size = .ok usage)
      (hr : c.registry.Entered registry e entries) :
      Served c func entries none e.length
        ⟨.ok (some (e.handle c.id)), { c with registry, usage, heap },
          [.allocated func e.slot e.size usage.count usage.total]⟩ (e :: entries)
  | resized {before after : List Entry} {old e : Entry} {block : Block} {registry : Registry}
      {credited usage : Usage} {heap : Heap} (hname : c.Names block old) (hzero : e.length ≠ 0)
      (hroom : c.HasRoom e.size.toNat (c.usage.count.toNat - 1)
        (c.usage.total.toNat - old.size.toNat))
      (hpayload : e.payload = old.payload)
      (hheap : c.heap.reallocate old.payload (regionLength e.length) = (true, heap))
      (hcredit : c.usage.credit old.size = .ok credited)
      (hu : credited.charge e.size = .ok usage)
      (hr : c.registry.Entered registry e (before ++ after))
      (hslot : old.generation ≠ maxGeneration → e.slot = old.slot) :
      Served c func (before ++ old :: after) (some block) e.length
        ⟨.ok (some (e.handle c.id)), { c with registry, usage, heap },
          (if old.generation = maxGeneration then [.retired old.slot] else []) ++
            [.allocated func e.slot e.size usage.count usage.total]⟩ (e :: (before ++ after))

/-- With room for one block more, the counters can be charged for it. -/
lemma HasRoom.exists_charge {u : Usage} {size : UInt64}
    (hroom : c.HasRoom size.toNat u.count.toNat u.total.toNat)
    (hmax : c.maxBlocks ≤ maxBlocksCeiling) : ∃ v, u.charge size = .ok v := by
  have hmax' : c.maxBlocks.toNat ≤ 2 ^ 32 - 1 := UInt64.le_iff_toNat_le.mp hmax
  have hlimit := c.limit.toNat_lt
  have hbytes := hroom.bytes
  have hblocks := hroom.blocks
  exact Usage.exists_charge (by omega) (by omega)

lemma carryOutAllocate_served (h : c.registry.Holds entries)
    (hmax : c.maxBlocks ≤ maxBlocksCeiling) (hlength : length ≤ maxWord - descriptorSize)
    (hroom : c.HasRoom (length.toNat + 56) c.usage.count.toNat c.usage.total.toNat) :
    ∃ reply entries', c.carryOutAllocate func length (length + descriptorSize) = .ok reply ∧
      Served c func entries none length reply entries' := by
  rw [carryOutAllocate]
  rcases hheap : c.heap.allocate (regionLength length) with ⟨_ | payload, heap⟩
  · exact ⟨_, _, rfl, .notGranted hlength hheap⟩
  · rw [← toNat_add_descriptorSize hlength] at hroom
    obtain ⟨usage, hu⟩ := hroom.exists_charge hmax
    let c₁ : Context := { c with heap }
    have hc₁ : c₁.registry.Holds entries := h
    obtain ⟨e, registry, rfl, rfl, hr, hplace⟩ := place_takeVacant payload hc₁ hlength hu func
    exact ⟨_, _, hplace, .allocated hroom hheap hu hr⟩

/-- The counters with one block less, and with another one instead. -/
lemma HasRoom.exists_credit_charge (hcount : 1 ≤ c.usage.count.toNat)
    (htotal : e.size.toNat ≤ c.usage.total.toNat)
    (hroom : c.HasRoom (length + descriptorSize).toNat (c.usage.count.toNat - 1)
      (c.usage.total.toNat - e.size.toNat)) (hmax : c.maxBlocks ≤ maxBlocksCeiling) :
    ∃ credited usage, c.usage.credit e.size = .ok credited ∧
      credited.charge (length + descriptorSize) = .ok usage := by
  obtain ⟨credited, hcredit⟩ := Usage.exists_credit hcount htotal
  obtain ⟨hcount', -, htotal', -⟩ := Usage.credit_eq_ok_iff.mp hcredit
  rw [← hcount', ← htotal', Nat.add_sub_cancel, Nat.add_sub_cancel] at hroom
  obtain ⟨usage, hu⟩ := hroom.exists_charge hmax
  exact ⟨credited, usage, hcredit, hu⟩

section

variable {old : Descriptor} {heap : Heap} {credited usage : Usage}

/-- A block whose slot is not used up stays in its slot. -/
lemma carryOutResize_stay (h : c.registry.Holds (before ++ e :: after))
    (hbare : old.bare = e.descriptor) (hlength : length ≤ maxWord - descriptorSize)
    (hheap : c.heap.reallocate e.payload (regionLength length) = (true, heap))
    (hcredit : c.usage.credit e.size = .ok credited)
    (hu : credited.charge (length + descriptorSize) = .ok usage)
    (hgen : e.generation ≠ maxGeneration) (func : String) :
    ∃ (e' : Entry) (registry : Registry), e'.slot = e.slot ∧ e'.length = length ∧
      e'.payload = e.payload ∧ c.registry.Entered registry e' (before ++ after) ∧
      c.carryOutResize func e.slot old e.payload length (length + descriptorSize) =
        .ok ⟨.ok (some (e'.handle c.id)), { c with registry, usage, heap },
          [.allocated func e'.slot e'.size usage.count usage.total]⟩ := by
  have hsize : old.size = e.size := Entry.size_of_bare hbare
  have hgen' : old.generation = e.generation := Entry.generation_of_bare hbare
  have hlt : e.generation < maxGeneration := lt_maxGeneration_iff_ne.mpr hgen
  obtain ⟨r₁, hunlink, h₁, hd, hbody, hvacant⟩ := h.unlink
  let c₁ : Context := { c with heap, registry := r₁, usage := credited }
  have hc₁ : c₁.registry.Holds (before ++ after) (some e.slot) := h₁
  obtain ⟨e', registry, hslot, rfl, hpayload, hr, -, hplace⟩ :=
    place_of_holds e.payload hc₁ h.slot_notMem hd hlt hlength hu func
  refine ⟨e', registry, hslot, rfl, hpayload, ?_, ?_⟩
  · exact hr.of_eq (Registry.age_eq_of_body hbody) (Registry.size_eq_of_body hbody) hvacant
  · simp only [carryOutResize, hheap, hunlink, hsize, hcredit, hgen', ok_bind]
    rw [if_neg hgen]
    exact hplace

/-- A block whose slot is used up moves to another slot. -/
lemma carryOutResize_move (h : c.registry.Holds (before ++ e :: after))
    (hbare : old.bare = e.descriptor) (hlength : length ≤ maxWord - descriptorSize)
    (hheap : c.heap.reallocate e.payload (regionLength length) = (true, heap))
    (hcredit : c.usage.credit e.size = .ok credited)
    (hu : credited.charge (length + descriptorSize) = .ok usage)
    (hgen : e.generation = maxGeneration) (func : String) :
    ∃ (e' : Entry) (registry : Registry), e'.length = length ∧ e'.payload = e.payload ∧
      c.registry.Entered registry e' (before ++ after) ∧
      c.carryOutResize func e.slot old e.payload length (length + descriptorSize) =
        .ok ⟨.ok (some (e'.handle c.id)), { c with registry, usage, heap },
          [.retired e.slot, .allocated func e'.slot e'.size usage.count usage.total]⟩ := by
  have hsize : old.size = e.size := Entry.size_of_bare hbare
  have hgen' : old.generation = e.generation := Entry.generation_of_bare hbare
  obtain ⟨r₁, hunlink, h₁, hd, hbody, hvacant⟩ := h.unlink
  obtain ⟨r₂, hretire, h₂, hsize₂, hvacant₂, hage₂⟩ := h₁.retire h.slot_notMem hd rfl hgen
  let c₂ : Context := { c with heap, registry := r₂, usage := credited }
  have hc₂ : c₂.registry.Holds (before ++ after) := h₂
  obtain ⟨e', registry, rfl, hpayload, hr, hplace⟩ :=
    place_takeVacant e.payload hc₂ hlength hu func
  refine ⟨e', registry, rfl, hpayload, ?_, ?_⟩
  · exact hr.of_eq (hage₂.trans (Registry.age_eq_of_body hbody))
      (hsize₂.trans (Registry.size_eq_of_body hbody)) (hvacant₂.trans hvacant)
  · simp only [carryOutResize, hheap, hunlink, hsize, hcredit, hgen', ok_bind]
    rw [if_pos hgen, hretire, ok_bind]
    show (place { c₂ with registry := r₂.takeVacant.2 } _ _ _ _ >>= _) = _
    rw [hplace]
    rfl

end

lemma carryOutResize_served {old : Descriptor} (h : c.registry.Holds (before ++ e :: after))
    (hmax : c.maxBlocks ≤ maxBlocksCeiling) (hname : c.Names block e) (hzero : length ≠ 0)
    (hlength : length ≤ maxWord - descriptorSize) (hcount : 1 ≤ c.usage.count.toNat)
    (htotal : e.size.toNat ≤ c.usage.total.toNat)
    (hroom : c.HasRoom (length.toNat + 56) (c.usage.count.toNat - 1)
      (c.usage.total.toNat - e.size.toNat)) (hbare : old.bare = e.descriptor) :
    ∃ reply entries', c.carryOutResize func e.slot old e.payload length
        (length + descriptorSize) = .ok reply ∧
      Served c func (before ++ e :: after) (some block) length reply entries' := by
  rcases hheap : c.heap.reallocate e.payload (regionLength length) with ⟨_ | _, heap⟩
  · refine ⟨_, _, ?_, .notResized (by simp) hname hlength hheap⟩
    rw [carryOutResize, hheap]
  · rw [← toNat_add_descriptorSize hlength] at hroom
    obtain ⟨credited, usage, hcredit, hu⟩ := HasRoom.exists_credit_charge hcount htotal hroom hmax
    by_cases hgen : e.generation = maxGeneration
    · obtain ⟨e', registry, rfl, hpayload, hr, hresize⟩ :=
        carryOutResize_move h hbare hlength hheap hcredit hu hgen func
      refine ⟨_, _, ?_, .resized hname hzero hroom hpayload hheap hcredit hu hr
        fun hne => absurd hgen hne⟩
      rw [hresize, if_pos hgen]
      rfl
    · obtain ⟨e', registry, hslot, rfl, hpayload, hr, hresize⟩ :=
        carryOutResize_stay h hbare hlength hheap hcredit hu hgen func
      refine ⟨_, _, ?_, .resized hname hzero hroom hpayload hheap hcredit hu hr fun _ => hslot⟩
      rw [hresize, if_neg hgen]
      rfl

/-- Whatever the counters say, a request to a context that holds its blocks has an outcome. -/
theorem request_served (h : c.registry.Holds entries) (hmax : c.maxBlocks ≤ maxBlocksCeiling)
    (func : String) (block : Option Block) (length : UInt64) :
    ∃ reply entries', c.request func block length = .ok reply ∧
      Served c func entries block length reply entries' := by
  rw [request]
  cases hplan : c.plan func block length with
  | error r => exact ⟨_, _, rfl, .refused hplan⟩
  | ok p =>
    cases block with
    | none =>
      obtain ⟨hlength, rfl, hroom⟩ := plan_none_eq_ok hplan
      exact carryOutAllocate_served h hmax hlength hroom
    | some block =>
      obtain ⟨e, he, hname, hcount, htotal, hp⟩ := plan_some_eq_ok h hplan
      obtain ⟨before, after, rfl⟩ := List.append_of_mem he
      rcases hp with ⟨rfl, rfl⟩ | ⟨hzero, hlength, hroom, old, hbare, rfl⟩
      · obtain ⟨usage, hu⟩ := Usage.exists_credit hcount htotal
        obtain ⟨registry, hrelease, hr, hsize, hage⟩ := release_of_holds h func hu
        exact ⟨_, _, by simp only [hrelease, ok_bind], .freed hname hu hr hsize hage⟩
      · exact carryOutResize_served h hmax hname hzero hlength hcount htotal hroom hbare

/-! ### Requests that are granted -/

section

variable {reply : Reply (Option Block)} {entries' : List Entry} {p : Plan} {heap : Heap}

/-- A block is allocated when the plan accepts it and the heap grants it. -/
lemma Served.allocated_of_granted {payload : Nat}
    (hs : Served c func entries none length reply entries')
    (hplan : c.plan func none length = .ok p)
    (hheap : c.heap.allocate (regionLength length) = (some payload, heap)) :
    ∃ e, entries' = e :: entries ∧ e.length = length ∧ reply.result = .ok (some (e.handle c.id)) ∧
      c.registry.Entered reply.context.registry e entries ∧ reply.context.heap = heap := by
  cases hs with
  | refused hplan' => cases hplan'.symm.trans hplan
  | notGranted _ hheap' => cases hheap'.symm.trans hheap
  | allocated _ hheap' _ hr =>
    obtain ⟨-, rfl⟩ := Prod.mk.inj (hheap'.symm.trans hheap)
    exact ⟨_, rfl, rfl, rfl, hr, rfl⟩

/-- A block is resized when the plan accepts it and the heap grants it. -/
lemma Served.resized_of_granted
    (hs : Served c func entries (some block) length reply entries') (hzero : length ≠ 0)
    (hplan : c.plan func (some block) length = .ok p)
    (hheap : ∀ payload, (c.heap.reallocate payload (regionLength length)).1 = true) :
    ∃ before old after e, entries = before ++ old :: after ∧ entries' = e :: (before ++ after) ∧
      c.Names block old ∧ e.length = length ∧ reply.result = .ok (some (e.handle c.id)) ∧
      c.registry.Entered reply.context.registry e (before ++ after) ∧
      (old.generation ≠ maxGeneration → e.slot = old.slot) ∧
      reply.context.heap = (c.heap.reallocate old.payload (regionLength length)).2 := by
  cases hs with
  | refused hplan' => cases hplan'.symm.trans hplan
  | @notResized _ e _ _ _ _ _ _ hheap' =>
    have hgrants := hheap e.payload
    rw [hheap'] at hgrants
    cases hgrants
  | freed => exact absurd rfl hzero
  | resized hname _ _ _ hheap' _ _ hr hslot =>
    exact ⟨_, _, _, _, rfl, rfl, hname, rfl, rfl, hr, hslot, by rw [hheap']⟩

end

end Context

end MemoryLedger
