import MemoryLedger.Proofs.Context.Operation

/-!
# Runs of a context

A context is `Sound` when its registry holds its blocks and its counters are right about them.
Every new context is sound, and every operation keeps a sound context sound; so a run never stops
with a fault. `IsNew.run` adds to this any invariant of the history that each operation keeps.
-/

namespace MemoryLedger

namespace Context

/-- A context as it is created. -/
inductive IsNew : Context → Prop where
  | plain (id : UInt32) (heap : Heap) : IsNew (create id heap)
  | configured {id : UInt32} {heap : Heap} {config : Config} {c : Context}
      (h : (Context.configured id heap config).1 = .ok c) : IsNew c

/-- The counters of a context are right about its blocks and stay below their ceilings. -/
structure Balanced (c : Context) (entries : List Entry) : Prop where
  count : c.usage.count.toNat = entries.length
  total : c.usage.total.toNat = Registry.bytes entries
  count_le : entries.length ≤ c.maxBlocks.toNat
  countPeak : c.usage.count.toNat ≤ c.usage.countPeak.toNat
  totalPeak : c.usage.total.toNat ≤ c.usage.totalPeak.toNat

/-- The registry holds `entries` and the counters are right about them. -/
structure Sound (c : Context) (entries : List Entry) : Prop where
  holds : c.registry.Holds entries
  balanced : c.Balanced entries
  maxBlocks_le : c.maxBlocks ≤ maxBlocksCeiling

variable {c c' : Context} {entries entries' : List Entry}

lemma Sound.bytes_lt (h : c.Sound entries) : Registry.bytes entries < 2 ^ 64 :=
  h.balanced.total ▸ c.usage.total.toNat_lt

/-- Whether a context is sound does not hang on its heap or its limit. -/
lemma Sound.of_eq (h : c.Sound entries) (hregistry : c'.registry = c.registry)
    (husage : c'.usage = c.usage) (hmax : c'.maxBlocks = c.maxBlocks) : c'.Sound entries := by
  obtain ⟨hholds, ⟨hcount, htotal, hle, hcp, htp⟩, hceiling⟩ := h
  refine ⟨hregistry ▸ hholds, ⟨?_, ?_, ?_, ?_, ?_⟩, hmax ▸ hceiling⟩
  · rwa [husage]
  · rwa [husage]
  · rwa [hmax]
  · rwa [husage]
  · rwa [husage]

/-! ### New contexts -/

/-- What an accepted configuration sets up. -/
lemma configured_eq_ok {id : UInt32} {heap : Heap} {config : Config}
    (h : (Context.configured id heap config).1 = .ok c) :
    c = { create id heap with
      limit := config.limitMb.elim maxWord bytesOfMegabytes
      maxBlocks :=
        if config.maxBlocks ≤ maxBlocksCeiling then config.maxBlocks else maxBlocksCeiling } := by
  obtain ⟨limitMb, maxBlocks⟩ := config
  rw [Context.configured] at h
  split at h
  next => cases h
  next =>
    cases limitMb with
    | none => exact (Except.ok.inj h).symm
    | some megabytes =>
      simp only [setLimit] at h
      split at h
      next => cases h
      next => exact (Except.ok.inj h).symm

lemma holds_empty : ({} : Registry).Holds [] where
  threads :=
    { head := rfl
      nodup := List.nodup_nil
      links := by simp }
  described := by simp
  empty := by simp
  vacant_nodup := List.nodup_nil
  mem_vacant := by simp [Registry.body]

/-- A context without blocks and with its counters at zero is sound. -/
lemma sound_of_empty (hregistry : c.registry = {}) (husage : c.usage = {})
    (hmax : c.maxBlocks ≤ maxBlocksCeiling) : c.Sound [] where
  holds := hregistry ▸ holds_empty
  balanced :=
    { count := by rw [husage]; rfl
      total := by rw [husage]; rfl
      count_le := Nat.zero_le _
      countPeak := by simp [husage]
      totalPeak := by simp [husage] }
  maxBlocks_le := hmax

/-- A new context is sound and holds no block. -/
theorem IsNew.sound (hc : c.IsNew) : c.Sound [] := by
  cases hc with
  | plain id heap =>
    have hdefault : Config.defaultMaxBlocks ≤ maxBlocksCeiling := by decide
    exact sound_of_empty rfl rfl hdefault
  | configured h =>
    rw [configured_eq_ok h]
    apply sound_of_empty rfl rfl
    show (if _ then _ else _) ≤ maxBlocksCeiling
    split
    next hle => exact hle
    next => exact UInt64.le_refl _

lemma IsNew.registry_eq (hc : c.IsNew) : c.registry = {} := by
  cases hc with
  | plain => rfl
  | configured h => rw [configured_eq_ok h]; rfl

/-! ### One operation -/

lemma Balanced.bytes_eq_of_append {before after : List Entry} {e : Entry}
    (h : c.Balanced (before ++ e :: after)) :
    c.usage.total.toNat = Registry.bytes (before ++ after) + e.size.toNat := by
  rw [h.total, Registry.bytes_append, Registry.bytes_append, Registry.bytes_cons]
  omega

/-- The counters of a sound context include each of its blocks. -/
lemma Sound.included (hc : c.Sound entries) {e : Entry} (he : e ∈ entries) :
    1 ≤ c.usage.count ∧ e.size ≤ c.usage.total := by
  obtain ⟨before, after, rfl⟩ := List.append_of_mem he
  constructor
  · rw [UInt64.le_iff_toNat_le, hc.balanced.count, List.length_append, List.length_cons]
    exact Nat.le_add_left 1 _
  · rw [UInt64.le_iff_toNat_le, hc.balanced.bytes_eq_of_append]
    exact Nat.le_add_left _ _

lemma Sound.exists_credit (hc : c.Sound entries) {e : Entry} (he : e ∈ entries) :
    ∃ usage, c.usage.credit e.size = .ok usage := by
  obtain ⟨hcount, htotal⟩ := hc.included he
  exact Usage.exists_credit (UInt64.le_iff_toNat_le.mp hcount) (UInt64.le_iff_toNat_le.mp htotal)

lemma Balanced.of_credit {before after : List Entry} {e : Entry} {usage : Usage}
    (h : c.Balanced (before ++ e :: after)) (hu : c.usage.credit e.size = .ok usage)
    (husage : c'.usage = usage) (hmax : c'.maxBlocks = c.maxBlocks) :
    c'.Balanced (before ++ after) := by
  obtain ⟨hcount, hcountPeak, htotal, htotalPeak⟩ := Usage.credit_eq_ok_iff.mp hu
  have hbytes := h.bytes_eq_of_append
  have hlength : (before ++ e :: after).length = (before ++ after).length + 1 := by simp; omega
  obtain ⟨hcountOf, -, hle, hcountLe, htotalLe⟩ := h
  subst husage
  refine ⟨?_, ?_, ?_, ?_, ?_⟩
  · omega
  · omega
  · rw [hmax]
    omega
  · rw [hcountPeak]
    omega
  · rw [htotalPeak]
    omega

lemma Balanced.of_charge {e : Entry} {usage : Usage} (h : c.Balanced entries)
    (hu : c.usage.charge e.size = .ok usage) (hroom : entries.length < c.maxBlocks.toNat)
    (husage : c'.usage = usage) (hmax : c'.maxBlocks = c.maxBlocks) :
    c'.Balanced (e :: entries) := by
  obtain ⟨hcount, hcountPeak, htotal, htotalPeak⟩ := Usage.charge_eq_ok_iff.mp hu
  have hlength : (e :: entries).length = entries.length + 1 := List.length_cons
  obtain ⟨hcountOf, htotalOf, -⟩ := h
  have hbytes := Registry.bytes_cons e entries
  subst husage
  refine ⟨?_, ?_, ?_, ?_, ?_⟩
  · omega
  · omega
  · rw [hmax]
    omega
  · omega
  · omega

lemma Served.sound {func : String} {block : Option Block} {length : UInt64}
    {reply : Reply (Option Block)} (hc : c.Sound entries)
    (hs : Served c func entries block length reply entries') : reply.context.Sound entries' := by
  cases hs with
  | refused => exact hc
  | notGranted | notResized => exact hc.of_eq rfl rfl rfl
  | freed _ hu hr => exact ⟨hr, hc.balanced.of_credit hu rfl rfl, hc.maxBlocks_le⟩
  | allocated hroom _ hu hr =>
    have hblocks := hc.balanced.count ▸ hroom.blocks
    exact ⟨hr.holds, hc.balanced.of_charge hu hblocks rfl rfl, hc.maxBlocks_le⟩
  | @resized before after _ _ _ _ credited _ _ _ _ hroom _ _ hcredit hu hr =>
    -- the old block is credited before the new one is charged
    let between : Context := { c with usage := credited }
    have hbetween : between.Balanced (before ++ after) :=
      hc.balanced.of_credit hcredit rfl rfl
    have hcount := (Usage.credit_eq_ok_iff.mp hcredit).1
    have hblocks : (before ++ after).length < between.maxBlocks.toNat := by
      have hlength : credited.count.toNat = (before ++ after).length := hbetween.count
      have hroom' : c.usage.count.toNat - 1 < c.maxBlocks.toNat := hroom.blocks
      show _ < c.maxBlocks.toNat
      omega
    exact ⟨hr.holds, hbetween.of_charge hu hblocks rfl rfl, hc.maxBlocks_le⟩

/-- An operation keeps a context sound. -/
theorem Performed.sound {op : Operation Block} {reply : Reply Outcome} (hc : c.Sound entries)
    (hp : Performed c entries op reply entries') : reply.context.Sound entries' := by
  cases hp with
  | refused | located | measured | audited => exact hc
  | requested _ hs => exact hs.sound hc
  | limited | written | filled => exact hc.of_eq rfl rfl rfl

/-! ### Runs -/

/-- Each operation of a run has its reply. -/
theorem length_of_run {last : Context} {replies : List (Reply Outcome)}
    {ops : List (Operation Block)} (h : c.run ops = .ok (last, replies)) :
    replies.length = ops.length := by
  induction ops generalizing c replies with
  | nil =>
    cases h
    rfl
  | cons op ops ih =>
    rw [Context.run] at h
    obtain ⟨reply, -, h⟩ := bind_eq_ok_iff.mp h
    obtain ⟨⟨_, replies'⟩, hrest, h⟩ := bind_eq_ok_iff.mp h
    cases h
    rw [List.length_cons, List.length_cons, ih hrest]

/-- A run can be gone on with where it has ended. -/
lemma run_append {c₁ c₂ : Context} {ops more : List (Operation Block)}
    {replies moreReplies : List (Reply Outcome)} (h : c.run ops = .ok (c₁, replies))
    (hmore : c₁.run more = .ok (c₂, moreReplies)) :
    c.run (ops ++ more) = .ok (c₂, replies ++ moreReplies) := by
  induction ops generalizing c replies with
  | nil =>
    cases h
    exact hmore
  | cons op ops ih =>
    rw [Context.run] at h
    obtain ⟨reply, hreply, h⟩ := bind_eq_ok_iff.mp h
    obtain ⟨⟨last, rest⟩, hrest, h⟩ := bind_eq_ok_iff.mp h
    cases h
    simp only [List.cons_append, Context.run, hreply, ih hrest, ok_bind]

lemma Sound.run {past : List (Operation Block × Reply Outcome)} (hc : c.Sound entries)
    (Inv : List (Operation Block × Reply Outcome) → Context → List Entry → Prop)
    (hstart : Inv past c entries)
    (hstep : ∀ {past c entries op reply entries'}, c.Sound entries → Inv past c entries →
      Performed c entries op reply entries' → Inv (past ++ [(op, reply)]) reply.context entries')
    (ops : List (Operation Block)) :
    ∃ last replies entries', c.run ops = .ok (last, replies) ∧ last.Sound entries' ∧
      Inv (past ++ ops.zip replies) last entries' := by
  induction ops generalizing c entries past with
  | nil => exact ⟨c, [], entries, rfl, hc, by simpa using hstart⟩
  | cons op ops ih =>
    obtain ⟨reply, entries₁, hreply, hp⟩ :=
      perform_performed hc.holds hc.maxBlocks_le hc.bytes_lt op
    obtain ⟨last, replies, entries', hrun, hlast, hinv⟩ := ih (hp.sound hc) (hstep hc hstart hp)
    refine ⟨last, reply :: replies, entries', ?_, hlast, by simpa using hinv⟩
    rw [Context.run, hreply, ok_bind, hrun, ok_bind]

/-- What holds of a new context and what each operation keeps, holds after a run. The invariant may
speak of all operations that were performed so far and of what they answered. -/
theorem IsNew.run (hc : c.IsNew)
    (Inv : List (Operation Block × Reply Outcome) → Context → List Entry → Prop)
    (hstart : Inv [] c [])
    (hstep : ∀ {past c entries op reply entries'}, c.Sound entries → Inv past c entries →
      Performed c entries op reply entries' → Inv (past ++ [(op, reply)]) reply.context entries')
    (ops : List (Operation Block)) :
    ∃ last replies entries, c.run ops = .ok (last, replies) ∧ last.Sound entries ∧
      Inv (ops.zip replies) last entries :=
  hc.sound.run Inv hstart hstep ops

/-- Every run of a new context comes to a sound one. -/
theorem IsNew.run_sound (hc : c.IsNew) (ops : List (Operation Block)) :
    ∃ last replies entries, c.run ops = .ok (last, replies) ∧ last.Sound entries := by
  obtain ⟨last, replies, entries, hrun, hlast, -⟩ :=
    hc.run (fun _ _ _ => True) trivial (fun _ _ _ => trivial) ops
  exact ⟨last, replies, entries, hrun, hlast⟩

end Context

end MemoryLedger
