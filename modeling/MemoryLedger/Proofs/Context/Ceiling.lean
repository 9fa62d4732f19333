import MemoryLedger.Proofs.Context.Run

/-!
# Ceilings over a run

A context has a ceiling on the number of its blocks, which it is created with, and a limit on their
bytes, which can be set anew at any time. A limit is not retroactive, so the bytes may be above it;
then they were there when it was set, and no operation makes them more. In exact numbers, this holds
after every run.
-/

namespace MemoryLedger

/-- The mebibytes that an operation sets the limit to, if it does and is not refused. -/
def Operation.limitSet : Operation Block → Except AllocError Outcome → Option UInt64
  | .setLimit megabytes, .ok _ => some megabytes
  | _, _ => none

/-- The mebibytes that the limit was last set to, if it was, and the bytes found at that time. -/
structure Ceiling where
  megabytes : Option UInt64
  found : Nat
deriving DecidableEq, Repr

namespace Ceiling

/-- The bytes that the blocks may have, where no limit means as many as a word can count. -/
def bytes (ceiling : Ceiling) : Nat :=
  ceiling.megabytes.elim (2 ^ 64 - 1) fun megabytes =>
    min (megabytes.toNat * 2 ^ 20) (2 ^ 64 - 1)

lemma bytes_some (megabytes : UInt64) (found : Nat) :
    (⟨some megabytes, found⟩ : Ceiling).bytes = (bytesOfMegabytes megabytes).toNat := by
  rw [toNat_bytesOfMegabytes, bytes, Option.elim_some]
  omega

def update (ceiling : Ceiling) (op : Operation Block) (reply : Reply Outcome) : Ceiling :=
  match op.limitSet reply.result with
  | some megabytes => ⟨some megabytes, reply.context.usage.total.toNat⟩
  | none => ceiling

/-- The ceiling after all that was done since a context was created. -/
def ofHistory (config : Config) (past : List (Operation Block × Reply Outcome)) : Ceiling :=
  past.foldl (fun ceiling p => ceiling.update p.1 p.2) ⟨config.limitMb, 0⟩

variable {config : Config} {past : List (Operation Block × Reply Outcome)}
  {op : Operation Block} {reply : Reply Outcome}

lemma ofHistory_append : ofHistory config (past ++ [(op, reply)]) =
    (ofHistory config past).update op reply := by
  simp [ofHistory]

lemma update_of_limitSet_eq_none {ceiling : Ceiling} (h : op.limitSet reply.result = none) :
    ceiling.update op reply = ceiling := by
  simp only [update, h]

/-- If the limit is not set, it stays as it was configured. -/
lemma ofHistory_of_forall_limitSet_eq_none
    (h : ∀ p ∈ past, p.1.limitSet p.2.result = none) :
    ofHistory config past = ⟨config.limitMb, 0⟩ := by
  induction past using List.reverseRecOn with
  | nil => rfl
  | append_singleton past p ih =>
    rw [ofHistory_append, update_of_limitSet_eq_none (h p (by simp))]
    exact ih fun q hq => h q (by simp [hq])

end Ceiling

namespace Context

/-- A context as it is created by a configuration; without one, the default one is meant. -/
inductive CreatedBy : Config → Context → Prop where
  | plain (id : UInt32) (heap : Heap) : CreatedBy default (create id heap)
  | configured {id : UInt32} {heap : Heap} {config : Config} {c : Context}
      (h : (Context.configured id heap config).1 = .ok c) : CreatedBy config c

variable {c : Context} {config : Config} {entries entries' : List Entry} {func : String}
  {block? : Option Block} {length : UInt64} {op : Operation Block}

/-! ### What a configuration sets up -/

lemma CreatedBy.isNew (h : CreatedBy config c) : c.IsNew := by
  cases h with
  | plain id heap => exact .plain id heap
  | configured h => exact .configured h

lemma CreatedBy.limit (h : CreatedBy config c) :
    c.limit.toNat = (Ceiling.ofHistory config []).bytes := by
  cases h with
  | plain id heap => rfl
  | configured h =>
    rw [configured_eq_ok h]
    obtain ⟨_ | megabytes, maxBlocks⟩ := config
    · rfl
    · exact (Ceiling.bytes_some megabytes 0).symm

lemma CreatedBy.maxBlocks (h : CreatedBy config c) :
    c.maxBlocks.toNat = min config.maxBlocks.toNat (2 ^ 32 - 1) := by
  have hceiling : maxBlocksCeiling.toNat = 2 ^ 32 - 1 := rfl
  cases h with
  | plain id heap => rfl
  | configured h =>
    rw [configured_eq_ok h, ← hceiling]
    show (if _ then _ else _ : UInt64).toNat = _
    split
    next hle => rw [Nat.min_eq_left (UInt64.le_iff_toNat_le.mp hle)]
    next hnot =>
      have hlt : ¬ config.maxBlocks.toNat ≤ maxBlocksCeiling.toNat := fun h' =>
        hnot (UInt64.le_iff_toNat_le.mpr h')
      rw [Nat.min_eq_right (Nat.le_of_not_le hlt)]

/-! ### One operation -/

/-- When a block is given out, its bytes were seen to fit below the limit. -/
lemma Served.total_le_limit {reply : Reply (Option Block)} {block : Block}
    (hs : Served c func entries block? length reply entries')
    (hresult : reply.result = .ok (some block)) :
    reply.context.usage.total.toNat ≤ reply.context.limit.toNat := by
  cases hs with
  | refused => cases hresult
  | notGranted => cases hresult
  | notResized => cases hresult
  | freed => cases hresult
  | allocated hroom _ hu =>
    obtain ⟨-, -, htotal, -⟩ := Usage.charge_eq_ok_iff.mp hu
    exact htotal ▸ hroom.bytes
  | @resized _ _ _ _ _ _ _ usage _ _ _ hroom _ _ hcredit hu =>
    obtain ⟨-, -, hcredited, -⟩ := Usage.credit_eq_ok_iff.mp hcredit
    obtain ⟨-, -, htotal, -⟩ := Usage.charge_eq_ok_iff.mp hu
    have hbytes := hroom.bytes
    show usage.total.toNat ≤ c.limit.toNat
    omega

/-- A request makes the bytes more only up to the limit. -/
lemma Served.total_le {reply : Reply (Option Block)}
    (hs : Served c func entries block? length reply entries') :
    reply.context.usage.total.toNat ≤ c.usage.total.toNat ∨
      reply.context.usage.total.toNat ≤ reply.context.limit.toNat := by
  have hserved := hs
  cases hs with
  | refused | notGranted | notResized => exact .inl (Nat.le_refl _)
  | freed _ hu =>
    obtain ⟨-, -, htotal, -⟩ := Usage.credit_eq_ok_iff.mp hu
    exact .inl (htotal ▸ Nat.le_add_right _ _)
  | allocated | resized => exact .inr (hserved.total_le_limit rfl)

lemma Served.ceilings {reply : Reply (Option Block)}
    (hs : Served c func entries block? length reply entries') :
    reply.context.maxBlocks = c.maxBlocks ∧ reply.context.limit = c.limit := by
  cases hs <;> exact ⟨rfl, rfl⟩

lemma Performed.total_le_limit {reply : Reply Outcome} {block : Block}
    (hp : Performed c entries op reply entries') (hresult : reply.result = .ok (.block block)) :
    reply.context.usage.total.toNat ≤ reply.context.limit.toNat := by
  cases hp with
  | @requested _ _ _ _ served _ _ hs =>
    cases hserved : served.result with
    | error e => simp [Reply.map, hserved, Except.map] at hresult
    | ok given =>
      cases given with
      | none => simp [Reply.map, hserved, Except.map, outcome] at hresult
      | some block => exact hs.total_le_limit hserved
  | _ => cases hresult

lemma Performed.total_le {reply : Reply Outcome} (hp : Performed c entries op reply entries') :
    reply.context.usage.total.toNat ≤ c.usage.total.toNat ∨
      reply.context.usage.total.toNat ≤ reply.context.limit.toNat := by
  cases hp with
  | requested _ hs => exact hs.total_le
  | _ => exact .inl (Nat.le_refl _)

lemma Performed.maxBlocks_eq {reply : Reply Outcome}
    (hp : Performed c entries op reply entries') : reply.context.maxBlocks = c.maxBlocks := by
  cases hp with
  | requested _ hs => exact hs.ceilings.1
  | _ => rfl

/-- The limit is what the operation sets it to, if it does, and else what it was. -/
lemma Performed.limit_eq {reply : Reply Outcome} (hp : Performed c entries op reply entries') :
    reply.context.limit = (op.limitSet reply.result).elim c.limit bytesOfMegabytes := by
  cases hp with
  | refused => cases op <;> rfl
  | requested hop hs =>
    rw [Reply.context_map, hs.ceilings.2]
    cases hop <;> rfl
  | _ => rfl

/-- Setting the limit is not retroactive. -/
lemma Performed.setLimit {reply : Reply Outcome} {megabytes : UInt64}
    (hp : Performed c entries (.setLimit megabytes) reply entries') :
    reply.context.registry = c.registry ∧ reply.context.usage = c.usage := by
  cases hp with
  | requested hop => cases hop
  | _ => exact ⟨rfl, rfl⟩

/-! ### Runs -/

/-- What holds of the ceilings of a context with this configuration and this past. -/
structure Bounded (config : Config) (past : List (Operation Block × Reply Outcome))
    (c : Context) : Prop where
  maxBlocks : c.maxBlocks.toNat = min config.maxBlocks.toNat (2 ^ 32 - 1)
  limit : c.limit.toNat = (Ceiling.ofHistory config past).bytes
  total_le : c.usage.total.toNat ≤ max c.limit.toNat (Ceiling.ofHistory config past).found

lemma CreatedBy.bounded (h : CreatedBy config c) : Bounded config [] c where
  maxBlocks := h.maxBlocks
  limit := h.limit
  total_le := by
    have hc := h.isNew.sound.balanced.total
    rw [hc]
    exact Nat.zero_le _

/-- Each operation keeps what holds of the ceilings. -/
lemma Bounded.perform {past : List (Operation Block × Reply Outcome)} {reply : Reply Outcome}
    (h : Bounded config past c) (hp : Performed c entries op reply entries') :
    Bounded config (past ++ [(op, reply)]) reply.context := by
  have hlimit := hp.limit_eq
  refine ⟨hp.maxBlocks_eq ▸ h.maxBlocks, ?_, ?_⟩
  · rw [Ceiling.ofHistory_append, Ceiling.update, hlimit]
    cases op.limitSet reply.result with
    | some megabytes => exact (Ceiling.bytes_some megabytes _).symm
    | none => exact h.limit
  · rw [Ceiling.ofHistory_append, Ceiling.update]
    cases hset : op.limitSet reply.result with
    | some megabytes => exact Nat.le_max_right _ _
    | none =>
      rw [hset, Option.elim_none] at hlimit
      rcases hp.total_le with hle | hle
      · rw [hlimit]
        exact Nat.le_trans hle h.total_le
      · exact Nat.le_trans hle (Nat.le_max_left _ _)

/-- The limit is the one set last and the number of blocks is below its ceiling. The bytes are below
the limit or were there when it was set; if it is the configured one, they are below it, and so are
the sizes that the listing shows. Whatever is done next, a block that is given out leaves the bytes
below the limit, the bytes do not grow above it, and setting it takes nothing away. -/
theorem run_ceilings (hc : CreatedBy config c) (ops : List (Operation Block)) :
    ∃ last replies, c.run ops = .ok (last, replies) ∧
      last.limit.toNat = (Ceiling.ofHistory config (ops.zip replies)).bytes ∧
      last.usage.count.toNat ≤ min config.maxBlocks.toNat (2 ^ 32 - 1) ∧
      last.usage.total.toNat ≤
        max last.limit.toNat (Ceiling.ofHistory config (ops.zip replies)).found ∧
      ((∀ p ∈ ops.zip replies, p.1.limitSet p.2.result = none) →
        ∀ megabytes, config.limitMb = some megabytes →
          ∃ infos, last.Lists infos ∧
            (infos.map fun info => info.size.toNat).sum ≤ megabytes.toNat * 2 ^ 20) ∧
      ∀ op, ∃ reply, last.perform op = .ok reply ∧
        (∀ block, reply.result = .ok (.block block) →
          reply.context.usage.total ≤ reply.context.limit) ∧
        (last.usage.total < reply.context.usage.total →
          reply.context.usage.total ≤ reply.context.limit) ∧
        ∀ megabytes, op = .setLimit megabytes →
          reply.context.registry = last.registry ∧ reply.context.usage = last.usage := by
  obtain ⟨last, replies, entries, hrun, hlast, hbounded⟩ :=
    hc.isNew.run (fun past c _ => Bounded config past c) hc.bounded
      (fun _ hbounded hp => hbounded.perform hp) ops
  refine ⟨last, replies, hrun, hbounded.limit, ?_, hbounded.total_le, ?_, ?_⟩
  · rw [← hbounded.maxBlocks, hlast.balanced.count]
    exact hlast.balanced.count_le
  · intro hset megabytes hmegabytes
    refine ⟨_, lists_of_holds hlast.holds, ?_⟩
    have hlimit := hbounded.limit
    have htotal := hbounded.total_le
    rw [Ceiling.ofHistory_of_forall_limitSet_eq_none hset, hmegabytes] at hlimit htotal
    rw [List.map_map]
    calc Registry.bytes entries
      _ = last.usage.total.toNat := hlast.balanced.total.symm
      _ ≤ last.limit.toNat := by simpa using htotal
      _ ≤ megabytes.toNat * 2 ^ 20 := by
        rw [hlimit, Ceiling.bytes, Option.elim_some]
        exact Nat.min_le_left _ _
  · intro op
    obtain ⟨reply, entries', hreply, hp⟩ :=
      perform_performed hlast.holds hlast.maxBlocks_le hlast.bytes_lt op
    refine ⟨reply, hreply, ?_, ?_, ?_⟩
    · intro block hresult
      exact UInt64.le_iff_toNat_le.mpr (hp.total_le_limit hresult)
    · intro hgrown
      rw [UInt64.le_iff_toNat_le]
      rw [UInt64.lt_iff_toNat_lt] at hgrown
      exact hp.total_le.resolve_left (Nat.not_le_of_lt hgrown)
    · rintro megabytes rfl
      exact hp.setLimit

/-- A limit of one mebibyte is raised, made use of and lowered again. -/
theorem run_ceilings_lowered : ∃ c last replies,
    CreatedBy ⟨some 1, 2⟩ c ∧
    c.run [.malloc 600000, .setLimit 2, .malloc 1000000, .setLimit 1] = .ok (last, replies) ∧
    last.limit.toNat = 2 ^ 20 ∧ last.usage.total.toNat ≤ max last.limit.toNat 1600112 ∧
    ∃ reply, last.perform (.malloc 1) = .ok reply ∧
      (last.usage.total < reply.context.usage.total →
        reply.context.usage.total ≤ reply.context.limit) := by
  let ops : List (Operation Block) :=
    [.malloc 600000, .setLimit 2, .malloc 1000000, .setLimit 1]
  obtain ⟨c, hc⟩ : ∃ c, (Context.configured 7 .system ⟨some 1, 2⟩).1 = .ok c := ⟨_, rfl⟩
  obtain ⟨last, replies, hrun, hlimit, -, htotal, -, hnext⟩ := run_ceilings (.configured hc) ops
  have hvalue : (c.run ops).map (fun p => Ceiling.ofHistory ⟨some 1, 2⟩ (ops.zip p.2)) =
      .ok ⟨some 1, 1600112⟩ := by
    cases hc
    decide +kernel
  rw [hrun] at hvalue
  have hceiling : Ceiling.ofHistory ⟨some 1, 2⟩ (ops.zip replies) = ⟨some 1, 1600112⟩ :=
    Except.ok.inj hvalue
  rw [hceiling] at hlimit htotal
  obtain ⟨reply, hreply, -, hgrown, -⟩ := hnext (.malloc 1)
  exact ⟨c, last, replies, .configured hc, hrun, hlimit.trans (by decide), htotal, reply, hreply,
    hgrown⟩

end Context

end MemoryLedger
