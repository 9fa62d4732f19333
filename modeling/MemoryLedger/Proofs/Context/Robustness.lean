import MemoryLedger.Proofs.Context.Admission
import MemoryLedger.Proofs.Context.Ceiling
import MemoryLedger.Proofs.Context.Safety

/-!
# Corrupted counters

The registry does not rely on the counters. Whatever the counters and the limit of a context are
overwritten with, its list stays well formed and no operation stops with a fault, because each sum
and difference of counters comes after a check of its own. A block that the counters cannot include
is neither freed nor resized, and that is the only reason why an operation with an accepted handle
is refused for broken bookkeeping.
-/

namespace MemoryLedger

lemma Ground.Told.not_internal {func : String} {ground : Ground} {error : AllocError}
    (h : ground.Told func error) : ¬ error.Internal := by
  cases h <;> rintro ⟨⟩

/-! ### The list without the counters -/

/-- The list of the registry comes to an end. It meets `visited`, which are its live slots, each
once, and each points back to the one before. -/
structure Registry.Linked (r : Registry) (visited : List (Nat × Descriptor)) : Prop where
  leads : r.Leads r.head visited
  nodup : (visited.map Prod.fst).Nodup
  mem_iff : ∀ slot, slot ∈ visited.map Prod.fst ↔ ∃ d, r.slots[slot]? = some d ∧ d.IsLive
  prev : ∀ before slot d after, visited = before ++ (slot, d) :: after →
    d.prev = (before.map Prod.fst).getLast?

/-- A registry that holds its blocks is linked through them. -/
theorem Registry.Holds.linked {r : Registry} {entries : List Entry} (h : r.Holds entries) :
    ∃ visited, r.Linked visited := by
  obtain ⟨visited, hmeets, hchains⟩ := h.chains
  refine ⟨visited, hchains.leads, hchains.nodup, fun slot => ?_, ?_⟩
  · rw [hmeets.slots]
    exact h.mem_slots_iff
  · intro before slot d after hvisited
    rw [hchains.prev_eq hvisited, Option.or_none]

namespace Context

variable {c : Context} {entries entries' : List Entry} {e : Entry} {block : Block}
  {block? : Option Block} {func : String} {length : UInt64} {op : Operation Block}

/-! ### Operations that rely on the registry alone -/

/-- Every operation on a context that holds its blocks has an outcome, an audit also where the bytes
of the blocks cannot be summed up. -/
theorem exists_performed (h : c.registry.Holds entries) (hmax : c.maxBlocks ≤ maxBlocksCeiling)
    (op : Operation Block) :
    ∃ reply entries', c.perform op = .ok reply ∧ Performed c entries op reply entries' := by
  by_cases haudit : op = .audit
  · subst haudit
    obtain ⟨verdict, hverdict⟩ := audit_isOk h.closed
    exact performed_of_audit hverdict
  · exact performed_of_ne_audit h hmax haudit

lemma Served.holds {reply : Reply (Option Block)} (h : c.registry.Holds entries)
    (hs : Served c func entries block? length reply entries') :
    reply.context.registry.Holds entries' := by
  cases hs with
  | refused | notGranted | notResized => exact h
  | freed _ _ hr => exact hr
  | allocated _ _ _ hr => exact hr.holds
  | resized _ _ _ _ _ _ _ hr => exact hr.holds

/-- An operation leaves a registry that holds its blocks. -/
theorem Performed.holds {reply : Reply Outcome} (h : c.registry.Holds entries)
    (hp : Performed c entries op reply entries') : reply.context.registry.Holds entries' := by
  cases hp with
  | requested _ hs => exact hs.holds h
  | _ => exact h

/-- A run of a context that holds its blocks does not stop with a fault. -/
theorem run_of_holds (h : c.registry.Holds entries) (hmax : c.maxBlocks ≤ maxBlocksCeiling)
    (ops : List (Operation Block)) :
    ∃ last replies entries', c.run ops = .ok (last, replies) ∧ last.registry.Holds entries' ∧
      last.maxBlocks ≤ maxBlocksCeiling := by
  induction ops generalizing c entries with
  | nil => exact ⟨c, [], entries, rfl, h, hmax⟩
  | cons op ops ih =>
    obtain ⟨reply, entries₁, hreply, hp⟩ := exists_performed h hmax op
    obtain ⟨last, replies, entries', hrun, hlast⟩ :=
      ih (hp.holds h) (hp.maxBlocks_eq.symm ▸ hmax)
    exact ⟨last, reply :: replies, entries', by rw [run, hreply, ok_bind, hrun, ok_bind], hlast⟩

/-! ### Blocks that the counters cannot include -/

/-- What is told of a block of `size` bytes that the counters cannot include. -/
def miscounted (c : Context) (func : String) (size : UInt64) : Rejection :=
  ⟨.accounting func, [.countersCorrupted func c.usage.count c.usage.total size]⟩

lemma miscounted_iff {size : UInt64} :
    ¬ (1 ≤ c.usage.count ∧ size ≤ c.usage.total) ↔
      c.usage.count = 0 ∨ c.usage.total < size := by
  rw [not_and_or, UInt64.not_le, UInt64.not_le, UInt64.lt_iff_toNat_lt (a := c.usage.count),
    UInt64.toNat_one, Nat.lt_one_iff, ← UInt64.toNat_inj (a := c.usage.count), UInt64.toNat_zero]

/-- A block that the counters cannot include is not planned for. -/
lemma plan_of_miscounted (h : c.registry.Holds entries) (he : e ∈ entries)
    (hname : c.Names block e) (hcounters : ¬ (1 ≤ c.usage.count ∧ e.size ≤ c.usage.total))
    (func : String) (length : UInt64) :
    c.plan func (some block) length = .error (c.miscounted func e.size) := by
  obtain ⟨old, hlocate, hbare⟩ := locate_of_names h he hname func
  have hsize : old.size = e.size := Entry.size_of_bare hbare
  have hcheck : c.checkCounters func e.size = .error (c.miscounted func e.size) :=
    if_neg hcounters
  simp only [plan, hlocate, hsize, hcheck, ok_bind, error_bind]

/-- A block that the counters include is not refused by its plan for broken bookkeeping. -/
lemma plan_ne_accounting (h : c.registry.Holds entries) (he : e ∈ entries)
    (hname : c.Names block e) (hcounters : 1 ≤ c.usage.count ∧ e.size ≤ c.usage.total)
    {r : Rejection} (hplan : c.plan func (some block) length = .error r) :
    ¬ r.error.Internal := by
  by_cases hzero : length = 0
  · -- nothing but the handle and the counters stands against freeing
    obtain ⟨old, hlocate, hbare⟩ := locate_of_names h he hname func
    have hsize : old.size = e.size := Entry.size_of_bare hbare
    have hcheck : c.checkCounters func e.size = .ok () := if_pos hcounters
    simp only [plan, hlocate, hsize, hcheck, if_pos hzero, ok_bind] at hplan
    cases hplan
  · have hchecked := plan_some_checked h he hname hcounters.1 hcounters.2 hzero func
    rw [hplan] at hchecked
    obtain ⟨ground, -, htold⟩ := hchecked.ground_of_error
    exact htold.not_internal

/-- A request for a block that the counters include is not refused for broken bookkeeping. -/
lemma Served.not_internal_of_counters {reply : Reply (Option Block)} {error : AllocError}
    (h : c.registry.Holds entries) (he : e ∈ entries) (hname : c.Names block e)
    (hcounters : 1 ≤ c.usage.count ∧ e.size ≤ c.usage.total)
    (hs : Served c func entries (some block) length reply entries')
    (herror : reply.result = .error error) : ¬ error.Internal := by
  cases hs with
  | refused hplan =>
    cases herror
    exact plan_ne_accounting h he hname hcounters hplan
  | notResized =>
    cases herror
    rintro ⟨⟩
  | freed | resized => cases herror

/-- With a handle that is accepted, an operation that frees or resizes is refused for broken
bookkeeping if and only if the counters cannot include the block, and then changes nothing. -/
theorem perform_accounting_iff (h : c.registry.Holds entries)
    (hmax : c.maxBlocks ≤ maxBlocksCeiling) (hop : op.Requests func (some block) length)
    {slot : Nat} {d : Descriptor} (hlocate : c.locate func block = .ok (slot, d)) :
    ∃ reply, c.perform op = .ok reply ∧
      ((∃ error, reply.result = .error error ∧ error.Internal) ↔
        c.usage.count = 0 ∨ c.usage.total < d.size) ∧
      (c.usage.count = 0 ∨ c.usage.total < d.size →
        reply = c.reject (c.miscounted func d.size)) := by
  obtain ⟨e, he, hname⟩ := (locate_isOk_iff h func).mp ⟨_, hlocate⟩
  obtain ⟨d', hd', hbare⟩ := locate_of_names h he hname func
  cases hlocate.symm.trans hd'
  have hsize : d.size = e.size := Entry.size_of_bare hbare
  rw [hsize, ← miscounted_iff]
  by_cases hcounters : 1 ≤ c.usage.count ∧ e.size ≤ c.usage.total
  · obtain ⟨reply, entries', hreply, hs⟩ := request_served h hmax func (some block) length
    refine ⟨_, perform_of_requests hop hs hreply, ?_, fun hnot => absurd hcounters hnot⟩
    refine ⟨?_, fun hnot => absurd hcounters hnot⟩
    rintro ⟨error, herror, hinternal⟩
    exact absurd hinternal (hs.not_internal_of_counters h he hname hcounters
      (Reply.result_map_eq_error.mp herror))
  · have hplan := plan_of_miscounted h he hname hcounters func length
    have hrequest : c.request func (some block) length =
        .ok (c.reject (c.miscounted func e.size)) := by simp only [request, hplan]
    have hs : Served c func entries (some block) length (c.reject (c.miscounted func e.size))
        entries := .refused hplan
    refine ⟨_, perform_of_requests hop hs hrequest, ?_, fun _ => rfl⟩
    exact ⟨fun _ => hcounters, fun _ => ⟨_, rfl, .accounting func⟩⟩

/-! ### Runs -/

/-- After any run, let the counters and the limit be overwritten with anything. Whatever is done
then, nothing stops with a fault, what is formed without a check is exact, the list stays well
formed and meets exactly the live slots, and freeing or resizing the block of an accepted handle is
refused for broken bookkeeping if and only if the counters cannot include this block, which changes
nothing. -/
theorem run_robust (hc : c.IsNew) (ops more : List (Operation Block)) (usage : Usage)
    (limit : UInt64) :
    (∀ func length charge, chargeOf func length = .ok charge →
      addChecked length descriptorSize = .ok charge) ∧
    (∀ func n size length, arrayLength func n size = .ok length →
      length.toNat = n.toNat * size.toNat) ∧
    ∃ last replies, c.run ops = .ok (last, replies) ∧
      ∃ later laterReplies,
        ({ last with usage, limit } : Context).run more = .ok (later, laterReplies) ∧
        later.Guarded ∧ (∃ visited, later.registry.Linked visited) ∧
        ∀ (op : Operation Block) func block length slot d,
          op.Requests func (some block) length → later.locate func block = .ok (slot, d) →
          ∃ reply, later.perform op = .ok reply ∧
            ((∃ error, reply.result = .error error ∧ error.Internal) ↔
              later.usage.count = 0 ∨ later.usage.total < d.size) ∧
            (later.usage.count = 0 ∨ later.usage.total < d.size →
              reply = later.reject (later.miscounted func d.size)) := by
  obtain ⟨last, replies, entries, hrun, hlast, -⟩ :=
    hc.run (fun _ _ _ => True) trivial (fun _ _ _ => trivial) ops
  let overwritten : Context := { last with usage, limit }
  have hholds : overwritten.registry.Holds entries := hlast.holds
  obtain ⟨later, laterReplies, entries', hmore, hlater, hmax⟩ :=
    run_of_holds hholds hlast.maxBlocks_le more
  refine ⟨fun _ _ _ => addChecked_of_chargeOf, fun _ _ _ _ => toNat_arrayLength, last, replies,
    hrun, later, laterReplies, hmore, guarded later, hlater.linked, ?_⟩
  intro op func block length slot d hop hlocate
  exact perform_accounting_iff hlater hmax hop hlocate

/-- With the counters at zero a block is allocated, but the block from before is not freed. -/
theorem run_robust_zeroed : ∃ last replies later laterReplies reply,
    (create 7 .system).run [.malloc 16, .malloc 8] = .ok (last, replies) ∧
    ({ last with usage := {}, limit := 100 } : Context).run [.malloc 4] =
      .ok (later, laterReplies) ∧
    (∃ visited, later.registry.Linked visited) ∧ later.usage.count = 1 ∧
    later.usage.total = 60 ∧ later.perform (.free ⟨7, 0, 1⟩) = .ok reply ∧
    reply = later.reject (later.miscounted "free" 72) := by
  obtain ⟨-, -, last, replies, hrun, later, laterReplies, hmore, -, hlinked, hfree⟩ :=
    run_robust (.plain 7 .system) [.malloc 16, .malloc 8] [.malloc 4] {} 100
  have hvalue : ((create 7 .system).run [.malloc 16, .malloc 8]).bind (fun p =>
      (({ p.1 with usage := {}, limit := 100 } : Context).run [.malloc 4]).map fun q =>
        (q.1.usage.count, q.1.usage.total,
          (q.1.locate "free" ⟨7, 0, 1⟩).map fun found => found.2.size)) =
      .ok (1, 60, .ok 72) := by decide +kernel
  rw [hrun] at hvalue
  obtain ⟨_, ⟨⟩, hvalue⟩ := bind_eq_ok_iff.mp hvalue
  rw [hmore] at hvalue
  obtain ⟨hcount, hvalue⟩ := Prod.mk.inj (Except.ok.inj hvalue)
  obtain ⟨htotal, hlocate⟩ := Prod.mk.inj hvalue
  obtain ⟨⟨slot, d⟩, hfound, hsize⟩ := map_eq_ok_iff.mp hlocate
  obtain ⟨reply, hreply, -, hrejected⟩ := hfree _ _ _ _ _ _ .free hfound
  have hsize' : d.size = 72 := hsize
  rw [hsize', htotal] at hrejected
  exact ⟨last, replies, later, laterReplies, reply, hrun, hmore, hlinked, hcount, htotal, hreply,
    hrejected (.inr (by decide))⟩

end Context

end MemoryLedger
