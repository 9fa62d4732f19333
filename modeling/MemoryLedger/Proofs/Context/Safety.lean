import MemoryLedger.Proofs.Context.Close
import MemoryLedger.Proofs.Context.Consistency

/-!
# Safety of a context

No run of a new context stops with a fault, and neither does anything that is done after it: each
operation answers, the registry can be listed and the context can be closed. Nor is anything ever
refused for broken bookkeeping, for what such a refusal looks for is never the case in a context
that is `Sound`.
-/

namespace MemoryLedger

/-- The error tells of broken bookkeeping, not of what was asked for. -/
inductive AllocError.Internal : AllocError → Prop where
  | accounting (func : String) : Internal (.accounting func)

namespace Context

/-- The counters without a block are formed without a check of their own, because a check came
before, and are exact. -/
def Guarded (c : Context) : Prop :=
  ∀ (func : String) (oldSize : UInt64), c.checkCounters func oldSize = .ok () →
    subChecked c.usage.count 1 = .ok (c.usage.count - 1) ∧
      subChecked c.usage.total oldSize = .ok (c.usage.total - oldSize)

variable {c : Context} {entries entries' : List Entry} {func : String} {block : Block}
  {block? : Option Block} {length : UInt64} {r : Rejection} {error : AllocError}

theorem guarded (c : Context) : c.Guarded := by
  intro func oldSize h
  rw [checkCounters] at h
  split at h
  next hcounters => exact ⟨if_pos hcounters.1, if_pos hcounters.2⟩
  next => cases h

/-! ### What a sound context does not refuse -/

/-- The counters of a sound context include every block, and every block has its payload. -/
lemma Sound.of_locate {slot : Nat} {d : Descriptor} (hc : c.Sound entries)
    (h : c.locate func block = .ok (slot, d)) :
    (1 ≤ c.usage.count ∧ d.size ≤ c.usage.total) ∧ d.payload ≠ none := by
  obtain ⟨e, he, hname⟩ := (locate_isOk_iff hc.holds func).mp ⟨_, h⟩
  obtain ⟨d', hd', hbare⟩ := locate_of_names hc.holds he hname func
  cases h.symm.trans hd'
  have hsize : d.size = e.size := Entry.size_of_bare hbare
  have hpayload : d.payload = some e.payload := Entry.payload_of_bare hbare
  exact ⟨hsize.symm ▸ hc.included he, by simp [hpayload]⟩

lemma Sound.not_internal (hc : c.Sound entries) (h : c.Rejects func r) : ¬ r.error.Internal := by
  cases h with
  | counters hlocate hcounters => exact absurd (hc.of_locate hlocate).1 hcounters
  | payload hlocate hpayload => exact absurd hpayload (hc.of_locate hlocate).2
  | audit haudit => cases haudit.symm.trans hc.audit
  | _ => rintro ⟨⟩

lemma Served.not_internal {reply : Reply (Option Block)} (hc : c.Sound entries)
    (hs : Served c func entries block? length reply entries')
    (herror : reply.result = .error error) : ¬ error.Internal := by
  cases hs with
  | refused hplan =>
    cases herror
    exact hc.not_internal (plan_rejects hplan)
  | notGranted | notResized =>
    cases herror
    rintro ⟨⟩
  | freed | allocated | resized => cases herror

/-- An operation on a sound context is not refused for broken bookkeeping. -/
theorem Performed.not_internal {op : Operation Block} {reply : Reply Outcome}
    (hc : c.Sound entries) (hp : Performed c entries op reply entries')
    (herror : reply.result = .error error) : ¬ error.Internal := by
  cases hp with
  | refused hr =>
    cases herror
    exact hc.not_internal hr
  | requested _ hs => exact hs.not_internal hc (Reply.result_map_eq_error.mp herror)
  | _ => cases herror

/-! ### Runs -/

/-- A run of a new context does not stop with a fault, nor does anything that comes after it. No
sum or difference leaves the range of its word and no index the slot table, and the sums, products
and differences that are formed without a check are exact. Every operation answers and is not
refused for broken bookkeeping, the blocks can be listed, and closing the context comes to an end
when no block is left. -/
theorem run_safe (hc : c.IsNew) (ops : List (Operation Block)) :
    (∀ func length charge, chargeOf func length = .ok charge →
      addChecked length descriptorSize = .ok charge) ∧
    (∀ func n size length, arrayLength func n size = .ok length →
      length.toNat = n.toNat * size.toNat) ∧
    ∃ last replies, c.run ops = .ok (last, replies) ∧ last.Guarded ∧
      (∀ op, ∃ reply, last.perform op = .ok reply ∧
        ∀ error, reply.result = .error error → ¬ error.Internal) ∧
      (∀ room, ∃ infos, last.blocks room = .ok infos) ∧
      ∃ closed events, last.close = .ok (closed, events) ∧ closed.registry.head = none ∧
        closed.usage.count = 0 ∧ closed.usage.total = 0 := by
  obtain ⟨last, replies, entries, hrun, hlast, -⟩ :=
    hc.run (fun _ _ _ => True) trivial (fun _ _ _ => trivial) ops
  refine ⟨fun _ _ _ => addChecked_of_chargeOf, fun _ _ _ _ => toNat_arrayLength, last, replies,
    hrun, guarded last, ?_, ?_, ?_⟩
  · intro op
    obtain ⟨reply, entries', hreply, hp⟩ :=
      perform_performed hlast.holds hlast.maxBlocks_le hlast.bytes_lt op
    exact ⟨reply, hreply, fun error herror => hp.not_internal hlast herror⟩
  · intro room
    obtain ⟨visited, -, hleads⟩ := hlast.holds.leads
    exact ⟨_, by rw [blocks, hleads.walk_take, ok_bind]⟩
  · obtain ⟨closed, events, hclose, hclosed, -⟩ := hlast.close
    refine ⟨closed, events, hclose, hclosed.holds.threads.head, ?_, ?_⟩
    · exact UInt64.toNat_inj.mp hclosed.balanced.count
    · exact UInt64.toNat_inj.mp hclosed.balanced.total

/-- The heap declines the third request, and a block is freed twice. -/
theorem run_safe_declined : ∃ last replies closed events,
    (create 7 (Heap.system.refuseAfter (some 2))).run [.malloc 16, .malloc 8,
      .realloc ⟨7, 0, 1⟩ 4 8, .free ⟨7, 1, 1⟩, .free ⟨7, 1, 1⟩] = .ok (last, replies) ∧
    replies.map Reply.result = [.ok (.block ⟨7, 0, 1⟩), .ok (.block ⟨7, 1, 1⟩),
      .error (.noMemory "realloc" 88), .ok .nothing, .error (.invalidPointer "free")] ∧
    last.close = .ok (closed, events) ∧ closed.registry.head = none := by
  let ops : List (Operation Block) := [.malloc 16, .malloc 8, .realloc ⟨7, 0, 1⟩ 4 8,
    .free ⟨7, 1, 1⟩, .free ⟨7, 1, 1⟩]
  obtain ⟨-, -, last, replies, hrun, -, -, -, closed, events, hclose, hhead, -⟩ :=
    run_safe (.plain 7 (Heap.system.refuseAfter (some 2))) ops
  have hvalue : ((create 7 (Heap.system.refuseAfter (some 2))).run ops).map
      (fun p => p.2.map Reply.result) =
      .ok [.ok (.block ⟨7, 0, 1⟩), .ok (.block ⟨7, 1, 1⟩), .error (.noMemory "realloc" 88),
        .ok .nothing, .error (.invalidPointer "free")] := by decide +kernel
  rw [hrun] at hvalue
  exact ⟨last, replies, closed, events, hrun, Except.ok.inj hvalue, hclose, hhead⟩

end Context

end MemoryLedger
