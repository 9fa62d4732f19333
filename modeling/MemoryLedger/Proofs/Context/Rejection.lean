import MemoryLedger.Context.Payload
import MemoryLedger.Proofs.Context.Audit
import MemoryLedger.Proofs.Context.Request

/-!
# Why a context rejects

`Context.Rejects` lists every rejection that a look at a context comes to, whatever its state: the
error as a whole, with the events that go with it. Where the caller alone cannot bring it about, the
state of the context that does is told as well.
-/

namespace MemoryLedger

lemma Reply.result_map_eq_error {α β : Type} {f : α → β} {reply : Reply α} {error : AllocError} :
    (reply.map f).result = .error error ↔ reply.result = .error error := by
  cases h : reply.result <;> simp [Reply.map, h, Except.map]

namespace Context

/-- The entry point named `func` may reject with this. -/
inductive Rejects (c : Context) : String → Rejection → Prop where
  | parameter {func : String} (name : String) (value : UInt64) :
      Rejects c func ⟨.invalidParameter func name value, []⟩
  | array {func : String} (n size : UInt64) : Rejects c func ⟨.arrayTooLarge func n size, []⟩
  | size {func : String} (length : UInt64) : Rejects c func ⟨.sizeTooLarge func length, []⟩
  | stale {func : String} (block : Block) : Rejects c func (.stale func block)
  | bounds {func : String} (offset length capacity : UInt64) :
      Rejects c func ⟨.outOfBounds func offset length capacity, []⟩
  | limit {func : String} (charge total : UInt64) :
      Rejects c func
        ⟨.limitExceeded func charge total c.limit, [.limitExceeded func charge total c.limit]⟩
  | blocks {func : String} (count : UInt64) :
      Rejects c func ⟨.tooManyBlocks func count, [.tooManyBlocks func count]⟩
  | counters {func : String} {block : Block} {slot : Nat} {d : Descriptor}
      (hlocate : c.locate func block = .ok (slot, d))
      (hcounters : ¬ (1 ≤ c.usage.count ∧ d.size ≤ c.usage.total)) :
      Rejects c func
        ⟨.accounting func, [.countersCorrupted func c.usage.count c.usage.total d.size]⟩
  | payload {func : String} {block : Block} {slot : Nat} {d : Descriptor}
      (hlocate : c.locate func block = .ok (slot, d)) (hpayload : d.payload = none) :
      Rejects c func ⟨.accounting func, []⟩
  | audit {r : Rejection} (haudit : c.audit = .ok (.error r)) : Rejects c "check_integrity" r

variable {c : Context} {func : String} {block : Block} {block? : Option Block} {length : UInt64}
  {r : Rejection}

/-! ### Arguments -/

lemma arrayLength_rejects {n size : UInt64} (h : arrayLength func n size = .error r) :
    c.Rejects func r := by
  rw [arrayLength] at h
  split at h
  · cases h
    exact .parameter _ _
  · split at h
    · cases h
      exact .parameter _ _
    · split at h
      · cases h
        exact .array _ _
      · cases h

lemma setLimit_rejects {megabytes : UInt64} {error : AllocError}
    (h : c.setLimit megabytes = .error error) : c.Rejects "mem_limit" ⟨error, []⟩ := by
  rw [setLimit] at h
  split at h
  · cases h
    exact .parameter _ _
  · cases h

/-! ### The plan of a request -/

lemma locate_eq_error (h : c.locate func block = .error r) : r = .stale func block := by
  simp only [locate] at h
  split at h
  · split at h
    · cases h
    · exact (Except.error.inj h).symm
  · exact (Except.error.inj h).symm

lemma chargeOf_eq_error (h : chargeOf func length = .error r) :
    r = ⟨.sizeTooLarge func length, []⟩ := by
  rw [chargeOf] at h
  split at h
  · exact (Except.error.inj h).symm
  · cases h

lemma checkRoom_eq_error {charge count total : UInt64}
    (h : c.checkRoom func charge count total = .error r) :
    r = ⟨.limitExceeded func charge total c.limit, [.limitExceeded func charge total c.limit]⟩ ∨
      r = ⟨.tooManyBlocks func count, [.tooManyBlocks func count]⟩ := by
  rw [checkRoom] at h
  split at h
  · exact .inl (Except.error.inj h).symm
  · split at h
    · exact .inr (Except.error.inj h).symm
    · cases h

lemma checkCounters_eq_error {oldSize : UInt64} (h : c.checkCounters func oldSize = .error r) :
    ¬ (1 ≤ c.usage.count ∧ oldSize ≤ c.usage.total) ∧
      r = ⟨.accounting func, [.countersCorrupted func c.usage.count c.usage.total oldSize]⟩ := by
  rw [checkCounters] at h
  split at h
  next => cases h
  next hcounters => exact ⟨hcounters, (Except.error.inj h).symm⟩

/-- The check of a handle or of a request that fails, and the rejection it fails with. -/
inductive FailsCheck (c : Context) (func : String) (r : Rejection) : Prop where
  | locate {block : Block} (h : c.locate func block = .error r) : FailsCheck c func r
  | counters {block : Block} {slot : Nat} {d : Descriptor}
      (hlocate : c.locate func block = .ok (slot, d))
      (h : c.checkCounters func d.size = .error r) : FailsCheck c func r
  | charge {length : UInt64} (h : chargeOf func length = .error r) : FailsCheck c func r
  | room {charge count total : UInt64} (h : c.checkRoom func charge count total = .error r) :
      FailsCheck c func r
  | payload {block : Block} {slot : Nat} {d : Descriptor}
      (hlocate : c.locate func block = .ok (slot, d)) (hpayload : d.payload = none)
      (hr : r = ⟨.accounting func, []⟩) : FailsCheck c func r

/-- A check that fails is a rejection by the entry point that it is for. -/
lemma FailsCheck.rejects (h : c.FailsCheck func r) : c.Rejects func r := by
  cases h with
  | @locate block h =>
    rw [locate_eq_error h]
    exact .stale block
  | counters hlocate h =>
    obtain ⟨hcounters, rfl⟩ := checkCounters_eq_error h
    exact .counters hlocate hcounters
  | @charge length h =>
    rw [chargeOf_eq_error h]
    exact .size length
  | @room charge count total h =>
    rcases checkRoom_eq_error h with rfl | rfl
    · exact .limit charge total
    · exact .blocks count
  | payload hlocate hpayload hr =>
    rw [hr]
    exact .payload hlocate hpayload

/-- A plan that is refused has failed a check. -/
theorem plan_fails (h : c.plan func block? length = .error r) : c.FailsCheck func r := by
  cases block? with
  | none =>
    simp only [plan, bind_eq_error_iff] at h
    rcases h with hcharge | ⟨charge, -, hroom | ⟨-, -, h⟩⟩
    · exact .charge hcharge
    · exact .room hroom
    · cases h
  | some block =>
    simp only [plan, bind_eq_error_iff] at h
    rcases h with hlocate | ⟨⟨slot, old⟩, hlocate, hcounters | ⟨-, -, h⟩⟩
    · exact .locate hlocate
    · exact .counters hlocate hcounters
    · split at h
      · cases h
      · simp only [bind_eq_error_iff] at h
        rcases h with hcharge | ⟨charge, -, hroom | ⟨-, -, h⟩⟩
        · exact .charge hcharge
        · exact .room hroom
        · split at h
          next hpayload => exact .payload hlocate hpayload (Except.error.inj h).symm
          next => cases h

/-- Whatever a plan refuses is a rejection by the entry point that the plan is for. -/
theorem plan_rejects (h : c.plan func block? length = .error r) : c.Rejects func r :=
  (plan_fails h).rejects

/-! ### Access to payloads -/

/-- A handle is looked up the same way whoever asks for it. -/
lemma locate_eq_ok {found : Nat × Descriptor} (h : c.locate func block = .ok found)
    (func' : String) : c.locate func' block = .ok found := by
  simp only [locate] at h ⊢
  split at h
  next =>
    split at h
    next hvalid => exact (if_pos hvalid).trans h
    next => cases h
  next => cases h

lemma pointer_fails (h : c.pointer block = .error r) : c.FailsCheck "as_ptr" r := by
  simp only [pointer, bind_eq_error_iff] at h
  rcases h with hlocate | ⟨⟨slot, d⟩, hlocate, h⟩
  · exact .locate hlocate
  · split at h
    next => cases h
    next hpayload => exact .payload hlocate hpayload (Except.error.inj h).symm

lemma payloadLength_fails (h : c.payloadLength block = .ok (.error r)) :
    c.FailsCheck "payload_len" r := by
  rw [payloadLength] at h
  split at h
  next hlocate =>
    cases h
    exact .locate hlocate
  next =>
    obtain ⟨length, -, h⟩ := map_eq_ok_iff.mp h
    cases h

/-- An access that is refused has failed a check or goes beyond the end of the payload. -/
lemma accessRegion_fails {offset : UInt64} {bytes : Nat}
    (h : c.accessRegion func block offset bytes = .ok (.error r)) :
    c.FailsCheck func r ∨ ∃ capacity, c.payloadLength block = .ok (.ok capacity) ∧
      capacity.toNat < offset.toNat + bytes ∧
      r = ⟨.outOfBounds func offset bytes.toUInt64 capacity, []⟩ := by
  rw [accessRegion] at h
  split at h
  next hlocate =>
    cases h
    exact .inl (.locate hlocate)
  next slot d hlocate =>
    obtain ⟨capacity, hcapacity, h⟩ := bind_eq_ok_iff.mp h
    split at h
    next hbeyond =>
      cases h
      refine .inr ⟨capacity, ?_, hbeyond, rfl⟩
      simp only [payloadLength, locate_eq_ok hlocate, hcapacity, map_ok]
    next =>
      split at h
      next => cases h
      next hpayload =>
        cases h
        exact .inl (.payload hlocate hpayload rfl)

lemma pointer_rejects (h : c.pointer block = .error r) : c.Rejects "as_ptr" r :=
  (pointer_fails h).rejects

lemma payloadLength_rejects (h : c.payloadLength block = .ok (.error r)) :
    c.Rejects "payload_len" r :=
  (payloadLength_fails h).rejects

lemma accessRegion_rejects {offset : UInt64} {bytes : Nat}
    (h : c.accessRegion func block offset bytes = .ok (.error r)) : c.Rejects func r := by
  rcases accessRegion_fails h with h | ⟨capacity, -, -, rfl⟩
  · exact h.rejects
  · exact .bounds _ _ _

end Context

end MemoryLedger
