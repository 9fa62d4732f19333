import MemoryLedger.Proofs.Context.Audit
import MemoryLedger.Proofs.Context.Operation
import MemoryLedger.Proofs.Heap

/-!
# What a refusal leaves behind

A refused operation leaves the context as it was, and this holds in every state of the context,
also in one that no run comes to. A request is refused either by its plan, which looks at the
context only, or by the heap, which then has been called once and has declined. Once the heap has
granted what it was asked for, nothing is refused any more.
-/

namespace MemoryLedger

/-- A call of the heap for so many bytes that was declined. -/
inductive Heap.Call.Declines (size : Nat) : Heap.Call → Prop where
  | allocate {bytes : UInt64} (h : bytes.toNat = size) : Declines size (.allocate bytes none)
  | reallocate {id : Nat} {bytes : UInt64} (h : bytes.toNat = size) :
      Declines size (.reallocate id bytes false)

/-- The heap was the one to refuse. -/
inductive AllocError.OfHeap : AllocError → Prop where
  | noMemory (func : String) (size : UInt64) : OfHeap (.noMemory func size)

namespace Context

/-- What becomes of a context when `length` bytes are refused with `error`: nothing but the heap
changes, and this only if it was the one to refuse. Then it was called once, for the bytes of a
region of this length, and no byte of any region is another. -/
structure Refused (c : Context) (length : Nat) (error : AllocError) (c' : Context) : Prop where
  kept : c' = { c with heap := c'.heap }
  regions : c'.heap.regions = c.heap.regions
  unasked : ¬ error.OfHeap → c'.heap = c.heap
  declined : error.OfHeap →
    ∃ call, call.Declines (max length 1) ∧ c'.heap.calls = c.heap.calls.push call

variable {c : Context} {func : String} {block : Block} {block? : Option Block} {length : UInt64}
  {error : AllocError} {r : Rejection} {bytes : Nat}

lemma refused_self (h : ¬ error.OfHeap) : c.Refused bytes error c where
  kept := rfl
  regions := rfl
  unasked := fun _ => rfl
  declined := fun h' => absurd h' h

/-! ### The plan does not ask the heap -/

lemma Rejects.not_ofHeap (h : c.Rejects func r) : ¬ r.error.OfHeap := by
  cases h with
  | audit haudit =>
    obtain ⟨events, rfl⟩ := audit_rejection haudit
    rintro ⟨⟩
  | _ => rintro ⟨⟩

/-- Only a handle and no bytes amount to freeing. -/
lemma plan_eq_free {slot : Nat} (h : c.plan func block? length = .ok (.free slot)) :
    block? ≠ none ∧ length = 0 := by
  cases block? with
  | none =>
    simp only [plan, bind_eq_ok_iff] at h
    obtain ⟨charge, -, -, -, h⟩ := h
    cases h
  | some block =>
    simp only [plan, bind_eq_ok_iff] at h
    obtain ⟨⟨_, old⟩, -, -, -, h⟩ := h
    split at h
    next hzero => exact ⟨Option.some_ne_none _, hzero⟩
    next =>
      simp only [bind_eq_ok_iff] at h
      obtain ⟨charge, -, -, -, h⟩ := h
      split at h <;> cases h

/-! ### Requests -/

/-- What can come of a request in any state of the context. -/
inductive Settled (c : Context) (block? : Option Block) (length : UInt64) :
    Reply (Option Block) → Prop where
  | given {reply : Reply (Option Block)} (block : Block) (h : reply.result = .ok (some block)) :
      Settled c block? length reply
  | freed {reply : Reply (Option Block)} (h : reply.result = .ok none) (hblock : block? ≠ none)
      (hlength : length = 0) : Settled c block? length reply
  | refused {reply : Reply (Option Block)} {error : AllocError} (h : reply.result = .error error)
      (hrefused : c.Refused length.toNat error reply.context) : Settled c block? length reply

variable {reply : Reply (Option Block)}

/-- When the heap has declined, nothing else is changed. -/
lemma settled_noMemory {heap : Heap} {call : Heap.Call} {charge : UInt64}
    (hcall : call.Declines (max length.toNat 1)) (hcalls : heap.calls = c.heap.calls.push call)
    (hregions : heap.regions = c.heap.regions) :
    Settled c block? length (noMemory { c with heap } func charge) :=
  .refused rfl
    { kept := rfl
      regions := hregions
      unasked := fun h => absurd (.noMemory func charge) h
      declined := fun _ => ⟨call, hcall, hcalls⟩ }

/-- Once a block is placed, its handle is given out. -/
lemma place_result {slot payload : Nat} {charge : UInt64}
    (h : c.place func slot charge payload = .ok reply) :
    ∃ block, reply.result = .ok (some block) := by
  simp only [place, bind_eq_ok_iff] at h
  obtain ⟨⟨generation, registry⟩, -, registry', -, usage, -, h⟩ := h
  cases h
  exact ⟨_, rfl⟩

lemma carryOutAllocate_settled {charge : UInt64}
    (h : c.carryOutAllocate func length charge = .ok reply) : Settled c block? length reply := by
  rw [carryOutAllocate] at h
  split at h
  next heap hheap =>
    cases h
    obtain ⟨hcalls, -, hregions⟩ := Heap.allocate_eq_none hheap
    exact settled_noMemory (.allocate toNat_regionLength) hcalls hregions
  next payload heap hheap =>
    obtain ⟨block, hresult⟩ := place_result h
    exact .given block hresult

lemma carryOutResize_settled {slot payload : Nat} {old : Descriptor} {charge : UInt64}
    (h : c.carryOutResize func slot old payload length charge = .ok reply) :
    Settled c block? length reply := by
  rw [carryOutResize] at h
  split at h
  next heap hheap =>
    cases h
    obtain ⟨hcalls, -, hregions⟩ := Heap.reallocate_eq_false hheap
    exact settled_noMemory (.reallocate toNat_regionLength) hcalls hregions
  next heap hheap =>
    simp only [bind_eq_ok_iff] at h
    obtain ⟨registry, -, usage, -, h⟩ := h
    split at h
    · simp only [bind_eq_ok_iff] at h
      obtain ⟨retired, -, placed, hplace, h⟩ := h
      cases h
      obtain ⟨block, hresult⟩ := place_result hplace
      exact .given block hresult
    · obtain ⟨block, hresult⟩ := place_result h
      exact .given block hresult

/-- A request that answers has given a handle out, has freed or has refused. -/
theorem request_settled (h : c.request func block? length = .ok reply) :
    Settled c block? length reply := by
  rw [request] at h
  split at h
  next r hplan =>
    cases h
    exact .refused rfl (refused_self (plan_rejects hplan).not_ofHeap)
  next slot hplan =>
    obtain ⟨⟨c', event⟩, -, h⟩ := bind_eq_ok_iff.mp h
    cases h
    obtain ⟨hblock, hlength⟩ := plan_eq_free hplan
    exact .freed rfl hblock hlength
  next charge hplan => exact carryOutAllocate_settled h
  next slot old payload charge hplan => exact carryOutResize_settled h

/-! ### Entry points -/

lemma Settled.refused_of_error (h : Settled c block? length reply)
    (herror : reply.result = .error error) : c.Refused length.toNat error reply.context := by
  cases h with
  | given block h => cases h.symm.trans herror
  | freed h => cases h.symm.trans herror
  | refused h hrefused =>
    cases h.symm.trans herror
    exact hrefused

/-- The entry points that give a handle out do not come to a free, so they add no refusal. -/
lemma Settled.handle_refused (h : Settled c block? length reply)
    (hkind : block? = none ∨ length ≠ 0) (herror : (handle func reply).result = .error error) :
    c.Refused length.toNat error (handle func reply).context := by
  cases h with
  | given block h => simp [handle, h] at herror
  | freed _ hblock hlength => exact absurd hlength (hkind.resolve_left hblock)
  | refused h hrefused =>
    simp only [handle, h] at herror
    cases herror
    exact hrefused

lemma malloc_refused {size : UInt64} {reply : Reply Block} (h : c.malloc size = .ok reply)
    (herror : reply.result = .error error) : c.Refused size.toNat error reply.context := by
  rw [malloc] at h
  split at h
  · cases h
    cases herror
    exact refused_self (by rintro ⟨⟩)
  · obtain ⟨served, hrequest, rfl⟩ := map_eq_ok_iff.mp h
    exact (request_settled hrequest).handle_refused (.inl rfl) herror

/-- The entry points for arrays look at their factors first. -/
lemma array_refused {n size : UInt64} {reply : Reply Block}
    (h : (match arrayLength func n size with
      | .error r => Except.ok (c.reject r)
      | .ok length => handle func <$> c.request func block? length) = .ok reply)
    (herror : reply.result = .error error) :
    c.Refused (n.toNat * size.toNat) error reply.context := by
  split at h
  next r harray =>
    cases h
    cases herror
    exact refused_self (arrayLength_rejects (c := c) harray).not_ofHeap
  next length harray =>
    obtain ⟨served, hrequest, rfl⟩ := map_eq_ok_iff.mp h
    rw [← toNat_arrayLength harray]
    exact (request_settled hrequest).handle_refused (.inr (arrayLength_ne_zero harray)) herror

/-! ### Access to payloads -/

lemma pointer_error (h : c.pointer block = .error r) : ¬ r.error.OfHeap :=
  (pointer_rejects h).not_ofHeap

lemma payloadLength_error (h : c.payloadLength block = .ok (.error r)) : ¬ r.error.OfHeap :=
  (payloadLength_rejects h).not_ofHeap

lemma write_refused {offset : UInt64} {text : List UInt8} {reply : Reply Unit}
    (h : c.write block offset text = .ok reply) (herror : reply.result = .error error) :
    c.Refused bytes error reply.context := by
  obtain ⟨region, hregion, h⟩ := bind_eq_ok_iff.mp h
  split at h
  · cases h
    cases herror
    exact refused_self (accessRegion_rejects hregion).not_ofHeap
  · cases h
    cases herror

lemma fill_refused {byte : UInt8} {reply : Reply Unit} (h : c.fill block byte = .ok reply)
    (herror : reply.result = .error error) : c.Refused bytes error reply.context := by
  obtain ⟨length, hlength, h⟩ := bind_eq_ok_iff.mp h
  split at h
  · cases h
    cases herror
    exact refused_self (payloadLength_error hlength)
  · obtain ⟨region, hregion, h⟩ := bind_eq_ok_iff.mp h
    split at h
    · cases h
      cases herror
      exact refused_self (accessRegion_rejects hregion).not_ofHeap
    · cases h
      cases herror

lemma audit_error (h : c.audit = .ok (.error r)) : ¬ r.error.OfHeap :=
  (Rejects.audit h).not_ofHeap

/-- A report of a look at the context refuses what the look refused. -/
lemma report_refused {α : Type} {seen : Except Rejection α}
    (hseen : ∀ r, seen = .error r → ¬ r.error.OfHeap)
    (herror : (c.report seen).result = .error error) :
    c.Refused bytes error (c.report seen).context := by
  cases seen with
  | ok a => cases herror
  | error r =>
    cases herror
    exact refused_self (hseen r rfl)

/-! ### Operations -/

/-- A refused operation leaves the context as it was, whatever its state. The heap was not called
unless it was the one to refuse, and then once, for as many bytes as a region of the length asked
for has. -/
theorem perform_refused {op : Operation Block} {reply : Reply Outcome}
    (h : c.perform op = .ok reply) (herror : reply.result = .error error) :
    c.Refused op.length error reply.context := by
  cases op with
  | malloc size =>
    obtain ⟨given, hmalloc, rfl⟩ := map_eq_ok_iff.mp h
    exact malloc_refused hmalloc (Reply.result_map_eq_error.mp herror)
  | calloc n size =>
    obtain ⟨given, hcalloc, rfl⟩ := map_eq_ok_iff.mp h
    exact array_refused hcalloc (Reply.result_map_eq_error.mp herror)
  | realloc block n size =>
    obtain ⟨given, hrealloc, rfl⟩ := map_eq_ok_iff.mp h
    exact array_refused hrealloc (Reply.result_map_eq_error.mp herror)
  | free block =>
    obtain ⟨freed, hfree, rfl⟩ := map_eq_ok_iff.mp h
    obtain ⟨served, hrequest, hfreed⟩ := bind_eq_ok_iff.mp hfree
    cases hfreed
    have hserved := Reply.result_map_eq_error.mp (Reply.result_map_eq_error.mp herror)
    exact (request_settled hrequest).refused_of_error hserved
  | request block? size =>
    obtain ⟨served, hrequest, rfl⟩ := map_eq_ok_iff.mp h
    exact (request_settled hrequest).refused_of_error (Reply.result_map_eq_error.mp herror)
  | setLimit megabytes =>
    simp only [perform, setLimit] at h
    split at h
    next hlimit =>
      cases h
      cases herror
    next hlimit =>
      cases h
      cases herror
      split at hlimit
      · cases hlimit
        exact refused_self (by rintro ⟨⟩)
      · cases hlimit
  | pointer block =>
    cases h
    exact report_refused (fun r => pointer_error) (Reply.result_map_eq_error.mp herror)
  | payloadLength block =>
    obtain ⟨seen, hseen, h⟩ := bind_eq_ok_iff.mp h
    cases h
    refine report_refused (fun r hr => ?_) (Reply.result_map_eq_error.mp herror)
    exact payloadLength_error (hr ▸ hseen)
  | write block offset text =>
    obtain ⟨written, hwrite, rfl⟩ := map_eq_ok_iff.mp h
    exact write_refused hwrite (Reply.result_map_eq_error.mp herror)
  | fill block byte =>
    obtain ⟨filled, hfill, rfl⟩ := map_eq_ok_iff.mp h
    exact fill_refused hfill (Reply.result_map_eq_error.mp herror)
  | audit =>
    obtain ⟨seen, hseen, h⟩ := bind_eq_ok_iff.mp h
    cases h
    refine report_refused (fun r hr => ?_) (Reply.result_map_eq_error.mp herror)
    exact audit_error (hr ▸ hseen)

/-- A context with a live slot whose links lead out of the table and with counters that fit no
list, on a heap that grants nothing. -/
def tampered : Context :=
  { create 7 (Heap.system.refuseAfter (some 0)) with
    registry :=
      { slots :=
          #[{ tag := liveTag, generation := 5, size := 60, prev := some 3, next := some 9,
              payload := some 4 }]
        vacant := [0, 0]
        head := some 8 }
    usage := { count := 3, total := 1000 } }

/-- All checks pass and the heap declines. -/
theorem perform_refused_tampered : ∃ reply,
    tampered.perform (.realloc ⟨7, 0, 5⟩ 4 8) = .ok reply ∧
      reply.result = .error (.noMemory "realloc" 88) ∧
      tampered.Refused 32 (.noMemory "realloc" 88) reply.context := by
  have hvalue : (tampered.perform (.realloc ⟨7, 0, 5⟩ 4 8)).map Reply.result =
      .ok (.error (.noMemory "realloc" 88)) := by decide +kernel
  cases hreply : tampered.perform (.realloc ⟨7, 0, 5⟩ 4 8) with
  | error fault =>
    rw [hreply] at hvalue
    cases hvalue
  | ok reply =>
    rw [hreply] at hvalue
    have hresult : reply.result = .error (.noMemory "realloc" 88) := Except.ok.inj hvalue
    exact ⟨reply, rfl, hresult, perform_refused hreply hresult⟩

end Context

end MemoryLedger
