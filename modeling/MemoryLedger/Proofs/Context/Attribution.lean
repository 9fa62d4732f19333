import MemoryLedger.Proofs.Context.Refusal
import MemoryLedger.Proofs.Context.Run

/-!
# Which entry point an error names

An error tells the caller the entry point that was called, by its name and in the first words of
its text. In every state of the context all operations keep to this but one: to fill a payload, its
length is asked for first, so a handle that is not accepted is reported by the entry point that
measures payloads, which is not the one that was called.
-/

namespace MemoryLedger

/-- The name of the entry point that an operation calls. -/
def Operation.entryPoint {β : Type} : Operation β → String
  | .malloc _ => "malloc"
  | .calloc .. => "calloc"
  | .realloc .. => "realloc"
  | .free _ => "free"
  | .request .. => "dma"
  | .setLimit _ => "mem_limit"
  | .pointer _ => "as_ptr"
  | .payloadLength _ => "payload_len"
  | .write .. => "write_at"
  | .fill .. => "fill"
  | .audit => "check_integrity"

/-- A write that goes beyond the end of the payload of its block. -/
inductive Operation.Overruns (c : Context) : Operation Block → Prop where
  | write {block : Block} {offset capacity : UInt64} {bytes : List UInt8}
      (hlength : c.payloadLength block = .ok (.ok capacity))
      (hbeyond : capacity.toNat < offset.toNat + bytes.length) :
      Overruns c (.write block offset bytes)

namespace AllocError

/-- An access beyond the end of a payload. -/
inductive OfBounds : AllocError → Prop where
  | outOfBounds (func : String) (offset length capacity : UInt64) :
      OfBounds (.outOfBounds func offset length capacity)

/-- The error names this entry point, and its text starts with the name. -/
structure ReportedBy (error : AllocError) (name : String) : Prop where
  func : error.func = name
  message : ∃ reason, error.message = name ++ ": " ++ reason

variable {error : AllocError} {name : String}

lemma reportedBy_iff : error.ReportedBy name ↔ error.func = name := by
  constructor
  · exact ReportedBy.func
  · rintro rfl
    exact ⟨rfl, error.reason, rfl⟩

end AllocError

namespace Context

variable {c : Context} {func : String} {block : Block} {block? : Option Block} {length : UInt64}
  {r : Rejection} {error : AllocError}

/-! ### Checks -/

/-- Only accesses are checked against the end of a payload. -/
lemma FailsCheck.inside (h : c.FailsCheck func r) : ¬ r.error.OfBounds := by
  cases h with
  | locate h =>
    rw [locate_eq_error h]
    rintro ⟨⟩
  | counters _ h =>
    rw [(checkCounters_eq_error h).2]
    rintro ⟨⟩
  | charge h =>
    rw [chargeOf_eq_error h]
    rintro ⟨⟩
  | room h =>
    rcases checkRoom_eq_error h with rfl | rfl
    · rintro ⟨⟩
    · rintro ⟨⟩
  | payload _ _ hr =>
    rw [hr]
    rintro ⟨⟩

lemma arrayLength_inside {n size : UInt64} (h : arrayLength func n size = .error r) :
    ¬ r.error.OfBounds := by
  rw [arrayLength] at h
  split at h
  · cases h
    rintro ⟨⟩
  · split at h
    · cases h
      rintro ⟨⟩
    · split at h
      · cases h
        rintro ⟨⟩
      · cases h

lemma Rejects.func_eq (h : c.Rejects func r) : r.error.func = func := by
  cases h with
  | audit haudit =>
    obtain ⟨events, rfl⟩ := audit_rejection haudit
    rfl
  | _ => rfl

/-! ### Ways out -/

/-- How an operation comes to an error: its entry point rejects, the heap declines, or a write goes
beyond the end of a payload. -/
inductive Exits (c : Context) (op : Operation Block) : AllocError → List Event → Prop where
  | rejected {r : Rejection} (hr : c.Rejects op.entryPoint r) (hinside : ¬ r.error.OfBounds) :
      Exits c op r.error r.events
  | declined (charge : UInt64) :
      Exits c op (.noMemory op.entryPoint charge) [.noMemory op.entryPoint charge]
  | overrun (hop : op.Overruns c) (offset length capacity : UInt64) :
      Exits c op (.outOfBounds op.entryPoint offset length capacity) []

lemma Exits.func_eq {op : Operation Block} {events : List Event} (h : c.Exits op error events) :
    error.func = op.entryPoint := by
  cases h with
  | rejected hr => exact hr.func_eq
  | declined | overrun => rfl

/-! ### Requests -/

variable {reply : Reply (Option Block)} {charge : UInt64}

lemma carryOutAllocate_exits (op : Operation Block)
    (h : c.carryOutAllocate op.entryPoint length charge = .ok reply)
    (herror : reply.result = .error error) : c.Exits op error reply.events := by
  rw [carryOutAllocate] at h
  split at h
  next =>
    cases h
    cases herror
    exact .declined charge
  next =>
    obtain ⟨block, hresult⟩ := place_result h
    cases hresult.symm.trans herror

lemma carryOutResize_exits (op : Operation Block) {slot payload : Nat} {old : Descriptor}
    (h : c.carryOutResize op.entryPoint slot old payload length charge = .ok reply)
    (herror : reply.result = .error error) : c.Exits op error reply.events := by
  rw [carryOutResize] at h
  split at h
  next =>
    cases h
    cases herror
    exact .declined charge
  next =>
    simp only [bind_eq_ok_iff] at h
    obtain ⟨registry, -, usage, -, h⟩ := h
    split at h
    · simp only [bind_eq_ok_iff] at h
      obtain ⟨retired, -, placed, hplace, h⟩ := h
      cases h
      obtain ⟨block, hresult⟩ := place_result hplace
      cases hresult.symm.trans herror
    · obtain ⟨block, hresult⟩ := place_result h
      cases hresult.symm.trans herror

lemma request_exits (op : Operation Block)
    (h : c.request op.entryPoint block? length = .ok reply)
    (herror : reply.result = .error error) : c.Exits op error reply.events := by
  rw [request] at h
  split at h
  next r hplan =>
    cases h
    cases herror
    exact .rejected (plan_rejects hplan) (plan_fails hplan).inside
  next slot hplan =>
    obtain ⟨⟨c', event⟩, -, h⟩ := bind_eq_ok_iff.mp h
    cases h
    cases herror
  next charge hplan => exact carryOutAllocate_exits op h herror
  next slot old payload charge hplan => exact carryOutResize_exits op h herror

/-- An entry point that gives a handle out does not come to a free, so its errors are those of its
request. -/
lemma handle_exits (op : Operation Block) (h : c.request op.entryPoint block? length = .ok reply)
    (hkind : block? = none ∨ length ≠ 0)
    (herror : (handle op.entryPoint reply).result = .error error) :
    c.Exits op error (handle op.entryPoint reply).events := by
  cases request_settled h with
  | given block hgiven => simp [handle, hgiven] at herror
  | freed _ hblock hlength => exact absurd hlength (hkind.resolve_left hblock)
  | refused hrefused =>
    simp only [handle, hrefused] at herror
    cases herror
    exact request_exits op h hrefused

lemma malloc_exits {size : UInt64} {reply : Reply Block} (h : c.malloc size = .ok reply)
    (herror : reply.result = .error error) : c.Exits (.malloc size) error reply.events := by
  rw [malloc] at h
  split at h
  · cases h
    cases herror
    exact .rejected (.parameter _ _) (by rintro ⟨⟩)
  · obtain ⟨served, hrequest, rfl⟩ := map_eq_ok_iff.mp h
    exact handle_exits (.malloc size) hrequest (.inl rfl) herror

/-- The entry points for arrays look at their factors first. -/
lemma array_exits (op : Operation Block) {n size : UInt64} {reply : Reply Block}
    (h : (match arrayLength op.entryPoint n size with
      | .error r => Except.ok (c.reject r)
      | .ok length => handle op.entryPoint <$> c.request op.entryPoint block? length) = .ok reply)
    (herror : reply.result = .error error) : c.Exits op error reply.events := by
  split at h
  next r harray =>
    cases h
    cases herror
    exact .rejected (arrayLength_rejects harray) (arrayLength_inside harray)
  next length harray =>
    obtain ⟨served, hrequest, rfl⟩ := map_eq_ok_iff.mp h
    exact handle_exits op hrequest (.inr (arrayLength_ne_zero harray)) herror

/-! ### Looks at the context -/

lemma write_exits {offset : UInt64} {bytes : List UInt8} {reply : Reply Unit}
    (h : c.write block offset bytes = .ok reply) (herror : reply.result = .error error) :
    c.Exits (.write block offset bytes) error reply.events := by
  obtain ⟨region, hregion, h⟩ := bind_eq_ok_iff.mp h
  split at h
  · cases h
    cases herror
    rcases accessRegion_fails hregion with hfails | ⟨capacity, hlength, hbeyond, rfl⟩
    · exact .rejected hfails.rejects hfails.inside
    · exact .overrun (.write hlength hbeyond) _ _ _
  · cases h
    cases herror

lemma report_exits (op : Operation Block) {α : Type} {seen : Except Rejection α}
    (hseen : ∀ r, seen = .error r → c.Rejects op.entryPoint r ∧ ¬ r.error.OfBounds)
    (herror : (c.report seen).result = .error error) :
    c.Exits op error (c.report seen).events := by
  cases seen with
  | ok a => cases herror
  | error r =>
    cases herror
    exact .rejected (hseen r rfl).1 (hseen r rfl).2

/-! ### Operations -/

/-- An operation that does not fill a payload comes to an error by its own entry point, whatever
the state of the context. -/
theorem perform_exits {op : Operation Block} {reply : Reply Outcome}
    (hop : ¬ ∃ block byte, op = .fill block byte) (h : c.perform op = .ok reply)
    (herror : reply.result = .error error) : c.Exits op error reply.events := by
  cases op with
  | malloc size =>
    obtain ⟨given, hmalloc, rfl⟩ := map_eq_ok_iff.mp h
    exact malloc_exits hmalloc (Reply.result_map_eq_error.mp herror)
  | calloc n size =>
    obtain ⟨given, hcalloc, rfl⟩ := map_eq_ok_iff.mp h
    exact array_exits (.calloc n size) hcalloc (Reply.result_map_eq_error.mp herror)
  | realloc block n size =>
    obtain ⟨given, hrealloc, rfl⟩ := map_eq_ok_iff.mp h
    exact array_exits (.realloc block n size) hrealloc (Reply.result_map_eq_error.mp herror)
  | free block =>
    obtain ⟨freed, hfree, rfl⟩ := map_eq_ok_iff.mp h
    obtain ⟨served, hrequest, hfreed⟩ := bind_eq_ok_iff.mp hfree
    cases hfreed
    exact request_exits (.free block) hrequest
      (Reply.result_map_eq_error.mp (Reply.result_map_eq_error.mp herror))
  | request block? size =>
    obtain ⟨served, hrequest, rfl⟩ := map_eq_ok_iff.mp h
    exact request_exits (.request block? size) hrequest (Reply.result_map_eq_error.mp herror)
  | setLimit megabytes =>
    simp only [perform, setLimit] at h
    split at h
    next =>
      cases h
      cases herror
    next hlimit =>
      cases h
      cases herror
      split at hlimit
      · cases hlimit
        exact .rejected (.parameter _ _) (by rintro ⟨⟩)
      · cases hlimit
  | pointer block =>
    cases h
    refine report_exits (.pointer block) (fun r hr => ?_) (Reply.result_map_eq_error.mp herror)
    exact ⟨pointer_rejects hr, (pointer_fails hr).inside⟩
  | payloadLength block =>
    obtain ⟨seen, hseen, h⟩ := bind_eq_ok_iff.mp h
    cases h
    refine report_exits (.payloadLength block) (fun r hr => ?_)
      (Reply.result_map_eq_error.mp herror)
    subst hr
    exact ⟨payloadLength_rejects hseen, (payloadLength_fails hseen).inside⟩
  | write block offset bytes =>
    obtain ⟨written, hwrite, rfl⟩ := map_eq_ok_iff.mp h
    exact write_exits hwrite (Reply.result_map_eq_error.mp herror)
  | fill block byte => exact absurd ⟨block, byte, rfl⟩ hop
  | audit =>
    obtain ⟨seen, hseen, h⟩ := bind_eq_ok_iff.mp h
    cases h
    refine report_exits .audit (fun r hr => ?_) (Reply.result_map_eq_error.mp herror)
    subst hr
    refine ⟨.audit hseen, ?_⟩
    obtain ⟨events, rfl⟩ := audit_rejection hseen
    rintro ⟨⟩

variable {entries : List Entry}

/-- A sound context refuses to fill a payload only for the handle, and not by the name of `fill`. -/
lemma Sound.fill_refused {byte : UInt8} {reply : Reply Outcome} (hc : c.Sound entries)
    (h : c.perform (.fill block byte) = .ok reply) (herror : reply.result = .error error) :
    reply = c.reject (.stale "payload_len" block) := by
  by_cases hn : ∃ e ∈ entries, c.Names block e
  · obtain ⟨e, he, hname⟩ := hn
    cases (perform_fill_of_names hc.holds he hname byte).symm.trans h
    cases herror
  · have hn' : ∀ e ∈ entries, ¬ c.Names block e := fun e he hname => hn ⟨e, he, hname⟩
    exact Except.ok.inj (h.symm.trans (perform_of_stale hc.holds hn' .fill))

/-! ### Runs -/

/-- After any run, an error is reported by the entry point that was called, exactly if this was not
the one that fills payloads. Of that one all errors are invalid pointers and reported by the entry
point that measures payloads. -/
theorem run_attributes (hc : c.IsNew) (ops : List (Operation Block)) :
    ∃ last replies, c.run ops = .ok (last, replies) ∧
      ∀ op, ∃ reply, last.perform op = .ok reply ∧ ∀ error, reply.result = .error error →
        (error.ReportedBy op.entryPoint ↔ ¬ ∃ block byte, op = .fill block byte) ∧
        ((∃ block byte, op = .fill block byte) → error = .invalidPointer "payload_len") := by
  obtain ⟨last, replies, entries, hrun, hlast⟩ := hc.run_sound ops
  refine ⟨last, replies, hrun, fun op => ?_⟩
  obtain ⟨reply, -, hreply, -⟩ :=
    perform_performed hlast.holds hlast.maxBlocks_le hlast.bytes_lt op
  refine ⟨reply, hreply, fun error herror => ?_⟩
  rw [AllocError.reportedBy_iff]
  by_cases hop : ∃ block byte, op = .fill block byte
  · obtain ⟨block, byte, rfl⟩ := hop
    cases hlast.fill_refused hreply herror
    cases herror
    have hne : "payload_len" ≠ "fill" := by decide
    exact ⟨iff_of_false hne fun hnot => hnot ⟨block, byte, rfl⟩, fun _ => rfl⟩
  · exact ⟨iff_of_true (perform_exits hop hreply herror).func_eq hop, fun h => absurd h hop⟩

/-- A block that was freed is resized. -/
theorem run_attributes_freed : ∃ last replies reply error,
    (create 7 .system).run [.malloc 8, .free ⟨7, 0, 1⟩] = .ok (last, replies) ∧
    last.perform (.realloc ⟨7, 0, 1⟩ 1 8) = .ok reply ∧ reply.result = .error error ∧
    error.ReportedBy "realloc" := by
  let ops : List (Operation Block) := [.malloc 8, .free ⟨7, 0, 1⟩]
  obtain ⟨last, replies, hrun, hops⟩ := run_attributes (.plain 7 .system) ops
  obtain ⟨reply, hreply, hby⟩ := hops (.realloc ⟨7, 0, 1⟩ 1 8)
  have hvalue : ((create 7 .system).run ops >>= fun p =>
      Reply.result <$> p.1.perform (.realloc ⟨7, 0, 1⟩ 1 8)) =
      .ok (.error (.invalidPointer "realloc")) := by decide +kernel
  rw [hrun, ok_bind, hreply, map_ok] at hvalue
  have hresult : reply.result = .error (.invalidPointer "realloc") := Except.ok.inj hvalue
  exact ⟨last, replies, reply, _, hrun, hreply, hresult, (hby _ hresult).1.mpr (by simp)⟩

/-- A block is freed and then filled, which is refused by a name other than that of `fill`. -/
theorem fill_not_reportedBy : ∃ last replies reply error,
    (create 7 .system).run [.malloc 8, .free ⟨7, 0, 1⟩] = .ok (last, replies) ∧
    last.perform (.fill ⟨7, 0, 1⟩ 0) = .ok reply ∧ reply.result = .error error ∧
    ¬ error.ReportedBy "fill" := by
  let ops : List (Operation Block) := [.malloc 8, .free ⟨7, 0, 1⟩]
  obtain ⟨last, replies, -, hrun, -⟩ := (IsNew.plain 7 .system).run_sound ops
  have hvalue : ((create 7 .system).run ops >>= fun p =>
      Reply.result <$> p.1.perform (.fill ⟨7, 0, 1⟩ 0)) =
      .ok (.error (.invalidPointer "payload_len")) := by decide +kernel
  rw [hrun, ok_bind] at hvalue
  obtain ⟨reply, hreply, hresult⟩ := map_eq_ok_iff.mp hvalue
  refine ⟨last, replies, reply, _, hrun, hreply, hresult, ?_⟩
  rw [AllocError.reportedBy_iff]
  decide

end Context

end MemoryLedger
