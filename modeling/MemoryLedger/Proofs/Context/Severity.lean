import MemoryLedger.Proofs.Context.Attribution
import MemoryLedger.Proofs.Context.Safety

/-!
# How errors are logged

What an operation logs agrees with what it answers. Where the caller's arguments are at fault the
log stays silent, a broken handle is an error in the log, a lack of room is a warning with the
amounts of the error in it, and an operation that succeeds leaves traces only. There is one way out
that falls short of this: a write beyond the end of a payload is refused as a matter of integrity,
but nothing is logged.
-/

namespace MemoryLedger

/-- The amounts in an error, by the names that they have in the log. -/
def AllocError.amounts : AllocError → List (String × Event.Field)
  | .limitExceeded _ requested total limit =>
      [("size", .number requested.toNat), ("total", .number total.toNat),
       ("limit", .number limit.toNat)]
  | .tooManyBlocks _ count => [("count", .number count.toNat)]
  | .noMemory _ size => [("size", .number size.toNat)]
  | _ => []

/-- What is logged agrees with the result. -/
inductive Logged {α : Type} : Except AllocError α → List Event → Prop where
  | answered {a : α} {events : List Event} (htrace : ∀ event ∈ events, event.level = .trace) :
      Logged (.ok a) events
  | argument {error : AllocError} (hkind : error.kind = .argument) : Logged (.error error) []
  | integrity {error : AllocError} {event : Event} (hkind : error.kind = .integrity)
      (hlevel : event.level = .error) (hfunc : ("func", .text error.func) ∈ event.fields) :
      Logged (.error error) [event]
  | exhaustion {error : AllocError} {event : Event} (hkind : error.kind = .exhaustion)
      (hlevel : event.level = .warn)
      (hfields : event.fields = ("func", .text error.func) :: error.amounts) :
      Logged (.error error) [event]

/-- An access beyond the end of a payload is a matter of integrity, so it asks for an event. -/
lemma AllocError.OfBounds.not_logged {α : Type} {error : AllocError} (h : error.OfBounds) :
    ¬ Logged (.error error : Except AllocError α) [] := by
  cases h
  rintro ⟨⟩
  contradiction

namespace Context

variable {α : Type} {c : Context} {entries entries' : List Entry} {op : Operation Block}
  {func : String} {block? : Option Block} {length : UInt64} {r : Rejection} {error : AllocError}

/-! ### Errors -/

/-- Every rejection is logged, but for accesses beyond the end of a payload and what tells of broken
bookkeeping. -/
lemma Rejects.logged (h : c.Rejects func r) (hinside : ¬ r.error.OfBounds)
    (hinternal : ¬ r.error.Internal) : Logged (.error r.error : Except AllocError α) r.events := by
  cases h with
  | parameter | array | size => exact .argument rfl
  | stale => exact .integrity rfl rfl List.mem_cons_self
  | bounds => exact absurd (.outOfBounds _ _ _ _) hinside
  | limit | blocks => exact .exhaustion rfl rfl rfl
  | counters | payload => exact absurd (.accounting _) hinternal
  | audit haudit =>
    obtain ⟨events, rfl⟩ := audit_rejection haudit
    exact absurd (.accounting _) hinternal

lemma Exits.logged {events : List Event} (h : c.Exits op error events)
    (hop : ¬ op.Overruns c) (hinternal : ¬ error.Internal) :
    Logged (.error error : Except AllocError α) events := by
  cases h with
  | rejected hr hinside => exact hr.logged hinside hinternal
  | declined => exact .exhaustion rfl rfl rfl
  | overrun hoverrun => exact absurd hoverrun hop

/-- A write beyond the end of a payload is refused without an event, whatever the state of the
context. -/
lemma perform_of_overruns (h : op.Overruns c) :
    ∃ error, error.OfBounds ∧ c.perform op = .ok (c.reject ⟨error, []⟩) := by
  cases h with
  | @write block offset capacity bytes hlength hbeyond =>
    rw [payloadLength] at hlength
    split at hlength
    next => cases hlength
    next slot d hlocate =>
      obtain ⟨length, hcapacity, hok⟩ := map_eq_ok_iff.mp hlength
      cases hok
      refine ⟨_, .outOfBounds "write_at" offset bytes.length.toUInt64 capacity, ?_⟩
      simp only [perform, write, accessRegion, locate_eq_ok hlocate, hcapacity, if_pos hbeyond,
        ok_bind, map_ok]
      rfl

/-! ### Answers -/

/-- What succeeds is traced, event by event. -/
lemma Served.traces {reply : Reply (Option Block)} {given : Option Block}
    (hs : Served c func entries block? length reply entries') (h : reply.result = .ok given) :
    ∀ event ∈ reply.events, event.level = .trace := by
  cases hs with
  | refused | notGranted | notResized => cases h
  | freed | allocated => simp [Event.level]
  | @resized _ _ old =>
    by_cases hgen : old.generation = maxGeneration
    · simp [hgen, Event.level]
    · simp [hgen, Event.level]

lemma Performed.traces {reply : Reply Outcome} {given : Outcome}
    (hp : Performed c entries op reply entries') (h : reply.result = .ok given) :
    ∀ event ∈ reply.events, event.level = .trace := by
  cases hp with
  | refused => cases h
  | @requested _ _ _ _ served _ _ hs =>
    cases hserved : served.result with
    | ok given => exact hs.traces hserved
    | error error => simp [Reply.map, hserved, Except.map] at h
  | _ => simp [answer]

/-! ### Runs -/

/-- An operation on a sound context logs what agrees with its result, unless it is a write beyond
the end of a payload. -/
lemma Sound.logged {reply : Reply Outcome} (hc : c.Sound entries) (hop : ¬ op.Overruns c)
    (h : c.perform op = .ok reply) (hp : Performed c entries op reply entries') :
    Logged reply.result reply.events := by
  cases hresult : reply.result with
  | ok given => exact .answered (hp.traces hresult)
  | error error =>
    have hinternal : ¬ error.Internal := hp.not_internal hc hresult
    by_cases hfill : ∃ block byte, op = .fill block byte
    · obtain ⟨block, byte, rfl⟩ := hfill
      cases hc.fill_refused h hresult
      cases hresult
      exact .integrity rfl rfl List.mem_cons_self
    · exact (perform_exits hfill h hresult).logged hop hinternal

/-- After any run, what an operation logs agrees with its result, exactly if it is not a write
beyond the end of a payload. Such a write is refused as a matter of integrity, and nothing is
logged. -/
theorem run_logs (hc : c.IsNew) (ops : List (Operation Block)) :
    ∃ last replies, c.run ops = .ok (last, replies) ∧
      ∀ op, ∃ reply, last.perform op = .ok reply ∧
        (Logged reply.result reply.events ↔ ¬ op.Overruns last) ∧
        (op.Overruns last → ∃ error, reply.result = .error error ∧ error.OfBounds ∧
          error.kind = .integrity ∧ reply.events = []) := by
  obtain ⟨last, replies, entries, hrun, hlast⟩ := hc.run_sound ops
  refine ⟨last, replies, hrun, fun op => ?_⟩
  by_cases hop : op.Overruns last
  · obtain ⟨error, hbounds, hreply⟩ := perform_of_overruns hop
    refine ⟨_, hreply, iff_of_false hbounds.not_logged (not_not_intro hop), fun _ => ?_⟩
    refine ⟨error, rfl, hbounds, ?_, rfl⟩
    cases hbounds
    rfl
  · obtain ⟨reply, entries', hreply, hp⟩ :=
      perform_performed hlast.holds hlast.maxBlocks_le hlast.bytes_lt op
    exact ⟨reply, hreply, iff_of_true (hlast.logged hop hreply hp) hop, fun h => absurd h hop⟩

/-- The heap declines a second block. -/
theorem run_logs_declined : ∃ last replies reply event,
    (create 7 (Heap.system.refuseAfter (some 1))).run [.malloc 8] = .ok (last, replies) ∧
    last.perform (.malloc 16) = .ok reply ∧ reply.result = .error (.noMemory "malloc" 72) ∧
    reply.events = [event] ∧ event.level = .warn ∧
    event.fields = [("func", .text "malloc"), ("size", .number 72)] := by
  let heap : Heap := Heap.system.refuseAfter (some 1)
  obtain ⟨last, replies, hrun, hops⟩ := run_logs (.plain 7 heap) [.malloc 8]
  obtain ⟨reply, hreply, hlogged, -⟩ := hops (.malloc 16)
  have hvalue : ((create 7 heap).run [.malloc 8] >>= fun p =>
      Reply.result <$> p.1.perform (.malloc 16)) = .ok (.error (.noMemory "malloc" 72)) := by
    decide +kernel
  rw [hrun, ok_bind, hreply, map_ok] at hvalue
  have hresult : reply.result = .error (.noMemory "malloc" 72) := Except.ok.inj hvalue
  have hlogged' := hlogged.mpr nofun
  rw [hresult] at hlogged'
  generalize hevents : reply.events = events at hlogged'
  cases hlogged' with
  | argument hkind | integrity hkind => cases hkind
  | exhaustion _ hlevel hfields =>
    exact ⟨last, replies, reply, _, hrun, hreply, hresult, hevents, hlevel, hfields⟩

/-- Nine bytes are written into a block of eight, which is refused as a matter of integrity, but
not logged. -/
theorem write_not_logged : ∃ last replies reply error,
    (create 7 .system).run [.malloc 8] = .ok (last, replies) ∧
    last.perform (.write ⟨7, 0, 1⟩ 0 (List.replicate 9 0)) = .ok reply ∧
    reply.result = .error error ∧ error.kind = .integrity ∧ reply.events = [] := by
  obtain ⟨last, replies, -, hrun, -⟩ := (IsNew.plain 7 .system).run_sound [.malloc 8]
  have hvalue : ((create 7 .system).run [.malloc 8] >>= fun p =>
      (fun reply => (reply.result, reply.events)) <$>
        p.1.perform (.write ⟨7, 0, 1⟩ 0 (List.replicate 9 0))) =
      .ok (.error (.outOfBounds "write_at" 0 9 8), []) := by decide +kernel
  rw [hrun, ok_bind] at hvalue
  obtain ⟨reply, hreply, hlogged⟩ := map_eq_ok_iff.mp hvalue
  obtain ⟨hresult, hevents⟩ := Prod.mk.inj hlogged
  exact ⟨last, replies, reply, _, hrun, hreply, hresult, rfl, hevents⟩

end Context

end MemoryLedger
