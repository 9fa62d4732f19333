import MemoryLedger.Proofs.Context.Close
import MemoryLedger.Proofs.Context.Consistency

/-!
# The log of a run

A record is what an event puts into the log: a level, a message and named fields. A `Trail` is what
a reader of these records knows of the live blocks: their slots and sizes, newest first. It is kept
by following the records alone. The trail of a run is always the list of the context, and the
records are right about it: a block that is said to be gone was there with this size, and the
counters in a record count the blocks and the bytes of the trail.
-/

namespace MemoryLedger

/-! ### Records -/

/-- What an event puts into the log. -/
structure Event.Record where
  level : Level
  message : String
  fields : List (String × Event.Field)

def Event.record (event : Event) : Event.Record := ⟨event.level, event.message, event.fields⟩

/-- The number in the field of this name, if there is one. -/
def Event.Record.number? (record : Event.Record) (name : String) : Option Nat :=
  match record.fields.lookup name with
  | some (.number n) => some n
  | _ => none

/-! ### Trails -/

/-- The slots and sizes of blocks, newest first. -/
abbrev Trail := List (Nat × Nat)

namespace Trail

/-- The trail without the line of a slot, if there is one. -/
def strike (trail : Trail) (slot : Nat) : Trail := trail.eraseP fun line => line.1 = slot

/-- The trail after a record. -/
def follow (trail : Trail) (record : Event.Record) : Trail :=
  match record.message, record.number? "slot", record.number? "size" with
  | "block allocated", some slot, some size => (slot, size) :: trail.strike slot
  | "block freed", some slot, _ => trail.strike slot
  | "slot retired", some slot, _ => trail.strike slot
  | _, _, _ => trail

/-- The trail of a log. -/
def ofRecords (records : List Event.Record) : Trail := records.foldl follow []

def bytes (trail : Trail) : Nat := (trail.map Prod.snd).sum

/-- The counters in a record are those of the trail. -/
structure Counts (trail : Trail) (record : Event.Record) : Prop where
  count : record.number? "count" = some trail.length
  total : record.number? "total" = some trail.bytes

/-- A record is right when the trail before it is this one. Where it tells of a block, it has the
fields for this. -/
def Confirms (trail : Trail) (record : Event.Record) : Prop :=
  match record.message with
  | "block allocated" => record.level = .trace ∧ ∃ slot size,
      record.number? "slot" = some slot ∧ record.number? "size" = some size ∧
        (trail.follow record).Counts record
  | "block freed" => record.level = .trace ∧ ∃ slot size,
      record.number? "slot" = some slot ∧ record.number? "size" = some size ∧
        trail.lookup slot = some size ∧ (trail.follow record).Counts record
  | "slot retired" => record.level = .trace ∧ ∃ slot size,
      record.number? "slot" = some slot ∧ trail.lookup slot = some size
  | _ => True

/-- Each record of a log is right about the trail that the records before it have left. -/
def Truthful (trail : Trail) : List Event.Record → Prop
  | [] => True
  | record :: records => trail.Confirms record ∧ Truthful (trail.follow record) records

/-- The records of the events are right about the trail and make it `trail'`. -/
structure Tells (trail : Trail) (events : List Event) (trail' : Trail) : Prop where
  truthful : trail.Truthful (events.map Event.record)
  foldl : (events.map Event.record).foldl follow trail = trail'

variable {trail trail' trail'' : Trail} {event : Event} {events more : List Event}

lemma tells_nil : Tells trail [] trail := ⟨trivial, rfl⟩

lemma tells_singleton (h : trail.Confirms event.record)
    (hfollow : trail.follow event.record = trail') :
    Tells trail [event] trail' :=
  ⟨⟨h, trivial⟩, hfollow⟩

lemma Tells.append (h : Tells trail events trail') (h' : Tells trail' more trail'') :
    Tells trail (events ++ more) trail'' := by
  obtain ⟨htruthful, rfl⟩ := h
  refine ⟨?_, by rw [List.map_append, List.foldl_append, h'.foldl]⟩
  induction events generalizing trail with
  | nil => exact h'.truthful
  | cons event events ih => exact ⟨htruthful.1, ih htruthful.2 h'⟩

/-! ### The trail of some blocks -/

/-- The lines of some blocks. -/
def ofEntries (entries : List Entry) : Trail := entries.map fun e => (e.slot, e.size.toNat)

variable {entries before after : List Entry} {e : Entry}

lemma bytes_ofEntries (entries : List Entry) :
    (ofEntries entries).bytes = Registry.bytes entries := by
  rw [bytes, ofEntries, List.map_map]
  rfl

lemma strike_of_notMem {slot : Nat} (h : slot ∉ entries.map Entry.slot) :
    (ofEntries entries).strike slot = ofEntries entries := by
  apply List.eraseP_of_forall_not
  intro line hline heq
  obtain ⟨e, he, rfl⟩ := List.mem_map.mp hline
  exact h (List.mem_map.mpr ⟨e, he, of_decide_eq_true heq⟩)

lemma strike_append (h : e.slot ∉ before.map Entry.slot) :
    (ofEntries (before ++ e :: after)).strike e.slot = ofEntries (before ++ after) := by
  have hbefore : ∀ line ∈ ofEntries before, ¬ decide (line.1 = e.slot) = true := by
    intro line hline heq
    obtain ⟨e', he', rfl⟩ := List.mem_map.mp hline
    exact h (List.mem_map.mpr ⟨e', he', of_decide_eq_true heq⟩)
  have hlines : ofEntries (before ++ e :: after) =
      ofEntries before ++ (e.slot, e.size.toNat) :: ofEntries after := by
    rw [ofEntries, List.map_append, List.map_cons]
    rfl
  rw [strike, hlines, List.eraseP_append_right _ hbefore, List.eraseP_cons_of_pos (by simp)]
  exact List.map_append.symm

lemma lookup_append (h : e.slot ∉ before.map Entry.slot) :
    (ofEntries (before ++ e :: after)).lookup e.slot = some e.size.toNat := by
  induction before with
  | nil => simp [ofEntries]
  | cons e' before ih =>
    rw [List.map_cons, List.mem_cons, not_or] at h
    have hslot : (e.slot == e'.slot) = false := by simpa using h.1
    rw [← ih h.2]
    simp [ofEntries, List.lookup_cons, hslot]

end Trail

namespace Context

open Trail

variable {c : Context} {entries entries' before after : List Entry} {e : Entry} {func : String}
  {block? : Option Block} {length : UInt64} {r : Rejection}

/-! ### Single events -/

/-- The slot of a block is not that of another one before it. -/
lemma slot_notMem_before (h : c.registry.Holds (before ++ e :: after)) :
    e.slot ∉ before.map Entry.slot := by
  intro hmem
  apply h.slot_notMem
  rw [List.map_append]
  exact List.mem_append_left _ hmem

/-- The counters of a context, when they are balanced, are those of the trail of its blocks. -/
lemma Balanced.counts {record : Event.Record} (hb : c.Balanced entries)
    (hcount : record.number? "count" = some c.usage.count.toNat)
    (htotal : record.number? "total" = some c.usage.total.toNat) :
    (ofEntries entries).Counts record where
  count := by rw [hcount, hb.count, ofEntries, List.length_map]
  total := by rw [htotal, hb.total, bytes_ofEntries]

/-- A block that is freed leaves the trail. -/
lemma tells_freed {c' : Context} (h : c.registry.Holds (before ++ e :: after))
    (hb : c'.Balanced (before ++ after)) :
    Tells (ofEntries (before ++ e :: after))
      [.freed func e.slot e.size c'.usage.count c'.usage.total] (ofEntries (before ++ after)) := by
  have hslot := slot_notMem_before h
  let record := (Event.freed func e.slot e.size c'.usage.count c'.usage.total).record
  have hfollow : (ofEntries (before ++ e :: after)).follow record = ofEntries (before ++ after) :=
    strike_append hslot
  have hcounts : ((ofEntries (before ++ e :: after)).follow record).Counts record :=
    hfollow ▸ hb.counts rfl rfl
  exact tells_singleton
    ⟨rfl, e.slot, e.size.toNat, rfl, rfl, lookup_append hslot, hcounts⟩ hfollow

/-- A block that is entered comes first on the trail, instead of what its slot held before. -/
lemma tells_allocated {c' : Context} {trail : Trail}
    (hstrike : trail.strike e.slot = ofEntries entries) (hb : c'.Balanced (e :: entries)) :
    Tells trail [.allocated func e.slot e.size c'.usage.count c'.usage.total]
      (ofEntries (e :: entries)) := by
  let record := (Event.allocated func e.slot e.size c'.usage.count c'.usage.total).record
  have hfollow : trail.follow record = ofEntries (e :: entries) :=
    congrArg ((e.slot, e.size.toNat) :: ·) hstrike
  have hcounts : (trail.follow record).Counts record := hfollow ▸ hb.counts rfl rfl
  exact tells_singleton ⟨rfl, e.slot, e.size.toNat, rfl, rfl, hcounts⟩ hfollow

/-- A slot that is retired leaves the trail with its block. -/
lemma tells_retired (h : c.registry.Holds (before ++ e :: after)) :
    Tells (ofEntries (before ++ e :: after)) [.retired e.slot] (ofEntries (before ++ after)) := by
  have hslot := slot_notMem_before h
  exact tells_singleton ⟨rfl, e.slot, e.size.toNat, rfl, lookup_append hslot⟩ (strike_append hslot)

/-- A rejection by a sound context does not tell of any block. -/
lemma Sound.tells_rejects {trail : Trail} (hc : c.Sound entries) (hr : c.Rejects func r) :
    Tells trail r.events trail := by
  cases hr with
  | parameter | array | size | bounds | payload => exact tells_nil
  | stale | limit | blocks | counters => exact tells_singleton trivial rfl
  | audit haudit => cases haudit.symm.trans hc.audit

/-! ### Operations -/

/-- The events of a request tell the trail of the blocks before it that of the blocks after it. -/
lemma Served.tells {reply : Reply (Option Block)} (hc : c.Sound entries)
    (hs : Served c func entries block? length reply entries') :
    Tells (ofEntries entries) reply.events (ofEntries entries') := by
  have hb := (hs.sound hc).balanced
  cases hs with
  | refused hplan => exact hc.tells_rejects (plan_rejects hplan)
  | notGranted | notResized => exact tells_singleton trivial rfl
  | freed => exact tells_freed hc.holds hb
  | @allocated _ e _ _ _ _ _ _ hr =>
    have hslot : e.slot ∉ entries.map Entry.slot :=
      (List.nodup_cons.mp hr.holds.threads.nodup).1
    exact tells_allocated (strike_of_notMem hslot) hb
  | @resized before after old e _ _ _ _ _ _ _ _ _ _ _ _ hr hslot =>
    by_cases hgen : old.generation = maxGeneration
    · -- the slot is retired in an event of its own
      have hretired := tells_retired hc.holds
      have hnew : e.slot ∉ (before ++ after).map Entry.slot :=
        (List.nodup_cons.mp hr.holds.threads.nodup).1
      rw [if_pos hgen]
      exact hretired.append (tells_allocated (strike_of_notMem hnew) hb)
    · rw [if_neg hgen]
      have hstrike : (ofEntries (before ++ old :: after)).strike e.slot =
          ofEntries (before ++ after) := hslot hgen ▸ strike_append (slot_notMem_before hc.holds)
      exact tells_allocated hstrike hb

/-- So do the events of every operation. -/
theorem Performed.tells {op : Operation Block} {reply : Reply Outcome} (hc : c.Sound entries)
    (hp : Performed c entries op reply entries') :
    Tells (ofEntries entries) reply.events (ofEntries entries') := by
  cases hp with
  | refused hr => exact hc.tells_rejects hr
  | requested _ hs => exact hs.tells hc
  | _ => exact tells_nil

/-! ### Closing -/

lemma Releases.tells {closed : Context} {events : List Event}
    (h : Releases c entries closed events) : Tells (ofEntries entries) events [] := by
  induction h with
  | done => exact tells_nil
  | @step c _ _ e entries _ hc hc' _ _ ih =>
    have hfirst : c.registry.Holds ([] ++ e :: entries) := hc.holds
    exact (tells_freed hfirst hc'.balanced).append ih

/-- When a sound context is closed, the events strike the whole trail. -/
theorem Sound.close_tells (hc : c.Sound entries) :
    ∃ closed events, c.close = .ok (closed, events) ∧ closed.Sound [] ∧
      Tells (ofEntries entries) events [] := by
  obtain ⟨closed, events, hclose, hreleases⟩ := hc.close_releases
  refine ⟨closed, _, hclose, hreleases.sound, Tells.append ?_ hreleases.tells⟩
  split
  · exact tells_singleton trivial rfl
  · exact tells_nil

/-! ### Runs -/

/-- The events of a run, in order. -/
def log (replies : List (Reply Outcome)) : List Event := replies.flatMap Reply.events

lemma log_append {replies : List (Reply Outcome)} {reply : Reply Outcome} :
    log (replies ++ [reply]) = log replies ++ reply.events := by
  simp [log]

/-- After every run, the trail of the log has the slots that are met from the head on, with their
sizes. If the context is closed then, the log goes on until the trail is empty. All this time, each
record is right about the trail: a block that is freed or whose slot is retired is on it, freed with
this size, and the counters in the records of blocks that are allocated and freed are the length of
the trail and its bytes. -/
theorem run_trail (hc : c.IsNew) (ops : List (Operation Block)) :
    ∃ last replies, c.run ops = .ok (last, replies) ∧
      (∃ visited, last.registry.Leads last.registry.head visited ∧
        Trail.ofRecords ((log replies).map Event.record) =
          visited.map fun v => (v.1, v.2.size.toNat)) ∧
      ∃ closed dropped, last.close = .ok (closed, dropped) ∧ closed.registry.head = none ∧
        Trail.ofRecords ((log replies ++ dropped).map Event.record) = [] ∧
        Trail.Truthful [] ((log replies ++ dropped).map Event.record) := by
  obtain ⟨last, replies, entries, hrun, hlast, htells⟩ :=
    hc.run (fun past _ entries => Tells [] (log (past.map Prod.snd)) (ofEntries entries))
      tells_nil
      (fun hc htells hp => by
        rw [List.map_append, List.map_singleton, log_append]
        exact htells.append (hp.tells hc))
      ops
  have hreplies : (ops.zip replies).map Prod.snd = replies :=
    List.map_snd_zip (Nat.le_of_eq (length_of_run hrun))
  rw [hreplies] at htells
  obtain ⟨visited, hmeets, hleads⟩ := hlast.holds.leads
  obtain ⟨closed, dropped, hclose, hclosed, hdropped⟩ := hlast.close_tells
  have hall := htells.append hdropped
  refine ⟨last, replies, hrun, ⟨visited, hleads, ?_⟩, closed, dropped, hclose,
    hclosed.holds.threads.head, hall.foldl, hall.truthful⟩
  have hlines := congrArg (List.map fun v : Nat × Descriptor => (v.1, v.2.size.toNat)) hmeets
  rw [List.map_map, List.map_map] at hlines
  exact htells.foldl.trans hlines.symm

/-- The older block is resized and the other one is freed, once too often. -/
theorem run_trail_resized_freed : ∃ last replies visited closed dropped, (create 7 .system).run
      [.malloc 16, .malloc 8, .realloc ⟨7, 0, 1⟩ 4 8, .free ⟨7, 1, 1⟩, .free ⟨7, 1, 1⟩] =
        .ok (last, replies) ∧
    Trail.ofRecords ((log replies).map Event.record) = [(0, 88)] ∧
    last.registry.Leads last.registry.head visited ∧
    visited.map (fun v => (v.1, v.2.size.toNat)) = [(0, 88)] ∧
    last.close = .ok (closed, dropped) ∧
    Trail.Truthful [] ((log replies ++ dropped).map Event.record) := by
  let ops : List (Operation Block) :=
    [.malloc 16, .malloc 8, .realloc ⟨7, 0, 1⟩ 4 8, .free ⟨7, 1, 1⟩, .free ⟨7, 1, 1⟩]
  obtain ⟨last, replies, hrun, ⟨visited, hleads, htrail⟩, closed, dropped, hclose, -, -,
    htruthful⟩ := run_trail (.plain 7 .system) ops
  have hvalue : ((create 7 .system).run ops).map
      (fun p => Trail.ofRecords ((log p.2).map Event.record)) = .ok [(0, 88)] := by
    decide +kernel
  rw [hrun] at hvalue
  have hlog : Trail.ofRecords ((log replies).map Event.record) = [(0, 88)] :=
    Except.ok.inj hvalue
  exact ⟨last, replies, visited, closed, dropped, hrun, hlog, hleads, htrail.symm.trans hlog,
    hclose, htruthful⟩

end Context

end MemoryLedger
