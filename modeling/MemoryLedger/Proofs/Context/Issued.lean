import Mathlib.Order.Nat
import MemoryLedger.Proofs.Context.Run

/-!
# Handles over a run

The handles that a run gives out are all different, and a handle that was freed or superseded is
refused ever after, however often its slot is used again. What carries this is the age of the
slots, which never falls: a new block is older than its slot ever was, and no handle that was given
out is older than its slot is now.
-/

namespace MemoryLedger

/-- The handle that a reply gives out. -/
def Reply.issued : Reply Outcome → Option Block
  | ⟨.ok (.block block), _, _⟩ => some block
  | _ => none

namespace Context

/-- The handles that were given out, in the order in which they were. -/
def issued (past : List (Operation Block × Reply Outcome)) : List Block :=
  past.filterMap fun p => p.2.issued

/-- The handle was freed or superseded. -/
def Ended (past : List (Operation Block × Reply Outcome)) (block : Block) : Prop :=
  ∃ op reply outcome, (op, reply) ∈ past ∧ op.ends = some block ∧ reply.result = .ok outcome

/-- What a handle may rely on from one context to a later one: slots do not become younger, and a
block is still there or else new. -/
structure Follows (c : Context) (entries : List Entry) (c' : Context) (entries' : List Entry) :
    Prop where
  id : c'.id = c.id
  size_le : c.registry.slots.size ≤ c'.registry.slots.size
  age_le : c.registry.age ≤ c'.registry.age
  mem_or_new : ∀ e ∈ entries', e ∈ entries ∨ e.generation.toNat = c.registry.age e.slot + 1

variable {c c' : Context} {entries entries' : List Entry} {func : String} {block : Block}
  {block? : Option Block} {length : UInt64} {op : Operation Block}

/-! ### One operation -/

lemma Follows.of_eq (hid : c'.id = c.id) (hregistry : c'.registry = c.registry) :
    Follows c entries c' entries where
  id := hid
  size_le := hregistry ▸ Nat.le_refl _
  age_le := hregistry ▸ le_refl _
  mem_or_new := fun _ he => .inl he

/-- Where a block is entered, the other blocks are old ones. -/
lemma Follows.of_entered {e : Entry} {rest : List Entry}
    (hr : c.registry.Entered c'.registry e rest) (hid : c'.id = c.id)
    (hrest : ∀ e' ∈ rest, e' ∈ entries) : Follows c entries c' (e :: rest) where
  id := hid
  size_le := by
    rcases hr.size with hsize | ⟨-, -, hsize⟩ <;> simp [hsize]
  age_le := by
    rw [hr.age, le_update_self_iff, hr.generation]
    exact Nat.le_succ _
  mem_or_new := by
    intro e' he'
    rcases List.mem_cons.mp he' with rfl | he'
    · exact .inr hr.generation
    · exact .inl (hrest e' he')

lemma Served.follows {reply : Reply (Option Block)} (h : c.registry.Holds entries)
    (hs : Served c func entries block? length reply entries') :
    Follows c entries reply.context entries' := by
  cases hs with
  | refused | notGranted | notResized => exact .of_eq rfl rfl
  | @freed before after e _ registry _ _ _ _ hsize hage =>
    refine ⟨rfl, hsize.ge, ?_, fun e' he' => .inl (Registry.mem_append_cons_of_mem he')⟩
    show c.registry.age ≤ registry.age
    rw [hage, le_update_self_iff, h.age_of_mem (by simp : e ∈ _)]
    have hbound := e.generation.toNat_lt
    omega
  | allocated _ _ _ hr => exact .of_entered hr rfl fun _ he' => he'
  | resized _ _ _ _ _ _ _ hr =>
    exact .of_entered hr rfl fun _ he' => Registry.mem_append_cons_of_mem he'

lemma Performed.follows {reply : Reply Outcome} (h : c.registry.Holds entries)
    (hp : Performed c entries op reply entries') : Follows c entries reply.context entries' := by
  cases hp with
  | requested _ hs => exact hs.follows h
  | _ => exact .of_eq rfl rfl

/-- A request that succeeds takes its block, if it has one, out of the list. -/
lemma Served.ended {reply : Reply (Option Block)} {result : Option Block}
    (h : c.registry.Holds entries)
    (hs : Served c func entries (some block) length reply entries')
    (hresult : reply.result = .ok result) : ∃ e ∈ entries, c.Names block e ∧ e ∉ entries' := by
  cases hs with
  | refused => cases hresult
  | notResized => cases hresult
  | @freed before after e _ _ _ hname =>
    refine ⟨e, by simp, hname, fun hmem => h.slot_notMem (List.mem_map_of_mem hmem)⟩
  | @resized before after old e _ _ _ _ _ hname _ _ _ _ _ _ hr =>
    refine ⟨old, by simp, hname, fun hmem => ?_⟩
    rcases List.mem_cons.mp hmem with rfl | hmem
    · have hgen := hr.generation
      rw [h.age_of_mem (by simp)] at hgen
      omega
    · exact h.slot_notMem (List.mem_map_of_mem hmem)

lemma Performed.ended {reply : Reply Outcome} {result : Outcome} (h : c.registry.Holds entries)
    (hp : Performed c entries op reply entries') (hends : op.ends = some block)
    (hresult : reply.result = .ok result) : ∃ e ∈ entries, c.Names block e ∧ e ∉ entries' := by
  cases hp with
  | refused => cases hresult
  | @requested _ _ _ _ reply _ hop hs =>
    obtain ⟨result, hresult⟩ : ∃ result, reply.result = .ok result := by
      cases hr : reply.result with
      | error e => simp [Reply.map, hr, Except.map] at hresult
      | ok result => exact ⟨result, rfl⟩
    rw [← hop.ends_eq, hends] at hs
    exact hs.ended h hresult
  | _ => cases hends

/-- A handle is given out for a block of the length that was asked for, which comes before the
others and is new in its slot. -/
lemma Performed.issued {reply : Reply Outcome} (hp : Performed c entries op reply entries')
    (hissued : reply.issued = some block) :
    ∃ e rest, entries' = e :: rest ∧ block = e.handle c.id ∧ e.length.toNat = op.length ∧
      e.generation.toNat = c.registry.age e.slot + 1 := by
  cases hp with
  | requested hop hs =>
    have hlength := hop.length_eq
    cases hs with
    | refused | notGranted | notResized | freed => cases hissued
    | allocated _ _ _ hr =>
      cases hissued
      exact ⟨_, _, rfl, rfl, hlength, hr.generation⟩
    | resized _ _ _ _ _ _ _ hr =>
      cases hissued
      exact ⟨_, _, rfl, rfl, hlength, hr.generation⟩
  | _ => cases hissued

/-! ### Runs -/

/-- The handle is not older than its slot is now. -/
def Aged (c : Context) (block : Block) : Prop :=
  block.generation.toNat ≤ c.registry.age block.slot.toNat

/-- What holds of the handles of a run: those given out are all of this context, different and not
older than their slots, and those that ended name no block. -/
structure Known (past : List (Operation Block × Reply Outcome)) (c : Context)
    (entries : List Entry) : Prop where
  nodup : (issued past).Nodup
  context : ∀ block ∈ issued past, block.context = c.id
  aged : ∀ block ∈ issued past, c.Aged block
  ended_aged : ∀ {block}, Ended past block → c.Aged block
  ended : ∀ {block}, Ended past block → ∀ e ∈ entries, ¬ c.Names block e

lemma Follows.aged (hf : Follows c entries c' entries') (h : c.Aged block) : c'.Aged block :=
  Nat.le_trans h (hf.age_le _)

lemma Follows.not_names (hf : Follows c entries c' entries') (haged : c.Aged block)
    (hn : ∀ e ∈ entries, ¬ c.Names block e) : ∀ e ∈ entries', ¬ c'.Names block e := by
  rintro e he ⟨hcontext, hslot, hgen⟩
  rcases hf.mem_or_new e he with he | hnew
  · exact hn e he ⟨hcontext.trans hf.id, hslot, hgen⟩
  · have haged' : e.generation.toNat ≤ c.registry.age e.slot := hslot ▸ hgen ▸ haged
    omega

/-- A handle that is given out is one generation beyond what its slot had. -/
lemma Performed.issued_new {reply : Reply Outcome} (h : reply.context.registry.Holds entries')
    (hsize : reply.context.registry.slots.size ≤ 2 ^ 32) (hid : reply.context.id = c.id)
    (hp : Performed c entries op reply entries') (hissued : reply.issued = some block) :
    block.context = c.id ∧ block.generation.toNat = c.registry.age block.slot.toNat + 1 ∧
      reply.context.Aged block := by
  obtain ⟨e, rest, rfl, hblock, -, hgen⟩ := hp.issued hissued
  have he : e ∈ e :: rest := List.mem_cons_self
  rw [← hid] at hblock
  obtain ⟨hcontext, hslot, hgeneration⟩ := (names_iff_eq_handle h hsize he).mpr hblock
  refine ⟨hcontext.trans hid, ?_, ?_⟩
  · rw [hslot, hgeneration, hgen]
  · rw [Aged, hslot, hgeneration, h.age_of_mem he]

/-- A handle that is taken out of use is as old as its slot, and names no block any more. -/
lemma Performed.ended_stale {reply : Reply Outcome} {result : Outcome}
    (h : c.registry.Holds entries) (hp : Performed c entries op reply entries')
    (hends : op.ends = some block) (hresult : reply.result = .ok result) :
    c.Aged block ∧ ∀ e ∈ entries', ¬ reply.context.Names block e := by
  obtain ⟨e, he, hname, hnot⟩ := hp.ended h hends hresult
  have hage : c.registry.age e.slot = e.generation.toNat := h.age_of_mem he
  refine ⟨?_, ?_⟩
  · rw [Aged, hname.slot, hname.generation, hage]
  · rintro e' he' ⟨-, hslot, hgen⟩
    have hslot' : e'.slot = e.slot := hslot.symm.trans hname.slot
    rcases (hp.follows h).mem_or_new e' he' with hold | hnew
    · rw [h.eq_of_slot_eq hold he hslot'] at he'
      exact hnot he'
    · rw [hslot', hage, ← hgen, hname.generation] at hnew
      omega

variable {past : List (Operation Block × Reply Outcome)} {reply : Reply Outcome}

lemma issued_append : issued (past ++ [(op, reply)]) = issued past ++ reply.issued.toList := by
  cases h : reply.issued <;> simp [issued, h]

lemma issued_zip {ops : List (Operation Block)} {replies : List (Reply Outcome)}
    (h : replies.length = ops.length) :
    issued (ops.zip replies) = replies.filterMap Reply.issued := by
  have hsnd : (ops.zip replies).map Prod.snd = replies := List.map_snd_zip h.le
  have hissued : issued (ops.zip replies) =
      ((ops.zip replies).map Prod.snd).filterMap Reply.issued := by
    rw [List.filterMap_map]
    rfl
  rw [hissued, hsnd]

lemma ended_append (h : Ended (past ++ [(op, reply)]) block) :
    Ended past block ∨ op.ends = some block ∧ ∃ outcome, reply.result = .ok outcome := by
  obtain ⟨op', reply', outcome, hmem, hends, hresult⟩ := h
  rcases List.mem_append.mp hmem with hmem | hmem
  · exact .inl ⟨op', reply', outcome, hmem, hends, hresult⟩
  · cases List.mem_singleton.mp hmem
    exact .inr ⟨hends, outcome, hresult⟩

/-- Each operation keeps what holds of the handles. -/
lemma Known.perform (hc : c.Sound entries) (hk : Known past c entries)
    (hp : Performed c entries op reply entries')
    (hsize : reply.context.registry.slots.size ≤ 2 ^ 32) :
    Known (past ++ [(op, reply)]) reply.context entries' := by
  have hf := hp.follows hc.holds
  have hnew : ∀ {block}, block ∈ reply.issued.toList → block.context = c.id ∧
      block.generation.toNat = c.registry.age block.slot.toNat + 1 ∧ reply.context.Aged block :=
    fun hmem => hp.issued_new (hp.sound hc).holds hsize hf.id (Option.mem_toList.mp hmem)
  have hended : ∀ {block}, Ended (past ++ [(op, reply)]) block →
      c.Aged block ∧ ∀ e ∈ entries', ¬ reply.context.Names block e := fun h => by
    rcases ended_append h with h | ⟨hends, outcome, hresult⟩
    · exact ⟨hk.ended_aged h, hf.not_names (hk.ended_aged h) (hk.ended h)⟩
    · exact hp.ended_stale hc.holds hends hresult
  refine ⟨?_, ?_, ?_, fun h => hf.aged (hended h).1, fun h => (hended h).2⟩
  · -- a handle given out before is not beyond its slot, a new one is
    rw [issued_append]
    refine List.nodup_append.mpr ⟨hk.nodup, by cases reply.issued <;> simp, ?_⟩
    rintro old hold new hmem rfl
    have haged := hk.aged old hold
    rw [Aged] at haged
    have hbeyond := (hnew hmem).2.1
    omega
  · rw [issued_append, hf.id]
    intro block hmem
    rcases List.mem_append.mp hmem with hmem | hmem
    · exact hk.context block hmem
    · exact (hnew hmem).1
  · rw [issued_append]
    intro block hmem
    rcases List.mem_append.mp hmem with hmem | hmem
    · exact hf.aged (hk.aged block hmem)
    · exact (hnew hmem).2.2

/-- A context accepts exactly the handles that its listing shows. -/
theorem exists_lists_locate (h : c.registry.Holds entries)
    (hsize : c.registry.slots.size ≤ 2 ^ 32) :
    ∃ infos, c.Lists infos ∧ ∀ func block,
      (∃ found, c.locate func block = .ok found) ↔ ∃ info ∈ infos, info.block = block := by
  refine ⟨_, lists_of_holds h, fun func block => ?_⟩
  rw [locate_isOk_iff h func]
  constructor
  · rintro ⟨e, he, hname⟩
    exact ⟨_, List.mem_map_of_mem he, ((names_iff_eq_handle h hsize he).mp hname).symm⟩
  · rintro ⟨info, hinfo, rfl⟩
    obtain ⟨e, he, rfl⟩ := List.mem_map.mp hinfo
    exact ⟨e, he, (names_iff_eq_handle h hsize he).mpr rfl⟩

/-- As long as slot numbers fit 32 bits, a context accepts exactly the handles that its listing
shows, the handles that a run gives out are all different, and each operation refuses a handle that
was freed or superseded at any time before. -/
theorem run_handles (hc : c.IsNew) (ops : List (Operation Block)) :
    ∃ last replies, c.run ops = .ok (last, replies) ∧
      (last.registry.slots.size ≤ 2 ^ 32 →
        (∃ infos, last.Lists infos ∧ ∀ func block,
          (∃ found, last.locate func block = .ok found) ↔ ∃ info ∈ infos, info.block = block) ∧
        (replies.filterMap Reply.issued).Nodup ∧
        ∀ block, Ended (ops.zip replies) block → ∀ op func, Operation.LooksUp op func block →
          last.perform op = .ok (last.reject (.stale func block))) := by
  obtain ⟨last, replies, entries, hrun, hlast, hknown⟩ :=
    hc.run (fun past c entries => c.registry.slots.size ≤ 2 ^ 32 → Known past c entries)
      (fun _ => ⟨List.nodup_nil, by simp [issued], by simp [issued], by simp [Ended],
        by simp [Ended]⟩)
      (fun hc hk hp hsize =>
        Known.perform hc (hk (Nat.le_trans (hp.follows hc.holds).size_le hsize)) hp hsize)
      ops
  refine ⟨last, replies, hrun, fun hsize => ⟨?_, ?_, ?_⟩⟩
  · exact exists_lists_locate hlast.holds hsize
  · rw [← issued_zip (length_of_run hrun)]
    exact (hknown hsize).nodup
  · intro block hended op func hop
    exact perform_of_stale hlast.holds ((hknown hsize).ended hended) hop

/-- A block that is freed, and another one in its slot two generations later. -/
theorem run_handles_reused : ∃ last replies,
    (create 7 .system).run [.malloc 16, .free ⟨7, 0, 1⟩, .malloc 16] = .ok (last, replies) ∧
      replies.map Reply.result = [.ok (.block ⟨7, 0, 1⟩), .ok .nothing, .ok (.block ⟨7, 0, 3⟩)] ∧
      last.perform (.pointer ⟨7, 0, 1⟩) = .ok (last.reject (.stale "as_ptr" ⟨7, 0, 1⟩)) := by
  obtain ⟨last, replies, hrun, hhandles⟩ := run_handles (.plain 7 .system)
    [.malloc 16, .free ⟨7, 0, 1⟩, .malloc 16]
  have hvalue : ((create 7 .system).run [.malloc 16, .free ⟨7, 0, 1⟩, .malloc 16]).map
      (fun p => (p.1.registry.slots.size, p.2.map Reply.result)) =
      .ok (1, [.ok (.block ⟨7, 0, 1⟩), .ok .nothing, .ok (.block ⟨7, 0, 3⟩)]) := rfl
  rw [hrun] at hvalue
  obtain ⟨hsize, hresults⟩ := Prod.mk.inj (Except.ok.inj hvalue)
  obtain ⟨-, -, hended⟩ := hhandles (by simp [hsize])
  refine ⟨last, replies, hrun, hresults, hended ⟨7, 0, 1⟩ ?_ (.pointer _) _ .pointer⟩
  obtain ⟨r₁, rest, rfl, -, hrest⟩ := List.map_eq_cons_iff.mp hresults
  obtain ⟨r₂, rest, rfl, hfree, -⟩ := List.map_eq_cons_iff.mp hrest
  exact ⟨.free ⟨7, 0, 1⟩, r₂, .nothing, by simp, rfl, hfree⟩

end Context

end MemoryLedger
