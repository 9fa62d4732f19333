import MemoryLedger.Proofs.Context.Issued
import MemoryLedger.Proofs.Registry.Wear

/-!
# What a new handle resolves to

A handle keeps 32 bits of a slot number, and no slot is taken out of the table, not even one that is
used up. So a handle that is given out resolves to its block as long as the number of its slot fits.
The number of blocks is bounded, and it takes as many operations to use a slot up as there are
generations; therefore no slot number is too large before the `3 * (2 ^ 32 - 1)`th operation.
-/

namespace MemoryLedger

namespace Context

/-- The handle is accepted for the block at the head of the list, which has this length. -/
def Resolves (c : Context) (block : Block) (length : Nat) : Prop :=
  ∃ slot word, c.registry.head = some slot ∧ (∀ func, ∃ d, c.locate func block = .ok (slot, d)) ∧
    c.payloadLength block = .ok (.ok word) ∧ word.toNat = length

variable {c : Context} {entries entries' rest before after : List Entry} {e old : Entry}
  {func : String} {block : Block} {block? : Option Block} {length : UInt64} {op : Operation Block}

/-- A handle can only resolve to a block whose slot number fits. -/
lemma Resolves.slot_lt {n : Nat} (h : c.registry.Holds (e :: rest)) (hr : c.Resolves block n) :
    e.slot < 2 ^ 32 := by
  have hhead : c.registry.head = some e.slot := h.threads.head
  obtain ⟨slot, word, hslot, hlocate, -⟩ := hr
  cases hhead.symm.trans hslot
  obtain ⟨d, hd⟩ := hlocate "resolve"
  obtain ⟨e', he', hname⟩ := (locate_isOk_iff h "resolve").mp ⟨_, hd⟩
  obtain ⟨d', hd', -⟩ := locate_of_names h he' hname "resolve"
  obtain ⟨heq, -⟩ := Prod.mk.inj (Except.ok.inj (hd.symm.trans hd'))
  rw [heq, ← hname.slot]
  exact UInt32.toNat_lt _

/-- The handle of the newest block resolves to it if and only if its slot number fits. -/
theorem resolves_iff (h : c.registry.Holds (e :: rest)) :
    c.Resolves (e.handle c.id) e.length.toNat ↔ e.slot < 2 ^ 32 := by
  refine ⟨fun hr => hr.slot_lt h, fun hlt => ?_⟩
  have he : e ∈ e :: rest := List.mem_cons_self
  have hname : c.Names (e.handle c.id) e := names_handle_iff.mpr hlt
  refine ⟨e.slot, e.length, h.threads.head, fun func => ?_, payloadLength_of_names h he hname, rfl⟩
  obtain ⟨d, hd, -⟩ := locate_of_names h he hname func
  exact ⟨d, hd⟩

/-! ### How many slots there are -/

/-- What holds of the slots after so many operations: the generations of the blocks are counted from
one on, the registry is not worn more than once by each operation, and before this can have been
enough to use two slots up among as many blocks as there can be, slot numbers fit 32 bits. -/
structure Worn (operations : Nat) (c : Context) (entries : List Entry) : Prop where
  generation : ∀ e ∈ entries, 1 ≤ e.generation.toNat
  wear_le : c.registry.wear ≤ operations
  size_le : operations < 3 * (2 ^ 32 - 1) → c.registry.slots.size ≤ 2 ^ 32

lemma length_le_sum (h : ∀ e ∈ entries, 1 ≤ e.generation.toNat) :
    entries.length ≤ (entries.map fun e => e.generation.toNat).sum := by
  rw [← List.length_map (f := fun e : Entry => e.generation.toNat)]
  exact List.length_le_sum_of_one_le _ (List.forall_mem_map.mpr h)

/-- With `2 ^ 32` slots, none of which can be used for one block more, two are used up. -/
lemma wear_ge_of_full (h : c.registry.Holds entries) (hvacant : c.registry.vacant = [])
    (hsize : c.registry.slots.size = 2 ^ 32) (hone : ∀ e ∈ entries, 1 ≤ e.generation.toNat)
    (hlength : entries.length < 2 ^ 32 - 1) : 3 * (2 ^ 32 - 1) ≤ c.registry.wear + 1 := by
  have hwear := h.wear_of_vacant_eq_nil hvacant
  have hsum := length_le_sum hone
  rw [hsize] at hwear
  omega

/-- With `2 ^ 32` slots, none of which can be used for a block whose slot is used up, another one is
used up as well. -/
lemma wear_ge_of_moved (h : c.registry.Holds (before ++ old :: after))
    (hvacant : c.registry.vacant = []) (hsize : c.registry.slots.size = 2 ^ 32)
    (hone : ∀ e ∈ before ++ old :: after, 1 ≤ e.generation.toNat)
    (hold : old.generation = maxGeneration)
    (hlength : (before ++ old :: after).length ≤ 2 ^ 32 - 1) :
    3 * (2 ^ 32 - 1) ≤ c.registry.wear + 1 := by
  have hwear := h.wear_of_vacant_eq_nil hvacant
  have hbefore := length_le_sum fun e he => hone e (List.mem_append_left _ he)
  have hafter := length_le_sum fun e he =>
    hone e (List.mem_append_right before (List.mem_cons_of_mem old he))
  have hsum : ((before ++ old :: after).map fun e => e.generation.toNat).sum =
      (before.map fun e => e.generation.toNat).sum +
        (0xFFFFFFFF + (after.map fun e => e.generation.toNat).sum) := by
    rw [List.map_append, List.sum_append, List.map_cons, List.sum_cons, hold]
    rfl
  rw [List.length_append, List.length_cons] at hlength hwear
  rw [hsum, hsize] at hwear
  omega

/-! ### One operation -/

variable {c' : Context} {operations : Nat}

lemma Worn.of_eq (hw : Worn operations c entries) (hregistry : c'.registry = c.registry) :
    Worn (operations + 1) c' entries where
  generation := hw.generation
  wear_le := hregistry ▸ Nat.le_succ_of_le hw.wear_le
  size_le := fun h => hregistry ▸ hw.size_le (Nat.lt_of_succ_lt h)

/-- A block that is entered wears the registry by one. Its slot number is too large only if the
registry was worn too much already. -/
lemma Worn.of_entered (hw : Worn operations c entries)
    (hr : c.registry.Entered c'.registry e rest) (hrest : ∀ e' ∈ rest, e' ∈ entries)
    (hfull : c.registry.vacant = [] → e.slot = c.registry.slots.size →
      c.registry.slots.size = 2 ^ 32 → 3 * (2 ^ 32 - 1) ≤ c.registry.wear + 1) :
    Worn (operations + 1) c' (e :: rest) := by
  have hwear := hw.wear_le
  refine ⟨?_, ?_, fun hlt => ?_⟩
  · refine List.forall_mem_cons.mpr ⟨?_, fun e' he' => hw.generation e' (hrest e' he')⟩
    rw [hr.generation]
    exact Nat.le_add_left 1 _
  · rw [hr.wear_eq]
    exact Nat.succ_le_succ hwear
  · have hsize := hw.size_le (Nat.lt_of_succ_lt hlt)
    rcases hr.size with hsame | ⟨hvacant, hslot, hgrown⟩
    · rwa [hsame]
    · have hne : c.registry.slots.size ≠ 2 ^ 32 := fun heq => by
        have := hfull hvacant hslot heq
        omega
      omega

lemma Served.worn {reply : Reply (Option Block)} (hc : c.Sound entries)
    (hw : Worn operations c entries)
    (hs : Served c func entries block? length reply entries') :
    Worn (operations + 1) reply.context entries' := by
  have hmax : c.maxBlocks.toNat ≤ 2 ^ 32 - 1 := UInt64.le_iff_toNat_le.mp hc.maxBlocks_le
  cases hs with
  | refused | notGranted | notResized => exact hw.of_eq rfl
  | @freed before after e _ registry _ _ _ _ hsize hage =>
    have hslot : e.slot < c.registry.slots.size := hc.holds.slot_lt (by simp)
    have hgen : min (e.generation.toNat + 1) 0xFFFFFFFF ≤ c.registry.age e.slot + 1 := by
      rw [hc.holds.age_of_mem (by simp : e ∈ _)]
      exact Nat.min_le_left _ _
    refine ⟨fun e' he' => hw.generation e' (Registry.mem_append_cons_of_mem he'), ?_, fun h => ?_⟩
    · exact Nat.le_trans (Registry.wear_le_of_update hsize hage hslot hgen)
        (Nat.succ_le_succ hw.wear_le)
    · exact hsize ▸ hw.size_le (Nat.lt_of_succ_lt h)
  | allocated hroom _ _ hr =>
    refine hw.of_entered hr (fun _ he' => he') fun hvacant _ hsize => ?_
    have hlength : entries.length < 2 ^ 32 - 1 :=
      Nat.lt_of_lt_of_le (hc.balanced.count ▸ hroom.blocks) hmax
    exact wear_ge_of_full hc.holds hvacant hsize hw.generation hlength
  | @resized before after old e _ _ _ _ _ _ _ _ _ _ _ _ hr hslot =>
    refine hw.of_entered hr (fun _ he' => Registry.mem_append_cons_of_mem he')
      fun hvacant hnew hsize => ?_
    have hold : old.generation = maxGeneration := by
      -- a block that stays in its slot needs no new one
      by_contra hstays
      have hlt : old.slot < c.registry.slots.size := hc.holds.slot_lt (by simp)
      rw [← hslot hstays, hnew] at hlt
      exact Nat.lt_irrefl _ hlt
    exact wear_ge_of_moved hc.holds hvacant hsize hw.generation hold
      (Nat.le_trans hc.balanced.count_le hmax)

/-- Each operation keeps what holds of the slots. -/
lemma Performed.worn {reply : Reply Outcome} (hc : c.Sound entries)
    (hw : Worn operations c entries) (hp : Performed c entries op reply entries') :
    Worn (operations + 1) reply.context entries' := by
  cases hp with
  | requested _ hs => exact hs.worn hc hw
  | _ => exact hw.of_eq rfl

/-! ### Runs -/

lemma IsNew.worn (hc : c.IsNew) : Worn 0 c [] := by
  refine ⟨by simp, ?_, fun _ => ?_⟩
  · rw [hc.registry_eq]
    exact Nat.le_refl 0
  · rw [hc.registry_eq]
    exact Nat.zero_le _

/-- A handle that an operation gives out after a run resolves to the block that it was given out
for, at the head of the list and of the length that was asked for, if and only if the number of its
slot is below `2 ^ 32`. It is as long as there are fewer than `3 * (2 ^ 32 - 1)` operations. -/
theorem run_resolves (hc : c.IsNew) (ops : List (Operation Block)) :
    ∃ last replies, c.run ops = .ok (last, replies) ∧ ∀ op, ∃ reply,
      last.perform op = .ok reply ∧ ∀ block, reply.issued = some block →
        ∃ slot, reply.context.registry.head = some slot ∧
          (reply.context.Resolves block op.length ↔ slot < 2 ^ 32) ∧
          (ops.length + 1 < 3 * (2 ^ 32 - 1) → slot < 2 ^ 32) := by
  obtain ⟨last, replies, entries, hrun, hlast, hworn⟩ :=
    hc.run (fun past c entries => Worn past.length c entries) hc.worn
      (fun hc hworn hp => by simpa using hp.worn hc hworn) ops
  have hlength : (ops.zip replies).length = ops.length := by
    rw [List.length_zip, length_of_run hrun, Nat.min_self]
  rw [hlength] at hworn
  refine ⟨last, replies, hrun, fun op => ?_⟩
  obtain ⟨reply, entries', hreply, hp⟩ :=
    perform_performed hlast.holds hlast.maxBlocks_le hlast.bytes_lt op
  refine ⟨reply, hreply, fun block hissued => ?_⟩
  obtain ⟨e, rest, rfl, rfl, hlength, -⟩ := hp.issued hissued
  have hnext := (hp.sound hlast).holds
  refine ⟨e.slot, hnext.threads.head, ?_, fun hlt => ?_⟩
  · rw [← hlength, ← (hp.follows hlast.holds).id]
    exact resolves_iff hnext
  · exact Nat.lt_of_lt_of_le (hnext.slot_lt List.mem_cons_self)
      ((hp.worn hlast hworn).size_le hlt)

/-- The slot of a block that was freed is used again. -/
theorem run_resolves_reused : ∃ last replies reply,
    (create 7 .system).run [.malloc 16, .free ⟨7, 0, 1⟩] = .ok (last, replies) ∧
    last.perform (.malloc 8) = .ok reply ∧ reply.issued = some ⟨7, 0, 3⟩ ∧
    reply.context.Resolves ⟨7, 0, 3⟩ 8 := by
  obtain ⟨last, replies, hrun, hnext⟩ :=
    run_resolves (.plain 7 .system) [.malloc 16, .free ⟨7, 0, 1⟩]
  obtain ⟨reply, hreply, hresolves⟩ := hnext (.malloc 8)
  have hvalue : ((create 7 .system).run [.malloc 16, .free ⟨7, 0, 1⟩]).bind
      (fun p => (p.1.perform (.malloc 8)).map Reply.issued) = .ok (some ⟨7, 0, 3⟩) := by
    decide +kernel
  rw [hrun] at hvalue
  obtain ⟨_, ⟨⟩, hvalue⟩ := bind_eq_ok_iff.mp hvalue
  rw [hreply] at hvalue
  have hissued : reply.issued = some ⟨7, 0, 3⟩ := Except.ok.inj hvalue
  obtain ⟨slot, -, hiff, hlt⟩ := hresolves _ hissued
  exact ⟨last, replies, reply, hrun, hreply, hissued, hiff.mpr (hlt (by decide))⟩

end Context

end MemoryLedger
