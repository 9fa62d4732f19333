import MemoryLedger.Proofs.Context.Admission
import MemoryLedger.Proofs.Context.Freeing

/-!
# Resizing a block, or freeing it and allocating anew

A block that is resized goes to the head of the list, like a new one, and its old size does not
count towards the limit. So nothing else comes of it than of freeing the block and allocating one of
the new size: what stands against the one stands against the other, and if nothing does, the blocks
have the same sizes in the same order and the counters agree. Only the slot and the generation of
the block may differ, and with them its handle.
-/

namespace MemoryLedger

/-! ### Refusals on the same ground -/

/-- The same refusal, made by the entry point `func`. -/
def AllocError.madeBy (func : String) : AllocError → AllocError
  | .invalidParameter _ name value => .invalidParameter func name value
  | .arrayTooLarge _ n size => .arrayTooLarge func n size
  | .sizeTooLarge _ size => .sizeTooLarge func size
  | .invalidPointer _ => .invalidPointer func
  | .accounting _ => .accounting func
  | .outOfBounds _ offset length capacity => .outOfBounds func offset length capacity
  | .limitExceeded _ requested total limit => .limitExceeded func requested total limit
  | .tooManyBlocks _ count => .tooManyBlocks func count
  | .noMemory _ size => .noMemory func size

namespace Ground

/-- The error by which a ground is told. -/
def error (func : String) : Ground → AllocError
  | .parameter name => .invalidParameter func name 0
  | .array n bytes => .arrayTooLarge func n.toUInt64 bytes.toUInt64
  | .size length => .sizeTooLarge func length.toUInt64
  | .handle => .invalidPointer func
  | .limit requested total ceiling =>
      .limitExceeded func requested.toUInt64 total.toUInt64 ceiling.toUInt64
  | .blocks count => .tooManyBlocks func count.toUInt64
  | .heap requested => .noMemory func requested.toUInt64

lemma Told.eq_error {func : String} {ground : Ground} {error : AllocError}
    (h : ground.Told func error) : error = ground.error func := by
  cases h <;> simp [Ground.error]

lemma madeBy_error (func func' : String) (ground : Ground) :
    (ground.error func).madeBy func' = ground.error func' := by
  cases ground <;> rfl

end Ground

namespace Context

open Ground

/-- Resizing a block to a payload of `length` bytes answers what freeing it and allocating a new one
answers. Both are refused, and the refusals differ in the entry point only; or both give a block,
which comes first with the others behind it as they were, and the counters, the limit and the
handles of the others are the same. -/
inductive Replaces (c : Context) (block : Block) (length : UInt64) (resized given : Reply Outcome) :
    Prop where
  | refused {error : AllocError} (hresized : resized.result = .error (error.madeBy "realloc"))
      (hgiven : given.result = .error (error.madeBy "malloc"))
  | placed {b b' : Block} {old : UInt64} {before after : List BlockInfo}
      (hresized : resized.result = .ok (.block b)) (hgiven : given.result = .ok (.block b'))
      (hold : c.Lists (before ++ ⟨block, old⟩ :: after))
      (hlists : resized.context.Lists (⟨b, length + descriptorSize⟩ :: (before ++ after)))
      (hlists' : given.context.Lists (⟨b', length + descriptorSize⟩ :: (before ++ after)))
      (husage : given.context.usage = resized.context.usage)
      (hlimit : resized.context.limit = c.limit) (hlimit' : given.context.limit = c.limit)
      (hkeeps : c.Keeps [block] resized.context) (hkeeps' : c.Keeps [block] given.context)

variable {c c' freed : Context} {entries entries' : List Entry} {e : Entry} {block : Block}
  {func : String} {length : UInt64}

/-! ### The ground -/

lemma Decided.result_eq_error {count total : Nat} {ground : Ground} {reply : Reply Outcome}
    (h : Decided func count total (some ground) reply) :
    reply.result = .error (ground.error func) := by
  cases h with
  | refused hresult htold => rw [hresult, htold.eq_error]

lemma Decided.exists_result_eq_ok {count total : Nat} {reply : Reply Outcome}
    (h : Decided func count total none reply) : ∃ block, reply.result = .ok (.block block) := by
  cases h with
  | given hresult => exact ⟨_, hresult⟩

/-- Without the block, the same stands against a new one as stood against another size of it. -/
lemma Sound.groundOfAllocate_eq (hc : c.Sound entries) (hfreed : c.Freed [block] freed)
    (hcredit : c.usage.credit e.size = .ok freed.usage)
    (hheap : freed.heap = c.heap.release e.payload) (length : Nat) :
    freed.groundOfAllocate length = c.groundOfReplace e.size.toNat length := by
  obtain ⟨hcount, -, htotal, -⟩ := Usage.credit_eq_ok_iff.mp hcredit
  -- one block less than were allowed is not too many
  have hblocks : ofCount freed.maxBlocks.toNat freed.usage.count.toNat = none := by
    have hle := hc.balanced.count_le
    rw [← hc.balanced.count] at hle
    rw [hfreed.maxBlocks]
    exact if_neg (by omega)
  have hbytes : freed.usage.total.toNat = c.usage.total.toNat - e.size.toNat := by omega
  have hgranted : ofHeap freed.heap length = ofHeap c.heap length := by
    rw [hheap]
    rfl
  rw [groundOfAllocate, groundOfReplace, hblocks, hbytes, hgranted, hfreed.limit, Option.or_none]

/-! ### Blocks that are given out -/

/-- The answer is a block of `length` bytes in front of `rest`, for which `usage` was charged. -/
structure Placed (c : Context) (usage : Usage) (rest : List Entry) (length : UInt64)
    (reply : Reply Outcome) (entries' : List Entry) (e : Entry) : Prop where
  entries : entries' = e :: rest
  size : e.size = length + descriptorSize
  result : reply.result = .ok (.block (e.handle c.id))
  usage : usage.charge (length + descriptorSize) = .ok reply.context.usage
  id : reply.context.id = c.id
  limit : reply.context.limit = c.limit

variable {usage : Usage} {rest : List Entry} {b : Block}

lemma Served.placed_new {reply : Reply (Option Block)}
    (hs : Served c func entries none length reply entries')
    (hresult : (reply.map outcome).result = .ok (.block b)) :
    ∃ e, c.Placed c.usage entries length (reply.map outcome) entries' e := by
  cases hs with
  | refused | notGranted => cases hresult
  | allocated _ _ hu => exact ⟨_, rfl, rfl, rfl, hu, rfl, rfl⟩

lemma Served.placed_resize {reply : Reply (Option Block)} (h : c.registry.Holds entries)
    (he : e ∈ entries) (hname : c.Names block e) (hcredit : c.usage.credit e.size = .ok usage)
    (hs : Served c func entries (some block) length reply entries')
    (hresult : (reply.map outcome).result = .ok (.block b)) :
    ∃ e', c.Placed usage (outside [block] entries) length (reply.map outcome) entries' e' := by
  cases hs with
  | refused | notResized | freed => cases hresult
  | resized hname' _ _ _ _ hcredit' hu =>
    obtain rfl := h.eq_of_slot_eq (by simp) he (hname'.slot.symm.trans hname.slot)
    cases hcredit.symm.trans hcredit'
    exact ⟨_, by rw [outside_singleton h hname], rfl, rfl, hu, rfl, rfl⟩

lemma Placed.lists {reply : Reply Outcome} (h : c.Placed usage rest length reply entries' e)
    (hholds : reply.context.registry.Holds entries') :
    reply.context.Lists (⟨e.handle c.id, length + descriptorSize⟩ ::
      rest.map fun e => ⟨e.handle c.id, e.size⟩) := by
  have hlists := lists_of_holds hholds
  rw [h.entries, List.map_cons, h.id, h.size] at hlists
  exact hlists

/-! ### Sound contexts -/

/-- Where both are answered by a block, the blocks and the counters agree. -/
lemma Sound.replaces_of_placed {resized given : Reply Outcome} {left left' : List Entry}
    {e₁ e₂ : Entry} (hc : c.Sound entries) (he : e ∈ entries) (hname : c.Names block e)
    (hfreed : c.Freed [block] freed)
    (hplaced : c.Placed usage (outside [block] entries) length resized left e₁)
    (hplaced' : freed.Placed usage (outside [block] entries) length given left' e₂)
    (hresized : resized.context.registry.Holds left)
    (hgiven : given.context.registry.Holds left') : c.Replaces block length resized given := by
  have hnames : ∀ b ∈ [block], ∃ e ∈ entries, c.Names b e :=
    List.forall_mem_singleton.mpr ⟨e, he, hname⟩
  have hkeeps : c.Keeps [block] resized.context :=
    keeps_of_holds hc.holds hresized hplaced.id hnames fun _ hleft =>
      hplaced.entries ▸ List.mem_cons_of_mem _ hleft
  have hkeeps' : c.Keeps [block] given.context :=
    keeps_of_holds hc.holds hgiven (hplaced'.id.trans hfreed.id) hnames fun _ hleft =>
      hplaced'.entries ▸ List.mem_cons_of_mem _ hleft
  have husage : given.context.usage = resized.context.usage :=
    Except.ok.inj (hplaced'.usage.symm.trans hplaced.usage)
  have hlists := hplaced.lists hresized
  have hlists' := hplaced'.lists hgiven
  obtain ⟨before, after, rfl⟩ := List.append_of_mem he
  have hold := lists_of_holds hc.holds
  rw [List.map_append, List.map_cons, ← hname.eq_handle] at hold
  rw [outside_singleton hc.holds hname, List.map_append] at hlists hlists'
  rw [hfreed.id] at hlists'
  exact .placed hplaced.result (hfreed.id ▸ hplaced'.result) hold hlists hlists' husage
    hplaced.limit (hplaced'.limit.trans hfreed.limit) hkeeps hkeeps'

/-- In a sound context a block can be freed and allocated anew in place of being resized. -/
theorem Sound.replaces {n size : UInt64} (hc : c.Sound entries) (he : e ∈ entries)
    (hname : c.Names block e) (harray : arrayLength "realloc" n size = .ok length) :
    ∃ resized freed given, c.perform (.realloc block n size) = .ok resized ∧
      c.perform (.free block) = .ok freed ∧ freed.result = .ok .nothing ∧
      freed.context.perform (.malloc length) = .ok given ∧
      c.Replaces block length resized given := by
  have hzero : length ≠ 0 := arrayLength_ne_zero harray
  obtain ⟨freed, event, hfree, hsound, hfreed, hcredit, hheap⟩ := hc.free he hname
  obtain ⟨resized, left, hresized, hs⟩ :=
    request_served hc.holds hc.maxBlocks_le "realloc" (some block) length
  obtain ⟨given, left', hgiven, hs'⟩ :=
    request_served hsound.holds hsound.maxBlocks_le "malloc" none length
  refine ⟨_, _, _, perform_of_requests (.realloc harray) hs hresized, hfree, rfl,
    perform_of_requests (.malloc hzero) hs' hgiven, ?_⟩
  -- what decides on the one decides on the other
  have hdecided := hs.decided_resize hc hresized he hname hzero
  have hdecided' := hs'.decided_new hgiven
  rw [hc.groundOfAllocate_eq hfreed hcredit hheap] at hdecided'
  cases hground : c.groundOfReplace e.size.toNat length.toNat with
  | some ground =>
    rw [hground] at hdecided hdecided'
    have herror := hdecided.result_eq_error
    have herror' := hdecided'.result_eq_error
    rw [← madeBy_error "realloc"] at herror herror'
    exact .refused herror herror'
  | none =>
    rw [hground] at hdecided hdecided'
    obtain ⟨b, hresult⟩ := hdecided.exists_result_eq_ok
    obtain ⟨b', hresult'⟩ := hdecided'.exists_result_eq_ok
    obtain ⟨e₁, hplaced⟩ := hs.placed_resize hc.holds he hname hcredit hresult
    obtain ⟨e₂, hplaced'⟩ := hs'.placed_new hresult'
    exact hc.replaces_of_placed he hname hfreed hplaced hplaced' (hs.sound hc).holds
      (hs'.sound hsound).holds

/-- After any run, and whatever the generation of its slot, resizing a block comes to the same as
freeing it and allocating one of the new size. The heap answers by the number of the request and by
its size, so it grants both or neither. -/
theorem run_replaces (hc : c.IsNew) (ops : List (Operation Block)) :
    ∃ last replies, c.run ops = .ok (last, replies) ∧
      ∀ block found, last.locate "resolve" block = .ok found →
        ∀ n size : UInt64, n ≠ 0 → size ≠ 0 → n.toNat * size.toNat < 2 ^ 64 →
          ∃ resized freed given, last.perform (.realloc block n size) = .ok resized ∧
            last.run [.free block, .malloc (n * size)] = .ok (given.context, [freed, given]) ∧
            freed.result = .ok .nothing ∧ last.Replaces block (n * size) resized given := by
  obtain ⟨last, replies, entries, hrun, hlast⟩ := hc.run_sound ops
  refine ⟨last, replies, hrun, fun block found hlocate n size hn hsize hbound => ?_⟩
  obtain ⟨e, he, hname⟩ := (locate_isOk_iff hlast.holds _).mp ⟨found, hlocate⟩
  have harray : arrayLength "realloc" n size = .ok (n * size) :=
    arrayLength_eq_ok_iff.mpr ⟨hn, hsize, by rw [UInt64.toNat_mul, Nat.mod_eq_of_lt hbound]⟩
  obtain ⟨resized, freed, given, hrealloc, hfree, hfreed, hmalloc, hreplaces⟩ :=
    hlast.replaces he hname harray
  refine ⟨resized, freed, given, hrealloc, ?_, hfreed, hreplaces⟩
  rw [Context.run, hfree, ok_bind, Context.run, hmalloc, ok_bind]
  rfl

/-- The second of three blocks gets another size, either way in its slot. -/
theorem run_replaces_second : ∃ last replies resized freed given,
    (create 7 .system).run [.malloc 16, .malloc 8, .malloc 4] = .ok (last, replies) ∧
      last.perform (.realloc ⟨7, 1, 1⟩ 2 16) = .ok resized ∧
      last.run [.free ⟨7, 1, 1⟩, .malloc 32] = .ok (given.context, [freed, given]) ∧
      resized.result = .ok (.block ⟨7, 1, 2⟩) ∧ given.result = .ok (.block ⟨7, 1, 3⟩) ∧
      last.Replaces ⟨7, 1, 1⟩ 32 resized given := by
  let ops : List (Operation Block) := [.malloc 16, .malloc 8, .malloc 4]
  obtain ⟨last, replies, hrun, hreplaces⟩ := run_replaces (.plain 7 .system) ops
  have hvalue : ((create 7 .system).run ops).map (fun p =>
      ((p.1.locate "resolve" ⟨7, 1, 1⟩).toBool,
        (p.1.perform (.realloc ⟨7, 1, 1⟩ 2 16)).map Reply.result,
        (p.1.run [.free ⟨7, 1, 1⟩, .malloc 32]).map fun q => q.2.map Reply.result)) =
      .ok (true, .ok (.ok (.block ⟨7, 1, 2⟩)), .ok [.ok .nothing, .ok (.block ⟨7, 1, 3⟩)]) := by
    decide +kernel
  rw [hrun] at hvalue
  obtain ⟨hlive, hvalue⟩ := Prod.mk.inj (Except.ok.inj hvalue)
  obtain ⟨hresult, hresult'⟩ := Prod.mk.inj hvalue
  obtain ⟨found, hlocate⟩ := exists_eq_ok_of_toBool hlive
  obtain ⟨resized, freed, given, hrealloc, hagain, -, h⟩ :=
    hreplaces ⟨7, 1, 1⟩ found hlocate 2 16 (by decide) (by decide) (by decide)
  have hmul : (2 * 16 : UInt64) = 32 := by decide
  rw [hmul] at hagain h
  rw [hrealloc] at hresult
  rw [hagain] at hresult'
  obtain ⟨-, hgiven⟩ := List.cons.inj (Except.ok.inj hresult')
  exact ⟨last, replies, resized, freed, given, hrun, hrealloc, hagain, Except.ok.inj hresult,
    (List.cons.inj hgiven).1, h⟩

end Context

end MemoryLedger
