import MemoryLedger.Proofs.Context.Operation

/-!
# The id of a context

A context keeps its id through every operation, and the handles that it gives out have this id. A
handle with another id is refused by every operation that looks it up. All this holds in whatever
state the context is.
-/

namespace MemoryLedger

namespace Context

/-- The reply leaves the context its id, and this is the id in a handle that its result `Gives`. -/
structure Signed {α : Type} (c : Context) (Gives : α → Block → Prop) (reply : Reply α) :
    Prop where
  id : reply.context.id = c.id
  context : ∀ {a block}, reply.result = .ok a → Gives a block → block.context = c.id

variable {α β : Type} {c : Context} {func : String} {block : Block} {block? : Option Block}
  {length charge : UInt64} {Gives : α → Block → Prop}

lemma signed_of_error {reply : Reply α} {error : AllocError} (hid : reply.context.id = c.id)
    (h : reply.result = .error error) : c.Signed Gives reply where
  id := hid
  context := fun hresult => by cases h.symm.trans hresult

lemma signed_of_forall_not {reply : Reply α} (hid : reply.context.id = c.id)
    (h : ∀ a block, ¬ Gives a block) : c.Signed Gives reply where
  id := hid
  context := fun _ hgives => absurd hgives (h _ _)

lemma Signed.map {reply : Reply β} {f : β → α}
    (h : c.Signed (fun b block => Gives (f b) block) reply) : c.Signed Gives (reply.map f) where
  id := h.id
  context := by
    intro a block hresult hgives
    cases hreply : reply.result with
    | error e => simp [Reply.map, hreply, Except.map] at hresult
    | ok b =>
      have hb : f b = a := by simpa [Reply.map, hreply, Except.map] using hresult
      exact h.context hreply (hb ▸ hgives)

/-! ### Requests -/

section

variable {reply : Reply (Option Block)}

lemma place_signed {slot payload : Nat} (h : c.place func slot charge payload = .ok reply) :
    c.Signed (· = some ·) reply := by
  simp only [place, bind_eq_ok_iff] at h
  obtain ⟨⟨generation, registry⟩, -, registry', -, usage, -, h⟩ := h
  cases h
  refine ⟨rfl, fun hresult hblock => ?_⟩
  cases hresult
  cases hblock
  rfl

lemma carryOutAllocate_signed (h : c.carryOutAllocate func length charge = .ok reply) :
    c.Signed (· = some ·) reply := by
  rw [carryOutAllocate] at h
  split at h
  next =>
    cases h
    exact signed_of_error rfl rfl
  next =>
    have hplaced := place_signed h
    exact ⟨hplaced.id, hplaced.context⟩

lemma carryOutResize_signed {slot payload : Nat} {old : Descriptor}
    (h : c.carryOutResize func slot old payload length charge = .ok reply) :
    c.Signed (· = some ·) reply := by
  rw [carryOutResize] at h
  split at h
  next =>
    cases h
    exact signed_of_error rfl rfl
  next =>
    simp only [bind_eq_ok_iff] at h
    obtain ⟨registry, -, usage, -, h⟩ := h
    split at h
    · simp only [bind_eq_ok_iff] at h
      obtain ⟨retired, -, placed, hplace, h⟩ := h
      cases h
      have hplaced := place_signed hplace
      exact ⟨hplaced.id, hplaced.context⟩
    · have hplaced := place_signed h
      exact ⟨hplaced.id, hplaced.context⟩

/-- A request keeps the id, and gives it to the handle that it gives out. -/
theorem request_signed (h : c.request func block? length = .ok reply) :
    c.Signed (· = some ·) reply := by
  rw [request] at h
  split at h
  next =>
    cases h
    exact signed_of_error rfl rfl
  next slot _ =>
    obtain ⟨⟨c', event⟩, hrelease, h⟩ := bind_eq_ok_iff.mp h
    cases h
    simp only [release, bind_eq_ok_iff] at hrelease
    obtain ⟨unlinked, -, old, -, vacated, -, usage, -, hrelease⟩ := hrelease
    cases hrelease
    refine ⟨rfl, fun hresult hblock => ?_⟩
    cases hresult
    cases hblock
  next => exact carryOutAllocate_signed h
  next => exact carryOutResize_signed h

lemma Signed.handle (h : c.Signed (· = some ·) reply) : c.Signed Eq (handle func reply) where
  id := h.id
  context := by
    rintro a block hresult rfl
    cases hreply : reply.result with
    | error e => simp [Context.handle, hreply] at hresult
    | ok given =>
      cases given with
      | none => simp [Context.handle, hreply] at hresult
      | some given =>
        have hgiven : given = a := by simpa [Context.handle, hreply] using hresult
        exact h.context hreply (congrArg some hgiven)

end

/-! ### Operations -/

lemma Signed.outcome {reply : Reply Block} (h : c.Signed Eq reply) :
    c.Signed (· = .block ·) (reply.map Outcome.block) :=
  Signed.map ⟨h.id, fun hresult hgives => h.context hresult (Outcome.block.inj hgives)⟩

lemma malloc_signed {size : UInt64} {reply : Reply Block} (h : c.malloc size = .ok reply) :
    c.Signed Eq reply := by
  rw [malloc] at h
  split at h
  · cases h
    exact signed_of_error rfl rfl
  · obtain ⟨served, hrequest, rfl⟩ := map_eq_ok_iff.mp h
    exact (request_signed hrequest).handle

lemma array_signed {n size : UInt64} {reply : Reply Block}
    (h : (match arrayLength func n size with
      | .error r => Except.ok (c.reject r)
      | .ok length => handle func <$> c.request func block? length) = .ok reply) :
    c.Signed Eq reply := by
  split at h
  · cases h
    exact signed_of_error rfl rfl
  · obtain ⟨served, hrequest, rfl⟩ := map_eq_ok_iff.mp h
    exact (request_signed hrequest).handle

lemma write_id {offset : UInt64} {text : List UInt8} {reply : Reply Unit}
    (h : c.write block offset text = .ok reply) : reply.context.id = c.id := by
  obtain ⟨region, -, h⟩ := bind_eq_ok_iff.mp h
  split at h <;> cases h <;> rfl

lemma fill_id {byte : UInt8} {reply : Reply Unit} (h : c.fill block byte = .ok reply) :
    reply.context.id = c.id := by
  obtain ⟨length, -, h⟩ := bind_eq_ok_iff.mp h
  split at h
  · cases h
    rfl
  · obtain ⟨region, -, h⟩ := bind_eq_ok_iff.mp h
    split at h <;> cases h <;> rfl

/-- Every operation keeps the id of its context, and gives it to the handle that it gives out. -/
theorem perform_signed {op : Operation Block} {reply : Reply Outcome}
    (h : c.perform op = .ok reply) : c.Signed (· = .block ·) reply := by
  cases op with
  | malloc size =>
    obtain ⟨given, hmalloc, rfl⟩ := map_eq_ok_iff.mp h
    exact (malloc_signed hmalloc).outcome
  | calloc n size =>
    obtain ⟨given, hcalloc, rfl⟩ := map_eq_ok_iff.mp h
    exact (array_signed hcalloc).outcome
  | realloc block n size =>
    obtain ⟨given, hrealloc, rfl⟩ := map_eq_ok_iff.mp h
    exact (array_signed hrealloc).outcome
  | free block =>
    obtain ⟨freed, hfree, rfl⟩ := map_eq_ok_iff.mp h
    obtain ⟨served, hrequest, hfreed⟩ := bind_eq_ok_iff.mp hfree
    cases hfreed
    exact Signed.map (signed_of_forall_not (request_signed hrequest).id (by simp))
  | request block? size =>
    obtain ⟨served, hrequest, rfl⟩ := map_eq_ok_iff.mp h
    have hsigned := request_signed hrequest
    refine Signed.map ⟨hsigned.id, fun {given _} hresult hgives => ?_⟩
    cases given with
    | none => cases hgives
    | some given => exact hsigned.context hresult (congrArg some (Outcome.block.inj hgives))
  | setLimit megabytes =>
    simp only [perform, setLimit] at h
    split at h
    next hlimit =>
      cases h
      split at hlimit
      · cases hlimit
      · cases hlimit
        refine ⟨rfl, fun hresult hgives => ?_⟩
        cases hresult
        cases hgives
    next =>
      cases h
      exact signed_of_error rfl rfl
  | pointer block =>
    cases h
    exact Signed.map (signed_of_forall_not (by rw [context_report]) (by simp))
  | payloadLength block =>
    obtain ⟨seen, -, h⟩ := bind_eq_ok_iff.mp h
    cases h
    exact Signed.map (signed_of_forall_not (by rw [context_report]) (by simp))
  | write block offset text =>
    obtain ⟨written, hwrite, rfl⟩ := map_eq_ok_iff.mp h
    exact Signed.map (signed_of_forall_not (write_id hwrite) (by simp))
  | fill block byte =>
    obtain ⟨filled, hfill, rfl⟩ := map_eq_ok_iff.mp h
    exact Signed.map (signed_of_forall_not (fill_id hfill) (by simp))
  | audit =>
    obtain ⟨seen, -, h⟩ := bind_eq_ok_iff.mp h
    cases h
    exact Signed.map (signed_of_forall_not (by rw [context_report]) (by simp))

/-! ### Handles of other contexts -/

/-- A handle with another id is not accepted. -/
lemma locate_of_foreign (h : block.context ≠ c.id) (func : String) :
    c.locate func block = .error (.stale func block) := by
  simp only [locate]
  cases c.registry.slots[block.slot.toNat]? with
  | none => rfl
  | some d => exact if_neg fun hall => h hall.1

/-- An operation with the handle of another context is refused as an invalid pointer. -/
theorem perform_of_foreign {op : Operation Block} (h : block.context ≠ c.id)
    (hop : op.LooksUp func block) : c.perform op = .ok (c.reject (.stale func block)) :=
  perform_of_locate (locate_of_foreign h) hop

end Context

end MemoryLedger
