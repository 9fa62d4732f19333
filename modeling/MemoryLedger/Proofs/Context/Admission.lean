import MemoryLedger.Proofs.Context.Run
import MemoryLedger.Proofs.Heap

/-!
# Which blocks are given out

A block is given out unless something stands against it, and a refusal tells the first thing that
does. In exact numbers, nothing more than a few sums and comparisons is needed to say what that is.
Each check of a request fails on its `Ground` and on no other, and the checks come one after the
other (`Ground.Checked`).
-/

namespace MemoryLedger

/-- What stands against giving a block out, in exact numbers. -/
inductive Ground where
  | parameter (name : String)
  | array (n size : Nat)
  | size (length : Nat)
  | handle
  | limit (requested total limit : Nat)
  | blocks (count : Nat)
  | heap (requested : Nat)
deriving DecidableEq, Repr

namespace Ground

/-- The error by which the entry point `func` tells a ground, field by field. -/
inductive Told (func : String) : Ground → AllocError → Prop where
  | parameter (name : String) : Told func (.parameter name) (.invalidParameter func name 0)
  | array (n size : UInt64) : Told func (.array n.toNat size.toNat) (.arrayTooLarge func n size)
  | size (length : UInt64) : Told func (.size length.toNat) (.sizeTooLarge func length)
  | handle : Told func .handle (.invalidPointer func)
  | limit (requested total limit : UInt64) :
      Told func (.limit requested.toNat total.toNat limit.toNat)
        (.limitExceeded func requested total limit)
  | blocks (count : UInt64) : Told func (.blocks count.toNat) (.tooManyBlocks func count)
  | heap (requested : UInt64) : Told func (.heap requested.toNat) (.noMemory func requested)

/-- Against `n` items of `size` bytes. -/
def ofArguments (n size : Nat) : Option Ground :=
  if n = 0 then some (.parameter "n")
  else if size = 0 then some (.parameter "size")
  else if 2 ^ 64 - 1 < n * size then some (.array n size)
  else none

/-- Against a block with a payload of `length` bytes, wherever it is. -/
def ofLength (length : Nat) : Option Ground :=
  if 2 ^ 64 - 1 < length + descriptorSize.toNat then some (.size length) else none

/-- Against such a block beside blocks of `total` bytes. -/
def ofTotal (limit total length : Nat) : Option Ground :=
  if limit < total + length + descriptorSize.toNat then
    some (.limit (length + descriptorSize.toNat) total limit)
  else none

/-- Against one block more than `count`. -/
def ofCount (maxBlocks count : Nat) : Option Ground :=
  if maxBlocks ≤ count then some (.blocks count) else none

/-- Against a payload of `length` bytes on this heap, which is never asked for an empty region. -/
def ofHeap (h : Heap) (length : Nat) : Option Ground :=
  if h.willing h.requests ∧ max length 1 ≤ h.capacity.toNat then none
  else some (.heap (length + descriptorSize.toNat))

/-! ### Checks -/

/-- A check fails on the ground given, and passes without one. -/
inductive Checked (func : String) {α : Type} : Option Ground → Except Rejection α → Prop where
  | failed {ground : Ground} {r : Rejection} (h : ground.Told func r.error) :
      Checked func (some ground) (.error r)
  | passed (a : α) : Checked func none (.ok a)

section

variable {α β : Type} {func : String} {ground ground' : Option Ground} {x : Except Rejection α}
  {f : α → Except Rejection β} {r : Rejection} {a : α}

/-- Of two checks in a row, the first ground counts. -/
lemma Checked.bind (h : Checked func ground x)
    (hf : ∀ a, x = .ok a → Checked func ground' (f a)) :
    Checked func (ground.or ground') (x >>= f) := by
  cases h with
  | failed h => exact .failed h
  | passed a => exact hf a rfl

/-- What only follows a check does not add to it. -/
lemma Checked.bind_ok (h : Checked func ground x) (hf : ∀ a, x = .ok a → ∃ b, f a = .ok b) :
    Checked func ground (x >>= f) := by
  rw [← Option.or_none (o := ground)]
  refine h.bind fun a ha => ?_
  obtain ⟨b, hb⟩ := hf a ha
  rw [hb]
  exact .passed b

lemma Checked.ground_of_ok (h : Checked func ground (.ok a : Except Rejection α)) :
    ground = none := by
  cases h
  rfl

lemma Checked.ground_of_error (h : Checked func ground (.error r : Except Rejection α)) :
    ∃ g, ground = some g ∧ g.Told func r.error := by
  cases h with
  | failed h => exact ⟨_, rfl, h⟩

end

end Ground

namespace Context

open Ground

variable {c : Context} {entries entries' : List Entry} {e : Entry} {block : Block}
  {func : String} {length : UInt64} {ground : Option Ground} {op : Operation Block}

lemma arrayLength_checked (func : String) (n size : UInt64) :
    Checked func (ofArguments n.toNat size.toNat) (arrayLength func n size) := by
  have hpos : ∀ w : UInt64, w < 1 ↔ w.toNat = 0 := fun w => by
    rw [UInt64.lt_iff_toNat_lt, UInt64.toNat_one, Nat.lt_one_iff]
  have hzero : ∀ w : UInt64, w.toNat = 0 → w = 0 := fun w h => UInt64.toNat_inj.mp h
  simp only [arrayLength, ofArguments, hpos]
  by_cases hn : n.toNat = 0
  · rw [if_pos hn, if_pos hn, hzero n hn]
    exact .failed (.parameter "n")
  by_cases hs : size.toNat = 0
  · rw [if_neg hn, if_neg hn, if_pos hs, if_pos hs, hzero size hs]
    exact .failed (.parameter "size")
  have hlarge : maxWord / size < n ↔ 2 ^ 64 - 1 < n.toNat * size.toNat := by
    rw [UInt64.lt_iff_toNat_lt, UInt64.toNat_div, Nat.div_lt_iff_lt_mul (Nat.pos_of_ne_zero hs)]
    rfl
  rw [if_neg hn, if_neg hn, if_neg hs, if_neg hs]
  simp only [hlarge]
  split
  · exact .failed (.array n size)
  · exact .passed _

lemma chargeOf_checked (func : String) (length : UInt64) :
    Checked func (ofLength length.toNat) (chargeOf func length) := by
  have hbound : maxWord - descriptorSize < length ↔
      2 ^ 64 - 1 < length.toNat + descriptorSize.toNat := by
    have hmax : (maxWord - descriptorSize).toNat = 2 ^ 64 - 1 - 56 := by decide
    rw [UInt64.lt_iff_toNat_lt, hmax, toNat_descriptorSize]
    omega
  simp only [chargeOf, ofLength, hbound]
  split
  · exact .failed (.size length)
  · exact .passed _

lemma checkRoom_checked (func : String) {charge : UInt64} (count total : UInt64)
    (hcharge : charge.toNat = length.toNat + descriptorSize.toNat) :
    Checked func ((ofTotal c.limit.toNat total.toNat length.toNat).or
      (ofCount c.maxBlocks.toNat count.toNat)) (c.checkRoom func charge count total) := by
  have hpos : 0 < charge.toNat := hcharge ▸ Nat.add_pos_right _ (by decide)
  have hlimit : subSaturating c.limit total < charge ↔
      c.limit.toNat < total.toNat + charge.toNat := by
    rw [UInt64.lt_iff_toNat_lt, toNat_subSaturating]
    omega
  simp only [checkRoom, ofTotal, ofCount, hlimit, UInt64.le_iff_toNat_le, Nat.add_assoc,
    ← hcharge]
  by_cases hbytes : c.limit.toNat < total.toNat + charge.toNat
  · rw [if_pos hbytes, if_pos hbytes]
    exact .failed (.limit charge total c.limit)
  · rw [if_neg hbytes, if_neg hbytes, Option.none_or]
    split
    · exact .failed (.blocks count)
    · exact .passed ()

/-! ### Plans -/

/-- A plan for a new block checks its size, the limit and the number of blocks. -/
lemma plan_none_checked (c : Context) (func : String) (length : UInt64) :
    Checked func (((ofLength length.toNat).or
        (ofTotal c.limit.toNat c.usage.total.toNat length.toNat)).or
      (ofCount c.maxBlocks.toNat c.usage.count.toNat)) (c.plan func none length) := by
  rw [Option.or_assoc]
  refine (chargeOf_checked func length).bind fun charge hcharge => ?_
  obtain ⟨hlength, rfl⟩ := chargeOf_eq_ok hcharge
  exact (checkRoom_checked func _ _ (toNat_add_descriptorSize hlength)).bind_ok
    fun _ _ => ⟨_, rfl⟩

/-- A plan for another size of a block that the counters include checks the size, the limit and the
number of the other blocks. -/
lemma plan_some_checked (h : c.registry.Holds entries) (he : e ∈ entries) (hname : c.Names block e)
    (hcount : 1 ≤ c.usage.count) (htotal : e.size ≤ c.usage.total) (hzero : length ≠ 0)
    (func : String) :
    Checked func (((ofLength length.toNat).or
        (ofTotal c.limit.toNat (c.usage.total.toNat - e.size.toNat) length.toNat)).or
      (ofCount c.maxBlocks.toNat (c.usage.count.toNat - 1))) (c.plan func (some block) length) := by
  obtain ⟨old, hlocate, hbare⟩ := locate_of_names h he hname func
  have hsize : old.size = e.size := Entry.size_of_bare hbare
  have hpayload : old.payload = some e.payload := Entry.payload_of_bare hbare
  have hcounters : c.checkCounters func e.size = .ok () := if_pos ⟨hcount, htotal⟩
  rw [Option.or_assoc]
  simp only [plan, hlocate, hsize, hpayload, hcounters, if_neg hzero, ok_bind]
  refine (chargeOf_checked func length).bind fun charge hcharge => ?_
  obtain ⟨hlength, rfl⟩ := chargeOf_eq_ok hcharge
  have hchecked := checkRoom_checked (c := c) func (c.usage.count - 1) (c.usage.total - e.size)
    (toNat_add_descriptorSize hlength)
  rw [UInt64.toNat_sub_of_le _ _ hcount, UInt64.toNat_sub_of_le _ _ htotal, UInt64.toNat_one]
    at hchecked
  exact hchecked.bind_ok fun _ _ => ⟨_, rfl⟩

/-- In a sound context the counters include every block, and the number of blocks does not stand
against another size of one of them. -/
lemma Sound.plan_some_checked (hc : c.Sound entries) (he : e ∈ entries) (hname : c.Names block e)
    (hzero : length ≠ 0) (func : String) :
    Checked func ((ofLength length.toNat).or
      (ofTotal c.limit.toNat (c.usage.total.toNat - e.size.toNat) length.toNat))
      (c.plan func (some block) length) := by
  obtain ⟨hcount, htotal⟩ := hc.included he
  have hpos : 1 ≤ c.usage.count.toNat := UInt64.le_iff_toNat_le.mp hcount
  have hblocks : ofCount c.maxBlocks.toNat (c.usage.count.toNat - 1) = none := by
    have hle := hc.balanced.count_le
    rw [← hc.balanced.count] at hle
    exact if_neg (by omega)
  rw [← Option.or_none (o := Option.or _ _), ← hblocks]
  exact Context.plan_some_checked hc.holds he hname hcount htotal hzero func

/-! ### The heap -/

/-- The heap grants what nothing stands against. -/
lemma ofHeap_eq (h : Heap) (length : UInt64) : ofHeap h length.toNat =
    if h.grants (regionLength length) then none
    else some (.heap (length.toNat + descriptorSize.toNat)) := by
  have hgrants : h.grants (regionLength length) = true ↔
      h.willing h.requests ∧ max length.toNat 1 ≤ h.capacity.toNat := by
    rw [Heap.grants, Bool.and_eq_true, decide_eq_true_iff, UInt64.le_iff_toNat_le,
      toNat_regionLength]
  simp only [ofHeap, hgrants]

lemma ofHeap_of_allocate {payload? : Option Nat} {heap : Heap}
    (h : c.heap.allocate (regionLength length) = (payload?, heap)) : ofHeap c.heap length.toNat =
      if payload?.isSome then none else some (.heap (length.toNat + descriptorSize.toNat)) := by
  rw [ofHeap_eq, ← Heap.isSome_allocate, h]

lemma ofHeap_of_reallocate {id : Nat} {granted : Bool} {heap : Heap}
    (h : c.heap.reallocate id (regionLength length) = (granted, heap)) :
    ofHeap c.heap length.toNat =
      if granted then none else some (.heap (length.toNat + descriptorSize.toNat)) := by
  rw [ofHeap_eq, ← Heap.fst_reallocate c.heap id, h]

/-! ### The first ground -/

/-- The first ground against a new block with a payload of `length` bytes. -/
def groundOfAllocate (c : Context) (length : Nat) : Option Ground :=
  (((ofLength length).or (ofTotal c.limit.toNat c.usage.total.toNat length)).or
    (ofCount c.maxBlocks.toNat c.usage.count.toNat)).or (ofHeap c.heap length)

/-- The first ground against a payload of `length` bytes in the place of a block of `old` bytes.
What is there already does not count towards the limit, and the number of blocks does not matter. -/
def groundOfReplace (c : Context) (old length : Nat) : Option Ground :=
  ((ofLength length).or (ofTotal c.limit.toNat (c.usage.total.toNat - old) length)).or
    (ofHeap c.heap length)

/-- The first ground against a new block of `n` items of `size` bytes. -/
def groundOfNew (c : Context) (n size : Nat) : Option Ground :=
  (ofArguments n size).or (c.groundOfAllocate (n * size))

/-- The size of the block that a handle resolves to. -/
def sizeOf? (c : Context) (block : Block) : Option Nat :=
  match c.locate "resolve" block with
  | .ok (_, d) => some d.size.toNat
  | .error _ => none

/-- The first ground against `n` items of `size` bytes in the place of the block of a handle. -/
def groundOfResize (c : Context) (block : Block) (n size : Nat) : Option Ground :=
  (ofArguments n size).or <|
    match c.sizeOf? block with
    | none => some .handle
    | some old => c.groundOfReplace old (n * size)

/-! ### Requests for a block -/

/-- A request for a block is refused on the ground against it. Without one a block is given out,
after which there are `count` blocks of `total` bytes. -/
inductive Decided (func : String) (count total : Nat) : Option Ground → Reply Outcome → Prop where
  | refused {ground : Ground} {reply : Reply Outcome} {error : AllocError}
      (hresult : reply.result = .error error) (htold : ground.Told func error) :
      Decided func count total (some ground) reply
  | given {reply : Reply Outcome} {block : Block} (hresult : reply.result = .ok (.block block))
      (hcount : reply.context.usage.count.toNat = count)
      (htotal : reply.context.usage.total.toNat = total) :
      Decided func count total none reply

variable {reply : Reply (Option Block)} {block? : Option Block} {r : Rejection} {count total : Nat}

/-- A request whose plan is rejected changes nothing. -/
lemma decided_of_plan_error (hchecked : Checked func ground (c.plan func block? length))
    (hplan : c.plan func block? length = .error r)
    (hreply : c.request func block? length = .ok reply) (later : Option Ground) :
    Decided func count total (ground.or later) (reply.map outcome) := by
  rw [hplan] at hchecked
  obtain ⟨g, rfl, htold⟩ := hchecked.ground_of_error
  simp only [request, hplan] at hreply
  cases hreply
  exact .refused rfl htold

/-- When the heap declines, its ground is told. -/
lemma decided_noMemory {heap : Heap} (hlength : length ≤ maxWord - descriptorSize)
    (hheap : ofHeap c.heap length.toNat =
      some (.heap (length.toNat + descriptorSize.toNat))) :
    Decided func count total (ofHeap c.heap length.toNat)
      ((noMemory { c with heap } func (length + descriptorSize)).map outcome) := by
  have hcharge : (length + descriptorSize).toNat = length.toNat + descriptorSize.toNat :=
    toNat_add_descriptorSize hlength
  rw [hheap, ← hcharge]
  exact .refused rfl (.heap _)

/-- A new block is decided on by its size, the limit, the number of blocks and the heap. -/
lemma Served.decided_new (hs : Served c func entries none length reply entries')
    (hreply : c.request func none length = .ok reply) :
    Decided func (c.usage.count.toNat + 1)
      (c.usage.total.toNat + length.toNat + descriptorSize.toNat)
      (c.groundOfAllocate length.toNat) (reply.map outcome) := by
  have hchecked := plan_none_checked c func length
  rw [groundOfAllocate]
  cases hplan : c.plan func none length with
  | error r => exact decided_of_plan_error hchecked hplan hreply _
  | ok p =>
    rw [hplan] at hchecked
    rw [hchecked.ground_of_ok, Option.none_or]
    cases hs with
    | refused hplan' => cases hplan'.symm.trans hplan
    | notGranted hlength hheap => exact decided_noMemory hlength (ofHeap_of_allocate hheap)
    | @allocated _ e _ _ _ _ hheap hu =>
      obtain ⟨hcount, -, htotal, -⟩ := Usage.charge_eq_ok_iff.mp hu
      rw [ofHeap_of_allocate hheap]
      exact .given rfl hcount (htotal.trans (by rw [e.toNat_size]; rfl))

/-- Another size of a block is decided on by this size, the limit and the heap. -/
lemma Served.decided_resize (hc : c.Sound entries)
    (hs : Served c func entries (some block) length reply entries')
    (hreply : c.request func (some block) length = .ok reply) (he : e ∈ entries)
    (hname : c.Names block e) (hzero : length ≠ 0) :
    Decided func c.usage.count.toNat
      (c.usage.total.toNat - e.size.toNat + length.toNat + descriptorSize.toNat)
      (c.groundOfReplace e.size.toNat length.toNat) (reply.map outcome) := by
  have hchecked := hc.plan_some_checked he hname hzero func
  rw [groundOfReplace]
  cases hplan : c.plan func (some block) length with
  | error r => exact decided_of_plan_error hchecked hplan hreply _
  | ok p =>
    rw [hplan] at hchecked
    rw [hchecked.ground_of_ok, Option.none_or]
    cases hs with
    | refused hplan' => cases hplan'.symm.trans hplan
    | notResized _ _ hlength hheap =>
      exact decided_noMemory hlength (ofHeap_of_reallocate hheap)
    | freed => exact absurd rfl hzero
    | @resized _ _ old e' _ _ credited _ _ hname' _ _ _ hheap hcredit hu =>
      have hold : old = e := hc.holds.eq_of_slot_eq (by simp) he
        (hname'.slot.symm.trans hname.slot)
      obtain ⟨hcount, -, htotal, -⟩ := Usage.credit_eq_ok_iff.mp hcredit
      obtain ⟨hcount', -, htotal', -⟩ := Usage.charge_eq_ok_iff.mp hu
      rw [ofHeap_of_reallocate hheap]
      refine .given rfl (hcount'.trans hcount) (htotal'.trans ?_)
      rw [e'.toNat_size, ← hold, ← htotal, Nat.add_sub_cancel]
      rfl

/-! ### Entry points -/

lemma sizeOf?_of_names (h : c.registry.Holds entries) (he : e ∈ entries)
    (hname : c.Names block e) : c.sizeOf? block = some e.size.toNat := by
  obtain ⟨d, hlocate, hbare⟩ := locate_of_names h he hname "resolve"
  have hsize : d.size = e.size := Entry.size_of_bare hbare
  simp only [sizeOf?, hlocate, hsize]

lemma sizeOf?_of_forall_not_names (h : c.registry.Holds entries)
    (hname : ∀ e ∈ entries, ¬ c.Names block e) : c.sizeOf? block = none := by
  simp only [sizeOf?, locate_of_forall_not_names h hname]

/-- The arguments come first, then whatever the request is decided on. -/
lemma decided_of_arguments (func : String) {n size : UInt64} {later : Option Ground}
    (herror : ∀ r, arrayLength func n size = .error r → c.perform op = .ok (c.reject r))
    (hok : ∀ length, arrayLength func n size = .ok length →
      ∃ reply, c.perform op = .ok reply ∧ Decided func count total later reply) :
    ∃ reply, c.perform op = .ok reply ∧
      Decided func count total ((ofArguments n.toNat size.toNat).or later) reply := by
  have hchecked := arrayLength_checked func n size
  cases harray : arrayLength func n size with
  | error r =>
    rw [harray] at hchecked
    obtain ⟨g, hg, htold⟩ := hchecked.ground_of_error
    rw [hg]
    exact ⟨_, herror r harray, .refused rfl htold⟩
  | ok length =>
    rw [harray] at hchecked
    rw [hchecked.ground_of_ok, Option.none_or]
    exact hok length harray

/-- One item cannot be too large an array. -/
lemma ofArguments_one {size : UInt64} (h : size ≠ 0) : ofArguments 1 size.toNat = none := by
  have hzero : size.toNat ≠ 0 := fun h' => h (UInt64.toNat_inj.mp h')
  have hbound := size.toNat_lt
  rw [ofArguments, if_neg (by decide), if_neg hzero, if_neg (by omega)]

lemma Sound.decided_new (hc : c.Sound entries) (hop : op.Requests func none length) :
    ∃ reply, c.perform op = .ok reply ∧ Decided func (c.usage.count.toNat + 1)
      (c.usage.total.toNat + length.toNat + descriptorSize.toNat)
      (c.groundOfAllocate length.toNat) reply := by
  obtain ⟨reply, entries', hreply, hs⟩ := request_served hc.holds hc.maxBlocks_le func none length
  exact ⟨_, perform_of_requests hop hs hreply, hs.decided_new hreply⟩

lemma Sound.decided_malloc (hc : c.Sound entries) (size : UInt64) :
    ∃ reply, c.perform (.malloc size) = .ok reply ∧ Decided "malloc" (c.usage.count.toNat + 1)
      (c.usage.total.toNat + size.toNat + descriptorSize.toNat)
      (c.groundOfNew 1 size.toNat) reply := by
  by_cases hsize : size = 0
  · subst hsize
    exact ⟨_, rfl, .refused rfl (.parameter "size")⟩
  · rw [groundOfNew, ofArguments_one hsize, Option.none_or, Nat.one_mul]
    exact hc.decided_new (.malloc hsize)

lemma Sound.decided_calloc (hc : c.Sound entries) (n size : UInt64) :
    ∃ reply, c.perform (.calloc n size) = .ok reply ∧ Decided "calloc" (c.usage.count.toNat + 1)
      (c.usage.total.toNat + n.toNat * size.toNat + descriptorSize.toNat)
      (c.groundOfNew n.toNat size.toNat) reply := by
  refine decided_of_arguments "calloc" ?_ ?_
  · intro r harray
    simp only [perform, calloc, harray, map_ok]
    rfl
  · intro length harray
    rw [← toNat_arrayLength harray]
    exact hc.decided_new (.calloc harray)

lemma Sound.decided_realloc (hc : c.Sound entries) (block : Block) (n size : UInt64) :
    ∃ reply, c.perform (.realloc block n size) = .ok reply ∧
      Decided "realloc" c.usage.count.toNat
        (c.usage.total.toNat - (c.sizeOf? block).getD 0 + n.toNat * size.toNat +
          descriptorSize.toNat) (c.groundOfResize block n.toNat size.toNat) reply := by
  refine decided_of_arguments "realloc" ?_ ?_
  · intro r harray
    simp only [perform, realloc, harray, map_ok]
    rfl
  · intro length harray
    have hop : Operation.Requests (.realloc block n size) "realloc" (some block) length :=
      .realloc harray
    rw [← toNat_arrayLength harray]
    by_cases hname : ∃ e ∈ entries, c.Names block e
    · obtain ⟨e, he, hname⟩ := hname
      obtain ⟨reply, entries', hreply, hs⟩ :=
        request_served hc.holds hc.maxBlocks_le "realloc" (some block) length
      rw [sizeOf?_of_names hc.holds he hname]
      exact ⟨_, perform_of_requests hop hs hreply,
        hs.decided_resize hc hreply he hname (arrayLength_ne_zero harray)⟩
    · have hname' : ∀ e ∈ entries, ¬ c.Names block e := fun e he h => hname ⟨e, he, h⟩
      rw [sizeOf?_of_forall_not_names hc.holds hname']
      exact ⟨_, perform_of_stale hc.holds hname' (.realloc harray), .refused rfl .handle⟩

/-- The bytes of a block are among all bytes. -/
lemma Sound.sizeOf?_le (hc : c.Sound entries) {old : Nat} (h : c.sizeOf? block = some old) :
    old ≤ c.usage.total.toNat := by
  by_cases hname : ∃ e ∈ entries, c.Names block e
  · obtain ⟨e, he, hname⟩ := hname
    cases (sizeOf?_of_names hc.holds he hname).symm.trans h
    exact UInt64.le_iff_toNat_le.mp (hc.included he).2
  · rw [sizeOf?_of_forall_not_names hc.holds fun e he h => hname ⟨e, he, h⟩] at h
    cases h

/-- The number of blocks never stands against another size of a block. -/
lemma groundOfResize_ne_blocks (c : Context) (block : Block) (n size count : Nat) :
    c.groundOfResize block n size ≠ some (.blocks count) := by
  have harguments : ofArguments n size ≠ some (.blocks count) := by
    rw [ofArguments]
    split_ifs <;> simp
  have hlength : ofLength (n * size) ≠ some (.blocks count) := by
    rw [ofLength]
    split_ifs <;> simp
  have htotal : ∀ total, ofTotal c.limit.toNat total (n * size) ≠ some (.blocks count) := by
    intro total
    rw [ofTotal]
    split_ifs <;> simp
  have hheap : ofHeap c.heap (n * size) ≠ some (.blocks count) := by
    rw [ofHeap]
    split_ifs <;> simp
  have hor : ∀ {first later : Option Ground}, first ≠ some (.blocks count) →
      later ≠ some (.blocks count) → first.or later ≠ some (.blocks count) := by
    intro first later hfirst hlater
    cases first with
    | none => exact hlater
    | some ground => exact hfirst
  rw [groundOfResize]
  refine hor harguments ?_
  cases c.sizeOf? block with
  | none => simp
  | some old => exact hor (hor hlength (htotal _)) hheap

lemma Decided.ne_tooManyBlocks {reply : Reply Outcome} (h : Decided func count total ground reply)
    (hground : ∀ n, ground ≠ some (.blocks n)) (func' : String) (n : UInt64) :
    reply.result ≠ .error (.tooManyBlocks func' n) := by
  intro hresult
  cases h with
  | refused herror htold =>
    cases hresult.symm.trans herror
    cases htold
    exact hground _ rfl
  | given hgiven => cases hresult.symm.trans hgiven

/-! ### Runs -/

/-- After any run, whether a block is given out is decided by the first ground against it, in exact
numbers: against a new one by the arguments, its size, the limit, the number of blocks and the heap,
against another size of a block by the arguments, the handle, the size, the limit and the heap. What
a block is charged is added to the total, and what it was charged before is taken from it. -/
theorem run_admits (hc : c.IsNew) (ops : List (Operation Block)) :
    ∃ last replies, c.run ops = .ok (last, replies) ∧
      (∀ size : UInt64, ∃ reply, last.perform (.malloc size) = .ok reply ∧
        Decided "malloc" (last.usage.count.toNat + 1)
          (last.usage.total.toNat + size.toNat + descriptorSize.toNat)
          (last.groundOfNew 1 size.toNat) reply) ∧
      (∀ n size : UInt64, ∃ reply, last.perform (.calloc n size) = .ok reply ∧
        Decided "calloc" (last.usage.count.toNat + 1)
          (last.usage.total.toNat + n.toNat * size.toNat + descriptorSize.toNat)
          (last.groundOfNew n.toNat size.toNat) reply) ∧
      ∀ (block : Block) (n size : UInt64),
        ∃ reply, last.perform (.realloc block n size) = .ok reply ∧
          Decided "realloc" last.usage.count.toNat
            (last.usage.total.toNat - (last.sizeOf? block).getD 0 + n.toNat * size.toNat +
              descriptorSize.toNat) (last.groundOfResize block n.toNat size.toNat) reply ∧
          (∀ old, last.sizeOf? block = some old → old ≤ last.usage.total.toNat) ∧
          ∀ func count, reply.result ≠ .error (.tooManyBlocks func count) := by
  obtain ⟨last, replies, entries, hrun, hlast, -⟩ :=
    hc.run (fun _ _ _ => True) trivial (fun _ _ _ => trivial) ops
  refine ⟨last, replies, hrun, hlast.decided_malloc, hlast.decided_calloc, ?_⟩
  intro block n size
  obtain ⟨reply, hreply, hdecided⟩ := hlast.decided_realloc block n size
  exact ⟨reply, hreply, hdecided, fun old => hlast.sizeOf?_le,
    hdecided.ne_tooManyBlocks (last.groundOfResize_ne_blocks block _ _)⟩

/-- With as many blocks as there may be, no block is given out, but another size of one is. -/
theorem run_admits_full : ∃ c last replies refused given error handle,
    (Context.configured 7 .system ⟨some 1, 2⟩).1 = .ok c ∧
    c.run [.malloc 16, .calloc 2 4] = .ok (last, replies) ∧
    last.perform (.malloc 1) = .ok refused ∧ refused.result = .error error ∧
      Told "malloc" (.blocks 2) error ∧
    last.perform (.realloc ⟨7, 0, 1⟩ 4 8) = .ok given ∧ given.result = .ok (.block handle) ∧
      given.context.usage.count.toNat = 2 ∧ given.context.usage.total.toNat = 152 := by
  let ops : List (Operation Block) := [.malloc 16, .calloc 2 4]
  obtain ⟨c, hc⟩ : ∃ c, (Context.configured 7 .system ⟨some 1, 2⟩).1 = .ok c := ⟨_, rfl⟩
  obtain ⟨last, replies, hrun, hmalloc, -, hrealloc⟩ := run_admits (.configured hc) ops
  have hvalue : (c.run ops).map (fun p => (p.1.groundOfNew 1 1,
      p.1.groundOfResize ⟨7, 0, 1⟩ 4 8, p.1.sizeOf? ⟨7, 0, 1⟩, p.1.usage.count, p.1.usage.total)) =
      .ok (some (.blocks 2), none, some 72, 2, 136) := by
    cases hc
    decide +kernel
  rw [hrun] at hvalue
  simp only [Except.map, Except.ok.injEq, Prod.mk.injEq] at hvalue
  obtain ⟨hnew, hresize, hsize, hcount, htotal⟩ := hvalue
  obtain ⟨refused, hrefused, hdecided⟩ := hmalloc 1
  obtain ⟨given, hgiven, hdecided', -⟩ := hrealloc ⟨7, 0, 1⟩ 4 8
  rw [show (1 : UInt64).toNat = 1 from rfl, hnew] at hdecided
  rw [show (4 : UInt64).toNat = 4 from rfl, show (8 : UInt64).toNat = 8 from rfl, hresize, hsize,
    hcount, htotal] at hdecided'
  cases hdecided with
  | refused herror htold =>
    cases hdecided' with
    | given hhandle hcount' htotal' =>
      exact ⟨c, last, replies, refused, given, _, _, hc, hrun, hrefused, herror, htold, hgiven,
        hhandle, hcount', htotal'⟩

end Context

end MemoryLedger

