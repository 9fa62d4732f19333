import MemoryLedger.Operation
import MemoryLedger.Proofs.Context.Rejection

/-!
# What an operation does

`Context.Performed` lists all that can come of an operation on a context that holds `entries`. The
operations that allocate, resize or free come to a request once their arguments are accepted; the
others leave the blocks as they are.
-/

namespace MemoryLedger

variable {c : Context} {entries : List Entry} {e : Entry} {block : Block} {func : String}

/-! ### Accepted arguments -/

/-- A product of two words is accepted if it is a word and neither factor is zero. -/
theorem Context.arrayLength_eq_ok_iff {n size length : UInt64} :
    Context.arrayLength func n size = .ok length ↔
      n ≠ 0 ∧ size ≠ 0 ∧ length.toNat = n.toNat * size.toNat := by
  have hpos : ∀ w : UInt64, w < 1 ↔ w = 0 := fun w => by
    rw [UInt64.lt_iff_toNat_lt, ← UInt64.toNat_inj]
    simp
  rw [Context.arrayLength]
  simp only [hpos]
  by_cases hn : n = 0
  · simp [hn]
  by_cases hs : size = 0
  · simp [hn, hs]
  have hs' : 0 < size.toNat := Nat.pos_of_ne_zero fun h => hs (UInt64.toNat_inj.mp h)
  have hbound : maxWord / size < n ↔ 0xFFFFFFFFFFFFFFFF < n.toNat * size.toNat := by
    rw [UInt64.lt_iff_toNat_lt, UInt64.toNat_div, toNat_maxWord, Nat.div_lt_iff_lt_mul hs']
  rw [if_neg hn, if_neg hs]
  by_cases hlarge : maxWord / size < n
  · rw [if_pos hlarge]
    have := length.toNat_lt
    simp only [reduceCtorEq, false_iff, not_and]
    intro _ _ heq
    have := hbound.mp hlarge
    omega
  · rw [if_neg hlarge]
    have hsmall := mt hbound.mpr hlarge
    have hmul : (n * size).toNat = n.toNat * size.toNat := by
      rw [UInt64.toNat_mul, Nat.mod_eq_of_lt (by omega)]
    rw [← hmul, UInt64.toNat_inj]
    simp [hn, hs, eq_comm]

/-- The length of an array is formed without a check, but is exact. -/
theorem Context.toNat_arrayLength {n size length : UInt64}
    (h : Context.arrayLength func n size = .ok length) :
    length.toNat = n.toNat * size.toNat :=
  (arrayLength_eq_ok_iff.mp h).2.2

lemma Context.arrayLength_ne_zero {n size length : UInt64}
    (h : Context.arrayLength func n size = .ok length) : length ≠ 0 := by
  rintro rfl
  obtain ⟨hn, hsize, hmul⟩ := arrayLength_eq_ok_iff.mp h
  rcases Nat.mul_eq_zero.mp hmul.symm with hzero | hzero
  · exact hn (UInt64.toNat_inj.mp hzero)
  · exact hsize (UInt64.toNat_inj.mp hzero)

/-- The request that an operation comes to once its arguments are accepted. -/
inductive Operation.Requests : Operation Block → String → Option Block → UInt64 → Prop where
  | malloc {size : UInt64} (hsize : size ≠ 0) : Requests (.malloc size) "malloc" none size
  | calloc {n size length : UInt64} (h : Context.arrayLength "calloc" n size = .ok length) :
      Requests (.calloc n size) "calloc" none length
  | realloc {block : Block} {n size length : UInt64}
      (h : Context.arrayLength "realloc" n size = .ok length) :
      Requests (.realloc block n size) "realloc" (some block) length
  | free {block : Block} : Requests (.free block) "free" (some block) 0
  | request {block : Option Block} {size : UInt64} :
      Requests (.request block size) "dma" block size

/-- The length that an operation asks for. -/
def Operation.length : Operation Block → Nat
  | .malloc size | .request _ size => size.toNat
  | .calloc n size | .realloc _ n size => n.toNat * size.toNat
  | _ => 0

/-- The handle that an operation takes out of use if it succeeds. -/
def Operation.ends : Operation Block → Option Block
  | .realloc block _ _ | .free block | .request (some block) _ => some block
  | _ => none

lemma Operation.Requests.length_eq {op : Operation Block} {block? : Option Block}
    {length : UInt64} (h : op.Requests func block? length) : length.toNat = op.length := by
  cases h with
  | malloc | free | request => rfl
  | calloc h => exact Context.toNat_arrayLength h
  | realloc h => exact Context.toNat_arrayLength h

lemma Operation.Requests.ends_eq {op : Operation Block} {block? : Option Block}
    {length : UInt64} (h : op.Requests func block? length) : op.ends = block? := by
  cases h with
  | malloc | calloc | realloc | free => rfl
  | request => cases block? <;> rfl

/-- The handle that an operation looks up once its other arguments are accepted, and the name of
the entry point that does so. -/
inductive Operation.LooksUp : Operation Block → String → Block → Prop where
  | realloc {block : Block} {n size length : UInt64}
      (h : Context.arrayLength "realloc" n size = .ok length) :
      LooksUp (.realloc block n size) "realloc" block
  | free {block : Block} : LooksUp (.free block) "free" block
  | request {block : Block} {size : UInt64} : LooksUp (.request (some block) size) "dma" block
  | pointer {block : Block} : LooksUp (.pointer block) "as_ptr" block
  | payloadLength {block : Block} : LooksUp (.payloadLength block) "payload_len" block
  | write {block : Block} {offset : UInt64} {bytes : List UInt8} :
      LooksUp (.write block offset bytes) "write_at" block
  | fill {block : Block} {byte : UInt8} : LooksUp (.fill block byte) "payload_len" block

namespace Context

/-! ### Access to payloads -/

lemma payloadLength_of_bare {d : Descriptor} (hbare : d.bare = e.descriptor) :
    d.payloadLength = .ok e.length := by
  have hsize : d.size = e.size := Entry.size_of_bare hbare
  rw [Descriptor.payloadLength, hsize]
  exact subChecked_eq_ok_iff.mpr e.toNat_size.symm

lemma payloadLength_of_names (h : c.registry.Holds entries) (he : e ∈ entries)
    (hn : c.Names block e) : c.payloadLength block = .ok (.ok e.length) := by
  obtain ⟨d, hd, hbare⟩ := locate_of_names h he hn "payload_len"
  simp only [payloadLength, hd, payloadLength_of_bare hbare, map_ok]

lemma pointer_of_names (h : c.registry.Holds entries) (he : e ∈ entries)
    (hn : c.Names block e) : c.pointer block = .ok e.payload := by
  obtain ⟨d, hd, hbare⟩ := locate_of_names h he hn "as_ptr"
  have hpayload : d.payload = some e.payload := Entry.payload_of_bare hbare
  simp only [pointer, hd, ok_bind, hpayload]

lemma accessRegion_of_names (h : c.registry.Holds entries) (he : e ∈ entries)
    (hn : c.Names block e) (func : String) (offset : UInt64) (length : Nat) :
    c.accessRegion func block offset length =
      if e.length.toNat < offset.toNat + length then
        .ok (.error ⟨.outOfBounds func offset length.toUInt64 e.length, []⟩)
      else .ok (.ok e.payload) := by
  obtain ⟨d, hd, hbare⟩ := locate_of_names h he hn func
  have hpayload : d.payload = some e.payload := Entry.payload_of_bare hbare
  simp only [accessRegion, hd, payloadLength_of_bare hbare, ok_bind, hpayload]

/-- A write is within the payload or refused. -/
lemma perform_write_of_names (h : c.registry.Holds entries) (he : e ∈ entries)
    (hn : c.Names block e) (offset : UInt64) (bytes : List UInt8) :
    c.perform (.write block offset bytes) = .ok
      (if e.length.toNat < offset.toNat + bytes.length then
        c.reject ⟨.outOfBounds "write_at" offset bytes.length.toUInt64 e.length, []⟩
      else
        (c.updateRegion e.payload fun r => r.overwrite offset.toNat bytes).answer .nothing) := by
  simp only [perform, write, accessRegion_of_names h he hn]
  split
  · rfl
  · rfl

lemma perform_fill_of_names (h : c.registry.Holds entries) (he : e ∈ entries)
    (hn : c.Names block e) (byte : UInt8) :
    c.perform (.fill block byte) = .ok
      ((c.updateRegion e.payload fun r => r.fill e.length.toNat byte).answer .nothing) := by
  have hrange : ¬ e.length.toNat < (0 : UInt64).toNat + e.length.toNat := by simp
  simp only [perform, fill, payloadLength_of_names h he hn, accessRegion_of_names h he hn,
    if_neg hrange, ok_bind, map_ok]
  rfl

/-! ### All that can come of an operation -/

/-- What a request gives, as the outcome of an operation. -/
def outcome (b : Option Block) : Outcome := b.elim .nothing .block

/-- What an operation answers, and the blocks that the context holds afterwards. -/
inductive Performed (c : Context) (entries : List Entry) :
    Operation Block → Reply Outcome → List Entry → Prop where
  | refused {op : Operation Block} {func : String} {r : Rejection} (hr : c.Rejects func r) :
      Performed c entries op (c.reject r) entries
  | requested {op : Operation Block} {func : String} {block : Option Block} {length : UInt64}
      {reply : Reply (Option Block)} {entries' : List Entry} (hop : op.Requests func block length)
      (hs : Served c func entries block length reply entries') :
      Performed c entries op (reply.map outcome) entries'
  | limited (megabytes : UInt64) :
      Performed c entries (.setLimit megabytes)
        ({ c with limit := bytesOfMegabytes megabytes }.answer .nothing) entries
  | located {block : Block} {e : Entry} (he : e ∈ entries) (hname : c.Names block e) :
      Performed c entries (.pointer block) (c.answer (.region e.payload)) entries
  | measured {block : Block} {e : Entry} (he : e ∈ entries) (hname : c.Names block e) :
      Performed c entries (.payloadLength block) (c.answer (.number e.length.toNat)) entries
  | written {block : Block} {e : Entry} {offset : UInt64} {bytes : List UInt8} (he : e ∈ entries)
      (hname : c.Names block e) (hrange : offset.toNat + bytes.length ≤ e.length.toNat) :
      Performed c entries (.write block offset bytes)
        ((c.updateRegion e.payload fun r => r.overwrite offset.toNat bytes).answer .nothing) entries
  | filled {block : Block} {e : Entry} {byte : UInt8} (he : e ∈ entries)
      (hname : c.Names block e) :
      Performed c entries (.fill block byte)
        ((c.updateRegion e.payload fun r => r.fill e.length.toNat byte).answer .nothing) entries
  | audited : Performed c entries .audit (c.answer .nothing) entries

/-! ### Operations that come to a request -/

variable {block? : Option Block} {length : UInt64} {reply : Reply (Option Block)}
  {entries' : List Entry}

/-- A request that cannot have freed gives the handle that its reply has. -/
lemma Served.map_handle (hs : Served c func entries block? length reply entries')
    (hkind : block? = none ∨ length ≠ 0) :
    (handle func reply).map Outcome.block = reply.map outcome := by
  cases hs with
  | freed => exact absurd rfl (hkind.resolve_left (by simp))
  | _ => rfl

lemma Served.map_unit (hs : Served c func entries (some block) length reply entries')
    (hzero : length = 0) :
    (⟨reply.result.map fun _ => (), reply.context, reply.events⟩ : Reply Unit).map
      (fun _ => Outcome.nothing) = reply.map outcome := by
  cases hs with
  | resized _ hne => exact absurd hzero hne
  | _ => rfl

/-- Once its arguments are accepted, an operation answers what its request answers. -/
lemma perform_of_requests {op : Operation Block} (hop : op.Requests func block? length)
    (hs : Served c func entries block? length reply entries')
    (hreply : c.request func block? length = .ok reply) :
    c.perform op = .ok (reply.map outcome) := by
  cases hop with
  | malloc hsize =>
    have hpos : ¬ length < 1 := fun h => hsize (by
      rw [UInt64.lt_iff_toNat_lt] at h
      exact UInt64.toNat_inj.mp (Nat.lt_one_iff.mp h))
    rw [perform, malloc, if_neg hpos, hreply, map_ok, map_ok, hs.map_handle (.inl rfl)]
  | calloc harray =>
    simp only [perform, calloc, harray, hreply, map_ok, hs.map_handle (.inl rfl)]
  | realloc harray =>
    have hne : length ≠ 0 := arrayLength_ne_zero harray
    simp only [perform, realloc, harray, hreply, map_ok, hs.map_handle (.inr hne)]
  | free =>
    simp only [perform, free, hreply, ok_bind, map_ok, hs.map_unit rfl]
  | request =>
    simp only [perform, hreply, map_ok]
    rfl

/-! ### Operations with a handle that names no block -/

/-- An operation whose handle is not accepted is refused as an invalid pointer. -/
theorem perform_of_locate {op : Operation Block}
    (hlocate : ∀ func, c.locate func block = .error (.stale func block))
    (hop : op.LooksUp func block) : c.perform op = .ok (c.reject (.stale func block)) := by
  have hrequest : ∀ func length, c.request func (some block) length =
      .ok (c.reject (.stale func block)) := fun func length => by
    simp only [request, plan, hlocate, error_bind]
  cases hop with
  | realloc harray =>
    simp only [perform, realloc, harray, hrequest, map_ok]
    rfl
  | free =>
    simp only [perform, free, hrequest, ok_bind, map_ok]
    rfl
  | request =>
    simp only [perform, hrequest, map_ok]
    rfl
  | pointer =>
    simp only [perform, pointer, hlocate, error_bind]
    rfl
  | payloadLength =>
    simp only [perform, payloadLength, hlocate, ok_bind]
    rfl
  | write =>
    simp only [perform, write, accessRegion, hlocate, ok_bind, map_ok]
    rfl
  | fill =>
    simp only [perform, fill, payloadLength, hlocate, ok_bind, map_ok]
    rfl

theorem perform_of_stale {op : Operation Block} (h : c.registry.Holds entries)
    (hn : ∀ e ∈ entries, ¬ c.Names block e) (hop : op.LooksUp func block) :
    c.perform op = .ok (c.reject (.stale func block)) :=
  perform_of_locate (locate_of_forall_not_names h hn) hop

/-! ### Every operation has an outcome -/

/-- An operation that looks a handle up has an outcome, if it has one when the handle names a
block. -/
lemma performed_of_looksUp {op : Operation Block} (h : c.registry.Holds entries)
    (hop : op.LooksUp func block)
    (hnamed : ∀ e ∈ entries, c.Names block e →
      ∃ reply entries', c.perform op = .ok reply ∧ Performed c entries op reply entries') :
    ∃ reply entries', c.perform op = .ok reply ∧ Performed c entries op reply entries' := by
  by_cases hn : ∃ e ∈ entries, c.Names block e
  · obtain ⟨e, he, hname⟩ := hn
    exact hnamed e he hname
  · have hn' : ∀ e ∈ entries, ¬ c.Names block e := fun e he hname => hn ⟨e, he, hname⟩
    exact ⟨_, _, perform_of_stale h hn' hop, .refused (.stale block)⟩

lemma performed_of_requests {op : Operation Block} (h : c.registry.Holds entries)
    (hmax : c.maxBlocks ≤ maxBlocksCeiling) (hop : op.Requests func block? length) :
    ∃ reply entries', c.perform op = .ok reply ∧ Performed c entries op reply entries' := by
  obtain ⟨reply, entries', hreply, hs⟩ := request_served h hmax func block? length
  exact ⟨_, _, perform_of_requests hop hs hreply, .requested hop hs⟩

lemma performed_of_audit {verdict : Except Rejection Unit} (hverdict : c.audit = .ok verdict) :
    ∃ reply entries', c.perform .audit = .ok reply ∧
      Performed c entries .audit reply entries' := by
  simp only [perform, hverdict, ok_bind]
  cases verdict with
  | ok _ => exact ⟨_, _, rfl, .audited⟩
  | error r => exact ⟨_, _, rfl, .refused (.audit hverdict)⟩

lemma performed_audit (h : c.registry.Holds entries)
    (hbytes : Registry.bytes entries < 2 ^ 64) :
    ∃ reply entries', c.perform .audit = .ok reply ∧
      Performed c entries .audit reply entries' := by
  obtain ⟨verdict, hverdict⟩ := audit_of_survey (h.survey hbytes)
  exact performed_of_audit hverdict

/-- An operation other than an audit has an outcome, whatever the counters say. -/
lemma performed_of_ne_audit (h : c.registry.Holds entries) (hmax : c.maxBlocks ≤ maxBlocksCeiling)
    {op : Operation Block} (haudit : op ≠ .audit) :
    ∃ reply entries', c.perform op = .ok reply ∧ Performed c entries op reply entries' := by
  cases op with
  | malloc size =>
    by_cases hsize : size = 0
    · subst hsize
      have hr : c.Rejects "malloc" ⟨.invalidParameter "malloc" "size" 0, []⟩ := .parameter _ _
      exact ⟨_, _, rfl, .refused hr⟩
    · exact performed_of_requests h hmax (.malloc hsize)
  | calloc n size =>
    cases harray : arrayLength "calloc" n size with
    | error r =>
      refine ⟨_, _, ?_, .refused (arrayLength_rejects harray)⟩
      simp only [perform, calloc, harray, map_ok]
      rfl
    | ok length => exact performed_of_requests h hmax (.calloc harray)
  | realloc block n size =>
    cases harray : arrayLength "realloc" n size with
    | error r =>
      refine ⟨_, _, ?_, .refused (arrayLength_rejects harray)⟩
      simp only [perform, realloc, harray, map_ok]
      rfl
    | ok length => exact performed_of_requests h hmax (.realloc harray)
  | free block => exact performed_of_requests h hmax .free
  | request block size => exact performed_of_requests h hmax .request
  | setLimit megabytes =>
    by_cases hpos : megabytes < 1
    · have hlimit : c.setLimit megabytes =
          .error (.invalidParameter "mem_limit" "limit" megabytes) := if_pos hpos
      exact ⟨_, _, by simp only [perform, hlimit], .refused (setLimit_rejects hlimit)⟩
    · exact ⟨_, _, by simp only [perform, setLimit, if_neg hpos], .limited megabytes⟩
  | pointer block =>
    refine performed_of_looksUp h .pointer fun e he hname => ⟨_, _, ?_, .located he hname⟩
    simp only [perform, pointer_of_names h he hname]
    rfl
  | payloadLength block =>
    refine performed_of_looksUp h .payloadLength fun e he hname => ⟨_, _, ?_, .measured he hname⟩
    simp only [perform, payloadLength_of_names h he hname, ok_bind]
    rfl
  | write block offset bytes =>
    refine performed_of_looksUp h .write fun e he hname => ?_
    rw [perform_write_of_names h he hname]
    split
    next => exact ⟨_, _, rfl, .refused (.bounds _ _ _)⟩
    next hrange => exact ⟨_, _, rfl, .written he hname (Nat.le_of_not_lt hrange)⟩
  | fill block byte =>
    refine performed_of_looksUp h .fill fun e he hname => ?_
    exact ⟨_, _, perform_fill_of_names h he hname byte, .filled he hname⟩
  | audit => exact absurd rfl haudit

/-- An operation on a context that holds its blocks has an outcome, as far as the bytes of the
blocks can be summed up. -/
theorem perform_performed (h : c.registry.Holds entries) (hmax : c.maxBlocks ≤ maxBlocksCeiling)
    (hbytes : Registry.bytes entries < 2 ^ 64) (op : Operation Block) :
    ∃ reply entries', c.perform op = .ok reply ∧ Performed c entries op reply entries' := by
  by_cases haudit : op = .audit
  · subst haudit
    exact performed_audit h hbytes
  · exact performed_of_ne_audit h hmax haudit

end Context

end MemoryLedger
