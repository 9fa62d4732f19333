import Mathlib.Data.List.TakeDrop
import MemoryLedger.Proofs.Context.Issued
import MemoryLedger.Proofs.Context.Ownership
import MemoryLedger.Proofs.Region

/-!
# The contents of a run

`Contents` give each handle the text that its payload holds. They are kept by reading the operations
of a run and their replies: a write and a fill change the text of one handle, a resized block takes
the beginning of its text along, and nothing else changes a text. Only the bytes that a region
brings are taken from the payload, as they are found when the block is given out. The payloads of a
context always read as its contents say.
-/

namespace MemoryLedger

/-- The payload of a block, as it is read through its pointer. -/
def Context.payload (c : Context) (block : Block) : Option (List UInt8) :=
  match c.pointer block, c.payloadLength block with
  | .ok region, .ok (.ok length) =>
      (c.heap.regions region).bind fun r => r.read 0 length.toNat
  | _, _ => none

/-- The handle that an operation is about. -/
def Operation.subject : Operation Block → Option Block
  | .realloc block _ _ | .free block | .pointer block | .payloadLength block | .write block _ _
  | .fill block _ => some block
  | .request block _ => block
  | .malloc _ | .calloc .. | .setLimit _ | .audit => none

/-- The text of each live handle. -/
abbrev Contents := Block → Option (List UInt8)

namespace Contents

/-- The contents without a handle, if there is one. -/
def strike (contents : Contents) : Option Block → Contents
  | none => contents
  | some block => Function.update contents block none

/-- The contents with another text for a handle that has one. -/
def edit (contents : Contents) (block : Block) (f : List UInt8 → List UInt8) : Contents :=
  Function.update contents block ((contents block).map f)

/-- What a new block takes along of the text of the block that it replaces, if any. -/
def kept (contents : Contents) (old : Option Block) (length : Nat) : List UInt8 :=
  ((old.bind contents).getD []).take length

/-- The text of a new block, as long as it was asked for: what it takes along, and from there on
what is found in the payload. -/
def renewed (contents : Contents) (old : Option Block) (length : Nat) (found : List UInt8) :
    List UInt8 :=
  let kept := contents.kept old length
  kept ++ (found.drop kept.length).takeD (length - kept.length) 0

/-- The contents after an operation with its reply. -/
def update (contents : Contents) (op : Operation Block) (reply : Reply Outcome) : Contents :=
  match op, reply.result with
  | _, .error _ => contents
  | .write block offset bytes, .ok _ =>
      contents.edit block fun text => splice text offset.toNat bytes
  | .fill block byte, .ok _ =>
      contents.edit block fun text => List.replicate text.length byte
  | op, .ok (.block block) =>
      Function.update (contents.strike op.ends) block
        (some (contents.renewed op.ends op.length ((reply.context.payload block).getD [])))
  | op, .ok _ => contents.strike op.ends

/-- The contents after all that was done since the context was created. -/
def ofHistory (past : List (Operation Block × Reply Outcome)) : Contents :=
  past.foldl (fun contents p => contents.update p.1 p.2) fun _ => none

lemma ofHistory_append (past : List (Operation Block × Reply Outcome)) (op : Operation Block)
    (reply : Reply Outcome) :
    ofHistory (past ++ [(op, reply)]) = (ofHistory past).update op reply := by
  simp [ofHistory]

section

variable {contents : Contents} {op : Operation Block} {block : Block} {func : String}
  {block? : Option Block} {length : UInt64} {reply : Reply Outcome}

lemma update_of_error {error : AllocError} (hresult : reply.result = .error error) :
    contents.update op reply = contents := by
  cases op <;> simp only [update, hresult]

/-- A request that gives a handle out. -/
lemma update_of_block (hop : op.Requests func block? length)
    (hresult : reply.result = .ok (.block block)) :
    contents.update op reply = Function.update (contents.strike block?) block
      (some (contents.renewed block? length.toNat ((reply.context.payload block).getD []))) := by
  rw [← hop.ends_eq, hop.length_eq]
  cases hop <;> simp only [update, hresult]

/-- A request that frees. -/
lemma update_of_nothing (hop : op.Requests func block? length)
    (hresult : reply.result = .ok .nothing) :
    contents.update op reply = contents.strike block? := by
  rw [← hop.ends_eq]
  cases hop <;> simp only [update, hresult]

lemma strike_of_ne (h : block? ≠ some block) : contents.strike block? block = contents block := by
  cases block? with
  | none => rfl
  | some other => exact Function.update_of_ne (fun heq => h (congrArg some heq.symm)) _ _

/-- Only the text of the handle that an operation is about changes, and only if it succeeds; beside
it, there is a text for the handle that is given out. -/
lemma update_of_ne (hsubject : ∀ outcome, reply.result = .ok outcome → op.subject ≠ some block)
    (hissued : reply.issued ≠ some block) : contents.update op reply block = contents block := by
  obtain ⟨result, c, events⟩ := reply
  cases result with
  | error => rw [update_of_error rfl]
  | ok outcome =>
    have hsubject := hsubject outcome rfl
    have hends : op.ends ≠ some block := by
      cases op with
      | request block? => cases block? <;> exact hsubject
      | realloc | free => exact hsubject
      | _ => nofun
    have hstrike : contents.strike op.ends block = contents block := strike_of_ne hends
    cases op with
    | write other | fill other =>
      exact Function.update_of_ne (fun heq => hsubject (congrArg some heq.symm)) _ _
    | _ =>
      cases outcome with
      | block new =>
        have hnew : block ≠ new := fun heq => hissued (congrArg some heq.symm)
        exact (Function.update_of_ne hnew _ _).trans hstrike
      | _ => exact hstrike

/-- If what is found begins with what is taken along, nothing of it is replaced. -/
lemma renewed_of_take {n : Nat} {found : List UInt8} (hlength : found.length = n)
    (hkept : found.take (contents.kept block? n).length = contents.kept block? n) :
    contents.renewed block? n found = found := by
  simp only [renewed]
  rw [List.takeD_eq_take _ (by simp [hlength]), List.take_of_length_le (by simp [hlength])]
  nth_rewrite 1 [← hkept]
  exact List.take_append_drop _ _

end

end Contents

/-- The text of a block, in the region of its payload. -/
def Heap.text (heap : Heap) (e : Entry) : Option (List UInt8) :=
  (heap.regions e.payload).map fun r => r.first e.length.toNat

lemma Heap.text_of_eq {heap heap' : Heap} {e : Entry} (hregions : heap'.regions = heap.regions) :
    heap'.text e = heap.text e := by
  rw [text, text, hregions]

lemma Heap.text_of_update {heap heap' : Heap} {id : Nat} {region : Option Region} {e : Entry}
    (hregions : heap'.regions = Function.update heap.regions id region) (hne : e.payload ≠ id) :
    heap'.text e = heap.text e := by
  rw [text, text, hregions, Function.update_of_ne hne]

namespace Context

variable {c c' : Context} {entries entries' before after : List Entry} {e : Entry}
  {contents : Contents} {block : Block} {text : List UInt8}

/-! ### Contents of the blocks that a context holds -/

/-- The contents are the texts of the blocks under their handles, and no others. -/
structure Stores (c : Context) (entries : List Entry) (contents : Contents) : Prop where
  text : ∀ e ∈ entries, contents (e.handle c.id) = c.heap.text e
  live : ∀ block, contents block ≠ none → ∃ e ∈ entries, block = e.handle c.id

/-- The texts of the blocks are all that matters of a context. -/
lemma Stores.of_text (h : c.Stores entries contents) (hid : c'.id = c.id)
    (htext : ∀ e ∈ entries, c'.heap.text e = c.heap.text e) : c'.Stores entries contents where
  text := by
    intro e he
    rw [hid, h.text e he, htext e he]
  live := hid ▸ h.live

lemma Stores.strike (h : c.Stores (before ++ e :: after) contents)
    (hne : ∀ e' ∈ before ++ after, e'.handle c.id ≠ e.handle c.id) :
    c.Stores (before ++ after) (contents.strike (some (e.handle c.id))) where
  text := by
    intro e' he'
    rw [Contents.strike, Function.update_of_ne (hne e' he')]
    exact h.text e' (Registry.mem_append_cons_of_mem he')
  live := by
    intro block hblock
    by_cases heq : block = e.handle c.id
    · rw [Contents.strike, heq, Function.update_self] at hblock
      exact absurd rfl hblock
    · rw [Contents.strike, Function.update_of_ne heq] at hblock
      obtain ⟨e', he', rfl⟩ := h.live block hblock
      refine ⟨e', ?_, rfl⟩
      have hmem : e' ∈ e :: (before ++ after) := List.perm_middle.mem_iff.mp he'
      exact (List.mem_cons.mp hmem).resolve_left fun h' => heq (h' ▸ rfl)

lemma Stores.enter (h : c.Stores entries contents)
    (hne : ∀ e' ∈ entries, e'.handle c.id ≠ e.handle c.id) (htext : c.heap.text e = some text) :
    c.Stores (e :: entries) (Function.update contents (e.handle c.id) (some text)) where
  text := by
    intro e' he'
    rcases List.mem_cons.mp he' with rfl | he'
    · rw [Function.update_self, htext]
    · rw [Function.update_of_ne (hne e' he')]
      exact h.text e' he'
  live := by
    intro block hblock
    by_cases heq : block = e.handle c.id
    · exact ⟨e, List.mem_cons_self, heq⟩
    · rw [Function.update_of_ne heq] at hblock
      obtain ⟨e', he', rfl⟩ := h.live block hblock
      exact ⟨e', List.mem_cons_of_mem e he', rfl⟩

/-- Another text of one block is another text of its handle. -/
lemma Stores.edit {f : List UInt8 → List UInt8} (h : c.Stores (before ++ e :: after) contents)
    (hid : c'.id = c.id) (hne : ∀ e' ∈ before ++ after, e'.handle c.id ≠ e.handle c.id)
    (hself : c'.heap.text e = (c.heap.text e).map f)
    (hother : ∀ e' ∈ before ++ after, c'.heap.text e' = c.heap.text e') :
    c'.Stores (before ++ e :: after) (contents.edit (e.handle c.id) f) where
  text := by
    intro e' he'
    rw [hid, Contents.edit]
    rcases List.mem_cons.mp (List.perm_middle.mem_iff.mp he') with rfl | hmem
    · rw [Function.update_self, hself, h.text e' he']
    · rw [Function.update_of_ne (hne e' hmem), hother e' hmem]
      exact h.text e' he'
  live := by
    intro block hblock
    rw [hid]
    by_cases heq : block = e.handle c.id
    · exact ⟨e, by simp, heq⟩
    · rw [Contents.edit, Function.update_of_ne heq] at hblock
      exact h.live block hblock

/-! ### Payloads -/

variable {calls : List Heap.Call} {start heap : Heap} {func : String} {block? : Option Block}
  {length : UInt64} {op : Operation Block}

lemma Owned.exists_text (ho : Owned calls c.heap entries) (he : e ∈ entries) :
    ∃ region, c.heap.regions e.payload = some region ∧ e.length.toNat ≤ region.size ∧
      c.heap.text e = some (region.first e.length.toNat) := by
  obtain ⟨region, hregion, hsize⟩ := ho.region e he
  refine ⟨region, hregion, ?_, ?_⟩
  · rw [hsize]
    exact Nat.le_max_left _ _
  · rw [Heap.text, hregion, Option.map_some]

/-- The payload of a block reads as its text. -/
lemma payload_of_names (h : c.registry.Holds entries) (ho : Owned calls c.heap entries)
    (he : e ∈ entries) (hn : c.Names block e) : c.payload block = c.heap.text e := by
  obtain ⟨region, hregion, hle, htext⟩ := ho.exists_text he
  simp only [payload, pointer_of_names h he hn, payloadLength_of_names h he hn, hregion,
    Option.bind_some, Region.read_zero hle, htext]

/-- A new block has the text that it takes along and then what it finds, if it finds what it takes
along. -/
lemma Stores.renew {struck : Contents} (h : c.Stores entries struck)
    (hholds : c.registry.Holds (e :: entries)) (ho : Owned calls c.heap (e :: entries))
    (hsize : c.registry.slots.size ≤ 2 ^ 32)
    (hkept : ∀ text, c.heap.text e = some text →
      text.take (contents.kept block? e.length.toNat).length =
        contents.kept block? e.length.toNat) :
    c.Stores (e :: entries) (Function.update struck (e.handle c.id)
      (some (contents.renewed block? e.length.toNat
        ((c.payload (e.handle c.id)).getD [])))) := by
  obtain ⟨region, -, -, htext⟩ := ho.exists_text List.mem_cons_self
  have hname := (names_iff_eq_handle hholds hsize List.mem_cons_self).mpr rfl
  have hpayload := payload_of_names hholds ho List.mem_cons_self hname
  rw [hpayload, htext, Option.getD_some,
    Contents.renewed_of_take Region.length_first (hkept _ htext)]
  have hfirst : c.registry.Holds ([] ++ e :: entries) := hholds
  exact h.enter (fun e' he' => handle_ne_of_append hfirst hsize he') htext

/-- What is done to the region of a block is done to its text. -/
lemma Stores.edit_region {f : Region → Region} {g : List UInt8 → List UInt8}
    (h : c.Stores entries contents) (hholds : c.registry.Holds entries)
    (hsize : c.registry.slots.size ≤ 2 ^ 32) (ho : Owned calls c.heap entries) (he : e ∈ entries)
    (hf : ∀ r, (f r).first e.length.toNat = g (r.first e.length.toNat)) :
    (c.updateRegion e.payload f).Stores entries (contents.edit (e.handle c.id) g) := by
  obtain ⟨before, after, rfl⟩ := List.append_of_mem he
  have hregions := Heap.regions_update c.heap e.payload f
  refine h.edit rfl (fun e' => handle_ne_of_append hholds hsize) ?_ fun e' he' => ?_
  · obtain ⟨region, hregion, -, htext⟩ := ho.exists_text he
    rw [htext, updateRegion, Heap.text, hregions, Function.update_self, hregion]
    exact congrArg some (hf region)
  · exact Heap.text_of_update hregions (ho.payload_ne he')

/-! ### One operation -/

/-- A block that is resized finds the beginning of the text that it had. -/
lemma take_text_of_reallocate {heap' : Heap} {old : Entry} (h : c.Stores entries contents)
    (ho : Owned calls c.heap entries) (hold : old ∈ entries) (hpayload : e.payload = old.payload)
    (hheap : c.heap.reallocate old.payload (regionLength e.length) = (true, heap'))
    (htext : heap'.text e = some text) :
    text.take (contents.kept (some (old.handle c.id)) e.length.toNat).length =
      contents.kept (some (old.handle c.id)) e.length.toNat := by
  obtain ⟨region, hregion, hle, hwas⟩ := ho.exists_text hold
  obtain ⟨-, -, tail, hregions⟩ := Heap.reallocate_eq_true hheap
  have hkept : contents.kept (some (old.handle c.id)) e.length.toNat =
      region.first (min e.length.toNat old.length.toNat) := by
    simp [Contents.kept, h.text old hold, hwas, Region.take_first]
  rw [Heap.text, hregions, hpayload, Function.update_self, hregion] at htext
  obtain rfl := Option.some.inj htext
  rw [hkept, Region.length_first, Region.take_first]
  have hmin : min (min e.length.toNat old.length.toNat) e.length.toNat =
      min e.length.toNat old.length.toNat := by omega
  rw [hmin, Region.first_resize (by omega)]

lemma Served.stores {reply : Reply (Option Block)} (hc : c.Sound entries)
    (ho : Owes start c.heap entries) (hs : Served c func entries block? length reply entries')
    (hop : op.Requests func block? length) (hsize : reply.context.registry.slots.size ≤ 2 ^ 32)
    (h : c.Stores entries contents) :
    reply.context.Stores entries' (contents.update op (reply.map outcome)) := by
  have hsize' := Nat.le_trans (hs.follows hc.holds).size_le hsize
  obtain ⟨calls', -, howned'⟩ := hs.owes ho
  obtain ⟨calls, -, howned⟩ := ho
  have hholds' := (hs.sound hc).holds
  cases hs with
  | refused =>
    rw [Contents.update_of_error rfl]
    exact h
  | notGranted _ hheap =>
    rw [Contents.update_of_error rfl]
    obtain ⟨-, -, hregions⟩ := Heap.allocate_eq_none hheap
    exact h.of_text rfl fun e _ => Heap.text_of_eq hregions
  | notResized _ _ _ hheap =>
    rw [Contents.update_of_error rfl]
    obtain ⟨-, -, hregions⟩ := Heap.reallocate_eq_false hheap
    exact h.of_text rfl fun e _ => Heap.text_of_eq hregions
  | @freed before after e _ _ _ hname hu hr =>
    rw [Contents.update_of_nothing hop rfl,
      (names_iff_eq_handle hc.holds hsize' (by simp)).mp hname]
    refine (h.strike fun e' => handle_ne_of_append hc.holds hsize').of_text rfl fun e' he' => ?_
    exact Heap.text_of_update (Heap.regions_release ..) (howned.payload_ne he')
  | @allocated _ e registry usage heap hroom hheap hu hr =>
    rw [Contents.update_of_block hop rfl]
    obtain ⟨-, -, -, bytes, hregions⟩ := Heap.allocate_eq_some hheap
    have hfirst : Owned calls' heap ([] ++ e :: entries) := howned'
    refine Stores.renew (h.of_text rfl fun e' he' => ?_) hholds' howned' hsize ?_
    · exact Heap.text_of_update hregions (hfirst.payload_ne he')
    · simp [Contents.kept]
  | @resized before after old e _ _ _ _ heap hname _ _ hpayload hheap =>
    rw [Contents.update_of_block hop rfl,
      (names_iff_eq_handle hc.holds hsize' (by simp)).mp hname]
    obtain ⟨-, -, tail, hregions⟩ := Heap.reallocate_eq_true hheap
    have hstruck := h.strike fun e' => handle_ne_of_append hc.holds hsize'
    refine Stores.renew (hstruck.of_text rfl fun e' he' => ?_) hholds' howned' hsize ?_
    · exact Heap.text_of_update hregions (howned.payload_ne he')
    · intro text htext
      exact take_text_of_reallocate h howned (by simp) hpayload hheap htext

/-- Each operation keeps the contents in step with the payloads. -/
lemma Performed.stores {reply : Reply Outcome} (hc : c.Sound entries)
    (ho : Owes start c.heap entries) (hp : Performed c entries op reply entries')
    (hsize : reply.context.registry.slots.size ≤ 2 ^ 32) (h : c.Stores entries contents) :
    reply.context.Stores entries' (contents.update op reply) := by
  have hsize' := Nat.le_trans (hp.follows hc.holds).size_le hsize
  cases hp with
  | refused =>
    rw [Contents.update_of_error rfl]
    exact h
  | requested hop hs => exact hs.stores hc ho hop hsize h
  | limited | located | measured | audited => exact h.of_text rfl fun _ _ => rfl
  | @written _ e offset bytes he hname hrange =>
    obtain ⟨calls, -, ho⟩ := ho
    rw [(names_iff_eq_handle hc.holds hsize' he).mp hname]
    exact h.edit_region hc.holds hsize' ho he fun region => Region.first_overwrite hrange
  | @filled _ e byte he hname =>
    obtain ⟨calls, -, ho⟩ := ho
    rw [(names_iff_eq_handle hc.holds hsize' he).mp hname]
    refine h.edit_region hc.holds hsize' ho he fun region => ?_
    rw [Region.length_first]
    exact Region.first_fill

/-! ### Runs -/

/-- A block reads as `text`, which is as long as the block says; it takes exactly the writes that
lie within the text, and can always be filled. -/
structure Reads (c : Context) (block : Block) (text : List UInt8) : Prop where
  payload : c.payload block = some text
  payloadLength : ∃ length, c.payloadLength block = .ok (.ok length) ∧ length.toNat = text.length
  write : ∀ offset bytes, ∃ reply, c.perform (.write block offset bytes) = .ok reply ∧
    reply.result = if offset.toNat + bytes.length ≤ text.length then .ok .nothing else
      .error (.outOfBounds "write_at" offset bytes.length.toUInt64 text.length.toUInt64)
  fill : ∀ byte, ∃ reply, c.perform (.fill block byte) = .ok reply ∧ reply.result = .ok .nothing

/-- The text of a handle is that of a block which it names. -/
lemma Stores.exists_block (h : c.Stores entries contents) (hholds : c.registry.Holds entries)
    (hsize : c.registry.slots.size ≤ 2 ^ 32) (hblock : contents block = some text) :
    ∃ e ∈ entries, c.Names block e ∧ c.heap.text e = some text := by
  obtain ⟨e, he, rfl⟩ := h.live block (by simp [hblock])
  exact ⟨e, he, (names_iff_eq_handle hholds hsize he).mpr rfl, (h.text e he).symm.trans hblock⟩

lemma Stores.reads (h : c.Stores entries contents) (hholds : c.registry.Holds entries)
    (hsize : c.registry.slots.size ≤ 2 ^ 32) (ho : Owned calls c.heap entries)
    (hblock : contents block = some text) : c.Reads block text := by
  obtain ⟨e, he, hname, htext⟩ := h.exists_block hholds hsize hblock
  obtain ⟨region, -, -, hfirst⟩ := ho.exists_text he
  have hlength : e.length.toNat = text.length := by
    rw [Option.some.inj (htext.symm.trans hfirst), Region.length_first]
  have hword : text.length.toUInt64 = e.length := by
    rw [← hlength]
    exact UInt64.ofNat_toNat
  refine ⟨(payload_of_names hholds ho he hname).trans htext, ?_, ?_, ?_⟩
  · exact ⟨_, payloadLength_of_names hholds he hname, hlength⟩
  · intro offset bytes
    refine ⟨_, perform_write_of_names hholds he hname offset bytes, ?_⟩
    rw [hlength, hword]
    by_cases hrange : offset.toNat + bytes.length ≤ text.length
    · rw [if_pos hrange, if_neg (Nat.not_lt.mpr hrange)]
      rfl
    · rw [if_neg hrange, if_pos (Nat.lt_of_not_le hrange)]
      rfl
  · intro byte
    exact ⟨_, perform_fill_of_names hholds he hname byte, rfl⟩

lemma Stores.isSome_iff (h : c.Stores entries contents) (ho : Owned calls c.heap entries) :
    (contents block).isSome ↔
      ∃ info ∈ entries.map fun e => (⟨e.handle c.id, e.size⟩ : BlockInfo), info.block = block := by
  constructor
  · intro hsome
    obtain ⟨e, he, rfl⟩ := h.live block (Option.isSome_iff_ne_none.mp hsome)
    exact ⟨_, List.mem_map_of_mem he, rfl⟩
  · rintro ⟨info, hinfo, rfl⟩
    obtain ⟨e, he, rfl⟩ := List.mem_map.mp hinfo
    obtain ⟨region, -, -, htext⟩ := ho.exists_text he
    simp [h.text e he, htext]

/-- A handle that is given out is not that of a block that was there before. -/
lemma Performed.issued_ne {reply : Reply Outcome} (hc : c.Sound entries)
    (hp : Performed c entries op reply entries')
    (hsize : reply.context.registry.slots.size ≤ 2 ^ 32) (he : e ∈ entries)
    (hname : c.Names block e) : reply.issued ≠ some block := by
  intro hissued
  obtain ⟨-, hgen, -⟩ :=
    hp.issued_new (hp.sound hc).holds hsize (hp.follows hc.holds).id hissued
  rw [hname.generation, hname.slot, hc.holds.age_of_mem he] at hgen
  omega

/-- As long as slot numbers fit 32 bits, the handles that have a text after a run are those that the
listing shows, and each reads as its text. Whatever is done next, a block reads as before unless the
operation is about this block and succeeds. -/
theorem run_contents (hc : c.IsNew) (ops : List (Operation Block)) :
    ∃ last replies, c.run ops = .ok (last, replies) ∧
      (last.registry.slots.size ≤ 2 ^ 32 →
        (∃ infos, last.Lists infos ∧ ∀ block,
          (Contents.ofHistory (ops.zip replies) block).isSome ↔
            ∃ info ∈ infos, info.block = block) ∧
        ∀ block text, Contents.ofHistory (ops.zip replies) block = some text →
          last.Reads block text ∧
          ∀ op, ∃ reply, last.perform op = .ok reply ∧
            (reply.context.registry.slots.size ≤ 2 ^ 32 →
              (∀ outcome, reply.result = .ok outcome → op.subject ≠ some block) →
              reply.context.Reads block text)) := by
  obtain ⟨last, replies, entries, hrun, hlast, howes, hstores⟩ :=
    hc.run (fun past c' entries => Owes c.heap c'.heap entries ∧
        (c'.registry.slots.size ≤ 2 ^ 32 → c'.Stores entries (Contents.ofHistory past)))
      ⟨⟨[], by simp, owned_nil⟩, fun _ => ⟨nofun, fun _ h => absurd rfl h⟩⟩
      (fun {past c' _ _ _ _} hc' h hp => ⟨hp.owes h.1, fun hsize =>
        Contents.ofHistory_append past _ _ ▸
          hp.stores hc' h.1 hsize (h.2 (Nat.le_trans (hp.follows hc'.holds).size_le hsize))⟩)
      ops
  have ⟨_, _, howned⟩ := howes
  refine ⟨last, replies, hrun, fun hsize => ⟨?_, fun block text hblock => ⟨?_, fun op => ?_⟩⟩⟩
  · exact ⟨_, lists_of_holds hlast.holds, fun block => (hstores hsize).isSome_iff howned⟩
  · exact (hstores hsize).reads hlast.holds hsize howned hblock
  · obtain ⟨reply, entries', hreply, hp⟩ :=
      perform_performed hlast.holds hlast.maxBlocks_le hlast.bytes_lt op
    refine ⟨reply, hreply, fun hsize' hsubject => ?_⟩
    obtain ⟨e, he, hname, -⟩ := (hstores hsize).exists_block hlast.holds hsize hblock
    obtain ⟨calls', -, howned'⟩ := hp.owes howes
    refine (hp.stores hlast howes hsize' (hstores hsize)).reads (hp.sound hlast).holds hsize'
      howned' ?_
    rw [Contents.update_of_ne hsubject (hp.issued_ne hlast hsize' he hname), hblock]

/-- A block that is written to, cut short behind the first byte that was written, and then made
longer than it ever was. -/
theorem run_contents_regrown : ∃ last replies,
    (create 7 .system).run
      [.malloc 4, .write ⟨7, 0, 1⟩ 1 [1, 2], .realloc ⟨7, 0, 1⟩ 2 1, .realloc ⟨7, 0, 2⟩ 3 2] =
        .ok (last, replies) ∧
    last.Reads ⟨7, 0, 3⟩ [0xCD, 1, 0xCD, 0xCD, 0xCD, 0xCD] ∧
    ∃ reply, last.perform (.malloc 8) = .ok reply ∧
      reply.context.Reads ⟨7, 0, 3⟩ [0xCD, 1, 0xCD, 0xCD, 0xCD, 0xCD] := by
  let ops : List (Operation Block) :=
    [.malloc 4, .write ⟨7, 0, 1⟩ 1 [1, 2], .realloc ⟨7, 0, 1⟩ 2 1, .realloc ⟨7, 0, 2⟩ 3 2]
  obtain ⟨last, replies, hrun, hcontents⟩ := run_contents (.plain 7 .system) ops
  have hvalue : ((create 7 .system).run ops).bind (fun p => (p.1.perform (.malloc 8)).map fun r =>
      (p.1.registry.slots.size, Contents.ofHistory (ops.zip p.2) ⟨7, 0, 3⟩,
        r.context.registry.slots.size)) =
      .ok (1, some [0xCD, 1, 0xCD, 0xCD, 0xCD, 0xCD], 2) := by
    decide +kernel
  rw [hrun] at hvalue
  obtain ⟨reply, hreply, hvalue⟩ := map_eq_ok_iff.mp hvalue
  obtain ⟨hsize, htext, hsize'⟩ : last.registry.slots.size = 1 ∧
      Contents.ofHistory (ops.zip replies) ⟨7, 0, 3⟩ =
        some [0xCD, 1, 0xCD, 0xCD, 0xCD, 0xCD] ∧ reply.context.registry.slots.size = 2 := by
    simpa using hvalue
  obtain ⟨hreads, hnext⟩ := (hcontents (by simp [hsize])).2 _ _ htext
  obtain ⟨reply', hreply', hafter⟩ := hnext (.malloc 8)
  cases hreply.symm.trans hreply'
  exact ⟨last, replies, hrun, hreads, reply, hreply, hafter (by simp [hsize']) nofun⟩

end Context

end MemoryLedger
