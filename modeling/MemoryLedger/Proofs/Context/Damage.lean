import MemoryLedger.Command
import MemoryLedger.Proofs.Context.Consistency
import MemoryLedger.Proofs.Registry.Damage

/-!
# An audit finds every single fault

In a context that was reached by a run, what the audit follows and sums up cannot be wrong in one
place alone: let one counter, the head of the list, or the tag, the size or a link of a slot on the
list be overwritten with anything else, and the audit fails. A peak alone may be too high without
being noticed, but not too low.
-/

namespace MemoryLedger

/-- The change writes into a slot that holds `d` what does not stand there, where a link ahead stays
in a table of `size` slots. -/
inductive SlotChange.Harms (size : Nat) (d : Descriptor) : SlotChange → Prop where
  | tag {value : UInt32} (h : value ≠ d.tag) : Harms size d (.tag value)
  | size {value : UInt64} (h : value ≠ d.size) : Harms size d (.size value)
  | prev {value : Option Nat} (h : value ≠ d.prev) : Harms size d (.prev value)
  | next {value : Option Nat} (h : value ≠ d.next) (hrange : ∀ n, value = some n → n < size) :
      Harms size d (.next value)

/-- The tampering overwrites a counter, a peak or a slot on the list with something wrong. -/
inductive Tampering.Harms (c : Context) : Tampering → Prop where
  | count {value : UInt64} (h : value ≠ c.usage.count) : Harms c (.count value)
  | total {value : UInt64} (h : value ≠ c.usage.total) : Harms c (.total value)
  | countPeak {value : UInt64} (h : value < c.usage.count) : Harms c (.countPeak value)
  | totalPeak {value : UInt64} (h : value < c.usage.total) : Harms c (.totalPeak value)
  | slot {visited : List (Nat × Descriptor)} {slot : Nat} {d : Descriptor} {change : SlotChange}
      (hleads : c.registry.Leads c.registry.head visited) (hmem : (slot, d) ∈ visited)
      (h : change.Harms c.registry.slots.size d) : Harms c (.slot slot change)

namespace Context

/-- The audit comes to an answer, which is that the bookkeeping is broken. -/
def Condemned (c : Context) : Prop :=
  ∃ events, c.audit = .ok (.error ⟨.accounting "check_integrity", events⟩)

variable {c : Context} {entries : List Entry} {visited visited' seen rest : List (Nat × Descriptor)}
  {slot : Nat} {d : Descriptor} {f : Descriptor → Descriptor}

lemma condemned_of_not_accounted (hclosed : c.registry.Closed)
    (h : ∀ visited, ¬ c.Accounted visited) : c.Condemned := by
  obtain ⟨verdict, hverdict⟩ := audit_isOk hclosed
  have hne : verdict ≠ .ok () := by
    rintro rfl
    obtain ⟨visited, hvisited⟩ := audit_eq_ok_iff.mp hverdict
    exact h visited hvisited
  obtain ⟨events, rfl⟩ := audit_eq_error hverdict hne
  exact ⟨events, hverdict⟩

/-! ### Counters -/

/-- With the list as it was, the counters are what they were. -/
lemma Accounted.counters_eq {usage : Usage} (h : c.Accounted visited)
    (h' : ({ c with usage } : Context).Accounted visited') :
    usage.count = c.usage.count ∧ usage.total = c.usage.total := by
  have hcount' : usage.count.toNat = visited'.length := h'.count
  have htotal' : usage.total.toNat = (visited'.map fun v => v.2.size.toNat).sum := h'.total
  cases h.leads.unique h'.leads
  exact ⟨UInt64.toNat_inj.mp (hcount'.trans h.count.symm),
    UInt64.toNat_inj.mp (htotal'.trans h.total.symm)⟩

lemma Sound.condemned_of_usage {usage : Usage} (hc : c.Sound entries)
    (h : usage.count = c.usage.count → usage.total = c.usage.total →
      usage.count ≤ usage.countPeak → ¬ usage.total ≤ usage.totalPeak) :
    ({ c with usage } : Context).Condemned := by
  obtain ⟨visited, hvisited⟩ := audit_eq_ok_iff.mp hc.audit
  refine condemned_of_not_accounted hc.holds.closed fun visited' h' => ?_
  obtain ⟨hcount, htotal⟩ := hvisited.counters_eq h'
  exact h hcount htotal h'.countPeak h'.totalPeak

/-! ### The head and the slots on the list -/

/-- A list in which only links ahead were overwritten has the links that it had. -/
lemma Sound.links_eq {registry : Registry} (hc : c.Sound entries)
    (hback : c.registry.SameBack registry)
    (h : ({ c with registry } : Context).Accounted visited) :
    registry.head = c.registry.head ∧ ∀ slot d d', slot ∈ entries.map Entry.slot →
      c.registry.slots[slot]? = some d → registry.slots[slot]? = some d' → d'.next = d.next :=
  hc.holds.links_of_chains hback h.chains (h.count.symm.trans hc.balanced.count)

lemma Sound.condemned_of_head {head : Option Nat} (hc : c.Sound entries)
    (hne : head ≠ c.registry.head) (hrange : ∀ n, head = some n → n < c.registry.slots.size) :
    ({ c with registry.head := head } : Context).Condemned := by
  have hclosed := hc.holds.closed
  have hback : c.registry.SameBack { c.registry with head } := .refl c.registry
  refine condemned_of_not_accounted ⟨hrange, hclosed.next⟩ fun visited h => ?_
  exact hne (hc.links_eq hback h).1

/-- With its link ahead as it was, a slot that was changed is met where it was met before. -/
lemma Accounted.visited_eq (h : c.Accounted (seen ++ (slot, d) :: rest))
    (hf : (f d).next = d.next)
    (h' : ({ c with registry.slots := c.registry.slots.modify slot f } : Context).Accounted
      visited) : visited = seen ++ (slot, f d) :: rest :=
  (h.leads.modify h.nodup hf).unique h'.leads

/-- With its link ahead as it was, a slot has the tag, the size and the link back that it had. -/
lemma Accounted.slot_eq (h : c.Accounted (seen ++ (slot, d) :: rest)) (hf : (f d).next = d.next)
    (h' : ({ c with registry.slots := c.registry.slots.modify slot f } : Context).Accounted
      visited) : (f d).tag = d.tag ∧ (f d).size = d.size ∧ (f d).prev = d.prev := by
  cases h.visited_eq hf h'
  refine ⟨?_, ?_, ?_⟩
  · have hlive : d.tag = liveTag := h.live (slot, d) (by simp)
    have hlive' : (f d).tag = liveTag := h'.live (slot, f d) (by simp)
    exact hlive'.trans hlive.symm
  · -- the other slots have the same bytes before and after
    have htotal := h.total
    have htotal' : c.usage.total.toNat = _ := h'.total
    simp only [List.map_append, List.map_cons, List.sum_append, List.sum_cons] at htotal htotal'
    apply UInt64.toNat_inj.mp
    omega
  · exact (h'.prev _ _ _ _ rfl).trans (h.prev _ _ _ _ rfl).symm

/-- A slot on the list does not hold what it did not hold before. -/
lemma Sound.condemned_of_slot {change : SlotChange} (hc : c.Sound entries)
    (hleads : c.registry.Leads c.registry.head visited) (hmem : (slot, d) ∈ visited)
    (hharm : change.Harms c.registry.slots.size d) :
    ({ c with registry.slots := c.registry.slots.modify slot change.apply } :
      Context).Condemned := by
  obtain ⟨visited', haccounted⟩ := audit_eq_ok_iff.mp hc.audit
  cases hleads.unique haccounted.leads
  obtain ⟨seen, rest, rfl⟩ := List.append_of_mem hmem
  have hd : c.registry.slots[slot]? = some d := hleads.getElem?_of_mem hmem
  have hclosed := hc.holds.closed
  have hnext : ∀ d', c.registry.slots[slot]? = some d' →
      ∀ n, d'.next = some n → n < c.registry.slots.size := fun d' => hclosed.next slot d'
  cases hharm with
  | tag hne =>
    refine condemned_of_not_accounted (hclosed.modify hnext) fun visited h => ?_
    exact hne (haccounted.slot_eq rfl h).1
  | size hne =>
    refine condemned_of_not_accounted (hclosed.modify hnext) fun visited h => ?_
    exact hne (haccounted.slot_eq rfl h).2.1
  | prev hne =>
    refine condemned_of_not_accounted (hclosed.modify hnext) fun visited h => ?_
    exact hne (haccounted.slot_eq rfl h).2.2
  | @next value hne hrange =>
    refine condemned_of_not_accounted (hclosed.modify fun _ _ => hrange) fun visited h => ?_
    have hslot : slot ∈ entries.map Entry.slot :=
      hc.holds.mem_slots_iff.mpr ⟨d, hd, haccounted.live (slot, d) hmem⟩
    have hback : c.registry.SameBack
        { c.registry with slots := c.registry.slots.modify slot (SlotChange.next value).apply } :=
      Registry.sameBack_modify fun _ => ⟨rfl, rfl⟩
    refine hne ((hc.links_eq hback h).2 slot d { d with next := value } hslot hd ?_)
    show (c.registry.slots.modify slot _)[slot]? = _
    rw [Array.getElem?_modify, if_pos rfl, hd]
    rfl

/-! ### Runs -/

/-- A single fault in a sound context is found. -/
theorem Sound.condemned_of_tamper {change : Tampering} (hc : c.Sound entries)
    (hharm : change.Harms c) : ∃ damaged, c.tamper change = .ok damaged ∧ damaged.Condemned := by
  cases hharm with
  | count hne => exact ⟨_, rfl, hc.condemned_of_usage fun hcount => absurd hcount hne⟩
  | total hne => exact ⟨_, rfl, hc.condemned_of_usage fun _ htotal => absurd htotal hne⟩
  | countPeak hlt =>
    exact ⟨_, rfl, hc.condemned_of_usage fun _ _ hle => absurd hlt (UInt64.not_lt.mpr hle)⟩
  | totalPeak hlt =>
    exact ⟨_, rfl, hc.condemned_of_usage fun _ _ _ hle => absurd hlt (UInt64.not_lt.mpr hle)⟩
  | @slot _ slot d change hleads hmem hharm =>
    have hlt : slot < c.registry.slots.size :=
      (Array.getElem?_eq_some_iff.mp (hleads.getElem?_of_mem hmem)).1
    refine ⟨_, ?_, hc.condemned_of_slot hleads hmem hharm⟩
    rw [tamper, Registry.modify_of_lt hlt, ok_bind]

/-- After any run an audit accepts the context, and it finds every single fault: any other value of
the number of blocks or of the total, a peak below one of these, another head, and any other tag,
size or link of a slot on the list, where what is followed stays in the slot table. -/
theorem run_detects (hc : c.IsNew) (ops : List (Operation Block)) :
    ∃ last replies, c.run ops = .ok (last, replies) ∧ last.audit = .ok (.ok ()) ∧
      (∀ change, Tampering.Harms last change →
        ∃ damaged, last.tamper change = .ok damaged ∧ damaged.Condemned) ∧
      ∀ head, head ≠ last.registry.head → (∀ n, head = some n → n < last.registry.slots.size) →
        ({ last with registry.head := head } : Context).Condemned := by
  obtain ⟨last, replies, entries, hrun, hlast⟩ := hc.run_sound ops
  exact ⟨last, replies, hrun, hlast.audit, fun _ => hlast.condemned_of_tamper,
    fun _ => hlast.condemned_of_head⟩

/-- The older of two blocks is linked back to the newer one, and then the list starts with it. -/
theorem run_detects_relinked : ∃ last replies damaged,
    (create 7 .system).run [.malloc 16, .malloc 8] = .ok (last, replies) ∧
    last.tamper (.slot 0 (.next (some 1))) = .ok damaged ∧ damaged.Condemned ∧
    ({ last with registry.head := some 0 } : Context).Condemned := by
  obtain ⟨last, replies, hrun, -, htamper, hhead⟩ :=
    run_detects (.plain 7 .system) [.malloc 16, .malloc 8]
  have hvalue : ((create 7 .system).run [.malloc 16, .malloc 8]).map (fun p => p.1.registry) =
      .ok
        { slots :=
            #[{ tag := liveTag, generation := 1, size := 72, prev := some 1, payload := some 1 },
              { tag := liveTag, generation := 1, size := 64, next := some 0, payload := some 2 }]
          head := some 1 } := by decide +kernel
  rw [hrun] at hvalue
  have hregistry : last.registry = _ := Except.ok.inj hvalue
  obtain ⟨visited, d, hleads, hmem, hnext⟩ : ∃ visited d,
      last.registry.Leads last.registry.head visited ∧ (0, d) ∈ visited ∧ d.next = none := by
    rw [hregistry]
    exact ⟨_, _, .step rfl (.step rfl .done), List.mem_cons_of_mem _ List.mem_cons_self, rfl⟩
  have hharm : Tampering.Harms last (.slot 0 (.next (some 1))) :=
    .slot hleads hmem (.next (by simp [hnext]) (by simp [hregistry]))
  obtain ⟨damaged, hdamaged, hcondemned⟩ := htamper _ hharm
  refine ⟨last, replies, damaged, hrun, hdamaged, hcondemned, hhead (some 0) ?_ ?_⟩
  · rw [hregistry]
    decide
  · rw [hregistry]
    decide

end Context

end MemoryLedger
