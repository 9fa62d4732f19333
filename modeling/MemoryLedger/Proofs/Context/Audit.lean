import MemoryLedger.Context.Audit
import MemoryLedger.Proofs.Context.Handle
import MemoryLedger.Proofs.Registry.Survey

/-!
# What an audit accepts

An audit accepts a context exactly if its list is well formed and the counters account for it,
however the context came about: nothing is assumed of the slots off the list, nor of the slots on it
but what the audit itself checks. As long as no link leads out of the slot table, all other contexts
are rejected with one and the same error.
-/

namespace MemoryLedger

namespace Context

variable {c : Context} {visited : List (Nat × Descriptor)}

/-- The list of the context comes to an end. It meets the slots of `visited`, which are different
and live and point each back to the one before, and the counters account for them. -/
structure Accounted (c : Context) (visited : List (Nat × Descriptor)) : Prop where
  leads : c.registry.Leads c.registry.head visited
  nodup : (visited.map Prod.fst).Nodup
  live : ∀ v ∈ visited, v.2.IsLive
  prev : ∀ before slot d after, visited = before ++ (slot, d) :: after →
    d.prev = (before.map Prod.fst).getLast?
  count : c.usage.count.toNat = visited.length
  total : c.usage.total.toNat = (visited.map fun v => v.2.size.toNat).sum
  countPeak : c.usage.count ≤ c.usage.countPeak
  totalPeak : c.usage.total ≤ c.usage.totalPeak

lemma Accounted.chains (h : c.Accounted visited) :
    c.registry.Chains none c.registry.head visited := by
  apply h.leads.chains h.live
  intro before slot d after hvisited
  rw [Option.or_none]
  exact h.prev before slot d after hvisited

/-- The list is well formed if it chains. -/
lemma accounted_of_chains (h : c.registry.Chains none c.registry.head visited)
    (hcount : c.usage.count.toNat = visited.length)
    (htotal : c.usage.total.toNat = Registry.span visited)
    (hcountPeak : c.usage.count ≤ c.usage.countPeak)
    (htotalPeak : c.usage.total ≤ c.usage.totalPeak) : c.Accounted visited where
  leads := h.leads
  nodup := h.nodup
  live := h.live
  prev := by
    intro before slot d after hvisited
    rw [h.prev_eq hvisited, Option.or_none]
  count := hcount
  total := htotal
  countPeak := hcountPeak
  totalPeak := htotalPeak

/-- An audit accepts a context if and only if its list is well formed and accounted for. -/
theorem audit_eq_ok_iff : c.audit = .ok (.ok ()) ↔ ∃ visited, c.Accounted visited := by
  constructor
  · intro h
    simp only [audit] at h
    obtain ⟨survey, hsurvey, h⟩ := bind_eq_ok_iff.mp h
    cases survey with
    | broken slot => cases h
    | tooLarge => cases h
    | intact n t =>
      simp only at h
      split at h
      next hmatch =>
        obtain ⟨visited, hchains, rfl, rfl, -⟩ := Registry.survey_eq_intact_iff.mp hsurvey
        obtain ⟨hcount, htotal, hcountPeak, htotalPeak⟩ := hmatch
        exact ⟨visited, accounted_of_chains hchains hcount.symm htotal.symm hcountPeak htotalPeak⟩
      next => cases h
  · rintro ⟨visited, h⟩
    have htotal : Registry.span visited = c.usage.total.toNat := h.total.symm
    have hbytes : Registry.span visited < 2 ^ 64 := htotal ▸ c.usage.total.toNat_lt
    have hsurvey := Registry.survey_eq_intact_iff.mpr ⟨visited, h.chains, rfl, rfl, hbytes⟩
    simp only [audit, hsurvey, ok_bind]
    rw [if_pos ⟨h.count.symm, htotal, h.countPeak, h.totalPeak⟩]

/-- An audit that comes to an answer accepts the context or rejects it with this one error. -/
lemma audit_eq_error {verdict : Except Rejection Unit} (h : c.audit = .ok verdict)
    (hverdict : verdict ≠ .ok ()) :
    ∃ events, verdict = .error ⟨.accounting "check_integrity", events⟩ := by
  simp only [audit] at h
  obtain ⟨survey, -, h⟩ := bind_eq_ok_iff.mp h
  cases survey with
  | broken slot =>
    cases h
    exact ⟨_, rfl⟩
  | tooLarge =>
    cases h
    exact ⟨_, rfl⟩
  | intact n t =>
    simp only at h
    split at h
    next =>
      cases h
      exact absurd rfl hverdict
    next =>
      cases h
      exact ⟨_, rfl⟩

lemma audit_rejection {r : Rejection} (h : c.audit = .ok (.error r)) :
    ∃ events, r = ⟨.accounting "check_integrity", events⟩ := by
  obtain ⟨events, hr⟩ := audit_eq_error h nofun
  exact ⟨events, Except.error.inj hr⟩

lemma audit_of_survey {survey : Registry.Survey} (h : c.registry.survey = .ok survey) :
    ∃ verdict, c.audit = .ok verdict := by
  simp only [audit, h, ok_bind]
  cases survey with
  | broken slot => exact ⟨_, rfl⟩
  | tooLarge => exact ⟨_, rfl⟩
  | intact n t =>
    simp only
    split
    · exact ⟨_, rfl⟩
    · exact ⟨_, rfl⟩

lemma audit_isOk (h : c.registry.Closed) : ∃ verdict, c.audit = .ok verdict := by
  obtain ⟨survey, hsurvey⟩ := h.survey
  exact audit_of_survey hsurvey

/-- The listing of a context that is accounted for shows as many blocks as the counters say, and
of as many bytes. -/
lemma Accounted.lists (h : c.Accounted visited) :
    ∃ infos, c.Lists infos ∧ infos.length = c.usage.count.toNat ∧
      (infos.map fun info => info.size.toNat).sum = c.usage.total.toNat := by
  refine ⟨_, lists_of_leads h.leads, ?_, ?_⟩
  · rw [List.length_map, h.count]
  · rw [List.map_map, h.total]
    rfl

/-- In whatever state a context is whose links stay in the slot table, an audit comes to an answer.
It accepts the context exactly if the list is well formed and accounted for, in which case the
listing ends by itself and agrees with the counters. -/
theorem audit_exact (h : c.registry.Closed) :
    ∃ verdict, c.audit = .ok verdict ∧
      (verdict = .ok () ↔ ∃ visited, c.Accounted visited) ∧
      (verdict = .ok () → ∃ infos, c.Lists infos ∧ infos.length = c.usage.count.toNat ∧
        (infos.map fun info => info.size.toNat).sum = c.usage.total.toNat) ∧
      (verdict ≠ .ok () → ∃ events, verdict = .error ⟨.accounting "check_integrity", events⟩) := by
  obtain ⟨verdict, hverdict⟩ := audit_isOk h
  have haccepts : verdict = .ok () ↔ ∃ visited, c.Accounted visited := by
    rw [← audit_eq_ok_iff, hverdict, Except.ok.injEq]
  refine ⟨verdict, hverdict, haccepts, ?_, audit_eq_error hverdict⟩
  intro hok
  obtain ⟨visited, hvisited⟩ := haccepts.mp hok
  exact hvisited.lists

/-- A context with two live slots, the second of which leads back to itself. -/
def looped : Context :=
  { create 7 .system with
    registry :=
      { slots :=
          #[{ tag := liveTag, generation := 1, size := 60, next := some 1 },
            { tag := liveTag, generation := 1, size := 60, prev := some 0, next := some 1 }]
        head := some 0 }
    usage := { count := 2, countPeak := 2, total := 120, totalPeak := 120 } }

lemma closed_looped : looped.registry.Closed where
  head := by
    rintro _ ⟨⟩
    decide
  next := by
    intro slot d hd n hn
    have hnext : d.next = some 1 := by
      obtain ⟨hlt, rfl⟩ := Array.getElem?_eq_some_iff.mp hd
      match slot, hlt with
      | 0, _ => rfl
      | 1, _ => rfl
    cases hnext.symm.trans hn
    decide

/-- The counters agree with the two slots, but the list does not end. -/
theorem audit_exact_looped : looped.registry.Closed ∧ (¬ ∃ visited, looped.Accounted visited) ∧
    ∃ events, looped.audit = .ok (.error ⟨.accounting "check_integrity", events⟩) := by
  obtain ⟨verdict, hverdict, haccepts, -, hrejects⟩ := audit_exact closed_looped
  have hvalue : looped.audit = .ok (.error ⟨.accounting "check_integrity",
      [.linksCorrupted "check_integrity" 1]⟩) := by decide +kernel
  cases hverdict.symm.trans hvalue
  obtain ⟨events, hevents⟩ := hrejects nofun
  refine ⟨closed_looped, ?_, events, hverdict.trans (congrArg Except.ok hevents)⟩
  intro haccounted
  cases haccepts.mpr haccounted

end Context

end MemoryLedger
