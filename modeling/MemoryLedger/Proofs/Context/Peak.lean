import Mathlib.Order.Bounds.Basic
import MemoryLedger.Proofs.Context.Run

/-!
# Peaks over a run

A peak is the greatest value that its counter had in any state since the context was created, where
states are what there is between operations. Each operation raises the peaks to the counters that it
leaves (`Usage.Raises`); what the counters are on the way, when a block that is resized is counted
neither in its old nor in its new size, does not matter.
-/

namespace MemoryLedger

/-- From `u` to `v` the peaks were raised to the counters, if these are higher, and else kept. -/
structure Usage.Raises (u v : Usage) : Prop where
  countPeak : v.countPeak.toNat = max u.countPeak.toNat v.count.toNat
  totalPeak : v.totalPeak.toNat = max u.totalPeak.toNat v.total.toNat

namespace Context

/-- What a counter was in some of the states. -/
def levels (counter : Usage → UInt64) (states : List Context) : Set Nat :=
  {n | ∃ c ∈ states, (counter c.usage).toNat = n}

variable {c c' : Context} {entries entries' : List Entry} {func : String} {block? : Option Block}
  {length : UInt64} {op : Operation Block}

/-! ### One operation -/

/-- As long as the counters do not grow, there is nothing to raise. -/
lemma Balanced.raises {usage : Usage} (h : c.Balanced entries)
    (hcount : usage.count.toNat ≤ c.usage.count.toNat)
    (htotal : usage.total.toNat ≤ c.usage.total.toNat)
    (hcountPeak : usage.countPeak = c.usage.countPeak)
    (htotalPeak : usage.totalPeak = c.usage.totalPeak) : c.usage.Raises usage where
  countPeak := by
    rw [hcountPeak, Nat.max_eq_left (Nat.le_trans hcount h.countPeak)]
  totalPeak := by
    rw [htotalPeak, Nat.max_eq_left (Nat.le_trans htotal h.totalPeak)]

lemma Balanced.raises_self (h : c.Balanced entries) : c.usage.Raises c.usage :=
  h.raises (Nat.le_refl _) (Nat.le_refl _) rfl rfl

lemma Served.raises {reply : Reply (Option Block)} (hc : c.Sound entries)
    (hs : Served c func entries block? length reply entries') :
    c.usage.Raises reply.context.usage := by
  cases hs with
  | refused | notGranted | notResized => exact hc.balanced.raises_self
  | freed _ hu =>
    obtain ⟨hcount, hcountPeak, htotal, htotalPeak⟩ := Usage.credit_eq_ok_iff.mp hu
    exact hc.balanced.raises (Nat.le_of_succ_le hcount.le) (htotal ▸ Nat.le_add_right _ _)
      hcountPeak htotalPeak
  | allocated _ _ hu =>
    obtain ⟨-, hcountPeak, -, htotalPeak⟩ := Usage.charge_eq_ok_iff.mp hu
    exact ⟨hcountPeak, htotalPeak⟩
  | resized _ _ _ _ _ hcredit hu =>
    -- the peaks are raised only once the new size is counted
    obtain ⟨-, hcredited, -, hcredited'⟩ := Usage.credit_eq_ok_iff.mp hcredit
    obtain ⟨-, hcountPeak, -, htotalPeak⟩ := Usage.charge_eq_ok_iff.mp hu
    exact ⟨hcredited ▸ hcountPeak, hcredited' ▸ htotalPeak⟩

/-- Each operation raises the peaks to the counters that it leaves. -/
theorem Performed.raises {reply : Reply Outcome} (hc : c.Sound entries)
    (hp : Performed c entries op reply entries') : c.usage.Raises reply.context.usage := by
  cases hp with
  | requested _ hs => exact hs.raises hc
  | _ => exact hc.balanced.raises_self

/-- A request with a handle does not make more blocks than there were. -/
lemma Served.count_le {reply : Reply (Option Block)} {block : Block}
    (hs : Served c func entries (some block) length reply entries') :
    reply.context.usage.count.toNat ≤ c.usage.count.toNat := by
  cases hs with
  | refused | notResized => exact Nat.le_refl _
  | freed _ hu =>
    obtain ⟨hcount, -⟩ := Usage.credit_eq_ok_iff.mp hu
    exact Nat.le_of_succ_le hcount.le
  | resized _ _ _ _ _ hcredit hu =>
    obtain ⟨hcredited, -⟩ := Usage.credit_eq_ok_iff.mp hcredit
    obtain ⟨hcount, -⟩ := Usage.charge_eq_ok_iff.mp hu
    exact (hcount.trans hcredited).le

/-- An operation that takes a handle out of use does not raise the peak of the number of blocks. -/
lemma Performed.countPeak_eq {reply : Reply Outcome} {block : Block} (hc : c.Sound entries)
    (hp : Performed c entries op reply entries') (hends : op.ends = some block) :
    reply.context.usage.countPeak = c.usage.countPeak := by
  have hcount : reply.context.usage.count.toNat ≤ c.usage.count.toNat := by
    cases hp with
    | @requested _ _ block? _ _ _ hop hs =>
      obtain rfl : block? = some block := hop.ends_eq.symm.trans hends
      exact hs.count_le
    | _ => exact Nat.le_refl _
  apply UInt64.toNat_inj.mp
  rw [(hp.raises hc).countPeak,
    Nat.max_eq_left (Nat.le_trans hcount hc.balanced.countPeak)]

/-! ### Runs -/

lemma levels_append (counter : Usage → UInt64) (states : List Context) (c : Context) :
    levels counter (states ++ [c]) = insert (counter c.usage).toNat (levels counter states) := by
  ext n
  simp only [levels, List.mem_append, List.mem_singleton, Set.mem_ofPred_eq, Set.mem_insert_iff]
  constructor
  · rintro ⟨c', hc' | rfl, rfl⟩
    · exact .inr ⟨c', hc', rfl⟩
    · exact .inl rfl
  · rintro (rfl | ⟨c', hc', rfl⟩)
    · exact ⟨c, .inr rfl, rfl⟩
    · exact ⟨c', .inl hc', rfl⟩

/-- The peaks of `c` are the greatest values that the counters had in the states. -/
structure Peaked (states : List Context) (c : Context) : Prop where
  count : IsGreatest (levels Usage.count states) c.usage.countPeak.toNat
  total : IsGreatest (levels Usage.total states) c.usage.totalPeak.toNat

lemma Peaked.append {states : List Context} (h : Peaked states c)
    (hraises : c.usage.Raises c'.usage) : Peaked (states ++ [c']) c' where
  count := by
    rw [levels_append, hraises.countPeak, max_comm]
    exact h.count.insert _
  total := by
    rw [levels_append, hraises.totalPeak, max_comm]
    exact h.total.insert _

/-- A new context has had no blocks yet. -/
lemma IsNew.usage_eq (hc : c.IsNew) : c.usage = {} := by
  cases hc with
  | plain => rfl
  | configured h =>
    rw [configured_eq_ok h]
    rfl

lemma IsNew.peaked (hc : c.IsNew) : Peaked [c] c := by
  have hzero : ∀ counter : Usage → UInt64, counter {} = 0 →
      IsGreatest (levels counter [c]) 0 := fun counter hcounter => by
    have hlevel : (counter c.usage).toNat = 0 := by
      rw [hc.usage_eq, hcounter]
      rfl
    have hlevels : levels counter [c] = {0} := by
      rw [← List.nil_append [c], levels_append, hlevel]
      simp [levels]
    rw [hlevels]
    exact isGreatest_singleton
  have husage := hc.usage_eq
  refine ⟨?_, ?_⟩
  · rw [husage]
    exact hzero Usage.count rfl
  · rw [husage]
    exact hzero Usage.total rfl

/-- After any run the peaks are the greatest values that the counters had in any state from the new
context on, which itself has no blocks. Whatever is done next raises the peaks to the counters that
it leaves, and keeps them if these are not higher; resizing a block leaves the peak of the number of
blocks. -/
theorem run_peaks (hc : c.IsNew) (ops : List (Operation Block)) :
    ∃ last replies, c.run ops = .ok (last, replies) ∧ c.usage = {} ∧
      IsGreatest (levels Usage.count (c :: replies.map Reply.context))
        last.usage.countPeak.toNat ∧
      IsGreatest (levels Usage.total (c :: replies.map Reply.context))
        last.usage.totalPeak.toNat ∧
      ∀ op, ∃ reply, last.perform op = .ok reply ∧
        last.usage.Raises reply.context.usage ∧
        last.usage.countPeak ≤ reply.context.usage.countPeak ∧
        last.usage.totalPeak ≤ reply.context.usage.totalPeak ∧
        ∀ block n size, op = .realloc block n size →
          reply.context.usage.countPeak = last.usage.countPeak := by
  obtain ⟨last, replies, entries, hrun, hlast, hpeaked⟩ :=
    hc.run (fun past c' _ => Peaked (c :: past.map fun p => p.2.context) c') hc.peaked
      (fun hc hpeaked hp => by
        rw [List.map_append, ← List.cons_append]
        exact hpeaked.append (hp.raises hc))
      ops
  have hstates : (ops.zip replies).map (fun p => p.2.context) = replies.map Reply.context := by
    have hreplies : (ops.zip replies).map Prod.snd = replies :=
      List.map_snd_zip (Nat.le_of_eq (length_of_run hrun))
    calc (ops.zip replies).map (fun p => p.2.context)
      _ = ((ops.zip replies).map Prod.snd).map Reply.context := by rw [List.map_map]; rfl
      _ = replies.map Reply.context := by rw [hreplies]
  rw [hstates] at hpeaked
  refine ⟨last, replies, hrun, hc.usage_eq, hpeaked.count, hpeaked.total, fun op => ?_⟩
  obtain ⟨reply, entries', hreply, hp⟩ :=
    perform_performed hlast.holds hlast.maxBlocks_le hlast.bytes_lt op
  have hraises := hp.raises hlast
  refine ⟨reply, hreply, hraises, ?_, ?_, ?_⟩
  · rw [UInt64.le_iff_toNat_le, hraises.countPeak]
    exact Nat.le_max_left _ _
  · rw [UInt64.le_iff_toNat_le, hraises.totalPeak]
    exact Nat.le_max_left _ _
  · rintro block n size rfl
    exact hp.countPeak_eq hlast rfl

/-- Of two blocks one is freed, and the other is made larger and then smaller again. -/
theorem run_peaks_resized : ∃ last replies,
    (create 7 .system).run [.malloc 16, .malloc 8, .free ⟨7, 0, 1⟩, .realloc ⟨7, 1, 1⟩ 4 32,
      .realloc ⟨7, 1, 2⟩ 1 4] = .ok (last, replies) ∧
    last.usage = { count := 1, countPeak := 2, total := 60, totalPeak := 184 } ∧
    IsGreatest (levels Usage.count (create 7 .system :: replies.map Reply.context)) 2 ∧
    IsGreatest (levels Usage.total (create 7 .system :: replies.map Reply.context)) 184 := by
  let ops : List (Operation Block) := [.malloc 16, .malloc 8, .free ⟨7, 0, 1⟩,
    .realloc ⟨7, 1, 1⟩ 4 32, .realloc ⟨7, 1, 2⟩ 1 4]
  obtain ⟨last, replies, hrun, -, hcount, htotal, -⟩ := run_peaks (.plain 7 .system) ops
  have hvalue : ((create 7 .system).run ops).map (fun p => p.1.usage) =
      .ok { count := 1, countPeak := 2, total := 60, totalPeak := 184 } := by decide +kernel
  rw [hrun] at hvalue
  have husage : last.usage = _ := Except.ok.inj hvalue
  rw [husage] at hcount htotal
  exact ⟨last, replies, hrun, husage, hcount, htotal⟩

end Context

end MemoryLedger
