import MemoryLedger.Proofs.Context.Identity
import MemoryLedger.Session.Basic

/-!
# Where the handles of a session come from

The contexts of a session are told apart by their ids alone. An id is a 32-bit word that is counted
up; so the first `2 ^ 32` contexts have different ids, and none of them accepts a handle that
another one gave out. The context after these has the id of the first one again.
-/

namespace MemoryLedger

/-- The id of a context that is started after `n` others. -/
def idAfter (n : Nat) : UInt32 := UInt32.ofNat (n + 1)

lemma idAfter_succ (n : Nat) : idAfter n + 1 = idAfter (n + 1) := by
  rw [idAfter, idAfter, UInt32.ofNat_add (n + 1) 1]
  rfl

lemma idAfter_inj {j k : Nat} (hj : j < 2 ^ 32) (hk : k < 2 ^ 32) (h : idAfter j = idAfter k) :
    j = k := by
  have hmod : (j + 1) % 2 ^ 32 = (k + 1) % 2 ^ 32 := by
    simpa [idAfter] using congrArg UInt32.toNat h
  omega

def Step.isStart : Step → Bool
  | .start .. => true
  | _ => false

namespace Session

/-- The id of the context of this name, if there is one. -/
def idOf (s : Session) (name : String) : Option UInt32 :=
  (s.members.lookup name).map fun m => m.context.id

variable {s s' : Session} {name : String} {m : Member} {step : Step} {answer : Answer}

/-! ### Contexts that come and go -/

lemma lookup_filter_ne {α : Type} (members : List (String × α)) (name name' : String) :
    (members.filter fun m => m.1 ≠ name).lookup name' =
      if name' = name then none else members.lookup name' := by
  induction members with
  | nil => simp
  | cons m members ih =>
    by_cases hm : m.1 = name
    · rw [List.filter_cons_of_neg (by simpa using hm), ih]
      split
      next => rfl
      next hne => rw [List.lookup_cons, beq_false_of_ne (hm ▸ hne)]
    · rw [List.filter_cons_of_pos (by simpa using hm), List.lookup_cons, List.lookup_cons, ih]
      split
      next heq => rw [if_neg ((beq_iff_eq.mp heq) ▸ hm)]
      next => rfl

lemma idOf_removeMember : (s.removeMember name).idOf = Function.update s.idOf name none := by
  funext name'
  rw [idOf, removeMember, lookup_filter_ne, Function.update_apply]
  split <;> rfl

lemma idOf_putMember :
    (s.putMember name m).idOf = Function.update s.idOf name (some m.context.id) := by
  funext name'
  rw [Function.update_apply]
  by_cases h : name' = name
  · simp [idOf, putMember, h]
  · rw [if_neg h, idOf, putMember, List.lookup_cons, beq_false_of_ne h, removeMember,
      lookup_filter_ne, if_neg h]
    rfl

/-! ### All that can come of a step -/

/-- What a step does to the contexts and their ids, and what its answer tells of them. -/
inductive Stepped (s : Session) : Step → Session → Answer → Prop where
  | declined {name : String} {heap : HeapChoice} {setup : Setup} {s' : Session} {answer : Answer}
      {failure : Failure} (hids : s'.idOf = s.idOf)
      (hnext : s'.nextId = s.nextId ∨ s'.nextId = s.nextId + 1)
      (hresult : answer.result = .error failure) : Stepped s (.start name heap setup) s' answer
  | started {name : String} {heap : HeapChoice} {setup : Setup} {s' : Session} {answer : Answer}
      (hids : s'.idOf = Function.update s.idOf name (some s.nextId))
      (hnext : s'.nextId = s.nextId + 1)
      (hresult : answer.result = .ok (.number s.nextId.toNat)) :
      Stepped s (.start name heap setup) s' answer
  | closed {name : String} {s' : Session} {answer : Answer}
      (hids : s'.idOf = Function.update s.idOf name none) (hnext : s'.nextId = s.nextId)
      (hresult : answer.result = .ok .nothing) : Stepped s (.close name) s' answer
  | commanded {name : String} {command : Command BlockRef} {saveAs : Option String}
      {s' : Session} {answer : Answer} {id : UInt32} (hname : s.idOf name = some id)
      (hids : s'.idOf = s.idOf) (hnext : s'.nextId = s.nextId)
      (hgiven : ∀ block, answer.result = .ok (.block block) → block.context = id) :
      Stepped s (.command name command saveAs) s' answer
  | compared {a b : BlockRef} {answer : Answer} {same : Bool}
      (hresult : answer.result = .ok (.flag same)) : Stepped s (.same a b) s answer

lemma idOf_of_member (h : s.member name = .ok m) : s.idOf name = some m.context.id := by
  rw [member] at h
  rw [idOf]
  split at h
  next hlookup =>
    cases h
    rw [hlookup]
    rfl
  next => cases h

lemma orHalt_eq_ok {α : Type} {x : Except Fault α} {a : α} (h : orHalt x = .ok a) : x = .ok a := by
  cases x with
  | error => cases h
  | ok =>
    cases h
    rfl

/-- Setting a context up may use the next id up without a context to have it. -/
lemma context_setup {setup : Setup} {id next : UInt32} {heap : Heap}
    {result : Except Failure Context} (h : setup.context id heap = (result, next)) :
    (∃ failure, result = .error failure ∧ (next = id ∨ next = id + 1)) ∨
      ∃ c, result = .ok c ∧ c.id = id ∧ next = id + 1 := by
  rw [Setup.context] at h
  split at h
  next failure _ =>
    cases h
    exact .inl ⟨failure, rfl, .inl rfl⟩
  next =>
    cases h
    exact .inr ⟨_, rfl, rfl, rfl⟩
  next config _ =>
    simp only [Context.configured] at h
    split at h
    next =>
      cases h
      exact .inl ⟨_, rfl, .inl rfl⟩
    next =>
      split at h
      next =>
        cases h
        exact .inr ⟨_, rfl, rfl, rfl⟩
      next megabytes _ =>
        cases h
        rw [Context.setLimit]
        split
        · exact .inl ⟨_, rfl, .inr rfl⟩
        · exact .inr ⟨_, rfl, rfl, rfl⟩

lemma stepStart_stepped {heap : HeapChoice} {setup : Setup}
    (h : s.stepStart name heap setup = .ok (s', answer)) :
    Stepped s (.start name heap setup) s' answer := by
  rw [stepStart] at h
  split at h
  next => cases h
  next =>
    rcases hcontext : setup.context s.nextId heap.heap with ⟨result, next⟩
    simp only [hcontext] at h
    rcases context_setup hcontext with ⟨failure, rfl, hnext⟩ | ⟨c, rfl, hid, rfl⟩
    · cases h
      exact .declined rfl hnext rfl
    · cases h
      refine .started ?_ rfl ?_
      · rw [idOf_putMember, hid]
        rfl
      · rw [hid]

lemma stepClose_stepped (h : s.stepClose name = .ok (s', answer)) :
    Stepped s (.close name) s' answer := by
  obtain ⟨m, -, h⟩ := bind_eq_ok_iff.mp h
  obtain ⟨⟨closed, events⟩, -, h⟩ := bind_eq_ok_iff.mp h
  cases h
  exact .closed idOf_removeMember rfl rfl

lemma tamper_id {c c' : Context} {change : Tampering} (h : c.tamper change = .ok c') :
    c'.id = c.id := by
  cases change with
  | slot slot change =>
    obtain ⟨registry, -, h⟩ := bind_eq_ok_iff.mp h
    cases h
    rfl
  | count | countPeak | total | totalPeak | limit =>
    cases h
    rfl

/-- A command leaves the context its id, and gives out handles with this id only. -/
lemma carryOut_signed {command : Command Block} {reply : Reply Value}
    (h : carryOut m command = .ok reply) : m.context.Signed (· = .block ·) reply := by
  cases command with
  | operate op =>
    obtain ⟨performed, hperform, rfl⟩ := map_eq_ok_iff.mp h
    have hsigned := Context.perform_signed (orHalt_eq_ok hperform)
    refine Context.Signed.map ⟨hsigned.id, fun {outcome _} hresult hgives => ?_⟩
    cases outcome with
    | block block => exact hsigned.context hresult (congrArg _ (Value.block.inj hgives))
    | region =>
      rw [valueOf] at hgives
      split at hgives <;> cases hgives
    | nothing | number => cases hgives
  | locate block =>
    cases h
    exact Context.Signed.map (Context.signed_of_forall_not (by rw [Context.context_report])
      (by simp))
  | read block offset length =>
    rw [carryOut] at h
    split at h
    next =>
      cases h
      exact Context.signed_of_error rfl rfl
    next =>
      split at h <;> cases h
      exact ⟨rfl, fun hresult hgives => by cases hresult; cases hgives⟩
  | limit | usage | fillIn | tally | refuseAfter =>
    cases h
    exact ⟨rfl, fun hresult hgives => by cases hresult; cases hgives⟩
  | blocks =>
    obtain ⟨infos, -, h⟩ := bind_eq_ok_iff.mp h
    cases h
    exact ⟨rfl, fun hresult hgives => by cases hresult; cases hgives⟩
  | tamper change =>
    obtain ⟨c, htamper, h⟩ := bind_eq_ok_iff.mp h
    cases h
    refine ⟨tamper_id (orHalt_eq_ok htamper), fun hresult hgives => ?_⟩
    cases hresult
    cases hgives

lemma idOf_save {saveAs : Option String} {result : Except AllocError Value} :
    (s.save saveAs result).idOf = s.idOf := by
  unfold save
  split <;> rfl

lemma nextId_save {saveAs : Option String} {result : Except AllocError Value} :
    (s.save saveAs result).nextId = s.nextId := by
  unfold save
  split <;> rfl

lemma stepCommand_stepped {command : Command BlockRef} {saveAs : Option String}
    (h : s.stepCommand name command saveAs = .ok (s', answer)) :
    Stepped s (.command name command saveAs) s' answer := by
  obtain ⟨m, hm, h⟩ := bind_eq_ok_iff.mp h
  obtain ⟨command', -, h⟩ := bind_eq_ok_iff.mp h
  obtain ⟨inquiry, -, h⟩ := bind_eq_ok_iff.mp h
  obtain ⟨reply, hreply, h⟩ := bind_eq_ok_iff.mp h
  have hsigned := carryOut_signed hreply
  have hname : s.idOf name = some m.context.id := idOf_of_member hm
  cases h
  refine .commanded hname ?_ nextId_save ?_
  · rw [idOf_save, idOf_putMember, hsigned.id, ← hname, Function.update_eq_self]
  · intro block hresult
    cases hreply : reply.result with
    | error e => simp [hreply, Except.mapError] at hresult
    | ok value =>
      rw [hreply] at hresult
      exact hsigned.context hreply (Except.ok.inj hresult)

/-- Whatever a step does, it is one of these. -/
theorem step_stepped (h : s.step step = .ok (s', answer)) : Stepped s step s' answer := by
  cases step with
  | start name heap setup => exact stepStart_stepped h
  | close name => exact stepClose_stepped h
  | command name command saveAs => exact stepCommand_stepped h
  | same a b =>
    obtain ⟨block, -, h⟩ := bind_eq_ok_iff.mp h
    obtain ⟨block', -, h⟩ := bind_eq_ok_iff.mp h
    cases h
    exact .compared rfl

/-! ### Histories -/

/-- The ids of the contexts that were started, in the order in which they were. -/
def startedIds (past : List (Step × Answer)) : List Nat :=
  past.filterMap fun p =>
    match p.1, p.2.result with
    | .start .., .ok (.number id) => some id
    | _, _ => none

/-- The handle was given out by a context, and this is not the one that has the name now. -/
def Foreign (past : List (Step × Answer)) (block : Block) (name : String) : Prop :=
  ∃ before owner command saveAs answer after,
    past = before ++ (.command owner command saveAs, answer) :: after ∧
      answer.result = .ok (.block block) ∧
      (name = owner → ∃ closing, (.close owner, closing) ∈ after)

/-- What holds of the ids after `n` of them are used up: they were used in their order, the contexts
have different ones, and a handle that was given out is of a context that has an id. -/
structure Known (n : Nat) (past : List (Step × Answer)) (s : Session) : Prop where
  next : s.nextId = idAfter n
  started : (startedIds past).Sublist ((List.range n).map fun k => (idAfter k).toNat)
  used : ∀ {name id}, s.idOf name = some id → ∃ k < n, id = idAfter k
  distinct : ∀ {name name' id}, s.idOf name = some id → s.idOf name' = some id → name = name'
  issued : ∀ {p : Step × Answer} {block}, p ∈ past → p.2.result = .ok (.block block) →
    ∃ k < n, block.context = idAfter k
  foreign : ∀ {block name}, Foreign past block name → s.idOf name ≠ some block.context

variable {past : List (Step × Answer)} {block : Block} {id : UInt32} {n n' : Nat}

lemma startedIds_append : startedIds (past ++ [(step, answer)]) =
    startedIds past ++ startedIds [(step, answer)] := List.filterMap_append

/-- What a step does to the ids when `n` of them are used up before and `n'` after it. -/
structure Counted (s : Session) (step : Step) (s' : Session) (answer : Answer) (n n' : Nat) :
    Prop where
  next : s'.nextId = idAfter n'
  eq_or : n' = n ∨ n' = n + 1 ∧ step.isStart = true
  started : startedIds [(step, answer)] = [] ∨
    n' = n + 1 ∧ startedIds [(step, answer)] = [(idAfter n).toNat]
  idOf : ∀ {name id}, s'.idOf name = some id →
    s.idOf name = some id ∧ step ≠ .close name ∨
      n' = n + 1 ∧ id = idAfter n ∧ ∃ heap setup, step = .start name heap setup

lemma Stepped.counted (h : Stepped s step s' answer) (hnext : s.nextId = idAfter n) :
    ∃ n', Counted s step s' answer n n' := by
  cases h with
  | @declined name heap setup _ _ _ hids hnext' hresult =>
    have hstarted : startedIds [(.start name heap setup, answer)] = [] := by
      simp [startedIds, hresult]
    rcases hnext' with hnext' | hnext'
    · exact ⟨n, hnext'.trans hnext, .inl rfl, .inl hstarted, fun h => .inl ⟨hids ▸ h, by simp⟩⟩
    · refine ⟨n + 1, ?_, .inr ⟨rfl, rfl⟩, .inl hstarted, fun h => .inl ⟨hids ▸ h, by simp⟩⟩
      rw [hnext', hnext, idAfter_succ]
  | @started name heap setup _ _ hids hnext' hresult =>
    refine ⟨n + 1, ?_, .inr ⟨rfl, rfl⟩, .inr ⟨rfl, ?_⟩, fun {name' id} h => ?_⟩
    · rw [hnext', hnext, idAfter_succ]
    · simp [startedIds, hresult, hnext]
    · rw [hids, Function.update_apply] at h
      split at h
      next heq =>
        cases h
        exact .inr ⟨rfl, hnext, heap, setup, heq ▸ rfl⟩
      next => exact .inl ⟨h, by simp⟩
  | @closed name _ _ hids hnext' =>
    refine ⟨n, hnext'.trans hnext, .inl rfl, .inl rfl, fun {name' id} h => ?_⟩
    rw [hids, Function.update_apply] at h
    split at h
    next => cases h
    next hne => exact .inl ⟨h, fun heq => hne (Step.close.inj heq).symm⟩
  | commanded _ hids hnext' =>
    exact ⟨n, hnext'.trans hnext, .inl rfl, .inl rfl, fun h => .inl ⟨hids ▸ h, by simp⟩⟩
  | compared => exact ⟨n, hnext, .inl rfl, .inl rfl, fun h => .inl ⟨h, by simp⟩⟩

/-- A handle is given out by the context that the step commands. -/
lemma Stepped.given (h : Stepped s step s' answer) (hresult : answer.result = .ok (.block block)) :
    ∃ owner command saveAs, step = .command owner command saveAs ∧
      s.idOf owner = some block.context := by
  cases h with
  | commanded hname _ _ hgiven =>
    rw [hgiven block hresult]
    exact ⟨_, _, _, rfl, hname⟩
  | declined _ _ hresult' => cases hresult'.symm.trans hresult
  | started _ _ hresult' => cases hresult'.symm.trans hresult
  | closed _ _ hresult' => cases hresult'.symm.trans hresult
  | compared hresult' => cases hresult'.symm.trans hresult

/-- A handle becomes foreign to a name when it is given out or when the name is given up. -/
lemma Foreign.of_append (h : Foreign (past ++ [(step, answer)]) block name) :
    Foreign past block name ∨ step = .close name ∨
      answer.result = .ok (.block block) ∧
        ∃ owner command saveAs, step = .command owner command saveAs ∧ name ≠ owner := by
  obtain ⟨before, owner, command, saveAs, answer', after, hpast, hresult, hclosed⟩ := h
  rcases Registry.append_eq_append_cons_iff.mp hpast with ⟨zs, rfl, rfl⟩ | ⟨zs, rfl, hzs⟩
  · by_cases hclose : step = .close name
    · exact .inr (.inl hclose)
    · refine .inl ⟨before, owner, command, saveAs, answer', zs, rfl, hresult, fun heq => ?_⟩
      obtain ⟨closing, hmem⟩ := hclosed heq
      rcases List.mem_append.mp hmem with hmem | hmem
      · exact ⟨closing, hmem⟩
      · cases List.mem_singleton.mp hmem
        exact absurd (heq ▸ rfl) hclose
  · obtain ⟨rfl, hcons⟩ := List.append_eq_singleton_iff.mp hzs.symm |>.resolve_right (by simp)
    cases hcons
    refine .inr (.inr ⟨hresult, owner, command, saveAs, rfl, fun heq => ?_⟩)
    obtain ⟨closing, hmem⟩ := hclosed heq
    cases hmem

lemma Counted.le (hc : Counted s step s' answer n n') : n ≤ n' := by
  rcases hc.eq_or with rfl | ⟨rfl, -⟩
  · exact Nat.le_refl _
  · exact Nat.le_succ _

lemma Counted.idAfter_ne {k : Nat} (hc : Counted s step s' answer n n')
    (hn : step.isStart = true → n < 2 ^ 32) (hsucc : n' = n + 1) (hk : k < n) :
    idAfter k ≠ idAfter n := by
  intro heq
  obtain ⟨-, hstart⟩ := hc.eq_or.resolve_left (by omega)
  have hlt := hn hstart
  have hinj := idAfter_inj (by omega) hlt heq
  omega

lemma Known.issued_append (hk : Known n past s) (h : Stepped s step s' answer)
    {p : Step × Answer} (hmem : p ∈ past ++ [(step, answer)])
    (hresult : p.2.result = .ok (.block block)) : ∃ k < n, block.context = idAfter k := by
  rcases List.mem_append.mp hmem with hmem | hmem
  · exact hk.issued hmem hresult
  · cases List.mem_singleton.mp hmem
    obtain ⟨owner, -, -, -, howner⟩ := h.given hresult
    exact hk.used howner

lemma Known.foreign_append (hk : Known n past s) (h : Stepped s step s' answer)
    (hc : Counted s step s' answer n n') (hn : step.isStart = true → n < 2 ^ 32)
    (hforeign : Foreign (past ++ [(step, answer)]) block name) :
    s'.idOf name ≠ some block.context := by
  intro hid
  rcases hc.idOf hid with ⟨hold, hopen⟩ | ⟨hsucc, hid', -⟩
  · rcases hforeign.of_append with hpast | hclose | ⟨hresult, owner, command, saveAs, rfl, hne⟩
    · exact hk.foreign hpast hold
    · exact hopen hclose
    · obtain ⟨owner', _, _, heq, howner⟩ := h.given hresult
      cases heq
      exact hne (hk.distinct hold howner)
  · obtain ⟨before, owner, command, saveAs, answer', after, hpast, hresult, -⟩ := hforeign
    have hmem : (Step.command owner command saveAs, answer') ∈ past ++ [(step, answer)] := by
      rw [hpast]
      exact List.mem_append_right _ List.mem_cons_self
    obtain ⟨k, hlt, hcontext⟩ := hk.issued_append h hmem hresult
    exact hc.idAfter_ne hn hsucc hlt (hcontext.symm.trans hid')

/-- Each step keeps what holds of the ids, as long as there is an id that is not used yet. -/
lemma Known.after (hk : Known n past s) (h : Stepped s step s' answer)
    (hn : step.isStart = true → n < 2 ^ 32) :
    ∃ n', Known n' (past ++ [(step, answer)]) s' ∧
      (n' = n ∨ n' = n + 1 ∧ step.isStart = true) := by
  obtain ⟨n', hc⟩ := h.counted hk.next
  refine ⟨n', ⟨hc.next, ?_, ?_, ?_, ?_, hk.foreign_append h hc hn⟩, hc.eq_or⟩
  · rw [startedIds_append]
    rcases hc.started with hnone | ⟨rfl, hone⟩
    · rw [hnone, List.append_nil]
      exact hk.started.trans ((List.range_sublist.mpr hc.le).map _)
    · rw [hone, List.range_succ, List.map_append]
      exact hk.started.append (List.Sublist.refl _)
  · intro name id hid
    rcases hc.idOf hid with ⟨hold, -⟩ | ⟨rfl, rfl, -⟩
    · obtain ⟨k, hlt, rfl⟩ := hk.used hold
      exact ⟨k, Nat.lt_of_lt_of_le hlt hc.le, rfl⟩
    · exact ⟨n, Nat.lt_succ_self n, rfl⟩
  · intro name name' id hid hid'
    rcases hc.idOf hid with ⟨hold, -⟩ | ⟨hsucc, rfl, heap, setup, rfl⟩
    · rcases hc.idOf hid' with ⟨hold', -⟩ | ⟨hsucc, rfl, -⟩
      · exact hk.distinct hold hold'
      · obtain ⟨k, hlt, heq⟩ := hk.used hold
        exact absurd heq.symm (hc.idAfter_ne hn hsucc hlt)
    · rcases hc.idOf hid' with ⟨hold', -⟩ | ⟨-, -, heap', setup', heq⟩
      · obtain ⟨k, hlt, heq⟩ := hk.used hold'
        exact absurd heq.symm (hc.idAfter_ne hn hsucc hlt)
      · exact (Step.start.inj heq).1
  · intro p block hmem hresult
    obtain ⟨k, hlt, hid⟩ := hk.issued_append h hmem hresult
    exact ⟨k, Nat.lt_of_lt_of_le hlt hc.le, hid⟩

/-! ### Runs -/

variable {steps : List Step} {answers : List Answer}

/-- What holds of a session and what each step keeps, holds after a run. -/
lemma run_known (hk : Known n past s) (hn : n + steps.countP Step.isStart ≤ 2 ^ 32)
    (hrun : s.run steps = .ok (s', answers)) :
    ∃ n' ≤ n + steps.countP Step.isStart, Known n' (past ++ steps.zip answers) s' := by
  induction steps generalizing s past n answers with
  | nil =>
    cases hrun
    exact ⟨n, Nat.le_refl _, by simpa using hk⟩
  | cons step steps ih =>
    rw [run] at hrun
    obtain ⟨⟨s₁, answer⟩, hstep, hrun⟩ := bind_eq_ok_iff.mp hrun
    obtain ⟨⟨s₂, answers'⟩, hrest, hrun⟩ := bind_eq_ok_iff.mp hrun
    cases hrun
    rw [List.countP_cons] at hn ⊢
    have hroom : step.isStart = true → n < 2 ^ 32 := fun hstart => by
      rw [if_pos hstart] at hn
      omega
    obtain ⟨n₁, hk₁, hn₁⟩ := hk.after (step_stepped hstep) hroom
    have hle : n₁ ≤ n + if step.isStart then 1 else 0 := by
      rcases hn₁ with rfl | ⟨rfl, hstart⟩
      · exact Nat.le_add_right _ _
      · rw [if_pos hstart]
    obtain ⟨n', hle', hk'⟩ := ih hk₁ (by omega) hrest
    exact ⟨n', by omega, by simpa using hk'⟩

lemma known_nil : Known 0 [] {} where
  next := rfl
  started := List.Sublist.refl _
  used := fun h => by cases h
  distinct := fun h => by cases h
  issued := fun h => by cases h
  foreign := fun _ h => by cases h

/-- As long as no more than `2 ^ 32` contexts are started, all contexts have different ids, and a
handle that one of them gave out is accepted by no other one that is there at any time later,
whatever state that is in. -/
theorem run_foreign (hrun : ({} : Session).run steps = .ok (s, answers))
    (hstarts : steps.countP Step.isStart ≤ 2 ^ 32) :
    (startedIds (steps.zip answers)).Nodup ∧
      ∀ block name m, Foreign (steps.zip answers) block name → s.member name = .ok m →
        (∀ func, m.context.locate func block = .error (.stale func block)) ∧
        ∀ op func, Operation.LooksUp op func block →
          m.context.perform op = .ok (m.context.reject (.stale func block)) := by
  obtain ⟨n, hn, hk⟩ := run_known known_nil (by simpa using hstarts) hrun
  rw [List.nil_append] at hk
  refine ⟨?_, ?_⟩
  · refine hk.started.nodup (List.Nodup.map_on ?_ List.nodup_range)
    intro j hj k hk heq
    rw [List.mem_range] at hj hk
    exact idAfter_inj (by omega) (by omega) (UInt32.toNat_inj.mp heq)
  · intro block name m hforeign hm
    have hne : block.context ≠ m.context.id := fun heq =>
      hk.foreign hforeign (heq ▸ idOf_of_member hm)
    exact ⟨Context.locate_of_foreign hne, fun op func hop => Context.perform_of_foreign hne hop⟩

/-- A context is closed, and another one is started under its name. -/
theorem run_foreign_reopened : ∃ steps s answers m, ({} : Session).run steps = .ok (s, answers) ∧
    answers.map Answer.result = [.ok (.number 1), .ok (.block ⟨1, 0, 1⟩), .ok .nothing,
      .ok (.number 2), .ok (.block ⟨2, 0, 1⟩)] ∧
    s.member "A" = .ok m ∧
    m.context.perform (.free ⟨1, 0, 1⟩) = .ok (m.context.reject (.stale "free" ⟨1, 0, 1⟩)) := by
  let start : Step := .start "A" .system .plain
  let malloc : Step := .command "A" (.operate (.malloc 8)) none
  have hvalue : (({} : Session).run [start, malloc, .close "A", start, malloc]).map
      (fun p => (p.2.map Answer.result, (p.1.member "A").map fun m => m.context.id)) =
      .ok ([.ok (.number 1), .ok (.block ⟨1, 0, 1⟩), .ok .nothing, .ok (.number 2),
        .ok (.block ⟨2, 0, 1⟩)], .ok 2) := by decide +kernel
  obtain ⟨⟨s, answers⟩, hrun, hvalue⟩ := map_eq_ok_iff.mp hvalue
  obtain ⟨hresults, hid⟩ := Prod.mk.inj hvalue
  obtain ⟨m, hm, -⟩ := map_eq_ok_iff.mp hid
  obtain ⟨-, hforeign⟩ := run_foreign hrun (by decide)
  refine ⟨_, s, answers, m, hrun, hresults, hm, (hforeign _ "A" m ?_ hm).2 _ _ .free⟩
  obtain ⟨a₁, rest, rfl, -, hrest⟩ := List.map_eq_cons_iff.mp hresults
  obtain ⟨a₂, rest, rfl, hblock, hrest⟩ := List.map_eq_cons_iff.mp hrest
  obtain ⟨a₃, rest, rfl, -, hrest⟩ := List.map_eq_cons_iff.mp hrest
  exact ⟨[(start, a₁)], "A", _, _, a₂, _, rfl, hblock, fun _ => ⟨a₃, List.mem_cons_self⟩⟩

/-! ### One context more -/

lemma run_append {more : List Step} {s₁ s₂ : Session} {as bs : List Answer}
    (h : s.run steps = .ok (s₁, as)) (h' : s₁.run more = .ok (s₂, bs)) :
    s.run (steps ++ more) = .ok (s₂, as ++ bs) := by
  induction steps generalizing s as with
  | nil =>
    cases h
    exact h'
  | cons step steps ih =>
    rw [run] at h
    obtain ⟨⟨s', answer⟩, hstep, h⟩ := bind_eq_ok_iff.mp h
    obtain ⟨⟨s'', answers⟩, hrest, h⟩ := bind_eq_ok_iff.mp h
    cases h
    simp only [List.cons_append, run, hstep, ih hrest, ok_bind]

/-- The start of a context without any room, which uses an id up. -/
def idleStart : Step := .start "C" .system (.settings (some 0) none)

lemma run_replicate (h : s.members.lookup "C" = none) (n : Nat) :
    ∃ answers, s.run (List.replicate n idleStart) =
      .ok ({ s with nextId := s.nextId + UInt32.ofNat n }, answers) := by
  induction n generalizing s with
  | zero => exact ⟨[], by simp [run]⟩
  | succ n ih =>
    have hstep : s.step idleStart = .ok ({ s with nextId := s.nextId + 1 },
        { result := .error (.refused (.invalidParameter "mem_limit" "limit" 0)) }) := by
      simp only [Session.step, idleStart, stepStart, h]
      rfl
    obtain ⟨answers, hrest⟩ := ih (s := { s with nextId := s.nextId + 1 }) h
    have hid : s.nextId + 1 + UInt32.ofNat n = s.nextId + UInt32.ofNat (n + 1) := by
      rw [UInt32.ofNat_add, UInt32.add_assoc, UInt32.add_comm 1]
      rfl
    exact ⟨_, by simp only [List.replicate_succ, run, hstep, hrest, ok_bind, hid]; rfl⟩

/-- After `2 ^ 32` contexts, the next one has the id of the first one again, and its first block the
handle that the first block of the first one has. So it accepts, and frees, what is not its own. -/
theorem run_wrapped : ∃ steps s answers m reply, ({} : Session).run steps = .ok (s, answers) ∧
    steps.countP Step.isStart = 2 ^ 32 + 1 ∧ Foreign (steps.zip answers) ⟨1, 0, 1⟩ "B" ∧
    s.member "B" = .ok m ∧
    m.context.perform (.free ⟨1, 0, 1⟩) = .ok reply ∧ reply.result = .ok .nothing := by
  let malloc (name : String) : Step := .command name (.operate (.malloc 8)) none
  let first : List Step := [.start "A" .system .plain, malloc "A"]
  let last : List Step := [.start "B" .system .plain, malloc "B"]
  have hfirst : (({} : Session).run first).map (fun p =>
      (p.1.nextId, (p.1.members.lookup "C").isNone, p.2.map Answer.result)) =
      .ok (2, true, [.ok (.number 1), .ok (.block ⟨1, 0, 1⟩)]) := by decide +kernel
  have hlast : ((({} : Session).run first).bind fun p =>
      (({ p.1 with nextId := 1 } : Session).run last).bind fun q =>
      (q.1.member "B").map fun m => (m.context.perform (.free ⟨1, 0, 1⟩)).map Reply.result) =
      .ok (.ok (.ok .nothing)) := by decide +kernel
  obtain ⟨⟨s₁, as⟩, hrun₁, hvalue⟩ := map_eq_ok_iff.mp hfirst
  rw [hrun₁] at hlast
  obtain ⟨_, ⟨⟩, hlast⟩ := bind_eq_ok_iff.mp hlast
  obtain ⟨⟨s₂, bs⟩, hrun₂, hlast⟩ := bind_eq_ok_iff.mp hlast
  obtain ⟨m, hm, hfree⟩ := map_eq_ok_iff.mp hlast
  obtain ⟨reply, hreply, hresult⟩ := map_eq_ok_iff.mp hfree
  obtain ⟨hnext, hvalue⟩ := Prod.mk.inj hvalue
  obtain ⟨hnone, hresults⟩ := Prod.mk.inj hvalue
  obtain ⟨idle, hidle⟩ := run_replicate (Option.isNone_iff_eq_none.mp hnone) (2 ^ 32 - 1)
  have hwrapped : s₁.nextId + UInt32.ofNat (2 ^ 32 - 1) = 1 := by
    rw [hnext]
    decide
  rw [hwrapped] at hidle
  obtain ⟨a₁, rest, rfl, -, hrest⟩ := List.map_eq_cons_iff.mp hresults
  obtain ⟨a₂, rest, rfl, hblock, hrest⟩ := List.map_eq_cons_iff.mp hrest
  obtain rfl := List.map_eq_nil_iff.mp hrest
  have hzip : ∀ (steps : List Step) (answers : List Answer),
      (first ++ steps).zip ([a₁, a₂] ++ answers) =
        [(.start "A" .system .plain, a₁)] ++ (malloc "A", a₂) :: steps.zip answers :=
    fun _ _ => rfl
  refine ⟨_, s₂, _, m, reply, run_append hrun₁ (run_append hidle hrun₂), ?_, ?_, hm, hreply,
    hresult⟩
  · have hends : first.countP Step.isStart = 1 ∧ last.countP Step.isStart = 1 := ⟨rfl, rfl⟩
    rw [List.countP_append, List.countP_append, List.countP_replicate, hends.1, hends.2,
      if_pos (by rfl : idleStart.isStart = true), Nat.sub_add_cancel (by decide), Nat.add_comm]
  · rw [hzip]
    exact ⟨_, "A", _, _, a₂, _, rfl, hblock, fun h => absurd h (by decide)⟩

end Session

end MemoryLedger
