import MemoryLedger.Proofs.Registry.Thread
import MemoryLedger.Session.FailFast

/-!
# What a fail-fast run shows

A fail-fast run shows what the ordinary run of the same steps answers, up to the first refusal and
with it. Nothing else cuts it short: a set-up that cannot be read is answered and passed over. The
refusal is reported in one place only, in the log where somebody follows it and on the standard
error stream where nobody does, and the answers are the same in both cases.
-/

namespace MemoryLedger

/-- The error of an answer, if it is a refusal. -/
def Answer.refusal? (a : Answer) : Option AllocError :=
  match a.result with
  | .error (.refused e) => some e
  | _ => none

/-- The error of the first refusal. -/
def firstRefusal? (answers : List Answer) : Option AllocError :=
  answers.findSome? Answer.refusal?

/-- The answers before the first refusal, and the refusal. -/
def throughRefusal (answers : List Answer) : List Answer :=
  answers.takeWhile (fun a => a.refusal?.isNone) ++
    (answers.find? fun a => a.refusal?.isSome).toList

/-- The answers of a run, up to where it halts if it does. -/
def Session.answers (s : Session) : List Step → List Answer
  | [] => []
  | step :: steps =>
    match s.step step with
    | .ok (s, answer) => answer :: s.answers steps
    | .error _ => []

def Line.answer? : Line → Option Answer
  | .answer a => some a
  | .event _ => none

section

variable {answers : List Answer} {a : Answer} {e : AllocError}

/-! ### The first refusal -/

lemma firstRefusal?_of_refused (h : a.refusal? = some e) :
    firstRefusal? (a :: answers) = some e := by
  simp [firstRefusal?, h]

lemma firstRefusal?_of_answered (h : a.refusal? = none) :
    firstRefusal? (a :: answers) = firstRefusal? answers := by
  simp [firstRefusal?, h]

lemma firstRefusal?_eq_none_iff :
    firstRefusal? answers = none ↔ ∀ a ∈ answers, a.refusal? = none :=
  List.findSome?_eq_none_iff

lemma throughRefusal_of_refused (h : a.refusal? = some e) :
    throughRefusal (a :: answers) = [a] := by
  simp [throughRefusal, h]

lemma throughRefusal_of_answered (h : a.refusal? = none) :
    throughRefusal (a :: answers) = a :: throughRefusal answers := by
  simp [throughRefusal, h]

/-! ### The transcript of some answers -/

namespace Transcript

/-- The transcript of a fail-fast run whose steps would be answered so. -/
def ofAnswers (followed : Bool) (answers : List Answer) : Transcript :=
  { lines := (throughRefusal answers).flatMap (ofAnswer followed) ++
      if followed then ((firstRefusal? answers).map fun e => Line.event (.fatal e)).toList else []
    aborted := (firstRefusal? answers).isSome
    stderr := if followed then "" else (firstRefusal? answers).elim "" fun e => e.message ++ "\n" }

variable {followed : Bool}

lemma ofAnswers_of_refused (h : a.refusal? = some e) :
    ofAnswers followed (a :: answers) = (ofRefusal followed e).after (ofAnswer followed a) := by
  rw [ofAnswers, throughRefusal_of_refused h, firstRefusal?_of_refused h]
  cases followed <;> simp [after, ofRefusal]

lemma ofAnswers_of_answered (h : a.refusal? = none) :
    ofAnswers followed (a :: answers) =
      (ofAnswers followed answers).after (ofAnswer followed a) := by
  rw [ofAnswers, throughRefusal_of_answered h, firstRefusal?_of_answered h]
  simp [after, ofAnswers]

/-- What is left of two fail-fast runs of the same steps, of which nobody follows the one and
somebody the other, when the steps would be answered so in an ordinary run. -/
structure Cut (answers : List Answer) (silent logged : Transcript) : Prop where
  silent_lines : silent.lines = (throughRefusal answers).map .answer
  logged_answers : logged.lines.filterMap Line.answer? = throughRefusal answers
  /-- The events of each step come before its answer, and after all of them the report. -/
  logged_lines : ∃ report : List Event,
    logged.lines = (throughRefusal answers).flatMap
      (fun a => a.events.map .event ++ [.answer a]) ++ report.map .event ∧
    (firstRefusal? answers = none → report = []) ∧
    ∀ e, firstRefusal? answers = some e → ∃ event, report = [event] ∧ event.level = .error ∧
      event.message = e.message ∧
      event.fields = [("func", .text e.func), ("kind", .text e.kind.text)]
  silent_aborted : silent.aborted = true ↔ ∃ a ∈ answers, a.refusal? ≠ none
  logged_aborted : logged.aborted = true ↔ ∃ a ∈ answers, a.refusal? ≠ none
  silent_stderr : silent.stderr = (firstRefusal? answers).elim "" fun e => e.message ++ "\n"
  logged_stderr : logged.stderr = ""

lemma filterMap_ofAnswer (answers : List Answer) :
    (answers.flatMap (ofAnswer followed)).filterMap Line.answer? = answers := by
  induction answers with
  | nil => rfl
  | cons a answers ih =>
    have hevents : (a.events.map Line.event).filterMap Line.answer? = [] := by
      simp [List.filterMap_map, Function.comp_def, Line.answer?]
    rw [List.flatMap_cons, List.filterMap_append, ih, ofAnswer]
    cases followed <;> simp [hevents, Line.answer?]

lemma aborted_ofAnswers :
    (ofAnswers followed answers).aborted = true ↔ ∃ a ∈ answers, a.refusal? ≠ none := by
  rw [ofAnswers, Option.isSome_iff_ne_none, ne_eq, firstRefusal?_eq_none_iff]
  push Not
  rfl

/-- The two transcripts of the same answers show them alike. -/
theorem cut_ofAnswers (answers : List Answer) :
    Cut answers (ofAnswers false answers) (ofAnswers true answers) where
  silent_lines := by
    simp only [ofAnswers, Bool.false_eq_true, if_false, List.append_nil]
    exact List.flatMap_pure_eq_map Line.answer _
  logged_answers := by
    rw [ofAnswers, List.filterMap_append, filterMap_ofAnswer]
    cases firstRefusal? answers <;> simp [Line.answer?]
  logged_lines := by
    refine ⟨((firstRefusal? answers).map Event.fatal).toList, ?_, ?_, ?_⟩
    · cases h : firstRefusal? answers <;> simp [ofAnswers, h] <;> rfl
    · intro h
      rw [h]
      rfl
    · intro e h
      exact ⟨.fatal e, by rw [h]; rfl, rfl, rfl, rfl⟩
  silent_aborted := aborted_ofAnswers
  logged_aborted := aborted_ofAnswers
  silent_stderr := rfl
  logged_stderr := rfl

end Transcript

end

namespace Session

variable {s s' : Session} {step : Step} {steps before : List Step} {answer : Answer}
  {answers : List Answer}

/-! ### The answers of a run -/

/-- The steps of a run that does not halt are all answered, and what comes after it follows. -/
lemma answers_append (h : s.run before = .ok (s', answers)) (after : List Step) :
    s.answers (before ++ after) = answers ++ s'.answers after := by
  induction before generalizing s answers with
  | nil =>
    cases h
    rfl
  | cons step before ih =>
    rw [run] at h
    obtain ⟨⟨s₁, answer⟩, hstep, h⟩ := bind_eq_ok_iff.mp h
    obtain ⟨⟨s₂, rest⟩, hrest, h⟩ := bind_eq_ok_iff.mp h
    cases h
    simp only [List.cons_append, Session.answers, hstep, ih hrest]

/-! ### Fail-fast runs -/

lemma runFailFast_of_refused {e : AllocError} (followed : Bool)
    (hstep : s.step step = .ok (s', answer)) (h : answer.refusal? = some e) :
    s.runFailFast followed (step :: steps) =
      .ok ((Transcript.ofRefusal followed e).after (Transcript.ofAnswer followed answer)) := by
  rw [runFailFast, hstep, ok_bind]
  rw [Answer.refusal?] at h
  split at h
  next hresult =>
    cases h
    simp only [hresult]
  next => cases h

lemma runFailFast_of_answered (followed : Bool) (hstep : s.step step = .ok (s', answer))
    (h : answer.refusal? = none) :
    s.runFailFast followed (step :: steps) =
      Transcript.after (Transcript.ofAnswer followed answer) <$>
        s'.runFailFast followed steps := by
  rw [runFailFast, hstep, ok_bind]
  rw [Answer.refusal?] at h
  split at h
  next => cases h
  next =>
    simp only
    cases s'.runFailFast followed steps <;> rfl

/-- A fail-fast run ends with the transcript of the answers, unless the ordinary run halts before
anything is refused; then it halts in the same way. -/
theorem runFailFast_eq (s : Session) (followed : Bool) (steps : List Step) :
    s.runFailFast followed steps =
      if (firstRefusal? (s.answers steps)).isSome then
        .ok (.ofAnswers followed (s.answers steps))
      else (fun _ => .ofAnswers followed (s.answers steps)) <$> s.run steps := by
  induction steps generalizing s with
  | nil =>
    show Except.ok _ = Except.ok _
    cases followed <;> rfl
  | cons step steps ih =>
    cases hstep : s.step step with
    | error halt => simp only [runFailFast, run, Session.answers, hstep]; rfl
    | ok result =>
      obtain ⟨s', answer⟩ := result
      have hanswers : s.answers (step :: steps) = answer :: s'.answers steps := by
        simp only [Session.answers, hstep]
      rw [hanswers, run, hstep, ok_bind]
      cases hrefusal : answer.refusal? with
      | some e =>
        rw [runFailFast_of_refused followed hstep hrefusal, firstRefusal?_of_refused hrefusal,
          Transcript.ofAnswers_of_refused hrefusal]
        rfl
      | none =>
        rw [runFailFast_of_answered followed hstep hrefusal, ih s',
          firstRefusal?_of_answered hrefusal, Transcript.ofAnswers_of_answered hrefusal]
        split
        next => rfl
        next =>
          simp only
          cases s'.run steps <;> rfl

/-- A fail-fast run shows exactly the answers of the ordinary run up to the first refusal and with
it. It aborts if and only if there is one, and reports it once: to the standard error stream if
nobody follows the log, and else as the last event, after the events of each step before its
answer. Only if the ordinary run halts before anything is refused, the fail-fast run halts too. -/
theorem runFailFast_cut (s : Session) (steps : List Step) :
    (∀ before after s' answers, steps = before ++ after → s.run before = .ok (s', answers) →
      s.answers steps = answers ++ s'.answers after) ∧
    ((∃ halt, s.run steps = .error halt ∧ (∀ a ∈ s.answers steps, a.refusal? = none) ∧
        ∀ followed, s.runFailFast followed steps = .error halt) ∨
      ∃ silent logged, s.runFailFast false steps = .ok silent ∧
        s.runFailFast true steps = .ok logged ∧
        Transcript.Cut (s.answers steps) silent logged) := by
  refine ⟨?_, ?_⟩
  · rintro before after s' answers rfl hrun
    exact answers_append hrun after
  · have hcut := Transcript.cut_ofAnswers (s.answers steps)
    have heq := fun followed => s.runFailFast_eq followed steps
    cases hrefusal : firstRefusal? (s.answers steps) with
    | some e =>
      simp only [hrefusal, Option.isSome_some, if_true] at heq
      exact .inr ⟨_, _, heq false, heq true, hcut⟩
    | none =>
      simp only [hrefusal, Option.isSome_none, Bool.false_eq_true, if_false] at heq
      cases hrun : s.run steps with
      | error halt =>
        refine .inl ⟨halt, rfl, firstRefusal?_eq_none_iff.mp hrefusal, fun followed => ?_⟩
        rw [heq, hrun]
        rfl
      | ok result =>
        simp only [hrun, map_ok] at heq
        exact .inr ⟨_, _, heq false, heq true, hcut⟩

end Session

end MemoryLedger
