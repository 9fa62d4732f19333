import MemoryLedger.Session.Basic

/-!
# Fail-fast runs

A run that stops at the first refusal and reports it: to whoever follows the log, if anybody does,
and otherwise on the standard error stream.
-/

namespace MemoryLedger

/-- What a fail-fast run puts out, line by line. -/
inductive Line where
  | answer (a : Answer)
  | event (e : Event)

/-- What is left of a fail-fast run. -/
structure Transcript where
  lines : List Line := []
  aborted : Bool := false
  stderr : String := ""

namespace Transcript

/-- The transcript of one step: its events if they are followed, then its answer. -/
def ofAnswer (followed : Bool) (a : Answer) : List Line :=
  (if followed then a.events.map .event else []) ++ [.answer a]

/-- The end of a run that is stopped by a refusal. -/
def ofRefusal (followed : Bool) (e : AllocError) : Transcript :=
  { lines := if followed then [.event (.fatal e)] else []
    aborted := true
    stderr := if followed then "" else e.message ++ "\n" }

def after (lines : List Line) (t : Transcript) : Transcript :=
  { t with lines := lines ++ t.lines }

end Transcript

/-- Runs the steps up to the first that is refused. -/
def Session.runFailFast (followed : Bool) (s : Session) : List Step → Except Halt Transcript
  | [] => .ok {}
  | step :: steps => do
    let (s, answer) ← s.step step
    let lines := Transcript.ofAnswer followed answer
    match answer.result with
    | .error (.refused e) => .ok ((Transcript.ofRefusal followed e).after lines)
    | _ => do
      let rest ← s.runFailFast followed steps
      .ok (rest.after lines)

end MemoryLedger
