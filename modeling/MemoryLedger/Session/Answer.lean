import MemoryLedger.Context.Basic

/-!
# Answers of a session

Each step of a session has an answer: what it gave or why it was refused, the counters of its
context, the calls of its heap and the events on the way.
-/

namespace MemoryLedger

/-- What a step gives when it is not refused. -/
inductive Value where
  | nothing
  | flag (b : Bool)
  | number (n : Nat)
  | block (b : Block)
  | bytes (bytes : List UInt8)
  | usage (u : Usage)
  | places (places : Usage.Places)
  | blocks (infos : List BlockInfo)
  | tally (t : Heap.Tally)
deriving DecidableEq, Repr

/-- Why a step is refused. -/
inductive Failure where
  | refused (e : AllocError)
  | invalidConfig
deriving DecidableEq, Repr

/-- The answer to a step. -/
structure Answer where
  result : Except Failure Value
  usage : Option Usage := none
  calls : List Heap.Call := []
  events : List Event := []

/-- Why a session cannot go on: a fault, or a step that makes no sense where it stands. -/
inductive Halt where
  | fault (f : Fault)
  | unknownContext (name : String)
  | contextExists (name : String)
  | unknownBlock (name : String)
  | unreadable (region : Nat)
deriving DecidableEq, Repr

def orHalt {α : Type} : Except Fault α → Except Halt α
  | .ok a => .ok a
  | .error f => .error (.fault f)

end MemoryLedger
