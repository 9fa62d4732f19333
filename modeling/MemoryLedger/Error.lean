import MemoryLedger.Word

/-!
# Refusals

An `AllocError` says why an operation was refused and which entry point refused it. Its text is
the name of the entry point, a colon and the reason.
-/

namespace MemoryLedger

/-- Whose fault a refusal is: the caller's arguments, a broken handle or state, or lack of room. -/
inductive ErrorKind where
  | argument
  | integrity
  | exhaustion
deriving DecidableEq, Repr

def ErrorKind.text : ErrorKind → String
  | .argument => "Argument"
  | .integrity => "Integrity"
  | .exhaustion => "Exhaustion"

/-- A refusal, with the entry point `func` that made it. -/
inductive AllocError where
  | invalidParameter (func name : String) (value : UInt64)
  | arrayTooLarge (func : String) (n size : UInt64)
  | sizeTooLarge (func : String) (size : UInt64)
  | invalidPointer (func : String)
  | accounting (func : String)
  | outOfBounds (func : String) (offset length capacity : UInt64)
  | limitExceeded (func : String) (requested total limit : UInt64)
  | tooManyBlocks (func : String) (count : UInt64)
  | noMemory (func : String) (size : UInt64)
deriving DecidableEq, Repr

namespace AllocError

def kind : AllocError → ErrorKind
  | .invalidParameter .. | .arrayTooLarge .. | .sizeTooLarge .. => .argument
  | .invalidPointer .. | .accounting .. | .outOfBounds .. => .integrity
  | .limitExceeded .. | .tooManyBlocks .. | .noMemory .. => .exhaustion

/-- The entry point that refused. -/
def func : AllocError → String
  | .invalidParameter func .. | .arrayTooLarge func .. | .sizeTooLarge func ..
  | .invalidPointer func | .accounting func | .outOfBounds func ..
  | .limitExceeded func .. | .tooManyBlocks func .. | .noMemory func .. => func

/-- The reason alone, without the entry point. -/
def reason : AllocError → String
  | .invalidParameter _ name value => name ++ " = " ++ toString value ++ "; invalid parameter"
  | .arrayTooLarge _ n size =>
      "n = " ++ toString n ++ ", size = " ++ toString size ++ "; array too large"
  | .sizeTooLarge .. => "size too large"
  | .invalidPointer _ => "invalid pointer"
  | .accounting _ => "memory allocation error"
  | .outOfBounds _ offset length capacity =>
      "offset " ++ toString offset ++ " + " ++ toString length ++
        " bytes exceeds block of " ++ toString capacity ++ " bytes"
  | .limitExceeded .. => "memory allocation limit exceeded"
  | .tooManyBlocks .. => "too many memory blocks allocated"
  | .noMemory .. => "no memory available"

/-- The text of a refusal. -/
def message (e : AllocError) : String := e.func ++ ": " ++ e.reason

end AllocError

end MemoryLedger
