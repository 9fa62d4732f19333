import MemoryLedger.Block
import MemoryLedger.Error

/-!
# The event log

Operations report what they do as events. Changes of the registry are traced, requests refused for
lack of room are warnings, and broken handles or broken state are errors. Sizes in events include
the descriptor.
-/

namespace MemoryLedger

inductive Level where
  | trace
  | warn
  | error
deriving DecidableEq, Repr

def Level.text : Level → String
  | .trace => "TRACE"
  | .warn => "WARN"
  | .error => "ERROR"

/-- Something worth a line in the log. -/
inductive Event where
  | allocated (func : String) (slot : Nat) (size count total : UInt64)
  | freed (func : String) (slot : Nat) (size count total : UInt64)
  | retired (slot : Nat)
  | invalidPointer (func : String) (block : Block)
  | countersCorrupted (func : String) (count total oldSize : UInt64)
  | limitExceeded (func : String) (size total limit : UInt64)
  | tooManyBlocks (func : String) (count : UInt64)
  | noMemory (func : String) (size : UInt64)
  | linksCorrupted (func : String) (slot : Nat)
  | countersMismatch (func : String) (walkedCount walkedTotal : Nat) (count total : UInt64)
  | stillAllocated (count total : UInt64)
  | fatal (error : AllocError)
deriving DecidableEq, Repr

/-- The value of a field of an event. -/
inductive Event.Field where
  | text (s : String)
  | number (n : Nat)
deriving DecidableEq, Repr

namespace Event

def level : Event → Level
  | .allocated .. | .freed .. | .retired .. => .trace
  | .limitExceeded .. | .tooManyBlocks .. | .noMemory .. | .stillAllocated .. => .warn
  | .invalidPointer .. | .countersCorrupted .. | .linksCorrupted .. | .countersMismatch ..
  | .fatal .. => .error

def message : Event → String
  | .allocated .. => "block allocated"
  | .freed .. => "block freed"
  | .retired .. => "slot retired"
  | .invalidPointer .. => "invalid pointer"
  | .countersCorrupted .. => "usage counters corrupted"
  | .limitExceeded .. => "memory allocation limit exceeded"
  | .tooManyBlocks .. => "too many memory blocks allocated"
  | .noMemory .. => "no memory available"
  | .linksCorrupted .. => "registry links are corrupted"
  | .countersMismatch .. => "registry does not match usage counters"
  | .stillAllocated .. => "releasing blocks still allocated"
  | .fatal error => error.message

/-- The named fields of an event, besides its level and its message. -/
def fields : Event → List (String × Field)
  | .allocated func slot size count total | .freed func slot size count total =>
      [("func", .text func), ("slot", .number slot), ("size", .number size.toNat),
       ("count", .number count.toNat), ("total", .number total.toNat)]
  | .retired slot => [("slot", .number slot)]
  | .invalidPointer func block => [("func", .text func), ("block", .text block.text)]
  | .countersCorrupted func count total oldSize =>
      [("func", .text func), ("count", .number count.toNat), ("total", .number total.toNat),
       ("old_size", .number oldSize.toNat)]
  | .limitExceeded func size total limit =>
      [("func", .text func), ("size", .number size.toNat), ("total", .number total.toNat),
       ("limit", .number limit.toNat)]
  | .tooManyBlocks func count => [("func", .text func), ("count", .number count.toNat)]
  | .noMemory func size => [("func", .text func), ("size", .number size.toNat)]
  | .linksCorrupted func slot => [("func", .text func), ("slot", .number slot)]
  | .countersMismatch func walkedCount walkedTotal count total =>
      [("func", .text func), ("walked_count", .number walkedCount),
       ("walked_total", .number walkedTotal), ("count", .number count.toNat),
       ("total", .number total.toNat)]
  | .stillAllocated count total =>
      [("count", .number count.toNat), ("total", .number total.toNat)]
  | .fatal error => [("func", .text error.func), ("kind", .text error.kind.text)]

end Event

end MemoryLedger
