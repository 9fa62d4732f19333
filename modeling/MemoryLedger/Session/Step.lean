import MemoryLedger.Command
import MemoryLedger.Config.Format
import MemoryLedger.Session.Answer

/-!
# Steps of a session

A step opens a context, closes one, gives a command to one or compares two handles. Contexts and
handles go by names; a handle may also be made up from its parts.
-/

namespace MemoryLedger

/-- A handle, by the name given to it or by its parts. -/
inductive BlockRef where
  | named (name : String)
  | forged (block : Block)
deriving DecidableEq, Repr

/-- Which heap a context is opened on. -/
inductive HeapChoice where
  | simulated (capacity : UInt64) (failAfter : Option Nat)
  | system
deriving DecidableEq, Repr

/-- How a context is set up: by default, by a JSON value, or by settings over the default. -/
inductive Setup where
  | plain
  | json (config : Json)
  | settings (limitMb maxBlocks : Option UInt64)

/-- A step; a command may save the handle it gives under a name. -/
inductive Step where
  | start (name : String) (heap : HeapChoice) (setup : Setup)
  | close (name : String)
  | command (name : String) (command : Command BlockRef) (saveAs : Option String)
  | same (a b : BlockRef)

/-! ### Heaps and set-ups -/

namespace HeapChoice

def heap : HeapChoice → Heap
  | simulated capacity failAfter => (Heap.simulated capacity).refuseAfter failAfter
  | system => Heap.system

def isSimulated : HeapChoice → Bool
  | simulated .. => true
  | system => false

end HeapChoice

namespace Setup

/-- The configuration that a set-up asks for, `none` for the plain one. -/
def config? : Setup → Except Failure (Option Config)
  | plain => .ok none
  | json config =>
    match Config.ofJson? config with
    | some config => .ok (some config)
    | none => .error .invalidConfig
  | settings limitMb maxBlocks =>
    let config : Config := default
    let config := limitMb.elim config config.withLimitMb
    let config := maxBlocks.elim config config.withMaxBlocks
    .ok (some config)

/-- The context that is set up, and the id for the next one. -/
def context (setup : Setup) (id : UInt32) (heap : Heap) : Except Failure Context × UInt32 :=
  match setup.config? with
  | .error e => (.error e, id)
  | .ok none => (.ok (.create id heap), id + 1)
  | .ok (some config) =>
    let (result, next) := Context.configured id heap config
    (result.mapError .refused, next)

end Setup

end MemoryLedger
