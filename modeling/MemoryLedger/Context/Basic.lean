import MemoryLedger.Config
import MemoryLedger.Event
import MemoryLedger.Heap
import MemoryLedger.Registry
import MemoryLedger.Usage

/-!
# Allocation contexts

A context owns a heap, a registry of the blocks it has given out, the counters of their use and
the ceilings on it. An operation on a context answers with a `Reply`: a result or a refusal, the
context afterwards and the events on the way. What is decided before anything changes is a
`Rejection`, which holds no context at all.
-/

namespace MemoryLedger

/-- An allocation context. -/
structure Context where
  id : UInt32
  heap : Heap
  registry : Registry := {}
  usage : Usage := {}
  limit : UInt64 := maxWord
  maxBlocks : UInt64 := Config.defaultMaxBlocks

/-- A refusal, with the events that go with it. -/
structure Rejection where
  error : AllocError
  events : List Event := []
deriving DecidableEq, Repr

/-- The outcome of an operation. -/
structure Reply (α : Type) where
  result : Except AllocError α
  context : Context
  events : List Event := []

namespace Reply

def map {α β : Type} (f : α → β) (r : Reply α) : Reply β :=
  { r with result := r.result.map f }

@[simp]
theorem context_map {α β : Type} (f : α → β) (r : Reply α) :
    (r.map f).context = r.context := rfl

end Reply

namespace Context

/-! ### Replies that leave the context alone -/

def reject {α : Type} (c : Context) (r : Rejection) : Reply α :=
  ⟨.error r.error, c, r.events⟩

def answer {α : Type} (c : Context) (a : α) : Reply α :=
  ⟨.ok a, c, []⟩

/-- The reply of an operation that only looks at the context. -/
def report {α : Type} (c : Context) : Except Rejection α → Reply α
  | .ok a => c.answer a
  | .error r => c.reject r

@[simp]
theorem context_report {α : Type} (c : Context) (outcome : Except Rejection α) :
    (c.report outcome).context = c := by
  cases outcome <;> rfl

/-! ### Ceilings -/

/-- Sets the limit on the total of the blocks. Blocks already there stay, even above it. -/
def setLimit (c : Context) (megabytes : UInt64) : Except AllocError Context :=
  if megabytes < 1 then .error (.invalidParameter "mem_limit" "limit" megabytes)
  else .ok { c with limit := bytesOfMegabytes megabytes }

/-! ### Creation -/

/-- A context without blocks and with the default ceilings. -/
def create (id : UInt32) (heap : Heap) : Context := { id, heap }

/-- The most blocks that a context ever holds, since handles number slots with 32 bits. -/
def maxBlocksCeiling : UInt64 := 0xFFFFFFFF

/-- A context set up by a configuration, and the id for the next one. An id is used up as soon as
the number of blocks is acceptable, even if the limit then is not. -/
def configured (id : UInt32) (heap : Heap) (config : Config) :
    Except AllocError Context × UInt32 :=
  if config.maxBlocks < 1 then
    (.error (.invalidParameter "with_config" "max_blocks" config.maxBlocks), id)
  else
    let c : Context :=
      { create id heap with
        maxBlocks :=
          if config.maxBlocks ≤ maxBlocksCeiling then config.maxBlocks else maxBlocksCeiling }
    match config.limitMb with
    | none => (.ok c, id + 1)
    | some megabytes => (c.setLimit megabytes, id + 1)

/-! ### Handles -/

/-- The slot of a handle and what stands in it, for a handle of this context whose slot is live
and still of the same generation. -/
def locate (c : Context) (func : String) (block : Block) : Except Rejection (Nat × Descriptor) :=
  let stale : Rejection := ⟨.invalidPointer func, [.invalidPointer func block]⟩
  let slot := block.slot.toNat
  match c.registry.slots[slot]? with
  | some d =>
    if block.context = c.id ∧ d.IsLive ∧ d.generation = block.generation then .ok (slot, d)
    else .error stale
  | none => .error stale

/-- The live blocks, newest first, at most `room` of them. -/
def blocks (c : Context) (room : Nat) : Except Fault (List BlockInfo) := do
  let entries ← c.registry.walk room c.registry.head
  .ok (entries.map fun (slot, d) => ⟨.ofSlot c.id slot d.generation, d.size⟩)

end Context

end MemoryLedger
