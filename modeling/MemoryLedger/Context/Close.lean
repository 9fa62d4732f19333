import MemoryLedger.Context.Request

/-!
# Closing a context

A context that is closed gives every block it still holds back to the heap, newest first.
-/

namespace MemoryLedger

namespace Context

/-- Releases the block at the head until none is left. Each release lowers the count of blocks, so
a context with `count` blocks is empty after `count` releases or stops with a fault before. -/
def releaseAll (c : Context) : (count : Nat) → Except Fault (Context × List Event)
  | 0 =>
    match c.registry.head with
    | none => .ok (c, [])
    | some slot => do
      let (c, event) ← c.release "drop" slot
      .ok (c, [event])
  | count + 1 =>
    match c.registry.head with
    | none => .ok (c, [])
    | some slot => do
      let (c, event) ← c.release "drop" slot
      let (c, events) ← c.releaseAll count
      .ok (c, event :: events)

/-- Releases all blocks, with a warning if there are any. -/
def close (c : Context) : Except Fault (Context × List Event) := do
  let warning :=
    if 0 < c.usage.count then [.stillAllocated c.usage.count c.usage.total] else []
  let (closed, events) ← c.releaseAll c.usage.count.toNat
  .ok (closed, warning ++ events)

end Context

end MemoryLedger
