import MemoryLedger.Context.Basic

/-!
# Access to payloads

Where the payload of a block lies, how long it is, and writing into it. A write must lie within
the payload as the descriptor gives it.
-/

namespace MemoryLedger

namespace Context

/-- The region of the heap that holds the payload of a block. -/
def pointer (c : Context) (block : Block) : Except Rejection Nat := do
  let (_, d) ← c.locate "as_ptr" block
  match d.payload with
  | some payload => .ok payload
  | none => .error ⟨.accounting "as_ptr", []⟩

/-- The length of the payload of a block. -/
def payloadLength (c : Context) (block : Block) : Except Fault (Except Rejection UInt64) :=
  match c.locate "payload_len" block with
  | .error r => .ok (.error r)
  | .ok (_, d) => .ok <$> d.payloadLength

/-- The region for an access to the bytes from `offset` to `offset + length` of a payload. -/
def accessRegion (c : Context) (func : String) (block : Block) (offset : UInt64)
    (length : Nat) : Except Fault (Except Rejection Nat) :=
  match c.locate func block with
  | .error r => .ok (.error r)
  | .ok (_, d) => do
    let capacity ← d.payloadLength
    if capacity.toNat < offset.toNat + length then
      .ok (.error ⟨.outOfBounds func offset length.toUInt64 capacity, []⟩)
    else
      match d.payload with
      | some payload => .ok (.ok payload)
      | none => .ok (.error ⟨.accounting func, []⟩)

def updateRegion (c : Context) (payload : Nat) (f : Region → Region) : Context :=
  { c with heap := c.heap.update payload f }

/-- Writes bytes into a payload from `offset` on. -/
def write (c : Context) (block : Block) (offset : UInt64) (bytes : List UInt8) :
    Except Fault (Reply Unit) := do
  match ← c.accessRegion "write_at" block offset bytes.length with
  | .error r => .ok (c.reject r)
  | .ok payload =>
    .ok ((c.updateRegion payload fun r => r.overwrite offset.toNat bytes).answer ())

/-- Writes one byte all over a payload. -/
def fill (c : Context) (block : Block) (byte : UInt8) : Except Fault (Reply Unit) := do
  match ← c.payloadLength block with
  | .error r => .ok (c.reject r)
  | .ok length =>
    match ← c.accessRegion "fill" block 0 length.toNat with
    | .error r => .ok (c.reject r)
    | .ok payload => .ok ((c.updateRegion payload fun r => r.fill length.toNat byte).answer ())

end Context

end MemoryLedger
