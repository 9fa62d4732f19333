import MemoryLedger.Word

/-!
# The heap that payloads come from

A heap hands out numbered regions of bytes, resizes them and takes them back. It may refuse any
request: one that is too large for it, or any other by its own will. Every call is recorded.
-/

namespace MemoryLedger

/-- The bytes of a region; only the first `size` of them belong to it. -/
structure Region where
  size : Nat
  bytes : Nat → UInt8

namespace Region

def overwrite (r : Region) (offset : Nat) (bytes : List UInt8) : Region :=
  { r with bytes := fun i => if offset ≤ i then bytes.getD (i - offset) (r.bytes i) else r.bytes i }

def fill (r : Region) (length : Nat) (byte : UInt8) : Region :=
  { r with bytes := fun i => if i < length then byte else r.bytes i }

/-- A region of another size with the bytes that both sizes hold, then those of `tail`. -/
def resize (r : Region) (size : Nat) (tail : Nat → UInt8) : Region :=
  ⟨size, fun i => if i < r.size then r.bytes i else tail i⟩

/-- The bytes from `offset` on, if the region has that many. -/
def read (r : Region) (offset length : Nat) : Option (List UInt8) :=
  if offset + length ≤ r.size then
    some ((List.range length).map fun i => r.bytes (offset + i))
  else none

end Region

/-- One call of the heap and what it answered. -/
inductive Heap.Call where
  | allocate (size : UInt64) (granted : Option Nat)
  | reallocate (id : Nat) (size : UInt64) (granted : Bool)
  | release (id : Nat)
deriving DecidableEq, Repr

/-- A heap. `willing n` tells whether it grants its `n`-th request, counted from zero, provided
that the size is within `capacity`; `fresh n` holds the bytes that the `n`-th request brings. -/
structure Heap where
  capacity : UInt64
  willing : Nat → Bool
  fresh : Nat → Nat → UInt8
  requests : Nat := 0
  granted : Nat := 0
  regions : Nat → Option Region := fun _ => none
  calls : Array Heap.Call := #[]

namespace Heap

/-- Stands in the bytes that nobody has written yet. -/
def freshByte : UInt8 := 0xCD

/-- A heap that grants whatever fits below its capacity. -/
def ofCapacity (capacity : UInt64) : Heap :=
  { capacity, willing := fun _ => true, fresh := fun _ _ => freshByte }

/-- The heap of the operating system, which has no region of half the address space or more. -/
def system : Heap := ofCapacity 0x7FFFFFFFFFFFFFFF

/-- The largest request that a simulated heap ever grants. -/
def maxSimulatedCapacity : UInt64 := 16777216

def simulated (capacity : UInt64) : Heap :=
  ofCapacity (if capacity ≤ maxSimulatedCapacity then capacity else maxSimulatedCapacity)

/-- The heap from now on grants so many requests and refuses the later ones. -/
def refuseAfter (h : Heap) : Option Nat → Heap
  | none => { h with willing := fun _ => true }
  | some left => { h with willing := fun n => n < h.requests + left }

/-- Whether the next request is granted if it is for so many bytes. -/
def grants (h : Heap) (size : UInt64) : Bool :=
  h.willing h.requests && size ≤ h.capacity

def setRegion (h : Heap) (id : Nat) (region : Option Region) : Heap :=
  { h with regions := fun i => if i = id then region else h.regions i }

def record (h : Heap) (call : Call) : Heap :=
  { h with calls := h.calls.push call }

@[simp]
theorem regions_setRegion (h : Heap) (id i : Nat) (region : Option Region) :
    (h.setRegion id region).regions i = if i = id then region else h.regions i := rfl

@[simp]
theorem calls_setRegion (h : Heap) (id : Nat) (region : Option Region) :
    (h.setRegion id region).calls = h.calls := rfl

@[simp]
theorem calls_record (h : Heap) (call : Call) : (h.record call).calls = h.calls.push call := rfl

/-! ### Requests -/

/-- Asks for a new region; the regions granted are numbered from one on. -/
def allocate (h : Heap) (size : UInt64) : Option Nat × Heap :=
  let asked := { h with requests := h.requests + 1 }
  if h.grants size then
    let id := h.granted + 1
    let region : Region := ⟨size.toNat, h.fresh h.requests⟩
    (some id,
      ({ asked with granted := id }.setRegion id (some region)).record (.allocate size (some id)))
  else (none, asked.record (.allocate size none))

/-- Asks for another size of a region, which keeps its number; refused, nothing changes. -/
def reallocate (h : Heap) (id : Nat) (size : UInt64) : Bool × Heap :=
  let asked := { h with requests := h.requests + 1 }
  if h.grants size then
    let region := (h.regions id).map fun r => r.resize size.toNat (h.fresh h.requests)
    (true, (asked.setRegion id region).record (.reallocate id size true))
  else (false, asked.record (.reallocate id size false))

def release (h : Heap) (id : Nat) : Heap :=
  (h.setRegion id none).record (.release id)

/-- Changes the bytes of a region; no call of the heap is needed for that. -/
def update (h : Heap) (id : Nat) (f : Region → Region) : Heap :=
  h.setRegion id ((h.regions id).map f)

/-! ### How often the heap was called -/

structure Tally where
  allocations : Nat := 0
  reallocations : Nat := 0
  releases : Nat := 0
deriving DecidableEq, Repr

def Tally.add (t : Tally) : Call → Tally
  | .allocate .. => { t with allocations := t.allocations + 1 }
  | .reallocate .. => { t with reallocations := t.reallocations + 1 }
  | .release .. => { t with releases := t.releases + 1 }

def tally (h : Heap) : Tally := h.calls.foldl Tally.add {}

end Heap

end MemoryLedger
