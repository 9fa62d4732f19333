import MemoryLedger.Context.Basic

/-!
# Allocating, resizing and freeing

Everything that gives a block out, resizes it or takes it back is one request: with no handle it
allocates, with a handle it resizes, and with a handle and no bytes it frees. A request is first
planned, which changes nothing and can refuse, and the plan is then carried out, where only the
heap can still refuse.
-/

namespace MemoryLedger

namespace Context

/-! ### Planning -/

/-- What a request amounts to; `charge` counts the payload and the descriptor. -/
inductive Plan where
  | free (slot : Nat)
  | allocate (charge : UInt64)
  | resize (slot : Nat) (old : Descriptor) (payload : Nat) (charge : UInt64)
deriving DecidableEq, Repr

/-- The size of a block with a payload of `length` bytes. -/
def chargeOf (func : String) (length : UInt64) : Except Rejection UInt64 :=
  if maxWord - descriptorSize < length then .error ⟨.sizeTooLarge func length, []⟩
  else .ok (length + descriptorSize)

/-- Whether a block of size `charge` has room beside `count` blocks with `total` bytes. -/
def checkRoom (c : Context) (func : String) (charge count total : UInt64) : Except Rejection Unit :=
  if subSaturating c.limit total < charge then
    .error ⟨.limitExceeded func charge total c.limit, [.limitExceeded func charge total c.limit]⟩
  else if c.maxBlocks ≤ count then
    .error ⟨.tooManyBlocks func count, [.tooManyBlocks func count]⟩
  else .ok ()

/-- The counters must hold the block that is about to be taken out of them. -/
def checkCounters (c : Context) (func : String) (oldSize : UInt64) : Except Rejection Unit :=
  if 1 ≤ c.usage.count ∧ oldSize ≤ c.usage.total then .ok ()
  else
    .error
      ⟨.accounting func, [.countersCorrupted func c.usage.count c.usage.total oldSize]⟩

def plan (c : Context) (func : String) (block : Option Block) (length : UInt64) :
    Except Rejection Plan :=
  match block with
  | none => do
    let charge ← chargeOf func length
    c.checkRoom func charge c.usage.count c.usage.total
    .ok (.allocate charge)
  | some block => do
    let (slot, old) ← c.locate func block
    c.checkCounters func old.size
    if length = 0 then .ok (.free slot)
    else
      let charge ← chargeOf func length
      -- the counters were checked, so neither difference wraps
      c.checkRoom func charge (c.usage.count - 1) (c.usage.total - old.size)
      match old.payload with
      | none => .error ⟨.accounting func, []⟩
      | some payload => .ok (.resize slot old payload charge)

/-! ### Carrying a plan out -/

/-- Takes the block of a slot off the list, out of the counters and back to the heap. -/
def release (c : Context) (func : String) (slot : Nat) : Except Fault (Context × Event) := do
  let registry ← c.registry.unlink slot
  let old ← registry.get slot
  let registry ← registry.vacate slot
  let usage ← c.usage.credit old.size
  let heap :=
    match old.payload with
    | some payload => c.heap.release payload
    | none => c.heap
  .ok ({ c with registry, usage, heap }, .freed func slot old.size usage.count usage.total)

/-- Enters a block into a slot that is off the list, and answers with its handle. -/
def place (c : Context) (func : String) (slot : Nat) (charge : UInt64) (payload : Nat) :
    Except Fault (Reply (Option Block)) := do
  let (generation, registry) ← c.registry.stamp slot charge payload
  let registry ← registry.link slot
  let usage ← c.usage.charge charge
  .ok
    { result := .ok (some (.ofSlot c.id slot generation))
      context := { c with registry, usage }
      events := [.allocated func slot charge usage.count usage.total] }

/-- What the heap is asked for: no region is empty. -/
def regionLength (length : UInt64) : UInt64 :=
  if length = 0 then 1 else length

def noMemory (c : Context) (func : String) (charge : UInt64) : Reply (Option Block) :=
  c.reject ⟨.noMemory func charge, [.noMemory func charge]⟩

/-- Allocates a block in a vacant slot. -/
def carryOutAllocate (c : Context) (func : String) (length charge : UInt64) :
    Except Fault (Reply (Option Block)) :=
  match c.heap.allocate (regionLength length) with
  | (none, heap) => .ok (noMemory { c with heap } func charge)
  | (some payload, heap) =>
    let (slot, registry) := c.registry.takeVacant
    place { c with heap, registry } func slot charge payload

/-- Resizes the block of a slot. The block stays in its slot unless the slot's generation is used
up; then the slot is retired and the block moves to a vacant one. -/
def carryOutResize (c : Context) (func : String) (slot : Nat) (old : Descriptor) (payload : Nat)
    (length charge : UInt64) : Except Fault (Reply (Option Block)) :=
  match c.heap.reallocate payload (regionLength length) with
  | (false, heap) => .ok (noMemory { c with heap } func charge)
  | (true, heap) => do
    let registry ← c.registry.unlink slot
    let usage ← c.usage.credit old.size
    if old.generation = maxGeneration then
      let registry ← registry.retire slot
      let (fresh, registry) := registry.takeVacant
      let reply ← place { c with heap, registry, usage } func fresh charge payload
      .ok { reply with events := .retired slot :: reply.events }
    else place { c with heap, registry, usage } func slot charge payload

/-- Allocates, resizes or frees, and answers with the new handle unless it freed. -/
def request (c : Context) (func : String) (block : Option Block) (length : UInt64) :
    Except Fault (Reply (Option Block)) :=
  match c.plan func block length with
  | .error r => .ok (c.reject r)
  | .ok (.free slot) => do
    let (c, event) ← c.release func slot
    .ok ⟨.ok none, c, [event]⟩
  | .ok (.allocate charge) => c.carryOutAllocate func length charge
  | .ok (.resize slot old payload charge) =>
    c.carryOutResize func slot old payload length charge

/-! ### Entry points -/

/-- The handle of a request that cannot have freed. -/
def handle (func : String) (reply : Reply (Option Block)) : Reply Block :=
  { reply with
    result :=
      match reply.result with
      | .ok (some block) => .ok block
      | .ok none => .error (.accounting func)
      | .error e => .error e }

/-- The bytes in `n` items of `size` bytes each. -/
def arrayLength (func : String) (n size : UInt64) : Except Rejection UInt64 :=
  if n < 1 then .error ⟨.invalidParameter func "n" n, []⟩
  else if size < 1 then .error ⟨.invalidParameter func "size" size, []⟩
  else if maxWord / size < n then .error ⟨.arrayTooLarge func n size, []⟩
  else .ok (n * size)

def malloc (c : Context) (size : UInt64) : Except Fault (Reply Block) :=
  if size < 1 then .ok (c.reject ⟨.invalidParameter "malloc" "size" size, []⟩)
  else handle "malloc" <$> c.request "malloc" none size

def calloc (c : Context) (n size : UInt64) : Except Fault (Reply Block) :=
  match arrayLength "calloc" n size with
  | .error r => .ok (c.reject r)
  | .ok length => handle "calloc" <$> c.request "calloc" none length

def realloc (c : Context) (block : Block) (n size : UInt64) : Except Fault (Reply Block) :=
  match arrayLength "realloc" n size with
  | .error r => .ok (c.reject r)
  | .ok length => handle "realloc" <$> c.request "realloc" (some block) length

def free (c : Context) (block : Block) : Except Fault (Reply Unit) := do
  let reply ← c.request "free" (some block) 0
  .ok { reply with result := reply.result.map fun _ => () }

end Context

end MemoryLedger
