import MemoryLedger.Block

/-!
# The registry of live blocks

A table of slots, the live ones threaded into a doubly linked list with the newest block at the
head, the reusable ones kept on a stack. Nothing here assumes that the links are consistent: a
link that leads out of the table is a fault, any other broken link is followed as it stands.
-/

namespace MemoryLedger

/-- The slot table, the stack of reusable slots and the first slot of the list. -/
structure Registry where
  slots : Array Descriptor := #[]
  vacant : List Nat := []
  head : Option Nat := none
deriving DecidableEq, Repr

namespace Registry

/-! ### Reading and changing one slot -/

def get (r : Registry) (slot : Nat) : Except Fault Descriptor :=
  match r.slots[slot]? with
  | some d => .ok d
  | none => .error (.indexOutOfBounds slot r.slots.size)

def modify (r : Registry) (slot : Nat) (f : Descriptor → Descriptor) : Except Fault Registry :=
  if slot < r.slots.size then .ok { r with slots := r.slots.modify slot f }
  else .error (.indexOutOfBounds slot r.slots.size)

theorem get_eq_ok_iff {r : Registry} {slot : Nat} {d : Descriptor} :
    r.get slot = .ok d ↔ r.slots[slot]? = some d := by
  rw [get]
  split <;> simp_all

theorem modify_eq_ok_iff {r r' : Registry} {slot : Nat} {f : Descriptor → Descriptor} :
    r.modify slot f = .ok r' ↔
      slot < r.slots.size ∧ r' = { r with slots := r.slots.modify slot f } := by
  rw [modify]
  split
  next h => simp [h, eq_comm]
  next h => simp [h]

/-! ### The list -/

/-- Puts a slot at the head of the list. -/
def link (r : Registry) (slot : Nat) : Except Fault Registry := do
  let next := r.head
  let r ← r.modify slot fun d => { d with prev := none, next := next }
  let r ← match next with
    | none => .ok r
    | some n => r.modify n fun d => { d with prev := some slot }
  .ok { r with head := some slot }

/-- Takes a slot off the list, wherever it stands, and joins its neighbours. -/
def unlink (r : Registry) (slot : Nat) : Except Fault Registry := do
  let d ← r.get slot
  let r ← r.modify slot fun d => { d with prev := none, next := none }
  let r ← match d.prev with
    | none => .ok { r with head := d.next }
    | some p => r.modify p fun e => { e with next := d.next }
  match d.next with
  | none => .ok r
  | some n => r.modify n fun e => { e with prev := d.prev }

/-! ### The life of a slot -/

/-- A slot ready for a block: the one that became vacant last, or a new one. -/
def takeVacant (r : Registry) : Nat × Registry :=
  match r.vacant with
  | slot :: rest => (slot, { r with vacant := rest })
  | [] => (r.slots.size, { r with slots := r.slots.push {} })

/-- Enters a block of the given size and payload into a slot, under the slot's next generation. -/
def stamp (r : Registry) (slot : Nat) (size : UInt64) (payload : Nat) :
    Except Fault (UInt32 × Registry) := do
  let d ← r.get slot
  let generation ← nextGeneration d.generation
  let r ← r.modify slot fun d =>
    { d with tag := liveTag, generation, size, payload := some payload }
  .ok (generation, r)

/-- Clears a slot whose block was freed. It can be used again unless its generation is used up,
so that no old handle ever matches a later block. -/
def vacate (r : Registry) (slot : Nat) : Except Fault Registry := do
  let d ← r.get slot
  let generation := nextGenerationSaturating d.generation
  let r ← r.modify slot fun d => { d with tag := 0, generation, size := 0, payload := none }
  .ok (if generation < maxGeneration then { r with vacant := slot :: r.vacant } else r)

/-- Clears a slot and takes it out of service for good. -/
def retire (r : Registry) (slot : Nat) : Except Fault Registry :=
  r.modify slot fun d => { d with tag := 0, size := 0, payload := none }

/-! ### Walking the list -/

/-- The slots met from `cursor` on by following `next`, at most `room` of them. -/
def walk (r : Registry) : Nat → Option Nat → Except Fault (List (Nat × Descriptor))
  | 0, _ => .ok []
  | _ + 1, none => .ok []
  | room + 1, some slot => do
    let d ← r.get slot
    let rest ← r.walk room d.next
    .ok ((slot, d) :: rest)

/-- What a walk over the whole list finds. -/
inductive Survey where
  | intact (count total : Nat)
  | broken (slot : Nat)
  | tooLarge
deriving DecidableEq, Repr

/-- Follows the list from `cursor`, coming from `prev` after `count` slots with `total` bytes. It
is broken at a slot that is not live, that does not point back, or that comes after more slots
than the table has, `room` being those still to come. -/
def surveyFrom (r : Registry) (room : Nat) (cursor prev : Option Nat) (count total : Nat) :
    Except Fault Survey :=
  match cursor with
  | none => .ok (.intact count total)
  | some slot => do
    let d ← r.get slot
    match room with
    | 0 => .ok (.broken slot)
    | room + 1 =>
      if d.IsLive ∧ d.prev = prev then
        if total + d.size.toNat < 0x10000000000000000 then
          r.surveyFrom room d.next (some slot) (count + 1) (total + d.size.toNat)
        else .ok .tooLarge
      else .ok (.broken slot)

def survey (r : Registry) : Except Fault Survey :=
  r.surveyFrom r.slots.size r.head none 0 0

end Registry

end MemoryLedger
