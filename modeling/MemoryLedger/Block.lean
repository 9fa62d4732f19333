import MemoryLedger.Word

/-!
# Blocks and their descriptors

A block of memory is known outside by a handle, `Block`, and inside by a `Descriptor` in a slot of
a table. The handle names the context that issued it, the slot, and the generation that the slot
had at that time; a slot changes its generation whenever its block is freed or resized, so an old
handle stops matching.
-/

namespace MemoryLedger

/-- Marks the descriptor of a live block. -/
def liveTag : UInt32 := 0x4D454D31

/-- What a block is charged on top of its payload, in bytes. -/
def descriptorSize : UInt64 := 56

@[simp]
theorem toNat_descriptorSize : descriptorSize.toNat = 56 := rfl

/-- One entry of the slot table; `size` counts the payload and the descriptor. -/
structure Descriptor where
  tag : UInt32 := 0
  generation : UInt32 := 0
  size : UInt64 := 0
  prev : Option Nat := none
  next : Option Nat := none
  payload : Option Nat := none
deriving DecidableEq, Repr

namespace Descriptor

abbrev IsLive (d : Descriptor) : Prop := d.tag = liveTag

def payloadLength (d : Descriptor) : Except Fault UInt64 :=
  subChecked d.size descriptorSize

end Descriptor

/-- A handle for a block. -/
structure Block where
  context : UInt32
  slot : UInt32
  generation : UInt32
deriving DecidableEq, Repr

namespace Block

/-- The handle for a slot, of whose number 32 bits are kept. -/
def ofSlot (context : UInt32) (slot : Nat) (generation : UInt32) : Block :=
  ⟨context, slot.toUInt32, generation⟩

def text (b : Block) : String :=
  "Block \x7b env: " ++ toString b.context ++ ", slot: " ++ toString b.slot ++
    ", generation: " ++ toString b.generation ++ " \x7d"

end Block

/-- A live block as a listing shows it. -/
structure BlockInfo where
  block : Block
  size : UInt64
deriving DecidableEq, Repr

end MemoryLedger
