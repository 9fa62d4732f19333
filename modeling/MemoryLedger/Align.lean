import MemoryLedger.Word

/-!
# Rounding up to a multiple

`IntType.alignTo` rounds a value up to a multiple of an alignment by masking off low bits. The
alignment is not required to be a power of two: whatever it is, the value is the one that the bit
operations give, and every step that leaves the range of the integer type is a fault.
-/

namespace MemoryLedger

/-- A machine integer type, given by its width and its signedness. -/
structure IntType where
  bits : Nat
  signed : Bool
deriving DecidableEq, Repr

namespace IntType

def unsigned (bits : Nat) : IntType := ⟨bits, false⟩

def twosComplement (bits : Nat) : IntType := ⟨bits, true⟩

/-- The type of sizes and addresses. -/
def size : IntType := unsigned 64

def minValue (t : IntType) : Int :=
  if t.signed then -(Nat.pow 2 (t.bits - 1)) else 0

def maxValue (t : IntType) : Int :=
  if t.signed then Nat.pow 2 (t.bits - 1) - 1 else Nat.pow 2 t.bits - 1

/-- `z` is a value of the type. -/
abbrev Holds (t : IntType) (z : Int) : Prop :=
  t.minValue ≤ z ∧ z ≤ t.maxValue

/-- The value of a bit pattern. -/
def ofBits (t : IntType) (b : BitVec t.bits) : Int :=
  if t.signed then b.toInt else b.toNat

/-- `z` itself if the type holds it. -/
def checked (t : IntType) (f : Fault) (z : Int) : Except Fault Int :=
  if t.Holds z then .ok z else .error f

/-- `(v + a - 1) & !(a - 1)`, evaluated from left to right with each step checked. -/
def alignTo (t : IntType) (v a : Int) : Except Fault Int := do
  let sum ← t.checked .addOverflow (v + a)
  let top ← t.checked .subOverflow (sum - 1)
  let low ← t.checked .subOverflow (a - 1)
  .ok (t.ofBits (BitVec.ofInt t.bits top &&& ~~~(BitVec.ofInt t.bits low)))

end IntType

/-- Rounds a size up to a multiple of the eight bytes of a word. -/
def align (v : Int) : Except Fault Int := IntType.size.alignTo v 8

end MemoryLedger
