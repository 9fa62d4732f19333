import MemoryLedger.Word

/-!
# Configuration

How a context is set up: a limit in mebibytes, if any, and the most blocks it may hold.
-/

namespace MemoryLedger

/-- The set-up of a context. -/
structure Config where
  limitMb : Option UInt64
  maxBlocks : UInt64
deriving DecidableEq, Repr

namespace Config

def defaultMaxBlocks : UInt64 := 2147483647

instance : Inhabited Config := ⟨⟨none, defaultMaxBlocks⟩⟩

def withLimitMb (c : Config) (limitMb : UInt64) : Config :=
  { c with limitMb := some limitMb }

def withMaxBlocks (c : Config) (maxBlocks : UInt64) : Config :=
  { c with maxBlocks }

end Config

/-- The bytes in so many mebibytes, or the largest word when they do not fit one. -/
def bytesOfMegabytes (megabytes : UInt64) : UInt64 :=
  if megabytes ≤ maxWord >>> 20 then megabytes <<< 20 else maxWord

theorem toNat_bytesOfMegabytes (megabytes : UInt64) :
    (bytesOfMegabytes megabytes).toNat = min (megabytes.toNat * 0x100000) 0xFFFFFFFFFFFFFFFF := by
  have hbound : (maxWord >>> 20).toNat = 2 ^ 44 - 1 := by decide
  have hword := megabytes.toNat_lt
  rw [bytesOfMegabytes]
  split
  next h =>
    have hle : megabytes.toNat ≤ 2 ^ 44 - 1 := hbound ▸ UInt64.le_iff_toNat_le.mp h
    rw [UInt64.toNat_shiftLeft]
    simp [Nat.shiftLeft_eq]
    omega
  next h =>
    have hgt : ¬ megabytes.toNat ≤ 2 ^ 44 - 1 := fun hle =>
      h (UInt64.le_iff_toNat_le.mpr (hbound ▸ hle))
    simp
    omega

end MemoryLedger
