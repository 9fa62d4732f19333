import MemoryLedger.Config
import MemoryLedger.Json.Value

/-!
# Configurations as JSON

A configuration is written as an object with two members. It is read from such an object, where
the order of the members does not matter, missing ones take their defaults and foreign ones are
passed over, or from an array of at most the two values.
-/

namespace MemoryLedger.Config

def limitKey : List Char := "limit_mb".toList

def maxBlocksKey : List Char := "max_blocks".toList

/-! ### Writing -/

def limitToJson : Option UInt64 → Json
  | none => .null
  | some limitMb => .ofNat limitMb.toNat

def toJson (c : Config) : Json :=
  .object [(limitKey, limitToJson c.limitMb), (maxBlocksKey, .ofNat c.maxBlocks.toNat)]

/-! ### Reading -/

/-- A word, spelled by its digits alone. -/
def word? (v : Json) : Option UInt64 := do
  let n ← v.nat?
  if n < 0x10000000000000000 then some (.ofNat n) else none

def limit? : Json → Option (Option UInt64)
  | .null => some none
  | v => some <$> word? v

/-- What the members hold under a key, read by `read`: the default if the key does not occur, and
nothing at all if it occurs twice. -/
def member? {α : Type} (members : List (List Char × Json)) (key : List Char) (default : α)
    (read : Json → Option α) : Option α :=
  match members.filter fun m => m.1 = key with
  | [] => some default
  | [(_, v)] => read v
  | _ => none

/-- The configuration of an object whose keys are free of escapes. -/
def ofMembers? (members : List (List Char × Json)) : Option Config := do
  let limitMb ← member? members limitKey none limit?
  let maxBlocks ← member? members maxBlocksKey defaultMaxBlocks word?
  some { limitMb, maxBlocks }

def ofItems? : List Json → Option Config
  | [] => some default
  | [limit] => do
    let limitMb ← limit? limit
    some { (default : Config) with limitMb }
  | [limit, max] => do
    let limitMb ← limit? limit
    let maxBlocks ← word? max
    some { limitMb, maxBlocks }
  | _ => none

/-- A member with its key free of escapes. -/
def unescapeKey? (m : List Char × Json) : Option (List Char × Json) := do
  let key ← Json.unescape? m.1
  some (key, m.2)

def ofJson? : Json → Option Config
  | .array items => ofItems? items
  | .object members => members.mapM unescapeKey? >>= ofMembers?
  | _ => none

/-- The configuration that a JSON text spells. -/
def parse? (text : String) : Option Config :=
  Json.parse? text >>= ofJson?

end MemoryLedger.Config
