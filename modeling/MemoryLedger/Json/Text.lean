/-!
# Strings between their quotes

A string is kept as it is spelled. `unescape?` gives the characters that a spelling stands for: an
escape by number is a 16-bit unit, and two units that form a surrogate pair are one character. A
surrogate outside a pair stands for no character.
-/

namespace MemoryLedger.Json

/-- What one step of a spelling stands for: a character, or a unit of 16 bits. -/
inductive Piece where
  | char (c : Char)
  | unit (n : Nat)
deriving DecidableEq, Repr

/-- The value of a hexadecimal digit. -/
def hexDigit? (c : Char) : Option Nat :=
  if '0' ≤ c ∧ c ≤ '9' then some (c.toNat - '0'.toNat)
  else if 'a' ≤ c ∧ c ≤ 'f' then some (c.toNat - 'a'.toNat + 10)
  else if 'A' ≤ c ∧ c ≤ 'F' then some (c.toNat - 'A'.toNat + 10)
  else none

/-- The character that a one-letter escape stands for. -/
def simpleEscape? : Char → Option Char
  | '"' => some '"'
  | '\\' => some '\\'
  | '/' => some '/'
  | 'b' => some '\x08'
  | 'f' => some '\x0c'
  | 'n' => some '\n'
  | 'r' => some '\r'
  | 't' => some '\t'
  | _ => none

def pieces? : List Char → Option (List Piece)
  | [] => some []
  | '\\' :: 'u' :: a :: b :: c :: d :: rest => do
    let a ← hexDigit? a
    let b ← hexDigit? b
    let c ← hexDigit? c
    let d ← hexDigit? d
    (.unit (((a * 16 + b) * 16 + c) * 16 + d) :: ·) <$> pieces? rest
  | '\\' :: e :: rest => do
    let c ← simpleEscape? e
    (.char c :: ·) <$> pieces? rest
  | c :: rest => if c = '\\' then none else (.char c :: ·) <$> pieces? rest

def IsLeadingSurrogate (n : Nat) : Prop := 0xD800 ≤ n ∧ n < 0xDC00

def IsTrailingSurrogate (n : Nat) : Prop := 0xDC00 ≤ n ∧ n < 0xE000

instance (n : Nat) : Decidable (IsLeadingSurrogate n) := inferInstanceAs (Decidable (_ ∧ _))

instance (n : Nat) : Decidable (IsTrailingSurrogate n) := inferInstanceAs (Decidable (_ ∧ _))

/-- Joins the units of surrogate pairs and refuses the surrogates that have no partner. -/
def joinPieces? : List Piece → Option (List Char)
  | [] => some []
  | .char c :: rest => (c :: ·) <$> joinPieces? rest
  | .unit m :: .unit n :: rest =>
    if IsLeadingSurrogate m then
      if IsTrailingSurrogate n then
        (Char.ofNat (0x10000 + (m - 0xD800) * 0x400 + (n - 0xDC00)) :: ·) <$> joinPieces? rest
      else none
    else if IsTrailingSurrogate m then none
    else (Char.ofNat m :: ·) <$> joinPieces? (.unit n :: rest)
  | .unit m :: rest =>
    if IsLeadingSurrogate m ∨ IsTrailingSurrogate m then none
    else (Char.ofNat m :: ·) <$> joinPieces? rest

/-- The characters that a spelling stands for. -/
def unescape? (raw : List Char) : Option (List Char) :=
  pieces? raw >>= joinPieces?

/-- A spelling of one character, the character itself unless it has to be escaped. -/
def escapeChar (c : Char) : List Char :=
  if c = '"' then ['\\', '"']
  else if c = '\\' then ['\\', '\\']
  else if c < ' ' then
    ['\\', 'u', '0', '0', Nat.digitChar (c.toNat / 16), Nat.digitChar (c.toNat % 16)]
  else [c]

def escape (text : List Char) : List Char := text.flatMap escapeChar

end MemoryLedger.Json
