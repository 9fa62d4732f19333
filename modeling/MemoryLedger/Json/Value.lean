import MemoryLedger.Json.Token

/-!
# JSON values

A value keeps the spelling of its numbers and strings and the order of its members, and so a value
and its list of tokens determine each other. `ofTokens?` reads the tokens one by one, with the
containers that are still open on a stack.
-/

namespace MemoryLedger

/-- A JSON value. Strings and keys stand as they are spelled between their quotes. -/
inductive Json where
  | null
  | bool (b : Bool)
  | number (lexeme : List Char)
  | string (raw : List Char)
  | array (items : List Json)
  | object (members : List (List Char × Json))

namespace Json

/-! ### Writing -/

mutual

/-- The tokens of a value. -/
def tokens : Json → List Token
  | null => [.null]
  | bool b => [.bool b]
  | number lexeme => [.number lexeme]
  | string raw => [.string raw]
  | array [] => [.openBracket, .closeBracket]
  | array (v :: items) => .openBracket :: v.tokens ++ laterItems items
  | object [] => [.openBrace, .closeBrace]
  | object ((key, v) :: members) =>
      .openBrace :: .string key :: .colon :: v.tokens ++ laterMembers members

/-- The tokens of an array after its first item. -/
def laterItems : List Json → List Token
  | [] => [.closeBracket]
  | v :: items => .comma :: v.tokens ++ laterItems items

/-- The tokens of an object after its first member. -/
def laterMembers : List (List Char × Json) → List Token
  | [] => [.closeBrace]
  | (key, v) :: members => .comma :: .string key :: .colon :: v.tokens ++ laterMembers members

end

/-- The text of a value, without blanks. -/
def render (v : Json) : String := .ofList (v.tokens.flatMap Token.spell)

/-! ### Reading -/

/-- A container that is still open, waiting for a value; what it holds so far stands with the
latest first. -/
inductive Frame where
  | array (sofar : List Json)
  | object (sofar : List (List Char × Json)) (key : List Char)

/-- What a reading has come to, with the containers still open, the innermost first. -/
inductive Reading where
  /-- A value must follow. -/
  | value (outer : List Frame)
  /-- An array was opened: its first item or its end must follow. -/
  | firstItem (outer : List Frame)
  /-- An object was opened: its first key or its end must follow. -/
  | firstKey (outer : List Frame)
  /-- A comma was read in an object: the next key must follow. -/
  | nextKey (sofar : List (List Char × Json)) (outer : List Frame)
  /-- A key was read: a colon must follow. -/
  | afterKey (sofar : List (List Char × Json)) (key : List Char) (outer : List Frame)
  /-- A value was read. -/
  | complete (v : Json) (outer : List Frame)

namespace Reading

/-- The first token of a value. -/
def begin? (outer : List Frame) : Token → Option Reading
  | .null => some (complete .null outer)
  | .bool b => some (complete (.bool b) outer)
  | .number lexeme => some (complete (.number lexeme) outer)
  | .string raw => some (complete (.string raw) outer)
  | .openBracket => some (firstItem outer)
  | .openBrace => some (firstKey outer)
  | _ => none

def step : Reading → Token → Option Reading
  | value outer, t => begin? outer t
  | firstItem outer, .closeBracket => some (complete (.array []) outer)
  | firstItem outer, t => begin? (.array [] :: outer) t
  | firstKey outer, .closeBrace => some (complete (.object []) outer)
  | firstKey outer, .string key => some (afterKey [] key outer)
  | nextKey sofar outer, .string key => some (afterKey sofar key outer)
  | afterKey sofar key outer, .colon => some (value (.object sofar key :: outer))
  | complete v (.array sofar :: outer), .comma => some (value (.array (v :: sofar) :: outer))
  | complete v (.array sofar :: outer), .closeBracket =>
      some (complete (.array (v :: sofar).reverse) outer)
  | complete v (.object sofar key :: outer), .comma => some (nextKey ((key, v) :: sofar) outer)
  | complete v (.object sofar key :: outer), .closeBrace =>
      some (complete (.object ((key, v) :: sofar).reverse) outer)
  | _, _ => none

/-- The value of a reading that ends here. -/
def finish? : Reading → Option Json
  | complete v [] => some v
  | _ => none

end Reading

def ofTokens? (ts : List Token) : Option Json :=
  ts.foldlM Reading.step (.value []) >>= Reading.finish?

/-- The value that a text spells, with nothing but blanks around it. -/
def parse? (text : String) : Option Json :=
  Token.scan? text.toList >>= ofTokens?

/-! ### Numbers and strings -/

def ofNat (n : Nat) : Json := number (Nat.toDigits 10 n)

def ofInt (z : Int) : Json :=
  if z < 0 then number ('-' :: Nat.toDigits 10 z.natAbs) else ofNat z.natAbs

def ofText (s : String) : Json := string (escape s.toList)

/-- The number that plain digits spell. -/
def nat? : Json → Option Nat
  | number lexeme => if Token.isDigits lexeme then some (Nat.ofDigitChars 10 lexeme 0) else none
  | _ => none

/-- The number that digits spell, with a minus sign or without. -/
def int? : Json → Option Int
  | number ('-' :: digits) => (nat? (number digits)).map fun n => -(n : Int)
  | v => (nat? v).map fun n => (n : Int)

/-- The text that a string stands for. -/
def text? : Json → Option String
  | string raw => (unescape? raw).map String.ofList
  | _ => none

end Json

end MemoryLedger
