import MemoryLedger.Json.Text

/-!
# Tokens

The words of JSON. A token keeps its spelling, so that a list of tokens says all about a text but
the blanks between them. `Token.scan?` reads a text character by character.
-/

namespace MemoryLedger.Json

inductive Token where
  | openBrace
  | closeBrace
  | openBracket
  | closeBracket
  | colon
  | comma
  | null
  | bool (b : Bool)
  | number (lexeme : List Char)
  | string (raw : List Char)
deriving DecidableEq, Repr

namespace Token

def spell : Token → List Char
  | openBrace => ['{']
  | closeBrace => ['}']
  | openBracket => ['[']
  | closeBracket => [']']
  | colon => [':']
  | comma => [',']
  | null => ['n', 'u', 'l', 'l']
  | bool true => ['t', 'r', 'u', 'e']
  | bool false => ['f', 'a', 'l', 's', 'e']
  | number lexeme => lexeme
  | string raw => '"' :: raw ++ ['"']

/-! ### Numbers -/

/-- One digit or more. -/
def isDigits (cs : List Char) : Bool := !cs.isEmpty && cs.all Char.isDigit

/-- A sign or none, then digits. -/
def isExponent : List Char → Bool
  | '+' :: digits => isDigits digits
  | '-' :: digits => isDigits digits
  | digits => isDigits digits

/-- What may follow the digits of a number: nothing, or an exponent. -/
def isScale : List Char → Bool
  | [] => true
  | c :: rest => (c = 'e' || c = 'E') && isExponent rest

/-- What may follow the whole part of a number. -/
def isFraction : List Char → Bool
  | '.' :: rest => isDigits (rest.takeWhile Char.isDigit) && isScale (rest.dropWhile Char.isDigit)
  | rest => isScale rest

/-- A number without its sign: no leading zero, then a fraction and an exponent if any. -/
def isUnsigned : List Char → Bool
  | '0' :: rest => isFraction rest
  | cs => isDigits (cs.takeWhile Char.isDigit) && isFraction (cs.dropWhile Char.isDigit)

def isNumber : List Char → Bool
  | '-' :: cs => isUnsigned cs
  | cs => isUnsigned cs

/-- The token that is spelled without quotes and without punctuation. -/
def ofWord? (cs : List Char) : Option Token :=
  if cs = null.spell then some .null
  else if cs = (bool true).spell then some (.bool true)
  else if cs = (bool false).spell then some (.bool false)
  else if isNumber cs then some (.number cs)
  else none

/-! ### Scanning -/

def ofPunctuation? : Char → Option Token
  | '{' => some .openBrace
  | '}' => some .closeBrace
  | '[' => some .openBracket
  | ']' => some .closeBracket
  | ':' => some .colon
  | ',' => some .comma
  | _ => none

def isBlank (c : Char) : Bool := c = ' ' || c = '\n' || c = '\t' || c = '\r'

/-- The characters of which numbers and the names of constants consist. -/
def isWordChar (c : Char) : Bool := c.isAlphanum || c = '+' || c = '-' || c = '.'

/-- Where a scan stands: between tokens, or in one of which it holds the characters so far, the
latest first. In an escape by number, `more` digits are to come after the next one. -/
inductive Mode where
  | between
  | word (sofar : List Char)
  | string (sofar : List Char)
  | escape (sofar : List Char)
  | hex (more : Nat) (sofar : List Char)
deriving DecidableEq, Repr

/-- A scan in progress, with the tokens so far, the latest first. -/
structure Scan where
  mode : Mode := .between
  tokens : List Token := []
deriving DecidableEq, Repr

namespace Scan

/-- A character that does not continue a token. -/
def start (tokens : List Token) (c : Char) : Option Scan :=
  if isBlank c then some ⟨.between, tokens⟩
  else if c = '"' then some ⟨.string [], tokens⟩
  else if isWordChar c then some ⟨.word [c], tokens⟩
  else (ofPunctuation? c).map fun t => ⟨.between, t :: tokens⟩

def step (s : Scan) (c : Char) : Option Scan :=
  match s.mode with
  | .between => start s.tokens c
  | .word sofar =>
    if isWordChar c then some { s with mode := .word (c :: sofar) }
    else do
      let t ← ofWord? sofar.reverse
      start (t :: s.tokens) c
  | .string sofar =>
    if c = '"' then some ⟨.between, .string sofar.reverse :: s.tokens⟩
    else if c = '\\' then some { s with mode := .escape (c :: sofar) }
    else if c < ' ' then none
    else some { s with mode := .string (c :: sofar) }
  | .escape sofar =>
    if c = 'u' then some { s with mode := .hex 3 (c :: sofar) }
    else if (simpleEscape? c).isSome then some { s with mode := .string (c :: sofar) }
    else none
  | .hex more sofar =>
    if (hexDigit? c).isSome then
      match more with
      | 0 => some { s with mode := .string (c :: sofar) }
      | more + 1 => some { s with mode := .hex more (c :: sofar) }
    else none

/-- The tokens of a text that ends here. -/
def finish? (s : Scan) : Option (List Token) :=
  match s.mode with
  | .between => some s.tokens.reverse
  | .word sofar => do
    let t ← ofWord? sofar.reverse
    some (t :: s.tokens).reverse
  | _ => none

end Scan

/-- The tokens of a text. -/
def scan? (text : List Char) : Option (List Token) :=
  text.foldlM Scan.step {} >>= Scan.finish?

end Token

end MemoryLedger.Json
