import MemoryLedger.Context.Close
import MemoryLedger.Context.Payload

/-!
# A tour of an allocation context

A context with a limit of one mebibyte is filled, refuses a request, is emptied and filled again,
catches a handle that is freed twice, and lists its blocks.
-/

namespace MemoryLedger.Demo

/-- What the tour puts out. -/
structure Output where
  stdout : String
  stderr : String := ""
  status : UInt32 := 0
deriving DecidableEq, Repr

/-- Why the tour ends early. -/
inductive Stop where
  | fault (f : Fault)
  | refused (e : AllocError)
deriving DecidableEq, Repr

structure State where
  context : Context
  stdout : String := ""

abbrev Tour := ExceptT Stop (StateM State)

/-! ### What happens on a tour -/

def say (text : String) : Tour Unit :=
  modify fun s => { s with stdout := s.stdout ++ text ++ "\n" }

def orStop {α : Type} : Except Fault α → Tour α
  | .ok a => pure a
  | .error f => throw (.fault f)

/-- Performs an operation and goes on whether or not it is refused. -/
def attempt {α : Type} (op : Context → Except Fault (Reply α)) : Tour (Except AllocError α) := do
  let reply ← orStop (op (← get).context)
  modify fun s => { s with context := reply.context }
  pure reply.result

/-- Performs an operation that must not be refused. -/
def perform {α : Type} (op : Context → Except Fault (Reply α)) : Tour α := do
  match ← attempt op with
  | .ok a => pure a
  | .error e => throw (.refused e)

def sayUsage (label : String) : Tour Unit := do
  let u := (← get).context.usage
  say ("[" ++ label ++ "] blocks = " ++ toString u.count ++ " (peak " ++ toString u.countPeak ++
    "), bytes = " ++ toString u.total ++ " (peak " ++ toString u.totalPeak ++ ")")

def setLimit (megabytes : UInt64) : Tour Unit :=
  perform fun c =>
    match c.setLimit megabytes with
    | .ok c => .ok (c.answer ())
    | .error e => .ok (c.reject ⟨e, []⟩)

def pointer (block : Block) : Tour Nat :=
  perform fun c => .ok (c.report (c.pointer block))

/-! ### The tour -/

/-- The tour; `address` writes down where the heap keeps a region. -/
def tour (address : Nat → String) : Tour Unit := do
  setLimit 1
  sayUsage "start"
  -- a little over half of the limit
  let first ← perform (·.malloc 600000)
  perform (·.fill first 0xAB)
  say ("\n[1] Allocate 600000 bytes at " ++ address (← pointer first))
  sayUsage "1"
  -- another block of that size does not fit
  match ← attempt (·.malloc 600000) with
  | .error e@(.limitExceeded ..) => say ("\n[2] Refused: " ++ e.message)
  | .error e => say ("\n[2] Unexpected result: " ++ e.message)
  | .ok block => say ("\n[2] Unexpected result: " ++ block.text)
  sayUsage "2"
  -- it does once the first is freed
  perform (·.free first)
  let second ← perform (·.calloc 1000 600)
  say ("\n[3] Allocate 1000 x 600 bytes at " ++ address (← pointer second))
  sayUsage "3"
  -- the handle of a freed block is known for what it is
  match ← attempt (·.free first) with
  | .error e =>
      say ("\n[4] Double free detected: " ++ e.message ++ " (" ++ e.kind.text ++ ")")
  | .ok () => pure ()
  let second ← perform (·.realloc second 1 4096)
  let extra ← perform (·.malloc 128)
  say "\n[5] Live blocks:"
  let c := (← get).context
  for info in ← orStop (c.blocks c.registry.slots.size) do
    say ("    " ++ info.block.text ++ " -> " ++ toString info.size ++ " bytes")
  perform (·.free extra)
  perform (·.free second)
  sayUsage "end"

/-- What is put out when the tour is run on a new context over the system heap. -/
def output (address : Nat → String) : Output :=
  let (result, s) := (tour address).run.run { context := .create 1 .system }
  match result with
  | .ok () => { stdout := s.stdout }
  | .error (.refused e) =>
      { stdout := s.stdout, stderr := "Error: " ++ e.message ++ "\n", status := 1 }
  | .error (.fault f) => { stdout := s.stdout, stderr := f.message ++ "\n", status := 101 }

/-- A region by its number, written as an address. -/
def regionAddress (region : Nat) : String :=
  "0x" ++ .ofList (Nat.toDigits 16 region)

end MemoryLedger.Demo
