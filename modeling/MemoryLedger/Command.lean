import MemoryLedger.Operation

/-!
# Commands

What can be asked of a context from outside: its operations, a look at its state, a change of the
heap's will to grant requests, and tampering, which overwrites a single piece of state.
-/

namespace MemoryLedger

/-- A piece of a slot to overwrite. -/
inductive SlotChange where
  | tag (value : UInt32)
  | generation (value : UInt32)
  | size (value : UInt64)
  | prev (value : Option Nat)
  | next (value : Option Nat)
  | noPayload
deriving DecidableEq, Repr

def SlotChange.apply (change : SlotChange) (d : Descriptor) : Descriptor :=
  match change with
  | tag value => { d with tag := value }
  | generation value => { d with generation := value }
  | size value => { d with size := value }
  | prev value => { d with prev := value }
  | next value => { d with next := value }
  | noPayload => { d with payload := none }

/-- A piece of a context to overwrite. -/
inductive Tampering where
  | count (value : UInt64)
  | countPeak (value : UInt64)
  | total (value : UInt64)
  | totalPeak (value : UInt64)
  | limit (value : UInt64)
  | slot (slot : Nat) (change : SlotChange)
deriving DecidableEq, Repr

def Context.tamper (c : Context) : Tampering → Except Fault Context
  | .count value => .ok { c with usage.count := value }
  | .countPeak value => .ok { c with usage.countPeak := value }
  | .total value => .ok { c with usage.total := value }
  | .totalPeak value => .ok { c with usage.totalPeak := value }
  | .limit value => .ok { c with limit := value }
  | .slot slot change => do
    let registry ← c.registry.modify slot change.apply
    .ok { c with registry }

/-- Something to ask of a context, over handles of type `β`. -/
inductive Command (β : Type) where
  | operate (op : Operation β)
  | locate (block : β)
  | read (block : β) (offset length : Nat)
  | limit
  | usage
  | fillIn (places : Usage.Places)
  | blocks
  | tally
  | refuseAfter (left : Option Nat)
  | tamper (change : Tampering)
deriving DecidableEq, Repr

/-! ### Handles in operations and commands -/

/-- Looks up every handle of an operation. -/
def Operation.lookUp {β γ ε : Type} (find : β → Except ε γ) :
    Operation β → Except ε (Operation γ)
  | .malloc size => .ok (.malloc size)
  | .calloc n size => .ok (.calloc n size)
  | .realloc block n size => do .ok (.realloc (← find block) n size)
  | .free block => do .ok (.free (← find block))
  | .request none size => .ok (.request none size)
  | .request (some block) size => do .ok (.request (some (← find block)) size)
  | .setLimit megabytes => .ok (.setLimit megabytes)
  | .pointer block => do .ok (.pointer (← find block))
  | .payloadLength block => do .ok (.payloadLength (← find block))
  | .write block offset bytes => do .ok (.write (← find block) offset bytes)
  | .fill block byte => do .ok (.fill (← find block) byte)
  | .audit => .ok .audit

/-- Looks up every handle of a command. -/
def Command.lookUp {β γ ε : Type} (find : β → Except ε γ) : Command β → Except ε (Command γ)
  | .operate op => do .ok (.operate (← op.lookUp find))
  | .locate block => do .ok (.locate (← find block))
  | .read block offset length => do .ok (.read (← find block) offset length)
  | .limit => .ok .limit
  | .usage => .ok .usage
  | .fillIn places => .ok (.fillIn places)
  | .blocks => .ok .blocks
  | .tally => .ok .tally
  | .refuseAfter left => .ok (.refuseAfter left)
  | .tamper change => .ok (.tamper change)

end MemoryLedger
