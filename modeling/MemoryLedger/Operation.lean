import MemoryLedger.Context.Audit
import MemoryLedger.Context.Close
import MemoryLedger.Context.Payload

/-!
# Operations as data

The operations of a context as values, so that one can speak of a sequence of them. `run` performs
such a sequence one after the other, whatever each of them answers.
-/

namespace MemoryLedger

/-- An operation on a context, over handles of type `β`. -/
inductive Operation (β : Type) where
  | malloc (size : UInt64)
  | calloc (n size : UInt64)
  | realloc (block : β) (n size : UInt64)
  | free (block : β)
  | request (block : Option β) (size : UInt64)
  | setLimit (megabytes : UInt64)
  | pointer (block : β)
  | payloadLength (block : β)
  | write (block : β) (offset : UInt64) (bytes : List UInt8)
  | fill (block : β) (byte : UInt8)
  | audit
deriving DecidableEq, Repr

/-- What an operation gives when it is not refused. -/
inductive Outcome where
  | nothing
  | block (b : Block)
  | region (id : Nat)
  | number (n : Nat)
deriving DecidableEq, Repr

namespace Context

def perform (c : Context) : Operation Block → Except Fault (Reply Outcome)
  | .malloc size => Reply.map .block <$> c.malloc size
  | .calloc n size => Reply.map .block <$> c.calloc n size
  | .realloc block n size => Reply.map .block <$> c.realloc block n size
  | .free block => Reply.map (fun _ => .nothing) <$> c.free block
  | .request block size =>
      Reply.map (fun b => b.elim .nothing .block) <$> c.request "dma" block size
  | .setLimit megabytes =>
      match c.setLimit megabytes with
      | .ok c => .ok (c.answer .nothing)
      | .error e => .ok (c.reject ⟨e, []⟩)
  | .pointer block => .ok ((c.report (c.pointer block)).map .region)
  | .payloadLength block => do
      let outcome ← c.payloadLength block
      .ok ((c.report outcome).map fun n => .number n.toNat)
  | .write block offset bytes => Reply.map (fun _ => .nothing) <$> c.write block offset bytes
  | .fill block byte => Reply.map (fun _ => .nothing) <$> c.fill block byte
  | .audit => do
      let outcome ← c.audit
      .ok ((c.report outcome).map fun _ => .nothing)

/-- Performs the operations in order and collects their replies. -/
def run (c : Context) : List (Operation Block) → Except Fault (Context × List (Reply Outcome))
  | [] => .ok (c, [])
  | op :: ops => do
    let reply ← c.perform op
    let (last, replies) ← reply.context.run ops
    .ok (last, reply :: replies)

end Context

end MemoryLedger
