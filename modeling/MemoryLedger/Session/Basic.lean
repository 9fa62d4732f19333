import MemoryLedger.Session.Step

/-!
# Sessions

A session runs a list of steps over any number of contexts. The ids of contexts are counted up and
are never given back.
-/

namespace MemoryLedger

/-- A context of a session. The calls and the region numbers of a simulated heap are shown. -/
structure Member where
  context : Context
  simulated : Bool

/-- The contexts by their names, the handles by theirs, and the id for the next context. -/
structure Session where
  members : List (String × Member) := []
  handles : List (String × Block) := []
  nextId : UInt32 := 1

namespace Session

def member (s : Session) (name : String) : Except Halt Member :=
  match s.members.lookup name with
  | some m => .ok m
  | none => .error (.unknownContext name)

def removeMember (s : Session) (name : String) : Session :=
  { s with members := s.members.filter fun m => m.1 ≠ name }

def putMember (s : Session) (name : String) (m : Member) : Session :=
  { s with members := (name, m) :: (s.removeMember name).members }

def block (s : Session) : BlockRef → Except Halt Block
  | .forged block => .ok block
  | .named name =>
    match s.handles.lookup name with
    | some block => .ok block
    | none => .error (.unknownBlock name)

/-- Gives a name to the handle in a result, if there is one; a name keeps its latest handle. -/
def save (s : Session) (name : Option String) (result : Except AllocError Value) : Session :=
  match name, result with
  | some name, .ok (.block block) => { s with handles := (name, block) :: s.handles }
  | _, _ => s

/-! ### Opening and closing -/

def stepStart (s : Session) (name : String) (heap : HeapChoice) (setup : Setup) :
    Except Halt (Session × Answer) :=
  if (s.members.lookup name).isSome then .error (.contextExists name)
  else
    let (result, nextId) := setup.context s.nextId heap.heap
    let s := { s with nextId }
    match result with
    | .error e => .ok (s, { result := .error e })
    | .ok c =>
      .ok
        (s.putMember name ⟨c, heap.isSimulated⟩,
         { result := .ok (.number c.id.toNat), usage := some c.usage })

/-- The heap calls made since `before`, as far as they are shown. -/
def callsSince (simulated : Bool) (before after : Heap) : List Heap.Call :=
  if simulated then after.calls.toList.drop before.calls.size else []

def stepClose (s : Session) (name : String) : Except Halt (Session × Answer) := do
  let m ← s.member name
  let (closed, events) ← orHalt m.context.close
  .ok
    (s.removeMember name,
     { result := .ok .nothing
       calls := callsSince m.simulated m.context.heap closed.heap
       events })

/-! ### Commands -/

def valueOf (simulated : Bool) : Outcome → Value
  | .nothing => .nothing
  | .block b => .block b
  | .number n => .number n
  | .region id => if simulated then .number id else .nothing

/-- Carries a command out on a context of the session. -/
def carryOut (m : Member) (command : Command Block) : Except Halt (Reply Value) :=
  let c := m.context
  match command with
  | .operate op => Reply.map (valueOf m.simulated) <$> orHalt (c.perform op)
  | .locate block => .ok ((c.report (c.locate "resolve" block)).map fun found => .number found.1)
  | .read block offset length =>
    match c.pointer block with
    | .error r => .ok (c.reject r)
    | .ok region =>
      match (c.heap.regions region).bind fun r => r.read offset length with
      | some bytes => .ok (c.answer (.bytes bytes))
      | none => .error (.unreadable region)
  | .limit => .ok (c.answer (.number c.limit.toNat))
  | .usage => .ok (c.answer (.usage c.usage))
  | .fillIn places => .ok (c.answer (.places (c.usage.fillIn places)))
  | .blocks => do
    -- a broken list may loop, so the listing is cut
    let infos ← orHalt (c.blocks (2 * c.registry.slots.size))
    .ok (c.answer (.blocks infos))
  | .tally => .ok (c.answer (.tally c.heap.tally))
  | .refuseAfter left => .ok ({ c with heap := c.heap.refuseAfter left }.answer .nothing)
  | .tamper change => do
    let c ← orHalt (c.tamper change)
    .ok (c.answer .nothing)

/-- The events of what a session asks on its own account. Before a payload is read, written or
filled, the session asks the context where the payload lies and how long it is, as any holder of
the handle may, and goes on whatever it is told. These questions are no part of the operation that
follows: a write by itself looks the handle up once, and a fill stops at the first lookup that
fails. So a handle that is not valid leaves two more events in the log of a session than
`Context.perform` gives. -/
def inquire (c : Context) : Command Block → Except Fault (List Event)
  | .read block .. | .operate (.write block ..) | .operate (.fill block _) => do
    let length ← c.payloadLength block
    .ok ((c.report (c.pointer block)).events ++ (c.report length).events)
  | _ => .ok []

def stepCommand (s : Session) (name : String) (command : Command BlockRef)
    (saveAs : Option String) : Except Halt (Session × Answer) := do
  let m ← s.member name
  let command ← command.lookUp s.block
  let inquiry ← orHalt (inquire m.context command)
  let reply ← carryOut m command
  .ok
    ((s.putMember name { m with context := reply.context }).save saveAs reply.result,
     { result := reply.result.mapError .refused
       usage := some reply.context.usage
       calls := callsSince m.simulated m.context.heap reply.context.heap
       events := inquiry ++ reply.events })

/-! ### Running -/

def step (s : Session) : Step → Except Halt (Session × Answer)
  | .start name heap setup => s.stepStart name heap setup
  | .close name => s.stepClose name
  | .command name command saveAs => s.stepCommand name command saveAs
  | .same a b => do
    let a ← s.block a
    let b ← s.block b
    .ok (s, { result := .ok (.flag (a = b)) })

/-- Runs all steps, whatever they answer, and collects the answers. -/
def run (s : Session) : List Step → Except Halt (Session × List Answer)
  | [] => .ok (s, [])
  | step :: steps => do
    let (s, answer) ← s.step step
    let (s, answers) ← s.run steps
    .ok (s, answer :: answers)

end Session

end MemoryLedger
