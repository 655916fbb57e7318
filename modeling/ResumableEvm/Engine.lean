import ResumableEvm.AccountChange
import ResumableEvm.Execution
import ResumableEvm.World

/-!
# The engine

The engine executes one transaction for a host that owns the state.  It runs until it ends or
until a datum is missing; the host commits the datum, and the engine goes on.  While a
requirement is pending nothing moves, and only a commitment that answers it is accepted.
Output can be read once the transaction has been settled.

* `Engine` — a transaction under way, and the protocol with its host.
* `Engine.step`, `Engine.fire` — running.
* `Engine.commit`, `Engine.commitBlockHash` — answering.
* `Engine.run` — running to the end with a world for a host.
* `Engine.status`, `Engine.usedGas`, `Engine.out`, `Engine.logs`, `Engine.changes` — output.
-/

namespace ResumableEvm

/-- How far the engine has come. -/
inductive EngineStatus where
  /-- It runs, or waits for a datum. -/
  | running
  | exitedOk
  | exitedErr (e : ExitError)
  | exitedNotSupported (f : ExitFatal)
  /-- The transaction was rejected before anything ran. -/
  | exitedInvalid (r : Rejection)
  deriving DecidableEq, Repr

namespace EngineStatus

/-- The status of a frame that ended; a frame that has not counts as running. -/
def ofFrame : FrameStatus → EngineStatus
  | .exitedOk => .exitedOk
  | .exitedErr e => .exitedErr e
  | .exitedNotSupported f => .exitedNotSupported f
  | _ => .running

/-- Whether the engine has ended in anything but success. -/
def isFailure : EngineStatus → Bool
  | .running | .exitedOk => false
  | _ => true

def text : EngineStatus → String
  | .running => "Running"
  | .exitedOk => "ExitedOk"
  | .exitedErr e => s!"ExitedErr({e.text})"
  | .exitedNotSupported f => s!"ExitedNotSupported({f.text})"
  | .exitedInvalid r => s!"ExitedInvalid({r.name})"

end EngineStatus

/-- What the engine does with its transaction. -/
inductive Phase where
  | validating (t : Transaction)
  | executing (e : Execution)
  | rejected (r : Rejection)

/-- A transaction under way. -/
structure Engine where
  chain : ChainView
  phase : Phase
  /-- The datum that the engine waits for. -/
  pending : Option Requirement
  /-- What happened so far, the last first. -/
  events : List Event
  /-- The log entries in the order they were made, none before the end. -/
  logs : List LogEntry
  /-- The changes by ascending address, none before the end. -/
  changes : List AccountChange

namespace Engine

def create (ruleset : Ruleset) (t : Transaction) (block : Header) : Engine where
  chain := ⟨ruleset, block, {}⟩
  phase := .validating t
  pending := none
  events := []
  logs := []
  changes := []

/-! ## Running -/

/-- Stops for an interrupt.  A missing datum becomes pending; a fault has no next state. -/
def interrupt (e : Engine) : Interrupt → Except Fault Engine
  | .requires r => .ok { e with pending := some r, events := .require r :: e.events }
  | .fault f => .error f

/-- **One step.**  Nothing happens while a requirement is pending or after the end.  What was logged
    and changed is read off the root once, as the transaction is settled; a rejection leaves
    neither. -/
def step (e : Engine) : Except Fault Engine :=
  match e.pending, e.phase with
  | some _, _ | none, .rejected _ => .ok e
  | none, .validating t =>
    match t.accept e.chain with
    | .ok (.ok execution) => .ok { e with phase := .executing execution }
    | .ok (.error reason) => .ok { e with phase := .rejected reason, logs := [], changes := [] }
    | .error i => e.interrupt i
  | none, .executing execution =>
    match execution.step e.chain with
    | (next, .ok event) =>
      let settles := next.settled && !execution.settled
      let root := next.calls.root
      .ok { e with
        phase := .executing next
        events := event.toList ++ e.events
        logs := if settles then root.logs else e.logs
        changes := if settles then root.overlay.changes e.chain.log else e.changes }
    | (next, .error i) => ({ e with phase := .executing next }).interrupt i

/-- The status.  The engine ends only once the transaction has been settled. -/
def status (e : Engine) : EngineStatus :=
  match e.phase with
  | .validating _ => .running
  | .rejected reason => .exitedInvalid reason
  | .executing execution =>
    if execution.settled then .ofFrame execution.calls.root.status else .running

def isExited (e : Engine) : Bool := e.status ≠ .running

/-- Steps until the engine ends or a datum is missing, at most `fuel` times. -/
def fire : (fuel : Nat) → Engine → Except Fault Engine
  | 0, e => .ok e
  | fuel + 1, e =>
    if e.isExited || e.pending.isSome then .ok e
    else
      match e.step with
      | .ok e => fire fuel e
      | .error f => .error f

/-! ## Answering -/

/-- **Commits a datum about an account.**  It is refused if it is known already, and otherwise
    if it does not answer the pending requirement. -/
def commit (e : Engine) (c : Commitment) : Except CommitError Engine :=
  if e.chain.log.contains c then .error .alreadyCommitted
  else if e.pending.any c.satisfies then do
    let log ← e.chain.log.commit c
    return { e with
      chain := { e.chain with log := log }, pending := none, events := .commit c :: e.events }
  else .error .invalidCommitment

def commitBlockHash (e : Engine) (number : Word) (hash : Hash) : Except CommitError Engine :=
  if e.chain.log.blockHashes.contains number then .error .alreadyCommitted
  else if e.pending = some (.blockHash number) then do
    let log ← e.chain.log.commitBlockHash number hash
    return { e with
      chain := { e.chain with log := log }, pending := none,
      events := .commitBlockHash number hash :: e.events }
  else .error .invalidCommitment

def tell (e : Engine) : Answer → Except CommitError Engine
  | .account c => e.commit c
  | .blockHash number hash => e.commitBlockHash number hash

/-- Commits the answer of a world to the pending requirement. -/
def answer (e : Engine) (w : World) (fullCode : Bool) : Except CommitError Engine :=
  match e.pending with
  | none => .ok e
  | some r => e.tell (w.answer fullCode r)

/-- Steps, and answers from a world what is asked for, until the engine ends or an answer is
    refused; at most `fuel` times. -/
def run (w : World) (fullCode : Bool) : (fuel : Nat) → Engine → Except Fault Engine
  | 0, e => .ok e
  | fuel + 1, e =>
    if e.isExited then .ok e
    else if e.pending.isSome then
      match e.answer w fullCode with
      | .ok e => run w fullCode fuel e
      | .error _ => .ok e
    else
      match e.step with
      | .ok e => run w fullCode fuel e
      | .error f => .error f

/-! ## Output -/

/-- The gas used so far, before refunds. -/
def consumedGas (e : Engine) : Gas :=
  match e.phase with
  | .executing execution => execution.consumedGas
  | _ => 0

/-- The execution, once it has been settled. -/
def settled? (e : Engine) : Option Execution :=
  match e.phase with
  | .executing execution => if execution.settled then some execution else none
  | _ => none

/-- The gas that the caller pays for, zero before the end. -/
def usedGas (e : Engine) : Gas := (e.settled?.map (·.chargedGas)).getD 0

/-- The refund that the root frame has earned, zero before the end. -/
def refundedGas (e : Engine) : Gas := (e.settled?.map (·.refund)).getD 0

def out (e : Engine) : Bytes := (e.settled?.map (·.calls.root.out)).getD ByteArray.empty

/-- The requirements raised so far, the first first. -/
def requirements (e : Engine) : List Requirement :=
  e.events.reverse.filterMap fun
    | .require r => some r
    | _ => none

/-! ## Output, entry by entry -/

/-- A log entry, once there is output. -/
def logEntry (e : Engine) (i : Nat) : Except CopyError LogEntry :=
  if e.isExited then
    match e.logs[i]? with
    | some entry => .ok entry
    | none => .error .notFound
  else .error .notExited

def logTopic (e : Engine) (i j : Nat) : Except CopyError Hash :=
  (e.logEntry i).bind fun entry =>
    match entry.topics[j]? with
    | some topic => .ok topic
    | none => .error .notFound

/-- The change of an account, once there is output. -/
def changeOf (e : Engine) (a : Address) : Except CopyError AccountChange :=
  if e.isExited then
    match e.changes.find? (·.address = a) with
    | some change => .ok change
    | none => .error .notFound
  else .error .notExited

/-- The slots that come with the change of an account. -/
def changedSlots (e : Engine) (a : Address) : Except CopyError (List (Word × Word)) :=
  (e.changeOf a).map fun change => (change.storage?.map (·.toList)).getD []

/-- The code that comes with the change of an account. -/
def changedCode (e : Engine) (a : Address) : Except CopyError Bytes :=
  (e.changeOf a).map fun change => change.code?.getD ByteArray.empty

/-! ## Output, measured and copied -/

def topicCount (e : Engine) (i : Nat) : Except CopyError Nat :=
  (e.logEntry i).map (·.topics.length)

def logDataSize (e : Engine) (i : Nat) : Except CopyError Nat := (e.logEntry i).map (·.data.size)

def changedSlotCount (e : Engine) (a : Address) : Except CopyError Nat :=
  (e.changedSlots a).map (·.length)

def changedCodeSize (e : Engine) (a : Address) : Except CopyError Nat :=
  (e.changedCode a).map (·.size)

def copyLogData (e : Engine) (i : Nat) : List UInt8 → List UInt8 × Except CopyError Nat :=
  copyOut copyInto ((e.logEntry i).map (·.data.data.toList))

def copyChangedCode (e : Engine) (a : Address) : List UInt8 → List UInt8 × Except CopyError Nat :=
  copyOut copyInto ((e.changedCode a).map (·.data.toList))

/-- Copies the slots that come with a change, entry by entry. -/
def copyChangedSlots (e : Engine) (a : Address) :
    List (Word × Word) → List (Word × Word) × Except CopyError Nat :=
  copyOut copyEachInto (e.changedSlots a)

end Engine

end ResumableEvm
