import ResumableEvm.Machine
import ResumableEvm.Overlay
import ResumableEvm.Transaction

/-!
# Frames

A frame is one call in progress: a bytecode machine together with the gas it has used, the
account changes and log entries it has made, and the context it runs in.  Frames run one at a
time; a frame that calls or creates waits until the frame it asked for has ended.

* `ChainView` — what all frames of a transaction see of the chain.
* `FrameStatus` — running, ended, or asking for another frame.
* `Frame` — the call in progress.
* `Frame.totalUsedGas`, `Frame.availableGas` — its gas.
* `Frame.attempt`, `Frame.reading` — operations that change a frame and may be interrupted.
-/

namespace ResumableEvm

/-- What all frames of a transaction see of the chain: the rules in force, the header of the block
    and what the host has told. -/
structure ChainView where
  ruleset : Ruleset
  block : Header
  log : CommitLog

/-- The rules in force. -/
abbrev ChainView.rules (c : ChainView) : Rules := c.ruleset.rules

/-- How far a frame has come. -/
inductive FrameStatus where
  | running
  | exitedOk
  | exitedErr (e : ExitError)
  | exitedNotSupported (f : ExitFatal)
  /-- It asks for a call, whose output goes to the given region of its memory. -/
  | invokeCall (context : Context) (outOffset outLen : Word)
  /-- It asks for a creation. -/
  | invokeCreate (context : Context)
  deriving DecidableEq

namespace FrameStatus

def isExited : FrameStatus → Bool
  | .exitedOk | .exitedErr _ | .exitedNotSupported _ => true
  | _ => false

/-- The status that an exit reason leads to. -/
def ofReason : ExitReason → FrameStatus
  | .succeed _ => .exitedOk
  | .error e => .exitedErr e
  | .fatal f => .exitedNotSupported f

end FrameStatus

/-- A call in progress. -/
structure Frame where
  machine : Machine
  context : Context
  status : FrameStatus
  /-- What the frame returned, once it has ended. -/
  out : Bytes
  /-- What the last frame it asked for returned. -/
  ret : Bytes
  /-- The memory paid for, in words of 32 bytes. -/
  memoryWords : Gas
  /-- The gas used, apart from that for memory. -/
  usedGas : Gas
  /-- The gas to give back at the end.  It may be negative on the way. -/
  refund : Int
  overlay : Overlay
  logs : List LogEntry
  /-- The accounts that destroyed themselves. -/
  removed : List Address
  /-- How many frames wait for this one. -/
  depth : Nat

namespace Frame

/-- How many items fit on the stack of a frame. -/
def stackLimit : Nat := 1024

/-- A frame at the start of its code. -/
def create (context : Context) (depth : Nat) (overlay : Overlay) (rules : Rules) : Frame where
  machine := Machine.create context.code context.data stackLimit rules.memoryLimit.toNat
  context := context
  status := .running
  out := ByteArray.empty
  ret := ByteArray.empty
  memoryWords := 0
  usedGas := 0
  refund := 0
  overlay := overlay
  logs := []
  removed := []
  depth := depth

/-- A frame that this one asks for.  It starts from the account changes and removals of this
    frame, without its log entries. -/
def derive (f : Frame) (context : Context) (rules : Rules) : Frame :=
  { create context (f.depth + 1) f.overlay rules with removed := f.removed }

/-- The operand at position `i`, the top of the stack being position zero. -/
def operand (f : Frame) (i : Nat) : Word := f.machine.stack.peekD i

theorem operand_zero {f : Frame} {x : Word} {items : List Word}
    (h : f.machine.stack.items = x :: items) : f.operand 0 = x := by
  simp [operand, OperandStack.peekD, h]

/-! ## Gas -/

/-- The gas for a memory of so many words: linear at first, then quadratic. -/
def memoryGas (words : Gas) : Gas := 3 * words + (words * words).divNat 512

/-- The gas used so far.  A frame that failed without reverting has used all it was given. -/
def totalUsedGas (f : Frame) : Gas :=
  match f.status with
  | .exitedErr .reverted => memoryGas f.memoryWords + f.usedGas
  | .exitedErr _ => f.context.gasLimit
  | _ => memoryGas f.memoryWords + f.usedGas

def availableGas (f : Frame) : Gas := f.context.gasLimit - f.totalUsedGas

/-! ## Ending -/

def exit (f : Frame) (reason : ExitReason) : Frame :=
  { f with machine := f.machine.halt reason, status := .ofReason reason }

def fail (f : Frame) (e : ExitError) : Frame := f.exit (.error e)

/-- The frame with other items on its stack. -/
def withItems (f : Frame) (items : List Word) : Frame :=
  { f with machine := f.machine.withItems items }

@[simp] theorem withItems_context (f : Frame) (items : List Word) :
    (f.withItems items).context = f.context := rfl

@[simp] theorem withItems_overlay (f : Frame) (items : List Word) :
    (f.withItems items).overlay = f.overlay := rfl

/-! ## Interruption

Operations change a frame in place.  Each gives the frame as it stands in the end, also where
it was interrupted, together with its result. -/

/-- Goes on with a value; without it the operation ends with the frame as it stands. -/
def attempt {ε α β : Type} (f : Frame) (r : Except ε α) (k : α → Frame × Except ε β) :
    Frame × Except ε β :=
  match r with
  | .ok a => k a
  | .error e => (f, .error e)

/-- Goes on with a datum that is read; where it is missing the frame waits as it stands. -/
def reading {α β : Type} (f : Frame) (r : Except Requirement α)
    (k : α → Frame × Except Interrupt β) : Frame × Except Interrupt β :=
  f.attempt (Interrupt.ofRead r) k

@[simp] theorem attempt_ok {ε α β : Type} (f : Frame) (a : α) (k : α → Frame × Except ε β) :
    f.attempt (.ok a) k = k a := rfl

@[simp] theorem attempt_error {ε α β : Type} (f : Frame) (e : ε) (k : α → Frame × Except ε β) :
    f.attempt (.error e) k = (f, .error e) := rfl

@[simp] theorem reading_ok {α β : Type} (f : Frame) (a : α)
    (k : α → Frame × Except Interrupt β) : f.reading (.ok a) k = k a := rfl

@[simp] theorem reading_error {α β : Type} (f : Frame) (r : Requirement)
    (k : α → Frame × Except Interrupt β) :
    f.reading (.error r) k = (f, .error (.requires r)) := rfl

end Frame

end ResumableEvm
