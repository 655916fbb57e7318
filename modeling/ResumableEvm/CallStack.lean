import ResumableEvm.Frame.Lifecycle
import ResumableEvm.Frame.Step

/-!
# The call stack

The frames of one execution: the current one, and below it those that wait, each for the one
above.  A step runs the current frame, enters a frame that it asks for, or takes an ended
frame back into the one below.

* `CallStack` — the frames.
* `CallStack.step` — one step.
* `CallStack.fire` — steps until the execution ends or a datum is missing.
-/

namespace ResumableEvm

/-- The frames of one execution. -/
structure CallStack where
  current : Frame
  /-- The frames that wait, the nearest first and the root last. -/
  waiting : List Frame

namespace CallStack

/-- The execution of a frame that has begun. -/
def ofRoot (root : Frame) : CallStack := ⟨root, []⟩

def frames (s : CallStack) : List Frame := (s.current :: s.waiting).reverse

def root (s : CallStack) : Frame := s.waiting.getLast?.getD s.current

/-- Replaces the frame at the bottom of an execution without waiting frames. -/
def withRoot (s : CallStack) (root : Frame) : CallStack := { s with current := root }

def isExited (s : CallStack) : Bool := s.waiting.isEmpty && s.current.status.isExited

/-- The status of the execution; a frame that asks for another counts as running. -/
def status (s : CallStack) : FrameStatus :=
  if s.isExited then s.current.status else .running

/-- The gas used so far by all frames. -/
def usedGas (s : CallStack) : Gas :=
  s.frames.foldl (fun gas f => gas + f.totalUsedGas) 0

/-- Why a frame ended, as told to a listener.  A frame that ran past its code has stopped, or
    returned if it had no code at all. -/
def exitReason (f : Frame) : ExitReason :=
  match f.status with
  | .exitedErr e => .error e
  | .exitedNotSupported e => .fatal e
  | _ =>
    match f.machine.position with
    | .error reason => reason
    | .ok _ => if f.machine.code.isEmpty then .succeed .returned else .succeed .stopped

def enter (s : CallStack) (sub : Frame) : CallStack := ⟨sub, s.current :: s.waiting⟩

/-- **One step.**  A frame that is asked for is entered once it has begun; one that has ended
    leaves the stack once it has been taken back. -/
def step (s : CallStack) (chain : ChainView) : CallStack × Except Interrupt (Option Event) :=
  let f := s.current
  match f.status with
  | .running =>
    match f.step chain with
    | (f, result) => ({ s with current := f }, result)
  | .invokeCall context _ _ =>
    match (f.derive context chain.rules).beginCall chain with
    | (sub, .ok ()) => (s.enter sub, .ok none)
    | (_, .error r) => (s, .error (.requires r))
  | .invokeCreate context =>
    match (f.derive context chain.rules).beginCreate chain with
    | (sub, .ok ()) => (s.enter sub, .ok none)
    | (_, .error r) => (s, .error (.requires r))
  | _ =>
    match s.waiting with
    | [] => (s, .ok none)
    | parent :: rest =>
      match parent.absorb f chain with
      | (parent, sub, .ok ()) =>
        (⟨parent, rest⟩, .ok (some (.exit s.waiting.length (exitReason sub))))
      | (parent, sub, .error r) => (⟨sub, parent :: rest⟩, .error (.requires r))

/-- Steps until the execution has ended or a step is interrupted, at most `fuel` times. -/
def fire : (fuel : Nat) → CallStack → ChainView → CallStack × Option Interrupt
  | 0, s, _ => (s, none)
  | fuel + 1, s, chain =>
    if s.isExited then (s, none)
    else
      match s.step chain with
      | (s, .ok _) => fire fuel s chain
      | (s, .error i) => (s, some i)

end CallStack

end ResumableEvm
