import ResumableEvm.Transaction
import ResumableEvm.CommitLog
import ResumableEvm.Exit

/-!
# Events

What a listener is told while a transaction runs: that a datum is missing, that it was told,
and that frames are entered and left.  Every step tells of at most one event.

* `Event` — one thing that happened.
-/

namespace ResumableEvm

/-- One thing that happened. -/
inductive Event where
  | require (r : Requirement)
  /-- The host told something about an account. -/
  | commit (c : Commitment)
  /-- The host told the hash of a block. -/
  | commitBlockHash (number : Word) (hash : Hash)
  /-- A call is asked for. -/
  | call (codeAddress : Address) (input : Bytes) (targetGas : Gas) (isStatic : Bool)
      (context : Context)
  /-- A creation is asked for. -/
  | create (caller address : Address) (value : Word) (initCode : Bytes) (targetGas : Gas)
  | selfDestruct (address target : Address) (balance : Word)
  /-- A frame that another waited for has ended. -/
  | exit (depth : Nat) (reason : ExitReason)
  deriving DecidableEq

end ResumableEvm
