import ResumableEvm.Instruction

/-!
# Why a machine stops

A machine leaves off for one of three kinds of reason: it finished, it failed in a way that
concerns only itself, or it met a condition that its configuration cannot represent.  Between
those it may also pause at an opcode that only its surroundings can carry out.

* `ExitSucceed`, `ExitError`, `ExitFatal` — the three kinds.
* `ExitReason` — any of them.
* `Capture` — an exit or a pause.
-/

namespace ResumableEvm

/-- Ways to finish. -/
inductive ExitSucceed where
  /-- The code ended or stopped. -/
  | stopped
  | returned
  | suicided
  deriving DecidableEq, Repr

/-- Ways to fail. -/
inductive ExitError where
  | stackUnderflow
  | stackOverflow
  | invalidJump
  /-- A region of memory or of return data that cannot be addressed. -/
  | invalidRange
  /-- The opcode set aside to fail. -/
  | designatedInvalid
  /-- An opcode without a meaning under the rules in force. -/
  | invalidCode (op : Opcode)
  | outOfGas
  | callTooDeep
  | outOfFund
  /-- The account to create is already in use. -/
  | createCollision
  /-- The code to deposit is over the limit. -/
  | createContractLimit
  /-- A change of state where none is allowed. -/
  | notStatic
  | reverted
  deriving DecidableEq, Repr

/-- Conditions that the configuration cannot represent. -/
inductive ExitFatal where
  /-- Memory past the configured limit. -/
  | notSupported
  deriving DecidableEq, Repr

/-- Why a machine exited. -/
inductive ExitReason where
  | succeed (s : ExitSucceed)
  | error (e : ExitError)
  | fatal (f : ExitFatal)
  deriving DecidableEq, Repr

/-- What a machine reports when it does not simply go on. -/
inductive Capture where
  /-- It has exited and will not run again. -/
  | exit (reason : ExitReason)
  /-- It waits for its surroundings to carry out an opcode. -/
  | trap (op : Opcode)
  deriving DecidableEq, Repr

namespace ExitReason

def isSucceed : ExitReason → Bool
  | .succeed _ => true
  | _ => false

def isError : ExitReason → Bool
  | .error _ => true
  | _ => false

/-- Whether the machine met a condition its configuration cannot represent. -/
def isFatal : ExitReason → Bool
  | .fatal _ => true
  | _ => false

end ExitReason

/-! ## Texts

Reasons are shown as constructor names with their arguments in parentheses. -/

def Opcode.text (op : Opcode) : String := s!"Opcode({op.byte.toNat})"

def ExitSucceed.text : ExitSucceed → String
  | .stopped => "Stopped"
  | .returned => "Returned"
  | .suicided => "Suicided"

/-- The name of a way to fail, apart from its argument. -/
def ExitError.name : ExitError → String
  | .stackUnderflow => "StackUnderflow"
  | .stackOverflow => "StackOverflow"
  | .invalidJump => "InvalidJump"
  | .invalidRange => "InvalidRange"
  | .designatedInvalid => "DesignatedInvalid"
  | .invalidCode _ => "InvalidCode"
  | .outOfGas => "OutOfGas"
  | .callTooDeep => "CallTooDeep"
  | .outOfFund => "OutOfFund"
  | .createCollision => "CreateCollision"
  | .createContractLimit => "CreateContractLimit"
  | .notStatic => "NotStatic"
  | .reverted => "Reverted"

def ExitError.text : ExitError → String
  | .invalidCode op => s!"InvalidCode({op.text})"
  | e => e.name

def ExitFatal.text : ExitFatal → String
  | .notSupported => "NotSupported"

def ExitReason.text : ExitReason → String
  | .succeed s => s!"Succeed({s.text})"
  | .error e => s!"Error({e.text})"
  | .fatal f => s!"Fatal({f.text})"

def Capture.text : Capture → String
  | .exit reason => s!"Exit({reason.text})"
  | .trap op => s!"Trap({op.text})"

end ResumableEvm
