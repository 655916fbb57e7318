import ResumableEvm.Address
import ResumableEvm.Gas

/-!
# Requirements

The machine owns no state.  Where it needs an account, a piece of code, a storage slot or a
block hash that nobody has told it, it stops and says which.  Such a requirement is not an
error: once the answer is committed, the same step is taken again.

* `Requirement` — the missing datum.
* `Interrupt` — why a step was not taken: a requirement, or a fault.
-/

namespace ResumableEvm

/-- A datum that is missing. -/
inductive Requirement where
  /-- The account at an address, or that there is none. -/
  | account (a : Address)
  /-- The code at an address. -/
  | code (a : Address)
  /-- A storage slot of a known account. -/
  | storage (a : Address) (index : Word)
  /-- The hash of a block. -/
  | blockHash (number : Word)
  deriving DecidableEq, Repr

namespace Requirement

def name : Requirement → String
  | .account _ => "Account"
  | .code _ => "AccountCode"
  | .storage _ _ => "AccountStorage"
  | .blockHash _ => "Blockhash"

def text : Requirement → String
  | .account a => s!"Account({a.toHex})"
  | .code a => s!"AccountCode({a.toHex})"
  | .storage a index => s!"AccountStorage({a.toHex}, {index.toNat})"
  | .blockHash number => s!"Blockhash({number.toNat})"

def message : Requirement → String
  | .account a => s!"require account {a.toHex}"
  | .code a => s!"require code of {a.toHex}"
  | .storage a index => s!"require storage {index.toHex} of {a.toHex}"
  | .blockHash number => s!"require blockhash of block {number.toNat}"

end Requirement

/-- Why a step was not taken. -/
inductive Interrupt where
  | requires (r : Requirement)
  /-- There is no next state. -/
  | fault (f : Fault)
  deriving DecidableEq, Repr

/-- The result of a read, as part of a step. -/
def Interrupt.ofRead {α : Type} : Except Requirement α → Except Interrupt α
  | .ok a => .ok a
  | .error r => .error (.requires r)

instance : MonadLift (Except Requirement) (Except Interrupt) := ⟨Interrupt.ofRead⟩

/-- A nonce, raised by one; there is none above the largest. -/
def nextNonce (nonce : Word) : Except Interrupt Word :=
  if nonce.toNat = maxWord then .error (.fault .overflow) else .ok (nonce + 1)

end ResumableEvm
