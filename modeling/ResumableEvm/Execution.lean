import ResumableEvm.CallStack

/-!
# Executions

A transaction is validated against its caller's account, and only then becomes an execution:
frames that run until the root has ended, after which the code of a created account is
deposited and the transaction is settled.  Validation, like every step, may stop for a missing
datum and is taken again once the datum is there.

* `Rejection`, `Transaction.rejection?` — why a transaction is not executed.
* `Execution` — a transaction past validation.
* `Transaction.accept` — from a transaction to its execution.
* `Execution.step` — one step.
* `Execution.refund`, `Execution.chargedGas` — what the caller gets back, and pays for.
-/

namespace ResumableEvm

/-! ## Validation -/

/-- Why a transaction is rejected before anything runs. -/
inductive Rejection where
  | invalidNonce
  | insufficientBalance
  | insufficientGasLimit
  deriving DecidableEq, Repr

namespace Rejection

def name : Rejection → String
  | .invalidNonce => "InvalidNonce"
  | .insufficientBalance => "InsufficientBalance"
  | .insufficientGasLimit => "InsufficientGasLimit"

def message : Rejection → String
  | .invalidNonce => "transaction nonce does not match"
  | .insufficientBalance => "caller balance is insufficient"
  | .insufficientGasLimit => "gas limit is below the intrinsic gas"

end Rejection

/-- **Validation.**  The first thing wrong with a transaction, given the nonce and the balance
    of its caller: the nonce differs, the balance does not cover value and gas, or the gas does
    not cover what is paid up front. -/
def Transaction.rejection? (t : Transaction) (rules : Rules) (nonce balance : Word) :
    Option Rejection :=
  if nonce ≠ t.nonce then some .invalidNonce
  else if t.preclaimed.toNat + t.value.toNat > balance.toNat then some .insufficientBalance
  else if t.gasLimit < t.intrinsicGas rules then some .insufficientGasLimit
  else none

/-- A transaction past validation. -/
structure Execution where
  calls : CallStack
  transaction : Transaction
  /-- The gas paid before the first instruction. -/
  intrinsicGas : Gas
  /-- Whether the code of the account to create is still to be deposited. -/
  depositPending : Bool
  /-- The state after the caller's nonce was raised, from which a failure starts over. -/
  fresh : Overlay
  /-- Whether gas has been paid for and dead accounts have been removed. -/
  settled : Bool

/-! ## Acceptance -/

/-- The context of a transaction's root frame. -/
def Transaction.rootContext (t : Transaction) (rules : Rules) (code : Bytes) : Context where
  address := t.address
  codeAddress := t.address
  caller := t.caller
  code := code
  data :=
    match t.action with
    | .call _ => t.input
    | .create => ByteArray.empty
  gasLimit := t.gasLimit - t.intrinsicGas rules
  gasPrice := t.gasPrice
  origin := t.caller
  value := t.value
  apparentValue := t.value
  isStatic := false

/-- The code that a transaction runs: that of the account it calls, or its input. -/
def Transaction.rootCode (t : Transaction) (s : Overlay) (log : CommitLog) :
    Except Requirement Bytes :=
  match t.action with
  | .call target => s.code target log
  | .create => .ok t.input

/-- The root frame of a transaction, begun as a call or as a creation. -/
def Transaction.beginRoot (t : Transaction) (root : Frame) (chain : ChainView) :
    Frame × Except Requirement Unit :=
  match t.action with
  | .call _ => root.beginCall chain
  | .create => root.beginCreate chain

/-- **Acceptance.**  Validates a transaction, raises its caller's nonce, claims the price of its
    gas and begins its root frame. -/
def Transaction.accept (t : Transaction) (chain : ChainView) :
    Except Interrupt (Except Rejection Execution) := do
  let log := chain.log
  let s := Overlay.empty chain.rules.accounts
  s.require t.caller log
  let nonce ← s.nonce t.caller log
  let balance ← s.balance t.caller log
  match t.rejection? chain.rules nonce balance with
  | some reason => return .error reason
  | none =>
    s.require t.address log
    let code ← t.rootCode s log
    let fresh ← s.setNonce t.caller (← nextNonce nonce) log
    let paid ← fresh.decreaseBalance t.caller t.preclaimed log
    match t.beginRoot (Frame.create (t.rootContext chain.rules code) 0 paid chain.rules) chain with
    | (root, .ok ()) =>
      return .ok
        { calls := .ofRoot root, transaction := t, intrinsicGas := t.intrinsicGas chain.rules,
          depositPending := t.action = .create, fresh := fresh, settled := false }
    | (_, .error r) => throw (.requires r)

namespace Execution

/-! ## Gas -/

/-- The gas used so far, before refunds. -/
def consumedGas (e : Execution) : Gas := e.intrinsicGas + e.calls.usedGas

/-- The refund that the root frame has earned; a negative one counts as none. -/
def refund (e : Execution) : Gas := Gas.ofNat e.calls.root.refund.toNat

/-- **What the caller pays for.**  A success gets its refund, up to half of the gas used; a
    condition that cannot be represented costs the whole limit. -/
def chargedGas (e : Execution) : Gas :=
  match e.calls.root.status with
  | .exitedOk => e.consumedGas - min (e.consumedGas.divNat 2) e.refund
  | .exitedNotSupported _ => e.transaction.gasLimit
  | _ => e.consumedGas

/-! ## Steps -/

/-- Deposits the code of a created account, once. -/
def deposit (e : Execution) (chain : ChainView) : Execution × Except Requirement Unit :=
  if e.depositPending then
    match e.calls.root.depositCode chain with
    | (root, .ok ()) => ({ e with calls := e.calls.withRoot root, depositPending := false }, .ok ())
    | (root, .error r) => ({ e with calls := e.calls.withRoot root }, .error r)
  else (e, .ok ())

def settle (e : Execution) (chain : ChainView) : Execution × Except Requirement Unit :=
  match e.calls.root.settle chain e.chargedGas e.transaction.preclaimed e.fresh
    chain.block.beneficiary with
  | (root, .ok ()) => ({ e with calls := e.calls.withRoot root, settled := true }, .ok ())
  | (root, .error r) => ({ e with calls := e.calls.withRoot root }, .error r)

/-- Deposits and settles.  A deposit stays made when settling has to wait for a datum. -/
def finish (e : Execution) (chain : ChainView) : Execution × Except Requirement Unit :=
  match e.deposit chain with
  | (e, .ok ()) => e.settle chain
  | (e, .error r) => (e, .error r)

/-- **One step:** of the frames while they run, then the deposit and the settlement. -/
def step (e : Execution) (chain : ChainView) : Execution × Except Interrupt (Option Event) :=
  if e.settled then (e, .ok none)
  else if e.calls.isExited then
    match e.finish chain with
    | (e, .ok ()) => (e, .ok none)
    | (e, .error r) => (e, .error (.requires r))
  else
    match e.calls.step chain with
    | (calls, result) => ({ e with calls := calls }, result)

end Execution

end ResumableEvm
