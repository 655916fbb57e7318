import ResumableEvm.Frame

/-!
# The life of a frame

A frame begins by moving the value of its call or creation, and ends by being taken back into
the frame that asked for it, or, at the bottom, by settling the transaction.

* `Frame.beginCall`, `Frame.beginCreate` — before the first instruction.
* `Frame.depositCode` — the output of a creation becomes code.
* `Frame.absorb` — an ended frame goes back into the one that asked for it.
* `Frame.settle` — gas is paid for and dead accounts are removed.
-/

namespace ResumableEvm

namespace Frame

/-! ## Beginning -/

/-- Moves the value of a call, and notes that its target took part. -/
def beginCall (f : Frame) (chain : ChainView) : Frame × Except Requirement Unit :=
  let log := chain.log
  let c := f.context
  f.attempt (f.overlay.require c.caller log) fun () =>
  f.attempt (f.overlay.require c.address log) fun () =>
  f.attempt (f.overlay.decreaseBalance c.caller c.value log) fun overlay =>
  let f := { f with overlay := overlay }
  f.attempt (f.overlay.increaseBalance c.address c.value log) fun overlay =>
  ({ f with overlay := overlay.touch c.address }, .ok ())

/-- Moves the endowment of a creation and makes the new account.  Where an account is already
    in use the frame fails. -/
def beginCreate (f : Frame) (chain : ChainView) : Frame × Except Requirement Unit :=
  let log := chain.log
  let c := f.context
  f.attempt (f.overlay.require c.caller log) fun () =>
  f.attempt (f.overlay.require c.address log) fun () =>
  f.attempt (f.overlay.isTaken c.address log) fun taken =>
  if taken then (f.fail .createCollision, .ok ())
  else
    f.attempt (f.overlay.decreaseBalance c.caller c.value log) fun overlay =>
    let f := { f with overlay := overlay }
    f.attempt (f.overlay.increaseBalance c.address c.value log) fun overlay =>
    let f := { f with overlay := overlay }
    f.attempt (f.overlay.create c.address log) fun overlay =>
    ({ f with overlay := overlay.touch c.address }, .ok ())

/-! ## Depositing code -/

/-- The gas to deposit so many bytes of code. -/
def depositGas (len : Nat) : Gas := 200 * Gas.ofNat len

def overLimit (rs : Ruleset) (code : Bytes) : Bool :=
  match rs.codeDepositLimit? with
  | some limit => code.size > limit
  | none => false

/-- **Deposits the output of a creation** that ended well as the code of the new account.  Over
    the limit, a creation by a frame always fails, and one by a transaction keeps empty code
    unless deposits are forced.  Without the gas, a forced deposit keeps empty code and any
    other fails. -/
def depositCode (f : Frame) (chain : ChainView) : Frame × Except Requirement Unit :=
  if f.status = .exitedOk then
    if overLimit chain.ruleset f.out then
      if chain.rules.forceCodeDeposit ∨ f.depth > 0 then (f.fail .createContractLimit, .ok ())
      else (f, .ok ())
    else
      let available := f.context.gasLimit - memoryGas f.memoryWords - f.usedGas
      let cost := depositGas f.out.size
      if cost > available then
        if chain.rules.forceCodeDeposit then
          f.attempt (f.overlay.depositCode f.context.address ByteArray.empty chain.log)
            fun overlay => ({ f with overlay := overlay }, .ok ())
        else (f.fail .outOfGas, .ok ())
      else
        f.attempt (f.overlay.depositCode f.context.address f.out chain.log) fun overlay =>
        ({ f with overlay := overlay, usedGas := f.usedGas + cost }, .ok ())
  else (f, .ok ())

/-! ## Going back -/

/-- Replaces the result of a call or creation, which was put on the stack in advance, by
    zero. -/
def failTop (f : Frame) : Frame :=
  match f.machine.stack.set 0 0 with
  | .ok stack => { f with machine := { f.machine with stack := stack } }
  | .error e => f.fail e

/-- Copies the output of a call to its region, as much of it as fits. -/
def copyOutput (f : Frame) (outOffset outLen : Word) (out : Bytes) : Frame :=
  let len := if outLen.toNat ≤ out.size then outLen else Word.ofNat out.size
  match f.machine.memory.copyLarge outOffset 0 len out with
  | .ok memory => { f with machine := { f.machine with memory := memory } }
  | .error e => f.exit (.fatal e)

/-- Takes over everything that a frame which ended well has done. -/
def adopt (f sub : Frame) (ret : Bytes) : Frame :=
  { f with
    overlay := sub.overlay, logs := f.logs ++ sub.logs, removed := sub.removed,
    refund := f.refund + sub.refund, ret := ret }

/-- The frame after a call or creation that it asked for has ended; the region is that of a
    call's output. -/
def resume (f sub : Frame) (region : Option (Word × Word)) : Frame :=
  let f := { f with status := .running, usedGas := f.usedGas + sub.totalUsedGas }
  let withOutput (f : Frame) : Frame :=
    match region with
    | some (outOffset, outLen) => f.copyOutput outOffset outLen sub.out
    | none => f
  match sub.status with
  | .exitedOk =>
    withOutput (f.adopt sub (match region with
      | some _ => sub.out
      | none => ByteArray.empty))
  | .exitedErr .reverted => withOutput { f.failTop with ret := sub.out }
  | .exitedErr _ => { f.failTop with ret := ByteArray.empty }
  | .exitedNotSupported e => f.exit (.fatal e)
  | _ => f

/-- **Takes back a frame** that this one asked for and that has ended.  A creation deposits its
    code first.  Gives this frame and the other as it ended. -/
def absorb (f sub : Frame) (chain : ChainView) : Frame × Frame × Except Requirement Unit :=
  match f.status with
  | .invokeCreate _ =>
    match sub.depositCode chain with
    | (sub, .ok ()) => (f.resume sub none, sub, .ok ())
    | (sub, .error r) => (f, sub, .error r)
  | .invokeCall _ outOffset outLen => (f.resume sub (some (outOffset, outLen)), sub, .ok ())
  | _ => (f, sub, .ok ())

/-! ## Settling -/

/-- Removes an account if it exists and is empty. -/
def clearEmpty (log : CommitLog) (s : Overlay) (a : Address) : Except Requirement Overlay := do
  if ← s.accountExists a log then
    if ← s.isEmpty a log then return s.remove a else return s
  else return s

/-- The account changes after settling.  A transaction that failed starts over from `fresh`,
    the state before it was paid for.  The caller gets back what was claimed in advance and
    pays for the gas used, the beneficiary is paid, and accounts that destroyed themselves, or
    that took part and are empty, are removed. -/
def settledOverlay (f : Frame) (chain : ChainView) (usedGas : Gas) (preclaimed : Word)
    (fresh : Overlay) (beneficiary : Address) : Except Requirement Overlay := do
  let log := chain.log
  let caller := f.context.caller
  let succeeded : Bool := f.status = .exitedOk
  let s ← if succeeded then pure f.overlay else fresh.decreaseBalance caller preclaimed log
  let fee := (usedGas * f.context.gasPrice).toWord
  let s ← s.increaseBalance caller preclaimed log
  let s ← s.decreaseBalance caller fee log
  if !s.rules.allowPartialChange then s.require beneficiary log
  let s ← s.increaseBalance beneficiary fee log
  let s := if succeeded then f.removed.foldl Overlay.remove s else s
  if s.rules.emptyExists then return s else s.touched.toList.foldlM (clearEmpty log) s

/-- **Settles the transaction.**  What a failed transaction logged and removed is dropped. -/
def settle (f : Frame) (chain : ChainView) (usedGas : Gas) (preclaimed : Word) (fresh : Overlay)
    (beneficiary : Address) : Frame × Except Requirement Unit :=
  f.attempt (f.settledOverlay chain usedGas preclaimed fresh beneficiary) fun overlay =>
  if f.status = .exitedOk then ({ f with overlay := overlay }, .ok ())
  else ({ f with overlay := overlay, removed := [], logs := [] }, .ok ())

end Frame

end ResumableEvm
