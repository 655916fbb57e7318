import ResumableEvm.Frame

/-!
# Checks before an instruction

Before an instruction has any effect, everything that could stop it is looked at: whether the
rules have it, whether its operands are there, whether it would change a static frame, and
whether every datum it reads is known.  A check only looks, so a frame whose step raised a
requirement is where it was.

* `Instruction.isEnabled` — whether the rules have an instruction.
* `Frame.createdAddress` — where a creation would lead.
* `Frame.check` — all checks in order.
-/

namespace ResumableEvm

/-- Why an instruction cannot be carried out. -/
inductive Refusal where
  | fails (e : ExitError)
  | requires (r : Requirement)
  deriving DecidableEq, Repr

def Instruction.isEnabled (rules : Rules) : Instruction → Bool
  | .call .delegateCall => rules.hasDelegateCall
  | .call .staticCall => rules.hasStaticCall
  | .revert => rules.hasRevert
  | .query .returnDataSize | .returnDataCopy => rules.hasReturnData
  | .binary .shl | .binary .shr | .binary .sar => rules.hasBitwiseShift
  | .extCodeHash => rules.hasExtCodeHash
  | .create .bySalt => rules.hasCreate2
  | i => i.arity.isSome

/-- Whether the hash of a block can be asked for: those of the 256 blocks before this one. -/
def Header.reaches (block : Header) (number : Word) : Bool :=
  number < block.number ∧ (block.number - number).toNat ≤ 256

namespace Frame

/-- Whether the stack has room for an instruction. -/
def checkStack (f : Frame) (i : Instruction) : Except ExitError Unit :=
  match i.arity with
  | some (taken, given) => f.machine.stack.check taken given
  | none => .ok ()

/-- Whether an instruction may run in a static frame. -/
def checkStatic (f : Frame) : Instruction → Except ExitError Unit
  | .sstore | .log _ | .create _ | .selfDestruct => .error .notStatic
  | .call .call => if f.operand 2 = 0 then .ok () else .error .notStatic
  | _ => .ok ()

/-- Whether memory can hold the region that the creation code is read from. -/
def canReadCode (f : Frame) (rules : Rules) : Bool :=
  let offset := f.operand 1
  let len := f.operand 2
  len = 0 || (offset.isIndex && len.isIndex && offset.toNat + len.toNat ≤ rules.memoryLimit.toNat)

/-- The address of the account that a creation would create, if its code can be read. -/
def createdAddress? (f : Frame) (chain : ChainView) :
    CreateKind → Except Requirement (Option Address)
  | .byNonce => (f.overlay.nonce f.context.address chain.log).map
      fun nonce => some (createAddress f.context.address nonce)
  | .bySalt =>
    if f.canReadCode chain.rules then
      let code := f.machine.memory.read (f.operand 1) (f.operand 2)
      .ok (some (saltedAddress f.context.address (f.operand 3) code))
    else .ok none

/-- **Whether everything an instruction reads is known.** -/
def checkKnown (f : Frame) (chain : ChainView) (i : Instruction) : Except Requirement Unit := do
  let self := f.context.address
  let known (a : Address) : Except Requirement Unit := f.overlay.require a chain.log
  match i with
  | .balance | .extCodeHash => known (Address.ofWord (f.operand 0))
  | .extCodeSize | .extCodeCopy => f.overlay.requireCode (Address.ofWord (f.operand 0)) chain.log
  | .sload | .sstore =>
    known self
    discard (f.overlay.storage self (f.operand 0) chain.log)
  | .call _ =>
    known self
    known (Address.ofWord (f.operand 1))
  | .create kind =>
    known self
    match ← f.createdAddress? chain kind with
    | some a => known a
    | none => pure ()
  | .selfDestruct =>
    known self
    known (Address.ofWord (f.operand 0))
  | .blockHash =>
    if chain.block.reaches (f.operand 0) then discard (chain.log.blockHash (f.operand 0))
    else pure ()
  | _ => pure ()

/-- Whether the region of return data that an instruction copies is there. -/
def checkReturnData (f : Frame) : Instruction → Except ExitError Unit
  | .returnDataCopy =>
    if (f.operand 1).toNat + (f.operand 2).toNat > f.ret.size then .error .invalidRange else .ok ()
  | _ => .ok ()

/-- **All checks, in order:** the rules, the stack, a static frame, and what is read. -/
def check (f : Frame) (chain : ChainView) (op : Opcode) : Except Refusal Unit := do
  let i := op.instruction
  if i.isEnabled chain.rules then
    (f.checkStack i).mapError .fails
    if f.context.isStatic then (f.checkStatic i).mapError .fails
    (f.checkReturnData i).mapError .fails
    (f.checkKnown chain i).mapError .requires
  else throw (.fails (.invalidCode op))

end Frame

end ResumableEvm
