import ResumableEvm.Frame

/-!
# Prices

What an instruction costs: gas of its own, the memory it needs, the stipend that a call with
value hands on, and the refund that clearing state earns.  All of it is read off the stack
before the instruction runs.

* `Frame.wordsNeeded` — the memory after the instruction, in words.
* `Frame.price` — the gas of its own.
* `Frame.stipend` — what a call hands on for free.
* `Frame.refundOf` — what is given back at the end.
-/

namespace ResumableEvm

namespace Frame

/-! ## Memory -/

/-- The words needed to cover `len` bytes from `offset` on as well; none for no bytes. -/
def expand (current : Gas) (offset len : Word) : Gas :=
  if len = 0 then current
  else max current (Gas.ofByteLength (Gas.mk offset + Gas.mk len).toNat)

/-- The words needed to cover the region that two operands give. -/
def cover (f : Frame) (current : Gas) (offset len : Nat) : Gas :=
  expand current (f.operand offset) (f.operand len)

/-- **The memory after an instruction,** in words. -/
def wordsNeeded (f : Frame) (i : Instruction) : Gas :=
  let current := f.memoryWords
  match i with
  | .keccak | .ret | .revert | .log _ => f.cover current 0 1
  | .codeCopy | .callDataCopy | .returnDataCopy => f.cover current 0 2
  | .extCodeCopy => f.cover current 1 3
  | .mload | .mstore => expand current (f.operand 0) 32
  | .mstore8 => expand current (f.operand 0) 1
  | .create _ => f.cover current 1 2
  | .call .call | .call .callCode => f.cover (f.cover current 3 4) 5 6
  | .call .delegateCall | .call .staticCall => f.cover (f.cover current 2 3) 4 5
  | _ => current

/-! ## Storage -/

/-- What a storage write depends on: the value before the transaction, the current value and
    the value written. -/
structure SlotWrite where
  initial : Word
  current : Word
  value : Word
  deriving DecidableEq, Repr

/-- The storage write that the operands ask for. -/
def slotWrite (f : Frame) (chain : ChainView) : Except Requirement SlotWrite := do
  let self := f.context.address
  let index := f.operand 0
  let current ← f.overlay.storage self index chain.log
  return ⟨f.overlay.initialStorage self index chain.log, current, f.operand 1⟩

/-- The gas of a storage write.  Priced by net effect, only the first write that changes a
    slot costs more than a look at it. -/
def SlotWrite.price (w : SlotWrite) (net : Bool) : Gas :=
  if net then
    if w.value = w.current then 200
    else if w.initial = w.current then (if w.initial = 0 then 20000 else 5000)
    else 200
  else if w.value ≠ 0 ∧ w.current = 0 then 20000
  else 5000

/-- The refund of a storage write.  Priced by net effect, clearing a slot earns what undoing
    it takes back, and restoring a slot's first value earns the price of changing it. -/
def SlotWrite.refund (w : SlotWrite) (net : Bool) : Int :=
  if net then
    if w.value = w.current then 0
    else if w.initial = w.current then
      if w.initial ≠ 0 ∧ w.value = 0 then 15000 else 0
    else
      let cleared : Int :=
        if w.initial = 0 then 0
        else (if w.current = 0 then -15000 else 0) + (if w.value = 0 then 15000 else 0)
      let restored : Int :=
        if w.initial = w.value then (if w.initial = 0 then 19800 else 4800) else 0
      cleared + restored
  else if w.value = 0 ∧ w.current ≠ 0 then 15000
  else 0

/-! ## Calls and self-destruction -/

/-- Whether a call or self-destruction with the given value brings an account into being. -/
def makesAccount (f : Frame) (chain : ChainView) (a : Address) (value : Word) :
    Except Requirement Bool := do
  if chain.rules.accounts.emptyExists then return !(← f.overlay.accountExists a chain.log)
  else if value = 0 then return false
  else f.overlay.isEmpty a chain.log

/-- The surcharge for a call that transfers value. -/
def transferGas (f : Frame) : CallKind → Gas
  | .call | .callCode => if f.operand 2 = 0 then 0 else 9000
  | _ => 0

/-- The surcharge for a call that brings its target into being. -/
def newAccountGas (f : Frame) (chain : ChainView) : CallKind → Except Requirement Gas
  | .call => do
    return if ← f.makesAccount chain (Address.ofWord (f.operand 1)) (f.operand 2) then 25000 else 0
  | _ => .ok 0

/-- The gas of a call, apart from what it hands on. -/
def callGas (f : Frame) (chain : ChainView) (kind : CallKind) : Except Requirement Gas := do
  return chain.rules.gasCall + f.transferGas kind + (← f.newAccountGas chain kind)

def selfDestructGas (f : Frame) (chain : ChainView) : Except Requirement Gas := do
  let value ←
    if chain.rules.accounts.emptyExists then pure 0
    else f.overlay.balance f.context.address chain.log
  if ← f.makesAccount chain (Address.ofWord (f.operand 0)) value then
    return chain.rules.gasSuicide + chain.rules.gasSuicideNewAccount
  else return chain.rules.gasSuicide

/-! ## Every instruction -/

/-- The words of 32 bytes that the length in an operand takes up. -/
def lengthWords (f : Frame) (i : Nat) : Gas := Gas.ofByteLength (f.operand i).toNat

/-- **The gas of an instruction,** apart from memory. -/
def price (f : Frame) (chain : ChainView) (i : Instruction) : Except Requirement Gas :=
  let rules := chain.rules
  match i with
  | .call kind => f.callGas chain kind
  | .selfDestruct => f.selfDestructGas chain
  | .sstore => (f.slotWrite chain).map (·.price rules.hasNetStorageGas)
  | .keccak => .ok (30 + 6 * f.lengthWords 1)
  | .log topics => .ok (375 + 8 * Gas.mk (f.operand 1) + 375 * Gas.ofNat topics)
  | .extCodeCopy => .ok (rules.gasExtCode + 3 * f.lengthWords 3)
  | .callDataCopy | .codeCopy | .returnDataCopy => .ok (3 + 3 * f.lengthWords 2)
  | .binary .exp =>
    .ok (10 + rules.gasExpByte * Gas.ofNat (((f.operand 1).bits + 7) / 8))
  | .create .byNonce => .ok 32000
  | .create .bySalt => .ok (32000 + 6 * f.lengthWords 2)
  | .jumpDest => .ok 1
  | .sload => .ok rules.gasSload
  | .stop | .ret | .revert | .invalid => .ok 0
  | .query _ | .callDataSize | .codeSize | .pop | .programCounter | .memorySize => .ok 2
  | .binary .mul | .binary .div | .binary .sdiv | .binary .mod | .binary .smod
  | .binary .signExtend => .ok 5
  | .ternary _ | .jump => .ok 8
  | .jumpIf => .ok 10
  | .extCodeSize => .ok rules.gasExtCode
  | .balance => .ok rules.gasBalance
  | .blockHash => .ok 20
  | .extCodeHash => .ok 400
  | _ => .ok 3

/-- The gas that a call with value hands on for free. -/
def stipend (f : Frame) : Instruction → Gas
  | .call .call | .call .callCode => if f.operand 2 = 0 then 0 else 2300
  | _ => 0

/-- **The refund of an instruction.**  An account that destroys itself earns it once. -/
def refundOf (f : Frame) (chain : ChainView) (i : Instruction) : Except Requirement Int :=
  match i with
  | .sstore => (f.slotWrite chain).map (·.refund chain.rules.hasNetStorageGas)
  | .selfDestruct => .ok (if f.removed.contains f.context.address then 0 else 24000)
  | _ => .ok 0

end Frame

end ResumableEvm
