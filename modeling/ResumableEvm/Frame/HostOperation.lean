import ResumableEvm.Event
import ResumableEvm.Frame.Check

/-!
# Operations of the surroundings

The instructions that the bytecode machine traps on: state, the environment, logs, calls,
creations and self-destruction.  By the time they run their operands have been checked and
paid for, and everything they read is known.

* `FrameControl` — how the frame goes on.
* `Frame.perform` — carries out a trapped opcode.
-/

namespace ResumableEvm

/-- How a frame goes on after an instruction. -/
inductive FrameControl where
  | proceed
  | exit (reason : ExitReason)
  | invokeCall (context : Context) (outOffset outLen : Word)
  | invokeCreate (context : Context)
  deriving DecidableEq

/-- What an instruction reports. -/
structure Performed where
  control : FrameControl := .proceed
  event : Option Event := none

namespace Frame

/-! ## Results -/

/-- Ends an instruction with a result on the stack. -/
def giving (f : Frame) (w : Word) (control : FrameControl := .proceed)
    (event : Option Event := none) : Frame × Except Interrupt Performed :=
  match f.machine.stack.push w with
  | .ok stack => ({ f with machine := { f.machine with stack := stack } }, .ok ⟨control, event⟩)
  | .error e => (f, .ok ⟨.exit (.error e), event⟩)

/-- Ends an instruction with a write to memory, if the write was allowed. -/
def writing (f : Frame) (r : Except ExitFatal Memory) : Frame × Except Interrupt Performed :=
  match r with
  | .ok memory => ({ f with machine := { f.machine with memory := memory } }, .ok {})
  | .error e => (f, .ok { control := .exit (.fatal e) })

/-- Ends an instruction that found too few operands. -/
def lacking (f : Frame) : Frame × Except Interrupt Performed :=
  (f, .ok { control := .exit (.error .stackUnderflow) })

/-! ## The environment -/

def queryWord (f : Frame) (chain : ChainView) (afterGas : Gas) : Query → Word
  | .address => f.context.address.toWord
  | .origin => f.context.origin.toWord
  | .caller => f.context.caller.toWord
  | .callValue => f.context.apparentValue
  | .gasPrice => f.context.gasPrice.toWord
  | .returnDataSize => Word.ofNat f.ret.size
  | .coinbase => chain.block.beneficiary.toWord
  | .timestamp => Word.ofNat chain.block.timestamp
  | .number => chain.block.number
  | .difficulty => chain.block.difficulty
  | .gasLimit => chain.block.gasLimit.toWord
  | .gas => afterGas.toWord

/-- The hash of an account's code, zero where there is no account or an empty one. -/
def codeHash (f : Frame) (chain : ChainView) (a : Address) : Except Requirement Word := do
  if ← f.overlay.accountExists a chain.log then
    if ← f.overlay.isEmpty a chain.log then return 0
    else return Word.ofBytes (Keccak.digest (← f.overlay.code a chain.log))
  else return 0

/-! ## Calls and creations -/

/-- The gas that can be handed on. -/
def forwardable (rules : Rules) (afterGas : Gas) : Gas :=
  if rules.keeps64th then afterGas.allBut64th else afterGas

/-- Whether no further frame can be entered: calls nest too deep, or the balance does not
    cover the value. -/
def cannotEnter (f : Frame) (chain : ChainView) (value : Word) : Except Requirement Bool := do
  if f.depth ≥ chain.rules.callStackLimit.toNat then return true
  else return (← f.overlay.balance f.context.address chain.log) < value

def createContext (parent : Context) (address : Address) (code : Bytes) (gasLimit : Gas)
    (value : Word) : Context where
  address := address
  codeAddress := address
  caller := parent.address
  code := code
  data := ByteArray.empty
  gasLimit := gasLimit
  gasPrice := parent.gasPrice
  origin := parent.origin
  value := value
  apparentValue := value
  isStatic := parent.isStatic

/-- Asks for a creation whose code is in the region of memory given.  The creator's nonce goes
    up whatever becomes of the creation. -/
def performCreate (f : Frame) (chain : ChainView) (afterGas : Gas) (value offset len : Word)
    (salt : Option Word) : Frame × Except Interrupt Performed :=
  let f := { f with ret := ByteArray.empty }
  let self := f.context.address
  f.reading (f.cannotEnter chain value) fun declined =>
  if declined then f.giving 0
  else
    let gasLimit := forwardable chain.rules afterGas
    let code := f.machine.memory.read offset len
    f.reading (f.overlay.nonce self chain.log) fun nonce =>
    let address :=
      match salt with
      | some salt => saltedAddress self salt code
      | none => createAddress self nonce
    f.attempt (nextNonce nonce) fun raised =>
    f.reading (f.overlay.setNonce self raised chain.log) fun overlay =>
    ({ f with overlay := overlay }).giving address.toWord
      (.invokeCreate (createContext f.context address code gasLimit value))
      (some (.create self address value code gasLimit))

/-- The context of a call of each kind.  A delegating call keeps the caller and the value that
    its own caller sees; a static call moves no value and allows no change. -/
def callContext (kind : CallKind) (parent : Context) (target : Address) (code input : Bytes)
    (gasLimit : Gas) (value : Word) : Context :=
  let called : Context :=
    { address := target, codeAddress := target, caller := parent.address, code := code,
      data := input, gasLimit := gasLimit, gasPrice := parent.gasPrice, origin := parent.origin,
      value := value, apparentValue := value, isStatic := parent.isStatic }
  match kind with
  | .call => called
  | .callCode => { called with address := parent.address }
  | .delegateCall =>
    { called with
      address := parent.address, caller := parent.caller, value := 0,
      apparentValue := parent.apparentValue }
  | .staticCall => { called with value := 0, apparentValue := 0, isStatic := true }

/-- The operands of a call. -/
structure CallOperands where
  gas : Word
  target : Address
  /-- The value to transfer, zero for the kinds that transfer none. -/
  value : Word
  inOffset : Word
  inLen : Word
  outOffset : Word
  outLen : Word

/-- Takes the operands of a call off a stack. -/
def callOperands? : CallKind → List Word → Option (CallOperands × List Word)
  | .call, gas :: target :: value :: inOffset :: inLen :: outOffset :: outLen :: rest
  | .callCode, gas :: target :: value :: inOffset :: inLen :: outOffset :: outLen :: rest =>
    some (⟨gas, Address.ofWord target, value, inOffset, inLen, outOffset, outLen⟩, rest)
  | .delegateCall, gas :: target :: inOffset :: inLen :: outOffset :: outLen :: rest
  | .staticCall, gas :: target :: inOffset :: inLen :: outOffset :: outLen :: rest =>
    some (⟨gas, Address.ofWord target, 0, inOffset, inLen, outOffset, outLen⟩, rest)
  | _, _ => none

def performCall (f : Frame) (chain : ChainView) (kind : CallKind) (stipend afterGas : Gas)
    (o : CallOperands) : Frame × Except Interrupt Performed :=
  let f := { f with ret := ByteArray.empty }
  f.reading (f.cannotEnter chain o.value) fun declined =>
  if declined then f.giving 0
  else
    let gasLimit := min (Gas.mk o.gas) (forwardable chain.rules afterGas) + stipend
    let input := f.machine.memory.read o.inOffset o.inLen
    f.reading (f.overlay.code o.target chain.log) fun code =>
    let context := callContext kind f.context o.target code input gasLimit o.value
    f.giving 1 (.invokeCall context o.outOffset o.outLen)
      (some (.call o.target input gasLimit context.isStatic context))

/-- Destroys the account in favour of a target, which gets its whole balance. -/
def performSelfDestruct (f : Frame) (chain : ChainView) (target : Address) :
    Frame × Except Interrupt Performed :=
  let self := f.context.address
  f.reading (f.overlay.balance self chain.log) fun balance =>
  let removed := if f.removed.contains self then f.removed else f.removed ++ [self]
  let f := { f with removed := removed }
  f.reading (f.overlay.increaseBalance target balance chain.log) fun overlay =>
  let f := { f with overlay := overlay }
  f.reading (f.overlay.balance self chain.log) fun remaining =>
  f.reading (f.overlay.decreaseBalance self remaining chain.log) fun overlay =>
  ({ f with overlay := overlay.touch target },
    .ok ⟨.exit (.succeed .suicided), some (.selfDestruct self target balance)⟩)

/-! ## Every trapped opcode -/

/-- **Carries out a trapped opcode.**  `stipend` is what a call hands on for free, `afterGas`
    what is left once the instruction has been paid for.  Operands are taken before anything
    is read. -/
def perform (f : Frame) (chain : ChainView) (op : Opcode) (stipend afterGas : Gas) :
    Frame × Except Interrupt Performed :=
  let log := chain.log
  match op.instruction, f.machine.stack.items with
  | .query q, _ => f.giving (f.queryWord chain afterGas q)
  | .keccak, offset :: len :: items =>
    (f.withItems items).giving
      (Word.ofBytes (Keccak.digest (f.machine.memory.read offset len)))
  | .balance, a :: items =>
    let f := f.withItems items
    f.reading (f.overlay.balance (Address.ofWord a) log) fun balance => f.giving balance
  | .extCodeSize, a :: items =>
    let f := f.withItems items
    f.reading (f.overlay.code (Address.ofWord a) log) fun code => f.giving (Word.ofNat code.size)
  | .extCodeCopy, a :: offset :: codeOffset :: len :: items =>
    let f := f.withItems items
    f.reading (f.overlay.code (Address.ofWord a) log) fun code =>
    f.writing (f.machine.memory.copyLarge offset codeOffset len code)
  | .extCodeHash, a :: items =>
    let f := f.withItems items
    f.reading (f.codeHash chain (Address.ofWord a)) fun hash => f.giving hash
  | .returnDataCopy, offset :: dataOffset :: len :: items =>
    (f.withItems items).writing (f.machine.memory.copyLarge offset dataOffset len f.ret)
  | .blockHash, number :: items =>
    let f := f.withItems items
    if chain.block.reaches number then
      f.reading (log.blockHash number) fun hash => f.giving hash
    else f.giving 0
  | .sload, index :: items =>
    let f := f.withItems items
    f.reading (f.overlay.storage f.context.address index log) fun value => f.giving value
  | .sstore, index :: value :: items =>
    let f := f.withItems items
    f.reading (f.overlay.writeStorage f.context.address index value log) fun overlay =>
    ({ f with overlay := overlay }, .ok {})
  | .log topics, offset :: len :: items =>
    if items.length < topics then f.lacking
    else
      let entry : LogEntry :=
        ⟨f.context.address, items.take topics, f.machine.memory.read offset len⟩
      (({ f with logs := f.logs ++ [entry] }).withItems (items.drop topics), .ok {})
  | .create .byNonce, value :: offset :: len :: items =>
    (f.withItems items).performCreate chain afterGas value offset len none
  | .create .bySalt, value :: offset :: len :: salt :: items =>
    (f.withItems items).performCreate chain afterGas value offset len (some salt)
  | .call kind, items =>
    match callOperands? kind items with
    | some (operands, items) =>
      (f.withItems items).performCall chain kind stipend afterGas operands
    | none => f.lacking
  | .selfDestruct, target :: items =>
    (f.withItems items).performSelfDestruct chain (Address.ofWord target)
  | i, _ =>
    match i.arity with
    | some (_ + 1, _) => f.lacking
    | _ => (f, .ok { control := .exit (.error (.invalidCode op)) })

end Frame

end ResumableEvm
