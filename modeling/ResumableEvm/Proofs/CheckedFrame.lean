import ResumableEvm.Proofs.CheckedAccounts
import ResumableEvm.Proofs.CheckedMachine
import ResumableEvm.Proofs.CheckedPrice
import ResumableEvm.Proofs.Progress

/-!
# A frame whose steps could fail

A frame does with operations that may have no result what its instructions ask for: it looks at
operands, measures how far back a block lies, reads regions of memory, moves balances, and raises
the nonce of a creator.  The last alone can fail.  A frame stops there with a fault, which here is
an overflow like any other.

* `surface`, `surfaced` — a fault as a failure.
* `Frame.found` — the operands that an instruction is checked and priced by, each looked up.
* `Frame.checkedCheck_eq`, `Frame.checkedCharge_eq`, `Frame.checkedAfford_eq` — what comes before
  an instruction.
* `Frame.checkedPerform_eq` — an instruction of the surroundings fails only by a fault.
* `Frame.checkedStep_eq` — so does a step of a frame.
* `Frame.step_bounded` — what is returned stays within bounds.
-/

namespace ResumableEvm

/-! ## Faults -/

/-- How a fault fails. -/
def Fault.panic : Fault → Panic
  | .overflow => .overflow
  | .divisionByZero => .divisionByZero

/-- A result in which a fault is a failure. -/
def surface {α : Type} : Except Interrupt α → Except Panic (Except Interrupt α)
  | .error (.fault fault) => .error fault.panic
  | result => .ok result

/-- What an operation left behind, with its result. -/
def surfaced {γ α : Type} (p : γ × Except Interrupt α) : Except Panic (γ × Except Interrupt α) :=
  (surface p.2).map (p.1, ·)

/-- A nonce is raised, unless it is the largest, which is an overflow. -/
lemma nextNonce_cases (nonce : Word) :
    nonce.checkedAdd 1 = .error .overflow ∧ nextNonce nonce = .error (.fault .overflow) ∨
      ∃ raised, nonce.checkedAdd 1 = .ok raised ∧ nextNonce nonce = .ok raised := by
  have hword := nonce.toNat_le_maxWord
  have hone : (1 : Word).toNat = 1 := rfl
  by_cases hlast : nonce.toNat = maxWord
  · exact .inl ⟨if_neg (by omega), if_pos hlast⟩
  · exact .inr ⟨_, if_pos (by omega), if_neg hlast⟩

/-- How far back a block lies is measured from the later one. -/
def Header.checkedReaches (block : Header) (number : Word) : Except Panic Bool := do
  if number < block.number then return (← block.number.checkedSub number).toNat ≤ 256
  else return false

@[simp] lemma Header.checkedReaches_eq (block : Header) (number : Word) :
    block.checkedReaches number = .ok (block.reaches number) := by
  simp only [checkedReaches, reaches]
  split <;> rename_i h
  · rw [Word.checkedSub_of_le (BitVec.le_of_lt h)]
    simp [h]
  · simp [h]

namespace Precompile

def checkedPrice (c : Precompile) (data : Bytes) : Except Panic Gas :=
  match c with
  | .modExp => ModExp.checkedPrice data
  | _ => .ok (c.price data)

def checkedRun (c : Precompile) (data : Bytes) : Except Panic (Except ExitError Bytes) :=
  match c with
  | .modExp => ModExp.checkedRun data
  | _ => .ok (c.run data)

def checkedRunWithin (c : Precompile) (data : Bytes) (limit : Gas) :
    Except Panic (Except ExitError (Gas × Bytes)) := do
  let gas ← c.checkedPrice data
  if gas > limit then return .error .outOfGas
  else return (← c.checkedRun data).map (gas, ·)

@[simp] lemma checkedPrice_eq (c : Precompile) (data : Bytes) :
    c.checkedPrice data = .ok (c.price data) := by
  cases c with
  | modExp => exact ModExp.checkedPrice_eq data
  | _ => rfl

@[simp] lemma checkedRun_eq (c : Precompile) (data : Bytes) :
    c.checkedRun data = .ok (c.run data) := by
  cases c with
  | modExp => exact ModExp.checkedRun_eq data
  | _ => rfl

@[simp] lemma checkedRunWithin_eq (c : Precompile) (data : Bytes) (limit : Gas) :
    c.checkedRunWithin data limit = .ok (c.runWithin data limit) := by
  simp only [checkedRunWithin, runWithin, checkedPrice_eq, checkedRun_eq, ok_bind]
  split
  · rfl
  · cases c.run data <;> rfl

end Precompile

namespace Frame

variable (f : Frame) (chain : ChainView)

/-! ## Going on -/

def checkedAttempt {ε α β : Type} (r : Except Panic (Except ε α))
    (k : α → Except Panic (Frame × Except ε β)) : Except Panic (Frame × Except ε β) := do
  match ← r with
  | .ok a => k a
  | .error e => return (f, .error e)

def checkedReading {α β : Type} (r : Except Panic (Except Requirement α))
    (k : α → Except Panic (Frame × Except Interrupt β)) :
    Except Panic (Frame × Except Interrupt β) :=
  f.checkedAttempt (r.map Interrupt.ofRead) k

variable {f chain}

lemma checkedAttempt_eq {ε α β : Type} {r : Except ε α}
    {k : α → Except Panic (Frame × Except ε β)} {k' : α → Frame × Except ε β}
    (h : ∀ a, k a = .ok (k' a)) : f.checkedAttempt (.ok r) k = .ok (f.attempt r k') := by
  cases r with
  | ok a => exact h a
  | error e => rfl

lemma checkedReading_eq {α β : Type} {r : Except Requirement α}
    {k : α → Except Panic (Frame × Except Interrupt β)} {k' : α → Frame × Except Interrupt β}
    (h : ∀ a, k a = surfaced (k' a)) :
    f.checkedReading (.ok r) k = surfaced (f.reading r k') := by
  cases r with
  | ok a => exact h a
  | error e => rfl

/-- A nonce is raised, or there is a failure. -/
lemma checkedAdd_nonce {β : Type} {nonce : Word}
    {k : Word → Except Panic (Frame × Except Interrupt β)}
    {k' : Word → Frame × Except Interrupt β} (h : ∀ raised, k raised = surfaced (k' raised)) :
    (nonce.checkedAdd 1 >>= k) = surfaced (f.attempt (nextNonce nonce) k') := by
  rcases nextNonce_cases nonce with ⟨hsum, hnext⟩ | ⟨raised, hsum, hnext⟩ <;> rw [hsum, hnext]
  · rfl
  · exact h raised

/-- An operation without a fault does not fail. -/
lemma Faultless.surfaced_eq {β : Type} {result : Frame × Except Interrupt β}
    (h : Faultless result) : surfaced result = .ok result := by
  rcases result with ⟨g, (r | fault) | b⟩
  · rfl
  · exact absurd rfl (h fault)
  · rfl

variable (f chain)

/-! ## Before an instruction -/

/-- The frame as an instruction looks at it, with seven operands at most on its stack. -/
def found : Frame := f.withItems ((List.range 7).map f.operand)

def checkedOperand (i : ℕ) : Except Panic Word := do
  return (← f.machine.stack.checkedPeek i).toOption.getD 0

def checkedFound : Except Panic Frame := do
  return f.withItems (← (List.range 7).mapM f.checkedOperand)

def checkedCheckStack (i : Instruction) : Except Panic (Except ExitError Unit) :=
  match i.arity with
  | some (taken, given) => f.machine.stack.checkedCheck taken given
  | none => .ok (.ok ())

def checkedCreatedAddress : CreateKind → Except Panic (Except Requirement (Option Address))
  | .byNonce => .ok (f.createdAddress? chain .byNonce)
  | .bySalt => do
    if f.canReadCode chain.rules then
      let code ← f.machine.memory.checkedRead (f.operand 1) (f.operand 2)
      return .ok (some (saltedAddress f.context.address (f.operand 3) code))
    else return .ok none

def checkedKnown (i : Instruction) : Except Panic (Except Requirement Unit) :=
  match i with
  | .create kind =>
    onward (.ok (f.overlay.require f.context.address chain.log)) fun _ =>
    onward (f.checkedCreatedAddress chain kind) fun created =>
    match created with
    | some a => .ok (f.overlay.require a chain.log)
    | none => .ok (.ok ())
  | .blockHash => do
    if ← chain.block.checkedReaches (f.operand 0) then
      return discard (chain.log.blockHash (f.operand 0))
    else return .ok ()
  | _ => .ok (f.checkKnown chain i)

def checkedCheck (op : Opcode) : Except Panic (Except Refusal Unit) :=
  let i := op.instruction
  if i.isEnabled chain.rules then
    onward ((f.checkedCheckStack i).map (·.mapError .fails)) fun _ => do
    let f ← f.checkedFound
    onward (.ok (if f.context.isStatic then (f.checkStatic i).mapError .fails else .ok ())) fun _ =>
    onward (.ok ((f.checkReturnData i).mapError .fails)) fun _ =>
    (f.checkedKnown chain i).map (·.mapError .requires)
  else .ok (.error (.fails (.invalidCode op)))

/-- The gas of an instruction is reckoned in gas, which never leaves its width, but from a number
    of topics and from the bytes of an exponent. -/
def checkedPrice (op : Opcode) : Except Panic (Except Requirement Gas) :=
  match op.instruction with
  | .log _ => do
    let topics ← subIndex op.byte.toNat 0xa0
    return .ok (375 + 8 * Gas.mk (f.operand 1) + 375 * Gas.ofNat topics)
  | .binary .exp => do
    let bits ← addIndex (f.operand 1).bits 7
    return .ok (10 + chain.rules.gasExpByte * Gas.ofNat (bits / 8))
  | i => .ok (f.price chain i)

def checkedCharge (op : Opcode) : Except Panic (Except Requirement Charge) := do
  let f ← f.checkedFound
  let i := op.instruction
  onward (f.checkedPrice chain op) fun price =>
    .ok ((f.refundOf chain i).map fun refund => ⟨f.wordsNeeded i, price, f.stipend i, refund⟩)

def checkedAfford (rules : Rules) (i : Instruction) (c : Charge) :
    Except Panic (Except ExitReason (Gas × Memory)) := do
  if f.context.gasLimit < f.gasAfter c then return .error (.error .outOfGas)
  let memoryEnd := c.words * 32
  if memoryEnd.toNat > rules.memoryLimit.toNat then return .error (.fatal .notSupported)
  let afterGas := f.context.gasLimit - f.gasAfter c
  if (← f.checkedFound).asksTooMuch rules i afterGas then return .error (.error .outOfGas)
  match ← f.machine.memory.checkedResizeEnd memoryEnd.toNat with
  | .ok memory => return .ok (afterGas, memory)
  | .error e => return .error (.error e)

@[simp] lemma checkedOperand_eq (i : ℕ) : f.checkedOperand i = .ok (f.operand i) := by
  simp only [checkedOperand, OperandStack.checkedPeek_eq, ok_bind, OperandStack.peek, operand,
    OperandStack.peekD]
  cases f.machine.stack.items[i]? <;> rfl

@[simp] lemma checkedFound_eq : f.checkedFound = .ok f.found := by
  have hread : f.checkedOperand = fun i => pure (f.operand i) := funext f.checkedOperand_eq
  rw [checkedFound, hread, List.mapM_pure]
  rfl

@[simp] lemma checkedCheckStack_eq (i : Instruction) :
    f.checkedCheckStack i = .ok (f.checkStack i) := by
  simp only [checkedCheckStack, checkStack, OperandStack.checkedCheck_eq]
  cases i.arity <;> rfl

@[simp] lemma checkedCreatedAddress_eq (kind : CreateKind) :
    f.checkedCreatedAddress chain kind = .ok (f.createdAddress? chain kind) := by
  cases kind with
  | byNonce => rfl
  | bySalt =>
      simp only [checkedCreatedAddress, createdAddress?, Memory.checkedRead_eq, ok_bind]
      split <;> rfl

@[simp] lemma checkedKnown_eq (i : Instruction) :
    f.checkedKnown chain i = .ok (f.checkKnown chain i) := by
  cases i with
  | create kind =>
      simp only [checkedKnown, checkKnown, checkedCreatedAddress_eq]
      refine onward_eq fun _ => onward_eq fun created => ?_
      cases created <;> rfl
  | blockHash =>
      simp only [checkedKnown, checkKnown, Header.checkedReaches_eq, ok_bind]
      split <;> rfl
  | _ => rfl

/-! An instruction looks at no operand but the first seven, so it finds what there is. -/

@[simp] lemma operand_found {k : ℕ} (h : k < 7) : f.found.operand k = f.operand k := by
  have hrange : (List.range 7)[k]? = some k := by rw [List.getElem?_range h]
  show ((List.range 7).map f.operand)[k]?.getD 0 = _
  rw [List.getElem?_map, hrange]
  rfl

@[simp] lemma checkStatic_found (i : Instruction) : f.found.checkStatic i = f.checkStatic i := by
  simp (disch := decide) only [checkStatic, operand_found]

@[simp] lemma checkReturnData_found (i : Instruction) :
    f.found.checkReturnData i = f.checkReturnData i := by
  simp (disch := decide) only [checkReturnData, operand_found]
  rfl

@[simp] lemma createdAddress?_found (kind : CreateKind) :
    f.found.createdAddress? chain kind = f.createdAddress? chain kind := by
  simp (disch := decide) only [createdAddress?, canReadCode, operand_found]
  rfl

@[simp] lemma checkKnown_found (i : Instruction) :
    f.found.checkKnown chain i = f.checkKnown chain i := by
  simp (disch := decide) only [checkKnown, operand_found, createdAddress?_found]
  rfl

@[simp] lemma wordsNeeded_found (i : Instruction) : f.found.wordsNeeded i = f.wordsNeeded i := by
  simp (disch := decide) only [wordsNeeded, cover, operand_found]
  rfl

@[simp] lemma slotWrite_found : f.found.slotWrite chain = f.slotWrite chain := by
  simp (disch := decide) only [slotWrite, operand_found]
  rfl

@[simp] lemma price_found (i : Instruction) : f.found.price chain i = f.price chain i := by
  simp (disch := decide) only [price, callGas, transferGas, newAccountGas, selfDestructGas,
    lengthWords, slotWrite_found, operand_found]
  rfl

@[simp] lemma stipend_found (i : Instruction) : f.found.stipend i = f.stipend i := by
  simp (disch := decide) only [stipend, operand_found]

@[simp] lemma refundOf_found (i : Instruction) :
    f.found.refundOf chain i = f.refundOf chain i := by
  simp only [refundOf, slotWrite_found]
  rfl

@[simp] lemma asksTooMuch_found (rules : Rules) (i : Instruction) (afterGas : Gas) :
    f.found.asksTooMuch rules i afterGas = f.asksTooMuch rules i afterGas := by
  simp (disch := decide) only [asksTooMuch, operand_found]

/-- **Checks do not fail.** -/
@[simp] lemma checkedCheck_eq (op : Opcode) :
    f.checkedCheck chain op = .ok (f.check chain op) := by
  simp only [checkedCheck, check, checkedCheckStack_eq, checkedFound_eq, checkedKnown_eq,
    checkStatic_found, checkReturnData_found, checkKnown_found, map_ok, ok_bind]
  split
  · refine onward_eq fun _ => ?_
    show onward (.ok (if f.context.isStatic then _ else _)) _ = _
    cases f.context.isStatic
    · exact onward_eq fun _ => onward_eq fun _ => rfl
    · exact onward_eq fun _ => onward_eq fun _ => rfl
  · rfl

/-- **Neither do prices.** -/
@[simp] lemma checkedPrice_eq (op : Opcode) :
    f.checkedPrice chain op = .ok (f.price chain op.instruction) := by
  simp only [checkedPrice]
  split <;> rename_i hi
  · rw [Opcode.subIndex_log hi, hi]
    rfl
  · have hbits : (f.operand 1).bits + 7 ≤ maxIndex :=
      (Nat.add_le_add_right (f.operand 1).bits_le 7).trans (by decide)
    rw [addIndex_of_le hbits, hi]
    rfl
  · rfl

@[simp] lemma checkedCharge_eq (op : Opcode) :
    f.checkedCharge chain op = .ok (f.charge chain op.instruction) := by
  simp only [checkedCharge, checkedFound_eq, checkedPrice_eq, price_found, wordsNeeded_found,
    stipend_found, refundOf_found, ok_bind]
  exact onward_eq fun price => by cases f.refundOf chain op.instruction <;> rfl

/-- What is paid for ends at a word. -/
@[simp] lemma checkedAfford_eq (rules : Rules) (i : Instruction) (c : Charge) :
    f.checkedAfford rules i c = .ok (f.afford rules i c) := by
  simp only [checkedAfford, afford]
  split
  · rfl
  · split
    · rfl
    · rw [checkedFound_eq, ok_bind, asksTooMuch_found]
      split
      · rfl
      · rw [Memory.checkedResizeEnd_eq _ (Gas.toNat_le _), ok_bind]
        cases f.machine.memory.resizeEnd (c.words * 32).toNat <;> rfl

/-! ## Instructions of the surroundings -/

def checkedPerformCreate (afterGas : Gas) (value offset len : Word) (salt : Option Word) :
    Except Panic (Frame × Except Interrupt Performed) :=
  let f := { f with ret := ByteArray.empty }
  let self := f.context.address
  f.checkedReading (.ok (f.cannotEnter chain value)) fun declined =>
  if declined then .ok (f.giving 0)
  else do
    let gasLimit := forwardable chain.rules afterGas
    let code ← f.machine.memory.checkedRead offset len
    f.checkedReading (.ok (f.overlay.nonce self chain.log)) fun nonce => do
    let address :=
      match salt with
      | some salt => saltedAddress self salt code
      | none => createAddress self nonce
    let raised ← nonce.checkedAdd 1
    f.checkedReading (.ok (f.overlay.setNonce self raised chain.log)) fun overlay =>
    .ok (({ f with overlay := overlay }).giving address.toWord
      (.invokeCreate (createContext f.context address code gasLimit value))
      (some (.create self address value code gasLimit)))

def checkedPerformCall (kind : CallKind) (stipend afterGas : Gas) (o : CallOperands) :
    Except Panic (Frame × Except Interrupt Performed) :=
  let f := { f with ret := ByteArray.empty }
  f.checkedReading (.ok (f.cannotEnter chain o.value)) fun declined =>
  if declined then .ok (f.giving 0)
  else do
    let gasLimit := min (Gas.mk o.gas) (forwardable chain.rules afterGas) + stipend
    let input ← f.machine.memory.checkedRead o.inOffset o.inLen
    f.checkedReading (.ok (f.overlay.code o.target chain.log)) fun code =>
    let context := callContext kind f.context o.target code input gasLimit o.value
    .ok (f.giving 1 (.invokeCall context o.outOffset o.outLen)
      (some (.call o.target input gasLimit context.isStatic context)))

def checkedPerformSelfDestruct (target : Address) :
    Except Panic (Frame × Except Interrupt Performed) :=
  let self := f.context.address
  f.checkedReading (.ok (f.overlay.balance self chain.log)) fun balance =>
  let removed := if f.removed.contains self then f.removed else f.removed ++ [self]
  let f := { f with removed := removed }
  f.checkedReading (f.overlay.checkedIncreaseBalance target balance chain.log) fun overlay =>
  let f := { f with overlay := overlay }
  f.checkedReading (.ok (f.overlay.balance self chain.log)) fun remaining =>
  f.checkedReading (f.overlay.checkedDecreaseBalance self remaining chain.log) fun overlay =>
  .ok ({ f with overlay := overlay.touch target },
    .ok ⟨.exit (.succeed .suicided), some (.selfDestruct self target balance)⟩)

def checkedPerform (op : Opcode) (stipend afterGas : Gas) :
    Except Panic (Frame × Except Interrupt Performed) :=
  let log := chain.log
  match op.instruction, f.machine.stack.items with
  | .keccak, offset :: len :: items => do
    let bytes ← f.machine.memory.checkedRead offset len
    return (f.withItems items).giving (Word.ofBytes (Keccak.digest bytes))
  | .extCodeCopy, a :: offset :: codeOffset :: len :: items =>
    let f := f.withItems items
    f.checkedReading (.ok (f.overlay.code (Address.ofWord a) log)) fun code => do
    return f.writing (← f.machine.memory.checkedCopyLarge offset codeOffset len code)
  | .returnDataCopy, offset :: dataOffset :: len :: items => do
    return (f.withItems items).writing
      (← f.machine.memory.checkedCopyLarge offset dataOffset len f.ret)
  | .blockHash, number :: items => do
    let f := f.withItems items
    if ← chain.block.checkedReaches number then
      f.checkedReading (.ok (log.blockHash number)) fun hash => .ok (f.giving hash)
    else return f.giving 0
  | .log _, offset :: len :: items => do
    let topics ← subIndex op.byte.toNat 0xa0
    if items.length < topics then return f.lacking
    else
      let entry : LogEntry :=
        ⟨f.context.address, items.take topics, ← f.machine.memory.checkedRead offset len⟩
      return (({ f with logs := f.logs ++ [entry] }).withItems (items.drop topics), .ok {})
  | .create .byNonce, value :: offset :: len :: items =>
    (f.withItems items).checkedPerformCreate chain afterGas value offset len none
  | .create .bySalt, value :: offset :: len :: salt :: items =>
    (f.withItems items).checkedPerformCreate chain afterGas value offset len (some salt)
  | .call kind, items =>
    match callOperands? kind items with
    | some (operands, items) =>
      (f.withItems items).checkedPerformCall chain kind stipend afterGas operands
    | none => .ok f.lacking
  | .selfDestruct, target :: items =>
    (f.withItems items).checkedPerformSelfDestruct chain (Address.ofWord target)
  -- what reads whole words, or finds too few operands
  | _, _ => .ok (f.perform chain op stipend afterGas)

/-- **A creation** fails only where the nonce of its creator is the largest. -/
lemma checkedPerformCreate_eq (afterGas : Gas) (value offset len : Word) (salt : Option Word) :
    f.checkedPerformCreate chain afterGas value offset len salt =
      surfaced (f.performCreate chain afterGas value offset len salt) := by
  simp only [checkedPerformCreate, performCreate, Memory.checkedRead_eq, ok_bind]
  refine checkedReading_eq fun declined => ?_
  split
  · exact (faultless_giving _ _ _).surfaced_eq.symm
  · refine checkedReading_eq fun nonce => ?_
    refine checkedAdd_nonce fun raised => ?_
    exact checkedReading_eq fun overlay => (faultless_giving _ _ _).surfaced_eq.symm

lemma checkedPerformCall_eq (kind : CallKind) (stipend afterGas : Gas) (o : CallOperands) :
    f.checkedPerformCall chain kind stipend afterGas o =
      surfaced (f.performCall chain kind stipend afterGas o) := by
  simp only [checkedPerformCall, performCall, Memory.checkedRead_eq, ok_bind]
  refine checkedReading_eq fun declined => ?_
  split
  · exact (faultless_giving _ _ _).surfaced_eq.symm
  · exact checkedReading_eq fun code => (faultless_giving _ _ _).surfaced_eq.symm

lemma checkedPerformSelfDestruct_eq (target : Address) :
    f.checkedPerformSelfDestruct chain target = surfaced (f.performSelfDestruct chain target) := by
  simp only [checkedPerformSelfDestruct, performSelfDestruct, Overlay.checkedIncreaseBalance_eq,
    Overlay.checkedDecreaseBalance_eq]
  exact checkedReading_eq fun _ => checkedReading_eq fun _ => checkedReading_eq fun _ =>
    checkedReading_eq fun _ => rfl

/-- **An instruction of the surroundings** fails only by a fault. -/
lemma checkedPerform_eq (op : Opcode) (stipend afterGas : Gas) :
    f.checkedPerform chain op stipend afterGas =
      surfaced (f.perform chain op stipend afterGas) := by
  simp only [checkedPerform]
  split
  case h_1 hi hitems =>
    simp only [perform, hi, hitems, Memory.checkedRead_eq, ok_bind]
    exact (faultless_giving _ _ _).surfaced_eq.symm
  case h_2 hi hitems =>
    simp only [perform, hi, hitems, Memory.checkedCopyLarge_eq, ok_bind]
    exact checkedReading_eq fun code => (faultless_writing _).surfaced_eq.symm
  case h_3 hi hitems =>
    simp only [perform, hi, hitems, Memory.checkedCopyLarge_eq, ok_bind]
    exact (faultless_writing _).surfaced_eq.symm
  case h_4 hi hitems =>
    simp only [perform, hi, hitems, Header.checkedReaches_eq, ok_bind]
    split
    · exact checkedReading_eq fun hash => (faultless_giving _ _ _).surfaced_eq.symm
    · exact (faultless_giving _ _ _).surfaced_eq.symm
  case h_5 hi hitems =>
    simp only [perform, hi, hitems, Opcode.subIndex_log hi, Memory.checkedRead_eq, ok_bind]
    split <;> rfl
  case h_6 hi hitems | h_7 hi hitems =>
    simp only [perform, hi, hitems]
    exact checkedPerformCreate_eq _ _ _ _ _ _ _
  case h_8 kind hi =>
    simp only [perform, hi]
    rcases callOperands? kind f.machine.stack.items with _ | ⟨operands, items⟩
    · rfl
    · exact checkedPerformCall_eq _ _ _ _ _ _
  case h_9 hi hitems =>
    simp only [perform, hi, hitems]
    exact checkedPerformSelfDestruct_eq _ _ _
  case h_10 hcall hkeccak hcopy hreturn hblock hlog hbynonce hbysalt hdestruct =>
    refine (Faultless.surfaced_eq ?_).symm
    simp only [perform]
    split
    case h_1 => exact faultless_giving _ _ _
    case h_3 | h_4 | h_6 | h_9 => exact faultless_reading fun _ => faultless_giving _ _ _
    case h_10 => exact faultless_reading fun _ => nofun
    case h_16 => split <;> exact nofun
    -- the others have been seen to
    case h_2 hi hitems => exact (hkeccak _ _ _ hi hitems).elim
    case h_5 hi hitems => exact (hcopy _ _ _ _ _ hi hitems).elim
    case h_7 hi hitems => exact (hreturn _ _ _ _ hi hitems).elim
    case h_8 hi hitems => exact (hblock _ _ hi hitems).elim
    case h_11 hi hitems => exact (hlog _ _ _ _ hi hitems).elim
    case h_12 hi hitems => exact (hbynonce _ _ _ _ hi hitems).elim
    case h_13 hi hitems => exact (hbysalt _ _ _ _ _ hi hitems).elim
    case h_14 hi => exact (hcall _ hi).elim
    case h_15 hi hitems => exact (hdestruct _ _ hi hitems).elim

/-! ## Steps -/

def checkedExecute (stipend afterGas : Gas) :
    Except Panic (Frame × Except Interrupt Performed) := do
  match ← f.machine.checkedStep with
  | (machine, none) => return ({ f with machine := machine }, .ok {})
  | (machine, some (.exit reason)) =>
    return ({ f with machine := machine }, .ok { control := .exit reason })
  | (machine, some (.trap op)) =>
    ({ f with machine := machine }).checkedPerform chain op stipend afterGas

def checkedFollow (control : FrameControl) : Except Panic Frame := do
  match control with
  | .exit reason =>
    if hasOutput reason then
      return ({ f with out := ← f.machine.checkedReturnValue } : Frame).exit reason
    else return f.exit reason
  | _ => return f.follow control

def checkedConclude (c : Charge) :
    Frame × Except Interrupt Performed → Except Panic (Frame × Except Interrupt (Option Event))
  | (f, .ok done) => do return (← (f.book c).checkedFollow done.control, .ok done.event)
  | (f, .error i) => .ok (f, .error i)

def checkedStepAt (op : Opcode) : Except Panic (Frame × Except Interrupt (Option Event)) := do
  match ← f.checkedCheck chain op with
  | .error (.fails e) => return (f.fail e, .ok none)
  | .error (.requires r) => return (f, .error (.requires r))
  | .ok () =>
    f.checkedReading (f.checkedCharge chain op) fun c => do
    match ← f.checkedAfford chain.rules op.instruction c with
    | .error reason => return (f.exit reason, .ok none)
    | .ok (afterGas, memory) =>
      checkedConclude c (← (f.withMemory memory).checkedExecute chain c.stipend afterGas)

def checkedRunPrecompile (c : Precompile) : Except Panic Frame := do
  match ← c.checkedRunWithin f.context.data f.context.gasLimit with
  | .ok (gas, out) => return { f with usedGas := gas, out := out, status := .exitedOk }
  | .error e => return f.fail e

def checkedStep : Except Panic (Frame × Except Interrupt (Option Event)) :=
  match f.status with
  | .running =>
    match chain.ruleset.precompile? f.context.codeAddress with
    | some c => do return (← f.checkedRunPrecompile c, .ok none)
    | none =>
      match f.machine.nextOpcode? with
      | none => .ok ({ f with status := .exitedOk }, .ok none)
      | some op => f.checkedStepAt chain op
  | _ => .ok (f, .ok none)

@[simp] lemma checkedExecute_eq (stipend afterGas : Gas) :
    f.checkedExecute chain stipend afterGas = surfaced (f.execute chain stipend afterGas) := by
  simp only [checkedExecute, execute, Machine.checkedStep_eq, ok_bind]
  rcases f.machine.step with ⟨machine, _ | reason | op⟩
  · rfl
  · rfl
  · exact checkedPerform_eq _ _ _ _ _

variable {f chain}

/-- **Going on** reads what was returned, from a region within bounds. -/
lemma checkedFollow_eq (h : f.machine.Bounded) (control : FrameControl) :
    f.checkedFollow control = .ok (f.follow control) := by
  cases control with
  | exit reason =>
      simp only [checkedFollow, follow, Machine.checkedReturnValue_eq _ h, ok_bind]
      split <;> rfl
  | _ => rfl

/-- An instruction keeps the region that is returned within bounds. -/
lemma execute_bounded {g : Frame} {stipend afterGas : Gas} {result : Except Interrupt Performed}
    (h : f.machine.Bounded) (he : f.execute chain stipend afterGas = (g, result)) :
    g.machine.Bounded := by
  have hstep := h.step
  simp only [execute] at he
  split at he <;> rename_i hmachine <;> rw [hmachine] at hstep
  · cases he
    exact hstep
  · cases he
    exact hstep
  · rw [Machine.Bounded, (perform_place he).region]
    exact hstep

lemma checkedConclude_eq {p : Frame × Except Interrupt Performed} (h : p.1.machine.Bounded)
    (c : Charge) : (surfaced p >>= checkedConclude c) = surfaced (conclude c p) := by
  rcases p with ⟨g, (r | fault) | done⟩
  · rfl
  · rfl
  · show checkedConclude c (g, .ok done) = _
    have hbooked : (g.book c).machine.Bounded := h
    rw [checkedConclude, checkedFollow_eq hbooked]
    rfl

lemma checkedStepAt_eq (h : f.machine.Bounded) (op : Opcode) :
    f.checkedStepAt chain op = surfaced (f.stepAt chain op) := by
  simp only [checkedStepAt, stepAt, checkedCheck_eq, checkedCharge_eq, checkedAfford_eq,
    checkedExecute_eq, ok_bind]
  rcases f.check chain op with (e | r) | ⟨⟩
  · rfl
  · rfl
  · refine checkedReading_eq fun c => ?_
    rcases f.afford chain.rules op.instruction c with reason | ⟨afterGas, memory⟩
    · rfl
    · have hmemory : (f.withMemory memory).machine.Bounded := h
      exact checkedConclude_eq (execute_bounded hmemory rfl) c

/-- **A step of a frame** fails only by a fault. -/
lemma checkedStep_eq (h : f.machine.Bounded) : f.checkedStep chain = surfaced (f.step chain) := by
  simp only [checkedStep, step]
  cases f.status with
  | running =>
      dsimp only
      cases chain.ruleset.precompile? f.context.codeAddress with
      | some c =>
          simp only [checkedRunPrecompile, runPrecompile, Precompile.checkedRunWithin_eq, ok_bind]
          rcases c.runWithin f.context.data f.context.gasLimit with e | ⟨gas, out⟩ <;> rfl
      | none =>
          dsimp only
          cases f.machine.nextOpcode? with
          | none => rfl
          | some op => exact checkedStepAt_eq h op
  | _ => rfl

/-! ## What is returned stays within bounds -/

lemma follow_bounded (h : f.machine.Bounded) (control : FrameControl) :
    (f.follow control).machine.Bounded := by
  cases control with
  | exit reason =>
      simp only [follow]
      split <;> exact h
  | _ => exact h

lemma stepAt_bounded {op : Opcode} (h : f.machine.Bounded) :
    (f.stepAt chain op).1.machine.Bounded := by
  simp only [stepAt]
  rcases f.check chain op with (e | r) | ⟨⟩
  · exact h
  · exact h
  · rcases f.charge chain op.instruction with r | c
    · exact h
    · simp only [reading_ok]
      rcases f.afford chain.rules op.instruction c with reason | ⟨afterGas, memory⟩
      · exact h
      · have hmemory : (f.withMemory memory).machine.Bounded := h
        dsimp only
        rcases hexecute : (f.withMemory memory).execute chain c.stipend afterGas with
          ⟨g, i | done⟩ <;> have hbounded := execute_bounded hmemory hexecute
        · exact hbounded
        · exact follow_bounded (f := g.book c) hbounded done.control

/-- **A step of a frame** keeps the region that is returned within bounds. -/
lemma step_bounded (h : f.machine.Bounded) : (f.step chain).1.machine.Bounded := by
  simp only [step]
  split
  · split
    · simp only [runPrecompile]
      split <;> exact h
    · split
      · exact h
      · exact stepAt_bounded h
  · exact h

end Frame

end ResumableEvm
