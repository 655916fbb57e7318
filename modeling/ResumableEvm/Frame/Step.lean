import ResumableEvm.Frame.HostOperation
import ResumableEvm.Frame.Price

/-!
# One step of a frame

An instruction is checked, priced and paid for before it has any effect; only then does the
bytecode machine execute it, or the surroundings where the machine traps.  A frame whose code
lives at an enabled contract without code runs that contract instead, in one step.

* `Frame.runPrecompile` — the step of a contract without code.
* `Frame.afford` — whether the gas and the memory limit cover an instruction.
* `Frame.execute` — an instruction that has been paid for.
* `Frame.step` — one step.
-/

namespace ResumableEvm

namespace Frame

def runPrecompile (f : Frame) (c : Precompile) : Frame :=
  match c.runWithin f.context.data f.context.gasLimit with
  | .ok (gas, out) => { f with usedGas := gas, out := out, status := .exitedOk }
  | .error e => f.fail e

/-- What an instruction costs, in all. -/
structure Charge where
  /-- The memory after it, in words. -/
  words : Gas
  /-- Its gas, apart from memory. -/
  price : Gas
  stipend : Gas
  refund : Int
  deriving DecidableEq, Repr

def charge (f : Frame) (chain : ChainView) (i : Instruction) : Except Requirement Charge := do
  return ⟨f.wordsNeeded i, ← f.price chain i, f.stipend i, ← f.refundOf chain i⟩

/-- All the gas that the frame has used once it has paid a charge. -/
def gasAfter (f : Frame) (c : Charge) : Gas := memoryGas c.words + f.usedGas + c.price

/-- Whether a call asks for more gas than there would be. -/
def asksTooMuch (f : Frame) (rules : Rules) (i : Instruction) (afterGas : Gas) : Bool :=
  match i with
  | .call .call | .call .callCode | .call .delegateCall =>
    rules.failsOnExcessCallGas && decide (Gas.mk (f.operand 0) > afterGas)
  | _ => false

/-- **Whether a charge can be paid.**  Gives the gas left and the memory, extended to what was
    paid for; or why the frame ends instead. -/
def afford (f : Frame) (rules : Rules) (i : Instruction) (c : Charge) :
    Except ExitReason (Gas × Memory) :=
  if f.context.gasLimit < f.gasAfter c then .error (.error .outOfGas)
  else
    let memoryEnd := c.words * 32
    if memoryEnd.toNat > rules.memoryLimit.toNat then .error (.fatal .notSupported)
    else
      let afterGas := f.context.gasLimit - f.gasAfter c
      if f.asksTooMuch rules i afterGas then .error (.error .outOfGas)
      else
        match f.machine.memory.resizeEnd memoryEnd.toNat with
        | .ok memory => .ok (afterGas, memory)
        | .error e => .error (.error e)

/-- **Executes an instruction** that has been paid for, in the machine, or where it traps in
    its surroundings. -/
def execute (f : Frame) (chain : ChainView) (stipend afterGas : Gas) :
    Frame × Except Interrupt Performed :=
  match f.machine.step with
  | (machine, none) => ({ f with machine := machine }, .ok {})
  | (machine, some (.exit reason)) =>
    ({ f with machine := machine }, .ok { control := .exit reason })
  | (machine, some (.trap op)) => ({ f with machine := machine }).perform chain op stipend afterGas

def book (f : Frame) (c : Charge) : Frame :=
  { f with
    usedGas := f.usedGas + (c.price - c.stipend),
    memoryWords := c.words,
    refund := f.refund + c.refund }

/-- Whether a frame that ends for this reason has output. -/
def hasOutput : ExitReason → Bool
  | .succeed _ | .error .reverted => true
  | _ => false

def follow (f : Frame) : FrameControl → Frame
  | .proceed => f
  | .exit reason =>
    let f := if hasOutput reason then { f with out := f.machine.returnValue } else f
    f.exit reason
  | .invokeCall context outOffset outLen =>
    { f with status := .invokeCall context outOffset outLen }
  | .invokeCreate context => { f with status := .invokeCreate context }

def withMemory (f : Frame) (memory : Memory) : Frame :=
  { f with machine := { f.machine with memory := memory } }

@[simp] theorem withMemory_context (f : Frame) (memory : Memory) :
    (f.withMemory memory).context = f.context := rfl

@[simp] theorem withMemory_overlay (f : Frame) (memory : Memory) :
    (f.withMemory memory).overlay = f.overlay := rfl

/-- Books the charge of an instruction that was carried out, and goes on as it says. -/
def conclude (c : Charge) :
    Frame × Except Interrupt Performed → Frame × Except Interrupt (Option Event)
  | (f, .ok done) => ((f.book c).follow done.control, .ok done.event)
  | (f, .error i) => (f, .error i)

def stepAt (f : Frame) (chain : ChainView) (op : Opcode) :
    Frame × Except Interrupt (Option Event) :=
  match f.check chain op with
  | .error (.fails e) => (f.fail e, .ok none)
  | .error (.requires r) => (f, .error (.requires r))
  | .ok () =>
    f.reading (f.charge chain op.instruction) fun c =>
    match f.afford chain.rules op.instruction c with
    | .error reason => (f.exit reason, .ok none)
    | .ok (afterGas, memory) =>
      conclude c ((f.withMemory memory).execute chain c.stipend afterGas)

/-- **One step.**  A frame that is not running stays as it is; one past its code ends well. -/
def step (f : Frame) (chain : ChainView) : Frame × Except Interrupt (Option Event) :=
  match f.status with
  | .running =>
    match chain.ruleset.precompile? f.context.codeAddress with
    | some c => (f.runPrecompile c, .ok none)
    | none =>
      match f.machine.nextOpcode? with
      | none => ({ f with status := .exitedOk }, .ok none)
      | some op => f.stepAt chain op
  | _ => (f, .ok none)

end Frame

end ResumableEvm
