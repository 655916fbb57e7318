import ResumableEvm.JumpTable
import ResumableEvm.Memory
import ResumableEvm.OperandStack

/-!
# The bytecode machine

The machine evaluates every instruction that needs only the stack, the memory, the code and
the call data.  All else — accounts, calls, the block, gas — traps to its surroundings, which
carry the opcode out and let the machine go on behind it.

An instruction that fails keeps the operands it has taken off the stack; one that runs out of
operands has taken all there were.

* `Machine` — code, data, position, memory and stack.
* `Machine.step`, `Machine.run` — one instruction, or up to the first exit or trap.
* `Machine.returnValue` — what the code returned.
-/

namespace ResumableEvm

/-- A machine that evaluates one piece of code. -/
structure Machine where
  code : Bytes
  /-- The call data. -/
  data : Bytes
  /-- The next instruction, or why there is none. -/
  position : Except ExitReason Nat
  /-- The memory region returned, by its first byte and the one behind its last. -/
  returnRange : Nat × Nat
  jumps : JumpTable
  memory : Memory
  stack : OperandStack

/-- How the machine goes on after an instruction. -/
inductive Control where
  /-- At the position that many bytes further on. -/
  | next (count : Nat)
  | jump (position : Nat)
  | exit (reason : ExitReason)
  | trap (op : Opcode)
  deriving DecidableEq, Repr

namespace Machine

/-- A machine at the start of its code, with nothing on the stack or in memory. -/
def create (code data : Bytes) (stackLimit memoryLimit : Nat) : Machine where
  code := code
  data := data
  position := .ok 0
  returnRange := (0, 0)
  jumps := JumpTable.ofCode code
  memory := Memory.empty memoryLimit
  stack := OperandStack.empty stackLimit

/-- Stops the machine for a reason of its surroundings. -/
def halt (m : Machine) (reason : ExitReason) : Machine :=
  { m with position := .error reason }

/-- The next opcode, if the machine has not exited and is not past its code. -/
def nextOpcode? (m : Machine) : Option Opcode :=
  match m.position with
  | .ok p => if h : p < m.code.size then some ⟨m.code[p]⟩ else none
  | .error _ => none

/-- What the code returned, empty when it returned nothing. -/
def returnValue (m : Machine) : Bytes :=
  m.memory.get m.returnRange.1 (m.returnRange.2 - m.returnRange.1)

/-! ## Operands and results -/

/-- The machine with other items on its stack. -/
def withItems (m : Machine) (items : List Word) : Machine :=
  { m with stack := { m.stack with items := items } }

/-- The end of an instruction that found too few operands, having taken them all. -/
def underflow (m : Machine) : Machine × Control :=
  (m.withItems [], .exit (.error .stackUnderflow))

/-- Pushes the result of an instruction of `width` bytes and goes on behind it. -/
def pushNext (m : Machine) (w : Word) (width : Nat) : Machine × Control :=
  match m.stack.push w with
  | .ok stack => ({ m with stack := stack }, .next width)
  | .error e => (m, .exit (.error e))

def unary (m : Machine) (f : Word → Word) : Machine × Control :=
  match m.stack.items with
  | a :: rest => (m.withItems rest).pushNext (f a) 1
  | _ => m.underflow

def binary (m : Machine) (f : Word → Word → Word) : Machine × Control :=
  match m.stack.items with
  | a :: b :: rest => (m.withItems rest).pushNext (f a b) 1
  | _ => m.underflow

def ternary (m : Machine) (f : Word → Word → Word → Word) : Machine × Control :=
  match m.stack.items with
  | a :: b :: c :: rest => (m.withItems rest).pushNext (f a b c) 1
  | _ => m.underflow

/-! ## Memory -/

/-- Extends the paid memory over a region, then goes on with `k`; a region that cannot be
    addressed ends the machine. -/
def withRegion (m : Machine) (offset len : Word) (k : Machine → Machine × Control) :
    Machine × Control :=
  match m.memory.resizeOffset offset len with
  | .ok memory => k { m with memory := memory }
  | .error e => (m, .exit (.error e))

/-- Goes on behind a one-byte instruction that wrote to memory, if the write was allowed. -/
def afterWrite (m : Machine) : Except ExitFatal Memory → Machine × Control
  | .ok memory => ({ m with memory := memory }, .next 1)
  | .error f => (m, .exit (.fatal f))

/-- Copies a region of `source` into memory: three operands, the memory offset, the source
    offset and the length. -/
def copy (m : Machine) (source : Bytes) : Machine × Control :=
  match m.stack.items with
  | offset :: sourceOffset :: len :: rest =>
    (m.withItems rest).withRegion offset len fun m =>
      m.afterWrite (m.memory.copyLarge offset sourceOffset len source)
  | _ => m.underflow

/-- The call data word at an offset, zero past the end. -/
def dataWord (m : Machine) (index : Word) : Word :=
  if index.isIndex then Word.ofBytes (m.data.slice index.toNat 32) else 0

/-- Loads the memory word at an offset. -/
def load (m : Machine) : Machine × Control :=
  match m.stack.items with
  | offset :: rest =>
    (m.withItems rest).withRegion offset 32 fun m =>
      if offset.isIndex then m.pushNext (Word.ofBytes (m.memory.get offset.toNat 32)) 1
      else (m, .exit (.fatal .notSupported))
  | _ => m.underflow

/-- Stores the last `len` bytes of a word at an offset. -/
def store (m : Machine) (len : Nat) : Machine × Control :=
  match m.stack.items with
  | offset :: value :: rest =>
    (m.withItems rest).withRegion offset (Word.ofNat len) fun m =>
      if offset.isIndex then
        m.afterWrite (m.memory.set offset.toNat (Bytes.ofNat len value.toNat) len)
      else (m, .exit (.fatal .notSupported))
  | _ => m.underflow

/-! ## Control flow -/

/-- Where a jump leads, if its destination can be a position at all. -/
def jumpTo (destination : Word) : Control :=
  if destination.isIndex then .jump destination.toNat else .exit (.error .invalidJump)

def jump (m : Machine) : Machine × Control :=
  match m.stack.items with
  | destination :: rest => (m.withItems rest, jumpTo destination)
  | _ => m.underflow

/-- Takes a destination and a condition, and jumps unless the condition is zero. -/
def jumpIf (m : Machine) : Machine × Control :=
  match m.stack.items with
  | destination :: condition :: rest =>
    (m.withItems rest, if condition = 0 then .next 1 else jumpTo destination)
  | _ => m.underflow

/-- Takes a region and ends with it as the returned region. -/
def finish (m : Machine) (reason : ExitReason) : Machine × Control :=
  match m.stack.items with
  | start :: len :: rest =>
    let m := m.withItems rest
    if len = 0 then ({ m with returnRange := (0, 0) }, .exit reason)
    else
      let stop := start.toNat + len.toNat
      if stop > maxIndex then (m, .exit (.error .invalidRange))
      else
        match m.memory.resizeEnd stop with
        | .ok memory =>
          ({ m with memory := memory, returnRange := (start.toNat, stop) }, .exit reason)
        | .error e => (m, .exit (.error e))
  | _ => m.underflow

/-! ## Pushes, copies and exchanges -/

/-- The word made of the `n` code bytes behind `position`; bytes past the end are zero. -/
def pushedWord (m : Machine) (n position : Nat) : Word :=
  Word.ofBytes (m.code.slice (position + 1) n)

/-- Copies the `n`-th item to the top. -/
def dup (m : Machine) (n : Nat) : Machine × Control :=
  match m.stack.peek (n - 1) with
  | .ok w => m.pushNext w 1
  | .error e => (m, .exit (.error e))

/-- Exchanges the top with the `n`-th item below it. -/
def swap (m : Machine) (n : Nat) : Machine × Control :=
  match m.stack.peek 0, m.stack.peek n with
  | .ok a, .ok b => (m.withItems ((m.stack.items.set 0 b).set n a), .next 1)
  | _, _ => (m, .exit (.error .stackUnderflow))

/-! ## Evaluation -/

def evaluate (m : Machine) (op : Opcode) (position : Nat) : Machine × Control :=
  match op.instruction with
  | .stop => (m, .exit (.succeed .stopped))
  | .unary f => m.unary f.apply
  | .binary f => m.binary f.apply
  | .ternary f => m.ternary f.apply
  | .codeSize => m.pushNext (Word.ofNat m.code.size) 1
  | .codeCopy => m.copy m.code
  | .callDataLoad => m.unary m.dataWord
  | .callDataSize => m.pushNext (Word.ofNat m.data.size) 1
  | .callDataCopy => m.copy m.data
  | .pop =>
    match m.stack.items with
    | _ :: rest => (m.withItems rest, .next 1)
    | _ => m.underflow
  | .mload => m.load
  | .mstore => m.store 32
  | .mstore8 => m.store 1
  | .jump => m.jump
  | .jumpIf => m.jumpIf
  | .programCounter => m.pushNext (Word.ofNat position) 1
  | .memorySize => m.pushNext (Word.ofNat m.memory.effective) 1
  | .jumpDest => (m, .next 1)
  | .push n => m.pushNext (m.pushedWord n position) (1 + n)
  | .dup n => m.dup n
  | .swap n => m.swap n
  | .ret => m.finish (.succeed .returned)
  | .revert => m.finish (.error .reverted)
  | .invalid => (m, .exit (.error .designatedInvalid))
  | _ => (m, .trap op)

def exitWith (m : Machine) (reason : ExitReason) : Machine × Option Capture :=
  (m.halt reason, some (.exit reason))

/-- **One step.**  Executes one instruction and reports an exit or a trap.  A machine that has
    exited stays as it is; one past its code stops; a trap leaves the machine behind the
    trapped opcode. -/
def step (m : Machine) : Machine × Option Capture :=
  match m.position with
  | .error reason => (m, some (.exit reason))
  | .ok position =>
    match m.nextOpcode? with
    | none => m.exitWith (.succeed .stopped)
    | some op =>
      match m.evaluate op position with
      | (m, .next count) => ({ m with position := .ok (position + count) }, none)
      | (m, .exit reason) => m.exitWith reason
      | (m, .jump destination) =>
        if m.jumps.isValid destination then ({ m with position := .ok destination }, none)
        else m.exitWith (.error .invalidJump)
      | (m, .trap op) => ({ m with position := .ok (position + 1) }, some (.trap op))

/-- Steps until the machine reports an exit or a trap, at most `fuel` times. -/
def run : (fuel : Nat) → Machine → Machine × Option Capture
  | 0, m => (m, none)
  | fuel + 1, m =>
    match m.step with
    | (m, none) => run fuel m
    | stopped => stopped

end Machine

end ResumableEvm
