import ResumableEvm.Word

/-!
# Opcodes and instructions

A code byte is an opcode.  Decoding gives it its meaning: an `Instruction`, grouped by what
the instruction does, so that later rules speak of "a binary operation" or "a call" once for
all of its kind.  Every byte decodes; those without a meaning decode to `undefined`.

* `Opcode` — a code byte.
* `Instruction` — what an opcode stands for.
* `Opcode.instruction` — decoding.
* `Instruction.arity` — how many stack items an instruction takes and gives.
* `UnaryOp.apply`, `BinaryOp.apply`, `TernaryOp.apply` — the arithmetic.
-/

namespace ResumableEvm

/-- One byte of code, read as an operation. -/
structure Opcode where
  byte : UInt8
  deriving DecidableEq, Repr

/-! ## Arithmetic -/

/-- Operations on one word. -/
inductive UnaryOp where
  | isZero | not
  deriving DecidableEq, Repr

/-- Operations on two words. -/
inductive BinaryOp where
  | add | mul | sub | div | sdiv | mod | smod | exp | signExtend
  | lt | gt | slt | sgt | eq | and | or | xor | byte | shl | shr | sar
  deriving DecidableEq, Repr

/-- Operations on three words. -/
inductive TernaryOp where
  | addMod | mulMod
  deriving DecidableEq, Repr

/-- The result of an operation on one word. -/
def UnaryOp.apply : UnaryOp → Word → Word
  | .isZero, a => Word.ofBool (a = 0)
  | .not, a => ~~~a

/-- The result of an operation on two words, the first from the top of the stack. -/
def BinaryOp.apply : BinaryOp → Word → Word → Word
  | .add, a, b => a + b
  | .mul, a, b => a * b
  | .sub, a, b => a - b
  | .div, a, b => Word.div a b
  | .sdiv, a, b => Word.sdiv a b
  | .mod, a, b => Word.mod a b
  | .smod, a, b => Word.smod a b
  | .exp, a, b => Word.exp a b
  | .signExtend, a, b => Word.signExtend a b
  | .lt, a, b => Word.ofBool (a < b)
  | .gt, a, b => Word.ofBool (b < a)
  | .slt, a, b => Word.slt a b
  | .sgt, a, b => Word.sgt a b
  | .eq, a, b => Word.ofBool (a = b)
  | .and, a, b => a &&& b
  | .or, a, b => a ||| b
  | .xor, a, b => a ^^^ b
  | .byte, a, b => Word.byte a b
  | .shl, a, b => Word.shl a b
  | .shr, a, b => Word.shr a b
  | .sar, a, b => Word.sar a b

/-- The result of an operation on three words, the first from the top of the stack. -/
def TernaryOp.apply : TernaryOp → Word → Word → Word → Word
  | .addMod, a, b, n => Word.addMod a b n
  | .mulMod, a, b, n => Word.mulMod a b n

/-! ## Instructions -/

/-- Words that only the surroundings of the machine know. -/
inductive Query where
  | address | origin | caller | callValue | gasPrice | returnDataSize
  | coinbase | timestamp | number | difficulty | gasLimit | gas
  deriving DecidableEq, Repr

/-- The four ways to call another account's code. -/
inductive CallKind where
  | call | callCode | delegateCall | staticCall
  deriving DecidableEq, Repr

/-- The two ways to create an account, by the address they give it. -/
inductive CreateKind where
  | byNonce | bySalt
  deriving DecidableEq, Repr

/-- What an opcode stands for. -/
inductive Instruction where
  | stop
  | unary (op : UnaryOp)
  | binary (op : BinaryOp)
  | ternary (op : TernaryOp)
  | keccak
  | query (q : Query)
  | balance
  | callDataLoad | callDataSize | callDataCopy
  | codeSize | codeCopy
  | extCodeSize | extCodeCopy | extCodeHash
  | returnDataCopy
  | blockHash
  | pop | mload | mstore | mstore8 | sload | sstore
  | jump | jumpIf | programCounter | memorySize | jumpDest
  /-- Pushes the next `n` code bytes. -/
  | push (n : Nat)
  /-- Copies the `n`-th item, the top being the first. -/
  | dup (n : Nat)
  /-- Exchanges the top with the `n`-th item below it. -/
  | swap (n : Nat)
  | log (topics : Nat)
  | create (kind : CreateKind)
  | call (kind : CallKind)
  | ret | revert
  | invalid
  | selfDestruct
  | undefined
  deriving DecidableEq, Repr

namespace Opcode

/-- The opcode that marks a jump destination. -/
def jumpDest : Opcode := ⟨0x5b⟩

/-- The number of bytes an opcode pushes, if it is a push. -/
def pushSize? (op : Opcode) : Option Nat :=
  if 0x60 ≤ op.byte ∧ op.byte ≤ 0x7f then some (op.byte.toNat - 0x5f) else none

/-- The position an opcode copies to the top, if it is a copy. -/
def dupIndex? (op : Opcode) : Option Nat :=
  if 0x80 ≤ op.byte ∧ op.byte ≤ 0x8f then some (op.byte.toNat - 0x7f) else none

/-- The position an opcode exchanges with the top, if it is an exchange. -/
def swapIndex? (op : Opcode) : Option Nat :=
  if 0x90 ≤ op.byte ∧ op.byte ≤ 0x9f then some (op.byte.toNat - 0x8f) else none

/-- The number of topics an opcode logs, if it is a log. -/
def logTopics? (op : Opcode) : Option Nat :=
  if 0xa0 ≤ op.byte ∧ op.byte ≤ 0xa4 then some (op.byte.toNat - 0xa0) else none

/-- The bytes an instruction takes up in code: itself and what it pushes. -/
def width (op : Opcode) : Nat := 1 + op.pushSize?.getD 0

theorem width_pos (op : Opcode) : 0 < op.width := by
  unfold width; omega

/-- The instruction of an opcode outside the ranges of pushes, copies, exchanges and logs. -/
def single : Nat → Instruction
  | 0x00 => .stop
  | 0x01 => .binary .add
  | 0x02 => .binary .mul
  | 0x03 => .binary .sub
  | 0x04 => .binary .div
  | 0x05 => .binary .sdiv
  | 0x06 => .binary .mod
  | 0x07 => .binary .smod
  | 0x08 => .ternary .addMod
  | 0x09 => .ternary .mulMod
  | 0x0a => .binary .exp
  | 0x0b => .binary .signExtend
  | 0x10 => .binary .lt
  | 0x11 => .binary .gt
  | 0x12 => .binary .slt
  | 0x13 => .binary .sgt
  | 0x14 => .binary .eq
  | 0x15 => .unary .isZero
  | 0x16 => .binary .and
  | 0x17 => .binary .or
  | 0x18 => .binary .xor
  | 0x19 => .unary .not
  | 0x1a => .binary .byte
  | 0x1b => .binary .shl
  | 0x1c => .binary .shr
  | 0x1d => .binary .sar
  | 0x20 => .keccak
  | 0x30 => .query .address
  | 0x31 => .balance
  | 0x32 => .query .origin
  | 0x33 => .query .caller
  | 0x34 => .query .callValue
  | 0x35 => .callDataLoad
  | 0x36 => .callDataSize
  | 0x37 => .callDataCopy
  | 0x38 => .codeSize
  | 0x39 => .codeCopy
  | 0x3a => .query .gasPrice
  | 0x3b => .extCodeSize
  | 0x3c => .extCodeCopy
  | 0x3d => .query .returnDataSize
  | 0x3e => .returnDataCopy
  | 0x3f => .extCodeHash
  | 0x40 => .blockHash
  | 0x41 => .query .coinbase
  | 0x42 => .query .timestamp
  | 0x43 => .query .number
  | 0x44 => .query .difficulty
  | 0x45 => .query .gasLimit
  | 0x50 => .pop
  | 0x51 => .mload
  | 0x52 => .mstore
  | 0x53 => .mstore8
  | 0x54 => .sload
  | 0x55 => .sstore
  | 0x56 => .jump
  | 0x57 => .jumpIf
  | 0x58 => .programCounter
  | 0x59 => .memorySize
  | 0x5a => .query .gas
  | 0x5b => .jumpDest
  | 0xf0 => .create .byNonce
  | 0xf1 => .call .call
  | 0xf2 => .call .callCode
  | 0xf3 => .ret
  | 0xf4 => .call .delegateCall
  | 0xf5 => .create .bySalt
  | 0xfa => .call .staticCall
  | 0xfd => .revert
  | 0xfe => .invalid
  | 0xff => .selfDestruct
  | _ => .undefined

def instruction (op : Opcode) : Instruction :=
  match op.pushSize?, op.dupIndex?, op.swapIndex?, op.logTopics? with
  | some n, _, _, _ => .push n
  | none, some n, _, _ => .dup n
  | none, none, some n, _ => .swap n
  | none, none, none, some n => .log n
  | none, none, none, none => single op.byte.toNat

end Opcode

/-- The stack items an instruction takes and gives, or nothing when it has no meaning. -/
def Instruction.arity : Instruction → Option (Nat × Nat)
  | .stop | .jumpDest | .invalid => some (0, 0)
  | .unary _ => some (1, 1)
  | .binary _ | .keccak => some (2, 1)
  | .ternary _ => some (3, 1)
  | .query _ | .callDataSize | .codeSize | .programCounter | .memorySize => some (0, 1)
  | .balance | .callDataLoad | .extCodeSize | .extCodeHash | .blockHash | .mload | .sload =>
    some (1, 1)
  | .callDataCopy | .codeCopy | .returnDataCopy => some (3, 0)
  | .extCodeCopy => some (4, 0)
  | .pop | .jump | .selfDestruct => some (1, 0)
  | .mstore | .mstore8 | .sstore | .jumpIf | .ret | .revert => some (2, 0)
  | .push _ => some (0, 1)
  | .dup n => some (n, n + 1)
  | .swap n => some (n + 1, n + 1)
  | .log n => some (n + 2, 0)
  | .create .byNonce => some (3, 1)
  | .create .bySalt => some (4, 1)
  | .call .call | .call .callCode => some (7, 1)
  | .call .delegateCall | .call .staticCall => some (6, 1)
  | .undefined => none

end ResumableEvm
