import ResumableEvm.Bytes

/-!
# 256-bit words

The machine's operands are 256-bit words.  Unsigned addition, multiplication and subtraction
are those of `BitVec 256`; this module holds the operations with a rule of their own.

* `SignedWord` — a word read as a signed number, kept as sign and magnitude.
* `Word.sdiv`, `Word.smod`, `Word.slt`, `Word.sgt`, `Word.sar` — operations on that reading.
* `Word.addMod`, `Word.mulMod` — arithmetic modulo a word, in twice the width.
* `Word.exp` — powers by repeated squaring.
* `Word.signExtend`, `Word.byte`, `Word.shl`, `Word.shr` — bits and bytes of a word.
* `Word.toBytes`, `Word.ofBytes` — a word as 32 big-endian bytes.
-/

namespace ResumableEvm

/-- A 256-bit word. -/
abbrev Word := BitVec 256

/-- The largest word, `2 ^ 256 - 1`, as a natural number. -/
def maxWord : Nat :=
  0xffffffffffffffffffffffffffffffffffffffffffffffffffffffffffffffff

/-- The largest length or offset that addresses memory, `2 ^ 64 - 1`. -/
def maxIndex : Nat := 0xffffffffffffffff

/-! ## Signed words -/

/-- The sign of a number. -/
inductive Sign where
  | plus
  | minus
  | zero
  deriving DecidableEq, Repr

/-- A word read as a two's complement number, split into sign and magnitude. -/
structure SignedWord where
  sign : Sign
  magnitude : Word
  deriving DecidableEq, Repr

namespace SignedWord

/-- All bits but the sign bit, `2 ^ 255 - 1`. -/
def mask : Word :=
  BitVec.ofNat 256 0x7fffffffffffffffffffffffffffffffffffffffffffffffffffffffffffffff

def zero : SignedWord := ⟨.zero, 0⟩

/-- The least signed word, `-2 ^ 255`. -/
def least : SignedWord := ⟨.minus, mask + 1⟩

def ofWord (w : Word) : SignedWord :=
  if w = 0 then zero
  else if w &&& mask = w then ⟨.plus, w⟩
  else ⟨.minus, ~~~w + 1⟩

/-- The two's complement word of a signed number. -/
def toWord (s : SignedWord) : Word :=
  match s.sign with
  | .zero => 0
  | .plus => s.magnitude
  | .minus => ~~~s.magnitude + 1

/-- Whether one signed number is less than another. -/
def lt (a b : SignedWord) : Bool :=
  match a.sign, b.sign with
  | .zero, .plus | .minus, .zero | .minus, .plus => true
  | .minus, .minus => b.magnitude < a.magnitude
  | .plus, .plus => a.magnitude < b.magnitude
  | _, _ => false

/-- **Division toward zero.**  Division by zero gives zero, and the least number divided by
    minus one stays the least number. -/
def div (a b : SignedWord) : SignedWord :=
  if b = zero then zero
  else if a = least ∧ b.magnitude = 1 then least
  else
    let quotient := (a.magnitude / b.magnitude) &&& mask
    if quotient = 0 then zero
    else if a.sign = b.sign then ⟨.plus, quotient⟩
    else ⟨.minus, quotient⟩

/-- **Remainder of division toward zero.**  It has the sign of the dividend; modulo zero it is
    zero. -/
def rem (a b : SignedWord) : SignedWord :=
  if b.magnitude = 0 then zero
  else
    let remainder := (a.magnitude % b.magnitude) &&& mask
    if remainder = 0 then zero else ⟨a.sign, remainder⟩

end SignedWord

namespace Word

/-! ## Truth values and numbers -/

def ofBool (b : Bool) : Word := if b then 1 else 0

def isIndex (w : Word) : Bool := w.toNat ≤ maxIndex

theorem toNat_le_maxWord (w : Word) : w.toNat ≤ maxWord := Nat.le_of_lt_succ w.isLt

/-- The word of a natural number that fits, cut to 256 bits otherwise. -/
abbrev ofNat (n : Nat) : Word := BitVec.ofNat 256 n

/-- The number of bits up to the highest one set. -/
def bits (w : Word) : Nat := if w.toNat = 0 then 0 else Nat.log2 w.toNat + 1

/-- The word in as few hexadecimal digits as it needs. -/
def toHex (w : Word) : String := hexMinimal w.toNat

def toHexFull (w : Word) : String := hexPadded 64 w.toNat

/-! ## Unsigned arithmetic -/

/-- The quotient, zero when the divisor is. -/
def div (a b : Word) : Word := if b = 0 then 0 else a / b

/-- The remainder, zero when the modulus is. -/
def mod (a b : Word) : Word := if b = 0 then 0 else a % b

/-- The word in twice the width, where sums and products of two words have room. -/
def widen (w : Word) : BitVec 512 := w.setWidth 512

/-- The lower half of a number of twice the width. -/
def low (x : BitVec 512) : Word := x.setWidth 256

/-- The sum in twice the width, reduced modulo `n`; zero when `n` is. -/
def addMod (a b n : Word) : Word :=
  if n = 0 then 0 else low ((a.widen + b.widen) % n.widen)

/-- The product in twice the width, reduced modulo `n`; zero when `n` is. -/
def mulMod (a b n : Word) : Word :=
  if n = 0 then 0 else low ((a.widen * b.widen) % n.widen)

/-- **Square and multiply.**  With `base` the running square and `acc` the running product,
    each binary digit of the exponent, from the lowest, multiplies one square in or not. -/
def expLoop (base acc : Word) (exponent : Nat) : Word :=
  if exponent = 0 then acc
  else expLoop (base * base) (if exponent % 2 = 1 then acc * base else acc) (exponent / 2)
termination_by exponent
decreasing_by omega

/-- The power, reduced modulo `2 ^ 256`; the zeroth power is one. -/
def exp (base exponent : Word) : Word := expLoop base 1 exponent.toNat

/-! ## Signed arithmetic -/

def sdiv (a b : Word) : Word := ((SignedWord.ofWord a).div (SignedWord.ofWord b)).toWord

/-- Signed remainder with the dividend's sign, zero when the modulus is. -/
def smod (a b : Word) : Word :=
  if b = 0 then 0 else ((SignedWord.ofWord a).rem (SignedWord.ofWord b)).toWord

def slt (a b : Word) : Word := ofBool ((SignedWord.ofWord a).lt (SignedWord.ofWord b))

def sgt (a b : Word) : Word := ofBool ((SignedWord.ofWord b).lt (SignedWord.ofWord a))

/-! ## Bits and bytes -/

/-- Extends the sign of the low `k + 1` bytes of `a` over the whole word; a `k` of 31 or more
    leaves it alone. -/
def signExtend (k a : Word) : Word :=
  if k.toNat < 32 then
    let position := 8 * k.toNat + 7
    let low : Word := ((1 : Word) <<< position) - 1
    if a.getLsbD position then a ||| ~~~low else a &&& low
  else a

/-- Byte `i` of `a`, counted from the most significant; zero from 32 on. -/
def byte (i a : Word) : Word :=
  if i.toNat < 32 then (a >>> (8 * (31 - i.toNat))) &&& 0xff else 0

/-- Shift to the left, dropping what leaves the word. -/
def shl (shift a : Word) : Word :=
  if a = 0 ∨ 256 ≤ shift.toNat then 0 else a <<< shift.toNat

/-- Shift to the right, filling with zeros. -/
def shr (shift a : Word) : Word :=
  if a = 0 ∨ 256 ≤ shift.toNat then 0 else a >>> shift.toNat

/-- Shift to the right, filling with the sign bit: division by a power of two toward minus
    infinity. -/
def sar (shift a : Word) : Word :=
  let value := SignedWord.ofWord a
  if value = SignedWord.zero ∨ 256 ≤ shift.toNat then
    match value.sign with
    | .minus => (SignedWord.mk .minus 1).toWord
    | _ => 0
  else
    match value.sign with
    | .minus =>
      (SignedWord.mk .minus (((value.magnitude - 1) >>> shift.toNat) + 1)).toWord
    | _ => value.magnitude >>> shift.toNat

def toBytes (w : Word) : Bytes := Bytes.ofNat 32 w.toNat

/-- The word with the given big-endian bytes, of which there are at most 32. -/
def ofBytes (b : Bytes) : Word := ofNat b.toNat

end Word

end ResumableEvm
