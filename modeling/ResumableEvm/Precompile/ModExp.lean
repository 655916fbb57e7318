import ResumableEvm.Exit
import ResumableEvm.Gas

/-!
# Modular exponentiation as a contract

The input is a header of three lengths, then a base, an exponent and a modulus of those
lengths, all big-endian.  Bytes past the end of the input count as zero.  The price grows with
the square of the longer of base and modulus and with the length of the exponent.

* `ModExp.Lengths` — the header.
* `ModExp.price` — the gas for an input.
* `ModExp.run` — the power, in as many bytes as the modulus has.
-/

namespace ResumableEvm.ModExp

/-- Lengths beyond this cannot be paid for. -/
def longest : Nat := 0x100000000

/-- The lengths in bytes that the header gives. -/
structure Lengths where
  base : Nat
  exponent : Nat
  modulus : Nat
  deriving DecidableEq, Repr

namespace Lengths

/-- The lengths in the first three words of an input. -/
def ofInput (data : Bytes) : Lengths where
  base := (data.slice 0 32).toNat
  exponent := (data.slice 32 32).toNat
  modulus := (data.slice 64 32).toNat

/-- Whether any length is beyond what can be paid for. -/
def excessive (l : Lengths) : Bool :=
  l.base > longest ∨ l.exponent > longest ∨ l.modulus > longest

end Lengths

/-- The number in `len` bytes from `offset` on, read big-endian with zeros past the end.  The
    missing bytes are a shift, so that only those present are read. -/
def operand (data : Bytes) (offset len : Nat) : Nat :=
  if offset < data.size then
    let stop := min (offset + len) data.size
    Bytes.toNat (data.extract offset stop) <<< (8 * (len - (stop - offset)))
  else 0

/-- The cost of one multiplication of numbers of `x` bytes. -/
def complexity (x : Nat) : Nat :=
  if x ≤ 64 then x * x
  else if x ≤ 1024 then x * x / 4 + 96 * x - 3072
  else x * x / 16 + 480 * x - 199680

/-- The number of multiplications: the position of the exponent's highest bit, read off its
    first word and counted in full for the bytes behind it. -/
def iterations (length head : Nat) : Nat :=
  let headBits := if head = 0 then 0 else Nat.log2 head
  if length ≤ 32 then headBits else 8 * (length - 32) + headBits

def price (data : Bytes) : Gas :=
  let l := Lengths.ofInput data
  if l.excessive then Gas.largest
  else
    let head := operand data (96 + l.base) (min l.exponent 32)
    (Gas.ofNat (complexity (max l.base l.modulus))
      * Gas.ofNat (max (iterations l.exponent head) 1)).divNat 20

/-- `acc * base ^ exponent` modulo `modulus`. -/
def powerLoop (modulus base acc exponent : Nat) : Nat :=
  if exponent = 0 then acc
  else
    powerLoop modulus (base * base % modulus)
      (if exponent % 2 = 1 then acc * base % modulus else acc) (exponent / 2)
termination_by exponent
decreasing_by omega

/-- The power modulo `modulus`, zero when the modulus is zero or one. -/
def power (base exponent modulus : Nat) : Nat :=
  if modulus ≤ 1 then 0 else powerLoop modulus (base % modulus) 1 exponent

/-- The digits of a number, base 256, the highest first.  Zero has one digit. -/
def digits (n : Nat) : Bytes := if n = 0 then Bytes.zeros 1 else Bytes.minimal n

/-- The digits of a number at the end of `len` bytes, with zeros in front.  Without room for them,
    or for zero, there are zeros only. -/
def padded (len n : Nat) : Bytes :=
  let bytes := digits n
  if bytes.size ≤ len ∧ n ≠ 0 then (Bytes.zeros len).overwrite (len - bytes.size) bytes
  else Bytes.zeros len

/-- The power, in as many bytes as the modulus has. -/
def run (data : Bytes) : Except ExitError Bytes :=
  let l := Lengths.ofInput data
  if l.excessive then .error .outOfGas
  else if l.modulus = 0 then .ok ByteArray.empty
  else
    let base := operand data 96 l.base
    let exponent := operand data (96 + l.base) l.exponent
    let modulus := operand data (96 + l.base + l.exponent) l.modulus
    .ok (padded l.modulus (power base exponent modulus))

end ResumableEvm.ModExp
