import ResumableEvm.Address
import ResumableEvm.Curve.AltBn128
import ResumableEvm.Curve.Secp256k1
import ResumableEvm.Digest.Keccak
import ResumableEvm.Digest.Ripemd160
import ResumableEvm.Digest.Sha256
import ResumableEvm.Precompile.ModExp

/-!
# Contracts without code

At eight low addresses live contracts that the machine carries out itself.  Each has a price
that depends on its input alone, and an answer; where the input is malformed it takes all the
gas it was given.

* `Precompile` — the eight contracts.
* `Precompile.ofAddress?`, `Precompile.address` — where they live.
* `Precompile.price`, `Precompile.run` — what they cost and answer.
* `Precompile.runWithin` — both, under a gas limit.
-/

namespace ResumableEvm

/-- A contract that the machine carries out itself. -/
inductive Precompile where
  | ecRecover | sha256 | ripemd160 | identity
  | modExp | bn128Add | bn128Mul | bn128Pairing
  deriving DecidableEq, Repr

namespace Precompile

def ofAddress? (a : Address) : Option Precompile :=
  match a.toNat with
  | 1 => some .ecRecover
  | 2 => some .sha256
  | 3 => some .ripemd160
  | 4 => some .identity
  | 5 => some .modExp
  | 6 => some .bn128Add
  | 7 => some .bn128Mul
  | 8 => some .bn128Pairing
  | _ => none

def address : Precompile → Address
  | .ecRecover => 1
  | .sha256 => 2
  | .ripemd160 => 3
  | .identity => 4
  | .modExp => 5
  | .bn128Add => 6
  | .bn128Mul => 7
  | .bn128Pairing => 8

/-! ## Prices -/

/-- A base price and a price for each word of 32 bytes. -/
def linear (len base perWord : Nat) : Gas :=
  Gas.ofNat base + Gas.ofNat perWord * Gas.ofByteLength len

/-- The bytes of one pair of points. -/
def pairLength : Nat := 192

def price (c : Precompile) (data : Bytes) : Gas :=
  match c with
  | .ecRecover => 3000
  | .sha256 => linear data.size 60 12
  | .ripemd160 => linear data.size 600 120
  | .identity => linear data.size 15 3
  | .modExp => ModExp.price data
  | .bn128Add => 500
  | .bn128Mul => 40000
  | .bn128Pairing => Gas.ofNat 100000 + Gas.ofNat 80000 * Gas.ofNat (data.size / pairLength)

/-! ## Answers -/

def number (data : Bytes) (offset : Nat) : Nat := (data.slice offset 32).toNat

/-- A 20-byte digest in the low bytes of a word. -/
def padDigest (b : Bytes) : Bytes := Bytes.zeros 12 ++ b

/-- The address whose key signed a hash: the hash, 27 or 28 for the recovery bit, and the two
    numbers of the signature.  A malformed signature has no signer and gives no bytes. -/
def recoverSigner (data : Bytes) : Bytes :=
  let v := number data 32
  if v = 27 ∨ v = 28 then
    match Secp256k1.recover? (number data 0) (number data 64) (number data 96) (v = 28) with
    | some (x, y) =>
      let key := Bytes.ofNat 32 x.val ++ Bytes.ofNat 32 y.val
      padDigest ((Keccak.digest key).slice 12 20)
    | none => ByteArray.empty
  else ByteArray.empty

/-- A malformed input takes all the gas it was given. -/
def wellFormed {α : Type} : Option α → Except ExitError α
  | some a => .ok a
  | none => .error .outOfGas

/-- The point of the first group at an offset. -/
def readG1 (data : Bytes) (offset : Nat) : Except ExitError (Curve.Point AltBn128.Base) :=
  wellFormed (AltBn128.g1? (number data offset) (number data (offset + 32)))

/-- The point of the second group at an offset, imaginary parts first. -/
def readG2 (data : Bytes) (offset : Nat) : Except ExitError (Curve.Point AltBn128.Quadratic) :=
  wellFormed (AltBn128.g2? (number data (offset + 32)) (number data offset)
    (number data (offset + 96)) (number data (offset + 64)))

/-- The coordinates of a point, zeros for the point at infinity. -/
def writeG1 : Curve.Point AltBn128.Base → Bytes
  | .infinity => Bytes.zeros 64
  | .affine x y => Bytes.ofNat 32 x.val ++ Bytes.ofNat 32 y.val

/-- Whether the pairings of all pairs in the input multiply to one. -/
def checkPairing (data : Bytes) : Except ExitError Bool :=
  if data.size % pairLength ≠ 0 then .error .outOfGas
  else do
    let pairs ← (List.range (data.size / pairLength)).mapM fun i => do
      let p ← readG1 data (pairLength * i)
      let q ← readG2 data (pairLength * i + 64)
      return (p, q)
    let proper := pairs.filter fun (p, q) => !p.isInfinity && !q.isInfinity
    return proper.isEmpty || AltBn128.productIsOne proper

def run (c : Precompile) (data : Bytes) : Except ExitError Bytes :=
  match c with
  | .ecRecover => .ok (recoverSigner data)
  | .sha256 => .ok (Sha256.digest data)
  | .ripemd160 => .ok (padDigest (Ripemd160.digest data))
  | .identity => .ok data
  | .modExp => ModExp.run data
  | .bn128Add => do
    let p ← readG1 data 0
    let q ← readG1 data 64
    return writeG1 (p.add q)
  | .bn128Mul => do
    let p ← readG1 data 0
    return writeG1 (p.mul (number data 64 % AltBn128.order))
  | .bn128Pairing => return (Word.ofBool (← checkPairing data)).toBytes

/-- The price and the answer, if the limit covers the price. -/
def runWithin (c : Precompile) (data : Bytes) (limit : Gas) : Except ExitError (Gas × Bytes) :=
  let gas := c.price data
  if gas > limit then .error .outOfGas
  else do return (gas, ← c.run data)

end Precompile

end ResumableEvm
