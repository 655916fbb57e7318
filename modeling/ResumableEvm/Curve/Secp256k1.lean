import ResumableEvm.Bytes
import ResumableEvm.Curve.Point
import ResumableEvm.Curve.Residue

/-!
# The curve secp256k1 and recovery of public keys

A signature `(r, s)` of a hash, together with one bit, determines the public key that made it:
`r` is the first coordinate of a point `R`, the bit chooses between the two points above `r`,
and the key is `(s R - z G) / r`.

* `Secp256k1.recover?` — the public key, unless the signature is malformed.
-/

namespace ResumableEvm.Secp256k1

open ResumableEvm.Curve

def fieldPrime : Nat := 0xfffffffffffffffffffffffffffffffffffffffffffffffffffffffefffffc2f

def order : Nat := 0xfffffffffffffffffffffffffffffffebaaedce6af48a03bbfd25e8cd0364141

/-- A coordinate. -/
abbrev Coordinate := Residue fieldPrime

instance : FieldOps Coordinate where
  zero := 0
  inv := Residue.inv
  eq a b := a = b

/-- The point whose multiples are all points. -/
def generator : Point Coordinate :=
  .affine ⟨0x79be667ef9dcbbac55a06295ce870b07029bfcdb2dce28d959f2815b16f81798⟩
    ⟨0x483ada7726a3c4655da4fbfc0e1108a8fd17b448a68554199c47d08ffb10d4b8⟩

/-- The point above `x` whose second coordinate is odd or even as asked.  The prime is three
    modulo four, so a square root is a power. -/
def lift? (x : Nat) (odd : Bool) : Option (Point Coordinate) :=
  let x : Coordinate := ⟨x⟩
  let square := x * x * x + 7
  let y := square.pow ((fieldPrime + 1) / 4)
  if y * y = square then
    some (.affine x (if (y.val % 2 = 1) = odd then y else -y))
  else none

/-- **Recovery.**  The coordinates of the public key whose signature of `hash` is `(r, s)`.
    Both numbers lie between one and the order, `s` in the lower half; `r` is the coordinate of
    a point; the key is not the point at infinity. -/
def recover? (hash r s : Nat) (odd : Bool) : Option (Coordinate × Coordinate) :=
  if r = 0 ∨ order ≤ r ∨ s = 0 ∨ order / 2 < s then none
  else do
    let point ← lift? r odd
    let scale : Residue order := Residue.inv ⟨r⟩
    let forward : Residue order := ⟨s⟩ * scale
    let back : Residue order := -(Residue.ofNat hash * scale)
    match (point.mul forward.val).add (generator.mul back.val) with
    | .affine x y => some (x, y)
    | .infinity => none

end ResumableEvm.Secp256k1
