import ResumableEvm.Bytes
import ResumableEvm.Curve.Point
import ResumableEvm.Curve.Residue

/-!
# The curve alt_bn128 and its pairing

Points of the first group have coordinates modulo a prime `p`; points of the second lie on a
twist of the curve over the numbers `a + b i` modulo `p`, in its subgroup of the same prime
order.  A pairing takes a point of each to a twelfth-degree extension of the field, and a
product of pairings is one exactly when a certain power of a product of line functions lies in
the subfield of degree six.

* `Quadratic`, `Extension` — the fields of degree two and twelve.
* `AltBn128.g1?`, `AltBn128.g2?` — points from their coordinates, checked.
* `AltBn128.lines` — the product of line functions of a pair of points.
* `AltBn128.productIsOne` — whether pairings multiply to one.
-/

namespace ResumableEvm.AltBn128

open ResumableEvm.Curve

def fieldPrime : Nat := 0x30644e72e131a029b85045b68181585d97816a916871ca8d3c208c16d87cfd47

/-- The prime number of points in either group. -/
def order : Nat := 0x30644e72e131a029b85045b68181585d2833e84879b9709143e1f593f0000001

/-- An integer modulo the prime. -/
abbrev Base := Residue fieldPrime

instance : FieldOps Base where
  zero := 0
  inv := Residue.inv
  eq a b := a = b

/-! ## The field of degree two -/

/-- A number `re + im i` with `i² = -1`. -/
structure Quadratic where
  re : Base
  im : Base
  deriving DecidableEq, Repr

namespace Quadratic

def zero : Quadratic := ⟨0, 0⟩

instance : Add Quadratic := ⟨fun a b => ⟨a.re + b.re, a.im + b.im⟩⟩
instance : Sub Quadratic := ⟨fun a b => ⟨a.re - b.re, a.im - b.im⟩⟩
instance : Neg Quadratic := ⟨fun a => ⟨-a.re, -a.im⟩⟩

/-- The product, from three products of parts. -/
instance : Mul Quadratic :=
  ⟨fun a b =>
    let re := a.re * b.re
    let im := a.im * b.im
    ⟨re - im, (a.re + a.im) * (b.re + b.im) - re - im⟩⟩

/-- The product with an integer modulo the prime. -/
def scale (a : Quadratic) (c : Base) : Quadratic := ⟨a.re * c, a.im * c⟩

/-- The inverse: the conjugate over the norm. -/
def inv (a : Quadratic) : Quadratic :=
  let norm := Residue.inv (a.re * a.re + a.im * a.im)
  ⟨a.re * norm, -(a.im * norm)⟩

/-- The product with `9 + i`, which has neither a square nor a cube root here. -/
def mulNonResidue (a : Quadratic) : Quadratic := ⟨9 * a.re - a.im, 9 * a.im + a.re⟩

instance : FieldOps Quadratic where
  zero := zero
  inv := inv
  eq a b := a = b

end Quadratic

/-! ## The field of degree twelve -/

/-- A polynomial of degree below six in `w`, where `w ^ 6 = 9 + i`, over the field of degree
    two. -/
abbrev Extension := Vector Quadratic 6

namespace Extension

def one : Extension := (Vector.replicate 6 Quadratic.zero).set 0 ⟨1, 0⟩

/-- The product of two polynomials: coefficients whose degrees add to six or more come back
    down by a factor of `9 + i`. -/
def mul (a b : Extension) : Extension :=
  Vector.ofFn fun k : Fin 6 =>
    let low := (List.range (k.val + 1)).foldl
      (fun acc i => acc + a[i]?.getD .zero * b[k.val - i]?.getD .zero) Quadratic.zero
    let high := (List.range (5 - k.val)).foldl
      (fun acc i => acc + a[k.val + 1 + i]?.getD .zero * b[5 - i]?.getD .zero) Quadratic.zero
    low + high.mulNonResidue

/-- The product with `c₀ + c₂ w² + c₃ w³`, the form of a line function. -/
def mulLine (a : Extension) (c₀ : Base) (c₂ c₃ : Quadratic) : Extension :=
  Vector.ofFn fun k : Fin 6 =>
    let from₂ := a.get ⟨(k.val + 4) % 6, by omega⟩ * c₂
    let from₃ := a.get ⟨(k.val + 3) % 6, by omega⟩ * c₃
    a[k].scale c₀
      + (if k.val < 2 then from₂.mulNonResidue else from₂)
      + (if k.val < 3 then from₃.mulNonResidue else from₃)

/-- `acc * base ^ exponent`, squaring the base for each binary digit of the exponent. -/
def powLoop (base acc : Extension) (exponent : Nat) : Extension :=
  if exponent = 0 then acc
  else powLoop (mul base base) (if exponent % 2 = 1 then mul acc base else acc) (exponent / 2)
termination_by exponent
decreasing_by omega

def pow (a : Extension) (n : Nat) : Extension := powLoop a one n

/-- Whether only even powers of `w` occur, that is whether the number lies in the subfield of
    degree six. -/
def isEven (a : Extension) : Bool :=
  a[1] = Quadratic.zero ∧ a[3] = Quadratic.zero ∧ a[5] = Quadratic.zero

end Extension

/-! ## The two groups -/

def base? (n : Nat) : Option Base := if n < fieldPrime then some ⟨n⟩ else none

/-- The point of the first group with the given coordinates; two zeros stand for the point at
    infinity. -/
def g1? (x y : Nat) : Option (Point Base) := do
  let x ← base? x
  let y ← base? y
  let point : Point Base := if x = 0 ∧ y = 0 then .infinity else .affine x y
  if point.isOn 3 then some point else none

/-- The constant of the twist, `3 / (9 + i)`. -/
def twistConstant : Quadratic := (⟨3, 0⟩ : Quadratic) * Quadratic.inv ⟨9, 1⟩

/-- The point of the second group with the given coordinates; zeros stand for the point at
    infinity.  A point of the twist outside the subgroup is refused. -/
def g2? (xRe xIm yRe yIm : Nat) : Option (Point Quadratic) := do
  let xRe ← base? xRe
  let xIm ← base? xIm
  let yRe ← base? yRe
  let yIm ← base? yIm
  let x : Quadratic := ⟨xRe, xIm⟩
  let y : Quadratic := ⟨yRe, yIm⟩
  let point : Point Quadratic :=
    if x = Quadratic.zero ∧ y = Quadratic.zero then .infinity else .affine x y
  if point.isOn twistConstant ∧ (point.mul order).isInfinity then some point else none

/-! ## The pairing -/

/-- Multiplies in the line through `(x, y)` of the given slope, taken at the untwisted point
    `(u w², v w³)`. -/
def throughLine (f : Extension) (slope x y : Base) (u v : Quadratic) : Extension :=
  f.mulLine (slope * x - y) (u.scale (-slope)) v

/-- **Doubling and adding with lines.**  Goes through the binary digits of the order, from the
    second highest, doubling `t` and adding `(x, y)`, and multiplies in the line of every
    doubling and addition.  A vertical line lies in the subfield and is left out. -/
def lineLoop (x y : Base) (u v : Quadratic) :
    (digits : List Bool) → (t : Point Base) → (f : Extension) → Extension
  | [], _, f => f
  | digit :: digits, .infinity, f =>
    let f := Extension.mul f f
    lineLoop x y u v digits (if digit then .affine x y else .infinity) f
  | digit :: digits, .affine tx ty, f =>
    let slope := Point.tangent tx ty
    let f := throughLine (Extension.mul f f) slope tx ty u v
    match digit, Point.along slope tx ty tx with
    | true, .affine dx dy =>
      if dx = x then lineLoop x y u v digits (Point.add (.affine dx dy) (.affine x y)) f
      else
        let slope := Point.chord dx dy x y
        lineLoop x y u v digits (Point.along slope dx dy x) (throughLine f slope dx dy u v)
    | _, t => lineLoop x y u v digits t f

/-- The binary digits of a number, the lowest first. -/
def binaryDigits (n : Nat) : List Bool :=
  (List.range (Nat.log2 n + 1)).map n.testBit

/-- The product of the line functions of a pair of points, one when either is infinite. -/
def lines : Point Base → Point Quadratic → Extension
  | .affine x y, .affine u v =>
    lineLoop x y u v (binaryDigits order).reverse.tail (.affine x y) Extension.one
  | _, _ => Extension.one

/-- **The pairing check.**  Whether the pairings of all pairs multiply to one.  The pairing is
    the power `(p ^ 12 - 1) / order` of the line functions; it is one exactly when the power
    `(p ^ 6 + 1) / order` already lies in the subfield of degree six. -/
def productIsOne (pairs : List (Point Base × Point Quadratic)) : Bool :=
  let product := pairs.foldl (fun f (p, q) => Extension.mul f (lines p q)) Extension.one
  (product.pow ((Nat.pow fieldPrime 6 + 1) / order)).isEven

end ResumableEvm.AltBn128
