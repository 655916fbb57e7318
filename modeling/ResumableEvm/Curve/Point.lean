/-!
# Points of a curve

The curves here all have the form `y² = x³ + b`.  Their points form a group with the point at
infinity as its zero: three points on a line add up to zero.  The field of the coordinates is
a parameter, so that one group law serves a curve and its twist.

* `Point` — a point, by its coordinates.
* `Point.add`, `Point.double` — the group law.
* `Point.mul` — multiples by doubling and adding.
* `Point.isOn` — the equation of the curve.
-/

namespace ResumableEvm.Curve

/-- The operations of a field that the group law needs. -/
class FieldOps (F : Type) extends Add F, Sub F, Mul F, Neg F where
  zero : F
  inv : F → F
  eq : F → F → Bool

/-- A point of a curve. -/
inductive Point (F : Type) where
  | infinity
  | affine (x y : F)
  deriving Repr

namespace Point

variable {F : Type} [FieldOps F]

/-- Whether this is the point at infinity. -/
def isInfinity : Point F → Bool
  | .infinity => true
  | .affine _ _ => false

/-- Whether the point satisfies `y² = x³ + b`; the point at infinity does. -/
def isOn (b : F) : Point F → Bool
  | .infinity => true
  | .affine x y => FieldOps.eq (y * y) (x * x * x + b)

/-- The slope of the tangent in a point off the axis. -/
def tangent (x y : F) : F := (x * x + x * x + x * x) * FieldOps.inv (y + y)

/-- The slope of the line through two points that are not above each other. -/
def chord (x₁ y₁ x₂ y₂ : F) : F := (y₂ - y₁) * FieldOps.inv (x₂ - x₁)

/-- The sum of two points on a line of the given slope. -/
def along (slope x₁ y₁ x₂ : F) : Point F :=
  let x := slope * slope - x₁ - x₂
  .affine x (slope * (x₁ - x) - y₁)

def double : Point F → Point F
  | .infinity => .infinity
  | .affine x y =>
    if FieldOps.eq y FieldOps.zero then .infinity else along (tangent x y) x y x

def add : Point F → Point F → Point F
  | .infinity, q => q
  | p, .infinity => p
  | .affine x₁ y₁, .affine x₂ y₂ =>
    if FieldOps.eq x₁ x₂ then
      if FieldOps.eq y₁ y₂ then double (.affine x₁ y₁) else .infinity
    else along (chord x₁ y₁ x₂ y₂) x₁ y₁ x₂

/-- `acc + n * p`, doubling the point for each binary digit of `n`. -/
def mulLoop (p acc : Point F) (n : Nat) : Point F :=
  if n = 0 then acc
  else mulLoop p.double (if n % 2 = 1 then acc.add p else acc) (n / 2)
termination_by n
decreasing_by omega

def mul (p : Point F) (n : Nat) : Point F := mulLoop p .infinity n

end Point

end ResumableEvm.Curve
