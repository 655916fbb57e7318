/-!
# Integers modulo a prime

The fields under the curves are integers modulo a prime, kept in `[0, p)`.

* `Residue` — a class modulo `p`, by its least representative.
* `Residue.pow` — powers by repeated squaring.
* `Residue.inv` — the inverse, by the extended Euclidean algorithm.
-/

namespace ResumableEvm.Curve

/-- An integer modulo `p`. -/
structure Residue (p : Nat) where
  val : Nat
  deriving DecidableEq, Repr

namespace Residue

variable {p : Nat}

def ofNat (n : Nat) : Residue p := ⟨n % p⟩

instance (n : Nat) : OfNat (Residue p) n := ⟨ofNat n⟩

instance : Inhabited (Residue p) := ⟨0⟩

instance : Add (Residue p) :=
  ⟨fun a b => let s := a.val + b.val; if s < p then ⟨s⟩ else ⟨s - p⟩⟩

instance : Sub (Residue p) :=
  ⟨fun a b => if b.val ≤ a.val then ⟨a.val - b.val⟩ else ⟨a.val + p - b.val⟩⟩

instance : Neg (Residue p) := ⟨fun a => if a.val = 0 then a else ⟨p - a.val⟩⟩

instance : Mul (Residue p) := ⟨fun a b => ofNat (a.val * b.val)⟩

/-- `acc * base ^ exponent`, squaring the base for each binary digit of the exponent. -/
def powLoop (base acc : Residue p) (exponent : Nat) : Residue p :=
  if exponent = 0 then acc
  else powLoop (base * base) (if exponent % 2 = 1 then acc * base else acc) (exponent / 2)
termination_by exponent
decreasing_by omega

def pow (a : Residue p) (n : Nat) : Residue p := powLoop a 1 n

/-- **Extended Euclid.**  With `r` and `s` two remainders of which `u` and `v` are multiples
    of the first number modulo the second, the multiple that belongs to their greatest common
    divisor. -/
def euclid (r s : Nat) (u v : Int) : Int :=
  if _h : s = 0 then u
  else euclid s (r % s) v (u - (r / s : Nat) * v)
termination_by s
decreasing_by exact Nat.mod_lt _ (Nat.pos_of_ne_zero _h)

def inv (a : Residue p) : Residue p := ⟨((euclid a.val p 1 0) % (p : Int)).toNat⟩

end Residue

end ResumableEvm.Curve
