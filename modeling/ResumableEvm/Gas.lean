import ResumableEvm.Word

/-!
# Gas

Gas is counted in 256 bits and never wraps: sums and products stop at the largest amount, and
differences stop at zero.  Amounts are a type of their own, so that gas and plain words are
never mixed up.

* `Gas.ofNat` — the amount nearest to a natural number; every operation goes through it.
* `Gas.toNat` — the amount as a natural number.
* `Gas.div?`, `Gas.mod?` — division, which refuses a divisor of zero.
-/

namespace ResumableEvm

/-- What stops a computation that has no answer. -/
inductive Fault where
  /-- A counter left its 256 bits. -/
  | overflow
  /-- A quantity was divided by zero. -/
  | divisionByZero
  deriving DecidableEq, Repr

def Fault.message : Fault → String
  | .overflow => "arithmetic operation overflow"
  | .divisionByZero => "division by zero"

/-- An amount of gas. -/
structure Gas where
  /-- The amount as a word. -/
  toWord : Word
  deriving DecidableEq, Repr

namespace Gas

def toNat (g : Gas) : Nat := g.toWord.toNat

/-- **Saturation.**  The amount `n`, or the largest amount when `n` exceeds it. -/
def ofNat (n : Nat) : Gas :=
  ⟨BitVec.ofNatLT (min n maxWord) (Nat.lt_of_le_of_lt (Nat.min_le_right n maxWord) (by decide))⟩

instance (n : Nat) : OfNat Gas n := ⟨ofNat n⟩

instance : Inhabited Gas := ⟨0⟩

def largest : Gas := ofNat maxWord

instance : Add Gas := ⟨fun a b => ofNat (a.toNat + b.toNat)⟩
instance : Sub Gas := ⟨fun a b => ofNat (a.toNat - b.toNat)⟩
instance : Mul Gas := ⟨fun a b => ofNat (a.toNat * b.toNat)⟩
instance : LT Gas := ⟨fun a b => a.toNat < b.toNat⟩
instance : LE Gas := ⟨fun a b => a.toNat ≤ b.toNat⟩
instance (a b : Gas) : Decidable (a < b) := inferInstanceAs (Decidable (a.toNat < b.toNat))
instance (a b : Gas) : Decidable (a ≤ b) := inferInstanceAs (Decidable (a.toNat ≤ b.toNat))
instance : Max Gas := ⟨fun a b => if a ≤ b then b else a⟩
instance : Min Gas := ⟨fun a b => if a ≤ b then a else b⟩

def divNat (a : Gas) (n : Nat) : Gas := ofNat (a.toNat / n)

/-- Division, rounded down; a divisor of zero is a fault. -/
def div? (a b : Gas) : Except Fault Gas :=
  if b.toNat = 0 then .error .divisionByZero else .ok (ofNat (a.toNat / b.toNat))

/-- Remainder of division; a divisor of zero is a fault. -/
def mod? (a b : Gas) : Except Fault Gas :=
  if b.toNat = 0 then .error .divisionByZero else .ok (ofNat (a.toNat % b.toNat))

/-- The difference, unless it would be negative. -/
def sub? (a b : Gas) : Option Gas :=
  if b ≤ a then some (a - b) else none

def clamp64 (a : Gas) : Nat := min a.toNat maxIndex

/-- The number of bits the amount needs. -/
def bits (a : Gas) : Nat := a.toWord.bits

/-- The words of 32 bytes that hold `len` bytes. -/
def ofByteLength (len : Nat) : Gas := ofNat ((len + 31) / 32)

/-- All but one 64th of the amount, the 64th rounded down. -/
def allBut64th (a : Gas) : Gas := a - a.divNat 64

/-- The amount in as few hexadecimal digits as it needs. -/
def toHex (a : Gas) : String := a.toWord.toHex

@[simp] theorem toNat_ofNat (n : Nat) : (ofNat n).toNat = min n maxWord := by
  simp [ofNat, toNat]

theorem toNat_le (a : Gas) : a.toNat ≤ maxWord := Nat.le_of_lt_succ a.toWord.isLt

theorem toNat_add (a b : Gas) : (a + b).toNat = min (a.toNat + b.toNat) maxWord :=
  toNat_ofNat _

theorem toNat_mul (a b : Gas) : (a * b).toNat = min (a.toNat * b.toNat) maxWord :=
  toNat_ofNat _

theorem toNat_sub (a b : Gas) : (a - b).toNat = a.toNat - b.toNat := by
  have h : (a - b).toNat = min (a.toNat - b.toNat) maxWord := toNat_ofNat _
  have := toNat_le a
  omega

end Gas

end ResumableEvm
