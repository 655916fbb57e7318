import ResumableEvm.Word

/-!
# Addresses and hashes

Accounts live at 160-bit addresses.  On the operand stack an address is a word whose high 96
bits are zero, and a word names the address in its low 160 bits.

* `Address.ofWord`, `Address.toWord` — between words and addresses.
* `Address.ofHash` — the low 20 bytes of a hash.
* `Address.toHex` — 40 hexadecimal digits.
-/

namespace ResumableEvm

/-- A 160-bit account address. -/
abbrev Address := BitVec 160

/-- A 256-bit hash. -/
abbrev Hash := BitVec 256

namespace Address

/-- The address in the low 160 bits of a word. -/
def ofWord (w : Word) : Address := BitVec.ofNat 160 w.toNat

def toWord (a : Address) : Word := BitVec.ofNat 256 a.toNat

/-- The address made of the last 20 bytes of a hash. -/
def ofHash (h : Hash) : Address := ofWord h

def toBytes (a : Address) : Bytes := Bytes.ofNat 20 a.toNat

def toHex (a : Address) : String := hexPadded 40 a.toNat

/-- A word that an address became names that address. -/
@[simp] theorem ofWord_toWord (a : Address) : ofWord (toWord a) = a := by
  apply BitVec.eq_of_toNat_eq
  have := a.isLt
  simp only [ofWord, toWord, BitVec.toNat_ofNat]
  omega

end Address

end ResumableEvm
