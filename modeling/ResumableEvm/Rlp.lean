import ResumableEvm.Bytes

/-!
# Recursive length prefix

The encoding that turns a list of byte strings into one byte string.  A byte below `0x80`
stands for itself; everything else is led by its length.

* `Rlp.string`, `Rlp.number` — a byte string, a number without leading zeros.
* `Rlp.list` — a list of encoded items.
-/

namespace ResumableEvm.Rlp

/-- The lead-in of `len` bytes: short lengths join the marker, longer ones follow it. -/
def lead (marker len : Nat) : Bytes :=
  if len < 56 then Bytes.ofNat 1 (marker + len)
  else
    let size := Bytes.minimal len
    Bytes.ofNat 1 (marker + 55 + size.size) ++ size

def string (b : Bytes) : Bytes :=
  if b.size = 1 ∧ b.byteAt 0 < 0x80 then b else lead 0x80 b.size ++ b

/-- The encoding of a number in as few bytes as it needs; zero needs none. -/
def number (n : Nat) : Bytes := string (Bytes.minimal n)

/-- The encoding of a list of encoded items. -/
def list (items : List Bytes) : Bytes :=
  let payload := items.foldl (· ++ ·) ByteArray.empty
  lead 0xc0 payload.size ++ payload

end ResumableEvm.Rlp
