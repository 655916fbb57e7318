/-!
# Byte strings

Code, call data, memory contents and log data are all byte strings.  Everything the machine
does with them is one of three things: read a region that may run past the end, where the
missing bytes count as zero; read a region as a big-endian number; or write it out in
hexadecimal.

* `Bytes.byteAt` — one byte, zero past the end.
* `Bytes.slice` — a region of a given length, zero past the end.
* `Bytes.toNat`, `Bytes.ofNat` — big-endian numbers.
* `hexDigits`, `hexPadded`, `Bytes.toHex` — writing hexadecimal text.
* `hexNat?`, `hexBytes?`, `spacedDigits?` — reading it.
-/

namespace ResumableEvm

/-- A string of bytes. -/
abbrev Bytes := ByteArray

namespace Bytes

/-- Byte strings are equal when they have the same bytes. -/
instance instDecidableEq : DecidableEq Bytes := fun a b =>
  match decEq a.data b.data with
  | isTrue h => isTrue (ByteArray.ext h)
  | isFalse h => isFalse fun e => h (congrArg ByteArray.data e)

/-! ## Regions, padded with zeros -/

def zeros (n : Nat) : Bytes := ⟨Array.replicate n 0⟩

/-- The byte at position `i`, zero past the end. -/
def byteAt (b : Bytes) (i : Nat) : UInt8 :=
  if h : i < b.size then b[i] else 0

/-- **The padded region.**  The `len` bytes that start at `offset`, with zeros for those past
    the end of `b`.  The bounds are clipped before the copy, so a huge offset costs nothing. -/
def slice (b : Bytes) (offset len : Nat) : Bytes :=
  if offset < b.size then
    let stop := min (offset + len) b.size
    b.extract offset stop ++ zeros (len - (stop - offset))
  else
    zeros len

/-- `b` with the bytes from `offset` on replaced by those of `value`.  The region must lie
    inside `b`. -/
def overwrite (b : Bytes) (offset : Nat) (value : Bytes) : Bytes :=
  value.copySlice 0 b offset value.size

def growTo (b : Bytes) (size : Nat) : Bytes :=
  if b.size < size then b ++ zeros (size - b.size) else b

@[simp] theorem size_zeros (n : Nat) : (zeros n).size = n := by
  simp [zeros, ByteArray.size]

@[simp] theorem size_slice (b : Bytes) (offset len : Nat) : (b.slice offset len).size = len := by
  unfold slice
  split
  · simp only [ByteArray.size_append, ByteArray.size_extract, size_zeros]
    omega
  · simp

/-! ## Big-endian numbers -/

/-- The number whose big-endian digits, base 256, are the bytes. -/
def toNat (b : Bytes) : Nat :=
  b.data.foldl (fun acc x => acc * 256 + x.toNat) 0

/-- The last `len` big-endian digits of `n`, base 256, in front of `acc`. -/
def digits : (len n : Nat) → (acc : List UInt8) → List UInt8
  | 0, _, acc => acc
  | len + 1, n, acc => digits len (n / 256) (UInt8.ofNat n :: acc)

/-- The `len` low bytes of `n`, big-endian. -/
def ofNat (len n : Nat) : Bytes := (digits len n []).toByteArray

/-- How many bytes the number needs; zero needs none. -/
def lengthOf (n : Nat) : Nat := if n = 0 then 0 else Nat.log2 n / 8 + 1

/-- The number in as few big-endian bytes as it needs. -/
def minimal (n : Nat) : Bytes := ofNat (lengthOf n) n

end Bytes

/-! ## Hexadecimal text -/

/-- The digit of a value below 16, in lower case. -/
def hexDigit (n : Nat) : Char := Nat.digitChar n

/-- The value of a hexadecimal digit of either case. -/
def hexValue? (c : Char) : Option Nat :=
  if '0' ≤ c ∧ c ≤ '9' then some (c.toNat - '0'.toNat)
  else if 'a' ≤ c ∧ c ≤ 'f' then some (c.toNat - 'a'.toNat + 10)
  else if 'A' ≤ c ∧ c ≤ 'F' then some (c.toNat - 'A'.toNat + 10)
  else none

/-- A number in as few lower-case hexadecimal digits as it needs, behind `0x`. -/
def hexMinimal (n : Nat) : String :=
  "0x" ++ String.ofList (Nat.toDigits 16 n)

/-- The last `width` hexadecimal digits of `n`, in front of `acc`. -/
def hexDigits : (width n : Nat) → (acc : List Char) → List Char
  | 0, _, acc => acc
  | width + 1, n, acc => hexDigits width (n / 16) (hexDigit (n % 16) :: acc)

/-- A number in exactly `width` lower-case hexadecimal digits, behind `0x`. -/
def hexPadded (width n : Nat) : String :=
  "0x" ++ String.ofList (hexDigits width n [])

/-- Every byte as two lower-case digits, without a lead-in. -/
def Bytes.hexPairs (b : Bytes) : String :=
  b.data.foldl
    (fun text x => (text.push (hexDigit (x.toNat / 16))).push (hexDigit (x.toNat % 16))) ""

def Bytes.toHex (b : Bytes) : String := "0x" ++ b.hexPairs

/-- The number whose digits in base sixteen are given, the highest first. -/
def hexNat (digits : List Nat) : Nat := digits.foldl (fun acc d => acc * 16 + d) 0

/-- The number that a non-empty string of hexadecimal digits spells. -/
def hexNat? (digits : List Char) : Option Nat :=
  if digits.isEmpty then none else (digits.mapM hexValue?).map hexNat

/-- Whether a character may stand between hexadecimal digits without meaning anything. -/
def isDigitGap (c : Char) : Bool := c == ' ' || c == '\t' || c == '\n' || c == '\r'

/-- **The digits that spaced text spells.**  Blanks between digits are passed over.  How the
    digits pair up into bytes is settled by the length of the text, blanks included: if it is
    odd, the first digit is a byte of its own.  So an odd number of blanks leaves the last digit
    without a partner, and it is dropped. -/
def spacedDigits? (text : List Char) : Option (List Nat) :=
  ((text.filter (!isDigitGap ·)).mapM hexValue?).map fun digits =>
    if text.countP isDigitGap % 2 = 1 then digits.dropLast else digits

/-- The bytes that pairs of hexadecimal digits spell, after `acc`. -/
def hexPairs? : (digits : List Char) → (acc : Bytes) → Option Bytes
  | [], acc => some acc
  | hi :: lo :: rest, acc => do
    hexPairs? rest (acc.push (UInt8.ofNat ((← hexValue? hi) * 16 + (← hexValue? lo))))
  | [_], _ => none

def hexBytes? (digits : List Char) : Option Bytes := hexPairs? digits ByteArray.empty

def dropHexLead : List Char → List Char
  | '0' :: 'x' :: rest => rest
  | text => text

end ResumableEvm
