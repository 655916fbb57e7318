import ResumableEvm.Bytes

/-!
# Keccak-256

The sponge over 1600 bits with a rate of 136 bytes, a 32-byte answer and the padding
`0x01 … 0x80`.  Addresses, topics and code hashes are all made of it.

* `Keccak.permute` — the permutation of 25 lanes, 24 rounds.
* `Keccak.pad` — the padding to a whole number of blocks.
* `Keccak.digest` — the 32-byte hash.
-/

namespace ResumableEvm.Keccak

/-- The 25 lanes, lane `(x, y)` at index `x + 5 y`. -/
abbrev Lanes := Vector UInt64 25

/-- The lane at `(x, y)`, both read modulo five. -/
def lane (a : Lanes) (x y : Nat) : UInt64 :=
  a.toList.getD (x % 5 + 5 * (y % 5)) 0

/-- The lanes given by a function of their coordinates. -/
def tabulate (f : Nat → Nat → UInt64) : Lanes :=
  ⟨((List.range 25).map fun i => f (i % 5) (i / 5)).toArray, by simp⟩

def rotate (w : UInt64) (n : UInt64) : UInt64 :=
  if n = 0 then w else (w <<< n) ||| (w >>> (64 - n))

/-- What each round adds to the first lane. -/
def roundConstants : List UInt64 :=
  [0x0000000000000001, 0x0000000000008082, 0x800000000000808a, 0x8000000080008000,
   0x000000000000808b, 0x0000000080000001, 0x8000000080008081, 0x8000000000008009,
   0x000000000000008a, 0x0000000000000088, 0x0000000080008009, 0x000000008000000a,
   0x000000008000808b, 0x800000000000008b, 0x8000000000008089, 0x8000000000008003,
   0x8000000000008002, 0x8000000000000080, 0x000000000000800a, 0x800000008000000a,
   0x8000000080008081, 0x8000000000008080, 0x0000000080000001, 0x8000000080008008]

/-- How far each lane is rotated, by the index of the lane. -/
def rotations : Lanes :=
  #v[ 0,  1, 62, 28, 27,
     36, 44,  6, 55, 20,
      3, 10, 43, 25, 39,
     41, 45, 15, 21,  8,
     18,  2, 61, 56, 14]

def columns (a : Lanes) : Vector UInt64 5 :=
  Vector.ofFn fun x =>
    lane a x.val 0 ^^^ lane a x.val 1 ^^^ lane a x.val 2 ^^^ lane a x.val 3 ^^^ lane a x.val 4

/-- Every lane takes in the parities of the two columns beside its own. -/
def mixColumns (a : Lanes) : Lanes :=
  let c := columns a
  let d : Vector UInt64 5 := Vector.ofFn fun x =>
    c.get ⟨(x.val + 4) % 5, by omega⟩ ^^^ rotate (c.get ⟨(x.val + 1) % 5, by omega⟩) 1
  tabulate fun x y => lane a x y ^^^ d.get ⟨x % 5, by omega⟩

/-- Lanes are rotated and move: lane `(x, y)` comes from `(x + 3 y, x)`. -/
def scatter (a : Lanes) : Lanes :=
  tabulate fun x y => rotate (lane a (x + 3 * y) x) (lane rotations (x + 3 * y) x)

/-- Every lane takes in the two to its right, non-linearly. -/
def mixRows (a : Lanes) : Lanes :=
  tabulate fun x y => lane a x y ^^^ (~~~(lane a (x + 1) y) &&& lane a (x + 2) y)

def round (a : Lanes) (constant : UInt64) : Lanes :=
  let a := mixRows (scatter (mixColumns a))
  a.set 0 (a[0] ^^^ constant)

def permute (a : Lanes) : Lanes := roundConstants.foldl round a

/-- The bytes that one block takes in. -/
def rate : Nat := 136

/-- The eight bytes at `offset` as a lane, the low byte first. -/
def loadLane (b : Bytes) (offset : Nat) : UInt64 :=
  (List.range 8).foldr (fun i acc => (acc <<< 8) ||| (b.byteAt (offset + i)).toUInt64) 0

/-- Takes in the block at `offset` and permutes. -/
def absorb (b : Bytes) (a : Lanes) (block : Nat) : Lanes :=
  permute (Vector.ofFn fun i =>
    if i.val < 17 then a[i] ^^^ loadLane b (rate * block + 8 * i.val) else a[i])

/-- The message followed by a one bit, zeros and a last one bit, to a whole number of
    blocks. -/
def pad (b : Bytes) : Bytes :=
  let fill := rate - b.size % rate
  if fill = 1 then b.push 0x81
  else ((b.push 0x01) ++ Bytes.zeros (fill - 2)).push 0x80

/-- The eight bytes of a lane, the low byte first. -/
def laneBytes (w : UInt64) : List UInt8 :=
  (List.range 8).map fun i => (w >>> (8 * UInt64.ofNat i)).toUInt8

def digest (b : Bytes) : Bytes :=
  let padded := pad b
  let a := (List.range (padded.size / rate)).foldl (absorb padded) (Vector.replicate 25 0)
  (((a.toList.take 4).map laneBytes).flatten).toByteArray

end ResumableEvm.Keccak
