import ResumableEvm.Bytes

/-!
# RIPEMD-160

Two lines of 80 steps run over each 64-byte block side by side, with orders and rotations of
their own, and meet in the running hash.

* `Ripemd160.pad` — the padding, which ends in the message's length in bits, low byte first.
* `Ripemd160.compress` — one block.
* `Ripemd160.digest` — the 20-byte hash.
-/

namespace ResumableEvm.Ripemd160

/-- The five words of the running hash. -/
structure State where
  a : UInt32
  b : UInt32
  c : UInt32
  d : UInt32
  e : UInt32

def initial : State := ⟨0x67452301, 0xefcdab89, 0x98badcfe, 0x10325476, 0xc3d2e1f0⟩

/-- The word that each step of the left line takes in. -/
def leftOrder : List Nat :=
  [0, 1, 2, 3, 4, 5, 6, 7, 8, 9, 10, 11, 12, 13, 14, 15,
   7, 4, 13, 1, 10, 6, 15, 3, 12, 0, 9, 5, 2, 14, 11, 8,
   3, 10, 14, 4, 9, 15, 8, 1, 2, 7, 0, 6, 13, 11, 5, 12,
   1, 9, 11, 10, 0, 8, 12, 4, 13, 3, 7, 15, 14, 5, 6, 2,
   4, 0, 5, 9, 7, 12, 2, 10, 14, 1, 3, 8, 11, 6, 15, 13]

/-- The word that each step of the right line takes in. -/
def rightOrder : List Nat :=
  [5, 14, 7, 0, 9, 2, 11, 4, 13, 6, 15, 8, 1, 10, 3, 12,
   6, 11, 3, 7, 0, 13, 5, 10, 14, 15, 8, 12, 4, 9, 1, 2,
   15, 5, 1, 3, 7, 14, 6, 9, 11, 8, 12, 2, 10, 0, 4, 13,
   8, 6, 4, 1, 3, 11, 15, 0, 5, 12, 2, 13, 9, 7, 10, 14,
   12, 15, 10, 4, 1, 5, 8, 7, 6, 2, 13, 14, 0, 3, 9, 11]

/-- The rotation of each step of the left line. -/
def leftRotations : List UInt32 :=
  [11, 14, 15, 12, 5, 8, 7, 9, 11, 13, 14, 15, 6, 7, 9, 8,
   7, 6, 8, 13, 11, 9, 7, 15, 7, 12, 15, 9, 11, 7, 13, 12,
   11, 13, 6, 7, 14, 9, 13, 15, 14, 8, 13, 6, 5, 12, 7, 5,
   11, 12, 14, 15, 14, 15, 9, 8, 9, 14, 5, 6, 8, 6, 5, 12,
   9, 15, 5, 11, 6, 8, 13, 12, 5, 12, 13, 14, 11, 8, 5, 6]

/-- The rotation of each step of the right line. -/
def rightRotations : List UInt32 :=
  [8, 9, 9, 11, 13, 15, 15, 5, 7, 7, 8, 11, 14, 14, 12, 6,
   9, 13, 15, 7, 12, 8, 9, 11, 7, 7, 12, 7, 6, 15, 13, 11,
   9, 7, 15, 11, 8, 6, 6, 14, 12, 13, 5, 14, 13, 13, 7, 5,
   15, 5, 8, 11, 14, 14, 6, 14, 6, 9, 12, 9, 12, 5, 15, 8,
   8, 5, 12, 9, 12, 5, 14, 6, 8, 13, 6, 5, 15, 13, 11, 11]

/-- What the steps of the left line add, by the group of sixteen they belong to. -/
def leftConstants : List UInt32 := [0x00000000, 0x5a827999, 0x6ed9eba1, 0x8f1bbcdc, 0xa953fd4e]

/-- What the steps of the right line add, by the group of sixteen they belong to. -/
def rightConstants : List UInt32 := [0x50a28be6, 0x5c4dd124, 0x6d703ef3, 0x7a6d76e9, 0x00000000]

/-- The bitwise function of a group of sixteen steps, the left line counting up and the right
    line down. -/
def blend (group : Nat) (x y z : UInt32) : UInt32 :=
  match group with
  | 0 => x ^^^ y ^^^ z
  | 1 => (x &&& y) ||| (~~~x &&& z)
  | 2 => (x ||| ~~~y) ^^^ z
  | 3 => (x &&& z) ||| (y &&& ~~~z)
  | _ => x ^^^ (y ||| ~~~z)

def rotate (w : UInt32) (n : UInt32) : UInt32 := (w <<< n) ||| (w >>> (32 - n))

/-- One step of a line: the group's function and constant, the word taken in, the rotation. -/
def step (s : State) (group : Nat) (constant word rotation : UInt32) : State :=
  let t := rotate (s.a + blend group s.b s.c s.d + word + constant) rotation + s.e
  ⟨s.e, t, s.b, rotate s.c 10, s.d⟩

/-- A line of 80 steps; `group` gives the function of the steps with each number. -/
def line (words : Array UInt32) (order : List Nat) (rotations constants : List UInt32)
    (group : Nat → Nat) (s : State) : State :=
  ((List.range 80).zip (order.zip rotations)).foldl
    (fun s (i, word, rotation) =>
      step s (group i) (constants[i / 16]?.getD 0) (words[word]?.getD 0) rotation) s

/-- The message followed by a one bit, zeros and its length in bits, to a whole number of
    64-byte blocks. -/
def pad (b : Bytes) : Bytes :=
  let length := ((Bytes.ofNat 8 (8 * b.size)).data.toList.reverse).toByteArray
  (b.push 0x80) ++ Bytes.zeros ((119 - b.size % 64) % 64) ++ length

/-- The word at an offset, low byte first. -/
def loadWord (b : Bytes) (offset : Nat) : UInt32 :=
  (List.range 4).foldr (fun i acc => (acc <<< 8) ||| (b.byteAt (offset + i)).toUInt32) 0

def compress (b : Bytes) (s : State) (block : Nat) : State :=
  let words := Array.ofFn fun i : Fin 16 => loadWord b (64 * block + 4 * i.val)
  let l := line words leftOrder leftRotations leftConstants (· / 16) s
  let r := line words rightOrder rightRotations rightConstants (4 - · / 16) s
  ⟨s.b + l.c + r.d, s.c + l.d + r.e, s.d + l.e + r.a, s.e + l.a + r.b, s.a + l.b + r.c⟩

/-- The four bytes of a word, low byte first. -/
def wordBytes (w : UInt32) : List UInt8 :=
  (List.range 4).map fun i => (w >>> (8 * UInt32.ofNat i)).toUInt8

def digest (b : Bytes) : Bytes :=
  let padded := pad b
  let s := (List.range (padded.size / 64)).foldl (compress padded) initial
  (([s.a, s.b, s.c, s.d, s.e].map wordBytes).flatten).toByteArray

end ResumableEvm.Ripemd160
