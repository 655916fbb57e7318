import ResumableEvm.Bytes

/-!
# SHA-256

The hash of FIPS 180-4 with 32-bit words and 64 rounds a block.

* `Sha256.pad` — the padding, which ends in the message's length in bits.
* `Sha256.schedule` — the 64 words that the rounds of a block take in.
* `Sha256.compress` — one block.
* `Sha256.digest` — the 32-byte hash.
-/

namespace ResumableEvm.Sha256

/-- The eight words of the running hash. -/
structure State where
  a : UInt32
  b : UInt32
  c : UInt32
  d : UInt32
  e : UInt32
  f : UInt32
  g : UInt32
  h : UInt32

def initial : State :=
  ⟨0x6a09e667, 0xbb67ae85, 0x3c6ef372, 0xa54ff53a, 0x510e527f, 0x9b05688c, 0x1f83d9ab,
   0x5be0cd19⟩

def roundConstants : List UInt32 :=
  [0x428a2f98, 0x71374491, 0xb5c0fbcf, 0xe9b5dba5, 0x3956c25b, 0x59f111f1, 0x923f82a4, 0xab1c5ed5,
   0xd807aa98, 0x12835b01, 0x243185be, 0x550c7dc3, 0x72be5d74, 0x80deb1fe, 0x9bdc06a7, 0xc19bf174,
   0xe49b69c1, 0xefbe4786, 0x0fc19dc6, 0x240ca1cc, 0x2de92c6f, 0x4a7484aa, 0x5cb0a9dc, 0x76f988da,
   0x983e5152, 0xa831c66d, 0xb00327c8, 0xbf597fc7, 0xc6e00bf3, 0xd5a79147, 0x06ca6351, 0x14292967,
   0x27b70a85, 0x2e1b2138, 0x4d2c6dfc, 0x53380d13, 0x650a7354, 0x766a0abb, 0x81c2c92e, 0x92722c85,
   0xa2bfe8a1, 0xa81a664b, 0xc24b8b70, 0xc76c51a3, 0xd192e819, 0xd6990624, 0xf40e3585, 0x106aa070,
   0x19a4c116, 0x1e376c08, 0x2748774c, 0x34b0bcb5, 0x391c0cb3, 0x4ed8aa4a, 0x5b9cca4f, 0x682e6ff3,
   0x748f82ee, 0x78a5636f, 0x84c87814, 0x8cc70208, 0x90befffa, 0xa4506ceb, 0xbef9a3f7, 0xc67178f2]

def rotate (w : UInt32) (n : UInt32) : UInt32 := (w >>> n) ||| (w <<< (32 - n))

/-- The message followed by a one bit, zeros and its length in bits, to a whole number of
    64-byte blocks. -/
def pad (b : Bytes) : Bytes :=
  (b.push 0x80) ++ Bytes.zeros ((119 - b.size % 64) % 64) ++ Bytes.ofNat 8 (8 * b.size)

def loadWord (b : Bytes) (offset : Nat) : UInt32 :=
  (List.range 4).foldl (fun acc i => (acc <<< 8) ||| (b.byteAt (offset + i)).toUInt32) 0

/-- Continues the words of a block by `n` words, each from four of the 16 before it. -/
def extend : (n : Nat) → (words : Array UInt32) → Array UInt32
  | 0, words => words
  | n + 1, words =>
    let earlier (distance : Nat) : UInt32 := words[words.size - distance]?.getD 0
    let low := rotate (earlier 15) 7 ^^^ rotate (earlier 15) 18 ^^^ (earlier 15 >>> 3)
    let high := rotate (earlier 2) 17 ^^^ rotate (earlier 2) 19 ^^^ (earlier 2 >>> 10)
    extend n (words.push (earlier 16 + low + earlier 7 + high))

/-- The words of a block: the sixteen it holds and 48 made of them. -/
def schedule (b : Bytes) (block : Nat) : List UInt32 :=
  (extend 48 (Array.ofFn fun i : Fin 16 => loadWord b (64 * block + 4 * i.val))).toList

def round (s : State) (input : UInt32 × UInt32) : State :=
  let big := rotate s.e 6 ^^^ rotate s.e 11 ^^^ rotate s.e 25
  let choice := (s.e &&& s.f) ^^^ (~~~s.e &&& s.g)
  let first := s.h + big + choice + input.1 + input.2
  let small := rotate s.a 2 ^^^ rotate s.a 13 ^^^ rotate s.a 22
  let majority := (s.a &&& s.b) ^^^ (s.a &&& s.c) ^^^ (s.b &&& s.c)
  ⟨first + (small + majority), s.a, s.b, s.c, s.d + first, s.e, s.f, s.g⟩

def compress (b : Bytes) (s : State) (block : Nat) : State :=
  let t := (roundConstants.zip (schedule b block)).foldl round s
  ⟨s.a + t.a, s.b + t.b, s.c + t.c, s.d + t.d, s.e + t.e, s.f + t.f, s.g + t.g, s.h + t.h⟩

def digest (b : Bytes) : Bytes :=
  let padded := pad b
  let s := (List.range (padded.size / 64)).foldl (compress padded) initial
  [s.a, s.b, s.c, s.d, s.e, s.f, s.g, s.h].foldl
    (fun out w => out ++ Bytes.ofNat 4 w.toNat) ByteArray.empty

end ResumableEvm.Sha256
