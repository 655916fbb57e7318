import ResumableEvm.Exit

/-!
# Memory

Memory is an array of bytes that starts out all zero.  Two lengths belong to it: the length
that has been paid for, always a multiple of 32, and the length actually written to, which
only grows when a write needs it.  Reading past the written part gives zeros.

* `Memory.resizeEnd`, `Memory.resizeOffset` — extend the paid length.
* `Memory.get` — read a region.
* `Memory.set`, `Memory.copyLarge` — write a region, within the limit.
-/

namespace ResumableEvm

/-- The memory of one machine. -/
structure Memory where
  /-- The bytes written to so far, and those between them. -/
  data : Bytes
  /-- The length paid for, in bytes. -/
  effective : Nat
  /-- Where writes must end. -/
  limit : Nat
  deriving DecidableEq

namespace Memory

def empty (limit : Nat) : Memory := ⟨ByteArray.empty, 0, limit⟩

def size (m : Memory) : Nat := m.data.size

def roundUp (n : Nat) : Nat := (n + 31) / 32 * 32

/-- Extends the paid length to cover everything before `stop`, in steps of 32 bytes.  A length
    that leaves 256 bits is refused. -/
def resizeEnd (m : Memory) (stop : Nat) : Except ExitError Memory :=
  if stop > m.effective then
    if roundUp stop > maxWord then .error .invalidRange
    else .ok { m with effective := roundUp stop }
  else .ok m

/-- Extends the paid length to cover `len` bytes from `offset` on.  An empty region needs
    nothing, wherever it lies. -/
def resizeOffset (m : Memory) (offset len : Word) : Except ExitError Memory :=
  if len = 0 then .ok m
  else if offset.toNat + len.toNat > maxWord then .error .invalidRange
  else m.resizeEnd (offset.toNat + len.toNat)

def get (m : Memory) (offset len : Nat) : Bytes := m.data.slice offset len

/-- Whether a write of `len` bytes at `offset` ends within the limit. -/
def admits (m : Memory) (offset len : Nat) : Bool :=
  offset + len ≤ m.limit ∧ offset + len ≤ maxIndex

/-- Puts the bytes of `value` at `offset`, growing the written part where it has to. -/
def write (m : Memory) (offset : Nat) (value : Bytes) : Memory :=
  { m with data := (m.data.growTo (offset + value.size)).overwrite offset value }

/-- **Writing.**  The first `len` bytes of `value`, continued with zeros, go to the region of
    `len` bytes from `offset` on.  A region that ends past the limit is refused; an empty one
    is never refused and changes nothing. -/
def set (m : Memory) (offset : Nat) (value : Bytes) (len : Nat) : Except ExitFatal Memory :=
  if len = 0 then .ok m
  else if m.admits offset len then .ok (m.write offset (value.slice 0 len))
  else .error .notSupported

/-- The `len` bytes of a source from an offset on, continued with zeros.  An offset that is no
    index is past the end of every source. -/
def sourceRegion (source : Bytes) (offset : Word) (len : Nat) : Bytes :=
  if offset.isIndex then source.slice offset.toNat len else Bytes.zeros len

@[simp] theorem size_sourceRegion (source : Bytes) (offset : Word) (len : Nat) :
    (sourceRegion source offset len).size = len := by
  unfold sourceRegion
  split
  · exact Bytes.size_slice ..
  · exact Bytes.size_zeros len

/-- **Copying.**  The `len` bytes of `source` from `sourceOffset` on, continued with zeros, go
    to `offset`.  A source offset past the end, however large, reads zeros only. -/
def copyLarge (m : Memory) (offset sourceOffset len : Word) (source : Bytes) :
    Except ExitFatal Memory :=
  if len = 0 then .ok m
  else if offset.isIndex && len.isIndex && m.admits offset.toNat len.toNat then
    .ok (m.write offset.toNat (sourceRegion source sourceOffset len.toNat))
  else .error .notSupported

/-- The bytes of a region that has been paid for.  An empty region is empty wherever it
    lies, and so is one that cannot be addressed. -/
def read (m : Memory) (offset len : Word) : Bytes :=
  if len ≠ 0 ∧ offset.isIndex ∧ len.isIndex then m.get offset.toNat len.toNat
  else ByteArray.empty

end Memory

end ResumableEvm
