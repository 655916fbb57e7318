import ResumableEvm.JumpTable
import ResumableEvm.OperandStack
import ResumableEvm.Proofs.CheckedArithmetic
import ResumableEvm.Proofs.MemoryRegion

/-!
# Regions that could be out of range

Bytes are read and written as regions between two positions, and a region that is not there ends
the program.  Memory, the stack and the table of jump destinations look at what they have before
they take a region or an index, so what they take is always there.

* `Bytes.checkedSlice`, `Bytes.checkedCopy` — regions that may not be there.
* `Memory.checkedGet_eq`, `Memory.checkedSet_eq`, `Memory.checkedCopyLarge_eq` — memory has them.
* `OperandStack.checkedPeek_eq`, `OperandStack.checkedSet_eq` — so does the stack.
* `JumpTable.checkedOfCode_eq`, `JumpTable.checkedIsValid_eq` — and the table.
-/

namespace ResumableEvm

namespace Bytes

variable {b value : Bytes} {start stop offset len : ℕ}

/-- The bytes from one position to another. -/
def checkedSlice (b : Bytes) (start stop : ℕ) : Except Panic Bytes :=
  if start ≤ stop ∧ stop ≤ b.size then .ok (b.extract start stop) else .error .outOfRange

/-- A byte string with the bytes of another, as many as there are positions, between two
    positions. -/
def checkedCopy (b : Bytes) (start stop : ℕ) (value : Bytes) : Except Panic Bytes :=
  if start ≤ stop ∧ stop ≤ b.size ∧ value.size = stop - start then .ok (b.overwrite start value)
  else .error .outOfRange

/-- A byte string with zeros between two positions. -/
def checkedFill (b : Bytes) (start stop : ℕ) : Except Panic Bytes :=
  if start ≤ stop ∧ stop ≤ b.size then .ok (b.overwrite start (zeros (stop - start)))
  else .error .outOfRange

/-- The `len` bytes from an offset on, copied over zeros as far as there are any. -/
def checkedPadded (b : Bytes) (offset len : ℕ) : Except Panic Bytes := do
  if offset < b.size then
    let stop := min (offset + len) b.size
    let present ← b.checkedSlice offset stop
    (zeros len).checkedCopy 0 (← subIndex stop offset) present
  else return zeros len

lemma checkedSlice_of_le (h : start ≤ stop) (hstop : stop ≤ b.size) :
    b.checkedSlice start stop = .ok (b.extract start stop) := if_pos ⟨h, hstop⟩

lemma checkedCopy_of_le (hstop : start + value.size = stop) (hsize : stop ≤ b.size) :
    b.checkedCopy start stop value = .ok (b.overwrite start value) :=
  if_pos ⟨by omega, hsize, by omega⟩

lemma size_overwrite (h : offset + value.size ≤ b.size) :
    (b.overwrite offset value).size = b.size := by
  have hvalue : min value.size (value.data.size - 0) = value.size := by
    show min value.size (value.size - 0) = value.size
    omega
  have hb : b.data.size = b.size := rfl
  rw [overwrite, ByteArray.copySlice_eq_append, hvalue, hb]
  simp only [ByteArray.size_append, ByteArray.size_extract]
  omega

/-- Bytes copied over zeros have what is left of them on both sides. -/
lemma overwrite_zeros (h : offset + value.size ≤ len) :
    (zeros len).overwrite offset value =
      zeros offset ++ (value ++ zeros (len - offset - value.size)) := by
  have hfits : offset + value.size ≤ (zeros len).size := by
    rw [size_zeros]
    exact h
  refine ext_byteAt ?_ fun i _ => ?_
  · rw [size_overwrite hfits]
    simp only [ByteArray.size_append, size_zeros]
    omega
  · rw [byteAt_overwrite hfits, byteAt_append, byteAt_append, byteAt_zeros, byteAt_zeros,
      byteAt_zeros, size_zeros]
    by_cases hbefore : i < offset
    · rw [if_neg (by omega), if_pos hbefore]
    · rw [if_neg hbefore]
      split
      · rw [if_pos (by omega)]
      · rw [if_neg (by omega)]

/-- What is read is what is there, with zeros behind it. -/
lemma slice_eq_append (b : Bytes) (offset len : ℕ) :
    b.slice offset len = b.extract offset (min (offset + len) b.size) ++
      zeros (len - (b.extract offset (min (offset + len) b.size)).size) := by
  have hsize : (b.extract offset (min (offset + len) b.size)).size =
      min (offset + len) b.size - offset := by
    rw [ByteArray.size_extract]
    omega
  rw [slice]
  split
  · rw [hsize]
  · have hnone : min (offset + len) b.size - offset = 0 := by omega
    rw [hsize, hnone, ByteArray.size_eq_zero_iff.mp (hsize.trans hnone), ByteArray.empty_append,
      Nat.sub_zero]

/-- **Reading past the end** takes no region that is not there. -/
@[simp] lemma checkedPadded_eq (b : Bytes) (offset len : ℕ) :
    b.checkedPadded offset len = .ok (b.slice offset len) := by
  simp only [checkedPadded]
  split
  · rename_i hoffset
    have hstop : offset ≤ min (offset + len) b.size := by omega
    have hpresent : (b.extract offset (min (offset + len) b.size)).size =
        min (offset + len) b.size - offset := by
      rw [ByteArray.size_extract]
      omega
    rw [checkedSlice_of_le hstop (min_le_right _ _), ok_bind, subIndex_of_le hstop, ok_bind,
      checkedCopy_of_le (by omega) (by rw [size_zeros]; omega), overwrite_zeros (by omega),
      slice_eq_append]
    exact congrArg Except.ok ByteArray.empty_append
  · rename_i hoffset
    rw [slice, if_neg hoffset]
    rfl

/-- What is written and then filled up with zeros has been written padded with zeros. -/
lemma overwrite_fill (h : offset + len ≤ b.size) (hshort : value.size < len) :
    (b.overwrite offset value).overwrite (offset + value.size) (zeros (len - value.size)) =
      b.overwrite offset (value.slice 0 len) := by
  have hfirst : offset + value.size ≤ b.size := by omega
  have hrest : offset + value.size + (zeros (len - value.size)).size ≤
      (b.overwrite offset value).size := by
    rw [size_overwrite hfirst, size_zeros]
    omega
  have hpadded : offset + (value.slice 0 len).size ≤ b.size := by
    rw [size_slice]
    exact h
  refine ext_byteAt ?_ fun i _ => ?_
  · rw [size_overwrite hrest, size_overwrite hfirst, size_overwrite hpadded]
  · rw [byteAt_overwrite hrest, byteAt_overwrite hfirst, byteAt_overwrite hpadded, byteAt_zeros,
      size_zeros, size_slice]
    by_cases hinside : offset ≤ i ∧ i < offset + len
    · rw [if_pos hinside, byteAt_slice (by omega), Nat.zero_add]
      split
      · rw [byteAt_of_size_le (by omega)]
      · rw [if_pos (by omega)]
    · rw [if_neg hinside, if_neg (by omega), if_neg (by omega)]

lemma extract_eq_slice (h : len ≤ value.size) : value.extract 0 len = value.slice 0 len := by
  have hsize : (value.extract 0 len).size = len := by
    rw [ByteArray.size_extract]
    omega
  refine ext_byteAt (by rw [hsize, size_slice]) fun i hi => ?_
  rw [hsize] at hi
  rw [byteAt_extract, byteAt_slice hi, if_pos (by omega)]

/-! ### In numbers -/

/-- Digits in front of others count for more. -/
lemma foldl_digits (digits : List UInt8) (acc : ℕ) :
    digits.foldl (fun acc x => acc * 256 + x.toNat) acc =
      acc * 256 ^ digits.length + digits.foldl (fun acc x => acc * 256 + x.toNat) 0 := by
  induction digits generalizing acc with
  | nil => simp
  | cons x digits ih =>
      rw [List.foldl_cons, List.foldl_cons, ih, ih (0 * 256 + x.toNat), List.length_cons]
      ring

lemma toNat_eq (b : Bytes) :
    b.toNat = b.data.toList.foldl (fun acc x => acc * 256 + x.toNat) 0 := by
  rw [toNat, Array.foldl_toList]

lemma toNat_append (a b : Bytes) : (a ++ b).toNat = a.toNat * 256 ^ b.size + b.toNat := by
  rw [toNat_eq, toNat_eq, toNat_eq, ByteArray.data_append, Array.toList_append, List.foldl_append,
    foldl_digits]
  rfl

lemma toNat_zeros (n : ℕ) : (zeros n).toNat = 0 := by
  rw [toNat_eq, zeros, Array.toList_replicate]
  induction n with
  | zero => rfl
  | succ n ih => exact ih

lemma toNat_lt (b : Bytes) : b.toNat < 256 ^ b.size := by
  have hdigits (digits : List UInt8) :
      digits.foldl (fun acc x => acc * 256 + x.toNat) 0 < 256 ^ digits.length := by
    induction digits with
    | nil => simp
    | cons x digits ih =>
        rw [List.foldl_cons, foldl_digits, List.length_cons, pow_succ, Nat.zero_mul, Nat.zero_add]
        have hx : x.toNat + 1 ≤ 256 := x.toNat_lt
        have hscaled := Nat.mul_le_mul_right (256 ^ digits.length) hx
        rw [Nat.add_mul, Nat.one_mul, Nat.mul_comm 256] at hscaled
        omega
  rw [toNat_eq]
  exact hdigits _

/-- **A number read past the end** is that of the bytes that are there, shifted. -/
lemma toNat_slice (b : Bytes) (offset len : ℕ) :
    (b.slice offset len).toNat =
      if offset < b.size then
        toNat (b.extract offset (min (offset + len) b.size)) <<<
          (8 * (len - (min (offset + len) b.size - offset)))
      else 0 := by
  simp only [slice]
  split
  · rw [toNat_append, toNat_zeros, size_zeros, Nat.add_zero, Nat.shiftLeft_eq, Nat.pow_mul]
  · exact toNat_zeros len

end Bytes

lemma Word.toNat_ofBytes {b : Bytes} (h : b.size ≤ 32) : (ofBytes b).toNat = b.toNat := by
  have hlt : b.toNat < 256 ^ 32 := b.toNat_lt.trans_le (Nat.pow_le_pow_right (by decide) h)
  rw [ofBytes, BitVec.toNat_ofNat]
  exact Nat.mod_eq_of_lt (by omega)

/-- The word with the given big-endian bytes, which must be at most 32. -/
def Word.checkedOfBytes (b : Bytes) : Except Panic Word :=
  if b.size ≤ 32 then .ok (ofBytes b) else .error .outOfRange

lemma Word.checkedOfBytes_of_le {b : Bytes} (h : b.size ≤ 32) :
    checkedOfBytes b = .ok (ofBytes b) := if_pos h

/-! ## Memory -/

namespace Memory

/-- The next multiple of 32, if it is a word. -/
def checkedRoundUp (stop : ℕ) : Except Panic (Option ℕ) := do
  if stop % 32 = 0 then return some stop
  let rounded := stop + (← subIndex 32 (stop % 32))
  return if rounded ≤ maxWord then some rounded else none

def checkedResizeEnd (m : Memory) (stop : ℕ) : Except Panic (Except ExitError Memory) := do
  if m.effective < stop then
    match ← checkedRoundUp stop with
    | some rounded => return .ok { m with effective := rounded }
    | none => return .error .invalidRange
  else return .ok m

def checkedResizeOffset (m : Memory) (offset len : Word) :
    Except Panic (Except ExitError Memory) :=
  if len = 0 then .ok (.ok m)
  else if offset.toNat + len.toNat > maxWord then .ok (.error .invalidRange)
  else m.checkedResizeEnd (offset.toNat + len.toNat)

def checkedGet (m : Memory) (offset len : ℕ) : Except Panic Bytes :=
  m.data.checkedPadded offset len

def checkedSet (m : Memory) (offset : ℕ) (value : Bytes) (len : ℕ) :
    Except Panic (Except ExitFatal Memory) := do
  if len = 0 then return .ok m
  if m.admits offset len then
    let stop ← addIndex offset len
    let data := m.data.growTo stop
    if value.size < len then
      let middle ← addIndex offset value.size
      let data ← data.checkedCopy offset middle value
      return .ok { m with data := ← data.checkedFill middle stop }
    else return .ok { m with data := ← data.checkedCopy offset stop (← value.checkedSlice 0 len) }
  else return .error .notSupported

/-- The part of `source` to copy: nothing, if it starts past the end or at no index. -/
def checkedSource (source : Bytes) (offset : Word) (len : ℕ) : Except Panic Bytes := do
  if offset.isIndex then
    let offset ← asIndex offset.toNat
    if offset > source.size then return ByteArray.empty
    source.checkedSlice offset (min (offset + len) source.size)
  else return ByteArray.empty

def checkedCopyLarge (m : Memory) (offset sourceOffset len : Word) (source : Bytes) :
    Except Panic (Except ExitFatal Memory) := do
  if len = 0 then return .ok m
  if offset.isIndex && len.isIndex then
    let offset ← asIndex offset.toNat
    let len ← asIndex len.toNat
    m.checkedSet offset (← checkedSource source sourceOffset len) len
  else return .error .notSupported

def checkedRead (m : Memory) (offset len : Word) : Except Panic Bytes := do
  if len ≠ 0 ∧ offset.isIndex ∧ len.isIndex then
    m.checkedGet (← asIndex offset.toNat) (← asIndex len.toNat)
  else return ByteArray.empty

variable (m : Memory)

/-- **Rounding up** takes from 32 no more than a remainder modulo 32. -/
lemma checkedRoundUp_eq {stop : ℕ} (h : stop ≤ maxWord) :
    checkedRoundUp stop = .ok (if roundUp stop ≤ maxWord then some (roundUp stop) else none) := by
  simp only [checkedRoundUp]
  split
  · rename_i haligned
    have hround : roundUp stop = stop := by
      simp only [roundUp]
      omega
    rw [hround, if_pos h]
    rfl
  · rename_i hrest
    have hround : stop + (32 - stop % 32) = roundUp stop := by
      simp only [roundUp]
      omega
    rw [subIndex_of_le (Nat.mod_lt _ (by decide)).le, ok_bind, hround]
    rfl

lemma checkedResizeEnd_eq {stop : ℕ} (h : stop ≤ maxWord) :
    m.checkedResizeEnd stop = .ok (m.resizeEnd stop) := by
  simp only [checkedResizeEnd, resizeEnd, checkedRoundUp_eq h, ok_bind]
  split
  · split <;> rename_i hrounded
    · split at hrounded <;> cases hrounded
      rw [if_neg (by omega)]
      rfl
    · split at hrounded <;> cases hrounded
      rw [if_pos (by omega)]
      rfl
  · rfl

@[simp] lemma checkedResizeOffset_eq (offset len : Word) :
    m.checkedResizeOffset offset len = .ok (m.resizeOffset offset len) := by
  simp only [checkedResizeOffset, resizeOffset]
  split
  · rfl
  · split
    · rfl
    · exact checkedResizeEnd_eq m (by omega)

@[simp] lemma checkedGet_eq (offset len : ℕ) :
    m.checkedGet offset len = .ok (m.get offset len) :=
  Bytes.checkedPadded_eq _ _ _

/-- **Writing** grows memory before it takes the region. -/
@[simp] lemma checkedSet_eq (offset : ℕ) (value : Bytes) (len : ℕ) :
    m.checkedSet offset value len = .ok (m.set offset value len) := by
  simp only [checkedSet, set]
  split
  · rfl
  · split
    · rename_i hadmits
      have hindex : offset + len ≤ maxIndex := by
        simp only [admits, decide_eq_true_eq] at hadmits
        exact hadmits.2
      have hgrown : offset + len ≤ (m.data.growTo (offset + len)).size := Bytes.le_size_growTo _ _
      rw [addIndex_of_le hindex, ok_bind]
      simp only [write, Bytes.size_slice]
      split
      · rename_i hshort
        have hfilled : offset + value.size ≤ (m.data.growTo (offset + len)).size := by omega
        rw [addIndex_of_le (by omega), ok_bind, Bytes.checkedCopy_of_le rfl (by omega), ok_bind,
          Bytes.checkedFill, if_pos ⟨by omega, by rw [Bytes.size_overwrite hfilled]; exact hgrown⟩,
          ok_bind, Nat.add_sub_add_left, Bytes.overwrite_fill hgrown hshort]
        rfl
      · rename_i hlong
        have hsize : (value.extract 0 len).size = len := by
          rw [ByteArray.size_extract]
          omega
        rw [Bytes.checkedSlice_of_le (Nat.zero_le _) (by omega), ok_bind,
          Bytes.checkedCopy_of_le (by rw [hsize]) hgrown, ok_bind,
          Bytes.extract_eq_slice (by omega)]
        rfl
    · rfl

lemma slice_empty (len : ℕ) : Bytes.slice ByteArray.empty 0 len = Bytes.zeros len :=
  if_neg (Nat.not_lt_zero 0)

/-- What is found of a source reads, padded with zeros, as the source does. -/
lemma checkedSource_eq (source : Bytes) (offset : Word) (len : ℕ) :
    ∃ part, checkedSource source offset len = .ok part ∧
      part.slice 0 len = sourceRegion source offset len := by
  simp only [checkedSource, sourceRegion]
  split
  · rename_i hindex
    rw [asIndex_of_isIndex hindex, ok_bind]
    split
    · rename_i hpast
      refine ⟨ByteArray.empty, rfl, ?_⟩
      rw [slice_empty, Bytes.slice, if_neg (by omega)]
    · refine ⟨_, Bytes.checkedSlice_of_le (by omega) (min_le_right _ _),
        Bytes.ext_byteAt (by simp only [Bytes.size_slice]) fun i hi => ?_⟩
      rw [Bytes.size_slice] at hi
      rw [Bytes.byteAt_slice hi, Bytes.byteAt_slice hi, Bytes.byteAt_extract, Nat.zero_add]
      split
      · rfl
      · rw [Bytes.byteAt_of_size_le (by omega)]
  · exact ⟨ByteArray.empty, rfl, slice_empty len⟩

/-- **Copying** takes of the source what is there. -/
@[simp] lemma checkedCopyLarge_eq (offset sourceOffset len : Word) (source : Bytes) :
    m.checkedCopyLarge offset sourceOffset len source =
      .ok (m.copyLarge offset sourceOffset len source) := by
  simp only [checkedCopyLarge, copyLarge]
  split
  · rfl
  · rename_i hlen
    by_cases hindex : (offset.isIndex && len.isIndex) = true
    · obtain ⟨part, hpart, hslice⟩ := checkedSource_eq source sourceOffset len.toNat
      obtain ⟨hoffset, hlength⟩ := Bool.and_eq_true_iff.mp hindex
      have hne : len.toNat ≠ 0 := Word.toNat_ne_zero hlen
      rw [if_pos hindex, asIndex_of_isIndex hoffset, ok_bind, asIndex_of_isIndex hlength, ok_bind,
        hpart, ok_bind, checkedSet_eq, set, if_neg hne, hslice, hindex, Bool.true_and]
    · rw [if_neg hindex, Bool.eq_false_of_not_eq_true hindex, Bool.false_and]
      rfl

@[simp] lemma checkedRead_eq (offset len : Word) :
    m.checkedRead offset len = .ok (m.read offset len) := by
  simp only [checkedRead, read]
  split
  · rename_i hregion
    rw [asIndex_of_isIndex hregion.2.1, ok_bind, asIndex_of_isIndex hregion.2.2, ok_bind,
      checkedGet_eq]
  · rfl

end Memory

/-! ## The stack -/

namespace OperandStack

/-- The position in the list, its bottom first, of the item that has `i` items above it. -/
def checkedPosition (s : OperandStack) (i : ℕ) : Except Panic ℕ := do
  subIndex (← subIndex s.size i) 1

def checkedPeek (s : OperandStack) (i : ℕ) : Except Panic (Except ExitError Word) := do
  if i < s.size then
    match s.toList[← s.checkedPosition i]? with
    | some w => return .ok w
    | none => .error .outOfRange
  else return .error .stackUnderflow

def checkedSet (s : OperandStack) (i : ℕ) (w : Word) :
    Except Panic (Except ExitError OperandStack) := do
  if i < s.size then
    let position ← s.checkedPosition i
    if position < s.toList.length then
      return .ok { s with items := (s.toList.set position w).reverse }
    else .error .outOfRange
  else return .error .stackUnderflow

def checkedCheck (s : OperandStack) (taken given : ℕ) : Except Panic (Except ExitError Unit) := do
  if s.size < taken then return .error .stackUnderflow
  let left ← subIndex s.size taken
  return if left + given > s.limit then .error .stackOverflow else .ok ()

variable (s : OperandStack)

lemma checkedPosition_of_lt {i : ℕ} (h : i < s.size) :
    s.checkedPosition i = .ok (s.size - 1 - i) := by
  rw [checkedPosition, subIndex_of_le h.le, ok_bind, subIndex_of_le (by omega), Nat.sub_right_comm]

lemma length_toList : s.toList.length = s.size := List.length_reverse

@[simp] lemma checkedPeek_eq (i : ℕ) : s.checkedPeek i = .ok (s.peek i) := by
  simp only [checkedPeek, peek]
  split
  · rename_i h
    have hitem : s.toList[s.size - 1 - i]? = s.items[i]? := by
      rw [toList, List.getElem?_reverse (by simp only [size] at h ⊢; omega)]
      congr 1
      simp only [size] at h ⊢
      omega
    rw [checkedPosition_of_lt s h, ok_bind, hitem, List.getElem?_eq_getElem h]
    rfl
  · rename_i h
    rw [List.getElem?_eq_none (Nat.le_of_not_lt h)]
    rfl

@[simp] lemma checkedSet_eq (i : ℕ) (w : Word) : s.checkedSet i w = .ok (s.set i w) := by
  simp only [checkedSet, set]
  split
  · rename_i h
    rw [checkedPosition_of_lt s h, ok_bind, if_pos (by rw [length_toList]; omega)]
    have hitems : (s.toList.set (s.size - 1 - i) w).reverse = s.items.set i w := by
      simp only [size] at h
      refine List.ext_getElem (by simp [toList]) fun j hj hj' => ?_
      rw [List.length_set] at hj'
      simp only [toList, size, List.getElem_reverse, List.getElem_set, List.length_set,
        List.length_reverse]
      split
      · rw [if_pos (by omega)]
      · rw [if_neg (by omega)]
        congr 1
        omega
    rw [hitems]
    rfl
  · rfl

@[simp] lemma checkedCheck_eq (taken given : ℕ) :
    s.checkedCheck taken given = .ok (s.check taken given) := by
  simp only [checkedCheck, check]
  split
  · rfl
  · rw [subIndex_of_le (by omega)]
    rfl

end OperandStack

/-! ## Jump destinations -/

/-- An instruction takes up 33 bytes at most. -/
lemma Opcode.width_le (op : Opcode) : op.width ≤ 33 := by
  simp only [width, pushSize?]
  split
  · rename_i h
    have hbyte : op.byte.toNat ≤ 0x7f := h.2
    simp only [Option.getD_some]
    omega
  · decide

namespace JumpTable

/-- The sweep, which reads a byte of code and sets a mark at each position. -/
def checkedSweep (code : Bytes) (i : ℕ) (marks : Array Bool) : Except Panic (Array Bool) :=
  if h : i < code.size then
    let op : Opcode := ⟨code[i]⟩
    if op = Opcode.jumpDest then
      if i < marks.size then checkedSweep code (i + 1) (marks.setIfInBounds i true)
      else .error .outOfRange
    else
      match hnext : addNear code.size i op.width with
      | .ok next => checkedSweep code next marks
      | .error panic => .error panic
  else .ok marks
termination_by code.size - i
decreasing_by
  · omega
  · have hwidth := op.width_pos
    simp only [addNear] at hnext
    split at hnext <;> cases hnext
    omega

def checkedOfCode (code : Bytes) : Except Panic JumpTable := do
  return ⟨← checkedSweep code 0 (Array.replicate code.size false)⟩

def checkedIsValid (table : JumpTable) (position : ℕ) : Except Panic Bool :=
  if position ≥ table.size then .ok false
  else
    match table.marks[position]? with
    | some mark => .ok mark
    | none => .error .outOfRange

/-- There is a mark for every byte of code. -/
lemma checkedSweep_eq (code : Bytes) (i : ℕ) (marks : Array Bool) (h : marks.size = code.size) :
    checkedSweep code i marks = .ok (sweep code i marks) := by
  fun_induction sweep code i marks with
  | case1 i marks hi op ih =>
      rw [checkedSweep, dif_pos hi]
      dsimp only
      split <;> rename_i hop
      · have hwidth : op.width = 1 := by
          rw [show op = Opcode.jumpDest from hop]
          rfl
        rw [hwidth, dif_pos hop] at ih
        rw [if_pos (h ▸ hi)]
        rw [hwidth]
        exact ih (by rw [Array.size_setIfInBounds, h])
      · rw [dif_neg hop] at ih
        have hnext : addNear code.size i op.width = .ok (i + op.width) := by
          refine addNear_of_le ?_
          have := op.width_le
          omega
        split <;> rename_i hsum <;> cases hnext.symm.trans hsum
        exact ih h
  | case2 i marks hi => rw [checkedSweep, dif_neg hi]

@[simp] lemma checkedOfCode_eq (code : Bytes) : checkedOfCode code = .ok (ofCode code) := by
  rw [checkedOfCode, checkedSweep_eq _ _ _ (Array.size_replicate ..)]
  rfl

@[simp] lemma checkedIsValid_eq (table : JumpTable) (position : ℕ) :
    table.checkedIsValid position = .ok (table.isValid position) := by
  simp only [checkedIsValid, isValid]
  split <;> rename_i h
  · rw [Array.getElem?_eq_none h]
    rfl
  · rw [Array.getElem?_eq_getElem (Nat.lt_of_not_le h)]
    rfl

end JumpTable

end ResumableEvm
