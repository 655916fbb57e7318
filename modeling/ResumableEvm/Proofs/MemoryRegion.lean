import Mathlib.Tactic
import ResumableEvm.Memory

/-!
# Regions of memory

Memory as its bytes, zero past the written part.  A copy changes the bytes of one region and no
others, whatever had to grow for it.

* `Bytes.byteAt_overwrite`, `Bytes.byteAt_slice` — byte strings, byte by byte.
* `Memory.byteAt_write` — a write, byte by byte.
* `Memory.Patched` — memory that differs in one region alone.
* `Memory.copyLarge_patched` — copying to a region.
-/

namespace ResumableEvm

namespace Bytes

lemma byteAt_eq (b : Bytes) (i : ℕ) : b.byteAt i = b.data[i]?.getD 0 := by
  simp only [byteAt]
  split <;> rename_i h
  · rw [Array.getElem?_eq_getElem h]
    rfl
  · rw [Array.getElem?_eq_none (Nat.le_of_not_lt h)]
    rfl

lemma byteAt_of_size_le {b : Bytes} {i : ℕ} (h : b.size ≤ i) : b.byteAt i = 0 :=
  dif_neg (Nat.not_lt_of_le h)

lemma byteAt_append (a b : Bytes) (i : ℕ) :
    (a ++ b).byteAt i = if i < a.size then a.byteAt i else b.byteAt (i - a.size) := by
  have hsize : a.data.size = a.size := rfl
  rw [byteAt_eq, ByteArray.data_append, Array.getElem?_append, hsize]
  split <;> rw [byteAt_eq]

lemma byteAt_extract (b : Bytes) (start stop i : ℕ) :
    byteAt (b.extract start stop) i = if start + i < stop then b.byteAt (start + i) else 0 := by
  rw [byteAt_eq, ByteArray.data_extract, Array.getElem?_extract]
  split <;> rename_i h
  · rw [if_pos (by omega), byteAt_eq]
  · split
    · rw [byteAt_of_size_le]
      · rfl
      · show b.data.size ≤ start + i
        omega
    · rfl

lemma byteAt_zeros (n i : ℕ) : (zeros n).byteAt i = 0 := by
  rw [byteAt_eq, zeros, Array.getElem?_replicate]
  split <;> rfl

lemma byteAt_growTo (b : Bytes) (size i : ℕ) : (b.growTo size).byteAt i = b.byteAt i := by
  simp only [growTo]
  split
  · rw [byteAt_append, byteAt_zeros]
    split <;> rename_i h
    · rfl
    · rw [byteAt_of_size_le (Nat.le_of_not_lt h)]
  · rfl

lemma le_size_growTo (b : Bytes) (size : ℕ) : size ≤ (b.growTo size).size := by
  simp only [growTo]
  split
  · rw [ByteArray.size_append, size_zeros]
    omega
  · omega

/-- What is written stands between what was before the region and what was after it. -/
lemma byteAt_overwrite {b value : Bytes} {offset : ℕ} (h : offset + value.size ≤ b.size) (i : ℕ) :
    (b.overwrite offset value).byteAt i =
      if offset ≤ i ∧ i < offset + value.size then value.byteAt (i - offset) else b.byteAt i := by
  have hvalue : min value.size (value.data.size - 0) = value.size := by
    show min value.size (value.size - 0) = value.size
    omega
  have hb : b.data.size = b.size := rfl
  rw [overwrite, ByteArray.copySlice_eq_append, hvalue, hb]
  simp only [byteAt_append, byteAt_extract, ByteArray.size_append, ByteArray.size_extract]
  by_cases hbefore : i < offset
  · rw [if_pos (by omega), if_pos (by omega), if_pos (by omega), if_neg (by omega)]
    rw [Nat.zero_add]
  · by_cases hafter : i < offset + value.size
    · rw [if_pos (by omega), if_neg (by omega), if_pos (by omega), if_pos (by omega)]
      congr 1
      omega
    · have hpast : ¬ (offset ≤ i ∧ i < offset + value.size) := by omega
      rw [if_neg hpast, if_neg (by omega)]
      split
      · congr 1
        omega
      · rw [byteAt_of_size_le (by omega)]

lemma byteAt_slice {b : Bytes} {offset len i : ℕ} (hi : i < len) :
    (b.slice offset len).byteAt i = b.byteAt (offset + i) := by
  simp only [slice]
  split <;> rename_i hoffset
  · simp only [byteAt_append, byteAt_extract, byteAt_zeros, ByteArray.size_extract]
    split
    · rw [if_pos (by omega)]
    · rw [byteAt_of_size_le (by omega)]
  · rw [byteAt_zeros, byteAt_of_size_le (by omega)]

/-- Byte strings are equal that have the same size and the same bytes. -/
lemma ext_byteAt {a b : Bytes} (hsize : a.size = b.size)
    (h : ∀ i < a.size, a.byteAt i = b.byteAt i) : a = b := by
  refine ByteArray.ext (Array.ext hsize fun i hi hi' => ?_)
  have hbyte := h i hi
  rw [byteAt_eq, byteAt_eq, Array.getElem?_eq_getElem hi, Array.getElem?_eq_getElem hi'] at hbyte
  exact hbyte

lemma slice_size (b : Bytes) : b.slice 0 b.size = b :=
  ext_byteAt (size_slice _ _ _) fun i hi => by
    rw [size_slice] at hi
    rw [byteAt_slice hi, Nat.zero_add]

end Bytes

namespace Memory

variable {m m' : Memory} {offset sourceOffset len : Word} {source : Bytes}

/-- **Memory that differs in one region alone,** which holds the first bytes of a source. -/
structure Patched (m m' : Memory) (offset len : ℕ) (source : Bytes) : Prop where
  effective : m'.effective = m.effective
  limit : m'.limit = m.limit
  inside : ∀ i < len, m'.data.byteAt (offset + i) = source.byteAt i
  outside : ∀ i, i < offset ∨ offset + len ≤ i → m'.data.byteAt i = m.data.byteAt i

/-- **A write changes the bytes of its region,** whatever had to grow for it. -/
lemma byteAt_write (m : Memory) (offset : ℕ) (value : Bytes) (i : ℕ) :
    (m.write offset value).data.byteAt i =
      if offset ≤ i ∧ i < offset + value.size then value.byteAt (i - offset)
      else m.data.byteAt i := by
  rw [write, Bytes.byteAt_overwrite (Bytes.le_size_growTo _ _), Bytes.byteAt_growTo]

lemma slice_sourceRegion (source : Bytes) (sourceOffset : Word) (len : ℕ) :
    (sourceRegion source sourceOffset len).slice 0 len = sourceRegion source sourceOffset len := by
  have hall := Bytes.slice_size (sourceRegion source sourceOffset len)
  rwa [size_sourceRegion] at hall

lemma byteAt_sourceRegion {len i : ℕ} (hi : i < len) :
    (sourceRegion source sourceOffset len).byteAt i =
      if sourceOffset.isIndex then source.byteAt (sourceOffset.toNat + i) else 0 := by
  simp only [sourceRegion]
  split
  · exact Bytes.byteAt_slice hi
  · exact Bytes.byteAt_zeros len i

/-- **A copy changes the bytes of its region.** -/
lemma copyLarge_patched (h : m.copyLarge offset sourceOffset len source = .ok m') :
    m.Patched m' offset.toNat len.toNat (sourceRegion source sourceOffset len.toNat) := by
  simp only [copyLarge] at h
  split at h
  · rename_i hzero
    cases h
    subst hzero
    exact ⟨rfl, rfl, nofun, fun _ _ => rfl⟩
  · split at h <;> cases h
    refine ⟨rfl, rfl, fun i hi => ?_, fun i hi => ?_⟩
    · rw [byteAt_write, size_sourceRegion, if_pos (by omega), Nat.add_sub_cancel_left]
    · rw [byteAt_write, size_sourceRegion, if_neg (by omega)]

/-- From the start of a source, it takes the first bytes of it. -/
lemma copyLarge_patched_start (h : m.copyLarge offset 0 len source = .ok m') :
    m.Patched m' offset.toNat len.toNat source :=
  { copyLarge_patched h with
    inside := fun i hi => by
      rw [(copyLarge_patched h).inside i hi, byteAt_sourceRegion hi]
      show source.byteAt (0 + i) = _
      rw [Nat.zero_add] }

lemma copyLarge_ok (hfits : len = 0 ∨ offset.toNat + len.toNat ≤ min m.limit maxIndex) :
    ∃ m', m.copyLarge offset sourceOffset len source = .ok m' := by
  simp only [copyLarge]
  split
  · exact ⟨m, rfl⟩
  · rename_i hlen
    have hend := hfits.resolve_left hlen
    have hindex : (offset.isIndex && len.isIndex && m.admits offset.toNat len.toNat) = true := by
      simp only [Word.isIndex, admits, Bool.and_eq_true, decide_eq_true_eq]
      omega
    rw [if_pos hindex]
    exact ⟨_, rfl⟩

end Memory

end ResumableEvm
