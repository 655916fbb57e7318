import ResumableEvm.Rlp
import ResumableEvm.Proofs.PaddedPower

/-!
# Length prefixes

A byte string that is led by its length can be told from whatever stands behind it.  So byte strings
that are encoded one behind the other split in one way only, and the encoding of their list
determines them.  That holds as long as the lengths themselves have room in eight bytes.

* `Bytes.append_inj` — concatenations split alike where their heads have one size.
* `Bytes.ofNat_inj`, `Bytes.minimal_injective` — numbers are written in one way.
* `Rlp.lead_append_inj`, `Rlp.string_append_inj` — a length, and a byte string, in front of others.
* `Rlp.list_injective` — an encoded list determines its byte strings.
* `Rlp.byteAt_list_lt` — which bytes such a list can begin with.
-/

namespace ResumableEvm

/-! ## Byte strings and their numbers -/

namespace Bytes

variable {a b c d : Bytes} {len m n k : ℕ}

/-- Concatenations split alike where their heads have one size. -/
lemma append_inj (h : a ++ b = c ++ d) (hsize : a.size = c.size) : a = c ∧ b = d := by
  obtain rfl : a = c := ByteArray.append_inj_left h hsize
  exact ⟨rfl, (ByteArray.append_right_inj a).mp h⟩

lemma append_inj_iff (hsize : a.size = c.size) : a ++ b = c ++ d ↔ a = c ∧ b = d :=
  ⟨fun h => append_inj h hsize, fun ⟨hhead, htail⟩ => by rw [hhead, htail]⟩

/-- The last bytes of a string write the lowest digits of its number. -/
lemma toNat_mod (h : b.size = n + k) : b.toNat % 256 ^ k = (b.slice n k).toNat := by
  have hsplit : b = b.slice 0 n ++ b.slice n k := by
    refine ext_byteAt (by rw [ByteArray.size_append, size_slice, size_slice, h]) fun i hi => ?_
    rw [byteAt_append, size_slice]
    split <;> rename_i hlow
    · rw [byteAt_slice hlow, Nat.zero_add]
    · rw [byteAt_slice (by omega), Nat.add_sub_cancel' (by omega)]
  have hlt := (b.slice n k).toNat_lt
  rw [size_slice] at hlt
  have hnumber := toNat_append (b.slice 0 n) (b.slice n k)
  rw [← hsplit, size_slice] at hnumber
  rw [hnumber, Nat.mul_comm, Nat.mul_add_mod, Nat.mod_eq_of_lt hlt]

/-- A number that has room is written in one way. -/
lemma ofNat_inj (hm : m < 256 ^ len) (hn : n < 256 ^ len) : ofNat len m = ofNat len n ↔ m = n := by
  refine ⟨fun h => ?_, fun h => by rw [h]⟩
  have hnumber := congrArg toNat h
  rwa [toNat_ofNat, toNat_ofNat, Nat.mod_eq_of_lt hm, Nat.mod_eq_of_lt hn] at hnumber

lemma lengthOf_pos (h : n ≠ 0) : 0 < lengthOf n := by
  rw [lengthOf, if_neg h]
  exact Nat.succ_pos _

/-- **A number in as few bytes as it needs** is written in its own way. -/
lemma minimal_injective : Function.Injective minimal :=
  Function.LeftInverse.injective toNat_minimal

end Bytes

/-! ## Lengths in front -/

namespace Rlp

open Bytes

variable {marker len len' : ℕ} {a b x y : Bytes}

/-- What the first byte of a lead-in adds to its marker: the length, or the length of the length. -/
def tag (len : ℕ) : ℕ := if len < 56 then len else 55 + lengthOf len

/-- What follows the first byte of a lead-in. -/
def longLength (len : ℕ) : Bytes := if len < 56 then ByteArray.empty else minimal len

lemma lead_eq (marker len : ℕ) :
    lead marker len = Bytes.ofNat 1 (marker + tag len) ++ longLength len := by
  simp only [lead, tag, longLength]
  split
  · exact ByteArray.append_empty.symm
  · rw [size_minimal, Nat.add_assoc]

lemma tag_le {k : ℕ} (h : len < 256 ^ k) : tag len ≤ 55 + k := by
  rw [tag]
  split
  · omega
  · exact Nat.add_le_add_left (lengthOf_le h) 55

/-- **A length that leads splits off in one way:** it can be told from what follows. -/
lemma lead_append_inj (hmarker : marker < 193) (hlen : len < 256 ^ 8) (hlen' : len' < 256 ^ 8)
    (h : lead marker len ++ x = lead marker len' ++ y) : len = len' ∧ x = y := by
  have htag := tag_le hlen
  have htag' := tag_le hlen'
  rw [lead_eq, lead_eq, ByteArray.append_assoc, ByteArray.append_assoc] at h
  obtain ⟨hfirst, hrest⟩ := append_inj h (by rw [size_ofNat, size_ofNat])
  have htags : tag len = tag len' := by
    have hsum := (ofNat_inj (by omega) (by omega)).mp hfirst
    omega
  have hpos {n : ℕ} (hn : ¬ n < 56) : 0 < lengthOf n := lengthOf_pos (by omega)
  -- a first byte tells a short length from a long one, and says how long a long one is
  simp only [tag, longLength] at htags hrest
  split at htags <;> split at htags <;> rename_i hl hl'
  · rw [if_pos hl, if_pos hl', ByteArray.empty_append, ByteArray.empty_append] at hrest
    exact ⟨htags, hrest⟩
  · have := hpos hl'
    omega
  · have := hpos hl
    omega
  · rw [if_neg hl, if_neg hl'] at hrest
    obtain ⟨hlong, hrest⟩ := append_inj hrest (by rw [size_minimal, size_minimal]; omega)
    exact ⟨minimal_injective hlong, hrest⟩

/-- The first byte of a lead-in. -/
lemma byteAt_lead (h : marker + tag len < 256) (x : Bytes) :
    ((lead marker len ++ x).byteAt 0).toNat = marker + tag len := by
  rw [lead_eq, ByteArray.append_assoc, byteAt_append, size_ofNat, if_pos one_pos]
  have hbyte : (Bytes.ofNat 1 (marker + tag len)).byteAt 0 = UInt8.ofNat (marker + tag len) := rfl
  rw [hbyte, UInt8.toNat_ofNat']
  exact Nat.mod_eq_of_lt h

/-- A byte that stands for itself. -/
def Plain (b : Bytes) : Prop := b.size = 1 ∧ b.byteAt 0 < 0x80

lemma string_of_plain (h : Plain b) : string b = b := if_pos h

lemma string_of_not_plain (h : ¬ Plain b) : string b = lead 0x80 b.size ++ b := if_neg h

/-- A byte that stands for itself is below every lead-in. -/
lemma byteAt_plain (h : Plain a) (x : Bytes) : ((string a ++ x).byteAt 0).toNat < 0x80 := by
  rw [string_of_plain h, byteAt_append, if_pos (h.1 ▸ one_pos)]
  exact h.2

lemma le_byteAt_string (h : ¬ Plain a) (ha : a.size < 256 ^ 8) (x : Bytes) :
    0x80 ≤ ((string a ++ x).byteAt 0).toNat := by
  have htag := tag_le ha
  rw [string_of_not_plain h, ByteArray.append_assoc, byteAt_lead (by omega)]
  exact Nat.le_add_right _ _

/-- **A byte string that is encoded splits off in one way.** -/
theorem string_append_inj (ha : a.size < 256 ^ 8) (hb : b.size < 256 ^ 8)
    (h : string a ++ x = string b ++ y) : a = b ∧ x = y := by
  by_cases hplain : Plain a <;> by_cases hplain' : Plain b
  · rw [string_of_plain hplain, string_of_plain hplain'] at h
    exact append_inj h (hplain.1.trans hplain'.1.symm)
  · have hlow := byteAt_plain hplain x
    have hhigh := le_byteAt_string hplain' hb y
    rw [h] at hlow
    omega
  · have hhigh := le_byteAt_string hplain ha x
    have hlow := byteAt_plain hplain' y
    rw [h] at hhigh
    omega
  · rw [string_of_not_plain hplain, string_of_not_plain hplain', ByteArray.append_assoc,
      ByteArray.append_assoc] at h
    obtain ⟨hsize, hrest⟩ := lead_append_inj (by decide) ha hb h
    exact append_inj hrest hsize

/-- Zero, the last number that stands for itself and the first that does not. -/
example : [0, 0x7f, 0x80].map number = [⟨#[0x80]⟩, ⟨#[0x7f]⟩, ⟨#[0x81, 0x80]⟩] := by decide

/-! ## Lists -/

/-- The items of a list, one behind the other. -/
def payload (items : List Bytes) : Bytes := items.foldl (· ++ ·) ByteArray.empty

variable {items : List Bytes} {as bs : List Bytes}

lemma payload_cons (b : Bytes) (items : List Bytes) :
    payload (b :: items) = b ++ payload items := by
  have hfold (acc : Bytes) : items.foldl (· ++ ·) acc = acc ++ payload items := by
    rw [payload]
    induction items generalizing acc with
    | nil => exact ByteArray.append_empty.symm
    | cons c items ih =>
        rw [List.foldl_cons, List.foldl_cons, ih, ih (ByteArray.empty ++ c), ByteArray.empty_append,
          ByteArray.append_assoc]
  rw [payload, List.foldl_cons, ByteArray.empty_append, hfold]

lemma size_le_size_string (b : Bytes) : b.size ≤ (string b).size := by
  rw [string]
  split
  · exact le_rfl
  · rw [ByteArray.size_append]
    exact Nat.le_add_left _ _

lemma size_string_le (h : b.size < 56) : (string b).size ≤ b.size + 1 := by
  rw [string]
  split
  · exact Nat.le_succ _
  · rw [lead, if_pos h, ByteArray.size_append, size_ofNat, Nat.add_comm]

lemma size_string_pos (b : Bytes) : 0 < (string b).size := by
  rw [string]
  split
  · rename_i hplain
    exact hplain.1 ▸ one_pos
  · rw [lead_eq, ByteArray.size_append, ByteArray.size_append, size_ofNat]
    omega

/-- **Byte strings that are encoded one behind the other** split in one way. -/
lemma payload_strings_inj (ha : (payload (as.map string)).size < 256 ^ 8)
    (hb : (payload (bs.map string)).size < 256 ^ 8)
    (h : payload (as.map string) = payload (bs.map string)) : as = bs := by
  have hne (b : Bytes) (x : Bytes) : ByteArray.empty ≠ string b ++ x := fun hempty => by
    have hsize := congrArg ByteArray.size hempty
    rw [ByteArray.size_append] at hsize
    have := size_string_pos b
    have hzero : ByteArray.empty.size = 0 := rfl
    omega
  induction as generalizing bs with
  | nil =>
      cases bs with
      | nil => rfl
      | cons b bs => exact absurd (h.trans (payload_cons _ _)) (hne _ _)
  | cons a as ih =>
      cases bs with
      | nil => exact absurd (h.symm.trans (payload_cons _ _)) (hne _ _)
      | cons b bs =>
          simp only [List.map_cons, payload_cons, ByteArray.size_append] at ha hb h
          have hsize := size_le_size_string a
          have hsize' := size_le_size_string b
          obtain ⟨rfl, hrest⟩ := string_append_inj (by omega) (by omega) h
          rw [ih (by omega) (by omega) hrest]

/-- **An encoded list determines its byte strings.** -/
theorem list_injective (ha : (payload (as.map string)).size < 256 ^ 8)
    (hb : (payload (bs.map string)).size < 256 ^ 8)
    (h : list (as.map string) = list (bs.map string)) : as = bs :=
  payload_strings_inj ha hb (lead_append_inj (by decide) ha hb h).2

/-- A list does not begin with the largest byte, unless its length needs eight bytes. -/
lemma byteAt_list_lt (h : (payload items).size < 256 ^ 7) :
    ((list items).byteAt 0).toNat < 0xff := by
  have htag := tag_le h
  have hlist : list items = lead 0xc0 (payload items).size ++ payload items := rfl
  rw [hlist, byteAt_lead (by omega)]
  omega

end Rlp

end ResumableEvm
