import ResumableEvm.Precompile
import ResumableEvm.Proofs.CheckedPrice

/-!
# Modular exponentiation, digit by digit

The operands of a modular exponentiation are the digits, base 256, that stand behind a header of
three lengths; digits past the end of the input are zeros.  The answer has as many digits as the
modulus, and those are the digits of the power.

* `Bytes.numberAt` — the number that a run of bytes writes, the highest byte first.
* `Bytes.numberAt_ofNat` — a number that has room is written as it is.
* `Bytes.toNat_minimal`, `Bytes.ofNat_toNat` — so is one in as few bytes as it needs, and bytes are
  the number they write.
* `ModExp.powerLoop_eq`, `ModExp.power_eq` — squaring and multiplying comes to the power.
* `ModExp.padded_eq` — its digits behind zeros are its digits in a fixed width.
* `ModExp.run_padded_power` — the answer is the power of the padded operands.
-/

namespace ResumableEvm

/-! ## Numbers in bytes -/

namespace Bytes

variable {b : Bytes} {offset len n k : ℕ}

/-- **The number in `len` bytes from `offset` on,** the highest byte first; a byte past the end
    of the string is a zero digit. -/
def numberAt (b : Bytes) (offset : ℕ) : (len : ℕ) → ℕ
  | 0 => 0
  | len + 1 => b.numberAt offset len * 256 + (b.byteAt (offset + len)).toNat

/-- One more byte of a region stands behind the others. -/
lemma slice_succ (b : Bytes) (offset len : ℕ) :
    b.slice offset (len + 1) = b.slice offset len ++ ⟨#[b.byteAt (offset + len)]⟩ := by
  refine ext_byteAt (by simp only [ByteArray.size_append, size_slice]; rfl) fun i hi => ?_
  rw [size_slice] at hi
  rw [byteAt_slice hi, byteAt_append, size_slice]
  split
  · rename_i hlt
    rw [byteAt_slice hlt]
  · obtain rfl : i = len := by omega
    rw [Nat.sub_self]
    rfl

/-- A region is read digit by digit. -/
lemma toNat_slice_eq_numberAt (b : Bytes) (offset len : ℕ) :
    (b.slice offset len).toNat = b.numberAt offset len := by
  induction len with
  | zero =>
      have hempty : b.slice offset 0 = zeros 0 := ext_byteAt (by simp) (by simp)
      rw [hempty, toNat_zeros]
      rfl
  | succ len ih =>
      rw [slice_succ, toNat_append, ih, numberAt]
      simp [toNat, ByteArray.size]

lemma length_digits (acc : List UInt8) : (digits len n acc).length = len + acc.length := by
  induction len generalizing n acc with
  | zero => simp [digits]
  | succ len ih => rw [digits, ih, List.length_cons, Nat.add_assoc, Nat.add_comm 1]

/-- The digits in front of others count by what stands behind them. -/
lemma foldl_digits_ofNat (acc : List UInt8) :
    (digits len n acc).foldl (fun acc x => acc * 256 + x.toNat) 0 =
      n % 256 ^ len * 256 ^ acc.length + acc.foldl (fun acc x => acc * 256 + x.toNat) 0 := by
  induction len generalizing n acc with
  | zero => simp [digits, Nat.mod_one]
  | succ len ih =>
      have hsplit : n % 256 ^ (len + 1) = n / 256 % 256 ^ len * 256 + n % 256 := by
        rw [pow_succ', Nat.mod_mul]
        ring
      have hlast : (UInt8.ofNat n).toNat = n % 256 := UInt8.toNat_ofNat'
      rw [digits, ih, List.foldl_cons, foldl_digits, hsplit, hlast, List.length_cons]
      ring

lemma size_ofNat (len n : ℕ) : (ofNat len n).size = len := by
  rw [ofNat, List.size_toByteArray, length_digits, List.length_nil, Nat.add_zero]

lemma toNat_ofNat (len n : ℕ) : (ofNat len n).toNat = n % 256 ^ len := by
  rw [toNat_eq, ofNat, List.data_toByteArray, foldl_digits_ofNat]
  simp

/-- **A number that has room is written as it is,** with zeros in front. -/
lemma numberAt_ofNat (h : n < 256 ^ len) : (ofNat len n).numberAt 0 len = n := by
  have hall := slice_size (ofNat len n)
  rw [size_ofNat] at hall
  rw [← toNat_slice_eq_numberAt, hall, toNat_ofNat, Nat.mod_eq_of_lt h]

/-- The last digits of the number that some bytes write are those bytes. -/
lemma digits_foldl (l acc : List UInt8) :
    digits l.length (l.foldl (fun acc x => acc * 256 + x.toNat) 0) acc = l ++ acc := by
  -- the last byte is the lowest digit, so the bytes are taken off at their end
  induction l using List.reverseRecOn generalizing acc with
  | nil => rfl
  | append_singleton l x ih =>
      rw [List.length_append, List.length_singleton, digits, List.foldl_append, List.foldl_cons,
        List.foldl_nil]
      generalize hn : l.foldl (fun acc x => acc * 256 + x.toNat) 0 = n at ih ⊢
      have hx : x.toNat < 256 := x.toNat_lt
      have hhigh : (n * 256 + x.toNat) / 256 = n := by omega
      have hlow : UInt8.ofNat (n * 256 + x.toNat) = x := by
        apply UInt8.toNat_inj.mp
        rw [UInt8.toNat_ofNat']
        omega
      rw [hhigh, hlow, ih, List.append_assoc, List.singleton_append]

/-- A byte string is the number that it writes, in as many bytes. -/
lemma ofNat_toNat (b : Bytes) : ofNat b.size b.toNat = b := by
  have hdigits := digits_foldl b.data.toList []
  rw [List.append_nil, Array.length_toList, ← toNat_eq] at hdigits
  have hsize : b.data.size = b.size := rfl
  rw [ofNat, ← hsize, hdigits]
  exact ByteArray.ext (by rw [List.data_toByteArray])

lemma lt_pow_lengthOf (n : ℕ) : n < 256 ^ lengthOf n := by
  rw [lengthOf]
  split
  · omega
  · have hroom : n.log2 + 1 ≤ 8 * (n.log2 / 8 + 1) := by omega
    calc n < 2 ^ (n.log2 + 1) := Nat.lt_log2_self
      _ ≤ 2 ^ (8 * (n.log2 / 8 + 1)) := Nat.pow_le_pow_right two_pos hroom
      _ = 256 ^ (n.log2 / 8 + 1) := pow_mul 2 8 _

/-- A number needs no more bytes than it has room in. -/
lemma lengthOf_le (h : n < 256 ^ k) : lengthOf n ≤ k := by
  rw [lengthOf]
  split
  · exact Nat.zero_le k
  · rename_i hpos
    rw [show 256 = 2 ^ 8 from rfl, ← pow_mul] at h
    have hbits := (Nat.log2_lt hpos).mpr h
    omega

lemma size_minimal (n : ℕ) : (minimal n).size = lengthOf n := size_ofNat _ _

lemma toNat_minimal (n : ℕ) : (minimal n).toNat = n := by
  rw [minimal, toNat_ofNat, Nat.mod_eq_of_lt (lt_pow_lengthOf n)]

lemma numberAt_lt (b : Bytes) (offset len : ℕ) : b.numberAt offset len < 256 ^ len := by
  have hlt := toNat_lt (b.slice offset len)
  rwa [toNat_slice_eq_numberAt, size_slice] at hlt

end Bytes

/-! ## The power -/

namespace ModExp

variable {modulus base acc exponent : ℕ}

/-- **Squaring and multiplying.**  What is left to compute is the rest of the power: half of the
    exponent belongs to the square of the base, and an odd exponent leaves one factor. -/
lemma powerLoop_modEq (hacc : acc < modulus) :
    powerLoop modulus base acc exponent < modulus ∧
      powerLoop modulus base acc exponent ≡ acc * base ^ exponent [MOD modulus] := by
  induction exponent using Nat.strong_induction_on generalizing base acc with
  | _ exponent ih =>
      rw [powerLoop]
      by_cases hzero : exponent = 0
      · rw [if_pos hzero, hzero, pow_zero, mul_one]
        exact ⟨hacc, Nat.ModEq.refl _⟩
      · rw [if_neg hzero]
        have hhalf : exponent / 2 < exponent := by omega
        have hsquare (e : ℕ) : (base * base % modulus) ^ e ≡ base ^ (2 * e) [MOD modulus] := by
          have hbase := (Nat.mod_modEq (base * base) modulus).pow e
          rwa [← pow_two, ← pow_mul, pow_two] at hbase
        split
        · rename_i hodd
          have hlt : acc * base % modulus < modulus := Nat.mod_lt _ (by omega)
          obtain ⟨hlow, hrest⟩ := @ih _ hhalf (base * base % modulus) _ hlt
          refine ⟨hlow, hrest.trans ?_⟩
          calc acc * base % modulus * (base * base % modulus) ^ (exponent / 2)
              ≡ acc * base * base ^ (2 * (exponent / 2)) [MOD modulus] :=
                (Nat.mod_modEq _ _).mul (hsquare _)
            _ = acc * base ^ (2 * (exponent / 2) + 1) := by ring
            _ = acc * base ^ exponent := by rw [← hodd, Nat.div_add_mod]
        · rename_i heven
          obtain ⟨hlow, hrest⟩ := @ih _ hhalf (base * base % modulus) _ hacc
          refine ⟨hlow, hrest.trans ?_⟩
          calc acc * (base * base % modulus) ^ (exponent / 2)
              ≡ acc * base ^ (2 * (exponent / 2)) [MOD modulus] := (hsquare _).mul_left _
            _ = acc * base ^ exponent := by
                rw [show 2 * (exponent / 2) = exponent by omega]

/-- The loop comes to the power. -/
lemma powerLoop_eq (hmodulus : 1 < modulus) :
    powerLoop modulus (base % modulus) 1 exponent = base ^ exponent % modulus := by
  obtain ⟨hlt, hpower⟩ :=
    @powerLoop_modEq modulus (base % modulus) 1 exponent hmodulus
  rw [one_mul] at hpower
  rw [← Nat.mod_eq_of_lt hlt]
  exact hpower.trans ((Nat.mod_modEq base modulus).pow exponent)

lemma power_eq (base exponent modulus : ℕ) :
    power base exponent modulus = if modulus ≤ 1 then 0 else base ^ exponent % modulus := by
  rw [power]
  split
  · rfl
  · exact powerLoop_eq (by omega)

/-- The power has room in as many bytes as the modulus. -/
lemma power_lt {len : ℕ} (h : modulus < 256 ^ len) : power base exponent modulus < 256 ^ len := by
  rw [power_eq]
  split
  · positivity
  · exact (Nat.mod_lt _ (by omega)).trans h

/-! ## The answer -/

/-- **What is written is the number,** if it has room, with zeros in front of its digits. -/
lemma padded_eq {len n : ℕ} (h : n < 256 ^ len) : padded len n = Bytes.ofNat len n := by
  simp only [padded]
  rcases Nat.eq_zero_or_pos n with rfl | hpos
  · have hzeros := Bytes.ofNat_toNat (Bytes.zeros len)
    rw [Bytes.size_zeros, Bytes.toNat_zeros] at hzeros
    rw [if_neg fun hboth => hboth.2 rfl, hzeros]
  · have hdigits : digits n = Bytes.minimal n := if_neg hpos.ne'
    have hfits : (Bytes.minimal n).size ≤ len :=
      (Bytes.size_minimal n).trans_le (Bytes.lengthOf_le h)
    have hend : len - (Bytes.minimal n).size + (Bytes.minimal n).size = len :=
      Nat.sub_add_cancel hfits
    rw [hdigits, if_pos ⟨hfits, hpos.ne'⟩, Bytes.overwrite_zeros hend.le]
    -- the digits end where the bytes do
    have hbehind : len - (len - (Bytes.minimal n).size) - (Bytes.minimal n).size = 0 := by omega
    have hall := Bytes.ofNat_toNat
      (Bytes.zeros (len - (Bytes.minimal n).size) ++ (Bytes.minimal n ++ Bytes.zeros 0))
    simp only [Bytes.toNat_append, Bytes.toNat_zeros, Bytes.size_zeros, Bytes.toNat_minimal,
      ByteArray.size_append, Nat.add_zero, Nat.zero_mul, Nat.zero_add, pow_zero, mul_one,
      hend] at hall
    rw [hbehind, hall]

variable {data : Bytes}

/-- The lengths that an input states, digit by digit. -/
def stated (data : Bytes) : Lengths where
  base := data.numberAt 0 32
  exponent := data.numberAt 32 32
  modulus := data.numberAt 64 32

/-- The operands that stand behind the header, in the lengths it states. -/
def statedBase (data : Bytes) : ℕ := data.numberAt 96 (stated data).base

@[inherit_doc statedBase]
def statedExponent (data : Bytes) : ℕ :=
  data.numberAt (96 + (stated data).base) (stated data).exponent

@[inherit_doc statedBase]
def statedModulus (data : Bytes) : ℕ :=
  data.numberAt (96 + (stated data).base + (stated data).exponent) (stated data).modulus

lemma ofInput_eq (data : Bytes) : Lengths.ofInput data = stated data := by
  simp only [Lengths.ofInput, stated, Bytes.toNat_slice_eq_numberAt]

lemma operand_eq_numberAt (data : Bytes) (offset len : ℕ) :
    operand data offset len = data.numberAt offset len := by
  rw [operand_eq, Bytes.toNat_slice_eq_numberAt]

/-- **Lengths that can be paid for:** none is more than 2³². -/
structure Payable (l : Lengths) : Prop where
  base : l.base ≤ 2 ^ 32
  exponent : l.exponent ≤ 2 ^ 32
  modulus : l.modulus ≤ 2 ^ 32

lemma excessive_eq_false {l : Lengths} (h : Payable l) : l.excessive = false := by
  have hlongest : longest = 2 ^ 32 := by decide
  have hbase := h.base
  have hexponent := h.exponent
  have hmodulus := h.modulus
  rw [Lengths.excessive, decide_eq_false_iff_not]
  omega

lemma statedModulus_lt (data : Bytes) : statedModulus data < 256 ^ (stated data).modulus :=
  Bytes.numberAt_lt _ _ _

/-- Without a modulus there is nothing to write, with one the digits of the power. -/
lemma run_eq_power (h : Payable (stated data)) :
    run data = .ok (Bytes.ofNat (stated data).modulus
      (power (statedBase data) (statedExponent data) (statedModulus data))) := by
  simp only [run, ofInput_eq, excessive_eq_false h, operand_eq_numberAt]
  rw [if_neg Bool.false_ne_true]
  split
  · rename_i hzero
    rw [hzero]
    rfl
  · exact congrArg Except.ok (padded_eq (power_lt (statedModulus_lt data)))

/-- **The padded power.**  For lengths of up to 2³² there is an answer, in exactly as many bytes as
    the header states for the modulus.  They write the power of the operands behind the header,
    or zero where the modulus is zero or one. -/
theorem run_padded_power (data : Bytes) (h : Payable (stated data)) :
    ∃ out, Precompile.run .modExp data = .ok out ∧
      out.size = (stated data).modulus ∧
      out.numberAt 0 out.size =
        if statedModulus data ≤ 1 then 0
        else statedBase data ^ statedExponent data % statedModulus data := by
  refine ⟨_, run_eq_power h, Bytes.size_ofNat _ _, ?_⟩
  rw [Bytes.size_ofNat, Bytes.numberAt_ofNat (power_lt (statedModulus_lt data)), power_eq]

/-- An input that asks for a base and an exponent of one byte and a modulus of two, and ends
    after the modulus' first byte. -/
def cutInput : Bytes :=
  Bytes.ofNat 32 1 ++ Bytes.ofNat 32 1 ++ Bytes.ofNat 32 2 ++ Bytes.ofNat 3 0x030501

/-- The byte that is missing is a zero: 3⁵ is taken modulo 256, and answered in two bytes. -/
theorem run_cutInput :
    Payable (stated cutInput) ∧
      ∃ out, Precompile.run .modExp cutInput = .ok out ∧ out.size = 2 ∧
        out.numberAt 0 out.size = 243 := by
  have hpayable : Payable (stated cutInput) :=
    ⟨by decide +kernel, by decide +kernel, by decide +kernel⟩
  obtain ⟨out, hrun, hsize, hvalue⟩ := run_padded_power cutInput hpayable
  exact ⟨hpayable, out, hrun, hsize.trans (by decide +kernel), hvalue.trans (by decide +kernel)⟩

end ModExp

end ResumableEvm
