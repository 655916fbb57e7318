import ResumableEvm.Precompile.ModExp
import ResumableEvm.Proofs.CheckedMemory

/-!
# The price of modular exponentiation

The price is a polynomial in the lengths that an input gives, with terms that are taken away.  It
is reckoned in words, after lengths that could not be paid for have been sorted out.  The same
lengths then say where the operands are, and how many zeros stand in front of the answer.

* `ModExp.checkedLengths_eq` — lengths that can be paid for are indices.
* `ModExp.exists_checkedComplexity`, `ModExp.checkedIterations_eq` — the terms stay within a word.
* `ModExp.checkedPrice_eq` — so does the price.
* `ModExp.checkedRun_eq` — operands and answer are where the lengths say.
-/

namespace ResumableEvm

lemma Gas.ofNat_toNat (w : Word) : ofNat w.toNat = ⟨w⟩ :=
  congrArg Gas.mk (BitVec.eq_of_toNat_eq (min_eq_left w.toNat_le_maxWord))

namespace ModExp

/-- The number in `len` bytes from `offset` on, which must be at most 32. -/
def checkedNumber (data : Bytes) (offset len : ℕ) : Except Panic Word := do
  Word.checkedOfBytes (← data.checkedPadded offset len)

/-- A square of which a part counts, with a multiple added and an amount taken away. -/
def checkedTerms (x divisor factor less : Word) : Except Panic Word := do
  let square ← (← x.checkedMul x).checkedQuotient divisor
  (← square.checkedAdd (← factor.checkedMul x)).checkedSub less

def checkedComplexity (x : ℕ) : Except Panic Word := do
  let x := Word.ofNat x
  if x.toNat ≤ 64 then x.checkedMul x
  else if x.toNat ≤ 1024 then checkedTerms x 4 96 3072
  else checkedTerms x 16 480 199680

/-- The position of the highest bit of a word. -/
def checkedHighest (head : Word) : Except Panic ℕ :=
  if head = 0 then .ok 0 else subIndex head.bits 1

def checkedIterations (length : ℕ) (head : Word) : Except Panic ℕ := do
  let headBits ← checkedHighest head
  if length ≤ 32 then return headBits
  else addIndex (← asIndex (8 * (← subIndex length 32))) headBits

/-- The lengths that an input gives, unless they could not be paid for. -/
def checkedLengths (data : Bytes) : Except Panic (Option Lengths) := do
  let base ← checkedNumber data 0 32
  let exponent ← checkedNumber data 32 32
  let modulus ← checkedNumber data 64 32
  if base.toNat > longest ∨ exponent.toNat > longest ∨ modulus.toNat > longest then return none
  else
    let base ← asIndex base.toNat
    let exponent ← asIndex exponent.toNat
    return some ⟨base, exponent, ← asIndex modulus.toNat⟩

def checkedPrice (data : Bytes) : Except Panic Gas := do
  match ← checkedLengths data with
  | none => return Gas.largest
  | some l =>
    let head ← checkedNumber data (← addIndex 96 l.base) (min l.exponent 32)
    let complexity ← checkedComplexity (max l.base l.modulus)
    let iterations := max (← checkedIterations l.exponent head) 1
    return (Gas.mk complexity * Gas.ofNat iterations).divNat 20

def checkedOperand (data : Bytes) (offset len : ℕ) : Except Panic ℕ := do
  return (← data.checkedPadded offset len).toNat

def checkedAnswer (len n : ℕ) : Except Panic Bytes :=
  let bytes := digits n
  if bytes.size ≤ len ∧ n ≠ 0 then do
    (Bytes.zeros len).checkedCopy (← subIndex len bytes.size) len bytes
  else .ok (Bytes.zeros len)

def checkedRun (data : Bytes) : Except Panic (Except ExitError Bytes) := do
  match ← checkedLengths data with
  | none => return .error .outOfGas
  | some l =>
    if l.modulus = 0 then return .ok ByteArray.empty
    else
      let exponentAt ← addIndex 96 l.base
      let modulusAt ← addIndex exponentAt l.exponent
      let base ← checkedOperand data 96 l.base
      let exponent ← checkedOperand data exponentAt l.exponent
      let modulus ← checkedOperand data modulusAt l.modulus
      return .ok (← checkedAnswer l.modulus (power base exponent modulus))

/-- A number of up to 32 bytes is read as a word. -/
lemma exists_checkedNumber (data : Bytes) (offset : ℕ) {len : ℕ} (h : len ≤ 32) :
    ∃ w, checkedNumber data offset len = .ok w ∧ w.toNat = (data.slice offset len).toNat := by
  have hsize : (data.slice offset len).size ≤ 32 := by
    rw [Bytes.size_slice]
    exact h
  refine ⟨_, ?_, Word.toNat_ofBytes hsize⟩
  rw [checkedNumber, Bytes.checkedPadded_eq, ok_bind, Word.checkedOfBytes_of_le hsize]

lemma operand_eq (data : Bytes) (offset len : ℕ) :
    operand data offset len = (data.slice offset len).toNat := (Bytes.toNat_slice _ _ _).symm

/-- What is taken away is no more than the multiple that is added. -/
lemma exists_checkedTerms {x : Word} (divisor factor less : Word) (hx : x.toNat ≤ longest)
    (hdivisor : divisor ≠ 0) (hfactor : factor.toNat ≤ longest)
    (hless : less.toNat ≤ factor.toNat * x.toNat) :
    ∃ w, checkedTerms x divisor factor less = .ok w ∧
      w.toNat = x.toNat * x.toNat / divisor.toNat + factor.toNat * x.toNat - less.toNat := by
  have hsquare : x.toNat * x.toNat ≤ longest * longest := Nat.mul_le_mul hx hx
  have hmultiple : factor.toNat * x.toNat ≤ longest * longest := Nat.mul_le_mul hfactor hx
  have hroom : longest * longest + longest * longest ≤ maxWord := by decide
  obtain ⟨square, hmul, hsquareNat⟩ := Word.exists_checkedMul (a := x) (b := x) (by omega)
  obtain ⟨part, hquotient, hpart⟩ := Word.exists_checkedQuotient (a := square) hdivisor
  obtain ⟨multiple, hmul', hmultipleNat⟩ :=
    Word.exists_checkedMul (a := factor) (b := x) (by omega)
  have hpartLe : part.toNat ≤ square.toNat := hpart ▸ Nat.div_le_self _ _
  obtain ⟨sum, hadd, hsum⟩ := Word.exists_checkedAdd (a := part) (b := multiple) (by omega)
  obtain ⟨difference, hsub, hdifference⟩ :=
    Word.exists_checkedSub (a := sum) (b := less) (by omega)
  refine ⟨difference, ?_, by rw [hdifference, hsum, hpart, hsquareNat, hmultipleNat]⟩
  simp only [checkedTerms, hmul, hquotient, hmul', hadd, ok_bind]
  exact hsub

/-- **The terms of the price** are words. -/
lemma exists_checkedComplexity {x : ℕ} (h : x ≤ longest) :
    ∃ w, checkedComplexity x = .ok w ∧ w.toNat = complexity x := by
  have hx : (Word.ofNat x).toNat = x := by
    simp only [longest] at h
    rw [BitVec.toNat_ofNat]
    exact Nat.mod_eq_of_lt (by omega)
  have hlongest : (Word.ofNat x).toNat ≤ longest := hx.symm ▸ h
  simp only [checkedComplexity, complexity, hx]
  split
  · obtain ⟨square, hmul, hsquare⟩ :=
      Word.exists_checkedMul (a := Word.ofNat x) (b := Word.ofNat x) (by
        have hsquare := Nat.mul_le_mul hlongest hlongest
        exact hsquare.trans (by decide))
    exact ⟨square, hmul, by rw [hsquare, hx]⟩
  · split
    · obtain ⟨w, hw, hvalue⟩ := exists_checkedTerms 4 96 3072 hlongest (by decide) (by decide)
        (by
          rw [hx]
          show 3072 ≤ 96 * x
          omega)
      rw [hx] at hvalue
      exact ⟨w, hw, hvalue⟩
    · obtain ⟨w, hw, hvalue⟩ := exists_checkedTerms 16 480 199680 hlongest (by decide)
        (by decide) (by
          rw [hx]
          show 199680 ≤ 480 * x
          omega)
      rw [hx] at hvalue
      exact ⟨w, hw, hvalue⟩

lemma exists_checkedHighest (head : Word) :
    ∃ bits < 256, checkedHighest head = .ok bits ∧
      bits = if head.toNat = 0 then 0 else Nat.log2 head.toNat := by
  by_cases hzero : head = 0
  · exact ⟨0, by decide, if_pos hzero, by rw [hzero]; rfl⟩
  · have hne := Word.toNat_ne_zero hzero
    have hbits : head.bits = Nat.log2 head.toNat + 1 := if_neg hne
    refine ⟨_, (Nat.log2_lt hne).mpr head.isLt, ?_, (if_neg hne).symm⟩
    rw [checkedHighest, if_neg hzero, hbits, subIndex_of_le (Nat.le_add_left _ _),
      Nat.add_sub_cancel]

/-- **The number of multiplications** is an index, as the exponent has at most `longest` bytes. -/
lemma checkedIterations_eq {length : ℕ} (h : length ≤ longest) (head : Word) :
    checkedIterations length head = .ok (iterations length head.toNat) := by
  obtain ⟨bits, hlt, hbits, hvalue⟩ := exists_checkedHighest head
  have hlongest : 8 * longest + 256 ≤ maxIndex := by decide
  simp only [checkedIterations, iterations, hbits, ok_bind, ← hvalue]
  split
  · rfl
  · rw [subIndex_of_le (by omega), ok_bind, asIndex_of_le (by omega), ok_bind,
      addIndex_of_le (by omega)]

/-- Lengths that are not excessive are at most `longest`, each of them. -/
lemma le_longest_of_not_excessive {l : Lengths} (h : l.excessive = false) :
    l.base ≤ longest ∧ l.exponent ≤ longest ∧ l.modulus ≤ longest := by
  rw [Lengths.excessive, decide_eq_false_iff_not] at h
  omega

/-- **Lengths that can be paid for** are indices. -/
lemma checkedLengths_eq (data : Bytes) :
    checkedLengths data = .ok (if (Lengths.ofInput data).excessive then none
      else some (Lengths.ofInput data)) := by
  obtain ⟨base, hbase, hbaseNat⟩ := exists_checkedNumber data 0 (le_refl 32)
  obtain ⟨exponent, hexponent, hexponentNat⟩ := exists_checkedNumber data 32 (le_refl 32)
  obtain ⟨modulus, hmodulus, hmodulusNat⟩ := exists_checkedNumber data 64 (le_refl 32)
  have hlengths : Lengths.ofInput data = ⟨base.toNat, exponent.toNat, modulus.toNat⟩ := by
    rw [Lengths.ofInput, hbaseNat, hexponentNat, hmodulusNat]
  simp only [checkedLengths, hlengths, Lengths.excessive, hbase, hexponent, hmodulus, ok_bind,
    decide_eq_true_eq]
  split
  · rfl
  · have hlongest : longest ≤ maxIndex := by decide
    rw [asIndex_of_le (by omega), ok_bind, asIndex_of_le (by omega), ok_bind,
      asIndex_of_le (by omega), ok_bind]
    rfl

/-- **The price is reckoned to the end.** -/
@[simp] lemma checkedPrice_eq (data : Bytes) : checkedPrice data = .ok (price data) := by
  simp only [checkedPrice, price, checkedLengths_eq, ok_bind]
  cases hexcessive : (Lengths.ofInput data).excessive with
  | true => rfl
  | false =>
      obtain ⟨hbase, hexponent, hmodulus⟩ := le_longest_of_not_excessive hexcessive
      generalize Lengths.ofInput data = l at hbase hexponent hmodulus ⊢
      have hlongest : longest + 96 ≤ maxIndex := by decide
      obtain ⟨head, hhead, hheadNat⟩ := exists_checkedNumber data (96 + l.base)
        (show min l.exponent 32 ≤ 32 from min_le_right _ _)
      obtain ⟨terms, hterms, htermsNat⟩ :=
        exists_checkedComplexity (x := max l.base l.modulus) (by omega)
      simp only [Bool.false_eq_true, if_false]
      rw [addIndex_of_le (by omega), ok_bind, hhead, ok_bind, hterms, ok_bind,
        checkedIterations_eq hexponent, ok_bind, operand_eq, ← hheadNat, ← htermsNat,
        Gas.ofNat_toNat]
      rfl

@[simp] lemma checkedOperand_eq (data : Bytes) (offset len : ℕ) :
    checkedOperand data offset len = .ok (operand data offset len) := by
  rw [checkedOperand, Bytes.checkedPadded_eq, ok_bind, operand_eq]
  rfl

/-- The digits of an answer end where it ends. -/
@[simp] lemma checkedAnswer_eq (len n : ℕ) : checkedAnswer len n = .ok (padded len n) := by
  simp only [checkedAnswer, padded]
  split
  · rename_i hfits
    have hend : len - (digits n).size + (digits n).size = len := Nat.sub_add_cancel hfits.1
    rw [subIndex_of_le hfits.1, ok_bind,
      Bytes.checkedCopy_of_le hend (Bytes.size_zeros len).ge]
  · rfl

/-- **The power is taken of operands that are where the lengths say.** -/
@[simp] lemma checkedRun_eq (data : Bytes) : checkedRun data = .ok (run data) := by
  simp only [checkedRun, run, checkedLengths_eq, ok_bind]
  cases hexcessive : (Lengths.ofInput data).excessive with
  | true => rfl
  | false =>
      obtain ⟨hbase, hexponent, -⟩ := le_longest_of_not_excessive hexcessive
      generalize Lengths.ofInput data = l at hbase hexponent ⊢
      have hlongest : 96 + longest + longest ≤ maxIndex := by decide
      simp only [Bool.false_eq_true, if_false]
      split
      · rfl
      · rw [addIndex_of_le (by omega), ok_bind, addIndex_of_le (by omega), ok_bind,
          checkedOperand_eq, ok_bind, checkedOperand_eq, ok_bind, checkedOperand_eq, ok_bind,
          checkedAnswer_eq, ok_bind]
        rfl

end ModExp

end ResumableEvm
