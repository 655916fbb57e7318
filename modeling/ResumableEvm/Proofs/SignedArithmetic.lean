import ResumableEvm.Proofs.UnsignedArithmetic

/-!
# Signed arithmetic

A word stands for an integer between `-2 ^ 255` and `2 ^ 255`, in two's complement.  The signed
operations take it apart into a sign and a magnitude, compute with those, and put the result
together again.  There is one number with a magnitude that no positive number has, the least, and
one without a sign; everything else is symmetric.

* `SignedWord.Reads` — the integer that a sign and a magnitude stand for.
* `SignedWord.reads_ofWord`, `SignedWord.Reads.toInt_toWord` — taking words apart and putting them
  together.
* `SignedWord.Reads.div`, `SignedWord.Reads.rem`, `SignedWord.Reads.lt` — what is computed between.
* `Word.toInt_sar` — shifting is division toward minus infinity.
* `Word.signExtend_eq` — extending is reading the low bytes.
-/

namespace ResumableEvm

/-- An operation whose result, as a signed word, is a certain integer. -/
def Opcode.ComputesInt (op : Opcode) (operands : List Word) (z : ℤ) : Prop :=
  ∃ w : Word, op.Computes operands w ∧ w.toInt = z

namespace SignedWord

/-- **The integer that a sign and a magnitude stand for.**  Only zero has no sign, and only a
    negative number has the magnitude `2 ^ 255`. -/
inductive Reads : SignedWord → ℤ → Prop
  | zero : Reads SignedWord.zero 0
  | plus {m : Word} (pos : 0 < m.toNat) (lt : m.toNat < 2 ^ 255) : Reads ⟨.plus, m⟩ m.toNat
  | minus {m : Word} (pos : 0 < m.toNat) (le : m.toNat ≤ 2 ^ 255) : Reads ⟨.minus, m⟩ (-m.toNat)

variable {a b s : SignedWord} {x y z : ℤ} {m w : Word}

/-! ## Words as signed words -/

lemma toNat_mask : mask.toNat = 2 ^ 255 - 1 := rfl

lemma toNat_and_mask (w : Word) : (w &&& mask).toNat = w.toNat % 2 ^ 255 := by
  rw [BitVec.toNat_and, toNat_mask, Nat.and_two_pow_sub_one_eq_mod]

lemma and_mask_of_lt (h : w.toNat < 2 ^ 255) : w &&& mask = w :=
  BitVec.eq_of_toNat_eq (by rw [toNat_and_mask, Nat.mod_eq_of_lt h])

lemma and_mask_eq_iff : w &&& mask = w ↔ w.toNat < 2 ^ 255 := by
  refine ⟨fun h => ?_, and_mask_of_lt⟩
  have hmod := toNat_and_mask w
  rw [h] at hmod
  omega

lemma pos_of_ne_zero (h : m ≠ 0) : 0 < m.toNat :=
  Nat.pos_of_ne_zero (Word.toNat_ne_zero h)

/-- The complement and one more. -/
lemma toNat_negated (h : m ≠ 0) : (~~~m + 1).toNat = 2 ^ 256 - m.toNat := by
  have hlt := m.isLt
  have hpos := pos_of_ne_zero h
  rw [BitVec.toNat_add, BitVec.toNat_not]
  simp only [BitVec.ofNat_eq_ofNat, BitVec.toNat_ofNat]
  omega

lemma reads_plus (h : m.toNat < 2 ^ 255) :
    (if m = 0 then zero else ⟨.plus, m⟩ : SignedWord).Reads m.toNat := by
  split
  · rename_i hzero
    subst hzero
    exact .zero
  · exact .plus (pos_of_ne_zero ‹_›) h

lemma reads_minus (h : m.toNat ≤ 2 ^ 255) :
    (if m = 0 then zero else ⟨.minus, m⟩ : SignedWord).Reads (-m.toNat) := by
  split
  · rename_i hzero
    subst hzero
    exact .zero
  · exact .minus (pos_of_ne_zero ‹_›) h

/-- **Taking a word apart** keeps the integer. -/
lemma reads_ofWord (w : Word) : (ofWord w).Reads w.toInt := by
  have hlt := w.isLt
  rw [BitVec.toInt_eq_toNat_cond]
  simp only [ofWord]
  split
  · rename_i hzero
    subst hzero
    exact .zero
  · rename_i hzero
    have hpos := pos_of_ne_zero hzero
    split
    · rename_i hmask
      have hsmall := and_mask_eq_iff.mp hmask
      rw [if_pos (by omega)]
      exact .plus hpos hsmall
    · rename_i hmask
      have hlarge := mt and_mask_eq_iff.mpr hmask
      have hnegated := toNat_negated hzero
      have hread : (w.toNat : ℤ) - ((2 ^ 256 : ℕ) : ℤ) = -(~~~w + 1).toNat := by omega
      rw [if_neg (by omega), hread]
      exact .minus (by omega) (by omega)

lemma toInt_of_lt (h : m.toNat < 2 ^ 255) : m.toInt = m.toNat := by
  rw [BitVec.toInt_eq_toNat_cond, if_pos (by omega)]

/-- **Putting a word together** keeps it, too. -/
lemma Reads.toInt_toWord (h : s.Reads z) : s.toWord.toInt = z := by
  cases h with
  | zero => rfl
  | plus pos lt => exact toInt_of_lt lt
  | @minus m pos le =>
      show (~~~m + 1).toInt = _
      have hzero : m ≠ 0 := by
        rintro rfl
        exact absurd pos (by decide)
      have hnegated := toNat_negated hzero
      rw [BitVec.toInt_eq_toNat_cond, if_neg (by omega)]
      omega

lemma toWord_ofWord (w : Word) : (ofWord w).toWord = w :=
  BitVec.eq_of_toInt_eq (reads_ofWord w).toInt_toWord

/-- Nothing that is read wraps around. -/
lemma Reads.bmod_eq (h : s.Reads z) : z.bmod (2 ^ 256) = z := by
  rw [← h.toInt_toWord]
  exact BitVec.toInt_bmod_cancel _

/-! ## What is computed -/

/-- **Comparing** signs and magnitudes compares integers. -/
lemma Reads.lt_iff (ha : a.Reads x) (hb : b.Reads y) : a.lt b = true ↔ x < y := by
  cases ha <;> cases hb <;>
    simp only [SignedWord.lt, SignedWord.zero, decide_eq_true_eq, BitVec.lt_def,
      Bool.false_eq_true, true_iff, false_iff] <;> omega

/-- The integer is the magnitude, up to the sign. -/
lemma Reads.natAbs_eq (h : s.Reads z) : z.natAbs = s.magnitude.toNat := by
  cases h <;> simp [SignedWord.zero]

lemma Reads.le (h : s.Reads z) : s.magnitude.toNat ≤ 2 ^ 255 := by
  cases h with
  | zero => decide
  | plus pos lt => exact lt.le
  | minus pos le => exact le

lemma Reads.magnitude_ne_zero (h : s.Reads z) (hz : z ≠ 0) : s.magnitude ≠ 0 := by
  intro hzero
  have habs := h.natAbs_eq
  rw [hzero] at habs
  exact hz (Int.natAbs_eq_zero.mp habs)

lemma Reads.unique (h : s.Reads x) (h' : s.Reads y) : x = y :=
  h.toInt_toWord.symm.trans h'.toInt_toWord

lemma least_reads : least.Reads (-2 ^ 255) :=
  Reads.minus (m := mask + 1) (by decide) (by decide)

lemma eq_least (h : s.Reads (-2 ^ 255)) : s = least := by
  generalize hz : (-2 ^ 255 : ℤ) = z at h
  cases h with
  | zero => omega
  | plus pos lt => omega
  | @minus m pos le =>
      have hm : m = mask + 1 := BitVec.eq_of_toNat_eq (by
        show m.toNat = 2 ^ 255
        omega)
      rw [hm]
      rfl

lemma natCast_tmod (m : ℕ) (y : ℤ) : (m : ℤ).tmod y = ((m % y.natAbs : ℕ) : ℤ) := by
  obtain ⟨n, rfl | rfl⟩ := y.eq_nat_or_neg
  · rw [Int.natAbs_natCast, Int.ofNat_tmod]
  · rw [Int.natAbs_neg, Int.natAbs_natCast, Int.tmod_neg, Int.ofNat_tmod]

/-- **The remainder** of the magnitudes, with the sign of the dividend. -/
lemma Reads.rem (ha : a.Reads x) (hb : b.Reads y) (hy : y ≠ 0) : (a.rem b).Reads (x.tmod y) := by
  have hmagnitude := hb.magnitude_ne_zero hy
  set r := a.magnitude % b.magnitude with hr
  have hrem : r.toNat = a.magnitude.toNat % y.natAbs := by
    rw [hr, BitVec.toNat_umod, hb.natAbs_eq]
  have hlt : r.toNat < 2 ^ 255 := by
    rw [hrem, hb.natAbs_eq]
    exact (Nat.mod_lt _ (pos_of_ne_zero hmagnitude)).trans_le hb.le
  simp only [SignedWord.rem, if_neg hmagnitude, ← hr, and_mask_of_lt hlt]
  cases ha with
  | zero =>
      have hzero : r = 0 := by rw [hr]; exact BitVec.zero_umod
      rw [if_pos hzero, Int.zero_tmod]
      exact .zero
  | plus =>
      rw [natCast_tmod, ← hrem]
      exact reads_plus hlt
  | minus =>
      rw [Int.neg_tmod, natCast_tmod, ← hrem]
      exact reads_minus hlt.le

/-- The quotient of two magnitudes is one of a positive number, unless the least number is divided
    by one or minus one. -/
lemma Reads.quotient_lt (ha : a.Reads x) (hb : b.Reads y) (hy : y ≠ 0)
    (hleast : ¬ (a = least ∧ b.magnitude = 1)) :
    (a.magnitude / b.magnitude).toNat < 2 ^ 255 := by
  have hpos := pos_of_ne_zero (hb.magnitude_ne_zero hy)
  rw [BitVec.toNat_udiv]
  rcases ha.le.lt_or_eq with hlt | heq
  · exact (Nat.div_le_self _ _).trans_lt hlt
  · have hx : x = -2 ^ 255 := by
      have habs := ha.natAbs_eq
      cases ha <;> simp only [SignedWord.zero] at heq habs <;> omega
    have hne : b.magnitude.toNat ≠ 1 := fun hone =>
      hleast ⟨eq_least (hx ▸ ha), BitVec.eq_of_toNat_eq hone⟩
    rw [heq]
    exact Nat.div_lt_self (by decide) (by omega)

lemma Reads.ne_zero (hb : b.Reads y) (hy : y ≠ 0) : b ≠ SignedWord.zero := by
  rintro rfl
  exact hy (hb.unique .zero)

/-- **The quotient** of the magnitudes, with the sign that the two signs give. -/
lemma Reads.div (ha : a.Reads x) (hb : b.Reads y) (hy : y ≠ 0)
    (hleast : ¬ (a = least ∧ b.magnitude = 1)) : (a.div b).Reads (x.tdiv y) := by
  have hlt := ha.quotient_lt hb hy hleast
  set q := a.magnitude / b.magnitude with hq
  have hquotient : q.toNat = a.magnitude.toNat / b.magnitude.toNat := BitVec.toNat_udiv
  simp only [SignedWord.div, if_neg (hb.ne_zero hy), if_neg hleast, ← hq, and_mask_of_lt hlt]
  cases ha with
  | zero =>
      have hzero : q = 0 := by rw [hq]; exact BitVec.zero_udiv
      rw [if_pos hzero, Int.zero_tdiv]
      exact .zero
  | @plus m =>
      cases hb with
      | zero => exact absurd rfl hy
      | @plus n =>
          rw [← Int.ofNat_tdiv, ← hquotient]
          exact reads_plus hlt
      | @minus n =>
          rw [Int.tdiv_neg, ← Int.ofNat_tdiv, ← hquotient]
          exact reads_minus hlt.le
  | @minus m =>
      cases hb with
      | zero => exact absurd rfl hy
      | @plus n =>
          rw [Int.neg_tdiv, ← Int.ofNat_tdiv, ← hquotient]
          exact reads_minus hlt.le
      | @minus n =>
          rw [Int.neg_tdiv, Int.tdiv_neg, neg_neg, ← Int.ofNat_tdiv, ← hquotient]
          exact reads_plus hlt

/-- The least number stays the least, also where it should become `2 ^ 255`: that is the same
    word. -/
lemma Reads.div_least (hb : b.Reads y) (hy : y ≠ 0) (hone : b.magnitude = 1) :
    least.div b = least ∧ (-2 ^ 255 : ℤ) = ((-2 ^ 255 : ℤ).tdiv y).bmod (2 ^ 256) := by
  refine ⟨?_, ?_⟩
  · rw [SignedWord.div, if_neg (hb.ne_zero hy), if_pos ⟨rfl, hone⟩]
  · have habs : y.natAbs = 1 := by rw [hb.natAbs_eq, hone]; rfl
    obtain rfl | rfl := Int.natAbs_eq_iff.mp habs <;> rfl

/-! ## Shifting -/

/-- Rounding down a negative quotient. -/
lemma neg_ediv_eq {m d : ℕ} (hm : 0 < m) (hd : 0 < d) :
    (-(m : ℤ)) / (d : ℤ) = -(((m - 1) / d + 1 : ℕ) : ℤ) := by
  obtain ⟨n, rfl⟩ : ∃ n, m = n + 1 := ⟨m - 1, by omega⟩
  rw [show (-((n + 1 : ℕ) : ℤ)) = Int.negSucc n from rfl, Int.negSucc_ediv _ (by omega)]
  rfl

/-- The magnitude of a negative number that was shifted. -/
lemma toNat_shifted (pos : 0 < m.toNat) (le : m.toNat ≤ 2 ^ 255) (shift : ℕ) :
    (((m - 1) >>> shift) + 1).toNat = (m.toNat - 1) / 2 ^ shift + 1 := by
  have hless : (m - 1).toNat = m.toNat - 1 := BitVec.toNat_sub_of_le (by
    rw [BitVec.le_def]
    exact pos)
  have hquotient : (m.toNat - 1) / 2 ^ shift ≤ m.toNat - 1 := Nat.div_le_self _ _
  have hone : (1 : Word).toNat = 1 := rfl
  rw [BitVec.toNat_add, BitVec.toNat_ushiftRight, hless, Nat.shiftRight_eq_div_pow, hone]
  exact Nat.mod_eq_of_lt (by omega)

end SignedWord

/-! ## Operations on words -/

namespace Word

open SignedWord (reads_ofWord)

variable {p i : ℕ} {k : Word}

lemma toInt_ne_zero {w : Word} (h : w ≠ 0) : w.toInt ≠ 0 :=
  fun hzero => h (BitVec.eq_of_toInt_eq hzero)

/-- **Signed division** rounds toward zero, and wraps around. -/
lemma toInt_sdiv (a b : Word) : (sdiv a b).toInt = (a.toInt.tdiv b.toInt).bmod (2 ^ 256) := by
  have ha := reads_ofWord a
  have hb := reads_ofWord b
  by_cases hzero : b = 0
  · subst hzero
    show (0 : ℤ) = (a.toInt.tdiv 0).bmod (2 ^ 256)
    rw [Int.tdiv_zero]
    rfl
  by_cases hleast : SignedWord.ofWord a = SignedWord.least ∧ (SignedWord.ofWord b).magnitude = 1
  · obtain ⟨hleast, hone⟩ := hleast
    rw [hleast] at ha
    obtain ⟨hdiv, hwraps⟩ := hb.div_least (toInt_ne_zero hzero) hone
    rw [sdiv, hleast, hdiv, ha.toInt_toWord, ha.unique SignedWord.least_reads, ← hwraps]
  · have hdiv := ha.div hb (toInt_ne_zero hzero) hleast
    rw [sdiv, hdiv.toInt_toWord, hdiv.bmod_eq]

/-- **Signed remainders** have the sign of the dividend. -/
lemma toInt_smod (a b : Word) :
    (smod a b).toInt = if b = 0 then 0 else a.toInt.tmod b.toInt := by
  simp only [smod]
  split
  · rfl
  · exact ((reads_ofWord a).rem (reads_ofWord b) (toInt_ne_zero ‹_›)).toInt_toWord

lemma toInt_ofBool (b : Bool) : (ofBool b).toInt = if b then 1 else 0 := by
  cases b <;> rfl

lemma toInt_slt (a b : Word) : (slt a b).toInt = if a.toInt < b.toInt then 1 else 0 := by
  simp only [slt, toInt_ofBool, (reads_ofWord a).lt_iff (reads_ofWord b)]

lemma toInt_sgt (a b : Word) : (sgt a b).toInt = if b.toInt < a.toInt then 1 else 0 := by
  simp only [sgt, toInt_ofBool, (reads_ofWord b).lt_iff (reads_ofWord a)]

/-- **Shifting with the sign** divides by a power of two, rounding down. -/
lemma toInt_sar (shift a : Word) : (sar shift a).toInt = a.toInt / 2 ^ shift.toNat := by
  have ha := reads_ofWord a
  have hpower : (2 ^ shift.toNat : ℤ) = ((2 ^ shift.toNat : ℕ) : ℤ) := by push_cast; rfl
  have hpos := Nat.two_pow_pos shift.toNat
  have hvast (h : 256 ≤ shift.toNat) : 2 ^ 256 ≤ 2 ^ shift.toNat :=
    Nat.pow_le_pow_right (by decide) h
  rw [hpower]
  simp only [sar]
  generalize SignedWord.ofWord a = value at ha
  generalize a.toInt = z at ha
  cases ha with
  | zero =>
      rw [if_pos (.inl rfl), Int.zero_ediv]
      rfl
  | @plus m pos lt =>
      split
      · rename_i hall
        have hbig := hvast (hall.resolve_left (by simp [SignedWord.zero]))
        rw [← Int.natCast_ediv, Nat.div_eq_of_lt (by omega)]
        rfl
      · have hle : m.toNat / 2 ^ shift.toNat ≤ m.toNat := Nat.div_le_self _ _
        have hshift : (m >>> shift.toNat).toNat = m.toNat / 2 ^ shift.toNat := by
          rw [BitVec.toNat_ushiftRight, Nat.shiftRight_eq_div_pow]
        show (m >>> shift.toNat).toInt = _
        rw [SignedWord.toInt_of_lt (by omega), hshift, Int.natCast_ediv]
  | @minus m pos le =>
      rw [SignedWord.neg_ediv_eq pos hpos]
      split
      · rename_i hall
        have hbig := hvast (hall.resolve_left (by simp [SignedWord.zero]))
        rw [Nat.div_eq_of_lt (by omega)]
        rfl
      · have hle : (m.toNat - 1) / 2 ^ shift.toNat ≤ m.toNat - 1 := Nat.div_le_self _ _
        have hshift := SignedWord.toNat_shifted pos le shift.toNat
        have hread := SignedWord.Reads.minus (m := ((m - 1) >>> shift.toNat) + 1)
          (by rw [hshift]; exact Nat.succ_pos _) (by rw [hshift]; omega)
        rw [← hshift]
        exact hread.toInt_toWord

/-- The bits below a position. -/
lemma getLsbD_power_sub_one (hp : p < 256) (i : ℕ) :
    (((1 : Word) <<< p) - 1).getLsbD i = decide (i < p) := by
  have hpower := toNat_one_shiftLeft hp
  have hmask : (((1 : Word) <<< p) - 1).toNat = 2 ^ p - 1 := by
    rw [← hpower]
    refine BitVec.toNat_sub_of_le ?_
    rw [BitVec.le_def, hpower]
    exact Nat.two_pow_pos p
  rw [BitVec.getLsbD, hmask, Nat.testBit_two_pow_sub_one]

/-- **Extending the sign** of the low bytes. -/
lemma signExtend_eq (hk : k.toNat < 32) (a : Word) :
    signExtend k a = (a.setWidth (8 * (k.toNat + 1))).signExtend 256 := by
  have hwidth : 8 * (k.toNat + 1) = 8 * k.toNat + 7 + 1 := by omega
  have hp : 8 * k.toNat + 7 < 256 := by omega
  simp only [signExtend, if_pos hk]
  rw [hwidth]
  generalize 8 * k.toNat + 7 = p at hp
  have hsign : (a.setWidth (p + 1)).msb = a.getLsbD p := by
    rw [BitVec.msb_eq_getLsbD_last, BitVec.getLsbD_setWidth, Nat.add_sub_cancel,
      decide_eq_true (Nat.lt_succ_self p), Bool.true_and]
  refine BitVec.eq_of_getLsbD_eq fun i hi => ?_
  rw [BitVec.getLsbD_signExtend, BitVec.getLsbD_setWidth, hsign, decide_eq_true hi, Bool.true_and]
  have hmask := getLsbD_power_sub_one hp i
  generalize ((1 : Word) <<< p) - 1 = mask at hmask
  -- The bit at `p` is the sign: it stands for itself and for all the bits above it.
  by_cases hset : a.getLsbD p = true
  · rw [if_pos hset, BitVec.getLsbD_or, BitVec.getLsbD_not, hmask, decide_eq_true hi, hset]
    rcases lt_trichotomy i p with hbelow | rfl | habove
    · simp [hbelow, Nat.lt_succ_of_lt hbelow]
    · simp [hset]
    · simp [habove.not_gt, Nat.not_lt.mpr habove]
  · rw [if_neg hset, BitVec.getLsbD_and, hmask, Bool.eq_false_iff.mpr hset]
    rcases lt_trichotomy i p with hbelow | rfl | habove
    · simp [hbelow, Nat.lt_succ_of_lt hbelow]
    · simp [hset]
    · simp [habove.not_gt, Nat.not_lt.mpr habove]

lemma toInt_signExtend (k a : Word) : (signExtend k a).toInt =
    if k.toNat < 32 then (a.setWidth (8 * (k.toNat + 1))).toInt else a.toInt := by
  split
  · rename_i hk
    rw [signExtend_eq hk, BitVec.toInt_signExtend, Nat.min_eq_right (by omega),
      BitVec.toInt_bmod_cancel]
  · rename_i hk
    rw [signExtend, if_neg hk]

end Word

/-- **Signed arithmetic is that of two's complement.**  A quotient is rounded toward zero and wraps
    around, which only the least number divided by minus one needs; divided by zero it is zero.  A
    remainder has the sign of the dividend and is zero modulo zero.  Comparisons are those of the
    integers.  A shift to the right by any number of bits is a quotient rounded down.  Extending
    reads the low bytes as a signed number, if there are so few.  And taking a word apart and
    putting it together again gives the same word. -/
theorem signed_arithmetic_is_twos_complement (a b s k : Word) :
    (⟨0x05⟩ : Opcode).ComputesInt [a, b] ((a.toInt.tdiv b.toInt).bmod (2 ^ 256)) ∧
    (⟨0x05⟩ : Opcode).ComputesInt [a, 0] 0 ∧
    (⟨0x05⟩ : Opcode).ComputesInt [BitVec.intMin 256, -1] (-2 ^ 255) ∧
    (⟨0x07⟩ : Opcode).ComputesInt [a, b] (if b = 0 then 0 else a.toInt.tmod b.toInt) ∧
    (⟨0x12⟩ : Opcode).ComputesInt [a, b] (if a.toInt < b.toInt then 1 else 0) ∧
    (⟨0x13⟩ : Opcode).ComputesInt [a, b] (if b.toInt < a.toInt then 1 else 0) ∧
    (⟨0x1d⟩ : Opcode).ComputesInt [s, a] (a.toInt.fdiv (2 ^ s.toNat)) ∧
    (⟨0x0b⟩ : Opcode).ComputesInt [k, a]
      (if k.toNat < 32 then (a.setWidth (8 * (k.toNat + 1))).toInt else a.toInt) ∧
    (SignedWord.ofWord a).toWord = a := by
  have hdiv (x y : Word) :
      (⟨0x05⟩ : Opcode).ComputesInt [x, y] ((x.toInt.tdiv y.toInt).bmod (2 ^ 256)) :=
    ⟨_, Opcode.computes_binary (f := .sdiv) rfl x y, Word.toInt_sdiv x y⟩
  have hshift : a.toInt.fdiv (2 ^ s.toNat) = a.toInt / 2 ^ s.toNat :=
    Int.fdiv_eq_ediv_of_nonneg _ (by positivity)
  refine ⟨hdiv a b, ?_, ?_, ?_, ?_, ?_, ?_, ?_, SignedWord.toWord_ofWord a⟩
  · have hzero := hdiv a 0
    rwa [show (0 : Word).toInt = 0 from rfl, Int.tdiv_zero] at hzero
  · exact hdiv (BitVec.intMin 256) (-1)
  · exact ⟨_, Opcode.computes_binary (f := .smod) rfl a b, Word.toInt_smod a b⟩
  · exact ⟨_, Opcode.computes_binary (f := .slt) rfl a b, Word.toInt_slt a b⟩
  · exact ⟨_, Opcode.computes_binary (f := .sgt) rfl a b, Word.toInt_sgt a b⟩
  · rw [hshift]
    exact ⟨_, Opcode.computes_binary (f := .sar) rfl s a, Word.toInt_sar s a⟩
  · exact ⟨_, Opcode.computes_binary (f := .signExtend) rfl k a, Word.toInt_signExtend k a⟩

end ResumableEvm
