import ResumableEvm.Proofs.UnsignedArithmetic

/-!
# Arithmetic that could fail

Words and indices of the machine have a width.  A sum that leaves it, a difference below zero, a
word that is taken for an index and is none: each would end the whole program, and not only the
transaction.  Here arithmetic is written with such operations, each of which says when it fails,
and shown to be the arithmetic of the machine.  So none of them ever fails.

* `Panic` — how an operation fails.
* `Word.checkedAdd`, `Word.checkedSub`, `asIndex` — operations that may.
* `SignedWord.Proper` — signed words whose magnitude fits their sign, so that they can be negated.
* `BinaryOp.checkedApply_eq`, `TernaryOp.checkedApply_eq` — arithmetic does not fail.
-/

namespace ResumableEvm

/-- **How an operation fails** that has no answer. -/
inductive Panic where
  /-- A result leaves its width. -/
  | overflow
  /-- A number is taken for an index that is none. -/
  | narrowing
  /-- A byte, an item or a region is not there. -/
  | outOfRange
  /-- A word is divided by zero. -/
  | divisionByZero
  deriving DecidableEq, Repr

@[simp] lemma ok_bind {ε α β : Type} (a : α) (k : α → Except ε β) : (Except.ok a >>= k) = k a := rfl

@[simp] lemma pure_eq_ok {ε α : Type} (a : α) : (pure a : Except ε α) = .ok a := rfl

@[simp] lemma map_ok {ε α β : Type} (f : α → β) (a : α) :
    (Except.ok a : Except ε α).map f = .ok (f a) := rfl

/-! ## Indices -/

/-- A number as an index. -/
def asIndex (n : ℕ) : Except Panic ℕ := if n ≤ maxIndex then .ok n else .error .narrowing

/-- The sum of two indices. -/
def addIndex (a b : ℕ) : Except Panic ℕ :=
  if a + b ≤ maxIndex then .ok (a + b) else .error .overflow

/-- The sum of two indices, the first of which is a position in something of the given size.  What
    has a place in memory has fewer than `2 ^ 63` parts, so numbers up to `2 ^ 63` more are
    indices. -/
def addNear (size a b : ℕ) : Except Panic ℕ :=
  if a + b ≤ size + 2 ^ 63 then .ok (a + b) else .error .overflow

/-- The difference of two indices. -/
def subIndex (a b : ℕ) : Except Panic ℕ := if b ≤ a then .ok (a - b) else .error .overflow

lemma asIndex_of_le {n : ℕ} (h : n ≤ maxIndex) : asIndex n = .ok n := if_pos h

lemma addIndex_of_le {a b : ℕ} (h : a + b ≤ maxIndex) : addIndex a b = .ok (a + b) := if_pos h

lemma addNear_of_le {size a b : ℕ} (h : a + b ≤ size + 256) : addNear size a b = .ok (a + b) :=
  if_pos (by omega)

lemma subIndex_of_le {a b : ℕ} (h : b ≤ a) : subIndex a b = .ok (a - b) := if_pos h

lemma asIndex_of_isIndex {w : Word} (h : w.isIndex = true) : asIndex w.toNat = .ok w.toNat :=
  if_pos (of_decide_eq_true h)

/-- A number below 256 is an index. -/
lemma asIndex_of_lt {n : ℕ} (h : n < 256) : asIndex n = .ok n :=
  if_pos (h.le.trans (by decide))

/-! ## Words -/

namespace Word

variable {a b n w : Word}

/-- The sum of two words. -/
def checkedAdd (a b : Word) : Except Panic Word :=
  if a.toNat + b.toNat ≤ maxWord then .ok (a + b) else .error .overflow

/-- The difference of two words. -/
def checkedSub (a b : Word) : Except Panic Word :=
  if b ≤ a then .ok (a - b) else .error .overflow

/-- The product of two words. -/
def checkedMul (a b : Word) : Except Panic Word :=
  if a.toNat * b.toNat ≤ maxWord then .ok (a * b) else .error .overflow

/-- The quotient of two words. -/
def checkedQuotient (a b : Word) : Except Panic Word :=
  if b = 0 then .error .divisionByZero else .ok (a / b)

/-- The remainder of two words. -/
def checkedRemainder (a b : Word) : Except Panic Word :=
  if b = 0 then .error .divisionByZero else .ok (a % b)

lemma checkedAdd_of_le (h : a.toNat + b.toNat ≤ maxWord) : a.checkedAdd b = .ok (a + b) := if_pos h

lemma checkedSub_of_le (h : b ≤ a) : a.checkedSub b = .ok (a - b) := if_pos h

lemma checkedMul_of_le (h : a.toNat * b.toNat ≤ maxWord) : a.checkedMul b = .ok (a * b) := if_pos h

lemma checkedQuotient_of_ne (h : b ≠ 0) : a.checkedQuotient b = .ok (a / b) := if_neg h

lemma checkedRemainder_of_ne (h : b ≠ 0) : a.checkedRemainder b = .ok (a % b) := if_neg h

/-! ### In numbers -/

lemma exists_checkedAdd (h : a.toNat + b.toNat ≤ maxWord) :
    ∃ w, a.checkedAdd b = .ok w ∧ w.toNat = a.toNat + b.toNat :=
  ⟨_, checkedAdd_of_le h,
    by rw [BitVec.toNat_add, Nat.mod_eq_of_lt (show _ < 2 ^ 256 from Nat.lt_succ_of_le h)]⟩

lemma exists_checkedSub (h : b.toNat ≤ a.toNat) :
    ∃ w, a.checkedSub b = .ok w ∧ w.toNat = a.toNat - b.toNat :=
  ⟨_, checkedSub_of_le h, BitVec.toNat_sub_of_le h⟩

lemma exists_checkedMul (h : a.toNat * b.toNat ≤ maxWord) :
    ∃ w, a.checkedMul b = .ok w ∧ w.toNat = a.toNat * b.toNat :=
  ⟨_, checkedMul_of_le h,
    by rw [BitVec.toNat_mul, Nat.mod_eq_of_lt (show _ < 2 ^ 256 from Nat.lt_succ_of_le h)]⟩

lemma exists_checkedQuotient (h : b ≠ 0) :
    ∃ w, a.checkedQuotient b = .ok w ∧ w.toNat = a.toNat / b.toNat :=
  ⟨_, checkedQuotient_of_ne h, BitVec.toNat_udiv⟩

/-- Every word but zero can be negated. -/
lemma checkedAdd_complement (h : w ≠ 0) : (~~~w).checkedAdd 1 = .ok (~~~w + 1) := by
  refine checkedAdd_of_le ?_
  have hw := toNat_ne_zero h
  have hlt := w.isLt
  simp only [BitVec.toNat_not, BitVec.ofNat_eq_ofNat, BitVec.toNat_ofNat, maxWord]
  omega

lemma complement_add_one_ne_zero (h : w ≠ 0) : ~~~w + 1 ≠ 0 := by
  intro hzero
  have hw := toNat_ne_zero h
  have hlt := w.isLt
  have := congrArg BitVec.toNat hzero
  simp only [BitVec.toNat_add, BitVec.toNat_not, BitVec.ofNat_eq_ofNat, BitVec.toNat_ofNat] at this
  omega

end Word

/-! ## Signed words -/

namespace SignedWord

variable {a b s : SignedWord}

/-- **A signed word whose magnitude fits its sign:** only zero has none. -/
def Proper (s : SignedWord) : Prop := s = zero ∨ s.magnitude ≠ 0

lemma Proper.magnitude_ne (h : s.Proper) (hsign : s.sign ≠ .zero) : s.magnitude ≠ 0 := by
  rcases h with rfl | h
  · exact absurd rfl hsign
  · exact h

def checkedOfWord (w : Word) : Except Panic SignedWord :=
  if w = 0 then .ok zero
  else if w &&& mask = w then .ok ⟨.plus, w⟩
  else do return ⟨.minus, ← (~~~w).checkedAdd 1⟩

def checkedToWord (s : SignedWord) : Except Panic Word :=
  match s.sign with
  | .zero => .ok 0
  | .plus => .ok s.magnitude
  | .minus => (~~~s.magnitude).checkedAdd 1

def checkedLeast : Except Panic SignedWord := do return ⟨.minus, ← mask.checkedAdd 1⟩

def checkedDiv (a b : SignedWord) : Except Panic SignedWord := do
  if b = zero then return zero
  let least ← checkedLeast
  if a = least ∧ b.magnitude = 1 then return least
  let quotient := (← a.magnitude.checkedQuotient b.magnitude) &&& mask
  return if quotient = 0 then zero
    else if a.sign = b.sign then ⟨.plus, quotient⟩ else ⟨.minus, quotient⟩

def checkedRem (a b : SignedWord) : Except Panic SignedWord := do
  if b.magnitude = 0 then return zero
  let remainder := (← a.magnitude.checkedRemainder b.magnitude) &&& mask
  return if remainder = 0 then zero else ⟨a.sign, remainder⟩

@[simp] lemma checkedOfWord_eq (w : Word) : checkedOfWord w = .ok (ofWord w) := by
  simp only [checkedOfWord, ofWord]
  split
  · rfl
  · rename_i hzero
    split
    · rfl
    · rw [Word.checkedAdd_complement hzero]
      rfl

lemma checkedToWord_eq (h : s.Proper) : s.checkedToWord = .ok s.toWord := by
  simp only [checkedToWord, toWord]
  cases hsign : s.sign with
  | zero | plus => rfl
  | minus => exact Word.checkedAdd_complement (h.magnitude_ne (by simp [hsign]))

lemma checkedLeast_eq : checkedLeast = .ok least := rfl

lemma checkedDiv_eq (h : b.Proper) : a.checkedDiv b = .ok (a.div b) := by
  simp only [checkedDiv, div, checkedLeast_eq, ok_bind]
  split
  · rfl
  · rename_i hzero
    split
    · rfl
    · rw [Word.checkedQuotient_of_ne (h.resolve_left hzero)]
      rfl

@[simp] lemma checkedRem_eq (a b : SignedWord) : a.checkedRem b = .ok (a.rem b) := by
  simp only [checkedRem, rem]
  split
  · rfl
  · rename_i hzero
    rw [Word.checkedRemainder_of_ne hzero]
    rfl

lemma ofWord_proper (w : Word) : (ofWord w).Proper := by
  simp only [ofWord]
  split
  · exact .inl rfl
  · rename_i hzero
    split
    · exact .inr hzero
    · exact .inr (Word.complement_add_one_ne_zero hzero)

lemma div_proper (a b : SignedWord) : (a.div b).Proper := by
  simp only [div]
  split
  · exact .inl rfl
  · split
    · exact .inr (by decide)
    · split
      · exact .inl rfl
      · split <;> exact .inr ‹_›

lemma rem_proper (a b : SignedWord) : (a.rem b).Proper := by
  simp only [rem]
  split
  · exact .inl rfl
  · split
    · exact .inl rfl
    · exact .inr ‹_›

end SignedWord

/-! ## Operations on words -/

namespace Word

/-- The largest number of 512 bits. -/
def maxWide : ℕ := (maxWord + 1) * (maxWord + 1) - 1

/-- A result of 512 bits. -/
def asWide (n : ℕ) : Except Panic ℕ := if n ≤ maxWide then .ok n else .error .overflow

/-- The remainder of numbers of 512 bits. -/
def wideRemainder (a n : ℕ) : Except Panic ℕ :=
  if n = 0 then .error .divisionByZero else .ok (a % n)

/-- The bit at an index. -/
def checkedBit (w : Word) (i : ℕ) : Except Panic Bool :=
  if i < 256 then .ok (w.getLsbD i) else .error .outOfRange

/-- The byte at an index, counted from the least significant. -/
def checkedByteAt (w : Word) (i : ℕ) : Except Panic Word :=
  if i < 32 then .ok ((w >>> (8 * i)) &&& 0xff) else .error .outOfRange

def checkedDiv (a b : Word) : Except Panic Word := if b = 0 then .ok 0 else a.checkedQuotient b

def checkedMod (a b : Word) : Except Panic Word := if b = 0 then .ok 0 else a.checkedRemainder b

def checkedSdiv (a b : Word) : Except Panic Word := do
  let a ← SignedWord.checkedOfWord a
  let b ← SignedWord.checkedOfWord b
  (← a.checkedDiv b).checkedToWord

def checkedSmod (a b : Word) : Except Panic Word := do
  if b = 0 then return 0
  let a ← SignedWord.checkedOfWord a
  let b ← SignedWord.checkedOfWord b
  (← a.checkedRem b).checkedToWord

def checkedSlt (a b : Word) : Except Panic Word := do
  let a ← SignedWord.checkedOfWord a
  let b ← SignedWord.checkedOfWord b
  return ofBool (a.lt b)

def checkedSgt (a b : Word) : Except Panic Word := do
  let a ← SignedWord.checkedOfWord a
  let b ← SignedWord.checkedOfWord b
  return ofBool (b.lt a)

def checkedAddMod (a b n : Word) : Except Panic Word := do
  if n = 0 then return 0
  let sum ← asWide (a.toNat + b.toNat)
  return ofNat (← wideRemainder sum n.toNat)

def checkedMulMod (a b n : Word) : Except Panic Word := do
  if n = 0 then return 0
  let product ← asWide (a.toNat * b.toNat)
  return ofNat (← wideRemainder product n.toNat)

def checkedSignExtend (k a : Word) : Except Panic Word := do
  if k.toNat < 32 then
    let position := 8 * k.toNat + 7
    let sign ← a.checkedBit position
    let low ← checkedSub ((1 : Word) <<< position) 1
    return if sign then a ||| ~~~low else a &&& low
  else return a

def checkedByte (i a : Word) : Except Panic Word := do
  if i.toNat < 32 then
    let fromTop ← asIndex i.toNat
    a.checkedByteAt (← subIndex 31 fromTop)
  else return 0

def checkedShl (shift a : Word) : Except Panic Word := do
  if a = 0 ∨ 256 ≤ shift.toNat then return 0
  return a <<< (← asIndex shift.toNat)

def checkedShr (shift a : Word) : Except Panic Word := do
  if a = 0 ∨ 256 ≤ shift.toNat then return 0
  return a >>> (← asIndex shift.toNat)

/-- The word that is as far below zero as `magnitude` is above. -/
def checkedNegative (magnitude : Word) : Except Panic Word :=
  (SignedWord.mk .minus magnitude).checkedToWord

def checkedSar (shift a : Word) : Except Panic Word := do
  let value ← SignedWord.checkedOfWord a
  if value = SignedWord.zero ∨ 256 ≤ shift.toNat then
    match value.sign with
    | .minus => checkedNegative 1
    | _ => return 0
  else
    let shift ← asIndex shift.toNat
    match value.sign with
    | .minus => checkedNegative (((value.magnitude - 1) >>> shift) + 1)
    | _ => return value.magnitude >>> shift

variable {a b n w : Word}

@[simp] lemma checkedDiv_eq (a b : Word) : a.checkedDiv b = .ok (a.div b) := by
  simp only [checkedDiv, div]
  split
  · rfl
  · exact checkedQuotient_of_ne ‹_›

@[simp] lemma checkedMod_eq (a b : Word) : a.checkedMod b = .ok (a.mod b) := by
  simp only [checkedMod, mod]
  split
  · rfl
  · exact checkedRemainder_of_ne ‹_›

@[simp] lemma checkedSdiv_eq (a b : Word) : a.checkedSdiv b = .ok (a.sdiv b) := by
  simp only [checkedSdiv, SignedWord.checkedOfWord_eq, ok_bind,
    SignedWord.checkedDiv_eq (SignedWord.ofWord_proper b),
    SignedWord.checkedToWord_eq (SignedWord.div_proper _ _), sdiv]

@[simp] lemma checkedSmod_eq (a b : Word) : a.checkedSmod b = .ok (a.smod b) := by
  simp only [checkedSmod, smod, SignedWord.checkedOfWord_eq, ok_bind, SignedWord.checkedRem_eq,
    SignedWord.checkedToWord_eq (SignedWord.rem_proper _ _)]
  split <;> rfl

@[simp] lemma checkedSlt_eq (a b : Word) : a.checkedSlt b = .ok (a.slt b) := by
  simp only [checkedSlt, slt, SignedWord.checkedOfWord_eq, ok_bind, pure_eq_ok]

@[simp] lemma checkedSgt_eq (a b : Word) : a.checkedSgt b = .ok (a.sgt b) := by
  simp only [checkedSgt, sgt, SignedWord.checkedOfWord_eq, ok_bind, pure_eq_ok]

lemma maxWide_eq : maxWide = maxWord * maxWord + 2 * maxWord := by
  have : (maxWord + 1) * (maxWord + 1) = maxWord * maxWord + 2 * maxWord + 1 := by ring
  simp only [maxWide]
  omega

/-- Two words have a sum of 512 bits. -/
lemma asWide_add (a b : Word) : asWide (a.toNat + b.toNat) = .ok (a.toNat + b.toNat) := by
  have ha := toNat_le_maxWord a
  have hb := toNat_le_maxWord b
  refine if_pos ?_
  rw [maxWide_eq]
  omega

/-- Two words have a product of 512 bits. -/
lemma asWide_mul (a b : Word) : asWide (a.toNat * b.toNat) = .ok (a.toNat * b.toNat) := by
  have hproduct : a.toNat * b.toNat ≤ maxWord * maxWord :=
    Nat.mul_le_mul (toNat_le_maxWord a) (toNat_le_maxWord b)
  refine if_pos ?_
  rw [maxWide_eq]
  omega

lemma wideRemainder_of_ne {m : ℕ} (h : n ≠ 0) :
    wideRemainder m n.toNat = .ok (m % n.toNat) := if_neg (toNat_ne_zero h)

@[simp] lemma checkedAddMod_eq (a b n : Word) : a.checkedAddMod b n = .ok (a.addMod b n) := by
  rw [addMod_eq]
  simp only [checkedAddMod, asWide_add, ok_bind]
  split
  · rfl
  · rw [wideRemainder_of_ne ‹_›]
    rfl

@[simp] lemma checkedMulMod_eq (a b n : Word) : a.checkedMulMod b n = .ok (a.mulMod b n) := by
  rw [mulMod_eq]
  simp only [checkedMulMod, asWide_mul, ok_bind]
  split
  · rfl
  · rw [wideRemainder_of_ne ‹_›]
    rfl

/-- A power of two is not zero, so one can be taken from it. -/
lemma checkedSub_power {i : ℕ} (h : i < 256) :
    checkedSub ((1 : Word) <<< i) 1 = .ok (((1 : Word) <<< i) - 1) := by
  refine checkedSub_of_le ?_
  rw [BitVec.le_def, toNat_one_shiftLeft h]
  exact Nat.two_pow_pos i

@[simp] lemma checkedSignExtend_eq (k a : Word) :
    k.checkedSignExtend a = .ok (k.signExtend a) := by
  simp only [checkedSignExtend, signExtend]
  split
  · rename_i hk
    have hposition : 8 * k.toNat + 7 < 256 := by omega
    rw [checkedBit, if_pos hposition, checkedSub_power hposition]
    rfl
  · rfl

@[simp] lemma checkedByte_eq (i a : Word) : i.checkedByte a = .ok (i.byte a) := by
  simp only [checkedByte, byte]
  split
  · rename_i hi
    rw [asIndex_of_lt (by omega), ok_bind, subIndex_of_le (by omega), ok_bind, checkedByteAt,
      if_pos (by omega)]
  · rfl

@[simp] lemma checkedShl_eq (shift a : Word) : shift.checkedShl a = .ok (shift.shl a) := by
  simp only [checkedShl, shl]
  split
  · rfl
  · rw [asIndex_of_lt (by omega)]
    rfl

@[simp] lemma checkedShr_eq (shift a : Word) : shift.checkedShr a = .ok (shift.shr a) := by
  simp only [checkedShr, shr]
  split
  · rfl
  · rw [asIndex_of_lt (by omega)]
    rfl

/-- What is not the largest word has a successor that is not zero. -/
lemma add_one_ne_zero (h : w.toNat < maxWord) : w + 1 ≠ 0 := by
  intro hzero
  have := congrArg BitVec.toNat hzero
  simp only [BitVec.toNat_add, BitVec.ofNat_eq_ofNat, BitVec.toNat_ofNat] at this
  simp only [maxWord] at h
  omega

lemma checkedNegative_eq (h : w ≠ 0) : checkedNegative w = .ok (SignedWord.mk .minus w).toWord :=
  SignedWord.checkedToWord_eq (.inr h)

/-- A shifted magnitude is below the largest word, so rounding it up does not give zero. -/
lemma shifted_ne_zero (h : w ≠ 0) (shift : ℕ) : ((w - 1) >>> shift) + 1 ≠ 0 := by
  refine add_one_ne_zero ?_
  have hw := toNat_ne_zero h
  have hlt := w.isLt
  have hless : (w - 1).toNat = w.toNat - 1 := by
    rw [BitVec.toNat_sub]
    simp only [BitVec.ofNat_eq_ofNat, BitVec.toNat_ofNat]
    omega
  rw [BitVec.toNat_ushiftRight, hless]
  have hshift : (w.toNat - 1) >>> shift ≤ w.toNat - 1 := by
    rw [Nat.shiftRight_eq_div_pow]
    exact Nat.div_le_self _ _
  simp only [maxWord]
  omega

@[simp] lemma checkedSar_eq (shift a : Word) : shift.checkedSar a = .ok (shift.sar a) := by
  simp only [checkedSar, sar, SignedWord.checkedOfWord_eq, ok_bind]
  have hproper := SignedWord.ofWord_proper a
  split
  · cases (SignedWord.ofWord a).sign with
    | minus => exact checkedNegative_eq (w := 1) (by decide)
    | zero | plus => rfl
  · rename_i hshift
    rw [asIndex_of_lt (by omega), ok_bind]
    cases hsign : (SignedWord.ofWord a).sign with
    | minus =>
        refine checkedNegative_eq (shifted_ne_zero ?_ _)
        exact hproper.magnitude_ne (by simp [hsign])
    | zero | plus => rfl

end Word

/-! ## Every operation -/

def BinaryOp.checkedApply : BinaryOp → Word → Word → Except Panic Word
  | .div, a, b => a.checkedDiv b
  | .sdiv, a, b => a.checkedSdiv b
  | .mod, a, b => a.checkedMod b
  | .smod, a, b => a.checkedSmod b
  | .signExtend, a, b => a.checkedSignExtend b
  | .slt, a, b => a.checkedSlt b
  | .sgt, a, b => a.checkedSgt b
  | .byte, a, b => a.checkedByte b
  | .shl, a, b => a.checkedShl b
  | .shr, a, b => a.checkedShr b
  | .sar, a, b => a.checkedSar b
  -- what wraps around, compares, or works bit by bit
  | op, a, b => .ok (op.apply a b)

def TernaryOp.checkedApply : TernaryOp → Word → Word → Word → Except Panic Word
  | .addMod, a, b, n => a.checkedAddMod b n
  | .mulMod, a, b, n => a.checkedMulMod b n

/-- **Arithmetic does not fail,** whatever the operands are. -/
@[simp] lemma BinaryOp.checkedApply_eq (op : BinaryOp) (a b : Word) :
    op.checkedApply a b = .ok (op.apply a b) := by
  cases op <;> simp [checkedApply, apply]

@[simp] lemma TernaryOp.checkedApply_eq (op : TernaryOp) (a b n : Word) :
    op.checkedApply a b n = .ok (op.apply a b n) := by
  cases op <;> simp [checkedApply, apply]

end ResumableEvm
