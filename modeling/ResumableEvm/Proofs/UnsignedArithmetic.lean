import Mathlib.Data.BitVec
import Mathlib.Tactic
import ResumableEvm.Machine

/-!
# Unsigned arithmetic

A power is computed by squaring and multiplying, with words that wrap around all the way; a sum or
a product modulo a word is computed in twice the width and cut back.  Both come to what they come
to over all natural numbers: the power because wrapping around respects products, the remainders
because no sum and no product of two words leaves twice the width, and no remainder the width of
its modulus.

* `Opcode.Computes` — what an operation does to the stack of any machine.
* `Word.PowerState.round` — one round of the loop, and what it keeps.
* `Word.exp_rounds` — the power, after as many rounds as the exponent has binary digits.
* `Word.addMod_eq`, `Word.mulMod_eq` — the remainders.
-/

namespace ResumableEvm

/-! ## Operations on the stack -/

namespace Opcode

variable {op : Opcode} {operands : List Word}

/-- **What an operation computes.**  Any machine that stands before it takes the operands off its
    stack, the first from the top, puts the result in their place and goes on behind the byte. -/
def Computes (op : Opcode) (operands : List Word) (w : Word) : Prop :=
  ∀ (m : Machine) (rest : List Word) (p : ℕ), m.position = .ok p → m.nextOpcode? = some op →
    m.stack.items = operands ++ rest → rest.length < m.stack.limit →
      m.step = ({ m.withItems (w :: rest) with position := .ok (p + 1) }, none)

/-- An operation whose result is a certain number. -/
def ComputesNat (op : Opcode) (operands : List Word) (n : ℕ) : Prop :=
  ∃ w : Word, op.Computes operands w ∧ w.toNat = n

lemma computes_of_pushNext {w : Word}
    (h : ∀ (m : Machine) (rest : List Word) (p : ℕ), m.stack.items = operands ++ rest →
      m.evaluate op p = (m.withItems rest).pushNext w 1) : op.Computes operands w := by
  intro m rest p hposition hop hitems hroom
  have hpush : (m.withItems rest).pushNext w 1 = (m.withItems (w :: rest), .next 1) := by
    have hfits : (m.withItems rest).stack.push w = .ok ⟨w :: rest, m.stack.limit⟩ :=
      if_neg (Nat.not_lt.mpr hroom)
    rw [Machine.pushNext, hfits]
    rfl
  simp only [Machine.step, hposition, hop, h m rest p hitems, hpush]

lemma computes_binary {f : BinaryOp} (h : op.instruction = .binary f) (a b : Word) :
    op.Computes [a, b] (f.apply a b) :=
  computes_of_pushNext fun m rest p hitems => by
    simp [Machine.evaluate, h, Machine.binary, hitems]

lemma computes_ternary {f : TernaryOp} (h : op.instruction = .ternary f) (a b n : Word) :
    op.Computes [a, b, n] (f.apply a b n) :=
  computes_of_pushNext fun m rest p hitems => by
    simp [Machine.evaluate, h, Machine.ternary, hitems]

end Opcode

namespace Word

variable {a b n w : Word}

lemma toNat_ne_zero (h : w ≠ 0) : w.toNat ≠ 0 := fun hzero => h (BitVec.eq_of_toNat_eq hzero)

lemma toNat_one_shiftLeft {p : ℕ} (h : p < 256) : ((1 : Word) <<< p).toNat = 2 ^ p := by
  have hlt : 2 ^ p < 2 ^ 256 := Nat.pow_lt_pow_right (by decide) h
  have hone : (1 : Word).toNat = 1 := rfl
  rw [BitVec.toNat_shiftLeft, Nat.shiftLeft_eq, hone, one_mul, Nat.mod_eq_of_lt hlt]

/-! ## Powers -/

lemma bits_le (w : Word) : w.bits ≤ 256 := by
  by_cases hzero : w.toNat = 0
  · rw [bits, if_pos hzero]
    exact Nat.zero_le _
  · rw [bits, if_neg hzero]
    exact (Nat.log2_lt hzero).mpr w.isLt

/-- A word raised to a power wraps around like the power of the number. -/
lemma pow_eq_ofNat (w : Word) (e : ℕ) : w ^ e = ofNat (w.toNat ^ e) := by
  calc w ^ e = ((w.toNat : ℕ) : Word) ^ e := by rw [BitVec.natCast_eq_ofNat, BitVec.ofNat_toNat,
        BitVec.setWidth_eq]
    _ = ((w.toNat ^ e : ℕ) : Word) := (Nat.cast_pow _ _).symm
    _ = ofNat (w.toNat ^ e) := BitVec.natCast_eq_ofNat _ _

/-- What the loop of a power works on. -/
structure PowerState where
  /-- The running square. -/
  base : Word
  /-- The running product. -/
  acc : Word
  /-- What is left of the exponent. -/
  exponent : ℕ

namespace PowerState

variable {s : PowerState}

/-- **One round:** the lowest digit of the exponent goes, and the product takes in the square if
    that digit was one. -/
def round (s : PowerState) : PowerState where
  base := s.base * s.base
  acc := if s.exponent % 2 = 1 then s.acc * s.base else s.acc
  exponent := s.exponent / 2

/-- What the loop comes to from a state. -/
def result (s : PowerState) : Word := expLoop s.base s.acc s.exponent

/-- The loop goes on by rounds while there is an exponent left. -/
lemma result_round (h : s.exponent ≠ 0) : s.round.result = s.result := by
  symm
  rw [result, expLoop, if_neg h]
  rfl

lemma result_of_zero (h : s.exponent = 0) : s.result = s.acc := by
  rw [result, expLoop, if_pos h]

/-- **The invariant.**  A round does not change the power that is still to be multiplied in. -/
lemma round_power (s : PowerState) :
    s.round.acc * s.round.base ^ s.round.exponent = s.acc * s.base ^ s.exponent := by
  have hsplit : s.exponent = 2 * (s.exponent / 2) + s.exponent % 2 := (Nat.div_add_mod _ 2).symm
  have hsquare : (s.base * s.base) ^ (s.exponent / 2) = s.base ^ (2 * (s.exponent / 2)) := by
    rw [← pow_two, ← pow_mul]
  simp only [round, hsquare]
  split
  · rename_i hodd
    calc s.acc * s.base * s.base ^ (2 * (s.exponent / 2))
        = s.acc * s.base ^ (2 * (s.exponent / 2) + 1) := by ring
      _ = s.acc * s.base ^ s.exponent := by rw [← hodd, ← hsplit]
  · have heven : 2 * (s.exponent / 2) = s.exponent := by omega
    rw [heven]

lemma rounds_power (s : PowerState) (i : ℕ) :
    (round^[i] s).acc * (round^[i] s).base ^ (round^[i] s).exponent =
      s.acc * s.base ^ s.exponent := by
  induction i with
  | zero => rfl
  | succ i ih => rw [Function.iterate_succ_apply', round_power, ih]

lemma rounds_exponent (s : PowerState) (i : ℕ) :
    (round^[i] s).exponent = s.exponent / 2 ^ i := by
  induction i with
  | zero => simp
  | succ i ih =>
      rw [Function.iterate_succ_apply']
      show (round^[i] s).exponent / 2 = _
      rw [ih, Nat.div_div_eq_div_mul, pow_succ]

/-- As many rounds as the exponent has binary digits leave nothing of it, and no fewer do. -/
lemma rounds_exponent_eq_zero_iff {e : Word} (h : s.exponent = e.toNat) (i : ℕ) :
    (round^[i] s).exponent = 0 ↔ e.bits ≤ i := by
  rw [rounds_exponent, h, Nat.div_eq_zero_iff_lt (Nat.two_pow_pos i), bits]
  split
  · rename_i hzero
    simp [hzero]
  · rename_i hnonzero
    rw [Nat.succ_le_iff, Nat.log2_lt hnonzero]

/-- Rounds that the loop takes do not change what it comes to. -/
lemma result_rounds {i : ℕ} (h : ∀ j < i, (round^[j] s).exponent ≠ 0) :
    (round^[i] s).result = s.result := by
  induction i with
  | zero => rfl
  | succ i ih =>
      rw [Function.iterate_succ_apply', result_round (h i (Nat.lt_succ_self i)),
        ih fun j hj => h j (Nat.lt_succ_of_lt hj)]

end PowerState

/-- What the loop begins with. -/
def powerStart (a b : Word) : PowerState := ⟨a, 1, b.toNat⟩

/-- **The loop of a power** ends after as many rounds as the exponent has binary digits, with the
    power that wraps around. -/
lemma exp_rounds (a b : Word) :
    let last := PowerState.round^[b.bits] (powerStart a b)
    last.exponent = 0 ∧ last.acc = ofNat (a.toNat ^ b.toNat) ∧ exp a b = last.acc := by
  intro last
  have hleft (i : ℕ) := PowerState.rounds_exponent_eq_zero_iff
    (s := powerStart a b) (e := b) rfl i
  have hdone : last.exponent = 0 := (hleft b.bits).mpr le_rfl
  have hpower : last.acc * last.base ^ last.exponent = 1 * a ^ b.toNat :=
    PowerState.rounds_power (powerStart a b) b.bits
  have hresult : last.result = exp a b :=
    PowerState.result_rounds fun j hj hzero => Nat.not_le_of_lt hj ((hleft j).mp hzero)
  refine ⟨hdone, ?_, ?_⟩
  · rwa [hdone, pow_zero, mul_one, one_mul, pow_eq_ofNat] at hpower
  · rw [← hresult, PowerState.result_of_zero hdone]

/-! ## Remainders -/

@[simp] lemma toNat_widen (w : Word) : w.widen.toNat = w.toNat :=
  BitVec.toNat_setWidth_of_le (by decide)

/-- Twice the width has room for a sum. -/
lemma toNat_add_of_twice {w : ℕ} (a b : BitVec w) :
    (a.setWidth (w + w) + b.setWidth (w + w)).toNat = a.toNat + b.toNat := by
  have hroom : a.toNat + b.toNat < 2 ^ (w + w) := by
    have hle : 2 ^ w + 2 ^ w ≤ 2 ^ (w + w) + 1 := by
      have hpos := Nat.two_pow_pos w
      rw [Nat.pow_add]
      nlinarith
    have ha := a.isLt
    have hb := b.isLt
    omega
  rw [BitVec.toNat_add, BitVec.toNat_setWidth_of_le (Nat.le_add_left w w),
    BitVec.toNat_setWidth_of_le (Nat.le_add_left w w), Nat.mod_eq_of_lt hroom]

/-- Twice the width has room for a product. -/
lemma toNat_mul_of_twice {w : ℕ} (a b : BitVec w) :
    (a.setWidth (w + w) * b.setWidth (w + w)).toNat = a.toNat * b.toNat := by
  have hroom : a.toNat * b.toNat < 2 ^ (w + w) := by
    rw [Nat.pow_add]
    exact Nat.mul_lt_mul'' a.isLt b.isLt
  rw [BitVec.toNat_mul, BitVec.toNat_setWidth_of_le (Nat.le_add_left w w),
    BitVec.toNat_setWidth_of_le (Nat.le_add_left w w), Nat.mod_eq_of_lt hroom]

/-- Cutting leaves the remainder of the number. -/
lemma low_mod (x : BitVec 512) (n : Word) : low (x % n.widen) = ofNat (x.toNat % n.toNat) := by
  rw [low, ← BitVec.ofNat_toNat, BitVec.toNat_umod, toNat_widen]

lemma addMod_eq (a b n : Word) :
    addMod a b n = if n = 0 then 0 else ofNat ((a.toNat + b.toNat) % n.toNat) := by
  have hsum : (a.widen + b.widen).toNat = a.toNat + b.toNat := toNat_add_of_twice a b
  rw [addMod, low_mod, hsum]

lemma mulMod_eq (a b n : Word) :
    mulMod a b n = if n = 0 then 0 else ofNat (a.toNat * b.toNat % n.toNat) := by
  have hproduct : (a.widen * b.widen).toNat = a.toNat * b.toNat := toNat_mul_of_twice a b
  rw [mulMod, low_mod, hproduct]

/-- A remainder modulo a word is a word. -/
lemma toNat_remainder (m : ℕ) (n : Word) :
    (if n = 0 then 0 else ofNat (m % n.toNat)).toNat = if n = 0 then 0 else m % n.toNat := by
  split
  · rfl
  · rename_i hn
    have hpos : 0 < n.toNat := Nat.pos_of_ne_zero (toNat_ne_zero hn)
    rw [BitVec.toNat_ofNat, Nat.mod_eq_of_lt ((Nat.mod_lt _ hpos).trans n.isLt)]

end Word

/-- **Unsigned arithmetic is exact.**  The loop of a power ends after at most 256 rounds, just as
    many as leave nothing of the exponent, and what it comes to is the power of the numbers modulo
    `2 ^ 256`.  A sum and a product modulo a word are those of the numbers, without wrapping around
    before the remainder is taken, and zero modulo zero. -/
theorem unsigned_arithmetic_is_exact (a b n : Word) :
    (∃ rounds ≤ 256,
      (∀ i, (Word.PowerState.round^[i] (Word.powerStart a b)).exponent = 0 ↔ rounds ≤ i) ∧
        Word.exp a b = (Word.PowerState.round^[rounds] (Word.powerStart a b)).acc) ∧
    (⟨0x0a⟩ : Opcode).ComputesNat [a, b] (a.toNat ^ b.toNat % 2 ^ 256) ∧
    (⟨0x08⟩ : Opcode).ComputesNat [a, b, n]
      (if n = 0 then 0 else (a.toNat + b.toNat) % n.toNat) ∧
    (⟨0x09⟩ : Opcode).ComputesNat [a, b, n]
      (if n = 0 then 0 else a.toNat * b.toNat % n.toNat) := by
  obtain ⟨-, hacc, hexp⟩ := Word.exp_rounds a b
  refine ⟨⟨b.bits, Word.bits_le b, Word.PowerState.rounds_exponent_eq_zero_iff rfl, hexp⟩, ?_, ?_,
    ?_⟩
  · refine ⟨_, Opcode.computes_binary (f := .exp) rfl a b, ?_⟩
    show (Word.exp a b).toNat = _
    rw [hexp, hacc, BitVec.toNat_ofNat]
  · refine ⟨_, Opcode.computes_ternary (f := .addMod) rfl a b n, ?_⟩
    show (Word.addMod a b n).toNat = _
    rw [Word.addMod_eq, Word.toNat_remainder]
  · refine ⟨_, Opcode.computes_ternary (f := .mulMod) rfl a b n, ?_⟩
    show (Word.mulMod a b n).toNat = _
    rw [Word.mulMod_eq, Word.toNat_remainder]

end ResumableEvm
