import ResumableEvm.Proofs.PaddedPower

/-!
# What modular exponentiation costs

The price of a modular exponentiation is a polynomial in the longer of base and modulus, times the
number of multiplications that the exponent takes, over twenty.  It is reckoned as written for
lengths of up to 2³².  Longer ones are given the largest amount of gas instead, which no limit
reaches; that changes nothing where the polynomial is beyond the limit as well.  It is not when
base and modulus are both empty: then a multiplication costs nothing, however many there are.

* `ModExp.statedPrice` — the price by the formula, for lengths of any size.
* `ModExp.Overlooked` — inputs that cost nothing and are turned away all the same.
* `ModExp.toNat_price` — for payable lengths the price is that of the formula.
* `ModExp.le_statedPrice` — for longer ones the formula is beyond any limit in use.
* `ModExp.price_exact_unless_overlooked` — so the price is exact, with the one exception.
-/

namespace ResumableEvm.ModExp

/-! ## The formula -/

/-- The cost of one multiplication of numbers of `x` bytes. -/
def multiplicationCost (x : ℕ) : ℤ :=
  if x ≤ 64 then x ^ 2
  else if x ≤ 1024 then x ^ 2 / 4 + 96 * x - 3072
  else x ^ 2 / 16 + 480 * x - 199680

/-- **The adjusted length of an exponent:** the position of the highest bit in its first 32 bytes,
    and eight more for each byte behind them. -/
def adjustedLength (length head : ℕ) : ℕ := 8 * (length - 32) + Nat.log 2 head

/-- The first 32 bytes of the exponent, or all of it. -/
def statedHead (data : Bytes) : ℕ :=
  data.numberAt (96 + (stated data).base) (min (stated data).exponent 32)

/-- The number of multiplications that are paid for. -/
def statedSteps (data : Bytes) : ℕ :=
  max (adjustedLength (stated data).exponent (statedHead data)) 1

/-- **The price by the formula,** for the lengths that the header states, rounded down. -/
def statedPrice (data : Bytes) : ℤ :=
  multiplicationCost (max (stated data).base (stated data).modulus) * statedSteps data / 20

/-- **Inputs that the price overlooks.**  Base and modulus are empty, so nothing is to be paid; but
    the exponent is longer than what is taken to be payable. -/
structure Overlooked (l : Lengths) : Prop where
  base : l.base = 0
  modulus : l.modulus = 0
  exponent : 2 ^ 32 < l.exponent

/-! ## The formula and the price -/

variable {data : Bytes} {limit : Gas}

lemma cast_complexity (x : ℕ) : (complexity x : ℤ) = multiplicationCost x := by
  rw [complexity, multiplicationCost, ← pow_two]
  split
  · push_cast
    rfl
  · split
    · rw [Nat.cast_sub (by omega)]
      push_cast
      rfl
    · rw [Nat.cast_sub (by omega)]
      push_cast
      rfl

lemma iterations_eq (length head : ℕ) : iterations length head = adjustedLength length head := by
  have hbits : (if head = 0 then 0 else Nat.log2 head) = Nat.log 2 head := by
    split
    · rename_i hzero
      rw [hzero, Nat.log_zero_right]
    · exact Nat.log2_eq_log_two
  simp only [iterations, adjustedLength, hbits]
  split
  · rw [Nat.sub_eq_zero_of_le ‹_›, Nat.mul_zero, Nat.zero_add]
  · rfl

lemma complexity_le {x : ℕ} (h : x ≤ 2 ^ 32) : complexity x ≤ 2 ^ 65 := by
  have hsquare : x * x ≤ 2 ^ 32 * 2 ^ 32 := Nat.mul_le_mul h h
  rw [complexity]
  split
  · omega
  · split <;> omega

lemma statedSteps_le (h : Payable (stated data)) : statedSteps data ≤ 2 ^ 36 := by
  have hhead : statedHead data < 2 ^ 256 :=
    (Bytes.numberAt_lt _ _ _).trans_le
      ((Nat.pow_le_pow_right (by decide) (min_le_right _ 32)).trans (by decide))
  have hlog : Nat.log 2 (statedHead data) < 256 := Nat.log_lt_of_lt_pow' (by decide) hhead
  have hexponent := h.exponent
  rw [statedSteps, adjustedLength]
  omega

/-- **For payable lengths the price is that of the formula:** nothing on the way to it comes near
    the largest amount of gas. -/
lemma toNat_price (h : Payable (stated data)) : ((price data).toNat : ℤ) = statedPrice data := by
  have hlonger : max (stated data).base (stated data).modulus ≤ 2 ^ 32 := max_le h.base h.modulus
  have hcost := complexity_le hlonger
  have hsteps := statedSteps_le h
  have hprice : price data =
      (Gas.ofNat (complexity (max (stated data).base (stated data).modulus))
        * Gas.ofNat (statedSteps data)).divNat 20 := by
    simp only [price, ofInput_eq, excessive_eq_false h, operand_eq_numberAt, iterations_eq]
    rfl
  have hproduct := Nat.mul_le_mul hcost hsteps
  have hroom : 2 ^ 65 * 2 ^ 36 ≤ maxWord := by decide
  have hcostRoom : 2 ^ 65 ≤ maxWord := by decide
  have hstepsRoom : 2 ^ 36 ≤ maxWord := by decide
  rw [hprice, Gas.divNat, Gas.toNat_ofNat, Gas.toNat_mul, Gas.toNat_ofNat, Gas.toNat_ofNat,
    min_eq_left (hcost.trans hcostRoom), min_eq_left (hsteps.trans hstepsRoom),
    min_eq_left (hproduct.trans hroom),
    min_eq_left ((Nat.div_le_self _ _).trans (hproduct.trans hroom)), statedPrice,
    ← cast_complexity]
  push_cast
  rfl

/-- A multiplication of numbers that are not empty costs something. -/
lemma le_multiplicationCost (x : ℕ) : (x : ℤ) ≤ multiplicationCost x := by
  have hsquare : (x : ℤ) ≤ x ^ 2 := by exact_mod_cast Nat.le_self_pow (by decide) x
  rw [multiplicationCost]
  split
  · exact hsquare
  · split <;> omega

lemma le_multiplicationCost_of_lt {x : ℕ} (h : 2 ^ 32 < x) : 2 ^ 35 ≤ multiplicationCost x := by
  have hsquare : (0 : ℤ) ≤ x ^ 2 := sq_nonneg _
  rw [multiplicationCost, if_neg (by omega), if_neg (by omega)]
  omega

/-- **Beyond the payable lengths the formula is beyond any limit in use:** one multiplication of
    such numbers costs that much, and so do the multiplications for such an exponent, if each
    costs anything. -/
lemma le_statedPrice (hpayable : ¬ Payable (stated data)) (hseen : ¬ Overlooked (stated data)) :
    2 ^ 30 ≤ statedPrice data := by
  have hsteps : (1 : ℤ) ≤ statedSteps data := by exact_mod_cast le_max_right _ _
  have hfew := le_multiplicationCost (max (stated data).base (stated data).modulus)
  rw [statedPrice, Int.le_ediv_iff_mul_le (by decide)]
  by_cases hlonger : 2 ^ 32 < max (stated data).base (stated data).modulus
  · have hcost := le_multiplicationCost_of_lt hlonger
    calc (2 : ℤ) ^ 30 * 20 ≤ 2 ^ 35 * 1 := by decide
      _ ≤ _ := mul_le_mul hcost hsteps (by decide) (le_trans (by decide) hcost)
  · have hexponent : 2 ^ 32 < (stated data).exponent := by
      by_contra hshort
      exact hpayable ⟨by omega, by omega, by omega⟩
    have hcost : 1 ≤ multiplicationCost (max (stated data).base (stated data).modulus) := by
      by_contra hfree
      exact hseen ⟨by omega, by omega, hexponent⟩
    have hmany : (2 : ℤ) ^ 30 * 20 ≤ statedSteps data := by
      have hadjusted : 2 ^ 30 * 20 ≤ statedSteps data := by
        rw [statedSteps, adjustedLength]
        omega
      exact_mod_cast hadjusted
    calc (2 : ℤ) ^ 30 * 20 ≤ 1 * statedSteps data := by rwa [one_mul]
      _ ≤ _ := mul_le_mul_of_nonneg_right hcost (by omega)

/-! ## The verdict -/

/-- Lengths that are not payable are given the largest amount of gas. -/
lemma price_eq_largest (h : ¬ Payable (stated data)) : price data = Gas.largest := by
  have hlongest : longest = 2 ^ 32 := by decide
  have hexcessive : (stated data).excessive = true := by
    rw [Lengths.excessive, decide_eq_true_eq]
    by_contra hshort
    exact h ⟨by omega, by omega, by omega⟩
  simp only [price, ofInput_eq, hexcessive, if_true]

lemma runWithin_eq (data : Bytes) (limit : Gas) :
    Precompile.runWithin .modExp data limit =
      if limit.toNat < (price data).toNat then .error .outOfGas
      else do return (price data, ← run data) := rfl

/-- Lengths that are not payable are turned away by every limit but the largest. -/
lemma runWithin_of_not_payable (h : ¬ Payable (stated data)) (hlimit : limit.toNat < maxWord) :
    Precompile.runWithin .modExp data limit = .error .outOfGas := by
  have hlargest : limit.toNat < (price data).toNat := by
    rw [price_eq_largest h, Gas.largest, Gas.toNat_ofNat, min_self]
    exact hlimit
  rw [runWithin_eq, if_pos hlargest]

lemma runWithin_of_payable (h : Payable (stated data)) :
    (limit.toNat < statedPrice data →
      Precompile.runWithin .modExp data limit = .error .outOfGas) ∧
    (statedPrice data ≤ limit.toNat →
      ∃ out, Precompile.runWithin .modExp data limit = .ok (price data, out)) := by
  have hprice := toNat_price h
  refine ⟨fun hlt => ?_, fun hle => ?_⟩
  · have hbeyond : limit.toNat < (price data).toNat := by omega
    rw [runWithin_eq, if_pos hbeyond]
  · have hwithin : ¬ limit.toNat < (price data).toNat := by omega
    rw [runWithin_eq, if_neg hwithin, run_eq_power h]
    exact ⟨_, rfl⟩

/-- **The price is exact, unless the input is overlooked.**  Under any limit below 2³⁰ the
    contract runs out of gas exactly when the formula, on the lengths as the header states them,
    comes to more than the limit; otherwise it answers and takes just that price.  An input that
    is overlooked costs nothing by the formula and is turned away. -/
theorem price_exact_unless_overlooked (data : Bytes) (limit : Gas) (hlimit : limit.toNat < 2 ^ 30) :
    (¬ Overlooked (stated data) →
      (Precompile.runWithin .modExp data limit = .error .outOfGas ↔
        (limit.toNat : ℤ) < statedPrice data) ∧
      (statedPrice data ≤ limit.toNat →
        ∃ gas out, Precompile.runWithin .modExp data limit = .ok (gas, out) ∧
          (gas.toNat : ℤ) = statedPrice data)) ∧
    (Overlooked (stated data) →
      statedPrice data = 0 ∧ Precompile.runWithin .modExp data limit = .error .outOfGas) := by
  have hword : limit.toNat < maxWord := hlimit.trans (by decide)
  refine ⟨fun hseen => ?_, fun hoverlooked => ⟨?_, ?_⟩⟩
  · by_cases hpayable : Payable (stated data)
    · obtain ⟨hbeyond, hwithin⟩ := @runWithin_of_payable data limit hpayable
      refine ⟨⟨fun herror => ?_, hbeyond⟩, fun hle => ?_⟩
      · by_contra hle
        obtain ⟨out, hout⟩ := hwithin (not_lt.mp hle)
        cases herror.symm.trans hout
      · obtain ⟨out, hout⟩ := hwithin hle
        exact ⟨_, out, hout, toNat_price hpayable⟩
    · have hprice := le_statedPrice hpayable hseen
      exact ⟨⟨fun _ => by omega, fun _ => runWithin_of_not_payable hpayable hword⟩,
        fun hle => by omega⟩
  · have hfree : multiplicationCost (max 0 0) = 0 := by decide
    rw [statedPrice, hoverlooked.base, hoverlooked.modulus, hfree, zero_mul, Int.zero_ediv]
  · exact runWithin_of_not_payable (fun h => absurd h.exponent (not_le.mpr hoverlooked.exponent))
      hword

/-- A base of five bytes, to the power zero, modulo a number of three bytes. -/
def smallPower : Bytes :=
  Bytes.ofNat 32 5 ++ Bytes.ofNat 32 1 ++ Bytes.ofNat 32 3 ++ Bytes.ofNat 9 0x0203

/-- One multiplication of five bytes is priced at 25 / 20, rounded down: one unit is enough. -/
theorem smallPower_costs_one :
    (0 < 2 ^ 30 ∧ Precompile.runWithin .modExp smallPower (Gas.ofNat 0) = .error .outOfGas) ∧
      1 < 2 ^ 30 ∧ ∃ gas out,
        Precompile.runWithin .modExp smallPower (Gas.ofNat 1) = .ok (gas, out) ∧
          (gas.toNat : ℤ) = 1 := by
  have hseen : ¬ Overlooked (stated smallPower) := fun h => absurd h.base (by decide +kernel)
  have hprice : statedPrice smallPower = 1 := by decide +kernel
  have hnone := price_exact_unless_overlooked smallPower (Gas.ofNat 0) (by decide)
  have hone := price_exact_unless_overlooked smallPower (Gas.ofNat 1) (by decide)
  refine ⟨⟨by decide, (hnone.1 hseen).1.mpr (by rw [hprice]; decide)⟩, by decide, ?_⟩
  rw [← hprice]
  exact (hone.1 hseen).2 (by rw [hprice]; decide)

/-- An empty base, an empty modulus and an exponent of one byte more than is taken to be
    payable. -/
def longExponent : Bytes :=
  Bytes.ofNat 32 0 ++ Bytes.ofNat 32 (2 ^ 32 + 1) ++ Bytes.ofNat 32 0

/-- **A price that is not that of the formula.**  The formula asks for nothing, but the contract
    runs out of gas under the highest limit below 2³⁰. -/
theorem longExponent_is_turned_away :
    statedPrice longExponent = 0 ∧
      ¬ (Precompile.runWithin .modExp longExponent (Gas.ofNat (2 ^ 30 - 1)) = .error .outOfGas ↔
        (2 ^ 30 - 1 : ℤ) < statedPrice longExponent) := by
  have hprice : statedPrice longExponent = 0 := by decide +kernel
  have hpayable : ¬ Payable (stated longExponent) := fun h =>
    absurd h.exponent (by decide +kernel)
  have haway : Precompile.runWithin .modExp longExponent (Gas.ofNat (2 ^ 30 - 1)) =
      .error .outOfGas := runWithin_of_not_payable hpayable (by decide)
  refine ⟨hprice, fun hiff => ?_⟩
  have hbeyond := hiff.mp haway
  rw [hprice] at hbeyond
  exact absurd hbeyond (by decide)

end ResumableEvm.ModExp
