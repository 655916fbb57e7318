import ResumableEvm.Proofs.CheckedPrice
import ResumableEvm.Proofs.PaidMemory

/-!
# The gas gate

Before an instruction has any effect its whole cost is held against the limit of the frame.  The
cost is reckoned in amounts that stop at the largest one.  Stopping there goes together with sums
and products: the amount of a sum is the sum of the amounts.  It does not go together with
division, and the price of memory divides a square.  So the gate is exact, except for a memory
whose square is beyond the largest amount under a limit that covers what the square was cut to.

* `Frame.exactWords`, `Frame.exactPrice`, `Frame.exactCost` — the cost as a natural number.
* `Frame.Overlooked` — a cost beyond the limit that passes the gate.
* `Frame.price_eq` — the price of an instruction is the amount of the exact one.
* `Frame.toNat_wordsNeeded` — the words are the exact ones, up to the words of all addresses.
* `Frame.charge_of_check` — past the check there is a charge.
* `Frame.gate_exact_unless_overlooked` — the gate is exact, with the one exception.
-/

namespace ResumableEvm

/-! ## Amounts of sums and products -/

namespace Gas

lemma ext_toNat {a b : Gas} (h : a.toNat = b.toNat) : a = b :=
  congrArg mk (BitVec.eq_of_toNat_eq h)

/-- Every amount is that of a natural number. -/
lemma ofNat_amount (a : Gas) : ofNat a.toNat = a := ofNat_toNat a.toWord

lemma ofNat_add (m n : ℕ) : ofNat m + ofNat n = ofNat (m + n) := by
  apply ext_toNat
  rw [toNat_add, toNat_ofNat, toNat_ofNat, toNat_ofNat]
  omega

lemma ofNat_mul (m n : ℕ) : ofNat m * ofNat n = ofNat (m * n) := by
  apply ext_toNat
  rw [toNat_mul, toNat_ofNat, toNat_ofNat, toNat_ofNat]
  rcases Nat.eq_zero_or_pos m with rfl | hm
  · simp
  rcases Nat.eq_zero_or_pos n with rfl | hn
  · simp
  -- if a factor was cut, the product is beyond the largest amount either way
  rcases le_total m maxWord with hm' | hm' <;> rcases le_total n maxWord with hn' | hn'
  · rw [min_eq_left hm', min_eq_left hn']
  · have hcut := Nat.le_mul_of_pos_left maxWord hm
    have hwhole := Nat.mul_le_mul_left m hn'
    rw [min_eq_left hm', min_eq_right hn', min_eq_right hcut, min_eq_right (hcut.trans hwhole)]
  · have hcut := Nat.le_mul_of_pos_right maxWord hn
    have hwhole := Nat.mul_le_mul_right n hm'
    rw [min_eq_right hm', min_eq_left hn', min_eq_right hcut, min_eq_right (hcut.trans hwhole)]
  · have hcut : maxWord ≤ maxWord * maxWord := Nat.le_mul_self maxWord
    have hwhole := Nat.mul_le_mul hm' hn'
    rw [min_eq_right hm', min_eq_right hn', min_eq_right hcut, min_eq_right (hcut.trans hwhole)]

end Gas

namespace Frame

variable {f : Frame} {chain : ChainView} {rs : Ruleset} {op : Opcode} {i : Instruction}
  {c : Charge} {price : ℕ}

/-! ## The exact cost -/

/-- The words of 32 bytes before the end of a region; an empty one needs none. -/
def regionWords (region : Word × Word) : ℕ :=
  if region.2 = 0 then 0 else (region.1.toNat + region.2.toNat + 31) / 32

/-- **The active words after an instruction:** those that memory has, and those before the end of
    every region that the instruction touches. -/
def exactWords (f : Frame) (i : Instruction) : ℕ :=
  (i.regions f.machine.stack).foldl (fun words region => max words (regionWords region))
    (f.machine.memory.effective / 32)

/-- The words that the length in an operand takes up. -/
def exactLength (f : Frame) (k : ℕ) : ℕ := ((f.operand k).toNat + 31) / 32

/-- Whether a frame that destroys itself brings the account it pays into being.  Where empty
    accounts exist, what it has to pay is not looked at. -/
def makesHeir (f : Frame) (chain : ChainView) : Except Requirement Bool :=
  let heir := Address.ofWord (f.operand 0)
  if chain.rules.accounts.emptyExists then f.makesAccount chain heir 0
  else f.overlay.balance f.context.address chain.log >>= f.makesAccount chain heir

/-- **The gas of an instruction,** apart from memory, as a natural number.  Where no sum or product
    is involved, it is the amount in the table. -/
def exactPrice (f : Frame) (chain : ChainView) (i : Instruction) : Except Requirement ℕ :=
  let rules := chain.rules
  match i with
  | .call kind => do
    let surcharge ← f.newAccountGas chain kind
    return rules.gasCall.toNat + (f.transferGas kind).toNat + surcharge.toNat
  | .selfDestruct => do
    let makes ← f.makesHeir chain
    return rules.gasSuicide.toNat + if makes then rules.gasSuicideNewAccount.toNat else 0
  | .keccak => .ok (30 + 6 * f.exactLength 1)
  | .log topics => .ok (375 + 8 * (f.operand 1).toNat + 375 * topics)
  | .extCodeCopy => .ok (rules.gasExtCode.toNat + 3 * f.exactLength 3)
  | .callDataCopy | .codeCopy | .returnDataCopy => .ok (3 + 3 * f.exactLength 2)
  | .binary .exp => .ok (10 + rules.gasExpByte.toNat * (((f.operand 1).bits + 7) / 8))
  | .create .bySalt => .ok (32000 + 6 * f.exactLength 2)
  | i => (f.price chain i).map Gas.toNat

/-- **The whole cost after an instruction of a given price:** memory, what was used before, and
    the price. -/
def exactCost (f : Frame) (i : Instruction) (price : ℕ) : ℕ :=
  3 * f.exactWords i + f.exactWords i * f.exactWords i / 512 + f.usedGas.toNat + price

/-- **A cost that is overlooked.**  It is beyond the limit, but for a memory whose square is beyond
    the largest amount.  With the square cut to the largest amount, and no more words than all
    addresses take up, the limit covers it. -/
structure Overlooked (f : Frame) (i : Instruction) (price : ℕ) : Prop where
  vast : 2 ^ 128 ≤ f.exactWords i
  covered : 3 * min (f.exactWords i) (2 ^ 251) + (2 ^ 247 - 1) + f.usedGas.toNat + price ≤ f.limit
  beyond : f.limit < f.exactCost i price

/-- Only limits that no chain has come near overlook anything. -/
lemma Overlooked.le_limit (h : f.Overlooked i price) : 2 ^ 247 ≤ f.limit := by
  have hvast := h.vast
  have hcovered := h.covered
  omega

/-! ## The price -/

/-- The words that a length takes up are far from the largest amount. -/
lemma lengthWords_eq (f : Frame) (k : ℕ) : f.lengthWords k = Gas.ofNat (f.exactLength k) := rfl

lemma selfDestructGas_eq (f : Frame) (chain : ChainView) :
    f.selfDestructGas chain = (f.makesHeir chain).map fun makes =>
      if makes then chain.rules.gasSuicide + chain.rules.gasSuicideNewAccount
      else chain.rules.gasSuicide := by
  have hmap : ∀ (r : Except Requirement Bool) (a b : Gas),
      (r >>= fun makes => if makes then pure a else pure b) =
        r.map fun makes => if makes then a else b := by
    intro r a b
    rcases r with e | (_ | _) <;> rfl
  simp only [selfDestructGas, makesHeir]
  split
  · exact hmap _ _ _
  · cases f.overlay.balance f.context.address chain.log with
    | error => rfl
    | ok value => exact hmap _ _ _

/-- **The price is the amount of the exact one.** -/
lemma price_eq (f : Frame) (chain : ChainView) (i : Instruction) :
    f.price chain i = (f.exactPrice chain i).map Gas.ofNat := by
  have hplain : ∀ r : Except Requirement Gas, r = (r.map Gas.toNat).map Gas.ofNat := by
    intro r
    cases r with
    | ok gas => exact congrArg Except.ok gas.ofNat_amount.symm
    | error => rfl
  cases i with
  | call kind =>
      simp only [price, exactPrice, callGas]
      cases f.newAccountGas chain kind with
      | error => rfl
      | ok surcharge =>
          show Except.ok _ = Except.ok _
          rw [← Gas.ofNat_add, ← Gas.ofNat_add, Gas.ofNat_amount, Gas.ofNat_amount,
            Gas.ofNat_amount]
  | selfDestruct =>
      show f.selfDestructGas chain = _
      rw [selfDestructGas_eq, exactPrice]
      rcases f.makesHeir chain with e | (_ | _)
      · rfl
      · exact congrArg Except.ok (Gas.ofNat_amount _).symm
      · show Except.ok (chain.rules.gasSuicide + chain.rules.gasSuicideNewAccount) = Except.ok _
        rw [if_pos rfl, ← Gas.ofNat_add, Gas.ofNat_amount, Gas.ofNat_amount]
  | keccak =>
      show Except.ok (Gas.ofNat 30 + Gas.ofNat 6 * _) = Except.ok _
      rw [lengthWords_eq, Gas.ofNat_mul, Gas.ofNat_add]
  | log topics =>
      show Except.ok (Gas.ofNat 375 + Gas.ofNat 8 * _ + Gas.ofNat 375 * _) = Except.ok _
      rw [← Gas.ofNat_toNat (f.operand 1), Gas.ofNat_mul, Gas.ofNat_mul, Gas.ofNat_add,
        Gas.ofNat_add]
  | extCodeCopy =>
      show Except.ok (chain.rules.gasExtCode + Gas.ofNat 3 * _) = Except.ok _
      rw [lengthWords_eq, Gas.ofNat_mul, ← Gas.ofNat_add, Gas.ofNat_amount]
  | callDataCopy | codeCopy | returnDataCopy =>
      show Except.ok (Gas.ofNat 3 + Gas.ofNat 3 * _) = Except.ok _
      rw [lengthWords_eq, Gas.ofNat_mul, Gas.ofNat_add]
  | binary o =>
      cases o with
      | exp =>
          show Except.ok (Gas.ofNat 10 + chain.rules.gasExpByte * _) = Except.ok _
          rw [← Gas.ofNat_add, ← Gas.ofNat_mul, Gas.ofNat_amount]
      | _ => exact hplain _
  | create kind =>
      cases kind with
      | bySalt =>
          show Except.ok (Gas.ofNat 32000 + Gas.ofNat 6 * _) = Except.ok _
          rw [lengthWords_eq, Gas.ofNat_mul, Gas.ofNat_add]
      | byNonce => exact hplain _
  | _ => exact hplain _

/-! ## The words -/

/-- A region is covered by its words, or by those of all addresses. -/
lemma toNat_expand (current : Gas) (region : Word × Word) :
    (expand current region.1 region.2).toNat =
      max current.toNat (min (regionWords region) (2 ^ 251)) := by
  simp only [expand, regionWords]
  split
  · simp
  · have hend : (Gas.mk region.1 + Gas.mk region.2).toNat =
        min (region.1.toNat + region.2.toNat) maxWord := Gas.toNat_add _ _
    have hall : (maxWord + 31) / 32 = 2 ^ 251 := by decide
    have hroom : 2 ^ 251 ≤ maxWord := by decide
    rw [Gas.toNat_max, Gas.ofByteLength, Gas.toNat_ofNat, hend]
    omega

/-- Over several regions it is the last of the words that counts. -/
lemma toNat_foldl_expand {regions : List (Word × Word)} {current : Gas} {words : ℕ}
    (h : current.toNat = min words (2 ^ 251)) :
    (regions.foldl (fun words region => expand words region.1 region.2) current).toNat =
      min (regions.foldl (fun words region => max words (regionWords region)) words)
        (2 ^ 251) := by
  induction regions generalizing current words with
  | nil => exact h
  | cons region regions ih =>
      have hregion : (expand current region.1 region.2).toNat =
          min (max words (regionWords region)) (2 ^ 251) := by
        rw [toNat_expand, h]
        omega
      exact ih hregion

/-- **The words are the exact ones,** up to the words of all addresses. -/
lemma PaidFor.toNat_wordsNeeded {rules : Rules} (h : f.PaidFor rules) (i : Instruction) :
    (f.wordsNeeded i).toNat = min (f.exactWords i) (2 ^ 251) := by
  have hbounded := h.bounded.trans (memoryLimit_le rules)
  have hindex : maxIndex < 2 ^ 64 := by decide
  have heffective := h.effective
  rw [wordsNeeded_eq, exactWords]
  exact toNat_foldl_expand (by omega)

/-! ## The gate -/

/-- Past the check everything that the charge reads is known. -/
lemma charge_of_check (h : f.check chain op = .ok ()) :
    ∃ c, f.charge chain op.instruction = .ok c := by
  have hdata : f.HasData chain op.instruction := hasData_of_checkKnown (check_parts.mp h).2.2.2.2
  have hmakes {a : Address} (ha : f.overlay.Knows a chain.log) (value : Word) :
      ∃ makes, f.makesAccount chain a value = .ok makes := by
    obtain ⟨there, hthere⟩ := ha.accountExists_ok
    obtain ⟨blank, hblank⟩ := ha.isEmpty_ok
    simp only [makesAccount, hthere, hblank]
    split
    · exact ⟨_, rfl⟩
    · split <;> exact ⟨_, rfl⟩
  obtain ⟨gas, hgas⟩ : ∃ gas, f.price chain op.instruction = .ok gas := by
    generalize op.instruction = i at hdata
    cases i with
    | call kind =>
        obtain ⟨makes, hvalue⟩ := hmakes hdata.2 (f.operand 2)
        cases kind <;> simp only [price, callGas, newAccountGas, hvalue, ok_bind] <;>
          exact ⟨_, rfl⟩
    | selfDestruct =>
        obtain ⟨balance, hbalance⟩ := hdata.1.balance_ok
        obtain ⟨makes, hheir⟩ : ∃ makes, f.makesHeir chain = .ok makes := by
          simp only [makesHeir, hbalance, ok_bind]
          split <;> exact hmakes hdata.2 _
        exact ⟨_, by rw [price, selfDestructGas_eq, hheir]; rfl⟩
    | sstore =>
        obtain ⟨current, hcurrent⟩ := hdata.2
        simp only [price, slotWrite, hcurrent, ok_bind]
        exact ⟨_, rfl⟩
    | binary o => cases o <;> exact ⟨_, rfl⟩
    | create kind => cases kind <;> exact ⟨_, rfl⟩
    | _ => exact ⟨_, rfl⟩
  obtain ⟨refund, hrefund⟩ : ∃ refund, f.refundOf chain op.instruction = .ok refund := by
    generalize op.instruction = i at hdata
    cases i with
    | sstore =>
        obtain ⟨current, hcurrent⟩ := hdata.2
        simp only [refundOf, slotWrite, hcurrent, ok_bind]
        exact ⟨_, rfl⟩
    | _ => exact ⟨_, rfl⟩
  simp only [charge, hgas, hrefund, ok_bind]
  exact ⟨_, rfl⟩

/-- The gate in natural numbers: only the square is still cut. -/
lemma closes_iff (hsat : f.limit < maxWord) (hprice : c.price = Gas.ofNat price) :
    f.context.gasLimit < f.gasAfter c ↔
      f.limit < 3 * c.words.toNat + min (c.words.toNat * c.words.toNat) maxWord / 512 +
        f.usedGas.toNat + price := by
  have hthree : (3 : Gas).toNat = 3 := by decide
  have hafter : (f.gasAfter c).toNat = min (3 * c.words.toNat +
      min (c.words.toNat * c.words.toNat) maxWord / 512 + f.usedGas.toNat + price) maxWord := by
    rw [gasAfter, hprice, memoryGas]
    simp only [Gas.toNat_add, Gas.toNat_mul, Gas.toNat_divNat, Gas.toNat_ofNat, hthree]
    omega
  show f.limit < (f.gasAfter c).toNat ↔ _
  omega

/-- A memory whose square can be represented is priced exactly. -/
lemma closes_iff_of_small (hsat : f.limit < maxWord) (hprice : c.price = Gas.ofNat price)
    (hwords : c.words.toNat = min (f.exactWords i) (2 ^ 251)) (hsmall : f.exactWords i < 2 ^ 128) :
    f.context.gasLimit < f.gasAfter c ↔ f.limit < f.exactCost i price := by
  have hsquare : f.exactWords i * f.exactWords i ≤ maxWord := by
    have hle : f.exactWords i ≤ 2 ^ 128 - 1 := by omega
    exact (Nat.mul_le_mul hle hle).trans (by decide)
  have hexact : c.words.toNat = f.exactWords i := by omega
  rw [closes_iff hsat hprice, hexact, min_eq_left hsquare, exactCost]

/-- The price of a vaster memory is cut. -/
lemma closes_iff_of_vast (hsat : f.limit < maxWord) (hprice : c.price = Gas.ofNat price)
    (hwords : c.words.toNat = min (f.exactWords i) (2 ^ 251)) (hvast : 2 ^ 128 ≤ f.exactWords i) :
    f.context.gasLimit < f.gasAfter c ↔
      f.limit < 3 * min (f.exactWords i) (2 ^ 251) + (2 ^ 247 - 1) + f.usedGas.toNat + price := by
  have hle : 2 ^ 128 ≤ c.words.toNat := by omega
  have hsquare : maxWord ≤ c.words.toNat * c.words.toNat :=
    le_trans (by decide) (Nat.mul_le_mul hle hle)
  have hcut : maxWord / 512 = 2 ^ 247 - 1 := by decide
  rw [closes_iff hsat hprice, min_eq_right hsquare, hcut, hwords]

/-- **The gate is exact** for every cost that is not overlooked. -/
lemma closes_iff_of_seen (hsat : f.limit < maxWord) (hprice : c.price = Gas.ofNat price)
    (hwords : c.words.toNat = min (f.exactWords i) (2 ^ 251)) (hseen : ¬ f.Overlooked i price) :
    f.context.gasLimit < f.gasAfter c ↔ f.limit < f.exactCost i price := by
  by_cases hsmall : f.exactWords i < 2 ^ 128
  · exact closes_iff_of_small hsat hprice hwords hsmall
  · have hvast : 2 ^ 128 ≤ f.exactWords i := Nat.le_of_not_lt hsmall
    have hsquare : 2 ^ 247 ≤ f.exactWords i * f.exactWords i / 512 := by
      rw [Nat.le_div_iff_mul_le (by decide)]
      exact le_trans (by decide) (Nat.mul_le_mul hvast hvast)
    rw [closes_iff_of_vast hsat hprice hwords hvast]
    constructor
    · intro hcut
      rw [exactCost]
      omega
    · intro hbeyond
      by_contra hcovered
      exact hseen ⟨hvast, Nat.le_of_not_lt hcovered, hbeyond⟩

/-! ## Behind the gate -/

/-- **What comes behind the gate:** the limit of memory, the gas that a call asks for, and memory
    that can be addressed. -/
def provide (f : Frame) (rules : Rules) (i : Instruction) (c : Charge) :
    Except ExitReason (Gas × Memory) :=
  let memoryEnd := c.words * 32
  if memoryEnd.toNat > rules.memoryLimit.toNat then .error (.fatal .notSupported)
  else
    let afterGas := f.context.gasLimit - f.gasAfter c
    if f.asksTooMuch rules i afterGas then .error (.error .outOfGas)
    else
      match f.machine.memory.resizeEnd memoryEnd.toNat with
      | .ok memory => .ok (afterGas, memory)
      | .error e => .error (.error e)

/-- A step of an instruction that the gate lets pass. -/
def stepBehindGate (f : Frame) (chain : ChainView) (op : Opcode) (c : Charge) :
    Frame × Except Interrupt (Option Event) :=
  match f.provide chain.rules op.instruction c with
  | .error reason => (f.exit reason, .ok none)
  | .ok (afterGas, memory) => conclude c ((f.withMemory memory).execute chain c.stipend afterGas)

lemma afford_eq (f : Frame) (rules : Rules) (i : Instruction) (c : Charge) :
    f.afford rules i c = if f.context.gasLimit < f.gasAfter c then .error (.error .outOfGas)
      else f.provide rules i c := rfl

/-- **A step of a checked instruction** ends at the gate or goes on behind it. -/
lemma AtOpcode.step_eq_gate (hat : f.AtOpcode chain op) (hcheck : f.check chain op = .ok ())
    (hcharge : f.charge chain op.instruction = .ok c) :
    f.step chain = if f.context.gasLimit < f.gasAfter c then (f.fail .outOfGas, .ok none)
      else f.stepBehindGate chain op c := by
  rw [hat.step_eq]
  by_cases hcloses : f.context.gasLimit < f.gasAfter c
  · have hafford : f.afford chain.rules op.instruction c = .error (.error .outOfGas) := by
      rw [afford_eq, if_pos hcloses]
    simp only [stepAt, hcheck, hcharge, reading_ok, hafford, if_pos hcloses, fail]
  · have hafford : f.afford chain.rules op.instruction c =
        f.provide chain.rules op.instruction c := by
      rw [afford_eq, if_neg hcloses]
    rcases hprovided : f.provide chain.rules op.instruction c with reason | ⟨left, memory⟩ <;>
      simp only [stepAt, hcheck, hcharge, reading_ok, hafford, if_neg hcloses, stepBehindGate,
        hprovided]

/-- A memory that is overlooked is beyond every limit of memory. -/
lemma Overlooked.stepBehindGate_eq (h : f.Overlooked op.instruction price)
    (hwords : c.words.toNat = min (f.exactWords op.instruction) (2 ^ 251)) :
    f.stepBehindGate chain op c = (f.exit (.fatal .notSupported), .ok none) := by
  have hvast := h.vast
  have hlimit := memoryLimit_le chain.rules
  have hindex : maxIndex < 2 ^ 128 := by decide
  have hroom : 2 ^ 128 ≤ maxWord := by decide
  have hbytes : (32 : Gas).toNat = 32 := by decide
  have hbeyond : (c.words * 32).toNat > chain.rules.memoryLimit.toNat := by
    rw [Gas.toNat_mul, hbytes]
    omega
  rw [stepBehindGate, provide, if_pos hbeyond]

end Frame

/-- Every frame of a run from a root comes about by the moves of frames. -/
lemma CallStack.Arises.frames {rs : Ruleset} {block : Header} {root : Context} {s : CallStack}
    (h : CallStack.Arises rs block root s) : ∀ f ∈ s.current :: s.waiting, f.Arises rs := by
  induction h with
  | call begun =>
      rintro f hf
      obtain rfl := List.mem_singleton.mp hf
      exact .moved (.created root _ _ []) (.called begun)
  | create begun =>
      rintro f hf
      obtain rfl := List.mem_singleton.mp hf
      exact .moved (.created root _ _ []) (.creating begun)
  | step before stepped ih => exact step_arises stepped ih

namespace Frame

open CallStack in
/-- **The gate is exact, unless a cost is overlooked.**  Every transaction past validation is a run
    of a call stack whose root was given less than the largest amount.  In every such run, when a
    frame is at an opcode that passes its check, there is an exact price.  The step ends out of gas
    at the gate or goes on behind it; and the gate is closed exactly when the exact cost is beyond
    the limit of the frame.  A cost that is overlooked is beyond the limit and passes the gate, and
    then the frame ends at the limit of memory. -/
theorem gate_exact_unless_overlooked (rs : Ruleset) (block : Header) :
    (∀ (t : Transaction) (e : Execution) (log : CommitLog),
      t.accept ⟨rs, block, log⟩ = .ok (.ok e) →
        ∃ root, root.gasLimit.toNat < maxWord ∧ CallStack.Arises rs block root e.calls) ∧
    ∀ (root : Context) (s : CallStack) (f : Frame) (op : Opcode) (log : CommitLog),
      CallStack.Arises rs block root s → root.gasLimit.toNat < maxWord →
        f ∈ s.current :: s.waiting → f.AtOpcode ⟨rs, block, log⟩ op →
          f.check ⟨rs, block, log⟩ op = .ok () →
            ∃ c price, f.charge ⟨rs, block, log⟩ op.instruction = .ok c ∧
              f.exactPrice ⟨rs, block, log⟩ op.instruction = .ok price ∧
              (f.step ⟨rs, block, log⟩ =
                if f.context.gasLimit < f.gasAfter c then (f.fail .outOfGas, .ok none)
                else f.stepBehindGate ⟨rs, block, log⟩ op c) ∧
              (¬ f.Overlooked op.instruction price →
                (f.context.gasLimit < f.gasAfter c ↔ f.limit < f.exactCost op.instruction price)) ∧
              (f.Overlooked op.instruction price →
                ¬ f.context.gasLimit < f.gasAfter c ∧
                  f.step ⟨rs, block, log⟩ = (f.exit (.fatal .notSupported), .ok none)) := by
  refine ⟨fun t e log h => exists_arises_of_accept h, ?_⟩
  intro root s f op log hs hroot hmem hat hcheck
  have hsat : f.limit < maxWord := ((hs.funded hroot).all_solvent f hmem).unsaturated
  have hpaid : f.PaidFor rs.rules := (hs.frames f hmem).paidFor
  obtain ⟨c, hcharge⟩ := charge_of_check hcheck
  obtain ⟨hwordsNeeded, hprice, -⟩ := charge_eq_ok hcharge
  rw [price_eq] at hprice
  obtain ⟨price, hexact, hamount⟩ := map_eq_ok.mp hprice
  have hwords : c.words.toNat = min (f.exactWords op.instruction) (2 ^ 251) :=
    hwordsNeeded ▸ hpaid.toNat_wordsNeeded op.instruction
  have hstep := hat.step_eq_gate hcheck hcharge
  refine ⟨c, price, hcharge, hexact, hstep, closes_iff_of_seen hsat hamount.symm hwords,
    fun hoverlooked => ?_⟩
  have hopen : ¬ f.context.gasLimit < f.gasAfter c := by
    rw [closes_iff_of_vast hsat hamount.symm hwords hoverlooked.vast]
    exact not_lt.mpr hoverlooked.covered
  rw [hstep, if_neg hopen]
  exact ⟨hopen, hoverlooked.stepBehindGate_eq hwords⟩

/-- Code that reads a word of memory at 2¹³⁶, under some gas limit. -/
def vastReader (limit : Gas) : Context :=
  ⟨100, 100, 200, ⟨#[0x71, 1, 0, 0, 0, 0, 0, 0, 0, 0, 0, 0, 0, 0, 0, 0, 0, 0, 0, 0x51]⟩,
    ByteArray.empty, limit, 1, 200, 0, 0, false⟩

/-- The call of that code, once it has begun. -/
def vastCall (limit : Gas) : CallStack :=
  .ofRoot ((create (vastReader limit) 0 (.empty .mainnet) .byzantium).beginCall revertingChain).1

/-- The call before it reads memory. -/
def vastRead (limit : Gas) : CallStack := ((vastCall limit).step revertingChain).1

lemma vastRead_arises {limit : Gas}
    (h : ((vastCall limit).step revertingChain).2.toOption.isSome = true) :
    CallStack.Arises .byzantium {} (vastReader limit) (vastRead limit) := by
  have hbegun : (create (vastReader limit) 0 (.empty .mainnet) .byzantium).beginCall
      revertingChain = ((vastCall limit).current, .ok ()) := by rfl
  rcases hs : (vastCall limit).step revertingChain with ⟨s, r | event⟩
  · rw [hs] at h
    cases h
  · rw [vastRead, hs]
    exact .step (.call hbegun) hs

/-- Under a limit of 1000 the read ends at the gate. -/
theorem vastRead_runs_out_of_gas :
    ∃ c, (vastRead 1000).current.charge revertingChain .mload = .ok c ∧
      (vastRead 1000).current.context.gasLimit < (vastRead 1000).current.gasAfter c ∧
        (vastRead 1000).current.step revertingChain =
          ((vastRead 1000).current.fail .outOfGas, .ok none) := by
  have harises := @vastRead_arises 1000 (by decide +kernel)
  have hat : (vastRead 1000).current.AtOpcode revertingChain ⟨0x51⟩ :=
    ⟨by decide +kernel, by decide +kernel, by decide +kernel⟩
  have hcheck : (vastRead 1000).current.check revertingChain ⟨0x51⟩ = .ok () := by rfl
  have hlimit : (vastRead 1000).current.limit = 1000 := by decide +kernel
  have hwords : (vastRead 1000).current.exactWords .mload = 2 ^ 131 + 1 := by decide +kernel
  obtain ⟨c, price, hcharge, -, hstep, hseen, -⟩ :=
    (gate_exact_unless_overlooked .byzantium {}).2 _ _ _ _ _ harises (by decide)
      List.mem_cons_self hat hcheck
  have hcloses := (hseen fun h => absurd h.le_limit (by rw [hlimit]; decide)).mpr (by
    show _ < exactCost _ .mload price
    rw [hlimit, exactCost, hwords]
    omega)
  exact ⟨c, hcharge, hcloses, hstep.trans (if_pos hcloses)⟩

/-- A limit of 2²⁵⁰. -/
def vastLimit : Gas := Gas.ofNat (2 ^ 250)

/-- **A cost beyond the limit that passes the gate.**  The word at 2¹³⁶ takes 2¹³¹ + 1 words of
    memory, of which the square over 512 is beyond 2²⁵³; under a limit of 2²⁵⁰ the gate is open. -/
theorem vastRead_passes_the_gate :
    CallStack.Arises .byzantium {} (vastReader vastLimit) (vastRead vastLimit) ∧
      (vastRead vastLimit).current.AtOpcode revertingChain ⟨0x51⟩ ∧
      (vastRead vastLimit).current.check revertingChain ⟨0x51⟩ = .ok () ∧
      ∃ c, (vastRead vastLimit).current.charge revertingChain .mload = .ok c ∧
        (vastRead vastLimit).current.exactPrice revertingChain .mload = .ok 3 ∧
        ¬ ((vastRead vastLimit).current.context.gasLimit <
            (vastRead vastLimit).current.gasAfter c ↔
          (vastRead vastLimit).current.limit <
            (vastRead vastLimit).current.exactCost .mload 3) := by
  have hbeyond : (vastRead vastLimit).current.limit <
      (vastRead vastLimit).current.exactCost .mload 3 := by decide +kernel
  have hopen : ¬ (vastRead vastLimit).current.context.gasLimit <
      (vastRead vastLimit).current.gasAfter ⟨Gas.ofNat (2 ^ 131 + 1), 3, 0, 0⟩ := by
    decide +kernel
  have hcharge : (vastRead vastLimit).current.charge revertingChain .mload =
      .ok ⟨Gas.ofNat (2 ^ 131 + 1), 3, 0, 0⟩ := by
    have hsome : ((vastRead vastLimit).current.charge revertingChain .mload).toOption =
        some ⟨Gas.ofNat (2 ^ 131 + 1), 3, 0, 0⟩ := by decide +kernel
    rcases hc : (vastRead vastLimit).current.charge revertingChain .mload with r | c
    · cases hc
    · rw [hc] at hsome
      exact congrArg Except.ok (Option.some.inj hsome)
  exact ⟨vastRead_arises (by decide +kernel),
    ⟨by decide +kernel, by decide +kernel, by decide +kernel⟩, by rfl, _, hcharge, by rfl,
    fun h => hopen (h.mpr hbeyond)⟩

end Frame

end ResumableEvm
