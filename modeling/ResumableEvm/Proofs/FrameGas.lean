import ResumableEvm.Proofs.Lifecycle

/-!
# The gas of a frame

A frame never uses more than its limit.  What a call or creation hands on is set aside: a call's
stipend was paid for in its price, so what the frame has used and the limit of the frame that it
asks for fit together under its own limit.  And what a frame has used never goes down.

* `Frame.spent`, `Frame.limit` — gas as natural numbers.
* `Frame.Solvent` — the invariant of a frame.
* `Frame.Stepped.spends`, `Frame.Begun.spends`, `Frame.Deposited.spends` — what a frame does keeps
  it and uses no gas back.
-/

namespace ResumableEvm

/-! ## Amounts -/

namespace Gas

lemma toNat_divNat (a : Gas) (n : ℕ) : (a.divNat n).toNat = a.toNat / n := by
  have h := toNat_ofNat (a.toNat / n)
  have hle := toNat_le a
  have hdiv := Nat.div_le_self a.toNat n
  simp only [divNat]
  omega

lemma le_iff {a b : Gas} : a ≤ b ↔ a.toNat ≤ b.toNat := Iff.rfl

lemma toNat_min (a b : Gas) : (min a b).toNat = min a.toNat b.toNat := by
  have h : min a b = if a ≤ b then a else b := rfl
  rw [h]
  split <;> rename_i hab <;> rw [le_iff] at hab <;> omega

lemma toNat_max (a b : Gas) : (max a b).toNat = max a.toNat b.toNat := by
  have h : max a b = if a ≤ b then b else a := rfl
  rw [h]
  split <;> rename_i hab <;> rw [le_iff] at hab <;> omega

lemma allBut64th_le (a : Gas) : a.allBut64th.toNat ≤ a.toNat := by
  simp only [allBut64th]
  rw [toNat_sub]
  omega

end Gas

/-- The frame that an instruction asks for. -/
def FrameControl.invoked? : FrameControl → Option Context
  | .invokeCall context _ _ | .invokeCreate context => some context
  | _ => none

namespace Frame

variable {f g : Frame} {chain : ChainView} {rs : Ruleset} {op : Opcode} {i : Instruction}
  {stipend afterGas : Gas} {control : FrameControl} {c : Charge}

/-- The gas used so far, for memory and otherwise. -/
def spent (f : Frame) : ℕ := (memoryGas f.memoryWords + f.usedGas).toNat

/-- The gas that the frame was given. -/
def limit (f : Frame) : ℕ := f.context.gasLimit.toNat

/-- **A frame that can pay.**  It has used no more than it was given, and what it hands on is left;
    no sum reaches the largest amount.  A contract without code uses nothing before its one
    step. -/
structure Solvent (rs : Ruleset) (f : Frame) : Prop where
  unsaturated : f.limit < maxWord
  bounded : f.spent ≤ f.limit
  funds : ∀ context, f.status.invoked? = some context →
    f.spent + context.gasLimit.toNat ≤ f.limit
  untouched : (rs.precompile? f.context.codeAddress).isSome →
    f.status.isExited = true ∨ f.status = .running ∧ f.spent = 0

/-! ## What counts as used -/

/-- Failing without reverting uses up the limit; else what was spent is what was used. -/
lemma totalUsedGas_cases (f : Frame) : f.totalUsedGas.toNat = f.spent ∨
    (∃ e, f.status = .exitedErr e) ∧ f.totalUsedGas.toNat = f.limit := by
  simp only [totalUsedGas]
  split
  · exact .inl rfl
  · exact .inr ⟨⟨_, ‹_›⟩, rfl⟩
  · exact .inl rfl

lemma Solvent.total_le (h : f.Solvent rs) : f.totalUsedGas.toNat ≤ f.limit := by
  have := h.bounded
  rcases f.totalUsedGas_cases with heq | ⟨-, heq⟩ <;> omega

lemma Solvent.spent_le (h : f.Solvent rs) : f.spent ≤ f.totalUsedGas.toNat := by
  have := h.bounded
  rcases f.totalUsedGas_cases with heq | ⟨-, heq⟩ <;> omega

lemma total_eq_spent (h : ∀ e, f.status ≠ .exitedErr e) : f.totalUsedGas.toNat = f.spent := by
  rcases f.totalUsedGas_cases with heq | ⟨⟨e, he⟩, -⟩
  · exact heq
  · exact absurd he (h e)

/-! ## Prices -/

/-- The price of memory goes up with its size. -/
lemma memoryGas_mono {a b : Gas} (h : a.toNat ≤ b.toNat) :
    (memoryGas a).toNat ≤ (memoryGas b).toNat := by
  have hsquare : a.toNat * a.toNat ≤ b.toNat * b.toNat := Nat.mul_le_mul h h
  have hlinear : (3 : Gas).toNat * a.toNat ≤ (3 : Gas).toNat * b.toNat := Nat.mul_le_mul_left _ h
  have hmin : min (a.toNat * a.toNat) maxWord ≤ min (b.toNat * b.toNat) maxWord := by omega
  have hdiv := Nat.div_le_div_right (c := 512) hmin
  simp only [memoryGas]
  simp only [Gas.toNat_add, Gas.toNat_mul, Gas.toNat_divNat]
  omega

lemma expand_ge (current : Gas) (offset len : Word) :
    current.toNat ≤ (expand current offset len).toNat := by
  simp only [expand]
  split
  · exact le_rfl
  · rw [Gas.toNat_max]
    exact le_max_left _ _

lemma cover_ge (f : Frame) (current : Gas) (offset len : ℕ) :
    current.toNat ≤ (f.cover current offset len).toNat :=
  expand_ge _ _ _

/-- Memory never shrinks. -/
lemma wordsNeeded_ge (f : Frame) (i : Instruction) :
    f.memoryWords.toNat ≤ (f.wordsNeeded i).toNat := by
  simp only [wordsNeeded]
  split
  case h_9 | h_10 | h_11 => exact expand_ge _ _ _
  case h_13 | h_14 | h_15 | h_16 => exact (cover_ge _ _ _ _).trans (cover_ge _ _ _ _)
  case h_17 => exact le_rfl
  all_goals exact cover_ge _ _ _ _

/-- A call that transfers value costs more than the stipend that it hands on. -/
lemma callGas_ge {kind : CallKind} {price : Gas} (h : f.callGas chain kind = .ok price) :
    (f.transferGas kind).toNat ≤ price.toNat := by
  obtain ⟨extra, -, h⟩ := bind_eq_ok.mp h
  cases h
  have := (f.transferGas kind).toNat_le
  simp only [Gas.toNat_add]
  omega

lemma stipend_le_price {price : Gas} (h : f.price chain i = .ok price) :
    (f.stipend i).toNat ≤ price.toNat := by
  have htransfer : (if f.operand 2 = 0 then (0 : Gas) else 2300).toNat ≤
      (if f.operand 2 = 0 then (0 : Gas) else 9000).toNat := by
    split <;> decide
  simp only [stipend]
  split
  · exact htransfer.trans (callGas_ge h)
  · exact htransfer.trans (callGas_ge h)
  · exact Nat.zero_le _

lemma charge_eq_ok (h : f.charge chain i = .ok c) :
    c.words = f.wordsNeeded i ∧ f.price chain i = .ok c.price ∧ c.stipend = f.stipend i := by
  obtain ⟨price, hprice, h⟩ := bind_eq_ok.mp h
  obtain ⟨refund, -, h⟩ := bind_eq_ok.mp h
  cases h
  exact ⟨rfl, hprice, rfl⟩

lemma refund_of_charge (h : f.charge chain i = .ok c) : f.refundOf chain i = .ok c.refund := by
  obtain ⟨price, -, h⟩ := bind_eq_ok.mp h
  obtain ⟨refund, hrefund, h⟩ := bind_eq_ok.mp h
  cases h
  exact hrefund

/-! ## Paying -/

/-- What is paid for fits under the limits of gas and memory. -/
lemma afford_eq_ok {rules : Rules} {memory : Memory}
    (h : f.afford rules i c = .ok (afterGas, memory)) :
    (f.gasAfter c).toNat + afterGas.toNat = f.limit ∧
      (c.words * 32).toNat ≤ rules.memoryLimit.toNat ∧
        f.machine.memory.resizeEnd (c.words * 32).toNat = .ok memory := by
  unfold afford at h
  split at h
  · cases h
  · rename_i hlimit
    have hle : ¬ f.context.gasLimit.toNat < (f.gasAfter c).toNat := hlimit
    dsimp only at h
    split at h
    · cases h
    · rename_i hmemory
      split at h
      · cases h
      · split at h
        · rename_i hresize
          cases h
          refine ⟨?_, Nat.le_of_not_lt hmemory, hresize⟩
          rw [Gas.toNat_sub]
          simp only [limit]
          omega
        · cases h

/-- **Paying.**  What is used once an instruction has been paid for, what the instruction hands on
    for free and what is left make up the limit. -/
lemma spent_book (hsat : f.limit < maxWord) (hs : c.stipend.toNat ≤ c.price.toNat)
    (hafford : (f.gasAfter c).toNat + afterGas.toNat = f.limit) (hused : g.usedGas = f.usedGas) :
    (g.book c).spent + c.stipend.toNat + afterGas.toNat = f.limit := by
  simp only [gasAfter] at hafford
  simp only [spent, book]
  simp only [Gas.toNat_add, Gas.toNat_sub, hused] at hafford ⊢
  omega

/-- Paying uses no gas back. -/
lemma spent_le_book (hwords : f.memoryWords.toNat ≤ c.words.toNat) (hused : g.usedGas = f.usedGas) :
    f.spent ≤ (g.book c).spent := by
  have := memoryGas_mono hwords
  simp only [spent, book]
  simp only [Gas.toNat_add, Gas.toNat_sub, hused]
  omega

/-! ## Instructions -/

/-- An instruction touches neither the gas nor the context of its frame. -/
lemma Effect.same (h : f.Effect chain stipend afterGas i g control) :
    g.usedGas = f.usedGas ∧ g.memoryWords = f.memoryWords ∧ g.context = f.context ∧
      g.status = f.status := by
  cases h <;> exact ⟨rfl, rfl, rfl, rfl⟩

lemma forwardable_le (rules : Rules) (afterGas : Gas) :
    (forwardable rules afterGas).toNat ≤ afterGas.toNat := by
  simp only [forwardable]
  split
  · exact Gas.allBut64th_le afterGas
  · exact le_rfl

lemma callContext_gasLimit (kind : CallKind) (parent : Context) (target : Address)
    (code input : Bytes) (gasLimit : Gas) (value : Word) :
    (callContext kind parent target code input gasLimit value).gasLimit = gasLimit := by
  cases kind <;> rfl

/-- A frame that is asked for gets no more than what is left and the stipend. -/
lemma Effect.invoked_le (h : f.Effect chain stipend afterGas i g control) {context : Context}
    (hc : control.invoked? = some context) :
    context.gasLimit.toNat ≤ stipend.toNat + afterGas.toNat := by
  have hforward := forwardable_le chain.rules afterGas
  cases h with
  | compute program stays =>
      rcases stays with rfl | ⟨reason, rfl⟩ <;> cases hc
  | store | log | destroy => cases hc
  | create =>
      cases hc
      show (forwardable chain.rules afterGas).toNat ≤ _
      omega
  | call =>
      cases hc
      rw [callContext_gasLimit, Gas.toNat_add, Gas.toNat_min]
      omega

/-! ## Steps -/

/-- **A move of a frame** that leaves it able to pay, uses no gas back and keeps its limit. -/
structure Spends (rs : Ruleset) (f g : Frame) : Prop where
  solvent : g.Solvent rs
  grows : f.totalUsedGas.toNat ≤ g.totalUsedGas.toNat
  context : g.context = f.context

/-- A frame that has ended hands on nothing. -/
lemma Solvent.of_exited (hsat : g.limit < maxWord) (hspent : g.spent ≤ g.limit)
    (hexited : g.status.isExited = true) : g.Solvent rs where
  unsaturated := hsat
  bounded := hspent
  funds context hc := by
    rw [FrameStatus.invoked?_eq_none hexited] at hc
    cases hc
  untouched _ := .inl hexited

/-- Ending a frame that has not failed. -/
lemma Solvent.exit (hf : f.Solvent rs) (hstatus : ∀ e, f.status ≠ .exitedErr e)
    (reason : ExitReason) : Spends rs f (f.exit reason) := by
  have hsolvent : (f.exit reason).Solvent rs :=
    .of_exited hf.unsaturated hf.bounded (FrameStatus.isExited_ofReason reason)
  refine ⟨hsolvent, ?_, rfl⟩
  rw [total_eq_spent hstatus]
  exact hsolvent.spent_le

lemma ne_exitedErr_of_running (hr : f.status = .running) (e : ExitError) :
    f.status ≠ .exitedErr e := by
  rw [hr]
  simp

/-- A contract without code runs on no more than its limit. -/
lemma Solvent.runPrecompile (hf : f.Solvent rs) (hr : f.status = .running) {p : Precompile}
    (hp : rs.precompile? f.context.codeAddress = some p) : Spends rs f (f.runPrecompile p) := by
  have huntouched : f.spent = 0 := by
    rcases hf.untouched (by rw [hp]; rfl) with hexited | ⟨-, hzero⟩
    · rw [hr] at hexited
      cases hexited
    · exact hzero
  simp only [Frame.runPrecompile]
  split
  · rename_i gas out hrun
    have hgas : gas.toNat ≤ f.limit := by
      simp only [Precompile.runWithin] at hrun
      split at hrun
      · cases hrun
      · rename_i hle
        obtain ⟨data, -, hrun⟩ := bind_eq_ok.mp hrun
        cases hrun
        exact Nat.le_of_not_lt hle
    have hspent : ({ f with usedGas := gas, out := out, status := .exitedOk } : Frame).spent =
        gas.toNat := by
      have := gas.toNat_le
      simp only [spent] at huntouched ⊢
      simp only [Gas.toNat_add] at huntouched ⊢
      omega
    have hsolvent : ({ f with usedGas := gas, out := out, status := .exitedOk } : Frame).Solvent
        rs := .of_exited hf.unsaturated (hspent ▸ hgas) rfl
    refine ⟨hsolvent, ?_, rfl⟩
    rw [total_eq_spent (ne_exitedErr_of_running hr), huntouched]
    exact Nat.zero_le _
  · exact hf.exit (ne_exitedErr_of_running hr) _

/-- What an instruction leads to is a status that asks for what the instruction asks for. -/
lemma follow_status (hr : f.status = .running) (control : FrameControl) :
    (f.follow control).status.invoked? = control.invoked? ∧
      ((f.follow control).status.isExited = true ∨
        (f.follow control).status = .running ∨ ∃ context, control.invoked? = some context) := by
  cases control with
  | proceed => exact ⟨by rw [follow, hr]; rfl, .inr (.inl hr)⟩
  | exit reason =>
      simp only [follow]
      split <;> cases reason <;> exact ⟨rfl, .inl rfl⟩
  | invokeCall context => exact ⟨rfl, .inr (.inr ⟨context, rfl⟩)⟩
  | invokeCreate context => exact ⟨rfl, .inr (.inr ⟨context, rfl⟩)⟩

/-- **A step of a frame** that can pay leaves it able to pay and uses no gas back. -/
lemma Stepped.spends (h : f.Stepped chain g) (hf : f.Solvent chain.ruleset) :
    Spends chain.ruleset f g := by
  cases h with
  | idle => exact ⟨hf, le_rfl, rfl⟩
  | precompile running contract => exact hf.runPrecompile running contract
  | past running =>
      refine ⟨.of_exited hf.unsaturated hf.bounded rfl, ?_, rfl⟩
      rw [total_eq_spent (ne_exitedErr_of_running running)]
      exact (total_eq_spent (f := { f with status := .exitedOk }) (by simp)).ge
  | refused running => exact hf.exit (ne_exitedErr_of_running running) _
  | unaffordable running => exact hf.exit (ne_exitedErr_of_running running) _
  | @executed g op c afterGas memory control running code checked charged afforded effect =>
      obtain ⟨hwords, hprice, hstipend⟩ := charge_eq_ok charged
      obtain ⟨hused, -, hcontext, hstatus⟩ := effect.same
      have hs : c.stipend.toNat ≤ c.price.toNat := hstipend ▸ stipend_le_price hprice
      have hpaid := spent_book hf.unsaturated hs (afford_eq_ok afforded).1 hused
      have hgrows : f.spent ≤ (g.book c).spent :=
        spent_le_book (hwords ▸ f.wordsNeeded_ge op.instruction) hused
      obtain ⟨hctx, hpaidGas, hpaidWords, -, -⟩ := (g.book c).follow_same control
      have hfollow : ((g.book c).follow control).spent = (g.book c).spent := by
        simp only [spent]
        rw [hpaidGas, hpaidWords]
      have hlimit : ((g.book c).follow control).limit = f.limit := by
        simp only [limit]
        rw [hctx]
        exact congrArg (fun context : Context => context.gasLimit.toNat) hcontext
      obtain ⟨hinvoked, hends⟩ := follow_status (f := g.book c) (hstatus.trans running) control
      have hsolvent : ((g.book c).follow control).Solvent chain.ruleset := by
        refine ⟨hlimit ▸ hf.unsaturated, by omega, fun context hc => ?_, fun hp => ?_⟩
        · have := effect.invoked_le (hinvoked.symm.trans hc)
          omega
        · have haddress : ((g.book c).follow control).context.codeAddress =
              f.context.codeAddress := congrArg Context.codeAddress (hctx.trans hcontext)
          rw [haddress, code] at hp
          cases hp
      refine ⟨hsolvent, ?_, hctx.trans hcontext⟩
      rw [total_eq_spent (ne_exitedErr_of_running running)]
      have := hsolvent.spent_le
      omega

/-! ## The life of a frame -/

/-- Gas and context are all that counts. -/
lemma Solvent.same (hf : f.Solvent rs) (hused : g.usedGas = f.usedGas)
    (hwords : g.memoryWords = f.memoryWords) (hcontext : g.context = f.context)
    (hstatus : g.status = f.status) : Spends rs f g := by
  have hspent : g.spent = f.spent := by
    simp only [spent]
    rw [hused, hwords]
  have hlimit : g.limit = f.limit := by
    simp only [limit]
    rw [hcontext]
  have htotal : g.totalUsedGas = f.totalUsedGas := by
    simp only [totalUsedGas]
    rw [hstatus, hused, hwords, hcontext]
  refine ⟨⟨hlimit ▸ hf.unsaturated, ?_, fun context hc => ?_, fun hp => ?_⟩, ?_, hcontext⟩
  · rw [hspent, hlimit]
    exact hf.bounded
  · rw [hspent, hlimit]
    exact hf.funds context (hstatus ▸ hc)
  · rw [hstatus, hspent]
    exact hf.untouched (hcontext ▸ hp)
  · rw [htotal]

lemma Spends.refl (hf : f.Solvent rs) : Spends rs f f := ⟨hf, le_rfl, rfl⟩

/-- A new frame has used nothing. -/
lemma Solvent.of_new (hsat : f.limit < maxWord) (hwords : f.memoryWords = 0) (hused : f.usedGas = 0)
    (hr : f.status = .running) : f.Solvent rs := by
  have hspent : f.spent = 0 := by
    simp only [spent]
    rw [hwords, hused]
    decide
  refine ⟨hsat, hspent ▸ Nat.zero_le _, fun context hc => ?_, fun _ => .inr ⟨hr, hspent⟩⟩
  rw [hr] at hc
  cases hc

/-- **Beginning** costs nothing; a collision uses up the limit. -/
lemma Begun.spends (h : f.Begun chain g) (hf : f.Solvent rs) (hr : f.status = .running) :
    Spends rs f g := by
  cases h with
  | call => exact hf.same rfl rfl rfl rfl
  | create => exact hf.same rfl rfl rfl rfl
  | collision => exact hf.exit (ne_exitedErr_of_running hr) _

/-- What is paid for out of what is left fits under the limit. -/
lemma spent_pay {cost : Gas} (hf : f.Solvent rs)
    (hleft : ¬ f.context.gasLimit - memoryGas f.memoryWords - f.usedGas < cost)
    (hused : g.usedGas = f.usedGas + cost) (hwords : g.memoryWords = f.memoryWords) :
    f.spent ≤ g.spent ∧ g.spent ≤ f.limit := by
  have hbounded := hf.bounded
  have hsat := hf.unsaturated
  have hcost : ¬ (f.context.gasLimit - memoryGas f.memoryWords - f.usedGas).toNat < cost.toNat :=
    hleft
  simp only [spent, limit] at hbounded hsat ⊢
  rw [hused, hwords]
  simp only [Gas.toNat_add, Gas.toNat_sub] at hbounded hcost ⊢
  omega

/-- **A deposit** is paid from what is left. -/
lemma Deposited.spends (h : f.Deposited chain g) (hf : f.Solvent rs) : Spends rs f g := by
  cases h with
  | skipped => exact .refl hf
  | failed ended => exact hf.exit (by simp [ended]) _
  | empty => exact hf.same rfl rfl rfl rfl
  | @paid overlay ended affordable =>
      have hpaid : ∀ g : Frame, g.usedGas = f.usedGas + depositGas f.out.size →
          g.memoryWords = f.memoryWords → g.context = f.context → g.status = f.status →
            Spends rs f g := by
        intro g hused hwords hcontext hstatus
        obtain ⟨hgrows, hbounded⟩ := spent_pay hf affordable hused hwords
        have hlimit : g.limit = f.limit := by
          simp only [limit]
          rw [hcontext]
        have hsolvent : g.Solvent rs := .of_exited (hlimit ▸ hf.unsaturated) (hlimit ▸ hbounded)
          (by rw [hstatus, ended]; rfl)
        refine ⟨hsolvent, ?_, hcontext⟩
        rw [total_eq_spent (by simp [ended])]
        exact hgrows.trans hsolvent.spent_le
      exact hpaid _ rfl rfl rfl rfl

end Frame

end ResumableEvm
