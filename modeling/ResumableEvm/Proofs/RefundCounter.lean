import ResumableEvm.Proofs.DestructionRefund
import ResumableEvm.Proofs.StackDiscipline

/-!
# The size of the refund counter

Under some rules a contract destroys itself for nothing and earns 24000 with it.  But it needs an
operand for that, and whatever puts one more item on a stack costs 2 units of gas.  So each item
on a stack stands for as much as it may earn one day, and what a frame has earned or lost, together
with what is still on its stack, is paid for by the gas that it has used: 12000 for each unit.

* `Frame.operands_paid`, `Frame.takes_of_earns` — what instructions cost and earn.
* `Frame.Backed` — refund and stack against the gas used.
* `Frame.Backed.step`, `Frame.Backed.resume` — what frames do keeps it.
* `CallStack.backed_preserved` — and so do call stacks.
* `refund_counter_never_overflows` — the counter in any run.
-/

namespace ResumableEvm

/-- **What a signed counter of 64 bits can hold.** -/
def FitsCounter (n : ℤ) : Prop := -2 ^ 63 ≤ n ∧ n < 2 ^ 63

namespace Frame

variable {f g ended parent sub : Frame} {chain : ChainView} {rs : Ruleset} {i : Instruction}
  {c : Charge} {price afterGas : Gas} {taken given : ℕ} {memory : Memory} {refund : ℤ}

/-! ## What instructions cost and earn -/

/-- **An instruction that gives more items than it takes** costs 2 units for the one more; any other
    has at least paid for the stipend that it hands on. -/
lemma operands_paid (harity : i.arity = some (taken, given))
    (hprice : f.price chain i = .ok price) :
    2 * given + (f.stipend i).toNat ≤ price.toNat + 2 * taken := by
  by_cases hmore : given ≤ taken
  · have := stipend_le_price hprice
    omega
  · cases i
    case query | callDataSize | codeSize | programCounter | memorySize | push =>
      cases harity
      cases hprice
      exact Nat.le_of_ble_eq_true rfl
    case dup n =>
      obtain ⟨rfl, rfl⟩ : n = taken ∧ n + 1 = given := by simpa [Instruction.arity] using harity
      cases hprice
      show 2 * (n + 1) + 0 ≤ 3 + 2 * n
      omega
    case create kind | call kind => cases kind <;> cases harity <;> omega
    all_goals
      cases harity
      try omega

/-- However a storage write is priced, it earns and loses no more than a destruction earns. -/
lemma SlotWrite.refund_le (w : SlotWrite) (net : Bool) : (w.refund net).natAbs ≤ 24000 := by
  obtain ⟨initial, current, value⟩ := w
  simp only [refund]
  split_ifs <;> decide

lemma refundOf_le (h : f.refundOf chain i = .ok refund) : refund.natAbs ≤ 24000 := by
  cases i with
  | sstore =>
      obtain ⟨w, -, rfl⟩ := map_eq_ok.mp h
      exact w.refund_le _
  | selfDestruct =>
      rw [← Except.ok.inj h]
      split <;> decide
  | _ =>
      cases h
      decide

/-- **What earns or loses a refund** takes an operand for it, gives nothing back on the stack and
    hands on nothing. -/
lemma takes_of_earns (harity : i.arity = some (taken, given))
    (hrefund : f.refundOf chain i = .ok refund) (hearns : refund ≠ 0) :
    f.stipend i = 0 ∧ given = 0 ∧ 0 < taken := by
  cases i with
  | sstore | selfDestruct =>
      cases harity
      exact ⟨rfl, rfl, by decide⟩
  | _ => exact absurd (Except.ok.inj hrefund).symm hearns

/-- **A charge pays for its refund** and for the items that its instruction leaves, out of its price
    and of the items that the instruction takes. -/
lemma charge_backs (harity : i.arity = some (taken, given)) (hcharged : f.charge chain i = .ok c) :
    c.refund.natAbs + 24000 * given + 12000 * c.stipend.toNat ≤
      12000 * c.price.toNat + 24000 * taken := by
  obtain ⟨-, hprice, hstipend⟩ := charge_eq_ok hcharged
  have hpaid := operands_paid harity hprice
  rw [← hstipend] at hpaid
  by_cases hearns : c.refund = 0
  · rw [hearns, Int.natAbs_zero]
    omega
  · have hrefund := refund_of_charge hcharged
    have hbound := refundOf_le hrefund
    obtain ⟨hnone, rfl, htakes⟩ := takes_of_earns harity hrefund hearns
    have hzero : c.stipend.toNat = 0 := by rw [hstipend, hnone]; rfl
    omega

/-! ## Frames -/

/-- **A refund that is backed by gas.**  Each unit of gas used, memory apart, stands for 12000, and
    each item on the stack may still earn 24000. -/
def Backed (f : Frame) : Prop :=
  f.refund.natAbs + 24000 * f.machine.stack.size ≤ 12000 * f.usedGas.toNat

/-- Nothing has been earned and nothing is on the stack. -/
lemma Backed.of_new (hrefund : f.refund = 0) (hstack : f.machine.stack.size = 0) : f.Backed := by
  simp only [Backed, hrefund, hstack]
  omega

lemma Backed.mono (h : f.Backed) (hrefund : g.refund = f.refund) (hheight : f.SameHeight g)
    (hused : f.usedGas.toNat ≤ g.usedGas.toNat) : g.Backed := by
  simp only [Backed, hrefund, hheight.size] at h ⊢
  omega

/-- The gas that counts for a refund is part of what the frame has used. -/
lemma Solvent.used_le (h : f.Solvent rs) : f.usedGas.toNat ≤ f.totalUsedGas.toNat := by
  refine le_trans ?_ h.spent_le
  have := f.usedGas.toNat_le
  simp only [spent, Gas.toNat_add]
  omega

/-- **The refund of a frame** is at most 12000 for each unit of gas that it has used. -/
lemma Backed.refund_le (h : f.Backed) (hsolvent : f.Solvent rs) :
    f.refund.natAbs ≤ 12000 * f.totalUsedGas.toNat := by
  have := hsolvent.used_le
  simp only [Backed] at h
  omega

/-- What a charge that can be paid adds to the refund is backed with the rest. -/
lemma Backed.charged (h : f.Backed) (harity : i.arity = some (taken, given))
    (henough : taken ≤ f.machine.stack.size) (hcharged : f.charge chain i = .ok c) :
    (f.refund + c.refund).natAbs + 24000 * (f.machine.stack.size - taken + given) +
        12000 * c.stipend.toNat ≤
      12000 * (f.usedGas.toNat + c.price.toNat) := by
  have hbacks := charge_backs harity hcharged
  have hsum := Int.natAbs_add_le f.refund c.refund
  simp only [Backed] at h
  omega

/-- Within its limit a frame adds up its gas exactly. -/
lemma afford_exact (hsolvent : f.Solvent rs) {rules : Rules}
    (hafforded : f.afford rules i c = .ok (afterGas, memory)) :
    f.usedGas.toNat + c.price.toNat ≤ f.limit := by
  have hsat := hsolvent.unsaturated
  have hfits := (afford_eq_ok hafforded).1
  simp only [gasAfter, Gas.toNat_add] at hfits
  omega

/-- **A step keeps a refund backed.** -/
lemma Backed.step (h : f.Backed) (hsolvent : f.Solvent chain.ruleset) {event : Option Event}
    (hstep : f.step chain = (g, .ok event)) : g.Backed := by
  cases step_stepped hstep with
  | idle => exact h
  | past | refused | unaffordable => exact h.mono rfl (.of_stack rfl) le_rfl
  | precompile running contract =>
      -- a contract without code has used nothing before, so it has neither refund nor items
      have huntouched : f.usedGas.toNat = 0 := by
        rcases hsolvent.untouched (by rw [contract]; rfl) with hexited | ⟨-, hnone⟩
        · rw [running] at hexited
          cases hexited
        · have := f.usedGas.toNat_le
          simp only [spent, Gas.toNat_add] at hnone
          omega
      refine h.mono (runPrecompile_traces f _).refund (.of_stack ?_) (by omega)
      simp only [runPrecompile]
      split <;> rfl
  | @executed k op c afterGas memory control running code checked charged afforded effect next =>
      have hcleared : f.Cleared chain op c afterGas memory := ⟨checked, charged, afforded⟩
      obtain ⟨taken, given, harity, hcheck⟩ := hcleared.exists_arity
      have hsize : ((k.book c).follow control).machine.stack.size =
          f.machine.stack.size - taken + given := by
        rcases hcleared.step_leaves ⟨running, code, next⟩ harity hcheck with
          ⟨g', event', hstep', hsize, -⟩ | ⟨-, -, g', fault, hstep'⟩
        · obtain rfl := congrArg Prod.fst (hstep.symm.trans hstep')
          exact hsize
        · cases hstep.symm.trans hstep'
      have hrefund : ((k.book c).follow control).refund = f.refund + c.refund := by
        rw [(follow_traces (k.book c) control).refund, book, effect.refund_eq]
        rfl
      have hused : ((k.book c).follow control).usedGas =
          f.usedGas + (c.price - c.stipend) := by
        rw [((k.book c).follow_same control).2.1, book, effect.same.1]
        rfl
      have hpaid := h.charged harity (check_eq_ok.mp hcheck).1 charged
      have hexact := afford_exact hsolvent afforded
      have hsat := hsolvent.unsaturated
      simp only [Backed, hsize, hrefund, hused, Gas.toNat_add, Gas.toNat_sub]
      omega

lemma Begun.backed (h : f.Begun chain g) (hf : f.Backed) : g.Backed := by
  cases h with
  | call | create | collision => exact hf.mono rfl (.of_stack rfl) le_rfl

/-- A frame begins with nothing. -/
lemma derive_backed (f : Frame) (context : Context) (rules : Rules) :
    (f.derive context rules).Backed := .of_new rfl rfl

lemma Deposited.refund_eq (h : f.Deposited chain g) : g.refund = f.refund := by
  cases h <;> rfl

lemma Deposited.backed (h : f.Deposited chain g) (hf : f.Backed) : g.Backed := by
  refine hf.mono h.refund_eq h.height ?_
  cases h with
  | paid =>
      have := f.usedGas.toNat_le
      simp only [Gas.toNat_add]
      omega
  | skipped | failed | empty => exact le_rfl

/-- **Going back** keeps a refund backed: what is taken over is backed by the gas that is. -/
lemma Backed.resume {context : Context} (h : f.Backed) (hsub : sub.Backed) (hf : f.Solvent rs)
    (hs : sub.Solvent rs) (hasked : f.status.invoked? = some context)
    (hgiven : sub.context = context) (region : Option (Word × Word)) :
    (f.resume sub region).Backed := by
  have hused : (f.resume sub region).usedGas.toNat =
      f.usedGas.toNat + sub.totalUsedGas.toNat := by
    rw [(f.keeps_resume sub region).usedGas]
    exact toNat_usedGas_add hf hs hasked hgiven
  have hsize := (f.resume_height sub region).size
  have hearned := hsub.refund_le hs
  have hsum := Int.natAbs_add_le f.refund sub.refund
  rcases f.resume_traces sub region with ⟨-, htraces⟩ | ⟨-, htraces⟩
  · simp only [Backed, htraces.refund, hsize, hused] at h ⊢
    omega
  · have hrefund : (f.resume sub region).refund = f.refund + sub.refund := htraces.refund
    simp only [Backed, hrefund, hsize, hused] at h ⊢
    omega

end Frame

/-! ## Call stacks -/

namespace CallStack

variable {s s' : CallStack} {chain : ChainView} {rs : Ruleset} {budget : ℕ} {f : Frame}

/-- **Call stacks on a budget,** with refunds that are backed. -/
structure Backed (rs : Ruleset) (budget : ℕ) (s : CallStack) : Prop where
  funded : s.Funded rs budget
  frames : ∀ f ∈ s.current :: s.waiting, f.Backed

lemma Backed.current (h : s.Backed rs budget) : s.current.Backed := h.frames _ List.mem_cons_self

lemma Backed.step (h : s.Backed chain.ruleset budget) {event : Option Event}
    (hs : s.step chain = (s', .ok event)) : s'.Backed chain.ruleset budget := by
  have hstepped := step_stepped hs
  refine ⟨(hstepped.spends h.funded).1, ?_⟩
  have hsolvent := Frame.Funded.solvent h.funded
  have hwaiting := (List.forall_mem_cons.mp h.frames).2
  cases hstepped with
  | ran running =>
      rcases hstep : s.current.step chain with ⟨g, result⟩
      simp only [step, running, hstep] at hs
      cases hs
      exact List.forall_mem_cons.mpr ⟨h.current.step hsolvent hstep, hwaiting⟩
  | entered asked begun =>
      exact List.forall_mem_cons.mpr ⟨begun.backed (s.current.derive_backed _ _), h.frames⟩
  | rested => exact h.frames
  | left ended below absorbs =>
      have hfunded := h.funded
      simp only [CallStack.Funded, below] at hfunded
      rw [below] at hwaiting
      obtain ⟨hparent, hrest⟩ := List.forall_mem_cons.mp hwaiting
      refine List.forall_mem_cons.mpr ⟨?_, hrest⟩
      cases hfunded with
      | sub _ asked beneath =>
          cases Frame.absorb_absorbed absorbs with
          | returned => exact hparent.resume h.current beneath.solvent hsolvent asked rfl _
          | created _ deposited =>
              have hmove := deposited.spends hsolvent
              exact hparent.resume (deposited.backed h.current) beneath.solvent hmove.solvent asked
                hmove.context _
          | dropped => exact hparent

lemma Backed.withRoot {root : Frame} (h : s.Backed rs budget)
    (hmove : Frame.Spends rs s.current root) (hroot : root.Backed) :
    (s.withRoot root).Backed rs budget :=
  ⟨h.funded.move hmove, List.forall_mem_cons.mpr ⟨hroot, (List.forall_mem_cons.mp h.frames).2⟩⟩

/-- **Refunds stay backed,** whatever a call stack comes to. -/
lemma backed_preserved (rs : Ruleset) (budget : ℕ) : Preserved rs (Backed rs budget) where
  step := by
    rintro chain s s' event rfl hs h
    exact h.step hs
  deposit := by
    rintro chain s root rfl hdeposited h
    exact h.withRoot (hdeposited.spends (Frame.Funded.solvent h.funded))
      (hdeposited.backed h.current)
  settle _ _ _ h := h.withRoot ((Frame.Funded.solvent h.funded).same rfl rfl rfl rfl)
    (h.current.mono rfl (.of_stack rfl) le_rfl)

/-- What all frames together may have earned. -/
lemma Backed.sum_le (h : s.Backed rs budget) :
    ((s.current :: s.waiting).map (·.refund.natAbs)).sum ≤ 12000 * budget := by
  have hall : ∀ f ∈ s.current :: s.waiting, f.refund.natAbs ≤ 12000 * f.totalUsedGas.toNat :=
    fun f hf => (h.frames f hf).refund_le (h.funded.all_solvent f hf)
  have hsum := List.sum_le_sum hall
  rw [List.sum_map_mul_left] at hsum
  exact hsum.trans (Nat.mul_le_mul_left _ h.funded.allUsed_le)

end CallStack

/-! ## The counter -/

/-- Refunds of frames that have used less than 2 to the 49th of gas fit the counter. -/
lemma FitsCounter.of_gas {n : ℤ} {gas : ℕ} (hgas : gas < 2 ^ 49) (h : n.natAbs ≤ 12000 * gas) :
    FitsCounter n := by
  simp only [FitsCounter]
  omega

namespace CallStack

variable {s : CallStack} {chain : ChainView} {rs : Ruleset} {budget : ℕ}

/-- What an instruction adds to the refund of the current frame. -/
lemma Backed.due_le (h : s.Backed rs budget) {i : Instruction} {c : Frame.Charge}
    (hdue : s.current.due? chain = some (i, c)) :
    c.refund.natAbs ≤ 24000 ∧ (s.current.refund + c.refund).natAbs ≤ 12000 * budget := by
  obtain ⟨-, -, op, -, checked, charged, ⟨⟨afterGas, memory⟩, afforded⟩, rfl⟩ :=
    Frame.due?_eq_some.mp hdue
  have hcleared : s.current.Cleared chain op c afterGas memory := ⟨checked, charged, afforded⟩
  obtain ⟨taken, given, harity, hcheck⟩ := hcleared.exists_arity
  have hpaid := h.current.charged harity (Frame.check_eq_ok.mp hcheck).1 charged
  have hexact := Frame.afford_exact (Frame.Funded.solvent h.funded) afforded
  have hlimit := Frame.Funded.allUsed_le h.funded _ le_rfl
  exact ⟨Frame.refundOf_le (Frame.refund_of_charge charged), by omega⟩

/-- What a frame takes over from the one that goes back into it. -/
lemma Backed.absorbed_le (h : s.Backed rs budget) {parent parent' sub : Frame} {rest : List Frame}
    (hbelow : s.waiting = parent :: rest) (habsorb : parent.absorb s.current chain =
      (parent', sub, .ok ())) : (parent.refund + sub.refund).natAbs ≤ 12000 * budget := by
  have hrefund : sub.refund = s.current.refund := by
    cases Frame.absorb_absorbed habsorb with
    | returned | dropped => rfl
    | created _ deposited => exact deposited.refund_eq
  have hsum := h.sum_le
  simp only [hbelow, List.map_cons, List.sum_cons] at hsum
  rw [hrefund]
  omega

end CallStack

/-- An execution begins with nothing earned. -/
lemma Execution.backed_of_accept {t : Transaction} {chain : ChainView} {start : Execution}
    (h : t.accept chain = .ok (.ok start)) :
    start.calls.Backed chain.ruleset (t.gasLimit - t.intrinsicGas chain.rules).toNat := by
  obtain ⟨-, halone, -, paid, code, -, hbegun⟩ := Transaction.accept_begins h
  rw [root_of_alone halone] at hbegun
  refine ⟨(funded_of_accept h).calls, fun f hf => ?_⟩
  rw [halone, List.mem_singleton] at hf
  rw [hf]
  exact hbegun.backed (.of_new rfl rfl)

open Engine in
/-- **The refund counter never overflows.**  Whatever the host answers: in every state of a run,
    each frame has a refund of at most 12000, one way or the other, for each unit of gas that it has
    used.  So under a gas limit below 2 to the 49th the counter of 64 bits holds every refund, and
    holds it after each addition: that of an instruction that is checked and paid for, and that of
    the refund of a frame that goes back.  And read as an unsigned number of 64 bits, the refund
    that the root ends with is what it was, a negative one counting as none. -/
theorem refund_counter_never_overflows {rs : Ruleset} {t : Transaction} {block : Header}
    {e : Engine} {x : Execution} (h : Reachable rs t block e) (hx : e.phase = .executing x) :
    (∀ f ∈ x.calls.frames, |f.refund| ≤ 12000 * (f.totalUsedGas.toNat : ℤ)) ∧
    (t.gasLimit.toNat < 2 ^ 49 →
      (∀ f ∈ x.calls.frames, FitsCounter f.refund) ∧
      (∀ i c, x.calls.current.due? e.chain = some (i, c) →
        FitsCounter c.refund ∧ FitsCounter (x.calls.current.refund + c.refund)) ∧
      (∀ parent rest parent' sub, x.calls.waiting = parent :: rest →
        parent.absorb x.calls.current e.chain = (parent', sub, .ok ()) →
          FitsCounter (parent.refund + sub.refund)) ∧
      max x.calls.root.refund 0 < 2 ^ 64 ∧
      (x.refund.toNat : ℤ) = max x.calls.root.refund 0) := by
  have hbudget : (t.gasLimit - t.intrinsicGas rs.rules).toNat ≤ t.gasLimit.toNat := by
    rw [Gas.toNat_sub]
    exact Nat.sub_le _ _
  have hbacked := h.preserves
    (CallStack.backed_preserved rs (t.gasLimit - t.intrinsicGas rs.rules).toNat)
    (by rintro chain start rfl haccept; exact Execution.backed_of_accept haccept) x hx
  have hall : ∀ f ∈ x.calls.frames, f.refund.natAbs ≤ 12000 * f.totalUsedGas.toNat := by
    intro f hf
    have hmem := List.mem_reverse.mp hf
    exact (hbacked.frames f hmem).refund_le (hbacked.funded.all_solvent f hmem)
  refine ⟨fun f hf => ?_, fun hlimit => ?_⟩
  · rw [Int.abs_eq_natAbs]
    exact_mod_cast hall f hf
  · have hfits : ∀ f ∈ x.calls.frames, FitsCounter f.refund := by
      intro f hf
      have htotal : f.totalUsedGas.toNat ≤ x.calls.allUsed := by
        rw [← x.calls.allUsed_eq]
        exact List.single_le_sum (by simp) _ (List.mem_map_of_mem hf)
      exact .of_gas (by have := hbacked.funded.allUsed_le; omega) (hall f hf)
    have hroot : FitsCounter x.calls.root.refund :=
      hfits _ (List.mem_reverse.mpr (List.mem_of_getLast? List.getLast?_cons))
    refine ⟨hfits, fun i c hdue => ?_, fun parent rest parent' sub hbelow habsorb => ?_, ?_, ?_⟩
    · obtain ⟨hearned, hsum⟩ := hbacked.due_le hdue
      have hearned' : c.refund.natAbs ≤ 12000 * 2 := hearned
      exact ⟨.of_gas (by decide) hearned', .of_gas (by omega) hsum⟩
    · exact .of_gas (by omega) (hbacked.absorbed_le hbelow habsorb)
    · have := hroot.2
      omega
    · have hword : 2 ^ 63 ≤ maxWord := by decide
      have := hroot.2
      rw [Execution.refund, Gas.toNat_ofNat]
      omega

/-- A world with an account that destroys itself, for which its own address is its operand. -/
def selfDestroyingWorld : World :=
  { accounts := ((∅ : Std.TreeMap Address WorldAccount).insert 200
      { balance := 1000000 }).insert 300 { code := ⟨#[0x30, 0xff]⟩ } }

/-- A transaction that calls that account. -/
def selfDestroyingCall : Transaction := ⟨200, 1, 30000, .call 300, 0, ByteArray.empty, 0⟩

/-- The engine that runs it, after some steps and answers. -/
def selfDestroyingCallAfter (fuel : ℕ) : Except Fault Engine :=
  (Engine.create .frontier selfDestroyingCall {}).run selfDestroyingWorld false fuel

/-- What the frames of an execution have earned, and the gas that they have used. -/
def Engine.earnings (e : Engine) : List (ℤ × ℕ) :=
  match e.phase with
  | .executing x => x.calls.frames.map fun f => (f.refund, f.totalUsedGas.toNat)
  | _ => []

/-- Under rules where a destruction is free the account has earned all that its gas may stand for:
    24000 for 2 units.  The counter holds it. -/
theorem selfDestroyingCall_counts : ∃ e x, selfDestroyingCallAfter 7 = .ok e ∧
    e.phase = .executing x ∧ e.earnings = [(24000, 2)] ∧
    (∀ f ∈ x.calls.frames, |f.refund| ≤ 12000 * (f.totalUsedGas.toNat : ℤ)) ∧
    (∀ f ∈ x.calls.frames, FitsCounter f.refund) ∧
    (x.refund.toNat : ℤ) = max x.calls.root.refund 0 := by
  have hend : (selfDestroyingCallAfter 7).toOption.map Engine.earnings = some [(24000, 2)] := by
    decide +kernel
  rcases hrun : selfDestroyingCallAfter 7 with fault | e
  · rw [hrun] at hend
    cases hend
  · have hearned : e.earnings = [(24000, 2)] := by
      rw [hrun] at hend
      exact Option.some.inj hend
    have hreach : Engine.Reachable .frontier selfDestroyingCall {} e := .run .create hrun
    cases hphase : e.phase with
    | executing x =>
        obtain ⟨hbounded, hcounts⟩ := refund_counter_never_overflows hreach hphase
        obtain ⟨hfits, -, -, -, hkept⟩ := hcounts (by decide)
        exact ⟨e, x, rfl, hphase, hearned, hbounded, hfits, hkept⟩
    | validating | rejected =>
        simp only [Engine.earnings, hphase] at hearned
        cases hearned

end ResumableEvm
