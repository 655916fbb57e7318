import ResumableEvm.Proofs.EngineRun
import ResumableEvm.Proofs.GasBudget
import ResumableEvm.Proofs.Moves

/-!
# The gas of a transaction

A transaction pays something up front and leaves the rest of its gas limit to its root frame.
From there to the end, through the deposit of code and the settlement, it keeps to that budget.

* `Execution.Funded`, `Execution.step_spends` — an execution on the budget of its transaction.
* `Engine.Stepped.spends` — a step keeps to the budget and uses no gas back.
* `gas_stays_within_limit` — the budget, from the first step to the last.
-/

namespace ResumableEvm

/-! ## Executions -/

namespace Execution

variable {t : Transaction} {rs : Ruleset} {chain : ChainView} {e e' : Execution}

/-- **An execution on the budget of its transaction:** what is left of the limit after what is
    paid up front. -/
structure Funded (rs : Ruleset) (t : Transaction) (e : Execution) : Prop where
  transaction : e.transaction = t
  intrinsicGas : e.intrinsicGas = t.intrinsicGas rs.rules
  covered : (t.intrinsicGas rs.rules).toNat ≤ t.gasLimit.toNat
  calls : e.calls.Funded rs (t.gasLimit - t.intrinsicGas rs.rules).toNat

/-- A move of an execution that keeps to the budget and uses no gas back. -/
structure Spends (rs : Ruleset) (t : Transaction) (e e' : Execution) : Prop where
  funded : e'.Funded rs t
  grows : e.calls.allUsed ≤ e'.calls.allUsed

lemma Spends.refl (h : e.Funded rs t) : Spends rs t e e := ⟨h, le_rfl⟩

/-- An execution starts on its budget. -/
lemma funded_of_accept (h : t.accept chain = .ok (.ok e)) : e.Funded chain.ruleset t := by
  have haccepted := Transaction.accept_accepted h
  have hcovered : (t.intrinsicGas chain.rules).toNat ≤ t.gasLimit.toNat :=
    Nat.le_of_not_lt haccepted.covered
  obtain ⟨nonce, fresh, paid, code, root, -, -, hroot, rfl⟩ := haccepted.begun
  have hmove : Frame.Spends chain.ruleset _ root :=
    (Transaction.beginRoot_begun hroot).spends (.of_new (t.rootGas_lt chain.rules) rfl rfl rfl) rfl
  have hlimit : root.limit = (t.gasLimit - t.intrinsicGas chain.rules).toNat := by
    simp only [Frame.limit]
    rw [hmove.context]
    rfl
  exact ⟨rfl, rfl, hcovered, .root hmove.solvent hlimit⟩

/-! ### Moves -/

lemma Funded.root_solvent (h : e.Funded rs t) (halone : e.calls.waiting = []) :
    e.calls.root.Solvent rs := by
  rw [root_of_alone halone]
  exact Frame.Funded.solvent h.calls

/-- What the root does once no frame waits. -/
lemma Funded.withRoot {root : Frame} (h : e.Funded rs t) (halone : e.calls.waiting = [])
    (hmove : Frame.Spends rs e.calls.root root) (htransaction : e'.transaction = e.transaction)
    (hintrinsic : e'.intrinsicGas = e.intrinsicGas) (hcalls : e'.calls = e.calls.withRoot root) :
    Spends rs t e e' := by
  rw [root_of_alone halone] at hmove
  have hfunded : e'.calls.Funded rs (t.gasLimit - t.intrinsicGas rs.rules).toNat := by
    rw [hcalls]
    exact Frame.Funded.move h.calls hmove
  refine ⟨⟨htransaction.trans h.transaction, hintrinsic.trans h.intrinsicGas, h.covered, hfunded⟩,
    ?_⟩
  have := hmove.grows
  rw [hcalls]
  simp only [CallStack.allUsed, CallStack.withRoot, Frame.allUsed, List.map_cons, List.sum_cons]
  omega

/-- **A move** keeps to the budget and uses no gas back. -/
lemma Moved.spends (h : e.Moved chain e') (hf : e.Funded chain.ruleset t) :
    Spends chain.ruleset t e e' := by
  cases h with
  | ran unsettled stepped =>
      obtain ⟨hcalls, hgrows⟩ := stepped.spends hf.calls
      exact ⟨⟨hf.transaction, hf.intrinsicGas, hf.covered, hcalls⟩, hgrows⟩
  | deposited unsettled alone deposits =>
      exact hf.withRoot alone (deposits.spends (hf.root_solvent alone)) rfl rfl rfl
  | settled unsettled alone settles =>
      exact hf.withRoot alone ((hf.root_solvent alone).settle settles) rfl rfl rfl

/-- **A step of an execution** that has a next state keeps to the budget and uses no gas back, also
    where it waits for a datum. -/
lemma step_spends {result : Except Interrupt (Option Event)} (h : e.Funded chain.ruleset t)
    (hresult : ∀ fault, result ≠ .error (.fault fault)) (hstep : e.step chain = (e', result)) :
    Spends chain.ruleset t e e' := by
  have hmoves := step_moves hresult hstep
  clear hstep
  induction hmoves with
  | refl => exact .refl h
  | tail _ hmoved ih =>
      have hlast := hmoved.spends ih.funded
      exact ⟨hlast.funded, ih.grows.trans hlast.grows⟩

/-! ### Gas -/

lemma Funded.toNat_consumedGas (h : e.Funded rs t) :
    e.consumedGas.toNat = (t.intrinsicGas rs.rules).toNat + e.calls.allUsed ∧
      e.consumedGas.toNat ≤ t.gasLimit.toNat := by
  have hbudget := h.calls.allUsed_le
  have hcovered := h.covered
  have := t.gasLimit.toNat_le
  simp only [consumedGas]
  rw [Gas.toNat_sub] at hbudget
  rw [Gas.toNat_add, h.intrinsicGas, CallStack.toNat_usedGas]
  omega

/-- Whatever the root ended with, the caller pays for no more than the limit. -/
lemma Funded.chargedGas_le (h : e.Funded rs t) : e.chargedGas.toNat ≤ t.gasLimit.toNat := by
  have hconsumed := h.toNat_consumedGas.2
  simp only [chargedGas]
  split
  · rw [Gas.toNat_sub]
    omega
  · rw [h.transaction]
  · exact hconsumed

/-- The refund of a success is no more than half of what was used. -/
lemma half_le_chargedGas (hok : e.calls.root.status = .exitedOk) :
    (e.consumedGas - e.consumedGas.divNat 2).toNat ≤ e.chargedGas.toNat := by
  simp only [chargedGas]
  rw [hok]
  simp only [Gas.toNat_sub, Gas.toNat_min]
  omega

end Execution

/-! ## The engine -/

namespace Engine

variable {rs : Ruleset} {t : Transaction} {block : Header} {e e' : Engine}

/-- **The engine on the budget of its transaction.** -/
structure Funded (rs : Ruleset) (t : Transaction) (e : Engine) : Prop where
  ruleset : e.chain.ruleset = rs
  validating : ∀ t', e.phase = .validating t' → t' = t
  executing : ∀ execution, e.phase = .executing execution → execution.Funded rs t

/-- An answer changes what is known of the chain, not what is being done. -/
lemma tell_phase {answer : Answer} (h : e.tell answer = .ok e') :
    e'.phase = e.phase ∧ e'.chain.ruleset = e.chain.ruleset := by
  obtain ⟨log, -, rfl⟩ := tell_told h
  exact ⟨rfl, rfl⟩

/-- **What a step of the engine does** to its transaction. -/
inductive Stepped (e e' : Engine) : Prop where
  /-- It stays as it is. -/
  | rested (phase : e'.phase = e.phase)
  /-- The transaction is rejected. -/
  | rejected {t : Transaction} {reason : Rejection} (before : e.phase = .validating t)
      (phase : e'.phase = .rejected reason)
  /-- The transaction becomes an execution. -/
  | accepted {t : Transaction} {execution : Execution} (before : e.phase = .validating t)
      (accepts : t.accept e.chain = .ok (.ok execution)) (phase : e'.phase = .executing execution)
  /-- The execution takes a step. -/
  | ran {execution execution' : Execution} {result : Except Interrupt (Option Event)}
      (before : e.phase = .executing execution)
      (steps : execution.step e.chain = (execution', result))
      (faultless : ∀ fault, result ≠ .error (.fault fault))
      (phase : e'.phase = .executing execution')

lemma step_stepped (h : e.step = .ok e') : e.Stepped e' ∧ e'.chain = e.chain := by
  simp only [step] at h
  split at h
  · cases h
    exact ⟨.rested rfl, rfl⟩
  · cases h
    exact ⟨.rested rfl, rfl⟩
  · rename_i t hpending hphase
    split at h
    · cases h
      exact ⟨.accepted hphase ‹_› rfl, rfl⟩
    · cases h
      exact ⟨.rejected hphase rfl, rfl⟩
    · obtain ⟨r, -, rfl⟩ := interrupt_eq_ok h
      exact ⟨.rested rfl, rfl⟩
  · rename_i execution hpending hphase
    split at h <;> rename_i hs
    · cases h
      exact ⟨.ran hphase hs nofun rfl, rfl⟩
    · obtain ⟨r, rfl, rfl⟩ := interrupt_eq_ok h
      exact ⟨.ran hphase hs nofun rfl, rfl⟩

lemma consumedGas_of_executing {execution : Execution} (h : e.phase = .executing execution) :
    e.consumedGas = execution.consumedGas := by
  simp only [consumedGas]
  rw [h]

lemma consumedGas_of_validating {t : Transaction} (h : e.phase = .validating t) :
    e.consumedGas.toNat = 0 := by
  simp only [consumedGas]
  rw [h]
  rfl

lemma consumedGas_of_phase (h : e'.phase = e.phase) : e'.consumedGas = e.consumedGas := by
  simp only [consumedGas]
  rw [h]

lemma phase_of_settled {execution : Execution} (h : e.settled? = some execution) :
    e.phase = .executing execution := by
  simp only [settled?] at h
  split at h
  · split at h <;> cases h
    assumption
  · cases h

lemma settled_eq_true {execution : Execution} (h : e.settled? = some execution) :
    execution.settled = true := by
  have hphase := phase_of_settled h
  simp only [settled?, hphase] at h
  split at h
  · assumption
  · cases h

/-- The status of a settled execution is that of its root. -/
lemma status_of_settled {execution : Execution} (h : e.settled? = some execution) :
    e.status = .ofFrame execution.calls.root.status := by
  simp only [status, phase_of_settled h]
  exact if_pos (settled_eq_true h)

lemma usedGas_of_settled {execution : Execution} (h : e.settled? = some execution) :
    e.usedGas = execution.chargedGas := by
  simp only [usedGas]
  rw [h]
  rfl

/-- After a success the transaction is settled and its root has ended well. -/
lemma settled_of_exitedOk (h : e.status = .exitedOk) :
    ∃ execution, e.settled? = some execution ∧ execution.calls.root.status = .exitedOk := by
  simp only [status] at h
  split at h
  · cases h
  · cases h
  · rename_i execution hphase
    split at h
    · rename_i hsettled
      refine ⟨execution, ?_, ?_⟩
      · simp only [settled?]
        rw [hphase]
        exact if_pos hsettled
      · simp only [EngineStatus.ofFrame] at h
        split at h <;> first | assumption | cases h
    · cases h

lemma Funded.of_phase (h : e.Funded rs t) (hphase : e'.phase = e.phase)
    (hruleset : e'.chain.ruleset = e.chain.ruleset) : e'.Funded rs t where
  ruleset := hruleset.trans h.ruleset
  validating t' ht' := h.validating t' (hphase ▸ ht')
  executing execution he := h.executing execution (hphase ▸ he)

/-- The budget of an execution that the engine goes on with. -/
lemma Funded.of_executing {execution : Execution} (h : execution.Funded rs t)
    (hruleset : e.chain.ruleset = rs) (hphase : e.phase = .executing execution) :
    e.Funded rs t where
  ruleset := hruleset
  validating t' ht' := by
    rw [hphase] at ht'
    cases ht'
  executing execution' he := by
    rw [hphase] at he
    cases he
    exact h

/-- **A step of the engine** keeps to the budget and uses no gas back. -/
lemma Stepped.spends (h : e.Stepped e') (hchain : e'.chain = e.chain) (he : e.Funded rs t) :
    e'.Funded rs t ∧ e.consumedGas.toNat ≤ e'.consumedGas.toNat := by
  have hruleset : e'.chain.ruleset = e.chain.ruleset := by rw [hchain]
  cases h with
  | rested phase =>
      refine ⟨he.of_phase phase hruleset, ?_⟩
      rw [consumedGas_of_phase phase]
  | rejected before phase =>
      refine ⟨⟨hruleset.trans he.ruleset, fun t' ht' => ?_, fun execution he => ?_⟩, ?_⟩
      · rw [phase] at ht'
        cases ht'
      · rw [phase] at he
        cases he
      · rw [consumedGas_of_validating before]
        exact Nat.zero_le _
  | @accepted t' execution before accepts phase =>
      obtain rfl := he.validating t' before
      have hfunded := Execution.funded_of_accept accepts
      rw [he.ruleset] at hfunded
      refine ⟨.of_executing hfunded (hruleset.trans he.ruleset) phase, ?_⟩
      rw [consumedGas_of_validating before]
      exact Nat.zero_le _
  | @ran execution execution' result before steps faultless phase =>
      have hfunded := he.executing execution before
      rw [← he.ruleset] at hfunded
      have hmove := Execution.step_spends hfunded faultless steps
      rw [he.ruleset] at hmove hfunded
      refine ⟨.of_executing hmove.funded (hruleset.trans he.ruleset) phase, ?_⟩
      have := hmove.grows
      rw [consumedGas_of_executing before, consumedGas_of_executing phase,
        hfunded.toNat_consumedGas.1, hmove.funded.toNat_consumedGas.1]
      omega

/-- Whatever the engine comes to, its transaction is on its budget. -/
lemma Reachable.funded (h : Reachable rs t block e) : e.Funded rs t := by
  induction h with
  | create =>
      refine ⟨rfl, fun t' ht' => ?_, fun execution he => ?_⟩
      · cases ht'
        rfl
      · cases he
  | step before stepped ih =>
      obtain ⟨hstepped, hchain⟩ := step_stepped stepped
      exact (hstepped.spends hchain ih).1
  | tell before told ih =>
      obtain ⟨hphase, hruleset⟩ := tell_phase told
      exact ih.of_phase hphase hruleset

end Engine

/-- **Gas stays within the limit.**  Whatever the engine comes to under whatever answers: what a
    transaction has paid up front and what all its frames have used is at most its gas limit, and
    neither a step nor an answer uses gas back.  In the end the caller pays for no more than the
    limit, and after a success for at least what was used less half of it, rounded down. -/
theorem gas_stays_within_limit {rs : Ruleset} {t : Transaction} {block : Header} {e : Engine}
    (h : Engine.Reachable rs t block e) :
    (∀ execution, e.phase = .executing execution →
      (t.intrinsicGas rs.rules).toNat +
        (execution.calls.frames.map (·.totalUsedGas.toNat)).sum ≤ t.gasLimit.toNat) ∧
    (∀ e', e.step = .ok e' → e.consumedGas ≤ e'.consumedGas) ∧
    (∀ answer e', e.tell answer = .ok e' → e.consumedGas ≤ e'.consumedGas) ∧
    e.usedGas ≤ t.gasLimit ∧
    (e.status = .exitedOk → e.consumedGas - e.consumedGas.divNat 2 ≤ e.usedGas) := by
  have hfunded := h.funded
  refine ⟨fun execution he => ?_, fun e' hstep => ?_, fun answer e' htell => ?_, ?_, fun hok => ?_⟩
  · have hexecution := hfunded.executing execution he
    have hbudget := hexecution.calls.allUsed_le
    have hcovered := hexecution.covered
    rw [Gas.toNat_sub] at hbudget
    rw [execution.calls.allUsed_eq]
    omega
  · obtain ⟨hstepped, hchain⟩ := Engine.step_stepped hstep
    exact (hstepped.spends hchain hfunded).2
  · obtain ⟨hphase, -⟩ := Engine.tell_phase htell
    rw [Engine.consumedGas_of_phase hphase]
    exact Nat.le_refl _
  · rcases hsettled : e.settled? with _ | execution
    · simp only [Engine.usedGas]
      rw [hsettled]
      exact Nat.zero_le _
    · rw [Engine.usedGas_of_settled hsettled]
      exact (hfunded.executing execution (Engine.phase_of_settled hsettled)).chargedGas_le
  · obtain ⟨execution, hsettled, hroot⟩ := Engine.settled_of_exitedOk hok
    rw [Engine.usedGas_of_settled hsettled,
      Engine.consumedGas_of_executing (Engine.phase_of_settled hsettled)]
    exact Execution.half_le_chargedGas hroot

/-- A world with one account, which calls account 200 with one unit of its balance and stops. -/
def payersWorld : World :=
  { accounts := (∅ : Std.TreeMap Address WorldAccount).insert 300
      { balance := 5, code := ⟨#[0x60, 0, 0x80, 0x80, 0x80, 0x60, 1, 0x60, 200, 0x60, 0, 0xf1]⟩ } }

/-- A transaction that calls that account. -/
def payout : Transaction := ⟨200, 0, 100000, .call 300, 0, ByteArray.empty, 0⟩

/-- The engine after some steps and answers. -/
def payoutAfter (fuel : ℕ) : Except Fault Engine :=
  (Engine.create .byzantium payout {}).run payersWorld false fuel

/-- The transaction ends in success after a call with a stipend, for no more than its limit. -/
theorem payout_within_limit : ∃ e, payoutAfter 20 = .ok e ∧ e.status = .exitedOk ∧
    e.usedGas ≤ payout.gasLimit ∧ e.consumedGas - e.consumedGas.divNat 2 ≤ e.usedGas := by
  have hend : (payoutAfter 20).toOption.map Engine.status = some .exitedOk := by decide +kernel
  rcases hrun : payoutAfter 20 with fault | e
  · rw [hrun] at hend
    cases hend
  · have hok : e.status = .exitedOk := by
      rw [hrun] at hend
      exact Option.some.inj hend
    have hreach : Engine.Reachable .byzantium payout {} e := .run .create hrun
    obtain ⟨-, -, -, hle, hhalf⟩ := gas_stays_within_limit hreach
    exact ⟨e, rfl, hok, hle, hhalf hok⟩

end ResumableEvm
