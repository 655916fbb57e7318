import Mathlib.Tactic
import ResumableEvm.Execution
import ResumableEvm.Proofs.KnownAccount

/-!
# Transactions past validation

What an execution starts from: the caller's nonce has been raised and the price of the gas has
been claimed in an overlay without changes, and a new frame over it has begun.

* `Transaction.Accepted` — what acceptance has made sure of.
* `Transaction.accept_accepted` — acceptance makes sure of it.
* `Transaction.rootGas_lt` — the gas of the root frame.
-/

namespace ResumableEvm

/-- A nonce that has been raised is higher by one. -/
lemma toNat_nextNonce {nonce raised : Word} (h : nextNonce nonce = .ok raised) :
    raised.toNat = nonce.toNat + 1 := by
  simp only [nextNonce] at h
  split at h
  · cases h
  · rename_i hbelow
    cases h
    have hword := nonce.toNat_le_maxWord
    have hmax : maxWord + 1 = 2 ^ 256 := rfl
    rw [BitVec.toNat_add]
    exact Nat.mod_eq_of_lt (by rw [show (1 : Word).toNat = 1 from rfl]; omega)

namespace Transaction

variable {t : Transaction} {chain : ChainView} {e : Execution}

/-- **A transaction past validation.** -/
structure Accepted (t : Transaction) (chain : ChainView) (e : Execution) : Prop where
  covered : ¬ t.gasLimit < t.intrinsicGas chain.rules
  /-- The caller is known, has the right nonce, and can pay for value and gas. -/
  validated : ∃ balance : Word,
    (Overlay.empty chain.rules.accounts).Knows t.caller chain.log ∧
      (Overlay.empty chain.rules.accounts).nonce t.caller chain.log = .ok t.nonce ∧
        (Overlay.empty chain.rules.accounts).balance t.caller chain.log = .ok balance ∧
          t.preclaimed.toNat + t.value.toNat ≤ balance.toNat
  /-- What a failure starts over from: the caller's nonce raised by one, and nothing else. -/
  raised : ∃ nonce : Word, nextNonce t.nonce = .ok nonce ∧
    (Overlay.empty chain.rules.accounts).setNonce t.caller nonce chain.log = .ok e.fresh
  begun : ∃ (nonce : Word) (fresh paid : Overlay) (code : Bytes) (root : Frame),
    (Overlay.empty chain.rules.accounts).setNonce t.caller nonce chain.log = .ok fresh ∧
      fresh.decreaseBalance t.caller t.preclaimed chain.log = .ok paid ∧
        t.beginRoot (Frame.create (t.rootContext chain.rules code) 0 paid chain.rules) chain =
            (root, .ok ()) ∧
          e = { calls := .ofRoot root, transaction := t, intrinsicGas := t.intrinsicGas chain.rules,
                depositPending := t.action = .create, fresh := fresh, settled := false }

/-- Nothing is wrong with a transaction whose nonce, funds and gas are right. -/
lemma rejection?_eq_none {rules : Rules} {nonce balance : Word}
    (h : t.rejection? rules nonce balance = none) :
    nonce = t.nonce ∧ t.preclaimed.toNat + t.value.toNat ≤ balance.toNat ∧
      ¬ t.gasLimit < t.intrinsicGas rules := by
  simp only [rejection?] at h
  split at h
  · cases h
  · rename_i hnonce
    split at h
    · cases h
    · rename_i hfunds
      split at h
      · cases h
      · exact ⟨not_not.mp hnonce, Nat.le_of_not_lt hfunds, by assumption⟩

/-- A read that is part of a step gave a result. -/
lemma lift_eq_ok {α : Type} {r : Except Requirement α} {a : α} :
    (liftM r : Except Interrupt α) = .ok a ↔ r = .ok a := by
  cases r <;> simp [liftM, monadLift, MonadLift.monadLift, Interrupt.ofRead]

lemma accept_accepted (h : t.accept chain = .ok (.ok e)) : t.Accepted chain e := by
  simp only [accept] at h
  simp only [bind_eq_ok, lift_eq_ok] at h
  obtain ⟨⟨⟩, hknown, nonce, hnonce, balance, hbalance, h⟩ := h
  split at h
  · cases h
  · rename_i hrejection
    obtain ⟨rfl, hfunds, hcovered⟩ := rejection?_eq_none hrejection
    simp only [bind_eq_ok, lift_eq_ok] at h
    obtain ⟨-, -, code, -, raised, hraised, fresh, hfresh, paid, hpaid, h⟩ := h
    split at h
    · rename_i root hroot
      cases h
      exact ⟨hcovered, ⟨balance, Overlay.knows_iff_require.mpr hknown, hnonce, hbalance, hfunds⟩,
        ⟨raised, hraised, hfresh⟩, raised, fresh, paid, code, root, hfresh, hpaid, hroot, rfl⟩
    · cases h

/-! ## What is paid up front -/

lemma foldl_inputGas_ge (input : List UInt8) (gas : Gas) :
    gas.toNat ≤ (input.foldl (fun gas x => gas + inputGas x) gas).toNat := by
  induction input generalizing gas with
  | nil => exact le_rfl
  | cons x rest ih =>
      have hrest := ih (gas + inputGas x)
      have hle := gas.toNat_le
      rw [List.foldl_cons]
      rw [Gas.toNat_add] at hrest
      omega

lemma intrinsicGas_pos (t : Transaction) (rules : Rules) : 0 < (t.intrinsicGas rules).toNat := by
  have hpos : ∀ base : Gas, 0 < base.toNat →
      0 < (t.input.data.foldl (fun gas x => gas + inputGas x) base).toNat := by
    intro base hbase
    rw [← Array.foldl_toList]
    exact hbase.trans_le (foldl_inputGas_ge _ _)
  refine hpos _ ?_
  split
  · have hbase : (21000 : Gas).toNat = 21000 := by decide
    have hmax : 21000 ≤ maxWord := by decide
    rw [Gas.toNat_add, hbase]
    omega
  · decide

/-- A transaction pays something up front, so its root frame is never given the largest amount. -/
lemma rootGas_lt (t : Transaction) (rules : Rules) :
    (t.gasLimit - t.intrinsicGas rules).toNat < maxWord := by
  have hpaid := t.intrinsicGas_pos rules
  have hle := t.gasLimit.toNat_le
  have hmax : 0 < maxWord := by decide
  rw [Gas.toNat_sub]
  omega

end Transaction

end ResumableEvm
