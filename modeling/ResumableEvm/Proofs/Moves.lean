import ResumableEvm.Proofs.Acceptance
import ResumableEvm.Proofs.Lifecycle

/-!
# Moves of an execution

An execution begins with its root alone.  It goes on by moves: its frames take steps until the
root has ended, the root deposits its code, and the transaction is settled.

* `Transaction.accept_begins` — what an execution starts from.
* `Execution.Moved` — the moves of an execution.
* `Execution.step_moves` — a step consists of moves.
-/

namespace ResumableEvm

open Relation

/-- The root of a transaction begins as a call or as a creation. -/
lemma Transaction.beginRoot_begun {t : Transaction} {chain : ChainView} {f root : Frame}
    (h : t.beginRoot f chain = (root, .ok ())) : f.Begun chain root := by
  simp only [beginRoot] at h
  split at h
  · exact Frame.beginCall_begun h
  · exact Frame.beginCreate_begun h

/-- An execution starts from its root alone, which has begun over the accounts that the price of
    the gas was claimed from. -/
lemma Transaction.accept_begins {t : Transaction} {chain : ChainView} {start : Execution}
    (h : t.accept chain = .ok (.ok start)) :
    start.settled = false ∧ start.calls.waiting = [] ∧ start.transaction = t ∧
      ∃ (paid : Overlay) (code : Bytes),
        start.fresh.decreaseBalance t.caller t.preclaimed chain.log = .ok paid ∧
          (Frame.create (t.rootContext chain.rules code) 0 paid chain.rules).Begun chain
            start.calls.root := by
  obtain ⟨nonce, fresh, paid, code, root, -, hpaid, hroot, rfl⟩ := (accept_accepted h).begun
  exact ⟨rfl, rfl, rfl, paid, code, hpaid, beginRoot_begun hroot⟩

namespace Execution

variable {chain : ChainView} {e e' : Execution}

/-- Without frames that wait the root is the current one. -/
lemma root_of_alone (halone : e.calls.waiting = []) : e.calls.root = e.calls.current := by
  simp only [CallStack.root]
  rw [halone]
  rfl

/-- **A move of an execution** that is not settled yet. -/
inductive Moved (chain : ChainView) (e : Execution) : Execution → Prop where
  /-- The frames take a step. -/
  | ran {calls : CallStack} (unsettled : e.settled = false)
      (stepped : e.calls.Stepped chain calls)
      (steps : ∃ event, e.calls.step chain = (calls, .ok event)) :
      Moved chain e { e with calls := calls }
  /-- The root has ended and deposits its code. -/
  | deposited {root : Frame} (unsettled : e.settled = false) (alone : e.calls.waiting = [])
      (deposits : e.calls.root.Deposited chain root) :
      Moved chain e { e with calls := e.calls.withRoot root, depositPending := false }
  /-- The root has ended and settles the transaction. -/
  | settled {root : Frame} (unsettled : e.settled = false) (alone : e.calls.waiting = [])
      (settles : e.calls.root.settle chain e.chargedGas e.transaction.preclaimed e.fresh
        chain.block.beneficiary = (root, .ok ())) :
      Moved chain e { e with calls := e.calls.withRoot root, settled := true }

/-- A root that stays as it is. -/
lemma withRoot_root (halone : e.calls.waiting = []) : e.calls.withRoot e.calls.root = e.calls := by
  rw [root_of_alone halone]
  rfl

/-- Once no frame waits the root can be replaced. -/
lemma root_withRoot (halone : e.calls.waiting = []) (root : Frame) :
    (e.calls.withRoot root).root = root := by
  simp only [CallStack.root, CallStack.withRoot]
  rw [halone]
  rfl

lemma deposit_moves {result : Except Requirement Unit} (hunsettled : e.settled = false)
    (halone : e.calls.waiting = []) (h : e.deposit chain = (e', result)) :
    ReflTransGen (Moved chain) e e' ∧ e'.settled = false ∧ e'.calls.waiting = [] := by
  simp only [deposit] at h
  split at h
  · split at h <;> rename_i hcode <;> cases h
    · exact ⟨.single (.deposited hunsettled halone (Frame.depositCode_deposited hcode)),
        hunsettled, halone⟩
    · obtain rfl := Frame.depositCode_requires hcode
      rw [withRoot_root halone]
      exact ⟨.refl, hunsettled, halone⟩
  · cases h
    exact ⟨.refl, hunsettled, halone⟩

lemma settle_moves {result : Except Requirement Unit} (hunsettled : e.settled = false)
    (halone : e.calls.waiting = []) (h : e.settle chain = (e', result)) :
    ReflTransGen (Moved chain) e e' := by
  simp only [settle] at h
  split at h <;> rename_i hroot <;> cases h
  · exact .single (.settled hunsettled halone hroot)
  · obtain rfl := Frame.settle_requires hroot
    rw [withRoot_root halone]

lemma finish_moves {result : Except Requirement Unit} (hunsettled : e.settled = false)
    (halone : e.calls.waiting = []) (h : e.finish chain = (e', result)) :
    ReflTransGen (Moved chain) e e' := by
  simp only [finish] at h
  split at h <;> rename_i hdeposit <;>
    obtain ⟨hmoves, hunsettled', halone'⟩ := deposit_moves hunsettled halone hdeposit
  · exact hmoves.trans (settle_moves hunsettled' halone' h)
  · cases h
    exact hmoves

/-- **A step of an execution** that has a next state consists of moves, also where it waits for a
    datum. -/
lemma step_moves {result : Except Interrupt (Option Event)}
    (hresult : ∀ fault, result ≠ .error (.fault fault)) (h : e.step chain = (e', result)) :
    ReflTransGen (Moved chain) e e' := by
  simp only [step] at h
  split at h
  · cases h
    exact .refl
  · rename_i hsettled
    have hunsettled := Bool.eq_false_of_not_eq_true hsettled
    split at h
    · rename_i hexited
      have halone : e.calls.waiting = [] := by
        simp only [CallStack.isExited] at hexited
        rw [Bool.and_eq_true, List.isEmpty_iff] at hexited
        exact hexited.1
      split at h <;> cases h
      · exact finish_moves hunsettled halone ‹_›
      · exact finish_moves hunsettled halone ‹_›
    · rcases hs : e.calls.step chain with ⟨calls, event | i⟩ <;> rw [hs] at h <;> cases h
      · cases event with
        | requires r =>
            obtain rfl := CallStack.step_requires hs
            exact .refl
        | fault fault => exact absurd rfl (hresult fault)
      · exact .single (.ran hunsettled (CallStack.step_stepped hs) ⟨_, hs⟩)

end Execution

end ResumableEvm
