import ResumableEvm.Proofs.WrittenOnce

/-!
# Output that is kept

What a transaction has logged and changed is read off its root once, as it is settled, and kept from
then on.  An engine that has settled its transaction waits for nothing and is told nothing more, so
what it keeps is what could be read off its root at any later time.

* `Execution.unsettled_of_waits` — an execution that waits for a datum is not settled.
* `Engine.Reachable.phase_of_pending` — an engine that waits for a datum has settled nothing.
* `Engine.Reachable.holdsOutput` — what an engine keeps is what its root has.
-/

namespace ResumableEvm

/-! ## Executions -/

namespace Execution

variable {chain : ChainView} {x x' : Execution}

lemma deposit_settled {result : Except Requirement Unit} (h : x.deposit chain = (x', result)) :
    x'.settled = x.settled := by
  simp only [deposit] at h
  split at h
  · split at h <;> cases h <;> rfl
  · cases h
    rfl

lemma finish_waits {r : Requirement} (h : x.finish chain = (x', .error r)) :
    x'.settled = x.settled := by
  simp only [finish] at h
  split at h <;> rename_i hdeposit
  · refine Eq.trans ?_ (deposit_settled hdeposit)
    simp only [settle] at h
    split at h <;> cases h
    rfl
  · cases h
    exact deposit_settled hdeposit

/-- A settled execution rests. -/
lemma step_of_settled (h : x.settled = true) : x.step chain = (x, .ok none) := by
  simp only [step, h, if_true]

/-- An execution that waits for a datum is not settled. -/
lemma unsettled_of_waits {i : Interrupt} (h : x.step chain = (x', .error i)) :
    x'.settled = false := by
  simp only [step] at h
  split at h
  · cases h
  · rename_i hsettled
    have hunsettled := Bool.eq_false_of_not_eq_true hsettled
    split at h
    · split at h <;> cases h
      exact (finish_waits ‹_›).trans hunsettled
    · rw [← (Prod.mk.inj h).1]
      exact hunsettled

end Execution

/-! ## The engine -/

namespace Engine

variable {rs : Ruleset} {t : Transaction} {block : Header} {e e' : Engine} {x : Execution}

/-- An engine that waits for a datum is still to settle its transaction. -/
lemma Reachable.phase_of_pending {r : Requirement} (h : Reachable rs t block e)
    (hpending : e.pending = some r) :
    e.phase = .validating t ∨ ∃ x, e.phase = .executing x ∧ x.settled = false := by
  induction h generalizing r with
  | create => cases hpending
  | @step e e' before stepped ih =>
      simp only [Engine.step] at stepped
      split at stepped
      · cases stepped
        exact ih hpending
      · cases stepped
        exact ih hpending
      · rename_i t' hnone hphase
        obtain rfl := before.funded.validating _ hphase
        split at stepped
        · cases stepped
          cases hnone.symm.trans hpending
        · cases stepped
          cases hnone.symm.trans hpending
        · obtain ⟨r', -, rfl⟩ := interrupt_eq_ok stepped
          exact .inl hphase
      · rename_i x hnone hphase
        split at stepped <;> rename_i hstep
        · cases stepped
          cases hnone.symm.trans hpending
        · obtain ⟨r', -, rfl⟩ := interrupt_eq_ok stepped
          exact .inr ⟨_, rfl, Execution.unsettled_of_waits hstep⟩
  | tell before told =>
      obtain ⟨log, -, -, hnone, -⟩ := tell_eq_ok told
      cases hnone.symm.trans hpending

/-- **What an engine holds for output** is what its root has, once the transaction is settled. -/
structure HoldsOutput (e : Engine) : Prop where
  logs : e.logs = (e.settled?.map (·.calls.root.logs)).getD []
  changes : e.changes = (e.settled?.map (·.calls.root.overlay.changes e.chain.log)).getD []

namespace HoldsOutput

lemma logs_of_settled (h : e.HoldsOutput) (hx : e.settled? = some x) :
    e.logs = x.calls.root.logs := by
  rw [h.logs, hx]
  rfl

lemma changes_of_settled (h : e.HoldsOutput) (hx : e.settled? = some x) :
    e.changes = x.calls.root.overlay.changes e.chain.log := by
  rw [h.changes, hx]
  rfl

lemma logs_of_unsettled (h : e.HoldsOutput) (hx : e.settled? = none) : e.logs = [] := by
  rw [h.logs, hx]
  rfl

lemma changes_of_unsettled (h : e.HoldsOutput) (hx : e.settled? = none) : e.changes = [] := by
  rw [h.changes, hx]
  rfl

lemma of_unsettled (hlogs : e.logs = []) (hchanges : e.changes = []) (hx : e.settled? = none) :
    e.HoldsOutput := by
  constructor <;> rw [hx] <;> assumption

/-- Where nothing is settled before or after, what the engine holds need only stay as it is. -/
lemma rest (h : e.HoldsOutput) (hx : e.settled? = none) (hx' : e'.settled? = none)
    (hlogs : e'.logs = e.logs) (hchanges : e'.changes = e.changes) : e'.HoldsOutput :=
  .of_unsettled (hlogs.trans (h.logs_of_unsettled hx)) (hchanges.trans (h.changes_of_unsettled hx))
    hx'

end HoldsOutput

/-- A step holds on to the output, and takes it from the root as the transaction is settled. -/
lemma HoldsOutput.step (h : e.HoldsOutput) (hs : e.step = .ok e') : e'.HoldsOutput := by
  simp only [Engine.step] at hs
  split at hs
  · cases hs
    exact h
  · cases hs
    exact h
  · rename_i t' hpending hphase
    have hnone : e.settled? = none := by simp only [settled?, hphase]
    split at hs
    · rename_i x haccept
      cases hs
      have hunsettled : x.settled = false := (Transaction.accept_begins haccept).1
      exact h.rest hnone (by simp [settled?, hunsettled]) rfl rfl
    · cases hs
      exact .of_unsettled rfl rfl rfl
    · obtain ⟨r, -, rfl⟩ := interrupt_eq_ok hs
      exact h.rest hnone (by simp only [settled?, hphase]) rfl rfl
  · rename_i x hpending hphase
    cases hsettled : x.settled with
    | true =>
        -- a settled execution rests, and what the engine holds stays as it is
        simp only [Execution.step_of_settled hsettled, hsettled] at hs
        cases hs
        exact ⟨h.logs.trans (by simp [settled?, hphase]),
          h.changes.trans (by simp [settled?, hphase])⟩
    | false =>
        have hnone : e.settled? = none := by simp [settled?, hphase, hsettled]
        split at hs <;> rename_i hstep
        · rename_i next event
          cases hs
          cases hnext : next.settled with
          | true => constructor <;> simp [settled?, hsettled, hnext]
          | false =>
              refine h.rest hnone ?_ ?_ ?_ <;> simp [settled?, hsettled, hnext]
        · obtain ⟨r, -, rfl⟩ := interrupt_eq_ok hs
          refine h.rest hnone ?_ rfl rfl
          simp [settled?, Execution.unsettled_of_waits hstep]

/-- **Every engine holds its output,** whatever the host answered. -/
lemma Reachable.holdsOutput (h : Reachable rs t block e) : e.HoldsOutput := by
  induction h with
  | create => exact ⟨rfl, rfl⟩
  | step before stepped ih => exact ih.step stepped
  | @tell e e' answer before told ih =>
      -- an answer changes what is known, but it is told before anything is settled
      obtain ⟨r, hpending, -⟩ := tell_satisfies told
      have hnone : e.settled? = none := by
        obtain hphase | ⟨x, hphase, hunsettled⟩ := before.phase_of_pending hpending
        · simp only [settled?, hphase]
        · simp [settled?, hphase, hunsettled]
      obtain ⟨log, -, rfl⟩ := tell_told told
      exact ih.rest hnone hnone rfl rfl

end Engine

end ResumableEvm
