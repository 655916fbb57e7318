import ResumableEvm.Proofs.FrameInvariant
import ResumableEvm.Proofs.Moves
import ResumableEvm.Proofs.Settlement

/-!
# What is asked for is lacking

A requirement is raised only for a datum that the log does not have, and for a slot only once its
account is known to exist.  Steps of frames are known to do so from how they agree with themselves
under a fuller log, and settlements from their stages; this module adds acceptance and puts the
steps of an execution together.

* `Transaction.accept_agree` — acceptance under a fuller log.
* `Execution.step_agree` — a step of an execution under a fuller log.
* `Execution.step_lacks` — every step of an execution asks for what is lacking.
-/

namespace ResumableEvm

variable {log log' : CommitLog}

/-- A read agrees as part of a step if it does on its own. -/
lemma Agree.lift {α : Type} {x x' : Except Requirement α} (h : Agree log log' x x') :
    Agree log log' (liftM x : Except Interrupt α) (liftM x') :=
  h.through (fun y => (liftM y : Except Interrupt α)) fun y => by cases y <;> rfl

/-! ## Acceptance -/

namespace Transaction

lemma rootCode_agree (h : log.Within log') (t : Transaction) (s : Overlay) :
    Agree log log' (t.rootCode s log) (t.rootCode s log') := by
  simp only [rootCode]
  cases t.action with
  | call target => exact s.code_agree h target
  | create => exact .refl rfl

lemma beginRoot_agree (h : log.Within log') (rs : Ruleset) (block : Header) (t : Transaction)
    (root : Frame) :
    Agree log log' (t.beginRoot root ⟨rs, block, log⟩) (t.beginRoot root ⟨rs, block, log'⟩) := by
  simp only [beginRoot]
  cases t.action with
  | call => exact root.beginCall_agree h rs block
  | create => exact root.beginCreate_agree h rs block

/-- **Acceptance** agrees with itself under a fuller log. -/
lemma accept_agree (h : log.Within log') (rs : Ruleset) (block : Header) (t : Transaction) :
    Agree log log' (t.accept ⟨rs, block, log⟩) (t.accept ⟨rs, block, log'⟩) := by
  simp only [accept]
  dsimp only [ChainView.rules]
  refine (Overlay.require_agree h _ _).lift.bind fun _ hcaller => ?_
  refine (Overlay.nonce_agree h _ _).lift.bind fun nonce _ => ?_
  refine (Overlay.balance_agree h _ _).lift.bind fun balance _ => ?_
  split
  · exact .refl rfl
  · refine (Overlay.require_agree h _ _).lift.bind fun _ _ => ?_
    refine (t.rootCode_agree h _).lift.bind fun code _ => ?_
    refine (Agree.refl (Frame.asksNothing_nextNonce nonce)).bind fun raised _ => ?_
    refine (Overlay.update_agree h _ _ _).lift.bind fun fresh hfresh => ?_
    -- the caller was required, and raising its nonce forgets nobody
    have hknown : fresh.Knows t.caller log :=
      (Overlay.knows_iff_require.mpr (lift_eq_ok.mp hcaller)).of_update (lift_eq_ok.mp hfresh)
    refine (Overlay.moveBalance_agree h _ _ _ hknown).lift.bind fun paid _ => ?_
    have hroot := t.beginRoot_agree h rs block
      (Frame.create (t.rootContext rs.rules code) 0 paid rs.rules)
    rcases hb : t.beginRoot (Frame.create (t.rootContext rs.rules code) 0 paid rs.rules)
      ⟨rs, block, log⟩ with ⟨root, r | ⟨⟩⟩ <;> rw [hb] at hroot
    · refine .asks rfl (hroot.lacks rfl) fun hl => ?_
      rw [hroot.waits rfl hl]
    · rw [hroot.same rfl]
      exact .refl rfl

end Transaction

/-! ## Executions -/

namespace Execution

variable {rs : Ruleset} {block : Header} {e e' : Execution} {r : Requirement}

lemma deposit_agree (h : log.Within log') (rs : Ruleset) (block : Header) (e : Execution) :
    Agree log log' (e.deposit ⟨rs, block, log⟩) (e.deposit ⟨rs, block, log'⟩) := by
  have hdeposit := e.calls.root.depositCode_agree h rs block
  simp only [deposit]
  split
  · rcases hd : e.calls.root.depositCode ⟨rs, block, log⟩ with ⟨root, r | ⟨⟩⟩ <;>
      rw [hd] at hdeposit
    · refine .asks rfl (hdeposit.lacks rfl) fun hl => ?_
      rw [hdeposit.waits rfl hl]
    · rw [hdeposit.same rfl]
      exact .refl rfl
  · exact .refl rfl

/-- Settling agrees with itself under a fuller log, as far as that one knows the caller and the
    beneficiary only if this one does. -/
lemma settle_agree (h : log.Within log') (rs : Ruleset) (block : Header) (e : Execution)
    (hcaller : log'.Answers (.account e.calls.root.context.caller) →
      log.Answers (.account e.calls.root.context.caller))
    (hpayee : log'.Answers (.account block.beneficiary) →
      log.Answers (.account block.beneficiary)) :
    Agree log log' (e.settle ⟨rs, block, log⟩) (e.settle ⟨rs, block, log'⟩) := by
  have hsettle : Agree log log'
      (e.calls.root.settle ⟨rs, block, log⟩ e.chargedGas e.transaction.preclaimed e.fresh
        block.beneficiary)
      (e.calls.root.settle ⟨rs, block, log'⟩ e.chargedGas e.transaction.preclaimed e.fresh
        block.beneficiary) := by
    refine (e.calls.root.settledOverlay_agree h rs block _ _ _ hcaller hpayee).attempt
      fun swept _ => ?_
    split <;> exact .refl rfl
  simp only [settle]
  rcases hs : e.calls.root.settle ⟨rs, block, log⟩ e.chargedGas e.transaction.preclaimed e.fresh
    block.beneficiary with ⟨root, r | ⟨⟩⟩ <;> rw [hs] at hsettle
  · refine .asks rfl (hsettle.lacks rfl) fun hl => ?_
    rw [hsettle.waits rfl hl]
  · rw [hsettle.same rfl]
    exact .refl rfl

/-- Depositing leaves the root its caller. -/
lemma deposit_caller {chain : ChainView} {result : Except Requirement Unit}
    (halone : e.calls.waiting = []) (h : e.deposit chain = (e', result)) :
    e'.calls.root.context.caller = e.calls.root.context.caller := by
  simp only [deposit] at h
  split at h
  · split at h <;> rename_i hcode <;> cases h <;>
      simp only [root_withRoot halone]
    · rw [(Frame.depositCode_deposited hcode).context]
    · rw [Frame.depositCode_requires hcode]
  · cases h
    rfl

/-- Depositing and settling agree with themselves under a fuller log, if settling does. -/
lemma finish_agree (h : log.Within log') (rs : Ruleset) (block : Header) {e : Execution}
    (halone : e.calls.waiting = [])
    (hcaller : log'.Answers (.account e.calls.root.context.caller) →
      log.Answers (.account e.calls.root.context.caller))
    (hpayee : log'.Answers (.account block.beneficiary) →
      log.Answers (.account block.beneficiary)) :
    Agree log log' (e.finish ⟨rs, block, log⟩) (e.finish ⟨rs, block, log'⟩) := by
  have hdeposit := e.deposit_agree h rs block
  simp only [finish]
  rcases hd : e.deposit ⟨rs, block, log⟩ with ⟨e', r | ⟨⟩⟩ <;> rw [hd] at hdeposit
  · refine .asks rfl (hdeposit.lacks rfl) fun hl => ?_
    rw [hdeposit.waits rfl hl]
  · rw [hdeposit.same rfl]
    rw [← deposit_caller halone hd] at hcaller
    exact e'.settle_agree h rs block hcaller hpayee

/-- **A step of an execution** agrees with itself under a fuller log, if the overlay of its current
    frame is grounded and settling agrees. -/
lemma step_agree (h : log.Within log') (rs : Ruleset) (block : Header) {e : Execution}
    (hg : e.settled = false → e.calls.current.overlay.Grounded log)
    (hcaller : log'.Answers (.account e.calls.root.context.caller) →
      log.Answers (.account e.calls.root.context.caller))
    (hpayee : log'.Answers (.account block.beneficiary) →
      log.Answers (.account block.beneficiary)) :
    Agree log log' (e.step ⟨rs, block, log⟩) (e.step ⟨rs, block, log'⟩) := by
  simp only [step]
  split
  · exact .refl rfl
  · rename_i hsettled
    split
    · rename_i hexited
      simp only [CallStack.isExited, Bool.and_eq_true, List.isEmpty_iff] at hexited
      have hfinish := finish_agree h rs block hexited.1 hcaller hpayee
      rcases hf : e.finish ⟨rs, block, log⟩ with ⟨e', r | ⟨⟩⟩ <;> rw [hf] at hfinish
      · refine .asks rfl (hfinish.lacks rfl) fun hl => ?_
        rw [hfinish.waits rfl hl]
      · rw [hfinish.same rfl]
        exact .refl rfl
    · have hcurrent := hg (Bool.eq_false_of_not_eq_true hsettled)
      exact (e.calls.step_agree h rs block hcurrent).through
        (fun p => (({ e with calls := p.1 }, p.2) : Execution × Except Interrupt (Option Event)))
        fun _ => rfl

/-- **A step of an execution** asks for what is lacking, if the overlay of its current frame is
    grounded. -/
lemma step_lacks (hg : e.settled = false → e.calls.current.overlay.Grounded log)
    (h : e.step ⟨rs, block, log⟩ = (e', .error (.requires r))) : log.Lacks r :=
  (step_agree (.refl log) rs block hg id id).lacks (congrArg Asking.asked? h)

end Execution

end ResumableEvm
