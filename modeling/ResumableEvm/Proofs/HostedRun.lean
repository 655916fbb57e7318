import ResumableEvm.Proofs.FrameInvariant
import ResumableEvm.Proofs.Requests
import ResumableEvm.Proofs.TransactionGas

/-!
# Runs with a host

A host answers from a world whenever it is asked.  This module says what such a run comes to: the
log only ever holds data of the world, what is asked for is lacking, and an execution goes from its
acceptance through moves of its frames and the deposit of code to one settlement.

* `Execution.Follows`, `Execution.Stands` — where an execution came from, and how it stands.
* `Engine.Hosted` — what the engine comes to with a host that answers from a world.
* `Engine.Hosted.kept` — a property that frames keep holds of all frames of a run.
-/

namespace ResumableEvm

/-- The root that an execution starts from has a grounded overlay. -/
lemma Transaction.root_grounded {t : Transaction} {chain : ChainView} {start : Execution}
    (h : t.accept chain = .ok (.ok start)) :
    start.calls.root.overlay.Grounded chain.log := by
  obtain ⟨nonce, -, hfresh⟩ := (accept_accepted h).raised
  obtain ⟨-, -, -, paid, code, hpaid, hbegun⟩ := accept_begins h
  exact hbegun.grounded (((Overlay.Grounded.empty _ chain.log).setNonce hfresh).moveBalance hpaid)

/-! ## Where an execution comes from, and how it stands -/

namespace Execution

variable {rs : Ruleset} {block : Header} {w : World} {t : Transaction}
  {P : CommitLog → Frame → Prop} {chain : ChainView} {first log log' : CommitLog}
  {start e e' : Execution}

/-- What an execution shares with the one that was accepted. -/
structure Follows (start e : Execution) : Prop where
  transaction : e.transaction = start.transaction
  fresh : e.fresh = start.fresh
  context : e.calls.root.context = start.calls.root.context

lemma Moved.follows (h : e.Moved chain e') (hs : start.Follows e) : start.Follows e' := by
  refine ⟨?_, ?_, ?_⟩
  · cases h <;> exact hs.transaction
  · cases h <;> exact hs.fresh
  · cases h with
    | ran unsettled stepped => exact stepped.root_context.trans hs.context
    | deposited unsettled alone deposits =>
        simp only [root_withRoot alone]
        exact deposits.context.trans hs.context
    | settled unsettled alone settles =>
        obtain ⟨swept, -, ⟨-, rfl⟩ | ⟨-, rfl⟩⟩ := Frame.settle_settles settles <;>
          exact (congrArg Frame.context (root_withRoot alone _)).trans hs.context

/-- **How an execution stands.**  While it is not settled all its frames have a property.  Once it
    is, it was settled from a root that had it, under a log told since the acceptance. -/
inductive Stands (rs : Ruleset) (block : Header) (w : World) (P : CommitLog → Frame → Prop)
    (first log : CommitLog) : Execution → Prop where
  | running {e : Execution} (unsettled : e.settled = false) (frames : e.calls.Every P log) :
      Stands rs block w P first log e
  | settled {e : Execution} {told : CommitLog} {root : Frame} (tells : told.Tells w)
      (since : first.Within told) (within : told.Within log) (alone : e.calls.waiting = [])
      (last : P told e.calls.root)
      (settles : e.calls.root.settle ⟨rs, block, told⟩ e.chargedGas e.transaction.preclaimed
        e.fresh block.beneficiary = (root, .ok ())) :
      Stands rs block w P first log { e with calls := e.calls.withRoot root, settled := true }

lemma Stands.grow (h : e.Stands rs block w P first log) (hP : Frame.Kept rs block w P)
    (ht : log'.Tells w) (hw : log.Within log') : e.Stands rs block w P first log' := by
  cases h with
  | running unsettled frames => exact .running unsettled (frames.grow hP ht hw)
  | settled tells since within alone last settles =>
      exact .settled tells since (within.trans hw) alone last settles

lemma Stands.every (h : e.Stands rs block w P first log) (hunsettled : e.settled = false) :
    e.calls.Every P log := by
  cases h with
  | running unsettled frames => exact frames
  | settled => cases hunsettled

/-- A frame that has a property, alone. -/
lemma every_withRoot {root : Frame} (halone : e.calls.waiting = []) (hroot : P log root) :
    (e.calls.withRoot root).Every P log := by
  intro f hf
  simp only [CallStack.withRoot] at hf
  rw [halone] at hf
  obtain rfl := List.mem_singleton.mp hf
  exact hroot

lemma Moved.stands (h : e.Moved ⟨rs, block, log⟩ e') (hP : Frame.Kept rs block w P)
    (ht : log.Tells w) (hsince : first.Within log) (hs : e.Stands rs block w P first log) :
    e'.Stands rs block w P first log := by
  have hroot : e.settled = false → e.calls.waiting = [] → P log e.calls.root := by
    intro hunsettled halone
    rw [root_of_alone halone]
    exact hs.every hunsettled _ List.mem_cons_self
  cases h with
  | ran unsettled stepped => exact .running unsettled (stepped.every hP ht (hs.every unsettled))
  | deposited unsettled alone deposits =>
      exact .running unsettled
        (every_withRoot alone (hP.deposit ht deposits (hroot unsettled alone)))
  | settled unsettled alone settles =>
      exact .settled ht hsince (.refl log) alone (hroot unsettled alone) settles

/-- Settling changes neither gas nor refund, so the caller pays for what it would have before. -/
lemma chargedGas_settled {root : Frame} {swept : Overlay} (halone : e.calls.waiting = [])
    (hroot : root = { e.calls.root with overlay := swept } ∨
      root = { e.calls.root with overlay := swept, removed := [], logs := [] }) :
    ({ e with calls := e.calls.withRoot root, settled := true } : Execution).chargedGas =
      e.chargedGas := by
  obtain ⟨⟨current, waiting⟩, transaction, intrinsicGas, depositPending, fresh, settled⟩ := e
  obtain rfl : waiting = [] := halone
  rcases hroot with rfl | rfl <;> rfl

end Execution

/-! ## The engine and its host -/

namespace Engine

variable {rs : Ruleset} {t : Transaction} {block : Header} {w : World}
  {P : CommitLog → Frame → Prop} {e e' : Engine}

/-- **What the engine comes to** with a host that answers from a world, a question for code by the
    code alone or by the whole account. -/
inductive Hosted (rs : Ruleset) (t : Transaction) (block : Header) (w : World) : Engine → Prop where
  | create : Hosted rs t block w (.create rs t block)
  | step {e e' : Engine} (before : Hosted rs t block w e) (stepped : e.step = .ok e') :
      Hosted rs t block w e'
  | answer {e e' : Engine} {fullCode : Bool} (before : Hosted rs t block w e)
      (answered : e.answer w fullCode = .ok e') : Hosted rs t block w e'

lemma Hosted.reachable (h : Hosted rs t block w e) : Reachable rs t block e := by
  induction h with
  | create => exact .create
  | step before stepped ih => exact ih.step stepped
  | answer before answered ih => exact ih.answer answered

/-- Running against a world is being hosted by it. -/
lemma Hosted.run {fullCode : Bool} {fuel : ℕ} (h : Hosted rs t block w e)
    (hrun : e.run w fullCode fuel = .ok e') : Hosted rs t block w e' :=
  run_keeps .step .answer h hrun

/-- **How the engine stands with its host:** it was told nothing but the world, it waits for
    something that it lacks, and its execution goes back to an acceptance. -/
structure Kept (rs : Ruleset) (t : Transaction) (block : Header) (w : World)
    (P : CommitLog → Frame → Prop) (e : Engine) : Prop where
  chain : e.chain = ⟨rs, block, e.chain.log⟩
  tells : e.chain.log.Tells w
  lacks : ∀ r, e.pending = some r → e.chain.log.Lacks r
  validating : ∀ t', e.phase = .validating t' → t' = t
  executing : ∀ x, e.phase = .executing x → ∃ (first : CommitLog) (start : Execution),
    first.Tells w ∧ first.Within e.chain.log ∧ t.accept ⟨rs, block, first⟩ = .ok (.ok start) ∧
      start.Follows x ∧ x.Stands rs block w P first e.chain.log

/-- What a commitment that is accepted does to the engine. -/
lemma tell_eq_ok {answer : Answer} (h : e.tell answer = .ok e') :
    ∃ log, e.chain.log.record answer = .ok log ∧ e'.chain = { e.chain with log := log } ∧
      e'.pending = none ∧ e'.phase = e.phase ∧ e'.requirements = e.requirements := by
  obtain ⟨log, hlog, rfl⟩ := tell_told h
  refine ⟨log, hlog, rfl, rfl, rfl, ?_⟩
  cases answer <;> simp [requirements, Answer.event]

/-- What an answer does to the engine. -/
lemma answer_eq_ok {fullCode : Bool} (h : e.answer w fullCode = .ok e') :
    e' = e ∨ ∃ r log, e.pending = some r ∧ e.chain.log.record (w.answer fullCode r) = .ok log ∧
      e'.chain = { e.chain with log := log } ∧ e'.pending = none ∧ e'.phase = e.phase ∧
        e'.requirements = e.requirements := by
  simp only [answer] at h
  split at h
  · cases h
    exact .inl rfl
  · rename_i r hr
    obtain ⟨log, htold, hrest⟩ := tell_eq_ok h
    exact .inr ⟨r, log, hr, htold, hrest⟩

/-- Where a step leaves a question open, it was open before or the step has stopped for it. -/
lemma step_pending {r : Requirement} (h : e.step = .ok e') (hr : e'.pending = some r) :
    e.pending = some r ∨
      (∃ t', e.phase = .validating t' ∧ t'.accept e.chain = .error (.requires r)) ∨
        ∃ x x', e.phase = .executing x ∧ x.step e.chain = (x', .error (.requires r)) := by
  simp only [step] at h
  split at h
  · cases h
    exact .inl hr
  · cases h
    exact .inl hr
  · rename_i t' hpending hphase
    split at h <;> rename_i haccept
    · cases h
      exact .inl hr
    · cases h
      exact .inl hr
    · obtain ⟨asked, rfl, rfl⟩ := interrupt_eq_ok h
      cases hr
      exact .inr (.inl ⟨t', hphase, haccept⟩)
  · rename_i x hpending hphase
    split at h <;> rename_i hstep
    · cases h
      exact .inl hr
    · obtain ⟨asked, rfl, rfl⟩ := interrupt_eq_ok h
      cases hr
      exact .inr (.inr ⟨x, _, hphase, hstep⟩)

section Step

variable (hP : Frame.Kept rs block w P)
  (hgrounded : ∀ {log : CommitLog} {f : Frame}, P log f → f.overlay.Grounded log)
  (hstart : ∀ {log : CommitLog} {start : Execution}, log.Tells w →
    t.accept ⟨rs, block, log⟩ = .ok (.ok start) → P log start.calls.root)

include hgrounded in
/-- What a step asks for is lacking. -/
lemma Kept.step_lacks {r : Requirement} (h : e.Kept rs t block w P) (hs : e.step = .ok e')
    (hr : e'.pending = some r) : e.chain.log.Lacks r := by
  rcases step_pending hs hr with hpending | ⟨t', -, haccept⟩ | ⟨x, x', hphase, hstep⟩
  · exact h.lacks r hpending
  · rw [h.chain] at haccept
    exact (t'.accept_agree (.refl _) rs block).lacks (congrArg Asking.asked? haccept)
  · obtain ⟨first, start, -, -, -, -, hstands⟩ := h.executing x hphase
    rw [h.chain] at hstep
    exact Execution.step_lacks
      (fun hu => hgrounded (hstands.every hu _ List.mem_cons_self)) hstep

include hP in
/-- An execution that takes a step still goes back to its acceptance. -/
lemma stands_of_step {first log : CommitLog} {start x x' : Execution}
    {result : Except Interrupt (Option Event)} (ht : log.Tells w) (hsince : first.Within log)
    (hstep : x.step ⟨rs, block, log⟩ = (x', result))
    (hfaultless : ∀ fault, result ≠ .error (.fault fault))
    (hfollows : start.Follows x) (hstands : x.Stands rs block w P first log) :
    start.Follows x' ∧ x'.Stands rs block w P first log := by
  have hmoves := Execution.step_moves hfaultless hstep
  clear hstep
  induction hmoves with
  | refl => exact ⟨hfollows, hstands⟩
  | tail _ hmoved ih => exact ⟨hmoved.follows ih.1, hmoved.stands hP ht hsince ih.2⟩

include hP hstart in
/-- A step of the engine leaves an execution that goes back to its acceptance. -/
lemma Kept.step_executing {x' : Execution} (h : e.Kept rs t block w P) (hs : e.Stepped e')
    (hx' : e'.phase = .executing x') : ∃ (first : CommitLog) (start : Execution),
      first.Tells w ∧ first.Within e.chain.log ∧ t.accept ⟨rs, block, first⟩ = .ok (.ok start) ∧
        start.Follows x' ∧ x'.Stands rs block w P first e.chain.log := by
  cases hs with
  | rested phase => exact h.executing x' (phase.symm.trans hx')
  | rejected before phase => cases phase.symm.trans hx'
  | @accepted t' start before accepts phase =>
      cases phase.symm.trans hx'
      obtain rfl := h.validating t' before
      rw [h.chain] at accepts
      obtain ⟨hunsettled, halone, -⟩ := Transaction.accept_begins accepts
      have hroot := hstart h.tells accepts
      have hevery : x'.calls.Every P e.chain.log :=
        Execution.withRoot_root halone ▸ Execution.every_withRoot halone hroot
      exact ⟨e.chain.log, x', h.tells, .refl _, accepts, ⟨rfl, rfl, rfl⟩,
        .running hunsettled hevery⟩
  | @ran x _ result before steps faultless phase =>
      cases phase.symm.trans hx'
      obtain ⟨first, start, hfirst, hsince, haccept, hfollows, hstands⟩ := h.executing x before
      rw [h.chain] at steps
      exact ⟨first, start, hfirst, hsince, haccept,
        stands_of_step hP h.tells hsince steps faultless hfollows hstands⟩

include hP hgrounded hstart

/-- A step keeps the engine in good standing. -/
lemma Kept.step (h : e.Kept rs t block w P) (hs : e.step = .ok e') : e'.Kept rs t block w P := by
  obtain ⟨hstepped, hchain⟩ := step_stepped hs
  have hvalidating : ∀ t', e'.phase = .validating t' → t' = t := by
    intro t' ht'
    cases hstepped with
    | rested phase => exact h.validating t' (phase.symm.trans ht')
    | rejected before phase | accepted before accepts phase | ran before steps faultless phase =>
        cases phase.symm.trans ht'
  refine ⟨?_, ?_, fun r hr => ?_, hvalidating, fun x' hx' => ?_⟩ <;> rw [hchain]
  · exact h.chain
  · exact h.tells
  · exact h.step_lacks hgrounded hs hr
  · exact h.step_executing hP hstart hstepped hx'

omit hgrounded hstart in
/-- An answer of the world keeps the engine in good standing. -/
lemma Kept.answer {fullCode : Bool} (h : e.Kept rs t block w P)
    (ha : e.answer w fullCode = .ok e') : e'.Kept rs t block w P := by
  rcases answer_eq_ok ha with rfl | ⟨r, log, hr, htold, hchain, hpending, hphase, -⟩
  · exact h
  · obtain ⟨log', htold', htells, hwithin, -, -⟩ := h.tells.record (h.lacks r hr) fullCode
    obtain rfl : log = log' := Except.ok.inj (htold.symm.trans htold')
    refine ⟨?_, ?_, ?_, ?_, ?_⟩
    · rw [hchain, h.chain]
    · rw [hchain]
      exact htells
    · rw [hpending]
      exact nofun
    · rw [hphase]
      exact h.validating
    · rw [hphase, hchain]
      intro x hx
      obtain ⟨first, start, hfirst, hsince, haccept, hfollows, hstands⟩ := h.executing x hx
      exact ⟨first, start, hfirst, hsince.trans hwithin, haccept, hfollows,
        hstands.grow hP htells hwithin⟩

/-- **A property that frames keep** and that the root begins with holds of all frames of a run, and
    the engine is in good standing. -/
lemma Hosted.kept (h : Hosted rs t block w e) : e.Kept rs t block w P := by
  induction h with
  | create =>
      refine ⟨rfl, ⟨?_, ?_, ?_, ?_⟩, nofun, fun t' ht' => ?_, fun _ h => (nomatch h)⟩
      · intro a known hk
        simp [Engine.create] at hk
      · intro a code hc
        simp [Engine.create] at hc
      · intro a index value hv
        simp [Engine.create, CommitLog.slot?] at hv
      · intro number hash hh
        simp [Engine.create] at hh
      · cases ht'
        rfl
  | step before stepped ih => exact ih.step hP hgrounded hstart stepped
  | answer before answered ih => exact ih.answer hP answered

end Step

/-- All overlays of a run are grounded. -/
lemma Hosted.grounded (h : Hosted rs t block w e) :
    e.Kept rs t block w fun log f => f.overlay.Grounded log :=
  h.kept (Frame.grounded_kept rs block w) id fun _ haccept => Transaction.root_grounded haccept

/-! ## Settled executions -/

/-- **How a settled execution came about:** from an execution that was accepted, whose root settled
    under a log told since. -/
structure SettledFrom (rs : Ruleset) (t : Transaction) (block : Header) (w : World)
    (P : CommitLog → Frame → Prop) (log : CommitLog) (x : Execution) (first told : CommitLog)
    (start : Execution) (root : Frame) : Prop where
  knew : first.Tells w
  accepts : t.accept ⟨rs, block, first⟩ = .ok (.ok start)
  tells : told.Tells w
  since : first.Within told
  within : told.Within log
  last : P told root
  caller : root.context.caller = t.caller
  settles : root.Settles told (x.chargedGas * t.gasPrice).toWord t.preclaimed start.fresh
    block.beneficiary x.calls.root.overlay
  /-- A failure drops what was removed and logged. -/
  outcome : root.status = .exitedOk ∧ x.calls.root = { root with overlay := x.calls.root.overlay } ∨
    root.status ≠ .exitedOk ∧
      x.calls.root = { root with overlay := x.calls.root.overlay, removed := [], logs := [] }

/-- An execution that was settled came about in this way. -/
lemma Kept.settled {x : Execution} (h : e.Kept rs t block w P) (hx : e.settled? = some x) :
    ∃ (first told : CommitLog) (start : Execution) (root : Frame),
      SettledFrom rs t block w P e.chain.log x first told start root := by
  obtain ⟨first, start, hfirst, -, haccept, hfollows, hstands⟩ :=
    h.executing x (phase_of_settled hx)
  obtain ⟨-, -, htransaction, paid, code, -, hbegun⟩ := Transaction.accept_begins haccept
  have hsettled := settled_eq_true hx
  cases hstands with
  | running unsettled => cases hsettled.symm.trans unsettled
  | @settled y told root' tells since within alone last settles =>
      obtain ⟨swept, hswept, hroot⟩ := Frame.settle_settles settles
      have hbottom : (y.calls.withRoot root').root = root' := Execution.root_withRoot alone root'
      have hsame : root'.context = y.calls.root.context ∧ root'.overlay = swept := by
        rcases hroot with ⟨-, rfl⟩ | ⟨-, rfl⟩ <;> exact ⟨rfl, rfl⟩
      have hcontext : y.calls.root.context = t.rootContext rs.rules code := by
        have hfollowed := hfollows.context
        simp only [hbottom] at hfollowed
        exact hsame.1.symm.trans (hfollowed.trans hbegun.context)
      -- the fee is a matter of gas and refund, which settling leaves as they were
      have hcharged := Execution.chargedGas_settled alone
        (hroot.imp (fun h => h.2) (fun h => h.2))
      rw [hcontext, hfollows.fresh, hfollows.transaction.trans htransaction] at hswept
      refine ⟨first, told, start, y.calls.root, hfirst, haccept, tells, since, within, last,
        congrArg Context.caller hcontext, ?_, ?_⟩
      · rw [hcharged]
        simp only [hbottom, hsame.2]
        exact hswept
      · simp only [hbottom, hsame.2]
        exact hroot

end Engine

end ResumableEvm
