import ResumableEvm.Proofs.AttestedOverlay
import ResumableEvm.Proofs.Termination
import ResumableEvm.Proofs.WrittenOnce

/-!
# The course of a transaction

Up to its settlement an execution goes one way only: its frames take steps, and once the root has
ended its code is deposited.  What it comes to while a host answers it bit by bit, it comes to
under every log that knows all that the host has told.  So two hosts of one world may ask and answer
in a different order, and still settle the same execution; and an account that does not exist is
known to both of them or to neither, for a transaction that comes to ask for it will not do without.

* `Execution.Works`, `Execution.Ready` — the way to the settlement, and its end.
* `Transaction.LeadsTo` — what an execution comes to while its log grows.
* `Transaction.LeadsTo.comesTo` — it comes to that under every fuller log.
* `Engine.Hosted.onCourse` — what the engine comes to with a host that answers from a world.
-/

namespace ResumableEvm

open Relation

/-! ## Towards the settlement -/

namespace Execution

variable {rs : Ruleset} {block : Header} {chain : ChainView} {log log' : CommitLog}
  {e e' e'' : Execution}

/-- **A move towards the settlement:** a step of the frames, or once they have ended the deposit. -/
inductive Works (chain : ChainView) (e : Execution) : Execution → Prop where
  | ran {calls : CallStack} {event : Option Event} (running : e.calls.isExited = false)
      (stepped : e.calls.step chain = (calls, .ok event)) : Works chain e { e with calls := calls }
  | deposited {root : Frame} (ended : e.calls.isExited = true) (pending : e.depositPending = true)
      (deposits : e.calls.root.depositCode chain = (root, .ok ())) :
      Works chain e { e with calls := e.calls.withRoot root, depositPending := false }

/-- **An execution that can be settled:** its frames have ended, and its code is deposited. -/
structure Ready (e : Execution) : Prop where
  ended : e.calls.isExited = true
  deposited : e.depositPending = false

lemma alone_of_ended (h : e.calls.isExited = true) : e.calls.waiting = [] := by
  simp only [CallStack.isExited, Bool.and_eq_true, List.isEmpty_iff] at h
  exact h.1

/-- There is one move at most. -/
lemma works_unique (chain : ChainView) : Relator.RightUnique (Works chain) := by
  intro e e' e'' h h'
  cases h with
  | ran running stepped =>
      cases h' with
      | ran running' stepped' =>
          cases stepped.symm.trans stepped'
          rfl
      | deposited ended => cases running.symm.trans ended
  | deposited ended pending deposits =>
      cases h' with
      | ran running => cases running.symm.trans ended
      | deposited ended' pending' deposits' =>
          cases deposits.symm.trans deposits'
          rfl

/-- What can be settled moves no more. -/
lemma Ready.rests (h : e.Ready) : ¬ e.Works chain e' := by
  rintro (⟨running, -⟩ | ⟨-, pending, -⟩)
  · rw [h.ended] at running
    cases running
  · rw [h.deposited] at pending
    cases pending

lemma Works.moved (h : e.Works chain e') (hunsettled : e.settled = false) : e.Moved chain e' := by
  cases h with
  | ran running stepped => exact .ran hunsettled (CallStack.step_stepped stepped) ⟨_, stepped⟩
  | deposited ended pending deposits =>
      exact .deposited hunsettled (alone_of_ended ended) (Frame.depositCode_deposited deposits)

lemma Works.unsettled (h : e.Works chain e') (hunsettled : e.settled = false) :
    e'.settled = false := by
  cases h <;> exact hunsettled

/-- **A move is made under every fuller log.** -/
lemma Works.within (h : e.Works ⟨rs, block, log⟩ e') (hw : log.Within log')
    (hg : e.calls.current.overlay.Grounded log) : e.Works ⟨rs, block, log'⟩ e' := by
  cases h with
  | ran running stepped =>
      have hagree := e.calls.step_agree hw rs block hg
      rw [stepped] at hagree
      exact .ran running (hagree.same rfl)
  | deposited ended pending deposits =>
      have hagree := e.calls.root.depositCode_agree hw rs block
      rw [deposits] at hagree
      exact .deposited ended pending (hagree.same rfl)

/-- From one execution to two that both went on, one of them went on to the other; what can be
    settled is the last. -/
lemma works_to_ready (h : ReflTransGen (Works chain) e e') (h' : ReflTransGen (Works chain) e e'')
    (hready : e''.Ready) : ReflTransGen (Works chain) e' e'' := by
  rcases ReflTransGen.total_of_right_unique (works_unique chain) h h' with hto | hfrom
  · exact hto
  · rcases hfrom.cases_head with rfl | ⟨next, hnext, -⟩
    · exact .refl
    · exact absurd hnext hready.rests

/-! ### Steps -/

/-- Depositing is a move, if there is anything to deposit. -/
lemma deposit_works (hended : e.calls.isExited = true) (h : e.deposit chain = (e', .ok ())) :
    ReflTransGen (Works chain) e e' ∧ e'.Ready := by
  have halone := alone_of_ended hended
  have hexited : e.calls.current.status.isExited = true := by
    simp only [CallStack.isExited, Bool.and_eq_true] at hended
    exact hended.2
  have hwound := deposit_windsUp halone hexited h
  simp only [deposit] at h
  split at h
  · rename_i hpending
    split at h <;> rename_i hcode <;> cases h
    exact ⟨.single (.deposited hended hpending hcode), hwound.isExited, rfl⟩
  · rename_i hdone
    cases h
    exact ⟨.refl, hended, Bool.eq_false_of_not_eq_true hdone⟩

/-- What is ready has nothing left to deposit. -/
lemma Ready.deposit_eq (h : e.Ready) : e.deposit chain = (e, .ok ()) := by
  simp only [deposit]
  rw [h.deposited]
  rfl

lemma Ready.step_eq (h : e.Ready) (hunsettled : e.settled = false)
    (hs : e.settle chain = (e', .ok ())) : e.step chain = (e', .ok none) := by
  simp only [step, finish]
  rw [hunsettled, h.ended, h.deposit_eq]
  dsimp only
  rw [hs]
  rfl

/-- **What a step does** to an execution that is not settled. -/
inductive Advanced (chain : ChainView) (e : Execution) :
    Execution → Except Interrupt (Option Event) → Prop where
  | worked {e' : Execution} {event : Option Event} (works : e.Works chain e') :
      Advanced chain e e' (.ok event)
  | settled {ready e' : Execution} (works : ReflTransGen (Works chain) e ready)
      (atEnd : ready.Ready) (settles : ready.settle chain = (e', .ok ())) :
      Advanced chain e e' (.ok none)
  /-- It may have deposited before it asked. -/
  | asked {e' : Execution} {r : Requirement} (works : ReflTransGen (Works chain) e e') :
      Advanced chain e e' (.error (.requires r))
  | faulted {e' : Execution} {fault : Fault} (running : e.calls.isExited = false)
      (faults : (e.calls.step chain).2 = .error (.fault fault)) :
      Advanced chain e e' (.error (.fault fault))

lemma step_advanced {result : Except Interrupt (Option Event)} (hunsettled : e.settled = false)
    (h : e.step chain = (e', result)) : e.Advanced chain e' result := by
  simp only [step] at h
  split at h
  · rename_i hsettled
    cases hunsettled.symm.trans hsettled
  · split at h
    · rename_i hended
      simp only [finish] at h
      rcases hd : e.deposit chain with ⟨ready, r | ⟨⟩⟩ <;> rw [hd] at h
      · cases h
        simp only [deposit] at hd
        split at hd
        · split at hd <;> rename_i hcode <;> cases hd
          obtain rfl := Frame.depositCode_requires hcode
          rw [withRoot_root (alone_of_ended hended)]
          exact .asked .refl
        · cases hd
      · obtain ⟨hworks, hready⟩ := deposit_works hended hd
        dsimp only at h
        rcases hs : ready.settle chain with ⟨last, r | ⟨⟩⟩ <;> rw [hs] at h <;> cases h
        · simp only [settle] at hs
          split at hs <;> rename_i hroot <;> cases hs
          obtain rfl := Frame.settle_requires hroot
          rw [withRoot_root (alone_of_ended hready.ended)]
          exact .asked hworks
        · exact .settled hworks hready hs
    · rename_i hrunning
      have hrunning := Bool.eq_false_of_not_eq_true hrunning
      rcases hs : e.calls.step chain with ⟨calls, (r | fault) | event⟩ <;> rw [hs] at h <;> cases h
      · obtain rfl := CallStack.step_requires hs
        exact .asked .refl
      · exact .faulted hrunning (by rw [hs])
      · exact .worked (.ran hrunning hs)

/-- **An execution on its way to one that settles does not stop for anything.** -/
lemma step_ok_of_settles (hunsettled : e.settled = false)
    (h : ReflTransGen (Works chain) e e') (hready : e'.Ready)
    (hs : e'.settle chain = (e'', .ok ())) :
    ∃ next event, e.step chain = (next, .ok event) := by
  rcases h.cases_head with rfl | ⟨next, hnext, hrest⟩
  · exact ⟨e'', none, hready.step_eq hunsettled hs⟩
  · cases hnext with
    | @ran calls event running stepped =>
        refine ⟨{ e with calls := calls }, event, ?_⟩
        simp only [step]
        rw [hunsettled, running, stepped]
        rfl
    | @deposited root ended pending deposits =>
        have hdeposit : e.deposit chain =
            ({ e with calls := e.calls.withRoot root, depositPending := false }, .ok ()) := by
          simp only [deposit]
          rw [pending, deposits]
          rfl
        -- the deposit is the last move, so what follows is the settlement
        have hnext := (deposit_works ended hdeposit).2
        obtain rfl : _ = e' := by
          rcases hrest.cases_head with heq | ⟨next, hmove, -⟩
          · exact heq
          · exact absurd hmove hnext.rests
        refine ⟨e'', none, ?_⟩
        simp only [step, finish]
        rw [hunsettled, ended, hdeposit]
        dsimp only
        rw [hs]
        rfl

end Execution

/-! ## What a world tells of -/

namespace World

variable {w : World} {r : Requirement} {a : Address} {fullCode : Bool}

/-- A world tells the code of an account alone only if the account exists. -/
lemma exists_of_code_answer {told : Bytes}
    (h : (w.answer fullCode r).datum = .code a told) : w.accounts[a]? ≠ none := by
  intro hnone
  cases r with
  | account b =>
      simp only [answer] at h
      split at h <;> cases h
  | code b =>
      simp only [answer] at h
      split at h <;> rename_i hb
      · cases fullCode <;> cases h
        cases hnone.symm.trans hb
      · cases h
  | storage b index => cases h
  | blockHash number => cases h

/-- A world tells of an account only if it is asked for the account or its code. -/
lemma asked_of_account_answer {known : CommittedAccount}
    (h : (w.answer fullCode r).datum = .account a known) : r = .account a ∨ r = .code a := by
  cases r with
  | account b =>
      simp only [answer] at h
      split at h <;> cases h <;> exact .inl rfl
  | code b =>
      simp only [answer] at h
      split at h
      · cases fullCode <;> cases h
        exact .inr rfl
      · cases h
        exact .inr rfl
  | storage b index => cases h
  | blockHash number => cases h

end World

/-! ## What a transaction leads to -/

namespace Transaction

open Execution

variable {rs : Ruleset} {t : Transaction} {block : Header} {w : World}
  {log log' told full : CommitLog} {e e' ready : Execution} {r : Requirement}
  {P : CommitLog → Frame → Prop}

/-- **What a transaction leads to** before it is settled, under a log that tells of a world and may
    grow at any time. -/
inductive LeadsTo (t : Transaction) (rs : Ruleset) (block : Header) (w : World) :
    CommitLog → Execution → Prop where
  | accepted {log : CommitLog} {start : Execution} (tells : log.Tells w)
      (accepts : t.accept ⟨rs, block, log⟩ = .ok (.ok start)) : LeadsTo t rs block w log start
  | grow {log log' : CommitLog} {e : Execution} (before : LeadsTo t rs block w log e)
      (tells : log'.Tells w) (more : log.Within log') : LeadsTo t rs block w log' e
  | works {log : CommitLog} {e e' : Execution} (before : LeadsTo t rs block w log e)
      (works : e.Works ⟨rs, block, log⟩ e') : LeadsTo t rs block w log e'

namespace LeadsTo

lemma tells (h : t.LeadsTo rs block w log e) : log.Tells w := by
  induction h with
  | accepted tells => exact tells
  | grow before tells more => exact tells
  | works before works ih => exact ih

lemma unsettled (h : t.LeadsTo rs block w log e) : e.settled = false := by
  induction h with
  | accepted tells accepts => exact (accept_begins accepts).1
  | grow before tells more ih => exact ih
  | works before works ih => exact works.unsettled ih

lemma all_works (h : t.LeadsTo rs block w log e)
    (hworks : ReflTransGen (Works ⟨rs, block, log⟩) e e') :
    t.LeadsTo rs block w log e' := by
  induction hworks with
  | refl => exact h
  | tail hrest hmove ih => exact ih.works hmove

/-- It goes back to an acceptance. -/
lemma begins (h : t.LeadsTo rs block w log e) : ∃ (first : CommitLog) (start : Execution),
    first.Tells w ∧ first.Within log ∧ t.accept ⟨rs, block, first⟩ = .ok (.ok start) ∧
      start.Follows e := by
  induction h with
  | accepted tells accepts => exact ⟨_, _, tells, .refl _, accepts, rfl, rfl, rfl⟩
  | grow before tells more ih =>
      obtain ⟨first, start, hfirst, hsince, haccept, hfollows⟩ := ih
      exact ⟨first, start, hfirst, hsince.trans more, haccept, hfollows⟩
  | works before works ih =>
      obtain ⟨first, start, hfirst, hsince, haccept, hfollows⟩ := ih
      exact ⟨first, start, hfirst, hsince, haccept, (works.moved before.unsettled).follows hfollows⟩

/-- A property that frames keep and that the root begins with holds of all frames. -/
lemma every (hP : Frame.Kept rs block w P)
    (hstart : ∀ {log : CommitLog} {start : Execution}, log.Tells w →
      t.accept ⟨rs, block, log⟩ = .ok (.ok start) → P log start.calls.root)
    (h : t.LeadsTo rs block w log e) : e.calls.Every P log := by
  induction h with
  | @accepted log start tells accepts =>
      obtain ⟨-, halone, -⟩ := accept_begins accepts
      have hroot := every_withRoot halone (hstart tells accepts)
      rw [withRoot_root halone] at hroot
      exact hroot
  | grow before tells more ih => exact ih.grow hP tells more
  | works before works ih =>
      cases works with
      | ran running stepped =>
          exact (CallStack.step_stepped stepped).every hP before.tells ih
      | deposited ended pending deposits =>
          have halone := alone_of_ended ended
          have hroot := ih _ List.mem_cons_self
          rw [← root_of_alone halone] at hroot
          exact every_withRoot halone
            (hP.deposit before.tells (Frame.depositCode_deposited deposits) hroot)

lemma grounded (h : t.LeadsTo rs block w log e) : e.calls.current.overlay.Grounded log :=
  h.every (Frame.grounded_kept rs block w) (fun _ => root_grounded) _ List.mem_cons_self

/-- The root runs for the transaction. -/
lemma context (h : t.LeadsTo rs block w log e) :
    ∃ code, e.calls.root.context = t.rootContext rs.rules code := by
  obtain ⟨first, start, -, -, haccept, hfollows⟩ := h.begins
  obtain ⟨-, -, -, paid, code, -, hbegun⟩ := accept_begins haccept
  exact ⟨code, hfollows.context.trans hbegun.context⟩

lemma caller_eq (h : t.LeadsTo rs block w log e) : e.calls.root.context.caller = t.caller := by
  obtain ⟨code, hcontext⟩ := h.context
  rw [hcontext]
  rfl

/-- The caller has been known since the beginning. -/
lemma knows_caller (h : t.LeadsTo rs block w log e) (s : Overlay) :
    s.Knows e.calls.root.context.caller log := by
  obtain ⟨first, start, -, hsince, haccept, -⟩ := h.begins
  rw [h.caller_eq]
  exact caller_known haccept hsince s

lemma answers_caller (h : t.LeadsTo rs block w log e) :
    log.Answers (.account e.calls.root.context.caller) :=
  (Overlay.Attested.empty rs.rules.accounts log).answers (h.knows_caller _)

/-! ### Under a fuller log -/

/-- **What a transaction leads to while its log grows, it comes to under every fuller log.** -/
lemma comesTo (h : t.LeadsTo rs block w log e) (hw : log.Within full) :
    ∃ start, t.accept ⟨rs, block, full⟩ = .ok (.ok start) ∧
      ReflTransGen (Works ⟨rs, block, full⟩) start e := by
  induction h with
  | @accepted log start tells accepts =>
      have hagree := t.accept_agree hw rs block
      rw [accepts] at hagree
      exact ⟨start, hagree.same rfl, .refl⟩
  | grow before tells more ih => exact ih (more.trans hw)
  | works before works ih =>
      obtain ⟨start, haccept, hworks⟩ := ih hw
      exact ⟨start, haccept, hworks.tail (works.within hw before.grounded)⟩

/-- Whatever a transaction leads to goes on to what it can be settled from. -/
lemma goesOn (h : t.LeadsTo rs block w log e) (h' : t.LeadsTo rs block w told ready)
    (hready : ready.Ready) (hw : log.Within full) (hw' : told.Within full) :
    ReflTransGen (Works ⟨rs, block, full⟩) e ready := by
  obtain ⟨start, haccept, hworks⟩ := h.comesTo hw
  obtain ⟨start', haccept', hworks'⟩ := h'.comesTo hw'
  obtain rfl : start = start' := Except.ok.inj (Except.ok.inj (haccept.symm.trans haccept'))
  exact works_to_ready hworks hworks' hready

/-- **There is one execution that a transaction can be settled from.** -/
lemma ready_unique (h : t.LeadsTo rs block w log e) (h' : t.LeadsTo rs block w log' e')
    (hready : e.Ready) (hready' : e'.Ready) : e = e' := by
  obtain ⟨full, hfull, hc⟩ := w.exists_complete
  have hworks := h.goesOn h' hready' (hc.within hfull h.tells) (hc.within hfull h'.tells)
  rcases hworks.cases_head with heq | ⟨next, hmove, -⟩
  · exact heq
  · exact absurd hmove hready.rests

/-- What can be settled is settled alike under a fuller log that does not know the beneficiary
    either. -/
lemma settle_eq (h : t.LeadsTo rs block w log e) (hw : log.Within full)
    (hpayee : ¬ full.Answers (.account block.beneficiary))
    (hs : e.settle ⟨rs, block, log⟩ = (e', .ok ())) :
    e.settle ⟨rs, block, full⟩ = (e', .ok ()) := by
  have hagree := e.settle_agree hw rs block (fun _ => h.answers_caller)
    (fun hfull => absurd hfull hpayee)
  rw [hs] at hagree
  exact hagree.same rfl

end LeadsTo

/-- A rejection is one under every fuller log. -/
lemma rejects_within {reason : Rejection} (h : t.accept ⟨rs, block, log⟩ = .ok (.error reason))
    (hw : log.Within full) : t.accept ⟨rs, block, full⟩ = .ok (.error reason) := by
  have hagree := t.accept_agree hw rs block
  rw [h] at hagree
  exact hagree.same rfl

/-- What a transaction leads to was not rejected. -/
lemma LeadsTo.not_rejected {reason : Rejection} (h : t.LeadsTo rs block w told e)
    (ht : log.Tells w) : t.accept ⟨rs, block, log⟩ ≠ .ok (.error reason) := by
  intro hrejects
  obtain ⟨full, hfull, hc⟩ := w.exists_complete
  obtain ⟨start, haccept, -⟩ := h.comesTo (hc.within hfull h.tells)
  cases (rejects_within hrejects (hc.within hfull ht)).symm.trans haccept

/-! ### Questions -/

/-- **What a transaction comes to ask for** under a log of a world. -/
inductive Asks (t : Transaction) (rs : Ruleset) (block : Header) (w : World) (log : CommitLog)
    (r : Requirement) : Prop where
  | accepting (tells : log.Tells w) (asks : t.accept ⟨rs, block, log⟩ = .error (.requires r))
  | executing {e e' : Execution} (leads : t.LeadsTo rs block w log e)
      (asks : e.step ⟨rs, block, log⟩ = (e', .error (.requires r)))

lemma Asks.tells (h : t.Asks rs block w log r) : log.Tells w := by
  cases h with
  | accepting tells => exact tells
  | executing leads => exact leads.tells

/-- **What is asked for is needed:** a transaction that comes to ask for it is not settled under a
    log that lacks it.  Settling does not care what is known but for the beneficiary. -/
lemma Asks.needed (h : t.Asks rs block w log r) (hleads : t.LeadsTo rs block w told ready)
    (hready : ready.Ready) (hw : log.Within full) (hw' : told.Within full)
    (hlacks : full.Lacks r) (hpayee : ¬ full.Answers (.account block.beneficiary)) :
    ready.settle ⟨rs, block, told⟩ ≠ (e', .ok ()) := by
  intro hs
  cases h with
  | accepting tells asks =>
      obtain ⟨start, haccept, -⟩ := hleads.comesTo hw'
      have hagree := t.accept_agree hw rs block
      rw [asks, haccept] at hagree
      cases hagree.waits rfl hlacks
  | @executing e asked leads asks =>
      have hworks := leads.goesOn hleads hready hw hw'
      obtain ⟨next, event, hstep⟩ := step_ok_of_settles leads.unsettled hworks hready
        (hleads.settle_eq hw' hpayee hs)
      have hagree := step_agree hw rs block (fun _ => leads.grounded)
        (fun _ => leads.answers_caller) (fun hfull => absurd hfull hpayee)
      rw [asks, hstep] at hagree
      cases hagree.waits rfl hlacks

/-- **A log that was told of an account that does not exist only when the transaction came to ask
    for it.** -/
def Elicits (t : Transaction) (rs : Ruleset) (block : Header) (w : World) (log : CommitLog) :
    Prop :=
  ∀ a : Address, w.accounts[a]? = none → log.codes[a]? = none ∧
    (log.Answers (.account a) → ∃ (log' : CommitLog) (r : Requirement),
      ¬ log'.Answers (.code a) ∧ t.Asks rs block w log' r ∧ (r = .account a ∨ r = .code a))

namespace Elicits

lemma empty (t : Transaction) (rs : Ruleset) (block : Header) (w : World) :
    t.Elicits rs block w {} := by
  intro a ha
  refine ⟨by simp, ?_⟩
  rintro ⟨known, hk⟩
  rw [CommitLog.account_eq_ok] at hk
  simp at hk

/-- An answer to what is asked for tells of no account that does not exist but the one that is asked
    for, and of no code alone. -/
lemma record (h : t.Elicits rs block w log) (hasks : t.Asks rs block w log r) {fullCode : Bool}
    (hrecord : log.record (w.answer fullCode r) = .ok log') : t.Elicits rs block w log' := by
  intro a ha
  obtain ⟨hcode, haccount⟩ := h a ha
  have hexact := (CommitLog.record_adds hrecord).exact
  constructor
  · by_contra hsome
    obtain ⟨told, htold⟩ := Option.ne_none_iff_exists'.mp hsome
    rcases (hexact (.code a told)).mp htold with hold | hnew
    · cases hcode.symm.trans hold
    · exact World.exists_of_code_answer hnew.symm ha
  · rintro ⟨known, hknown⟩
    rw [CommitLog.account_eq_ok] at hknown
    by_cases hold : log.Answers (.account a)
    · exact haccount hold
    · have hsilent : ¬ log.Answers (.code a) := by
        rw [CommitLog.answers_code_iff, hcode]
        rintro (⟨code, hc⟩ | ⟨known', hk⟩)
        · cases hc
        · exact hold ⟨known', CommitLog.account_eq_ok.mpr hk⟩
      refine ⟨log, r, hsilent, hasks, ?_⟩
      rcases (hexact (.account a known)).mp hknown with hk | hnew
      · exact absurd ⟨known, CommitLog.account_eq_ok.mpr hk⟩ hold
      · exact World.asked_of_account_answer hnew.symm

/-- **Two settlements of one transaction know of a beneficiary that does not exist, or neither
    does.** -/
lemma payee_known (h : t.Elicits rs block w log) (h' : t.Elicits rs block w told)
    (hnone : w.accounts[block.beneficiary]? = none) (hleads : t.LeadsTo rs block w told ready)
    (hready : ready.Ready) (hs : ready.settle ⟨rs, block, told⟩ = (e', .ok ()))
    (hknown : log.Answers (.account block.beneficiary)) :
    told.Answers (.account block.beneficiary) := by
  by_contra hunknown
  obtain ⟨full, -, hbut, hwithin⟩ := w.exists_complete_but block.beneficiary
  have hsilent : ¬ told.Answers (.code block.beneficiary) := by
    rw [CommitLog.answers_code_iff, (h' _ hnone).1]
    rintro (⟨code, hc⟩ | ⟨known, hk⟩)
    · cases hc
    · exact hunknown ⟨known, CommitLog.account_eq_ok.mpr hk⟩
  obtain ⟨log', r, hsilent', hasks, hr⟩ := (h _ hnone).2 hknown
  have hlacks : full.accounts[block.beneficiary]? = none ∧
      full.codes[block.beneficiary]? = none := by
    rw [CommitLog.answers_code_iff, not_or] at hbut
    simp only [not_exists, ← Option.eq_none_iff_forall_ne_some] at hbut
    exact ⟨hbut.2, hbut.1⟩
  have hpayee : ¬ full.Answers (.account block.beneficiary) := by
    rintro ⟨known, hk⟩
    cases hlacks.1.symm.trans (CommitLog.account_eq_ok.mp hk)
  refine hasks.needed hleads hready (hwithin _ hasks.tells hsilent')
    (hwithin _ hleads.tells hsilent) ?_ hpayee hs
  rcases hr with rfl | rfl
  · exact hlacks.1
  · exact ⟨hlacks.2, hlacks.1⟩

end Elicits

/-! ### Phases -/

/-- **What a transaction comes to with a host,** from its validation to its settlement. -/
inductive Reaches (t : Transaction) (rs : Ruleset) (block : Header) (w : World) (log : CommitLog) :
    Phase → Prop where
  | validating : Reaches t rs block w log (.validating t)
  | rejected {reason : Rejection} (rejects : t.accept ⟨rs, block, log⟩ = .ok (.error reason)) :
      Reaches t rs block w log (.rejected reason)
  | executing {e : Execution} (leads : t.LeadsTo rs block w log e) :
      Reaches t rs block w log (.executing e)
  | settled {told : CommitLog} {ready e : Execution} (elicits : t.Elicits rs block w told)
      (within : told.Within log) (leads : t.LeadsTo rs block w told ready) (atEnd : ready.Ready)
      (settles : ready.settle ⟨rs, block, told⟩ = (e, .ok ())) :
      Reaches t rs block w log (.executing e)

lemma Reaches.grow {phase : Phase} (h : t.Reaches rs block w log phase) (ht : log'.Tells w)
    (hw : log.Within log') : t.Reaches rs block w log' phase := by
  cases h with
  | validating => exact .validating
  | rejected rejects => exact .rejected (rejects_within rejects hw)
  | executing leads => exact .executing (leads.grow ht hw)
  | settled elicits within leads atEnd settles =>
      exact .settled elicits (within.trans hw) leads atEnd settles

/-- **A step of an execution,** whether it is taken or stops for a datum. -/
lemma LeadsTo.step_reaches {result : Except Interrupt (Option Event)}
    (h : t.LeadsTo rs block w log e) (helicits : t.Elicits rs block w log)
    (hstep : e.step ⟨rs, block, log⟩ = (e', result))
    (hfaultless : ∀ fault, result ≠ .error (.fault fault)) :
    t.Reaches rs block w log (.executing e') := by
  cases step_advanced h.unsettled hstep with
  | worked works => exact .executing (h.works works)
  | settled works atEnd settles =>
      exact .settled helicits (.refl log) (h.all_works works) atEnd settles
  | asked works => exact .executing (h.all_works works)
  | faulted => exact absurd rfl (hfaultless _)

end Transaction

/-- Settling leaves an execution settled. -/
lemma Execution.settled_of_settle {chain : ChainView} {e e' : Execution}
    (h : e.settle chain = (e', .ok ())) : e'.settled = true := by
  simp only [settle] at h
  split at h <;> cases h
  rfl

/-! ## The engine and its host -/

namespace Engine

variable {rs : Ruleset} {t : Transaction} {block : Header} {w : World} {e e' : Engine}

/-- **An engine on course:** what it has come to, what it waits for, and what it was told are what
    its transaction makes of them. -/
structure OnCourse (rs : Ruleset) (t : Transaction) (block : Header) (w : World) (e : Engine) :
    Prop where
  elicits : t.Elicits rs block w e.chain.log
  asks : ∀ r, e.pending = some r → t.Asks rs block w e.chain.log r
  phase : t.Reaches rs block w e.chain.log e.phase

lemma OnCourse.step (h : e.OnCourse rs t block w) (hchain : e.chain = ⟨rs, block, e.chain.log⟩)
    (ht : e.chain.log.Tells w) (hs : e.step = .ok e') : e'.OnCourse rs t block w := by
  obtain ⟨chain, phase, pending, events, logs, changes⟩ := e
  obtain ⟨helicits, hasks, hphase⟩ := h
  dsimp only at hchain ht helicits hasks hphase
  generalize hlog : chain.log = log at *
  subst hchain
  simp only [Engine.step] at hs
  cases pending with
  | some r =>
      cases hs
      exact ⟨helicits, hasks, hphase⟩
  | none =>
      cases hphase with
      | validating =>
          dsimp only at hs
          split at hs <;> rename_i haccept
          · cases hs
            exact ⟨helicits, hasks, .executing (.accepted ht haccept)⟩
          · cases hs
            exact ⟨helicits, hasks, .rejected haccept⟩
          · obtain ⟨r, rfl, rfl⟩ := interrupt_eq_ok hs
            refine ⟨helicits, ?_, .validating⟩
            rintro _ ⟨⟩
            exact .accepting ht haccept
      | rejected rejects =>
          cases hs
          exact ⟨helicits, hasks, .rejected rejects⟩
      | @executing x leads =>
          dsimp only at hs
          split at hs <;> rename_i hstep
          · cases hs
            exact ⟨helicits, hasks, leads.step_reaches helicits hstep (by rintro _ ⟨⟩)⟩
          · obtain ⟨r, rfl, rfl⟩ := interrupt_eq_ok hs
            refine ⟨helicits, ?_, leads.step_reaches helicits hstep (by rintro _ ⟨⟩)⟩
            rintro _ ⟨⟩
            exact .executing leads hstep
      | @settled told ready x elicits within leads atEnd settles =>
          have hsettled := Execution.settled_of_settle settles
          simp only [Execution.step] at hs
          rw [hsettled] at hs
          cases hs
          exact ⟨helicits, hasks, .settled elicits within leads atEnd settles⟩

lemma OnCourse.answer {fullCode : Bool} (h : e.OnCourse rs t block w)
    (ht : e.chain.log.Tells w) (hlacks : ∀ r, e.pending = some r → e.chain.log.Lacks r)
    (ha : e.answer w fullCode = .ok e') : e'.OnCourse rs t block w := by
  rcases answer_eq_ok ha with rfl | ⟨r, log, hr, htold, hchain, hpending, hphase, -⟩
  · exact h
  · obtain ⟨log', htold', htells, hwithin, -, -⟩ := ht.record (hlacks r hr) fullCode
    obtain rfl : log = log' := Except.ok.inj (htold.symm.trans htold')
    refine ⟨?_, ?_, ?_⟩
    · rw [hchain]
      exact h.elicits.record (h.asks r hr) htold
    · rw [hpending]
      rintro _ ⟨⟩
    · rw [hchain, hphase]
      exact h.phase.grow htells hwithin

/-- **With a host that answers from a world the engine stays on course.** -/
lemma Hosted.onCourse (h : Hosted rs t block w e) : e.OnCourse rs t block w := by
  induction h with
  | create => exact ⟨.empty t rs block w, by rintro _ ⟨⟩, .validating⟩
  | step before stepped ih =>
      exact ih.step before.grounded.chain before.grounded.tells stepped
  | answer before answered ih =>
      exact ih.answer before.grounded.tells before.grounded.lacks answered

end Engine

end ResumableEvm
