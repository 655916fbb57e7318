import ResumableEvm.Proofs.Conservation
import ResumableEvm.Proofs.Courses
import ResumableEvm.Proofs.SettledAlike

/-!
# Code alone or the whole account

A question for the code of an account may be answered by the code alone or by the whole account.
A host that prefers the one is asked other things than a host that prefers the other, but both come
to the same end: they settle one and the same execution, and a beneficiary that one of them knows by
its code only is reported to have been paid just what it is paid where it is known.

* `Execution.settledWith` — a settled execution, given its final accounts.
* `Transaction.LeadsTo.closes`, `Transaction.LeadsTo.faultless` — what comes to a settlement was
  told enough, and has no fault on its way.
* `Engine.SameOutput` — all that a host reads in the end.
* `Engine.Hosted.same_output` — the engine has the same output with every host of a world.
* `Engine.Hosted.faultless` — it exits with every host, or with none.
* `code_answers_are_interchangeable` — two hosts of a world come to the same end.
-/

namespace ResumableEvm

open Relation

/-! ## Settled executions -/

namespace Execution

variable {chain : ChainView} {e e' : Execution}

/-- What the caller pays for its gas in the end. -/
def fee (e : Execution) : Word := (e.chargedGas * e.calls.root.context.gasPrice).toWord

/-- **A settled execution,** given its final accounts.  What a failure logged and removed is
    dropped. -/
def settledWith (e : Execution) (swept : Overlay) : Execution :=
  let root := e.calls.root
  { e with
    calls := e.calls.withRoot
      (if root.status = .exitedOk then { root with overlay := swept }
      else { root with overlay := swept, removed := [], logs := [] })
    settled := true }

lemma settle_eq_ok (h : e.settle chain = (e', .ok ())) : ∃ swept : Overlay,
    e.calls.root.Settles chain.log e.fee e.transaction.preclaimed e.fresh
        chain.block.beneficiary swept ∧ e' = e.settledWith swept := by
  simp only [settle] at h
  split at h <;> rename_i hroot <;> cases h
  obtain ⟨swept, hsettles, ⟨hok, rfl⟩ | ⟨hfailed, rfl⟩⟩ := Frame.settle_settles hroot
  · exact ⟨swept, hsettles, by simp only [settledWith, if_pos hok]⟩
  · exact ⟨swept, hsettles, by simp only [settledWith, if_neg hfailed]⟩

/-- Settling leaves what the caller pays for. -/
lemma settledWith_chargedGas (halone : e.calls.waiting = []) (swept : Overlay) :
    (e.settledWith swept).chargedGas = e.chargedGas := by
  simp only [settledWith]
  split
  · exact chargedGas_settled halone (.inl rfl)
  · exact chargedGas_settled halone (.inr rfl)

lemma settledWith_overlay (halone : e.calls.waiting = []) (swept : Overlay) :
    (e.settledWith swept).calls.root.overlay = swept := by
  simp only [settledWith, root_withRoot halone]
  split <;> rfl

end Execution

/-! ## Before the settlement -/

namespace Transaction.LeadsTo

open Execution

variable {rs : Ruleset} {t : Transaction} {block : Header} {w : World}
  {x e ready : Execution} {told log : CommitLog}

lemma fee_eq (h : t.LeadsTo rs block w log e) : e.fee = (e.chargedGas * t.gasPrice).toWord := by
  obtain ⟨code, hcontext⟩ := h.context
  simp only [fee]
  rw [hcontext]
  rfl

/-- **What can be settled was told enough.** -/
lemma closes (h : t.LeadsTo rs block w told ready) (hready : ready.Ready) (ht : log.Tells w)
    (hw : told.Within log) (hs : ready.settle ⟨rs, block, told⟩ = (e, .ok ())) :
    ∃ swept : Overlay, e = ready.settledWith swept ∧
      ready.calls.root.Closes rs.rules.accounts w ready.fee ready.transaction.preclaimed ready.fresh
        block.beneficiary told log swept := by
  obtain ⟨swept, hsettles, rfl⟩ := settle_eq_ok hs
  obtain ⟨first, start, -, hsince, haccept, hfollows⟩ := h.begins
  have hattested := h.every (Frame.attested_kept rs block w)
    (fun _ => root_attested) _ List.mem_cons_self
  have hanchored := h.every (Frame.anchored_kept rs block w rs.rules.accounts)
    (fun _ => root_anchored) _ List.mem_cons_self
  rw [← root_of_alone (alone_of_ended hready.ended)] at hattested hanchored
  refine ⟨swept, rfl, hsettles, h.tells, ht, hw, h.knows_caller, hattested, ?_, hanchored, ?_⟩
  · rw [hfollows.fresh]
    exact (fresh_attested haccept).within hsince
  · rw [hfollows.fresh]
    exact (fresh_anchored haccept).within hsince

/-- **What comes to a settlement does not come to a fault.** -/
lemma faultless {fault : Fault} (h : t.LeadsTo rs block w log x)
    (hrunning : x.calls.isExited = false)
    (hfaults : (x.calls.step ⟨rs, block, log⟩).2 = .error (.fault fault)) :
    ¬ (t.LeadsTo rs block w told ready ∧ ready.Ready) := by
  rintro ⟨hleads, hready⟩
  obtain ⟨full, hfull, hc⟩ := w.exists_complete
  have hw := hc.within hfull h.tells
  have hagree := x.calls.step_agree hw rs block h.grounded
  have hsame := hagree.same (congrArg Asking.asked? hfaults)
  rcases (h.goesOn hleads hready hw (hc.within hfull hleads.tells)).cases_head with
    rfl | ⟨next, hmove, -⟩
  · rw [hready.ended] at hrunning
    cases hrunning
  · cases hmove with
    | ran running stepped =>
        rw [← hsame, stepped] at hfaults
        cases hfaults
    | deposited ended =>
        rw [ended] at hrunning
        cases hrunning

end Transaction.LeadsTo

/-! ## Output -/

namespace Engine

variable {rs : Ruleset} {t : Transaction} {block : Header} {w : World} {e e' : Engine}
  {x ready : Execution} {told : CommitLog}

/-- **All that a host reads in the end.** -/
structure SameOutput (e e' : Engine) : Prop where
  status : e'.status = e.status
  usedGas : e'.usedGas = e.usedGas
  consumedGas : e'.consumedGas = e.consumedGas
  refundedGas : e'.refundedGas = e.refundedGas
  out : e'.out = e.out
  logs : e'.logs = e.logs
  changes : e'.changes = e.changes

/-- Two engines that have rejected a transaction for the same reason. -/
lemma SameOutput.of_rejected {reason : Rejection} (houtput : e.HoldsOutput)
    (houtput' : e'.HoldsOutput) (h : e.phase = .rejected reason)
    (h' : e'.phase = .rejected reason) : e.SameOutput e' := by
  have hnone : ∀ {e : Engine}, e.phase = .rejected reason → e.settled? = none := by
    intro e h
    simp only [settled?, h]
  refine ⟨?_, ?_, ?_, ?_, ?_, ?_, ?_⟩
  · simp only [Engine.status, h, h']
  · simp only [Engine.usedGas, hnone h, hnone h']
  · simp only [Engine.consumedGas, h, h']
  · simp only [Engine.refundedGas, hnone h, hnone h']
  · simp only [Engine.out, hnone h, hnone h']
  · rw [houtput.logs_of_unsettled (hnone h), houtput'.logs_of_unsettled (hnone h')]
  · rw [houtput.changes_of_unsettled (hnone h), houtput'.changes_of_unsettled (hnone h')]

lemma settled?_settledWith {swept : Overlay} (h : e.phase = .executing (x.settledWith swept)) :
    e.settled? = some (x.settledWith swept) := by
  simp only [settled?, h, Execution.settledWith, if_true]

/-- Two engines that have settled the same execution, with the same changes. -/
lemma SameOutput.of_settled {swept swept' : Overlay} (houtput : e.HoldsOutput)
    (houtput' : e'.HoldsOutput) (halone : x.calls.waiting = [])
    (h : e.phase = .executing (x.settledWith swept))
    (h' : e'.phase = .executing (x.settledWith swept'))
    (hchanges : swept'.changes e'.chain.log = swept.changes e.chain.log) : e.SameOutput e' := by
  have hsettled := settled?_settledWith h
  have hsettled' := settled?_settledWith h'
  have hcharged := Execution.settledWith_chargedGas halone
  have hoverlay := Execution.settledWith_overlay halone
  obtain ⟨⟨current, waiting⟩, transaction, intrinsicGas, depositPending, fresh, settled⟩ := x
  obtain rfl : waiting = [] := halone
  refine ⟨?_, ?_, ?_, ?_, ?_, ?_, ?_⟩
  · rw [status_of_settled hsettled, status_of_settled hsettled']
    simp only [Execution.settledWith]
    split <;> rfl
  · rw [usedGas_of_settled hsettled, usedGas_of_settled hsettled', hcharged, hcharged]
  · simp only [Engine.consumedGas, h, h', Execution.settledWith]
    split <;> rfl
  · simp only [Engine.refundedGas, hsettled, hsettled', Execution.settledWith]
    split <;> rfl
  · simp only [Engine.out, hsettled, hsettled', Execution.settledWith]
    split <;> rfl
  · rw [houtput.logs_of_settled hsettled, houtput'.logs_of_settled hsettled']
    simp only [Execution.settledWith]
    split <;> rfl
  · rw [houtput.changes_of_settled hsettled, houtput'.changes_of_settled hsettled', hoverlay,
      hoverlay]
    exact hchanges

/-! ## The end of a run -/

/-- **How an engine has exited** with a host that answers from a world: its transaction was
    rejected, or it was settled under a log that was told enough. -/
inductive Exited (rs : Ruleset) (t : Transaction) (block : Header) (w : World) (e : Engine) :
    Prop where
  | rejected {reason : Rejection} (phase : e.phase = .rejected reason)
      (rejects : t.accept ⟨rs, block, e.chain.log⟩ = .ok (.error reason)) : Exited rs t block w e
  | settled {told : CommitLog} {ready : Execution} {swept : Overlay}
      (phase : e.phase = .executing (ready.settledWith swept))
      (elicits : t.Elicits rs block w told) (leads : t.LeadsTo rs block w told ready)
      (atEnd : ready.Ready)
      (settles : ready.settle ⟨rs, block, told⟩ = (ready.settledWith swept, .ok ()))
      (closes : ready.calls.root.Closes rs.rules.accounts w ready.fee ready.transaction.preclaimed
        ready.fresh block.beneficiary told e.chain.log swept) : Exited rs t block w e

lemma Hosted.exited (h : Hosted rs t block w e) (hexited : e.isExited = true) :
    e.Exited rs t block w := by
  have hphase := h.onCourse.phase
  generalize hp : e.phase = phase at hphase
  cases hphase with
  | validating =>
      simp only [isExited, Engine.status, hp] at hexited
      cases hexited
  | rejected rejects => exact .rejected hp rejects
  | executing leads =>
      simp only [isExited, Engine.status, hp, leads.unsettled] at hexited
      cases hexited
  | settled elicits within leads atEnd settles =>
      obtain ⟨swept, rfl, hcloses⟩ := leads.closes atEnd h.grounded.tells within settles
      exact .settled hp elicits leads atEnd settles hcloses

/-- Where the beneficiary is not the caller, there is room for the fee: both together have no more
    than a word. -/
lemma Hosted.room (h : Hosted rs t block w e) (hsum : w.totalBalance < 2 ^ 256) {swept : Overlay}
    (hphase : e.phase = .executing (ready.settledWith swept))
    (hleads : t.LeadsTo rs block w told ready) (hready : ready.Ready) {account : WorldAccount}
    (haccount : w.accounts[block.beneficiary]? = some account)
    (hstranger : block.beneficiary ≠ ready.calls.root.context.caller) :
    account.balance.toNat + ready.fee.toNat < 2 ^ 256 := by
  obtain ⟨first, start, hfirst, -, haccept, -⟩ := hleads.begins
  rw [hleads.caller_eq] at hstranger
  rw [hleads.fee_eq]
  have hfee := h.fee_le (settled?_settledWith hphase)
  rw [Execution.settledWith_chargedGas (Execution.alone_of_ended hready.ended)] at hfee
  have hclaims := Transaction.claims_covered haccept hfirst
  have hpair := pair_le_totalBalance (w.view rs.rules.accounts) hstranger
  rw [w.totalBalance_view] at hpair
  have hbalance : (w.view rs.rules.accounts block.beneficiary).balance = account.balance := by
    simp only [World.view, haccount]
    rfl
  rw [hbalance] at hpair
  omega

/-- **The engine has the same output with every host of a world.** -/
lemma Hosted.same_output (h : Hosted rs t block w e) (h' : Hosted rs t block w e')
    (hsum : w.totalBalance < 2 ^ 256) (hexited : e.isExited = true)
    (hexited' : e'.isExited = true) : e.SameOutput e' := by
  cases h.exited hexited with
  | rejected phase rejects =>
      cases h'.exited hexited' with
      | rejected phase' rejects' =>
          obtain ⟨full, hfull, hc⟩ := w.exists_complete
          have hreject := Transaction.rejects_within rejects (hc.within hfull h.grounded.tells)
          have hreject' := Transaction.rejects_within rejects' (hc.within hfull h'.grounded.tells)
          cases hreject.symm.trans hreject'
          exact .of_rejected h.reachable.holdsOutput h'.reachable.holdsOutput phase phase'
      | settled phase' elicits' leads' =>
          exact (leads'.not_rejected h.grounded.tells rejects).elim
  | settled phase elicits leads atEnd settles closes =>
      cases h'.exited hexited' with
      | rejected phase' rejects' =>
          exact (leads.not_rejected h'.grounded.tells rejects').elim
      | settled phase' elicits' leads' atEnd' settles' closes' =>
          obtain rfl := leads.ready_unique leads' atEnd atEnd'
          have halone := Execution.alone_of_ended atEnd.ended
          refine .of_settled h.reachable.holdsOutput h'.reachable.holdsOutput halone phase phase'
            (closes.changes_eq closes' ?_ ?_)
          · -- of a beneficiary that does not exist both logs tell or neither does
            intro hdiffer hnone
            exact hdiffer
              ⟨elicits.payee_known elicits' hnone leads' atEnd' settles',
                elicits'.payee_known elicits hnone leads atEnd settles⟩
          · intro account haccount hstranger
            exact h.room hsum phase leads atEnd haccount hstranger

/-! ## Runs -/

/-- **An engine that stops for a fault** with one host of a world exits with none. -/
lemma Hosted.faultless {fault : Fault} (h : Hosted rs t block w e) (h' : Hosted rs t block w e')
    (hexited : e'.isExited = true) : e.step ≠ .error fault := by
  intro hs
  have hreaches := h.onCourse.phase
  obtain ⟨full, hfull, hc⟩ := w.exists_complete
  rcases step_faults hs with ⟨t', hphase, haccept⟩ | ⟨x, x', hphase, hstep⟩ <;>
    rw [hphase] at hreaches
  · cases hreaches
    rw [h.grounded.chain] at haccept
    have hagree := t.accept_agree (hc.within hfull h.grounded.tells) rs block
    rw [haccept] at hagree
    have hfaults := hagree.same rfl
    cases h'.exited hexited with
    | rejected phase rejects =>
        cases hfaults.symm.trans
          (Transaction.rejects_within rejects (hc.within hfull h'.grounded.tells))
    | settled phase elicits leads =>
        obtain ⟨start, haccept', -⟩ := leads.comesTo (hc.within hfull leads.tells)
        cases hfaults.symm.trans haccept'
  · rw [h.grounded.chain] at hstep
    cases hreaches with
    | executing leads =>
        cases Execution.step_advanced leads.unsettled hstep with
        | faulted running faults =>
            cases h'.exited hexited with
            | rejected phase rejects => exact leads.not_rejected h'.grounded.tells rejects
            | settled phase elicits leads' atEnd =>
                exact leads.faultless running faults ⟨leads', atEnd⟩
    | settled elicits within leads atEnd settles =>
        simp only [Execution.step] at hstep
        rw [Execution.settled_of_settle settles] at hstep
        cases hstep

variable {host : Requirement → Answer}

/-- **A run with a host of a world** comes to an engine that is hosted by the world, or stops where
    such an engine has a fault. -/
lemma Hosted.runBy_comesTo (h : Hosted rs t block w e) (hhost : w.Hosts host) (fuel : ℕ) :
    ∃ last, Hosted rs t block w last ∧ (e.runBy host fuel = .ok last ∨
      ∃ fault, last.step = .error fault ∧ e.runBy host fuel = .error fault) := by
  induction fuel generalizing e with
  | zero => exact ⟨e, h, .inl rfl⟩
  | succ fuel ih =>
      simp only [Engine.runBy]
      split
      · exact ⟨e, h, .inl rfl⟩
      · split
        · rename_i r hr
          obtain ⟨fullCode, hanswers⟩ := hhost r
          split
          · rename_i told htold
            have hanswer : e.answer w fullCode = .ok told := by
              simp only [Engine.answer, hr]
              rw [← hanswers, htold]
            exact ih (h.answer hanswer)
          · exact ⟨e, h, .inl rfl⟩
        · split <;> rename_i hstepped
          · exact ih (h.step hstepped)
          · exact ⟨e, h, .inr ⟨_, hstepped, rfl⟩⟩

lemma Hosted.of_runBy {fuel : ℕ} (h : Hosted rs t block w e) (hhost : w.Hosts host)
    (hrun : e.runBy host fuel = .ok e') : Hosted rs t block w e' := by
  obtain ⟨last, hlast, hok | ⟨fault, -, herror⟩⟩ := h.runBy_comesTo hhost fuel
  · cases hok.symm.trans hrun
    exact hlast
  · cases herror.symm.trans hrun

/-- **A run that stops for a fault does not get to the end with another host either.** -/
lemma Hosted.runBy_faultless {fault : Fault} {fuel : ℕ} (h : Hosted rs t block w e)
    (hhost : w.Hosts host) (hrun : e.runBy host fuel = .error fault)
    (h' : Hosted rs t block w e') : e'.isExited = false := by
  obtain ⟨last, hlast, hok | ⟨fault', hs, -⟩⟩ := h.runBy_comesTo hhost fuel
  · cases hok.symm.trans hrun
  · exact Bool.eq_false_of_not_eq_true fun hexited => hlast.faultless h' hexited hs

/-- An engine that has exited stays as it is on more fuel. -/
lemma runBy_stays {fuel more : ℕ} (h : e.runBy host fuel = .ok e') (hexited : e'.isExited = true)
    (hle : fuel ≤ more) : e.runBy host more = .ok e' := by
  induction fuel generalizing e more with
  | zero =>
      cases h
      cases more with
      | zero => rfl
      | succ more => simp only [runBy, hexited, if_true]
  | succ fuel ih =>
      obtain ⟨more, rfl⟩ := Nat.exists_eq_add_of_le' hle
      have hrest : fuel ≤ more + fuel := Nat.le_add_left fuel more
      rw [← Nat.add_assoc]
      simp only [runBy] at h ⊢
      by_cases hdone : e.isExited = true
      · rw [if_pos hdone] at h ⊢
        exact h
      · rw [if_neg hdone] at h ⊢
        split at h
        · split at h
          · exact ih h hrest
          · exact h
        · split at h
          · exact ih h hrest
          · cases h

end Engine

/-- **It does not matter whether a host tells the code of an account alone or the whole account.**
    Where the balances of a world sum up to a word, two hosts that answer from it come to the same
    end, whatever the rules, the transaction and the block: with status, gas, output, logs and
    changes alike, or both stop for a nonce that cannot be raised. -/
theorem code_answers_are_interchangeable (rs : Ruleset) (t : Transaction) (block : Header)
    {w : World} (hsum : w.totalBalance < 2 ^ 256) {host host' : Requirement → Answer}
    (hhost : w.Hosts host) (hhost' : w.Hosts host') :
    ∃ (bound : ℕ) (outcome outcome' : Except Fault Engine),
      (∀ fuel, bound ≤ fuel → (Engine.create rs t block).runBy host fuel = outcome ∧
        (Engine.create rs t block).runBy host' fuel = outcome') ∧
      (outcome = .error .overflow ∧ outcome' = .error .overflow ∨
        ∃ e e', outcome = .ok e ∧ outcome' = .ok e' ∧ e.isExited = true ∧ e'.isExited = true ∧
          e.SameOutput e') := by
  have hcreate : Engine.Hosted rs t block w (.create rs t block) := .create
  obtain ⟨bound, outcome, hruns, hends⟩ := hcreate.runBy_ends hhost
  obtain ⟨bound', outcome', hruns', hends'⟩ := hcreate.runBy_ends hhost'
  have hrun := hruns (max bound bound') (le_max_left _ _)
  have hrun' := hruns' (max bound bound') (le_max_right _ _)
  refine ⟨max bound bound', outcome, outcome', fun fuel hfuel =>
    ⟨hruns fuel (le_trans (le_max_left _ _) hfuel),
      hruns' fuel (le_trans (le_max_right _ _) hfuel)⟩, ?_⟩
  rcases hends with rfl | ⟨e, rfl, hexited⟩ <;> rcases hends' with rfl | ⟨e', rfl, hexited'⟩
  · exact .inl ⟨rfl, rfl⟩
  · rw [hcreate.runBy_faultless hhost hrun (hcreate.of_runBy hhost' hrun')] at hexited'
    cases hexited'
  · rw [hcreate.runBy_faultless hhost' hrun' (hcreate.of_runBy hhost hrun)] at hexited
    cases hexited
  · exact .inr ⟨e, e', rfl, rfl, hexited, hexited',
      (hcreate.of_runBy hhost hrun).same_output (hcreate.of_runBy hhost' hrun') hsum hexited
        hexited'⟩

/-- A world with an account that asks for the code of two others, and for the balance of one of
    them, which gets no fee. -/
def measuredWorld : World :=
  { accounts := ((((∅ : Std.TreeMap Address WorldAccount).insert 200
      { balance := 1000000 }).insert 300
      { code := ⟨#[0x60, 0, 0x3b, 0x60, 77, 0x3b, 0x60, 77, 0x31, 0]⟩ }).insert 77
      { balance := 6, code := ⟨#[0]⟩ }).insert 0 { balance := 5, code := ⟨#[0]⟩ } }

/-- A transaction that calls that account and pays for its gas. -/
def measuringCall : Transaction := ⟨200, 1, 100000, .call 300, 0, ByteArray.empty, 0⟩

/-- The engine after some steps and answers. -/
def measuringCallAfter (fullCode : Bool) (fuel : ℕ) : Except Fault Engine :=
  (Engine.create .byzantium measuringCall {}).runBy (measuredWorld.answer fullCode) fuel

/-- Told the code alone, the engine asks for an account more and never learns what the beneficiary
    had; the fee is reported all the same. -/
theorem measuringCall_ends_alike : ∃ e e', measuringCallAfter false 40 = .ok e ∧
    measuringCallAfter true 40 = .ok e' ∧
    e.requirements = e'.requirements ++ [.account 77] ∧
    e.chain.log.accounts.contains 0 = false ∧ e'.chain.log.accounts.contains 0 = true ∧
    e.changes.map (·.address) = [0, 200] ∧ e.SameOutput e' := by
  have hend : (measuringCallAfter false 40).toOption.map (fun e => (e.isExited, e.requirements,
      e.chain.log.accounts.contains 0, e.changes.map (·.address))) =
        some (true, [.account 200, .account 300, .code 0, .code 77, .account 77], false,
          [0, 200]) := by
    decide +kernel
  have hend' : (measuringCallAfter true 40).toOption.map (fun e => (e.isExited, e.requirements,
      e.chain.log.accounts.contains 0)) =
        some (true, [.account 200, .account 300, .code 0, .code 77], true) := by
    decide +kernel
  have hsum : measuredWorld.totalBalance = 1000011 := by decide +kernel
  rcases hrun : measuringCallAfter false 40 with fault | e
  · rw [hrun] at hend
    cases hend
  · rcases hrun' : measuringCallAfter true 40 with fault | e'
    · rw [hrun'] at hend'
      cases hend'
    · rw [hrun] at hend
      rw [hrun'] at hend'
      simp only [Except.toOption, Option.map_some, Option.some.injEq, Prod.mk.injEq] at hend hend'
      obtain ⟨hexited, hasked, hunknown, hchanged⟩ := hend
      obtain ⟨hexited', hasked', hknown⟩ := hend'
      refine ⟨e, e', rfl, rfl, ?_, hunknown, hknown, hchanged, ?_⟩
      · rw [hasked, hasked']
        rfl
      · have hword : measuredWorld.totalBalance < 2 ^ 256 := by
          rw [hsum]
          decide
        obtain ⟨bound, outcome, outcome', hruns, hends⟩ := code_answers_are_interchangeable
          .byzantium measuringCall {} hword (measuredWorld.hosts_answer false)
          (measuredWorld.hosts_answer true)
        obtain ⟨hout, hout'⟩ := hruns (max bound 40) (le_max_left _ _)
        obtain rfl := (Engine.runBy_stays hrun hexited (le_max_right bound 40)).symm.trans hout
        obtain rfl := (Engine.runBy_stays hrun' hexited' (le_max_right bound 40)).symm.trans hout'
        rcases hends with ⟨hfault, -⟩ | ⟨last, last', hlast, hlast', -, -, hsame⟩
        · cases hfault
        · cases hlast
          cases hlast'
          exact hsame
end ResumableEvm
