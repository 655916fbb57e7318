import ResumableEvm.Proofs.ExactChanges
import ResumableEvm.Proofs.TotalBalance

/-!
# Value is neither created nor lost

What a transaction claims in advance is kept apart until it is settled.  All the while the
balances that a frame sees sum up to what is left of the world's, unless an account destroyed
itself; and a frame that asks for another can pay for it, so that no balance stops at zero.
Since the sum is a word, none stops at the largest word either.

* `Frame.Conserves` — a frame that keeps to the funds it was given.
* `Frame.conserves_kept` — frames keep to them.
* `Frame.Settles.sumsTo` — a settlement brings back what was claimed.
* `balances_are_conserved` — the sum over a world, before and after.
-/

namespace ResumableEvm

/-! ## Frames -/

namespace Frame

variable {rs : Ruleset} {block : Header} {w : World} {rules : AccountRules} {chain : ChainView}
  {log : CommitLog} {f g : Frame} {i : Instruction} {stipend afterGas : Gas}
  {control : FrameControl} {funds : ℕ}

/-- **A frame that keeps to its funds.**  The balances sum up to them, or to less once an account
    has destroyed itself; and what it moves to a frame that it asks for, the payer has. -/
structure Conserves (w : World) (funds : ℕ) (f : Frame) : Prop where
  within : totalBalance (f.overlay.view w) ≤ funds
  kept : f.removed = [] → totalBalance (f.overlay.view w) = funds
  covered : ∀ {context : Context}, f.status.invoked? = some context →
    context.value.toNat ≤ (f.overlay.view w context.caller).balance.toNat

/-- A frame that neither moves the sum nor asks for another. -/
lemma Conserves.of_unasked (h : f.Conserves w funds)
    (htotal : totalBalance (g.overlay.view w) = totalBalance (f.overlay.view w))
    (hremoved : g.removed = f.removed) (hasked : g.status.invoked? = none) :
    g.Conserves w funds where
  within := htotal.trans_le h.within
  kept hnone := htotal.trans (h.kept (hremoved.symm.trans hnone))
  covered hc := nomatch hasked.symm.trans hc

/-- A frame that leaves all balances as they are. -/
lemma Conserves.of_balances (h : f.Conserves w funds)
    (hbalance : ∀ a, (g.overlay.view w a).balance = (f.overlay.view w a).balance)
    (hremoved : g.removed = f.removed)
    (hcovered : ∀ context, g.status.invoked? = some context →
      context.value.toNat ≤ (f.overlay.view w context.caller).balance.toNat) :
    g.Conserves w funds where
  within := (totalBalance_congr hbalance).trans_le h.within
  kept hnone := (totalBalance_congr hbalance).trans (h.kept (hremoved.symm.trans hnone))
  covered {context} hc := by
    rw [hbalance]
    exact hcovered context hc

/-! ### Steps -/

/-- A frame that ends keeps its accounts. -/
lemma Conserves.exit (h : f.Conserves w funds) (reason : ExitReason) :
    (f.exit reason).Conserves w funds :=
  h.of_unasked rfl rfl (f.invoked?_exit reason)

lemma Conserves.follow_exit (h : f.Conserves w funds) (reason : ExitReason) :
    (f.follow (.exit reason)).Conserves w funds := by
  simp only [follow]
  split
  · exact h.of_unasked rfl rfl (invoked?_exit _ reason)
  · exact h.exit reason

lemma Conserves.runPrecompile (h : f.Conserves w funds) (c : Precompile) :
    (f.runPrecompile c).Conserves w funds := by
  simp only [Frame.runPrecompile]
  split
  · exact h.of_unasked rfl rfl rfl
  · exact h.exit _

/-- What is entered with a value has a payer that can pay it. -/
lemma covered_of_enters {value : Word} (ht : chain.log.Tells w)
    (h : f.cannotEnter chain value = .ok false) :
    value.toNat ≤ (f.overlay.view w f.context.address).balance.toNat := by
  simp only [cannotEnter] at h
  split at h
  · cases h
  · obtain ⟨balance, hbalance, h⟩ := bind_eq_ok.mp h
    have hcovers : ¬ balance < value := of_decide_eq_false (Except.ok.inj h)
    rw [← Overlay.balance_eq_view ht hbalance]
    exact Nat.le_of_not_lt fun hlt => hcovers (BitVec.lt_def.mpr hlt)

/-- **An account that destroys itself** gives away what it has, or loses it where it gives to
    itself. -/
lemma totalBalance_destroy {s paid cleared : Overlay} {self target : Address}
    {balance remaining : Word} (hs : s.Anchored rules log) (ht : log.Tells w)
    (hself : paid.Knows self log) (holds : s.balance self log = .ok balance)
    (pays : s.increaseBalance target balance log = .ok paid)
    (remains : paid.balance self log = .ok remaining)
    (clears : paid.decreaseBalance self remaining log = .ok cleared) :
    totalBalance (cleared.view w) ≤ totalBalance (s.view w) := by
  obtain rfl := Overlay.balance_eq_view ht holds
  obtain rfl := Overlay.balance_eq_view ht remains
  obtain ⟨-, hpaid⟩ := hs.increaseBalance ht pays
  have hcleared := totalBalance_debit (v := paid.view w) (a := self) le_rfl
  rw [← hself.decreaseBalance_view ht clears] at hcleared
  have hle := totalBalance_credit_le (s.view w) target (s.view w self).balance
  rw [← hpaid] at hle
  by_cases hsame : target = self
  · -- what it has given to itself it loses with the rest
    subst hsame
    have hself' := congrArg (fun v => (v target).balance.toNat) hpaid
    have hsum := totalBalance_update (s.view w) target
      ((s.view w target).credit (s.view w target).balance)
    rw [← hpaid] at hsum
    simp only [Function.update_self] at hself'
    omega
  · have hself' := congrArg (fun v => (v self).balance.toNat) hpaid
    simp only [Function.update_of_ne (Ne.symm hsame)] at hself'
    omega

/-- A frame that destroys its account is no longer held to all of its funds. -/
lemma Conserves.destroy (h : f.Conserves w funds)
    (htotal : totalBalance (g.overlay.view w) ≤ totalBalance (f.overlay.view w))
    (hremoved : g.removed ≠ []) (hasked : g.status.invoked? = none) : g.Conserves w funds where
  within := htotal.trans h.within
  kept hnone := absurd hnone hremoved
  covered hc := nomatch hasked.symm.trans hc

/-- An instruction that is carried out keeps to the funds. -/
lemma Effect.conserves {c : Charge} (h : f.Effect chain stipend afterGas i g control)
    (hd : f.HasData chain i) (hr : f.status = .running) (ht : chain.log.Tells w)
    (hs : f.overlay.Anchored rules chain.log) (hf : f.Conserves w funds) :
    ((g.book c).follow control).Conserves w funds := by
  have hunasked : f.status.invoked? = none := by rw [hr]; rfl
  cases h with
  | compute program stays =>
      rcases stays with rfl | ⟨reason, rfl⟩
      · exact hf.of_unasked rfl rfl hunasked
      · refine Conserves.follow_exit ?_ reason
        exact hf.of_unasked rfl rfl hunasked
  | store program written =>
      exact hf.of_unasked (totalBalance_congr (Overlay.update_balance ht written fun _ => rfl)) rfl
        hunasked
  | log program => exact hf.of_unasked rfl rfl hunasked
  | create program raised result enters =>
      refine hf.of_balances (Overlay.update_balance ht raised fun _ => rfl) rfl fun context hc => ?_
      cases hc
      exact covered_of_enters ht enters
  | @call kind machine operands items code input program memory taken result enters =>
      refine hf.of_balances (fun _ => rfl) rfl fun context hc => ?_
      cases hc
      cases kind with
      | call | callCode => exact covered_of_enters ht enters
      | delegateCall | staticCall => exact Nat.zero_le _
  | @destroy machine removed target balance remaining paid overlay program pays clears aims holds
      remains lists =>
      have htarget := aims ▸ hd.2
      have htotal := totalBalance_destroy hs ht (hd.1.of_moveBalance htarget pays) holds pays
        remains clears
      have hremoved : removed ≠ [] := by
        rw [lists]
        split
        · rename_i hlisted
          exact List.ne_nil_of_mem (List.contains_iff_mem.mp hlisted)
        · exact List.append_ne_nil_of_right_ne_nil _ (List.cons_ne_nil _ _)
      exact hf.destroy htotal hremoved rfl

lemma Stepped.conserves (h : f.Stepped chain g) (ht : chain.log.Tells w)
    (hs : f.overlay.Anchored rules chain.log) (hf : f.Conserves w funds) :
    g.Conserves w funds := by
  cases h with
  | idle => exact hf
  | past => exact hf.of_unasked rfl rfl rfl
  | refused | unaffordable => exact hf.exit _
  | precompile running contract => exact hf.runPrecompile _
  | executed running code checked charged afforded effect =>
      have hd := hasData_of_checkKnown (check_parts.mp checked).2.2.2.2
      refine effect.conserves (hd.congr (by rfl) (by rfl) (by rfl)) running ht hs ?_
      exact hf.of_balances (fun _ => rfl) rfl fun _ => hf.covered

/-! ### From frame to frame -/

/-- A frame begins with the funds of the one that asked for it. -/
lemma Begun.conserves (h : f.Begun chain g) (ht : chain.log.Tells w)
    (hs : f.overlay.Anchored rules chain.log) (hfunds : funds < 2 ^ 256)
    (hr : f.status = .running) (hf : f.Conserves w funds)
    (hcovered : f.context.value.toNat ≤ (f.overlay.view w f.context.caller).balance.toNat) :
    g.Conserves w funds := by
  have hunasked : f.status.invoked? = none := by rw [hr]; rfl
  have hpaid := totalBalance_payment f.context.address hcovered
    (hf.within.trans_lt hfunds)
  cases h with
  | call pays moves payer payee =>
      rw [← (hs.payment_view ht payer pays moves).2] at hpaid
      exact hf.of_unasked hpaid rfl hunasked
  | create pays moves creates payer payee =>
      rw [← (hs.payment_view ht payer pays moves).2] at hpaid
      have hcreated := totalBalance_congr (Overlay.update_balance ht creates fun _ => rfl)
      exact hf.of_unasked (hcreated.trans hpaid) rfl hunasked
  | collision => exact hf.exit _

lemma Deposited.conserves (h : f.Deposited chain g) (ht : chain.log.Tells w)
    (hf : f.Conserves w funds) : g.Conserves w funds := by
  cases h with
  | skipped => exact hf
  | failed => exact hf.exit _
  | empty ended deposits | paid ended affordable deposits =>
      have hunasked : f.status.invoked? = none := by rw [ended]; rfl
      exact hf.of_unasked (totalBalance_congr (Overlay.update_balance ht deposits fun _ => rfl)) rfl
        hunasked

lemma Conserves.resume {sub : Frame} (h : f.Conserves w funds) (hsub : sub.Conserves w funds)
    (region : Option (Word × Word)) : (f.resume sub region).Conserves w funds := by
  have hunasked := f.invoked?_resume sub region
  rcases f.resume_traces sub region with ⟨-, hsame⟩ | ⟨-, hadopted⟩
  · exact h.of_unasked (by rw [hsame.overlay]) hsame.removed hunasked
  · exact hsub.of_unasked (by rw [hadopted.overlay]; rfl) hadopted.removed hunasked

/-- **Frames keep to their funds.** -/
lemma conserves_kept (rs : Ruleset) (block : Header) (rules : AccountRules)
    (hfunds : funds < 2 ^ 256) :
    Kept rs block w fun log f => f.overlay.Anchored rules log ∧ f.Conserves w funds :=
  have hanchored := anchored_kept rs block w rules
  { grow := fun ht hw h => ⟨hanchored.grow ht hw h.1, h.2⟩
    step := fun ht hs h => ⟨hanchored.step ht hs h.1, hs.conserves ht h.1 h.2⟩
    enter := fun {log f g context} ht asked begun h => by
      refine ⟨hanchored.enter ht asked begun h.1, ?_⟩
      have hderived : (f.derive context rs.rules).Conserves w funds := h.2.of_unasked rfl rfl rfl
      exact begun.conserves ht h.1 hfunds rfl hderived (h.2.covered asked)
    deposit := fun ht hd h => ⟨hanchored.deposit ht hd h.1, hd.conserves ht h.2⟩
    resume := fun region h hsub => ⟨hanchored.resume region h.1 hsub.1, h.2.resume hsub.2 region⟩ }

/-! ## Settlements -/

section Settlement

variable {fee preclaimed : Word} {fresh start swept s : Overlay} {beneficiary : Address} {total : ℕ}

/-- Balances that sum up to a total, or to less where a success removes accounts that destroyed
    themselves. -/
def SumsTo (f : Frame) (w : World) (total : ℕ) (s : Overlay) : Prop :=
  totalBalance (s.view w) ≤ total ∧
    (f.status ≠ .exitedOk ∨ f.removed = [] → totalBalance (s.view w) = total)

/-- A settlement starts from all that was not claimed. -/
lemma settlementStart_sumsTo (h : f.settlementStart preclaimed fresh log = .ok start)
    (ht : log.Tells w) (hcaller : fresh.Knows f.context.caller log)
    (hf : f.Conserves w (total - preclaimed.toNat)) (hfresh : totalBalance (fresh.view w) = total)
    (hcovered : preclaimed.toNat ≤ (fresh.view w f.context.caller).balance.toNat) :
    f.SumsTo w (total - preclaimed.toNat) start := by
  simp only [settlementStart] at h
  split at h
  · rename_i hok
    cases h
    exact ⟨hf.within, fun hkept => hf.kept (hkept.resolve_left (not_not_intro hok))⟩
  · have hclaim := totalBalance_debit hcovered
    rw [← hcaller.decreaseBalance_view ht h] at hclaim
    exact ⟨by omega, fun _ => by omega⟩

/-- Sweeping loses what accounts have that destroyed themselves, and nothing else. -/
lemma SumsTo.sweep (hs : f.SumsTo w total s) (h : f.sweep s log = .ok swept) (ht : log.Tells w) :
    f.SumsTo w total swept := by
  refine sweep_keeps (Q := f.SumsTo w total) (fun hok s hs a ha => ?_) (fun {s a} hzero hs => ?_)
    h hs
  · have hremove := s.totalBalance_remove w a
    have hle := hs.1
    refine ⟨by omega, fun hkept => ?_⟩
    rcases hkept with hfailed | hnone
    · exact absurd hok hfailed
    · rw [hnone] at ha
      cases ha
  · have hremove := s.totalBalance_remove w a
    have hnothing : (s.view w a).balance.toNat = 0 := by
      rw [← Overlay.balance_eq_view ht hzero]
      rfl
    have hsame : totalBalance ((s.remove a).view w) = totalBalance (s.view w) := by omega
    rw [SumsTo, hsame]
    exact hs

/-- **A settlement brings back what was claimed,** less what was lost by accounts that destroyed
    themselves. -/
lemma Settles.sumsTo (h : f.Settles log fee preclaimed fresh beneficiary swept)
    (ht : log.Tells w) (hcaller : ∀ s : Overlay, s.Knows f.context.caller log)
    (hs : f.overlay.Anchored rules log) (hanchored : fresh.Anchored rules log)
    (htotal : total < 2 ^ 256) (hclaimed : preclaimed.toNat ≤ total)
    (hf : f.Conserves w (total - preclaimed.toNat)) (hfresh : totalBalance (fresh.view w) = total)
    (hcovered : preclaimed.toNat ≤ (fresh.view w f.context.caller).balance.toNat)
    (hfee : fee.toNat ≤ preclaimed.toNat) : f.SumsTo w total swept := by
  cases h with
  | @stages start refunded charged paid starts refunds charges pays sweeps =>
      obtain ⟨hle, hkept⟩ := settlementStart_sumsTo starts ht (hcaller fresh) hf hfresh hcovered
      have hstart := settlementStart_anchored starts (hcaller fresh) hs hanchored
      -- what was claimed comes back, so the caller has the fee
      obtain ⟨hrefunded, hrefund⟩ := hstart.increaseBalance ht refunds
      have hword : totalBalance (start.view w) + preclaimed.toNat < 2 ^ 256 := by omega
      obtain ⟨hsum, hbalance⟩ := totalBalance_credit (a := f.context.caller) hword
      rw [← hrefund] at hsum
      have hpayer : fee.toNat ≤ (refunded.view w f.context.caller).balance.toNat := by
        rw [hrefund, Function.update_self]
        omega
      -- and the fee is a payment to the beneficiary
      have hpaid := totalBalance_payment beneficiary hpayer (hsum.trans_lt hword)
      rw [← (hrefunded.payment_view ht (hcaller refunded) charges pays).2] at hpaid
      refine SumsTo.sweep ⟨by omega, fun hexact => ?_⟩ sweeps ht
      have := hkept hexact
      omega

end Settlement

end Frame

/-! ## The accounts of a run -/

namespace Transaction

variable {rs : Ruleset} {t : Transaction} {block : Header} {w : World} {first : CommitLog}
  {start : Execution}

/-- The caller can pay for all gas and the value. -/
lemma claims_covered (h : t.accept ⟨rs, block, first⟩ = .ok (.ok start)) (ht : first.Tells w) :
    t.preclaimed.toNat + t.value.toNat ≤ (w.view rs.rules.accounts t.caller).balance.toNat := by
  obtain ⟨balance, -, -, hbalance, hcovered⟩ := (accept_accepted h).validated
  obtain rfl := Overlay.balance_eq_view ht hbalance
  exact hcovered

/-- What a failure starts over from has the balances of the world. -/
lemma fresh_balance (h : t.accept ⟨rs, block, first⟩ = .ok (.ok start)) (ht : first.Tells w)
    (a : Address) : (start.fresh.view w a).balance = (w.view rs.rules.accounts a).balance := by
  obtain ⟨nonce, -, hfresh⟩ := (accept_accepted h).raised
  exact Overlay.update_balance ht hfresh (fun _ => rfl) a

/-- The root begins with all that was not claimed. -/
lemma root_conserves (h : t.accept ⟨rs, block, first⟩ = .ok (.ok start)) (ht : first.Tells w)
    (hsum : w.totalBalance < 2 ^ 256) :
    start.calls.root.Conserves w (w.totalBalance - t.preclaimed.toNat) := by
  obtain ⟨-, -, -, paid, code, hpaid, hbegun⟩ := accept_begins h
  have hclaims := claims_covered h ht
  have hknown := caller_known h (.refl first)
  rw [← fresh_balance h ht] at hclaims
  have hcovered : t.preclaimed.toNat ≤ (start.fresh.view w t.caller).balance.toNat := by omega
  have hclaim := totalBalance_debit hcovered
  have hview := (hknown start.fresh).decreaseBalance_view ht hpaid
  have htotal := totalBalance_congr (fresh_balance h ht)
  rw [w.totalBalance_view] at htotal
  rw [← hview] at hclaim
  have hpayer : (paid.view w t.caller).balance.toNat =
      (start.fresh.view w t.caller).balance.toNat - t.preclaimed.toNat := by
    rw [hview, Function.update_self]
    exact Word.toNat_subSat _ _
  have hroot : (Frame.create (t.rootContext rs.rules code) 0 paid rs.rules).Conserves w
      (w.totalBalance - t.preclaimed.toNat) := by
    have hfunds : totalBalance (paid.view w) = w.totalBalance - t.preclaimed.toNat := by omega
    exact ⟨hfunds.le, fun _ => hfunds, fun hc => (nomatch hc)⟩
  have hanchored := (fresh_anchored h).moveBalance (hknown start.fresh) hpaid
  refine hbegun.conserves ht hanchored (by omega) rfl hroot ?_
  have hvalue : t.value.toNat ≤ (paid.view w t.caller).balance.toNat := by omega
  exact hvalue

end Transaction

namespace Engine

variable {rs : Ruleset} {t : Transaction} {block : Header} {w : World} {e : Engine}
  {x : Execution}

/-- What a caller pays in the end was claimed in advance. -/
lemma Hosted.fee_le (h : Hosted rs t block w e) (hx : e.settled? = some x) :
    (x.chargedGas * t.gasPrice).toWord.toNat ≤ t.preclaimed.toNat := by
  have hcharged := (h.reachable.funded.executing x (phase_of_settled hx)).chargedGas_le
  have hprice := Nat.mul_le_mul_right t.gasPrice.toNat hcharged
  have hfee : (x.chargedGas * t.gasPrice).toWord.toNat =
      min (x.chargedGas.toNat * t.gasPrice.toNat) maxWord := Gas.toNat_mul _ _
  have hclaim : t.preclaimed.toNat = min (t.gasLimit.toNat * t.gasPrice.toNat) maxWord :=
    Gas.toNat_mul _ _
  omega

/-- All frames of a run keep to what was not claimed. -/
lemma Hosted.conserving_frames (h : Hosted rs t block w e) (hsum : w.totalBalance < 2 ^ 256) :
    e.Kept rs t block w fun log f => f.overlay.Grounded log ∧
      f.overlay.Anchored rs.rules.accounts log ∧
        f.Conserves w (w.totalBalance - t.preclaimed.toNat) :=
  h.kept ((Frame.grounded_kept rs block w).and
      (Frame.conserves_kept rs block rs.rules.accounts (by omega)))
    (fun h => h.1) fun ht haccept => ⟨Transaction.root_grounded haccept,
      Transaction.root_anchored haccept, Transaction.root_conserves haccept ht hsum⟩

/-- The final accounts of a run have the balances of the world, less what was lost. -/
lemma Hosted.conserves (h : Hosted rs t block w e) (hsum : w.totalBalance < 2 ^ 256)
    (hx : e.settled? = some x) :
    totalBalance (x.calls.root.overlay.view w) ≤ w.totalBalance ∧
      (e.status ≠ .exitedOk ∨ x.calls.root.removed = [] →
        totalBalance (x.calls.root.overlay.view w) = w.totalBalance) := by
  obtain ⟨first, told, start, root, hfrom⟩ := (h.conserving_frames hsum).settled hx
  have hbalance := Transaction.fresh_balance hfrom.accepts hfrom.knew
  have hclaims := Transaction.claims_covered hfrom.accepts hfrom.knew
  have hrich := balance_le_totalBalance (w.view rs.rules.accounts) t.caller
  rw [w.totalBalance_view] at hrich
  have htotal := (totalBalance_congr hbalance).trans (w.totalBalance_view _)
  have hcovered : t.preclaimed.toNat ≤ (start.fresh.view w root.context.caller).balance.toNat := by
    rw [hfrom.caller, hbalance]
    omega
  obtain ⟨-, hanchored, hconserves⟩ := hfrom.last
  obtain ⟨hle, hexact⟩ := hfrom.settles.sumsTo hfrom.tells hfrom.knows_caller hanchored
    hfrom.fresh_anchored hsum (by omega) hconserves htotal hcovered (h.fee_le hx)
  refine ⟨hle, fun hkept => hexact ?_⟩
  rcases hfrom.outcome with ⟨hok, hroot⟩ | ⟨hfailed, -⟩
  · have hstatus : e.status = .exitedOk := by
      rw [status_of_settled hx, hroot]
      exact congrArg EngineStatus.ofFrame hok
    have hnone := hkept.resolve_left (not_not_intro hstatus)
    rw [hroot] at hnone
    exact .inr hnone
  · exact .inl hfailed

end Engine

/-- **Value is neither created nor lost.**  Where the balances of the world that answers a run sum
    up to a word, the world after the changes of the run has no more; and it has just as much if
    the transaction failed, or if no account that destroyed itself is to be removed. -/
theorem balances_are_conserved {rs : Ruleset} {t : Transaction} {block : Header} {w : World}
    {e : Engine} (h : Engine.Hosted rs t block w e) (hsum : w.totalBalance < 2 ^ 256)
    {x : Execution} (hx : e.settled? = some x) :
    (w.replay rs.rules.accounts e.changes).totalBalance ≤ w.totalBalance ∧
    (e.status ≠ .exitedOk ∨ x.calls.root.removed = [] →
      (w.replay rs.rules.accounts e.changes).totalBalance = w.totalBalance) := by
  rw [← (w.replay rs.rules.accounts e.changes).totalBalance_view rs.rules.accounts,
    h.replay_view hx]
  exact h.conserves hsum hx

/-- A transaction that calls the account that writes a slot, with seven units for it. -/
def gift : Transaction := ⟨200, 1, 100000, .call 300, 7, ByteArray.empty, 0⟩

/-- The engine after some steps and answers. -/
def giftAfter (fuel : ℕ) : Except Fault Engine :=
  (Engine.create .byzantium gift {}).run storeWorld false fuel

/-- The gift and the fee change hands, and the sum stays what it was. -/
theorem gift_keeps_total : ∃ e x, giftAfter 30 = .ok e ∧ e.settled? = some x ∧
    storeWorld.totalBalance = 1000000 ∧ e.changes.map (·.address) = [0, 200, 300] ∧
      (storeWorld.replay Ruleset.byzantium.rules.accounts e.changes).totalBalance =
        storeWorld.totalBalance := by
  have hend : (giftAfter 30).toOption.map
      (fun e => (e.settled?.map (·.calls.root.removed), e.changes.map (·.address))) =
        some (some [], [0, 200, 300]) := by
    decide +kernel
  have hsum : storeWorld.totalBalance = 1000000 := by decide +kernel
  rcases hrun : giftAfter 30 with fault | e
  · rw [hrun] at hend
    cases hend
  · rw [hrun] at hend
    obtain ⟨hsettled, hchanged⟩ := Prod.mk.inj (Option.some.inj hend)
    obtain ⟨x, hx, hnone⟩ := Option.map_eq_some_iff.mp hsettled
    have hhosted : Engine.Hosted .byzantium gift {} storeWorld e := .run .create hrun
    have hword : storeWorld.totalBalance < 2 ^ 256 := by
      rw [hsum]
      decide
    exact ⟨e, x, rfl, hx, hsum, hchanged,
      (balances_are_conserved hhosted hword hx).2 (.inr hnone)⟩

end ResumableEvm
