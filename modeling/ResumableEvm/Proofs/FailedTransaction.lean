import ResumableEvm.Proofs.Conservation

/-!
# What a failure costs

A transaction that failed is settled from a snapshot in which nothing but the caller's nonce had
changed.  What was claimed in advance is claimed again and given back, and then the fee goes from
the caller to the beneficiary.  So nothing is left of what ran, however it failed and whatever it
had done before.

* `Overlay.Reduced` — an overlay that holds the two accounts that pay and are paid.
* `Frame.Settles.failed` — a failure is settled by one payment.
* `OnlyFeePaid` — a world in which nothing but nonce and fee changed.
* `failure_costs_only_the_fee` — the world after a failed transaction.
-/

namespace ResumableEvm

/-! ## Reduced overlays -/

/-- **An overlay that is reduced to two accounts.**  It holds no other, has removed neither, and
    nothing took part in a call. -/
structure Overlay.Reduced (s : Overlay) (payer payee : Address) : Prop where
  entry : ∀ {a : Address} {entry : AccountEntry}, s.entries[a]? = some entry →
    (a = payer ∨ a = payee) ∧ entry ≠ .dead
  touched : s.touched = ∅

namespace Overlay

variable {log : CommitLog} {rules : AccountRules} {s s' : Overlay} {a payer payee : Address}
  {value : Word} {first : Word → BalanceShift} {shift : BalanceShift → Word → BalanceShift}
  {change : Word → Word → Word}

namespace Reduced

lemma empty (rules : AccountRules) (payer payee : Address) :
    (Overlay.empty rules).Reduced payer payee where
  entry he := by simp [Overlay.empty] at he
  touched := rfl

lemma insert {entry : AccountEntry} (hs : s.Reduced payer payee) (ha : a = payer ∨ a = payee)
    (halive : entry ≠ .dead) :
    Overlay.Reduced { s with entries := s.entries.insert a entry } payer payee where
  entry {b held} hb := by
    rcases entry_of_insert hb with ⟨rfl, rfl⟩ | hb
    · exact ⟨ha, halive⟩
    · exact hs.entry hb
  touched := hs.touched

lemma update (hs : s.Reduced payer payee) (ha : a = payer ∨ a = payee)
    {f : LiveAccount → LiveAccount} (h : s.update a log f = .ok s') : s'.Reduced payer payee := by
  obtain ⟨account, -, rfl⟩ := update_eq_ok.mp h
  exact hs.insert ha (by simp)

lemma moveBalance (hs : s.Reduced payer payee) (ha : a = payer ∨ a = payee)
    (h : s.moveBalance a value log first shift change = .ok s') : s'.Reduced payer payee := by
  simp only [Overlay.moveBalance] at h
  split at h
  · cases h
    exact hs
  · split at h
    · cases h
      exact hs.insert ha (by simp)
    · exact hs.update ha h

end Reduced

end Overlay

/-- What was taken from an account and given back. -/
lemma AccountView.credit_debit {v : AccountView} {value : Word} (hp : v.present = true)
    (hcovered : value.toNat ≤ v.balance.toNat) : (v.debit value).credit value = v := by
  have hbalance : (v.balance.subSat value).addSat value = v.balance := by
    have := v.balance.toNat_le_maxWord
    apply BitVec.eq_of_toNat_eq
    rw [Word.toNat_addSat, Word.toNat_subSat]
    omega
  simp only [credit, debit, hbalance, hp, Bool.true_or]
  rw [← hp]

namespace Frame

variable {f : Frame} {w : World} {rules : AccountRules} {log : CommitLog}
  {fee preclaimed : Word} {fresh swept s : Overlay} {beneficiary : Address}

/-- Nothing is swept away after a failure. -/
lemma sweep_failed {payer payee : Address} (h : f.sweep s log = .ok swept)
    (hfailed : f.status ≠ .exitedOk) (hs : s.Reduced payer payee) : swept = s := by
  simp only [sweep, if_neg hfailed] at h
  have htouched : s.touched.toList = [] := by
    rw [hs.touched]
    rfl
  rw [htouched] at h
  split at h <;> exact (Except.ok.inj h).symm

/-- **A failure is settled by one payment** from the snapshot that it starts over from. -/
lemma Settles.failed (h : f.Settles log fee preclaimed fresh beneficiary swept)
    (hfailed : f.status ≠ .exitedOk) (ht : log.Tells w)
    (hcaller : ∀ s : Overlay, s.Knows f.context.caller log) (hanchored : fresh.Anchored rules log)
    (hreduced : fresh.Reduced f.context.caller beneficiary)
    (hpresent : (fresh.view w f.context.caller).present = true)
    (hcovered : preclaimed.toNat ≤ (fresh.view w f.context.caller).balance.toNat) :
    swept.Reduced f.context.caller beneficiary ∧
      swept.view w = payment (fresh.view w) f.context.caller beneficiary fee := by
  cases h with
  | @stages start refunded charged paid starts refunds charges pays sweeps =>
      simp only [settlementStart, if_neg hfailed] at starts
      have hstart := hanchored.moveBalance (hcaller fresh) starts
      have hclaim := (hcaller fresh).decreaseBalance_view ht starts
      obtain ⟨hrefunded, hrefund⟩ := hstart.increaseBalance ht refunds
      -- what is claimed again is given back at once
      have hsame : refunded.view w = fresh.view w := by
        rw [hrefund, hclaim, Function.update_self, Function.update_idem,
          AccountView.credit_debit hpresent hcovered, Function.update_eq_self]
      have hpaid : paid.Reduced f.context.caller beneficiary :=
        (((hreduced.moveBalance (.inl rfl) starts).moveBalance (.inl rfl) refunds).moveBalance
          (.inl rfl) charges).moveBalance (.inr rfl) pays
      obtain rfl := sweep_failed sweeps hfailed hpaid
      refine ⟨hpaid, ?_⟩
      rw [(hrefunded.payment_view ht (hcaller refunded) charges pays).2, hsame]

end Frame

/-! ## The world after a failure -/

/-- **A world in which nothing but nonce and fee changed:** the caller has used up a nonce and paid
    the fee, the beneficiary has got it, and all else is as it was. -/
structure OnlyFeePaid (rules : AccountRules) (caller beneficiary : Address) (nonce fee : Word)
    (before after : World) : Prop where
  others : ∀ a, a ≠ caller → a ≠ beneficiary → after.accounts[a]? = before.accounts[a]?
  present : ∀ a, (before.view rules a).present = true → (after.view rules a).present = true
  callerNonce : (after.view rules caller).nonce.toNat = nonce.toNat + 1
  nonce : ∀ a, a ≠ caller → (after.view rules a).nonce = (before.view rules a).nonce
  balance : ∀ a, (after.view rules a).balance.toNat + (if a = caller then fee.toNat else 0) =
    (before.view rules a).balance.toNat + (if a = beneficiary then fee.toNat else 0)
  code : ∀ a, (after.view rules a).code = (before.view rules a).code
  slots : ∀ a, (after.view rules a).slots = (before.view rules a).slots

/-- What is read once an account has used up a nonce. -/
def nonceUsed (v : Address → AccountView) (a : Address) (nonce : Word) : Address → AccountView :=
  Function.update v a { v a with present := true, nonce := nonce }

lemma nonceUsed_keeps (v : Address → AccountView) (a : Address) (nonce : Word) (b : Address) :
    (nonceUsed v a nonce b).balance = (v b).balance ∧ (nonceUsed v a nonce b).code = (v b).code ∧
      (nonceUsed v a nonce b).slots = (v b).slots ∧
        ((v b).present = true → (nonceUsed v a nonce b).present = true) := by
  simp only [nonceUsed]
  by_cases hb : b = a
  · subst hb
    rw [Function.update_self]
    exact ⟨rfl, rfl, rfl, fun _ => rfl⟩
  · rw [Function.update_of_ne hb]
    exact ⟨rfl, rfl, rfl, id⟩

namespace OnlyFeePaid

variable {rules : AccountRules} {caller beneficiary : Address} {nonce raised fee : Word}
  {before after : World}

/-- A payment from a snapshot in which only the caller's nonce differs. -/
lemma of_payment
    (hview : after.view rules =
      payment (nonceUsed (before.view rules) caller raised) caller beneficiary fee)
    (hothers : ∀ a, a ≠ caller → a ≠ beneficiary → after.accounts[a]? = before.accounts[a]?)
    (hraised : raised.toNat = nonce.toNat + 1) (hsum : before.totalBalance < 2 ^ 256)
    (hcovered : fee.toNat ≤ (before.view rules caller).balance.toNat) :
    OnlyFeePaid rules caller beneficiary nonce fee before after := by
  have hkept := nonceUsed_keeps (before.view rules) caller raised
  have hpaid := payment_keeps (nonceUsed (before.view rules) caller raised) caller beneficiary fee
  rw [← hview] at hpaid
  have htotal : totalBalance (nonceUsed (before.view rules) caller raised) < 2 ^ 256 := by
    rw [totalBalance_congr fun a => (hkept a).1, before.totalBalance_view]
    exact hsum
  have hpayer : fee.toNat ≤
      (nonceUsed (before.view rules) caller raised caller).balance.toNat := by
    rw [(hkept caller).1]
    exact hcovered
  refine ⟨hothers, fun a hp => ?_, ?_, fun a ha => ?_, fun a => ?_, fun a => ?_, fun a => ?_⟩
  · exact (hpaid a).2.2.2 ((hkept a).2.2.2 hp)
  · rw [(hpaid caller).1, nonceUsed, Function.update_self]
    exact hraised
  · rw [(hpaid a).1, nonceUsed, Function.update_of_ne ha]
  · rw [hview, payment_balance beneficiary hpayer htotal, (hkept a).1]
  · exact (hpaid a).2.1.trans (hkept a).2.1
  · exact (hpaid a).2.2.1.trans (hkept a).2.2.1

end OnlyFeePaid

/-! ## Failed runs -/

namespace Transaction

variable {rs : Ruleset} {t : Transaction} {block : Header} {w : World} {first : CommitLog}
  {start : Execution}

/-- What a failure starts over from differs from the world in the caller's nonce. -/
lemma fresh_view (h : t.accept ⟨rs, block, first⟩ = .ok (.ok start)) (ht : first.Tells w) :
    ∃ nonce : Word, nonce.toNat = t.nonce.toNat + 1 ∧
      start.fresh.view w = nonceUsed (w.view rs.rules.accounts) t.caller nonce := by
  obtain ⟨nonce, hnonce, hfresh⟩ := (accept_accepted h).raised
  exact ⟨nonce, toNat_nextNonce hnonce, Overlay.setNonce_view ht hfresh⟩

lemma fresh_reduced (h : t.accept ⟨rs, block, first⟩ = .ok (.ok start)) (payee : Address) :
    start.fresh.Reduced t.caller payee := by
  obtain ⟨nonce, -, hfresh⟩ := (accept_accepted h).raised
  exact (Overlay.Reduced.empty _ t.caller payee).update (.inl rfl) hfresh

end Transaction

namespace Engine

variable {rs : Ruleset} {t : Transaction} {block : Header} {w : World} {e : Engine}
  {x : Execution}

/-- What failed was settled, and its root has not ended well. -/
lemma settled_of_failed (h : (∃ error, e.status = .exitedErr error) ∨
    ∃ fatal, e.status = .exitedNotSupported fatal) :
    ∃ x, e.settled? = some x ∧ x.calls.root.status ≠ .exitedOk := by
  have hstatus : e.status ≠ .running ∧ e.status ≠ .exitedOk ∧ ∀ r, e.status ≠ .exitedInvalid r := by
    rcases h with ⟨error, h⟩ | ⟨fatal, h⟩ <;> rw [h] <;> simp
  obtain ⟨hrunning, hok, hinvalid⟩ := hstatus
  cases hphase : e.phase with
  | validating t => exact absurd (by simp only [status, hphase]) hrunning
  | rejected r => exact absurd (by simp only [status, hphase]) (hinvalid r)
  | executing x =>
      have hsettled : x.settled = true := by
        by_contra hnot
        exact hrunning (by simp only [status, hphase, if_neg hnot])
      have hx : e.settled? = some x := by simp only [settled?, hphase, if_pos hsettled]
      refine ⟨x, hx, fun hroot => hok ?_⟩
      rw [status_of_settled hx, hroot]
      rfl

/-- A caller could pay for what it did. -/
lemma Hosted.fee_covered (h : Hosted rs t block w e) (hx : e.settled? = some x) :
    (x.chargedGas * t.gasPrice).toWord.toNat ≤
      (w.view rs.rules.accounts t.caller).balance.toNat := by
  obtain ⟨first, told, start, root, hfrom⟩ := h.grounded.settled hx
  have hclaims := Transaction.claims_covered hfrom.accepts hfrom.knew
  exact (h.fee_le hx).trans (Nat.le_of_add_right_le hclaims)

/-- **A failed run** has logged nothing, and its accounts are the world's after the caller's nonce
    was raised and the fee was paid. -/
lemma Hosted.failed (h : Hosted rs t block w e) (hx : e.settled? = some x)
    (hfailed : x.calls.root.status ≠ .exitedOk) :
    x.calls.root.logs = [] ∧ x.calls.root.overlay.Reduced t.caller block.beneficiary ∧
      ∃ nonce : Word, nonce.toNat = t.nonce.toNat + 1 ∧ x.calls.root.overlay.view w = payment
        (nonceUsed (w.view rs.rules.accounts) t.caller nonce) t.caller block.beneficiary
        (x.chargedGas * t.gasPrice).toWord := by
  obtain ⟨first, told, start, root, hfrom⟩ := h.anchored_frames.settled hx
  obtain ⟨nonce, hnonce, hview⟩ := Transaction.fresh_view hfrom.accepts hfrom.knew
  have hreduced := Transaction.fresh_reduced hfrom.accepts block.beneficiary
  have hclaims := Transaction.claims_covered hfrom.accepts hfrom.knew
  rcases hfrom.outcome with ⟨hok, hroot⟩ | ⟨hfailed, hroot⟩
  · exact absurd (by rw [hroot]; exact hok) hfailed
  · have hpaid := hfrom.settles.failed hfailed hfrom.tells hfrom.knows_caller hfrom.fresh_anchored
    rw [hfrom.caller, hview, nonceUsed, Function.update_self] at hpaid
    obtain ⟨hlast, hpayment⟩ := hpaid hreduced rfl (Nat.le_of_add_right_le hclaims)
    refine ⟨?_, hlast, nonce, hnonce, hpayment⟩
    rw [hroot]

end Engine

/-- **A failed transaction changes nothing but nonce and fee.**  Where the balances of the world
    that answers a run sum up to a word, and the run fails, whatever ran before: it has logged
    nothing and removes no account, and in the world after its changes the caller's nonce is one
    more than the transaction's, what the caller pays for its gas has gone to the beneficiary, and
    all else is as it was. -/
theorem failure_costs_only_the_fee {rs : Ruleset} {t : Transaction} {block : Header} {w : World}
    {e : Engine} (h : Engine.Hosted rs t block w e) (hsum : w.totalBalance < 2 ^ 256)
    (hfailed : (∃ error, e.status = .exitedErr error) ∨
      ∃ fatal, e.status = .exitedNotSupported fatal) :
    e.logs = [] ∧ (∀ a, .removed a ∉ e.changes) ∧
      OnlyFeePaid rs.rules.accounts t.caller block.beneficiary t.nonce
        (e.usedGas * t.gasPrice).toWord w (w.replay rs.rules.accounts e.changes) := by
  obtain ⟨x, hx, hroot⟩ := Engine.settled_of_failed hfailed
  obtain ⟨hlogs, hreduced, nonce, hnonce, hview⟩ := h.failed hx hroot
  rw [← h.replay_view hx] at hview
  have houtput := h.reachable.holdsOutput
  have hchanges := houtput.changes_of_settled hx
  refine ⟨?_, fun a ha => ?_, ?_⟩
  · rw [houtput.logs_of_settled hx, hlogs]
  · rw [hchanges] at ha
    exact (hreduced.entry (Overlay.Anchored.removed_change ha).1).2 rfl
  · rw [Engine.usedGas_of_settled hx]
    refine .of_payment hview (fun a hcaller hbeneficiary => ?_) hnonce hsum
      (h.fee_covered hx)
    refine w.replay_untouched fun change hchange haddress => ?_
    rw [hchanges] at hchange
    obtain ⟨entry, hentry, -⟩ := Overlay.mem_changes.mp hchange
    rw [haddress] at hentry
    rcases (hreduced.entry hentry).1 with hpayer | hpayee
    · exact hcaller hpayer
    · exact hbeneficiary hpayee

/-- A world with a caller, an account that writes a slot, logs, calls another with one unit and then
    fails for good, and that other account, which destroys itself in favour of the caller. -/
def failingWorld : World :=
  { accounts := (((∅ : Std.TreeMap Address WorldAccount).insert 200
      { balance := 1000000 }).insert 300
      { code := ⟨#[0x60, 9, 0x60, 7, 0x55, 0x60, 0, 0x60, 0, 0xa0, 0x60, 0, 0x80, 0x80, 0x80,
          0x60, 1, 0x61, 0x01, 0x90, 0x61, 0x27, 0x10, 0xf1, 0xfe]⟩ }).insert 400
        { balance := 5, code := ⟨#[0x60, 200, 0xff]⟩ } }

/-- A transaction that calls the account that fails, with seven units for it. -/
def failingCall : Transaction := ⟨200, 1, 100000, .call 300, 7, ByteArray.empty, 0⟩

/-- The engine after some steps and answers. -/
def failingCallAfter (fuel : ℕ) : Except Fault Engine :=
  (Engine.create .byzantium failingCall {}).run failingWorld false fuel

/-- The caller pays for all of its gas, and nothing else is left of what was done. -/
theorem failingCall_costs_its_gas : ∃ e, failingCallAfter 30 = .ok e ∧
    e.status = .exitedErr .designatedInvalid ∧ e.logs = [] ∧ (∀ a, .removed a ∉ e.changes) ∧
      OnlyFeePaid Ruleset.byzantium.rules.accounts 200 0 0 100000 failingWorld
        (failingWorld.replay Ruleset.byzantium.rules.accounts e.changes) := by
  have hend : (failingCallAfter 30).toOption.map
      (fun e => (e.status, (e.usedGas * failingCall.gasPrice).toWord)) =
        some (.exitedErr .designatedInvalid, 100000) := by
    decide +kernel
  have hsum : failingWorld.totalBalance = 1000005 := by decide +kernel
  rcases hrun : failingCallAfter 30 with fault | e
  · rw [hrun] at hend
    cases hend
  · rw [hrun] at hend
    obtain ⟨hstatus, hfee⟩ := Prod.mk.inj (Option.some.inj hend)
    have hhosted : Engine.Hosted .byzantium failingCall {} failingWorld e := .run .create hrun
    have hword : failingWorld.totalBalance < 2 ^ 256 := by
      rw [hsum]
      decide
    obtain ⟨hlogs, hremoved, hpaid⟩ :=
      failure_costs_only_the_fee hhosted hword (.inl ⟨_, hstatus⟩)
    rw [hfee] at hpaid
    exact ⟨e, rfl, hstatus, hlogs, hremoved, hpaid⟩

end ResumableEvm
