import ResumableEvm.Proofs.FrameAgreement

/-!
# The stages of a settlement

A settlement starts from the accounts of a success, or for a failure from those before anything
was claimed, which it claims again.  It gives back what was claimed, charges the caller, pays the
beneficiary, and then sweeps away what no longer exists.

* `Frame.settlementStart`, `Frame.sweep` — the first stage and the last.
* `Frame.Settles`, `Frame.settle_settles` — all stages of a settlement that is not interrupted.
* `Frame.sweep_keeps` — what the last stage keeps.
* `Frame.settledOverlay_agree` — a settlement under a fuller log.
-/

namespace ResumableEvm

variable {log log' : CommitLog}

/-- Makes sure that an account is known, where that is necessary. -/
def Overlay.requireUnless (s : Overlay) (needless : Bool) (a : Address) (log : CommitLog) :
    Except Requirement Unit :=
  if needless then .ok () else s.require a log

namespace Frame

/-- The accounts that a settlement starts from. -/
def settlementStart (f : Frame) (preclaimed : Word) (fresh : Overlay) (log : CommitLog) :
    Except Requirement Overlay :=
  if f.status = .exitedOk then .ok f.overlay
  else fresh.decreaseBalance f.context.caller preclaimed log

/-- Removes what destroyed itself, and what is empty where that means that it does not exist. -/
def sweep (f : Frame) (s : Overlay) (log : CommitLog) : Except Requirement Overlay :=
  let s := if f.status = .exitedOk then f.removed.foldl Overlay.remove s else s
  if s.rules.emptyExists then .ok s else s.touched.toList.foldlM (clearEmpty log) s

lemma settledOverlay_eq (f : Frame) (chain : ChainView) (usedGas : Gas) (preclaimed : Word)
    (fresh : Overlay) (beneficiary : Address) :
    f.settledOverlay chain usedGas preclaimed fresh beneficiary = (do
      let fee := (usedGas * f.context.gasPrice).toWord
      let start ← f.settlementStart preclaimed fresh chain.log
      let refunded ← start.increaseBalance f.context.caller preclaimed chain.log
      let charged ← refunded.decreaseBalance f.context.caller fee chain.log
      charged.requireUnless charged.rules.allowPartialChange beneficiary chain.log
      let paid ← charged.increaseBalance beneficiary fee chain.log
      f.sweep paid chain.log) := by
  by_cases h : f.status = .exitedOk
  · simp only [settledOverlay, settlementStart, sweep, h, decide_true, if_true]
    refine bind_congr fun _ => bind_congr fun _ => bind_congr fun charged => ?_
    simp only [Overlay.requireUnless]
    cases charged.rules.allowPartialChange <;> rfl
  · simp only [settledOverlay, settlementStart, sweep, h, decide_false, if_false,
      Bool.false_eq_true]
    refine bind_congr fun _ => bind_congr fun _ => bind_congr fun charged => ?_
    simp only [Overlay.requireUnless]
    cases charged.rules.allowPartialChange <;> rfl

/-- **The stages of a settlement** that is not interrupted. -/
inductive Settles (f : Frame) (log : CommitLog) (fee preclaimed : Word) (fresh : Overlay)
    (beneficiary : Address) (swept : Overlay) : Prop where
  | stages {start refunded charged paid : Overlay}
      (starts : f.settlementStart preclaimed fresh log = .ok start)
      (refunds : start.increaseBalance f.context.caller preclaimed log = .ok refunded)
      (charges : refunded.decreaseBalance f.context.caller fee log = .ok charged)
      (pays : charged.increaseBalance beneficiary fee log = .ok paid)
      (sweeps : f.sweep paid log = .ok swept)

/-- **Settling** changes the accounts, and of a failure drops what was logged and removed. -/
lemma settle_settles {f g : Frame} {chain : ChainView} {usedGas : Gas} {preclaimed : Word}
    {fresh : Overlay} {beneficiary : Address}
    (h : f.settle chain usedGas preclaimed fresh beneficiary = (g, .ok ())) :
    ∃ swept : Overlay,
      f.Settles chain.log (usedGas * f.context.gasPrice).toWord preclaimed fresh beneficiary swept ∧
        (f.status = .exitedOk ∧ g = { f with overlay := swept } ∨
          f.status ≠ .exitedOk ∧ g = { f with overlay := swept, removed := [], logs := [] }) := by
  obtain ⟨swept, hswept, h⟩ := attempt_eq_ok.mp h
  rw [settledOverlay_eq] at hswept
  simp only [bind_eq_ok] at hswept
  obtain ⟨start, hstart, refunded, hrefunded, charged, hcharged, -, -, paid, hpaid, hsweep⟩ :=
    hswept
  refine ⟨swept, .stages hstart hrefunded hcharged hpaid hsweep, ?_⟩
  split at h <;> cases h
  · exact .inl ⟨‹_›, rfl⟩
  · exact .inr ⟨‹_›, rfl⟩

end Frame

/-! ## What is swept away -/

/-- An empty account has no balance. -/
lemma Overlay.balance_of_isEmpty {s : Overlay} {a : Address} (h : s.isEmpty a log = .ok true) :
    s.balance a log = .ok 0 := by
  obtain ⟨nonce, -, h⟩ := bind_eq_ok.mp h
  split at h
  · obtain ⟨balance, hbalance, h⟩ := bind_eq_ok.mp h
    split at h
    · rename_i hzero
      rw [hbalance, hzero]
    · cases h
  · cases h

namespace Frame

variable {f : Frame} {s s' : Overlay} {a : Address}

/-- An account is removed only if it has no balance. -/
lemma clearEmpty_eq_ok (h : clearEmpty log s a = .ok s') :
    s' = s ∨ s' = s.remove a ∧ s.balance a log = .ok 0 := by
  simp only [clearEmpty] at h
  obtain ⟨there, -, h⟩ := bind_eq_ok.mp h
  cases there with
  | false => exact .inl (Except.ok.inj h).symm
  | true =>
      obtain ⟨blank, hblank, h⟩ := bind_eq_ok.mp h
      cases blank with
      | false => exact .inl (Except.ok.inj h).symm
      | true => exact .inr ⟨(Except.ok.inj h).symm, Overlay.balance_of_isEmpty hblank⟩

/-- **What sweeping keeps:** what the removal of each account keeps that destroyed itself, and of
    each that has no balance. -/
lemma sweep_keeps {Q : Overlay → Prop}
    (hremoved : f.status = .exitedOk → ∀ s, Q s → ∀ a ∈ f.removed, Q (s.remove a))
    (hempty : ∀ {s a}, s.balance a log = .ok 0 → Q s → Q (s.remove a))
    (h : f.sweep s log = .ok s') (hs : Q s) : Q s' := by
  have hcleared : ∀ (touched : List Address) (s : Overlay), Q s →
      touched.foldlM (clearEmpty log) s = .ok s' → Q s' := by
    intro touched
    induction touched with
    | nil =>
        intro s hs h
        cases h
        exact hs
    | cons a rest ih =>
        intro s hs h
        obtain ⟨next, hnext, h⟩ := bind_eq_ok.mp h
        refine ih next ?_ h
        rcases clearEmpty_eq_ok hnext with rfl | ⟨rfl, hbalance⟩
        · exact hs
        · exact hempty hbalance hs
  have hstart : Q (if f.status = .exitedOk then f.removed.foldl Overlay.remove s else s) := by
    split
    · rename_i hok
      exact List.foldlRecOn f.removed Overlay.remove hs (hremoved hok)
    · exact hs
  have hlast : ∀ s : Overlay, Q s → (if s.rules.emptyExists then .ok s
      else s.touched.toList.foldlM (clearEmpty log) s) = .ok s' → Q s' := by
    intro s hs h
    split at h
    · cases h
      exact hs
    · exact hcleared _ s hs h
  exact hlast _ hstart h

end Frame

/-! ## Settlements under a fuller log -/

namespace Frame

lemma clearEmpty_agree (h : log.Within log') (s : Overlay) (a : Address) :
    Agree log log' (clearEmpty log s a) (clearEmpty log' s a) := by
  refine (s.accountExists_agree h a).bind fun there _ => ?_
  split
  · refine (s.isEmpty_agree h a).bind fun blank _ => ?_
    split <;> exact .refl rfl
  · exact .refl rfl

lemma clearEmpties_agree (h : log.Within log') (touched : List Address) (s : Overlay) :
    Agree log log' (touched.foldlM (clearEmpty log) s) (touched.foldlM (clearEmpty log') s) := by
  induction touched generalizing s with
  | nil => exact .refl rfl
  | cons a rest ih => exact (clearEmpty_agree h s a).bind fun s' _ => ih s'

lemma sweep_agree (h : log.Within log') (f : Frame) (s : Overlay) :
    Agree log log' (f.sweep s log) (f.sweep s log') := by
  simp only [sweep]
  split <;> split <;> first | exact .refl rfl | exact clearEmpties_agree h _ _

/-- **A settlement** agrees with itself under a fuller log, if that one knows the caller and the
    beneficiary only if this one does.  A beneficiary that is known there and not here would be
    paid for good there, and by a difference here. -/
lemma settledOverlay_agree (h : log.Within log') (f : Frame) (rs : Ruleset) (block : Header)
    (usedGas : Gas) (preclaimed : Word) (fresh : Overlay) {beneficiary : Address}
    (hcaller : log'.Answers (.account f.context.caller) → log.Answers (.account f.context.caller))
    (hpayee : log'.Answers (.account beneficiary) → log.Answers (.account beneficiary)) :
    Agree log log'
      (f.settledOverlay ⟨rs, block, log⟩ usedGas preclaimed fresh beneficiary)
      (f.settledOverlay ⟨rs, block, log'⟩ usedGas preclaimed fresh beneficiary) := by
  have hmoves : ∀ {a : Address}, (log'.Answers (.account a) → log.Answers (.account a)) →
      ∀ (s : Overlay) (value : Word) {first : Word → BalanceShift}
        {shift : BalanceShift → Word → BalanceShift} {change : Word → Word → Word},
        Agree log log' (s.moveBalance a value log first shift change)
          (s.moveBalance a value log' first shift change) :=
    fun ha s value => s.moveBalance_agree_of h _ value (.of_answers ha)
  have hstart : Agree log log' (f.settlementStart preclaimed fresh log)
      (f.settlementStart preclaimed fresh log') := by
    simp only [settlementStart]
    split
    · exact .refl rfl
    · exact hmoves hcaller fresh _
  rw [settledOverlay_eq, settledOverlay_eq]
  refine hstart.bind fun start _ => ?_
  refine (hmoves hcaller start _).bind fun refunded _ => ?_
  refine (hmoves hcaller refunded _).bind fun charged _ => ?_
  have hrequire : Agree log log'
      (charged.requireUnless charged.rules.allowPartialChange beneficiary log)
      (charged.requireUnless charged.rules.allowPartialChange beneficiary log') := by
    simp only [Overlay.requireUnless]
    split
    · exact .refl rfl
    · exact charged.require_agree h beneficiary
  refine hrequire.bind fun _ _ => ?_
  exact (hmoves hpayee charged _).bind fun paid _ => sweep_agree h f paid

end Frame

end ResumableEvm
