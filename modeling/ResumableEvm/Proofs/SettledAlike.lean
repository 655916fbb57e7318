import ResumableEvm.Proofs.AttestedOverlay

/-!
# One settlement under two logs

Two logs of one world may know different accounts when an execution is settled.  Its frames have
asked for all that they held, so the two can only differ in the beneficiary: where it is known its
balance is raised for good, and where it is not the payment is kept as a difference.  Either way
the host is told of the same change, unless the balance would stop at the largest word.

* `Overlay.change?_congr`, `Overlay.changes_congr` — changes under two logs.
* `Overlay.Twins` — overlays that differ in one account.
* `Frame.Closes` — a settlement under a log that was told enough.
* `Frame.Closes.changes_eq` — two settlements of one frame report the same changes.
-/

namespace ResumableEvm

open Std

/-! ## Filtered tables -/

/-- Two filters that agree on what a tree holds keep the same tree. -/
lemma tree_filter_congr {α : Type} {β : α → Type} [Ord α] {keep keep' : (key : α) → β key → Bool}
    (tree : DTreeMap.Internal.Impl α β) (hb : tree.Balanced)
    (h : ∀ row ∈ tree.toListModel, keep row.1 row.2 = keep' row.1 row.2) :
    tree.filter keep hb = tree.filter keep' hb := by
  induction tree with
  | leaf => rfl
  | inner size key value l r ihl ihr =>
      rw [DTreeMap.Internal.Impl.filter.eq_def keep, DTreeMap.Internal.Impl.filter.eq_def keep']
      simp only [DTreeMap.Internal.Impl.toListModel_inner, List.mem_append, List.mem_cons] at h
      dsimp only
      rw [ihl _ fun row hrow => h row (.inl hrow), ihr _ fun row hrow => h row (.inr (.inr hrow)),
        h ⟨key, value⟩ (.inr (.inl rfl))]

/-- Two filters that agree on what a table holds keep the same table. -/
lemma table_filter_congr {α β : Type} [Ord α] [TransOrd α] [LawfulEqOrd α]
    {keep keep' : α → β → Bool} {table : TreeMap α β}
    (h : ∀ key value, table[key]? = some value → keep key value = keep' key value) :
    table.filter keep = table.filter keep' := by
  have hrows : ∀ row ∈ table.inner.inner.toListModel, keep row.1 row.2 = keep' row.1 row.2 := by
    rintro ⟨key, value⟩ hrow
    refine h key value (TreeMap.mem_toList_iff_getElem?_eq_some.mp ?_)
    simp only [TreeMap.toList, DTreeMap.Const.toList]
    rw [DTreeMap.Internal.Impl.Const.toList_eq_toListModel_map]
    exact List.mem_map.mpr ⟨_, hrow, rfl⟩
  have htree := tree_filter_congr table.inner.inner table.inner.wf.balanced hrows
  simp only [TreeMap.filter, DTreeMap.filter]
  simp only [htree]

variable {log log' full told told' : CommitLog} {w : World} {rules : AccountRules} {a b : Address}
  {value : Word}

/-! ## Changes under two logs -/

namespace CommitLog

/-- Two logs that were told of an account were told the same. -/
lemma Tells.account_congr (ht : log.Tells w) (ht' : log'.Tells w) (ha : log.Answers (.account a))
    (ha' : log'.Answers (.account a)) : log.accounts[a]? = log'.accounts[a]? := by
  obtain ⟨known, hk⟩ := ha
  obtain ⟨known', hk'⟩ := ha'
  rw [account_eq_ok.mp hk, account_eq_ok.mp hk', ht.account_eq hk, ht'.account_eq hk']

end CommitLog

namespace Overlay

variable {s s' t t' : Overlay}

/-- The change of a live account is the same under two logs that it is anchored in. -/
lemma liveChange?_congr (ht : log.Tells w) (ht' : log'.Tells w) {account : LiveAccount}
    (h : account.Anchored log a) (h' : account.Anchored log' a) :
    liveChange? a account log = liveChange? a account log' := by
  cases hreset : account.reset with
  | true => rw [liveChange?_reset hreset, liveChange?_reset hreset]
  | false =>
      obtain ⟨nonce, balance, code, hk⟩ := h.committed hreset
      obtain ⟨nonce', balance', code', hk'⟩ := h'.committed hreset
      have hsame := ht.account_congr ht' ⟨_, CommitLog.account_eq_ok.mpr hk⟩
        ⟨_, CommitLog.account_eq_ok.mpr hk'⟩
      have hslots : changedSlots a account log = changedSlots a account log' := by
        refine table_filter_congr fun index value hv => ?_
        obtain ⟨told, htold⟩ := h.slots hreset hv
        obtain ⟨told', htold'⟩ := h'.slots hreset hv
        rw [htold, htold', ht.storage_eq htold, ht'.storage_eq htold']
      rw [liveChange?_kept hreset hk, liveChange?_kept hreset (hsame ▸ hk), hslots]

/-- **The change of an entry** is the same under two logs that it is anchored in, if both were told
    of an account that has been removed. -/
lemma change?_congr (ht : log.Tells w) (ht' : log'.Tells w) {entry : AccountEntry}
    (h : entry.Anchored log a) (h' : entry.Anchored log' a)
    (hdead : entry = .dead → log.Answers (.account a) ∧ log'.Answers (.account a)) :
    change? a entry log = change? a entry log' := by
  cases h with
  | paid something => rfl
  | live anchored =>
      cases h' with
      | live anchored' => exact liveChange?_congr ht ht' anchored anchored'
  | dead =>
      obtain ⟨ha, ha'⟩ := hdead rfl
      simp only [change?]
      rw [ht.account_congr ht' ha ha']

/-- A balance that is raised, short of the largest word, and nothing else. -/
lemma change?_raised {nonce balance : Word} {code : Bytes}
    (hk : log.accounts[a]? = some (.full nonce balance code)) (hsome : value ≠ 0)
    (hroom : balance.toNat + value.toNat < 2 ^ 256) :
    change? a (.live ⟨nonce, balance.addSat value, code, ∅, false⟩) log =
      some (.increaseBalance a value) := by
  have hraised : (balance.addSat value).toNat = balance.toNat + value.toNat := by
    rw [Word.toNat_addSat]
    have hmax : maxWord = 2 ^ 256 - 1 := rfl
    omega
  have hpos : value.toNat ≠ 0 := fun h => hsome (BitVec.eq_of_toNat_eq h)
  have hlt : balance < balance.addSat value := by
    rw [BitVec.lt_def]
    omega
  have hdiff : balance.addSat value - balance = value := by
    apply BitVec.eq_of_toNat_eq
    rw [BitVec.toNat_sub_of_le (BitVec.le_def.mpr (by omega))]
    omega
  have hslots : (changedSlots a ⟨nonce, balance.addSat value, code, ∅, false⟩ log).isEmpty := by
    rw [TreeMap.isEmpty_iff_forall_not_mem]
    intro index hmem
    have hheld := TreeMap.mem_of_mem_filter hmem
    simp at hheld
  simp only [change?]
  rw [liveChange?_kept rfl hk, if_pos ⟨rfl, rfl, hslots⟩]
  simp only [balanceChange?]
  rw [if_pos hlt, hdiff]

/-- **Overlays that change every account alike report the same changes.** -/
lemma changes_congr
    (h : ∀ a : Address, (s.entries[a]?.bind fun entry => change? a entry log) =
      s'.entries[a]?.bind fun entry => change? a entry log') :
    s.changes log = s'.changes log' := by
  have hnodup : ∀ (s : Overlay) (log : CommitLog), (s.changes log).Nodup := by
    intro s log
    refine (s.changes_distinct log).imp ?_
    rintro c d hne rfl
    exact hne rfl
  refine List.Perm.eq_of_pairwise (fun c d _ _ hcd hdc => ?_) (s.changes_ascending log)
    (s'.changes_ascending log')
    ((List.perm_ext_iff_of_nodup (hnodup s log) (hnodup s' log')).mpr fun change => ?_)
  · exact absurd (BitVec.lt_trans hcd hdc) (BitVec.lt_irrefl _)
  · simp only [mem_changes, ← Option.bind_eq_some_iff]
    rw [h]

/-! ## Overlays that differ in one account -/

/-- **Two overlays that differ in what they hold of one account.** -/
structure Twins (b : Address) (held held' : AccountEntry) (s s' : Overlay) : Prop where
  rules : s'.rules = s.rules
  touched : s'.touched = s.touched
  others : ∀ a, a ≠ b → s'.entries[a]? = s.entries[a]?
  holds : s.entries[b]? = some held
  holds' : s'.entries[b]? = some held'

lemma twins_of_insert (s : Overlay) (b : Address) (held held' : AccountEntry) :
    Twins b held held' { s with entries := s.entries.insert b held }
      { s with entries := s.entries.insert b held' } where
  rules := rfl
  touched := rfl
  others a hne := by simp [TreeMap.getElem?_insert, Ne.symm hne]
  holds := by simp
  holds' := by simp

namespace Twins

variable {held held' : AccountEntry} (h : Twins b held held' s s')

include h

lemma remove (hne : a ≠ b) : Twins b held held' (s.remove a) (s'.remove a) where
  rules := h.rules
  touched := h.touched
  others c hc := by
    simp only [Overlay.remove, TreeMap.getElem?_insert]
    split
    · rfl
    · exact h.others c hc
  holds := by simpa [Overlay.remove, TreeMap.getElem?_insert, hne] using h.holds
  holds' := by simpa [Overlay.remove, TreeMap.getElem?_insert, hne] using h.holds'

/-- The other accounts are read alike. -/
lemma accountExists_eq (hne : a ≠ b) (log : CommitLog) :
    s'.accountExists a log = s.accountExists a log := by
  simp only [accountExists, h.others a hne]

lemma isEmpty_eq (hne : a ≠ b) (log : CommitLog) : s'.isEmpty a log = s.isEmpty a log := by
  simp only [isEmpty, nonce, balance, code, h.others a hne, h.rules]

end Twins

/-! ## What an overlay knows -/

/-- **An overlay is vouched for by a log** that was told of every account the overlay knows. -/
def Vouched (s : Overlay) (log : CommitLog) : Prop :=
  ∀ a : Address, s.Knows a log → log.Answers (.account a)

lemma knows_remove : (s.remove a).Knows b log ↔ a = b ∨ s.Knows b log := by
  rw [knows_iff, knows_iff]
  simp only [remove, TreeMap.getElem?_insert]
  by_cases hab : a = b <;> simp [hab]

/-- An account whose balance is read is known. -/
lemma knows_of_balance (h : s.balance a log = .ok value) : s.Knows a log := by
  rw [knows_iff]
  simp only [balance, CommitLog.balance] at h
  split at h
  · exact .inl ⟨_, ‹_›⟩
  · exact .inr (.inl ‹_›)
  · obtain ⟨balance, hb, -⟩ := map_eq_ok.mp h
    obtain ⟨known, hk, -⟩ := map_eq_ok.mp hb
    exact .inr (.inr ⟨known, hk⟩)
  · obtain ⟨known, hk, -⟩ := map_eq_ok.mp h
    exact .inr (.inr ⟨known, hk⟩)

lemma Attested.vouched (h : s.Attested log) : s.Vouched log := fun _ => h.answers

lemma Vouched.remove (h : s.Vouched log) (ha : log.Answers (.account a)) :
    (s.remove a).Vouched log := by
  intro c hc
  rcases knows_remove.mp hc with rfl | hc
  · exact ha
  · exact h c hc

/-- A payment makes no account known. -/
lemma Vouched.increaseBalance (h : s.Vouched log) (hs : s.increaseBalance a value log = .ok s') :
    s'.Vouched log := by
  simp only [Overlay.increaseBalance, Overlay.moveBalance] at hs
  split at hs
  · cases hs
    exact h
  · split at hs
    · cases hs
      intro c hc
      refine h c (knows_iff.mpr ?_)
      have hknows := knows_iff.mp hc
      simp only [TreeMap.getElem?_insert] at hknows
      by_cases hac : a = c
      · subst hac
        simp only [compare_self, if_true] at hknows
        rcases hknows with ⟨account, he⟩ | he | hlog
        · cases he
        · cases he
        · exact .inr (.inr hlog)
      · simpa [hac] using hknows
    · obtain ⟨account, hl, rfl⟩ := update_eq_ok.mp hs
      intro c hc
      refine (eq_or_ne a c).elim (fun hac => hac ▸ h a ⟨account, hl⟩) fun hac => h c ?_
      rw [knows_iff] at hc ⊢
      simpa [TreeMap.getElem?_insert, hac] using hc

/-- What is held as a whole is held of accounts that the log was told of. -/
lemma Vouched.answers_of_dead (h : s.Vouched log) (he : s.entries[a]? = some .dead) :
    log.Answers (.account a) :=
  h a (knows_iff.mpr (.inr (.inl he)))

/-! ## Paying an account of which nothing is held -/

/-- A payment is the same under a fuller log that does not know the account unless this one does. -/
lemma increaseBalance_agree (hw : log.Within log') (s : Overlay) (a : Address) (value : Word)
    (hs : s.Knows a log' → s.Knows a log) :
    Agree log log' (s.increaseBalance a value log) (s.increaseBalance a value log') :=
  s.moveBalance_agree_of hw a value hs

/-- Where the account is not known the payment is kept as a difference. -/
lemma increaseBalance_unknown (hunheld : s.entries[a]? = none)
    (hunknown : ¬ log.Answers (.account a)) (h : s.increaseBalance a value log = .ok s') :
    s' = if value = 0 then s
      else { s with entries := s.entries.insert a (.shifted (.up value)) } := by
  have hforeign : ¬ s.Knows a log := by
    rw [knows_iff, hunheld]
    rintro (⟨account, he⟩ | he | htold)
    · cases he
    · cases he
    · exact hunknown htold
  simp only [increaseBalance, moveBalance] at h
  split at h
  · rename_i hzero
    cases h
    rw [if_pos hzero]
  · rename_i hsome
    rw [if_neg hsome]
    split at h
    · cases h
      rw [hunheld]
    · obtain ⟨account, hl, -⟩ := update_eq_ok.mp h
      exact absurd ⟨account, hl⟩ hforeign

/-- Where the account is known, its balance is raised for good. -/
lemma increaseBalance_known {nonce balance : Word} {code : Bytes}
    (hunheld : s.entries[a]? = none) (hk : log.account a = .ok (.full nonce balance code))
    (h : s.increaseBalance a value log = .ok s') :
    s' = if value = 0 then s
      else { s with entries :=
        s.entries.insert a (.live ⟨nonce, balance.addSat value, code, ∅, false⟩) } := by
  have hlive : s.live a log = .ok ⟨nonce, balance, code, ∅, false⟩ := by
    simp [live, committed, hunheld, hk, Except.map]
  have hknows : s.Knows a log := ⟨_, hlive⟩
  simp only [increaseBalance] at h
  rw [hknows.moveBalance_eq] at h
  split at h
  · rename_i hzero
    cases h
    rw [if_pos hzero]
  · rename_i hsome
    rw [if_neg hsome]
    obtain ⟨account, hl, rfl⟩ := update_eq_ok.mp h
    obtain rfl := Except.ok.inj (hlive.symm.trans hl)
    rfl

end Overlay

/-! ## Sweeping under two logs -/

namespace Frame

open Overlay

variable {f : Frame} {s s' t t' : Overlay} {held held' : AccountEntry}

/-- An account that is looked at in order to be cleared is known. -/
lemma knows_of_clearEmpty (h : clearEmpty log s a = .ok t) : s.Knows a log := by
  obtain ⟨there, hthere, h⟩ := bind_eq_ok.mp h
  rw [knows_iff]
  cases he : s.entries[a]? with
  | none =>
      simp only [accountExists, he, CommitLog.accountExists] at hthere
      obtain ⟨known, hk, -⟩ := map_eq_ok.mp hthere
      exact .inr (.inr ⟨known, hk⟩)
  | some entry =>
      cases entry with
      | live account => exact .inl ⟨account, rfl⟩
      | dead => exact .inr (.inl rfl)
      | shifted shift =>
          -- it exists, so it is looked at whether it is empty
          simp only [accountExists, he] at hthere
          cases hthere
          obtain ⟨blank, hblank, -⟩ := bind_eq_ok.mp h
          obtain ⟨told, hnonce, -⟩ := bind_eq_ok.mp hblank
          simp only [Overlay.nonce, he, CommitLog.nonce?] at hnonce
          obtain ⟨nonce?, hnonce, -⟩ := map_eq_ok.mp hnonce
          obtain ⟨known, hk, -⟩ := map_eq_ok.mp hnonce
          exact .inr (.inr ⟨known, hk⟩)

lemma knows_of_clearEmpties {touched : List Address}
    (h : touched.foldlM (clearEmpty log) s = .ok t) : ∀ a ∈ touched, s.Knows a log := by
  induction touched generalizing s with
  | nil =>
      intro a ha
      cases ha
  | cons c rest ih =>
      obtain ⟨next, hnext, hrest⟩ := bind_eq_ok.mp h
      intro a ha
      rcases List.mem_cons.mp ha with rfl | ha
      · exact knows_of_clearEmpty hnext
      · have hknows := ih hrest a ha
        rcases clearEmpty_eq_ok hnext with rfl | ⟨rfl, -⟩
        · exact hknows
        · rcases knows_remove.mp hknows with rfl | hknows
          · exact knows_of_clearEmpty hnext
          · exact hknows

/-- Removing accounts leaves the others, and what was touched. -/
lemma foldl_remove_same (removed : List Address) (s : Overlay) :
    (removed.foldl Overlay.remove s).rules = s.rules ∧
      (removed.foldl Overlay.remove s).touched = s.touched ∧
        (b ∉ removed → (removed.foldl Overlay.remove s).entries[b]? = s.entries[b]?) := by
  induction removed generalizing s with
  | nil => exact ⟨rfl, rfl, fun _ => rfl⟩
  | cons a rest ih =>
      obtain ⟨hrules, htouched, hentry⟩ := ih (s.remove a)
      refine ⟨hrules, htouched, fun hb => ?_⟩
      obtain ⟨hne, hrest⟩ := not_or.mp (mt List.mem_cons.mpr hb)
      rw [List.foldl_cons, hentry hrest]
      simp [Overlay.remove, TreeMap.getElem?_insert, Ne.symm hne]

lemma clearEmpty_twins (hs : Twins b held held' s s') (hne : a ≠ b)
    (h : clearEmpty log s a = .ok t) (h' : clearEmpty log s' a = .ok t') :
    Twins b held held' t t' := by
  simp only [clearEmpty] at h h'
  rw [hs.accountExists_eq hne, hs.isEmpty_eq hne] at h'
  obtain ⟨there, hthere, h⟩ := bind_eq_ok.mp h
  obtain ⟨there', hthere', h'⟩ := bind_eq_ok.mp h'
  obtain rfl := Except.ok.inj (hthere.symm.trans hthere')
  cases there with
  | false =>
      cases h
      cases h'
      exact hs
  | true =>
      obtain ⟨blank, hblank, h⟩ := bind_eq_ok.mp h
      obtain ⟨blank', hblank', h'⟩ := bind_eq_ok.mp h'
      obtain rfl := Except.ok.inj (hblank.symm.trans hblank')
      cases blank <;> cases h <;> cases h'
      · exact hs
      · exact hs.remove hne

lemma clearEmpties_twins {touched : List Address} (hs : Twins b held held' s s')
    (hb : b ∉ touched) (h : touched.foldlM (clearEmpty log) s = .ok t)
    (h' : touched.foldlM (clearEmpty log) s' = .ok t') : Twins b held held' t t' := by
  induction touched generalizing s s' with
  | nil =>
      cases h
      cases h'
      exact hs
  | cons a rest ih =>
      obtain ⟨next, hnext, h⟩ := bind_eq_ok.mp h
      obtain ⟨next', hnext', h'⟩ := bind_eq_ok.mp h'
      obtain ⟨hne, hrest⟩ := not_or.mp (mt List.mem_cons.mpr hb)
      exact ih (clearEmpty_twins hs (Ne.symm hne) hnext hnext') hrest h h'

/-- What is left before accounts are cleared that are empty. -/
def survived (f : Frame) (s : Overlay) : Overlay :=
  if f.status = .exitedOk then f.removed.foldl Overlay.remove s else s

lemma sweep_eq (f : Frame) (s : Overlay) (log : CommitLog) : f.sweep s log =
    if s.rules.emptyExists then .ok (f.survived s)
    else s.touched.toList.foldlM (clearEmpty log) (f.survived s) := by
  simp only [sweep, survived]
  split
  · rw [(foldl_remove_same (b := 0) f.removed s).1, (foldl_remove_same (b := 0) f.removed s).2.1]
  · rfl

lemma survived_entry (hb : b ∉ f.removed) : (f.survived s).entries[b]? = s.entries[b]? := by
  simp only [survived]
  split
  · exact (foldl_remove_same f.removed s).2.2 hb
  · rfl

lemma survived_twins (hs : Twins b held held' s s') (hb : b ∉ f.removed) :
    Twins b held held' (f.survived s) (f.survived s') := by
  simp only [survived]
  split
  · generalize f.removed = removed at hb ⊢
    induction removed generalizing s s' with
    | nil => exact hs
    | cons a rest ih =>
        obtain ⟨hne, hrest⟩ := not_or.mp (mt List.mem_cons.mpr hb)
        exact ih (hs.remove (Ne.symm hne)) hrest
  · exact hs

/-- **A sweep keeps two overlays twins,** if it does not come to the account in which they
    differ. -/
lemma sweep_twins (hs : Twins b held held' s s') (hremoved : b ∉ f.removed)
    (htouched : s.rules.emptyExists = false → b ∉ s.touched.toList)
    (h : f.sweep s log = .ok t) (h' : f.sweep s' log = .ok t') : Twins b held held' t t' := by
  rw [sweep_eq] at h h'
  rw [hs.rules, hs.touched] at h'
  have hsurvived := survived_twins (f := f) hs hremoved
  cases hempty : s.rules.emptyExists with
  | true =>
      rw [hempty] at h h'
      cases h
      cases h'
      exact hsurvived
  | false =>
      rw [hempty] at h h'
      exact clearEmpties_twins hsurvived (htouched hempty) h h'

/-- **A sweep does not come to an account that is known by a difference alone.** -/
lemma untouched_of_sweep {shift : BalanceShift} (h : f.sweep s log = .ok t)
    (hremoved : b ∉ f.removed) (he : s.entries[b]? = some (.shifted shift))
    (hunknown : ¬ log.Answers (.account b)) (hempty : s.rules.emptyExists = false) :
    b ∉ s.touched.toList := by
  intro hb
  rw [sweep_eq, hempty] at h
  have hknows := knows_iff.mp (knows_of_clearEmpties h b hb)
  rw [survived_entry hremoved, he] at hknows
  rcases hknows with ⟨account, hlive⟩ | hdead | htold
  · cases hlive
  · cases hdead
  · exact hunknown htold

/-- A sweep removes accounts only that the log was told of. -/
lemma sweep_vouched (hs : s.Vouched log) (hremoved : ∀ a ∈ f.removed, log.Answers (.account a))
    (h : f.sweep s log = .ok t) : t.Vouched log :=
  sweep_keeps (Q := fun s => s.Vouched log) (fun _ _ hs a ha => hs.remove (hremoved a ha))
    (fun hzero hs => hs.remove (hs _ (knows_of_balance hzero))) h hs

/-! ## Settling under two logs -/

variable {fee preclaimed : Word} {fresh charged swept swept' : Overlay} {beneficiary : Address}

/-- The accounts after the caller has got back what was claimed and has paid the fee. -/
def chargedOverlay (f : Frame) (fee preclaimed : Word) (fresh : Overlay) (log : CommitLog) :
    Except Requirement Overlay := do
  let start ← f.settlementStart preclaimed fresh log
  let refunded ← start.increaseBalance f.context.caller preclaimed log
  refunded.decreaseBalance f.context.caller fee log

lemma chargedOverlay_agree (hw : log.Within log') (f : Frame) (fee preclaimed : Word)
    (fresh : Overlay) (hcaller : log.Answers (.account f.context.caller)) :
    Agree log log' (f.chargedOverlay fee preclaimed fresh log)
      (f.chargedOverlay fee preclaimed fresh log') := by
  have hknows : ∀ s : Overlay, s.Knows f.context.caller log' → s.Knows f.context.caller log :=
    fun s => .of_answers fun _ => hcaller
  have hstart : Agree log log' (f.settlementStart preclaimed fresh log)
      (f.settlementStart preclaimed fresh log') := by
    simp only [settlementStart]
    split
    · exact .refl rfl
    · exact fresh.moveBalance_agree_of hw _ _ (hknows fresh)
  refine hstart.bind fun start _ => ?_
  refine (start.moveBalance_agree_of hw _ _ (hknows start)).bind fun refunded _ => ?_
  exact refunded.moveBalance_agree_of hw _ _ (hknows refunded)

/-- **A frame that is settled** under a log that was told enough, before another was told more. -/
structure Closes (rules : AccountRules) (w : World) (f : Frame) (fee preclaimed : Word)
    (fresh : Overlay) (beneficiary : Address) (told log : CommitLog) (swept : Overlay) : Prop where
  settles : f.Settles told fee preclaimed fresh beneficiary swept
  knew : told.Tells w
  tells : log.Tells w
  within : told.Within log
  caller : ∀ s : Overlay, s.Knows f.context.caller told
  attested : f.Attested told
  freshAttested : fresh.Attested told
  anchored : f.overlay.Anchored rules told
  freshAnchored : fresh.Anchored rules told

namespace Closes

lemma answers_caller (h : f.Closes rules w fee preclaimed fresh b told log swept) :
    told.Answers (.account f.context.caller) :=
  (Attested.empty rules told).answers (h.caller _)

/-- The stages of the settlement: what is charged would be charged under every fuller log. -/
lemma stages (h : f.Closes rules w fee preclaimed fresh b told log swept) (hw : told.Within full) :
    ∃ charged paid : Overlay, f.chargedOverlay fee preclaimed fresh full = .ok charged ∧
      charged.Attested told ∧ charged.increaseBalance b fee told = .ok paid ∧
        f.sweep paid told = .ok swept := by
  have hcaller := h.caller
  cases h.settles with
  | @stages start refunded charged paid starts refunds charges pays sweeps =>
      have hstart : start.Attested told := by
        simp only [settlementStart] at starts
        split at starts
        · cases starts
          exact h.attested.held
        · exact h.freshAttested.moveBalance (hcaller _) starts
      have hcharged := (hstart.moveBalance (hcaller _) refunds).moveBalance (hcaller _) charges
      have hagree := f.chargedOverlay_agree hw fee preclaimed fresh h.answers_caller
      have hover : f.chargedOverlay fee preclaimed fresh told = .ok charged := by
        simp only [chargedOverlay, bind_eq_ok]
        exact ⟨start, starts, refunded, refunds, charges⟩
      rw [hover] at hagree
      exact ⟨charged, paid, hagree.same rfl, hcharged, pays, sweeps⟩

lemma sweptAnchored (h : f.Closes rules w fee preclaimed fresh b told log swept) :
    swept.Anchored rules log :=
  (h.settles.anchored h.knew h.caller h.anchored h.freshAnchored).within h.within

/-- Whatever is removed in the end was told of. -/
lemma vouched (h : f.Closes rules w fee preclaimed fresh b told log swept) :
    swept.Vouched told := by
  obtain ⟨charged, paid, -, hcharged, hpaid, hswept⟩ := h.stages (.refl told)
  exact sweep_vouched (hcharged.vouched.increaseBalance hpaid) h.attested.removed hswept

lemma answers_of_dead (h : f.Closes rules w fee preclaimed fresh b told log swept)
    (he : swept.entries[a]? = some .dead) : log.Answers (.account a) :=
  h.within.answers (h.vouched.answers_of_dead he)

/-- What both overlays hold of an account changes it alike. -/
lemma change?_eq (h : f.Closes rules w fee preclaimed fresh b told log swept)
    (h' : f.Closes rules w fee preclaimed fresh b told' log' swept')
    (he : swept'.entries[a]? = swept.entries[a]?) :
    (swept.entries[a]?.bind fun entry => change? a entry log) =
      swept'.entries[a]?.bind fun entry => change? a entry log' := by
  rw [he]
  cases hentry : swept.entries[a]? with
  | none => rfl
  | some entry =>
      rw [hentry] at he
      refine change?_congr h.tells h'.tells (h.sweptAnchored.entry hentry)
        (h'.sweptAnchored.entry he) ?_
      rintro rfl
      exact ⟨h.answers_of_dead hentry, h'.answers_of_dead he⟩

/-- **Where both logs know the beneficiary, or neither does,** the accounts come to the same. -/
lemma swept_eq (h : f.Closes rules w fee preclaimed fresh b told log swept)
    (h' : f.Closes rules w fee preclaimed fresh b told' log' swept')
    (hsame : told.Answers (.account b) ↔ told'.Answers (.account b)) : swept' = swept := by
  obtain ⟨full, hfull, hc⟩ := w.exists_complete
  have hw := hc.within hfull h.knew
  have hw' := hc.within hfull h'.knew
  obtain ⟨charged, paid, hcharged, hattested, hpaid, hswept⟩ := h.stages hw
  obtain ⟨charged', paid', hcharged', hattested', hpaid', hswept'⟩ := h'.stages hw'
  obtain rfl := Except.ok.inj (hcharged.symm.trans hcharged')
  have hpayments : paid' = paid := by
    by_cases hknown : told.Answers (.account b)
    · have hagree := charged.increaseBalance_agree hw b fee (.of_answers fun _ => hknown)
      have hagree' := charged.increaseBalance_agree hw' b fee
        (.of_answers fun _ => hsame.mp hknown)
      rw [hpaid] at hagree
      rw [hpaid'] at hagree'
      exact Except.ok.inj ((hagree'.same rfl).symm.trans (hagree.same rfl))
    · have hunheld := hattested.unheld hknown
      rw [increaseBalance_unknown hunheld hknown hpaid,
        increaseBalance_unknown hunheld (fun h => hknown (hsame.mpr h)) hpaid']
  subst hpayments
  have hagree := sweep_agree hw f paid'
  have hagree' := sweep_agree hw' f paid'
  rw [hswept] at hagree
  rw [hswept'] at hagree'
  exact Except.ok.inj ((hagree'.same rfl).symm.trans (hagree.same rfl))

/-- **Where one log knows the beneficiary and the other does not,** the accounts come to the same
    but for the payment, which is for good there and a difference here. -/
lemma swept_twins (h : f.Closes rules w fee preclaimed fresh b told log swept)
    (h' : f.Closes rules w fee preclaimed fresh b told' log' swept') {nonce balance : Word}
    {code : Bytes} (hknown : told.account b = .ok (.full nonce balance code))
    (hunknown : ¬ told'.Answers (.account b)) :
    fee = 0 ∧ swept' = swept ∨ fee ≠ 0 ∧
      Twins b (.live ⟨nonce, balance.addSat fee, code, ∅, false⟩) (.shifted (.up fee))
        swept swept' := by
  obtain ⟨full, hfull, hc⟩ := w.exists_complete
  have hw := hc.within hfull h.knew
  have hw' := hc.within hfull h'.knew
  obtain ⟨charged, paid, hcharged, -, hpaid, hswept⟩ := h.stages hw
  obtain ⟨charged', paid', hcharged', hattested, hpaid', hswept'⟩ := h'.stages hw'
  obtain rfl := Except.ok.inj (hcharged.symm.trans hcharged')
  -- the frames have asked for all they held, so nothing is held of the beneficiary
  have hunheld := hattested.unheld hunknown
  have hpaid := increaseBalance_known hunheld hknown hpaid
  have hpaid' := increaseBalance_unknown hunheld hunknown hpaid'
  have hagree := sweep_agree hw f paid
  rw [hswept] at hagree
  have hagree' := sweep_agree hw' f paid'
  rw [hswept'] at hagree'
  by_cases hfee : fee = 0
  · rw [if_pos hfee] at hpaid hpaid'
    subst hpaid hpaid'
    exact .inl ⟨hfee, Except.ok.inj ((hagree'.same rfl).symm.trans (hagree.same rfl))⟩
  · rw [if_neg hfee] at hpaid hpaid'
    have hremoved : b ∉ f.removed := fun hb => hunknown (h'.attested.removed b hb)
    have htwins := twins_of_insert charged b (.live ⟨nonce, balance.addSat fee, code, ∅, false⟩)
      (.shifted (.up fee))
    rw [← hpaid, ← hpaid'] at htwins
    refine .inr ⟨hfee, sweep_twins htwins hremoved (fun hempty => ?_) (hagree.same rfl)
      (hagree'.same rfl)⟩
    rw [← htwins.rules] at hempty
    rw [← htwins.touched]
    exact untouched_of_sweep hswept' hremoved htwins.holds' hunknown hempty

/-- Where one log knows the beneficiary and the other does not, the changes come to the same: a
    balance that was raised is reported as the payment it was raised by. -/
lemma changes_eq_of_known (h : f.Closes rules w fee preclaimed fresh b told log swept)
    (h' : f.Closes rules w fee preclaimed fresh b told' log' swept')
    (hexists : w.accounts[b]? ≠ none)
    (hroom : ∀ account : WorldAccount, w.accounts[b]? = some account → b ≠ f.context.caller →
      account.balance.toNat + fee.toNat < 2 ^ 256)
    (hknown : told.Answers (.account b)) (hunknown : ¬ told'.Answers (.account b)) :
    swept'.changes log' = swept.changes log := by
  obtain ⟨account, haccount⟩ := Option.ne_none_iff_exists'.mp hexists
  have htold : told.account b = .ok (.full account.nonce account.balance account.code) := by
    obtain ⟨known, hk⟩ := hknown
    rw [hk, h.knew.account_eq hk]
    simp [World.account, haccount]
  have hstranger : b ≠ f.context.caller := by
    rintro rfl
    exact hunknown h'.answers_caller
  rcases h.swept_twins h' htold hunknown with ⟨-, rfl⟩ | ⟨hfee, htwins⟩
  · exact changes_congr fun a => h'.change?_eq h rfl
  · refine changes_congr fun a => ?_
    by_cases hab : a = b
    · subst hab
      have hk := CommitLog.account_eq_ok.mp (h.within.account htold)
      rw [htwins.holds, htwins.holds', Option.bind_some, Option.bind_some,
        change?_raised hk hfee (hroom account haccount hstranger)]
      exact if_neg hfee
    · exact h'.change?_eq h (htwins.others a hab).symm

/-- **Two settlements of one frame report the same changes,** if both or neither of their logs know
    the beneficiary or it exists, and its balance stays short of the largest word. -/
lemma changes_eq (h : f.Closes rules w fee preclaimed fresh b told log swept)
    (h' : f.Closes rules w fee preclaimed fresh b told' log' swept')
    (hexists : ¬ (told.Answers (.account b) ↔ told'.Answers (.account b)) →
      w.accounts[b]? ≠ none)
    (hroom : ∀ account : WorldAccount, w.accounts[b]? = some account → b ≠ f.context.caller →
      account.balance.toNat + fee.toNat < 2 ^ 256) :
    swept'.changes log' = swept.changes log := by
  by_cases hsame : told.Answers (.account b) ↔ told'.Answers (.account b)
  · obtain rfl := h.swept_eq h' hsame
    exact changes_congr fun a => h'.change?_eq h rfl
  · have hsome := hexists hsame
    by_cases hknown : told.Answers (.account b)
    · exact h.changes_eq_of_known h' hsome hroom hknown
        fun hknown' => hsame (iff_of_true hknown hknown')
    · refine (h'.changes_eq_of_known h hsome hroom ?_ hknown).symm
      by_contra hknown'
      exact hsame (iff_of_false hknown hknown')

end Closes

end Frame

end ResumableEvm
