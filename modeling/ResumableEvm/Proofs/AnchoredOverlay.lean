import ResumableEvm.Proofs.AccountView

/-!
# Overlays anchored in the log

What an overlay holds has to be told apart from what was committed before, or else its changes
could not be found.  An account that was not created anew is one that was committed, and every
slot of it that was written was read before; and where only a difference of a balance is held,
something was paid.  All writes of a run keep an overlay anchored.

* `AccountEntry.Anchored`, `Overlay.Anchored` — what is held of accounts.
* `Overlay.Anchored.update`, `Overlay.Anchored.writeStorage` and so on — writes keep it.
* `Overlay.Anchored.increaseBalance` — paying an account that may not be known.
-/

namespace ResumableEvm

variable {log log' : CommitLog} {w : World} {rules : AccountRules} {a b : Address}
  {index value : Word}

/-! ## Anchored entries -/

/-- An account that was not created anew was committed, and so was what its slots were before they
    were written. -/
structure LiveAccount.Anchored (log : CommitLog) (a : Address) (account : LiveAccount) : Prop where
  committed : account.reset = false →
    ∃ nonce balance code, log.accounts[a]? = some (.full nonce balance code)
  slots : account.reset = false → ∀ {index value : Word}, account.storage[index]? = some value →
    ∃ told, log.storage a index = .ok told

/-- What an overlay may hold for an account. -/
inductive AccountEntry.Anchored (log : CommitLog) (a : Address) : AccountEntry → Prop where
  /-- Something was paid to it. -/
  | paid {value : Word} (something : value ≠ 0) : Anchored log a (.shifted (.up value))
  | live {account : LiveAccount} (anchored : account.Anchored log a) :
      Anchored log a (.live account)
  | dead : Anchored log a .dead

/-- **An overlay is anchored in a log,** under the rules of a chain. -/
structure Overlay.Anchored (rules : AccountRules) (s : Overlay) (log : CommitLog) : Prop where
  rules : s.rules = rules
  entry : ∀ {a : Address} {entry : AccountEntry}, s.entries[a]? = some entry →
    entry.Anchored log a

/-- An account that was created anew is anchored. -/
lemma LiveAccount.Anchored.of_reset {account : LiveAccount} (h : account.reset = true) :
    account.Anchored log a where
  committed hreset := by
    rw [h] at hreset
    cases hreset
  slots hreset := by
    rw [h] at hreset
    cases hreset

lemma LiveAccount.Anchored.within {account : LiveAccount} (h : account.Anchored log a)
    (hw : log.Within log') : account.Anchored log' a where
  committed hreset := by
    obtain ⟨nonce, balance, code, hk⟩ := h.committed hreset
    exact ⟨nonce, balance, code,
      CommitLog.account_eq_ok.mp (hw.account (CommitLog.account_eq_ok.mpr hk))⟩
  slots hreset _ _ hv := by
    obtain ⟨told, htold⟩ := h.slots hreset hv
    exact ⟨told, hw.storage htold⟩

/-- After an entry was made, any entry is that one or was there before. -/
lemma Overlay.entry_of_insert {s : Overlay} {entry held : AccountEntry}
    (h : (s.entries.insert a entry)[b]? = some held) :
    a = b ∧ entry = held ∨ s.entries[b]? = some held := by
  by_cases hab : a = b
  · subst hab
    exact .inl ⟨rfl, by simpa using h⟩
  · exact .inr (by simpa [Std.TreeMap.getElem?_insert, hab] using h)

namespace Overlay.Anchored

variable {s s' : Overlay}

lemma empty (rules : AccountRules) (log : CommitLog) :
    (Overlay.empty rules).Anchored rules log where
  rules := rfl
  entry he := by simp [Overlay.empty] at he

lemma within (hs : s.Anchored rules log) (hw : log.Within log') : s.Anchored rules log' where
  rules := hs.rules
  entry he := by
    cases hs.entry he with
    | paid something => exact .paid something
    | live anchored => exact .live (anchored.within hw)
    | dead => exact .dead

/-! ## Writing -/

lemma insert {entry : AccountEntry} (hs : s.Anchored rules log) (he : entry.Anchored log a) :
    Overlay.Anchored rules { s with entries := s.entries.insert a entry } log where
  rules := hs.rules
  entry {b held} hb := by
    rcases entry_of_insert hb with ⟨rfl, rfl⟩ | hb
    · exact he
    · exact hs.entry hb

lemma remove (hs : s.Anchored rules log) (a : Address) : (s.remove a).Anchored rules log :=
  hs.insert .dead

lemma touch (hs : s.Anchored rules log) (a : Address) : (s.touch a).Anchored rules log :=
  ⟨hs.rules, hs.entry⟩

/-- The current state of an account is anchored. -/
lemma live (hs : s.Anchored rules log) {account : LiveAccount}
    (hl : s.live a log = .ok account) : account.Anchored log a := by
  have hcommitted : ∀ {account : LiveAccount}, s.committed a log = .ok account →
      account.Anchored log a := by
    intro account hcommitted
    obtain ⟨known, hk, rfl⟩ := map_eq_ok.mp hcommitted
    cases known with
    | full nonce balance code =>
        exact ⟨fun _ => ⟨nonce, balance, code, CommitLog.account_eq_ok.mp hk⟩,
          fun _ {index value} hv => by simp at hv⟩
    | nonexistent => exact .of_reset rfl
  simp only [Overlay.live] at hl
  split at hl
  · rename_i he
    cases hl
    cases hs.entry he with
    | live anchored => exact anchored
  · cases hl
    exact .of_reset rfl
  · obtain ⟨held, hheld, rfl⟩ := map_eq_ok.mp hl
    exact ⟨(hcommitted hheld).committed, (hcommitted hheld).slots⟩
  · exact hcommitted hl

/-- A write keeps an overlay anchored if it keeps its account so. -/
lemma update (hs : s.Anchored rules log) {f : LiveAccount → LiveAccount}
    (h : s.update a log f = .ok s')
    (hf : ∀ account, s.live a log = .ok account → account.Anchored log a →
      (f account).Anchored log a) : s'.Anchored rules log := by
  obtain ⟨account, hl, rfl⟩ := update_eq_ok.mp h
  exact hs.insert (.live (hf account hl (hs.live hl)))

lemma setNonce (hs : s.Anchored rules log) {nonce : Word}
    (h : s.setNonce a nonce log = .ok s') : s'.Anchored rules log :=
  hs.update h fun _ _ hl => ⟨hl.committed, hl.slots⟩

lemma depositCode (hs : s.Anchored rules log) {code : Bytes}
    (h : s.depositCode a code log = .ok s') : s'.Anchored rules log :=
  hs.update h fun _ _ hl => ⟨hl.committed, hl.slots⟩

lemma create (hs : s.Anchored rules log) (h : s.create a log = .ok s') :
    s'.Anchored rules log :=
  hs.update h fun _ _ _ => .of_reset rfl

/-- A slot that is written was read before. -/
lemma writeStorage (hs : s.Anchored rules log)
    (hread : ∃ current, s.storage a index log = .ok current)
    (h : s.writeStorage a index value log = .ok s') : s'.Anchored rules log := by
  obtain ⟨current, hcurrent⟩ := hread
  refine hs.update h fun account hl hanchored => ⟨hanchored.committed, fun hreset {j v} hv => ?_⟩
  have hkept : account.reset = false := hreset
  by_cases hj : index = j
  · -- the slot itself: it was read from the log, or had been written before
    subst hj
    simp only [Overlay.storage, Overlay.live] at hcurrent hl
    split at hcurrent
    · rename_i he
      rw [he] at hl
      cases hl
      split at hcurrent
      · exact hanchored.slots hreset ‹_›
      · rw [if_neg (by simp [hkept])] at hcurrent
        exact ⟨_, hcurrent⟩
    · rename_i he
      rw [he] at hl
      cases hl
      cases hreset
    · exact ⟨_, hcurrent⟩
  · exact hanchored.slots hreset (by simpa [Std.TreeMap.getElem?_insert, hj] using hv)

variable {first : Word → BalanceShift} {shift : BalanceShift → Word → BalanceShift}
  {change : Word → Word → Word}

lemma changeBalance (hs : s.Anchored rules log)
    (h : s.update a log (fun account =>
      { account with balance := change account.balance value }) = .ok s') :
    s'.Anchored rules log :=
  hs.update h fun _ _ hl => ⟨hl.committed, hl.slots⟩

lemma moveBalance (hs : s.Anchored rules log) (hk : s.Knows a log)
    (h : s.moveBalance a value log first shift change = .ok s') : s'.Anchored rules log := by
  rw [hk.moveBalance_eq] at h
  split at h
  · cases h
    exact hs
  · exact hs.changeBalance h

/-! ## Paying an account that may not be known -/

/-- **Paying** an account, which may not be known. -/
lemma increaseBalance (hs : s.Anchored rules log) (ht : log.Tells w)
    (h : s.increaseBalance a value log = .ok s') : s'.Anchored rules log ∧
      s'.view w = Function.update (s.view w) a ((s.view w a).credit value) := by
  simp only [Overlay.increaseBalance, Overlay.moveBalance] at h
  split at h
  · rename_i hzero
    cases h
    rw [hzero, AccountView.credit_zero, Function.update_eq_self]
    exact ⟨hs, rfl⟩
  · rename_i hsome
    split at h
    · rename_i hunknown
      cases h
      rw [s.insert_view w a _]
      cases he : s.entries[a]? with
      | none =>
          refine ⟨hs.insert (.paid hsome), ?_⟩
          rw [AccountView.credit_of_ne _ hsome]
          simp [Overlay.view, he, AccountEntry.view, BalanceShift.apply]
      | some entry =>
          cases hs.entry he with
          | @paid paid something =>
              refine ⟨hs.insert (.paid (Word.addSat_ne_zero something)), ?_⟩
              rw [AccountView.credit_of_ne _ hsome]
              simp [Overlay.view, he, AccountEntry.view, BalanceShift.apply, BalanceShift.increase,
                Word.addSat_assoc]
          | live anchored => simp [isCommitted, he] at hunknown
          | dead => simp [isCommitted, he] at hunknown
    · refine ⟨hs.changeBalance h, ?_⟩
      rw [change_view ht h, AccountView.credit_of_ne _ hsome]

end Overlay.Anchored

end ResumableEvm
