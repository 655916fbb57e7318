import Mathlib.Tactic
import ResumableEvm.Overlay

/-!
# Known accounts

An account is known to an overlay when its current state can be brought together from its entry
and the log.  This module says what that buys: every read of a known account is answered, every
write to it is carried out, and no write makes an account unknown again.

* `Overlay.Knows` — an account is known.
* `Overlay.knows_iff_require` — `Overlay.require` asks for exactly that.
* `Overlay.Knows.balance_ok`, `Overlay.Knows.code_ok` and so on — reads are answered.
* `Overlay.Knows.update_ok`, `Overlay.Knows.moveBalance_ok` — writes are carried out.
* `Overlay.Knows.of_update`, `Overlay.Knows.of_moveBalance` — writes forget no account.
-/

namespace ResumableEvm

/-! ## Results that are there -/

lemma map_eq_ok {ε α β : Type} {r : Except ε α} {g : α → β} {b : β} :
    r.map g = .ok b ↔ ∃ a, r = .ok a ∧ g a = b := by
  cases r <;> simp [Except.map]

lemma map_eq_error {ε α β : Type} {r : Except ε α} {g : α → β} {e : ε} :
    r.map g = .error e ↔ r = .error e := by
  cases r <;> simp [Except.map]

lemma bind_eq_ok {ε α β : Type} {r : Except ε α} {k : α → Except ε β} {b : β} :
    (r >>= k) = .ok b ↔ ∃ a, r = .ok a ∧ k a = .ok b := by
  cases r <;> simp [bind, Except.bind]

lemma discard_eq_ok {ε α : Type} {r : Except ε α} :
    (discard r : Except ε PUnit) = .ok () ↔ ∃ a, r = .ok a := by
  cases r <;> simp [discard, Functor.mapConst, Except.map]

lemma toOption_eq_some {ε α : Type} {r : Except ε α} {a : α} :
    r.toOption = some a ↔ r = .ok a := by
  cases r <;> simp [Except.toOption]

namespace Overlay

/-! ## Known accounts -/

/-- **An account is known:** its current state can be told. -/
def Knows (s : Overlay) (a : Address) (log : CommitLog) : Prop :=
  ∃ account, s.live a log = .ok account

variable {s s' : Overlay} {a b : Address} {log : CommitLog}

/-- An account is known if the overlay holds all of it, and otherwise if the log does. -/
lemma knows_iff : s.Knows a log ↔
    (∃ account, s.entries[a]? = some (.live account)) ∨ s.entries[a]? = some .dead ∨
      ∃ known, log.account a = .ok known := by
  simp only [Knows, live, committed]
  cases he : s.entries[a]? with
  | none => cases hl : log.account a <;> simp [Except.map]
  | some entry =>
      cases entry with
      | shifted shift => cases hl : log.account a <;> simp [Except.map]
      | live account => simp
      | dead => simp

/-- Requiring an account raises nothing exactly when the account is known. -/
lemma knows_iff_require : s.Knows a log ↔ s.require a log = .ok () := by
  rw [knows_iff]
  simp only [require]
  cases he : s.entries[a]? with
  | none => cases hl : log.account a <;> simp [Except.map]
  | some entry =>
      cases entry with
      | shifted shift => cases hl : log.account a <;> simp [Except.map]
      | live account => simp
      | dead => simp

/-! ## Reading -/

lemma Knows.balance_ok (h : s.Knows a log) : ∃ value, s.balance a log = .ok value := by
  rcases knows_iff.mp h with ⟨account, he⟩ | he | ⟨known, hl⟩
  · exact ⟨account.balance, by simp [balance, he]⟩
  · exact ⟨0, by simp [balance, he]⟩
  · simp only [balance, CommitLog.balance, hl]
    rcases s.entries[a]? with _ | (_ | _ | _) <;> simp [Except.map]

lemma Knows.nonce_ok (h : s.Knows a log) : ∃ value, s.nonce a log = .ok value := by
  rcases knows_iff.mp h with ⟨account, he⟩ | he | ⟨known, hl⟩
  · exact ⟨account.nonce, by simp [nonce, he]⟩
  · exact ⟨s.rules.initialNonce, by simp [nonce, he]⟩
  · simp only [nonce, CommitLog.nonce?, hl]
    rcases s.entries[a]? with _ | (_ | _ | _) <;> simp [Except.map]

/-- A known account comes with its code, unless the code was told on its own before. -/
lemma code_ok_of_account_ok {known : CommittedAccount} (hl : log.account a = .ok known) :
    ∃ code, log.code a = .ok code := by
  have hk : log.accounts[a]? = some known := by
    revert hl
    simp only [CommitLog.account]
    cases log.accounts[a]? <;> simp
  simp only [CommitLog.code]
  cases log.codes[a]? with
  | some code => exact ⟨code, rfl⟩
  | none => cases known <;> simp [hk]

lemma Knows.code_ok (h : s.Knows a log) : ∃ code, s.code a log = .ok code := by
  rcases knows_iff.mp h with ⟨account, he⟩ | he | ⟨known, hl⟩
  · exact ⟨account.code, by simp [code, he]⟩
  · exact ⟨ByteArray.empty, by simp [code, he]⟩
  · obtain ⟨told, hc⟩ := code_ok_of_account_ok hl
    simp only [code, hc]
    rcases s.entries[a]? with _ | (_ | _ | _) <;> simp

lemma Knows.accountExists_ok (h : s.Knows a log) :
    ∃ answer, s.accountExists a log = .ok answer := by
  rcases knows_iff.mp h with ⟨account, he⟩ | he | ⟨known, hl⟩
  · exact ⟨true, by simp [accountExists, he]⟩
  · exact ⟨false, by simp [accountExists, he]⟩
  · simp only [accountExists, CommitLog.accountExists, hl]
    rcases s.entries[a]? with _ | (_ | _ | _) <;> simp [Except.map]

lemma Knows.isEmpty_ok (h : s.Knows a log) : ∃ answer, s.isEmpty a log = .ok answer := by
  obtain ⟨nonce, hn⟩ := h.nonce_ok
  obtain ⟨balance, hb⟩ := h.balance_ok
  obtain ⟨code, hc⟩ := h.code_ok
  simp only [isEmpty, hn, hb, hc, bind, Except.bind, pure, Except.pure]
  split <;> [split; skip] <;> exact ⟨_, rfl⟩

lemma Knows.isTaken_ok (h : s.Knows a log) : ∃ answer, s.isTaken a log = .ok answer := by
  obtain ⟨nonce, hn⟩ := h.nonce_ok
  obtain ⟨code, hc⟩ := h.code_ok
  simp only [isTaken, hn, hc, bind, Except.bind, pure, Except.pure]
  split <;> exact ⟨_, rfl⟩

/-! ## Writing -/

/-- A write starts from the current state of its account. -/
lemma update_eq_ok {f : LiveAccount → LiveAccount} : s.update a log f = .ok s' ↔
    ∃ account, s.live a log = .ok account ∧
      s' = { s with entries := s.entries.insert a (.live (f account)) } := by
  simp only [update]
  cases s.live a log with
  | error r => simp [Except.map]
  | ok account => simp [Except.map, eq_comm]

lemma Knows.update_ok (h : s.Knows a log) (f : LiveAccount → LiveAccount) :
    ∃ s', s.update a log f = .ok s' := by
  obtain ⟨account, ha⟩ := h
  exact ⟨_, update_eq_ok.mpr ⟨account, ha, rfl⟩⟩

/-- Writing to one account leaves every known account known. -/
lemma Knows.of_update {f : LiveAccount → LiveAccount} (h : s.Knows b log)
    (hu : s.update a log f = .ok s') : s'.Knows b log := by
  obtain ⟨account, -, rfl⟩ := update_eq_ok.mp hu
  rw [knows_iff] at h ⊢
  simp only [Std.TreeMap.getElem?_insert]
  by_cases hab : a = b
  · simp [hab]
  · simpa [hab] using h

/-- An account is known exactly when the overlay takes it for committed. -/
lemma isCommitted_iff_knows : s.isCommitted a log = true ↔ s.Knows a log := by
  have hk : log.knows a = true ↔ ∃ known, log.account a = .ok known := by
    simp only [CommitLog.account, CommitLog.knows]
    rw [Std.TreeMap.contains_eq_isSome_getElem?]
    cases log.accounts[a]? <;> simp
  rw [knows_iff]
  rcases he : s.entries[a]? with _ | (_ | _ | _) <;> simp [isCommitted, he, hk]

variable {value : Word} {first : Word → BalanceShift} {shift : BalanceShift → Word → BalanceShift}
  {change : Word → Word → Word}

/-- The balance of a known account is moved for good, never by a difference alone. -/
lemma Knows.moveBalance_eq (h : s.Knows a log) :
    s.moveBalance a value log first shift change =
      if value = 0 then .ok s
      else s.update a log fun account =>
        { account with balance := change account.balance value } := by
  simp [moveBalance, isCommitted_iff_knows.mpr h]

lemma Knows.moveBalance_ok (h : s.Knows a log) :
    ∃ s', s.moveBalance a value log first shift change = .ok s' := by
  rw [h.moveBalance_eq]
  split
  · exact ⟨s, rfl⟩
  · exact h.update_ok _

/-- Moving the balance of a known account leaves every known account known. -/
lemma Knows.of_moveBalance (h : s.Knows b log) (ha : s.Knows a log)
    (hm : s.moveBalance a value log first shift change = .ok s') : s'.Knows b log := by
  rw [ha.moveBalance_eq] at hm
  split at hm
  · cases hm
    exact h
  · exact h.of_update hm

end Overlay

end ResumableEvm
