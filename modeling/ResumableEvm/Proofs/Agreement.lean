import Mathlib.Tactic
import ResumableEvm.CallStack
import ResumableEvm.Proofs.Interruption
import ResumableEvm.Proofs.Knowledge

/-!
# Reading from a fuller log

What an operation does under a log it does under every log that knows more, unless it asks for
something that the first log lacks; and then it asks for it under the other log too, if that one
lacks it as well.  Two reads notice missing data without asking for them: the
value of a slot before the transaction, which counts as zero where it is not known, and the
movement of a balance, which is kept as a difference where the account is not known.  Frames
never do either: a slot is read before it is written, and accounts are known before they are
paid.

* `Agree` — the same result, unless something is asked for.
* `Overlay.Grounded` — what is held of slots was read from the log before.
* `Overlay.balance_agree` and so on — reads and writes agree.
* `Frame.step_agree`, `CallStack.step_agree` — steps agree.
-/

namespace ResumableEvm

/-! ## Agreement -/

/-- **Agreement.**  A result that asks for nothing is the same under a fuller log; one that asks
    for something asks for what this log lacks, and stays the same as long as it is lacking. -/
structure Agree {β : Type} [Asking β] (log log' : CommitLog) (x x' : β) : Prop where
  same : AsksNothing x → x' = x
  lacks : ∀ {r}, Asking.asked? x = some r → log.Lacks r
  waits : ∀ {r}, Asking.asked? x = some r → log'.Lacks r → x' = x

namespace Agree

variable {log log' : CommitLog} {ε α β : Type} [Asking ε]

lemma refl {β : Type} [Asking β] {x : β} (h : AsksNothing x) : Agree log log' x x where
  same _ := rfl
  lacks hr := nomatch h.symm.trans hr
  waits _ _ := rfl

lemma asks {β : Type} [Asking β] {x x' : β} {r : Requirement} (h : Asking.asked? x = some r)
    (hl : log.Lacks r) (hw : log'.Lacks r → x' = x) : Agree log log' x x' where
  same hn := nomatch h.symm.trans hn
  lacks hr := Option.some.inj (h.symm.trans hr) ▸ hl
  waits hr hl' := hw (Option.some.inj (h.symm.trans hr) ▸ hl')

lemma ok (a : α) : Agree log log' (.ok a : Except ε α) (.ok a) := refl rfl

lemma of_read {x x' : Except Requirement α} (hok : ∀ a, x = .ok a → x' = .ok a)
    (herror : ∀ r, x = .error r → log.Lacks r)
    (hwaits : ∀ r, x = .error r → log'.Lacks r → x' = .error r) : Agree log log' x x' := by
  cases x with
  | ok a =>
      rw [hok a rfl]
      exact ok a
  | error r => exact asks rfl (herror r rfl) (hwaits r rfl)

/-- What is made of a result agrees, if it asks for what the result asks for. -/
lemma through {β γ : Type} [Asking β] [Asking γ] {x x' : β} (h : Agree log log' x x')
    (g : β → γ) (hg : ∀ y, Asking.asked? (g y) = Asking.asked? y) : Agree log log' (g x) (g x') :=
  ⟨fun hx => congrArg g (h.same ((hg x).symm.trans hx)), fun hr => h.lacks ((hg x).symm.trans hr),
    fun hr hl => congrArg g (h.waits ((hg x).symm.trans hr) hl)⟩

lemma map {x x' : Except ε α} (h : Agree log log' x x') (g : α → β) :
    Agree log log' (x.map g) (x'.map g) :=
  h.through (Except.map g) fun y => by cases y <;> rfl

lemma mapError {ε' : Type} [Asking ε'] {x x' : Except ε α} (h : Agree log log' x x')
    (g : ε → ε') (hg : ∀ e, Asking.asked? (g e) = Asking.asked? e) :
    Agree log log' (x.mapError g) (x'.mapError g) :=
  h.through (Except.mapError g) fun y => by
    cases y with
    | error e => exact hg e
    | ok a => rfl

lemma bind {x x' : Except ε α} {k k' : α → Except ε β} (h : Agree log log' x x')
    (hk : ∀ a, x = .ok a → Agree log log' (k a) (k' a)) :
    Agree log log' (x >>= k) (x' >>= k') := by
  cases x with
  | ok a =>
      rw [h.same rfl]
      exact hk a rfl
  | error e =>
      refine ⟨fun he => ?_, fun hr => h.lacks hr, fun hr hl => ?_⟩
      · rw [h.same he]
        rfl
      · rw [h.waits hr hl]
        rfl

lemma attempt {f : Frame} {x x' : Except ε α} {k k' : α → Frame × Except ε β}
    (h : Agree log log' x x') (hk : ∀ a, x = .ok a → Agree log log' (k a) (k' a)) :
    Agree log log' (f.attempt x k) (f.attempt x' k') := by
  cases x with
  | ok a =>
      rw [h.same rfl]
      exact hk a rfl
  | error e =>
      refine ⟨fun he => ?_, fun hr => h.lacks hr, fun hr hl => ?_⟩
      · rw [h.same he]
        rfl
      · rw [h.waits hr hl]
        rfl

lemma reading {f : Frame} {x x' : Except Requirement α}
    {k k' : α → Frame × Except Interrupt β} (h : Agree log log' x x')
    (hk : ∀ a, x = .ok a → Agree log log' (k a) (k' a)) :
    Agree log log' (f.reading x k) (f.reading x' k') := by
  cases x with
  | ok a =>
      rw [h.same rfl]
      exact hk a rfl
  | error e =>
      refine asks rfl (h.lacks rfl) fun hl => ?_
      rw [h.waits rfl hl]
      rfl

end Agree

/-! ## Reading accounts -/

namespace CommitLog.Within

variable {log log' : CommitLog} (h : log.Within log') (a : Address) (index number : Word)

include h

lemma account_agree : Agree log log' (log.account a) (log'.account a) :=
  .of_read (fun _ => h.account) (fun _ => lacks_of_account) fun _ => account_still

lemma code_agree : Agree log log' (log.code a) (log'.code a) :=
  .of_read (fun _ => h.code) (fun _ => lacks_of_code) fun _ => code_still

lemma storage_agree : Agree log log' (log.storage a index) (log'.storage a index) :=
  .of_read (fun _ => h.storage) (fun _ => lacks_of_storage) fun _ => storage_still

lemma blockHash_agree : Agree log log' (log.blockHash number) (log'.blockHash number) :=
  .of_read (fun _ => h.blockHash) (fun _ => lacks_of_blockHash) fun _ => blockHash_still

end CommitLog.Within

namespace Overlay

variable {log log' : CommitLog} (h : log.Within log') (s : Overlay) (a : Address)
  (index value : Word)

include h

lemma require_agree : Agree log log' (s.require a log) (s.require a log') := by
  simp only [require]
  split
  · exact .refl rfl
  · exact .refl rfl
  · exact (h.account_agree a).map _

lemma accountExists_agree : Agree log log' (s.accountExists a log) (s.accountExists a log') := by
  simp only [accountExists, CommitLog.accountExists]
  split
  · exact .refl rfl
  · exact .refl rfl
  · exact .refl rfl
  · exact (h.account_agree a).map _

lemma balance_agree : Agree log log' (s.balance a log) (s.balance a log') := by
  simp only [balance, CommitLog.balance]
  split
  · exact .refl rfl
  · exact .refl rfl
  · exact ((h.account_agree a).map _).map _
  · exact (h.account_agree a).map _

lemma nonce_agree : Agree log log' (s.nonce a log) (s.nonce a log') := by
  simp only [nonce, CommitLog.nonce?]
  split
  · exact .refl rfl
  · exact .refl rfl
  · exact ((h.account_agree a).map _).map _

lemma code_agree : Agree log log' (s.code a log) (s.code a log') := by
  simp only [code]
  split
  · exact .refl rfl
  · exact .refl rfl
  · exact h.code_agree a

lemma requireCode_agree : Agree log log' (s.requireCode a log) (s.requireCode a log') :=
  (code_agree h s a).map _

lemma isEmpty_agree : Agree log log' (s.isEmpty a log) (s.isEmpty a log') := by
  refine (nonce_agree h s a).bind fun nonce _ => ?_
  split
  · refine (balance_agree h s a).bind fun balance _ => ?_
    split
    · exact (code_agree h s a).bind fun code _ => .refl rfl
    · exact .refl rfl
  · exact .refl rfl

lemma isTaken_agree : Agree log log' (s.isTaken a log) (s.isTaken a log') := by
  refine (code_agree h s a).bind fun code _ => ?_
  split
  · exact (nonce_agree h s a).bind fun nonce _ => .refl rfl
  · exact .refl rfl

lemma storage_agree : Agree log log' (s.storage a index log) (s.storage a index log') := by
  simp only [storage]
  split
  · split
    · exact .refl rfl
    · split
      · exact .refl rfl
      · exact h.storage_agree a index
  · exact .refl rfl
  · exact h.storage_agree a index

lemma live_agree : Agree log log' (s.live a log) (s.live a log') := by
  simp only [live, committed]
  split
  · exact .refl rfl
  · exact .refl rfl
  · exact ((h.account_agree a).map _).map _
  · exact (h.account_agree a).map _

/-! ## Writing accounts -/

lemma update_agree (f : LiveAccount → LiveAccount) :
    Agree log log' (s.update a log f) (s.update a log' f) :=
  (live_agree h s a).map _

omit h in
lemma Knows.within {s : Overlay} {a : Address} (h : log.Within log') (hs : s.Knows a log) :
    s.Knows a log' := by
  obtain ⟨account, ha⟩ := hs
  have hasks : AsksNothing (s.live a log) := by
    rw [ha]
    rfl
  exact ⟨account, ((live_agree h s a).same hasks).trans ha⟩

omit h in
/-- An account that is known under one log is known under another that knows it if the first
    does. -/
lemma Knows.of_answers {s : Overlay} {a : Address}
    (hlog : log'.Answers (.account a) → log.Answers (.account a)) (hs : s.Knows a log') :
    s.Knows a log :=
  knows_iff.mpr ((knows_iff.mp hs).imp_right fun h => h.imp_right hlog)

/-- **The balance of an account moves the same under a fuller log,** if that one does not know the
    account unless this one does.  It would be moved for good there, and by a difference here. -/
lemma moveBalance_agree_of {first : Word → BalanceShift}
    {shift : BalanceShift → Word → BalanceShift} {change : Word → Word → Word}
    (hs : s.Knows a log' → s.Knows a log) :
    Agree log log' (s.moveBalance a value log first shift change)
      (s.moveBalance a value log' first shift change) := by
  have hcommitted : s.isCommitted a log' = s.isCommitted a log := by
    rw [Bool.eq_iff_iff, isCommitted_iff_knows, isCommitted_iff_knows]
    exact ⟨hs, Knows.within h⟩
  simp only [moveBalance]
  rw [hcommitted]
  split
  · exact .refl rfl
  · split
    · exact .refl rfl
    · exact update_agree h s a _

/-- The balance of a known account moves the same under a fuller log. -/
lemma moveBalance_agree {first : Word → BalanceShift} {shift : BalanceShift → Word → BalanceShift}
    {change : Word → Word → Word} (hs : s.Knows a log) :
    Agree log log' (s.moveBalance a value log first shift change)
      (s.moveBalance a value log' first shift change) :=
  moveBalance_agree_of h s a value fun _ => hs

/-! ## Grounded overlays -/

omit h

/-- **An overlay is grounded in a log.**  It removed no account, and the log can tell what every
    slot it holds was before, unless the account has been created anew. -/
structure Grounded (s : Overlay) (log : CommitLog) : Prop where
  present : ∀ a : Address, s.entries[a]? ≠ some .dead
  slots : ∀ {a account}, s.entries[a]? = some (.live account) → account.reset = false →
    ∀ {index value : Word}, account.storage[index]? = some value →
      ∃ told, log.storage a index = .ok told

namespace Grounded

variable {log log' : CommitLog} {s s' : Overlay} {a : Address} {index value : Word}

lemma empty (rules : AccountRules) (log : CommitLog) : (Overlay.empty rules).Grounded log where
  present a := by simp [Overlay.empty]
  slots h := by simp [Overlay.empty] at h

lemma within (hg : s.Grounded log) (h : log.Within log') : s.Grounded log' where
  present := hg.present
  slots he hreset _ _ hv := by
    obtain ⟨told, ht⟩ := hg.slots he hreset hv
    exact ⟨told, h.storage ht⟩

/-- A slot that was read is grounded, unless its account was created anew. -/
lemma storage_read (hg : s.Grounded log) {account : LiveAccount}
    (hlive : s.live a log = .ok account) (hreset : account.reset = false)
    (hs : s.storage a index log = .ok value) : ∃ told, log.storage a index = .ok told := by
  simp only [Overlay.storage] at hs
  split at hs
  · rename_i held he
    obtain rfl : held = account := by simpa [live, he] using hlive
    split at hs
    · exact hg.slots he hreset ‹_›
    · rw [if_neg (by simp [hreset])] at hs
      exact ⟨_, hs⟩
  · rename_i he
    exact absurd he (hg.present a)
  · exact ⟨_, hs⟩

/-- What the current state of an account holds of its slots is grounded. -/
lemma live_slots (hg : s.Grounded log) {account : LiveAccount}
    (hlive : s.live a log = .ok account) (hreset : account.reset = false)
    (hv : account.storage[index]? = some value) : ∃ told, log.storage a index = .ok told := by
  simp only [live, committed] at hlive
  split at hlive
  · rename_i held he
    obtain rfl : held = account := by simpa using hlive
    exact hg.slots he hreset hv
  · cases hlive
    cases hreset
  · obtain ⟨account', ha, rfl⟩ := map_eq_ok.mp hlive
    obtain ⟨known, -, rfl⟩ := map_eq_ok.mp ha
    cases known <;> simp [fresh] at hreset hv
  · obtain ⟨known, -, rfl⟩ := map_eq_ok.mp hlive
    cases known <;> simp [fresh] at hreset hv

/-- A write keeps an overlay grounded if what it adds to the slots is. -/
lemma update (hg : s.Grounded log) {f : LiveAccount → LiveAccount}
    (hu : s.update a log f = .ok s')
    (hf : ∀ account, s.live a log = .ok account → (f account).reset = false →
      account.reset = false ∧ ∀ {index value : Word}, (f account).storage[index]? = some value →
        account.storage[index]? = some value ∨ ∃ told, log.storage a index = .ok told) :
    s'.Grounded log := by
  obtain ⟨account, hlive, rfl⟩ := update_eq_ok.mp hu
  refine ⟨fun b => ?_, fun {b account'} he hreset {index value} hv => ?_⟩
  · by_cases hab : a = b
    · simp [hab]
    · simpa [Std.TreeMap.getElem?_insert, hab] using hg.present b
  · by_cases hab : a = b
    · subst hab
      obtain rfl : f account = account' := by simpa using he
      obtain ⟨hreset', hstorage⟩ := hf account hlive hreset
      rcases hstorage hv with hold | htold
      · exact hg.live_slots hlive hreset' hold
      · exact htold
    · exact hg.slots (by simpa [Std.TreeMap.getElem?_insert, hab] using he) hreset hv

lemma touch (hg : s.Grounded log) (a : Address) : (s.touch a).Grounded log :=
  ⟨hg.present, hg.slots⟩

lemma setNonce (hg : s.Grounded log) {nonce : Word} (hu : s.setNonce a nonce log = .ok s') :
    s'.Grounded log :=
  hg.update hu fun _ _ hreset => ⟨hreset, fun hv => .inl hv⟩

lemma depositCode (hg : s.Grounded log) {code : Bytes} (hu : s.depositCode a code log = .ok s') :
    s'.Grounded log :=
  hg.update hu fun _ _ hreset => ⟨hreset, fun hv => .inl hv⟩

lemma create (hg : s.Grounded log) (hu : s.create a log = .ok s') : s'.Grounded log :=
  hg.update hu fun _ _ hreset => by cases hreset

lemma writeStorage (hg : s.Grounded log) (hread : ∃ current, s.storage a index log = .ok current)
    (hu : s.writeStorage a index value log = .ok s') : s'.Grounded log := by
  obtain ⟨current, hcurrent⟩ := hread
  refine hg.update hu fun account hlive hreset => ⟨hreset, fun {j v} hv => ?_⟩
  by_cases hj : index = j
  · subst hj
    exact .inr (hg.storage_read hlive hreset hcurrent)
  · exact .inl (by simpa [Std.TreeMap.getElem?_insert, hj] using hv)

lemma moveBalance (hg : s.Grounded log) {first : Word → BalanceShift}
    {shift : BalanceShift → Word → BalanceShift} {change : Word → Word → Word}
    (hm : s.moveBalance a value log first shift change = .ok s') : s'.Grounded log := by
  simp only [Overlay.moveBalance] at hm
  split at hm
  · cases hm
    exact hg
  · split at hm
    · cases hm
      -- a difference of a balance holds no slot
      refine ⟨fun b => ?_, fun {b account} he hreset {index value} hv => ?_⟩
      · by_cases hab : a = b
        · simp [hab]
        · simpa [Std.TreeMap.getElem?_insert, hab] using hg.present b
      · by_cases hab : a = b
        · subst hab
          simp at he
        · exact hg.slots (by simpa [Std.TreeMap.getElem?_insert, hab] using he) hreset hv
    · exact hg.update hm fun _ _ hreset => ⟨hreset, fun hv => .inl hv⟩

/-- **The value of a slot before the transaction** is the same under a fuller log, once the slot
    has been read. -/
lemma initialStorage_eq (hg : s.Grounded log) (h : log.Within log')
    (hs : s.storage a index log = .ok value) :
    s.initialStorage a index log' = s.initialStorage a index log := by
  have hsame : (∃ told, log.storage a index = .ok told) →
      (log'.storage a index).toOption.getD 0 = (log.storage a index).toOption.getD 0 := by
    rintro ⟨told, ht⟩
    rw [ht, h.storage ht]
  simp only [Overlay.initialStorage]
  cases he : s.entries[a]? with
  | none => exact hsame ⟨value, by simpa [Overlay.storage, he] using hs⟩
  | some entry =>
      cases entry with
      | shifted shift => exact hsame ⟨value, by simpa [Overlay.storage, he] using hs⟩
      | dead => exact absurd he (hg.present a)
      | live account =>
          cases hreset : account.reset with
          | true => simp [hreset]
          | false =>
              have hlive : s.live a log = .ok account := by simp [live, he]
              simpa [hreset] using hsame (hg.storage_read hlive hreset hs)

end Grounded

end Overlay

end ResumableEvm
