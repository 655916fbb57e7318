import ResumableEvm.Proofs.Agreement

/-!
# What an overlay says of the accounts

Laid over a world, an overlay says of every address whether there is an account and what its
nonce, balance, code and slots are.  Its reads give just that under a log of the world's data, and
a write to one account changes what is said of that account alone.

* `AccountView`, `World.view`, `Overlay.view` — what can be read of an account.
* `Overlay.Reads`, `Overlay.reads_view` — under a complete log every read gives it.
* `Overlay.Shows`, `Overlay.shows_view` — under any log no read gives anything else.
* `Overlay.update_view`, `Overlay.moveBalance_view`, `Overlay.Knows.decreaseBalance_view` and so
  on — writes.
-/

namespace ResumableEvm

/-! ## Sums that stop -/

namespace Word

lemma toNat_addSat (x y : Word) : (x.addSat y).toNat = min (x.toNat + y.toNat) maxWord :=
  Gas.toNat_add ⟨x⟩ ⟨y⟩

lemma toNat_subSat (x y : Word) : (x.subSat y).toNat = x.toNat - y.toNat :=
  Gas.toNat_sub ⟨x⟩ ⟨y⟩

lemma addSat_assoc (x y z : Word) : (x.addSat y).addSat z = x.addSat (y.addSat z) := by
  apply BitVec.eq_of_toNat_eq
  simp only [toNat_addSat]
  omega

lemma addSat_ne_zero {x y : Word} (h : x ≠ 0) : x.addSat y ≠ 0 := by
  intro hzero
  have hnat := congrArg BitVec.toNat hzero
  have hpos : x.toNat ≠ 0 := fun h0 => h (BitVec.eq_of_toNat_eq h0)
  have hmax : 0 < maxWord := by decide
  have hz : (0 : Word).toNat = 0 := rfl
  rw [toNat_addSat] at hnat
  omega

lemma addSat_zero (x : Word) : x.addSat 0 = x := by
  apply BitVec.eq_of_toNat_eq
  have := x.toNat_le_maxWord
  have hzero : (0 : Word).toNat = 0 := rfl
  rw [toNat_addSat]
  omega

lemma subSat_zero (x : Word) : x.subSat 0 = x := by
  apply BitVec.eq_of_toNat_eq
  have hzero : (0 : Word).toNat = 0 := rfl
  rw [toNat_subSat]
  omega

end Word

/-! ## Views -/

/-- What can be read of an account. -/
@[ext]
structure AccountView where
  /-- Whether there is an account. -/
  present : Bool
  nonce : Word
  balance : Word
  code : Bytes
  slots : Word → Word

/-- What is read where there is no account. -/
def AccountView.absent (rules : AccountRules) : AccountView :=
  ⟨false, rules.initialNonce, 0, ByteArray.empty, fun _ => 0⟩

namespace AccountView

/-- A payment of more than nothing brings an account about. -/
def credit (v : AccountView) (value : Word) : AccountView :=
  { v with present := v.present || value ≠ 0, balance := v.balance.addSat value }

def debit (v : AccountView) (value : Word) : AccountView :=
  { v with present := v.present || value ≠ 0, balance := v.balance.subSat value }

lemma credit_zero (v : AccountView) : v.credit 0 = v := by
  simp only [credit, Word.addSat_zero, ne_eq, not_true, decide_false, Bool.or_false]

lemma debit_zero (v : AccountView) : v.debit 0 = v := by
  simp only [debit, Word.subSat_zero, ne_eq, not_true, decide_false, Bool.or_false]

lemma credit_of_ne (v : AccountView) {value : Word} (h : value ≠ 0) :
    v.credit value = { v with present := true, balance := v.balance.addSat value } := by
  simp only [credit, decide_eq_true h, Bool.or_true]

lemma debit_of_ne (v : AccountView) {value : Word} (h : value ≠ 0) :
    v.debit value = { v with present := true, balance := v.balance.subSat value } := by
  simp only [debit, decide_eq_true h, Bool.or_true]

end AccountView

def WorldAccount.view (account : WorldAccount) : AccountView :=
  ⟨true, account.nonce, account.balance, account.code, fun index => account.storage[index]?.getD 0⟩

/-- What can be read at an address of a world. -/
def World.view (w : World) (rules : AccountRules) (a : Address) : AccountView :=
  (w.accounts[a]?.map WorldAccount.view).getD (.absent rules)

/-- What a live account is over a world: slots that were not written are those of the world,
    unless they were reset. -/
def LiveAccount.view (w : World) (a : Address) (account : LiveAccount) : AccountView :=
  ⟨true, account.nonce, account.balance, account.code,
    fun index => account.storage[index]?.getD (if account.reset then 0 else w.slot a index)⟩

/-- What an entry makes of an account of a world. -/
def AccountEntry.view (rules : AccountRules) (w : World) (a : Address) : AccountEntry → AccountView
  | .shifted shift =>
    { w.view rules a with present := true, balance := shift.apply (w.view rules a).balance }
  | .live account => account.view w a
  | .dead => .absent rules

/-- **What an overlay says of an account,** laid over a world. -/
def Overlay.view (s : Overlay) (w : World) (a : Address) : AccountView :=
  (s.entries[a]?.map (AccountEntry.view s.rules w a)).getD (w.view s.rules a)

variable {log : CommitLog} {w : World} {rules : AccountRules} {a b : Address} {index value : Word}

@[simp] lemma World.view_code : (w.view rules a).code = w.code a := by
  simp only [World.view, World.code]
  cases w.accounts[a]? <;> rfl

@[simp] lemma World.view_slots : (w.view rules a).slots index = w.slot a index := by
  simp only [World.view, World.slot]
  cases w.accounts[a]? <;> rfl

/-! ## Reading -/

/-- Every read of an account gives a result, and this one. -/
structure Overlay.Reads (s : Overlay) (log : CommitLog) (a : Address) (v : AccountView) : Prop where
  present : s.accountExists a log = .ok v.present
  nonce : s.nonce a log = .ok v.nonce
  balance : s.balance a log = .ok v.balance
  code : s.code a log = .ok v.code
  storage : ∀ index, s.storage a index log = .ok (v.slots index)

namespace CommitLog

variable (hc : log.Complete) (ht : log.Tells w)

include hc ht

lemma Complete.account_eq : log.account a = .ok (w.account a) := by
  obtain ⟨known, hk⟩ := hc (.account a)
  rw [hk, ht.account_eq hk]

lemma Complete.code_eq : log.code a = .ok (w.code a) := by
  obtain ⟨code, hcode⟩ := hc (.code a)
  rw [hcode, ht.code_eq hcode]

lemma Complete.storage_eq : log.storage a index = .ok (w.slot a index) := by
  obtain ⟨value, hv⟩ := hc (.storage a index)
  rw [hv, ht.storage_eq hv]

end CommitLog

namespace Overlay

variable {s s' : Overlay}

/-- **Under a complete log every read gives what the overlay says of the account.** -/
lemma reads_view (hc : log.Complete) (ht : log.Tells w) (a : Address) :
    s.Reads log a (s.view w a) := by
  have haccount : log.account a = .ok (w.account a) := hc.account_eq ht
  have hview : w.view s.rules a =
      (w.accounts[a]?.map WorldAccount.view).getD (.absent s.rules) := rfl
  simp only [World.account] at haccount
  cases he : s.entries[a]? with
  | none =>
      have hs : s.view w a = w.view s.rules a := by simp [view, he]
      rw [hs]
      refine ⟨?_, ?_, ?_, ?_, fun index => ?_⟩
      · simp only [accountExists, he, CommitLog.accountExists, haccount, hview]
        cases w.accounts[a]? <;> rfl
      · simp only [nonce, he, CommitLog.nonce?, haccount, hview]
        cases w.accounts[a]? <;> rfl
      · simp only [balance, he, CommitLog.balance, haccount, hview]
        cases w.accounts[a]? <;> rfl
      · simp only [code, he, hc.code_eq ht, World.view_code]
      · simp only [storage, he, hc.storage_eq ht, World.view_slots]
  | some entry =>
      have hs : s.view w a = entry.view s.rules w a := by simp [view, he]
      rw [hs]
      cases entry with
      | shifted shift =>
          refine ⟨?_, ?_, ?_, ?_, fun index => ?_⟩
          · simp only [accountExists, he, AccountEntry.view]
          · simp only [nonce, he, CommitLog.nonce?, haccount, AccountEntry.view, hview]
            cases w.accounts[a]? <;> rfl
          · simp only [balance, he, CommitLog.balance, haccount, AccountEntry.view, hview]
            cases w.accounts[a]? <;> rfl
          · simp only [code, he, hc.code_eq ht, AccountEntry.view, World.view_code]
          · simp only [storage, he, hc.storage_eq ht, AccountEntry.view, World.view_slots]
      | live account =>
          refine ⟨?_, ?_, ?_, ?_, fun index => ?_⟩
          · simp only [accountExists, he, AccountEntry.view, LiveAccount.view]
          · simp only [nonce, he, AccountEntry.view, LiveAccount.view]
          · simp only [balance, he, AccountEntry.view, LiveAccount.view]
          · simp only [code, he, AccountEntry.view, LiveAccount.view]
          · simp only [storage, he, hc.storage_eq ht, AccountEntry.view, LiveAccount.view]
            cases account.storage[index]? <;> cases account.reset <;> rfl
      | dead =>
          refine ⟨?_, ?_, ?_, ?_, fun index => ?_⟩ <;>
            simp only [accountExists, nonce, balance, code, storage, he, AccountEntry.view,
              AccountView.absent]

/-- Every read of an account that gives a result gives this one. -/
structure Shows (s : Overlay) (log : CommitLog) (a : Address) (v : AccountView) : Prop where
  present : ∀ {there}, s.accountExists a log = .ok there → there = v.present
  nonce : ∀ {nonce}, s.nonce a log = .ok nonce → nonce = v.nonce
  balance : ∀ {balance}, s.balance a log = .ok balance → balance = v.balance
  code : ∀ {code}, s.code a log = .ok code → code = v.code
  storage : ∀ {index value}, s.storage a index log = .ok value → value = v.slots index

/-- **What is read is what the overlay says,** however little else is known. -/
lemma shows_view (ht : log.Tells w) (a : Address) : s.Shows log a (s.view w a) := by
  -- a complete log reads what this one does, and reads there are what the overlay says
  obtain ⟨full, hfull, hc⟩ := World.exists_complete w
  have hwithin := hc.within hfull ht
  have hreads : s.Reads full a (s.view w a) := s.reads_view hc hfull a
  have hsame : ∀ {α : Type} {x x' : Except Requirement α} {y y' : α}, Agree log full x x' →
      x = .ok y → x' = .ok y' → y = y' := by
    rintro α x x' y y' hagree rfl hx'
    exact Except.ok.inj ((hagree.same rfl).symm.trans hx')
  exact ⟨fun h => hsame (s.accountExists_agree hwithin a) h hreads.present,
    fun h => hsame (s.nonce_agree hwithin a) h hreads.nonce,
    fun h => hsame (s.balance_agree hwithin a) h hreads.balance,
    fun h => hsame (s.code_agree hwithin a) h hreads.code,
    fun h => hsame (s.storage_agree hwithin a _) h (hreads.storage _)⟩

lemma balance_eq_view (ht : log.Tells w) (hb : s.balance a log = .ok value) :
    value = (s.view w a).balance :=
  (shows_view ht a).balance hb

/-- Only an account that is there has a balance. -/
lemma present_of_balance (h : (s.view w a).balance ≠ 0) : (s.view w a).present = true := by
  simp only [view] at h ⊢
  cases he : s.entries[a]? with
  | none =>
      rw [he] at h
      simp only [Option.map_none, Option.getD_none, World.view] at h ⊢
      cases hw : w.accounts[a]? with
      | none =>
          rw [hw] at h
          exact absurd rfl h
      | some account => rfl
  | some entry =>
      rw [he] at h
      cases entry with
      | shifted | live => rfl
      | dead => exact absurd rfl h

/-- The current state of an account is what the overlay says, of an account that is there. -/
lemma live_view (ht : log.Tells w) {account : LiveAccount} (hl : s.live a log = .ok account) :
    account.view w a = { s.view w a with present := true } := by
  have hcommitted : ∀ {account : LiveAccount}, s.committed a log = .ok account →
      account.view w a = { w.view s.rules a with present := true } := by
    intro account hcommitted
    obtain ⟨known, hk, rfl⟩ := map_eq_ok.mp hcommitted
    obtain rfl := ht.account_eq hk
    simp only [World.account, World.view]
    cases hw : w.accounts[a]? with
    | none => simp [LiveAccount.view, fresh, AccountView.absent]
    | some account => simp [LiveAccount.view, WorldAccount.view, World.slot, hw]
  simp only [live] at hl
  cases he : s.entries[a]? with
  | none =>
      rw [he] at hl
      rw [hcommitted hl]
      simp [view, he]
  | some entry =>
      rw [he] at hl
      cases entry with
      | live held =>
          cases hl
          simp [view, he, AccountEntry.view, LiveAccount.view]
      | dead =>
          cases hl
          simp [view, he, AccountEntry.view, LiveAccount.view, fresh, AccountView.absent]
      | shifted shift =>
          obtain ⟨held, hheld, rfl⟩ := map_eq_ok.mp hl
          have hview := hcommitted hheld
          have hbalance : held.balance = (w.view s.rules a).balance :=
            congrArg AccountView.balance hview
          have hrest : ({ held with balance := shift.apply held.balance } : LiveAccount).view w a =
              { held.view w a with balance := shift.apply held.balance } := rfl
          rw [hrest, hview, hbalance]
          simp [view, he, AccountEntry.view]

/-! ## Writing -/

/-- An entry changes what is said of its account alone. -/
lemma insert_view (s : Overlay) (w : World) (a : Address) (entry : AccountEntry) :
    ({ s with entries := s.entries.insert a entry } : Overlay).view w =
      Function.update (s.view w) a (entry.view s.rules w a) := by
  funext b
  by_cases hab : b = a
  · subst hab
    simp [view]
  · rw [Function.update_of_ne hab]
    have hne : a ≠ b := Ne.symm hab
    simp [view, Std.TreeMap.getElem?_insert, hne]

lemma remove_view (s : Overlay) (w : World) (a : Address) :
    (s.remove a).view w = Function.update (s.view w) a (.absent s.rules) :=
  s.insert_view w a .dead

/-- **A write** starts from what the overlay says of the account. -/
lemma update_view (ht : log.Tells w) {f : LiveAccount → LiveAccount}
    (h : s.update a log f = .ok s') : ∃ account : LiveAccount,
      account.view w a = { s.view w a with present := true } ∧
        s'.view w = Function.update (s.view w) a ((f account).view w a) := by
  obtain ⟨account, hl, rfl⟩ := update_eq_ok.mp h
  exact ⟨account, live_view ht hl, s.insert_view w a _⟩

lemma setNonce_view (ht : log.Tells w) {nonce : Word} (h : s.setNonce a nonce log = .ok s') :
    s'.view w =
      Function.update (s.view w) a { s.view w a with present := true, nonce := nonce } := by
  obtain ⟨account, hview, hs⟩ := update_view ht h
  have hnext : ({ account with nonce := nonce } : LiveAccount).view w a =
      { account.view w a with nonce := nonce } := rfl
  rw [hs, hnext, hview]

/-- What a write leaves of its account is left of all accounts. -/
lemma update_read (ht : log.Tells w) {α : Type} (read : AccountView → α)
    (hread : ∀ v : AccountView, read { v with present := true } = read v)
    {f : LiveAccount → LiveAccount} (h : s.update a log f = .ok s')
    (hf : ∀ account : LiveAccount, read ((f account).view w a) = read (account.view w a))
    (b : Address) : read (s'.view w b) = read (s.view w b) := by
  obtain ⟨account, hview, hs⟩ := update_view ht h
  rw [hs]
  by_cases hab : b = a
  · subst hab
    rw [Function.update_self, hf, hview, hread]
  · rw [Function.update_of_ne hab]

lemma update_balance (ht : log.Tells w) {f : LiveAccount → LiveAccount}
    (h : s.update a log f = .ok s') (hf : ∀ account, (f account).balance = account.balance)
    (b : Address) : (s'.view w b).balance = (s.view w b).balance :=
  update_read ht AccountView.balance (fun _ => rfl) h hf b

lemma update_code (ht : log.Tells w) {f : LiveAccount → LiveAccount}
    (h : s.update a log f = .ok s') (hf : ∀ account, (f account).code = account.code)
    (b : Address) : (s'.view w b).code = (s.view w b).code :=
  update_read ht AccountView.code (fun _ => rfl) h hf b

lemma update_code_at (ht : log.Tells w) {code : Bytes} {f : LiveAccount → LiveAccount}
    (h : s.update a log f = .ok s') (hf : ∀ account, (f account).code = code) (b : Address) :
    (s'.view w b).code = if b = a then code else (s.view w b).code := by
  obtain ⟨account, -, hs⟩ := update_view ht h
  rw [hs]
  by_cases hab : b = a
  · subst hab
    rw [Function.update_self, if_pos rfl]
    exact hf account
  · rw [Function.update_of_ne hab, if_neg hab]

/-- A balance that is moved for good. -/
lemma change_view (ht : log.Tells w) {change : Word → Word → Word}
    (h : s.update a log (fun account =>
      { account with balance := change account.balance value }) = .ok s') :
    s'.view w = Function.update (s.view w) a
      { s.view w a with present := true, balance := change (s.view w a).balance value } := by
  obtain ⟨account, hview, hs⟩ := update_view ht h
  have hbalance : account.balance = (s.view w a).balance := congrArg AccountView.balance hview
  have hnext : ({ account with balance := change account.balance value } : LiveAccount).view w a =
      { account.view w a with balance := change account.balance value } := rfl
  rw [hs, hnext, hview, hbalance]

/-- **A movement of a balance** changes that alone, and one of more than nothing brings an account
    about. -/
lemma moveBalance_view (ht : log.Tells w) {first : Word → BalanceShift}
    {shift : BalanceShift → Word → BalanceShift} {change : Word → Word → Word}
    (h : s.moveBalance a value log first shift change = .ok s') :
    ∃ balance, s'.view w = Function.update (s.view w) a
      { s.view w a with
        present := (s.view w a).present || value ≠ 0, balance := balance } := by
  simp only [moveBalance] at h
  split at h
  · rename_i hzero
    cases h
    refine ⟨(s.view w a).balance, ?_⟩
    simp only [hzero, ne_eq, not_true, decide_false, Bool.or_false, Function.update_eq_self]
  · rename_i hsome
    simp only [ne_eq, hsome, not_false_eq_true, decide_true, Bool.or_true]
    split at h
    · rename_i hunknown
      cases h
      rw [s.insert_view w a _]
      cases he : s.entries[a]? with
      | none => exact ⟨_, by simp only [view, he, Option.map_none, Option.getD_none]; rfl⟩
      | some entry =>
          cases entry with
          | shifted => exact ⟨_, by simp only [view, he, Option.map_some, Option.getD_some]; rfl⟩
          | live | dead => simp [isCommitted, he] at hunknown
    · exact ⟨_, change_view ht h⟩

lemma moveBalance_code (ht : log.Tells w) {first : Word → BalanceShift}
    {shift : BalanceShift → Word → BalanceShift} {change : Word → Word → Word}
    (h : s.moveBalance a value log first shift change = .ok s') (b : Address) :
    (s'.view w b).code = (s.view w b).code := by
  obtain ⟨balance, hview⟩ := moveBalance_view ht h
  rw [hview]
  by_cases hab : b = a
  · subst hab
    rw [Function.update_self]
  · rw [Function.update_of_ne hab]

/-- **Charging** an account that is known. -/
lemma Knows.decreaseBalance_view (hk : s.Knows a log) (ht : log.Tells w)
    (h : s.decreaseBalance a value log = .ok s') :
    s'.view w = Function.update (s.view w) a ((s.view w a).debit value) := by
  simp only [decreaseBalance] at h
  rw [hk.moveBalance_eq] at h
  split at h
  · rename_i hzero
    cases h
    rw [hzero, AccountView.debit_zero, Function.update_eq_self]
  · rename_i hsome
    rw [change_view ht h, AccountView.debit_of_ne _ hsome]

/-- **Paying** an account that is known. -/
lemma Knows.increaseBalance_view (hk : s.Knows a log) (ht : log.Tells w)
    (h : s.increaseBalance a value log = .ok s') :
    s'.view w = Function.update (s.view w) a ((s.view w a).credit value) := by
  simp only [increaseBalance] at h
  rw [hk.moveBalance_eq] at h
  split at h
  · rename_i hzero
    cases h
    rw [hzero, AccountView.credit_zero, Function.update_eq_self]
  · rename_i hsome
    rw [change_view ht h, AccountView.credit_of_ne _ hsome]

end Overlay

end ResumableEvm
