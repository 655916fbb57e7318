import ResumableEvm.Proofs.AccountView

/-!
# An overlay as a plain map

What an overlay holds of an account is one of several things: a difference of a balance that nobody
has told, the account as a whole, with or without the slots of the log behind it, or that it is
gone.  From outside none of that shows.  Whatever is done to accounts, in whatever order and however
much is told meanwhile, what is read is what the same operations make of a plain map of accounts,
whose balances are integers.

* `AccountOp`, `Overlay.perform`, `PlainAccounts.perform` — operations, on an overlay and on a map.
* `BalanceShift.signed_increase`, `BalanceShift.signed_decrease` — differences are exact.
* `AccountEntry.Stands` — how what an overlay holds of an account stands to a map.
* `Overlay.Follows.perform`, `Overlay.Follows.performAll` — operations keep an overlay in line
  with a map.
* `Overlay.live_sameReads` — a difference that becomes an account changes no read.
* `overlay_is_a_plain_map` — all of it, after any operations.
-/

namespace ResumableEvm

/-! ## Operations -/

/-- One operation on the accounts. -/
inductive AccountOp
  | increaseBalance (a : Address) (value : Word)
  | decreaseBalance (a : Address) (value : Word)
  | setNonce (a : Address) (nonce : Word)
  | writeStorage (a : Address) (index value : Word)
  | create (a : Address)
  | depositCode (a : Address) (code : Bytes)
  | remove (a : Address)
  | touch (a : Address)

/-- Whose account it is about. -/
def AccountOp.address : AccountOp → Address
  | .increaseBalance a _ | .decreaseBalance a _ | .setNonce a _ | .writeStorage a _ _ | .create a
  | .depositCode a _ | .remove a | .touch a => a

/-- By how much it moves the balance of an account. -/
def AccountOp.movement (a : Address) : AccountOp → ℤ
  | .increaseBalance b value => if b = a then value.toNat else 0
  | .decreaseBalance b value => if b = a then -value.toNat else 0
  | _ => 0

namespace Overlay

/-- Carries out an operation, or asks for what it takes to. -/
def perform (s : Overlay) (log : CommitLog) : AccountOp → Except Requirement Overlay
  | .increaseBalance a value => s.increaseBalance a value log
  | .decreaseBalance a value => s.decreaseBalance a value log
  | .setNonce a nonce => s.setNonce a nonce log
  | .writeStorage a index value => s.writeStorage a index value log
  | .create a => s.create a log
  | .depositCode a code => s.depositCode a code log
  | .remove a => .ok (s.remove a)
  | .touch a => .ok (s.touch a)

/-- **One operation after another,** each under what has been told by then.  Gives the overlay and
    the operations that were carried out. -/
def performAll (rules : AccountRules) (steps : List (CommitLog × AccountOp)) :
    Overlay × List AccountOp :=
  steps.foldl (fun state step =>
    match state.1.perform step.1 step.2 with
    | .ok s => (s, state.2 ++ [step.2])
    | .error _ => state) (empty rules, [])

end Overlay

/-! ## A plain map -/

/-- An account as it is, with its balance as an integer. -/
structure PlainAccount where
  nonce : Word
  balance : ℤ
  code : Bytes
  slots : Word → Word

/-- A plain map of accounts. -/
abbrev PlainAccounts := Address → Option PlainAccount

/-- What is read where there is no account, and what is brought about there by a write. -/
def PlainAccount.fresh (rules : AccountRules) : PlainAccount :=
  ⟨rules.initialNonce, 0, ByteArray.empty, fun _ => 0⟩

def WorldAccount.plain (account : WorldAccount) : PlainAccount :=
  ⟨account.nonce, account.balance.toNat, account.code, fun index => account.storage[index]?.getD 0⟩

/-- The accounts of a world. -/
def World.plain (w : World) : PlainAccounts := fun a => w.accounts[a]?.map WorldAccount.plain

namespace PlainAccounts

/-- Changes an account, which is brought about if it is missing. -/
def update (rules : AccountRules) (m : PlainAccounts) (a : Address)
    (change : PlainAccount → PlainAccount) : PlainAccounts :=
  Function.update m a (some (change ((m a).getD (.fresh rules))))

/-- Moves a balance.  A movement of zero brings nothing about. -/
def move (rules : AccountRules) (m : PlainAccounts) (a : Address) (amount : ℤ) : PlainAccounts :=
  if amount = 0 then m else m.update rules a fun p => { p with balance := p.balance + amount }

/-- **An operation on a plain map.** -/
def perform (rules : AccountRules) (m : PlainAccounts) : AccountOp → PlainAccounts
  | .increaseBalance a value => m.move rules a value.toNat
  | .decreaseBalance a value => m.move rules a (-value.toNat)
  | .setNonce a nonce => m.update rules a ({ · with nonce := nonce })
  | .writeStorage a index value =>
    m.update rules a fun p => { p with slots := Function.update p.slots index value }
  | .create a => m.update rules a fun p =>
      { p with nonce := rules.createdNonce, code := ByteArray.empty, slots := fun _ => 0 }
  | .depositCode a code => m.update rules a ({ · with code := code })
  | .remove a => Function.update m a none
  | .touch _ => m

def performAll (rules : AccountRules) (m : PlainAccounts) (ops : List AccountOp) : PlainAccounts :=
  ops.foldl (perform rules) m

/-- No balance has left what a word can hold. -/
def InRange (m : PlainAccounts) : Prop :=
  ∀ a p, m a = some p → 0 ≤ p.balance ∧ p.balance < 2 ^ 256

variable {rules : AccountRules} {m : PlainAccounts} {op : AccountOp} {a b : Address} {amount : ℤ}

lemma move_of_ne (h : b ≠ a) : m.move rules a amount b = m b := by
  simp only [move, update]
  split
  · rfl
  · exact Function.update_of_ne h _ _

/-- What is not spoken of stays as it is. -/
lemma perform_of_ne (h : b ≠ op.address) : m.perform rules op b = m b := by
  cases op with
  | increaseBalance | decreaseBalance => exact move_of_ne h
  | setNonce | writeStorage | create | depositCode | remove => exact Function.update_of_ne h _ _
  | touch => rfl

end PlainAccounts

lemma AccountOp.movement_of_ne {op : AccountOp} {a : Address} (h : a ≠ op.address) :
    op.movement a = 0 := by
  cases op with
  | increaseBalance | decreaseBalance => exact if_neg (Ne.symm h)
  | _ => rfl

/-! ## Differences of balances -/

namespace BalanceShift

/-- A difference as an integer. -/
def signed : BalanceShift → ℤ
  | .up value => value.toNat
  | .down value => -value.toNat

variable {shift : BalanceShift} {value : Word}

lemma maxWord_eq : maxWord = 2 ^ 256 - 1 := by decide

lemma toNat_sub_of_le {x y : Word} (h : y.toNat ≤ x.toNat) :
    (x - y).toNat = x.toNat - y.toNat := BitVec.toNat_sub_of_le h

/-- **A payment adds to the difference** exactly, as long as the sum is one of two words. -/
lemma signed_increase (h : shift.signed + value.toNat < 2 ^ 256) :
    (shift.increase value).signed = shift.signed + value.toNat := by
  cases shift with
  | up current =>
      simp only [signed, increase, Word.toNat_addSat, maxWord_eq] at h ⊢
      omega
  | down current =>
      simp only [increase]
      split <;> rename_i hlt <;> rw [BitVec.lt_def] at hlt <;> simp only [signed]
      · rw [toNat_sub_of_le hlt.le]
        omega
      · rw [toNat_sub_of_le (Nat.le_of_not_lt hlt)]
        omega

/-- **A charge takes from the difference** exactly. -/
lemma signed_decrease (h : -2 ^ 256 < shift.signed - value.toNat) :
    (shift.decrease value).signed = shift.signed - value.toNat := by
  cases shift with
  | down current =>
      simp only [signed, decrease, Word.toNat_addSat, maxWord_eq] at h ⊢
      omega
  | up current =>
      simp only [decrease]
      split <;> rename_i hle <;> rw [BitVec.le_def] at hle <;> simp only [signed]
      · rw [toNat_sub_of_le hle]
        omega
      · rw [toNat_sub_of_le (Nat.le_of_not_le hle)]
        omega

/-- A difference is applied exactly, as long as the result is a word. -/
lemma toNat_apply {balance : Word} (hnonneg : 0 ≤ balance.toNat + shift.signed)
    (hlt : balance.toNat + shift.signed < 2 ^ 256) :
    ((shift.apply balance).toNat : ℤ) = balance.toNat + shift.signed := by
  cases shift with
  | up value =>
      simp only [signed, apply, Word.toNat_addSat, maxWord_eq] at hlt ⊢
      omega
  | down value =>
      simp only [signed, apply, Word.toNat_subSat] at hnonneg ⊢
      omega

end BalanceShift

/-! ## How an overlay stands to a plain map -/

/-- What is said of an account is what a plain map has. -/
structure AccountView.Mirrors (v : AccountView) (rules : AccountRules)
    (held : Option PlainAccount) : Prop where
  present : v.present = held.isSome
  nonce : v.nonce = (held.getD (.fresh rules)).nonce
  balance : (v.balance.toNat : ℤ) = (held.getD (.fresh rules)).balance
  code : v.code = (held.getD (.fresh rules)).code
  slots : v.slots = (held.getD (.fresh rules)).slots

namespace AccountView

lemma absent_mirrors {rules : AccountRules} : (absent rules).Mirrors rules none :=
  ⟨rfl, rfl, rfl, rfl, rfl⟩

lemma Mirrors.there {v : AccountView} {rules : AccountRules} {held : Option PlainAccount}
    (h : v.Mirrors rules held) :
    ({ v with present := true } : AccountView).Mirrors rules (some (held.getD (.fresh rules))) :=
  ⟨rfl, h.nonce, h.balance, h.code, h.slots⟩

end AccountView

lemma World.view_mirrors (w : World) (rules : AccountRules) (a : Address) :
    (w.view rules a).Mirrors rules (w.plain a) := by
  simp only [World.view, World.plain]
  cases w.accounts[a]? with
  | none => exact AccountView.absent_mirrors
  | some account => exact ⟨rfl, rfl, rfl, rfl, rfl⟩

/-- **How what an overlay holds of an account stands to a plain map** that has come of a world.
    Where nothing is held, the account is as it was in the world; a difference is all that its
    balance was ever moved by. -/
inductive AccountEntry.Stands (rules : AccountRules) (w : World) (a : Address) :
    Option AccountEntry → Option PlainAccount → ℤ → Prop
  | untouched : Stands rules w a none (w.plain a) 0
  | shifted {base : PlainAccount} (shift : BalanceShift)
      (hbase : base = (w.plain a).getD (.fresh rules)) :
      Stands rules w a (some (.shifted shift))
        (some { base with balance := base.balance + shift.signed }) shift.signed
  | live {account : LiveAccount} {p : PlainAccount} {moved : ℤ}
      (h : (account.view w a).Mirrors rules (some p)) :
      Stands rules w a (some (.live account)) (some p) moved
  | dead {moved : ℤ} : Stands rules w a (some .dead) none moved

/-- **An overlay follows a plain map,** to which some operations have led. -/
structure Overlay.Follows (s : Overlay) (rules : AccountRules) (w : World) (m : PlainAccounts)
    (done : List AccountOp) : Prop where
  rules_eq : s.rules = rules
  stands : ∀ a, AccountEntry.Stands rules w a s.entries[a]? (m a) (done.map (·.movement a)).sum

section

variable {rules : AccountRules} {w : World} {m : PlainAccounts} {s s' : Overlay} {a b : Address}
  {log log' : CommitLog} {op : AccountOp} {done : List AccountOp} {moved : ℤ}

lemma AccountEntry.Stands.mirrors {held : Option PlainAccount} (hr : s.rules = rules)
    (h : AccountEntry.Stands rules w a s.entries[a]? held moved)
    (hin : ∀ p, held = some p → 0 ≤ p.balance ∧ p.balance < 2 ^ 256) :
    (s.view w a).Mirrors rules held := by
  subst hr
  simp only [Overlay.view]
  have hworld := w.view_mirrors s.rules a
  generalize s.entries[a]? = entry at h
  cases h with
  | untouched => exact hworld
  | shifted shift hbase =>
      subst hbase
      obtain ⟨hnonneg, hlt⟩ := hin _ rfl
      simp only [← hworld.balance] at hnonneg hlt
      refine ⟨rfl, hworld.nonce, ?_, hworld.code, hworld.slots⟩
      rw [Option.getD_some, ← hworld.balance]
      exact BalanceShift.toNat_apply hnonneg hlt
  | live h => exact h
  | dead => exact AccountView.absent_mirrors

namespace Overlay

/-! ## What an operation leaves alone -/

/-- Two overlays whose reads of an account are the same, answers and requirements alike. -/
structure SameReads (s s' : Overlay) (log : CommitLog) (a : Address) : Prop where
  accountExists : s.accountExists a log = s'.accountExists a log
  nonce : s.nonce a log = s'.nonce a log
  balance : s.balance a log = s'.balance a log
  code : s.code a log = s'.code a log
  storage : ∀ index, s.storage a index log = s'.storage a index log

lemma sameReads_of_entry (hr : s.rules = s'.rules) (he : s.entries[a]? = s'.entries[a]?) :
    s.SameReads s' log a := by
  constructor <;> simp only [accountExists, nonce, balance, code, storage, he, hr, implies_true]

/-- What is changed of an overlay is what it holds of one account. -/
structure ChangesOnly (s s' : Overlay) (a : Address) : Prop where
  rules_eq : s'.rules = s.rules
  others : ∀ b, b ≠ a → s'.entries[b]? = s.entries[b]?

lemma insert_changesOnly (s : Overlay) (a : Address) (entry : AccountEntry) :
    s.ChangesOnly { s with entries := s.entries.insert a entry } a where
  rules_eq := rfl
  others b hb := by simp [Std.TreeMap.getElem?_insert, hb.symm]

lemma update_changesOnly {f : LiveAccount → LiveAccount} (h : s.update a log f = .ok s') :
    s.ChangesOnly s' a := by
  obtain ⟨account, -, rfl⟩ := update_eq_ok.mp h
  exact s.insert_changesOnly a _

lemma moveBalance_changesOnly {value : Word} {first : Word → BalanceShift}
    {shift : BalanceShift → Word → BalanceShift} {change : Word → Word → Word}
    (h : s.moveBalance a value log first shift change = .ok s') : s.ChangesOnly s' a := by
  simp only [moveBalance] at h
  split at h
  · cases h
    exact ⟨rfl, fun _ _ => rfl⟩
  · split at h
    · cases h
      exact s.insert_changesOnly a _
    · exact update_changesOnly h

/-- **An operation changes what is held of the account it is about** alone. -/
lemma perform_changesOnly (h : s.perform log op = .ok s') : s.ChangesOnly s' op.address := by
  cases op with
  | increaseBalance | decreaseBalance => exact moveBalance_changesOnly h
  | setNonce | writeStorage | create | depositCode => exact update_changesOnly h
  | remove a =>
      cases h
      exact s.insert_changesOnly a _
  | touch =>
      cases h
      exact ⟨rfl, fun _ _ => rfl⟩

/-- What is asked for before a write is the account. -/
lemma update_error {f : LiveAccount → LiveAccount} {r : Requirement}
    (h : s.update a log f = .error r) : r = .account a ∧ ¬ s.Knows a log := by
  have hlive : s.live a log = .error r := map_eq_error.mp h
  refine ⟨?_, fun ⟨account, hok⟩ => nomatch hok.symm.trans hlive⟩
  have haccount : log.account a = .error r := by
    simp only [live, committed] at hlive
    split at hlive
    · cases hlive
    · cases hlive
    · exact map_eq_error.mp (map_eq_error.mp hlive)
    · exact map_eq_error.mp hlive
  simp only [CommitLog.account] at haccount
  split at haccount <;> cases haccount
  rfl

lemma moveBalance_error {value : Word} {first : Word → BalanceShift}
    {shift : BalanceShift → Word → BalanceShift} {change : Word → Word → Word} {r : Requirement}
    (h : s.moveBalance a value log first shift change = .error r) :
    r = .account a ∧ ¬ s.Knows a log := by
  simp only [moveBalance] at h
  split at h
  · cases h
  · split at h
    · cases h
    · exact update_error h

/-- **An operation that is not carried out** asks for the account it is about, which is not
    known. -/
lemma perform_error {r : Requirement} (h : s.perform log op = .error r) :
    r = .account op.address ∧ ¬ s.Knows op.address log := by
  cases op with
  | increaseBalance | decreaseBalance => exact moveBalance_error h
  | setNonce | writeStorage | create | depositCode => exact update_error h
  | remove | touch => cases h

lemma performAll_concat (rules : AccountRules) (steps : List (CommitLog × AccountOp))
    (step : CommitLog × AccountOp) : performAll rules (steps ++ [step]) =
      match (performAll rules steps).1.perform step.1 step.2 with
      | .ok s => (s, (performAll rules steps).2 ++ [step.2])
      | .error _ => performAll rules steps := by
  simp only [performAll, List.foldl_append, List.foldl_cons, List.foldl_nil]

/-- **A difference that becomes an account changes no read,** under the log that it becomes one
    by. -/
lemma live_sameReads {shift : BalanceShift} {account : LiveAccount} (ht : log.Tells w)
    (he : s.entries[a]? = some (.shifted shift)) (hl : s.live a log = .ok account) (b : Address) :
    ({ s with entries := s.entries.insert a (.live account) } : Overlay).SameReads s log b := by
  by_cases hb : b = a
  swap
  · exact sameReads_of_entry rfl ((s.insert_changesOnly a _).others b hb)
  subst hb
  simp only [live, he] at hl
  obtain ⟨held, hheld, rfl⟩ := map_eq_ok.mp hl
  obtain ⟨known, hknown, rfl⟩ := map_eq_ok.mp hheld
  -- code told on its own is that of the account
  have hcode : log.code b = .ok (w.code b) := by
    obtain ⟨code, hcode⟩ := code_ok_of_account_ok hknown
    rw [hcode, ht.code_eq hcode]
  have hworld := ht.account_eq hknown
  simp only [World.account, World.code] at hworld hcode
  cases hw : w.accounts[b]? with
  | none =>
      simp only [hw] at hworld hcode
      subst hworld
      constructor <;> simp [accountExists, nonce, balance, code, storage, CommitLog.nonce?,
        CommitLog.balance, CommitLog.storage, he, hknown, hcode, Except.map, bind, Except.bind,
        pure, Except.pure, fresh]
  | some existing =>
      simp only [hw] at hworld hcode
      subst hworld
      constructor <;> simp [accountExists, nonce, balance, code, storage, CommitLog.nonce?,
        CommitLog.balance, he, hknown, hcode, Except.map]

/-! ## Following a plain map -/

namespace Follows

lemma empty (rules : AccountRules) (w : World) : (empty rules).Follows rules w w.plain [] where
  rules_eq := rfl
  stands a := by
    simp only [Overlay.empty, Std.TreeMap.getElem?_emptyc, List.map_nil, List.sum_nil]
    exact .untouched

lemma mirrors (h : s.Follows rules w m done) (hin : m.InRange) (a : Address) :
    (s.view w a).Mirrors rules (m a) :=
  (h.stands a).mirrors h.rules_eq (hin a)

/-- The current state of an account is what a plain map has, of an account that is there. -/
lemma live (h : s.Follows rules w m done) (hin : m.InRange) (ht : log.Tells w)
    {account : LiveAccount} (hl : s.live a log = .ok account) :
    (account.view w a).Mirrors rules (some ((m a).getD (.fresh rules))) := by
  rw [live_view ht hl]
  exact (h.mirrors hin a).there

/-- **Writing to an account** is the same on a plain map, if the change is. -/
lemma update (h : s.Follows rules w m done) (hin : m.InRange) (ht : log.Tells w)
    {f : LiveAccount → LiveAccount} (hs : s.update a log f = .ok s')
    (change : PlainAccount → PlainAccount)
    (hf : ∀ account : LiveAccount,
      (account.view w a).Mirrors rules (some ((m a).getD (.fresh rules))) →
      ((f account).view w a).Mirrors rules (some (change ((m a).getD (.fresh rules))))) :
    AccountEntry.Stands rules w a s'.entries[a]? (m.update rules a change a) moved := by
  obtain ⟨account, hl, rfl⟩ := update_eq_ok.mp hs
  rw [Std.TreeMap.getElem?_insert_self, PlainAccounts.update, Function.update_self]
  exact .live (hf account (h.live hin ht hl))

/-- **Moving a balance** is the same on a plain map, whether it is moved for good or by a
    difference. -/
lemma moveBalance (h : s.Follows rules w m done) (hin : m.InRange) (ht : log.Tells w)
    {value : Word} (first : Word → BalanceShift) {shift : BalanceShift → Word → BalanceShift}
    {change : Word → Word → Word} (hzero : (first value).signed = 0 ↔ value = 0)
    (hshift : ∀ current : BalanceShift, -2 ^ 256 < current.signed + (first value).signed →
      current.signed + (first value).signed < 2 ^ 256 →
      (shift current value).signed = current.signed + (first value).signed)
    (hchange : ∀ balance, change balance value = (first value).apply balance)
    (hin' : (m.move rules a (first value).signed).InRange)
    (hs : s.moveBalance a value log first shift change = .ok s') :
    AccountEntry.Stands rules w a s'.entries[a]? (m.move rules a (first value).signed a)
      ((done.map (·.movement a)).sum + (first value).signed) := by
  have hstands := h.stands a
  simp only [Overlay.moveBalance] at hs
  split at hs
  · rename_i hvalue
    cases hs
    rw [PlainAccounts.move, if_pos (hzero.mpr hvalue), hzero.mpr hvalue, add_zero]
    exact hstands
  · rename_i hvalue
    rw [PlainAccounts.move, if_neg fun hmoved => hvalue (hzero.mp hmoved)] at hin' ⊢
    split at hs
    · rename_i hunknown
      cases hs
      rw [Std.TreeMap.getElem?_insert_self, PlainAccounts.update, Function.update_self]
      have hrange := hin' a _ (Function.update_self a _ m)
      generalize (done.map (·.movement a)).sum = moved at hstands
      generalize hheld : m a = held at hstands hrange
      generalize he : s.entries[a]? = entry at hstands
      cases hstands with
      | untouched =>
          rw [zero_add]
          exact .shifted (first value) rfl
      | @shifted base current hbase =>
          simp only [Option.getD_some, add_assoc] at hrange ⊢
          have hworld : 0 ≤ base.balance ∧ base.balance < 2 ^ 256 := by
            rw [hbase, ← (w.view_mirrors rules a).balance]
            have := (w.view rules a).balance.isLt
            omega
          rw [← hshift current (by omega) (by omega)]
          exact .shifted _ hbase
      | live | dead => simp [isCommitted, he] at hunknown
    · refine h.update hin ht hs _ fun account haccount => ?_
      have hrange := hin' a _ (Function.update_self a _ m)
      refine ⟨rfl, haccount.nonce, ?_, haccount.code, haccount.slots⟩
      have hbalance : (account.balance.toNat : ℤ) = ((m a).getD (.fresh rules)).balance :=
        haccount.balance
      simp only [← hbalance] at hrange
      simp only [LiveAccount.view, hchange, Option.getD_some, ← hbalance]
      exact BalanceShift.toNat_apply hrange.1 hrange.2

/-- What becomes of the account that an operation is about. -/
lemma perform_self (h : s.Follows rules w m done) (hin : m.InRange)
    (hin' : (m.perform rules op).InRange) (ht : log.Tells w) (hs : s.perform log op = .ok s') :
    AccountEntry.Stands rules w op.address s'.entries[op.address]?
      (m.perform rules op op.address)
      ((done.map (·.movement op.address)).sum + op.movement op.address) := by
  cases op with
  | increaseBalance a value =>
      rw [AccountOp.movement, AccountOp.address, if_pos rfl]
      exact h.moveBalance hin ht .up (by simp [BalanceShift.signed, ← BitVec.toNat_inj])
        (fun _ _ hlt => BalanceShift.signed_increase hlt) (fun _ => rfl) hin' hs
  | decreaseBalance a value =>
      rw [AccountOp.movement, AccountOp.address, if_pos rfl]
      exact h.moveBalance hin ht .down (by simp [BalanceShift.signed, ← BitVec.toNat_inj])
        (fun _ hlt _ => BalanceShift.signed_decrease hlt) (fun _ => rfl) hin' hs
  | setNonce a nonce =>
      exact h.update hin ht hs ({ · with nonce := nonce }) fun _ haccount =>
        ⟨rfl, rfl, haccount.balance, haccount.code, haccount.slots⟩
  | writeStorage a index value =>
      refine h.update hin ht hs (fun p => { p with slots := Function.update p.slots index value })
        fun account haccount =>
          ⟨rfl, haccount.nonce, haccount.balance, haccount.code, funext fun read => ?_⟩
      have hslot := congrFun haccount.slots read
      simp only [LiveAccount.view, Option.getD_some] at hslot ⊢
      by_cases hread : read = index
      · subst hread
        simp
      · rw [Function.update_of_ne hread, ← hslot]
        simp [Std.TreeMap.getElem?_insert, Ne.symm hread]
  | create a =>
      refine h.update hin ht hs (fun p =>
          { p with nonce := rules.createdNonce, code := ByteArray.empty, slots := fun _ => 0 })
        fun account haccount => ⟨rfl, ?_, haccount.balance, rfl, funext fun read => ?_⟩
      · simp [LiveAccount.view, h.rules_eq]
      · simp [LiveAccount.view]
  | depositCode a code =>
      exact h.update hin ht hs ({ · with code := code }) fun _ haccount =>
        ⟨rfl, haccount.nonce, haccount.balance, rfl, haccount.slots⟩
  | remove a =>
      cases hs
      simp only [AccountOp.address, remove, Std.TreeMap.getElem?_insert_self,
        PlainAccounts.perform, Function.update_self]
      exact .dead
  | touch a =>
      cases hs
      exact (add_zero (done.map (·.movement a)).sum).symm ▸ h.stands a

/-- **One operation** keeps an overlay in line with a plain map. -/
lemma perform (h : s.Follows rules w m done) (hin : m.InRange)
    (hin' : (m.perform rules op).InRange) (ht : log.Tells w) (hs : s.perform log op = .ok s') :
    s'.Follows rules w (m.perform rules op) (done ++ [op]) where
  rules_eq := (perform_changesOnly hs).rules_eq.trans h.rules_eq
  stands a := by
    rw [List.map_append, List.sum_append, List.map_singleton, List.sum_singleton]
    by_cases ha : a = op.address
    · subst ha
      exact h.perform_self hin hin' ht hs
    · rw [(perform_changesOnly hs).others a ha, PlainAccounts.perform_of_ne ha,
        AccountOp.movement_of_ne ha, add_zero]
      exact h.stands a

/-- **Any operations** keep an overlay in line with a plain map that starts from the world. -/
lemma performAll {steps : List (CommitLog × AccountOp)}
    (hrun : Overlay.performAll rules steps = (s, done)) (htells : ∀ step ∈ steps, step.1.Tells w)
    (hrange : ∀ first, first <+: done → (w.plain.performAll rules first).InRange) :
    s.Follows rules w (w.plain.performAll rules done) done := by
  -- on the last operation, which was carried out or was not
  induction steps using List.reverseRecOn generalizing s done with
  | nil =>
      cases hrun
      exact .empty rules w
  | append_singleton steps step ih =>
      rcases hbefore : Overlay.performAll rules steps with ⟨before, earlier⟩
      rw [performAll_concat, hbefore] at hrun
      have htold : ∀ step ∈ steps, step.1.Tells w :=
        fun step hmem => htells step (List.mem_append_left _ hmem)
      dsimp only at hrun
      split at hrun
      · rename_i next hnext
        cases hrun
        have hfollows := ih hbefore htold fun first hfirst =>
          hrange first (hfirst.trans (List.prefix_append _ _))
        have hlast : w.plain.performAll rules (earlier ++ [step.2]) =
            (w.plain.performAll rules earlier).perform rules step.2 := by
          simp [PlainAccounts.performAll]
        have hin' := hrange _ List.prefix_rfl
        rw [hlast] at hin' ⊢
        exact hfollows.perform (hrange earlier (List.prefix_append _ _)) hin'
          (htells step (List.mem_append_right _ (List.mem_singleton_self step))) hnext
      · exact ih (hbefore.trans hrun) htold hrange

end Follows

/-- **What is read of an account is what a plain map has,** wherever a read gives a result. -/
structure ReadsAs (s : Overlay) (rules : AccountRules) (log : CommitLog) (a : Address)
    (held : Option PlainAccount) : Prop where
  accountExists : ∀ {there}, s.accountExists a log = .ok there → there = held.isSome
  nonce : ∀ {nonce}, s.nonce a log = .ok nonce → nonce = (held.getD (.fresh rules)).nonce
  balance : ∀ {balance}, s.balance a log = .ok balance →
    (balance.toNat : ℤ) = (held.getD (.fresh rules)).balance
  code : ∀ {code}, s.code a log = .ok code → code = (held.getD (.fresh rules)).code
  storage : ∀ {index value}, s.storage a index log = .ok value →
    value = (held.getD (.fresh rules)).slots index

lemma Follows.readsAs (h : s.Follows rules w m done) (hin : m.InRange) (ht : log.Tells w)
    (a : Address) : s.ReadsAs rules log a (m a) := by
  have hshows := s.shows_view ht a
  have hmirrors := h.mirrors hin a
  exact ⟨fun hread => (hshows.present hread).trans hmirrors.present,
    fun hread => (hshows.nonce hread).trans hmirrors.nonce,
    fun hread => hshows.balance hread ▸ hmirrors.balance,
    fun hread => (hshows.code hread).trans hmirrors.code,
    fun hread => (hshows.storage hread).trans (congrFun hmirrors.slots _)⟩

/-- **A difference is the sum of all movements of a balance.** -/
lemma Follows.signed_eq_sum (h : s.Follows rules w m done) {shift : BalanceShift}
    (he : s.entries[a]? = some (.shifted shift)) :
    shift.signed = (done.map (·.movement a)).sum := by
  have hstands := h.stands a
  generalize (done.map (·.movement a)).sum = moved at hstands
  generalize m a = held at hstands
  rw [he] at hstands
  cases hstands
  rfl

end Overlay

end

open Overlay in
/-- **An overlay is a plain map.**  Let operations be carried out one after another on an overlay
    that started empty, each under a log of the data of a world, of which more may be told
    meanwhile, and let no balance leave what a word can hold.  Every read that gives a result then
    gives what the same operations make of the accounts of that world.  A difference of a balance
    is the exact sum of the movements of that balance, and once the account is told, making it an
    account changes no read of any account.  One more operation, whatever it is, changes no read
    of an account that it is not about; and if it is not carried out, it asks for the account that
    it is about, and all stays as it is. -/
theorem overlay_is_a_plain_map (rules : AccountRules) (w : World)
    (steps : List (CommitLog × AccountOp)) (s : Overlay) (done : List AccountOp)
    (hrun : performAll rules steps = (s, done)) (htells : ∀ step ∈ steps, step.1.Tells w)
    (hrange : ∀ first, first <+: done → (w.plain.performAll rules first).InRange) :
    (∀ log : CommitLog, log.Tells w → ∀ a,
      s.ReadsAs rules log a (w.plain.performAll rules done a)) ∧
    (∀ (a : Address) (shift : BalanceShift), s.entries[a]? = some (.shifted shift) →
      shift.signed = (done.map (·.movement a)).sum ∧
      ∀ log : CommitLog, log.Tells w → log.Answers (.account a) →
        ∃ account, s.live a log = .ok account ∧
          ∀ b, ({ s with entries := s.entries.insert a (.live account) } : Overlay).SameReads
            s log b) ∧
    (∀ (log : CommitLog) (op : AccountOp) (next : Overlay), s.perform log op = .ok next →
      performAll rules (steps ++ [(log, op)]) = (next, done ++ [op]) ∧
      ∀ b, b ≠ op.address → ∀ later : CommitLog, next.SameReads s later b) ∧
    (∀ (log : CommitLog) (op : AccountOp) (r : Requirement), s.perform log op = .error r →
      performAll rules (steps ++ [(log, op)]) = (s, done) ∧
      r = .account op.address ∧ ¬ s.Knows op.address log) := by
  have hfollows : s.Follows rules w (w.plain.performAll rules done) done :=
    .performAll hrun htells hrange
  refine ⟨fun log ht a => hfollows.readsAs (hrange done List.prefix_rfl) ht a,
    fun a shift he => ⟨hfollows.signed_eq_sum he, fun log ht hknown => ?_⟩,
    fun log op next hs => ⟨?_, fun b hb later => ?_⟩, fun log op r hs => ⟨?_, perform_error hs⟩⟩
  · obtain ⟨account, hl⟩ : s.Knows a log := knows_iff.mpr (.inr (.inr hknown))
    exact ⟨account, hl, live_sameReads ht he hl⟩
  · rw [performAll_concat, hrun]
    simp only [hs]
  · obtain ⟨hrules, hothers⟩ := perform_changesOnly hs
    exact sameReads_of_entry hrules (hothers b hb)
  · rw [performAll_concat, hrun]
    simp only [hs]

/-! ## A payee that is told late -/

lemma World.plain_inRange (w : World) : w.plain.InRange := by
  intro a p h
  have hbalance := (w.view_mirrors .mainnet a).balance
  rw [h, Option.getD_some] at hbalance
  have := (w.view .mainnet a).balance.isLt
  omega

lemma PlainAccounts.InRange.move {rules : AccountRules} {m : PlainAccounts} {a : Address}
    {amount : ℤ} (h : m.InRange) (hnonneg : 0 ≤ ((m a).getD (.fresh rules)).balance + amount)
    (hlt : ((m a).getD (.fresh rules)).balance + amount < 2 ^ 256) :
    (m.move rules a amount).InRange := by
  intro b p hb
  by_cases hab : b = a
  · subst hab
    rw [PlainAccounts.move] at hb
    split at hb
    · exact h b p hb
    · rw [PlainAccounts.update, Function.update_self] at hb
      cases hb
      exact ⟨hnonneg, hlt⟩
  · rw [PlainAccounts.move_of_ne hab] at hb
    exact h b p hb

/-- A world with one account, which has ten. -/
def payeeWorld : World :=
  { accounts := (∅ : Std.TreeMap Address WorldAccount).insert 100 { balance := 10 } }

/-- A log that was told of it. -/
def payeeLog : CommitLog :=
  { accounts := (∅ : Std.TreeMap Address CommittedAccount).insert 100 (payeeWorld.account 100) }

/-- It is paid five and charged two before anyone has told of it, and paid one after. -/
def payeeSteps : List (CommitLog × AccountOp) :=
  [({}, .increaseBalance 100 5), ({}, .decreaseBalance 100 2), (payeeLog, .increaseBalance 100 1)]

lemma payeeLog_tells : payeeLog.Tells payeeWorld :=
  (CommitLog.Tells.empty.withAccount (by rfl)).1

/-- It ends up with fourteen, as it does on a plain map. -/
theorem payee_reads : ∃ s, Overlay.performAll .mainnet payeeSteps = (s, payeeSteps.map Prod.snd) ∧
    s.balance 100 payeeLog = .ok 14 ∧
    s.ReadsAs .mainnet payeeLog 100
      (payeeWorld.plain.performAll .mainnet (payeeSteps.map Prod.snd) 100) := by
  have htells : ∀ step ∈ payeeSteps, step.1.Tells payeeWorld := by
    intro step hstep
    simp only [payeeSteps, List.mem_cons, List.not_mem_nil, or_false] at hstep
    obtain rfl | rfl | rfl := hstep
    · exact .empty
    · exact .empty
    · exact payeeLog_tells
  refine ⟨_, rfl, by rfl, (overlay_is_a_plain_map .mainnet payeeWorld payeeSteps _
    (payeeSteps.map Prod.snd) rfl htells ?_).1 payeeLog payeeLog_tells 100⟩
  have hpaid : (payeeWorld.plain.move .mainnet 100 5).InRange :=
    payeeWorld.plain_inRange.move (by decide +kernel) (by decide +kernel)
  have hcharged : ((payeeWorld.plain.move .mainnet 100 5).move .mainnet 100 (-2)).InRange :=
    hpaid.move (by decide +kernel) (by decide +kernel)
  have hpaidAgain : (((payeeWorld.plain.move .mainnet 100 5).move .mainnet 100 (-2)).move
      .mainnet 100 1).InRange :=
    hcharged.move (by decide +kernel) (by decide +kernel)
  intro first hfirst
  rw [← List.mem_inits] at hfirst
  simp only [payeeSteps, List.inits, List.map_cons, List.map_nil, List.mem_cons,
    List.not_mem_nil, or_false] at hfirst
  obtain rfl | rfl | rfl | rfl := hfirst
  · exact payeeWorld.plain_inRange
  · exact hpaid
  · exact hcharged
  · exact hpaidAgain

end ResumableEvm
