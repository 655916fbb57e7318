import ResumableEvm.AccountChange
import ResumableEvm.Ruleset

/-!
# Accounts in flight

The changes that one frame has made so far, laid over the commit log.  A read looks at the
changes first, then at the log, and raises a requirement when neither knows.  Every frame
works on its own overlay, which replaces its parent's only if the frame succeeds.

An account that was never told can still be paid: where the rules allow it, the payment is
kept as a difference until the account becomes known.

* `BalanceShift` — a difference of a balance.
* `AccountEntry` — what an overlay holds for an account.
* `Overlay` — the changes, with reads and writes.
* `Overlay.changes` — the differences from the log, by ascending address.
-/

namespace ResumableEvm

/-! ## Differences of balances -/

/-- By how much a balance that is not known has changed. -/
inductive BalanceShift where
  | up (value : Word)
  | down (value : Word)
  deriving DecidableEq, Repr

/-- The sum of two words, stopping at the largest. -/
def Word.addSat (a b : Word) : Word := (Gas.mk a + Gas.mk b).toWord

/-- The difference of two words, stopping at zero. -/
def Word.subSat (a b : Word) : Word := (Gas.mk a - Gas.mk b).toWord

namespace BalanceShift

def increase : BalanceShift → Word → BalanceShift
  | .up current, value => .up (current.addSat value)
  | .down current, value =>
    if value < current then .down (current - value) else .up (value - current)

def decrease : BalanceShift → Word → BalanceShift
  | .down current, value => .down (current.addSat value)
  | .up current, value => if value ≤ current then .up (current - value) else .down (value - current)

def apply : BalanceShift → Word → Word
  | .up value, balance => balance.addSat value
  | .down value, balance => balance.subSat value

end BalanceShift

/-! ## Entries -/

/-- An account whose current state the overlay holds. -/
structure LiveAccount where
  nonce : Word
  balance : Word
  code : Bytes
  /-- The slots written. -/
  storage : SlotMap
  /-- Whether slots that were not written are zero rather than those of the log. -/
  reset : Bool

/-- What an overlay holds for an account. -/
inductive AccountEntry where
  /-- A difference of its balance alone. -/
  | shifted (shift : BalanceShift)
  | live (account : LiveAccount)
  /-- The account has been removed. -/
  | dead

/-- The changes that a frame has made so far. -/
structure Overlay where
  rules : AccountRules
  entries : Std.TreeMap Address AccountEntry
  /-- The accounts that took part in a call, a creation or a self-destruction. -/
  touched : Std.TreeSet Address

namespace Overlay

def empty (rules : AccountRules) : Overlay := ⟨rules, ∅, ∅⟩

/-! ## Reading -/

/-- Makes sure that the account is known. -/
def require (s : Overlay) (a : Address) (log : CommitLog) : Except Requirement Unit :=
  match s.entries[a]? with
  | some (.live _) | some .dead => .ok ()
  | _ => (log.account a).map fun _ => ()

/-- Whether there is an account at an address. -/
def accountExists (s : Overlay) (a : Address) (log : CommitLog) : Except Requirement Bool :=
  match s.entries[a]? with
  | some (.live _) | some (.shifted _) => .ok true
  | some .dead => .ok false
  | none => log.accountExists a

def balance (s : Overlay) (a : Address) (log : CommitLog) : Except Requirement Word :=
  match s.entries[a]? with
  | some (.live account) => .ok account.balance
  | some .dead => .ok 0
  | some (.shifted shift) => (log.balance a).map shift.apply
  | none => log.balance a

def nonce (s : Overlay) (a : Address) (log : CommitLog) : Except Requirement Word :=
  match s.entries[a]? with
  | some (.live account) => .ok account.nonce
  | some .dead => .ok s.rules.initialNonce
  | _ => (log.nonce? a).map (·.getD s.rules.initialNonce)

def code (s : Overlay) (a : Address) (log : CommitLog) : Except Requirement Bytes :=
  match s.entries[a]? with
  | some (.live account) => .ok account.code
  | some .dead => .ok ByteArray.empty
  | _ => log.code a

/-- Makes sure that the code of an account is known. -/
def requireCode (s : Overlay) (a : Address) (log : CommitLog) : Except Requirement Unit :=
  (s.code a log).map fun _ => ()

/-- Whether an account has its first nonce, no balance and no code, asked in that order. -/
def isEmpty (s : Overlay) (a : Address) (log : CommitLog) : Except Requirement Bool := do
  if (← s.nonce a log) = s.rules.initialNonce then
    if (← s.balance a log) = 0 then return (← s.code a log).isEmpty
    else return false
  else return false

/-- Whether an account is in use, so that none can be created in its place: it has code, or a
    nonce other than the first. -/
def isTaken (s : Overlay) (a : Address) (log : CommitLog) : Except Requirement Bool := do
  if (← s.code a log).isEmpty then return (← s.nonce a log) ≠ s.rules.initialNonce
  else return true

def storage (s : Overlay) (a : Address) (index : Word) (log : CommitLog) :
    Except Requirement Word :=
  match s.entries[a]? with
  | some (.live account) =>
    match account.storage[index]? with
    | some value => .ok value
    | none => if account.reset then .ok 0 else log.storage a index
  | some .dead => .ok 0
  | _ => log.storage a index

/-- The value of a slot before the transaction, zero for an account created in it. -/
def initialStorage (s : Overlay) (a : Address) (index : Word) (log : CommitLog) : Word :=
  let committed := (log.storage a index).toOption.getD 0
  match s.entries[a]? with
  | some (.live account) => if account.reset then 0 else committed
  | _ => committed

/-! ## Writing -/

def fresh (s : Overlay) : LiveAccount := ⟨s.rules.initialNonce, 0, ByteArray.empty, ∅, true⟩

/-- An account as the log has it. -/
def committed (s : Overlay) (a : Address) (log : CommitLog) : Except Requirement LiveAccount :=
  (log.account a).map fun
    | .full nonce balance code => ⟨nonce, balance, code, ∅, false⟩
    | .nonexistent => s.fresh

/-- **The current state of an account,** brought together from its entry and the log. -/
def live (s : Overlay) (a : Address) (log : CommitLog) : Except Requirement LiveAccount :=
  match s.entries[a]? with
  | some (.live account) => .ok account
  | some .dead => .ok s.fresh
  | some (.shifted shift) =>
    (s.committed a log).map fun account => { account with balance := shift.apply account.balance }
  | none => s.committed a log

/-- Changes the current state of an account. -/
def update (s : Overlay) (a : Address) (log : CommitLog) (f : LiveAccount → LiveAccount) :
    Except Requirement Overlay :=
  (s.live a log).map fun account => { s with entries := s.entries.insert a (.live (f account)) }

/-- Whether the state of an account is known. -/
def isCommitted (s : Overlay) (a : Address) (log : CommitLog) : Bool :=
  match s.entries[a]? with
  | some (.live _) | some .dead => true
  | _ => log.knows a

/-- **Moving a balance.**  A movement of zero does nothing.  Where the account is not known
    and the rules allow it, only the difference is kept. -/
def moveBalance (s : Overlay) (a : Address) (value : Word) (log : CommitLog)
    (first : Word → BalanceShift) (shift : BalanceShift → Word → BalanceShift)
    (change : Word → Word → Word) : Except Requirement Overlay :=
  if value = 0 then .ok s
  else if !s.isCommitted a log && s.rules.allowPartialChange then
    let next :=
      match s.entries[a]? with
      | some (.shifted current) => shift current value
      | _ => first value
    .ok { s with entries := s.entries.insert a (.shifted next) }
  else s.update a log fun account => { account with balance := change account.balance value }

/-- Adds to the balance of an account. -/
def increaseBalance (s : Overlay) (a : Address) (value : Word) (log : CommitLog) :
    Except Requirement Overlay :=
  s.moveBalance a value log .up BalanceShift.increase Word.addSat

/-- Takes from the balance of an account. -/
def decreaseBalance (s : Overlay) (a : Address) (value : Word) (log : CommitLog) :
    Except Requirement Overlay :=
  s.moveBalance a value log .down BalanceShift.decrease Word.subSat

def setNonce (s : Overlay) (a : Address) (nonce : Word) (log : CommitLog) :
    Except Requirement Overlay :=
  s.update a log ({ · with nonce := nonce })

def writeStorage (s : Overlay) (a : Address) (index value : Word) (log : CommitLog) :
    Except Requirement Overlay :=
  s.update a log fun account => { account with storage := account.storage.insert index value }

/-- Turns the account into one just created, which keeps its balance. -/
def create (s : Overlay) (a : Address) (log : CommitLog) : Except Requirement Overlay :=
  s.update a log fun account =>
    ⟨s.rules.createdNonce, account.balance, ByteArray.empty, ∅, true⟩

def depositCode (s : Overlay) (a : Address) (code : Bytes) (log : CommitLog) :
    Except Requirement Overlay :=
  s.update a log ({ · with code := code })

def remove (s : Overlay) (a : Address) : Overlay :=
  { s with entries := s.entries.insert a .dead }

def touch (s : Overlay) (a : Address) : Overlay := { s with touched := s.touched.insert a }

/-! ## Changes -/

/-- The change from one known balance to another. -/
def balanceChange? (a : Address) (before after : Word) : Option AccountChange :=
  if before < after then some (.increaseBalance a (after - before))
  else if after < before then some (.decreaseBalance a (before - after))
  else none

/-- The slots of a live account that differ from the log. -/
def changedSlots (a : Address) (account : LiveAccount) (log : CommitLog) : SlotMap :=
  account.storage.filter fun index value => (log.storage a index).toOption ≠ some value

/-- The change of an account that the overlay holds as a whole. -/
def liveChange? (a : Address) (account : LiveAccount) (log : CommitLog) : Option AccountChange :=
  match log.accounts[a]?, account.reset with
  | some (.full nonce balance code), false =>
    let slots := changedSlots a account log
    if account.nonce = nonce ∧ account.code = code ∧ slots.isEmpty then
      balanceChange? a balance account.balance
    else some (.full ⟨account.nonce, a, account.balance, slots, account.code⟩)
  | _, _ =>
    some (.create ⟨account.nonce, a, account.balance,
      account.storage.filter fun _ value => value ≠ 0, account.code⟩)

/-- The change of an account with the given entry. -/
def change? (a : Address) (entry : AccountEntry) (log : CommitLog) : Option AccountChange :=
  match entry with
  | .shifted (.up value) => if value = 0 then none else some (.increaseBalance a value)
  | .shifted (.down value) => if value = 0 then none else some (.decreaseBalance a value)
  | .dead =>
    match log.accounts[a]? with
    | some .nonexistent => none
    | _ => some (.removed a)
  | .live account => liveChange? a account log

/-- Every account's change from the log, by ascending address. -/
def changes (s : Overlay) (log : CommitLog) : List AccountChange :=
  s.entries.toList.filterMap fun (a, entry) => change? a entry log

end Overlay

end ResumableEvm
