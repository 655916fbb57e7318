import ResumableEvm.Requirement
import Std.Data.TreeMap
import Std.Data.TreeSet

/-!
# The commit log

What the host has told the machine so far.  Each datum is told once: a second commitment of
the same thing is refused, and so is one that contradicts code already told.  Reading a datum
that nobody told raises the requirement for it.

* `Commitment` — an account, its code, one of its slots, or that it does not exist.
* `Commitment.satisfies` — whether a commitment answers a requirement.
* `CommitLog.commit`, `CommitLog.commitBlockHash` — telling.
* `CommitLog.account`, `CommitLog.code`, `CommitLog.storage`, `CommitLog.blockHash` — asking.
-/

namespace ResumableEvm

/-- Storage slots by their index. -/
abbrev SlotMap := Std.TreeMap Word Word

/-- Something the host tells about an account. -/
inductive Commitment where
  | full (address : Address) (nonce balance : Word) (code : Bytes)
  | code (address : Address) (code : Bytes)
  | storage (address : Address) (index value : Word)
  /-- There is no such account. -/
  | nonexistent (address : Address)
  deriving DecidableEq

/-- Why a commitment is refused. -/
inductive CommitError where
  /-- It does not answer the outstanding requirement. -/
  | invalidCommitment
  /-- It tells something already told. -/
  | alreadyCommitted
  deriving DecidableEq, Repr

def CommitError.name : CommitError → String
  | .invalidCommitment => "InvalidCommitment"
  | .alreadyCommitted => "AlreadyCommitted"

def CommitError.message : CommitError → String
  | .invalidCommitment => "commitment does not match the outstanding requirement"
  | .alreadyCommitted => "value has already been committed"

namespace Commitment

def address : Commitment → Address
  | .full a _ _ _ | .code a _ | .storage a _ _ | .nonexistent a => a

/-- Whether the commitment answers a requirement.  Knowing the account, or that there is none,
    answers a question for its code as well. -/
def satisfies : Commitment → Requirement → Bool
  | .full a _ _ _, .account b | .full a _ _ _, .code b
  | .nonexistent a, .account b | .nonexistent a, .code b
  | .code a _, .code b => a = b
  | .storage a i _, .storage b j => a = b ∧ i = j
  | _, _ => false

end Commitment

/-- What is known of an account: all but its storage, or that it does not exist. -/
inductive CommittedAccount where
  | full (nonce balance : Word) (code : Bytes)
  | nonexistent
  deriving DecidableEq

/-- Everything told so far. -/
structure CommitLog where
  accounts : Std.TreeMap Address CommittedAccount := ∅
  /-- Code told on its own. -/
  codes : Std.TreeMap Address Bytes := ∅
  slots : Std.TreeMap Address SlotMap := ∅
  blockHashes : Std.TreeMap Word Hash := ∅

namespace CommitLog

/-! ## Telling -/

/-- The slot of an account, if it was told. -/
def slot? (log : CommitLog) (a : Address) (index : Word) : Option Word :=
  log.slots[a]?.bind (·[index]?)

/-- Whether what a commitment tells was told before.  A known account includes its code. -/
def contains (log : CommitLog) : Commitment → Bool
  | .full a _ _ _ | .nonexistent a => log.accounts.contains a
  | .code a _ => log.accounts.contains a || log.codes.contains a
  | .storage a index _ => (log.slot? a index).isSome

/-- Whether code told on its own differs from the code an account would come with. -/
def contradicts (log : CommitLog) (a : Address) (code : Bytes) : Bool :=
  match log.codes[a]? with
  | some known => known ≠ code
  | none => false

/-- **Telling.**  Adds what a commitment tells.  Nothing is told twice, an account comes with
    the code told before, and slots belong to an account known to exist. -/
def commit (log : CommitLog) (c : Commitment) : Except CommitError CommitLog :=
  if log.contains c then .error .alreadyCommitted
  else
    match c with
    | .full a nonce balance code =>
      if log.contradicts a code then .error .alreadyCommitted
      else .ok { log with accounts := log.accounts.insert a (.full nonce balance code) }
    | .code a code => .ok { log with codes := log.codes.insert a code }
    | .storage a index value =>
      match log.accounts[a]? with
      | some (.full _ _ _) =>
        .ok { log with slots := log.slots.insert a ((log.slots.getD a ∅).insert index value) }
      | _ => .error .invalidCommitment
    | .nonexistent a =>
      if log.contradicts a ByteArray.empty then .error .alreadyCommitted
      else .ok { log with accounts := log.accounts.insert a .nonexistent }

/-- Tells the hash of a block, once. -/
def commitBlockHash (log : CommitLog) (number : Word) (hash : Hash) :
    Except CommitError CommitLog :=
  if log.blockHashes.contains number then .error .alreadyCommitted
  else .ok { log with blockHashes := log.blockHashes.insert number hash }

/-! ## Asking -/

def account (log : CommitLog) (a : Address) : Except Requirement CommittedAccount :=
  match log.accounts[a]? with
  | some known => .ok known
  | none => .error (.account a)

def knows (log : CommitLog) (a : Address) : Bool := log.accounts.contains a

/-- Whether there is an account at an address. -/
def accountExists (log : CommitLog) (a : Address) : Except Requirement Bool :=
  (log.account a).map fun
    | .full _ _ _ => true
    | .nonexistent => false

/-- The nonce of an account, if there is one. -/
def nonce? (log : CommitLog) (a : Address) : Except Requirement (Option Word) :=
  (log.account a).map fun
    | .full nonce _ _ => some nonce
    | .nonexistent => none

/-- The balance of an account, zero if there is none. -/
def balance (log : CommitLog) (a : Address) : Except Requirement Word :=
  (log.account a).map fun
    | .full _ balance _ => balance
    | .nonexistent => 0

/-- The code at an address, told on its own or with the account. -/
def code (log : CommitLog) (a : Address) : Except Requirement Bytes :=
  match log.codes[a]? with
  | some code => .ok code
  | none =>
    match log.accounts[a]? with
    | some (.full _ _ code) => .ok code
    | some .nonexistent => .ok ByteArray.empty
    | none => .error (.code a)

/-- A slot of an account, zero if there is no account. -/
def storage (log : CommitLog) (a : Address) (index : Word) : Except Requirement Word := do
  match ← log.account a with
  | .nonexistent => return 0
  | .full _ _ _ =>
    match log.slot? a index with
    | some value => return value
    | none => throw (.storage a index)

def blockHash (log : CommitLog) (number : Word) : Except Requirement Hash :=
  match log.blockHashes[number]? with
  | some hash => .ok hash
  | none => .error (.blockHash number)

end CommitLog

end ResumableEvm
