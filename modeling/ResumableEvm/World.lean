import ResumableEvm.CommitLog

/-!
# Worlds

A world is everything a host may be asked about: accounts, with those not listed not existing,
and block hashes, with those not listed zero.  A world answers requirements.

* `World` — accounts and block hashes.
* `World.answer` — the answer to a requirement.
* `CommitLog.record` — an answer, told to a log.
-/

namespace ResumableEvm

/-- An account of a world. -/
structure WorldAccount where
  nonce : Word := 0
  balance : Word := 0
  code : Bytes := ByteArray.empty
  /-- Slots by their index; those not listed are zero. -/
  storage : SlotMap := ∅

/-- Everything a host may be asked about. -/
structure World where
  accounts : Std.TreeMap Address WorldAccount := ∅
  blockHashes : Std.TreeMap Word Hash := ∅

/-- What a host answers to a requirement. -/
inductive Answer where
  | account (c : Commitment)
  | blockHash (number : Word) (hash : Hash)
  deriving DecidableEq

namespace World

/-- The account as a whole, as a commitment. -/
def fullCommitment (a : Address) (account : WorldAccount) : Commitment :=
  .full a account.nonce account.balance account.code

/-- **The answer to a requirement.**  A question for code is answered by the code alone, or,
    with `fullCode`, by the whole account. -/
def answer (w : World) (fullCode : Bool) : Requirement → Answer
  | .account a =>
    match w.accounts[a]? with
    | some account => .account (fullCommitment a account)
    | none => .account (.nonexistent a)
  | .code a =>
    match w.accounts[a]? with
    | some account =>
      .account (if fullCode then fullCommitment a account else .code a account.code)
    | none => .account (.nonexistent a)
  | .storage a index =>
    let value := (w.accounts[a]?.bind (·.storage[index]?)).getD 0
    .account (.storage a index value)
  | .blockHash number => .blockHash number (w.blockHashes.getD number 0)

end World

def CommitLog.record (log : CommitLog) : Answer → Except CommitError CommitLog
  | .account c => log.commit c
  | .blockHash number hash => log.commitBlockHash number hash

end ResumableEvm
