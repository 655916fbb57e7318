import ResumableEvm.CommitLog

/-!
# Changes and log entries

What an execution leaves behind: log entries in the order they were made, and for each account
that it changed one change that the host applies to its own state.

* `LogEntry` — an address, topics and data.
* `AccountChange` — replace, create, move a balance, or remove.
* `copyInto`, `copyEachInto`, `copyOut` — output copied into a buffer of the host's.
-/

namespace ResumableEvm

/-- An entry that a contract wrote to the log. -/
structure LogEntry where
  address : Address
  topics : List Hash
  data : Bytes
  deriving DecidableEq

/-- An account as a whole. -/
structure AccountRecord where
  nonce : Word
  address : Address
  balance : Word
  /-- Slots by their index. -/
  storage : SlotMap
  code : Bytes

/-- What happened to an account. -/
inductive AccountChange where
  /-- Nonce, balance and code are replaced, and the given slots; others stay. -/
  | full (account : AccountRecord)
  /-- The account is replaced as a whole; other slots are zero. -/
  | create (account : AccountRecord)
  | increaseBalance (address : Address) (value : Word)
  | decreaseBalance (address : Address) (value : Word)
  | removed (address : Address)

namespace AccountChange

def address : AccountChange → Address
  | .full r | .create r => r.address
  | .increaseBalance a _ | .decreaseBalance a _ | .removed a => a

/-- The slots that come with a change, if any do. -/
def storage? : AccountChange → Option SlotMap
  | .full r | .create r => some r.storage
  | _ => none

/-- The code that comes with a change, if any does. -/
def code? : AccountChange → Option Bytes
  | .full r | .create r => some r.code
  | _ => none

end AccountChange

/-! ## Copying into buffers -/

/-- Why output is not copied. -/
inductive CopyError where
  /-- There is no output yet. -/
  | notExited
  /-- There is no such entry. -/
  | notFound
  /-- The buffer does not hold all of it. -/
  | bufferTooSmall (required provided : Nat)
  deriving DecidableEq, Repr

namespace CopyError

def name : CopyError → String
  | .notExited => "NotExited"
  | .notFound => "NotFound"
  | .bufferTooSmall _ _ => "BufferTooSmall"

def text : CopyError → String
  | .bufferTooSmall required provided =>
    "BufferTooSmall \x7b required: " ++ toString required ++ ", provided: " ++ toString provided
      ++ " \x7d"
  | e => e.name

def message : CopyError → String
  | .notExited => "vm has not exited"
  | .notFound => "no such output entry"
  | .bufferTooSmall required provided =>
    s!"buffer too small: {required} bytes required, {provided} provided"

end CopyError

/-- **Copying.**  The values go to the front of the buffer, the rest of which stays.  A buffer
    too small for all of them is refused. -/
def copyInto {α : Type} (values buffer : List α) : Except CopyError (List α) :=
  if buffer.length < values.length then .error (.bufferTooSmall values.length buffer.length)
  else .ok (values ++ buffer.drop values.length)

/-- Values written one by one over the front of a buffer, for as long as both last. -/
def fillFront {α : Type} : (values buffer : List α) → List α
  | v :: values, _ :: buffer => v :: fillFront values buffer
  | _, buffer => buffer

/-- **Copying one by one,** under the same condition. -/
def copyEachInto {α : Type} (values buffer : List α) : Except CopyError (List α) :=
  if buffer.length < values.length then .error (.bufferTooSmall values.length buffer.length)
  else .ok (fillFront values buffer)

/-- Copies output, if it is there: the buffer afterwards, and how many values were copied. -/
def copyOut {α : Type} (copy : (values buffer : List α) → Except CopyError (List α))
    (values : Except CopyError (List α)) (buffer : List α) : List α × Except CopyError Nat :=
  match values.bind fun values => (copy values buffer).map (values.length, ·) with
  | .ok (count, filled) => (filled, .ok count)
  | .error e => (buffer, .error e)

end ResumableEvm
