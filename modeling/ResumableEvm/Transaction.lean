import ResumableEvm.Digest.Keccak
import ResumableEvm.Rlp
import ResumableEvm.Ruleset

/-!
# Transactions, headers and contexts

What an execution starts from: the transaction, the header of its block, and for every frame a
context that says on whose behalf which code runs.

* `Header`, `Transaction`, `Context`.
* `createAddress`, `saltedAddress` — where created accounts live.
* `Transaction.intrinsicGas`, `Transaction.preclaimed` — what is paid before anything runs.
-/

namespace ResumableEvm

/-- The block that an execution belongs to. -/
structure Header where
  beneficiary : Address := 0
  timestamp : Nat := 0
  number : Word := 0
  difficulty : Word := 0
  gasLimit : Gas := 0
  deriving DecidableEq, Repr

/-- On whose behalf which code runs. -/
structure Context where
  /-- The account that the code acts as. -/
  address : Address
  /-- The account that the code was taken from. -/
  codeAddress : Address
  caller : Address
  code : Bytes
  /-- The call data. -/
  data : Bytes
  gasLimit : Gas
  gasPrice : Gas
  /-- The account that sent the transaction. -/
  origin : Address
  /-- The value transferred. -/
  value : Word
  /-- The value that the code is told of. -/
  apparentValue : Word
  /-- Whether nothing may change. -/
  isStatic : Bool
  deriving DecidableEq

/-- What a transaction is for. -/
inductive Action where
  | call (target : Address)
  | create
  deriving DecidableEq, Repr

/-- A transaction. -/
structure Transaction where
  caller : Address
  gasPrice : Gas
  gasLimit : Gas
  action : Action
  value : Word
  /-- The call data, or the code that creates the account. -/
  input : Bytes
  nonce : Word
  deriving DecidableEq

/-! ## Addresses of created accounts -/

/-- What the address of an account created by nonce is a hash of. -/
def createPreimage (caller : Address) (nonce : Word) : Bytes :=
  Rlp.list [Rlp.string caller.toBytes, Rlp.number nonce.toNat]

/-- The address of the account that `caller` creates at a nonce. -/
def createAddress (caller : Address) (nonce : Word) : Address :=
  Address.ofHash (Word.ofBytes (Keccak.digest (createPreimage caller nonce)))

/-- What the address of an account created by salt is a hash of. -/
def saltedPreimage (caller : Address) (salt : Word) (codeHash : Bytes) : Bytes :=
  ((Bytes.ofNat 1 0xff ++ caller.toBytes) ++ salt.toBytes) ++ codeHash

/-- The address of the account that `caller` creates with a salt and some creation code. -/
def saltedAddress (caller : Address) (salt : Word) (code : Bytes) : Address :=
  Address.ofHash
    (Word.ofBytes (Keccak.digest (saltedPreimage caller salt (Keccak.digest code))))

/-! ## What is paid up front -/

namespace Transaction

/-- The gas for one byte of input. -/
def inputGas (x : UInt8) : Gas := if x = 0 then 4 else 68

/-- The gas before the first instruction: a base, a surcharge for a creation, and the input. -/
def intrinsicGas (t : Transaction) (rules : Rules) : Gas :=
  let base : Gas :=
    match t.action with
    | .create => 21000 + rules.gasTransactionCreate
    | .call _ => 21000
  t.input.data.foldl (fun gas x => gas + inputGas x) base

/-- The price of all gas the transaction may use. -/
def preclaimed (t : Transaction) : Word := (t.gasLimit * t.gasPrice).toWord

def address (t : Transaction) : Address :=
  match t.action with
  | .call target => target
  | .create => createAddress t.caller t.nonce

end Transaction

end ResumableEvm
