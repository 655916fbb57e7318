import ResumableEvm.AccountChange
import ResumableEvm.Document.Codec
import ResumableEvm.Transaction

/-!
# Written forms

The codecs of everything that hosts write down: transactions, headers, rules, commitments,
requirements, log entries, changes and exit reasons.  Records are objects with all their
fields, cases are named, and unknown fields are passed over.

* `Transaction.codec`, `Header.codec`, `Rules.codec` — what an execution starts from.
* `Requirement.codec`, `Commitment.codec` — questions and answers.
* `LogEntry.codec`, `AccountChange.codec`, `ExitReason.codec` — what comes out.
-/

namespace ResumableEvm

/-- A case without a value, also written as a field with null. -/
def Document.isBare : Option Document → Bool
  | none | some .null => true
  | some _ => false

/-- Reads a case without a value by its name, among all there are. -/
def Document.named? {α : Type} (all : List α) (name : α → String) (doc : Document) : Option α :=
  match doc.variant? with
  | some (s, value) => if isBare value then all.find? (name · = s) else none
  | none => none

/-- Reads the record that a case carries, whose fields have to be named. -/
def Document.carriedRecord? {α : Type} (reader : FieldReader α) : Option Document → Option α
  | some (.object fields) => (Document.object fields).record? false reader
  | _ => none

def Document.case (name : String) (value : Document) : Document := .object [(name, value)]

def SlotMap.codec : Codec SlotMap := .map Codec.wordOfText? Word.toHex .word

/-! ## What an execution starts from -/

def Action.codec : Codec Action where
  read d doc := do
    match ← doc.variant? with
    | ("Call", value) => return .call (← Codec.address.carried d value)
    | ("Create", value) => if Document.isBare value then return .create else none
    | _ => none
  write
    | .call target => .case "Call" (Codec.address.write target)
    | .create => .text "Create"

def Transaction.codec : Codec Transaction where
  read d doc := doc.record? false do
    return {
      caller := ← Codec.address.field d "caller"
      gasPrice := ← Codec.gas.field d "gas_price"
      gasLimit := ← Codec.gas.field d "gas_limit"
      action := ← Action.codec.field d "action"
      value := ← Codec.word.field d "value"
      input := ← Codec.bytes.field d "input"
      nonce := ← Codec.word.field d "nonce" }
  write t := .object [
    ("caller", Codec.address.write t.caller),
    ("gas_price", Codec.gas.write t.gasPrice),
    ("gas_limit", Codec.gas.write t.gasLimit),
    ("action", Action.codec.write t.action),
    ("value", Codec.word.write t.value),
    ("input", Codec.bytes.write t.input),
    ("nonce", Codec.word.write t.nonce)]

def Header.codec : Codec Header where
  read d doc := doc.record? false do
    return {
      beneficiary := ← Codec.address.field d "beneficiary"
      timestamp := ← Codec.count.field d "timestamp"
      number := ← Codec.word.field d "number"
      difficulty := ← Codec.word.field d "difficulty"
      gasLimit := ← Codec.gas.field d "gas_limit" }
  write h := .object [
    ("beneficiary", Codec.address.write h.beneficiary),
    ("timestamp", Codec.count.write h.timestamp),
    ("number", Codec.word.write h.number),
    ("difficulty", Codec.word.write h.difficulty),
    ("gas_limit", Codec.gas.write h.gasLimit)]

def AccountRules.codec : Codec AccountRules where
  read d doc := doc.record? false do
    return {
      initialNonce := ← Codec.word.field d "initial_nonce"
      createdNonce := ← Codec.word.field d "initial_create_nonce"
      emptyExists := ← Codec.flag.field d "empty_considered_exists"
      allowPartialChange := ← Codec.flag.field d "allow_partial_change" }
  write r := .object [
    ("initial_nonce", Codec.word.write r.initialNonce),
    ("initial_create_nonce", Codec.word.write r.createdNonce),
    ("empty_considered_exists", .bool r.emptyExists),
    ("allow_partial_change", .bool r.allowPartialChange)]

def ContractFamily.codec : Codec ContractFamily where
  read _ doc := doc.named? [.etc, .byzantium] text
  write f := .text f.text

def Rules.codec : Codec Rules where
  read d doc := doc.record? false do
    return {
      codeDepositLimit := ← Codec.index.field d "code_deposit_limit"
      callStackLimit := ← Codec.index.field d "callstack_limit"
      gasExtCode := ← Codec.gas.field d "gas_extcode"
      gasBalance := ← Codec.gas.field d "gas_balance"
      gasSload := ← Codec.gas.field d "gas_sload"
      gasSuicide := ← Codec.gas.field d "gas_suicide"
      gasSuicideNewAccount := ← Codec.gas.field d "gas_suicide_new_account"
      gasCall := ← Codec.gas.field d "gas_call"
      gasExpByte := ← Codec.gas.field d "gas_expbyte"
      gasTransactionCreate := ← Codec.gas.field d "gas_transaction_create"
      forceCodeDeposit := ← Codec.flag.field d "force_code_deposit"
      hasDelegateCall := ← Codec.flag.field d "has_delegate_call"
      hasStaticCall := ← Codec.flag.field d "has_static_call"
      hasRevert := ← Codec.flag.field d "has_revert"
      hasReturnData := ← Codec.flag.field d "has_return_data"
      hasBitwiseShift := ← Codec.flag.field d "has_bitwise_shift"
      hasCreate2 := ← Codec.flag.field d "has_create2"
      hasExtCodeHash := ← Codec.flag.field d "has_extcodehash"
      hasNetStorageGas := ← Codec.flag.field d "has_reduced_sstore_gas_metering"
      failsOnExcessCallGas := ← Codec.flag.field d "err_on_call_with_more_gas"
      keeps64th := ← Codec.flag.field d "call_create_l64_after_gas"
      memoryLimit := ← Codec.index.field d "memory_limit"
      enabledContracts := ← (Codec.list .address).field d "enabled_contracts"
      accounts := ← AccountRules.codec.field d "account_patch" }
  write r := .object [
    ("code_deposit_limit", Codec.index.write r.codeDepositLimit),
    ("callstack_limit", Codec.index.write r.callStackLimit),
    ("gas_extcode", Codec.gas.write r.gasExtCode),
    ("gas_balance", Codec.gas.write r.gasBalance),
    ("gas_sload", Codec.gas.write r.gasSload),
    ("gas_suicide", Codec.gas.write r.gasSuicide),
    ("gas_suicide_new_account", Codec.gas.write r.gasSuicideNewAccount),
    ("gas_call", Codec.gas.write r.gasCall),
    ("gas_expbyte", Codec.gas.write r.gasExpByte),
    ("gas_transaction_create", Codec.gas.write r.gasTransactionCreate),
    ("force_code_deposit", .bool r.forceCodeDeposit),
    ("has_delegate_call", .bool r.hasDelegateCall),
    ("has_static_call", .bool r.hasStaticCall),
    ("has_revert", .bool r.hasRevert),
    ("has_return_data", .bool r.hasReturnData),
    ("has_bitwise_shift", .bool r.hasBitwiseShift),
    ("has_create2", .bool r.hasCreate2),
    ("has_extcodehash", .bool r.hasExtCodeHash),
    ("has_reduced_sstore_gas_metering", .bool r.hasNetStorageGas),
    ("err_on_call_with_more_gas", .bool r.failsOnExcessCallGas),
    ("call_create_l64_after_gas", .bool r.keeps64th),
    ("memory_limit", Codec.index.write r.memoryLimit),
    ("enabled_contracts", (Codec.list .address).write r.enabledContracts),
    ("account_patch", AccountRules.codec.write r.accounts)]

/-! ## Questions and answers -/

def addressWordCodec : Codec (Address × Word) := Codec.pair .address .word

def Requirement.codec : Codec Requirement where
  read d doc := do
    match ← doc.variant? with
    | ("Account", value) => return .account (← Codec.address.carried d value)
    | ("AccountCode", value) => return .code (← Codec.address.carried d value)
    | ("AccountStorage", value) =>
      let (a, index) ← addressWordCodec.carried d value
      return .storage a index
    | ("Blockhash", value) => return .blockHash (← Codec.word.carried d value)
    | _ => none
  write r := .case r.name (match r with
    | .account a | .code a => Codec.address.write a
    | .storage a index => addressWordCodec.write (a, index)
    | .blockHash number => Codec.word.write number)

def Commitment.codec : Codec Commitment where
  read d doc := do
    match ← doc.variant? with
    | ("Full", value) => Document.carriedRecord? (do
        let nonce ← Codec.word.field d "nonce"
        let a ← Codec.address.field d "address"
        return .full a nonce (← Codec.word.field d "balance") (← Codec.bytes.field d "code")) value
    | ("Code", value) => Document.carriedRecord? (do
        return .code (← Codec.address.field d "address") (← Codec.bytes.field d "code")) value
    | ("Storage", value) => Document.carriedRecord? (do
        return .storage (← Codec.address.field d "address") (← Codec.word.field d "index")
          (← Codec.word.field d "value")) value
    | ("Nonexist", value) => return .nonexistent (← Codec.address.carried d value)
    | _ => none
  write
    | .full a nonce balance b => .case "Full" (.object [("nonce", Codec.word.write nonce),
        ("address", Codec.address.write a), ("balance", Codec.word.write balance),
        ("code", Codec.bytes.write b)])
    | .code a b => .case "Code" (.object [("address", Codec.address.write a),
        ("code", Codec.bytes.write b)])
    | .storage a index value => .case "Storage" (.object [("address", Codec.address.write a),
        ("index", Codec.word.write index), ("value", Codec.word.write value)])
    | .nonexistent a => .case "Nonexist" (Codec.address.write a)

/-! ## What comes out -/

def LogEntry.codec : Codec LogEntry where
  read d doc := doc.record? false do
    return {
      address := ← Codec.address.field d "address"
      topics := ← (Codec.list .hash).field d "topics"
      data := ← Codec.bytes.field d "data" }
  write e := .object [
    ("address", Codec.address.write e.address),
    ("topics", (Codec.list .hash).write e.topics),
    ("data", Codec.bytes.write e.data)]

/-- Reads an account as a whole, with its slots under the given name. -/
def AccountRecord.reader (d : Dialect) (slots : String) : FieldReader AccountRecord := do
  return {
    nonce := ← Codec.word.field d "nonce"
    address := ← Codec.address.field d "address"
    balance := ← Codec.word.field d "balance"
    storage := ← SlotMap.codec.field d slots
    code := ← Codec.bytes.field d "code" }

/-- An account as a whole, with its slots under the given name. -/
def AccountRecord.toDocument (r : AccountRecord) (slots : String) : Document :=
  .object [
    ("nonce", Codec.word.write r.nonce),
    ("address", Codec.address.write r.address),
    ("balance", Codec.word.write r.balance),
    (slots, SlotMap.codec.write r.storage),
    ("code", Codec.bytes.write r.code)]

def AccountChange.codec : Codec AccountChange where
  read d doc := do
    match ← doc.variant? with
    | ("Full", value) =>
      return .full (← Document.carriedRecord? (AccountRecord.reader d "changing_storage") value)
    | ("Create", value) =>
      return .create (← Document.carriedRecord? (AccountRecord.reader d "storage") value)
    | ("IncreaseBalance", value) =>
      let (a, amount) ← addressWordCodec.carried d value
      return .increaseBalance a amount
    | ("DecreaseBalance", value) =>
      let (a, amount) ← addressWordCodec.carried d value
      return .decreaseBalance a amount
    | ("Removed", value) => return .removed (← Codec.address.carried d value)
    | _ => none
  write
    | .full r => .case "Full" (r.toDocument "changing_storage")
    | .create r => .case "Create" (r.toDocument "storage")
    | .increaseBalance a amount => .case "IncreaseBalance" (addressWordCodec.write (a, amount))
    | .decreaseBalance a amount => .case "DecreaseBalance" (addressWordCodec.write (a, amount))
    | .removed a => .case "Removed" (Codec.address.write a)

def Opcode.codec : Codec Opcode := Codec.byte.via Opcode.mk Opcode.byte

def ExitSucceed.codec : Codec ExitSucceed where
  read _ doc := doc.named? [.stopped, .returned, .suicided] text
  write s := .text s.text

/-- The ways to fail that carry nothing. -/
def ExitError.bare : List ExitError :=
  [.stackUnderflow, .stackOverflow, .invalidJump, .invalidRange, .designatedInvalid, .outOfGas,
    .callTooDeep, .outOfFund, .createCollision, .createContractLimit, .notStatic, .reverted]

def ExitError.codec : Codec ExitError where
  read d doc := do
    match ← doc.variant? with
    | ("InvalidCode", value) => return .invalidCode (← Opcode.codec.carried d value)
    | _ => doc.named? bare name
  write
    | .invalidCode op => .case "InvalidCode" (Opcode.codec.write op)
    | e => .text e.name

def ExitFatal.codec : Codec ExitFatal where
  read _ doc := doc.named? [.notSupported] text
  write f := .text f.text

def ExitReason.codec : Codec ExitReason where
  read d doc := do
    match ← doc.variant? with
    | ("Succeed", value) => return .succeed (← ExitSucceed.codec.carried d value)
    | ("Error", value) => return .error (← ExitError.codec.carried d value)
    | ("Fatal", value) => return .fatal (← ExitFatal.codec.carried d value)
    | _ => none
  write
    | .succeed s => .case "Succeed" (ExitSucceed.codec.write s)
    | .error e => .case "Error" (ExitError.codec.write e)
    | .fatal f => .case "Fatal" (ExitFatal.codec.write f)

end ResumableEvm
