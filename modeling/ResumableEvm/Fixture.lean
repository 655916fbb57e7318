import ResumableEvm.Report
import ResumableEvm.Text.Blank
import ResumableEvm.Text.Quoted

/-!
# Fixtures

A fixture is a document that holds everything one execution needs: the rules, a transaction,
the header of its block and the state that a host would own.  The bytes in it are hexadecimal
text, which is looked at only when it is needed.

* `Fixture`, `Fixture.ofDocument?` — reading one.
* `Fixture.ruleset` — the rules it asks for.
* `Fixture.reply` — its answer to a requirement.
* `Fixture.run` — the report of its execution.
-/

namespace ResumableEvm

/-! ## Reading -/

/-- The transaction of a fixture. -/
structure FixtureTransaction where
  caller : Address
  gasPrice : Word
  gasLimit : Word
  /-- The account to call; without one, an account is created. -/
  target : Option Address
  value : Word
  /-- The input, as hexadecimal text. -/
  input : String
  nonce : Word

/-- An account of a fixture. -/
structure FixtureAccount where
  nonce : Word
  balance : Word
  /-- The code, as hexadecimal text. -/
  code : String
  storage : SlotMap

/-- Everything one execution needs. -/
structure Fixture where
  /-- The name of the rules. -/
  rulesetName : String
  /-- Rules of its own, which go before those named. -/
  customRules : Option Rules
  transaction : FixtureTransaction
  block : Header
  accounts : Std.TreeMap Address FixtureAccount
  blockHashes : Std.TreeMap Word Hash

def FixtureTransaction.ofDocument? (d : Dialect) (doc : Document) : Option FixtureTransaction :=
  doc.record? true do
    return {
      caller := ← Codec.address.field d "caller"
      gasPrice := ← Codec.word.fieldD d "gas_price" 0
      gasLimit := ← Codec.word.field d "gas_limit"
      target := ← Codec.address.option.fieldD d "to" none
      value := ← Codec.word.fieldD d "value" 0
      input := ← Codec.text.fieldD d "input" ""
      nonce := ← Codec.word.fieldD d "nonce" 0 }

def FixtureAccount.ofDocument? (d : Dialect) (doc : Document) : Option FixtureAccount :=
  doc.record? true do
    return {
      nonce := ← Codec.word.fieldD d "nonce" 0
      balance := ← Codec.word.fieldD d "balance" 0
      code := ← Codec.text.fieldD d "code" ""
      storage := ← SlotMap.codec.fieldD d "storage" ∅ }

namespace Fixture

/-- Reads a fixture.  Fields that a fixture, its transaction or its accounts do not have are
    refused. -/
def ofDocument? (doc : Document) : Option Fixture :=
  let d := Dialect.lenient
  let transaction : Codec FixtureTransaction := ⟨FixtureTransaction.ofDocument?, fun _ => .null⟩
  let account : Codec FixtureAccount := ⟨FixtureAccount.ofDocument?, fun _ => .null⟩
  doc.record? true do
    return {
      rulesetName := ← Codec.text.fieldD d "patch" "byzantium"
      customRules := ← Rules.codec.option.fieldD d "custom_patch" none
      transaction := ← transaction.field d "transaction"
      block := ← Header.codec.fieldD d "block" {}
      accounts := ← (Codec.map Codec.addressOfText? Address.toHex account).fieldD d "accounts" ∅
      blockHashes := ← (Codec.map Codec.wordOfText? Word.toHex .hash).fieldD d "blockhashes" ∅ }

end Fixture

/-! ## Running -/

/-- Why there is no report. -/
inductive FixtureError where
  /-- The fixture cannot be read. -/
  | unreadable
  /-- There are no rules of that name. -/
  | unknownRuleset (name : String)
  | invalidRules (e : RulesetError)
  /-- The input of the transaction is not hexadecimal. -/
  | badInput
  /-- The code of an account that was asked for is not hexadecimal. -/
  | badCode (digits : String)
  | refused (r : Requirement) (e : CommitError)
  /-- The execution has no outcome. -/
  | fault (f : Fault)
  deriving DecidableEq, Repr

def FixtureError.message : FixtureError → String
  | .unreadable => "parsing fixture"
  | .unknownRuleset name => "unknown patch " ++ quoted name
  | .invalidRules e => "invalid custom patch: " ++ e.message
  | .badInput => "transaction input"
  | .badCode digits => "invalid hex " ++ quoted digits
  | .refused r e => s!"commit for {r.text} rejected: {e.message}"
  | .fault f => f.message

/-- The digits of hexadecimal text: without blanks around it and one `0x` in front. -/
def hexTextDigits (s : String) : List Char := dropHexLead (trimBlanks s.toList)

def FixtureAccount.codeBytes (account : FixtureAccount) : Except FixtureError Bytes :=
  let digits := hexTextDigits account.code
  match hexBytes? digits with
  | some code => .ok code
  | none => .error (.badCode (String.ofList digits))

def FixtureTransaction.toTransaction (t : FixtureTransaction) : Except FixtureError Transaction :=
  match hexBytes? (hexTextDigits t.input) with
  | some input =>
    .ok { caller := t.caller, gasPrice := ⟨t.gasPrice⟩, gasLimit := ⟨t.gasLimit⟩,
          action := t.target.elim .create .call, value := t.value, input := input,
          nonce := t.nonce }
  | none => .error .badInput

namespace Fixture

/-- **The rules of a fixture:** its own, which are checked against all contracts, or else those
    of a fork. -/
def ruleset (f : Fixture) (name : String) : Except FixtureError Ruleset :=
  match f.customRules with
  | some rules => (Ruleset.check rules rules.accounts .byzantium).mapError .invalidRules
  | none =>
    match Ruleset.named? name with
    | some ruleset => .ok ruleset
    | none => .error (.unknownRuleset name)

/-- **The answer to a requirement.**  Accounts that are not listed do not exist; slots and block
    hashes that are not listed are zero. -/
def reply (f : Fixture) : Requirement → Except FixtureError Answer
  | .account a =>
    match f.accounts[a]? with
    | some account => account.codeBytes.map fun code =>
        .account (.full a account.nonce account.balance code)
    | none => .ok (.account (.nonexistent a))
  | .code a =>
    match f.accounts[a]? with
    | some account => account.codeBytes.map fun code => .account (.code a code)
    | none => .ok (.account (.nonexistent a))
  | .storage a index =>
    let value := (f.accounts[a]?.bind (·.storage[index]?)).getD 0
    .ok (.account (.storage a index value))
  | .blockHash number => .ok (.blockHash number (f.blockHashes.getD number 0))

/-- Steps, and answers what is asked for, until the engine ends; at most `fuel` times. -/
def drive (f : Fixture) : (fuel : Nat) → Engine → Except FixtureError Engine
  | 0, e => .ok e
  | fuel + 1, e =>
    if e.isExited then .ok e
    else
      match e.pending with
      | some r =>
        match f.reply r with
        | .error x => .error x
        | .ok answer =>
          match e.tell answer with
          | .ok e => drive f fuel e
          | .error x => .error (.refused r x)
      | none =>
        match e.step with
        | .ok e => drive f fuel e
        | .error x => .error (.fault x)

/-- More steps than any execution that gas can pay for takes in practice. -/
def stepLimit : Nat := 0x1000000000000

/-- **The report of a fixture,** under the rules named, or those that it names itself. -/
def run (f : Fixture) (name : Option String) : Except FixtureError Report := do
  let ruleset ← f.ruleset (name.getD f.rulesetName)
  let transaction ← f.transaction.toTransaction
  let engine ← f.drive stepLimit (Engine.create ruleset transaction f.block)
  return Report.ofEngine engine

def report (doc : Document) (name : Option String) : Except FixtureError Report :=
  match ofDocument? doc with
  | some f => f.run name
  | none => .error .unreadable

end Fixture

end ResumableEvm
