import ResumableEvm.Precompile

/-!
# Rulesets

What an opcode costs, and whether it exists, changed from one fork of the chain to the next.
A set of rules says which of it is in force.  `Rules` lists them field by field; a `Ruleset`
is such a list that has been checked and joined with the contracts it enables, and every
execution runs under one.

* `AccountRules` — what an account is on this chain.
* `Rules` — the fields, with the forks as values.
* `Ruleset.check` — from fields to a ruleset.
* `Ruleset.precompile?` — the enabled contract at an address.
-/

namespace ResumableEvm

/-! ## Accounts -/

/-- What an account is on a chain. -/
structure AccountRules where
  /-- The nonce of an account that nothing has happened to. -/
  initialNonce : Word
  /-- The nonce of an account that was just created. -/
  createdNonce : Word
  /-- Whether an empty account exists.  Where it does not, touched accounts that end up empty
      are removed. -/
  emptyExists : Bool
  /-- Whether the balance of an unknown account may be changed by a difference alone. -/
  allowPartialChange : Bool
  deriving DecidableEq, Repr

namespace AccountRules

def mainnet : AccountRules := ⟨0, 1, false, true⟩

/-- The rules of the first test chain, whose nonces start at `2 ^ 20`. -/
def morden : AccountRules := ⟨0x100000, 0x100001, false, true⟩

/-- The rules before empty accounts were cleared. -/
def frontier : AccountRules := ⟨0, 0, true, true⟩

end AccountRules

/-! ## Families of contracts -/

/-- A family of contracts to draw from. -/
inductive ContractFamily where
  | etc
  | byzantium
  deriving DecidableEq, Repr

namespace ContractFamily

def members : ContractFamily → List Precompile
  | .etc => [.ecRecover, .sha256, .ripemd160, .identity]
  | .byzantium =>
    [.ecRecover, .sha256, .ripemd160, .identity, .modExp, .bn128Add, .bn128Mul, .bn128Pairing]

def addresses (f : ContractFamily) : List Address := f.members.map Precompile.address

def text : ContractFamily → String
  | .etc => "Etc"
  | .byzantium => "Byzantium"

end ContractFamily

/-! ## Rules -/

/-- The rules, field by field. -/
structure Rules where
  /-- The longest code to deposit, zero for no limit. -/
  codeDepositLimit : UInt64
  /-- How deep calls may nest. -/
  callStackLimit : UInt64
  gasExtCode : Gas
  gasBalance : Gas
  gasSload : Gas
  gasSuicide : Gas
  /-- The surcharge for self-destruction in favour of a new account. -/
  gasSuicideNewAccount : Gas
  gasCall : Gas
  /-- For each byte of an exponent. -/
  gasExpByte : Gas
  /-- The surcharge for a transaction that creates an account. -/
  gasTransactionCreate : Gas
  /-- Whether a creation that cannot pay for its code keeps empty code instead of failing. -/
  forceCodeDeposit : Bool
  hasDelegateCall : Bool
  hasStaticCall : Bool
  hasRevert : Bool
  hasReturnData : Bool
  hasBitwiseShift : Bool
  hasCreate2 : Bool
  hasExtCodeHash : Bool
  /-- Whether storage writes are priced by their net effect. -/
  hasNetStorageGas : Bool
  /-- Whether a call that asks for more gas than there is fails. -/
  failsOnExcessCallGas : Bool
  /-- Whether a call or creation leaves a 64th of the gas behind. -/
  keeps64th : Bool
  /-- The most memory a frame may have, in bytes. -/
  memoryLimit : UInt64
  /-- The enabled contracts, none for the whole family. -/
  enabledContracts : List Address
  accounts : AccountRules
  deriving DecidableEq, Repr

namespace Rules

def frontier : Rules where
  codeDepositLimit := 0
  callStackLimit := 1024
  gasExtCode := 20
  gasBalance := 20
  gasSload := 50
  gasSuicide := 0
  gasSuicideNewAccount := 0
  gasCall := 40
  gasExpByte := 10
  gasTransactionCreate := 0
  forceCodeDeposit := true
  hasDelegateCall := false
  hasStaticCall := false
  hasRevert := false
  hasReturnData := false
  hasBitwiseShift := false
  hasCreate2 := false
  hasExtCodeHash := false
  hasNetStorageGas := false
  failsOnExcessCallGas := true
  keeps64th := false
  memoryLimit := UInt64.ofNat maxIndex
  enabledContracts := []
  accounts := .frontier

/-- Creations are charged for, and calls can delegate. -/
def homestead : Rules :=
  { frontier with
    gasTransactionCreate := 32000, forceCodeDeposit := false, hasDelegateCall := true }

/-- Access to other accounts is priced higher, and calls leave a 64th behind. -/
def eip150 : Rules :=
  { homestead with
    gasExtCode := 700, gasBalance := 400, gasSload := 200, gasSuicide := 5000,
    gasSuicideNewAccount := 25000, gasCall := 700, failsOnExcessCallGas := false,
    keeps64th := true }

/-- Exponents are priced higher, empty accounts are cleared and code is limited. -/
def eip160 : Rules :=
  { eip150 with codeDepositLimit := 0x6000, gasExpByte := 50, accounts := .mainnet }

def byzantium : Rules :=
  { eip160 with hasStaticCall := true, hasRevert := true, hasReturnData := true }

/-- Shifts, creation by salt, code hashes and net storage gas. -/
def constantinople : Rules :=
  { byzantium with
    hasBitwiseShift := true, hasCreate2 := true, hasExtCodeHash := true, hasNetStorageGas := true }

end Rules

/-! ## Checked rules -/

/-- What is wrong with a list of rules. -/
inductive RulesetError where
  /-- The address is no contract of the family. -/
  | unknownPrecompiled (a : Address)
  /-- The address is enabled twice. -/
  | duplicatePrecompiled (a : Address)
  /-- Memory has no room for a single byte. -/
  | zeroMemoryLimit
  deriving DecidableEq, Repr

namespace RulesetError

def name : RulesetError → String
  | .unknownPrecompiled _ => "UnknownPrecompiled"
  | .duplicatePrecompiled _ => "DuplicatePrecompiled"
  | .zeroMemoryLimit => "ZeroMemoryLimit"

def text : RulesetError → String
  | .unknownPrecompiled a => s!"UnknownPrecompiled({a.toHex})"
  | .duplicatePrecompiled a => s!"DuplicatePrecompiled({a.toHex})"
  | .zeroMemoryLimit => "ZeroMemoryLimit"

def message : RulesetError → String
  | .unknownPrecompiled a => s!"{a.toHex} is not in the precompiled set"
  | .duplicatePrecompiled a => s!"{a.toHex} is enabled more than once"
  | .zeroMemoryLimit => "memory limit is zero"

end RulesetError

/-- Rules that have been checked, with the contracts they enable. -/
structure Ruleset where
  rules : Rules
  family : ContractFamily
  /-- The addresses of the enabled contracts. -/
  enabled : List Address
  deriving DecidableEq, Repr

namespace Ruleset

/-- Checks the addresses to enable one by one: each belongs to the family, and none was seen
    before. -/
def checkEnabled (family : ContractFamily) :
    (seen addresses : List Address) → Except RulesetError Unit
  | _, [] => .ok ()
  | seen, a :: rest =>
    if a ∉ family.addresses then .error (.unknownPrecompiled a)
    else if a ∈ seen then .error (.duplicatePrecompiled a)
    else checkEnabled family (a :: seen) rest

/-- The ruleset of a family; an empty list of contracts enables the whole family. -/
def assemble (rules : Rules) (family : ContractFamily) : Ruleset where
  rules := rules
  family := family
  enabled := if rules.enabledContracts.isEmpty then family.addresses else rules.enabledContracts

/-- **Checking.**  The ruleset of the given rules, with its account rules replaced by
    `accounts` once all else has been checked. -/
def check (rules : Rules) (accounts : AccountRules) (family : ContractFamily) :
    Except RulesetError Ruleset :=
  if rules.memoryLimit = 0 then .error .zeroMemoryLimit
  else do
    checkEnabled family [] rules.enabledContracts
    return assemble { rules with accounts := accounts } family

def frontier : Ruleset := assemble .frontier .etc
def homestead : Ruleset := assemble .homestead .etc
def eip150 : Ruleset := assemble .eip150 .etc
def eip160 : Ruleset := assemble .eip160 .etc
def byzantium : Ruleset := assemble .byzantium .byzantium
def constantinople : Ruleset := assemble .constantinople .byzantium

/-- The ruleset of a fork, by the fork's name. -/
def named? : String → Option Ruleset
  | "frontier" => some frontier
  | "homestead" => some homestead
  | "eip150" => some eip150
  | "eip160" => some eip160
  | "byzantium" => some byzantium
  | "constantinople" => some constantinople
  | _ => none

/-- The longest code to deposit, if there is a limit. -/
def codeDepositLimit? (r : Ruleset) : Option Nat :=
  if r.rules.codeDepositLimit = 0 then none else some r.rules.codeDepositLimit.toNat

/-- Whether the contract at an address is enabled. -/
def isEnabled (r : Ruleset) (a : Address) : Bool := a ∈ r.enabled

def precompile? (r : Ruleset) (a : Address) : Option Precompile :=
  if r.isEnabled a then Precompile.ofAddress? a else none

end Ruleset

end ResumableEvm
