import ResumableEvm.Proofs.CheckedArithmetic
import ResumableEvm.Proofs.Settlement

/-!
# Balances that could leave their width

Balances are added to and taken from in ways that stop at the ends of the scale, but differences
between them are taken as they are: where a shift of a balance is turned around, and where an
account is compared with what the log has.  Each is taken from the larger.

* `BalanceShift.checkedIncrease_eq`, `BalanceShift.checkedDecrease_eq` — shifts do not fail.
* `Overlay.checkedChanges_eq` — neither do comparisons with the log.
* `Frame.checkedSettledOverlay_eq` — nor does a settlement.
-/

namespace ResumableEvm

/-- Goes on with a value that is there, unless something is missing. -/
def onward {ε α β : Type} (r : Except Panic (Except ε α)) (k : α → Except Panic (Except ε β)) :
    Except Panic (Except ε β) := do
  match ← r with
  | .ok a => k a
  | .error e => return .error e

/-- Steps that do not fail do not fail one after the other. -/
lemma onward_eq {ε α β : Type} {r : Except ε α} {k : α → Except Panic (Except ε β)}
    {k' : α → Except ε β} (h : ∀ a, k a = .ok (k' a)) : onward (.ok r) k = .ok (r >>= k') := by
  cases r with
  | ok a => exact h a
  | error e => rfl

/-! ## Shifts of balances -/

namespace BalanceShift

def checkedIncrease : BalanceShift → Word → Except Panic BalanceShift
  | .up current, value => .ok (.up (current.addSat value))
  | .down current, value => do
    if value < current then return .down (← current.checkedSub value)
    else return .up (← value.checkedSub current)

def checkedDecrease : BalanceShift → Word → Except Panic BalanceShift
  | .down current, value => .ok (.down (current.addSat value))
  | .up current, value => do
    if value ≤ current then return .up (← current.checkedSub value)
    else return .down (← value.checkedSub current)

@[simp] lemma checkedIncrease_eq (shift : BalanceShift) (value : Word) :
    shift.checkedIncrease value = .ok (shift.increase value) := by
  cases shift with
  | up current => rfl
  | down current =>
      simp only [checkedIncrease, increase]
      split <;> rename_i h
      · rw [Word.checkedSub_of_le (BitVec.le_of_lt h)]
        rfl
      · rw [Word.checkedSub_of_le (BitVec.not_lt.mp h)]
        rfl

@[simp] lemma checkedDecrease_eq (shift : BalanceShift) (value : Word) :
    shift.checkedDecrease value = .ok (shift.decrease value) := by
  cases shift with
  | down current => rfl
  | up current =>
      simp only [checkedDecrease, decrease]
      split <;> rename_i h
      · rw [Word.checkedSub_of_le h]
        rfl
      · rw [Word.checkedSub_of_le (BitVec.le_of_lt (BitVec.not_le.mp h))]
        rfl

end BalanceShift

/-! ## Overlays -/

namespace Overlay

variable (s : Overlay) (a : Address) (value : Word) (log : CommitLog)

def checkedMoveBalance (first : Word → BalanceShift)
    (shift : BalanceShift → Word → Except Panic BalanceShift) (change : Word → Word → Word) :
    Except Panic (Except Requirement Overlay) := do
  if value = 0 then return .ok s
  if !s.isCommitted a log && s.rules.allowPartialChange then
    match s.entries[a]? with
    | some (.shifted current) =>
      return .ok { s with entries := s.entries.insert a (.shifted (← shift current value)) }
    | _ => return .ok { s with entries := s.entries.insert a (.shifted (first value)) }
  else return s.update a log fun account => { account with balance := change account.balance value }

def checkedIncreaseBalance : Except Panic (Except Requirement Overlay) :=
  s.checkedMoveBalance a value log .up BalanceShift.checkedIncrease Word.addSat

def checkedDecreaseBalance : Except Panic (Except Requirement Overlay) :=
  s.checkedMoveBalance a value log .down BalanceShift.checkedDecrease Word.subSat

lemma checkedMoveBalance_eq {first : Word → BalanceShift}
    {shift : BalanceShift → Word → Except Panic BalanceShift}
    {shift' : BalanceShift → Word → BalanceShift} {change : Word → Word → Word}
    (h : ∀ current value, shift current value = .ok (shift' current value)) :
    s.checkedMoveBalance a value log first shift change =
      .ok (s.moveBalance a value log first shift' change) := by
  simp only [checkedMoveBalance, moveBalance, h, ok_bind, pure_eq_ok]
  split
  · rfl
  · split
    · rcases s.entries[a]? with _ | _ | _ | _ <;> rfl
    · rfl

@[simp] lemma checkedIncreaseBalance_eq :
    s.checkedIncreaseBalance a value log = .ok (s.increaseBalance a value log) :=
  s.checkedMoveBalance_eq a value log BalanceShift.checkedIncrease_eq

@[simp] lemma checkedDecreaseBalance_eq :
    s.checkedDecreaseBalance a value log = .ok (s.decreaseBalance a value log) :=
  s.checkedMoveBalance_eq a value log BalanceShift.checkedDecrease_eq

/-! ### Changes -/

def checkedBalanceChange (a : Address) (before after : Word) :
    Except Panic (Option AccountChange) := do
  if before < after then return some (.increaseBalance a (← after.checkedSub before))
  else if after < before then return some (.decreaseBalance a (← before.checkedSub after))
  else return none

def checkedLiveChange (a : Address) (account : LiveAccount) (log : CommitLog) :
    Except Panic (Option AccountChange) :=
  match log.accounts[a]?, account.reset with
  | some (.full nonce balance code), false =>
    let slots := changedSlots a account log
    if account.nonce = nonce ∧ account.code = code ∧ slots.isEmpty then
      checkedBalanceChange a balance account.balance
    else .ok (some (.full ⟨account.nonce, a, account.balance, slots, account.code⟩))
  | _, _ => .ok (liveChange? a account log)

def checkedChange (a : Address) (entry : AccountEntry) (log : CommitLog) :
    Except Panic (Option AccountChange) :=
  match entry with
  | .live account => checkedLiveChange a account log
  | _ => .ok (change? a entry log)

def checkedChanges : Except Panic (List AccountChange) := do
  return (← s.entries.toList.mapM fun (a, entry) => checkedChange a entry log).filterMap id

@[simp] lemma checkedBalanceChange_eq (before after : Word) :
    checkedBalanceChange a before after = .ok (balanceChange? a before after) := by
  simp only [checkedBalanceChange, balanceChange?]
  split <;> rename_i h
  · rw [Word.checkedSub_of_le (BitVec.le_of_lt h)]
    rfl
  · split <;> rename_i h'
    · rw [Word.checkedSub_of_le (BitVec.le_of_lt h')]
      rfl
    · rfl

@[simp] lemma checkedLiveChange_eq (account : LiveAccount) :
    checkedLiveChange a account log = .ok (liveChange? a account log) := by
  simp only [checkedLiveChange, checkedBalanceChange_eq]
  split
  · rename_i nonce balance code haccount hreset
    simp only [liveChange?, haccount, hreset]
    split <;> rfl
  · rfl

@[simp] lemma checkedChange_eq (entry : AccountEntry) :
    checkedChange a entry log = .ok (change? a entry log) := by
  cases entry with
  | live account => exact checkedLiveChange_eq a log account
  | shifted | dead => rfl

/-- **Comparing with the log** takes the smaller balance from the larger. -/
@[simp] lemma checkedChanges_eq : s.checkedChanges log = .ok (s.changes log) := by
  simp only [checkedChanges, checkedChange_eq, ← pure_eq_ok, List.mapM_pure]
  refine congrArg Except.ok ?_
  rw [List.filterMap_map]
  rfl

end Overlay

/-! ## Settling -/

namespace Frame

variable (f : Frame)

def checkedSettlementStart (preclaimed : Word) (fresh : Overlay) (log : CommitLog) :
    Except Panic (Except Requirement Overlay) :=
  if f.status = .exitedOk then .ok (.ok f.overlay)
  else fresh.checkedDecreaseBalance f.context.caller preclaimed log

def checkedSettledOverlay (chain : ChainView) (usedGas : Gas) (preclaimed : Word)
    (fresh : Overlay) (beneficiary : Address) : Except Panic (Except Requirement Overlay) :=
  let log := chain.log
  let caller := f.context.caller
  let fee := (usedGas * f.context.gasPrice).toWord
  onward (f.checkedSettlementStart preclaimed fresh log) fun start =>
  onward (start.checkedIncreaseBalance caller preclaimed log) fun refunded =>
  onward (refunded.checkedDecreaseBalance caller fee log) fun charged =>
  onward (.ok (charged.requireUnless charged.rules.allowPartialChange beneficiary log)) fun _ =>
  onward (charged.checkedIncreaseBalance beneficiary fee log) fun paid =>
  .ok (f.sweep paid log)

@[simp] lemma checkedSettlementStart_eq (preclaimed : Word) (fresh : Overlay) (log : CommitLog) :
    f.checkedSettlementStart preclaimed fresh log =
      .ok (f.settlementStart preclaimed fresh log) := by
  simp only [checkedSettlementStart, settlementStart, Overlay.checkedDecreaseBalance_eq]
  split <;> rfl

/-- **A settlement does not fail.** -/
@[simp] lemma checkedSettledOverlay_eq (chain : ChainView) (usedGas : Gas) (preclaimed : Word)
    (fresh : Overlay) (beneficiary : Address) :
    f.checkedSettledOverlay chain usedGas preclaimed fresh beneficiary =
      .ok (f.settledOverlay chain usedGas preclaimed fresh beneficiary) := by
  rw [settledOverlay_eq]
  simp only [checkedSettledOverlay, checkedSettlementStart_eq, Overlay.checkedIncreaseBalance_eq,
    Overlay.checkedDecreaseBalance_eq]
  exact onward_eq fun _ => onward_eq fun _ => onward_eq fun _ => onward_eq fun _ =>
    onward_eq fun _ => rfl

end Frame

end ResumableEvm
