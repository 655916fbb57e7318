import ResumableEvm.Proofs.Progress
import ResumableEvm.Proofs.StackInvariant

/-!
# Writes priced by their net effect

Where a storage write is priced by its net effect, what a run of writes to one slot comes to, its
refunds taken off, depends on the last value alone.  Price and refund of a write are two decisions
over the value before the transaction, the current one and the one written; but their difference is
the price of a look at the slot together with what the *net* change has become dearer by.  So over
a run the differences telescope.

* `netGas` — what a slot that has come from one value to another has cost, apart from the looks.
* `Frame.SlotWrite.price_sub_refund` — what one write adds to it.
* `Overlay.Holds` — what a slot holds and what it held before the transaction, as far as is known.
* `Frame.Writes` — what a frame does while it writes to one of its slots, and all its writes to it.
* `Frame.net_gas_of_writes` — what those writes come to.
* `Frame.net_gas_of_reachable` — so they do in any frame of a run.
-/

namespace ResumableEvm

/-- **The gas of a net change of a slot,** from the value before the transaction to another one.
    It is negative where a slot has been cleared. -/
def netGas (initial value : Word) : ℤ :=
  if value = initial then 0
  else if initial = 0 then 19800
  else if value = 0 then -10200
  else 4800

/-- **One write** costs a look at the slot and what the net change has become dearer by. -/
lemma Frame.SlotWrite.price_sub_refund (w : SlotWrite) :
    ((w.price true).toNat : ℤ) - w.refund true =
      200 + netGas w.initial w.value - netGas w.initial w.current := by
  obtain ⟨initial, current, value⟩ := w
  have hlook : (200 : Gas).toNat = 200 := by decide
  have hset : (20000 : Gas).toNat = 20000 := by decide
  have hreset : (5000 : Gas).toNat = 5000 := by decide
  simp only [price, refund, netGas, if_true]
  by_cases hidle : value = current
  · subst hidle
    simp only [if_true, hlook]
    ring
  by_cases hfirst : initial = current
  · -- the first change is the one that is dear, and that may earn a refund
    subst hfirst
    simp only [if_neg hidle, if_true]
    by_cases hfresh : initial = 0
    · simp only [hfresh, ne_eq, not_true_eq_false, false_and, if_true, if_false]
      rw [hset]
      norm_num
    · by_cases hcleared : value = 0
      · simp only [hfresh, hcleared, ne_eq, not_false_eq_true, and_self, if_true, if_false]
        rw [hreset]
        norm_num
      · simp only [hfresh, hcleared, and_false, if_false]
        rw [hreset]
        norm_num
  · -- a later one gives back what an earlier one was charged, or takes back what it earned
    have hchanged : ¬ current = initial := Ne.symm hfirst
    simp only [if_neg hidle, if_neg hfirst, if_neg hchanged, hlook]
    by_cases hrestored : value = initial
    · simp only [if_pos hrestored, if_pos hrestored.symm]
      by_cases hfresh : initial = 0
      · simp only [if_pos hfresh]
        norm_num
      · have hkept : ¬ value = 0 := hrestored ▸ hfresh
        simp only [if_neg hfresh, if_neg hkept]
        split <;> norm_num
    · have hother : ¬ initial = value := Ne.symm hrestored
      simp only [if_neg hrestored, if_neg hother]
      by_cases hfresh : initial = 0
      · simp only [if_pos hfresh]
        norm_num
      · simp only [if_neg hfresh]
        by_cases hcleared : current = 0
        · have hkept : ¬ value = 0 := fun h => hidle (h.trans hcleared.symm)
          simp only [if_pos hcleared, if_neg hkept]
          norm_num
        · simp only [if_neg hcleared]
          split <;> norm_num

/-! ## What a slot holds -/

namespace Overlay

variable {s s' : Overlay} {log log' : CommitLog} {a b : Address}
  {index initial current value : Word}

/-- What a slot was before the transaction, where that is known: zero in an account created in it,
    and otherwise what the host has told. -/
def initial? (s : Overlay) (a : Address) (index : Word) (log : CommitLog) :
    Except Requirement Word :=
  match s.entries[a]? with
  | some (.live account) => if account.reset then .ok 0 else log.storage a index
  | _ => log.storage a index

/-- **What is known of a slot:** the value before the transaction and the current one.  The account
    has not been removed. -/
structure Holds (s : Overlay) (log : CommitLog) (a : Address) (index initial current : Word) :
    Prop where
  present : s.entries[a]? ≠ some .dead
  initial : s.initial? a index log = .ok initial
  current : s.storage a index log = .ok current

/-- What is known of the value before the transaction is what writes are priced by. -/
lemma initialStorage_of_initial? (h : s.initial? a index log = .ok value) :
    s.initialStorage a index log = value := by
  have hdefault : s.initialStorage a index log = (s.initial? a index log).toOption.getD 0 := by
    simp only [initialStorage, initial?]
    rcases s.entries[a]? with _ | _ | account | _
    case some.live => cases hreset : account.reset <;> simp [hreset, Except.toOption]
    all_goals rfl
  rw [hdefault, h]
  rfl

/-- In a grounded overlay a slot that can be read is known. -/
lemma Grounded.holds (hg : s.Grounded log) (hs : s.storage a index log = .ok current) :
    s.Holds log a index (s.initialStorage a index log) current := by
  suffices hknown : ∃ value, s.initial? a index log = .ok value by
    obtain ⟨value, hvalue⟩ := hknown
    exact ⟨hg.present a, initialStorage_of_initial? hvalue ▸ hvalue, hs⟩
  simp only [initial?]
  split
  · rename_i account he
    split <;> rename_i hreset
    · exact ⟨0, rfl⟩
    · exact hg.storage_read (by simp [live, he]) (Bool.eq_false_of_not_eq_true hreset) hs
  · rename_i hlive
    refine ⟨current, ?_⟩
    simp only [storage] at hs
    split at hs
    · exact absurd ‹_› (hlive _)
    · exact absurd ‹_› (hg.present a)
    · exact hs

namespace Holds

/-- What is known stays so under a fuller log. -/
lemma within (h : s.Holds log a index initial current) (hw : log.Within log') :
    s.Holds log' a index initial current := by
  refine ⟨h.present, ?_, ?_⟩
  · have hinitial := h.initial
    simp only [initial?] at hinitial ⊢
    split at hinitial <;> rename_i he
    · split at hinitial <;> rename_i hreset
      · exact (if_pos hreset).trans hinitial
      · exact (if_neg hreset).trans (hw.storage hinitial)
    · exact hw.storage hinitial
  · have hcurrent := h.current
    simp only [storage] at hcurrent ⊢
    split at hcurrent
    · split at hcurrent
      · exact hcurrent
      · split at hcurrent <;> rename_i hreset
        · exact (if_pos hreset).trans hcurrent
        · exact (if_neg hreset).trans (hw.storage hcurrent)
    · exact hcurrent
    · exact hw.storage hcurrent

/-- An entry changes nothing of the slots of other accounts. -/
lemma insert_of_ne (h : s.Holds log a index initial current) (entry : AccountEntry)
    (hab : b ≠ a) :
    ({ s with entries := s.entries.insert b entry } : Overlay).Holds log a index initial
      current := by
  have he : ({ s with entries := s.entries.insert b entry } : Overlay).entries[a]? =
      s.entries[a]? := by
    simp [Std.TreeMap.getElem?_insert, hab]
  refine ⟨he ▸ h.present, ?_, ?_⟩
  · simp only [initial?, he]
    exact h.initial
  · simp only [storage, he]
    exact h.current

/-- **Before an account is written to,** what is known of its slots is what it holds of them. -/
lemma live (h : s.Holds log a index initial current) {account : LiveAccount}
    (hl : s.live a log = .ok account) :
    ({ s with entries := s.entries.insert a (.live account) } : Overlay).Holds log a index initial
      current := by
  obtain ⟨hpresent, hinitial, hcurrent⟩ := h
  -- an account that only the log knows has all its slots there, or none if there is no account
  have hcommitted : ∀ held : LiveAccount, s.committed a log = .ok held →
      log.storage a index = .ok initial → log.storage a index = .ok current →
        held.storage[index]? = none ∧
          (if held.reset then .ok 0 else log.storage a index) = Except.ok initial ∧
            (if held.reset then .ok 0 else log.storage a index) = Except.ok current := by
    intro held hheld hfirst hnow
    obtain ⟨known, hknown, rfl⟩ := map_eq_ok.mp hheld
    cases known with
    | full nonce balance code => exact ⟨by simp, hfirst, hnow⟩
    | nonexistent =>
        have hzero : log.storage a index = .ok 0 := by
          simp only [CommitLog.storage, hknown]
          rfl
        exact ⟨by simp [fresh], hzero.symm.trans hfirst, hzero.symm.trans hnow⟩
  have hlaid : ∀ held : LiveAccount, held.storage[index]? = none →
      (if held.reset then .ok 0 else log.storage a index) = Except.ok initial →
      (if held.reset then .ok 0 else log.storage a index) = Except.ok current →
        ({ s with entries := s.entries.insert a (.live held) } : Overlay).Holds log a index initial
          current := by
    intro held hnone hfirst hnow
    refine ⟨by simp, ?_, ?_⟩
    · simpa [initial?] using hfirst
    · simpa [storage, hnone] using hnow
  simp only [initial?] at hinitial
  simp only [storage] at hcurrent
  simp only [Overlay.live] at hl
  cases he : s.entries[a]? with
  | none =>
      rw [he] at hinitial hcurrent hl
      obtain ⟨hnone, hfirst, hnow⟩ := hcommitted account hl hinitial hcurrent
      exact hlaid account hnone hfirst hnow
  | some entry =>
      rw [he] at hinitial hcurrent hl
      cases entry with
      | dead => exact absurd he hpresent
      | shifted shift =>
          obtain ⟨held, hheld, rfl⟩ := map_eq_ok.mp hl
          obtain ⟨hnone, hfirst, hnow⟩ := hcommitted held hheld hinitial hcurrent
          exact hlaid _ hnone hfirst hnow
      | live held =>
          cases hl
          refine ⟨by simp, ?_, ?_⟩
          · simpa [initial?] using hinitial
          · simpa [storage] using hcurrent

/-- **A write** keeps a slot unless it changes what the account holds of it. -/
lemma update (h : s.Holds log a index initial current) {f : LiveAccount → LiveAccount}
    (hu : s.update b log f = .ok s') (hreset : ∀ account, (f account).reset = account.reset)
    (hslot : b = a → ∀ account, (f account).storage[index]? = account.storage[index]?) :
    s'.Holds log a index initial current := by
  obtain ⟨account, hl, rfl⟩ := update_eq_ok.mp hu
  by_cases hab : b = a
  · subst hab
    obtain ⟨-, hinitial, hcurrent⟩ := h.live hl
    refine ⟨by simp, ?_, ?_⟩
    · simpa [initial?, hreset] using hinitial
    · simpa [storage, hreset, hslot rfl] using hcurrent
  · exact h.insert_of_ne _ hab

lemma moveBalance (h : s.Holds log a index initial current) {first : Word → BalanceShift}
    {shift : BalanceShift → Word → BalanceShift} {change : Word → Word → Word}
    (hm : s.moveBalance b value log first shift change = .ok s') :
    s'.Holds log a index initial current := by
  simp only [Overlay.moveBalance] at hm
  split at hm
  · cases hm
    exact h
  · split at hm
    · cases hm
      rename_i hunknown
      by_cases hab : b = a
      · -- an account of which only a difference is held has the slots of the log
        subst hab
        obtain ⟨hpresent, hinitial, hcurrent⟩ := h
        have hlog : log.storage b index = .ok initial ∧ log.storage b index = .ok current := by
          cases he : s.entries[b]? with
          | none => exact ⟨by simpa [initial?, he] using hinitial,
              by simpa [storage, he] using hcurrent⟩
          | some entry =>
              cases entry with
              | shifted => exact ⟨by simpa [initial?, he] using hinitial,
                  by simpa [storage, he] using hcurrent⟩
              | live | dead => simp [isCommitted, he] at hunknown
        refine ⟨by simp, ?_, ?_⟩
        · simpa [initial?] using hlog.1
        · simpa [storage] using hlog.2
      · exact h.insert_of_ne _ hab
    · exact h.update hm (fun _ => rfl) fun _ _ => rfl

/-- **A write to the slot** leaves what it was before the transaction. -/
lemma writeStorage (h : s.Holds log a index initial current)
    (hu : s.writeStorage a index value log = .ok s') : s'.Holds log a index initial value := by
  obtain ⟨account, hl, rfl⟩ := update_eq_ok.mp hu
  refine ⟨by simp, ?_, by simp [storage]⟩
  simpa [initial?] using (h.live hl).initial

lemma writeStorage_of_ne (h : s.Holds log a index initial current) {other : Word}
    (hne : other ≠ index) (hu : s.writeStorage a other value log = .ok s') :
    s'.Holds log a index initial current :=
  h.update hu (fun _ => rfl) fun _ account => by simp [Std.TreeMap.getElem?_insert, hne]

end Holds

end Overlay

namespace Frame

variable {f g ended sub : Frame} {chain : ChainView} {rs : Ruleset} {block : Header}
  {log told more : CommitLog} {op : Opcode} {i : Instruction} {c : Charge}
  {stipend afterGas : Gas} {control : FrameControl} {memory : Memory}
  {index initial current o : Word}

/-! ## What a step does to a slot -/

/-- Only a write to it changes a slot. -/
lemma Effect.holds (h : (f.withMemory memory).Effect chain stipend afterGas i g control)
    (hf : f.overlay.Holds chain.log f.context.address index initial current)
    (helsewhere : i = .sstore → f.operand 0 ≠ index) :
    g.overlay.Holds chain.log f.context.address index initial current := by
  cases h with
  | compute | log | call => exact hf
  | store program written => exact hf.writeStorage_of_ne (helsewhere rfl) written
  | create program raised => exact hf.update raised (fun _ => rfl) fun _ _ => rfl
  | destroy program pays clears =>
      have hpaid := hf.moveBalance pays
      have hcleared := hpaid.moveBalance clears
      exact ⟨hcleared.present, hcleared.initial, hcleared.current⟩

lemma Stepped.holds (h : f.Stepped chain g)
    (hf : f.overlay.Holds chain.log f.context.address index initial current)
    (helsewhere : ∀ op, f.machine.nextOpcode? = some op → op.instruction = .sstore →
      f.operand 0 ≠ index) :
    g.overlay.Holds chain.log f.context.address index initial current := by
  cases h with
  | idle | past | refused | unaffordable => exact hf
  | precompile => exact (runPrecompile_traces f _).overlay ▸ hf
  | executed running code checked charged afforded effect next =>
      rw [(follow_same _ _).2.2.2.1]
      exact effect.holds hf (helsewhere _ next)

/-- **A write to the slot** that is carried out. -/
lemma Stepped.wrote (h : f.Stepped chain g)
    (hf : f.overlay.Holds chain.log f.context.address index initial current)
    (hop : f.machine.nextOpcode? = some op) (hi : op.instruction = .sstore)
    (hindex : f.operand 0 = index) (hruns : g.status = .running) :
    g.overlay.Holds chain.log f.context.address index initial (f.operand 1) := by
  cases h with
  | idle resting => exact absurd hruns resting
  | precompile running contract =>
      have hexited := runPrecompile_exited f ‹_›
      rw [hruns] at hexited
      cases hexited
  | past | refused => cases hruns
  | unaffordable =>
      have hexited := FrameStatus.isExited_ofReason ‹ExitReason›
      rw [show FrameStatus.ofReason _ = .running from hruns] at hexited
      cases hexited
  | executed running code checked charged afforded effect next =>
      obtain rfl := Option.some.inj (hop.symm.trans next)
      rw [(follow_same _ _).2.2.2.1]
      rw [hi] at effect
      cases effect with
      | compute program stays plain => cases plain
      | store program written =>
          subst hindex
          exact hf.writeStorage written

/-- **The charge of a write** to a slot, by what the slot holds. -/
lemma charge_sstore (hf : f.overlay.Holds chain.log f.context.address index initial current)
    (hindex : f.operand 0 = index) (hcharge : f.charge chain .sstore = .ok c) :
    c.price = (SlotWrite.mk initial current (f.operand 1)).price chain.rules.hasNetStorageGas ∧
      c.refund =
        (SlotWrite.mk initial current (f.operand 1)).refund chain.rules.hasNetStorageGas := by
  have hwrite : f.slotWrite chain = .ok ⟨initial, current, f.operand 1⟩ := by
    simp only [slotWrite, hindex, hf.current,
      Overlay.initialStorage_of_initial? hf.initial]
    rfl
  have hprice := (charge_eq_ok hcharge).2.1
  have hrefund := refund_of_charge hcharge
  simp only [price, hwrite] at hprice
  simp only [refundOf, hwrite] at hrefund
  exact ⟨(Except.ok.inj hprice).symm, (Except.ok.inj hrefund).symm⟩

/-! ## Runs of a frame -/

/-- **What a frame does while it writes to one of its slots,** with all its writes to that slot:
    the values written and what was charged for them.  The frame may be told more at any time, take
    other steps, and take back frames that it asked for, as long as these leave the slot as it
    was. -/
inductive Writes (rs : Ruleset) (block : Header) (index : Word) (log : CommitLog) (f : Frame) :
    List (Word × Charge) → CommitLog → Frame → Prop where
  | start : Writes rs block index log f [] log f
  | learned {writes : List (Word × Charge)} {told more : CommitLog} {g : Frame}
      (before : Writes rs block index log f writes told g) (within : told.Within more) :
      Writes rs block index log f writes more g
  /-- A write to the slot is carried out. -/
  | wrote {writes : List (Word × Charge)} {told : CommitLog} {g g' : Frame} {op : Opcode}
      {c : Charge} {event : Option Event}
      (before : Writes rs block index log f writes told g)
      (next : g.machine.nextOpcode? = some op) (stores : op.instruction = .sstore)
      (slot : g.operand 0 = index)
      (charged : g.charge ⟨rs, block, told⟩ op.instruction = .ok c)
      (stepped : g.step ⟨rs, block, told⟩ = (g', .ok event)) (runs : g'.status = .running) :
      Writes rs block index log f (writes ++ [(g.operand 1, c)]) told g'
  /-- Any other step. -/
  | passed {writes : List (Word × Charge)} {told : CommitLog} {g g' : Frame}
      {event : Option Event} (before : Writes rs block index log f writes told g)
      (stepped : g.step ⟨rs, block, told⟩ = (g', .ok event))
      (elsewhere : ∀ op, g.machine.nextOpcode? = some op → op.instruction = .sstore →
        g.operand 0 ≠ index) :
      Writes rs block index log f writes told g'
  /-- A frame that has ended is taken back. -/
  | called {writes : List (Word × Charge)} {told : CommitLog} {g g' ended sub : Frame}
      (before : Writes rs block index log f writes told g)
      (absorbs : g.absorb ended ⟨rs, block, told⟩ = (g', sub, .ok ()))
      (leaves : ∀ initial current,
        g.overlay.Holds told g.context.address index initial current →
          g'.overlay.Holds told g.context.address index initial current) :
      Writes rs block index log f writes told g'

/-- The value that a slot has after some writes. -/
def lastWritten (writes : List (Word × Charge)) (o : Word) : Word :=
  (writes.getLast?.map Prod.fst).getD o

/-- What all writes have been charged, and what they have earned. -/
def gasOf (writes : List (Word × Charge)) : ℤ := (writes.map fun w => (w.2.price.toNat : ℤ)).sum

def refundsOf (writes : List (Word × Charge)) : ℤ := (writes.map fun w => w.2.refund).sum

lemma gasOf_concat (writes : List (Word × Charge)) (w : Word × Charge) :
    gasOf (writes ++ [w]) = gasOf writes + w.2.price.toNat := by
  simp [gasOf]

lemma refundsOf_concat (writes : List (Word × Charge)) (w : Word × Charge) :
    refundsOf (writes ++ [w]) = refundsOf writes + w.2.refund := by
  simp [refundsOf]

lemma lastWritten_concat (writes : List (Word × Charge)) (w : Word × Charge) (o : Word) :
    lastWritten (writes ++ [w]) o = w.1 := by
  simp [lastWritten]

/-- **Along a run** the slot holds what was written last, and the writes have come to what the net
    change costs and a look for each. -/
lemma Writes.holds {writes : List (Word × Charge)} (hnet : rs.rules.hasNetStorageGas = true)
    (hf : f.overlay.Holds log f.context.address index o o)
    (h : f.Writes rs block index log writes told g) :
    g.context = f.context ∧
      g.overlay.Holds told f.context.address index o (lastWritten writes o) ∧
        gasOf writes - refundsOf writes =
          200 * writes.length + netGas o (lastWritten writes o) := by
  induction h with
  | start => exact ⟨rfl, hf, by simp [gasOf, refundsOf, lastWritten, netGas]⟩
  | learned before within ih => exact ⟨ih.1, ih.2.1.within within, ih.2.2⟩
  | @wrote writes told g g' op c event before next stores slot charged stepped runs ih =>
      obtain ⟨hcontext, hholds, hsum⟩ := ih
      rw [← hcontext] at hholds
      have hstep := step_stepped stepped
      rw [stores] at charged
      obtain ⟨hprice, hrefund⟩ := charge_sstore hholds slot charged
      rw [show (⟨rs, block, told⟩ : ChainView).rules.hasNetStorageGas = true from hnet]
        at hprice hrefund
      have hone := SlotWrite.price_sub_refund ⟨o, lastWritten writes o, g.operand 1⟩
      rw [← hprice, ← hrefund] at hone
      rw [gasOf_concat, refundsOf_concat, lastWritten_concat, List.length_append,
        List.length_singleton]
      refine ⟨hstep.context.trans hcontext, ?_, ?_⟩
      · rw [← hcontext]
        exact hstep.wrote hholds next stores slot runs
      · push_cast
        linarith
  | passed before stepped elsewhere ih =>
      obtain ⟨hcontext, hholds, hsum⟩ := ih
      have hstep := step_stepped stepped
      rw [← hcontext] at hholds
      exact ⟨hstep.context.trans hcontext, hcontext ▸ hstep.holds hholds elsewhere, hsum⟩
  | called before absorbs leaves ih =>
      obtain ⟨hcontext, hholds, hsum⟩ := ih
      rw [← hcontext] at hholds
      exact ⟨(absorb_absorbed absorbs).context.trans hcontext, hcontext ▸ leaves _ _ hholds, hsum⟩

/-- **Writes priced by their net effect do not depend on the path.**  Let a slot of a frame hold
    what it held before the transaction.  Whatever the frame does from there, all its writes to the
    slot cost, their refunds taken off, 200 each and what the net change costs: nothing if the slot
    is back at its first value, and otherwise what `netGas` says of the first value and the last
    one written.  The frame's overlay is grounded, as those of all frames of a transaction are. -/
theorem net_gas_of_writes {writes : List (Word × Charge)}
    (hnet : rs.rules.hasNetStorageGas = true) (hg : f.overlay.Grounded log)
    (hinitial : f.overlay.initialStorage f.context.address index log = o)
    (hcurrent : f.overlay.storage f.context.address index log = .ok o)
    (h : f.Writes rs block index log writes told g) :
    gasOf writes - refundsOf writes =
      200 * writes.length + netGas o (lastWritten writes o) := by
  have hholds := hg.holds hcurrent
  rw [hinitial] at hholds
  exact (h.holds hnet hholds).2.2

/-- What is known of an account whose slot 7 is 8. -/
def rewritingChain : ChainView where
  ruleset := .constantinople
  block := {}
  log :=
    { accounts := (∅ : Std.TreeMap Address CommittedAccount).insert 300
        (.full 1 0 ByteArray.empty)
      slots := (∅ : Std.TreeMap Address SlotMap).insert 300 ((∅ : SlotMap).insert 7 8) }

/-- A frame that writes 5 to the slot and then clears it, after some steps. -/
def rewriting : ℕ → Frame
  | 0 => Frame.create ⟨300, 300, 200, ⟨#[0x60, 5, 0x60, 7, 0x55, 0x60, 0, 0x60, 7, 0x55]⟩,
      ByteArray.empty, 50000, 1, 200, 0, 0, false⟩ 0 (Overlay.empty .mainnet) .constantinople
  | n + 1 => ((rewriting n).step rewritingChain).1

lemma rewriting_step {n : ℕ}
    (h : ((rewriting n).step rewritingChain).2.toOption.isSome = true) :
    ∃ event, (rewriting n).step rewritingChain = (rewriting (n + 1), .ok event) := by
  rcases hs : (rewriting n).step rewritingChain with ⟨g, i | event⟩
  · rw [hs] at h
    cases h
  · refine ⟨event, ?_⟩
    rw [rewriting, hs]

/-- The two writes come to less than nothing, since the slot has been cleared. -/
theorem rewriting_earns : ∃ writes, writes.length = 2 ∧
    (rewriting 0).Writes .constantinople {} 7 rewritingChain.log writes rewritingChain.log
      (rewriting 6) ∧
    gasOf writes - refundsOf writes = -9800 := by
  have hok : ∀ n < 6, ((rewriting n).step rewritingChain).2.toOption.isSome = true := by
    decide +kernel
  have hpushes : ∀ n ∈ [0, 1, 3, 4],
      (rewriting n).machine.nextOpcode?.map Opcode.instruction ≠ some .sstore := by decide +kernel
  have hstores : ∀ n ∈ [2, 5], (rewriting n).machine.nextOpcode? = some ⟨0x55⟩ ∧
      (rewriting n).operand 0 = 7 ∧
      ((rewriting n).charge rewritingChain .sstore).toOption.isSome = true ∧
      (rewriting (n + 1)).status = .running := by decide +kernel
  have hpass : ∀ {writes n}, n ∈ [0, 1, 3, 4] →
      (rewriting 0).Writes .constantinople {} 7 rewritingChain.log writes rewritingChain.log
        (rewriting n) →
      (rewriting 0).Writes .constantinople {} 7 rewritingChain.log writes rewritingChain.log
        (rewriting (n + 1)) := by
    intro writes n hn hbefore
    obtain ⟨event, hstep⟩ := rewriting_step (hok n (by fin_cases hn <;> decide))
    refine hbefore.passed hstep fun op hop hi => absurd ?_ (hpushes n hn)
    rw [hop, Option.map_some, hi]
  have hwrite : ∀ {writes n}, n ∈ [2, 5] →
      (rewriting 0).Writes .constantinople {} 7 rewritingChain.log writes rewritingChain.log
        (rewriting n) →
      ∃ c, (rewriting 0).Writes .constantinople {} 7 rewritingChain.log
        (writes ++ [((rewriting n).operand 1, c)]) rewritingChain.log (rewriting (n + 1)) := by
    intro writes n hn hbefore
    obtain ⟨hop, hindex, hcharge, hruns⟩ := hstores n hn
    obtain ⟨event, hstep⟩ := rewriting_step (hok n (by fin_cases hn <;> decide))
    rcases hc : (rewriting n).charge rewritingChain .sstore with r | c
    · rw [hc] at hcharge
      cases hcharge
    · exact ⟨c, hbefore.wrote hop rfl hindex hc hstep hruns⟩
  obtain ⟨first, hfirst⟩ := hwrite (by decide) (hpass (by decide) (hpass (by decide) .start))
  obtain ⟨second, hsecond⟩ := hwrite (by decide) (hpass (by decide) (hpass (by decide) hfirst))
  have hlast : (rewriting 5).operand 1 = 0 := by decide +kernel
  have hsum := net_gas_of_writes (o := 8) (by decide) (.empty _ _) (by decide +kernel) (by rfl)
    hsecond
  have hcleared : netGas 8 0 = -10200 := by decide
  refine ⟨_, rfl, hsecond, hsum.trans ?_⟩
  rw [lastWritten_concat]
  show (200 : ℤ) * 2 + netGas 8 ((rewriting 5).operand 1) = -9800
  rw [hlast, hcleared]
  norm_num

/-- **In any frame of a run** this holds of the writes to a slot that has its first value back,
    whatever was told. -/
theorem net_gas_of_reachable {t : Transaction} {e : Engine} {x : Execution}
    {writes : List (Word × Charge)} (h : Engine.Reachable rs t block e)
    (hx : e.phase = .executing x) (hunsettled : x.settled = false)
    (hf : f ∈ x.calls.current :: x.calls.waiting) (hnet : rs.rules.hasNetStorageGas = true)
    (hinitial : f.overlay.initialStorage f.context.address index e.chain.log = o)
    (hcurrent : f.overlay.storage f.context.address index e.chain.log = .ok o)
    (hwrites : f.Writes rs block index e.chain.log writes told g) :
    gasOf writes - refundsOf writes = 200 * writes.length + netGas o (lastWritten writes o) := by
  have hholds := (h.grounded hx hunsettled f hf).holds hcurrent
  rw [hinitial] at hholds
  exact (hwrites.holds hnet hholds).2.2

end Frame

end ResumableEvm
