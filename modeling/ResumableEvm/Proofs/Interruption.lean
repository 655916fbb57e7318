import Mathlib.Tactic
import ResumableEvm.CallStack
import ResumableEvm.Proofs.KnownAccount
import ResumableEvm.Proofs.MachineStep

/-!
# What an interruption leaves behind

A step that misses a datum is taken again once the datum is there, so it must not have changed
anything.  Operations change their frame in place and read accounts in between; what protects
the frame is that everything an instruction reads is looked at before its first change.

* `Frame.HasData` — the data of an instruction, known once its check has passed.
* `Frame.asksNothing_perform`, `Frame.asksNothing_execute` — past the checks nothing is missing.
* `Frame.step_requires`, `CallStack.step_requires` and so on — where a datum is missing the frame
  is as it was.
* `requirement_leaves_everything` — all of it together.
-/

namespace ResumableEvm

/-- What a result asks for, if it does. -/
class Asking (β : Type) where
  asked? : β → Option Requirement

instance : Asking Requirement := ⟨some⟩

instance : Asking Interrupt where
  asked? := fun
    | .requires r => some r
    | .fault _ => none

instance {ε α : Type} [Asking ε] : Asking (Except ε α) where
  asked? := fun
    | .ok _ => none
    | .error e => Asking.asked? e

instance {σ β : Type} [Asking β] : Asking (σ × β) := ⟨fun p => Asking.asked? p.2⟩

/-- A result that no datum is missing for. -/
def AsksNothing {β : Type} [Asking β] (x : β) : Prop := Asking.asked? x = none

namespace Frame

variable {f g : Frame} {chain : ChainView} {op : Opcode}

/-! ## What the checks make sure of -/

/-- A passed check has passed each of its parts. -/
lemma check_parts : f.check chain op = .ok () ↔
    op.instruction.isEnabled chain.rules = true ∧ f.checkStack op.instruction = .ok () ∧
      (f.context.isStatic = true → f.checkStatic op.instruction = .ok ()) ∧
      f.checkReturnData op.instruction = .ok () ∧ f.checkKnown chain op.instruction = .ok () := by
  simp only [check]
  cases op.instruction.isEnabled chain.rules with
  | false => simp [throw, throwThe, MonadExceptOf.throw]
  | true =>
      cases hs : f.checkStack op.instruction <;> cases hr : f.checkReturnData op.instruction <;>
        cases hk : f.checkKnown chain op.instruction <;>
          cases ht : f.checkStatic op.instruction <;> cases f.context.isStatic <;>
            simp [Except.mapError, bind, Except.bind]

/-- **The data of an instruction.**  What is known once its check has passed. -/
def HasData (f : Frame) (chain : ChainView) : Instruction → Prop
  | .balance | .extCodeHash => f.overlay.Knows (Address.ofWord (f.operand 0)) chain.log
  | .extCodeSize | .extCodeCopy =>
    ∃ code, f.overlay.code (Address.ofWord (f.operand 0)) chain.log = .ok code
  | .sload | .sstore =>
    f.overlay.Knows f.context.address chain.log ∧
      ∃ value, f.overlay.storage f.context.address (f.operand 0) chain.log = .ok value
  | .call _ =>
    f.overlay.Knows f.context.address chain.log ∧
      f.overlay.Knows (Address.ofWord (f.operand 1)) chain.log
  | .create _ => f.overlay.Knows f.context.address chain.log
  | .selfDestruct =>
    f.overlay.Knows f.context.address chain.log ∧
      f.overlay.Knows (Address.ofWord (f.operand 0)) chain.log
  | .blockHash =>
    chain.block.reaches (f.operand 0) = true →
      ∃ hash, chain.log.blockHash (f.operand 0) = .ok hash
  | _ => True

/-- The data depend on the operands, the context and the accounts alone. -/
lemma HasData.congr {i : Instruction} (h : f.HasData chain i)
    (hs : g.machine.stack = f.machine.stack) (hc : g.context = f.context)
    (ho : g.overlay = f.overlay) : g.HasData chain i := by
  have heq : g.HasData chain i = f.HasData chain i := by
    cases i <;> simp only [HasData, operand, hs, hc, ho]
  exact heq ▸ h

lemma hasData_of_checkKnown {i : Instruction} (h : f.checkKnown chain i = .ok ()) :
    f.HasData chain i := by
  simp only [checkKnown] at h
  cases i <;>
    simp only [HasData, bind_eq_ok, Overlay.requireCode, map_eq_ok, discard_eq_ok, and_true,
      Overlay.knows_iff_require] at h ⊢
  case balance | extCodeHash | extCodeSize | extCodeCopy => exact h
  case sload | sstore | selfDestruct | call =>
      obtain ⟨⟨⟩, hself, hrest⟩ := h
      exact ⟨hself, hrest⟩
  case create =>
      obtain ⟨⟨⟩, hself, -⟩ := h
      exact hself
  case blockHash =>
      intro hr
      rw [if_pos hr] at h
      exact discard_eq_ok.mp h

/-! ## Instructions that only answer -/

lemma asksNothing_giving (w : Word) (control : FrameControl) (event : Option Event) :
    AsksNothing (f.giving w control event) := by
  simp only [giving]
  split <;> rfl

lemma asksNothing_writing (r : Except ExitFatal Memory) : AsksNothing (f.writing r) := by
  simp only [writing]
  split <;> rfl

lemma asksNothing_attempt {ε α β : Type} [Asking ε] {r : Except ε α} (hr : AsksNothing r)
    {k : α → Frame × Except ε β} (hk : ∀ a, r = .ok a → AsksNothing (k a)) :
    AsksNothing (f.attempt r k) := by
  cases r with
  | ok a => exact hk a rfl
  | error e => exact hr

/-- A read that is answered does not interrupt what follows it. -/
lemma asksNothing_reading {α β : Type} {r : Except Requirement α} (hr : ∃ a, r = .ok a)
    {k : α → Frame × Except Interrupt β} (hk : ∀ a, r = .ok a → AsksNothing (k a)) :
    AsksNothing (f.reading r k) := by
  obtain ⟨a, rfl⟩ := hr
  exact hk a rfl

lemma cannotEnter_ok (h : f.overlay.Knows f.context.address chain.log) (value : Word) :
    ∃ answer, f.cannotEnter chain value = .ok answer := by
  obtain ⟨balance, hb⟩ := h.balance_ok
  simp only [cannotEnter]
  split
  · exact ⟨true, rfl⟩
  · exact ⟨_, by rw [hb]; rfl⟩

lemma codeHash_ok {a : Address} (h : f.overlay.Knows a chain.log) :
    ∃ hash, f.codeHash chain a = .ok hash := by
  obtain ⟨there, ht⟩ := h.accountExists_ok
  obtain ⟨blank, hb⟩ := h.isEmpty_ok
  obtain ⟨code, hc⟩ := h.code_ok
  simp only [codeHash, ht, hb, hc, bind, Except.bind, pure, Except.pure]
  cases there <;> cases blank <;> exact ⟨_, rfl⟩

/-- A nonce that cannot be raised is a fault. -/
lemma asksNothing_nextNonce (nonce : Word) : AsksNothing (nextNonce nonce) := by
  simp only [nextNonce]
  split <;> rfl

lemma asksNothing_performCreate (h : f.overlay.Knows f.context.address chain.log) (afterGas : Gas)
    (value offset len : Word) (salt : Option Word) :
    AsksNothing (f.performCreate chain afterGas value offset len salt) := by
  simp only [performCreate]
  refine asksNothing_reading (cannotEnter_ok (f := { f with ret := _ }) h value)
    fun declined _ => ?_
  split
  · exact asksNothing_giving _ _ _
  · refine asksNothing_reading h.nonce_ok fun nonce _ => ?_
    refine asksNothing_attempt (asksNothing_nextNonce nonce) fun raised _ => ?_
    refine asksNothing_reading (h.update_ok _) fun overlay _ => ?_
    exact asksNothing_giving _ _ _

lemma asksNothing_performCall (h : f.overlay.Knows f.context.address chain.log)
    (o : CallOperands) (ho : f.overlay.Knows o.target chain.log) (kind : CallKind)
    (stipend afterGas : Gas) : AsksNothing (f.performCall chain kind stipend afterGas o) := by
  simp only [performCall]
  refine asksNothing_reading (cannotEnter_ok (f := { f with ret := _ }) h o.value)
    fun declined _ => ?_
  split
  · exact asksNothing_giving _ _ _
  · refine asksNothing_reading ho.code_ok fun code _ => ?_
    exact asksNothing_giving _ _ _

lemma asksNothing_performSelfDestruct (h : f.overlay.Knows f.context.address chain.log)
    {target : Address} (ht : f.overlay.Knows target chain.log) :
    AsksNothing (f.performSelfDestruct chain target) := by
  simp only [performSelfDestruct]
  refine asksNothing_reading h.balance_ok fun balance _ => ?_
  refine asksNothing_reading ht.moveBalance_ok fun overlay ho => ?_
  -- the account itself stays known while the target is paid
  have hself : overlay.Knows f.context.address chain.log := h.of_moveBalance ht ho
  refine asksNothing_reading hself.balance_ok fun remaining _ => ?_
  refine asksNothing_reading hself.moveBalance_ok fun settled _ => ?_
  exact rfl

lemma callOperands_target {kind : CallKind} {items rest : List Word} {o : CallOperands}
    (h : callOperands? kind items = some (o, rest)) :
    o.target = Address.ofWord (items[1]?.getD 0) := by
  simp only [callOperands?] at h
  split at h <;> simp at h <;> obtain ⟨rfl, rfl⟩ := h <;> rfl

/-- **A trapped opcode whose data are known is carried out to the end.** -/
lemma asksNothing_perform (h : f.HasData chain op.instruction) (stipend afterGas : Gas) :
    AsksNothing (f.perform chain op stipend afterGas) := by
  simp only [perform]
  split
  case h_1 => exact asksNothing_giving _ _ _
  case h_2 => exact asksNothing_giving _ _ _
  case h_3 a items hi hs =>
      rw [hi, HasData, operand_zero hs] at h
      exact asksNothing_reading h.balance_ok fun _ _ => asksNothing_giving _ _ _
  case h_4 a items hi hs =>
      rw [hi, HasData, operand_zero hs] at h
      exact asksNothing_reading h fun _ _ => asksNothing_giving _ _ _
  case h_5 a offset codeOffset len items hi hs =>
      rw [hi, HasData, operand_zero hs] at h
      exact asksNothing_reading h fun _ _ => asksNothing_writing _
  case h_6 a items hi hs =>
      rw [hi, HasData, operand_zero hs] at h
      exact asksNothing_reading (codeHash_ok (f := f.withItems items) h) fun _ _ =>
        asksNothing_giving _ _ _
  case h_7 => exact asksNothing_writing _
  case h_8 number items hi hs =>
      rw [hi, HasData, operand_zero hs] at h
      split
      · exact asksNothing_reading (h ‹_›) fun _ _ => asksNothing_giving _ _ _
      · exact asksNothing_giving _ _ _
  case h_9 index items hi hs =>
      rw [hi, HasData, operand_zero hs] at h
      exact asksNothing_reading h.2 fun _ _ => asksNothing_giving _ _ _
  case h_10 index value items hi hs =>
      rw [hi, HasData] at h
      exact asksNothing_reading (h.1.update_ok _) fun _ _ => rfl
  case h_11 => split <;> exact rfl
  case h_12 value offset len items hi hs =>
      rw [hi, HasData] at h
      exact asksNothing_performCreate (f := f.withItems items) h _ _ _ _ _
  case h_13 value offset len salt items hi hs =>
      rw [hi, HasData] at h
      exact asksNothing_performCreate (f := f.withItems items) h _ _ _ _ _
  case h_14 kind hi =>
      rw [hi, HasData] at h
      split
      · rename_i o items ho
        have htarget : o.target = Address.ofWord (f.operand 1) := callOperands_target ho
        exact asksNothing_performCall (f := f.withItems items) h.1 o (htarget ▸ h.2) _ _ _
      · exact rfl
  case h_15 target items hi hs =>
      rw [hi, HasData, operand_zero hs] at h
      exact asksNothing_performSelfDestruct (f := f.withItems items) h.1 h.2
  case h_16 => split <;> exact rfl

/-- **Past the check nothing is missing.**  However far memory was extended in between. -/
lemma asksNothing_execute (hop : f.machine.nextOpcode? = some op) (hc : f.check chain op = .ok ())
    (memory : Memory) (stipend afterGas : Gas) :
    AsksNothing ((f.withMemory memory).execute chain stipend afterGas) := by
  simp only [execute]
  split
  · exact rfl
  · exact rfl
  · rename_i machine trapped hstep
    obtain ⟨p, hnext, rfl⟩ := Machine.step_trap _ hstep
    -- a trap is the opcode that was checked, and its operands are still where they were
    obtain rfl : op = trapped := Option.some.inj (hop.symm.trans hnext)
    have hdata : f.HasData chain op.instruction :=
      hasData_of_checkKnown (check_parts.mp hc).2.2.2.2
    exact asksNothing_perform (hdata.congr (by rfl) (by rfl) (by rfl)) _ _

/-! ## Steps of a frame -/

/-- A step that misses a datum leaves its frame as it was. -/
lemma stepAt_requires (hop : f.machine.nextOpcode? = some op) {r : Requirement}
    (h : f.stepAt chain op = (g, .error (.requires r))) : g = f := by
  simp only [stepAt] at h
  cases hc : f.check chain op with
  | error refusal =>
      cases refusal <;> simp only [hc] at h <;> cases h
      rfl
  | ok =>
      simp only [hc] at h
      cases hcharge : f.charge chain op.instruction with
      | error missing =>
          simp only [hcharge, reading_error] at h
          cases h
          rfl
      | ok c =>
          simp only [hcharge, reading_ok] at h
          split at h
          · cases h
          · rename_i afterGas memory hafford
            -- the instruction has passed its check, so its execution misses nothing
            have hexec := asksNothing_execute hop hc memory c.stipend afterGas
            simp only [conclude] at h
            split at h
            · cases h
            · rename_i i he
              cases h
              rw [AsksNothing, he] at hexec
              cases hexec

lemma step_requires {r : Requirement} (h : f.step chain = (g, .error (.requires r))) : g = f := by
  simp only [step] at h
  split at h
  · split at h
    · cases h
    · split at h
      · cases h
      · exact stepAt_requires ‹_› h
  · cases h

/-! ## The life of a frame -/

/-- A transfer between two known accounts is carried out to the end. -/
lemma transfer_ok {s : Overlay} {payer payee : Address} {log : CommitLog}
    (hpayer : s.Knows payer log) (hpayee : s.Knows payee log) (value : Word) :
    ∃ paid moved, s.decreaseBalance payer value log = .ok paid ∧
      paid.increaseBalance payee value log = .ok moved ∧ moved.Knows payee log := by
  obtain ⟨paid, hpaid⟩ : ∃ paid, s.decreaseBalance payer value log = .ok paid :=
    hpayer.moveBalance_ok
  have hpayee' : paid.Knows payee log := hpayee.of_moveBalance hpayer hpaid
  obtain ⟨moved, hmoved⟩ : ∃ moved, paid.increaseBalance payee value log = .ok moved :=
    hpayee'.moveBalance_ok
  exact ⟨paid, moved, hpaid, hmoved, hpayee'.of_moveBalance hpayee' hmoved⟩

lemma beginCall_requires {r : Requirement} (h : f.beginCall chain = (g, .error r)) : g = f := by
  simp only [beginCall] at h
  cases hcaller : f.overlay.require f.context.caller chain.log with
  | error =>
      simp only [hcaller, attempt_error, Prod.mk.injEq] at h
      exact h.1.symm
  | ok =>
      cases haddress : f.overlay.require f.context.address chain.log with
      | error =>
          simp only [hcaller, haddress, attempt_ok, attempt_error, Prod.mk.injEq] at h
          exact h.1.symm
      | ok =>
          obtain ⟨paid, moved, hpaid, hmoved, -⟩ :=
            transfer_ok (Overlay.knows_iff_require.mpr hcaller)
              (Overlay.knows_iff_require.mpr haddress) f.context.value
          simp [hcaller, haddress, hpaid, hmoved] at h

lemma beginCreate_requires {r : Requirement} (h : f.beginCreate chain = (g, .error r)) :
    g = f := by
  simp only [beginCreate] at h
  cases hcaller : f.overlay.require f.context.caller chain.log with
  | error =>
      simp only [hcaller, attempt_error, Prod.mk.injEq] at h
      exact h.1.symm
  | ok =>
      cases haddress : f.overlay.require f.context.address chain.log with
      | error =>
          simp only [hcaller, haddress, attempt_ok, attempt_error, Prod.mk.injEq] at h
          exact h.1.symm
      | ok =>
          have hknown := Overlay.knows_iff_require.mpr haddress
          obtain ⟨taken, htaken⟩ := hknown.isTaken_ok
          obtain ⟨paid, moved, hpaid, hmoved, hnew⟩ :=
            transfer_ok (Overlay.knows_iff_require.mpr hcaller) hknown f.context.value
          obtain ⟨created, hcreated⟩ : ∃ s, moved.create f.context.address chain.log = .ok s :=
            hnew.update_ok _
          simp only [hcaller, haddress, htaken, hpaid, hmoved, hcreated, attempt_ok] at h
          split at h <;> cases h

lemma depositCode_requires {r : Requirement} (h : f.depositCode chain = (g, .error r)) :
    g = f := by
  unfold depositCode at h
  split at h
  · split at h
    · split at h <;> cases h
    · dsimp only at h
      split at h
      · split at h
        · simp only [attempt] at h
          split at h <;> cases h
          rfl
        · cases h
      · simp only [attempt] at h
        split at h <;> cases h
        rfl
  · cases h

lemma absorb_requires {parent parent' sub sub' : Frame} {r : Requirement}
    (h : parent.absorb sub chain = (parent', sub', .error r)) : parent' = parent ∧ sub' = sub := by
  simp only [absorb] at h
  split at h
  · split at h
    · cases h
    · cases h
      exact ⟨rfl, depositCode_requires ‹_›⟩
  · cases h
  · cases h

lemma settle_requires {usedGas : Gas} {preclaimed : Word} {fresh : Overlay} {beneficiary : Address}
    {r : Requirement}
    (h : f.settle chain usedGas preclaimed fresh beneficiary = (g, .error r)) : g = f := by
  simp only [settle, attempt] at h
  split at h
  · split at h <;> cases h
  · cases h
    rfl

end Frame

/-! ## Steps of a call stack -/

namespace CallStack

lemma step_requires {s s' : CallStack} {chain : ChainView} {r : Requirement}
    (h : s.step chain = (s', .error (.requires r))) : s' = s := by
  simp only [step] at h
  split at h
  · simp only [Prod.mk.injEq] at h
    obtain ⟨rfl, hr⟩ := h
    have hf : (s.current.step chain).1 = s.current := Frame.step_requires (Prod.ext rfl hr)
    rw [hf]
  · split at h <;> cases h
    rfl
  · split at h <;> cases h
    rfl
  · split at h
    · cases h
    · rename_i parent rest hw
      split at h <;> rename_i habsorb <;> cases h
      obtain ⟨rfl, rfl⟩ := Frame.absorb_requires habsorb
      rw [← hw]

end CallStack

/-- **A requirement leaves everything as it was.**  Whatever a frame or a call stack was doing when
    a datum turned out to be missing, it is in the end what it was before.  An instruction that
    has passed its check is carried out without missing anything, whatever memory and gas it was
    given. -/
theorem requirement_leaves_everything (chain : ChainView) :
    (∀ (f g : Frame) (r : Requirement), f.step chain = (g, .error (.requires r)) → g = f) ∧
    (∀ (f g : Frame) (r : Requirement), f.beginCall chain = (g, .error r) → g = f) ∧
    (∀ (f g : Frame) (r : Requirement), f.beginCreate chain = (g, .error r) → g = f) ∧
    (∀ (f g : Frame) (r : Requirement), f.depositCode chain = (g, .error r) → g = f) ∧
    (∀ (f g : Frame) (usedGas : Gas) (preclaimed : Word) (fresh : Overlay) (beneficiary : Address)
      (r : Requirement),
      f.settle chain usedGas preclaimed fresh beneficiary = (g, .error r) → g = f) ∧
    (∀ (s s' : CallStack) (r : Requirement), s.step chain = (s', .error (.requires r)) → s' = s) ∧
    (∀ (f : Frame) (op : Opcode), f.check chain op = .ok () →
      ∀ (memory : Memory) (stipend afterGas : Gas) (r : Requirement),
        ((f.withMemory memory).perform chain op stipend afterGas).2 ≠ .error (.requires r)) := by
  refine ⟨fun f g r h => Frame.step_requires h, fun f g r h => Frame.beginCall_requires h,
    fun f g r h => Frame.beginCreate_requires h, fun f g r h => Frame.depositCode_requires h,
    fun f g _ _ _ _ r h => Frame.settle_requires h, fun s s' r h => CallStack.step_requires h, ?_⟩
  intro f op hc memory stipend afterGas r hr
  have hdata : f.HasData chain op.instruction :=
    Frame.hasData_of_checkKnown (Frame.check_parts.mp hc).2.2.2.2
  have hnone : AsksNothing ((f.withMemory memory).perform chain op stipend afterGas) :=
    Frame.asksNothing_perform (hdata.congr (by rfl) (by rfl) (by rfl)) _ _
  have hasks : Asking.asked? ((f.withMemory memory).perform chain op stipend afterGas) = some r :=
    congrArg Asking.asked? hr
  cases hasks.symm.trans hnone

/-- A frame about to read a slot of its own account. -/
def slotReader : Frame :=
  (Frame.create ⟨100, 100, 200, ⟨#[0x54]⟩, ByteArray.empty, 1000, 1, 200, 0, 0, false⟩ 0
    (Overlay.empty .mainnet) .byzantium).withItems [0]

/-- Nobody has told that account, so the frame stays as it is and asks for it. -/
theorem slotReader_waits : slotReader.step ⟨.byzantium, {}, {}⟩ =
    (slotReader, .error (.requires (.account 100))) := by
  have hasks : (slotReader.step ⟨.byzantium, {}, {}⟩).2 = .error (.requires (.account 100)) := by
    rfl
  have hsame : (slotReader.step ⟨.byzantium, {}, {}⟩).1 = slotReader :=
    (requirement_leaves_everything ⟨.byzantium, {}, {}⟩).1 _ _ _ (Prod.ext rfl hasks)
  exact Prod.ext hsame hasks

end ResumableEvm
