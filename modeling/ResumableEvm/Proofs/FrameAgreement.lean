import ResumableEvm.Proofs.Agreement
import ResumableEvm.Proofs.Lifecycle

/-!
# Steps under a fuller log

Checks, prices, instructions and the beginnings and ends of frames agree with themselves under a
log that knows more.  So does a step, of a frame whose overlay is grounded and of a call stack
whose frames' overlays are; and a step keeps them so.

* `Frame.check_agree`, `Frame.charge_agree`, `Frame.perform_agree` — the parts of a step.
* `Frame.step_agree`, `Frame.Stepped.grounded` — a step of a frame.
* `CallStack.step_agree`, `CallStack.Stepped.grounded` — a step of a call stack.
-/

namespace ResumableEvm

instance : Asking Refusal where
  asked? := fun
    | .requires r => some r
    | .fails _ => none

namespace Frame

variable {log log' : CommitLog} (h : log.Within log') (rs : Ruleset) (block : Header)
  (f : Frame) (op : Opcode) (i : Instruction) (stipend afterGas : Gas)

include h

/-! ## Checks -/

lemma createdAddress?_agree (kind : CreateKind) :
    Agree log log' (f.createdAddress? ⟨rs, block, log⟩ kind)
      (f.createdAddress? ⟨rs, block, log'⟩ kind) := by
  cases kind with
  | byNonce => exact (f.overlay.nonce_agree h f.context.address).map _
  | bySalt =>
      simp only [createdAddress?]
      split <;> exact .refl rfl

lemma checkKnown_agree :
    Agree log log' (f.checkKnown ⟨rs, block, log⟩ i) (f.checkKnown ⟨rs, block, log'⟩ i) := by
  simp only [checkKnown]
  cases i with
  | balance | extCodeHash => exact f.overlay.require_agree h _
  | extCodeSize | extCodeCopy => exact f.overlay.requireCode_agree h _
  | sload | sstore =>
      refine (f.overlay.require_agree h _).bind fun _ _ => ?_
      exact (f.overlay.storage_agree h _ _).map _
  | call kind =>
      exact (f.overlay.require_agree h _).bind fun _ _ => f.overlay.require_agree h _
  | create kind =>
      refine (f.overlay.require_agree h _).bind fun _ _ => ?_
      refine (f.createdAddress?_agree h rs block kind).bind fun a _ => ?_
      cases a with
      | some a => exact f.overlay.require_agree h a
      | none => exact .refl rfl
  | selfDestruct =>
      exact (f.overlay.require_agree h _).bind fun _ _ => f.overlay.require_agree h _
  | blockHash =>
      dsimp only
      split
      · exact (h.blockHash_agree _).map _
      · exact .refl rfl
  | _ => exact .refl rfl

lemma check_agree :
    Agree log log' (f.check ⟨rs, block, log⟩ op) (f.check ⟨rs, block, log'⟩ op) := by
  have hfails : ∀ r : Except ExitError Unit, AsksNothing (r.mapError Refusal.fails) := by
    intro r
    cases r <;> rfl
  have hknown := (f.checkKnown_agree h rs block op.instruction).mapError Refusal.requires
    fun _ => rfl
  simp only [check]
  split
  · refine (Agree.refl (hfails _)).bind fun _ _ => ?_
    split
    · refine (Agree.refl (hfails _)).bind fun _ _ => ?_
      exact (Agree.refl (hfails _)).bind fun _ _ => hknown
    · exact (Agree.refl (hfails _)).bind fun _ _ => hknown
  · exact .refl rfl

/-! ## Charges -/

lemma makesAccount_agree (a : Address) (value : Word) :
    Agree log log' (f.makesAccount ⟨rs, block, log⟩ a value)
      (f.makesAccount ⟨rs, block, log'⟩ a value) := by
  simp only [makesAccount]
  split
  · exact (f.overlay.accountExists_agree h a).bind fun _ _ => .refl rfl
  · split
    · exact .refl rfl
    · exact f.overlay.isEmpty_agree h a

lemma callGas_agree (kind : CallKind) :
    Agree log log' (f.callGas ⟨rs, block, log⟩ kind) (f.callGas ⟨rs, block, log'⟩ kind) := by
  have hnew : Agree log log' (f.newAccountGas ⟨rs, block, log⟩ kind)
      (f.newAccountGas ⟨rs, block, log'⟩ kind) := by
    cases kind with
    | call => exact (f.makesAccount_agree h rs block _ _).bind fun _ _ => .refl rfl
    | _ => exact .refl rfl
  exact hnew.bind fun _ _ => .refl rfl

lemma selfDestructGas_agree :
    Agree log log' (f.selfDestructGas ⟨rs, block, log⟩) (f.selfDestructGas ⟨rs, block, log'⟩) := by
  have hmakes : ∀ value, Agree log log'
      (f.makesAccount ⟨rs, block, log⟩ (Address.ofWord (f.operand 0)) value >>= fun makes =>
        if makes then pure (rs.rules.gasSuicide + rs.rules.gasSuicideNewAccount)
        else pure rs.rules.gasSuicide)
      (f.makesAccount ⟨rs, block, log'⟩ (Address.ofWord (f.operand 0)) value >>= fun makes =>
        if makes then pure (rs.rules.gasSuicide + rs.rules.gasSuicideNewAccount)
        else pure rs.rules.gasSuicide) := by
    intro value
    refine (f.makesAccount_agree h rs block _ _).bind fun makes _ => ?_
    split <;> exact .refl rfl
  simp only [selfDestructGas]
  split
  · exact hmakes 0
  · exact (f.overlay.balance_agree h _).bind fun value _ => hmakes value

/-- A storage write depends on what was before the transaction only once the slot is known. -/
lemma slotWrite_agree (hg : f.overlay.Grounded log) :
    Agree log log' (f.slotWrite ⟨rs, block, log⟩) (f.slotWrite ⟨rs, block, log'⟩) := by
  unfold slotWrite
  refine (f.overlay.storage_agree h _ _).bind fun current hcurrent => ?_
  dsimp only
  rw [hg.initialStorage_eq h hcurrent]
  exact .refl rfl

lemma price_agree (hg : f.overlay.Grounded log) :
    Agree log log' (f.price ⟨rs, block, log⟩ i) (f.price ⟨rs, block, log'⟩ i) := by
  simp only [price]
  split
  case h_1 => exact f.callGas_agree h rs block _
  case h_2 => exact f.selfDestructGas_agree h rs block
  case h_3 => exact (f.slotWrite_agree h rs block hg).map _
  all_goals exact .refl rfl

lemma refundOf_agree (hg : f.overlay.Grounded log) :
    Agree log log' (f.refundOf ⟨rs, block, log⟩ i) (f.refundOf ⟨rs, block, log'⟩ i) := by
  cases i with
  | sstore => exact (f.slotWrite_agree h rs block hg).map _
  | _ => exact .refl rfl

lemma charge_agree (hg : f.overlay.Grounded log) :
    Agree log log' (f.charge ⟨rs, block, log⟩ i) (f.charge ⟨rs, block, log'⟩ i) := by
  simp only [charge]
  refine (f.price_agree h rs block i hg).bind fun price _ => ?_
  exact (f.refundOf_agree h rs block i hg).bind fun _ _ => .refl rfl

/-! ## Instructions -/

lemma cannotEnter_agree (value : Word) :
    Agree log log' (f.cannotEnter ⟨rs, block, log⟩ value)
      (f.cannotEnter ⟨rs, block, log'⟩ value) := by
  simp only [cannotEnter]
  split
  · exact .refl rfl
  · exact (f.overlay.balance_agree h _).bind fun _ _ => .refl rfl

lemma codeHash_agree (a : Address) :
    Agree log log' (f.codeHash ⟨rs, block, log⟩ a) (f.codeHash ⟨rs, block, log'⟩ a) := by
  simp only [codeHash]
  refine (f.overlay.accountExists_agree h a).bind fun there _ => ?_
  split
  · refine (f.overlay.isEmpty_agree h a).bind fun blank _ => ?_
    split
    · exact .refl rfl
    · exact (f.overlay.code_agree h a).bind fun _ _ => .refl rfl
  · exact .refl rfl

lemma performCreate_agree (value offset len : Word) (salt : Option Word) :
    Agree log log' (f.performCreate ⟨rs, block, log⟩ afterGas value offset len salt)
      (f.performCreate ⟨rs, block, log'⟩ afterGas value offset len salt) := by
  simp only [performCreate]
  refine (cannotEnter_agree h rs block _ value).reading fun declined _ => ?_
  split
  · exact .refl (asksNothing_giving _ _ _)
  · refine (f.overlay.nonce_agree h _).reading fun nonce _ => ?_
    refine (Agree.refl (asksNothing_nextNonce nonce)).attempt fun raised _ => ?_
    exact (f.overlay.update_agree h _ _).reading fun overlay _ =>
      .refl (asksNothing_giving _ _ _)

lemma performCall_agree (kind : CallKind) (o : CallOperands) :
    Agree log log' (f.performCall ⟨rs, block, log⟩ kind stipend afterGas o)
      (f.performCall ⟨rs, block, log'⟩ kind stipend afterGas o) := by
  simp only [performCall]
  refine (cannotEnter_agree h rs block _ o.value).reading fun declined _ => ?_
  split
  · exact .refl (asksNothing_giving _ _ _)
  · exact (f.overlay.code_agree h _).reading fun code _ => .refl (asksNothing_giving _ _ _)

/-- Both balances that a self-destruction moves are known. -/
lemma performSelfDestruct_agree {target : Address} (hself : f.overlay.Knows f.context.address log)
    (htarget : f.overlay.Knows target log) :
    Agree log log' (f.performSelfDestruct ⟨rs, block, log⟩ target)
      (f.performSelfDestruct ⟨rs, block, log'⟩ target) := by
  simp only [performSelfDestruct]
  refine (f.overlay.balance_agree h _).reading fun balance _ => ?_
  refine (f.overlay.moveBalance_agree h _ _ htarget).reading fun paid hpaid => ?_
  have hself' : paid.Knows f.context.address log := hself.of_moveBalance htarget hpaid
  refine (paid.balance_agree h _).reading fun remaining _ => ?_
  exact (paid.moveBalance_agree h _ _ hself').reading fun overlay _ => .refl rfl

lemma perform_agree (hd : f.HasData ⟨rs, block, log⟩ op.instruction) :
    Agree log log' (f.perform ⟨rs, block, log⟩ op stipend afterGas)
      (f.perform ⟨rs, block, log'⟩ op stipend afterGas) := by
  simp only [perform]
  split
  case h_1 => exact .refl (asksNothing_giving _ _ _)
  case h_2 => exact .refl (asksNothing_giving _ _ _)
  case h_3 =>
      exact (f.overlay.balance_agree h _).reading fun _ _ => .refl (asksNothing_giving _ _ _)
  case h_4 =>
      exact (f.overlay.code_agree h _).reading fun _ _ => .refl (asksNothing_giving _ _ _)
  case h_5 =>
      exact (f.overlay.code_agree h _).reading fun _ _ => .refl (asksNothing_writing _)
  case h_6 =>
      exact (codeHash_agree h rs block _ _).reading fun _ _ => .refl (asksNothing_giving _ _ _)
  case h_7 => exact .refl (asksNothing_writing _)
  case h_8 =>
      split
      · exact (h.blockHash_agree _).reading fun _ _ => .refl (asksNothing_giving _ _ _)
      · exact .refl (asksNothing_giving _ _ _)
  case h_9 =>
      exact (f.overlay.storage_agree h _ _).reading fun _ _ => .refl (asksNothing_giving _ _ _)
  case h_10 => exact (f.overlay.update_agree h _ _).reading fun _ _ => .refl rfl
  case h_11 => split <;> exact .refl rfl
  case h_12 => exact performCreate_agree h rs block _ _ _ _ _ _
  case h_13 => exact performCreate_agree h rs block _ _ _ _ _ _
  case h_14 =>
      split
      · exact performCall_agree h rs block _ _ _ _ _
      · exact .refl rfl
  case h_15 target items hi hitems =>
      rw [hi, HasData, operand_zero hitems] at hd
      exact performSelfDestruct_agree h rs block _ hd.1 hd.2
  case h_16 => split <;> exact .refl rfl

/-! ## Steps -/

lemma execute_agree (hop : f.machine.nextOpcode? = some op)
    (hd : f.HasData ⟨rs, block, log⟩ op.instruction) :
    Agree log log' (f.execute ⟨rs, block, log⟩ stipend afterGas)
      (f.execute ⟨rs, block, log'⟩ stipend afterGas) := by
  simp only [execute]
  split
  · exact .refl rfl
  · exact .refl rfl
  · rename_i machine trapped hstep
    obtain ⟨p, hnext, rfl⟩ := Machine.step_trap _ hstep
    obtain rfl : op = trapped := Option.some.inj (hop.symm.trans hnext)
    exact perform_agree h rs block _ _ _ _ (hd.congr (by rfl) (by rfl) (by rfl))

lemma stepAt_agree (hg : f.overlay.Grounded log) (hop : f.machine.nextOpcode? = some op) :
    Agree log log' (f.stepAt ⟨rs, block, log⟩ op) (f.stepAt ⟨rs, block, log'⟩ op) := by
  have hcheck := f.check_agree h rs block op
  simp only [stepAt]
  dsimp only [ChainView.rules]
  cases hc : f.check ⟨rs, block, log⟩ op with
  | error refusal =>
      rw [hc] at hcheck
      cases refusal with
      | fails e =>
          rw [hcheck.same rfl]
          exact .refl rfl
      | requires missing =>
          refine .asks rfl (hcheck.lacks rfl) fun hl => ?_
          rw [hcheck.waits rfl hl]
  | ok =>
      rw [hc] at hcheck
      rw [hcheck.same rfl]
      have hd : f.HasData ⟨rs, block, log⟩ op.instruction :=
        hasData_of_checkKnown (check_parts.mp hc).2.2.2.2
      refine (f.charge_agree h rs block _ hg).reading fun c _ => ?_
      split
      · exact .refl rfl
      · rename_i afterGas memory hafford
        have hexecute := execute_agree h rs block (f.withMemory memory) op c.stipend afterGas hop
          (hd.congr (by rfl) (by rfl) (by rfl))
        refine hexecute.through (conclude c) fun y => ?_
        obtain ⟨g, i | done⟩ := y <;> rfl

lemma step_agree (hg : f.overlay.Grounded log) :
    Agree log log' (f.step ⟨rs, block, log⟩) (f.step ⟨rs, block, log'⟩) := by
  unfold step
  split
  · dsimp only
    split
    · exact .refl rfl
    · split
      · exact .refl rfl
      · exact f.stepAt_agree h rs block _ hg ‹_›
  · exact .refl rfl

/-! ## The life of a frame -/

/-- The payer and the payee of a call are known before anything is paid. -/
lemma beginCall_agree :
    Agree log log' (f.beginCall ⟨rs, block, log⟩) (f.beginCall ⟨rs, block, log'⟩) := by
  simp only [beginCall]
  refine (f.overlay.require_agree h _).attempt fun _ hcaller => ?_
  refine (f.overlay.require_agree h _).attempt fun _ haddress => ?_
  have hc := Overlay.knows_iff_require.mpr hcaller
  have ha := Overlay.knows_iff_require.mpr haddress
  refine (f.overlay.moveBalance_agree h _ _ hc).attempt fun paid hpaid => ?_
  have ha' : paid.Knows f.context.address log := ha.of_moveBalance hc hpaid
  exact (paid.moveBalance_agree h _ _ ha').attempt fun _ _ => .refl rfl

lemma beginCreate_agree :
    Agree log log' (f.beginCreate ⟨rs, block, log⟩) (f.beginCreate ⟨rs, block, log'⟩) := by
  simp only [beginCreate]
  refine (f.overlay.require_agree h _).attempt fun _ hcaller => ?_
  refine (f.overlay.require_agree h _).attempt fun _ haddress => ?_
  have hc := Overlay.knows_iff_require.mpr hcaller
  have ha := Overlay.knows_iff_require.mpr haddress
  refine (f.overlay.isTaken_agree h _).attempt fun taken _ => ?_
  split
  · exact .refl rfl
  · refine (f.overlay.moveBalance_agree h _ _ hc).attempt fun paid hpaid => ?_
    have ha' : paid.Knows f.context.address log := ha.of_moveBalance hc hpaid
    refine (paid.moveBalance_agree h _ _ ha').attempt fun moved _ => ?_
    exact (moved.update_agree h _ _).attempt fun _ _ => .refl rfl

lemma depositCode_agree :
    Agree log log' (f.depositCode ⟨rs, block, log⟩) (f.depositCode ⟨rs, block, log'⟩) := by
  simp only [depositCode]
  split
  · split
    · split <;> exact .refl rfl
    · split
      · split
        · exact (f.overlay.update_agree h _ _).attempt fun _ _ => .refl rfl
        · exact .refl rfl
      · exact (f.overlay.update_agree h _ _).attempt fun _ _ => .refl rfl
  · exact .refl rfl

lemma absorb_agree (sub : Frame) :
    Agree log log' (f.absorb sub ⟨rs, block, log⟩) (f.absorb sub ⟨rs, block, log'⟩) := by
  simp only [absorb]
  split
  · have hdeposit := sub.depositCode_agree h rs block
    rcases hd : sub.depositCode ⟨rs, block, log⟩ with ⟨sub', r | ⟨⟩⟩ <;> rw [hd] at hdeposit
    · refine .asks rfl (hdeposit.lacks rfl) fun hl => ?_
      rw [hdeposit.waits rfl hl]
    · rw [hdeposit.same rfl]
      exact .refl rfl
  · exact .refl rfl
  · exact .refl rfl

end Frame

/-- **A step of a call stack** agrees with itself under a fuller log. -/
lemma CallStack.step_agree {log log' : CommitLog} (h : log.Within log') (rs : Ruleset)
    (block : Header) (s : CallStack) (hg : s.current.overlay.Grounded log) :
    Agree log log' (s.step ⟨rs, block, log⟩) (s.step ⟨rs, block, log'⟩) := by
  simp only [step]
  dsimp only [ChainView.rules]
  split
  · exact (s.current.step_agree h rs block hg).through
      (fun p => (({ s with current := p.1 }, p.2) : CallStack × Except Interrupt (Option Event)))
      fun _ => rfl
  · rename_i context _ _ _
    have hbegin := (s.current.derive context rs.rules).beginCall_agree h rs block
    rcases hb : (s.current.derive context rs.rules).beginCall ⟨rs, block, log⟩ with
      ⟨sub, r | ⟨⟩⟩ <;> rw [hb] at hbegin
    · refine .asks rfl (hbegin.lacks rfl) fun hl => ?_
      rw [hbegin.waits rfl hl]
    · rw [hbegin.same rfl]
      exact .refl rfl
  · rename_i context _
    have hbegin := (s.current.derive context rs.rules).beginCreate_agree h rs block
    rcases hb : (s.current.derive context rs.rules).beginCreate ⟨rs, block, log⟩ with
      ⟨sub, r | ⟨⟩⟩ <;> rw [hb] at hbegin
    · refine .asks rfl (hbegin.lacks rfl) fun hl => ?_
      rw [hbegin.waits rfl hl]
    · rw [hbegin.same rfl]
      exact .refl rfl
  · split
    · exact .refl rfl
    · rename_i parent rest hw
      have habsorb := parent.absorb_agree h rs block s.current
      rcases ha : parent.absorb s.current ⟨rs, block, log⟩ with ⟨parent', sub, r | ⟨⟩⟩ <;>
        rw [ha] at habsorb
      · refine .asks rfl (habsorb.lacks rfl) fun hl => ?_
        rw [habsorb.waits rfl hl]
      · rw [habsorb.same rfl]
        exact .refl rfl

/-! ## Overlays stay grounded -/

namespace Frame

variable {chain : ChainView} {f g : Frame} {i : Instruction} {stipend afterGas : Gas}
  {control : FrameControl}

/-- **Two frames that have done the same** to the accounts, the log and the refund. -/
structure SameTraces (f g : Frame) : Prop where
  overlay : g.overlay = f.overlay
  removed : g.removed = f.removed
  logs : g.logs = f.logs
  refund : g.refund = f.refund

lemma SameTraces.trans {k : Frame} (h : f.SameTraces g) (h' : g.SameTraces k) : f.SameTraces k :=
  ⟨h'.overlay.trans h.overlay, h'.removed.trans h.removed, h'.logs.trans h.logs,
    h'.refund.trans h.refund⟩

lemma runPrecompile_traces (f : Frame) (c : Precompile) : f.SameTraces (f.runPrecompile c) := by
  simp only [runPrecompile]
  split <;> exact ⟨rfl, rfl, rfl, rfl⟩

lemma follow_traces (f : Frame) (control : FrameControl) : f.SameTraces (f.follow control) := by
  cases control with
  | exit reason =>
      simp only [follow]
      split <;> exact ⟨rfl, rfl, rfl, rfl⟩
  | _ => exact ⟨rfl, rfl, rfl, rfl⟩

/-- The slot that is written was read by the check before. -/
lemma Effect.grounded (h : f.Effect chain stipend afterGas i g control)
    (hd : f.HasData chain i) (hg : f.overlay.Grounded chain.log) :
    g.overlay.Grounded chain.log := by
  cases h with
  | compute | log | call => exact hg
  | store program written => exact hg.writeStorage hd.2 written
  | create program raised result => exact hg.setNonce raised
  | destroy program pays clears => exact ((hg.moveBalance pays).moveBalance clears).touch _

lemma Stepped.grounded (h : f.Stepped chain g) (hg : f.overlay.Grounded chain.log) :
    g.overlay.Grounded chain.log := by
  cases h with
  | idle | past | refused | unaffordable => exact hg
  | precompile running contract => exact (runPrecompile_traces f _).overlay ▸ hg
  | executed running code checked charged afforded effect =>
      rw [(follow_same _ _).2.2.2.1]
      have hd := hasData_of_checkKnown (check_parts.mp checked).2.2.2.2
      exact effect.grounded (hd.congr (by rfl) (by rfl) (by rfl)) hg

lemma Begun.grounded (h : f.Begun chain g) (hg : f.overlay.Grounded chain.log) :
    g.overlay.Grounded chain.log := by
  cases h with
  | call pays moves => exact ((hg.moveBalance pays).moveBalance moves).touch _
  | create pays moves creates =>
      exact (((hg.moveBalance pays).moveBalance moves).create creates).touch _
  | collision => exact hg

lemma Deposited.grounded (h : f.Deposited chain g) (hg : f.overlay.Grounded chain.log) :
    g.overlay.Grounded chain.log := by
  cases h with
  | skipped | failed => exact hg
  | empty ended deposits => exact hg.depositCode deposits
  | paid ended affordable deposits => exact hg.depositCode deposits

lemma copyOutput_traces (f : Frame) (offset len : Word) (out : Bytes) :
    f.SameTraces (f.copyOutput offset len out) := by
  simp only [copyOutput]
  split <;> exact ⟨rfl, rfl, rfl, rfl⟩

lemma failTop_traces (f : Frame) : f.SameTraces f.failTop := by
  simp only [failTop]
  split <;> exact ⟨rfl, rfl, rfl, rfl⟩

/-- A frame that goes on has done what it had done, and where the frame it took back has ended well
    also what that one has done. -/
lemma resume_traces (f sub : Frame) (region : Option (Word × Word)) :
    sub.status ≠ .exitedOk ∧ f.SameTraces (f.resume sub region) ∨
      sub.status = .exitedOk ∧
        (f.adopt sub ByteArray.empty).SameTraces (f.resume sub region) := by
  have hfail : ∀ ret, f.SameTraces { ({ f with
      status := .running, usedGas := f.usedGas + sub.totalUsedGas } : Frame).failTop with
        ret := ret } := fun ret =>
    have h := Frame.failTop_traces { f with
      status := .running, usedGas := f.usedGas + sub.totalUsedGas }
    ⟨h.overlay, h.removed, h.logs, h.refund⟩
  simp only [resume]
  cases region with
  | none =>
      dsimp only
      split <;> rename_i hs
      · exact .inr ⟨hs, rfl, rfl, rfl, rfl⟩
      · exact .inl ⟨by simp [hs], hfail _⟩
      · exact .inl ⟨by simp [hs], hfail _⟩
      · exact .inl ⟨by simp [hs], rfl, rfl, rfl, rfl⟩
      · exact .inl ⟨‹_›, rfl, rfl, rfl, rfl⟩
  | some region =>
      dsimp only
      split <;> rename_i hs
      · have h := copyOutput_traces (({ f with
          status := .running, usedGas := f.usedGas + sub.totalUsedGas } : Frame).adopt sub sub.out)
          region.1 region.2 sub.out
        exact .inr ⟨hs, h.overlay, h.removed, h.logs, h.refund⟩
      · exact .inl ⟨by simp [hs], (hfail _).trans (copyOutput_traces _ _ _ _)⟩
      · exact .inl ⟨by simp [hs], hfail _⟩
      · exact .inl ⟨by simp [hs], rfl, rfl, rfl, rfl⟩
      · exact .inl ⟨‹_›, rfl, rfl, rfl, rfl⟩

lemma resume_overlay (f sub : Frame) (region : Option (Word × Word)) :
    (f.resume sub region).overlay = f.overlay ∨ (f.resume sub region).overlay = sub.overlay :=
  (f.resume_traces sub region).imp (fun h => h.2.overlay) fun h => h.2.overlay

lemma Absorbed.grounded {ended parent sub : Frame} (h : f.Absorbed ended chain parent sub)
    (hf : f.overlay.Grounded chain.log) (hended : ended.overlay.Grounded chain.log) :
    parent.overlay.Grounded chain.log := by
  have hresume : ∀ {sub : Frame} {region : Option (Word × Word)},
      sub.overlay.Grounded chain.log → (f.resume sub region).overlay.Grounded chain.log := by
    intro sub region hsub
    rcases f.resume_overlay sub region with heq | heq <;> rw [heq] <;> assumption
  cases h with
  | returned => exact hresume hended
  | created asked deposited => exact hresume (deposited.grounded hended)
  | dropped => exact hf

end Frame

namespace CallStack

variable {log log' : CommitLog} {s s' : CallStack} {chain : ChainView}

/-- Every frame's overlay is grounded. -/
def Grounded (s : CallStack) (log : CommitLog) : Prop :=
  ∀ f ∈ s.current :: s.waiting, f.overlay.Grounded log

lemma Grounded.within (hg : s.Grounded log) (h : log.Within log') : s.Grounded log' :=
  fun f hf => (hg f hf).within h

/-- **A step keeps every overlay grounded.** -/
lemma Stepped.grounded (h : s.Stepped chain s') (hg : s.Grounded chain.log) :
    s'.Grounded chain.log := by
  have hcurrent : s.current.overlay.Grounded chain.log := hg _ List.mem_cons_self
  have hwaiting : ∀ f ∈ s.waiting, f.overlay.Grounded chain.log :=
    fun f hf => hg f (List.mem_cons_of_mem _ hf)
  -- a frame on top of frames that are grounded
  have hcons : ∀ {g : Frame} {rest : List Frame}, g.overlay.Grounded chain.log →
      (∀ f ∈ rest, f.overlay.Grounded chain.log) →
        (⟨g, rest⟩ : CallStack).Grounded chain.log := by
    intro g rest hgrounded hrest f hf
    rcases List.mem_cons.mp hf with rfl | hf
    · exact hgrounded
    · exact hrest f hf
  cases h with
  | ran running stepped => exact hcons (stepped.grounded hcurrent) hwaiting
  | entered asked begun => exact hcons (begun.grounded hcurrent) hg
  | rested => exact hg
  | left ended below absorbs =>
      rw [below] at hwaiting
      have habsorbed := Frame.absorb_absorbed absorbs
      exact hcons (habsorbed.grounded (hwaiting _ List.mem_cons_self) hcurrent)
        fun f hf => hwaiting f (List.mem_cons_of_mem _ hf)

end CallStack

end ResumableEvm
