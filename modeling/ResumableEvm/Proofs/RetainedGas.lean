import ResumableEvm.Proofs.CallStackShape

/-!
# The gas that a caller keeps

Under the rules that hold back a 64th, a frame that calls or creates hands on at most all but a
64th of the gas that its instruction has left, and a call of value the stipend on top, which its
price has covered.  Whatever the frame that is entered does, it lives on what it was given.  So
once it has gone back the caller runs on with that 64th at least.

* `Instruction.Hands` — what a call or a creation gives to the frame that it asks for.
* `Frame.Pays` — the next instruction of a frame, and the gas that it leaves.
* `Frame.Retains` — a frame that has asked for another and has kept gas back.
* `CallStack.Stepped.lifts` — what happens above some frames is a run of its own.
* `caller_keeps_its_64th` — what a frame has when the one that it asked for goes back.
-/

namespace ResumableEvm

/-- **What a call or a creation gives** to the frame that it asks for, of the gas that it has
    left. -/
inductive Instruction.Hands (left : Gas) (context : Context) : Instruction → Prop where
  | create {kind : CreateKind} (given : context.gasLimit.toNat = left.toNat - left.toNat / 64) :
      Hands left context (.create kind)
  /-- A call of value hands on the stipend as well. -/
  | call {kind : CallKind} (given : context.gasLimit.toNat ≤
        left.toNat - left.toNat / 64 + if context.value = 0 then 0 else 2300) :
      Hands left context (.call kind)

/-- What is handed on never reaches the largest amount. -/
lemma Instruction.Hands.lt_maxWord {i : Instruction} {left : Gas} {context : Context}
    (h : i.Hands left context) : context.gasLimit.toNat < maxWord := by
  have hleft := left.toNat_le
  have hmax : 64 * 2400 < maxWord := by decide
  cases h with
  | create given => omega
  | call given =>
      split at given <;> omega

namespace Frame

variable {f g ended sub : Frame} {chain : ChainView} {i : Instruction} {c : Charge} {op : Opcode}
  {stipend left : Gas} {control : FrameControl} {context : Context} {memory : Memory}

/-- **The next instruction of a frame and what it leaves** of its gas, once it and its memory have
    been paid for. -/
structure Pays (f : Frame) (chain : ChainView) (op : Opcode) (left : Gas) : Prop where
  next : f.machine.nextOpcode? = some op
  affords : ∃ c memory, f.charge chain op.instruction = .ok c ∧
    f.afford chain.rules op.instruction c = .ok (left, memory)

/-- **A frame that has asked for another and has kept gas back:** what it has used, what it has
    given away and what it keeps fit together under its limit. -/
def Retains (f : Frame) (given kept : ℕ) : Prop :=
  0 < kept → f.spent + given + kept ≤ f.limit

/-! ## What is handed on -/

lemma toNat_forwardable (hkeeps : chain.rules.keeps64th = true) (left : Gas) :
    (forwardable chain.rules left).toNat = left.toNat - left.toNat / 64 := by
  rw [forwardable, if_pos hkeeps, Gas.allBut64th, Gas.toNat_sub, Gas.toNat_divNat]

/-- A frame that is asked for gets at most what may be handed on, and the stipend. -/
lemma Effect.given_le (h : f.Effect chain stipend left i g control)
    (hkeeps : chain.rules.keeps64th = true) (hc : control.invoked? = some context) :
    context.gasLimit.toNat ≤ left.toNat - left.toNat / 64 + stipend.toNat := by
  have hforward := toNat_forwardable hkeeps left
  cases h with
  | compute program stays => rcases stays with rfl | ⟨reason, rfl⟩ <;> cases hc
  | store | log | destroy => cases hc
  | create =>
      cases hc
      exact hforward.le.trans (Nat.le_add_right _ _)
  | call =>
      cases hc
      rw [callContext_gasLimit, Gas.toNat_add, Gas.toNat_min, hforward]
      omega

/-- A call hands on the stipend if it moves value. -/
lemma stipend_of_call {kind : CallKind} {o : CallOperands} {items : List Word}
    (h : callOperands? kind f.machine.stack.items = some (o, items)) (target : Address)
    (code input : Bytes) (gasLimit : Gas) :
    (f.stipend (.call kind)).toNat =
      if (callContext kind f.context target code input gasLimit o.value).value = 0 then 0
      else 2300 := by
  simp only [callOperands?] at h
  split at h
  case h_1 hitems | h_2 hitems =>
      cases h
      simp only [stipend, operand, OperandStack.peekD, hitems, callContext]
      simp only [List.getElem?_cons_succ, List.getElem?_cons_zero, Option.getD_some]
      exact apply_ite Gas.toNat _ _ _
  case h_3 | h_4 =>
      cases h
      rfl
  case h_5 => cases h

lemma Effect.hands (h : (f.withMemory memory).Effect chain (f.stipend i) left i g control)
    (hkeeps : chain.rules.keeps64th = true) (hc : control.invoked? = some context) :
    i.Hands left context := by
  have hgiven := h.given_le hkeeps hc
  cases h with
  | compute program stays => rcases stays with rfl | ⟨reason, rfl⟩ <;> cases hc
  | store | log | destroy => cases hc
  | create =>
      cases hc
      exact .create (toNat_forwardable hkeeps left)
  | call program same taken =>
      cases hc
      exact .call (stipend_of_call (f := f) taken _ _ _ _ ▸ hgiven)

/-! ## What is kept -/

/-- What an instruction has left makes up the limit together with what was used for it, since sums
    saturate only where nothing is left. -/
lemma spent_book_of_left (hs : c.stipend.toNat ≤ c.price.toNat)
    (hafford : (f.gasAfter c).toNat + left.toNat = f.limit) (hleft : 0 < left.toNat)
    (hused : g.usedGas = f.usedGas) :
    (g.book c).spent + c.stipend.toNat + left.toNat = f.limit := by
  have hlimit : f.limit ≤ maxWord := f.context.gasLimit.toNat_le
  simp only [gasAfter] at hafford
  simp only [spent, book]
  simp only [Gas.toNat_add, Gas.toNat_sub, hused] at hafford ⊢
  omega

/-- **A step that asks for a frame** is a call or a creation, and keeps a 64th back. -/
lemma Stepped.retains (h : f.Stepped chain g) (hpays : f.Pays chain op left)
    (hkeeps : chain.rules.keeps64th = true) (hr : f.status = .running)
    (hasked : g.status.invoked? = some context) :
    op.instruction.Hands left context ∧
      g.Retains context.gasLimit.toNat (left.toNat / 64) := by
  cases h with
  | idle resting => exact absurd hr resting
  | precompile => cases (FrameStatus.invoked?_eq_none (runPrecompile_exited _ _)).symm.trans hasked
  | past | refused => cases hasked
  | unaffordable => cases (f.invoked?_exit _).symm.trans hasked
  | @executed g op' c afterGas memory control running code checked charged afforded effect next =>
      obtain ⟨hnext, c', memory', hcharged, hafforded⟩ := hpays
      cases hnext.symm.trans next
      cases hcharged.symm.trans charged
      cases hafforded.symm.trans afforded
      obtain ⟨-, hprice, hstipend⟩ := charge_eq_ok charged
      obtain ⟨hused, -, hcontext, hstatus⟩ := effect.same
      have hinvoked : control.invoked? = some context :=
        (follow_status (f := g.book c) (hstatus.trans running) control).1.symm.trans hasked
      have hgiven := effect.given_le hkeeps hinvoked
      refine ⟨(hstipend ▸ effect).hands hkeeps hinvoked, fun hkept => ?_⟩
      have hpaid : (g.book c).spent + c.stipend.toNat + left.toNat = f.limit :=
        spent_book_of_left (hstipend ▸ stipend_le_price hprice) (afford_eq_ok afforded).1
          (by omega) hused
      obtain ⟨hctx, hgas, hwords, -, -⟩ := (g.book c).follow_same control
      have hspent : ((g.book c).follow control).spent = (g.book c).spent := by
        simp only [spent]
        rw [hgas, hwords]
      have hlimit : ((g.book c).follow control).limit = f.limit :=
        congrArg (fun context : Context => context.gasLimit.toNat) (hctx.trans hcontext)
      rw [hspent, hlimit]
      omega

/-! ## Going back -/

lemma Outlives.running (h : f.Outlives sub g) : g.status = .running := by
  cases h <;> rfl

/-- A frame that can be gone back into runs on after one that has ended well. -/
lemma resume_running {rules : Rules} (hf : f.Poised rules) {region : Option (Word × Word)}
    (hregion : ∀ outOffset outLen, region = some (outOffset, outLen) →
      outLen = 0 ∨ outOffset.toNat + outLen.toNat ≤ rules.memoryLimit.toNat)
    (hok : sub.status = .exitedOk) : (f.resume sub region).status = .running := by
  cases region with
  | none =>
      simp only [resume, hok]
      rfl
  | some region =>
      let resumed : Frame := { f with status := .running, usedGas := f.usedGas + sub.totalUsedGas }
      have hresume : f.resume sub (some region) =
          (resumed.adopt sub sub.out).copyOutput region.1 region.2 sub.out := by
        simp only [resume, hok]
        rfl
      obtain ⟨memory, hcopy, -⟩ := copyOutput_eq (f := resumed.adopt sub sub.out) sub.out
        (hf.memoryLimit.trans_le (memoryLimit_le rules))
        (hf.memoryLimit.symm ▸ hregion region.1 region.2 rfl)
      rw [hresume, hcopy]
      rfl

/-- **A frame that can be gone back into runs on,** unless the one it asked for was not
    supported. -/
lemma Absorbed.running {rules : Rules} (h : f.Absorbed ended chain g sub) (hf : f.Poised rules)
    (hasked : f.status.invoked? = some context) (hended : ended.status.isExited = true)
    (hsupported : ∀ e, sub.status ≠ .exitedNotSupported e) : g.status = .running := by
  obtain ⟨hexited, -⟩ := h.resumes hasked hended
  cases hs : sub.status with
  | exitedErr e => exact (h.outlives hf hasked hs).running
  | exitedNotSupported e => exact absurd hs (hsupported e)
  | running | invokeCall | invokeCreate =>
      rw [hs] at hexited
      cases hexited
  | exitedOk =>
      cases h with
      | returned asked =>
          refine resume_running hf (fun outOffset outLen heq => ?_) hs
          cases heq
          exact hf.region _ _ _ asked
      | created => exact resume_running hf nofun hs
      | dropped unasked => cases unasked.symm.trans hasked

/-- A frame that goes back has used no more than its limit. -/
lemma Absorbed.total_le (h : f.Absorbed ended chain g sub) (hended : ended.Solvent chain.ruleset) :
    sub.totalUsedGas.toNat ≤ ended.limit := by
  cases h with
  | returned | dropped => exact hended.total_le
  | created asked deposited =>
      have hmove := deposited.spends hended
      have hlimit : sub.limit = ended.limit :=
        congrArg (fun context : Context => context.gasLimit.toNat) hmove.context
      exact hlimit ▸ hmove.solvent.total_le

/-- **Going back** to a frame that has kept gas back, from one that has used no more than it was
    given. -/
lemma Retains.resume {given kept : ℕ} (h : f.Retains given kept)
    (hsub : sub.totalUsedGas.toNat ≤ given) {region : Option (Word × Word)}
    (hr : (f.resume sub region).status = .running) :
    kept ≤ (f.resume sub region).availableGas.toNat := by
  obtain ⟨hused, hwords, hcontext, -⟩ := f.keeps_resume sub region
  rcases Nat.eq_zero_or_pos kept with rfl | hkept
  · exact Nat.zero_le _
  · have hlimit : f.limit ≤ maxWord := f.context.gasLimit.toNat_le
    have hfits := h hkept
    have htotal := total_eq_spent (f := f.resume sub region) (ne_exitedErr_of_running hr)
    simp only [availableGas, Gas.toNat_sub, htotal, hcontext]
    simp only [spent, limit, hused, hwords] at *
    simp only [Gas.toNat_add] at *
    omega

end Frame

/-! ## Runs above some frames -/

namespace CallStack

variable {rs : Ruleset} {block : Header} {root context : Context} {s s' t : CallStack}
  {chain : ChainView} {above base : List Frame}

/-- **What happens above some frames is a run of its own,** as long as none of them goes on. -/
lemma Stepped.lifts (h : s.Stepped chain s') (hs : s.waiting = above ++ base)
    (hstays : base.length ≤ s'.waiting.length) : ∃ above', s'.waiting = above' ++ base ∧
      (⟨s.current, above⟩ : CallStack).Stepped chain ⟨s'.current, above'⟩ := by
  cases h with
  | ran running stepped => exact ⟨above, hs, .ran running stepped⟩
  | entered asked begun =>
      refine ⟨s.current :: above, ?_, .entered asked begun⟩
      simp only [enter, hs, List.cons_append]
  | rested ended alone =>
      have hnone : above = [] := (List.append_eq_nil_iff.mp (hs.symm.trans alone)).1
      exact ⟨above, hs, .rested ended hnone⟩
  | @left parent parent' sub rest ended below absorbs =>
      rw [below] at hs
      cases above with
      | nil =>
          rw [List.nil_append] at hs
          simp only [← hs, List.length_cons] at hstays
          omega
      | cons g above =>
          cases hs
          exact ⟨above, rfl, .left ended rfl absorbs⟩

/-- What a frame has been given is all that it and the frames above it ever use. -/
lemma Inside.funded {budget : ℕ} (h : Inside rs block base.length s t) (hs : s.waiting = base)
    (hfunded : Frame.Funded rs budget s.current []) :
    ∃ above, t.waiting = above ++ base ∧ Funded rs budget ⟨t.current, above⟩ := by
  induction h with
  | start => exact ⟨[], hs, hfunded⟩
  | step before stepped stays ih =>
      obtain ⟨above, habove, hbefore⟩ := ih
      obtain ⟨above', hwaiting, hstepped⟩ := (step_stepped stepped).lifts habove stays
      exact ⟨above', hwaiting, (hstepped.spends hbefore).1⟩

/-- A frame that is entered can pay with what it was given. -/
lemma Stepped.entered_funded (h : s.Stepped chain s')
    (hasked : s.current.status.invoked? = some context) (hsat : context.gasLimit.toNat < maxWord) :
    Frame.Funded chain.ruleset context.gasLimit.toNat s'.current [] := by
  cases h with
  | ran running => cases (congrArg FrameStatus.invoked? running).symm.trans hasked
  | rested ended | left ended =>
      cases (FrameStatus.invoked?_eq_none ended).symm.trans hasked
  | entered asked begun =>
      cases asked.symm.trans hasked
      have hstart : (s.current.derive context chain.rules).Solvent chain.ruleset :=
        .of_new hsat rfl rfl rfl
      have hmove := begun.spends hstart rfl
      exact .root hmove.solvent
        (congrArg (fun context : Context => context.gasLimit.toNat) hmove.context)

/-- Only a frame that has ended goes back. -/
lemma Stepped.exited_of_lt (h : s.Stepped chain s')
    (hless : s'.waiting.length < s.waiting.length) : s.current.status.isExited = true := by
  cases h with
  | ran => exact absurd hless (Nat.lt_irrefl _)
  | entered => exact absurd hless (Nat.not_lt_of_le (Nat.le_succ _))
  | rested ended | left ended => exact ended

end CallStack

open CallStack in
/-- **A caller keeps its 64th,** under rules that hold one back.  Every transaction past validation
    is a run of a call stack.  In every run, when an instruction that leaves so much gas asks for a
    frame, it is a call or a creation, and hands on at most all but a 64th and the stipend for a
    value.  However much the frame that is entered then uses, and those that it enters itself:
    when it goes back, its code deposited, and was not ended as unsupported, the frame that asked
    for it is running and has that 64th at least. -/
theorem caller_keeps_its_64th (rs : Ruleset) (block : Header)
    (hkeeps : rs.rules.keeps64th = true) :
    (∀ (t : Transaction) (e : Execution) (log : CommitLog),
      t.accept ⟨rs, block, log⟩ = .ok (.ok e) → ∃ root, Arises rs block root e.calls) ∧
    (∀ (root context : Context) (s asked : CallStack) (op : Opcode) (left : Gas) (log : CommitLog)
      (event : Option Event),
      Arises rs block root s → s.current.status = .running →
        s.current.Pays ⟨rs, block, log⟩ op left →
          s.step ⟨rs, block, log⟩ = (asked, .ok event) →
            asked.current.status.invoked? = some context →
              op.instruction.Hands left context ∧
              ∀ (entered t t' : CallStack) (log log' : CommitLog) (event event' : Option Event),
                asked.step ⟨rs, block, log⟩ = (entered, .ok event) →
                  Inside rs block (asked.current :: asked.waiting).length entered t →
                    t.step ⟨rs, block, log'⟩ = (t', .ok event') →
                      t'.waiting.length ≤ asked.waiting.length →
                        ∃ sub, asked.current.absorb t.current ⟨rs, block, log'⟩ =
                            (t'.current, sub, .ok ()) ∧
                          ((∀ e, sub.status ≠ .exitedNotSupported e) →
                            t'.current.status = .running ∧
                              left.toNat / 64 ≤ t'.current.availableGas.toNat)) := by
  refine ⟨fun t e log h => ?_, ?_⟩
  · obtain ⟨root, -, h⟩ := exists_arises_of_accept h
    exact ⟨root, h⟩
  intro root context s asked op left log event hs hr hpays hstep hasked
  obtain ⟨hhands, hretains⟩ : op.instruction.Hands left context ∧
      asked.current.Retains context.gasLimit.toNat (left.toNat / 64) := by
    cases step_stepped hstep with
    | ran running stepped => exact stepped.retains hpays hkeeps hr hasked
    | entered invoked => cases (congrArg FrameStatus.invoked? hr).symm.trans invoked
    | rested ended | left ended =>
        rw [hr] at ended
        cases ended
  refine ⟨hhands, ?_⟩
  intro entered t t' log log' event event' henter hinside hleave hleft
  have hentered : entered.waiting = asked.current :: asked.waiting :=
    (step_stepped henter).enters hasked
  -- what is entered lives on what it was given, and nothing is left above it when it goes back
  obtain ⟨above, habove, hfunded⟩ := hinside.funded hentered
    ((step_stepped henter).entered_funded hasked hhands.lt_maxWord)
  obtain ⟨hwaiting, -, sub, habsorb⟩ :=
    (step_stepped hleave).leaves (hinside.suffix (hentered ▸ List.suffix_rfl)) hleft
  obtain rfl : above = [] := List.append_left_eq_self.mp (habove.symm.trans hwaiting)
  have hended : t.current.status.isExited = true :=
    (step_stepped hleave).exited_of_lt (by rw [hwaiting]; exact Nat.lt_succ_of_le hleft)
  have habsorbed := Frame.absorb_absorbed habsorb
  refine ⟨sub, habsorb, fun hsupported => ?_⟩
  have hpoised : asked.current.Poised rs.rules :=
    (hs.step hstep).ordered.poised _ List.mem_cons_self
  have hrunning := habsorbed.running hpoised hasked hended hsupported
  have htotal : sub.totalUsedGas.toNat ≤ context.gasLimit.toNat := by
    cases hfunded with
    | root solvent given => exact given ▸ habsorbed.total_le solvent
  obtain ⟨-, region, hresume⟩ := habsorbed.resumes hasked hended
  refine ⟨hrunning, ?_⟩
  rw [hresume] at hrunning ⊢
  exact hretains.resume htotal hrunning

open CallStack in
/-- The call that reverts is paid for with 4276 units left, and the frame that has asked for it
    then has a 64th of them at least. -/
theorem disappointment_keeps_its_64th : ∃ left : Gas, left.toNat = 4276 ∧
    (disappointment 7).current.Pays revertingChain ⟨0xf1⟩ left ∧
      4276 / 64 ≤ (disappointment 13).current.availableGas.toNat := by
  obtain ⟨left, hpays, hleft⟩ : ∃ left : Gas,
      (disappointment 7).current.Pays revertingChain ⟨0xf1⟩ left ∧ left.toNat = 4276 := by
    have hpaid : (((disappointment 7).current.charge revertingChain (.call .call)).toOption.bind
        fun c => ((disappointment 7).current.afford .byzantium (.call .call) c).toOption.map
          (·.1.toNat)) = some 4276 := by decide +kernel
    rcases hc : (disappointment 7).current.charge revertingChain (.call .call) with r | c
    · rw [hc] at hpaid
      cases hpaid
    · rcases ha : (disappointment 7).current.afford .byzantium (.call .call) c with
        reason | ⟨left, memory⟩
      · rw [hc] at hpaid
        simp only [Except.toOption, Option.bind_some, ha] at hpaid
        cases hpaid
      · rw [hc] at hpaid
        simp only [Except.toOption, Option.bind_some, ha, Option.map_some,
          Option.some.injEq] at hpaid
        exact ⟨left, ⟨by decide +kernel, c, memory, hc, ha⟩, hpaid⟩
  have hsteps : ∀ n < 13, ∃ event,
      (disappointment n).step revertingChain = (disappointment (n + 1), .ok event) := by
    have hok : ∀ n < 13,
        ((disappointment n).step revertingChain).2.toOption.isSome = true := by decide +kernel
    exact fun n hn => disappointment_step (hok n hn)
  have harises : ∀ n ≤ 7, Arises .byzantium {} optimist.context (disappointment n) := by
    intro n hn
    induction n with
    | zero => exact .call (by rfl : optimist.beginCall revertingChain =
        ((disappointment 0).current, .ok ()))
    | succ n ih =>
        obtain ⟨event, hstep⟩ := hsteps n (by omega)
        exact (ih (by omega)).step hstep
  have hinside : ∀ k ≤ 3, Inside .byzantium {} 1 (disappointment 9) (disappointment (9 + k)) := by
    have habove : ∀ k < 3, 1 ≤ (disappointment (9 + k + 1)).waiting.length := by decide +kernel
    intro k hk
    induction k with
    | zero => exact .start
    | succ k ih =>
        obtain ⟨event, hstep⟩ := hsteps (9 + k) (by omega)
        exact (ih (by omega)).step hstep (habove k (by omega))
  obtain ⟨context, hasked⟩ : ∃ context, (disappointment 8).current.status.invoked? = some context :=
    Option.isSome_iff_exists.mp (by decide +kernel)
  have hlength : ((disappointment 8).current :: (disappointment 8).waiting).length = 1 := by
    decide +kernel
  obtain ⟨call, hcall⟩ := hsteps 7 (by omega)
  obtain ⟨entry, henter⟩ := hsteps 8 (by omega)
  obtain ⟨exit, hleave⟩ := hsteps 12 (by omega)
  obtain ⟨-, hback⟩ := (caller_keeps_its_64th .byzantium {} (by decide)).2 optimist.context context
    _ _ _ left _ call (harises 7 le_rfl) (by decide +kernel) hpays hcall hasked
  obtain ⟨sub, habsorb, hkept⟩ := hback _ _ _ _ _ entry exit henter (hlength ▸ hinside 3 le_rfl)
    hleave (by decide +kernel)
  have hsupported : ∀ e, sub.status ≠ .exitedNotSupported e := by
    have hreverted : ((disappointment 8).current.absorb (disappointment 12).current
        revertingChain).2.1.status = .exitedErr .reverted := by decide +kernel
    have hsub : ((disappointment 8).current.absorb (disappointment 12).current
        revertingChain).2.1 = sub := congrArg (·.2.1) habsorb
    rw [hsub] at hreverted
    simp [hreverted]
  exact ⟨left, hleft, hpays, hleft ▸ (hkept hsupported).2⟩

end ResumableEvm
