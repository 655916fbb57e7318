import ResumableEvm.Proofs.FailedTransaction
import ResumableEvm.Proofs.WrittenOnce

/-!
# Static frames change nothing

A frame that runs in a static context reads, computes and calls, and whatever it calls is static
too.  Of the instructions that write, only a call on its own account still moves value, and it
moves it from an account to itself.  So while such a frame is there, what its overlay and those of
all frames above it say of the accounts is what they said when it began.

* `Overlay.payment_to_itself` — what an account pays to itself.
* `Context.MovesNothing` — a call that changes no balance.
* `Frame.Still`, `Frame.Stepped.still` — a static frame and all that it does.
* `CallStack.Unfolds` — what happens while a frame is there.
* `static_frames_change_nothing` — nothing but the accounts that took part.
-/

namespace ResumableEvm

/-! ## What an account pays to itself -/

namespace Overlay

variable {s s' paid moved : Overlay} {log : CommitLog} {w : World} {a : Address} {value : Word}

/-- A movement of balances touches no account. -/
lemma moveBalance_touched {first : Word → BalanceShift} {shift : BalanceShift → Word → BalanceShift}
    {change : Word → Word → Word} (h : s.moveBalance a value log first shift change = .ok s') :
    s'.touched = s.touched := by
  simp only [moveBalance] at h
  split at h
  · cases h
    rfl
  · split at h
    · cases h
      rfl
    · obtain ⟨account, -, rfl⟩ := update_eq_ok.mp h
      rfl

/-- What an account pays to itself, if it has as much, leaves everything as it was. -/
lemma payment_to_itself (hk : s.Knows a log) (ht : log.Tells w)
    (hcovered : value.toNat ≤ (s.view w a).balance.toNat)
    (pays : s.decreaseBalance a value log = .ok paid)
    (moves : paid.increaseBalance a value log = .ok moved) : moved.view w = s.view w := by
  have hpaid := hk.decreaseBalance_view ht pays
  have hmoved := (hk.of_moveBalance hk pays).increaseBalance_view ht moves
  by_cases hzero : value = 0
  · subst hzero
    rw [hmoved, AccountView.credit_zero, Function.update_eq_self, hpaid, AccountView.debit_zero,
      Function.update_eq_self]
  · have hpresent : (s.view w a).present = true := by
      refine present_of_balance fun hnone => hzero (BitVec.eq_of_toNat_eq ?_)
      rw [hnone] at hcovered
      exact Nat.le_zero.mp hcovered
    rw [hmoved, hpaid, Function.update_self, Function.update_idem,
      AccountView.credit_debit hpresent hcovered, Function.update_eq_self]

end Overlay

/-! ## Frames that change nothing -/

/-- **A call that changes no balance:** it moves nothing, or from an account to itself what it
    has. -/
def Context.MovesNothing (c : Context) (v : Address → AccountView) : Prop :=
  c.value = 0 ∨ c.caller = c.address ∧ c.value.toNat ≤ (v c.caller).balance.toNat

namespace Frame

variable {f g start sub : Frame} {chain : ChainView} {w : World} {rules : Rules} {i : Instruction}
  {c : Charge} {stipend afterGas : Gas} {control : FrameControl} {memory : Memory}

/-- **A frame that changes nothing.**  It is static, says of the accounts what the frame said that
    it goes back to, and has logged, removed and earned nothing.  It asks for calls alone, which
    are static and change no balance. -/
structure Still (f : Frame) (w : World) (start : Frame) : Prop where
  static : f.context.isStatic = true
  view : f.overlay.view w = start.overlay.view w
  touched : ∀ a ∈ start.overlay.touched, a ∈ f.overlay.touched
  logs : f.logs = []
  removed : f.removed = start.removed
  refund : f.refund = 0
  creates : ∀ context, f.status ≠ .invokeCreate context
  calls : ∀ context, f.status.invoked? = some context →
    context.isStatic = true ∧ context.MovesNothing (start.overlay.view w)

/-- What a frame does to itself that asks for nothing. -/
lemma Still.of_unasked (h : f.Still w start) (hcontext : g.context = f.context)
    (htraces : f.SameTraces g) (hunasked : g.status.invoked? = none) : g.Still w start where
  static := hcontext ▸ h.static
  view := htraces.overlay ▸ h.view
  touched := htraces.overlay ▸ h.touched
  logs := htraces.logs.trans h.logs
  removed := htraces.removed.trans h.removed
  refund := htraces.refund.trans h.refund
  creates context hs := by
    rw [hs] at hunasked
    cases hunasked
  calls context hc := by
    rw [hunasked] at hc
    cases hc

/-! ### Instructions -/

/-- An instruction that is allowed in a static frame earns no refund. -/
lemma refundOf_of_checkStatic (h : f.checkStatic i = .ok ()) : f.refundOf chain i = .ok 0 := by
  cases i <;> first | rfl | cases h

/-- A call that is allowed in a static frame changes no balance. -/
lemma callContext_movesNothing {kind : CallKind} {operands : CallOperands} {items : List Word}
    {code input : Bytes} {gasLimit : Gas} (ht : chain.log.Tells w)
    (hallowed : f.checkStatic (.call kind) = .ok ())
    (taken : callOperands? kind f.machine.stack.items = some (operands, items))
    (enters : f.cannotEnter chain operands.value = .ok false) :
    (callContext kind f.context operands.target code input gasLimit operands.value).MovesNothing
      (f.overlay.view w) := by
  cases kind with
  | call =>
      refine .inl ?_
      have hzero : f.operand 2 = 0 := by
        simp only [checkStatic] at hallowed
        split at hallowed
        · assumption
        · cases hallowed
      simp only [callOperands?] at taken
      split at taken
      case h_1 hitems =>
          cases taken
          simpa [callContext, operand, OperandStack.peekD, hitems] using hzero
      all_goals contradiction
  | callCode => exact .inr ⟨rfl, covered_of_enters ht enters⟩
  | delegateCall | staticCall => exact .inl rfl

/-- **An instruction** that is allowed in a static frame. -/
lemma Effect.still (h : (f.withMemory memory).Effect chain stipend afterGas i g control)
    (ht : chain.log.Tells w) (hr : f.status = .running) (hallowed : f.checkStatic i = .ok ())
    (hrefund : c.refund = 0) (hf : f.Still w start) :
    ((g.book c).follow control).Still w start := by
  have hbooked : f.refund + c.refund = f.refund := by rw [hrefund, add_zero]
  cases h with
  | compute program stays =>
      have hunasked : f.status.invoked? = none := by rw [hr]; rfl
      rcases stays with rfl | ⟨reason, rfl⟩
      · exact hf.of_unasked rfl ⟨rfl, rfl, rfl, hbooked⟩ hunasked
      · simp only [follow]
        split <;> exact hf.of_unasked rfl ⟨rfl, rfl, rfl, hbooked⟩ (by cases reason <;> rfl)
  | store | log | create | destroy => cases hallowed
  | @call kind machine operands items code input program same taken result enters =>
      refine ⟨hf.static, hf.view, hf.touched, hf.logs, hf.removed, hbooked.trans hf.refund, ?_, ?_⟩
      · rintro _ ⟨⟩
      rintro context ⟨⟩
      refine ⟨?_, ?_⟩
      · cases kind with
        | call | callCode | delegateCall => exact hf.static
        | staticCall => rfl
      · rw [← hf.view]
        exact callContext_movesNothing (f := f) ht hallowed taken enters

/-- **A step of a static frame** changes nothing. -/
lemma Stepped.still (h : f.Stepped chain g) (ht : chain.log.Tells w) (hf : f.Still w start) :
    g.Still w start := by
  cases h with
  | idle => exact hf
  | precompile =>
      simp only [runPrecompile]
      split <;> exact hf.of_unasked rfl ⟨rfl, rfl, rfl, rfl⟩ rfl
  | past | refused => exact hf.of_unasked rfl ⟨rfl, rfl, rfl, rfl⟩ rfl
  | unaffordable => exact hf.of_unasked rfl ⟨rfl, rfl, rfl, rfl⟩ (f.invoked?_exit _)
  | executed running code checked charged afforded effect =>
      have hallowed := (check_parts.mp checked).2.2.1 hf.static
      have hrefund := (refund_of_charge charged).symm.trans (refundOf_of_checkStatic hallowed)
      exact effect.still ht running hallowed (Except.ok.inj hrefund) hf

/-! ### From frame to frame -/

/-- **A call that a static frame asks for** changes nothing when it begins. -/
lemma Still.beginCall {context : Context} (hf : f.Still w start) (ht : chain.log.Tells w)
    (hasked : f.status.invoked? = some context)
    (h : (f.derive context rules).beginCall chain = (sub, .ok ())) : sub.Still w start := by
  obtain ⟨hstatic, hmoves⟩ := hf.calls context hasked
  obtain ⟨paid, moved, hpaid, hmoved, hpayer, -, rfl⟩ := beginCall_eq_ok h
  have hpaid : f.overlay.decreaseBalance context.caller context.value chain.log = .ok paid := hpaid
  have hmoved : paid.increaseBalance context.address context.value chain.log = .ok moved := hmoved
  have hview : moved.view w = f.overlay.view w := by
    rcases hmoves with hzero | ⟨hself, hcovered⟩
    · rw [hzero, Overlay.decreaseBalance, Overlay.moveBalance, if_pos rfl] at hpaid
      cases hpaid
      rw [hzero, Overlay.increaseBalance, Overlay.moveBalance, if_pos rfl] at hmoved
      cases hmoved
      rfl
    · rw [← hself] at hmoved
      rw [← hf.view] at hcovered
      exact Overlay.payment_to_itself hpayer ht hcovered hpaid hmoved
  have htouched : moved.touched = f.overlay.touched :=
    (Overlay.moveBalance_touched hmoved).trans (Overlay.moveBalance_touched hpaid)
  refine ⟨hstatic, hview.trans hf.view, fun a ha => ?_, rfl, hf.removed, rfl, by rintro _ ⟨⟩,
    by rintro _ ⟨⟩⟩
  have hheld := hf.touched a ha
  rw [← htouched] at hheld
  simp only [Overlay.touch]
  exact Std.TreeSet.mem_insert.mpr (.inr hheld)

lemma Still.adopt (hf : f.Still w start) (hsub : sub.Still w start) (ret : Bytes) :
    (f.adopt sub ret).Still w start where
  static := hf.static
  view := hsub.view
  touched := hsub.touched
  logs := by simp only [Frame.adopt, hf.logs, hsub.logs, List.append_nil]
  removed := hsub.removed
  refund := by simp only [Frame.adopt, hf.refund, hsub.refund, add_zero]
  creates := hf.creates
  calls := hf.calls

/-- **Going back** into a static frame, however the other has ended. -/
lemma Still.resume (hf : f.Still w start) (hsub : sub.Still w start)
    (region : Option (Word × Word)) : (f.resume sub region).Still w start := by
  have hcontext : (f.resume sub region).context = f.context := (f.keeps_resume sub region).context
  have hunasked := f.invoked?_resume sub region
  rcases f.resume_traces sub region with ⟨-, hsame⟩ | ⟨-, hadopted⟩
  · exact hf.of_unasked hcontext hsame hunasked
  · exact (hf.adopt hsub ByteArray.empty).of_unasked hcontext hadopted hunasked

/-- A static frame takes back a call, since it never asked for a creation. -/
lemma Absorbed.still {ended after : Frame} (h : f.Absorbed ended chain after sub)
    (hf : f.Still w start) (hended : ended.Still w start) : after.Still w start := by
  cases h with
  | returned => exact hf.resume hended _
  | created asked => exact absurd asked (hf.creates _)
  | dropped => exact hf

/-- A static frame that has begun. -/
lemma Begun.still (h : f.Begun chain g) (hstatic : f.context.isStatic = true)
    (hr : f.status = .running) (hlogs : f.logs = []) (hrefund : f.refund = 0) :
    g.Still w g := by
  have hunasked := h.unasked hr
  refine ⟨h.context ▸ hstatic, rfl, fun a ha => ha, ?_, rfl, ?_, ?_, ?_⟩
  · cases h <;> exact hlogs
  · cases h <;> exact hrefund
  · intro context hs
    rw [hs] at hunasked
    cases hunasked
  · intro context hs
    rw [hunasked] at hs
    cases hs

end Frame

/-! ## Runs -/

namespace CallStack

/-- **What happens while a frame is there:** a run that never has fewer than so many frames waiting,
    under logs that are told the data of one world. -/
inductive Unfolds (rs : Ruleset) (block : Header) (w : World) (n : ℕ) (s : CallStack) :
    CallStack → Prop where
  | start : Unfolds rs block w n s s
  | step {t t' : CallStack} {log : CommitLog} {event : Option Event}
      (before : Unfolds rs block w n s t) (tells : log.Tells w)
      (stepped : t.step ⟨rs, block, log⟩ = (t', .ok event)) (above : n ≤ t'.waiting.length) :
      Unfolds rs block w n s t'

variable {rs : Ruleset} {block : Header} {w : World} {start : Frame} {base : List Frame}
  {chain : ChainView} {s s' t : CallStack}

/-- **A static frame and all that it has entered:** the frames above those at the bottom change
    nothing. -/
def StillAbove (w : World) (start : Frame) (base : List Frame) (s : CallStack) : Prop :=
  ∃ above, s.waiting = above ++ base ∧ ∀ f ∈ s.current :: above, f.Still w start

/-- A call that is asked for is entered once it has begun. -/
lemma step_of_invokeCall {context : Context} {outOffset outLen : Word} {event : Option Event}
    (hasked : s.current.status = .invokeCall context outOffset outLen)
    (h : s.step chain = (s', .ok event)) : ∃ sub,
      (s.current.derive context chain.rules).beginCall chain = (sub, .ok ()) ∧
        s' = s.enter sub := by
  simp only [step, hasked] at h
  split at h <;> cases h
  exact ⟨_, ‹_›, rfl⟩

/-- **A step** changes nothing while the frame is there. -/
lemma StillAbove.step {event : Option Event} (hs : s.StillAbove w start base)
    (ht : chain.log.Tells w) (h : s.step chain = (s', .ok event))
    (habove : base.length ≤ s'.waiting.length) : s'.StillAbove w start base := by
  obtain ⟨above, hwaiting, hstill⟩ := hs
  obtain ⟨hcurrent, hrest⟩ := List.forall_mem_cons.mp hstill
  cases step_stepped h with
  | ran running stepped =>
      exact ⟨above, hwaiting, List.forall_mem_cons.mpr ⟨stepped.still ht hcurrent, hrest⟩⟩
  | rested => exact ⟨above, hwaiting, hstill⟩
  | @entered context sub asked begun =>
      -- a static frame asks for calls alone
      obtain ⟨outOffset, outLen, hcall⟩ : ∃ outOffset outLen,
          s.current.status = .invokeCall context outOffset outLen := by
        cases hs : s.current.status with
        | invokeCall => exact ⟨_, _, by cases hs ▸ asked; rfl⟩
        | invokeCreate => exact absurd hs (hcurrent.creates _)
        | _ => cases hs ▸ asked
      obtain ⟨entered, hbegun, hnext⟩ := step_of_invokeCall hcall h
      obtain rfl : sub = entered := congrArg CallStack.current hnext
      refine ⟨s.current :: above, by rw [List.cons_append, ← hwaiting]; rfl, ?_⟩
      exact List.forall_mem_cons.mpr ⟨hcurrent.beginCall ht asked hbegun, hstill⟩
  | @left parent after sub rest ended below absorbs =>
      cases above with
      | nil =>
          -- the frame itself would have gone
          rw [below, List.nil_append] at hwaiting
          rw [← hwaiting] at habove
          exact absurd habove (by simp)
      | cons first more =>
          obtain ⟨rfl, rfl⟩ := List.cons.inj (below.symm.trans hwaiting)
          obtain ⟨hparent, hmore⟩ := List.forall_mem_cons.mp hrest
          have hafter := (Frame.absorb_absorbed absorbs).still hparent hcurrent
          exact ⟨more, rfl, List.forall_mem_cons.mpr ⟨hafter, hmore⟩⟩

lemma Unfolds.still (h : Unfolds rs block w base.length s t) (hs : s.StillAbove w start base) :
    t.StillAbove w start base := by
  induction h with
  | start => exact hs
  | step before tells stepped above ih => exact ih.step tells stepped above

end CallStack

open CallStack in
/-- **Static frames change nothing.**  Take a frame with a static context that has begun, as a call
    or as a creation, on any frames that wait.  However the run goes on and whatever else is
    entered, as long as that frame is there: it and all frames above it are static, their overlays
    say of every account what its overlay said when it began, so that no read gives anything else,
    and nothing is logged, removed or earned.  Only more accounts may have taken part. -/
theorem static_frames_change_nothing {rs : Ruleset} {block : Header} {w : World}
    {context : Context} {depth : ℕ} {overlay : Overlay} {removed : List Address} {log : CommitLog}
    {entry : Frame} {s t : CallStack}
    (hentry : entry = { Frame.create context depth overlay rs.rules with removed := removed })
    (hstatic : context.isStatic = true)
    (hbegun : entry.beginCall ⟨rs, block, log⟩ = (s.current, .ok ()) ∨
      entry.beginCreate ⟨rs, block, log⟩ = (s.current, .ok ()))
    (hrun : Unfolds rs block w s.waiting.length s t) :
    ∃ above, t.waiting = above ++ s.waiting ∧ ∀ f ∈ t.current :: above,
      f.Still w s.current ∧
        ∀ told a, told.Tells w → f.overlay.Shows told a (s.current.overlay.view w a) := by
  subst hentry
  have hstart : s.current.Still w s.current := by
    rcases hbegun with h | h
    · exact (Frame.beginCall_begun h).still hstatic rfl rfl rfl
    · exact (Frame.beginCreate_begun h).still hstatic rfl rfl rfl
  have hs : s.StillAbove w s.current s.waiting := by
    refine ⟨[], rfl, fun f hf => ?_⟩
    obtain rfl := List.mem_singleton.mp hf
    exact hstart
  obtain ⟨above, hwaiting, hstill⟩ := hrun.still hs
  refine ⟨above, hwaiting, fun f hf => ⟨hstill f hf, fun told a htells => ?_⟩⟩
  rw [← (hstill f hf).view]
  exact Overlay.shows_view htells a

/-- A chain where account 100 has a balance of 5 and account 101 looks at a slot. -/
def quietChain : ChainView where
  ruleset := .byzantium
  block := {}
  log :=
    { accounts := ((∅ : Std.TreeMap Address CommittedAccount).insert 100
        (.full 0 5 ByteArray.empty)).insert 101 (.full 1 0 ⟨#[0x60, 0, 0x54, 0]⟩)
      slots := (∅ : Std.TreeMap Address SlotMap).insert 100 ((∅ : SlotMap).insert 0 7) }

/-- A static frame that lets the code of account 101 run in its place, and pays itself for it. -/
def selfPayer : Frame :=
  Frame.create ⟨100, 100, 100,
    ⟨#[0x60, 0, 0x80, 0x80, 0x80, 0x60, 1, 0x60, 101, 0x60, 100, 0xf2]⟩,
    ByteArray.empty, 20000, 1, 100, 0, 0, true⟩ 0 (Overlay.empty .mainnet) .byzantium

/-- The execution of that frame after some steps. -/
def selfPayment : ℕ → CallStack
  | 0 => .ofRoot (selfPayer.beginCall quietChain).1
  | n + 1 => ((selfPayment n).step quietChain).1

/-- The log of that chain fits together. -/
lemma quietChain_coherent : quietChain.log.Coherent := by
  intro d hd
  cases d with
  | account a known =>
      intro told htold
      simp [CommitLog.Holds, quietChain] at htold
  | slot a index value =>
      have haccount : quietChain.log.accounts[(100 : Address)]? =
          some (.full 0 5 ByteArray.empty) := by decide +kernel
      simp only [CommitLog.Holds, CommitLog.slot?, quietChain, Std.TreeMap.getElem?_insert] at hd
      split at hd
      · obtain rfl : 100 = a := Std.LawfulEqCmp.eq_of_compare ‹_›
        exact ⟨0, 5, ByteArray.empty, haccount⟩
      · simp at hd
  | code | blockHash => trivial

open CallStack in
/-- The call is entered with value one, and both frames change nothing. -/
theorem selfPayment_changes_nothing : ∃ w, quietChain.log.Tells w ∧
    (selfPayment 12).current.context.value = 1 ∧
      ∀ f ∈ (selfPayment 12).current :: (selfPayment 12).waiting,
        f.Still w (selfPayment 0).current := by
  obtain ⟨w, htells⟩ := quietChain_coherent.exists_tells
  have hvalue : (selfPayment 12).current.context.value = 1 := by decide +kernel
  have hentry : selfPayer = { Frame.create selfPayer.context 0 (Overlay.empty .mainnet)
      Ruleset.byzantium.rules with removed := [] } := rfl
  have hbegun : selfPayer.beginCall ⟨.byzantium, {}, quietChain.log⟩ =
      ((selfPayment 0).current, .ok ()) := by rfl
  have hsteps : ∀ n < 12, ((selfPayment n).step quietChain).2.toOption.isSome = true := by
    decide +kernel
  have hrun : ∀ n ≤ 12, Unfolds .byzantium {} w 0 (selfPayment 0) (selfPayment n) := by
    intro n hn
    induction n with
    | zero => exact .start
    | succ n ih =>
        have hok := hsteps n (by omega)
        rcases hs : (selfPayment n).step quietChain with ⟨s, i | event⟩
        · rw [hs] at hok
          cases hok
        · have hnext : (selfPayment n).step quietChain = (selfPayment (n + 1), .ok event) := by
            rw [selfPayment, hs]
          exact (ih (by omega)).step htells hnext (Nat.zero_le _)
  obtain ⟨above, habove, hstill⟩ := static_frames_change_nothing hentry rfl (.inl hbegun)
    (hrun 12 le_rfl)
  refine ⟨w, htells, hvalue, fun f hf => (hstill f ?_).1⟩
  have hwaiting : (selfPayment 12).waiting = above := habove.trans (List.append_nil above)
  exact hwaiting ▸ hf

end ResumableEvm
