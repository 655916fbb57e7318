import ResumableEvm.CallStack
import ResumableEvm.Proofs.Effect

/-!
# What happens between frames

A frame that is asked for begins over the accounts of the frame that asks, and goes back into it
once it has ended.  This module says what a step of a call stack can do, so that what holds of
frames can be carried to all of them.

* `Frame.Begun` — how a frame begins.
* `Frame.Deposited` — how a creation deposits its code.
* `Frame.Absorbed` — how an ended frame goes back.
* `CallStack.Stepped` — what a step of a call stack does.
* `CallStack.step_stepped` — a step that is not interrupted does one of these things.
-/

namespace ResumableEvm

/-- The frame that a status asks for. -/
def FrameStatus.invoked? : FrameStatus → Option Context
  | .invokeCall context _ _ | .invokeCreate context => some context
  | _ => none

lemma FrameStatus.isExited_ofReason (reason : ExitReason) : (ofReason reason).isExited = true := by
  cases reason <;> rfl

lemma FrameStatus.invoked?_eq_none {s : FrameStatus} (h : s.isExited = true) :
    s.invoked? = none := by
  cases s <;> first | rfl | cases h

section Cases

variable {s : FrameStatus} (hcall : ∀ context offset len, s ≠ .invokeCall context offset len)
  (hcreate : ∀ context, s ≠ .invokeCreate context)

include hcall hcreate

/-- A status that is neither for a call nor for a creation asks for nothing. -/
lemma FrameStatus.unasked : s.invoked? = none := by
  cases s with
  | invokeCall context offset len => exact absurd rfl (hcall context offset len)
  | invokeCreate context => exact absurd rfl (hcreate context)
  | _ => rfl

/-- If the frame does not run on either, it has ended. -/
lemma FrameStatus.ended (hrunning : s ≠ .running) : s.isExited = true := by
  cases s with
  | running => exact absurd rfl hrunning
  | invokeCall context offset len => exact absurd rfl (hcall context offset len)
  | invokeCreate context => exact absurd rfl (hcreate context)
  | _ => rfl

end Cases

namespace Frame

variable {f g : Frame} {chain : ChainView}

lemma invoked?_exit (f : Frame) (reason : ExitReason) : (f.exit reason).status.invoked? = none :=
  FrameStatus.invoked?_eq_none (FrameStatus.isExited_ofReason reason)

/-! ## Beginning -/

/-- **How a frame begins:** it moves the value of its call or creation, unless an account stands
    in the way of a creation. -/
inductive Begun (f : Frame) (chain : ChainView) : Frame → Prop where
  | call {paid moved : Overlay}
      (pays : f.overlay.decreaseBalance f.context.caller f.context.value chain.log = .ok paid)
      (moves : paid.increaseBalance f.context.address f.context.value chain.log = .ok moved)
      (payer : f.overlay.Knows f.context.caller chain.log)
      (payee : f.overlay.Knows f.context.address chain.log) :
      Begun f chain { f with overlay := moved.touch f.context.address }
  | create {paid moved created : Overlay}
      (pays : f.overlay.decreaseBalance f.context.caller f.context.value chain.log = .ok paid)
      (moves : paid.increaseBalance f.context.address f.context.value chain.log = .ok moved)
      (creates : moved.create f.context.address chain.log = .ok created)
      (payer : f.overlay.Knows f.context.caller chain.log)
      (payee : f.overlay.Knows f.context.address chain.log) :
      Begun f chain { f with overlay := created.touch f.context.address }
  | collision : Begun f chain (f.fail .createCollision)

lemma beginCall_eq_ok (h : f.beginCall chain = (g, .ok ())) : ∃ paid moved : Overlay,
    f.overlay.decreaseBalance f.context.caller f.context.value chain.log = .ok paid ∧
      paid.increaseBalance f.context.address f.context.value chain.log = .ok moved ∧
        f.overlay.Knows f.context.caller chain.log ∧ f.overlay.Knows f.context.address chain.log ∧
          g = { f with overlay := moved.touch f.context.address } := by
  obtain ⟨⟨⟩, hpayer, h⟩ := attempt_eq_ok.mp h
  obtain ⟨⟨⟩, hpayee, h⟩ := attempt_eq_ok.mp h
  obtain ⟨paid, hpaid, h⟩ := attempt_eq_ok.mp h
  obtain ⟨moved, hmoved, h⟩ := attempt_eq_ok.mp h
  cases h
  exact ⟨paid, moved, hpaid, hmoved, Overlay.knows_iff_require.mpr hpayer,
    Overlay.knows_iff_require.mpr hpayee, rfl⟩

lemma beginCall_begun (h : f.beginCall chain = (g, .ok ())) : f.Begun chain g := by
  obtain ⟨paid, moved, hpaid, hmoved, hpayer, hpayee, rfl⟩ := beginCall_eq_ok h
  exact .call hpaid hmoved hpayer hpayee

/-- A creation begins where the address is free, and meets a collision where it is taken. -/
lemma beginCreate_eq_ok (h : f.beginCreate chain = (g, .ok ())) :
    f.overlay.Knows f.context.caller chain.log ∧ f.overlay.Knows f.context.address chain.log ∧
      (g = f.fail .createCollision ∨
        f.overlay.isTaken f.context.address chain.log = .ok false ∧
          ∃ paid moved created : Overlay,
            f.overlay.decreaseBalance f.context.caller f.context.value chain.log = .ok paid ∧
              paid.increaseBalance f.context.address f.context.value chain.log = .ok moved ∧
                moved.create f.context.address chain.log = .ok created ∧
                  g = { f with overlay := created.touch f.context.address }) := by
  obtain ⟨⟨⟩, hpayer, h⟩ := attempt_eq_ok.mp h
  obtain ⟨⟨⟩, hpayee, h⟩ := attempt_eq_ok.mp h
  obtain ⟨taken, htaken, h⟩ := attempt_eq_ok.mp h
  refine ⟨Overlay.knows_iff_require.mpr hpayer, Overlay.knows_iff_require.mpr hpayee, ?_⟩
  split at h
  · cases h
    exact .inl rfl
  · rename_i hfree
    obtain ⟨paid, hpaid, h⟩ := attempt_eq_ok.mp h
    obtain ⟨moved, hmoved, h⟩ := attempt_eq_ok.mp h
    obtain ⟨created, hcreated, h⟩ := attempt_eq_ok.mp h
    cases h
    exact .inr ⟨by rw [htaken, Bool.eq_false_of_not_eq_true hfree], paid, moved, created, hpaid,
      hmoved, hcreated, rfl⟩

lemma beginCreate_begun (h : f.beginCreate chain = (g, .ok ())) : f.Begun chain g := by
  obtain ⟨hpayer, hpayee, rfl | ⟨-, paid, moved, created, hpaid, hmoved, hcreated, rfl⟩⟩ :=
    beginCreate_eq_ok h
  · exact .collision
  · exact .create hpaid hmoved hcreated hpayer hpayee

/-- A frame that has begun asks for nothing yet. -/
lemma Begun.unasked (h : f.Begun chain g) (hr : f.status = .running) :
    g.status.invoked? = none := by
  cases h with
  | call | create => exact congrArg FrameStatus.invoked? hr
  | collision => rfl

/-! ## Depositing code -/

/-- **How a creation deposits its code.**  A deposit that fails fails the frame. -/
inductive Deposited (f : Frame) (chain : ChainView) : Frame → Prop where
  /-- There is nothing to deposit, or it is dropped. -/
  | skipped : Deposited f chain f
  | failed {e : ExitError} (ended : f.status = .exitedOk) (final : e ≠ .reverted) :
      Deposited f chain (f.fail e)
  /-- Empty code is kept for want of gas. -/
  | empty {overlay : Overlay} (ended : f.status = .exitedOk)
      (deposits : f.overlay.depositCode f.context.address ByteArray.empty chain.log = .ok overlay) :
      Deposited f chain { f with overlay := overlay }
  | paid {overlay : Overlay} (ended : f.status = .exitedOk)
      (affordable : ¬ f.context.gasLimit - memoryGas f.memoryWords - f.usedGas <
        depositGas f.out.size)
      (deposits : f.overlay.depositCode f.context.address f.out chain.log = .ok overlay) :
      Deposited f chain
        { f with overlay := overlay, usedGas := f.usedGas + depositGas f.out.size }

lemma depositCode_deposited (h : f.depositCode chain = (g, .ok ())) : f.Deposited chain g := by
  simp only [depositCode] at h
  split at h
  · rename_i hok
    split at h
    · split at h <;> cases h
      · exact .failed hok (by simp)
      · exact .skipped
    · split at h
      · split at h
        · obtain ⟨overlay, hoverlay, h⟩ := attempt_eq_ok.mp h
          cases h
          exact .empty hok hoverlay
        · cases h
          exact .failed hok (by simp)
      · rename_i hcost
        obtain ⟨overlay, hoverlay, h⟩ := attempt_eq_ok.mp h
        cases h
        exact .paid hok hcost hoverlay
  · cases h
    exact .skipped

/-! ## Going back -/

/-- **How an ended frame goes back** into the frame that asked for it, which becomes `f'`. -/
inductive Absorbed (f ended : Frame) (chain : ChainView) : Frame → Frame → Prop where
  | returned {context : Context} {outOffset outLen : Word}
      (asked : f.status = .invokeCall context outOffset outLen) :
      Absorbed f ended chain (f.resume ended (some (outOffset, outLen))) ended
  /-- A creation deposits its code first. -/
  | created {context : Context} {sub : Frame} (asked : f.status = .invokeCreate context)
      (deposited : ended.Deposited chain sub) : Absorbed f ended chain (f.resume sub none) sub
  /-- Nobody asked for it. -/
  | dropped (unasked : f.status.invoked? = none) : Absorbed f ended chain f ended

lemma absorb_absorbed {f' ended sub : Frame} (h : f.absorb ended chain = (f', sub, .ok ())) :
    f.Absorbed ended chain f' sub := by
  simp only [absorb] at h
  split at h
  · rename_i hasked
    split at h
    · cases h
      exact .created hasked (depositCode_deposited ‹_›)
    · cases h
  · cases h
    exact .returned ‹_›
  · rename_i hcreate hcall
    cases h
    exact .dropped (FrameStatus.unasked hcall hcreate)

end Frame

/-! ## Steps of a call stack -/

namespace CallStack

variable {s s' : CallStack} {chain : ChainView}

lemma isExited_iff : s.isExited = true ↔ s.waiting = [] ∧ s.current.status.isExited = true := by
  rw [isExited, Bool.and_eq_true, List.isEmpty_iff]

/-- **What a step of a call stack does** that is not interrupted. -/
inductive Stepped (s : CallStack) (chain : ChainView) : CallStack → Prop where
  /-- The current frame takes a step. -/
  | ran {g : Frame} (running : s.current.status = .running) (stepped : s.current.Stepped chain g) :
      Stepped s chain ⟨g, s.waiting⟩
  /-- The frame that is asked for is entered. -/
  | entered {context : Context} {sub : Frame} (asked : s.current.status.invoked? = some context)
      (begun : (s.current.derive context chain.rules).Begun chain sub) :
      Stepped s chain (s.enter sub)
  /-- Nothing is left to do. -/
  | rested (ended : s.current.status.isExited = true) (alone : s.waiting = []) : Stepped s chain s
  /-- The current frame goes back into the one below. -/
  | left {parent parent' sub : Frame} {rest : List Frame}
      (ended : s.current.status.isExited = true) (below : s.waiting = parent :: rest)
      (absorbs : parent.absorb s.current chain = (parent', sub, .ok ())) :
      Stepped s chain ⟨parent', rest⟩

lemma step_stepped {event : Option Event} (h : s.step chain = (s', .ok event)) :
    s.Stepped chain s' := by
  simp only [step] at h
  split at h
  · rename_i hr
    rcases hf : s.current.step chain with ⟨g, result⟩
    rw [hf] at h
    cases h
    exact .ran hr (Frame.step_stepped hf)
  · rename_i hasked
    split at h
    · rename_i hbegin
      cases h
      exact .entered (by rw [hasked]; rfl) (Frame.beginCall_begun hbegin)
    · cases h
  · rename_i hasked
    split at h
    · rename_i hbegin
      cases h
      exact .entered (by rw [hasked]; rfl) (Frame.beginCreate_begun hbegin)
    · cases h
  · rename_i hrunning hcall hcreate
    have hended : s.current.status.isExited = true := FrameStatus.ended hcall hcreate hrunning
    split at h
    · cases h
      exact .rested hended ‹_›
    · rename_i parent rest hw
      split at h <;> cases h
      exact .left hended hw ‹_›

end CallStack

end ResumableEvm
