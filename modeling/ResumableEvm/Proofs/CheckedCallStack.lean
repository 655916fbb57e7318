import ResumableEvm.Proofs.CheckedFrame
import ResumableEvm.Proofs.Progress

/-!
# A call stack whose steps could fail

Frames begin with a movement of value and go back with a copy of output.  The frames of a call stack
have places, counted from the root: the current frame has the last, and the frame that it goes back
to is the last once it is gone.

* `Frame.checkedBeginCall_eq`, `Frame.checkedBeginCreate_eq` — beginning does not fail.
* `Frame.checkedAbsorb_eq`, `Frame.checkedSettle_eq` — neither do going back and settling.
* `CallStack.checkedStep_eq` — a step fails only by a fault.
* `CallStack.Bounded.step` — what frames return stays within bounds.
-/

namespace ResumableEvm

namespace Frame

variable (f : Frame) (chain : ChainView)

/-! ## Beginning -/

def checkedCreate (context : Context) (depth : ℕ) (overlay : Overlay) (rules : Rules) :
    Except Panic Frame := do
  let jumps ← JumpTable.checkedOfCode context.code
  let f := create context depth overlay rules
  return { f with machine := { f.machine with jumps := jumps } }

/-- The frame that this one asks for, one deeper than it. -/
def checkedDerive (context : Context) (rules : Rules) : Except Panic Frame := do
  let depth ← addIndex f.depth 1
  return { ← checkedCreate context depth f.overlay rules with removed := f.removed }

def checkedBeginCall : Except Panic (Frame × Except Requirement Unit) :=
  let log := chain.log
  let c := f.context
  f.checkedAttempt (.ok (f.overlay.require c.caller log)) fun _ =>
  f.checkedAttempt (.ok (f.overlay.require c.address log)) fun _ =>
  f.checkedAttempt (f.overlay.checkedDecreaseBalance c.caller c.value log) fun overlay =>
  let f := { f with overlay := overlay }
  f.checkedAttempt (f.overlay.checkedIncreaseBalance c.address c.value log) fun overlay =>
  .ok ({ f with overlay := overlay.touch c.address }, .ok ())

def checkedBeginCreate : Except Panic (Frame × Except Requirement Unit) :=
  let log := chain.log
  let c := f.context
  f.checkedAttempt (.ok (f.overlay.require c.caller log)) fun _ =>
  f.checkedAttempt (.ok (f.overlay.require c.address log)) fun _ =>
  f.checkedAttempt (.ok (f.overlay.isTaken c.address log)) fun taken =>
  if taken then .ok (f.fail .createCollision, .ok ())
  else
    f.checkedAttempt (f.overlay.checkedDecreaseBalance c.caller c.value log) fun overlay =>
    let f := { f with overlay := overlay }
    f.checkedAttempt (f.overlay.checkedIncreaseBalance c.address c.value log) fun overlay =>
    let f := { f with overlay := overlay }
    f.checkedAttempt (.ok (f.overlay.create c.address log)) fun overlay =>
    .ok ({ f with overlay := overlay.touch c.address }, .ok ())

@[simp] lemma checkedCreate_eq (context : Context) (depth : ℕ) (overlay : Overlay)
    (rules : Rules) :
    checkedCreate context depth overlay rules = .ok (create context depth overlay rules) := by
  simp only [checkedCreate, JumpTable.checkedOfCode_eq, ok_bind]
  rfl

variable {f chain} in
/-- **Going deeper** stays within the depth that the rules allow, and that is an index. -/
lemma checkedDerive_eq {context : Context} (h : f.HasRoom chain.rules)
    (hasked : f.status.invoked? = some context) :
    f.checkedDerive context chain.rules = .ok (f.derive context chain.rules) := by
  have hroom : f.depth + 1 ≤ chain.rules.callStackLimit.toNat := h context hasked
  have hlimit : chain.rules.callStackLimit.toNat ≤ maxIndex :=
    Nat.le_of_lt_succ chain.rules.callStackLimit.toNat_lt
  rw [checkedDerive, addIndex_of_le (hroom.trans hlimit), ok_bind, checkedCreate_eq]
  rfl

@[simp] lemma checkedBeginCall_eq : f.checkedBeginCall chain = .ok (f.beginCall chain) := by
  simp only [checkedBeginCall, beginCall, Overlay.checkedDecreaseBalance_eq,
    Overlay.checkedIncreaseBalance_eq]
  exact checkedAttempt_eq fun _ => checkedAttempt_eq fun _ => checkedAttempt_eq fun _ =>
    checkedAttempt_eq fun _ => rfl

@[simp] lemma checkedBeginCreate_eq : f.checkedBeginCreate chain = .ok (f.beginCreate chain) := by
  simp only [checkedBeginCreate, beginCreate, Overlay.checkedDecreaseBalance_eq,
    Overlay.checkedIncreaseBalance_eq]
  refine checkedAttempt_eq fun _ => checkedAttempt_eq fun _ => checkedAttempt_eq fun taken => ?_
  split
  · rfl
  · exact checkedAttempt_eq fun _ => checkedAttempt_eq fun _ => checkedAttempt_eq fun _ => rfl

/-! ## Going back -/

def checkedFailTop : Except Panic Frame := do
  match ← f.machine.stack.checkedSet 0 0 with
  | .ok stack => return { f with machine := { f.machine with stack := stack } }
  | .error e => return f.fail e

def checkedCopyOutput (outOffset outLen : Word) (out : Bytes) : Except Panic Frame := do
  let len := if outLen.toNat ≤ out.size then outLen else Word.ofNat out.size
  match ← f.machine.memory.checkedCopyLarge outOffset 0 len out with
  | .ok memory => return { f with machine := { f.machine with memory := memory } }
  | .error e => return f.exit (.fatal e)

def checkedResume (sub : Frame) (region : Option (Word × Word)) : Except Panic Frame :=
  let resumed := { f with status := .running, usedGas := f.usedGas + sub.totalUsedGas }
  let withOutput (f : Frame) : Except Panic Frame :=
    match region with
    | some (outOffset, outLen) => f.checkedCopyOutput outOffset outLen sub.out
    | none => .ok f
  match sub.status with
  | .exitedOk =>
    withOutput (resumed.adopt sub (match region with
      | some _ => sub.out
      | none => ByteArray.empty))
  | .exitedErr .reverted => do withOutput { ← resumed.checkedFailTop with ret := sub.out }
  | .exitedErr _ => do return { ← resumed.checkedFailTop with ret := ByteArray.empty }
  | _ => .ok (f.resume sub region)

def checkedAbsorb (sub : Frame) : Except Panic (Frame × Frame × Except Requirement Unit) :=
  match f.status with
  | .invokeCreate _ =>
    match sub.depositCode chain with
    | (sub, .ok ()) => do return (← f.checkedResume sub none, sub, .ok ())
    | (sub, .error r) => .ok (f, sub, .error r)
  | .invokeCall _ outOffset outLen => do
    return (← f.checkedResume sub (some (outOffset, outLen)), sub, .ok ())
  | _ => .ok (f, sub, .ok ())

def checkedSettle (usedGas : Gas) (preclaimed : Word) (fresh : Overlay) (beneficiary : Address) :
    Except Panic (Frame × Except Requirement Unit) :=
  f.checkedAttempt (f.checkedSettledOverlay chain usedGas preclaimed fresh beneficiary)
    fun overlay =>
  if f.status = .exitedOk then .ok ({ f with overlay := overlay }, .ok ())
  else .ok ({ f with overlay := overlay, removed := [], logs := [] }, .ok ())

@[simp] lemma checkedFailTop_eq : f.checkedFailTop = .ok f.failTop := by
  simp only [checkedFailTop, failTop, OperandStack.checkedSet_eq, ok_bind]
  cases f.machine.stack.set 0 0 <;> rfl

@[simp] lemma checkedCopyOutput_eq (outOffset outLen : Word) (out : Bytes) :
    f.checkedCopyOutput outOffset outLen out = .ok (f.copyOutput outOffset outLen out) := by
  simp only [checkedCopyOutput, copyOutput, Memory.checkedCopyLarge_eq, ok_bind]
  generalize f.machine.memory.copyLarge outOffset 0 _ out = copied
  cases copied <;> rfl

@[simp] lemma checkedResume_eq (sub : Frame) (region : Option (Word × Word)) :
    f.checkedResume sub region = .ok (f.resume sub region) := by
  simp only [checkedResume, checkedFailTop_eq, checkedCopyOutput_eq, ok_bind]
  cases hstatus : sub.status with
  | exitedOk => rcases region with _ | ⟨outOffset, outLen⟩ <;> simp only [resume, hstatus]
  | exitedErr e =>
      cases e with
      | reverted => rcases region with _ | ⟨outOffset, outLen⟩ <;> simp only [resume, hstatus]
      | _ => simp only [resume, hstatus, pure_eq_ok]
  | _ => rfl

/-- **Going back does not fail.** -/
@[simp] lemma checkedAbsorb_eq (sub : Frame) :
    f.checkedAbsorb chain sub = .ok (f.absorb sub chain) := by
  simp only [checkedAbsorb, absorb, checkedResume_eq, ok_bind]
  cases f.status with
  | invokeCreate context => rcases sub.depositCode chain with ⟨sub', r | ⟨⟩⟩ <;> rfl
  | _ => rfl

/-- **Settling does not fail.** -/
@[simp] lemma checkedSettle_eq (usedGas : Gas) (preclaimed : Word) (fresh : Overlay)
    (beneficiary : Address) :
    f.checkedSettle chain usedGas preclaimed fresh beneficiary =
      .ok (f.settle chain usedGas preclaimed fresh beneficiary) := by
  simp only [checkedSettle, settle, checkedSettledOverlay_eq]
  refine checkedAttempt_eq fun overlay => ?_
  split <;> rfl

end Frame

/-! ## Steps -/

namespace CallStack

variable (s : CallStack) (chain : ChainView)

/-- The frame in a place. -/
def checkedFrame (frames : List Frame) (i : ℕ) : Except Panic Frame :=
  match frames[i]? with
  | some f => .ok f
  | none => .error .outOfRange

def checkedStep : Except Panic (CallStack × Except Interrupt (Option Event)) := do
  let depth ← subIndex s.frames.length 1
  let f ← checkedFrame s.frames depth
  match f.status with
  | .running =>
    let (f, result) ← f.checkedStep chain
    return ({ s with current := f }, result)
  | .invokeCall context _ _ =>
    match ← (← f.checkedDerive context chain.rules).checkedBeginCall chain with
    | (sub, .ok ()) => return (s.enter sub, .ok none)
    | (_, .error r) => return (s, .error (.requires r))
  | .invokeCreate context =>
    match ← (← f.checkedDerive context chain.rules).checkedBeginCreate chain with
    | (sub, .ok ()) => return (s.enter sub, .ok none)
    | (_, .error r) => return (s, .error (.requires r))
  | _ =>
    if depth = 0 then return (s, .ok none)
    else
      -- the current frame has left its place by now
      let parent ← checkedFrame s.waiting.reverse (← subIndex depth 1)
      match ← parent.checkedAbsorb chain f with
      | (parent, sub, .ok ()) =>
        return (⟨parent, s.waiting.tail⟩, .ok (some (.exit depth (exitReason sub))))
      | (parent, sub, .error r) =>
        return (⟨sub, parent :: s.waiting.tail⟩, .error (.requires r))

/-- The last of some frames. -/
lemma checkedFrame_reverse (f : Frame) (rest : List Frame) :
    checkedFrame (f :: rest).reverse rest.length = .ok f := by
  rw [checkedFrame, List.getElem?_reverse (by simp)]
  simp

/-- The root has the first place. -/
def checkedRoot : Except Panic Frame := checkedFrame s.frames 0

@[simp] lemma checkedRoot_eq : s.checkedRoot = .ok s.root := by
  have hfirst : s.frames[0]? = some s.root := by
    rw [frames, ← List.head?_eq_getElem?, List.head?_reverse, List.getLast?_cons]
    rfl
  rw [checkedRoot, checkedFrame, hfirst]

/-- **Every frame returns from a region within bounds.** -/
def Bounded : Prop := ∀ f ∈ s.current :: s.waiting, f.machine.Bounded

variable {s chain}

/-- An ended frame goes back to the one that is the last without it. -/
lemma checkedFrame_parent {parent : Frame} {rest : List Frame} (h : s.waiting = parent :: rest) :
    (subIndex s.waiting.length 1 >>= checkedFrame s.waiting.reverse) = .ok parent := by
  rw [h, List.length_cons, subIndex_of_le (Nat.le_add_left _ _), ok_bind, Nat.add_sub_cancel,
    checkedFrame_reverse]

/-- **A step of the call stack** fails only by a fault. -/
lemma checkedStep_eq (h : s.Bounded) (hroom : s.current.HasRoom chain.rules) :
    s.checkedStep chain = surfaced (s.step chain) := by
  have hdepth : subIndex s.frames.length 1 = .ok s.waiting.length := by
    simp [subIndex, frames]
  have hcurrent : checkedFrame s.frames s.waiting.length = .ok s.current :=
    checkedFrame_reverse _ _
  simp only [checkedStep, step, hdepth, hcurrent, ok_bind]
  cases hstatus : s.current.status with
  | running =>
      dsimp only
      rw [Frame.checkedStep_eq (h _ List.mem_cons_self)]
      rcases s.current.step chain with ⟨g, (r | fault) | event⟩ <;> rfl
  | invokeCall context outOffset outLen =>
      have hasked : s.current.status.invoked? = some context := by rw [hstatus]; rfl
      simp only [Frame.checkedDerive_eq hroom hasked, Frame.checkedBeginCall_eq, ok_bind]
      rcases (s.current.derive context chain.rules).beginCall chain with ⟨sub, r | ⟨⟩⟩ <;> rfl
  | invokeCreate context =>
      have hasked : s.current.status.invoked? = some context := by rw [hstatus]; rfl
      simp only [Frame.checkedDerive_eq hroom hasked, Frame.checkedBeginCreate_eq, ok_bind]
      rcases (s.current.derive context chain.rules).beginCreate chain with ⟨sub, r | ⟨⟩⟩ <;> rfl
  | exitedOk | exitedErr | exitedNotSupported =>
      dsimp only
      cases hwaiting : s.waiting with
      | nil => rfl
      | cons parent rest =>
          have hparent := checkedFrame_parent hwaiting
          rw [hwaiting] at hparent
          rw [if_neg (by simp), ← bind_assoc, hparent, ok_bind, Frame.checkedAbsorb_eq, ok_bind]
          dsimp only
          rcases parent.absorb s.current chain with ⟨parent', sub, r | ⟨⟩⟩ <;> rfl

/-! ### What frames return stays within bounds -/

end CallStack

namespace Frame

variable {f g ended parent sub : Frame} {chain : ChainView}

lemma derive_bounded (f : Frame) (context : Context) (rules : Rules) :
    (f.derive context rules).machine.Bounded := Nat.zero_le _

lemma Begun.bounded (h : f.Begun chain g) (hf : f.machine.Bounded) : g.machine.Bounded := by
  cases h <;> exact hf

lemma Deposited.bounded (h : f.Deposited chain g) (hf : f.machine.Bounded) :
    g.machine.Bounded := by
  cases h <;> exact hf

lemma resume_bounded (h : f.machine.Bounded) (sub : Frame) (region : Option (Word × Word)) :
    (f.resume sub region).machine.Bounded := by
  rw [Machine.Bounded, (f.keeps_resume sub region).region]
  exact h

lemma Absorbed.bounded (h : f.Absorbed ended chain parent sub) (hf : f.machine.Bounded) :
    parent.machine.Bounded := by
  cases h with
  | returned | created => exact resume_bounded hf _ _
  | dropped => exact hf

end Frame

namespace CallStack

variable {s s' : CallStack} {chain : ChainView}

/-- **A step** keeps what frames return within bounds. -/
lemma Bounded.step {event : Option Event} (h : s.Bounded)
    (hs : s.step chain = (s', .ok event)) : s'.Bounded := by
  obtain ⟨hcurrent, hwaiting⟩ := List.forall_mem_cons.mp h
  cases step_stepped hs with
  | @ran g running stepped =>
      have hg : (s.current.step chain).1 = g := by
        simp only [CallStack.step, running] at hs
        exact (CallStack.mk.inj (Prod.mk.inj hs).1).1
      exact List.forall_mem_cons.mpr ⟨hg ▸ Frame.step_bounded hcurrent, hwaiting⟩
  | entered asked begun =>
      exact List.forall_mem_cons.mpr ⟨begun.bounded (Frame.derive_bounded _ _ _), h⟩
  | rested => exact h
  | left ended below absorbs =>
      rw [below] at hwaiting
      obtain ⟨hparent, hrest⟩ := List.forall_mem_cons.mp hwaiting
      exact List.forall_mem_cons.mpr ⟨(Frame.absorb_absorbed absorbs).bounded hparent, hrest⟩

lemma Bounded.withRoot {root : Frame} (h : s.Bounded) (hroot : root.machine.Bounded) :
    (s.withRoot root).Bounded :=
  List.forall_mem_cons.mpr ⟨hroot, (List.forall_mem_cons.mp h).2⟩

end CallStack

end ResumableEvm
