import ResumableEvm.Proofs.FrameInvariant
import ResumableEvm.Proofs.Isolation
import ResumableEvm.Proofs.Moves
import ResumableEvm.Proofs.Progress

/-!
# The shape of a call stack

From a root on, frames are counted from the bottom, each that waits has asked for the one above
it, and there are at most as many as the rules allow calls to nest.  So a frame that has ended
always finds below it the one that asked for it, and that one finds the result that it put on its
stack in advance.

* `FrameStatus.result?`, `Frame.Promising` — the result that stands on a stack in advance.
* `Frame.Linked` — frames of which each that waits has asked for the one above it.
* `CallStack.ComesFrom` — what a root frame leads to.
* `call_stack_keeps_shape` — depths, links, size, and what going back finds.
-/

namespace ResumableEvm

/-- The word that stands for the success of what a status asks for. -/
def FrameStatus.result? : FrameStatus → Option Word
  | .invokeCall _ _ _ => some 1
  | .invokeCreate context => some context.address.toWord
  | _ => none

lemma FrameStatus.result?_eq_none {status : FrameStatus} (h : status.invoked? = none) :
    status.result? = none := by
  cases status <;> first | rfl | cases h

lemma FrameStatus.exists_result {status : FrameStatus} {context : Context}
    (h : status.invoked? = some context) : ∃ w, status.result? = some w := by
  cases status <;> first | exact ⟨_, rfl⟩ | cases h

namespace Frame

variable {f g parent parent' ended sub : Frame} {waiting rest : List Frame} {chain : ChainView}
  {i : Instruction} {stipend afterGas : Gas} {control : FrameControl}

/-! ## Results in advance -/

/-- **A frame with its result in place.**  Where it asks for another, the result is on top of its
    stack already. -/
def Promising (f : Frame) : Prop :=
  ∀ w, f.status.result? = some w → ∃ items, f.machine.stack.items = w :: items

lemma Promising.of_unasked (h : f.status.invoked? = none) : f.Promising := by
  intro w hw
  rw [FrameStatus.result?_eq_none h] at hw
  cases hw

/-- An instruction that asks for a frame pushes the result first. -/
lemma Effect.promising (h : f.Effect chain stipend afterGas i g control) (c : Charge)
    (hr : f.status = .running) : ((g.book c).follow control).Promising := by
  cases h with
  | compute program stays =>
      rcases stays with rfl | ⟨reason, rfl⟩
      · exact .of_unasked (by simp only [follow, book, hr]; rfl)
      · exact .of_unasked (invoked?_exit _ reason)
  | store | log => exact .of_unasked (by simp only [follow, book, hr]; rfl)
  | destroy => exact .of_unasked (invoked?_exit _ _)
  | @create kind machine nonce value overlay address code items program raised result =>
      rintro w ⟨⟩
      exact ⟨items, result⟩
  | @call kind machine operands items code input program same taken result =>
      rintro w ⟨⟩
      exact ⟨items, result⟩

lemma Stepped.promising (h : f.Stepped chain g) (hf : f.Promising) : g.Promising := by
  cases h with
  | idle => exact hf
  | precompile => exact .of_unasked (FrameStatus.invoked?_eq_none (runPrecompile_exited _ _))
  | past | refused => exact .of_unasked rfl
  | unaffordable => exact .of_unasked (f.invoked?_exit _)
  | executed running code checked charged afforded effect => exact effect.promising _ running

/-- A result that is in place can be taken back, whatever else has changed by then. -/
lemma failTop_of_result {w : Word} {items : List Word} (h : f.machine.stack.items = w :: items)
    (status : FrameStatus) (usedGas : Gas) :
    ({ f with status := status, usedGas := usedGas } : Frame).failTop =
      ({ f with status := status, usedGas := usedGas } : Frame).withItems (0 :: items) := by
  rw [failTop_eq (by simp [h])]
  simp [h, withItems, Machine.withItems]

/-! ## Links -/

/-- **Frames in one chain of calls,** the current one and those that wait below it.  Each that
    waits has asked for the one above it, and has its result in place. -/
inductive Linked : Frame → List Frame → Prop where
  | root {f : Frame} (promising : f.Promising) : Linked f []
  | sub {f parent : Frame} {rest : List Frame} (promising : f.Promising)
      (asked : parent.status.invoked? = some f.context) (below : Linked parent rest) :
      Linked f (parent :: rest)

lemma Linked.promising (h : Linked f waiting) : f.Promising := by
  cases h <;> assumption

lemma Linked.asked (h : Linked f (parent :: rest)) : parent.status.invoked? = some f.context := by
  cases h
  assumption

lemma Linked.tail (h : Linked f (parent :: rest)) : Linked parent rest := by
  cases h
  assumption

/-- The current frame may do anything that leaves it in its context. -/
lemma Linked.move (h : Linked f waiting) (hcontext : g.context = f.context)
    (hg : g.Promising) : Linked g waiting := by
  cases h with
  | root => exact .root hg
  | sub _ asked below => exact .sub hg (hcontext ▸ asked) below

lemma Linked.forall_promising (h : Linked f waiting) : ∀ g ∈ f :: waiting, g.Promising := by
  induction h with
  | root promising => simpa using promising
  | sub promising _ _ ih => exact List.forall_mem_cons.mpr ⟨promising, ih⟩

/-- **Going back** takes place between a frame that has ended and the one that asked for it. -/
lemma Absorbed.resumes (h : f.Absorbed ended chain parent sub) {context : Context}
    (hasked : f.status.invoked? = some context) (hended : ended.status.isExited = true) :
    sub.status.isExited = true ∧ ∃ region, parent = f.resume sub region := by
  cases h with
  | returned => exact ⟨hended, _, rfl⟩
  | created _ deposited => exact ⟨deposited.exited hended, none, rfl⟩
  | dropped unasked => cases unasked.symm.trans hasked

/-! ## Places -/

lemma Nested.depth_place {rules : Rules} (h : Nested rules f waiting) {n : ℕ}
    (hg : (f :: waiting).reverse[n]? = some g) : g.depth = n := by
  induction h with
  | root depth =>
      rcases getElem?_reverse_cons.mp hg with hnone | ⟨rfl, rfl⟩
      · cases hnone
      · exact depth
  | sub depth room place below ih =>
      rcases getElem?_reverse_cons.mp hg with hbelow | ⟨rfl, rfl⟩
      · exact ih hbelow
      · rw [depth, below.depth, List.length_cons]

lemma Linked.asked_place (h : Linked f waiting) {n : ℕ}
    (hf : (f :: waiting).reverse[n]? = some parent)
    (hg : (f :: waiting).reverse[n + 1]? = some sub) :
    parent.status.invoked? = some sub.context := by
  induction h with
  | root =>
      rcases getElem?_reverse_cons.mp hg with hnone | ⟨habsurd, -⟩
      · cases hnone
      · cases habsurd
  | @sub f below rest promising asked linked ih =>
      have hplace : ∀ {frames : List Frame} {m : ℕ} {g : Frame}, frames.reverse[m]? = some g →
          m < frames.length := by
        intro frames m g hm
        simpa using (List.getElem?_eq_some_iff.mp hm).1
      rcases getElem?_reverse_cons.mp hg with hbelow | ⟨htop, rfl⟩
      · rcases getElem?_reverse_cons.mp hf with hparent | ⟨rfl, -⟩
        · exact ih hparent hbelow
        · exact absurd (hplace hbelow) (Nat.not_lt_of_le (Nat.le_succ _))
      · -- the frame right below the current one is the first that waits
        rw [List.length_cons] at htop
        rcases getElem?_reverse_cons.mp hf with hparent | ⟨rfl, -⟩
        · rcases getElem?_reverse_cons.mp hparent with hlower | ⟨-, rfl⟩
          · exact absurd (hplace hlower) (by omega)
          · exact asked
        · rw [List.length_cons] at htop
          omega

end Frame

/-! ## Call stacks -/

namespace CallStack

variable {rs : Ruleset} {block : Header} {root : Frame} {s s' : CallStack} {chain : ChainView}

/-- **What a root frame leads to,** whatever it is told at each step.  A step that waits for a
    datum counts as well. -/
inductive ComesFrom (rs : Ruleset) (block : Header) (root : Frame) : CallStack → Prop where
  | start : ComesFrom rs block root (ofRoot root)
  | step {s s' : CallStack} {log : CommitLog} {event : Option Event}
      (before : ComesFrom rs block root s)
      (stepped : s.step ⟨rs, block, log⟩ = (s', .ok event)) : ComesFrom rs block root s'
  | waited {s s' : CallStack} {log : CommitLog} {r : Requirement}
      (before : ComesFrom rs block root s)
      (asked : s.step ⟨rs, block, log⟩ = (s', .error (.requires r))) : ComesFrom rs block root s'

/-- The frames are in one chain of calls. -/
def Linked (s : CallStack) : Prop := Frame.Linked s.current s.waiting

/-- **A step keeps the links.** -/
lemma Stepped.linked (h : s.Stepped chain s') (hs : s.Linked) : s'.Linked := by
  cases h with
  | ran running stepped => exact hs.move stepped.context (stepped.promising hs.promising)
  | entered asked begun =>
      exact .sub (.of_unasked (begun.unasked rfl)) (begun.context ▸ asked) hs
  | rested => exact hs
  | @left parent parent' sub rest ended below absorbs =>
      have hlinked : Frame.Linked s.current (parent :: rest) := below ▸ hs
      obtain ⟨-, region, rfl⟩ := (Frame.absorb_absorbed absorbs).resumes hlinked.asked ended
      exact hlinked.tail.move (parent.keeps_resume sub region).context
        (.of_unasked (parent.invoked?_resume sub region))

lemma ComesFrom.nested (h : ComesFrom rs block root s) (hdepth : root.depth = 0)
    (hunasked : root.status.invoked? = none) : s.Nested rs.rules := by
  induction h with
  | start => exact .root hdepth (.of_unasked hunasked)
  | step before stepped ih => exact (step_stepped stepped).nested ih
  | waited before asked ih => exact step_requires asked ▸ ih

lemma ComesFrom.linked (h : ComesFrom rs block root s) (hunasked : root.status.invoked? = none) :
    s.Linked := by
  induction h with
  | start => exact .root (.of_unasked hunasked)
  | step before stepped ih => exact (step_stepped stepped).linked ih
  | waited before asked ih => exact step_requires asked ▸ ih

/-- An execution starts from its root alone, at the bottom and without having asked. -/
lemma exists_root_of_accept {t : Transaction} {e : Execution} (h : t.accept chain = .ok (.ok e)) :
    ∃ root : Frame, root.depth = 0 ∧ root.status.invoked? = none ∧ e.calls = ofRoot root := by
  obtain ⟨-, halone, -, paid, code, -, hbegun⟩ := Transaction.accept_begins h
  refine ⟨e.calls.root, hbegun.depth, hbegun.unasked rfl, ?_⟩
  rw [Execution.root_of_alone halone, ofRoot, ← halone]

end CallStack

open CallStack in
/-- **A call stack keeps its shape.**  Every transaction past validation starts from a root at the
    bottom that has asked for nothing.  Whatever such a root leads to: the frames are as deep as
    their place says; each but the last waits for the call or creation it has asked for, which runs
    above it in just that context; there are one and at most one more than calls may nest.  A frame
    that has ended finds below it the one that asked, which goes on once the other, its code
    deposited, has ended.  And each frame that asks has the result on its stack, which it can take
    back. -/
theorem call_stack_keeps_shape (rs : Ruleset) (block : Header) :
    (∀ (t : Transaction) (e : Execution) (log : CommitLog),
      t.accept ⟨rs, block, log⟩ = .ok (.ok e) →
        ∃ root : Frame, root.depth = 0 ∧ root.status.invoked? = none ∧ e.calls = ofRoot root) ∧
    (∀ (root : Frame) (s : CallStack), root.depth = 0 → root.status.invoked? = none →
      ComesFrom rs block root s →
        (∀ (i : ℕ) (f : Frame), s.frames[i]? = some f → f.depth = i) ∧
        (∀ (i : ℕ) (f g : Frame), s.frames[i]? = some f → s.frames[i + 1]? = some g →
          f.status.invoked? = some g.context) ∧
        1 ≤ s.frames.length ∧ s.frames.length ≤ rs.rules.callStackLimit.toNat + 1 ∧
        (∀ (parent : Frame) (rest : List Frame), s.waiting = parent :: rest →
          s.current.status.isExited = true →
            parent.status.invoked? = some s.current.context ∧
            ∀ (log : CommitLog) (parent' sub : Frame),
              parent.absorb s.current ⟨rs, block, log⟩ = (parent', sub, .ok ()) →
                sub.status.isExited = true ∧ ∃ region, parent' = parent.resume sub region) ∧
        (∀ f ∈ s.frames, ∀ context, f.status.invoked? = some context →
          ∃ w items, f.status.result? = some w ∧ f.machine.stack.items = w :: items ∧
            ∀ (status : FrameStatus) (usedGas : Gas),
              ({ f with status := status, usedGas := usedGas } : Frame).failTop =
                ({ f with status := status, usedGas := usedGas } : Frame).withItems
                  (0 :: items))) := by
  refine ⟨fun t e log h => exists_root_of_accept h, ?_⟩
  intro root s hdepth hunasked h
  have hnested : Frame.Nested rs.rules s.current s.waiting := h.nested hdepth hunasked
  have hlinked : Frame.Linked s.current s.waiting := h.linked hunasked
  have hlength : s.frames.length = s.waiting.length + 1 := by simp [frames]
  refine ⟨fun i f hf => hnested.depth_place hf, fun i f g hf hg => hlinked.asked_place hf hg,
    by omega, ?_, ?_, ?_⟩
  · rw [hlength]
    exact Nat.succ_le_succ hnested.length_le
  · intro parent rest hwaiting hexited
    rw [hwaiting] at hlinked
    refine ⟨hlinked.asked, fun log parent' sub habsorb => ?_⟩
    exact (Frame.absorb_absorbed habsorb).resumes hlinked.asked hexited
  · intro f hf context hasked
    obtain ⟨w, hresult⟩ := FrameStatus.exists_result hasked
    obtain ⟨items, hitems⟩ := hlinked.forall_promising f (List.mem_reverse.mp hf) w hresult
    exact ⟨w, items, hresult, hitems, Frame.failTop_of_result hitems⟩

open CallStack in
/-- Inside the call of a frame that will revert, two frames are linked. -/
theorem disappointment_keeps_shape : ∃ caller callee : Frame,
    (disappointment 10).frames[0]? = some caller ∧
    (disappointment 10).frames[1]? = some callee ∧
      caller.status.invoked? = some callee.context ∧ callee.depth = 1 := by
  have hsteps : ∀ n ≤ 10,
      ComesFrom .byzantium {} (disappointment 0).current (disappointment n) := by
    have hok : ∀ n < 10,
        ((disappointment n).step revertingChain).2.toOption.isSome = true := by decide +kernel
    intro n hn
    induction n with
    | zero => exact .start
    | succ n ih =>
        obtain ⟨event, hstep⟩ := disappointment_step (hok n (by omega))
        exact (ih (by omega)).step hstep
  obtain ⟨caller, hcaller⟩ : ∃ caller, (disappointment 10).frames[0]? = some caller :=
    Option.isSome_iff_exists.mp (by decide +kernel)
  obtain ⟨callee, hcallee⟩ : ∃ callee, (disappointment 10).frames[1]? = some callee :=
    Option.isSome_iff_exists.mp (by decide +kernel)
  obtain ⟨hdepth, hlinked, -⟩ := (call_stack_keeps_shape .byzantium {}).2
    (disappointment 0).current _ (by decide +kernel) (by decide +kernel) (hsteps 10 le_rfl)
  exact ⟨caller, callee, hcaller, hcallee, hlinked 0 caller callee hcaller hcallee,
    hdepth 1 callee hcallee⟩

end ResumableEvm
