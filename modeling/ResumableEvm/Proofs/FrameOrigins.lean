import ResumableEvm.Proofs.CallStackShape

/-!
# Where frames come from

A frame is created over some accounts, begins as a call or a creation, takes steps, takes back
frames that it asked for, and in the end may deposit its output as code.  What holds of a frame
that is created, and is kept by each of these moves, holds of every frame of a call stack.

* `Frame.MovesTo`, `Frame.Arises` — the moves of a frame, and the frames that come about by them.
* `CallStack.ComesFrom.arises` — the frames of a call stack are among them.
* `Frame.SameHeight` — all moves but a step leave as many items on the stack.
-/

namespace ResumableEvm

namespace Frame

/-- **A move of a frame,** whatever is told at it, and whatever has become of the frame that is
    taken back.  A move that waits for a datum leaves the frame as it is. -/
inductive MovesTo (rs : Ruleset) (f : Frame) : Frame → Prop where
  | called {g : Frame} {block : Header} {log : CommitLog}
      (begins : f.beginCall ⟨rs, block, log⟩ = (g, .ok ())) : MovesTo rs f g
  | creating {g : Frame} {block : Header} {log : CommitLog}
      (begins : f.beginCreate ⟨rs, block, log⟩ = (g, .ok ())) : MovesTo rs f g
  | stepped {g : Frame} {block : Header} {log : CommitLog} {event : Option Event}
      (steps : f.step ⟨rs, block, log⟩ = (g, .ok event)) : MovesTo rs f g
  | absorbed {g ended sub : Frame} {block : Header} {log : CommitLog}
      (absorbs : f.absorb ended ⟨rs, block, log⟩ = (g, sub, .ok ())) : MovesTo rs f g
  | deposited {g : Frame} {block : Header} {log : CommitLog}
      (deposits : f.depositCode ⟨rs, block, log⟩ = (g, .ok ())) : MovesTo rs f g

/-- **Frames that come about** by any moves from one that is created. -/
inductive Arises (rs : Ruleset) : Frame → Prop where
  | created (context : Context) (depth : ℕ) (overlay : Overlay) (removed : List Address) :
      Arises rs { create context depth overlay rs.rules with removed := removed }
  | moved {f g : Frame} (before : Arises rs f) (moves : f.MovesTo rs g) : Arises rs g

variable {f g sub ended : Frame} {rs : Ruleset} {block : Header} {log : CommitLog}
  {chain : ChainView} {i : Instruction} {stipend afterGas : Gas} {control : FrameControl}

lemma Arises.derived (f : Frame) (context : Context) : Arises rs (f.derive context rs.rules) :=
  .created context (f.depth + 1) f.overlay f.removed

/-! ## What the moves leave of the machine -/

/-- An instruction keeps the program and the limits of the machine. -/
lemma Effect.program (h : f.Effect chain stipend afterGas i g control) :
    f.machine.SameProgram g.machine := by
  cases h <;> assumption

/-- Going on does not touch the stack. -/
lemma follow_stack (f : Frame) (control : FrameControl) :
    (f.follow control).machine.stack = f.machine.stack := by
  cases control with
  | exit reason =>
      simp only [follow]
      split <;> rfl
  | _ => rfl

/-- **As many items on the stack,** under the same limit. -/
structure SameHeight (f g : Frame) : Prop where
  size : g.machine.stack.size = f.machine.stack.size
  limit : g.machine.stack.limit = f.machine.stack.limit

lemma SameHeight.of_stack (h : g.machine.stack = f.machine.stack) : f.SameHeight g :=
  ⟨by rw [h], by rw [h]⟩

lemma SameHeight.trans {k : Frame} (h : f.SameHeight g) (h' : g.SameHeight k) : f.SameHeight k :=
  ⟨h'.size.trans h.size, h'.limit.trans h.limit⟩

lemma Begun.height (h : f.Begun chain g) : f.SameHeight g := by
  cases h <;> exact .of_stack rfl

lemma Deposited.height (h : f.Deposited chain g) : f.SameHeight g := by
  cases h <;> exact .of_stack rfl

lemma failTop_height (f : Frame) : f.SameHeight f.failTop := by
  simp only [failTop, OperandStack.set]
  split <;> rename_i h
  · split at h <;> cases h
    exact ⟨by simp [OperandStack.size], rfl⟩
  · exact .of_stack rfl

lemma copyOutput_height (f : Frame) (outOffset outLen : Word) (out : Bytes) :
    f.SameHeight (f.copyOutput outOffset outLen out) := by
  simp only [copyOutput]
  split <;> exact .of_stack rfl

/-- A frame that takes another back has put the result on its stack in advance. -/
lemma resume_height (f sub : Frame) (region : Option (Word × Word)) :
    f.SameHeight (f.resume sub region) := by
  have hret : ∀ (f : Frame) (ret : Bytes), f.SameHeight { f.failTop with ret := ret } :=
    fun f ret => ⟨f.failTop_height.size, f.failTop_height.limit⟩
  have hstart : f.SameHeight
      { f with status := .running, usedGas := f.usedGas + sub.totalUsedGas } := .of_stack rfl
  have hadopt : ∀ (f : Frame) (ret : Bytes), f.SameHeight (f.adopt sub ret) :=
    fun f ret => .of_stack rfl
  refine hstart.trans ?_
  simp only [resume]
  split
  · split
    · exact (hadopt _ _).trans (copyOutput_height _ _ _ _)
    · exact hadopt _ _
  · split
    · exact (hret _ _).trans (copyOutput_height _ _ _ _)
    · exact hret _ _
  · exact hret _ _
  · exact .of_stack rfl
  · exact .of_stack rfl

lemma Absorbed.height (h : f.Absorbed ended chain g sub) : f.SameHeight g := by
  cases h with
  | returned | created => exact f.resume_height _ _
  | dropped => exact .of_stack rfl

end Frame

/-! ## Call stacks -/

namespace CallStack

variable {s s' : CallStack} {root : Frame} {rs : Ruleset} {block : Header} {log : CommitLog}

/-- A step makes one of the moves, on one of the frames. -/
lemma step_arises {event : Option Event} (h : s.step ⟨rs, block, log⟩ = (s', .ok event))
    (hs : ∀ f ∈ s.current :: s.waiting, f.Arises rs) :
    ∀ f ∈ s'.current :: s'.waiting, f.Arises rs := by
  obtain ⟨hcurrent, hwaiting⟩ := List.forall_mem_cons.mp hs
  simp only [step] at h
  split at h
  · rcases hstep : s.current.step ⟨rs, block, log⟩ with ⟨g, result⟩
    rw [hstep] at h
    cases h
    exact List.forall_mem_cons.mpr ⟨hcurrent.moved (.stepped hstep), hwaiting⟩
  · split at h <;> cases h
    exact List.forall_mem_cons.mpr ⟨.moved (.derived _ _) (.called ‹_›), hs⟩
  · split at h <;> cases h
    exact List.forall_mem_cons.mpr ⟨.moved (.derived _ _) (.creating ‹_›), hs⟩
  · split at h
    · cases h
      exact hs
    · rename_i parent rest hbelow
      rw [hbelow] at hwaiting
      obtain ⟨hparent, hrest⟩ := List.forall_mem_cons.mp hwaiting
      split at h <;> cases h
      exact List.forall_mem_cons.mpr ⟨hparent.moved (.absorbed ‹_›), hrest⟩

/-- **Every frame of a call stack comes about so,** if the root does. -/
lemma ComesFrom.arises (h : ComesFrom rs block root s) (hroot : root.Arises rs) :
    ∀ f ∈ s.current :: s.waiting, f.Arises rs := by
  induction h with
  | start =>
      intro f hf
      obtain rfl := List.mem_singleton.mp hf
      exact hroot
  | step before stepped ih => exact step_arises stepped ih
  | waited before asked ih => exact step_requires asked ▸ ih

end CallStack

end ResumableEvm
