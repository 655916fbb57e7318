import ResumableEvm.Proofs.FrameAgreement
import ResumableEvm.Proofs.GasBudget

/-!
# What holds of every frame

A property that a step of a frame keeps, that a frame hands on to the one it asks for, and that
the frame goes on with once that one has ended, holds of every frame of an execution.

* `Frame.Kept` — the five things to show of a property of frames.
* `CallStack.Stepped.every` — a step of a call stack keeps it of every frame.
* `Frame.grounded_kept` — overlays stay grounded, in these terms.
* `CallStack.Stepped.root_context` — the root runs in one context from beginning to end.
-/

namespace ResumableEvm

namespace Frame

/-- **A property that frames keep,** from one step to the next and from frame to frame, while the
    log is told the data of a world. -/
structure Kept (rs : Ruleset) (block : Header) (w : World) (P : CommitLog → Frame → Prop) :
    Prop where
  /-- It does not matter that more is known. -/
  grow : ∀ {log log' : CommitLog} {f : Frame}, log'.Tells w → log.Within log' → P log f → P log' f
  step : ∀ {log : CommitLog} {f g : Frame}, log.Tells w → f.Stepped ⟨rs, block, log⟩ g →
    P log f → P log g
  /-- The frame that is asked for begins with it. -/
  enter : ∀ {log : CommitLog} {f g : Frame} {context : Context}, log.Tells w →
    f.status.invoked? = some context →
      (f.derive context rs.rules).Begun ⟨rs, block, log⟩ g → P log f → P log g
  deposit : ∀ {log : CommitLog} {f g : Frame}, log.Tells w → f.Deposited ⟨rs, block, log⟩ g →
    P log f → P log g
  /-- The frame that asked goes on with it. -/
  resume : ∀ {log : CommitLog} {f sub : Frame} (region : Option (Word × Word)), P log f →
    P log sub → P log (f.resume sub region)

variable {rs : Ruleset} {block : Header} {w : World} {P Q : CommitLog → Frame → Prop}
  {chain : ChainView} {log : CommitLog} {f g ended parent sub : Frame}

/-- Two properties are kept together. -/
lemma Kept.and (hP : Kept rs block w P) (hQ : Kept rs block w Q) :
    Kept rs block w fun log f => P log f ∧ Q log f where
  grow ht hw h := ⟨hP.grow ht hw h.1, hQ.grow ht hw h.2⟩
  step ht hs h := ⟨hP.step ht hs h.1, hQ.step ht hs h.2⟩
  enter ht ha hb h := ⟨hP.enter ht ha hb h.1, hQ.enter ht ha hb h.2⟩
  deposit ht hd h := ⟨hP.deposit ht hd h.1, hQ.deposit ht hd h.2⟩
  resume region h hsub := ⟨hP.resume region h.1 hsub.1, hQ.resume region h.2 hsub.2⟩

/-- A frame that takes back the one it asked for. -/
lemma Kept.absorb (hP : Kept rs block w P) (ht : log.Tells w)
    (h : f.Absorbed ended ⟨rs, block, log⟩ parent sub) (hf : P log f) (hended : P log ended) :
    P log parent := by
  cases h with
  | returned => exact hP.resume _ hf hended
  | created asked deposited => exact hP.resume _ hf (hP.deposit ht deposited hended)
  | dropped => exact hf

/-- Overlays stay grounded. -/
lemma grounded_kept (rs : Ruleset) (block : Header) (w : World) :
    Kept rs block w fun log f => f.overlay.Grounded log where
  grow _ hw h := h.within hw
  step _ hs h := hs.grounded h
  enter _ _ hb h := hb.grounded h
  deposit _ hd h := hd.grounded h
  resume {log f sub} region h hsub := by
    rcases f.resume_overlay sub region with heq | heq <;> rw [heq] <;> assumption

/-! ## Contexts -/

lemma runPrecompile_context (f : Frame) (c : Precompile) :
    (f.runPrecompile c).context = f.context := by
  simp only [runPrecompile]
  split <;> rfl

lemma Stepped.context (h : f.Stepped chain g) : g.context = f.context := by
  cases h with
  | idle | past | refused | unaffordable => rfl
  | precompile => exact runPrecompile_context f _
  | executed running code checked charged afforded effect =>
      exact (follow_same _ _).1.trans effect.same.2.2.1

lemma Begun.context (h : f.Begun chain g) : g.context = f.context := by
  cases h <;> rfl

lemma Deposited.context (h : f.Deposited chain g) : g.context = f.context := by
  cases h <;> rfl

lemma Absorbed.context (h : f.Absorbed ended chain parent sub) : parent.context = f.context := by
  cases h with
  | returned | created => exact (f.keeps_resume _ _).context
  | dropped => rfl

end Frame

/-- The frame in a place, counted from the bottom. -/
lemma getElem?_reverse_cons {α : Type} {top x : α} {below : List α} {n : ℕ} :
    (top :: below).reverse[n]? = some x ↔
      below.reverse[n]? = some x ∨ n = below.length ∧ x = top := by
  rw [List.reverse_cons]
  rcases Nat.lt_trichotomy n below.length with hlt | rfl | hgt
  · rw [List.getElem?_append_left (by simpa using hlt)]
    simp [hlt.ne]
  · simp [eq_comm]
  · rw [List.getElem?_eq_none (by simp; omega), List.getElem?_eq_none (by simp; omega)]
    simp [hgt.ne']

namespace CallStack

variable {rs : Ruleset} {block : Header} {w : World} {P : CommitLog → Frame → Prop}
  {chain : ChainView} {log log' : CommitLog} {s s' : CallStack}

/-- Every frame has a property. -/
def Every (P : CommitLog → Frame → Prop) (log : CommitLog) (s : CallStack) : Prop :=
  ∀ f ∈ s.current :: s.waiting, P log f

lemma Every.grow (hs : s.Every P log) (hP : Frame.Kept rs block w P) (ht : log'.Tells w)
    (hw : log.Within log') : s.Every P log' :=
  fun f hf => hP.grow ht hw (hs f hf)

/-- **A step keeps a property of every frame.** -/
lemma Stepped.every (hP : Frame.Kept rs block w P) (ht : log.Tells w)
    (h : s.Stepped ⟨rs, block, log⟩ s') (hs : s.Every P log) : s'.Every P log := by
  obtain ⟨hcurrent, hwaiting⟩ := List.forall_mem_cons.mp hs
  cases h with
  | ran running stepped =>
      exact List.forall_mem_cons.mpr ⟨hP.step ht stepped hcurrent, hwaiting⟩
  | entered asked begun =>
      exact List.forall_mem_cons.mpr ⟨hP.enter ht asked begun hcurrent, hs⟩
  | rested => exact hs
  | left ended below absorbs =>
      rw [below] at hwaiting
      obtain ⟨hparent, hrest⟩ := List.forall_mem_cons.mp hwaiting
      have hnext := hP.absorb ht (Frame.absorb_absorbed absorbs) hparent hcurrent
      exact List.forall_mem_cons.mpr ⟨hnext, hrest⟩

/-- **The root's context never changes.** -/
lemma Stepped.root_context (h : s.Stepped chain s') : s'.root.context = s.root.context := by
  -- the root is the last that waits, or the current frame where none does
  have hbottom : ∀ {f g : Frame} (rest : List Frame), g.context = f.context →
      (rest.getLast?.getD g).context = (rest.getLast?.getD f).context := by
    intro f g rest heq
    cases rest.getLast? with
    | none => exact heq
    | some root => rfl
  cases h with
  | ran running stepped => exact hbottom s.waiting stepped.context
  | entered =>
      simp only [root, enter]
      rw [List.getLast?_cons]
      rfl
  | rested => rfl
  | left ended below absorbs =>
      simp only [root]
      rw [below, List.getLast?_cons]
      exact hbottom _ (Frame.absorb_absorbed absorbs).context

end CallStack

end ResumableEvm
