import ResumableEvm.Proofs.FrameGas

/-!
# The gas of a call stack

All frames of a call stack live on one budget.  A frame that waits has set aside the limit of the
frame above it, and takes over what that frame used when it goes on; so the frames together never
use more than the root was given, and what they used so far never goes down.

* `Frame.Keeps` — a change that touches neither gas, limits, context nor what is returned.
* `Frame.resume_spends` — a frame that ended goes back into the one that asked for it.
* `Frame.Funded` — every frame can pay, and was given what the frame below set aside.
* `CallStack.Stepped.spends` — a step keeps it and uses no gas back.
-/

namespace ResumableEvm

namespace Frame

variable {f g k sub : Frame} {chain : ChainView} {rs : Ruleset} {waiting : List Frame} {budget : ℕ}

/-! ## Going back -/

/-- **A change that touches neither gas, limits, context nor what is returned,** and at most ends
    the frame. -/
structure Keeps (f g : Frame) : Prop where
  usedGas : g.usedGas = f.usedGas
  memoryWords : g.memoryWords = f.memoryWords
  context : g.context = f.context
  memoryLimit : g.machine.memory.limit = f.machine.memory.limit
  region : g.machine.returnRange = f.machine.returnRange
  status : g.status = f.status ∨ g.status.isExited = true

lemma Keeps.refl (f : Frame) : f.Keeps f := ⟨rfl, rfl, rfl, rfl, rfl, .inl rfl⟩

lemma Keeps.trans (h : f.Keeps g) (h' : g.Keeps k) : f.Keeps k where
  usedGas := h'.usedGas.trans h.usedGas
  memoryWords := h'.memoryWords.trans h.memoryWords
  context := h'.context.trans h.context
  memoryLimit := h'.memoryLimit.trans h.memoryLimit
  region := h'.region.trans h.region
  status := by
    rcases h'.status with heq | hexited
    · rw [heq]
      exact h.status
    · exact .inr hexited

lemma keeps_exit (f : Frame) (reason : ExitReason) : f.Keeps (f.exit reason) :=
  ⟨rfl, rfl, rfl, rfl, rfl, .inr (FrameStatus.isExited_ofReason reason)⟩

lemma keeps_failTop (f : Frame) : f.Keeps f.failTop := by
  simp only [failTop]
  split
  · exact ⟨rfl, rfl, rfl, rfl, rfl, .inl rfl⟩
  · exact f.keeps_exit _

lemma keeps_copyOutput (f : Frame) (outOffset outLen : Word) (out : Bytes) :
    f.Keeps (f.copyOutput outOffset outLen out) := by
  simp only [copyOutput]
  split
  · rename_i hcopy
    exact ⟨rfl, rfl, rfl, Machine.copyLarge_limit hcopy, rfl, .inl rfl⟩
  · exact f.keeps_exit _

/-- A frame that goes on takes over the gas of the frame that it asked for, and nothing else of
    it counts. -/
lemma keeps_resume (f sub : Frame) (region : Option (Word × Word)) :
    Keeps { f with status := .running, usedGas := f.usedGas + sub.totalUsedGas }
      (f.resume sub region) := by
  have hadopt : ∀ (f : Frame) (ret : Bytes), f.Keeps (f.adopt sub ret) := fun f ret =>
    ⟨rfl, rfl, rfl, rfl, rfl, .inl rfl⟩
  have hret : ∀ (f : Frame) (ret : Bytes), f.Keeps { f.failTop with ret := ret } := fun f ret =>
    have h := f.keeps_failTop
    ⟨h.usedGas, h.memoryWords, h.context, h.memoryLimit, h.region, h.status⟩
  simp only [resume]
  split
  · split
    · exact (hadopt _ _).trans (keeps_copyOutput _ _ _ _)
    · exact hadopt _ _
  · split
    · exact (hret _ _).trans (keeps_copyOutput _ _ _ _)
    · exact hret _ _
  · exact hret _ _
  · exact keeps_exit _ _
  · exact .refl _

/-- A frame that goes on asks for nothing. -/
lemma invoked?_resume (f sub : Frame) (region : Option (Word × Word)) :
    (f.resume sub region).status.invoked? = none := by
  rcases (f.keeps_resume sub region).status with heq | hexited
  · rw [heq]
    rfl
  · exact FrameStatus.invoked?_eq_none hexited

/-- A frame that asks for another has not ended. -/
lemma ne_exitedErr_of_invoked {context : Context} (hc : f.status.invoked? = some context)
    (e : ExitError) : f.status ≠ .exitedErr e := by
  intro hs
  rw [hs] at hc
  cases hc

/-- What a frame takes over never saturates, since it was set aside. -/
lemma toNat_usedGas_add {context : Context} (hf : f.Solvent rs) (hsub : sub.Solvent rs)
    (hasked : f.status.invoked? = some context) (hgiven : sub.context = context) :
    (f.usedGas + sub.totalUsedGas).toNat = f.usedGas.toNat + sub.totalUsedGas.toNat := by
  have hsat := hf.unsaturated
  have hfunds := hf.funds _ hasked
  have htotal := hsub.total_le
  subst hgiven
  simp only [spent, limit] at *
  simp only [Gas.toNat_add] at hfunds ⊢
  omega

/-- **Going back.**  What the frame that ended has used was set aside for it. -/
lemma resume_spends {context : Context} (hf : f.Solvent rs) (hsub : sub.Solvent rs)
    (hasked : f.status.invoked? = some context) (hgiven : sub.context = context)
    (region : Option (Word × Word)) :
    (f.resume sub region).Solvent rs ∧ (f.resume sub region).context = f.context ∧
      f.totalUsedGas.toNat + sub.totalUsedGas.toNat ≤ (f.resume sub region).totalUsedGas.toNat := by
  obtain ⟨hused, hwords, hcontext, -, -⟩ := f.keeps_resume sub region
  have hsat := hf.unsaturated
  have hfunds := hf.funds _ hasked
  have htotal := hsub.total_le
  have hspent : (f.resume sub region).spent = f.spent + sub.totalUsedGas.toNat := by
    subst hgiven
    simp only [spent, limit] at *
    rw [hused, hwords]
    simp only [Gas.toNat_add] at hfunds ⊢
    omega
  have hlimit : (f.resume sub region).limit = f.limit := by
    simp only [limit]
    rw [hcontext]
  have hsolvent : (f.resume sub region).Solvent rs := by
    refine ⟨hlimit ▸ hsat, ?_, fun context hc => ?_, fun hp => ?_⟩
    · subst hgiven
      rw [hspent, hlimit]
      simp only [limit] at *
      omega
    · rw [invoked?_resume] at hc
      cases hc
    · rw [hcontext] at hp
      rcases hf.untouched hp with hexited | ⟨hr, -⟩
      · rw [FrameStatus.invoked?_eq_none hexited] at hasked
        cases hasked
      · rw [hr] at hasked
        cases hasked
  refine ⟨hsolvent, hcontext, ?_⟩
  rw [total_eq_spent (ne_exitedErr_of_invoked hasked)]
  have := hsolvent.spent_le
  omega

/-- Settling changes accounts and drops log entries, but uses no gas. -/
lemma Solvent.settle {charged : Gas} {preclaimed : Word} {fresh : Overlay} {beneficiary : Address}
    (hf : f.Solvent rs)
    (h : f.settle chain charged preclaimed fresh beneficiary = (g, .ok ())) : Spends rs f g := by
  obtain ⟨overlay, -, h⟩ := attempt_eq_ok.mp h
  split at h <;> cases h
  · exact hf.same rfl rfl rfl rfl
  · exact hf.same rfl rfl rfl rfl

/-! ## The budget -/

/-- **Frames on one budget,** the current one and those that wait below it.  Every frame can pay,
    and was given what the frame below set aside for it; the budget is what the root was given. -/
inductive Funded (rs : Ruleset) (budget : ℕ) : Frame → List Frame → Prop where
  | root {f : Frame} (solvent : f.Solvent rs) (given : f.limit = budget) : Funded rs budget f []
  | sub {f parent : Frame} {rest : List Frame} (solvent : f.Solvent rs)
      (asked : parent.status.invoked? = some f.context) (below : Funded rs budget parent rest) :
      Funded rs budget f (parent :: rest)

/-- All the gas used by some frames. -/
def allUsed (frames : List Frame) : ℕ := (frames.map (·.totalUsedGas.toNat)).sum

lemma Funded.solvent (h : Funded rs budget f waiting) : f.Solvent rs := by
  cases h with
  | root solvent => exact solvent
  | sub solvent => exact solvent

/-- Every frame on a budget can pay. -/
lemma Funded.all_solvent (h : Funded rs budget f waiting) : ∀ g ∈ f :: waiting, g.Solvent rs := by
  induction h with
  | root solvent =>
      intro g hg
      obtain rfl := List.mem_singleton.mp hg
      exact solvent
  | sub solvent asked below ih => exact List.forall_mem_cons.mpr ⟨solvent, ih⟩

/-- The current frame may make any move that leaves it able to pay. -/
lemma Funded.move (h : Funded rs budget f waiting) (hmove : Spends rs f g) :
    Funded rs budget g waiting := by
  cases h with
  | root solvent given =>
      refine .root hmove.solvent ?_
      simp only [limit] at *
      rw [hmove.context, given]
  | sub solvent asked below => exact .sub hmove.solvent (hmove.context ▸ asked) below

/-- Whatever the current frame uses of its limit, all frames stay within the budget. -/
lemma Funded.allUsed_le (h : Funded rs budget f waiting) :
    ∀ used ≤ f.limit, used + allUsed waiting ≤ budget := by
  induction h with
  | root solvent given =>
      intro used hused
      simpa [allUsed, given] using hused
  | @sub f parent rest solvent asked below ih =>
      intro used hused
      have htotal := total_eq_spent (ne_exitedErr_of_invoked asked)
      have hfunds := below.solvent.funds _ asked
      have hle := ih (used + parent.totalUsedGas.toNat) (by unfold limit at *; omega)
      simp only [allUsed] at *
      rw [List.map_cons, List.sum_cons]
      omega

end Frame

/-! ## Call stacks -/

namespace CallStack

variable {s s' : CallStack} {chain : ChainView} {rs : Ruleset} {budget : ℕ}

/-- All frames of a call stack live on one budget. -/
def Funded (rs : Ruleset) (budget : ℕ) (s : CallStack) : Prop :=
  Frame.Funded rs budget s.current s.waiting

/-- The gas used so far by all frames, as a natural number. -/
def allUsed (s : CallStack) : ℕ := Frame.allUsed (s.current :: s.waiting)

lemma allUsed_eq (s : CallStack) : (s.frames.map (·.totalUsedGas.toNat)).sum = s.allUsed := by
  simp [allUsed, Frame.allUsed, frames, List.sum_reverse, add_comm]

lemma Funded.allUsed_le (h : s.Funded rs budget) : s.allUsed ≤ budget := by
  have hle := Frame.Funded.allUsed_le h _ (Frame.Funded.solvent h).total_le
  simpa [allUsed, Frame.allUsed] using hle

/-- The sum over all frames stops at the largest amount. -/
lemma toNat_usedGas (s : CallStack) : s.usedGas.toNat = min s.allUsed maxWord := by
  have hfold : ∀ (frames : List Frame) (gas : Gas),
      (frames.foldl (fun gas f => gas + f.totalUsedGas) gas).toNat =
        min (gas.toNat + Frame.allUsed frames) maxWord := by
    intro frames
    induction frames with
    | nil =>
        intro gas
        have := gas.toNat_le
        simp only [List.foldl_nil, Frame.allUsed, List.map_nil, List.sum_nil]
        omega
    | cons f rest ih =>
        intro gas
        rw [List.foldl_cons, ih, Gas.toNat_add]
        simp only [Frame.allUsed, List.map_cons, List.sum_cons]
        omega
  simp only [usedGas]
  rw [hfold, show Frame.allUsed s.frames = s.allUsed from s.allUsed_eq]
  show min (0 + _) _ = _
  rw [Nat.zero_add]

/-- A frame that ended goes back into the one below. -/
lemma Funded.absorb {f parent parent' sub : Frame} {rest : List Frame}
    (hs : Frame.Funded chain.ruleset budget f (parent :: rest))
    (h : parent.Absorbed f chain parent' sub) :
    Frame.Funded chain.ruleset budget parent' rest ∧
      Frame.allUsed (f :: parent :: rest) ≤ Frame.allUsed (parent' :: rest) := by
  cases hs with
  | sub solvent asked below =>
      have hresume : ∀ (sub : Frame) (region : Option (Word × Word)),
          Frame.Spends chain.ruleset f sub →
            Frame.Funded chain.ruleset budget (parent.resume sub region) rest ∧
              Frame.allUsed (f :: parent :: rest) ≤
                Frame.allUsed (parent.resume sub region :: rest) := by
        intro sub region hmove
        obtain ⟨hsolvent, hcontext, hgrows⟩ :=
          Frame.resume_spends below.solvent hmove.solvent asked hmove.context region
        refine ⟨below.move ⟨hsolvent, by omega, hcontext⟩, ?_⟩
        have := hmove.grows
        simp only [Frame.allUsed, List.map_cons, List.sum_cons]
        omega
      cases h with
      | returned => exact hresume _ _ (.refl solvent)
      | created asked deposited => exact hresume _ _ (deposited.spends solvent)
      | dropped unasked => cases unasked.symm.trans asked

/-- **A step of a call stack** leaves every frame able to pay and uses no gas back. -/
lemma Stepped.spends (h : s.Stepped chain s') (hs : s.Funded chain.ruleset budget) :
    s'.Funded chain.ruleset budget ∧ s.allUsed ≤ s'.allUsed := by
  have hcurrent : s.current.Solvent chain.ruleset := Frame.Funded.solvent hs
  cases h with
  | @ran g running stepped =>
      have hmove := stepped.spends hcurrent
      refine ⟨Frame.Funded.move hs hmove, ?_⟩
      have := hmove.grows
      simp only [allUsed, Frame.allUsed, List.map_cons, List.sum_cons]
      omega
  | @entered context sub asked begun =>
      have hfunds := hcurrent.funds context asked
      have hsat := hcurrent.unsaturated
      have hnew : (s.current.derive context chain.rules).Solvent chain.ruleset :=
        .of_new (show context.gasLimit.toNat < maxWord by omega) rfl rfl rfl
      have hmove := begun.spends hnew rfl
      refine ⟨.sub hmove.solvent (hmove.context ▸ asked) hs, ?_⟩
      simp only [allUsed, enter, Frame.allUsed, List.map_cons, List.sum_cons]
      omega
  | rested => exact ⟨hs, le_rfl⟩
  | @left parent parent' sub rest ended below absorbs =>
      simp only [Funded, allUsed] at *
      rw [below] at hs ⊢
      exact Funded.absorb hs (Frame.absorb_absorbed absorbs)

end CallStack

end ResumableEvm
