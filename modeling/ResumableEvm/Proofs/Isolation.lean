import ResumableEvm.Proofs.Acceptance
import ResumableEvm.Proofs.GasBudget
import ResumableEvm.Proofs.MemoryRegion

/-!
# Failures leave no trace

While a frame runs, the frames below it wait and nothing of them changes.  When it fails, the
frame that asked for it goes on as if it had not run: its account changes, log entries, removals
and refund are what they were.  What it learns is a zero where the result was put in advance, the
gas that is gone, and after a revert what was returned.

* `Frame.Poised` — the result and the output region of a frame that asks for another.
* `Frame.afterFailure` — a frame after one that it asked for has failed.
* `CallStack.Arises`, `CallStack.Inside` — runs from a root, and runs inside a frame.
* `failed_frame_leaves_no_trace` — a frame that fails leaves its parent as it was.
-/

namespace ResumableEvm

namespace Frame

variable {f g sub : Frame} {chain : ChainView} {rules : Rules} {i : Instruction} {c : Charge}
  {stipend afterGas : Gas} {control : FrameControl} {memory : Memory}

/-! ## Asking for a frame -/

/-- **A frame that can be gone back into.**  The result of what it asks for is on its stack in
    advance, and the region for the output fits in its memory. -/
structure Poised (rules : Rules) (f : Frame) : Prop where
  memoryLimit : f.machine.memory.limit = rules.memoryLimit.toNat
  result : ∀ context, f.status.invoked? = some context → f.machine.stack.items ≠ []
  region : ∀ context outOffset outLen, f.status = .invokeCall context outOffset outLen →
    outLen = 0 ∨ outOffset.toNat + outLen.toNat ≤ rules.memoryLimit.toNat

/-- A frame that asks for nothing needs nothing in place. -/
lemma Poised.of_unasked (hmemory : f.machine.memory.limit = rules.memoryLimit.toNat)
    (hs : f.status.invoked? = none) : f.Poised rules where
  memoryLimit := hmemory
  result context hc := by
    rw [hs] at hc
    cases hc
  region context outOffset outLen hc := by
    rw [hc] at hs
    cases hs

/-- The last region that a call pays for is that of its output. -/
lemma callOperands_words {kind : CallKind} {operands : CallOperands} {rest : List Word}
    (h : callOperands? kind f.machine.stack.items = some (operands, rest)) :
    ∃ current, f.wordsNeeded (.call kind) =
      expand current operands.outOffset operands.outLen := by
  simp only [callOperands?] at h
  split at h
  case h_1 hitems | h_2 hitems =>
      cases h
      refine ⟨f.cover f.memoryWords 3 4, ?_⟩
      simp [wordsNeeded, cover, operand, OperandStack.peekD, hitems]
  case h_3 hitems | h_4 hitems =>
      cases h
      refine ⟨f.cover f.memoryWords 2 3, ?_⟩
      simp [wordsNeeded, cover, operand, OperandStack.peekD, hitems]
  case h_5 => cases h

lemma memoryLimit_le (rules : Rules) : rules.memoryLimit.toNat ≤ maxIndex :=
  Nat.le_of_lt_succ rules.memoryLimit.toNat_lt

/-- The bytes of words that can be addressed. -/
lemma toNat_words_mul {words : Gas} (h : (words * 32).toNat ≤ maxIndex) :
    (words * 32).toNat = 32 * words.toNat := by
  have hwords : (32 : Gas).toNat = 32 := by decide
  have hmax : maxIndex < maxWord := by decide
  rw [Gas.toNat_mul, hwords] at h ⊢
  omega

/-- Words that can be addressed cover the region that they were extended over. -/
lemma expand_covers_exactly {current : Gas} {offset len : Word}
    (h : 32 * (expand current offset len).toNat ≤ maxIndex) :
    len = 0 ∨ offset.toNat + len.toNat ≤ 32 * (expand current offset len).toNat := by
  by_cases hlen : len = 0
  · exact .inl hlen
  · have hmax : maxIndex + 32 < maxWord := by decide
    have hregion : (Gas.mk offset + Gas.mk len).toNat =
        min (offset.toNat + len.toNat) maxWord := Gas.toNat_add _ _
    refine .inr ?_
    rw [expand, if_neg hlen, Gas.toNat_max, Gas.ofByteLength, Gas.toNat_ofNat, hregion] at h ⊢
    omega

/-- A region that was paid for ends within the memory limit. -/
lemma expand_covers {current : Gas} {offset len : Word}
    (h : (expand current offset len * 32).toNat ≤ rules.memoryLimit.toNat) :
    len = 0 ∨ offset.toNat + len.toNat ≤ rules.memoryLimit.toNat := by
  have hindex := h.trans (memoryLimit_le rules)
  rw [toNat_words_mul hindex] at h hindex
  exact (expand_covers_exactly hindex).imp_right (le_trans · h)

lemma Effect.memoryLimit (h : f.Effect chain stipend afterGas i g control) :
    g.machine.memory.limit = f.machine.memory.limit := by
  cases h with
  | compute program => exact program.memoryLimit
  | store program => exact program.memoryLimit
  | log program => exact program.memoryLimit
  | create program => exact program.memoryLimit
  | call program => exact program.memoryLimit
  | destroy program => exact program.memoryLimit

/-- What an instruction that was paid for leads to can be gone back into. -/
lemma Effect.poised (h : (f.withMemory memory).Effect chain stipend afterGas i g control)
    (hr : f.status = .running)
    (hf : f.machine.memory.limit = chain.rules.memoryLimit.toNat)
    (hwords : c.words = f.wordsNeeded i)
    (hafford : (c.words * 32).toNat ≤ chain.rules.memoryLimit.toNat ∧
      f.machine.memory.resizeEnd (c.words * 32).toNat = .ok memory) :
    ((g.book c).follow control).Poised chain.rules := by
  have hmemory : ((g.book c).follow control).machine.memory.limit =
      chain.rules.memoryLimit.toNat := by
    rw [((g.book c).follow_same control).2.2.2.2]
    exact (h.memoryLimit.trans (Machine.resizeEnd_limit hafford.2)).trans hf
  have hinvoked : ((g.book c).follow control).status.invoked? = control.invoked? := by
    obtain ⟨-, -, -, hstatus⟩ := h.same
    exact (follow_status (f := g.book c) (hstatus.trans hr) control).1
  cases h with
  | compute program stays =>
      refine .of_unasked hmemory ?_
      rcases stays with rfl | ⟨reason, rfl⟩ <;> exact hinvoked
  | store | log | destroy => exact .of_unasked hmemory hinvoked
  | create program raised result =>
      refine ⟨hmemory, fun context hc hitems => ?_, nofun⟩
      cases result.symm.trans hitems
  | call program same taken result =>
      refine ⟨hmemory, fun context hc hitems => ?_, fun context outOffset outLen hc => ?_⟩
      · cases result.symm.trans hitems
      · -- the region is the last that the charge covers, and the charge fits in the limit
        cases hc
        obtain ⟨current, hcover⟩ := callOperands_words (f := f) taken
        rw [hwords, hcover] at hafford
        exact expand_covers hafford.1

lemma runPrecompile_poised {p : Precompile}
    (hf : f.machine.memory.limit = rules.memoryLimit.toNat) : (f.runPrecompile p).Poised rules := by
  simp only [Frame.runPrecompile]
  split
  · exact .of_unasked hf rfl
  · exact .of_unasked hf rfl

lemma exit_poised {reason : ExitReason} (hf : f.machine.memory.limit = rules.memoryLimit.toNat) :
    (f.exit reason).Poised rules :=
  .of_unasked hf (f.invoked?_exit reason)

lemma Stepped.poised (h : f.Stepped chain g)
    (hf : f.Poised chain.rules) : g.Poised chain.rules := by
  cases h with
  | idle => exact hf
  | precompile => exact runPrecompile_poised hf.memoryLimit
  | past => exact .of_unasked hf.memoryLimit rfl
  | refused => exact exit_poised hf.memoryLimit
  | unaffordable => exact exit_poised hf.memoryLimit
  | executed running code checked charged afforded effect =>
      exact effect.poised running hf.memoryLimit (charge_eq_ok charged).1
        (afford_eq_ok afforded).2

lemma Begun.poised (h : f.Begun chain g) (hr : f.status = .running)
    (hf : f.machine.memory.limit = rules.memoryLimit.toNat) : g.Poised rules := by
  cases h with
  | call => exact .of_unasked hf (by rw [hr]; rfl)
  | create => exact .of_unasked hf (by rw [hr]; rfl)
  | collision => exact exit_poised hf

/-! ## Going back after a failure -/

/-- A frame that goes on after one that it asked for has failed: the result is zero, what the other
    used is paid for, and what it returned can be looked at. -/
def afterFailure (f sub : Frame) (ret : Bytes) (memory : Memory) : Frame :=
  { f with
    status := .running
    usedGas := f.usedGas + sub.totalUsedGas
    ret := ret
    machine := { f.machine with
      stack := { f.machine.stack with items := f.machine.stack.items.set 0 0 }
      memory := memory } }

/-- **How a frame outlives one that it asked for** and that has failed.  Only a call that reverts
    has output, which goes to the region given for it as far as it fits. -/
inductive Outlives (f sub : Frame) : Frame → Prop where
  | error {e : ExitError} (failed : sub.status = .exitedErr e) (final : e ≠ .reverted) :
      Outlives f sub (f.afterFailure sub ByteArray.empty f.machine.memory)
  | revertedCreate {context : Context} (failed : sub.status = .exitedErr .reverted)
      (asked : f.status = .invokeCreate context) :
      Outlives f sub (f.afterFailure sub sub.out f.machine.memory)
  | revertedCall {context : Context} {outOffset outLen : Word} {memory : Memory}
      (failed : sub.status = .exitedErr .reverted)
      (asked : f.status = .invokeCall context outOffset outLen)
      (output : f.machine.memory.Patched memory outOffset.toNat (min outLen.toNat sub.out.size)
        sub.out) :
      Outlives f sub (f.afterFailure sub sub.out memory)

lemma failTop_eq (h : f.machine.stack.items ≠ []) :
    f.failTop = { f with machine := { f.machine with
      stack := { f.machine.stack with items := f.machine.stack.items.set 0 0 } } } := by
  have hsize : 0 < f.machine.stack.size := List.length_pos_iff.mpr h
  simp only [failTop, OperandStack.set]
  rw [if_pos hsize]

lemma copyOutput_eq {outOffset outLen : Word} (out : Bytes)
    (hlimit : f.machine.memory.limit ≤ maxIndex)
    (hregion : outLen = 0 ∨ outOffset.toNat + outLen.toNat ≤ f.machine.memory.limit) :
    ∃ memory, f.copyOutput outOffset outLen out =
        { f with machine := { f.machine with memory := memory } } ∧
      f.machine.memory.Patched memory outOffset.toNat (min outLen.toNat out.size) out := by
  -- the length of the copy is the smaller one, which fits where the region does
  obtain ⟨len, hlen, hmin, hfits⟩ : ∃ len : Word,
      len = (if outLen.toNat ≤ out.size then outLen else Word.ofNat out.size) ∧
        len.toNat = min outLen.toNat out.size ∧
          (len = 0 ∨ outOffset.toNat + len.toNat ≤ f.machine.memory.limit) := by
    refine ⟨_, rfl, ?_⟩
    split <;> rename_i hle
    · exact ⟨(Nat.min_eq_left hle).symm, hregion⟩
    · have hsize : (Word.ofNat out.size).toNat = out.size := by
        have := outLen.isLt
        rw [BitVec.toNat_ofNat]
        exact Nat.mod_eq_of_lt (by omega)
      refine ⟨by omega, .inr ?_⟩
      rcases hregion with rfl | hend
      · exact absurd (Nat.zero_le _) hle
      · omega
  obtain ⟨memory, hcopy⟩ : ∃ memory, f.machine.memory.copyLarge outOffset 0 len out = .ok memory :=
    Memory.copyLarge_ok (by rwa [min_eq_left hlimit])
  have hpatched := Memory.copyLarge_patched_start hcopy
  refine ⟨memory, ?_, hmin ▸ hpatched⟩
  simp only [copyOutput]
  simp only [← hlen, hcopy]

/-- The frame that goes on, before it looks at what the other returned. -/
lemma failTop_resumed (h : f.machine.stack.items ≠ []) (ret : Bytes) :
    { ({ f with status := .running, usedGas := f.usedGas + sub.totalUsedGas } : Frame).failTop with
      ret := ret } = f.afterFailure sub ret f.machine.memory := by
  have hstack : ({ f with status := .running, usedGas := f.usedGas + sub.totalUsedGas } :
      Frame).machine.stack.items ≠ [] := h
  rw [failTop_eq hstack]
  rfl

lemma resume_error {e : ExitError} (h : f.machine.stack.items ≠ [])
    (hfailed : sub.status = .exitedErr e) (hfinal : e ≠ .reverted)
    (region : Option (Word × Word)) :
    f.resume sub region = f.afterFailure sub ByteArray.empty f.machine.memory := by
  rw [← failTop_resumed h]
  simp only [resume]
  rw [hfailed]
  cases e <;> first | rfl | exact absurd rfl hfinal

lemma resume_revertedCreate (h : f.machine.stack.items ≠ [])
    (hfailed : sub.status = .exitedErr .reverted) :
    f.resume sub none = f.afterFailure sub sub.out f.machine.memory := by
  rw [← failTop_resumed h]
  simp only [resume]
  rw [hfailed]

lemma resume_revertedCall {outOffset outLen : Word} (h : f.machine.stack.items ≠ [])
    (hfailed : sub.status = .exitedErr .reverted) (hlimit : f.machine.memory.limit ≤ maxIndex)
    (hregion : outLen = 0 ∨ outOffset.toNat + outLen.toNat ≤ f.machine.memory.limit) :
    ∃ memory, f.resume sub (some (outOffset, outLen)) = f.afterFailure sub sub.out memory ∧
      f.machine.memory.Patched memory outOffset.toNat (min outLen.toNat sub.out.size) sub.out := by
  obtain ⟨memory, hcopy, hpatched⟩ := copyOutput_eq
    (f := f.afterFailure sub sub.out f.machine.memory) sub.out hlimit hregion
  refine ⟨memory, ?_, hpatched⟩
  have hresume : f.resume sub (some (outOffset, outLen)) =
      (f.afterFailure sub sub.out f.machine.memory).copyOutput outOffset outLen sub.out := by
    rw [← failTop_resumed h]
    simp only [resume]
    rw [hfailed]
  rw [hresume, hcopy]
  rfl

/-- **Going back after a failure.**  Whatever the frame that failed has done, the one that asked
    for it outlives it. -/
lemma Absorbed.outlives {ended after : Frame} {context : Context} {e : ExitError}
    (h : f.Absorbed ended chain after sub) (hf : f.Poised rules)
    (hasked : f.status.invoked? = some context)
    (hfailed : sub.status = .exitedErr e) : f.Outlives sub after := by
  have hstack := hf.result context hasked
  by_cases he : e = .reverted
  · subst he
    cases h with
    | returned asked =>
        obtain ⟨memory, hresume, hpatched⟩ := resume_revertedCall hstack hfailed
          (hf.memoryLimit ▸ memoryLimit_le rules) (hf.memoryLimit ▸ hf.region _ _ _ asked)
        rw [hresume]
        exact .revertedCall hfailed asked hpatched
    | created asked =>
        rw [resume_revertedCreate hstack hfailed]
        exact .revertedCreate hfailed asked
    | dropped unasked => cases unasked.symm.trans hasked
  · cases h with
    | returned | created =>
        rw [resume_error hstack hfailed he]
        exact .error hfailed he
    | dropped unasked => cases unasked.symm.trans hasked

lemma Outlives.usedGas (h : f.Outlives sub g) : g.usedGas = f.usedGas + sub.totalUsedGas := by
  cases h <;> rfl

/-- On one budget the gas that is taken over never saturates. -/
lemma Funded.toNat_absorbed {ended after : Frame} {rest : List Frame} {budget : ℕ}
    (h : Funded chain.ruleset budget ended (f :: rest))
    (habsorbed : f.Absorbed ended chain after sub) :
    (f.usedGas + sub.totalUsedGas).toNat = f.usedGas.toNat + sub.totalUsedGas.toNat := by
  cases h with
  | sub solvent asked below =>
      cases habsorbed with
      | returned => exact toNat_usedGas_add below.solvent solvent asked rfl
      | created _ deposited =>
          have hmove := deposited.spends solvent
          exact toNat_usedGas_add below.solvent hmove.solvent asked hmove.context
      | dropped unasked => cases unasked.symm.trans asked

end Frame

/-! ## Runs -/

namespace CallStack

section Runs

variable (rs : Ruleset) (block : Header) (context : Context)

/-- **What an execution comes to** from a root frame of a context, whatever it is told at each
    step. -/
inductive Arises : CallStack → Prop where
  | call {depth : ℕ} {overlay : Overlay} {root : Frame} {log : CommitLog}
      (begun : (Frame.create context depth overlay rs.rules).beginCall ⟨rs, block, log⟩ =
        (root, .ok ())) : Arises (ofRoot root)
  | create {depth : ℕ} {overlay : Overlay} {root : Frame} {log : CommitLog}
      (begun : (Frame.create context depth overlay rs.rules).beginCreate ⟨rs, block, log⟩ =
        (root, .ok ())) : Arises (ofRoot root)
  | step {s s' : CallStack} {log : CommitLog} {event : Option Event} (before : Arises s)
      (stepped : s.step ⟨rs, block, log⟩ = (s', .ok event)) : Arises s'

/-- **What happens inside a frame:** a run that never has fewer than so many frames waiting. -/
inductive Inside (n : ℕ) (s : CallStack) : CallStack → Prop where
  | start : Inside n s s
  | step {t t' : CallStack} {log : CommitLog} {event : Option Event} (before : Inside n s t)
      (stepped : t.step ⟨rs, block, log⟩ = (t', .ok event)) (above : n ≤ t'.waiting.length) :
      Inside n s t'

end Runs

variable {rs : Ruleset} {block : Header} {context : Context} {s s' t t' : CallStack}
  {chain : ChainView} {base : List Frame}

/-- **Frames in order:** all can be gone back into, and those that wait have asked. -/
structure Ordered (rules : Rules) (s : CallStack) : Prop where
  poised : ∀ f ∈ s.current :: s.waiting, f.Poised rules
  asking : ∀ f ∈ s.waiting, (f.status.invoked?).isSome

lemma Ordered.ofRoot {root f : Frame} {rules : Rules} (hr : f.status = .running)
    (hmemory : f.machine.memory.limit = rules.memoryLimit.toNat) (h : f.Begun chain root) :
    (ofRoot root).Ordered rules where
  poised g hg := by
    obtain rfl := List.mem_singleton.mp hg
    exact h.poised hr hmemory
  asking g hg := by cases hg

/-- A frame that goes back leaves those in order that are below the one it goes back into. -/
lemma Ordered.resume {parent : Frame} {rest : List Frame} {rules : Rules} (hs : s.Ordered rules)
    (below : s.waiting = parent :: rest) (sub : Frame) (region : Option (Word × Word)) :
    Ordered rules ⟨parent.resume sub region, rest⟩ := by
  have hwaiting : ∀ f ∈ parent :: rest, f.Poised rules := fun f hf =>
    hs.poised f (List.mem_cons_of_mem _ (below ▸ hf))
  refine ⟨fun f hf => ?_, fun f hf => hs.asking f (below ▸ List.mem_cons_of_mem _ hf)⟩
  rcases List.mem_cons.mp hf with rfl | hf
  · exact .of_unasked ((parent.keeps_resume sub region).memoryLimit.trans
      (hwaiting parent List.mem_cons_self).memoryLimit) (parent.invoked?_resume sub region)
  · exact hwaiting f (List.mem_cons_of_mem _ hf)

lemma Stepped.ordered (h : s.Stepped chain s')
    (hs : s.Ordered chain.rules) : s'.Ordered chain.rules := by
  have hcurrent := hs.poised _ List.mem_cons_self
  cases h with
  | ran running stepped =>
      refine ⟨fun f hf => ?_, hs.asking⟩
      rcases List.mem_cons.mp hf with rfl | hf
      · exact stepped.poised hcurrent
      · exact hs.poised f (List.mem_cons_of_mem _ hf)
  | entered asked begun =>
      refine ⟨fun f hf => ?_, fun f hf => ?_⟩
      · rcases List.mem_cons.mp hf with rfl | hf
        · exact begun.poised rfl rfl
        · exact hs.poised f hf
      · rcases List.mem_cons.mp hf with rfl | hf
        · rw [asked]
          rfl
        · exact hs.asking f hf
  | rested => exact hs
  | @left parent parent' sub rest ended below absorbs =>
      cases Frame.absorb_absorbed absorbs with
      | returned | created => exact hs.resume below _ _
      | dropped unasked =>
          have hasked := hs.asking parent (below ▸ List.mem_cons_self)
          rw [unasked] at hasked
          cases hasked

/-- A frame that asks for another waits below it. -/
lemma Stepped.enters (h : s.Stepped chain s') (hasked : s.current.status.invoked? = some context) :
    s'.waiting = s.current :: s.waiting := by
  cases h with
  | ran running =>
      rw [running] at hasked
      cases hasked
  | entered => rfl
  | rested ended | left ended =>
      rw [FrameStatus.invoked?_eq_none ended] at hasked
      cases hasked

/-- The frames at the bottom stay while none of them goes on. -/
lemma Stepped.suffix (h : s.Stepped chain s') (hs : base <:+ s.waiting)
    (habove : base.length ≤ s'.waiting.length) : base <:+ s'.waiting := by
  cases h with
  | ran => exact hs
  | entered => exact hs.trans (List.suffix_cons _ _)
  | rested => exact hs
  | left ended below =>
      rw [below] at hs
      rcases List.suffix_cons_iff.mp hs with rfl | hrest
      · exact absurd habove (by simp)
      · exact hrest

/-- A step after which one of the frames at the bottom goes on takes the frame above back into
    it. -/
lemma Stepped.leaves {parent : Frame} {rest : List Frame} (h : s.Stepped chain s')
    (hs : parent :: rest <:+ s.waiting) (hleft : s'.waiting.length ≤ rest.length) :
    s.waiting = parent :: rest ∧ s'.waiting = rest ∧
      ∃ sub, parent.absorb s.current chain = (s'.current, sub, .ok ()) := by
  have hlength : rest.length < s.waiting.length := hs.length_le
  cases h with
  | ran => exact absurd hleft (Nat.not_le_of_lt hlength)
  | entered =>
      have : s.waiting.length < rest.length := hleft
      omega
  | rested => exact absurd hleft (Nat.not_le_of_lt hlength)
  | @left parent' after sub rest' ended below absorbs =>
      rw [below] at hs
      rcases List.suffix_cons_iff.mp hs with heq | hrest
      · cases heq
        exact ⟨below, rfl, sub, absorbs⟩
      · have hmore : rest.length < rest'.length := hrest.length_le
        exact absurd hleft (Nat.not_le_of_lt hmore)

lemma Inside.suffix (h : Inside rs block base.length s t) (hs : base <:+ s.waiting) :
    base <:+ t.waiting := by
  induction h with
  | start => exact hs
  | step before stepped above ih => exact (step_stepped stepped).suffix ih above

lemma Inside.arises {n : ℕ} (h : Inside rs block n s t) (hs : Arises rs block context s) :
    Arises rs block context t := by
  induction h with
  | start => exact hs
  | step before stepped above ih => exact ih.step stepped

lemma Arises.ordered (h : Arises rs block context s) :
    s.Ordered rs.rules := by
  induction h with
  | call begun => exact .ofRoot rfl rfl (Frame.beginCall_begun begun)
  | create begun => exact .ofRoot rfl rfl (Frame.beginCreate_begun begun)
  | step before stepped ih => exact (step_stepped stepped).ordered ih

/-- Where the root was not given the largest amount of gas, no sum saturates. -/
lemma Arises.funded (h : Arises rs block context s) (hsat : context.gasLimit.toNat < maxWord) :
    s.Funded rs context.gasLimit.toNat := by
  have hroot : ∀ {depth : ℕ} {overlay : Overlay} {root : Frame} {log : CommitLog},
      (Frame.create context depth overlay rs.rules).Begun ⟨rs, block, log⟩ root →
        (ofRoot root).Funded rs context.gasLimit.toNat := by
    intro depth overlay root log begun
    have hmove : Frame.Spends rs _ root := begun.spends (.of_new hsat rfl rfl rfl) rfl
    have hlimit : root.limit = context.gasLimit.toNat := by
      simp only [Frame.limit]
      rw [hmove.context]
      rfl
    exact .root hmove.solvent hlimit
  induction h with
  | call begun => exact hroot (Frame.beginCall_begun begun)
  | create begun => exact hroot (Frame.beginCreate_begun begun)
  | step before stepped ih => exact ((step_stepped stepped).spends ih).1

/-- A transaction past validation is such a run, and pays something up front. -/
lemma exists_arises_of_accept {t : Transaction} {e : Execution} {log : CommitLog}
    (h : t.accept ⟨rs, block, log⟩ = .ok (.ok e)) :
    ∃ context, context.gasLimit.toNat < maxWord ∧ Arises rs block context e.calls := by
  obtain ⟨nonce, fresh, paid, code, root, -, -, hroot, rfl⟩ :=
    (Transaction.accept_accepted h).begun
  refine ⟨t.rootContext rs.rules code, t.rootGas_lt rs.rules, ?_⟩
  simp only [Transaction.beginRoot] at hroot
  split at hroot
  · exact .call hroot
  · exact .create hroot

end CallStack

open CallStack in
/-- **A frame that fails leaves no trace.**  Every transaction past validation is a run of a call
    stack.  In every run, once a frame has entered another: while that one is there, the frames
    below are what they were, whatever else is entered above.  It leaves only by going back into
    the frame that asked for it; and if it ends in failure, also for a collision or for a deposit
    that fails, the latter goes on as it was but for its status, the result, the gas taken over,
    what was returned, and the output of a call that reverts.  The sum of gas saturates in no run
    whose root was given less than the largest amount. -/
theorem failed_frame_leaves_no_trace (rs : Ruleset) (block : Header) :
    (∀ (t : Transaction) (e : Execution) (log : CommitLog),
      t.accept ⟨rs, block, log⟩ = .ok (.ok e) →
        ∃ root, root.gasLimit.toNat < maxWord ∧ Arises rs block root e.calls) ∧
    (∀ (root context : Context) (s entered t : CallStack) (log : CommitLog)
      (event : Option Event),
      Arises rs block root s → s.current.status.invoked? = some context →
        s.step ⟨rs, block, log⟩ = (entered, .ok event) →
          Inside rs block (s.current :: s.waiting).length entered t →
            s.current :: s.waiting <:+ t.waiting ∧
            ∀ (t' : CallStack) (log : CommitLog) (event : Option Event),
              t.step ⟨rs, block, log⟩ = (t', .ok event) →
                t'.waiting.length ≤ s.waiting.length →
                  t'.waiting = s.waiting ∧
                  ∃ sub, s.current.absorb t.current ⟨rs, block, log⟩ = (t'.current, sub, .ok ()) ∧
                    ∀ e, sub.status = .exitedErr e →
                      s.current.Outlives sub t'.current ∧
                      (root.gasLimit.toNat < maxWord →
                        t'.current.usedGas.toNat =
                          s.current.usedGas.toNat + sub.totalUsedGas.toNat)) := by
  refine ⟨fun t e log h => exists_arises_of_accept h, ?_⟩
  intro root context s entered t log event hs hasked henter hinside
  have hentered : entered.waiting = s.current :: s.waiting :=
    (step_stepped henter).enters hasked
  have hsuffix : s.current :: s.waiting <:+ t.waiting :=
    hinside.suffix (hentered ▸ List.suffix_rfl)
  have ht : Arises rs block root t := hinside.arises (hs.step henter)
  refine ⟨hsuffix, ?_⟩
  intro t' log event hstep hleft
  obtain ⟨hwaiting, hrest, sub, habsorb⟩ := (step_stepped hstep).leaves hsuffix hleft
  have habsorbed := Frame.absorb_absorbed habsorb
  refine ⟨hrest, sub, habsorb, fun e hfailed => ?_⟩
  have houtlives : s.current.Outlives sub t'.current :=
    habsorbed.outlives (hs.ordered.poised _ List.mem_cons_self) hasked hfailed
  refine ⟨houtlives, fun hsat => ?_⟩
  have hfunded := ht.funded hsat
  simp only [Funded] at hfunded
  rw [hwaiting] at hfunded
  rw [houtlives.usedGas]
  exact Frame.Funded.toNat_absorbed hfunded habsorbed

/-- A chain where account 101 reverts with one byte. -/
def revertingChain : ChainView where
  ruleset := .byzantium
  block := {}
  log :=
    { accounts := (((∅ : Std.TreeMap Address CommittedAccount).insert 100 .nonexistent).insert 200
        .nonexistent).insert 101 (.full 1 0 ⟨#[0x60, 1, 0x60, 0, 0xfd]⟩) }

/-- A frame about to call that account, with room for its byte. -/
def optimist : Frame :=
  Frame.create ⟨100, 100, 200, ⟨#[0x60, 1, 0x60, 0, 0x80, 0x80, 0x80, 0x60, 101, 0x60, 100, 0xf1]⟩,
    ByteArray.empty, 5000, 1, 200, 0, 0, false⟩ 0 (Overlay.empty .mainnet) .byzantium

/-- The execution of that frame after some steps. -/
def disappointment : ℕ → CallStack
  | 0 => .ofRoot (optimist.beginCall revertingChain).1
  | n + 1 => ((disappointment n).step revertingChain).1

lemma disappointment_step {n : ℕ}
    (h : ((disappointment n).step revertingChain).2.toOption.isSome = true) :
    ∃ event, (disappointment n).step revertingChain = (disappointment (n + 1), .ok event) := by
  rcases hs : (disappointment n).step revertingChain with ⟨s, i | event⟩
  · rw [hs] at h
    cases h
  · refine ⟨event, ?_⟩
    rw [disappointment, hs]

open CallStack in
/-- The call is entered with the eighth step and reverts four steps later, and the frame below
    goes on as it was. -/
theorem disappointment_passes : ∃ sub, sub.status = .exitedErr .reverted ∧
    (disappointment 8).current.Outlives sub (disappointment 13).current := by
  have hbegun : optimist.beginCall revertingChain = ((disappointment 0).current, .ok ()) := by rfl
  have hstart : Arises .byzantium {} optimist.context (disappointment 0) := .call hbegun
  have hsteps : ∀ n < 13, ∃ event,
      (disappointment n).step revertingChain = (disappointment (n + 1), .ok event) := by
    have hok : ∀ n < 13,
        ((disappointment n).step revertingChain).2.toOption.isSome = true := by decide +kernel
    exact fun n hn => disappointment_step (hok n hn)
  have harises : ∀ n ≤ 8, Arises .byzantium {} optimist.context (disappointment n) := by
    intro n hn
    induction n with
    | zero => exact hstart
    | succ n ih =>
        obtain ⟨event, hstep⟩ := hsteps n (by omega)
        exact (ih (by omega)).step hstep
  have hinside : ∀ k ≤ 3, Inside .byzantium {} 1 (disappointment 9) (disappointment (9 + k)) := by
    have habove : ∀ k < 3, 1 ≤ (disappointment (9 + k + 1)).waiting.length := by decide +kernel
    intro k hk
    induction k with
    | zero => exact .start
    | succ k ih =>
        obtain ⟨event, hstep⟩ := hsteps (9 + k) (by omega)
        exact (ih (by omega)).step hstep (habove k (by omega))
  obtain ⟨context, hasked⟩ : ∃ context, (disappointment 8).current.status.invoked? = some context :=
    Option.isSome_iff_exists.mp (by decide +kernel)
  have hlength : ((disappointment 8).current :: (disappointment 8).waiting).length = 1 := by
    decide +kernel
  have hreverted : ((disappointment 8).current.absorb (disappointment 12).current
      revertingChain).2.1.status = .exitedErr .reverted := by decide +kernel
  obtain ⟨entry, henter⟩ := hsteps 8 (by omega)
  obtain ⟨exit, hleave⟩ := hsteps 12 (by omega)
  obtain ⟨-, hleaves⟩ := (failed_frame_leaves_no_trace .byzantium {}).2
    optimist.context context _ _ _ _ entry (harises 8 (by omega)) hasked henter
    (hlength ▸ hinside 3 (by omega))
  obtain ⟨-, sub, habsorb, houtlives⟩ := hleaves _ _ exit hleave (by decide +kernel)
  have hsub : ((disappointment 8).current.absorb (disappointment 12).current
      revertingChain).2.1 = sub := congrArg (·.2.1) habsorb
  rw [hsub] at hreverted
  exact ⟨sub, hreverted, (houtlives _ hreverted).1⟩

end ResumableEvm
