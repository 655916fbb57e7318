import ResumableEvm.Proofs.WrittenOnce

/-!
# What holds of every call stack

Some properties are not those of single frames but of a whole call stack, such as what its frames
have earned together.  One that a step keeps, that a deposit of the root keeps, and that does not
mind what else is told, holds of every call stack of a run, whatever the host answers.

* `CallStack.Kept` — the three things to show of a property of call stacks.
* `Frame.Kept.everywhere` — a property of every frame, in these terms.
* `Execution.Upholds` — how an execution stands.
* `Engine.Reachable.upholds` — every execution of a run stands so.
* `Engine.Reachable.grounded` — all overlays of a run are grounded.
* `CallStack.Preserved`, `Engine.Reachable.preserves` — the same for what the steps themselves keep.
-/

namespace ResumableEvm

/-- A log tells no more of a world than one that was told a datum since. -/
lemma CommitLog.Adds.tells {log log' : CommitLog} {d : Datum} {w : World} (h : log.Adds d log')
    (ht : log'.Tells w) : log.Tells w :=
  ht.of_holds fun _ hd => h.holds hd

/-! ## Call stacks -/

namespace CallStack

/-- **A property that call stacks keep,** while the log is told the data of a world. -/
structure Kept (rs : Ruleset) (block : Header) (w : World) (Q : CommitLog → CallStack → Prop) :
    Prop where
  /-- It does not matter that more is known. -/
  grow : ∀ {log log' : CommitLog} {s : CallStack}, log'.Tells w → log.Within log' → Q log s →
    Q log' s
  step : ∀ {log : CommitLog} {s s' : CallStack}, log.Tells w → s.Stepped ⟨rs, block, log⟩ s' →
    Q log s → Q log s'
  /-- The root deposits its code once it is alone. -/
  deposit : ∀ {log : CommitLog} {s : CallStack} {root : Frame}, log.Tells w → s.waiting = [] →
    s.current.Deposited ⟨rs, block, log⟩ root → Q log s → Q log (s.withRoot root)

end CallStack

/-- A property that frames keep, of every frame. -/
lemma Frame.Kept.everywhere {rs : Ruleset} {block : Header} {w : World}
    {P : CommitLog → Frame → Prop} (hP : Frame.Kept rs block w P) :
    CallStack.Kept rs block w fun log s => s.Every P log where
  grow ht hw hs := hs.grow hP ht hw
  step ht hstepped hs := hstepped.every hP ht hs
  deposit {log s root} ht halone hdeposited hs f hf := by
    simp only [CallStack.withRoot, halone, List.mem_singleton] at hf
    subst hf
    exact hP.deposit ht hdeposited (hs _ List.mem_cons_self)

/-! ## Executions -/

namespace Execution

variable {rs : Ruleset} {block : Header} {w : World} {Q : CommitLog → CallStack → Prop}
  {log log' : CommitLog} {e e' : Execution}

/-- **How an execution stands.**  While it is not settled its call stack has a property.  Once it
    is, it was settled from a call stack that had it, under a log that told no more. -/
inductive Upholds (rs : Ruleset) (block : Header) (w : World) (Q : CommitLog → CallStack → Prop)
    (log : CommitLog) : Execution → Prop where
  | running {e : Execution} (unsettled : e.settled = false) (calls : Q log e.calls) :
      Upholds rs block w Q log e
  | settled {e : Execution} {told : CommitLog} {root : Frame} (tells : told.Tells w)
      (within : told.Within log) (alone : e.calls.waiting = []) (last : Q told e.calls)
      (settles : e.calls.root.settle ⟨rs, block, told⟩ e.chargedGas e.transaction.preclaimed
        e.fresh block.beneficiary = (root, .ok ())) :
      Upholds rs block w Q log { e with calls := e.calls.withRoot root, settled := true }

lemma Upholds.calls (h : e.Upholds rs block w Q log) (hunsettled : e.settled = false) :
    Q log e.calls := by
  cases h with
  | running unsettled calls => exact calls
  | settled => cases hunsettled

lemma Upholds.grow (h : e.Upholds rs block w Q log) (hQ : CallStack.Kept rs block w Q)
    (ht : log'.Tells w) (hw : log.Within log') : e.Upholds rs block w Q log' := by
  cases h with
  | running unsettled calls => exact .running unsettled (hQ.grow ht hw calls)
  | settled tells within alone last settles =>
      exact .settled tells (within.trans hw) alone last settles

lemma Moved.upholds (h : e.Moved ⟨rs, block, log⟩ e') (hQ : CallStack.Kept rs block w Q)
    (ht : log.Tells w) (he : e.Upholds rs block w Q log) : e'.Upholds rs block w Q log := by
  cases h with
  | ran unsettled stepped => exact .running unsettled (hQ.step ht stepped (he.calls unsettled))
  | deposited unsettled alone deposits =>
      rw [root_of_alone alone] at deposits
      exact .running unsettled (hQ.deposit ht alone deposits (he.calls unsettled))
  | settled unsettled alone settles =>
      exact .settled ht (.refl log) alone (he.calls unsettled) settles

/-- An execution that takes a step, also where it waits for a datum. -/
lemma step_upholds {result : Except Interrupt (Option Event)}
    (hQ : CallStack.Kept rs block w Q) (ht : log.Tells w)
    (hfaultless : ∀ fault, result ≠ .error (.fault fault))
    (hstep : e.step ⟨rs, block, log⟩ = (e', result)) (he : e.Upholds rs block w Q log) :
    e'.Upholds rs block w Q log := by
  have hmoves := step_moves hfaultless hstep
  clear hstep
  induction hmoves with
  | refl => exact he
  | tail _ hmoved ih => exact hmoved.upholds hQ ht ih

end Execution

/-! ## Runs -/

namespace Engine

variable {rs : Ruleset} {t : Transaction} {block : Header} {w : World}
  {Q : CommitLog → CallStack → Prop} {e e' : Engine}

/-- What the engine has been told fits together, whatever the host answered. -/
lemma Reachable.coherent (h : Reachable rs t block e) : e.chain.log.Coherent := by
  induction h with
  | create => exact .empty
  | step before stepped ih =>
      rw [(step_stepped stepped).2]
      exact ih
  | tell before told ih =>
      obtain ⟨log, hlog, hchain, -⟩ := tell_eq_ok told
      rw [hchain]
      exact (CommitLog.record_adds hlog).coherent ih

/-- **The engine and what it was told,** while its execution upholds a property. -/
structure Upholds (rs : Ruleset) (t : Transaction) (block : Header) (w : World)
    (Q : CommitLog → CallStack → Prop) (e : Engine) : Prop where
  chain : e.chain = ⟨rs, block, e.chain.log⟩
  validating : ∀ t', e.phase = .validating t' → t' = t
  executing : ∀ x, e.phase = .executing x → x.Upholds rs block w Q e.chain.log

lemma Upholds.step (he : e.Upholds rs t block w Q) (hQ : CallStack.Kept rs block w Q)
    (ht : e.chain.log.Tells w)
    (hstart : ∀ {log : CommitLog} {start : Execution}, log.Tells w →
      t.accept ⟨rs, block, log⟩ = .ok (.ok start) → Q log start.calls)
    (stepped : e.step = .ok e') : e'.Upholds rs t block w Q := by
  obtain ⟨hstepped, hchain⟩ := step_stepped stepped
  refine ⟨?_, fun t' ht' => ?_, fun x hx => ?_⟩
  · rw [hchain]
    exact he.chain
  · cases hstepped with
    | rested phase => exact he.validating t' (phase.symm.trans ht')
    | rejected before phase | accepted before accepts phase | ran before steps faultless phase =>
        cases phase.symm.trans ht'
  · rw [hchain]
    cases hstepped with
    | rested phase => exact he.executing x (phase.symm.trans hx)
    | rejected before phase => cases phase.symm.trans hx
    | accepted before accepts phase =>
        cases phase.symm.trans hx
        obtain rfl := he.validating _ before
        rw [he.chain] at accepts
        exact .running (Transaction.accept_begins accepts).1 (hstart ht accepts)
    | ran before steps faultless phase =>
        cases phase.symm.trans hx
        rw [he.chain] at steps
        exact Execution.step_upholds hQ ht faultless steps (he.executing _ before)

lemma Upholds.tell {answer : Answer} (he : e.Upholds rs t block w Q)
    (hQ : CallStack.Kept rs block w Q) (hcoherent : e.chain.log.Coherent)
    (ht : e'.chain.log.Tells w) (told : e.tell answer = .ok e') : e'.Upholds rs t block w Q := by
  obtain ⟨log, hlog, hchain, -, hphase, -⟩ := tell_eq_ok told
  have hadds := CommitLog.record_adds hlog
  rw [hchain] at ht
  have hwithin : e.chain.log.Within log :=
    (hadds.coherent hcoherent).within fun _ hd => hadds.holds hd
  refine ⟨?_, ?_, fun x hx => ?_⟩
  · rw [hchain, he.chain]
  · rw [hphase]
    exact he.validating
  · rw [hphase] at hx
    rw [hchain]
    exact (he.executing x hx).grow hQ ht hwithin

/-- **A property that call stacks keep** and that an execution begins with holds of every call
    stack of a run, up to the settlement. -/
lemma Reachable.upholds (h : Reachable rs t block e) (ht : e.chain.log.Tells w)
    (hQ : CallStack.Kept rs block w Q)
    (hstart : ∀ {log : CommitLog} {start : Execution}, log.Tells w →
      t.accept ⟨rs, block, log⟩ = .ok (.ok start) → Q log start.calls) :
    e.Upholds rs t block w Q := by
  induction h with
  | create =>
      refine ⟨rfl, ?_, ?_⟩
      · rintro t' ⟨⟩
        rfl
      · rintro x ⟨⟩
  | @step e e' before stepped ih =>
      rw [(step_stepped stepped).2] at ht
      exact (ih ht).step hQ ht hstart stepped
  | @tell e e' answer before told ih =>
      obtain ⟨log, hlog, hchain, -⟩ := tell_eq_ok told
      have hbefore : e.chain.log.Tells w := by
        rw [hchain] at ht
        exact (CommitLog.record_adds hlog).tells ht
      exact (ih hbefore).tell hQ before.coherent ht told

/-- The overlays of a run are grounded in what was told, whatever that was. -/
lemma Reachable.grounded {x : Execution} (h : Reachable rs t block e)
    (hphase : e.phase = .executing x) (hunsettled : x.settled = false) :
    x.calls.Grounded e.chain.log := by
  obtain ⟨w, htells⟩ := h.coherent.exists_tells
  have hupholds := h.upholds htells (Frame.grounded_kept rs block w).everywhere
    fun {log start} _ haccept => by
      have halone := (Transaction.accept_begins haccept).2.1
      have hroot : start.calls.root.overlay.Grounded log := Transaction.root_grounded haccept
      exact Execution.withRoot_root halone ▸ Execution.every_withRoot halone hroot
  exact (hupholds.executing x hphase).calls hunsettled

end Engine

/-! ## What the steps themselves keep -/

/-- **A property that call stacks keep as they take their steps,** where what is known of the
    effect of a step is not enough to keep it. -/
structure CallStack.Preserved (rs : Ruleset) (Q : CallStack → Prop) : Prop where
  step : ∀ {chain : ChainView} {s s' : CallStack} {event : Option Event}, chain.ruleset = rs →
    s.step chain = (s', .ok event) → Q s → Q s'
  deposit : ∀ {chain : ChainView} {s : CallStack} {root : Frame}, chain.ruleset = rs →
    s.current.Deposited chain root → Q s → Q (s.withRoot root)
  /-- Of the root a settlement changes no more than the accounts and what was logged and removed. -/
  settle : ∀ {s : CallStack} (overlay : Overlay) (logs : List LogEntry) (removed : List Address),
    Q s → Q (s.withRoot { s.current with overlay := overlay, logs := logs, removed := removed })

lemma Execution.Moved.preserves {rs : Ruleset} {Q : CallStack → Prop} {chain : ChainView}
    {x x' : Execution} (h : x.Moved chain x') (hchain : chain.ruleset = rs)
    (hQ : CallStack.Preserved rs Q) (hx : Q x.calls) : Q x'.calls := by
  cases h with
  | ran unsettled stepped steps =>
      obtain ⟨event, hstep⟩ := steps
      exact hQ.step hchain hstep hx
  | deposited unsettled alone deposits =>
      rw [root_of_alone alone] at deposits
      exact hQ.deposit hchain deposits hx
  | settled unsettled alone settles =>
      rw [root_of_alone alone] at settles
      obtain ⟨swept, -, ⟨-, rfl⟩ | ⟨-, rfl⟩⟩ := Frame.settle_settles settles
      · exact hQ.settle _ _ _ hx
      · exact hQ.settle _ _ _ hx

/-- An execution that takes a step, also where it waits for a datum. -/
lemma Execution.step_preserves {rs : Ruleset} {Q : CallStack → Prop} {chain : ChainView}
    {x x' : Execution} {result : Except Interrupt (Option Event)} (hchain : chain.ruleset = rs)
    (hQ : CallStack.Preserved rs Q) (hfaultless : ∀ fault, result ≠ .error (.fault fault))
    (hstep : x.step chain = (x', result)) (hx : Q x.calls) : Q x'.calls := by
  have hmoves := step_moves hfaultless hstep
  clear hstep
  induction hmoves with
  | refl => exact hx
  | tail _ hmoved ih => exact hmoved.preserves hchain hQ ih

/-- **A property that steps keep** and that an execution begins with holds of every call stack of a
    run, also once the transaction is settled. -/
lemma Engine.Reachable.preserves {rs : Ruleset} {t : Transaction} {block : Header} {e : Engine}
    {Q : CallStack → Prop} (h : Reachable rs t block e) (hQ : CallStack.Preserved rs Q)
    (hstart : ∀ {chain : ChainView} {start : Execution}, chain.ruleset = rs →
      t.accept chain = .ok (.ok start) → Q start.calls) :
    ∀ x, e.phase = .executing x → Q x.calls := by
  induction h with
  | create => rintro x ⟨⟩
  | @step e e' before stepped ih =>
      have hruleset := before.funded.ruleset
      intro x hx
      cases (step_stepped stepped).1 with
      | rested phase => exact ih x (phase.symm.trans hx)
      | rejected before phase => cases phase.symm.trans hx
      | accepted waiting accepts phase =>
          cases phase.symm.trans hx
          obtain rfl := before.funded.validating _ waiting
          exact hstart hruleset accepts
      | ran running steps faultless phase =>
          cases phase.symm.trans hx
          exact Execution.step_preserves hruleset hQ faultless steps (ih _ running)
  | tell before told ih => exact fun x hx => ih x ((tell_phase told).1.symm.trans hx)

end ResumableEvm
