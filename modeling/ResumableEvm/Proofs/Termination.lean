import ResumableEvm.Proofs.Hosting
import ResumableEvm.Proofs.Progress
import ResumableEvm.Proofs.Validation

/-!
# Every transaction ends

A host that answers from a world brings every transaction to its end, whatever things cost and
however deep frames may nest.  A step brings the frames closer to theirs, or it stops for a datum;
the frames are then no further than before, and there are only finitely many data to ask for.

* `Execution.Orderly`, `Execution.step_progress` — a step of an execution.
* `Engine.distance` — what is left to do, then what is left to ask for.
* `Engine.Ends` — a loop that comes to its end on enough fuel.
* `Engine.runBy` — the engine and any host of a world.
* `every_transaction_ends` — the engine and its host do.
-/

namespace ResumableEvm

/-! ## Executions -/

namespace Execution

variable {t : Transaction} {chain : ChainView} {e e' : Execution} {rules : Rules}
  {budget : ℕ}

/-- **An execution in order:** its frames are nested as the rules allow, and it is settled only
    once they have ended. -/
structure Orderly (rules : Rules) (e : Execution) : Prop where
  nested : e.calls.Nested rules
  ended : e.settled = true → e.calls.isExited = true

lemma orderly_of_accept (h : t.accept chain = .ok (.ok e)) : e.Orderly rules := by
  obtain ⟨hunsettled, halone, -, paid, code, -, hbegun⟩ := Transaction.accept_begins h
  rw [root_of_alone halone] at hbegun
  refine ⟨?_, fun hsettled => ?_⟩
  · simp only [CallStack.Nested]
    rw [halone]
    exact .root hbegun.depth (.of_unasked (hbegun.unasked rfl))
  · rw [hunsettled] at hsettled
    cases hsettled

/-! ### Winding up -/

/-- **What winding up leaves of an execution:** its root alone, as deep as before, which has
    ended. -/
structure WoundUp (e e' : Execution) : Prop where
  alone : e'.calls.waiting = []
  exited : e'.calls.current.status.isExited = true
  depth : e'.calls.current.depth = e.calls.current.depth

lemma WoundUp.refl (halone : e.calls.waiting = [])
    (hexited : e.calls.current.status.isExited = true) : e.WoundUp e :=
  ⟨halone, hexited, rfl⟩

lemma WoundUp.isExited (h : e.WoundUp e') : e'.calls.isExited = true := by
  simp only [CallStack.isExited]
  rw [h.alone, h.exited]
  rfl

lemma deposit_windsUp {result : Except Requirement Unit} (halone : e.calls.waiting = [])
    (hexited : e.calls.current.status.isExited = true) (h : e.deposit chain = (e', result)) :
    e.WoundUp e' := by
  have hroot := root_of_alone halone
  simp only [deposit] at h
  split at h
  · split at h <;> rename_i hcode <;> cases h
    · rw [hroot] at hcode
      have hdeposited := Frame.depositCode_deposited hcode
      exact ⟨halone, hdeposited.exited hexited, hdeposited.depth⟩
    · obtain rfl := Frame.depositCode_requires hcode
      rw [withRoot_root halone]
      exact .refl halone hexited
  · cases h
    exact .refl halone hexited

lemma settle_windsUp {result : Except Requirement Unit} (halone : e.calls.waiting = [])
    (hexited : e.calls.current.status.isExited = true) (h : e.settle chain = (e', result)) :
    e.WoundUp e' ∧ (result = .ok () → e'.settled = true) := by
  have hroot := root_of_alone halone
  simp only [settle] at h
  split at h <;> rename_i hsettle <;> cases h
  · rw [hroot] at hsettle
    obtain ⟨swept, -, ⟨-, rfl⟩ | ⟨-, rfl⟩⟩ := Frame.settle_settles hsettle <;>
      exact ⟨⟨halone, hexited, rfl⟩, fun _ => rfl⟩
  · obtain rfl := Frame.settle_requires hsettle
    rw [withRoot_root halone]
    exact ⟨.refl halone hexited, by rintro ⟨⟩⟩

lemma finish_windsUp {result : Except Requirement Unit} (hexited : e.calls.isExited = true)
    (h : e.finish chain = (e', result)) :
    e.WoundUp e' ∧ (result = .ok () → e'.settled = true) := by
  simp only [CallStack.isExited, Bool.and_eq_true, List.isEmpty_iff] at hexited
  simp only [finish] at h
  split at h <;> rename_i hdeposit
  · have hfirst := deposit_windsUp hexited.1 hexited.2 hdeposit
    obtain ⟨hsecond, hsettled⟩ := settle_windsUp hfirst.alone hfirst.exited h
    exact ⟨⟨hsecond.alone, hsecond.exited, hsecond.depth.trans hfirst.depth⟩, hsettled⟩
  · cases h
    exact ⟨deposit_windsUp hexited.1 hexited.2 hdeposit, by rintro ⟨⟩⟩

/-- Winding up leaves nothing ahead where nothing was. -/
lemma WoundUp.distance_le (h : e.WoundUp e') (hexited : e.calls.isExited = true)
    (hgrows : e.calls.allUsed ≤ e'.calls.allUsed) :
    e'.calls.distance rules budget ≤ e.calls.distance rules budget := by
  simp only [CallStack.isExited, Bool.and_eq_true, List.isEmpty_iff] at hexited
  have hprofile : CallStack.profile rules e'.calls.frames =
      CallStack.profile rules e.calls.frames := by
    simp only [CallStack.frames]
    rw [h.alone, hexited.1]
    simp only [CallStack.profile]
    refine congrArg toLex (funext fun place => ?_)
    rcases hplace : place.val with _ | n
    · exact congrArg (fun n : ℕ => (n : WithTop ℕ)) ((Frame.outlook_of_exited h.exited).trans
        (Frame.outlook_of_exited hexited.2).symm)
    · rfl
  exact Prod.Lex.toLex_mono ⟨Nat.sub_le_sub_left hgrows budget, hprofile.le⟩

lemma WoundUp.nested (h : e.WoundUp e') (hexited : e.calls.isExited = true)
    (hn : e.calls.Nested rules) : e'.calls.Nested rules := by
  simp only [CallStack.isExited, Bool.and_eq_true, List.isEmpty_iff] at hexited
  simp only [CallStack.Nested] at hn ⊢
  rw [hexited.1] at hn
  rw [h.alone]
  exact hn.move h.depth (.of_unasked (FrameStatus.invoked?_eq_none h.exited))

/-! ### Steps -/

/-- **A step** leaves an execution in order. -/
lemma step_orderly {result : Except Interrupt (Option Event)}
    (ho : e.Orderly chain.rules)
    (hresult : ∀ fault, result ≠ .error (.fault fault)) (h : e.step chain = (e', result)) :
    e'.Orderly chain.rules := by
  simp only [step] at h
  split at h
  · cases h
    exact ho
  · rename_i hunsettled
    split at h
    · rename_i hexited
      have hwound : e.WoundUp e' := by
        split at h <;> rename_i hfinish <;> cases h <;> exact (finish_windsUp hexited hfinish).1
      exact ⟨hwound.nested hexited ho.nested, fun _ => hwound.isExited⟩
    · rcases hs : e.calls.step chain with ⟨calls, event | i⟩ <;> rw [hs] at h <;> cases h
      · cases event with
        | requires r =>
            obtain rfl := CallStack.step_requires hs
            exact ho
        | fault fault => exact absurd rfl (hresult fault)
      · exact ⟨(CallStack.step_stepped hs).nested ho.nested, fun hsettled =>
          absurd hsettled hunsettled⟩

/-- **A step that is taken** settles the transaction or brings its frames closer to their end. -/
lemma step_progress {event : Option Event} (hf : e.Funded chain.ruleset t)
    (ho : e.Orderly chain.rules) (hunsettled : e.settled = false)
    (h : e.step chain = (e', .ok event)) :
    e'.settled = true ∨
      e'.calls.distance chain.rules (t.gasLimit - t.intrinsicGas chain.rules).toNat <
        e.calls.distance chain.rules (t.gasLimit - t.intrinsicGas chain.rules).toNat := by
  simp only [step, hunsettled] at h
  split at h
  · cases ‹false = true›
  · split at h
    · rename_i hexited
      split at h <;> rename_i hfinish <;> cases h
      exact .inl ((finish_windsUp hexited hfinish).2 rfl)
    · rename_i hrunning
      rcases hs : e.calls.step chain with ⟨calls, result⟩
      rw [hs] at h
      cases h
      exact .inr (CallStack.step_progress hf.calls ho.nested
        (Bool.eq_false_of_not_eq_true hrunning) hs)

/-- **A step that stops for a datum** leaves the frames no further from their end. -/
lemma step_waits {r : Requirement} (hf : e.Funded chain.ruleset t)
    (h : e.step chain = (e', .error (.requires r))) :
    e'.calls.distance rules budget ≤ e.calls.distance rules budget := by
  have hgrows := (step_spends hf (by simp) h).grows
  simp only [step] at h
  split at h
  · cases h
  · split at h
    · rename_i hexited
      split at h <;> rename_i hfinish <;> cases h
      exact (finish_windsUp hexited hfinish).1.distance_le hexited hgrows
    · rcases hs : e.calls.step chain with ⟨calls, result⟩
      rw [hs] at h
      cases h
      obtain rfl := CallStack.step_requires hs
      exact le_rfl

/-- A step of an execution has no fault but that its current frame cannot raise a nonce. -/
lemma step_fault {fault : Fault} (h : e.step chain = (e', .error (.fault fault))) :
    fault = .overflow ∧ e.calls.current.AtLastNonce chain := by
  simp only [step] at h
  split at h
  · cases h
  · split at h
    · split at h <;> cases h
    · rcases hs : e.calls.step chain with ⟨calls, result⟩
      rw [hs] at h
      cases h
      exact CallStack.step_fault hs

end Execution

/-! ## The engine and its host -/

namespace World

/-- **A host of a world** answers from it, and a question for code by the code alone or by the whole
    account, as it likes. -/
def Hosts (w : World) (host : Requirement → Answer) : Prop :=
  ∀ r, ∃ fullCode, host r = w.answer fullCode r

lemma hosts_answer (w : World) (fullCode : Bool) : w.Hosts (w.answer fullCode) :=
  fun _ => ⟨fullCode, rfl⟩

end World

/-- A frame that has ended counts as such. -/
lemma EngineStatus.ofFrame_ne_running {s : FrameStatus} (h : s.isExited = true) :
    ofFrame s ≠ .running := by
  cases s with
  | running | invokeCall | invokeCreate => cases h
  | exitedOk | exitedErr | exitedNotSupported => simp [ofFrame]

namespace Engine

variable {rs : Ruleset} {t : Transaction} {block : Header} {w : World} {e e' : Engine}

/-- Whatever the engine comes to, its execution is in order. -/
lemma Reachable.orderly (h : Reachable rs t block e) {x : Execution}
    (hx : e.phase = .executing x) : x.Orderly rs.rules := by
  induction h generalizing x with
  | create => cases hx
  | @step e e' before stepped ih =>
      have hruleset := before.funded.ruleset
      cases (step_stepped stepped).1 with
      | rested phase => exact ih (phase.symm.trans hx)
      | rejected _ phase => cases phase.symm.trans hx
      | accepted _ accepts phase =>
          cases phase.symm.trans hx
          exact Execution.orderly_of_accept accepts
      | ran before' steps faultless phase =>
          cases phase.symm.trans hx
          have ho := ih before'
          rw [← hruleset] at ho ⊢
          exact Execution.step_orderly ho faultless steps
  | tell before told ih => exact ih ((tell_phase told).1.symm.trans hx)

/-- What is left to do, nothing of which is done before the transaction is accepted. -/
def toDo (rs : Ruleset) (t : Transaction) (e : Engine) :
    WithTop (ℕ ×ₗ Lex (Fin (rs.rules.callStackLimit.toNat + 1) → WithTop ℕ)) :=
  match e.phase with
  | .executing x => x.calls.distance rs.rules (t.gasLimit - t.intrinsicGas rs.rules).toNat
  | _ => ⊤

/-- **How far the engine is from its end:** what is left to do, then what is left to ask for, then
    whether it could still ask before it is answered. -/
noncomputable def distance (rs : Ruleset) (t : Transaction) (e : Engine) :
    WithTop (ℕ ×ₗ Lex (Fin (rs.rules.callStackLimit.toNat + 1) → WithTop ℕ)) ×ₗ ℕ ×ₗ ℕ :=
  toLex (e.toDo rs t, toLex (e.chain.log.unanswered, if e.pending.isSome then 0 else 1))

lemma distance_lt_of_toDo (h : e'.toDo rs t < e.toDo rs t) :
    e'.distance rs t < e.distance rs t :=
  Prod.Lex.toLex_lt_toLex.mpr (.inl h)

/-- Asking leaves less to do than not having asked. -/
lemma distance_lt_of_asked (htoDo : e'.toDo rs t ≤ e.toDo rs t)
    (hchain : e'.chain = e.chain) (hpending : e.pending = none)
    (hasked : e'.pending.isSome = true) : e'.distance rs t < e.distance rs t := by
  refine Prod.Lex.toLex_lt_toLex'.mpr ⟨htoDo, fun _ => ?_⟩
  refine Prod.Lex.toLex_lt_toLex.mpr (.inr ⟨by rw [hchain], ?_⟩)
  simp [hpending, hasked]

/-- Being answered leaves less to ask for. -/
lemma distance_lt_of_answered (hphase : e'.phase = e.phase)
    (hless : e'.chain.log.unanswered < e.chain.log.unanswered) :
    e'.distance rs t < e.distance rs t := by
  refine Prod.Lex.toLex_lt_toLex.mpr (.inr ⟨?_, Prod.Lex.toLex_lt_toLex.mpr (.inl hless)⟩)
  simp only [toDo]
  rw [hphase]

/-! ### Steps and answers -/

lemma isExited_of_settled {x : Execution} (hx : e.phase = .executing x)
    (hsettled : x.settled = true) (hended : x.calls.isExited = true) : e.isExited = true := by
  simp only [CallStack.isExited, Bool.and_eq_true, List.isEmpty_iff] at hended
  have hroot : x.calls.root.status.isExited = true := by
    rw [Execution.root_of_alone hended.1]
    exact hended.2
  have hstatus : e.status = .ofFrame x.calls.root.status :=
    status_of_settled (by simp [settled?, hx, hsettled])
  refine decide_eq_true ?_
  rw [hstatus]
  exact EngineStatus.ofFrame_ne_running hroot

/-- An engine that has not exited executes nothing that was settled. -/
lemma Reachable.unsettled {x : Execution} (h : Reachable rs t block e)
    (hrunning : e.isExited = false) (hx : e.phase = .executing x) : x.settled = false := by
  by_contra hsettled
  have hsettled := Bool.eq_true_of_not_eq_false hsettled
  rw [isExited_of_settled hx hsettled ((h.orderly hx).ended hsettled)] at hrunning
  cases hrunning

/-- **A step** ends the transaction or brings the engine closer to its end. -/
lemma Hosted.step_progress (h : Hosted rs t block w e) (hrunning : e.isExited = false)
    (hpending : e.pending = none) (hs : e.step = .ok e') :
    e'.isExited = true ∨ e'.distance rs t < e.distance rs t := by
  have hhosted := h.step hs
  have hfunded := h.reachable.funded
  have hruleset := hfunded.ruleset
  simp only [Engine.step] at hs
  rw [hpending] at hs
  split at hs
  · cases ‹none = some _›
  · rename_i hphase
    simp [isExited, status, hphase] at hrunning
  · rename_i t' _ hphase
    split at hs
    · cases hs
      refine .inr (distance_lt_of_toDo ?_)
      simp only [toDo, hphase]
      exact WithTop.coe_lt_top _
    · cases hs
      exact .inl rfl
    · obtain ⟨r, -, rfl⟩ := interrupt_eq_ok hs
      exact .inr (distance_lt_of_asked le_rfl rfl hpending rfl)
  · rename_i x _ hphase
    have hunsettled := h.reachable.unsettled hrunning hphase
    have hf := hfunded.executing x hphase
    have ho := h.reachable.orderly hphase
    subst hruleset
    split at hs <;> rename_i hstep
    · rename_i x' event
      cases hs
      rcases Execution.step_progress hf ho hunsettled hstep with hsettled | hless
      · have hended := (hhosted.reachable.orderly rfl).ended hsettled
        exact .inl (isExited_of_settled rfl hsettled hended)
      · refine .inr (distance_lt_of_toDo ?_)
        simp only [toDo, hphase]
        exact WithTop.coe_lt_coe.mpr hless
    · rename_i x' i
      obtain ⟨r, rfl, rfl⟩ := interrupt_eq_ok hs
      refine .inr (distance_lt_of_asked ?_ rfl hpending rfl)
      simp only [toDo, hphase]
      exact WithTop.coe_le_coe.mpr (Execution.step_waits hf hstep)

/-- Where a step stops for a fault, its acceptance or its execution does. -/
lemma step_faults {fault : Fault} (h : e.step = .error fault) :
    (∃ t', e.phase = .validating t' ∧ t'.accept e.chain = .error (.fault fault)) ∨
      ∃ x x', e.phase = .executing x ∧ x.step e.chain = (x', .error (.fault fault)) := by
  simp only [step] at h
  split at h
  · cases h
  · cases h
  · rename_i t' hpending hphase
    split at h <;> rename_i haccept
    · cases h
    · cases h
    · obtain rfl := interrupt_eq_error h
      exact .inl ⟨t', hphase, haccept⟩
  · rename_i x hpending hphase
    split at h <;> rename_i hstep
    · cases h
    · obtain rfl := interrupt_eq_error h
      exact .inr ⟨x, _, hphase, hstep⟩

/-- **An engine that cannot raise a nonce:** that of the caller whose transaction it is to accept,
    or that of the account in whose name its current frame is about to create another. -/
inductive AtLastNonce (e : Engine) : Prop where
  | caller {t : Transaction} (validating : e.phase = .validating t)
      (known : (Overlay.empty e.chain.rules.accounts).nonce t.caller e.chain.log = .ok t.nonce)
      (last : t.nonce.toNat = maxWord)
  | creator {x : Execution} (executing : e.phase = .executing x)
      (creates : x.calls.current.AtLastNonce e.chain)

/-- **The engine has no fault** but that it cannot raise a nonce. -/
lemma step_fault {fault : Fault} (h : e.step = .error fault) :
    fault = .overflow ∧ e.AtLastNonce := by
  rcases step_faults h with ⟨t', hphase, haccept⟩ | ⟨x, x', hphase, hstep⟩
  · obtain ⟨hfault, hknown, hlast⟩ := Transaction.accept_fault haccept
    exact ⟨hfault, .caller hphase hknown hlast⟩
  · obtain ⟨hfault, hcreates⟩ := Execution.step_fault hstep
    exact ⟨hfault, .creator hphase hcreates⟩

/-- **An answer of the world** is accepted and brings the engine closer to its end. -/
lemma Hosted.answer_progress {r : Requirement} (h : Hosted rs t block w e)
    (hr : e.pending = some r) (fullCode : Bool) :
    ∃ e', e.answer w fullCode = .ok e' ∧ e'.distance rs t < e.distance rs t := by
  have hkept := h.grounded
  obtain ⟨log, hlog, -, hwithin, hnot, hnow⟩ := hkept.tells.record (hkept.lacks r hr) fullCode
  obtain ⟨e', hanswer, hclosed⟩ := answer_ok hr hlog
  refine ⟨e', hanswer, ?_⟩
  rcases answer_eq_ok hanswer with rfl | ⟨r', log', hr', htold, hchain, -, hphase, -⟩
  · rw [hr] at hclosed
    cases hclosed
  · obtain rfl : r = r' := Option.some.inj (hr.symm.trans hr')
    obtain rfl : log = log' := Except.ok.inj (hlog.symm.trans htold)
    refine distance_lt_of_answered hphase ?_
    rw [hchain]
    exact hwithin.unanswered_lt hnot hnow

/-! ### Loops -/

/-- **A loop that comes to its end:** on enough fuel its outcome is always the same, and it is an
    engine as wished, unless a nonce cannot be raised. -/
def Ends (loop : ℕ → Except Fault Engine) (P : Engine → Prop) : Prop :=
  ∃ (bound : ℕ) (outcome : Except Fault Engine), (∀ fuel, bound ≤ fuel → loop fuel = outcome) ∧
    (outcome = .error .overflow ∨ ∃ e, outcome = .ok e ∧ P e)

section Loops

variable {loop rest : ℕ → Except Fault Engine} {P : Engine → Prop}

/-- A loop with nothing left to do. -/
lemma Ends.now (h : ∀ fuel, loop (fuel + 1) = .ok e) (he : P e) : Ends loop P := by
  refine ⟨1, .ok e, fun fuel hfuel => ?_, .inr ⟨e, rfl, he⟩⟩
  obtain ⟨n, rfl⟩ := Nat.exists_eq_add_of_le' hfuel
  exact h n

lemma Ends.overflow (h : ∀ fuel, loop (fuel + 1) = .error .overflow) : Ends loop P := by
  refine ⟨1, _, fun fuel hfuel => ?_, .inl rfl⟩
  obtain ⟨n, rfl⟩ := Nat.exists_eq_add_of_le' hfuel
  exact h n

/-- A loop that goes on as one that comes to its end. -/
lemma Ends.succ (h : ∀ fuel, loop (fuel + 1) = rest fuel) (hrest : Ends rest P) : Ends loop P := by
  obtain ⟨bound, outcome, hall, houtcome⟩ := hrest
  refine ⟨bound + 1, outcome, fun fuel hfuel => ?_, houtcome⟩
  obtain ⟨n, rfl⟩ := Nat.exists_eq_add_of_le' hfuel
  rw [← Nat.add_assoc, h]
  exact hall _ (Nat.le_add_left bound n)

end Loops

/-- What holds of an engine if it holds of all that are closer to their end holds of all. -/
lemma Hosted.induction {Q : Engine → Prop} (h : Hosted rs t block w e)
    (next : ∀ e, Hosted rs t block w e → (∀ e', Hosted rs t block w e' →
      e'.distance rs t < e.distance rs t → Q e') → Q e) : Q e := by
  induction hd : e.distance rs t using WellFoundedLT.induction generalizing e with
  | ind d ih =>
      subst hd
      exact next e h fun e' h' hless => ih _ hless h' rfl

/-- **Firing** comes back, with the transaction at its end or with a question. -/
lemma Hosted.fire_ends (h : Hosted rs t block w e) :
    Ends (fun fuel => e.fire fuel) fun e' => e'.isExited = true ∨ e'.pending.isSome = true := by
  refine h.induction (Q := fun e => Ends (fun fuel => e.fire fuel) _) fun e h ih => ?_
  by_cases hrest : e.isExited = true ∨ e.pending.isSome = true
  · exact .now (fun fuel => by simp [fire, hrest]) hrest
  · obtain ⟨hrunning, hclosed⟩ := not_or.mp hrest
    have hrunning := Bool.eq_false_of_not_eq_true hrunning
    have hpending : e.pending = none := Option.not_isSome_iff_eq_none.mp hclosed
    cases hs : e.step with
    | error fault =>
        obtain ⟨rfl, -⟩ := step_fault hs
        exact .overflow fun fuel => by simp [fire, hrunning, hpending, hs]
    | ok e' =>
        have hrest : Ends (fun fuel => e'.fire fuel)
            fun e' => e'.isExited = true ∨ e'.pending.isSome = true := by
          rcases h.step_progress hrunning hpending hs with hexited | hless
          · exact .now (fun fuel => by simp [fire, hexited]) (.inl hexited)
          · exact ih e' (h.step hs) hless
        exact .succ (fun fuel => by simp [fire, hrunning, hpending, hs]) hrest

/-- Steps, and answers what is asked for as a host does, until the engine ends or an answer is
    refused; at most so many times. -/
def runBy (host : Requirement → Answer) : ℕ → Engine → Except Fault Engine
  | 0, e => .ok e
  | fuel + 1, e =>
    if e.isExited then .ok e
    else
      match e.pending with
      | some r =>
        match e.tell (host r) with
        | .ok e => runBy host fuel e
        | .error _ => .ok e
      | none =>
        match e.step with
        | .ok e => runBy host fuel e
        | .error fault => .error fault

/-- Running against a world is being run by one of its hosts. -/
lemma run_eq_runBy (w : World) (fullCode : Bool) (fuel : ℕ) (e : Engine) :
    e.run w fullCode fuel = e.runBy (w.answer fullCode) fuel := by
  induction fuel generalizing e with
  | zero => rfl
  | succ fuel ih =>
      simp only [Engine.run, runBy, answer]
      cases e.pending with
      | some r =>
          dsimp only [Option.isSome_some]
          rw [if_pos rfl]
          cases e.tell (w.answer fullCode r) with
          | ok e' => simp only [ih]
          | error refusal => rfl
      | none =>
          dsimp only [Option.isSome_none]
          cases e.step with
          | ok e' => simp only [ih, Bool.false_eq_true, if_false]
          | error fault => simp only [Bool.false_eq_true, if_false]

/-- **A host of a world brings the engine to the end of its transaction.** -/
lemma Hosted.runBy_ends {host : Requirement → Answer} (h : Hosted rs t block w e)
    (hhost : w.Hosts host) : Ends (fun fuel => e.runBy host fuel) fun e' => e'.isExited = true := by
  have hexited : ∀ e : Engine, e.isExited = true →
      Ends (fun fuel => e.runBy host fuel) fun e' => e'.isExited = true :=
    fun e hexited => .now (fun fuel => by simp [runBy, hexited]) hexited
  refine h.induction (Q := fun e => Ends (fun fuel => e.runBy host fuel) _) fun e h ih => ?_
  by_cases hrest : e.isExited = true
  · exact hexited e hrest
  · have hrunning := Bool.eq_false_of_not_eq_true hrest
    cases hpending : e.pending with
    | some r =>
        obtain ⟨fullCode, hanswers⟩ := hhost r
        obtain ⟨e', hanswer, hless⟩ := h.answer_progress hpending fullCode
        have htell : e.tell (host r) = .ok e' := by
          simp only [Engine.answer, hpending] at hanswer
          rw [hanswers, hanswer]
        exact .succ (fun fuel => by simp [runBy, hrunning, hpending, htell])
          (ih e' (h.answer hanswer) hless)
    | none =>
        cases hs : e.step with
        | error fault =>
            obtain ⟨rfl, -⟩ := step_fault hs
            exact .overflow fun fuel => by simp [runBy, hrunning, hpending, hs]
        | ok e' =>
            have hrest : Ends (fun fuel => e'.runBy host fuel) fun e' => e'.isExited = true := by
              rcases h.step_progress hrunning hpending hs with hover | hless
              · exact hexited e' hover
              · exact ih e' (h.step hs) hless
            exact .succ (fun fuel => by simp [runBy, hrunning, hpending, hs]) hrest

/-- **Running against a world** comes to the end of the transaction. -/
lemma Hosted.run_ends (h : Hosted rs t block w e) (fullCode : Bool) :
    Ends (fun fuel => e.run w fullCode fuel) fun e' => e'.isExited = true := by
  simp only [run_eq_runBy]
  exact h.runBy_ends (w.hosts_answer fullCode)

end Engine

/-- **Every transaction ends.**  Whatever the rules — however deep frames may nest and whatever
    things cost, nothing included — and whatever the block and the world: firing the engine always
    comes back, with the transaction at its end or with a question; and the engine, fired again
    after each answer of the world, comes to the end of its transaction after finitely many steps
    and answers, unless it stops for a nonce that cannot be raised. -/
theorem every_transaction_ends (rs : Ruleset) (t : Transaction) (block : Header) (w : World) :
    (∀ e, Engine.Hosted rs t block w e →
      Engine.Ends (fun fuel => e.fire fuel)
        fun e' => e'.isExited = true ∨ e'.pending.isSome = true) ∧
    ∀ fullCode, Engine.Ends (fun fuel => (Engine.create rs t block).run w fullCode fuel)
      fun e => e.isExited = true :=
  ⟨fun _ h => h.fire_ends, fun fullCode => Engine.Hosted.run_ends .create fullCode⟩

/-- A world with one account, whose code jumps back to its start for ever. -/
def loopWorld : World :=
  { accounts := (∅ : Std.TreeMap Address WorldAccount).insert 300
      { code := ⟨#[0x5b, 0x60, 0, 0x56]⟩ } }

/-- A transaction that calls that account. -/
def loopCall : Transaction := ⟨200, 0, 21048, .call 300, 0, ByteArray.empty, 0⟩

/-- It runs out of gas. -/
theorem loopCall_ends :
    Engine.Ends (fun fuel => (Engine.create .byzantium loopCall {}).fire fuel)
      (fun e => e.isExited = true ∨ e.pending.isSome = true) ∧
    Engine.Ends (fun fuel => (Engine.create .byzantium loopCall {}).run loopWorld false fuel)
      (fun e => e.isExited = true) ∧
    ((Engine.create .byzantium loopCall {}).run loopWorld false 30).toOption.map Engine.status =
      some (.exitedErr .outOfGas) := by
  obtain ⟨hfire, hrun⟩ := every_transaction_ends .byzantium loopCall {} loopWorld
  exact ⟨hfire _ .create, hrun false, by decide +kernel⟩

end ResumableEvm
