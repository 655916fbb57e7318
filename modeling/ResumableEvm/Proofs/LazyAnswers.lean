import ResumableEvm.Proofs.Acceptance
import ResumableEvm.Proofs.FrameAgreement

/-!
# Answering lazily

A host may tell everything beforehand, or only what is asked for, when it is asked for.  Either
way the frames are the same: a step that goes through under a log goes through in the same way
under every log of the same world that knows more, and an execution that is answered one datum
at a time ends as one whose log was complete from the start.

* `CallStack.Reachable` — what an execution comes to while its log grows.
* `CallStack.LazyStep`, `CallStack.LazyRun` — running, and being answered by a world.
* `lazy_answers_eq_full_knowledge` — both kinds of host see the same frames.
-/

namespace ResumableEvm

open Relation

namespace CallStack

section Reachable

variable (rs : Ruleset) (block : Header) (w : World)

/-- **What an execution comes to** under a log that tells of a world and may grow at any time.
    It starts from a frame that has begun, whatever its context; what its overlay holds of slots
    was read from the log. -/
inductive Reachable : CallStack → CommitLog → Prop where
  | call {context : Context} {depth : ℕ} {overlay : Overlay} {root : Frame} {log : CommitLog}
      (tells : log.Tells w) (grounded : overlay.Grounded log)
      (begun : (Frame.create context depth overlay rs.rules).beginCall ⟨rs, block, log⟩ =
        (root, .ok ())) : Reachable (ofRoot root) log
  | create {context : Context} {depth : ℕ} {overlay : Overlay} {root : Frame} {log : CommitLog}
      (tells : log.Tells w) (grounded : overlay.Grounded log)
      (begun : (Frame.create context depth overlay rs.rules).beginCreate ⟨rs, block, log⟩ =
        (root, .ok ())) : Reachable (ofRoot root) log
  | grow {s : CallStack} {log log' : CommitLog} (before : Reachable s log) (tells : log'.Tells w)
      (more : log.Within log') : Reachable s log'
  | step {s s' : CallStack} {log : CommitLog} {event : Option Event} (before : Reachable s log)
      (stepped : s.step ⟨rs, block, log⟩ = (s', .ok event)) : Reachable s' log

/-- **A step of a lazily answered execution:** of the frames while they run, or of the log when a
    datum is missing. -/
inductive LazyStep (fullCode : Bool) : CallStack × CommitLog → CallStack × CommitLog → Prop where
  | step {s s' : CallStack} {log : CommitLog} {event : Option Event} (running : s.isExited = false)
      (stepped : s.step ⟨rs, block, log⟩ = (s', .ok event)) :
      LazyStep fullCode (s, log) (s', log)
  | answer {s s' : CallStack} {log log' : CommitLog} {r : Requirement}
      (running : s.isExited = false)
      (asked : s.step ⟨rs, block, log⟩ = (s', .error (.requires r)))
      (told : log.record (w.answer fullCode r) = .ok log') :
      LazyStep fullCode (s, log) (s', log')

/-- A lazily answered execution. -/
def LazyRun (fullCode : Bool) : CallStack × CommitLog → CallStack × CommitLog → Prop :=
  ReflTransGen (LazyStep rs block w fullCode)

end Reachable

variable {rs : Ruleset} {block : Header} {w : World} {fullCode : Bool} {s s' t : CallStack}
  {log log' full : CommitLog}

namespace Reachable

lemma tells (h : Reachable rs block w s log) : log.Tells w := by
  induction h with
  | call tells grounded begun => exact tells
  | create tells grounded begun => exact tells
  | grow before tells more ih => exact tells
  | step before stepped ih => exact ih

/-- Whatever an execution comes to, all its overlays are grounded. -/
lemma grounded (h : Reachable rs block w s log) : s.Grounded log := by
  induction h with
  | call tells grounded begun =>
      intro f hf
      obtain rfl := List.mem_singleton.mp hf
      exact (Frame.beginCall_begun begun).grounded grounded
  | create tells grounded begun =>
      intro f hf
      obtain rfl := List.mem_singleton.mp hf
      exact (Frame.beginCreate_begun begun).grounded grounded
  | grow before tells more ih => exact ih.within more
  | step before stepped ih => exact (step_stepped stepped).grounded ih

/-- What an execution does next agrees with what it would do under a fuller log. -/
lemma step_agree (h : Reachable rs block w s log) (hw : log.Within log') :
    Agree log log' (s.step ⟨rs, block, log⟩) (s.step ⟨rs, block, log'⟩) :=
  s.step_agree hw rs block (h.grounded _ List.mem_cons_self)

/-- A transaction past validation is where an execution starts. -/
lemma of_accept {t : Transaction} {e : Execution} (tells : log.Tells w)
    (h : t.accept ⟨rs, block, log⟩ = .ok (.ok e)) : Reachable rs block w e.calls log := by
  obtain ⟨nonce, fresh, paid, code, root, hfresh, hpaid, hroot, rfl⟩ :=
    (Transaction.accept_accepted h).begun
  have hgrounded : paid.Grounded log :=
    ((Overlay.Grounded.empty _ log).setNonce hfresh).moveBalance hpaid
  simp only [Transaction.beginRoot] at hroot
  split at hroot
  · exact .call tells hgrounded hroot
  · exact .create tells hgrounded hroot

end Reachable

/-! ## The same frames -/

/-- A lazily answered execution only comes to what is reachable. -/
lemma LazyStep.reachable {p q : CallStack × CommitLog} (h : LazyStep rs block w fullCode p q)
    (hp : Reachable rs block w p.1 p.2) : Reachable rs block w q.1 q.2 := by
  cases h with
  | step running stepped => exact hp.step stepped
  | @answer s s' log log' r running asked told =>
      obtain rfl : s' = s := step_requires asked
      have hlacks : log.Lacks r :=
        (hp.step_agree (.refl log)).lacks (congrArg Asking.asked? asked)
      obtain ⟨log'', htold, htells, hwithin, -, -⟩ := hp.tells.record hlacks fullCode
      obtain rfl : log' = log'' := by rw [told] at htold; exact Except.ok.inj htold
      exact hp.grow htells hwithin

/-- **A step that goes through** under a log goes through in the same way under a fuller one. -/
lemma Reachable.step_eq (h : Reachable rs block w s log) (hw : log.Within log')
    {event : Option Event} (hs : s.step ⟨rs, block, log⟩ = (s', .ok event)) :
    s.step ⟨rs, block, log'⟩ = (s', .ok event) := by
  have hasks : AsksNothing (s.step ⟨rs, block, log⟩) := by
    rw [hs]
    rfl
  rw [(h.step_agree hw).same hasks, hs]

/-- One step that goes through is one of the steps until the end. -/
lemma fire_succ {chain : ChainView} {event : Option Event} (hr : s.isExited = false)
    (hs : s.step chain = (s', .ok event)) (n : ℕ) : s.fire (n + 1) chain = s'.fire n chain := by
  simp [fire, hr, hs]

/-- What a lazily answered execution ends in, one under a complete log ends in. -/
lemma LazyRun.fire {p q : CallStack × CommitLog} (h : LazyRun rs block w fullCode p q)
    (hp : Reachable rs block w p.1 p.2) (hfull : full.Tells w) (hc : full.Complete) :
    ∃ n, p.1.fire n ⟨rs, block, full⟩ = (q.1, none) := by
  induction h using ReflTransGen.head_induction_on with
  | refl => exact ⟨0, rfl⟩
  | head hstep hrun ih =>
      obtain ⟨n, hn⟩ := ih (hstep.reachable hp)
      cases hstep with
      | step running stepped =>
          have hs := hp.step_eq (hc.within hfull hp.tells) stepped
          exact ⟨n + 1, (fire_succ running hs n).trans hn⟩
      | answer running asked told =>
          obtain rfl := step_requires asked
          exact ⟨n, hn⟩

/-- A step that asks for a datum has changed nothing. -/
lemma step_asks {chain : ChainView} {r : Requirement}
    (h : Asking.asked? (s.step chain) = some r) : s.step chain = (s, .error (.requires r)) := by
  rcases hs : s.step chain with ⟨s', (missing | fault) | event⟩
  · rw [hs] at h
    obtain rfl : missing = r := Option.some.inj h
    rw [step_requires hs]
  · rw [hs] at h
    cases h
  · rw [hs] at h
    cases h

/-- A step that goes through under a complete log goes through once enough has been answered;
    every answer leaves less to ask for. -/
lemma exists_lazyRun_step {event : Option Event} (h : Reachable rs block w s log)
    (hfull : full.Tells w) (hc : full.Complete) (hr : s.isExited = false)
    (hs : s.step ⟨rs, block, full⟩ = (s', .ok event)) (fullCode : Bool) :
    ∃ log', LazyRun rs block w fullCode (s, log) (s', log') ∧ Reachable rs block w s' log' := by
  induction hm : log.unanswered using Nat.strong_induction_on generalizing log with
  | _ m ih =>
      have hagree := h.step_agree (hc.within hfull h.tells)
      cases hasked : Asking.asked? (s.step ⟨rs, block, log⟩) with
      | none =>
          have hsame : s.step ⟨rs, block, log⟩ = (s', .ok event) :=
            (hagree.same hasked).symm.trans hs
          exact ⟨log, .single (.step hr hsame), h.step hsame⟩
      | some r =>
          obtain ⟨log', htold, htells, hwithin, hnot, hnow⟩ :=
            h.tells.record (hagree.lacks hasked) fullCode
          have hstep : LazyStep rs block w fullCode (s, log) (s, log') :=
            .answer hr (step_asks hasked) htold
          obtain ⟨log'', hrun, hreach⟩ :=
            ih _ (hm ▸ hwithin.unanswered_lt hnot hnow) (h.grow htells hwithin) rfl
          exact ⟨log'', hrun.head hstep, hreach⟩

/-- What an execution under a complete log ends in, a lazily answered one ends in. -/
lemma exists_lazyRun {n : ℕ} (h : Reachable rs block w s log) (hfull : full.Tells w)
    (hc : full.Complete) (hfire : s.fire n ⟨rs, block, full⟩ = (t, none)) (fullCode : Bool) :
    ∃ log', LazyRun rs block w fullCode (s, log) (t, log') := by
  induction n generalizing s log with
  | zero =>
      cases hfire
      exact ⟨log, .refl⟩
  | succ n ih =>
      cases hr : s.isExited with
      | true =>
          simp only [fire, hr, if_true, Prod.mk.injEq] at hfire
          obtain rfl := hfire.1
          exact ⟨log, .refl⟩
      | false =>
          rcases hs : s.step ⟨rs, block, full⟩ with ⟨s', i | event⟩
          · simp [fire, hr, hs] at hfire
          · rw [fire_succ hr hs] at hfire
            obtain ⟨log', hrun, hreach⟩ := exists_lazyRun_step h hfull hc hr hs fullCode
            obtain ⟨log'', hrest⟩ := ih hreach hfire
            exact ⟨log'', hrun.trans hrest⟩

end CallStack

open CallStack in
/-- **Lazy answers are full knowledge.**  For every world: a step that goes through under a log of
    its data goes through under every fuller log of its data and leaves the same frames, and so
    does the beginning of a root frame.  An execution that is answered from the world whenever it
    asks comes to the frames, in the end or on the way, that an execution comes to that has a
    complete log from the start, and the other way round.  Every transaction past validation is
    such an execution. -/
theorem lazy_answers_eq_full_knowledge (rs : Ruleset) (block : Header) (w : World) :
    (∀ (t : Transaction) (e : Execution) (log : CommitLog), log.Tells w →
      t.accept ⟨rs, block, log⟩ = .ok (.ok e) → Reachable rs block w e.calls log) ∧
    (∀ (root begun : Frame) (log log' : CommitLog), log.Within log' →
      (root.beginCall ⟨rs, block, log⟩ = (begun, .ok ()) →
        root.beginCall ⟨rs, block, log'⟩ = (begun, .ok ())) ∧
      (root.beginCreate ⟨rs, block, log⟩ = (begun, .ok ()) →
        root.beginCreate ⟨rs, block, log'⟩ = (begun, .ok ()))) ∧
    (∀ (s s' : CallStack) (log log' : CommitLog) (event : Option Event),
      Reachable rs block w s log → log'.Tells w → log.Within log' →
        s.step ⟨rs, block, log⟩ = (s', .ok event) →
          s.step ⟨rs, block, log'⟩ = (s', .ok event)) ∧
    (∀ (s t : CallStack) (log full : CommitLog) (fullCode : Bool),
      Reachable rs block w s log → full.Tells w → full.Complete →
        ((∃ log', LazyRun rs block w fullCode (s, log) (t, log')) ↔
          ∃ n, s.fire n ⟨rs, block, full⟩ = (t, none))) := by
  refine ⟨fun t e log htells h => .of_accept htells h,
    fun root begun log log' hw => ⟨fun h => ?_, fun h => ?_⟩,
    fun s s' log log' event hr _ hw hs => hr.step_eq hw hs,
    fun s t log full fullCode hr hfull hc => ⟨fun h => ?_, fun h => ?_⟩⟩
  · exact ((root.beginCall_agree hw rs block).same (h ▸ rfl)).trans h
  · exact ((root.beginCreate_agree hw rs block).same (h ▸ rfl)).trans h
  · obtain ⟨log', hrun⟩ := h
    exact hrun.fire hr hfull hc
  · obtain ⟨n, hn⟩ := h
    exact exists_lazyRun hr hfull hc hn fullCode

/-- A frame that looks up the balance of the beneficiary and stops. -/
def balanceReader : Frame :=
  Frame.create ⟨100, 100, 200, ⟨#[0x41, 0x31, 0x00]⟩, ByteArray.empty, 1000, 1, 200, 0, 0, false⟩ 0
    (Overlay.empty .mainnet) .byzantium

/-- A log that was told of the two parties of that frame, neither of which exists. -/
def strangers : CommitLog :=
  { accounts := ((∅ : Std.TreeMap Address CommittedAccount).insert 100 .nonexistent).insert 200
      .nonexistent }

/-- The same log, told of the beneficiary as well. -/
def allStrangers : CommitLog :=
  { strangers with accounts := strangers.accounts.insert 0 .nonexistent }

/-- The execution of that frame after some steps. -/
def balanceReading (log : CommitLog) (n : ℕ) : CallStack :=
  (CallStack.fire n (.ofRoot (balanceReader.beginCall ⟨.byzantium, {}, log⟩).1)
    ⟨.byzantium, {}, log⟩).1

lemma strangers_tells : strangers.Tells {} where
  account {a known} h := by
    rw [strangers, Std.TreeMap.getElem?_insert, Std.TreeMap.getElem?_insert] at h
    split at h
    · exact (Option.some.inj h).symm
    · split at h
      · exact (Option.some.inj h).symm
      · simp at h
  code h := by simp [strangers] at h
  slot h := by simp [strangers, CommitLog.slot?] at h
  blockHash h := by simp [strangers] at h

open CallStack in
/-- The frame asks once, for the beneficiary, and ends as it does under a complete log. -/
theorem balanceReading_ends : ∃ full : CommitLog, full.Complete ∧ ∃ (t : CallStack) (n : ℕ),
    t.isExited = true ∧
      (balanceReading strangers 0).fire n ⟨.byzantium, {}, full⟩ = (t, none) := by
  obtain ⟨full, hfull, hc⟩ := World.exists_complete {}
  have hreach : Reachable .byzantium {} {} (balanceReading strangers 0) strangers :=
    .call strangers_tells (.empty _ _) (show balanceReader.beginCall _ = (_, .ok ()) by rfl)
  have hcoinbase : LazyStep .byzantium {} {} false (balanceReading strangers 0, strangers)
      (balanceReading strangers 1, strangers) :=
    .step (by rfl) (show _ = (_, Except.ok none) by rfl)
  have hanswer : LazyStep .byzantium {} {} false (balanceReading strangers 1, strangers)
      (balanceReading strangers 1, allStrangers) :=
    .answer (by rfl) (show _ = (_, Except.error (Interrupt.requires (.account 0))) by rfl) (by rfl)
  have hbalance : LazyStep .byzantium {} {} false (balanceReading strangers 1, allStrangers)
      (balanceReading allStrangers 2, allStrangers) :=
    .step (by rfl) (show _ = (_, Except.ok none) by rfl)
  have hstop : LazyStep .byzantium {} {} false (balanceReading allStrangers 2, allStrangers)
      (balanceReading allStrangers 3, allStrangers) :=
    .step (by rfl) (show _ = (_, Except.ok none) by rfl)
  have hrun : LazyRun .byzantium {} {} false (balanceReading strangers 0, strangers)
      (balanceReading allStrangers 3, allStrangers) :=
    .head hcoinbase (.head hanswer (.head hbalance (.single hstop)))
  obtain ⟨n, hn⟩ := ((lazy_answers_eq_full_knowledge .byzantium {} {}).2.2.2 _ _ _ full false
    hreach hfull hc).mp ⟨_, hrun⟩
  exact ⟨full, hc, _, n, by rfl, hn⟩

end ResumableEvm
