import ResumableEvm.Proofs.HostedRun

/-!
# A consistent host

A host that answers from one world has an easy life.  Every answer is accepted, nothing is asked
that was told before, and so nothing is asked twice; and a slot is asked for only once its account
is known to exist.

* `Frame.Reports` — what an operation reports is never a question.
* `Engine.step_asks` — a step asks one question at most, and stops for it.
* `Engine.Hosted.nodup_requirements` — no question is asked twice.
* `consistent_host_is_never_refused` — all of it together.
-/

namespace ResumableEvm

/-! ## Reports -/

/-- The question that an event asks, if it does. -/
def Event.question? : Event → Option Requirement
  | .require r => some r
  | _ => none

namespace Frame

variable {f g : Frame} {chain : ChainView} {op : Opcode}

/-- What an operation reports is not a question. -/
def Reports (result : Frame × Except Interrupt Performed) : Prop :=
  ∀ done, result.2 = .ok done → done.event.bind Event.question? = none

lemma reports_done (control : FrameControl) : Reports (f, .ok ⟨control, none⟩) := by
  intro done h
  cases h
  rfl

lemma reports_giving {event : Option Event} (hevent : event.bind Event.question? = none) (w : Word)
    (control : FrameControl) : Reports (f.giving w control event) := by
  intro done h
  simp only [giving] at h
  split at h <;> cases h <;> exact hevent

lemma reports_writing (result : Except ExitFatal Memory) : Reports (f.writing result) := by
  intro done h
  simp only [writing] at h
  split at h <;> cases h <;> rfl

lemma reports_attempt {α : Type} {result : Except Interrupt α}
    {k : α → Frame × Except Interrupt Performed} (hk : ∀ a, Reports (k a)) :
    Reports (f.attempt result k) := by
  cases result with
  | ok a => exact hk a
  | error i =>
      intro done h
      cases h

lemma reports_reading {α : Type} {result : Except Requirement α}
    {k : α → Frame × Except Interrupt Performed} (hk : ∀ a, Reports (k a)) :
    Reports (f.reading result k) :=
  reports_attempt hk

lemma reports_performCreate (afterGas : Gas) (value offset len : Word) (salt : Option Word) :
    Reports (f.performCreate chain afterGas value offset len salt) := by
  refine reports_reading fun declined => ?_
  split
  · exact reports_giving rfl _ _
  · refine reports_reading fun nonce => reports_attempt fun raised => ?_
    exact reports_reading fun overlay => reports_giving rfl _ _

lemma reports_performCall (kind : CallKind) (stipend afterGas : Gas) (o : CallOperands) :
    Reports (f.performCall chain kind stipend afterGas o) := by
  refine reports_reading fun declined => ?_
  split
  · exact reports_giving rfl _ _
  · exact reports_reading fun code => reports_giving rfl _ _

lemma reports_performSelfDestruct (target : Address) :
    Reports (f.performSelfDestruct chain target) := by
  refine reports_reading fun balance => reports_reading fun paid => ?_
  refine reports_reading fun remaining => reports_reading fun overlay => ?_
  intro done h
  cases h
  rfl

/-- **A trapped opcode** reports what it did. -/
lemma reports_perform (stipend afterGas : Gas) : Reports (f.perform chain op stipend afterGas) := by
  simp only [perform]
  split
  case h_1 | h_2 => exact reports_giving rfl _ _
  case h_3 | h_4 | h_6 | h_9 => exact reports_reading fun _ => reports_giving rfl _ _
  case h_5 => exact reports_reading fun _ => reports_writing _
  case h_7 => exact reports_writing _
  case h_8 =>
      split
      · exact reports_reading fun _ => reports_giving rfl _ _
      · exact reports_giving rfl _ _
  case h_10 => exact reports_reading fun _ => reports_done _
  case h_11 => split <;> exact reports_done _
  case h_12 | h_13 => exact reports_performCreate _ _ _ _ _
  case h_14 =>
      split
      · exact reports_performCall _ _ _ _
      · exact reports_done _
  case h_15 => exact reports_performSelfDestruct _
  case h_16 => split <;> exact reports_done _

lemma reports_execute (stipend afterGas : Gas) : Reports (f.execute chain stipend afterGas) := by
  simp only [execute]
  split
  · exact reports_done _
  · exact reports_done _
  · exact reports_perform _ _

lemma stepAt_reports {event : Option Event} (h : f.stepAt chain op = (g, .ok event)) :
    event.bind Event.question? = none := by
  simp only [stepAt] at h
  split at h
  · cases h
    rfl
  · cases h
  · obtain ⟨c, -, h⟩ := reading_eq_ok.mp h
    split at h
    · cases h
      rfl
    · simp only [conclude] at h
      split at h <;> rename_i hexecute <;> cases h
      exact reports_execute _ _ _ (congrArg Prod.snd hexecute)

lemma step_reports {event : Option Event} (h : f.step chain = (g, .ok event)) :
    event.bind Event.question? = none := by
  simp only [step] at h
  split at h
  · split at h
    · cases h
      rfl
    · split at h
      · cases h
        rfl
      · exact stepAt_reports h
  · cases h
    rfl

end Frame

lemma CallStack.step_reports {s s' : CallStack} {chain : ChainView} {event : Option Event}
    (h : s.step chain = (s', .ok event)) : event.bind Event.question? = none := by
  simp only [step] at h
  split at h
  · rcases hf : s.current.step chain with ⟨g, result⟩
    rw [hf] at h
    cases h
    exact Frame.step_reports hf
  · split at h <;> cases h
    rfl
  · split at h <;> cases h
    rfl
  · split at h
    · cases h
      rfl
    · split at h <;> cases h
      rfl

lemma Execution.step_reports {e e' : Execution} {chain : ChainView} {event : Option Event}
    (h : e.step chain = (e', .ok event)) : event.bind Event.question? = none := by
  simp only [step] at h
  split at h
  · cases h
    rfl
  · split at h
    · split at h <;> cases h
      rfl
    · rcases hs : e.calls.step chain with ⟨calls, result⟩
      rw [hs] at h
      cases h
      exact CallStack.step_reports hs

/-! ## Questions -/

namespace Engine

variable {rs : Ruleset} {t : Transaction} {block : Header} {w : World} {e e' : Engine}

/-- **A step asks one question at most,** and only if none is open. -/
lemma step_asks (h : e.step = .ok e') :
    (e'.pending = e.pending ∧ e'.requirements = e.requirements) ∨
      ∃ r, e.pending = none ∧ e'.pending = some r ∧ e'.requirements = e.requirements ++ [r] := by
  simp only [step] at h
  split at h
  · cases h
    exact .inl ⟨rfl, rfl⟩
  · cases h
    exact .inl ⟨rfl, rfl⟩
  · rename_i t hpending hphase
    split at h
    · cases h
      exact .inl ⟨rfl, rfl⟩
    · cases h
      exact .inl ⟨rfl, rfl⟩
    · obtain ⟨r, -, rfl⟩ := interrupt_eq_ok h
      exact .inr ⟨r, hpending, rfl, by simp [requirements]⟩
  · rename_i x hpending hphase
    split at h <;> rename_i hstep
    · rename_i x' event
      cases h
      refine .inl ⟨rfl, ?_⟩
      cases event with
      | none => rfl
      | some event =>
          cases event with
          | require r => cases Execution.step_reports hstep
          | _ => simp [requirements]
    · obtain ⟨r, -, rfl⟩ := interrupt_eq_ok h
      exact .inr ⟨r, hpending, rfl, by simp [requirements]⟩

/-- What is asked anew was not asked before, where all that was asked is known. -/
lemma nodup_append_asked {asked : List Requirement} {r : Requirement} {log : CommitLog}
    (htells : log.Tells w) (hlacks : log.Lacks r) (hknown : ∀ q ∈ asked, log.Answers q)
    (hnodup : asked.Nodup) : (asked ++ [r]).Nodup := by
  obtain ⟨-, -, -, -, hnot, -⟩ := htells.record hlacks false
  refine List.nodup_append.mpr ⟨hnodup, List.nodup_singleton r, ?_⟩
  intro q hq q' hq' heq
  rw [List.mem_singleton.mp hq'] at heq
  exact hnot (heq ▸ hknown q hq)

/-- Whatever was asked is open or known, so nothing was asked twice. -/
lemma Hosted.nodup_requirements (h : Hosted rs t block w e) :
    e.requirements.Nodup ∧
      ∀ r ∈ e.requirements, e.pending = some r ∨ e.chain.log.Answers r := by
  induction h with
  | create => exact ⟨List.nodup_nil, nofun⟩
  | @step e e' before stepped ih =>
      obtain ⟨hnodup, hknown⟩ := ih
      have hchain : e'.chain = e.chain := (step_stepped stepped).2
      have hkept := (before.step stepped).grounded
      rw [hchain]
      rcases step_asks stepped with ⟨hpending, hasked⟩ | ⟨r, hnone, hpending, hasked⟩
      · rw [hpending, hasked]
        exact ⟨hnodup, hknown⟩
      · have hold : ∀ q ∈ e.requirements, e.chain.log.Answers q := by
          intro q hq
          rcases hknown q hq with hopen | hanswers
          · rw [hnone] at hopen
            cases hopen
          · exact hanswers
        have hlacks : e.chain.log.Lacks r := hchain ▸ hkept.lacks r hpending
        rw [hpending, hasked]
        refine ⟨nodup_append_asked before.grounded.tells hlacks hold hnodup, fun q hq => ?_⟩
        rcases List.mem_append.mp hq with hq | hq
        · exact .inr (hold q hq)
        · exact .inl (congrArg some (List.mem_singleton.mp hq).symm)
  | @answer e e' fullCode before answered ih =>
      obtain ⟨hnodup, hknown⟩ := ih
      rcases answer_eq_ok answered with rfl | ⟨r, log, hr, htold, hchain, hpending, -, hasked⟩
      · exact ⟨hnodup, hknown⟩
      · have hkept := before.grounded
        obtain ⟨log', htold', -, hwithin, -, hnow⟩ :=
          hkept.tells.record (hkept.lacks r hr) fullCode
        obtain rfl : log = log' := Except.ok.inj (htold.symm.trans htold')
        rw [hasked, hchain]
        refine ⟨hnodup, fun q hq => .inr ?_⟩
        rcases hknown q hq with hopen | hanswers
        · obtain rfl : r = q := Option.some.inj (hr.symm.trans hopen)
          exact hnow
        · exact hwithin.answers hanswers

/-! ## Answers -/

/-- An answer about an account answers the question. -/
lemma satisfies_answer {fullCode : Bool} {r : Requirement} {c : Commitment}
    (h : w.answer fullCode r = .account c) : c.satisfies r = true := by
  cases r with
  | account a =>
      simp only [World.answer] at h
      split at h <;> cases h <;> simp [World.fullCommitment, Commitment.satisfies]
  | code a =>
      simp only [World.answer] at h
      split at h
      · split at h <;> cases h <;> simp [World.fullCommitment, Commitment.satisfies]
      · cases h
        simp [Commitment.satisfies]
  | storage a index =>
      cases h
      simp [Commitment.satisfies]
  | blockHash number => cases h

/-- The hash of a block answers the question for it. -/
lemma blockHash_of_answer {fullCode : Bool} {r : Requirement} {number : Word} {hash : Hash}
    (h : w.answer fullCode r = .blockHash number hash) : r = .blockHash number := by
  cases r with
  | account a | code a =>
      simp only [World.answer] at h
      split at h <;> cases h
  | storage a index => cases h
  | blockHash n =>
      cases h
      rfl

/-- A datum about an account is accepted that answers the question, if the log has room for it. -/
lemma commit_ok {c : Commitment} {log : CommitLog} (hopen : e.pending.any c.satisfies = true)
    (hlog : e.chain.log.commit c = .ok log) : ∃ e', e.commit c = .ok e' ∧ e'.pending = none := by
  have hnew : ¬ e.chain.log.contains c = true := by
    intro hold
    simp only [CommitLog.commit] at hlog
    rw [if_pos hold] at hlog
    cases hlog
  simp only [commit]
  rw [if_neg hnew, if_pos hopen, hlog]
  exact ⟨_, rfl, rfl⟩

lemma commitBlockHash_ok {number : Word} {hash : Hash} {log : CommitLog}
    (hopen : e.pending = some (.blockHash number))
    (hlog : e.chain.log.commitBlockHash number hash = .ok log) :
    ∃ e', e.commitBlockHash number hash = .ok e' ∧ e'.pending = none := by
  have hnew : ¬ e.chain.log.blockHashes.contains number = true := by
    intro hold
    simp only [CommitLog.commitBlockHash] at hlog
    rw [if_pos hold] at hlog
    cases hlog
  simp only [commitBlockHash]
  rw [if_neg hnew, if_pos hopen, hlog]
  exact ⟨_, rfl, rfl⟩

/-- What a world answers to a question is accepted, if the log has room for it. -/
lemma answer_ok {r : Requirement} {fullCode : Bool} {log : CommitLog} (hr : e.pending = some r)
    (hlog : e.chain.log.record (w.answer fullCode r) = .ok log) :
    ∃ e', e.answer w fullCode = .ok e' ∧ e'.pending = none := by
  have htell : e.answer w fullCode = e.tell (w.answer fullCode r) := by
    simp only [answer]
    rw [hr]
  rw [htell]
  cases ha : w.answer fullCode r with
  | account c =>
      rw [ha] at hlog
      have hopen : e.pending.any c.satisfies = true := by
        rw [hr]
        exact satisfies_answer ha
      exact commit_ok hopen hlog
  | blockHash number hash =>
      rw [ha] at hlog
      exact commitBlockHash_ok (blockHash_of_answer ha ▸ hr) hlog

end Engine

/-- **A consistent host is never refused and never asked twice.**  Whatever a run comes to in which
    every question is answered from one world: what is asked is not known yet, neither the account
    nor the code told on its own nor the slot nor the hash; every answer of the world is accepted
    and closes the question; a slot is asked for only once its account was told to exist; and no
    question was asked twice. -/
theorem consistent_host_is_never_refused {rs : Ruleset} {t : Transaction} {block : Header}
    {w : World} {e : Engine} (h : Engine.Hosted rs t block w e) :
    (∀ r, e.pending = some r → e.chain.log.Lacks r ∧
      ∀ fullCode, ∃ e', e.answer w fullCode = .ok e' ∧ e'.pending = none) ∧
    (∀ a index, e.pending = some (.storage a index) →
      ∃ nonce balance code, e.chain.log.accounts[a]? = some (.full nonce balance code)) ∧
    e.requirements.Nodup := by
  have hkept := h.grounded
  refine ⟨fun r hr => ⟨hkept.lacks r hr, fun fullCode => ?_⟩, fun a index hr => ?_,
    h.nodup_requirements.1⟩
  · obtain ⟨log, hlog, -, -, -, -⟩ := hkept.tells.record (hkept.lacks r hr) fullCode
    exact Engine.answer_ok hr hlog
  · exact (hkept.lacks _ hr).1

/-- A world with one account, which reads the one slot it has and stops. -/
def slotWorld : World :=
  { accounts := (∅ : Std.TreeMap Address WorldAccount).insert 300
      { code := ⟨#[0x60, 7, 0x54, 0x00]⟩, storage := (∅ : SlotMap).insert 7 9 } }

/-- A transaction that calls that account. -/
def slotCall : Transaction := ⟨200, 0, 100000, .call 300, 0, ByteArray.empty, 0⟩

/-- The engine after some steps and answers. -/
def slotCallAfter (fuel : ℕ) : Except Fault Engine :=
  (Engine.create .byzantium slotCall {}).run slotWorld false fuel

/-- After the caller and the account the slot is asked for, and its answer is accepted. -/
theorem slotCall_asks_for_slot : ∃ e, slotCallAfter 7 = .ok e ∧
    e.pending = some (.storage 300 7) ∧
      (∃ nonce balance code, e.chain.log.accounts[(300 : Address)]? =
        some (.full nonce balance code)) ∧
        (∃ e', e.answer slotWorld false = .ok e' ∧ e'.pending = none) ∧
          e.requirements = [.account 200, .account 300, .storage 300 7] ∧ e.requirements.Nodup := by
  have hasked : (slotCallAfter 7).toOption.map (fun e => (e.pending, e.requirements)) =
      some (some (.storage 300 7), [.account 200, .account 300, .storage 300 7]) := by
    decide +kernel
  rcases hrun : slotCallAfter 7 with fault | e
  · rw [hrun] at hasked
    cases hasked
  · rw [hrun] at hasked
    obtain ⟨hpending, hrequirements⟩ := Prod.mk.inj (Option.some.inj hasked)
    have hhosted : Engine.Hosted .byzantium slotCall {} slotWorld e := .run .create hrun
    obtain ⟨hanswers, hslot, hnodup⟩ := consistent_host_is_never_refused hhosted
    exact ⟨e, rfl, hpending, hslot 300 7 hpending, (hanswers _ hpending).2 false, hrequirements,
      hnodup⟩

end ResumableEvm
