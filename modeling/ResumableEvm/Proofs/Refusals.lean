import ResumableEvm.Proofs.FinalOutput
import ResumableEvm.Proofs.StackInvariant

/-!
# Why a datum is refused

A host that tells something can be refused for two reasons: it was told before, or it is not what
was asked for.  Telling an account with other code than the code told before counts among the
first.  The reasons are looked at in that order, but not all in one place: the engine looks for the
key, then at what is pending, and only then the log looks for a contradiction.  So a contradiction
that nobody asked for is refused for the second reason.

* `CommitLog.Taken`, `CommitLog.Contradicts` — what was told before.
* `Engine.Classified` — the verdict on a commitment, as it is meant.
* `Engine.Overlooked` — the contradictions that the engine does not see.
* `Engine.Reachable.lacks` — what is pending has not been told.
* `commits_are_classified_unless_overlooked` — the verdict of the engine.
-/

namespace ResumableEvm

/-! ## What was told before -/

namespace CommitLog

variable {log : CommitLog} {c : Commitment} {a : Address} {code : Bytes} {r : Requirement}

/-- **The key of a commitment is in the log.**  A known account includes its code. -/
def Taken (log : CommitLog) : Commitment → Prop
  | .full a _ _ _ | .nonexistent a => ∃ known, log.Holds (.account a known)
  | .code a _ => (∃ known, log.Holds (.account a known)) ∨ ∃ told, log.Holds (.code a told)
  | .storage a index _ => ∃ value, log.Holds (.slot a index value)

/-- **A commitment contradicts the log:** it tells of an account with other code than the code that
    was told on its own.  Where there is no account there is no code. -/
def Contradicts (log : CommitLog) : Commitment → Prop
  | .full a _ _ code => ∃ told, log.Holds (.code a told) ∧ told ≠ code
  | .nonexistent a => ∃ told, log.Holds (.code a told) ∧ told ≠ ByteArray.empty
  | .code _ _ | .storage _ _ _ => False

lemma contains_iff : log.contains c = true ↔ log.Taken c := by
  cases c <;> simp only [contains, Taken, Holds, Std.TreeMap.contains_eq_isSome_getElem?,
    Bool.or_eq_true, Option.isSome_iff_exists]

lemma contradicts_iff :
    log.contradicts a code = true ↔ ∃ told, log.Holds (.code a told) ∧ told ≠ code := by
  simp only [contradicts, Holds]
  cases log.codes[a]? <;> simp

/-- The log refuses a contradiction as something that was told before. -/
lemma commit_of_contradicts (htaken : ¬ log.Taken c) (h : log.Contradicts c) :
    log.commit c = .error .alreadyCommitted := by
  rw [← contains_iff] at htaken
  cases c with
  | full a nonce balance code => simp only [commit, if_neg htaken, if_pos (contradicts_iff.mpr h)]
  | nonexistent a => simp only [commit, if_neg htaken, if_pos (contradicts_iff.mpr h)]
  | code | storage => exact h.elim

/-- The log takes anything else that answers what it lacks. -/
lemma commit_of_lacks (htaken : ¬ log.Taken c) (h : ¬ log.Contradicts c) (hr : log.Lacks r)
    (hsatisfies : c.satisfies r = true) : ∃ log', log.commit c = .ok log' := by
  rw [← contains_iff] at htaken
  cases c with
  | full a nonce balance code =>
      simp only [commit, if_neg htaken, if_neg (mt contradicts_iff.mp h)]
      exact ⟨_, rfl⟩
  | nonexistent a =>
      simp only [commit, if_neg htaken, if_neg (mt contradicts_iff.mp h)]
      exact ⟨_, rfl⟩
  | code a code =>
      simp only [commit, if_neg htaken]
      exact ⟨_, rfl⟩
  | storage a index value =>
      cases r with
      | storage b j =>
          obtain ⟨rfl, rfl⟩ : a = b ∧ index = j := by
            simpa [Commitment.satisfies] using hsatisfies
          obtain ⟨nonce, balance, code, haccount⟩ := hr.1
          simp only [commit, if_neg htaken, haccount]
          exact ⟨_, rfl⟩
      | account | code | blockHash => cases hsatisfies

end CommitLog

namespace Engine

variable {rs : Ruleset} {t : Transaction} {block : Header} {e : Engine} {c : Commitment}
  {r : Requirement}

/-! ## What is pending -/

/-- **What is pending** has not been told, and a slot is asked for only of a known account. -/
lemma Reachable.lacks (h : Reachable rs t block e) (hr : e.pending = some r) :
    e.chain.log.Lacks r := by
  induction h with
  | create => cases hr
  | tell before told =>
      obtain ⟨log, -, -, hpending, -⟩ := tell_eq_ok told
      cases hpending.symm.trans hr
  | @step e e' before stepped ih =>
      rw [(step_stepped stepped).2]
      rcases step_pending stepped hr with hpending | ⟨t', -, haccept⟩ | ⟨x, x', hphase, hstep⟩
      · exact ih hpending
      · exact (t'.accept_agree (.refl _) e.chain.ruleset e.chain.block).lacks
          (congrArg Asking.asked? haccept)
      · exact Execution.step_lacks
          (fun hunsettled => before.grounded hphase hunsettled _ List.mem_cons_self) hstep

/-! ## The verdict -/

/-- What the engine says to a commitment. -/
def verdict (e : Engine) (c : Commitment) : Except CommitError Unit :=
  (e.commit c).map fun _ => ()

/-- A commitment that answers what is pending. -/
def Asked (e : Engine) (c : Commitment) : Prop :=
  ∃ r, e.pending = some r ∧ c.satisfies r = true

/-- **The verdict as it is meant.**  What was told before or contradicts it is refused as such,
    whatever is pending; anything else is refused unless it answers what is pending, and otherwise
    accepted. -/
inductive Classified (e : Engine) (c : Commitment) : Except CommitError Unit → Prop
  | told (before : e.chain.log.Taken c ∨ e.chain.log.Contradicts c) :
      Classified e c (.error .alreadyCommitted)
  | unasked (new : ¬ (e.chain.log.Taken c ∨ e.chain.log.Contradicts c)) (unasked : ¬ e.Asked c) :
      Classified e c (.error .invalidCommitment)
  | accepted (new : ¬ (e.chain.log.Taken c ∨ e.chain.log.Contradicts c)) (asked : e.Asked c) :
      Classified e c (.ok ())

/-- **What the engine does not see:** a contradiction under a key that is free, which does not
    answer what is pending. -/
structure Overlooked (e : Engine) (c : Commitment) : Prop where
  free : ¬ e.chain.log.Taken c
  contradicts : e.chain.log.Contradicts c
  unasked : ¬ e.Asked c

lemma asked_iff : e.Asked c ↔ e.pending.any c.satisfies = true := by
  simp [Asked, Option.any_eq_true]

lemma verdict_of_taken (h : e.chain.log.Taken c) : e.verdict c = .error .alreadyCommitted := by
  simp only [verdict, commit, if_pos (CommitLog.contains_iff.mpr h)]
  rfl

lemma verdict_of_unasked (hfree : ¬ e.chain.log.Taken c) (h : ¬ e.Asked c) :
    e.verdict c = .error .invalidCommitment := by
  rw [← CommitLog.contains_iff] at hfree
  rw [asked_iff] at h
  simp only [verdict, commit, if_neg hfree, if_neg h]
  rfl

/-- What answers the question is left to the log. -/
lemma verdict_of_asked (hfree : ¬ e.chain.log.Taken c) (h : e.Asked c) :
    e.verdict c = (e.chain.log.commit c).map fun _ => () := by
  rw [← CommitLog.contains_iff] at hfree
  rw [asked_iff] at h
  simp only [verdict, commit, if_neg hfree, if_pos h]
  cases e.chain.log.commit c <;> rfl

/-- The verdict is as it is meant, as long as nothing is overlooked. -/
lemma Reachable.classified (h : Reachable rs t block e) (hseen : ¬ e.Overlooked c) :
    Classified e c (e.verdict c) := by
  by_cases htaken : e.chain.log.Taken c
  · rw [verdict_of_taken htaken]
    exact .told (.inl htaken)
  by_cases hasked : e.Asked c
  · rw [verdict_of_asked htaken hasked]
    by_cases hcontradicts : e.chain.log.Contradicts c
    · rw [CommitLog.commit_of_contradicts htaken hcontradicts]
      exact .told (.inr hcontradicts)
    · obtain ⟨r, hpending, hsatisfies⟩ := id hasked
      obtain ⟨log, hlog⟩ := CommitLog.commit_of_lacks htaken hcontradicts (h.lacks hpending)
        hsatisfies
      rw [hlog]
      exact .accepted (not_or.mpr ⟨htaken, hcontradicts⟩) hasked
  · rw [verdict_of_unasked htaken hasked]
    exact .unasked (not_or.mpr ⟨htaken, fun hcontradicts =>
      hseen ⟨htaken, hcontradicts, hasked⟩⟩) hasked

/-- What is overlooked is refused for the other reason. -/
lemma Overlooked.verdict (h : e.Overlooked c) : e.verdict c = .error .invalidCommitment :=
  verdict_of_unasked h.free h.unasked

lemma Overlooked.misclassified (h : e.Overlooked c) : ¬ Classified e c (e.verdict c) := by
  rw [h.verdict]
  intro hclassified
  cases hclassified with
  | unasked new unasked => exact new (.inr h.contradicts)

end Engine

/-- **Commitments are classified unless something is overlooked.**  Whatever a host has called, in
    whatever order, the engine says of any commitment what it is meant to say, exactly where no
    contradiction escapes it.  One that does is refused as if it had not been told before. -/
theorem commits_are_classified_unless_overlooked {rs : Ruleset} {t : Transaction} {block : Header}
    {calls : List HostCall} {e : Engine}
    (h : (Engine.create rs t block).serveAll calls = .ok e) (c : Commitment) :
    (Engine.Classified e c (e.verdict c) ↔ ¬ e.Overlooked c) ∧
      (e.Overlooked c → e.verdict c = .error .invalidCommitment) :=
  ⟨⟨fun hclassified hoverlooked => hoverlooked.misclassified hclassified,
      (Engine.Reachable.create.serveAll h).classified⟩, Engine.Overlooked.verdict⟩

/-- Account 77, with other code than the one that was told. -/
def contradictoryAccount : Commitment := .full 77 0 0 ⟨#[2]⟩

lemma contradicts_of_told {log : CommitLog} (h : log.codes[(77 : Address)]? = some ⟨#[1]⟩) :
    log.Contradicts contradictoryAccount :=
  ⟨⟨#[1]⟩, h, by decide⟩

/-- Where the account is asked for, the contradiction is seen. -/
theorem asked_contradiction_is_told_before : ∃ e, curiousEngine = .ok e ∧
    e.verdict contradictoryAccount = .error .alreadyCommitted := by
  have hview : (curiousEngine.map fun e => (e.pending, e.chain.log.codes[(77 : Address)]?)).toOption
      = some (some (.account 77), some ⟨#[1]⟩) := by decide +kernel
  rcases hrun : curiousEngine with fault | e
  · rw [hrun] at hview
    cases hview
  · simp only [hrun, Except.map, Except.toOption, Option.some.injEq, Prod.mk.injEq] at hview
    obtain ⟨hpending, hcode⟩ := hview
    have hasked : e.Asked contradictoryAccount := ⟨_, hpending, rfl⟩
    have hclassified := (commits_are_classified_unless_overlooked hrun contradictoryAccount).1.mpr
      fun hoverlooked => hoverlooked.unasked hasked
    refine ⟨e, rfl, ?_⟩
    generalize e.verdict contradictoryAccount = verdict at hclassified
    cases hclassified with
    | told before => rfl
    | unasked new | accepted new => exact absurd (.inr (contradicts_of_told hcode)) new

/-- The engine when it was told the code at account 77 and has not gone on. -/
def quietEngine : Except Fault Engine :=
  (Engine.create .byzantium curiousCall {}).serveAll
    [.fire 9, .tell (.account (.nonexistent 200)), .fire 9,
      .tell (.account (.full 300 0 0 curiousCode)), .fire 9, .tell (.account (.code 77 ⟨#[1]⟩))]

/-- Where nothing is asked for, it is not. -/
theorem unasked_contradiction_escapes : ∃ e, quietEngine = .ok e ∧
    ¬ e.chain.log.Taken contradictoryAccount ∧ e.chain.log.Contradicts contradictoryAccount ∧
      e.verdict contradictoryAccount = .error .invalidCommitment ∧
        ¬ Engine.Classified e contradictoryAccount (e.verdict contradictoryAccount) := by
  have hview : (quietEngine.map fun e => (e.pending, e.chain.log.accounts[(77 : Address)]?,
      e.chain.log.codes[(77 : Address)]?)).toOption = some (none, none, some ⟨#[1]⟩) := by
    decide +kernel
  rcases hrun : quietEngine with fault | e
  · rw [hrun] at hview
    cases hview
  · simp only [hrun, Except.map, Except.toOption, Option.some.injEq, Prod.mk.injEq] at hview
    obtain ⟨hpending, haccount, hcode⟩ := hview
    have hfree : ¬ e.chain.log.Taken contradictoryAccount := by
      rintro ⟨known, hknown⟩
      cases haccount.symm.trans hknown
    have hunasked : ¬ e.Asked contradictoryAccount := by
      rintro ⟨r, hr, -⟩
      cases hpending.symm.trans hr
    have hoverlooked : e.Overlooked contradictoryAccount :=
      ⟨hfree, contradicts_of_told hcode, hunasked⟩
    exact ⟨e, rfl, hfree, hoverlooked.contradicts, hoverlooked.verdict, hoverlooked.misclassified⟩

end ResumableEvm
