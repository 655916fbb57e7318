import ResumableEvm.Proofs.Announcements
import ResumableEvm.Proofs.FinalOutput

/-!
# Traces

What a listener is told of a run is well bracketed: frames are closed in the reverse of the order
in which they were announced, each telling how many were open, and none is left open at the end.
Questions and answers alternate; and a step that has to wait for an answer has told nothing else,
so that nothing is told again when it is taken again.

* `bracket`, `unclosed` — the frames that a trace leaves open.
* `inquire`, `unanswered` — the question that a trace leaves open.
* `Engine.Recorded` — a trace that says which frames and which question are open.
* `traces_are_well_bracketed` — every trace does.
-/

namespace ResumableEvm

/-! ## Brackets -/

/-- **One event of a bracketed trace.**  A frame that is announced is opened.  One that has ended
    closes the frame that was opened last, and tells how many were open. -/
def bracket (opened : List Event) (event : Event) : Option (List Event) :=
  match event, opened with
  | .exit _ _, [] => none
  | .exit depth _, _ :: below => if depth = opened.length then some below else none
  | event, opened => some (if event.opens then event :: opened else opened)

/-- **The frames that a trace leaves open,** the last opened first; or nothing, if it closes one out
    of turn. -/
def unclosed (trace : List Event) : Option (List Event) := trace.foldlM bracket []

lemma bracket_of_ne_exit {event : Event} (h : ∀ depth reason, event ≠ .exit depth reason)
    (opened : List Event) :
    bracket opened event = some (if event.opens then event :: opened else opened) := by
  simp only [bracket]
  split
  · exact absurd rfl (h _ _)
  · exact absurd rfl (h _ _)
  · rfl

/-- What a step tells closes and opens frames in turn. -/
lemma Tallies.bracket {event : Option Event} {n n' : ℕ} (h : Tallies event n n')
    {opened : List Event} (hopened : opened.length = n) :
    ∃ opened', event.toList.foldlM ResumableEvm.bracket opened = some opened' ∧
      opened'.length = n' := by
  cases h with
  | closes n reason =>
      obtain ⟨latest, below, rfl⟩ := List.exists_cons_of_length_eq_add_one hopened
      refine ⟨below, ?_, Nat.succ.inj hopened⟩
      simp [ResumableEvm.bracket, hopened]
  | @keeps event n own =>
      cases event with
      | none => exact ⟨opened, rfl, hopened⟩
      | some event =>
          have hexit : ∀ depth reason, event ≠ .exit depth reason := by
            rintro depth reason rfl
            cases own _ rfl
          refine ⟨if event.opens then event :: opened else opened, ?_, ?_⟩
          · simp [bracket_of_ne_exit hexit]
          · simp only [Option.any_some]
            split <;> simp [hopened]

/-! ## Questions -/

/-- The answer that an event tells of, if it does. -/
def Event.answer? : Event → Option Answer
  | .commit c => some (.account c)
  | .commitBlockHash number hash => some (.blockHash number hash)
  | _ => none

/-- **One event of a dialogue.**  Only an answer follows a question, and it answers it; and no other
    event is an answer. -/
def inquire : Option Requirement → Event → Option (Option Requirement)
  | none, event => if event.answer?.isSome then none else some event.question?
  | some r, event => if event.answer?.any (·.satisfies r) then some none else none

/-- **The question that a trace leaves open,** if any; or nothing, if it is no dialogue. -/
def unanswered (trace : List Event) : Option (Option Requirement) := trace.foldlM inquire none

/-- What a step tells is neither a question nor an answer. -/
lemma Tallies.inquire {event : Option Event} {n n' : ℕ} (h : Tallies event n n') :
    event.toList.foldlM ResumableEvm.inquire none = some none := by
  have hown : ∀ told ∈ event, told.answer? = none ∧ told.question? = none := by
    rintro told hmem
    cases h with
    | closes =>
        cases hmem
        exact ⟨rfl, rfl⟩
    | keeps n own =>
        have := own told hmem
        cases told <;> first | exact ⟨rfl, rfl⟩ | cases this
  cases event with
  | none => rfl
  | some told =>
      obtain ⟨hanswer, hquestion⟩ := hown told rfl
      simp [ResumableEvm.inquire, hanswer, hquestion]

/-- **In a dialogue every question is answered next,** unless it comes last, and it is answered
    once. -/
lemma answered_next {before after : List Event} {r : Requirement} {open? : Option Requirement}
    (h : unanswered (before ++ .require r :: after) = some open?) :
    (after = [] ∧ open? = some r) ∨
      ∃ event rest answer, after = event :: rest ∧ event.answer? = some answer ∧
        answer.satisfies r = true ∧ ∀ next ∈ rest.head?, next.answer? = none := by
  simp only [unanswered, List.foldlM_append, Option.bind_eq_bind, Option.bind_eq_some_iff] at h
  obtain ⟨earlier, -, h⟩ := h
  obtain ⟨asked, hasked, h⟩ := Option.bind_eq_some_iff.mp h
  -- a question is no answer, so none was open
  obtain rfl : asked = some r := by
    cases earlier <;> cases hasked
    rfl
  cases after with
  | nil =>
      cases h
      exact .inl ⟨rfl, rfl⟩
  | cons event rest =>
      obtain ⟨closed, hclosed, h⟩ := Option.bind_eq_some_iff.mp h
      simp only [inquire] at hclosed
      split at hclosed
      · cases hclosed
        obtain ⟨answer, hanswer, hsatisfies⟩ := (Option.any_eq_true _ _).mp ‹_›
        refine .inr ⟨event, rest, answer, rfl, hanswer, hsatisfies, fun next hnext => ?_⟩
        obtain ⟨later, rfl⟩ := List.head?_eq_some_iff.mp hnext
        obtain ⟨_, hlater, -⟩ := Option.bind_eq_some_iff.mp h
        simp only [inquire] at hlater
        split at hlater
        · cases hlater
        · exact Option.not_isSome_iff_eq_none.mp ‹_›
      · cases hclosed

/-! ## The engine -/

namespace Engine

variable {rs : Ruleset} {t : Transaction} {block : Header} {e e' : Engine}

/-- What a listener has been told, the first first. -/
def trace (e : Engine) : List Event := e.events.reverse

/-- **What a step has told** by the time it ends or stops, other than that it stops. -/
def told (e : Engine) : Option Event :=
  match e.pending, e.phase with
  | none, .executing x => x.told e.chain
  | _, _ => none

/-- The frames that are open. -/
def openFrames (e : Engine) : ℕ :=
  match e.phase with
  | .executing x => x.calls.openFrames
  | _ => 0

/-- **A step tells what it does, or else asks,** and then it has told nothing. -/
lemma step_tells (hpending : e.pending = none) (h : e.step = .ok e') :
    (∃ r, e'.pending = some r ∧ e.told = none ∧ e'.trace = e.trace ++ [.require r] ∧
      e'.openFrames = e.openFrames) ∨
    (e'.pending = none ∧ e'.trace = e.trace ++ e.told.toList ∧
      Tallies e.told e.openFrames e'.openFrames) := by
  simp only [step, hpending] at h
  split at h
  · cases ‹none = some _›
  · rename_i hphase
    cases h
    refine .inr ⟨‹_›, ?_, ?_⟩
    · simp [told, hpending, hphase]
    · simp only [told, hpending, hphase, openFrames]
      exact .rests _
  · rename_i t _ hphase
    have htold : e.told = none := by
      simp only [told, hpending, hphase]
    have hopen : e.openFrames = 0 := by
      simp only [openFrames, hphase]
    split at h
    · rename_i x haccept
      cases h
      refine .inr ⟨rfl, by simp [htold, trace], ?_⟩
      rw [htold, hopen]
      simp only [openFrames, Execution.openFrames_of_accept haccept]
      exact .rests _
    · cases h
      refine .inr ⟨rfl, by simp [htold, trace], ?_⟩
      rw [htold, hopen]
      exact .rests _
    · obtain ⟨r, -, rfl⟩ := interrupt_eq_ok h
      exact .inl ⟨r, rfl, htold, by simp [trace], rfl⟩
  · rename_i x _ hphase
    have htold : e.told = x.told e.chain := by
      simp only [told, hpending, hphase]
    have hopen : e.openFrames = x.calls.openFrames := by
      simp only [openFrames, hphase]
    rw [htold, hopen]
    split at h <;> rename_i hstep
    · rename_i x' event
      cases h
      have hevent := Execution.step_told hstep
      refine .inr ⟨rfl, ?_, ?_⟩
      · rw [hevent]
        cases event <;> simp [trace]
      · rw [hevent]
        exact Execution.step_tallies hstep
    · obtain ⟨r, rfl, rfl⟩ := interrupt_eq_ok h
      refine .inl ⟨r, rfl, Execution.told_of_requires hstep, by simp [trace], ?_⟩
      exact Execution.openFrames_of_requires hstep

/-- A listener is told of every answer. -/
lemma tell_trace {answer : Answer} (h : e.tell answer = .ok e') :
    ∃ event, event.answer? = some answer ∧ e'.trace = e.trace ++ [event] ∧
      ∀ opened, bracket opened event = some opened := by
  obtain ⟨log, -, rfl⟩ := tell_told h
  refine ⟨answer.event, ?_, by simp [trace], fun opened => ?_⟩ <;> cases answer <;> rfl

/-- **A trace that says what is open:** as many frames as the engine has to come back to, and the
    question that it waits for. -/
structure Recorded (e : Engine) : Prop where
  frames : ∃ opened, unclosed e.trace = some opened ∧ opened.length = e.openFrames
  question : unanswered e.trace = some e.pending

/-- What is told after a trace goes on where the trace has ended. -/
lemma Recorded.append (hr : e.Recorded) {events : List Event}
    (htrace : e'.trace = e.trace ++ events)
    (hframes : ∀ opened, opened.length = e.openFrames →
      ∃ opened', events.foldlM bracket opened = some opened' ∧ opened'.length = e'.openFrames)
    (hquestion : events.foldlM inquire e.pending = some e'.pending) : e'.Recorded := by
  obtain ⟨opened, hopened, hlen⟩ := hr.frames
  obtain ⟨opened', hopened', hlen'⟩ := hframes opened hlen
  refine ⟨⟨opened', ?_, hlen'⟩, ?_⟩
  · simp only [unclosed, htrace, List.foldlM_append] at hopened ⊢
    rw [hopened]
    exact hopened'
  · have hold := hr.question
    simp only [unanswered, htrace, List.foldlM_append] at hold ⊢
    rw [hold]
    exact hquestion

/-- **Whatever a host calls,** the trace says what is open. -/
lemma Reachable.recorded (h : Reachable rs t block e) : e.Recorded := by
  induction h with
  | create => exact ⟨⟨[], rfl, rfl⟩, rfl⟩
  | @step e e' before stepped ih =>
      cases hpending : e.pending with
      | some r =>
          simp only [Engine.step, hpending] at stepped
          cases stepped
          exact ih
      | none =>
          rcases step_tells hpending stepped with
            ⟨r, hasks, -, htrace, hopen⟩ | ⟨hnone, htrace, htallies⟩
          · refine ih.append htrace (fun opened hlen => ⟨opened, ?_, hlen.trans hopen.symm⟩) ?_
            · simp [bracket, Event.opens]
            · simp [inquire, hpending, hasks, Event.answer?, Event.question?]
          · refine ih.append htrace (fun opened hlen => htallies.bracket hlen) ?_
            rw [hpending, hnone]
            exact htallies.inquire
  | @tell e e' answer before told ih =>
      obtain ⟨event, hanswer, htrace, hkeeps⟩ := tell_trace told
      obtain ⟨r, hpending, hsatisfies⟩ := tell_satisfies told
      obtain ⟨log, -, -, hnone, hphase, -⟩ := tell_eq_ok told
      have hopen : e'.openFrames = e.openFrames := by
        simp only [openFrames, hphase]
      refine ih.append htrace (fun opened hlen => ⟨opened, ?_, hlen.trans hopen.symm⟩) ?_
      · simp [hkeeps]
      · simp [inquire, hpending, hnone, hanswer, hsatisfies]

/-- An engine that has ended has closed every frame. -/
lemma Reachable.openFrames_eq_zero (h : Reachable rs t block e) (hended : e.status ≠ .running) :
    e.openFrames = 0 := by
  simp only [openFrames]
  cases hphase : e.phase with
  | validating | rejected => rfl
  | executing x =>
      have hsettled : x.settled = true := by
        simp only [status, hphase] at hended
        by_contra hunsettled
        exact hended (if_neg hunsettled)
      exact CallStack.openFrames_of_exited ((h.orderly hphase).ended hsettled)

end Engine

/-- **Traces are well bracketed.**  Whatever a host calls, in whatever order, the trace closes in
    turn what it has opened, and leaves nothing open once the engine has ended.  Every question is
    the last event, and pending, or an answer to it comes next, and no further one.  A step does
    nothing while a question is pending.  Otherwise it tells what it does and goes on; or it asks,
    and then it has told nothing before it asked. -/
theorem traces_are_well_bracketed {rs : Ruleset} {t : Transaction} {block : Header}
    {calls : List HostCall} {e : Engine}
    (h : (Engine.create rs t block).serveAll calls = .ok e) :
    (∃ opened, unclosed e.trace = some opened ∧ (e.status ≠ .running → opened = [])) ∧
    (∀ before after r, e.trace = before ++ .require r :: after →
      (after = [] ∧ e.pending = some r) ∨
        ∃ event rest answer, after = event :: rest ∧ event.answer? = some answer ∧
          answer.satisfies r = true ∧ ∀ next ∈ rest.head?, next.answer? = none) ∧
    (∀ e', e.step = .ok e' →
      (e.pending ≠ none → e' = e) ∧
      (e.pending = none →
        (∃ r, e'.pending = some r ∧ e.told = none ∧ e'.trace = e.trace ++ [.require r]) ∨
        (e'.pending = none ∧ e'.trace = e.trace ++ e.told.toList))) := by
  have hreachable : Engine.Reachable rs t block e := Engine.Reachable.create.serveAll h
  obtain ⟨⟨opened, hopened, hlen⟩, hquestion⟩ := hreachable.recorded
  refine ⟨⟨opened, hopened, fun hended => ?_⟩, fun before after r htrace => ?_,
    fun e' hstep => ⟨fun hpending => ?_, fun hpending => ?_⟩⟩
  · exact List.length_eq_zero_iff.mp (hlen.trans (hreachable.openFrames_eq_zero hended))
  · rw [htrace] at hquestion
    exact answered_next hquestion
  · obtain ⟨r, hr⟩ := Option.ne_none_iff_exists'.mp hpending
    simp only [Engine.step, hr] at hstep
    cases hstep
    rfl
  · rcases Engine.step_tells hpending hstep with ⟨r, hasks, htold, htrace, -⟩ | ⟨hnone, htrace, -⟩
    · exact .inl ⟨r, hasks, htold, htrace⟩
    · exact .inr ⟨hnone, htrace⟩

/-- A transaction whose code calls account 301. -/
def outerCall : Transaction := ⟨200, 0, 100000, .call 300, 0, ByteArray.empty, 0⟩

/-- The code that does. -/
def outerCode : Bytes :=
  ⟨#[0x60, 0, 0x60, 0, 0x60, 0, 0x60, 0, 0x60, 0, 0x61, 1, 45, 0x60, 255, 0xf1, 0]⟩

/-- The calls of a host that knows the caller and the code, and nothing of account 301. -/
def outerCalls : List HostCall :=
  [.fire 9, .tell (.account (.full 200 0 1000000 ByteArray.empty)), .fire 9,
    .tell (.account (.full 300 0 0 outerCode)), .fire 99, .tell (.account (.nonexistent 301)),
    .fire 9]

/-- The call is announced after the last answer, and closed before the end. -/
theorem outerCalls_end : ∃ e, (Engine.create .byzantium outerCall {}).serveAll outerCalls = .ok e ∧
    (unclosed (e.trace.take 7)).map List.length = some 1 ∧ unclosed e.trace = some [] ∧
      e.step = .ok e := by
  have hend : ((Engine.create .byzantium outerCall {}).serveAll outerCalls).toOption.map
      (fun e => (e.status, (unclosed (e.trace.take 7)).map List.length)) =
        some (.exitedOk, some 1) := by
    decide +kernel
  rcases hrun : (Engine.create .byzantium outerCall {}).serveAll outerCalls with fault | e
  · rw [hrun] at hend
    cases hend
  · rw [hrun] at hend
    obtain ⟨hstatus, hmiddle⟩ := Prod.mk.inj (Option.some.inj hend)
    have hended : e.status ≠ .running := by
      rw [hstatus]
      exact nofun
    obtain ⟨opened, hopened, hclosed⟩ := (traces_are_well_bracketed hrun).1
    rw [hclosed hended] at hopened
    exact ⟨e, rfl, hmiddle, hopened, ((Engine.Reachable.create.serveAll hrun).final hended).steps⟩

end ResumableEvm
