import ResumableEvm.Engine
import ResumableEvm.Proofs.KnownAccount

/-!
# Runs of the engine

The engine comes to what its steps and the answers of its host lead to.  A run with a world for a
host is nothing else, so what every step and every answer keeps, the run keeps.

* `Engine.tell_told` — what an answer does that is accepted.
* `Engine.Reachable` — what the engine comes to.
* `Engine.run_keeps` — what a run keeps.
* `recreating_run` — what a run comes to whose caller is created anew in the midst of it.
-/

namespace ResumableEvm

/-- The execution that a phase consists of. -/
def Phase.execution? : Phase → Option Execution
  | .executing x => some x
  | _ => none

lemma Phase.execution?_eq_some {phase : Phase} {x : Execution} :
    phase.execution? = some x ↔ phase = .executing x := by
  cases phase <;> simp [execution?]

/-- What has happened once an answer is accepted. -/
def Answer.event : Answer → Event
  | .account c => .commit c
  | .blockHash number hash => .commitBlockHash number hash

namespace Engine

variable {rs : Ruleset} {t : Transaction} {block : Header} {w : World} {fullCode : Bool} {fuel : ℕ}
  {e e' : Engine}

/-- **What an answer does** that is accepted: it is recorded, nothing is pending any more, and all
    else is as it was. -/
lemma tell_told {answer : Answer} (h : e.tell answer = .ok e') :
    ∃ log, e.chain.log.record answer = .ok log ∧
      e' = { e with
        chain := { e.chain with log := log }, pending := none
        events := answer.event :: e.events } := by
  cases answer with
  | account c =>
      change e.commit c = .ok e' at h
      simp only [commit] at h
      split at h
      · cases h
      · split at h
        · obtain ⟨log, hlog, h⟩ := bind_eq_ok.mp h
          cases h
          exact ⟨log, hlog, rfl⟩
        · cases h
  | blockHash number hash =>
      change e.commitBlockHash number hash = .ok e' at h
      simp only [commitBlockHash] at h
      split at h
      · cases h
      · split at h
        · obtain ⟨log, hlog, h⟩ := bind_eq_ok.mp h
          cases h
          exact ⟨log, hlog, rfl⟩
        · cases h

/-- An interrupt that has a next state is a question, and the engine stops for it. -/
lemma interrupt_eq_ok {i : Interrupt} (h : e.interrupt i = .ok e') :
    ∃ r, i = .requires r ∧ e' = { e with pending := some r, events := .require r :: e.events } := by
  cases i <;> cases h
  exact ⟨_, rfl, rfl⟩

/-- An interrupt that has none is a fault. -/
lemma interrupt_eq_error {i : Interrupt} {fault : Fault} (h : e.interrupt i = .error fault) :
    i = .fault fault := by
  cases i <;> cases h
  rfl

/-- **What the engine comes to** by steps and answers, whatever the answers are. -/
inductive Reachable (rs : Ruleset) (t : Transaction) (block : Header) : Engine → Prop where
  | create : Reachable rs t block (.create rs t block)
  | step {e e' : Engine} (before : Reachable rs t block e) (stepped : e.step = .ok e') :
      Reachable rs t block e'
  | tell {e e' : Engine} {answer : Answer} (before : Reachable rs t block e)
      (told : e.tell answer = .ok e') : Reachable rs t block e'

/-- What a world answers is an answer. -/
lemma Reachable.answer (h : Reachable rs t block e) (ha : e.answer w fullCode = .ok e') :
    Reachable rs t block e' := by
  simp only [Engine.answer] at ha
  split at ha
  · cases ha
    exact h
  · exact h.tell ha

/-- **What a run keeps** that a world answers: all that its steps and its answers keep. -/
lemma run_keeps {Q : Engine → Prop} (hstep : ∀ {e e' : Engine}, Q e → e.step = .ok e' → Q e')
    (hanswer : ∀ {e e' : Engine}, Q e → e.answer w fullCode = .ok e' → Q e') (h : Q e)
    (hrun : e.run w fullCode fuel = .ok e') : Q e' := by
  induction fuel generalizing e with
  | zero =>
      cases hrun
      exact h
  | succ fuel ih =>
      simp only [run] at hrun
      split at hrun
      · cases hrun
        exact h
      · split at hrun
        · split at hrun <;> rename_i hanswered
          · exact ih (hanswer h hanswered) hrun
          · cases hrun
            exact h
        · split at hrun <;> rename_i hstepped
          · exact ih (hstep h hstepped) hrun
          · cases hrun

/-- A host that answers from a world only leads to what is reachable. -/
lemma Reachable.run (h : Reachable rs t block e) (hrun : e.run w fullCode fuel = .ok e') :
    Reachable rs t block e' :=
  run_keeps .step .answer h hrun

end Engine

/-! ## A caller that is created anew -/

/-- Rules where accounts begin with nonce one, are created with nonce zero, and code is to be of one
    byte, but is not forced to. -/
def recreatingRuleset : Ruleset :=
  { Ruleset.byzantium with
    rules :=
      { Rules.byzantium with
        codeDepositLimit := 1, forceCodeDeposit := false, accounts := ⟨1, 0, true, false⟩ } }

/-- The caller of a transaction, which the next account that is created by another would replace.
    That one does so for a code that creates an account in turn, with code of one byte. -/
def recreatingWorld : World :=
  { accounts := ((∅ : Std.TreeMap Address WorldAccount).insert
      0x808bfcbb847438a8704eeb2ae6830b988c4518c9 {}).insert 0xbb
        { nonce := 5
          code := ⟨#[0x70, 0x64, 0x60, 0x01, 0x60, 0, 0xf3, 0x60, 0, 0x52, 0x60, 0x05, 0x60, 0x1b,
            0x60, 0, 0xf0, 0, 0x60, 0, 0x52, 0x60, 0x11, 0x60, 0x0f, 0x60, 0, 0xf0, 0]⟩ } }

/-- A creation that raises its own nonce, calls the other account, and puts out two bytes. -/
def recreatingTransaction : Transaction :=
  ⟨0x808bfcbb847438a8704eeb2ae6830b988c4518c9, 0, 500000, .create, 0,
    ⟨#[0x60, 0, 0x60, 0, 0x60, 0, 0xf0, 0x50, 0x60, 0, 0x60, 0, 0x60, 0, 0x60, 0, 0x60, 0, 0x60,
      0xbb, 0x5a, 0xf1, 0x50, 0x60, 2, 0x60, 0, 0xf3]⟩, 0⟩

/-- The creation of the transaction ends well, with an output over the limit, and is left to deposit
    it.  Three steps later the transaction is settled, and there is code of one byte. -/
lemma recreating_run : ∃ e x e' x' code,
    (Engine.create recreatingRuleset recreatingTransaction {}).run recreatingWorld false 54 =
        .ok e ∧ e.phase = .executing x ∧
      (x.settled = false ∧ x.calls.isExited = true ∧ x.depositPending = true ∧
        x.calls.root.status = .exitedOk ∧
          Frame.overLimit recreatingRuleset x.calls.root.out = true) ∧
      e.run recreatingWorld false 3 = .ok e' ∧ e'.settled? = some x' ∧
        x'.calls.root.overlay.code x.calls.root.context.address e'.chain.log = .ok code ∧
          code.data = #[0] := by
  have hend : ((Engine.create recreatingRuleset recreatingTransaction {}).run recreatingWorld false
        54).toOption.bind (fun e => e.phase.execution?.bind fun x =>
      (e.run recreatingWorld false 3).toOption.bind fun e' => e'.settled?.bind fun x' =>
        (x'.calls.root.overlay.code x.calls.root.context.address e'.chain.log).toOption.map
          fun code => (decide (x.settled = false ∧ x.calls.isExited = true ∧
            x.depositPending = true ∧ x.calls.root.status = .exitedOk ∧
              Frame.overLimit recreatingRuleset x.calls.root.out = true), code.data)) =
        some (true, #[0]) := by decide +kernel
  simp only [Option.bind_eq_some_iff, Option.map_eq_some_iff, toOption_eq_some, Prod.mk.injEq,
    decide_eq_true_eq, Phase.execution?_eq_some] at hend
  obtain ⟨e, hrun, x, hx, e', hlater, x', hx', code, hread, hfacts, hcode⟩ := hend
  exact ⟨e, x, e', x', code, hrun, hx, hfacts, hlater, hx', hread, hcode⟩

end ResumableEvm
