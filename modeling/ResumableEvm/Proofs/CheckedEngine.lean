import ResumableEvm.Proofs.CheckedCallStack
import ResumableEvm.Proofs.FinalOutput
import ResumableEvm.Proofs.StackInvariant

/-!
# The only failure of an engine

An engine that does everything with operations that may have no result: it goes the same way as
the one that cannot fail, until that one stops with a fault.  So whatever a host calls, no sum,
difference, index or region is out of bounds, but for one sum: the nonce of a caller or of a
creator, raised by one when it is the largest.

* `Transaction.checkedAccept_eq`, `Execution.checkedStep_eq` — accepting and executing.
* `Engine.Bounded`, `Engine.Reachable.bounded` — what frames return is always within bounds, and
  so is how deep they are nested.
* `Engine.Reachable.checkedServeAll_eq` — whatever a host calls fails only by a fault.
* `Engine.Reachable.serveAll_fault` — and a fault is one of a step.
* `only_nonces_overflow` — the one failure.
-/

namespace ResumableEvm

/-! ## Accepting -/

section Onward

variable {α β : Type}

/-- Goes on with a datum that is known. -/
def onwardReading (r : Except Panic (Except Requirement α))
    (k : α → Except Panic (Except Interrupt β)) : Except Panic (Except Interrupt β) :=
  onward (r.map Interrupt.ofRead) k

lemma onwardReading_eq {r : Except Requirement α} {k : α → Except Panic (Except Interrupt β)}
    {k' : α → Except Interrupt β} (h : ∀ a, k a = surface (k' a)) :
    onwardReading (.ok r) k = surface ((liftM r : Except Interrupt α) >>= k') := by
  cases r with
  | ok a => exact h a
  | error e => rfl

lemma onward_nonce {nonce : Word} {k : Word → Except Panic (Except Interrupt β)}
    {k' : Word → Except Interrupt β} (h : ∀ raised, k raised = surface (k' raised)) :
    (nonce.checkedAdd 1 >>= k) = surface (nextNonce nonce >>= k') := by
  rcases nextNonce_cases nonce with ⟨hsum, hnext⟩ | ⟨raised, hsum, hnext⟩ <;> rw [hsum, hnext]
  · rfl
  · exact h raised

end Onward

namespace Transaction

variable (t : Transaction) (chain : ChainView)

def checkedBeginRoot (root : Frame) : Except Panic (Frame × Except Requirement Unit) :=
  match t.action with
  | .call _ => root.checkedBeginCall chain
  | .create => root.checkedBeginCreate chain

def checkedAccept : Except Panic (Except Interrupt (Except Rejection Execution)) :=
  let log := chain.log
  let s := Overlay.empty chain.rules.accounts
  onwardReading (.ok (s.require t.caller log)) fun _ =>
  onwardReading (.ok (s.nonce t.caller log)) fun nonce =>
  onwardReading (.ok (s.balance t.caller log)) fun balance =>
  match t.rejection? chain.rules nonce balance with
  | some reason => .ok (.ok (.error reason))
  | none =>
    onwardReading (.ok (s.require t.address log)) fun _ =>
    onwardReading (.ok (t.rootCode s log)) fun code => do
    let raised ← nonce.checkedAdd 1
    onwardReading (.ok (s.setNonce t.caller raised log)) fun fresh =>
    onwardReading (fresh.checkedDecreaseBalance t.caller t.preclaimed log) fun paid => do
    let root ← Frame.checkedCreate (t.rootContext chain.rules code) 0 paid chain.rules
    match ← t.checkedBeginRoot chain root with
    | (root, .ok ()) =>
      return .ok (.ok
        { calls := .ofRoot root, transaction := t, intrinsicGas := t.intrinsicGas chain.rules,
          depositPending := t.action = .create, fresh := fresh, settled := false })
    | (_, .error r) => return .error (.requires r)

@[simp] lemma checkedBeginRoot_eq (root : Frame) :
    t.checkedBeginRoot chain root = .ok (t.beginRoot root chain) := by
  simp only [checkedBeginRoot, beginRoot, Frame.checkedBeginCall_eq, Frame.checkedBeginCreate_eq]
  cases t.action <;> rfl

/-- **Acceptance** fails only by a fault. -/
lemma checkedAccept_eq : t.checkedAccept chain = surface (t.accept chain) := by
  simp only [checkedAccept, accept, Overlay.checkedDecreaseBalance_eq, Frame.checkedCreate_eq,
    checkedBeginRoot_eq, ok_bind]
  refine onwardReading_eq fun _ => onwardReading_eq fun nonce => onwardReading_eq fun balance => ?_
  cases t.rejection? chain.rules nonce balance with
  | some reason => rfl
  | none =>
      refine onwardReading_eq fun _ => onwardReading_eq fun code => onward_nonce fun raised => ?_
      refine onwardReading_eq fun fresh => onwardReading_eq fun paid => ?_
      rcases t.beginRoot _ chain with ⟨root, r | ⟨⟩⟩ <;> rfl

end Transaction

/-! ## Executing -/

namespace Execution

variable (e : Execution) (chain : ChainView)

def checkedDeposit : Except Panic (Execution × Except Requirement Unit) := do
  if e.depositPending then
    match (← e.calls.checkedRoot).depositCode chain with
    | (root, .ok ()) =>
      return ({ e with calls := e.calls.withRoot root, depositPending := false }, .ok ())
    | (root, .error r) => return ({ e with calls := e.calls.withRoot root }, .error r)
  else return (e, .ok ())

def checkedSettle : Except Panic (Execution × Except Requirement Unit) := do
  let root ← e.calls.checkedRoot
  match ← root.checkedSettle chain e.chargedGas e.transaction.preclaimed e.fresh
    chain.block.beneficiary with
  | (root, .ok ()) => return ({ e with calls := e.calls.withRoot root, settled := true }, .ok ())
  | (root, .error r) => return ({ e with calls := e.calls.withRoot root }, .error r)

def checkedFinish : Except Panic (Execution × Except Requirement Unit) := do
  match ← e.checkedDeposit chain with
  | (e, .ok ()) => e.checkedSettle chain
  | (e, .error r) => return (e, .error r)

def checkedStep : Except Panic (Execution × Except Interrupt (Option Event)) := do
  if e.settled then return (e, .ok none)
  else if e.calls.isExited then
    match ← e.checkedFinish chain with
    | (e, .ok ()) => return (e, .ok none)
    | (e, .error r) => return (e, .error (.requires r))
  else
    let (calls, result) ← e.calls.checkedStep chain
    return ({ e with calls := calls }, result)

@[simp] lemma checkedDeposit_eq : e.checkedDeposit chain = .ok (e.deposit chain) := by
  simp only [checkedDeposit, deposit, CallStack.checkedRoot_eq, ok_bind]
  split
  · rcases e.calls.root.depositCode chain with ⟨root, r | ⟨⟩⟩ <;> rfl
  · rfl

@[simp] lemma checkedSettle_eq : e.checkedSettle chain = .ok (e.settle chain) := by
  simp only [checkedSettle, settle, CallStack.checkedRoot_eq, Frame.checkedSettle_eq, ok_bind]
  rcases e.calls.root.settle chain _ _ _ _ with ⟨root, r | ⟨⟩⟩ <;> rfl

/-- **The end of a transaction does not fail.** -/
@[simp] lemma checkedFinish_eq : e.checkedFinish chain = .ok (e.finish chain) := by
  simp only [checkedFinish, finish, checkedDeposit_eq, checkedSettle_eq, ok_bind]
  rcases e.deposit chain with ⟨e', r | ⟨⟩⟩ <;> rfl

variable {e chain} {e' : Execution}

/-- **A step of an execution** fails only by a fault. -/
lemma checkedStep_eq (h : e.calls.Bounded) (hroom : e.calls.current.HasRoom chain.rules) :
    e.checkedStep chain = surfaced (e.step chain) := by
  simp only [checkedStep, step, checkedFinish_eq, CallStack.checkedStep_eq h hroom, ok_bind]
  split
  · rfl
  · split
    · rcases e.finish chain with ⟨e', r | ⟨⟩⟩ <;> rfl
    · rcases e.calls.step chain with ⟨calls, (r | fault) | event⟩ <;> rfl

/-! ### What frames return is within bounds -/

lemma bounded_of_accept {t : Transaction} (h : t.accept chain = .ok (.ok e)) :
    e.calls.Bounded := by
  obtain ⟨-, halone, -, paid, code, -, hbegun⟩ := Transaction.accept_begins h
  rw [root_of_alone halone] at hbegun
  intro f hf
  rw [halone, List.mem_singleton] at hf
  rw [hf]
  exact hbegun.bounded (Nat.zero_le _)

end Execution

/-! ## Whatever a host calls -/

/-- What frames return stays within bounds, whatever a call stack comes to. -/
lemma CallStack.bounded_preserved (rs : Ruleset) : Preserved rs CallStack.Bounded where
  step _ hs h := h.step hs
  deposit _ hdeposited h := h.withRoot (hdeposited.bounded (h _ List.mem_cons_self))
  settle {s} _ _ _ h :=
    h.withRoot (show s.current.machine.Bounded from h _ List.mem_cons_self)

/-- A result in which a fault is a failure. -/
def panicking {α : Type} (r : Except Fault α) : Except Panic α := r.mapError Fault.panic

namespace Engine

variable {rs : Ruleset} {t : Transaction} {block : Header} {e e' : Engine}

def checkedStep (e : Engine) : Except Panic Engine :=
  match e.pending, e.phase with
  | some _, _ | none, .rejected _ => .ok e
  | none, .validating t => do
    match ← t.checkedAccept e.chain with
    | .ok (.ok execution) => return { e with phase := .executing execution }
    | .ok (.error reason) => return { e with phase := .rejected reason, logs := [], changes := [] }
    | .error i => panicking (e.interrupt i)
  | none, .executing execution => do
    match ← execution.checkedStep e.chain with
    | (next, .ok event) =>
      let settles := next.settled && !execution.settled
      let root := next.calls.root
      let changes ← if settles then root.overlay.checkedChanges e.chain.log else .ok e.changes
      return { e with
        phase := .executing next
        events := event.toList ++ e.events
        logs := if settles then root.logs else e.logs
        changes := changes }
    | (next, .error i) => panicking (({ e with phase := .executing next }).interrupt i)

def checkedFire : ℕ → Engine → Except Panic Engine
  | 0, e => .ok e
  | fuel + 1, e => do
    if e.isExited || e.pending.isSome then return e
    else checkedFire fuel (← e.checkedStep)

def checkedServe (e : Engine) : HostCall → Except Panic (Engine × Except CommitError Unit)
  | .step => e.checkedStep.map (·, .ok ())
  | .fire fuel => (e.checkedFire fuel).map (·, .ok ())
  | .tell answer =>
    match e.tell answer with
    | .ok e' => .ok (e', .ok ())
    | .error refusal => .ok (e, .error refusal)

def checkedServeAll (e : Engine) (calls : List HostCall) : Except Panic Engine :=
  calls.foldlM (fun e call => (e.checkedServe call).map Prod.fst) e

/-- **What frames return is within bounds,** and the current frame asks for another only where
    there is room for it. -/
def Bounded (e : Engine) : Prop :=
  ∀ x, e.phase = .executing x → x.calls.Bounded ∧ x.calls.current.HasRoom e.chain.rules

/-- **A step** fails only by a fault. -/
lemma checkedStep_eq (h : e.Bounded) : e.checkedStep = panicking e.step := by
  simp only [checkedStep, step, Transaction.checkedAccept_eq]
  cases e.pending with
  | some r => rfl
  | none =>
      cases hphase : e.phase with
      | rejected reason => rfl
      | validating t' =>
          dsimp only
          rcases t'.accept e.chain with (r | fault) | (reason | execution) <;> rfl
      | executing x =>
          dsimp only
          obtain ⟨hbounded, hroom⟩ := h x hphase
          rw [Execution.checkedStep_eq hbounded hroom]
          rcases x.step e.chain with ⟨x', (r | fault) | event⟩
          · rfl
          · rfl
          · have hgoesOn : surfaced (x', (.ok event : Except Interrupt (Option Event))) =
                .ok (x', .ok event) := rfl
            rw [hgoesOn, ok_bind]
            dsimp only
            -- the changes are listed where the step has settled the transaction
            by_cases hsettles : (x'.settled && !x.settled) = true
            · simp only [if_pos hsettles, Overlay.checkedChanges_eq]
              rfl
            · simp only [if_neg hsettles]
              rfl

/-- **What frames return is always within bounds,** and they never nest deeper than the rules
    allow. -/
lemma Reachable.bounded (h : Reachable rs t block e) : e.Bounded := by
  intro x hx
  refine ⟨h.preserves (CallStack.bounded_preserved rs) (fun _ => Execution.bounded_of_accept) x hx,
    ?_⟩
  have hruleset : e.chain.ruleset = rs := h.funded.ruleset
  rw [ChainView.rules, hruleset]
  exact (h.orderly hx).nested.room

/-- **Running** fails only by a fault. -/
lemma Reachable.checkedFire_eq (h : Reachable rs t block e) (fuel : ℕ) :
    e.checkedFire fuel = panicking (e.fire fuel) := by
  induction fuel generalizing e with
  | zero => rfl
  | succ fuel ih =>
      simp only [checkedFire, Engine.fire, checkedStep_eq h.bounded]
      split
      · rfl
      · rcases hs : e.step with fault | e'
        · rfl
        · exact ih (h.step hs)

lemma Reachable.checkedServe_eq (h : Reachable rs t block e) (call : HostCall) :
    e.checkedServe call = panicking (e.serve call) := by
  cases call with
  | step =>
      simp only [checkedServe, serve, checkedStep_eq h.bounded]
      cases e.step <;> rfl
  | fire fuel =>
      simp only [checkedServe, serve, h.checkedFire_eq]
      cases e.fire fuel <;> rfl
  | tell answer =>
      simp only [checkedServe, serve]
      cases e.tell answer <;> rfl

/-- **Whatever a host calls,** it fails only by a fault. -/
lemma Reachable.checkedServeAll_eq (h : Reachable rs t block e) (calls : List HostCall) :
    e.checkedServeAll calls = panicking (e.serveAll calls) := by
  induction calls generalizing e with
  | nil => rfl
  | cons call rest ih =>
      simp only [checkedServeAll, Engine.serveAll, List.foldlM_cons, h.checkedServe_eq]
      rcases hcall : e.serve call with fault | ⟨e', result⟩
      · rfl
      · exact ih (h.of_serve hcall)

/-! ## Where there is a fault -/

lemma Reachable.fire_fault {fuel : ℕ} {fault : Fault} (h : Reachable rs t block e)
    (hfire : e.fire fuel = .error fault) :
    ∃ last, Reachable rs t block last ∧ last.step = .error fault := by
  induction fuel generalizing e with
  | zero => cases hfire
  | succ fuel ih =>
      simp only [Engine.fire] at hfire
      split at hfire
      · cases hfire
      · split at hfire <;> rename_i hs
        · exact ih (h.step hs) hfire
        · cases hfire
          exact ⟨e, h, hs⟩

lemma Reachable.serve_fault {call : HostCall} {fault : Fault} (h : Reachable rs t block e)
    (hserve : e.serve call = .error fault) :
    ∃ last, Reachable rs t block last ∧ last.step = .error fault := by
  cases call with
  | step =>
      simp only [serve] at hserve
      rcases hs : e.step with fault | e' <;> rw [hs] at hserve <;> cases hserve
      exact ⟨e, h, hs⟩
  | fire fuel =>
      simp only [serve] at hserve
      rcases hfire : e.fire fuel with fault | e' <;> rw [hfire] at hserve <;> cases hserve
      exact h.fire_fault hfire
  | tell answer =>
      simp only [serve] at hserve
      split at hserve <;> cases hserve

/-- **Whatever a host calls,** a fault is one of a step. -/
lemma Reachable.serveAll_fault {calls : List HostCall} {fault : Fault} (h : Reachable rs t block e)
    (hserve : e.serveAll calls = .error fault) :
    ∃ last, Reachable rs t block last ∧ last.step = .error fault := by
  induction calls generalizing e with
  | nil => cases hserve
  | cons call rest ih =>
      rcases bind_eq_error.mp hserve with hfirst | ⟨e', hfirst, hrest⟩
      · dsimp only at hfirst
        rcases hcall : e.serve call with fault' | ⟨e', result⟩ <;> rw [hcall] at hfirst <;>
          cases hfirst
        exact h.serve_fault hcall
      · obtain ⟨⟨e'', result⟩, hcall, rfl⟩ := map_eq_ok.mp hfirst
        exact ih (h.of_serve hcall) hrest

end Engine

/-- **The one failure of an engine is a nonce.**  Whatever the rules, the transaction and the block
    are and whatever a host calls, an engine whose operations can fail does what one does whose
    operations cannot, until that one stops with a fault.  It fails by an overflow then, in a step
    that it comes to where a caller or a creator has the largest nonce. -/
theorem only_nonces_overflow (rs : Ruleset) (t : Transaction) (block : Header)
    (calls : List HostCall) :
    let e := Engine.create rs t block
    e.checkedServeAll calls = panicking (e.serveAll calls) ∧
    ∀ panic, e.checkedServeAll calls = .error panic →
      panic = .overflow ∧
        ∃ last, Engine.Reachable rs t block last ∧ last.checkedStep = .error .overflow ∧
          last.AtLastNonce := by
  intro e
  have hstart : Engine.Reachable rs t block e := .create
  have hserve := hstart.checkedServeAll_eq calls
  refine ⟨hserve, fun panic hpanic => ?_⟩
  rw [hserve] at hpanic
  rcases hfault : e.serveAll calls with fault | e' <;> rw [hfault] at hpanic <;> cases hpanic
  obtain ⟨last, hlast, hstep⟩ := hstart.serveAll_fault hfault
  obtain ⟨rfl, hnonce⟩ := Engine.step_fault hstep
  refine ⟨rfl, last, hlast, ?_, hnonce⟩
  rw [Engine.checkedStep_eq hlast.bounded, hstep]
  rfl

/-- A transaction of an account to itself, at the largest nonce. -/
def lastTransaction : Transaction := ⟨200, 0, 100000, .call 200, 0, ByteArray.empty, -1⟩

/-- It overflows as soon as the account is known. -/
theorem lastTransaction_overflows :
    let e := Engine.create .byzantium lastTransaction {}
    e.checkedServeAll [.step, .tell (.account (.full 200 (-1) 0 ByteArray.empty)), .step] =
      .error .overflow ∧
    ∃ last, Engine.Reachable .byzantium lastTransaction {} last ∧ last.AtLastNonce := by
  intro e
  have hserve : e.checkedServeAll
      [.step, .tell (.account (.full 200 (-1) 0 ByteArray.empty)), .step] = .error .overflow := rfl
  obtain ⟨-, last, hlast, -, hnonce⟩ :=
    (only_nonces_overflow .byzantium lastTransaction {} _).2 _ hserve
  exact ⟨hserve, last, hlast, hnonce⟩

end ResumableEvm
