import Mathlib.Data.DFinsupp.WellFounded
import ResumableEvm.Proofs.GasBudget

/-!
# Progress

Gas alone does not bring a transaction to its end: rules may price calls and reads at nothing.  But
only an instruction that ends its frame, or one of the surroundings, can be free, and the latter
leave less code ahead of the frame.  So a step of a call stack uses gas, or it leaves a frame with
less to do and the frames below it as they were, or it opens a place that no frame had; and there
are only as many places as frames may nest.

* `Instruction.MayBeFree`, `Frame.price_pos` — what costs nothing.
* `Frame.Steady` — instructions of the surroundings leave the machine where it stands.
* `Frame.AtLastNonce`, `Frame.step_fault` — a step has no fault but a nonce that cannot be raised.
* `Frame.outlook`, `Frame.step_advances` — a step uses gas or leaves less ahead.
* `Frame.Nested` — frames nest as deep as the rules allow, and no deeper.
* `CallStack.distance`, `CallStack.step_progress` — a step brings a call stack closer to its end.
-/

namespace ResumableEvm

/-! ## What may cost nothing -/

/-- **An instruction that may cost nothing:** it ends its frame, or its price is up to the
    rules. -/
def Instruction.MayBeFree : Instruction → Prop
  | .stop | .ret | .revert | .invalid | .selfDestruct => True
  | .balance | .extCodeSize | .extCodeCopy | .sload | .call _ => True
  | _ => False

namespace Machine

variable {m : Machine} {op : Opcode}

/-- The code that a machine has ahead of it. -/
def remaining (m : Machine) : ℕ :=
  match m.position with
  | .ok p => m.code.size - p
  | .error _ => 0

/-- **Machines that stand in the same place** of the same code, and return from the same region. -/
structure SamePlace (m m' : Machine) : Prop where
  code : m'.code = m.code
  position : m'.position = m.position
  region : m'.returnRange = m.returnRange

lemma SamePlace.remaining {m' : Machine} (h : m.SamePlace m') : m'.remaining = m.remaining := by
  simp only [Machine.remaining, h.code, h.position]

lemma finish_exits (m : Machine) (reason : ExitReason) :
    ∃ m' reason', m.finish reason = (m', .exit reason') := by
  unfold finish
  split
  · dsimp only
    split
    · exact ⟨_, _, rfl⟩
    · split
      · exact ⟨_, _, rfl⟩
      · split <;> exact ⟨_, _, rfl⟩
  · exact ⟨_, _, rfl⟩

/-- The machine carries no instruction out that may cost nothing, unless it ends with it. -/
lemma evaluate_free (hfree : op.instruction.MayBeFree) (position : ℕ) :
    (∃ m' reason, m.evaluate op position = (m', .exit reason)) ∨
      m.evaluate op position = (m, .trap op) := by
  simp only [evaluate]
  cases hi : op.instruction <;> rw [hi] at hfree <;> try exact hfree.elim
  case stop | invalid => exact .inl ⟨_, _, rfl⟩
  case ret | revert => exact .inl (m.finish_exits _)
  all_goals exact .inr rfl

/-- **A step that may cost nothing** ends the machine or brings it closer to the end of its
    code. -/
lemma step_free (hop : m.nextOpcode? = some op) (hfree : op.instruction.MayBeFree) :
    (∃ m' reason, m.step = (m', some (.exit reason))) ∨
      ∃ m', m.step = (m', some (.trap op)) ∧ m'.remaining < m.remaining := by
  have hnext := hop
  simp only [nextOpcode?] at hnext
  split at hnext
  · rename_i p hp
    split at hnext
    · rename_i hinside
      simp only [step, hp, hop]
      rcases evaluate_free (m := m) hfree p with ⟨m', reason, he⟩ | he <;> simp only [he]
      · exact .inl ⟨_, _, rfl⟩
      · refine .inr ⟨_, rfl, ?_⟩
        simp only [remaining, hp]
        omega
    · cases hnext
  · cases hnext

end Machine

namespace Frame

variable {f g sub : Frame} {chain : ChainView} {op : Opcode} {i : Instruction}
  {stipend afterGas price : Gas} {c : Charge}

/-- The price of a storage write is never zero. -/
lemma slotPrice_pos (w : SlotWrite) (net : Bool) : 0 < (w.price net).toNat := by
  simp only [SlotWrite.price]
  split_ifs <;> decide

/-- **All else has its price.** -/
lemma price_pos (h : f.price chain i = .ok price) (hpaid : ¬ i.MayBeFree) : 0 < price.toNat := by
  have hplus : ∀ {a b : Gas}, 0 < a.toNat → 0 < (a + b).toNat := by
    intro a b ha
    have hmax : 0 < maxWord := by decide
    rw [Gas.toNat_add]
    omega
  simp only [Frame.price] at h
  split at h
  case h_3 =>
      obtain ⟨w, -, rfl⟩ := map_eq_ok.mp h
      exact slotPrice_pos w _
  -- every other price is a constant, or a constant and more
  all_goals
    first
    | exact absurd trivial hpaid
    | cases h
      first
      | decide
      | exact hplus (by decide)
      | exact hplus (hplus (by decide))

/-- An instruction that has a price costs more than the stipend that it hands on. -/
lemma stipend_lt_price (h : f.price chain i = .ok price) (hprice : 0 < price.toNat) :
    (f.stipend i).toNat < price.toNat := by
  have htransfer : f.operand 2 = 0 ∨ (2300 : Gas).toNat < (9000 : Gas).toNat ∧ f.operand 2 ≠ 0 := by
    by_cases hzero : f.operand 2 = 0
    · exact .inl hzero
    · exact .inr ⟨by decide, hzero⟩
  have hzero : (0 : Gas).toNat = 0 := by decide
  simp only [stipend]
  split
  case h_1 | h_2 =>
      have hge := callGas_ge h
      simp only [transferGas] at hge
      rcases htransfer with hnone | ⟨hlt, hsome⟩
      · rw [if_pos hnone, hzero]
        exact hprice
      · rw [if_neg hsome] at hge ⊢
        exact hlt.trans_le hge
  case h_3 =>
      rw [hzero]
      exact hprice

/-! ## Instructions of the surroundings -/

/-- **An operation that leaves the machine where it stands.** -/
def Steady {β : Type} (m : Machine) (result : Frame × Except Interrupt β) : Prop :=
  m.SamePlace result.1.machine

section Steady

variable {α β : Type} {m : Machine}

lemma steady_giving {w : Word} {control : FrameControl} {event : Option Event}
    (hf : m.SamePlace f.machine) : Steady m (f.giving w control event) := by
  simp only [giving]
  split <;> exact ⟨hf.code, hf.position, hf.region⟩

lemma steady_writing {result : Except ExitFatal Memory} (hf : m.SamePlace f.machine) :
    Steady m (f.writing result) := by
  simp only [writing]
  split <;> exact ⟨hf.code, hf.position, hf.region⟩

lemma steady_attempt {result : Except Interrupt α} {k : α → Frame × Except Interrupt β}
    (hf : m.SamePlace f.machine) (hk : ∀ a, Steady m (k a)) :
    Steady m (f.attempt result k) := by
  cases result with
  | ok a => exact hk a
  | error i => exact hf

lemma steady_reading {result : Except Requirement α} {k : α → Frame × Except Interrupt β}
    (hf : m.SamePlace f.machine) (hk : ∀ a, Steady m (k a)) :
    Steady m (f.reading result k) :=
  steady_attempt hf hk

lemma steady_performCreate {value offset len : Word} {salt : Option Word}
    (hf : m.SamePlace f.machine) :
    Steady m (f.performCreate chain afterGas value offset len salt) := by
  refine steady_reading hf fun declined => ?_
  split
  · exact steady_giving hf
  · refine steady_reading hf fun nonce => steady_attempt hf fun raised => ?_
    exact steady_reading hf fun overlay => steady_giving hf

lemma steady_performCall {kind : CallKind} {o : CallOperands} (hf : m.SamePlace f.machine) :
    Steady m (f.performCall chain kind stipend afterGas o) := by
  refine steady_reading hf fun declined => ?_
  split
  · exact steady_giving hf
  · exact steady_reading hf fun code => steady_giving hf

lemma steady_performSelfDestruct {target : Address} (hf : m.SamePlace f.machine) :
    Steady m (f.performSelfDestruct chain target) := by
  refine steady_reading hf fun balance => steady_reading hf fun paid => ?_
  exact steady_reading hf fun remaining => steady_reading hf fun overlay => hf

/-- **A trapped opcode** leaves the machine where it stands. -/
lemma steady_perform : Steady f.machine (f.perform chain op stipend afterGas) := by
  have hself : f.machine.SamePlace f.machine := ⟨rfl, rfl, rfl⟩
  have htaken (items : List Word) : f.machine.SamePlace (f.withItems items).machine :=
    ⟨rfl, rfl, rfl⟩
  simp only [perform]
  split
  case h_1 => exact steady_giving hself
  case h_2 => exact steady_giving (htaken _)
  case h_3 | h_4 | h_6 | h_9 => exact steady_reading (htaken _) fun _ => steady_giving (htaken _)
  case h_5 => exact steady_reading (htaken _) fun _ => steady_writing (htaken _)
  case h_7 => exact steady_writing (htaken _)
  case h_8 =>
      split
      · exact steady_reading (htaken _) fun _ => steady_giving (htaken _)
      · exact steady_giving (htaken _)
  case h_10 => exact steady_reading (htaken _) fun _ => htaken _
  case h_11 =>
      split
      · exact hself
      · exact htaken _
  case h_12 | h_13 => exact steady_performCreate (htaken _)
  case h_14 =>
      split
      · exact steady_performCall (htaken _)
      · exact hself
  case h_15 => exact steady_performSelfDestruct (htaken _)
  case h_16 => split <;> exact hself

lemma perform_place {result : Except Interrupt Performed}
    (h : f.perform chain op stipend afterGas = (g, result)) : f.machine.SamePlace g.machine :=
  (h ▸ steady_perform : Steady f.machine (g, result))

end Steady

/-- **Executing what may cost nothing** ends the frame or leaves less code ahead of it. -/
lemma execute_free {done : Performed} (hop : f.machine.nextOpcode? = some op)
    (hfree : op.instruction.MayBeFree) (h : f.execute chain stipend afterGas = (g, .ok done)) :
    (∃ reason, done.control = .exit reason) ∨ g.machine.remaining < f.machine.remaining := by
  simp only [execute] at h
  rcases Machine.step_free hop hfree with ⟨m', reason, hstep⟩ | ⟨m', hstep, hless⟩ <;>
    rw [hstep] at h
  · cases h
    exact .inl ⟨reason, rfl⟩
  · change ({ f with machine := m' } : Frame).perform chain op stipend afterGas = _ at h
    exact .inr ((perform_place h).remaining.trans_lt hless)

/-! ## Faults -/

/-- **An operation without a fault.** -/
def Faultless {β : Type} (result : Frame × Except Interrupt β) : Prop :=
  ∀ fault, result.2 ≠ .error (.fault fault)

/-- The nonce of a frame's account is the largest. -/
def HasLastNonce (f : Frame) (chain : ChainView) : Prop :=
  ∃ nonce : Word, f.overlay.nonce f.context.address chain.log = .ok nonce ∧ nonce.toNat = maxWord

/-- **A frame that cannot raise its nonce:** it is about to create an account, and the nonce of its
    own is the largest. -/
structure AtLastNonce (f : Frame) (chain : ChainView) : Prop where
  running : f.status = .running
  creates : ∃ op kind, f.machine.nextOpcode? = some op ∧ op.instruction = .create kind
  last : f.HasLastNonce chain

section Faults

variable {α β : Type} {fault : Fault}

lemma faultless_ok (f : Frame) (done : β) : Faultless (f, Except.ok done) := by
  rintro fault ⟨⟩

lemma faultless_giving (w : Word) (control : FrameControl) (event : Option Event) :
    Faultless (f.giving w control event) := by
  simp only [giving]
  split <;> exact faultless_ok _ _

lemma faultless_writing (result : Except ExitFatal Memory) : Faultless (f.writing result) := by
  cases result <;> exact faultless_ok _ _

lemma faultless_reading {result : Except Requirement α} {k : α → Frame × Except Interrupt β}
    (hk : ∀ a, Faultless (k a)) : Faultless (f.reading result k) := by
  cases result with
  | ok a => exact hk a
  | error r => exact nofun

lemma faultless_performCall (kind : CallKind) (o : CallOperands) :
    Faultless (f.performCall chain kind stipend afterGas o) := by
  refine faultless_reading fun declined => ?_
  split
  · exact faultless_giving _ _ _
  · exact faultless_reading fun code => faultless_giving _ _ _

lemma faultless_performSelfDestruct (target : Address) :
    Faultless (f.performSelfDestruct chain target) :=
  faultless_reading fun _ => faultless_reading fun _ => faultless_reading fun _ =>
    faultless_reading fun _ => faultless_ok _ _

lemma Faultless.ne_fault {result : Frame × Except Interrupt β} (h : Faultless result) :
    result ≠ (g, .error (.fault fault)) :=
  fun heq => h fault (congrArg Prod.snd heq)

lemma reading_eq_fault {result : Except Requirement α} {k : α → Frame × Except Interrupt β}
    (h : f.reading result k = (g, .error (.fault fault))) :
    ∃ a, result = .ok a ∧ k a = (g, .error (.fault fault)) := by
  cases result with
  | ok a => exact ⟨a, rfl, h⟩
  | error r => cases h

lemma performCreate_fault {value offset len : Word} {salt : Option Word}
    (h : f.performCreate chain afterGas value offset len salt = (g, .error (.fault fault))) :
    fault = .overflow ∧ f.HasLastNonce chain := by
  obtain ⟨declined, -, h⟩ := reading_eq_fault h
  split at h
  · exact ((faultless_giving _ _ _).ne_fault h).elim
  · obtain ⟨nonce, hnonce, h⟩ := reading_eq_fault h
    simp only [nextNonce] at h
    split at h
    · rename_i hlast
      cases h
      exact ⟨rfl, nonce, hnonce, hlast⟩
    · obtain ⟨overlay, -, h⟩ := reading_eq_fault h
      exact ((faultless_giving _ _ _).ne_fault h).elim

/-- **An instruction of the surroundings** has a fault only where it creates an account. -/
lemma perform_fault (h : f.perform chain op stipend afterGas = (g, .error (.fault fault))) :
    fault = .overflow ∧ f.HasLastNonce chain ∧ ∃ kind, op.instruction = .create kind := by
  simp only [perform] at h
  split at h
  case h_12 hi _ | h_13 hi _ =>
    obtain ⟨hfault, hlast⟩ := performCreate_fault h
    exact ⟨hfault, hlast, _, hi⟩
  all_goals refine (Faultless.ne_fault ?_ h).elim
  case h_1 | h_2 => exact faultless_giving _ _ _
  case h_3 | h_4 | h_6 | h_9 => exact faultless_reading fun _ => faultless_giving _ _ _
  case h_5 => exact faultless_reading fun _ => faultless_writing _
  case h_7 => exact faultless_writing _
  case h_8 =>
      split
      · exact faultless_reading fun _ => faultless_giving _ _ _
      · exact faultless_giving _ _ _
  case h_10 => exact faultless_reading fun _ => faultless_ok _ _
  case h_11 => split <;> exact faultless_ok _ _
  case h_14 =>
      split
      · exact faultless_performCall _ _
      · exact faultless_ok _ _
  case h_15 => exact faultless_performSelfDestruct _
  case h_16 => split <;> exact faultless_ok _ _

/-- Executing an instruction has no fault but an overflow. -/
lemma execute_fault (hop : f.machine.nextOpcode? = some op)
    (h : f.execute chain stipend afterGas = (g, .error (.fault fault))) :
    fault = .overflow ∧ f.HasLastNonce chain ∧ ∃ kind, op.instruction = .create kind := by
  simp only [execute] at h
  split at h
  · cases h
  · cases h
  · rename_i machine trapped hstep
    obtain ⟨p, hnext, rfl⟩ := Machine.step_trap _ hstep
    obtain rfl : op = trapped := Option.some.inj (hop.symm.trans hnext)
    have hperform := perform_fault h
    exact hperform

/-- **A step of a frame** has no fault but an overflow, of a nonce that cannot be raised. -/
lemma step_fault (h : f.step chain = (g, .error (.fault fault))) :
    fault = .overflow ∧ f.AtLastNonce chain := by
  simp only [step] at h
  split at h
  · rename_i hrunning
    split at h
    · cases h
    · split at h
      · cases h
      · rename_i op hop
        simp only [stepAt] at h
        split at h
        · cases h
        · cases h
        · obtain ⟨c, -, h⟩ := reading_eq_fault h
          split at h
          · cases h
          · rename_i afterGas memory hafford
            simp only [conclude] at h
            split at h <;> rename_i hexecute <;> cases h
            have hnext : (f.withMemory memory).machine.nextOpcode? = some op := hop
            obtain ⟨hfault, hlast, kind, hcreate⟩ := execute_fault hnext hexecute
            exact ⟨hfault, hrunning, ⟨op, kind, hop, hcreate⟩, hlast⟩
  · cases h

end Faults

/-! ## What a frame has ahead of it -/

/-- **What a frame has ahead of it.**  Each instruction counts twice, so that a frame that goes on
    has less ahead of it than while it waited. -/
def outlook (f : Frame) : ℕ :=
  match f.status with
  | .running => 2 * f.machine.remaining + 1
  | .invokeCall _ _ _ | .invokeCreate _ => 2 * f.machine.remaining + 2
  | _ => 0

lemma outlook_of_exited (h : f.status.isExited = true) : f.outlook = 0 := by
  simp only [outlook]
  cases hs : f.status <;> rw [hs] at h <;> first | rfl | cases h

lemma outlook_of_running (h : f.status = .running) : f.outlook = 2 * f.machine.remaining + 1 := by
  simp only [outlook]
  rw [h]

lemma outlook_of_invoked {context : Context} (h : f.status.invoked? = some context) :
    f.outlook = 2 * f.machine.remaining + 2 := by
  simp only [outlook]
  cases hs : f.status <;> rw [hs] at h <;> first | rfl | cases h

lemma outlook_le (f : Frame) : f.outlook ≤ 2 * f.machine.remaining + 2 := by
  simp only [outlook]
  split <;> omega

/-- **A frame as deep as before** that has no more code ahead of it. -/
structure Abides (f g : Frame) : Prop where
  depth : g.depth = f.depth
  remaining : g.machine.remaining ≤ f.machine.remaining

lemma Abides.refl (f : Frame) : f.Abides f := ⟨rfl, le_rfl⟩

lemma Abides.trans {k : Frame} (h : f.Abides g) (h' : g.Abides k) : f.Abides k :=
  ⟨h'.depth.trans h.depth, h'.remaining.trans h.remaining⟩

lemma abides_follow (f : Frame) (control : FrameControl) : f.Abides (f.follow control) := by
  cases control with
  | exit reason =>
      simp only [follow]
      split <;> exact ⟨rfl, Nat.zero_le _⟩
  | _ => exact ⟨rfl, le_rfl⟩

lemma follow_exit_exited (f : Frame) (reason : ExitReason) :
    (f.follow (.exit reason)).status.isExited = true := by
  simp only [follow]
  split <;> exact FrameStatus.isExited_ofReason reason

lemma runPrecompile_exited (f : Frame) (p : Precompile) :
    (f.runPrecompile p).status.isExited = true := by
  simp only [runPrecompile]
  split <;> rfl

/-- **Getting on:** more gas used, or less ahead. -/
def Advances (f g : Frame) : Prop :=
  f.totalUsedGas.toNat < g.totalUsedGas.toNat ∨ g.outlook < f.outlook

lemma advances_of_exited (hr : f.status = .running) (h : g.status.isExited = true) :
    f.Advances g := by
  right
  rw [outlook_of_running hr, outlook_of_exited h]
  omega

/-- Paying for what has a price uses gas. -/
lemma spent_lt_book (hsat : f.limit < maxWord) (hwords : f.memoryWords.toNat ≤ c.words.toNat)
    (hs : c.stipend.toNat < c.price.toNat)
    (hafford : (f.gasAfter c).toNat + afterGas.toNat = f.limit) (hused : g.usedGas = f.usedGas) :
    f.spent < (g.book c).spent := by
  have hpaid := spent_book hsat hs.le hafford hused
  have hmemory := memoryGas_mono hwords
  simp only [gasAfter] at hafford
  simp only [spent] at hpaid ⊢
  simp only [Gas.toNat_add] at hafford hpaid ⊢
  omega

/-- **An instruction that is carried out** uses gas or leaves less code ahead. -/
lemma executed_advances {done : Performed} {memory : Memory} (hf : f.Solvent chain.ruleset)
    (hr : f.status = .running) (hop : f.machine.nextOpcode? = some op)
    (hroom : f.checkStack op.instruction = .ok ())
    (hcharge : f.charge chain op.instruction = .ok c)
    (hafford : f.afford chain.rules op.instruction c = .ok (afterGas, memory))
    (hexecute : (f.withMemory memory).execute chain c.stipend afterGas = (g, .ok done))
    (hg : ((g.book c).follow done.control).Solvent chain.ruleset) :
    f.Advances ((g.book c).follow done.control) := by
  by_cases hfree : op.instruction.MayBeFree
  · rcases execute_free (f := f.withMemory memory) hop hfree hexecute with ⟨reason, hexit⟩ | hless
    · refine advances_of_exited hr ?_
      rw [hexit]
      exact follow_exit_exited _ reason
    · right
      have hle := ((g.book c).follow done.control).outlook_le
      have hahead := ((g.book c).abides_follow done.control).remaining
      have hless : g.machine.remaining < f.machine.remaining := hless
      have hsame : (g.book c).machine.remaining = g.machine.remaining := rfl
      rw [outlook_of_running hr]
      omega
  · left
    obtain ⟨hwords, hprice, hstipend⟩ := charge_eq_ok hcharge
    have heffect := execute_effect (f := f.withMemory memory) hop hroom hexecute
    have hlt : f.spent < (g.book c).spent := by
      refine spent_lt_book hf.unsaturated ?_ ?_ (afford_eq_ok hafford).1 heffect.same.1
      · rw [hwords]
        exact f.wordsNeeded_ge op.instruction
      · rw [hstipend]
        exact stipend_lt_price hprice (price_pos hprice hfree)
    obtain ⟨-, hused, hpaidWords, -, -⟩ := (g.book c).follow_same done.control
    have hfollow : ((g.book c).follow done.control).spent = (g.book c).spent := by
      simp only [spent]
      rw [hused, hpaidWords]
    have := hg.spent_le
    rw [total_eq_spent (ne_exitedErr_of_running hr)]
    omega

/-- **A step of a running frame** uses gas or leaves it less to do. -/
lemma step_advances {event : Option Event} (hf : f.Solvent chain.ruleset)
    (hr : f.status = .running) (h : f.step chain = (g, .ok event)) : f.Advances g := by
  have hg := ((step_stepped h).spends hf).solvent
  simp only [step, hr] at h
  split at h
  · cases h
    exact advances_of_exited hr (runPrecompile_exited _ _)
  · split at h
    · cases h
      exact advances_of_exited hr rfl
    · rename_i hop
      simp only [stepAt] at h
      split at h
      · cases h
        exact advances_of_exited hr rfl
      · cases h
      · rename_i hcheck
        obtain ⟨c, hcharge, h⟩ := reading_eq_ok.mp h
        split at h
        · rename_i reason hafford
          cases h
          exact advances_of_exited hr (FrameStatus.isExited_ofReason reason)
        · rename_i afterGas memory hafford
          simp only [conclude] at h
          split at h <;> rename_i hexecute <;> cases h
          exact executed_advances hf hr hop (check_parts.mp hcheck).2.1 hcharge hafford hexecute hg

/-! ### Going back -/

lemma abides_failTop (f : Frame) (ret : Bytes) : f.Abides { f.failTop with ret := ret } := by
  simp only [failTop]
  split
  · exact ⟨rfl, le_rfl⟩
  · exact ⟨rfl, Nat.zero_le _⟩

lemma abides_copyOutput (f : Frame) (outOffset outLen : Word) (out : Bytes) :
    f.Abides (f.copyOutput outOffset outLen out) := by
  simp only [copyOutput]
  split
  · exact ⟨rfl, le_rfl⟩
  · exact ⟨rfl, Nat.zero_le _⟩

lemma abides_resume (f sub : Frame) (region : Option (Word × Word)) :
    Abides { f with status := .running, usedGas := f.usedGas + sub.totalUsedGas }
      (f.resume sub region) := by
  have hadopt : ∀ (f : Frame) (ret : Bytes), f.Abides (f.adopt sub ret) := fun f ret =>
    ⟨rfl, le_rfl⟩
  simp only [resume]
  split
  · split
    · exact (hadopt _ _).trans (abides_copyOutput _ _ _ _)
    · exact hadopt _ _
  · split
    · exact (abides_failTop _ _).trans (abides_copyOutput _ _ _ _)
    · exact abides_failTop _ _
  · exact abides_failTop _ _
  · exact ⟨rfl, Nat.zero_le _⟩
  · exact .refl _

/-- A frame that goes on has less ahead of it than while it waited. -/
lemma resume_outlook {context : Context} (hasked : f.status.invoked? = some context) (sub : Frame)
    (region : Option (Word × Word)) : (f.resume sub region).outlook < f.outlook := by
  have hremaining : (f.resume sub region).machine.remaining ≤ f.machine.remaining :=
    (f.abides_resume sub region).remaining
  rw [outlook_of_invoked hasked]
  rcases (f.keeps_resume sub region).status with hrunning | hexited
  · rw [outlook_of_running hrunning]
    omega
  · rw [outlook_of_exited hexited]
    omega

/-- A frame that takes another back has less ahead of it. -/
lemma Absorbed.outlook_lt {ended parent : Frame} {context : Context}
    (h : f.Absorbed ended chain parent sub) (hasked : f.status.invoked? = some context) :
    parent.outlook < f.outlook := by
  cases h with
  | returned | created => exact resume_outlook hasked _ _
  | dropped unasked => cases unasked.symm.trans hasked

/-! ## How deep frames nest -/

/-- A frame asks for another only where there is room above it. -/
def HasRoom (rules : Rules) (f : Frame) : Prop :=
  ∀ context, f.status.invoked? = some context → f.depth < rules.callStackLimit.toNat

lemma HasRoom.of_unasked {rules : Rules} (h : f.status.invoked? = none) : f.HasRoom rules := by
  intro context hasked
  rw [h] at hasked
  cases hasked

/-- **Frames nested as the rules allow.**  Each is one deeper than the one below. -/
inductive Nested (rules : Rules) : Frame → List Frame → Prop where
  | root {f : Frame} (depth : f.depth = 0) (room : f.HasRoom rules) : Nested rules f []
  | sub {f parent : Frame} {rest : List Frame} (depth : f.depth = parent.depth + 1)
      (room : f.HasRoom rules) (place : parent.depth < rules.callStackLimit.toNat)
      (below : Nested rules parent rest) : Nested rules f (parent :: rest)

section Nested

variable {rules : Rules} {parent : Frame} {waiting rest : List Frame}

lemma Nested.room (h : Nested rules f waiting) : f.HasRoom rules := by
  cases h <;> assumption

lemma Nested.tail (h : Nested rules f (parent :: rest)) : Nested rules parent rest := by
  cases h
  assumption

lemma Nested.depth (h : Nested rules f waiting) : f.depth = waiting.length := by
  induction h with
  | root depth => exact depth
  | sub depth _ _ _ ih => rw [depth, ih, List.length_cons]

lemma Nested.length_le (h : Nested rules f waiting) :
    waiting.length ≤ rules.callStackLimit.toNat := by
  cases h with
  | root => exact Nat.zero_le _
  | sub _ _ place below =>
      rw [List.length_cons, ← below.depth]
      exact place

/-- The current frame may do anything that leaves it as deep and asks only where there is room. -/
lemma Nested.move (h : Nested rules f waiting) (hdepth : g.depth = f.depth)
    (hroom : g.HasRoom rules) : Nested rules g waiting := by
  cases h with
  | root depth => exact .root (hdepth.trans depth) hroom
  | sub depth _ place below => exact .sub (hdepth.trans depth) hroom place below

/-! ### Moves keep the depth -/

lemma Effect.depth {control : FrameControl}
    (h : f.Effect chain stipend afterGas i g control) : g.depth = f.depth := by
  cases h <;> rfl

lemma Stepped.depth (h : f.Stepped chain g) : g.depth = f.depth := by
  cases h with
  | idle | past | refused | unaffordable => rfl
  | precompile =>
      simp only [runPrecompile]
      split <;> rfl
  | executed running code checked charged afforded effect =>
      exact (abides_follow _ _).depth.trans effect.depth

lemma Begun.depth (h : f.Begun chain g) : g.depth = f.depth := by
  cases h <;> rfl

lemma Deposited.depth (h : f.Deposited chain g) : g.depth = f.depth := by
  cases h <;> rfl

/-- A frame that has ended stays so when its code is deposited. -/
lemma Deposited.exited (h : f.Deposited chain g) (hf : f.status.isExited = true) :
    g.status.isExited = true := by
  cases h with
  | failed => rfl
  | skipped | empty | paid => exact hf

/-- Another frame can be entered only where there is room for it. -/
lemma depth_of_enters {value : Word} (h : f.cannotEnter chain value = .ok false) :
    f.depth < chain.rules.callStackLimit.toNat := by
  simp only [cannotEnter] at h
  split at h
  · cases h
  · rename_i hroom
    exact Nat.lt_of_not_le hroom

lemma Effect.room {control : FrameControl} (h : f.Effect chain stipend afterGas i g control)
    {context : Context} (hasked : control.invoked? = some context) :
    f.depth < chain.rules.callStackLimit.toNat := by
  cases h with
  | compute program stays => rcases stays with rfl | ⟨reason, rfl⟩ <;> cases hasked
  | store | log | destroy => cases hasked
  | create program raised result enters => exact depth_of_enters enters
  | call program same taken result enters => exact depth_of_enters enters

/-- A frame asks for another only where there is room for it. -/
lemma Stepped.room (h : f.Stepped chain g) (hr : f.status = .running) :
    g.HasRoom chain.rules := by
  have hdepth := h.depth
  cases h with
  | idle resting => exact absurd hr resting
  | precompile => exact .of_unasked (FrameStatus.invoked?_eq_none (runPrecompile_exited _ _))
  | past | refused => exact .of_unasked rfl
  | unaffordable => exact .of_unasked (f.invoked?_exit _)
  | @executed g op c afterGas memory control running code checked charged afforded effect =>
      intro context hasked
      obtain ⟨-, -, -, hstatus⟩ := effect.same
      rw [(follow_status (f := g.book c) (hstatus.trans running) control).1] at hasked
      rw [hdepth]
      exact effect.room hasked

end Nested

end Frame

/-! ## Call stacks -/

/-- What the frame in a place has ahead of it; a place that no frame has is open. -/
def Frame.placed : Option Frame → WithTop ℕ
  | some f => f.outlook
  | none => ⊤

namespace CallStack

variable {s s' : CallStack} {chain : ChainView} {rules : Rules} {budget : ℕ}

/-- The frames are nested as the rules allow. -/
def Nested (rules : Rules) (s : CallStack) : Prop := Frame.Nested rules s.current s.waiting

/-- **What is ahead in every place** that there can be, that of the root first. -/
def profile (rules : Rules) (frames : List Frame) :
    Lex (Fin (rules.callStackLimit.toNat + 1) → WithTop ℕ) :=
  toLex fun place => Frame.placed frames[place.val]?

/-- Frames that have less ahead of them from some place on, and below it stay as they are. -/
lemma profile_lt {below above above' : List Frame}
    (hplace : below.length ≤ rules.callStackLimit.toNat)
    (hless : Frame.placed above'[0]? < Frame.placed above[0]?) :
    profile rules (below ++ above') < profile rules (below ++ above) := by
  refine ⟨⟨below.length, Nat.lt_succ_of_le hplace⟩, fun place hbelow => ?_, ?_⟩
  · simp only [profile, Pi.toLex_apply]
    rw [List.getElem?_append_left hbelow, List.getElem?_append_left hbelow]
  · simpa [profile, List.getElem?_append_right] using hless

/-- The current frame has less ahead of it. -/
lemma profile_ran {g : Frame} (hplace : s.waiting.length ≤ rules.callStackLimit.toNat)
    (hless : g.outlook < s.current.outlook) :
    profile rules (frames ⟨g, s.waiting⟩) < profile rules s.frames := by
  simp only [frames, List.reverse_cons]
  refine profile_lt ?_ (WithTop.coe_lt_coe.mpr hless)
  rwa [List.length_reverse]

/-- A frame that is entered takes an open place. -/
lemma profile_entered (sub : Frame) (hplace : s.waiting.length < rules.callStackLimit.toNat) :
    profile rules (s.enter sub).frames < profile rules s.frames := by
  have hopen : Frame.placed [sub][0]? < Frame.placed ([] : List Frame)[0]? :=
    WithTop.coe_lt_top sub.outlook
  have hlt : profile rules (s.frames ++ [sub]) < profile rules (s.frames ++ []) :=
    profile_lt (by simpa [frames] using hplace) hopen
  simpa [frames, enter] using hlt

/-- The frame below the current one goes on and has less ahead of it. -/
lemma profile_left {parent parent' : Frame} {rest : List Frame}
    (hplace : rest.length ≤ rules.callStackLimit.toNat) (below : s.waiting = parent :: rest)
    (hless : parent'.outlook < parent.outlook) :
    profile rules (frames ⟨parent', rest⟩) < profile rules s.frames := by
  simp only [frames]
  rw [below, List.reverse_cons, List.reverse_cons, List.reverse_cons, List.append_assoc]
  refine profile_lt ?_ (WithTop.coe_lt_coe.mpr hless)
  rwa [List.length_reverse]

/-- **How far a call stack is from its end:** the gas that is left, then what is ahead. -/
def distance (rules : Rules) (budget : ℕ) (s : CallStack) :
    ℕ ×ₗ Lex (Fin (rules.callStackLimit.toNat + 1) → WithTop ℕ) :=
  toLex (budget - s.allUsed, profile rules s.frames)

lemma distance_lt_of_spent (hspent : s.allUsed < s'.allUsed) (hbudget : s'.allUsed ≤ budget) :
    s'.distance rules budget < s.distance rules budget :=
  Prod.Lex.toLex_lt_toLex.mpr (.inl (by dsimp only; omega))

lemma distance_lt_of_profile (hgrows : s.allUsed ≤ s'.allUsed) (hbudget : s'.allUsed ≤ budget)
    (hless : profile rules s'.frames < profile rules s.frames) :
    s'.distance rules budget < s.distance rules budget := by
  rcases Nat.lt_or_eq_of_le hgrows with hspent | hsame
  · exact distance_lt_of_spent hspent hbudget
  · refine Prod.Lex.toLex_lt_toLex.mpr (.inr ⟨?_, hless⟩)
    dsimp only
    rw [hsame]

/-- **A step keeps to the depth** that the rules allow. -/
lemma Stepped.nested (h : s.Stepped chain s') (hs : s.Nested chain.rules) :
    s'.Nested chain.rules := by
  cases h with
  | ran running stepped => exact Frame.Nested.move hs stepped.depth (stepped.room running)
  | entered asked begun =>
      exact .sub begun.depth (.of_unasked (begun.unasked rfl)) (Frame.Nested.room hs _ asked) hs
  | rested => exact hs
  | @left parent parent' sub rest ended below absorbs =>
      have hparent : Frame.Nested chain.rules parent rest := by
        simp only [Nested] at hs
        rw [below] at hs
        exact hs.tail
      have hresume : ∀ sub region, Nested chain.rules ⟨parent.resume sub region, rest⟩ :=
        fun sub region => hparent.move (parent.abides_resume sub region).depth
          (.of_unasked (parent.invoked?_resume sub region))
      cases Frame.absorb_absorbed absorbs with
      | returned => exact hresume _ _
      | created => exact hresume _ _
      | dropped => exact hparent

/-- A step of the current frame is one of the call stack. -/
lemma step_of_running {g : Frame} {event : Option Event} (hr : s.current.status = .running)
    (h : s.step chain = (⟨g, s.waiting⟩, .ok event)) : s.current.step chain = (g, .ok event) := by
  simp only [step, hr] at h
  rcases hf : s.current.step chain with ⟨g', result⟩
  rw [hf] at h
  cases h
  rfl

/-- **A step of a call stack** that has not ended brings it closer to its end. -/
lemma step_progress {event : Option Event} (hfunded : s.Funded chain.ruleset budget)
    (hnested : s.Nested chain.rules) (hrunning : s.isExited = false)
    (h : s.step chain = (s', .ok event)) :
    s'.distance chain.rules budget < s.distance chain.rules budget := by
  have hstepped := step_stepped h
  obtain ⟨hfunded', hgrows⟩ := hstepped.spends hfunded
  have hbudget := hfunded'.allUsed_le
  have hplace := Frame.Nested.length_le hnested
  cases hstepped with
  | @ran g running stepped =>
      have hsolvent := Frame.Funded.solvent hfunded
      rcases Frame.step_advances hsolvent running (step_of_running running h) with hspent | hless
      · refine distance_lt_of_spent ?_ hbudget
        simp only [allUsed, Frame.allUsed, List.map_cons, List.sum_cons]
        omega
      · exact distance_lt_of_profile hgrows hbudget (profile_ran hplace hless)
  | @entered context sub asked begun =>
      have hroom := Frame.Nested.room hnested context asked
      rw [Frame.Nested.depth hnested] at hroom
      exact distance_lt_of_profile hgrows hbudget (profile_entered sub hroom)
  | rested ended alone => simp [isExited, ended, alone] at hrunning
  | @left parent parent' sub rest ended below absorbs =>
      have hasked : parent.status.invoked? = some s.current.context := by
        simp only [Funded] at hfunded
        rw [below] at hfunded
        cases hfunded
        assumption
      have hless := (Frame.absorb_absorbed absorbs).outlook_lt hasked
      rw [below, List.length_cons] at hplace
      exact distance_lt_of_profile hgrows hbudget (profile_left (by omega) below hless)

/-- **A step of a call stack** has no fault but that its current frame cannot raise a nonce. -/
lemma step_fault {fault : Fault} (h : s.step chain = (s', .error (.fault fault))) :
    fault = .overflow ∧ s.current.AtLastNonce chain := by
  simp only [step] at h
  split at h
  · rcases hf : s.current.step chain with ⟨g, result⟩
    rw [hf] at h
    cases h
    exact Frame.step_fault hf
  · split at h <;> cases h
  · split at h <;> cases h
  · split at h
    · cases h
    · split at h <;> cases h

end CallStack

end ResumableEvm
