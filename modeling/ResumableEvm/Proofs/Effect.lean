import Mathlib.Tactic
import ResumableEvm.Frame.Step
import ResumableEvm.Proofs.Interruption

/-!
# What one step does to a frame

Every instruction that is carried out has one of six effects, and most have the first: only the
machine changes.  A step is the effect of one instruction together with its charge, unless the
frame ends before it.

* `Instruction.leavesTrace` — whether an instruction writes a slot, logs, or destroys its account.
* `Frame.Effect` — what an instruction does, once it has been paid for.
* `Frame.execute_effect` — executing an instruction has one of these effects.
* `Frame.Stepped` — what a step does.
* `Frame.step_stepped` — a step that is not interrupted does one of these things.
-/

namespace ResumableEvm

/-- Whether an instruction writes a slot, logs an entry, or destroys its account. -/
def Instruction.leavesTrace : Instruction → Bool
  | .sstore | .log _ | .selfDestruct => true
  | _ => false

/-- The machine leaves the instructions that leave a trace to its surroundings. -/
lemma Machine.step_of_leavesTrace {m : Machine} {op : Opcode} (hop : m.nextOpcode? = some op)
    (htrace : op.instruction.leavesTrace = true) : (m.step).2 = some (.trap op) := by
  have htrap : ∀ position, m.evaluate op position = (m, .trap op) := by
    intro position
    simp only [evaluate]
    cases hi : op.instruction <;> rw [hi] at htrace <;> first | rfl | cases htrace
  simp only [step]
  split
  · rename_i hposition
    rw [nextOpcode?, hposition] at hop
    cases hop
  · simp only [hop, htrap]

namespace Frame

variable {f g : Frame} {chain : ChainView} {op : Opcode} {stipend afterGas : Gas}

/-- **What an instruction does.**  `stipend` is what a call hands on for free, `afterGas` what is
    left of the gas. -/
inductive Effect (f : Frame) (chain : ChainView) (stipend afterGas : Gas) :
    Instruction → Frame → FrameControl → Prop where
  /-- Only the machine changes, and with it what the last frame returned. -/
  | compute {i : Instruction} {machine : Machine} {ret : Bytes} {control : FrameControl}
      (program : f.machine.SameProgram machine)
      (stays : control = .proceed ∨ ∃ reason, control = .exit reason)
      (plain : i.leavesTrace = false) :
      Effect f chain stipend afterGas i { f with machine := machine, ret := ret } control
  /-- A slot is written. -/
  | store {machine : Machine} {overlay : Overlay}
      (program : f.machine.SameProgram machine)
      (written : f.overlay.writeStorage f.context.address (f.operand 0) (f.operand 1) chain.log =
        .ok overlay) :
      Effect f chain stipend afterGas .sstore { f with machine := machine, overlay := overlay }
        .proceed
  /-- An entry is logged. -/
  | log {topics : ℕ} {machine : Machine} {offset len : Word} {items : List Word}
      (program : f.machine.SameProgram machine)
      (taken : f.machine.stack.items = offset :: len :: items) :
      Effect f chain stipend afterGas (.log topics)
        { f with
          machine := machine,
          logs := f.logs ++
            [⟨f.context.address, items.take topics, f.machine.memory.read offset len⟩] }
        .proceed
  /-- A creation is asked for, and its address is on the stack in advance. -/
  | create {kind : CreateKind} {machine : Machine} {nonce value : Word} {overlay : Overlay}
      {address : Address} {code : Bytes} {items : List Word}
      (program : f.machine.SameProgram machine)
      (raised : f.overlay.setNonce f.context.address nonce chain.log = .ok overlay)
      (result : machine.stack.items = address.toWord :: items)
      (enters : f.cannotEnter chain value = .ok false) :
      Effect f chain stipend afterGas (.create kind)
        { f with machine := machine, ret := ByteArray.empty, overlay := overlay }
        (.invokeCreate
          (createContext f.context address code (forwardable chain.rules afterGas) value))
  /-- A call is asked for, and its success is on the stack in advance. -/
  | call {kind : CallKind} {machine : Machine} {operands : CallOperands} {items : List Word}
      {code input : Bytes} (program : f.machine.SameProgram machine)
      (memory : machine.memory = f.machine.memory)
      (taken : callOperands? kind f.machine.stack.items = some (operands, items))
      (result : machine.stack.items = 1 :: items)
      (enters : f.cannotEnter chain operands.value = .ok false) :
      Effect f chain stipend afterGas (.call kind)
        { f with machine := machine, ret := ByteArray.empty }
        (.invokeCall
          (callContext kind f.context operands.target code input
            (min (Gas.mk operands.gas) (forwardable chain.rules afterGas) + stipend)
            operands.value)
          operands.outOffset operands.outLen)
  /-- The account destroys itself and pays out its balance. -/
  | destroy {machine : Machine} {removed : List Address} {target : Address}
      {balance remaining : Word} {paid overlay : Overlay}
      (program : f.machine.SameProgram machine)
      (pays : f.overlay.increaseBalance target balance chain.log = .ok paid)
      (clears : paid.decreaseBalance f.context.address remaining chain.log = .ok overlay)
      (aims : target = Address.ofWord (f.operand 0))
      (holds : f.overlay.balance f.context.address chain.log = .ok balance)
      (remains : paid.balance f.context.address chain.log = .ok remaining)
      (lists : removed = if f.removed.contains f.context.address then f.removed
        else f.removed ++ [f.context.address]) :
      Effect f chain stipend afterGas .selfDestruct
        { f with machine := machine, removed := removed, overlay := overlay.touch target }
        (.exit (.succeed .suicided))

/-! ## Pieces of instructions -/

lemma operand_one {x y : Word} {items : List Word} (h : f.machine.stack.items = x :: y :: items) :
    f.operand 1 = y := by
  simp [operand, OperandStack.peekD, h]

lemma attempt_eq_ok {ε α β : Type} {r : Except ε α} {k : α → Frame × Except ε β} {b : β} :
    f.attempt r k = (g, .ok b) ↔ ∃ a, r = .ok a ∧ k a = (g, .ok b) := by
  cases r <;> simp

lemma reading_eq_ok {α β : Type} {r : Except Requirement α}
    {k : α → Frame × Except Interrupt β} {b : β} :
    f.reading r k = (g, .ok b) ↔ ∃ a, r = .ok a ∧ k a = (g, .ok b) := by
  cases r <;> simp

/-- A result is pushed, or the stack is full. -/
lemma giving_eq_ok {w : Word} {control : FrameControl} {event : Option Event} {done : Performed}
    (h : f.giving w control event = (g, .ok done)) :
    (done.control = control ∧ ∃ stack, f.machine.stack.push w = .ok stack ∧
      g = { f with machine := { f.machine with stack := stack } }) ∨
      (g = f ∧ ∃ reason, done.control = .exit reason) := by
  simp only [giving] at h
  split at h
  · cases h
    exact .inl ⟨rfl, _, ‹_›, rfl⟩
  · cases h
    exact .inr ⟨rfl, _, rfl⟩

/-- A stack has room for an instruction. -/
lemma check_eq_ok {stack : OperandStack} {taken given : ℕ} :
    stack.check taken given = .ok () ↔
      taken ≤ stack.size ∧ stack.size - taken + given ≤ stack.limit := by
  simp only [OperandStack.check]
  split
  · simp only [reduceCtorEq, false_iff]
    omega
  · split
    · simp only [reduceCtorEq, false_iff]
      omega
    · simp only [true_iff]
      omega

lemma exists_two {stack : OperandStack} (h : 2 ≤ stack.size) :
    ∃ x y items, stack.items = x :: y :: items := by
  obtain ⟨x, rest, hrest⟩ := List.exists_cons_of_length_pos (Nat.lt_of_lt_of_le two_pos h)
  simp only [OperandStack.size, hrest, List.length_cons] at h
  obtain ⟨y, items, rfl⟩ := List.exists_cons_of_length_pos (by omega : 0 < rest.length)
  exact ⟨x, y, items, hrest⟩

/-- Pushing only puts a word on top. -/
lemma push_eq_ok {stack stack' : OperandStack} {w : Word} (h : stack.push w = .ok stack') :
    stack' = { stack with items := w :: stack.items } := by
  simp only [OperandStack.push] at h
  split at h <;> cases h
  rfl

lemma push_eq_error {stack : OperandStack} {w : Word} {e : ExitError}
    (h : stack.push w = .error e) : e = .stackOverflow := by
  simp only [OperandStack.push] at h
  split at h <;> cases h
  rfl

/-! ## Trapped opcodes -/

/-- An instruction that ends with a result only changes the machine. -/
lemma effect_giving {i : Instruction} {items : List Word} {w : Word} {event : Option Event}
    {ret : Bytes} {done : Performed} (plain : i.leavesTrace = false)
    (h : ({ f.withItems items with ret := ret } : Frame).giving w .proceed event = (g, .ok done)) :
    f.Effect chain stipend afterGas i g done.control := by
  rcases giving_eq_ok h with ⟨hc, stack, hpush, rfl⟩ | ⟨rfl, hexit⟩
  · rw [push_eq_ok hpush]
    exact .compute ⟨rfl, rfl, rfl, rfl, rfl⟩ (.inl hc) plain
  · exact .compute ⟨rfl, rfl, rfl, rfl, rfl⟩ (.inr hexit) plain

/-- An instruction that ends with a write to memory only changes the machine. -/
lemma effect_writing {i : Instruction} {items : List Word} {offset sourceOffset len : Word}
    {source : Bytes} {done : Performed} (plain : i.leavesTrace = false)
    (h : (f.withItems items).writing (f.machine.memory.copyLarge offset sourceOffset len source) =
      (g, .ok done)) :
    f.Effect chain stipend afterGas i g done.control := by
  simp only [writing] at h
  split at h
  · rename_i memory hcopy
    cases h
    exact .compute ⟨rfl, rfl, rfl, Machine.copyLarge_limit hcopy, rfl⟩ (.inl rfl) plain
  · cases h
    exact .compute ⟨rfl, rfl, rfl, rfl, rfl⟩ (.inr ⟨_, rfl⟩) plain

/-- A creation leaves room for its result, since it takes more operands than it gives. -/
lemma effect_performCreate {kind : CreateKind} {items : List Word} {value offset len : Word}
    {salt : Option Word} {done : Performed} (hroom : items.length < f.machine.stack.limit)
    (h : (f.withItems items).performCreate chain afterGas value offset len salt = (g, .ok done)) :
    f.Effect chain stipend afterGas (.create kind) g done.control := by
  obtain ⟨declined, hdeclined, h⟩ := reading_eq_ok.mp h
  split at h
  · exact effect_giving rfl h
  · rename_i hentered
    have henters : f.cannotEnter chain value = .ok false := by
      rw [← Bool.eq_false_of_not_eq_true hentered]
      exact hdeclined
    obtain ⟨nonce, -, h⟩ := reading_eq_ok.mp h
    obtain ⟨raised, -, h⟩ := attempt_eq_ok.mp h
    obtain ⟨overlay, hoverlay, h⟩ := reading_eq_ok.mp h
    have hpush : ∀ w, (f.withItems items).machine.stack.push w =
        .ok { (f.withItems items).machine.stack with items := w :: items } := by
      intro w
      simp only [OperandStack.push, OperandStack.size]
      exact if_neg (by simpa [withItems, Machine.withItems] using hroom)
    simp only [giving] at h
    simp only [hpush] at h
    cases h
    exact .create ⟨rfl, rfl, rfl, rfl, rfl⟩ hoverlay rfl henters

lemma effect_performCall {kind : CallKind} {items : List Word} {operands : CallOperands}
    {done : Performed} (ho : callOperands? kind f.machine.stack.items = some (operands, items))
    (h : (f.withItems items).performCall chain kind stipend afterGas operands = (g, .ok done)) :
    f.Effect chain stipend afterGas (.call kind) g done.control := by
  obtain ⟨declined, hdeclined, h⟩ := reading_eq_ok.mp h
  split at h
  · exact effect_giving rfl h
  · rename_i hentered
    have henters : f.cannotEnter chain operands.value = .ok false := by
      rw [← Bool.eq_false_of_not_eq_true hentered]
      exact hdeclined
    obtain ⟨code, -, h⟩ := reading_eq_ok.mp h
    rcases giving_eq_ok h with ⟨hc, stack, hpush, rfl⟩ | ⟨rfl, hexit⟩
    · rw [hc, push_eq_ok hpush]
      exact .call ⟨rfl, rfl, rfl, rfl, rfl⟩ rfl ho rfl henters
    · exact .compute ⟨rfl, rfl, rfl, rfl, rfl⟩ (.inr hexit) rfl

lemma effect_performSelfDestruct {items : List Word} {target : Address} {done : Performed}
    (haims : target = Address.ofWord (f.operand 0))
    (h : (f.withItems items).performSelfDestruct chain target = (g, .ok done)) :
    f.Effect chain stipend afterGas .selfDestruct g done.control := by
  obtain ⟨balance, hbalance, h⟩ := reading_eq_ok.mp h
  obtain ⟨paid, hpaid, h⟩ := reading_eq_ok.mp h
  obtain ⟨remaining, hremaining, h⟩ := reading_eq_ok.mp h
  obtain ⟨overlay, hoverlay, h⟩ := reading_eq_ok.mp h
  cases h
  exact .destroy ⟨rfl, rfl, rfl, rfl, rfl⟩ hpaid hoverlay haims hbalance hremaining rfl

/-- An instruction that found too few operands ends the frame. -/
lemma effect_lacking {i : Instruction} {done : Performed} (plain : i.leavesTrace = false)
    (h : f.lacking = (g, .ok done)) : f.Effect chain stipend afterGas i g done.control := by
  cases h
  exact .compute (.refl _) (.inr ⟨_, rfl⟩) plain

/-- **A trapped opcode** has one of the effects. -/
lemma perform_effect {done : Performed} (hs : f.checkStack op.instruction = .ok ())
    (h : f.perform chain op stipend afterGas = (g, .ok done)) :
    f.Effect chain stipend afterGas op.instruction g done.control := by
  simp only [perform] at h
  split at h
  case h_1 hi =>
      have hsame : f = f.withItems f.machine.stack.items := rfl
      rw [hsame] at h
      exact effect_giving (by rw [hi]; rfl) h
  case h_2 hi _ => exact effect_giving (by rw [hi]; rfl) h
  case h_3 hi _ =>
      obtain ⟨balance, -, h⟩ := reading_eq_ok.mp h
      exact effect_giving (by rw [hi]; rfl) h
  case h_4 hi _ =>
      obtain ⟨code, -, h⟩ := reading_eq_ok.mp h
      exact effect_giving (by rw [hi]; rfl) h
  case h_5 hi _ =>
      obtain ⟨code, -, h⟩ := reading_eq_ok.mp h
      exact effect_writing (by rw [hi]; rfl) h
  case h_6 hi _ =>
      obtain ⟨hash, -, h⟩ := reading_eq_ok.mp h
      exact effect_giving (by rw [hi]; rfl) h
  case h_7 hi _ => exact effect_writing (by rw [hi]; rfl) h
  case h_8 hi _ =>
      split at h
      · obtain ⟨hash, -, h⟩ := reading_eq_ok.mp h
        exact effect_giving (by rw [hi]; rfl) h
      · exact effect_giving (by rw [hi]; rfl) h
  case h_9 hi _ =>
      obtain ⟨value, -, h⟩ := reading_eq_ok.mp h
      exact effect_giving (by rw [hi]; rfl) h
  case h_10 index value items hi hitems =>
      obtain ⟨overlay, hoverlay, h⟩ := reading_eq_ok.mp h
      cases h
      rw [hi]
      have hwritten : f.overlay.writeStorage f.context.address (f.operand 0) (f.operand 1)
          chain.log = .ok overlay := by
        rw [operand_zero hitems, operand_one hitems]
        exact hoverlay
      exact .store ⟨rfl, rfl, rfl, rfl, rfl⟩ hwritten
  case h_11 topics offset len items hi hitems =>
      rw [hi] at hs ⊢
      obtain ⟨henough, -⟩ := check_eq_ok.mp hs
      simp only [OperandStack.size, hitems, List.length_cons] at henough
      rw [if_neg (by omega)] at h
      cases h
      exact .log ⟨rfl, rfl, rfl, rfl, rfl⟩ hitems
  case h_12 value offset len items hi hitems =>
      rw [hi] at hs ⊢
      obtain ⟨-, hroom⟩ := check_eq_ok.mp hs
      exact effect_performCreate (by simp [OperandStack.size, hitems] at hroom; omega) h
  case h_13 value offset len salt items hi hitems =>
      rw [hi] at hs ⊢
      obtain ⟨-, hroom⟩ := check_eq_ok.mp hs
      exact effect_performCreate (by simp [OperandStack.size, hitems] at hroom; omega) h
  case h_14 kind hi =>
      rw [hi]
      split at h
      · exact effect_performCall ‹_› h
      · exact effect_lacking rfl h
  case h_15 target items hi hitems =>
      rw [hi]
      exact effect_performSelfDestruct (by rw [operand_zero hitems]) h
  case h_16 hstore hlog _ _ hdestroy =>
      -- an instruction that leaves a trace finds its operands, and so is not among the rest
      have hplain : op.instruction.leavesTrace = false := by
        cases hi : op.instruction with
        | sstore | log =>
            rw [hi] at hs
            obtain ⟨htwo, -⟩ := check_eq_ok.mp hs
            obtain ⟨x, y, items, hitems⟩ := exists_two (by omega : 2 ≤ f.machine.stack.size)
            first | exact (hstore _ _ _ hi hitems).elim | exact (hlog _ _ _ _ hi hitems).elim
        | selfDestruct =>
            rw [hi] at hs
            obtain ⟨hone, -⟩ := check_eq_ok.mp hs
            obtain ⟨x, items, hitems⟩ := List.exists_cons_of_length_pos hone
            exact (hdestroy _ _ hi hitems).elim
        | _ => rfl
      split at h
      · exact effect_lacking hplain h
      · cases h
        exact .compute (.refl _) (.inr ⟨_, rfl⟩) hplain

/-! ## Every instruction -/

/-- The position that the machine has come to does not matter to an effect. -/
lemma Effect.of_position {i : Instruction} {control : FrameControl}
    {position : Except ExitReason ℕ}
    (h : ({ f with machine := { f.machine with position := position } } : Frame).Effect
      chain stipend afterGas i g control) : f.Effect chain stipend afterGas i g control := by
  have same {machine : Machine}
      (h : ({ f.machine with position := position } : Machine).SameProgram machine) :
      f.machine.SameProgram machine := ⟨h.code, h.data, h.jumps, h.memoryLimit, h.stackLimit⟩
  cases h with
  | compute program stays plain => exact .compute (same program) stays plain
  | store program written => exact .store (same program) written
  | log program taken => exact .log (same program) taken
  | create program raised result enters => exact .create (same program) raised result enters
  | call program memory taken result enters =>
      exact .call (same program) memory taken result enters
  | destroy program pays clears aims holds remains lists =>
      exact .destroy (same program) pays clears aims holds remains lists

/-- **Executing an instruction** that has passed its check has one of the effects. -/
lemma execute_effect {done : Performed} (hop : f.machine.nextOpcode? = some op)
    (hs : f.checkStack op.instruction = .ok ())
    (h : f.execute chain stipend afterGas = (g, .ok done)) :
    f.Effect chain stipend afterGas op.instruction g done.control := by
  have hsame := f.machine.step_sameProgram
  have hplain (huntrapped : f.machine.step.2 ≠ some (.trap op)) :
      op.instruction.leavesTrace = false :=
    Bool.eq_false_of_not_eq_true fun htrace =>
      huntrapped (Machine.step_of_leavesTrace hop htrace)
  simp only [execute] at h
  split at h <;> rename_i hstep
  · cases h
    rw [hstep] at hsame
    exact .compute hsame (.inl rfl) (hplain (by rw [hstep]; simp))
  · cases h
    rw [hstep] at hsame
    exact .compute hsame (.inr ⟨_, rfl⟩) (hplain (by rw [hstep]; simp))
  · obtain ⟨p, hnext, rfl⟩ := Machine.step_trap _ hstep
    cases hop.symm.trans hnext
    have heffect : ({ f with machine := { f.machine with position := .ok (p + 1) } } :
        Frame).Effect chain stipend afterGas op.instruction g done.control := perform_effect hs h
    exact heffect.of_position

/-! ## Every step -/

/-- Going on touches status and output, and a frame that ends stops its machine. -/
lemma follow_same (f : Frame) (control : FrameControl) :
    (f.follow control).context = f.context ∧ (f.follow control).usedGas = f.usedGas ∧
      (f.follow control).memoryWords = f.memoryWords ∧ (f.follow control).overlay = f.overlay ∧
        (f.follow control).machine.memory = f.machine.memory := by
  cases control with
  | exit reason =>
      simp only [follow]
      split <;> exact ⟨rfl, rfl, rfl, rfl, rfl⟩
  | _ => exact ⟨rfl, rfl, rfl, rfl, rfl⟩

/-- **What a step does** that is not interrupted. -/
inductive Stepped (f : Frame) (chain : ChainView) : Frame → Prop where
  /-- The frame was not running. -/
  | idle (resting : f.status ≠ .running) : Stepped f chain f
  /-- A contract without code has run. -/
  | precompile {c : Precompile} (running : f.status = .running)
      (contract : chain.ruleset.precompile? f.context.codeAddress = some c) :
      Stepped f chain (f.runPrecompile c)
  /-- The code was at its end. -/
  | past (running : f.status = .running) : Stepped f chain { f with status := .exitedOk }
  /-- The check of the instruction failed. -/
  | refused {e : ExitError} (running : f.status = .running) : Stepped f chain (f.fail e)
  /-- The charge could not be paid. -/
  | unaffordable {reason : ExitReason} {i : Instruction} {c : Charge}
      (running : f.status = .running)
      (charged : f.charge chain i = .ok c)
      (declined : f.afford chain.rules i c = .error reason) : Stepped f chain (f.exit reason)
  /-- The instruction was carried out. -/
  | executed {g : Frame} {op : Opcode} {c : Charge} {afterGas : Gas} {memory : Memory}
      {control : FrameControl} (running : f.status = .running)
      (code : chain.ruleset.precompile? f.context.codeAddress = none)
      (checked : f.check chain op = .ok ())
      (charged : f.charge chain op.instruction = .ok c)
      (afforded : f.afford chain.rules op.instruction c = .ok (afterGas, memory))
      (effect : (f.withMemory memory).Effect chain c.stipend afterGas op.instruction g control)
      (next : f.machine.nextOpcode? = some op) :
      Stepped f chain ((g.book c).follow control)

lemma stepAt_stepped {event : Option Event} (hr : f.status = .running)
    (hc : chain.ruleset.precompile? f.context.codeAddress = none)
    (hop : f.machine.nextOpcode? = some op) (h : f.stepAt chain op = (g, .ok event)) :
    f.Stepped chain g := by
  simp only [stepAt] at h
  split at h
  · cases h
    exact .refused hr
  · cases h
  · rename_i hcheck
    obtain ⟨c, hcharge, h⟩ := reading_eq_ok.mp h
    split at h
    · cases h
      exact .unaffordable hr hcharge ‹_›
    · rename_i afterGas memory hafford
      simp only [conclude] at h
      split at h
      · rename_i g done hexecute
        cases h
        have hs : f.checkStack op.instruction = .ok () := (check_parts.mp hcheck).2.1
        exact .executed hr hc hcheck hcharge hafford (execute_effect hop hs hexecute) hop
      · cases h

/-- **A step** that is not interrupted does one of these things. -/
lemma step_stepped {event : Option Event} (h : f.step chain = (g, .ok event)) :
    f.Stepped chain g := by
  simp only [step] at h
  split at h
  · rename_i hr
    split at h
    · cases h
      exact .precompile hr ‹_›
    · rename_i hc
      split at h
      · cases h
        exact .past hr
      · exact stepAt_stepped hr hc ‹_› h
  · rename_i hr
    cases h
    exact .idle hr

end Frame

end ResumableEvm
