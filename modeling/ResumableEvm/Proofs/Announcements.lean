import ResumableEvm.Proofs.Termination

/-!
# What a step tells

A listener is told of a call, a creation or a destruction in the middle of the instruction, before
the rest of it has been carried out.  This module says what has been told at that moment.  Nothing
that comes after it can miss a datum: a step that stops for one has told nothing, and any other has
told what it reports in the end.

* `Event.opens` — the events that announce a frame.
* `Frame.told`, `CallStack.told`, `Execution.told` — what a step has told by the time it ends or
  stops.
* `Frame.Tells` — an operation reports what it has told, and announces the frame that it asks for.
* `Frame.step_told`, `CallStack.step_told`, `Execution.step_told` — so does a step.
* `CallStack.step_tallies` — a step opens a frame, closes one or leaves them all.
-/

namespace ResumableEvm

/-- Whether an event announces a frame. -/
def Event.opens : Event → Bool
  | .call .. | .create .. => true
  | _ => false

/-- Whether an event is told by an instruction. -/
def Event.ofInstruction : Event → Bool
  | .call .. | .create .. | .selfDestruct .. => true
  | _ => false

/-- **What a step tells** that takes the number of open frames from one to another. -/
inductive Tallies : Option Event → ℕ → ℕ → Prop where
  /-- A frame is closed, which tells how many were open. -/
  | closes (n : ℕ) (reason : ExitReason) : Tallies (some (.exit (n + 1) reason)) (n + 1) n
  /-- One is opened if it is announced. -/
  | keeps {event : Option Event} (n : ℕ) (own : ∀ told ∈ event, told.ofInstruction = true) :
      Tallies event n (n + if event.any Event.opens then 1 else 0)

/-- Nothing told opens and closes no frame. -/
lemma Tallies.rests (n : ℕ) : Tallies none n n := .keeps n (by simp)

namespace Frame

variable {f g : Frame} {chain : ChainView} {op : Opcode} {stipend afterGas : Gas}

/-! ## While an instruction is carried out -/

/-- What a creation has told: it is announced once the nonce has been raised. -/
def createTold (f : Frame) (chain : ChainView) (afterGas : Gas) (value offset len : Word)
    (salt : Option Word) : Option Event := do
  let self := f.context.address
  if ← (f.cannotEnter chain value).toOption then none
  else
    let code := f.machine.memory.read offset len
    let nonce ← (f.overlay.nonce self chain.log).toOption
    let address :=
      match salt with
      | some salt => saltedAddress self salt code
      | none => createAddress self nonce
    let raised ← (nextNonce nonce).toOption
    let _ ← (f.overlay.setNonce self raised chain.log).toOption
    return .create self address value code (forwardable chain.rules afterGas)

/-- What a call has told: it is announced once the code has been read. -/
def callTold (f : Frame) (chain : ChainView) (kind : CallKind) (stipend afterGas : Gas)
    (o : CallOperands) : Option Event := do
  if ← (f.cannotEnter chain o.value).toOption then none
  else
    let gasLimit := min (Gas.mk o.gas) (forwardable chain.rules afterGas) + stipend
    let input := f.machine.memory.read o.inOffset o.inLen
    let code ← (f.overlay.code o.target chain.log).toOption
    let context := callContext kind f.context o.target code input gasLimit o.value
    return .call o.target input gasLimit context.isStatic context

/-- What a destruction has told: it is announced before any balance is moved. -/
def selfDestructTold (f : Frame) (chain : ChainView) (target : Address) : Option Event := do
  let balance ← (f.overlay.balance f.context.address chain.log).toOption
  return .selfDestruct f.context.address target balance

/-- **What a trapped opcode has told** by the time it ends or stops. -/
def performTold (f : Frame) (chain : ChainView) (op : Opcode) (stipend afterGas : Gas) :
    Option Event :=
  match op.instruction, f.machine.stack.items with
  | .create .byNonce, value :: offset :: len :: _ =>
    f.createTold chain afterGas value offset len none
  | .create .bySalt, value :: offset :: len :: salt :: _ =>
    f.createTold chain afterGas value offset len (some salt)
  | .call kind, items =>
    (callOperands? kind items).bind fun (operands, _) =>
      f.callTold chain kind stipend afterGas operands
  | .selfDestruct, target :: _ => f.selfDestructTold chain (Address.ofWord target)
  | _, _ => none

/-- **An operation that reports what it has told,** and asks for a frame just if that announces
    one. -/
def Tells (event : Option Event) (result : Frame × Except Interrupt Performed) : Prop :=
  ∀ done, result.2 = .ok done →
    done.event = event ∧ done.control.invoked?.isSome = event.any Event.opens

lemma tells_done {control : FrameControl} (h : control.invoked? = none) :
    Tells none (f, .ok ⟨control, none⟩) := by
  intro done hdone
  cases hdone
  exact ⟨rfl, by rw [h]; rfl⟩

lemma tells_giving (w : Word) : Tells none (f.giving w) := by
  simp only [giving]
  split <;> exact tells_done rfl

lemma tells_writing (result : Except ExitFatal Memory) : Tells none (f.writing result) := by
  simp only [writing]
  split <;> exact tells_done rfl

lemma tells_attempt {α : Type} {event : Option Event} {result : Except Interrupt α}
    {k : α → Frame × Except Interrupt Performed}
    (hk : ∀ a, result = .ok a → Tells event (k a)) : Tells event (f.attempt result k) := by
  cases result with
  | ok a => exact hk a rfl
  | error i =>
      intro done hdone
      cases hdone

lemma tells_reading {α : Type} {event : Option Event} {result : Except Requirement α}
    {k : α → Frame × Except Interrupt Performed}
    (hk : ∀ a, result = .ok a → Tells event (k a)) : Tells event (f.reading result k) := by
  cases result with
  | ok a => exact hk a rfl
  | error r =>
      intro done hdone
      cases hdone

/-- A frame is announced and asked for if its result fits on the stack. -/
lemma tells_asking {w : Word} {control : FrameControl} {event : Event}
    (hroom : f.machine.stack.size < f.machine.stack.limit)
    (hasks : control.invoked?.isSome = event.opens) :
    Tells (some event) (f.giving w control (some event)) := by
  have hpush : f.machine.stack.push w =
      .ok { f.machine.stack with items := w :: f.machine.stack.items } :=
    if_neg (Nat.not_lt.mpr hroom)
  simp only [giving, hpush]
  intro done hdone
  cases hdone
  exact ⟨rfl, hasks⟩

lemma tells_performCreate {value offset len : Word} {salt : Option Word}
    (hroom : f.machine.stack.size < f.machine.stack.limit) :
    Tells (f.createTold chain afterGas value offset len salt)
      (f.performCreate chain afterGas value offset len salt) := by
  refine tells_reading fun declined hdeclined => ?_
  have hentered : f.cannotEnter chain value = .ok declined := hdeclined
  split
  · rename_i htrue
    have htold : f.createTold chain afterGas value offset len salt = none := by
      simp only [createTold, hentered, Except.toOption, htrue]
      rfl
    rw [htold]
    exact tells_giving _
  · rename_i hfalse
    refine tells_reading fun nonce hnonce => tells_attempt fun raised hraised => ?_
    refine tells_reading fun overlay hoverlay => ?_
    have hnonce' : f.overlay.nonce f.context.address chain.log = .ok nonce := hnonce
    have hoverlay' : f.overlay.setNonce f.context.address raised chain.log = .ok overlay := hoverlay
    have htold : f.createTold chain afterGas value offset len salt =
        some (.create f.context.address
          (match salt with
            | some salt =>
              saltedAddress f.context.address salt (f.machine.memory.read offset len)
            | none => createAddress f.context.address nonce)
          value (f.machine.memory.read offset len) (forwardable chain.rules afterGas)) := by
      simp [createTold, hentered, hnonce', hraised, hoverlay', Except.toOption, hfalse]
    rw [htold]
    exact tells_asking hroom rfl

lemma tells_performCall {kind : CallKind} {o : CallOperands}
    (hroom : f.machine.stack.size < f.machine.stack.limit) :
    Tells (f.callTold chain kind stipend afterGas o)
      (f.performCall chain kind stipend afterGas o) := by
  refine tells_reading fun declined hdeclined => ?_
  have hentered : f.cannotEnter chain o.value = .ok declined := hdeclined
  split
  · rename_i htrue
    have htold : f.callTold chain kind stipend afterGas o = none := by
      simp only [callTold, hentered, Except.toOption, htrue]
      rfl
    rw [htold]
    exact tells_giving _
  · rename_i hfalse
    refine tells_reading fun code hcode => ?_
    have hcode' : f.overlay.code o.target chain.log = .ok code := hcode
    obtain rfl : declined = false := Bool.eq_false_of_not_eq_true hfalse
    rw [callTold, hentered, hcode']
    exact tells_asking hroom rfl

lemma tells_performSelfDestruct {target : Address} :
    Tells (f.selfDestructTold chain target) (f.performSelfDestruct chain target) := by
  refine tells_reading fun balance hbalance => tells_reading fun paid _ => ?_
  refine tells_reading fun remaining _ => tells_reading fun overlay _ => ?_
  have htold : f.selfDestructTold chain target =
      some (.selfDestruct f.context.address target balance) := by
    simp only [selfDestructTold, hbalance, Except.toOption]
    rfl
  rw [htold]
  intro done hdone
  cases hdone
  exact ⟨rfl, rfl⟩

/-- An instruction that takes more than it gives leaves room for its result. -/
lemma room_of_check {taken given : ℕ} {rest : List Word} (hs : f.checkStack op.instruction = .ok ())
    (harity : op.instruction.arity = some (taken, given + 1))
    (hitems : f.machine.stack.items.length = taken + rest.length) :
    rest.length < f.machine.stack.limit := by
  simp only [checkStack, harity] at hs
  obtain ⟨-, hroom⟩ := check_eq_ok.mp hs
  simp only [OperandStack.size, hitems] at hroom
  omega

lemma callOperands_length {kind : CallKind} {items rest : List Word} {o : CallOperands}
    (h : callOperands? kind items = some (o, rest)) :
    ∃ taken, (Instruction.call kind).arity = some (taken, 1) ∧
      items.length = taken + rest.length := by
  simp only [callOperands?] at h
  split at h <;> cases h <;> exact ⟨_, rfl, by simp only [List.length_cons]; omega⟩

/-- Only creations, calls and destructions tell anything. -/
lemma performTold_none (hc : ∀ kind, op.instruction ≠ .create kind)
    (hk : ∀ kind, op.instruction ≠ .call kind) (hd : op.instruction ≠ .selfDestruct) :
    f.performTold chain op stipend afterGas = none := by
  simp only [performTold]
  split
  · exact absurd ‹_› (hc _)
  · exact absurd ‹_› (hc _)
  · exact absurd ‹_› (hk _)
  · exact absurd ‹_› hd
  · rfl

/-- **A trapped opcode** that passed its check reports what it has told. -/
lemma tells_perform (hs : f.checkStack op.instruction = .ok ()) :
    Tells (f.performTold chain op stipend afterGas) (f.perform chain op stipend afterGas) := by
  simp only [perform]
  split
  case h_1 hi =>
      simp only [performTold, hi]
      exact tells_giving _
  case h_2 hi _ =>
      simp only [performTold, hi]
      exact tells_giving _
  case h_3 hi _ | h_4 hi _ | h_6 hi _ | h_9 hi _ =>
      simp only [performTold, hi]
      exact tells_reading fun _ _ => tells_giving _
  case h_5 hi _ =>
      simp only [performTold, hi]
      exact tells_reading fun _ _ => tells_writing _
  case h_7 hi _ =>
      simp only [performTold, hi]
      exact tells_writing _
  case h_8 hi _ =>
      simp only [performTold, hi]
      split
      · exact tells_reading fun _ _ => tells_giving _
      · exact tells_giving _
  case h_10 hi _ =>
      simp only [performTold, hi]
      exact tells_reading fun _ _ => tells_done rfl
  case h_11 hi _ =>
      simp only [performTold, hi]
      split <;> exact tells_done rfl
  case h_12 value offset len items hi hitems =>
      have htold : f.performTold chain op stipend afterGas =
          (f.withItems items).createTold chain afterGas value offset len none := by
        simp only [performTold, hi, hitems]
        rfl
      have harity := congrArg Instruction.arity hi
      have hroom : items.length < f.machine.stack.limit :=
        room_of_check hs harity (by simp only [hitems, List.length_cons]; omega)
      rw [htold]
      exact tells_performCreate hroom
  case h_13 value offset len salt items hi hitems =>
      have htold : f.performTold chain op stipend afterGas =
          (f.withItems items).createTold chain afterGas value offset len (some salt) := by
        simp only [performTold, hi, hitems]
        rfl
      have harity := congrArg Instruction.arity hi
      have hroom : items.length < f.machine.stack.limit :=
        room_of_check hs harity (by simp only [hitems, List.length_cons]; omega)
      rw [htold]
      exact tells_performCreate hroom
  case h_14 kind hi =>
      split
      · rename_i operands items hoperands
        have htold : f.performTold chain op stipend afterGas =
            (f.withItems items).callTold chain kind stipend afterGas operands := by
          simp only [performTold, hi, hoperands, Option.bind_some]
          rfl
        obtain ⟨taken, harity, hlen⟩ := callOperands_length hoperands
        have hroom : items.length < f.machine.stack.limit := room_of_check hs (hi ▸ harity) hlen
        rw [htold]
        exact tells_performCall hroom
      · rename_i hoperands
        have htold : f.performTold chain op stipend afterGas = none := by
          simp only [performTold, hi, hoperands, Option.bind_none]
        rw [htold]
        exact tells_done rfl
  case h_15 target items hi hitems =>
      have htold : f.performTold chain op stipend afterGas =
          (f.withItems items).selfDestructTold chain (Address.ofWord target) := by
        simp only [performTold, hi, hitems]
        rfl
      rw [htold]
      exact tells_performSelfDestruct
  case h_16 =>
      have htold : f.performTold chain op stipend afterGas = none := by
        simp only [performTold]
      rw [htold]
      split <;> exact tells_done rfl

/-! ## While a step is taken -/

/-- **What a step of the frame has told** by the time it ends or stops.  An instruction tells
    nothing before it has been checked and paid for. -/
def told (f : Frame) (chain : ChainView) : Option Event :=
  match f.status, chain.ruleset.precompile? f.context.codeAddress, f.machine.nextOpcode? with
  | .running, none, some op =>
    match f.check chain op, f.charge chain op.instruction with
    | .ok (), .ok c =>
      match f.afford chain.rules op.instruction c with
      | .ok (afterGas, memory) => (f.withMemory memory).performTold chain op c.stipend afterGas
      | .error _ => none
    | _, _ => none
  | _, _, _ => none

/-- **An instruction that is executed** reports what it has told. -/
lemma tells_execute (hop : f.machine.nextOpcode? = some op)
    (hs : f.checkStack op.instruction = .ok ()) :
    Tells (f.performTold chain op stipend afterGas) (f.execute chain stipend afterGas) := by
  simp only [execute]
  cases hlocal : op.instruction.isLocal with
  | true =>
      have htold : f.performTold chain op stipend afterGas = none := by
        refine performTold_none ?_ ?_ ?_ <;> intros <;> intro hi <;> rw [hi] at hlocal <;>
          cases hlocal
      rw [htold]
      split
      · exact tells_done rfl
      · exact tells_done rfl
      · exact absurd ‹_› (Machine.step_of_local _ hop hlocal)
  | false =>
      obtain ⟨p, hstep⟩ := Machine.step_of_trap _ hop hlocal
      rw [hstep]
      exact tells_perform hs

/-- What a trapped opcode tells is a call, a creation or a destruction. -/
lemma performTold_ofInstruction {event : Event}
    (h : f.performTold chain op stipend afterGas = some event) : event.ofInstruction = true := by
  have hcreate {value offset len : Word} {salt : Option Word}
      (h : f.createTold chain afterGas value offset len salt = some event) :
      event.ofInstruction = true := by
    simp only [createTold, Option.bind_eq_bind, Option.bind_eq_some_iff] at h
    obtain ⟨declined, -, h⟩ := h
    split at h
    · cases h
    · simp only [Option.bind_eq_some_iff] at h
      obtain ⟨nonce, -, raised, -, overlay, -, h⟩ := h
      cases h
      rfl
  simp only [performTold] at h
  split at h
  · exact hcreate h
  · exact hcreate h
  · obtain ⟨⟨operands, rest⟩, -, h⟩ := Option.bind_eq_some_iff.mp h
    simp only [callTold, Option.bind_eq_bind, Option.bind_eq_some_iff] at h
    obtain ⟨declined, -, h⟩ := h
    split at h
    · cases h
    · obtain ⟨code, -, h⟩ := Option.bind_eq_some_iff.mp h
      cases h
      rfl
  · simp only [selfDestructTold, Option.bind_eq_bind, Option.bind_eq_some_iff] at h
    obtain ⟨balance, -, h⟩ := h
    cases h
    rfl
  · cases h

lemma told_ofInstruction {event : Event} (h : f.told chain = some event) :
    event.ofInstruction = true := by
  simp only [told] at h
  split at h
  · split at h
    · split at h
      · exact performTold_ofInstruction h
      · cases h
    · cases h
  · cases h

/-- What a running frame tells is what its next instruction tells. -/
lemma told_of_next (hr : f.status = .running)
    (hcode : chain.ruleset.precompile? f.context.codeAddress = none)
    (hop : f.machine.nextOpcode? = some op) : f.told chain =
      match f.check chain op, f.charge chain op.instruction with
      | .ok (), .ok c =>
        match f.afford chain.rules op.instruction c with
        | .ok (afterGas, memory) => (f.withMemory memory).performTold chain op c.stipend afterGas
        | .error _ => none
      | _, _ => none := by
  simp only [told, hr, hcode, hop]

lemma told_of_rest (h : ∀ op, f.status = .running →
    chain.ruleset.precompile? f.context.codeAddress = none → f.machine.nextOpcode? ≠ some op) :
    f.told chain = none := by
  simp only [told]

/-- **A running frame reports what it has told,** and afterwards asks for a frame just if that
    announces one. -/
lemma step_told {event : Option Event} (hr : f.status = .running)
    (h : f.step chain = (g, .ok event)) :
    f.told chain = event ∧ g.status.invoked?.isSome = event.any Event.opens := by
  have hended (reason : ExitReason) : (f.exit reason).status.invoked?.isSome = false := by
    rw [invoked?_exit]
    rfl
  simp only [step, hr] at h
  split at h
  · rename_i c hcode
    cases h
    refine ⟨told_of_rest fun op _ hnone => (by cases hcode.symm.trans hnone), ?_⟩
    simp only [runPrecompile]
    split <;> rfl
  · rename_i hcode
    split at h
    · rename_i hnext
      cases h
      refine ⟨told_of_rest fun op _ _ hop => (by cases hnext.symm.trans hop), rfl⟩
    · rename_i op hop
      rw [told_of_next hr hcode hop]
      simp only [stepAt] at h
      split at h
      · rename_i hcheck
        cases h
        rw [hcheck]
        exact ⟨rfl, rfl⟩
      · cases h
      · rename_i hcheck
        obtain ⟨c, hcharge, h⟩ := reading_eq_ok.mp h
        simp only [hcheck, hcharge]
        split at h
        · rename_i reason hafford
          cases h
          rw [hafford]
          exact ⟨rfl, hended reason⟩
        · rename_i afterGas memory hafford
          simp only [hafford]
          have hs : f.checkStack op.instruction = .ok () := (check_parts.mp hcheck).2.1
          simp only [conclude] at h
          split at h <;> rename_i hexecute
          · rename_i g' done
            cases h
            obtain ⟨htold, hasked⟩ := tells_execute (f := f.withMemory memory) hop hs done
              (congrArg Prod.snd hexecute)
            have hrunning : (g'.book c).status = .running :=
              (execute_effect (f := f.withMemory memory) hop hs hexecute).same.2.2.2.trans hr
            rw [(follow_status hrunning _).1]
            exact ⟨htold.symm, htold ▸ hasked⟩
          · cases h

/-- **A step that has to wait has told nothing,** so nothing is told twice. -/
lemma told_of_requires {r : Requirement} (h : f.step chain = (g, .error (.requires r))) :
    f.told chain = none := by
  simp only [step] at h
  split at h <;> rename_i hr
  · split at h <;> rename_i hcode
    · cases h
    · split at h
      · cases h
      · rename_i op hop
        rw [told_of_next hr hcode hop]
        simp only [stepAt] at h
        split at h
        · cases h
        · rename_i hcheck
          rw [hcheck]
        · rename_i hcheck
          cases hcharge : f.charge chain op.instruction with
          | error missing => simp only [hcheck]
          | ok c =>
              simp only [hcharge, reading_ok] at h
              split at h
              · cases h
              · -- the instruction has passed its check, so nothing is missing any more
                rename_i afterGas memory hafford
                have hexec := asksNothing_execute hop hcheck memory c.stipend afterGas
                simp only [conclude] at h
                split at h
                · cases h
                · rename_i he
                  cases h
                  rw [AsksNothing, he] at hexec
                  cases hexec
  · cases h

end Frame

/-! ## Steps of a call stack -/

namespace CallStack

variable {s s' : CallStack} {chain : ChainView}

/-- **What a step of the frames has told:** what the current frame has told, or the end of a frame
    that has been taken back. -/
def told (s : CallStack) (chain : ChainView) : Option Event :=
  match s.current.status, s.waiting with
  | .running, _ => s.current.told chain
  | .invokeCall .., _ | .invokeCreate .., _ => none
  | _, parent :: _ =>
    match parent.absorb s.current chain with
    | (_, sub, .ok ()) => some (.exit s.waiting.length (exitReason sub))
    | _ => none
  | _, [] => none

/-- What an ended frame tells: that it has been taken back, once it has. -/
lemma told_of_ended (hended : s.current.status.isExited = true) : s.told chain =
    match s.waiting with
    | [] => none
    | parent :: _ =>
      match parent.absorb s.current chain with
      | (_, sub, .ok ()) => some (.exit s.waiting.length (exitReason sub))
      | _ => none := by
  simp only [told]
  cases hs : s.current.status with
  | running | invokeCall | invokeCreate =>
      rw [hs] at hended
      cases hended
  | _ => cases s.waiting <;> rfl

/-- What a frame tells that asks for another: nothing, since it has announced it before. -/
lemma told_of_asked {context : Context} (hasked : s.current.status.invoked? = some context) :
    s.told chain = none := by
  simp only [told]
  cases hs : s.current.status with
  | invokeCall | invokeCreate => rfl
  | _ =>
      rw [hs] at hasked
      cases hasked

/-- **A step of the frames reports what it has told.** -/
lemma step_told {event : Option Event} (h : s.step chain = (s', .ok event)) :
    s.told chain = event := by
  simp only [step] at h
  split at h
  · rename_i hrunning
    rcases hf : s.current.step chain with ⟨g, result⟩
    rw [hf] at h
    cases h
    simp only [told, hrunning]
    exact (Frame.step_told hrunning hf).1
  · split at h <;> cases h
    exact told_of_asked (by rw [‹s.current.status = _›]; rfl)
  · split at h <;> cases h
    exact told_of_asked (by rw [‹s.current.status = _›]; rfl)
  · rename_i hrunning hcall hcreate
    rw [told_of_ended (FrameStatus.ended hcall hcreate hrunning)]
    cases hbelow : s.waiting with
    | nil =>
        simp only [hbelow] at h
        cases h
        rfl
    | cons parent rest =>
        simp only [hbelow] at h
        dsimp only
        split at h <;> rename_i habsorb <;> cases h
        rw [habsorb]

/-- A step of the frames that has to wait has told nothing. -/
lemma told_of_requires {r : Requirement} (h : s.step chain = (s', .error (.requires r))) :
    s.told chain = none := by
  simp only [step] at h
  split at h
  · rename_i hrunning
    rcases hf : s.current.step chain with ⟨g, result⟩
    rw [hf] at h
    cases h
    simp only [told, hrunning]
    exact Frame.told_of_requires hf
  · exact told_of_asked (by rw [‹s.current.status = _›]; rfl)
  · exact told_of_asked (by rw [‹s.current.status = _›]; rfl)
  · split at h
    · cases h
    · rename_i parent rest hbelow
      split at h <;> rename_i habsorb <;> cases h
      simp only [told, hbelow, habsorb]

/-- The frames that have been announced and not taken back: those that wait, and the current one
    once it asks for another. -/
def openFrames (s : CallStack) : ℕ :=
  s.waiting.length + if s.current.status.invoked?.isSome then 1 else 0

lemma openFrames_of_ended (h : s.current.status.isExited = true) :
    s.openFrames = s.waiting.length := by
  simp only [openFrames, FrameStatus.invoked?_eq_none h]
  rfl

/-- A frame that others go back into asks for nothing afterwards. -/
lemma unasked_of_absorb {parent parent' ended sub : Frame}
    (h : parent.absorb ended chain = (parent', sub, .ok ())) :
    parent'.status.invoked? = none := by
  cases Frame.absorb_absorbed h with
  | returned => exact Frame.invoked?_resume _ _ _
  | created => exact Frame.invoked?_resume _ _ _
  | dropped unasked => exact unasked

lemma openFrames_of_exited (h : s.isExited = true) : s.openFrames = 0 := by
  simp only [isExited, Bool.and_eq_true, List.isEmpty_iff] at h
  rw [openFrames_of_ended h.2, h.1]
  rfl

/-- **A step opens a frame, closes one or leaves them all.** -/
lemma step_tallies {event : Option Event} (h : s.step chain = (s', .ok event)) :
    Tallies event s.openFrames s'.openFrames := by
  have htold := step_told h
  cases step_stepped h with
  | @ran g running stepped =>
      obtain ⟨hevent, hasked⟩ := Frame.step_told running (step_of_running running h)
      have hopen : s.openFrames = s.waiting.length := by
        simp only [openFrames, running]
        rfl
      rw [hopen, openFrames, hasked]
      exact .keeps _ fun told hmem => Frame.told_ofInstruction (hevent.trans hmem)
  | @entered context sub asked begun =>
      obtain rfl : none = event := (told_of_asked asked).symm.trans htold
      have hopen : (s.enter sub).openFrames = s.openFrames := by
        simp only [openFrames, enter, begun.unasked rfl, asked]
        rfl
      rw [hopen]
      exact .rests _
  | rested ended alone =>
      obtain rfl : none = event := by
        rw [told_of_ended ended, alone] at htold
        exact htold
      exact .rests _
  | @left parent parent' sub rest ended below absorbs =>
      rw [told_of_ended ended, below] at htold
      simp only [absorbs] at htold
      obtain rfl := htold
      have hopen : (⟨parent', rest⟩ : CallStack).openFrames = rest.length := by
        simp only [openFrames, unasked_of_absorb absorbs]
        rfl
      rw [openFrames_of_ended ended, below, hopen]
      exact .closes _ _

end CallStack

/-! ## Steps of an execution -/

namespace Execution

variable {x x' : Execution} {chain : ChainView}

/-- **What a step of an execution has told.**  Depositing and settling tell nothing. -/
def told (x : Execution) (chain : ChainView) : Option Event :=
  if x.settled || x.calls.isExited then none else x.calls.told chain

lemma step_told {event : Option Event} (h : x.step chain = (x', .ok event)) :
    x.told chain = event := by
  simp only [step] at h
  simp only [told]
  split at h <;> rename_i hsettled
  · cases h
    rw [hsettled]
    rfl
  · split at h <;> rename_i hexited
    · split at h <;> cases h
      rw [hexited, Bool.or_true]
      rfl
    · rcases hs : x.calls.step chain with ⟨calls, result⟩
      rw [hs] at h
      cases h
      rw [Bool.eq_false_of_not_eq_true hsettled, Bool.eq_false_of_not_eq_true hexited]
      exact CallStack.step_told hs

lemma told_of_requires {r : Requirement} (h : x.step chain = (x', .error (.requires r))) :
    x.told chain = none := by
  simp only [step] at h
  simp only [told]
  split at h <;> rename_i hsettled
  · cases h
  · split at h <;> rename_i hexited
    · rw [hexited, Bool.or_true]
      rfl
    · rcases hs : x.calls.step chain with ⟨calls, result⟩
      rw [hs] at h
      cases h
      rw [Bool.eq_false_of_not_eq_true hsettled, Bool.eq_false_of_not_eq_true hexited]
      exact CallStack.told_of_requires hs

/-- Depositing and settling open and close no frame. -/
lemma step_tallies {event : Option Event} (h : x.step chain = (x', .ok event)) :
    Tallies event x.calls.openFrames x'.calls.openFrames := by
  simp only [step] at h
  split at h
  · cases h
    exact .rests _
  · split at h
    · rename_i hexited
      split at h <;> rename_i hfinish <;> cases h
      have hwound := (finish_windsUp hexited hfinish).1
      rw [CallStack.openFrames_of_exited hwound.isExited, CallStack.openFrames_of_exited hexited]
      exact .rests _
    · rcases hs : x.calls.step chain with ⟨calls, result⟩
      rw [hs] at h
      cases h
      exact CallStack.step_tallies hs

lemma openFrames_of_requires {r : Requirement} (h : x.step chain = (x', .error (.requires r))) :
    x'.calls.openFrames = x.calls.openFrames := by
  simp only [step] at h
  split at h
  · cases h
  · split at h
    · rename_i hexited
      split at h <;> rename_i hfinish <;> cases h
      have hwound := (finish_windsUp hexited hfinish).1
      rw [CallStack.openFrames_of_exited hwound.isExited, CallStack.openFrames_of_exited hexited]
    · rcases hs : x.calls.step chain with ⟨calls, result⟩
      rw [hs] at h
      cases h
      rw [CallStack.step_requires hs]

lemma openFrames_of_accept {t : Transaction} (h : t.accept chain = .ok (.ok x)) :
    x.calls.openFrames = 0 := by
  obtain ⟨-, halone, -, paid, code, -, hbegun⟩ := Transaction.accept_begins h
  rw [root_of_alone halone] at hbegun
  simp only [CallStack.openFrames, halone, hbegun.unasked rfl]
  rfl

end Execution

end ResumableEvm
