import ResumableEvm.Proofs.Isolation
import ResumableEvm.Proofs.ReservedMemory

/-!
# A metered frame refines the plain machine

A frame that meets only instructions of the machine, all of them enabled, does what the machine
does by itself.  The frame checks the stack from a table, pays from a table and extends memory
before the instruction; the machine finds all of this out on its way.  The two agree step by
step until one of them ends, and then end alike, unless gas or the memory limit stopped the frame.

* `Frame.stepTimes` — the run of a frame by itself.
* `Frame.Metered` — a running frame whose memory is what it has paid for.
* `Frame.Mirrors` — a step of the frame beside the step of its machine.
* `metered_frame_refines_machine` — the runs end alike.
-/

namespace ResumableEvm

/-- A region of no bytes is empty. -/
lemma Bytes.slice_empty (b : Bytes) (offset : ℕ) : b.slice offset 0 = ByteArray.empty :=
  ByteArray.size_eq_zero_iff.mp (size_slice b offset 0)

namespace Frame

variable {f g : Frame} {chain : ChainView} {op : Opcode} {c : Charge} {i : Instruction}

/-- The frame after so many steps by itself. -/
def stepTimes (chain : ChainView) : ℕ → Frame → Frame
  | 0, f => f
  | n + 1, f => stepTimes chain n (f.step chain).1

/-- **Local code.**  Whatever opcode the frame comes to, the machine carries it out itself, and the
    rules have it. -/
def MeetsLocal (chain : ChainView) (f : Frame) : Prop :=
  ∀ n op, (f.stepTimes chain n).machine.nextOpcode? = some op →
    op.instruction.isLocal = true ∧ op.instruction.isEnabled chain.rules = true

lemma stepTimes_add (chain : ChainView) (n k : ℕ) (f : Frame) :
    f.stepTimes chain (n + k) = (f.stepTimes chain n).stepTimes chain k := by
  induction n generalizing f with
  | zero => rw [Nat.zero_add]; rfl
  | succ n ih =>
      rw [Nat.succ_add]
      exact ih _

/-- A frame that does not run stays as it is. -/
lemma stepTimes_resting (h : f.status ≠ .running) (n : ℕ) : f.stepTimes chain n = f := by
  have hstep : (f.step chain).1 = f := by
    cases hstatus : f.status with
    | running => exact absurd hstatus h
    | _ => simp only [step, hstatus]
  induction n with
  | zero => rfl
  | succ n ih => rw [stepTimes, hstep, ih]

/-- The opcodes that a frame comes to are those it comes to before it ends. -/
lemma meetsLocal_of_ended {n : ℕ} (hended : (f.stepTimes chain n).status ≠ .running)
    (hlast : (f.stepTimes chain n).machine.nextOpcode? = none)
    (h : ∀ k < n, ∀ op, (f.stepTimes chain k).machine.nextOpcode? = some op →
      op.instruction.isLocal = true ∧ op.instruction.isEnabled chain.rules = true) :
    f.MeetsLocal chain := by
  intro k op hop
  rcases Nat.lt_or_ge k n with hk | hk
  · exact h k hk op hop
  · obtain ⟨k, rfl⟩ := Nat.exists_eq_add_of_le hk
    rw [stepTimes_add, stepTimes_resting hended, hlast] at hop
    cases hop

/-! ## Local instructions are checked by the stack alone -/

lemma wordsNeeded_local (hlocal : i.isLocal = true) :
    f.wordsNeeded i = expand f.memoryWords (i.region f.machine.stack).1
      (i.region f.machine.stack).2 := by
  cases i <;> first | rfl | cases hlocal

lemma exists_arity_local (hlocal : i.isLocal = true) :
    ∃ taken given, i.arity = some (taken, given) := by
  cases i <;> first | exact ⟨_, _, rfl⟩ | cases hlocal

/-- A local instruction is stopped by nothing but its operands. -/
lemma check_local (f : Frame) (hlocal : op.instruction.isLocal = true)
    (henabled : op.instruction.isEnabled chain.rules = true) :
    f.check chain op = (f.checkStack op.instruction).mapError .fails := by
  have hstatic : f.checkStatic op.instruction = .ok () := by
    cases hi : op.instruction <;> rw [hi] at hlocal <;> first | rfl | cases hlocal
  have hreturn : f.checkReturnData op.instruction = .ok () := by
    cases hi : op.instruction <;> rw [hi] at hlocal <;> first | rfl | cases hlocal
  have hknown : f.checkKnown chain op.instruction = .ok () := by
    cases hi : op.instruction <;> rw [hi] at hlocal <;> first | rfl | cases hlocal
  simp only [check, henabled, if_true, hstatic, hreturn, hknown]
  cases f.checkStack op.instruction <;> cases f.context.isStatic <;> rfl

/-- The charge of a local instruction asks for nothing. -/
lemma charge_local (f : Frame) (chain : ChainView) (hlocal : i.isLocal = true) :
    ∃ c, f.charge chain i = .ok c ∧
      c.words = expand f.memoryWords (i.region f.machine.stack).1
        (i.region f.machine.stack).2 := by
  have hprice : ∃ price, f.price chain i = .ok price := by
    cases i with
    | binary op => cases op <;> exact ⟨_, rfl⟩
    | _ => first | exact ⟨_, rfl⟩ | cases hlocal
  have hrefund : f.refundOf chain i = .ok 0 := by
    cases i <;> first | rfl | cases hlocal
  obtain ⟨price, hprice⟩ := hprice
  refine ⟨⟨f.wordsNeeded i, price, f.stipend i, 0⟩, ?_, wordsNeeded_local hlocal⟩
  simp only [charge, hprice, hrefund]
  rfl

/-- What a frame cannot pay for is gas or memory past the limit. -/
lemma afford_local {reason : ExitReason} (hlocal : i.isLocal = true)
    (h : f.afford chain.rules i c = .error reason) :
    reason = .error .outOfGas ∨ ∃ e, reason = .fatal e := by
  simp only [afford] at h
  split at h
  · cases h
    exact .inl rfl
  · split at h
    · cases h
      exact .inr ⟨_, rfl⟩
    · rename_i hmemory
      have hasks : ∀ rules afterGas, f.asksTooMuch rules i afterGas = false := by
        intro rules afterGas
        cases i <;> first | rfl | cases hlocal
      obtain ⟨memory, hresize⟩ := f.machine.memory.resizeEnd_ok
        ((Nat.le_of_not_lt hmemory).trans (memoryLimit_le chain.rules))
      rw [hasks, if_neg Bool.false_ne_true, hresize] at h
      cases h

/-! ## Paid memory -/

/-- **Memory that was paid for** covers the region of the instruction, and no more is extended
    than the machine would have extended itself. -/
lemma reserved_of_paid {memory memory' : Memory} {words : Gas} {offset len : Word}
    {rules : Rules} (hpaid : memory.effective = words.toNat * 32)
    (hlimit : (expand words offset len * 32).toNat ≤ rules.memoryLimit.toNat)
    (h : memory.resizeEnd (expand words offset len * 32).toNat = .ok memory') :
    memory.resizeOffset offset len = .ok memory' ∧
      memory'.effective = (expand words offset len).toNat * 32 := by
  have hindex := hlimit.trans (memoryLimit_le rules)
  have hmax : maxIndex + 32 < maxWord := by decide
  have hend : (expand words offset len * 32).toNat = (expand words offset len).toNat * 32 := by
    rw [toNat_words_mul hindex, Nat.mul_comm]
  rw [hend] at h hindex
  by_cases hlen : len = 0
  · subst hlen
    have hsame : expand words offset 0 = words := if_pos rfl
    rw [hsame, Memory.resizeEnd, if_neg (by omega)] at h
    cases h
    exact ⟨Memory.resizeOffset_zero, by rw [hsame, hpaid]⟩
  · have hregion : (Gas.mk offset + Gas.mk len).toNat =
        min (offset.toNat + len.toNat) maxWord := Gas.toNat_add _ _
    have hcovered := (expand_covers hlimit).resolve_left hlen
    have hneeded : (expand words offset len).toNat =
        max words.toNat ((offset.toNat + len.toNat + 31) / 32) := by
      have := memoryLimit_le rules
      rw [expand, if_neg hlen, Gas.toNat_max, Gas.ofByteLength, Gas.toNat_ofNat, hregion]
      omega
    have hword : ¬ offset.toNat + len.toNat > maxWord := by omega
    rw [Memory.resizeOffset, if_neg hlen, if_neg hword]
    by_cases hgrows : offset.toNat + len.toNat > memory.effective
    · have hround : Memory.roundUp (offset.toNat + len.toNat) =
          (expand words offset len).toNat * 32 := by
        simp only [Memory.roundUp]
        omega
      have hround' : Memory.roundUp ((expand words offset len).toNat * 32) =
          (expand words offset len).toNat * 32 := by
        simp only [Memory.roundUp]
        omega
      rw [Memory.resizeEnd, if_pos (by omega), hround', if_neg (by omega)] at h
      rw [Memory.resizeEnd, if_pos hgrows, hround, if_neg (by omega)]
      cases h
      exact ⟨rfl, rfl⟩
    · rw [Memory.resizeEnd, if_neg (by omega)] at h
      rw [Memory.resizeEnd, if_neg hgrows]
      cases h
      exact ⟨rfl, by omega⟩

/-! ## One step -/

/-- **A metered frame.**  It is running, nothing has been returned, and the paid memory of its
    machine is what it has paid for. -/
structure Metered (f : Frame) : Prop where
  running : f.status = .running
  silent : f.out = ByteArray.empty
  unreturned : f.machine.returnRange = (0, 0)
  placed : ∃ position, f.machine.position = .ok position
  paid : f.machine.memory.effective = f.memoryWords.toNat * 32
  room : f.machine.stack.size ≤ f.machine.stack.limit

/-- A frame that ended with output, beside the machine that ended by itself. -/
structure EndsLike (f : Frame) (m : Machine) : Prop where
  stack : f.machine.stack = m.stack
  memory : f.machine.memory.data = m.memory.data
  effective : f.machine.memory.effective = m.memory.effective
  output : f.out = m.returnValue

/-- Whether gas or the limit of memory stopped a frame. -/
def Curbed (f : Frame) : Prop :=
  f.status = .exitedErr .outOfGas ∨ ∃ e, f.status = .exitedNotSupported e

/-- **A step of the frame beside the step of its machine.** -/
inductive Mirrors (f g : Frame) : Prop where
  /-- Both go on. -/
  | goesOn (machine : f.machine.step = (g.machine, none)) (metered : g.Metered)
      (context : g.context = f.context)
  /-- Both end, and for the same reason. -/
  | ends {m : Machine} {reason : ExitReason} (machine : f.machine.step = (m, some (.exit reason)))
      (status : g.status = .ofReason reason) (alike : hasOutput reason = true → g.EndsLike m)
  /-- The frame could not pay. -/
  | curbed (stopped : g.Curbed)

/-- An instruction that the machine carries out is carried out alike by the frame that has paid
    for it. -/
lemma executed_mirrors {memory : Memory} {stipend afterGas : Gas} {position : ℕ} (hf : f.Metered)
    (hposition : f.machine.position = .ok position) (hop : f.machine.nextOpcode? = some op)
    (hlocal : op.instruction.isLocal = true)
    (henough : ∀ taken given, op.instruction.arity = some (taken, given) →
      taken ≤ f.machine.stack.size)
    (hwords : c.words = expand f.memoryWords (op.instruction.region f.machine.stack).1
      (op.instruction.region f.machine.stack).2)
    (hlimit : (c.words * 32).toNat ≤ chain.rules.memoryLimit.toNat)
    (hresize : f.machine.memory.resizeEnd (c.words * 32).toNat = .ok memory) :
    f.Mirrors (conclude c ((f.withMemory memory).execute chain stipend afterGas)).1 := by
  rw [hwords] at hlimit hresize
  obtain ⟨hreserved, heffective⟩ := reserved_of_paid hf.paid hlimit hresize
  have hindex := (expand_covers hlimit).imp_right (le_trans · (memoryLimit_le chain.rules))
  have hevaluate := Machine.evaluate_reserved hlocal henough hreserved hindex position
  have hsame : (f.withMemory memory).machine.step = f.machine.step :=
    Machine.step_eq_of_evaluate hposition hposition hop hop hevaluate
  have hgoes : (f.machine.withMemory memory).GoesOn
      ((f.machine.withMemory memory).evaluate op position) :=
    Machine.evaluate_goesOn (m := f.machine.withMemory memory) hf.room
      (Memory.resizeOffset_again hreserved) position
  rcases Machine.step_goesOn (m := f.machine.withMemory memory) hposition hop hlocal hgoes with
    ⟨m, reason, hexit, hhalted⟩ | ⟨m, hnext, hcontinues, hplaced⟩
  · have hexit' : (f.withMemory memory).machine.step = (m, some (.exit reason)) := hexit
    simp only [execute, hexit', conclude]
    refine .ends (hsame.symm.trans hexit') ?_ fun houtput => ?_
    · simp only [follow]
      rfl
    · simp only [follow, houtput, if_true]
      exact ⟨rfl, rfl, rfl, rfl⟩
  · have hnext' : (f.withMemory memory).machine.step = (m, none) := hnext
    simp only [execute, hnext', conclude]
    refine .goesOn (hsame.symm.trans hnext') ⟨hf.running, hf.silent, ?_, hplaced, ?_, ?_⟩ rfl
    · exact hcontinues.returnRange.trans hf.unreturned
    · show m.memory.effective = c.words.toNat * 32
      rw [hcontinues.effective, hwords]
      exact heffective
    · exact hcontinues.room

/-- **One step.**  A metered frame that meets a local instruction does what its machine does. -/
lemma stepAt_mirrors (hf : f.Metered) (hop : f.machine.nextOpcode? = some op)
    (hlocal : op.instruction.isLocal = true)
    (henabled : op.instruction.isEnabled chain.rules = true) :
    f.Mirrors (f.stepAt chain op).1 := by
  obtain ⟨position, hposition⟩ := hf.placed
  obtain ⟨taken, given, harity⟩ := exists_arity_local hlocal
  have hcheck := check_local f hlocal henabled
  simp only [checkStack, harity] at hcheck
  cases hstack : f.machine.stack.check taken given with
  | error e =>
      rw [hstack] at hcheck
      simp only [stepAt, hcheck, Except.mapError]
      have hrefused := Machine.evaluate_refused hlocal hf.room harity hstack position
      refine .ends (Machine.step_of_exit hposition hop hrefused) rfl fun houtput => ?_
      rcases Machine.check_eq_error hstack with ⟨-, rfl⟩ | ⟨-, -, rfl⟩ <;> cases houtput
  | ok =>
      rw [hstack] at hcheck
      obtain ⟨c, hcharge, hwords⟩ := charge_local f chain hlocal
      simp only [stepAt, hcheck, Except.mapError, hcharge, reading_ok]
      cases hafford : f.afford chain.rules op.instruction c with
      | error reason =>
          rcases afford_local hlocal hafford with rfl | ⟨e, rfl⟩
          · exact .curbed (.inl rfl)
          · exact .curbed (.inr ⟨e, rfl⟩)
      | ok paid =>
          obtain ⟨afterGas, memory⟩ := paid
          obtain ⟨-, hlimit, hresize⟩ := afford_eq_ok hafford
          have henough : ∀ taken' given', op.instruction.arity = some (taken', given') →
              taken' ≤ f.machine.stack.size := by
            intro taken' given' harity'
            cases harity.symm.trans harity'
            exact (check_eq_ok.mp hstack).1
          exact executed_mirrors hf hposition hop hlocal henough hwords hlimit hresize

/-- A metered frame past its code ends well, and its machine stops. -/
lemma step_mirrors (hf : f.Metered)
    (hcode : chain.ruleset.precompile? f.context.codeAddress = none)
    (hmeets : ∀ op, f.machine.nextOpcode? = some op →
      op.instruction.isLocal = true ∧ op.instruction.isEnabled chain.rules = true) :
    f.Mirrors (f.step chain).1 := by
  simp only [step, hf.running, hcode]
  cases hop : f.machine.nextOpcode? with
  | some op =>
      obtain ⟨hlocal, henabled⟩ := hmeets op hop
      exact stepAt_mirrors hf hop hlocal henabled
  | none =>
      obtain ⟨position, hposition⟩ := hf.placed
      have hstop : f.machine.step =
          (f.machine.halt (.succeed .stopped), some (.exit (.succeed .stopped))) := by
        simp only [Machine.step, hposition, hop, Machine.exitWith]
      have hreturned : (f.machine.halt (.succeed .stopped)).returnValue = ByteArray.empty := by
        simp only [Machine.returnValue, Machine.halt, hf.unreturned, Memory.get, Nat.sub_self]
        exact Bytes.slice_empty _ _
      exact .ends hstop rfl fun _ => ⟨rfl, rfl, rfl, hf.silent.trans hreturned.symm⟩

/-! ## Whole runs -/

/-- **The run of a frame beside the run of its machine.**  Both are still going, or the frame was
    stopped by its limits, or both have ended alike. -/
lemma stepTimes_mirrors (n : ℕ) (hf : f.Metered)
    (hcode : chain.ruleset.precompile? f.context.codeAddress = none)
    (hmeets : f.MeetsLocal chain) :
    (f.stepTimes chain n).Metered ∨ (f.stepTimes chain n).Curbed ∨
      ∃ fuel m reason, f.machine.run fuel = (m, some (.exit reason)) ∧
        (f.stepTimes chain n).status = .ofReason reason ∧
          (hasOutput reason = true → (f.stepTimes chain n).EndsLike m) := by
  induction n generalizing f with
  | zero => exact .inl hf
  | succ n ih =>
      cases step_mirrors hf hcode (hmeets 0) with
      | goesOn hmachine hmetered hcontext =>
          have hnext : (f.step chain).1.MeetsLocal chain := fun k => hmeets (k + 1)
          refine (ih hmetered (hcontext ▸ hcode) hnext).imp_right (Or.imp_right ?_)
          rintro ⟨fuel, m, reason, hrun, hend⟩
          refine ⟨fuel + 1, m, reason, ?_, hend⟩
          simp only [Machine.run, hmachine]
          exact hrun
      | ends hmachine hstatus halike =>
          rename_i m reason
          have hrests : (f.step chain).1.status ≠ .running := by
            rw [hstatus]
            cases reason <;> exact nofun
          rw [stepTimes, stepTimes_resting hrests]
          exact .inr (.inr ⟨1, m, reason, by simp only [Machine.run, hmachine], hstatus, halike⟩)
      | curbed hstopped =>
          have hrests : (f.step chain).1.status ≠ .running := by
            rcases hstopped with h | ⟨e, h⟩ <;> rw [h] <;> exact nofun
          rw [stepTimes, stepTimes_resting hrests]
          exact .inr (.inl hstopped)

/-- A frame at the start of its code is metered. -/
lemma create_metered (context : Context) (depth : ℕ) (overlay : Overlay) (rules : Rules) :
    (create context depth overlay rules).Metered :=
  ⟨rfl, rfl, rfl, ⟨0, rfl⟩, rfl, Nat.zero_le _⟩

/-- **A metered frame refines the plain machine.**  A frame at the start of code that leaves
    nothing to its surroundings, run until it ends, ends as the plain machine does on the same code
    and call data under the same limits: with the same error, or well.  Where there is output, the
    stack, the bytes and the paid length of memory and what is returned are the same.  Only gas and
    the limit of memory can stop the frame before. -/
theorem metered_frame_refines_machine (context : Context) (depth : ℕ) (overlay : Overlay)
    (chain : ChainView) (n : ℕ)
    (hcode : chain.ruleset.precompile? context.codeAddress = none)
    (hmeets : (create context depth overlay chain.rules).MeetsLocal chain)
    (hended : ((create context depth overlay chain.rules).stepTimes chain n).status.isExited = true)
    (hfree : ¬ ((create context depth overlay chain.rules).stepTimes chain n).Curbed) :
    ∃ fuel m reason,
      (Machine.create context.code context.data 1024 chain.rules.memoryLimit.toNat).run fuel =
        (m, some (.exit reason)) ∧
      ((create context depth overlay chain.rules).stepTimes chain n).status = .ofReason reason ∧
      (hasOutput reason = true →
        ((create context depth overlay chain.rules).stepTimes chain n).EndsLike m) := by
  have hmetered := create_metered context depth overlay chain.rules
  rcases stepTimes_mirrors n hmetered hcode hmeets with hruns | hcurbed | hends
  · rw [hruns.running] at hended
    cases hended
  · exact absurd hcurbed hfree
  · exact hends

/-! ## A frame that returns a word -/

/-- Code that writes 42 to memory and returns it. -/
def answering : Context :=
  ⟨100, 100, 100, ⟨#[0x60, 42, 0x60, 0, 0x52, 0x60, 32, 0x60, 0, 0xf3]⟩, ByteArray.empty, 1000, 1,
    100, 0, 0, false⟩

/-- The frame of that code after some steps. -/
def answeringAfter (n : ℕ) : Frame :=
  (create answering 0 (.empty .mainnet) .byzantium).stepTimes ⟨.byzantium, {}, {}⟩ n

/-- The plain machine returns the word as well. -/
theorem answering_refines : ∃ fuel m s,
    (Machine.create answering.code answering.data 1024 maxIndex).run fuel =
        (m, some (.exit (.succeed s))) ∧
      m.returnValue = Bytes.ofNat 32 42 ∧ m.memory.effective = 32 := by
  have hmeets : (create answering 0 (.empty .mainnet) .byzantium).MeetsLocal
      ⟨.byzantium, {}, {}⟩ :=
    meetsLocal_of_ended (n := 6) (by decide +kernel) (by decide +kernel) (by decide +kernel)
  have hstatus : (answeringAfter 6).status = .exitedOk := by decide +kernel
  have hfree : ¬ (answeringAfter 6).Curbed := by
    rintro (h | ⟨e, h⟩) <;> cases hstatus.symm.trans h
  obtain ⟨fuel, m, reason, hrun, hreason, halike⟩ :=
    metered_frame_refines_machine answering 0 (.empty .mainnet) ⟨.byzantium, {}, {}⟩ 6
      (by decide +kernel) hmeets (congrArg FrameStatus.isExited hstatus) hfree
  cases reason with
  | succeed s =>
      have hout : (answeringAfter 6).out = Bytes.ofNat 32 42 := by decide +kernel
      have hpaid : (answeringAfter 6).machine.memory.effective = 32 := by decide +kernel
      have hlike := halike rfl
      exact ⟨fuel, m, s, hrun, hlike.output.symm.trans hout, hlike.effective.symm.trans hpaid⟩
  | error e => cases hstatus.symm.trans hreason
  | fatal e => cases hstatus.symm.trans hreason

end Frame

end ResumableEvm
