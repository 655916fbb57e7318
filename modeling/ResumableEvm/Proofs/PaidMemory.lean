import ResumableEvm.Proofs.SparedMemory
import ResumableEvm.Proofs.StackDiscipline

/-!
# Memory is paid for

What a frame pays for memory is read off its operands before the instruction runs; what the
instruction touches is decided while it runs, and where a call writes its output only after the
call has ended.  The two agree: memory is always as long as was paid for, and once the gas and
the limit have been looked at no instruction fails for the sake of memory or touches a byte
behind it.

* `Instruction.regions` — the regions that an instruction pays for.
* `Frame.Tame` — an outcome that spares the bytes behind what is paid for.
* `Frame.perform_tame`, `Cleared.step_spares`, `Cleared.step_staysWithin` — a step that has paid
  is tame.
* `Frame.PaidFor` — the invariant of a frame.
* `Frame.memory_is_paid_for` — all of it together.
-/

namespace ResumableEvm

/-- **The regions that an instruction pays for,** by offset and length. -/
def Instruction.regions (s : OperandStack) : Instruction → List (Word × Word)
  | .keccak | .log _ => [(s.peekD 0, s.peekD 1)]
  | .returnDataCopy => [(s.peekD 0, s.peekD 2)]
  | .extCodeCopy => [(s.peekD 1, s.peekD 3)]
  | .create _ => [(s.peekD 1, s.peekD 2)]
  | .call .call | .call .callCode => [(s.peekD 3, s.peekD 4), (s.peekD 5, s.peekD 6)]
  | .call .delegateCall | .call .staticCall => [(s.peekD 2, s.peekD 3), (s.peekD 4, s.peekD 5)]
  | i => [i.region s]

/-- Whether so many bytes cover some regions. -/
def Covers (n : ℕ) (regions : List (Word × Word)) : Prop :=
  ∀ region ∈ regions, region.2 = 0 ∨ region.1.toNat + region.2.toNat ≤ n

/-- A frame goes on within so many bytes: memory is not to blame if it ends, and the output of a
    call that it asks for will fit. -/
def FrameControl.StaysWithin (n : ℕ) : FrameControl → Prop
  | .exit reason => reason.blamesMemory = false
  | .invokeCall _ offset len => len = 0 ∨ offset.toNat + len.toNat ≤ n
  | _ => True

/-- **A status that memory is not to blame for,** and a region for output that will fit. -/
structure FrameStatus.StaysWithin (n : ℕ) (s : FrameStatus) : Prop where
  supported : ∀ e, s ≠ .exitedNotSupported e
  inRange : s ≠ .exitedErr .invalidRange
  region : ∀ context offset len, s = .invokeCall context offset len →
    len = 0 ∨ offset.toNat + len.toNat ≤ n

namespace Frame

variable {f g sub ended : Frame} {chain : ChainView} {rs : Ruleset} {rules : Rules} {op : Opcode}
  {i : Instruction} {stipend afterGas : Gas} {c : Charge} {n : ℕ} {M N memory : Memory}

/-! ## What is paid for -/

/-- The price of memory goes up region by region. -/
lemma wordsNeeded_eq (f : Frame) (i : Instruction) :
    f.wordsNeeded i = (i.regions f.machine.stack).foldl
      (fun words region => expand words region.1 region.2) f.memoryWords := by
  cases i with
  | call kind => cases kind <;> rfl
  | _ => rfl

/-- Words that were extended over several regions cover each of them. -/
lemma foldl_expand_covers {regions : List (Word × Word)} {current : Gas}
    (h : 32 * (regions.foldl (fun words region => expand words region.1 region.2)
      current).toNat ≤ maxIndex) :
    current.toNat ≤ (regions.foldl (fun words region => expand words region.1 region.2)
        current).toNat ∧
      Covers (32 * (regions.foldl (fun words region => expand words region.1 region.2)
        current).toNat) regions := by
  induction regions generalizing current with
  | nil => exact ⟨le_rfl, nofun⟩
  | cons region regions ih =>
      simp only [List.foldl_cons] at h ⊢
      obtain ⟨hgrows, hcovers⟩ := ih h
      refine ⟨(expand_ge _ _ _).trans hgrows, List.forall_mem_cons.mpr ⟨?_, hcovers⟩⟩
      have hregion : 32 * (expand current region.1 region.2).toNat ≤ maxIndex := by omega
      exact (expand_covers_exactly hregion).imp_right fun hend => by omega

/-- **A charge that can be paid** covers all regions of its instruction. -/
lemma charge_covers (hcharge : f.charge chain i = .ok c)
    (hafford : f.afford chain.rules i c = .ok (afterGas, memory)) :
    Covers (32 * c.words.toNat) (i.regions f.machine.stack) := by
  have hlimit := (afford_eq_ok hafford).2.1.trans (memoryLimit_le chain.rules)
  rw [toNat_words_mul hlimit, (charge_eq_ok hcharge).1, wordsNeeded_eq] at hlimit
  rw [(charge_eq_ok hcharge).1, wordsNeeded_eq]
  exact (foldl_expand_covers hlimit).2

/-- The regions that a call pays for are those of its operands. -/
lemma regions_call {kind : CallKind} {stack : OperandStack} {o : CallOperands} {rest : List Word}
    (h : callOperands? kind stack.items = some (o, rest)) :
    (Instruction.call kind).regions stack =
      [(o.inOffset, o.inLen), (o.outOffset, o.outLen)] := by
  simp only [callOperands?] at h
  split at h <;> cases h <;>
    simp only [Instruction.regions, OperandStack.peekD, List.getElem?_cons_zero,
      List.getElem?_cons_succ, Option.getD_some, *]

/-! ## Outcomes that spare the bytes behind -/

/-- **The same frame over the other memory,** once both have gone on. -/
def Spares (n : ℕ) (M N : Memory) (f f' : Frame) : Prop :=
  ∃ N', f' = f.withMemory N' ∧ Memory.Spares n M N f.machine.memory N' ∧
    f.machine.returnRange.2 ≤ n

/-- **An outcome that spares the bytes behind what is paid for.** -/
structure Tame (n : ℕ) (M N : Memory) (r r' : Frame × Except Interrupt Performed) : Prop where
  spares : Spares n M N r.1 r'.1
  outcome : r'.2 = r.2
  within : ∀ done, r.2 = .ok done → done.control.StaysWithin n

lemma spares_self (h : f.machine.Within n M N) : Spares n M N f (f.withMemory N) :=
  ⟨N, rfl, h.memory ▸ h.alike.spares, h.returned⟩

/-- An instruction that leaves memory alone. -/
lemma tame_done (h : f.machine.Within n M N) {done : Performed}
    (hcontrol : done.control.StaysWithin n) :
    Tame n M N (f, .ok done) (f.withMemory N, .ok done) := by
  refine ⟨spares_self h, rfl, ?_⟩
  rintro _ ⟨⟩
  exact hcontrol

lemma tame_giving (h : f.machine.Within n M N) (w : Word) (control : FrameControl)
    (hcontrol : control.StaysWithin n) (event : Option Event) :
    Tame n M N (f.giving w control event) ((f.withMemory N).giving w control event) := by
  have hstack : (f.withMemory N).machine.stack = f.machine.stack := rfl
  simp only [giving, hstack]
  cases hpush : f.machine.stack.push w with
  | ok stack =>
      exact tame_done (f := { f with machine := { f.machine with stack := stack } })
        ⟨h.memory, h.alike, h.returned⟩ hcontrol
  | error e =>
      obtain rfl := push_eq_error hpush
      exact tame_done h rfl

/-- A write that spares the bytes behind is carried out. -/
lemma tame_writing (h : f.machine.Within n M N) {r r' : Except ExitFatal Memory}
    (hr : ∃ M' N', r = .ok M' ∧ r' = .ok N' ∧ Memory.Spares n M N M' N') :
    Tame n M N (f.writing r) ((f.withMemory N).writing r') := by
  obtain ⟨M', N', rfl, rfl, hspares⟩ := hr
  refine ⟨⟨N', rfl, hspares, h.returned⟩, rfl, ?_⟩
  rintro _ ⟨⟩
  trivial

lemma tame_attempt {α : Type} (h : f.machine.Within n M N) {r : Except Interrupt α}
    {k k' : α → Frame × Except Interrupt Performed} (hk : ∀ a, Tame n M N (k a) (k' a)) :
    Tame n M N (f.attempt r k) ((f.withMemory N).attempt r k') := by
  cases r with
  | ok a => exact hk a
  | error e => exact ⟨spares_self h, rfl, fun done hdone => by cases hdone⟩

/-- What is read of the accounts does not depend on memory. -/
lemma tame_reading {α : Type} (h : f.machine.Within n M N) {r : Except Requirement α}
    {k k' : α → Frame × Except Interrupt Performed} (hk : ∀ a, Tame n M N (k a) (k' a)) :
    Tame n M N (f.reading r k) ((f.withMemory N).reading r k') :=
  tame_attempt h hk

/-- A region of memory that is paid for is the same in both. -/
lemma read_eq (h : f.machine.Within n M N) {offset len : Word}
    (hfits : len = 0 ∨ offset.toNat + len.toNat ≤ n) :
    (f.withMemory N).machine.memory.read offset len = f.machine.memory.read offset len :=
  h.memory ▸ h.alike.read_eq hfits

lemma tame_performCreate (h : f.machine.Within n M N) {value offset len : Word}
    (hfits : len = 0 ∨ offset.toNat + len.toNat ≤ n) (salt : Option Word) :
    Tame n M N (f.performCreate chain afterGas value offset len salt)
      ((f.withMemory N).performCreate chain afterGas value offset len salt) := by
  have hcode := read_eq h hfits
  have hwithin : ∀ overlay, ({ f with ret := ByteArray.empty, overlay := overlay } :
      Frame).machine.Within n M N := fun _ => h
  simp only [performCreate, hcode]
  refine tame_reading (hwithin _) fun declined => ?_
  cases declined with
  | true =>
      simp only [if_true]
      exact tame_giving (hwithin _) _ .proceed trivial _
  | false =>
      simp only [Bool.false_eq_true, if_false]
      refine tame_reading (hwithin _) fun nonce => tame_attempt (hwithin _) fun raised => ?_
      refine tame_reading (hwithin _) fun overlay => ?_
      exact tame_giving (hwithin _) _ (.invokeCreate _) trivial _

lemma tame_performCall (h : f.machine.Within n M N) (kind : CallKind) {o : CallOperands}
    (hin : o.inLen = 0 ∨ o.inOffset.toNat + o.inLen.toNat ≤ n)
    (hout : o.outLen = 0 ∨ o.outOffset.toNat + o.outLen.toNat ≤ n) :
    Tame n M N (f.performCall chain kind stipend afterGas o)
      ((f.withMemory N).performCall chain kind stipend afterGas o) := by
  have hinput := read_eq h hin
  have hwithin : ({ f with ret := ByteArray.empty } : Frame).machine.Within n M N := h
  simp only [performCall, hinput]
  refine tame_reading hwithin fun declined => ?_
  cases declined with
  | true =>
      simp only [if_true]
      exact tame_giving hwithin _ .proceed trivial _
  | false =>
      simp only [Bool.false_eq_true, if_false]
      exact tame_reading hwithin fun code => tame_giving hwithin _ (.invokeCall _ _ _) hout _

lemma tame_performSelfDestruct (h : f.machine.Within n M N) (target : Address) :
    Tame n M N (f.performSelfDestruct chain target)
      ((f.withMemory N).performSelfDestruct chain target) := by
  have hwithin : ∀ removed overlay, ({ f with removed := removed, overlay := overlay } :
      Frame).machine.Within n M N := fun _ _ => h
  simp only [performSelfDestruct]
  refine tame_reading h fun balance => tame_reading (hwithin _ _) fun paid => ?_
  refine tame_reading (hwithin _ _) fun remaining => tame_reading (hwithin _ _) fun overlay => ?_
  exact tame_done (hwithin _ _) rfl

/-- **A trapped opcode whose regions are paid for** touches no byte behind what is paid for. -/
lemma perform_tame (h : f.machine.Within n M N) (hlocal : op.instruction.isLocal = false)
    {taken given : ℕ} (harity : op.instruction.arity = some (taken, given))
    (hcheck : f.machine.stack.check taken given = .ok ())
    (hcovers : Covers n (op.instruction.regions f.machine.stack)) :
    Tame n M N (f.perform chain op stipend afterGas)
      ((f.withMemory N).perform chain op stipend afterGas) := by
  obtain ⟨henough, -⟩ := check_eq_ok.mp hcheck
  have hstack : (f.withMemory N).machine.stack = f.machine.stack := rfl
  have hwithin : ∀ items, (f.withItems items).machine.Within n M N := fun items => h.withItems items
  cases hi : op.instruction <;> rw [hi] at hlocal harity hcovers
  case query q =>
    simp only [perform, hi]
    exact tame_giving h _ .proceed trivial _
  case keccak =>
    cases harity
    obtain ⟨offset, len, items, hitems⟩ := exists_two henough
    have hfits := hcovers _ (List.mem_singleton_self _)
    rw [Machine.peekD_zero hitems, Machine.peekD_one hitems] at hfits
    simp only [perform, hi, hstack, hitems, read_eq h hfits]
    exact tame_giving (hwithin items) _ .proceed trivial _
  case balance | extCodeSize | extCodeHash | sload =>
    cases harity
    obtain ⟨x, items, hitems, -⟩ := exists_cons_of_check hcheck
    simp only [perform, hi, hstack, hitems]
    exact tame_reading (hwithin items) fun _ => tame_giving (hwithin items) _ .proceed trivial _
  case blockHash =>
    cases harity
    obtain ⟨x, items, hitems, -⟩ := exists_cons_of_check hcheck
    simp only [perform, hi, hstack, hitems]
    split
    · exact tame_reading (hwithin items) fun _ => tame_giving (hwithin items) _ .proceed trivial _
    · exact tame_giving (hwithin items) _ .proceed trivial _
  case extCodeCopy =>
    cases harity
    obtain ⟨x, rest, hitems, hcount⟩ := exists_cons_of_check hcheck
    obtain ⟨offset, codeOffset, len, items, rfl⟩ :=
      exists_three_of_length (by omega : 3 ≤ rest.length)
    have hfits := hcovers _ (List.mem_singleton_self _)
    simp only [OperandStack.peekD, hitems, List.getElem?_cons_zero, List.getElem?_cons_succ,
      Option.getD_some] at hfits
    simp only [perform, hi, hstack, hitems]
    refine tame_reading (hwithin items) fun code => tame_writing (hwithin items) ?_
    rw [show (f.withItems items).machine.memory = M from h.memory]
    exact h.alike.copyLarge_spares codeOffset code hfits
  case returnDataCopy =>
    cases harity
    obtain ⟨offset, dataOffset, len, items, hitems⟩ := Machine.exists_three henough
    have hfits := hcovers _ (List.mem_singleton_self _)
    rw [Machine.peekD_zero hitems, Machine.peekD_two hitems] at hfits
    simp only [perform, hi, hstack, hitems]
    refine tame_writing (hwithin items) ?_
    rw [show f.machine.memory = M from h.memory]
    exact h.alike.copyLarge_spares dataOffset f.ret hfits
  case sstore =>
    cases harity
    obtain ⟨index, value, items, hitems⟩ := exists_two henough
    have hwrote : ∀ overlay, ({ f.withItems items with overlay := overlay } :
        Frame).machine.Within n M N := fun _ => hwithin items
    simp only [perform, hi, hstack, hitems]
    exact tame_reading (hwithin items) fun overlay => tame_done (hwrote overlay) trivial
  case log topics =>
    cases harity
    obtain ⟨offset, len, items, hitems⟩ := exists_two (by omega : 2 ≤ f.machine.stack.size)
    have hcount : f.machine.stack.size = items.length + 2 := by simp [OperandStack.size, hitems]
    have htopics : ¬ items.length < topics := by omega
    have hfits := hcovers _ (List.mem_singleton_self _)
    rw [Machine.peekD_zero hitems, Machine.peekD_one hitems] at hfits
    have hlogged : ∀ logs, ({ f with logs := logs }.withItems (items.drop topics) :
        Frame).machine.Within n M N := fun _ => hwithin (items.drop topics)
    simp only [perform, hi, hstack, hitems, if_neg htopics, read_eq h hfits]
    exact tame_done (hlogged _) trivial
  case create kind =>
    have hfits := hcovers _ (List.mem_singleton_self _)
    cases kind with
    | byNonce =>
        cases harity
        obtain ⟨value, offset, len, items, hitems⟩ := Machine.exists_three henough
        rw [Machine.peekD_one hitems, Machine.peekD_two hitems] at hfits
        simp only [perform, hi, hstack, hitems]
        exact tame_performCreate (hwithin items) hfits none
    | bySalt =>
        cases harity
        obtain ⟨value, rest, hitems, hcount⟩ := exists_cons_of_check hcheck
        obtain ⟨offset, len, salt, items, rfl⟩ :=
          exists_three_of_length (by omega : 3 ≤ rest.length)
        rw [Machine.peekD_one hitems, Machine.peekD_two hitems] at hfits
        simp only [perform, hi, hstack, hitems]
        exact tame_performCreate (hwithin items) hfits (some salt)
  case call kind =>
    obtain ⟨o, items, ho⟩ := exists_callOperands kind harity henough
    rw [regions_call ho, Covers, List.forall_mem_cons, List.forall_mem_singleton] at hcovers
    simp only [perform, hi, hstack, ho]
    exact tame_performCall (hwithin items) kind hcovers.1 hcovers.2
  case selfDestruct =>
    cases harity
    obtain ⟨target, items, hitems, -⟩ := exists_cons_of_check hcheck
    simp only [perform, hi, hstack, hitems]
    exact tame_performSelfDestruct (hwithin items) _
  all_goals first
    | cases hlocal; done
    | cases harity

/-- The regions of a local instruction are the one that the machine touches. -/
lemma regions_local {s : OperandStack} (hlocal : i.isLocal = true) :
    i.regions s = [i.region s] := by
  cases i <;> first | rfl | cases hlocal

/-- **Executing an opcode whose regions are paid for** touches no byte behind what is paid for. -/
lemma execute_tame (h : f.machine.Within n M N) (hop : f.machine.nextOpcode? = some op)
    {taken given : ℕ} (harity : op.instruction.arity = some (taken, given))
    (hcheck : f.machine.stack.check taken given = .ok ())
    (hcovers : Covers n (op.instruction.regions f.machine.stack)) :
    Tame n M N (f.execute chain stipend afterGas)
      ((f.withMemory N).execute chain stipend afterGas) := by
  cases hlocal : op.instruction.isLocal with
  | false =>
      obtain ⟨p, hposition⟩ := f.machine.exists_position hop
      have hstep := f.machine.step_of_trap_at hposition hop hlocal
      have hstep' := (f.withMemory N).machine.step_of_trap_at hposition hop hlocal
      simp only [execute, hstep, hstep']
      exact perform_tame (f := { f with machine := { f.machine with position := .ok (p + 1) } })
        ⟨h.memory, h.alike, h.returned⟩ hlocal harity hcheck hcovers
  | true =>
      rw [regions_local hlocal, Covers, List.forall_mem_singleton] at hcovers
      obtain ⟨⟨N', hmachine, hspares, hreturned⟩, hsame, hcapture⟩ :=
        Machine.step_tame h hop hlocal hcovers
      have hmachine' : (f.withMemory N).machine.step =
          (f.machine.step.1.withMemory N', f.machine.step.2) := Prod.ext hmachine hsame
      rcases hstep : f.machine.step with ⟨m, capture⟩
      rw [hstep] at hmachine' hcapture hspares hreturned
      simp only [execute, hstep, hmachine']
      rcases hcapture with rfl | ⟨reason, rfl, hblameless⟩
      · refine ⟨⟨N', rfl, hspares, hreturned⟩, rfl, ?_⟩
        rintro _ ⟨⟩
        trivial
      · refine ⟨⟨N', rfl, hspares, hreturned⟩, rfl, ?_⟩
        rintro _ ⟨⟩
        exact hblameless

/-! ## One step -/

/-- **A frame whose memory is paid for.**  Its memory is as long as was paid for, which the limit
    allows, and no byte is written behind it; what was returned, and the region for the output of
    a call that it asks for, lie within. -/
structure PaidFor (rules : Rules) (f : Frame) : Prop where
  effective : f.machine.memory.effective = 32 * f.memoryWords.toNat
  bounded : f.machine.memory.effective ≤ rules.memoryLimit.toNat
  size : f.machine.memory.data.size ≤ f.machine.memory.effective
  limit : f.machine.memory.limit = rules.memoryLimit.toNat
  returned : f.machine.returnRange.2 ≤ f.machine.memory.effective
  region : ∀ context offset len, f.status = .invokeCall context offset len →
    len = 0 ∨ offset.toNat + len.toNat ≤ f.machine.memory.effective

/-- Memory that is paid for is alike to itself. -/
lemma PaidFor.alike (h : f.PaidFor rules) :
    Memory.AlikeUpTo (32 * f.memoryWords.toNat) f.machine.memory f.machine.memory :=
  .refl h.effective (h.effective ▸ h.bounded.trans_eq h.limit.symm)
    (h.limit.trans_le (memoryLimit_le rules))

/-- Paying extends memory to just what is paid for. -/
lemma PaidFor.paid (h : f.PaidFor chain.rules) (hcharge : f.charge chain i = .ok c)
    (hafford : f.afford chain.rules i c = .ok (afterGas, memory)) :
    memory = { f.machine.memory with effective := 32 * c.words.toNat } ∧
      32 * c.words.toNat ≤ chain.rules.memoryLimit.toNat ∧
        f.memoryWords.toNat ≤ c.words.toNat := by
  obtain ⟨-, hlimit, hresize⟩ := afford_eq_ok hafford
  have hindex := hlimit.trans (memoryLimit_le chain.rules)
  have hgrows := wordsNeeded_ge f i
  rw [← (charge_eq_ok hcharge).1] at hgrows
  rw [toNat_words_mul hindex] at hlimit hresize hindex
  have hmax : maxIndex < maxWord := by decide
  have hround : Memory.roundUp (32 * c.words.toNat) = 32 * c.words.toNat := by
    simp only [Memory.roundUp]
    omega
  refine ⟨?_, hlimit, hgrows⟩
  rw [Memory.resizeEnd, hround, if_neg (by omega : ¬ 32 * c.words.toNat > maxWord)] at hresize
  split at hresize <;> cases hresize
  · rfl
  · rename_i hstays
    have heffective := h.effective
    have hsame : f.machine.memory.effective = 32 * c.words.toNat := by omega
    rw [← hsame]

/-- Past its gates, an opcode finds a machine within what is paid for. -/
lemma PaidFor.within (h : f.PaidFor chain.rules) (hcleared : f.Cleared chain op c afterGas memory)
    (halike : Memory.AlikeUpTo (32 * c.words.toNat) memory N) :
    (f.withMemory memory).machine.Within (32 * c.words.toNat) memory N := by
  obtain ⟨-, -, hgrows⟩ := h.paid hcleared.charged hcleared.afforded
  have hreturned : f.machine.returnRange.2 ≤ 32 * c.words.toNat :=
    h.returned.trans (h.effective.trans_le (Nat.mul_le_mul_left 32 hgrows))
  exact ⟨rfl, halike, hreturned⟩

/-- The memory that an opcode has paid for is alike to itself. -/
lemma PaidFor.paid_alike (h : f.PaidFor chain.rules)
    (hcleared : f.Cleared chain op c afterGas memory) :
    Memory.AlikeUpTo (32 * c.words.toNat) memory memory := by
  obtain ⟨rfl, hlimit, hgrows⟩ := h.paid hcleared.charged hcleared.afforded
  exact .refl rfl (hlimit.trans_eq h.limit.symm) (h.limit.trans_le (memoryLimit_le chain.rules))

/-- What is returned lies within what is paid for, so it is the same over either memory. -/
lemma Spares.returnValue_eq (h : Spares n M N f g) :
    g.machine.returnValue = f.machine.returnValue := by
  obtain ⟨N', rfl, hspares, hreturned⟩ := h
  have hfits : f.machine.returnRange.2 - f.machine.returnRange.1 = 0 ∨
      f.machine.returnRange.1 + (f.machine.returnRange.2 - f.machine.returnRange.1) ≤ n := by
    omega
  exact hspares.alike.get_eq hfits

/-- Going on spares the bytes behind. -/
lemma Spares.follow (h : Spares n M N f g) (control : FrameControl) :
    Spares n M N (f.follow control) (g.follow control) := by
  have hvalue := h.returnValue_eq
  obtain ⟨N', rfl, hspares, hreturned⟩ := h
  cases control with
  | proceed => exact ⟨N', rfl, hspares, hreturned⟩
  | exit reason =>
      simp only [Frame.follow, hvalue]
      split
      · exact ⟨N', rfl, hspares, hreturned⟩
      · exact ⟨N', rfl, hspares, hreturned⟩
  | invokeCall | invokeCreate => exact ⟨N', rfl, hspares, hreturned⟩

lemma Spares.book (h : Spares n M N f g) (c : Charge) : Spares n M N (f.book c) (g.book c) := by
  obtain ⟨N', rfl, hspares, hreturned⟩ := h
  exact ⟨N', rfl, hspares, hreturned⟩

lemma Cleared.execute_tame (h : f.Cleared chain op c afterGas memory) (hat : f.AtOpcode chain op)
    (hf : f.PaidFor chain.rules) (halike : Memory.AlikeUpTo (32 * c.words.toNat) memory N) :
    Tame (32 * c.words.toNat) memory N
      ((f.withMemory memory).execute chain c.stipend afterGas)
      ((f.withMemory N).execute chain c.stipend afterGas) := by
  obtain ⟨taken, given, harity, hcheck⟩ := h.exists_arity
  have hcovers := charge_covers h.charged h.afforded
  exact Frame.execute_tame (f := f.withMemory memory) (hf.within h halike) hat.next harity hcheck
    hcovers

/-- **A step that is paid for** touches no byte behind what is paid for. -/
lemma Cleared.step_spares (h : f.Cleared chain op c afterGas memory) (hat : f.AtOpcode chain op)
    (hf : f.PaidFor chain.rules) (halike : Memory.AlikeUpTo (32 * c.words.toNat) memory N) :
    Spares (32 * c.words.toNat) memory N (f.step chain).1
        (conclude c ((f.withMemory N).execute chain c.stipend afterGas)).1 ∧
      (conclude c ((f.withMemory N).execute chain c.stipend afterGas)).2 = (f.step chain).2 := by
  have htame := h.execute_tame hat hf halike
  rw [hat.step_eq, h.stepAt_eq]
  rcases hexecute : (f.withMemory memory).execute chain c.stipend afterGas with ⟨g, result⟩
  rcases hexecute' : (f.withMemory N).execute chain c.stipend afterGas with ⟨g', result'⟩
  rw [hexecute, hexecute'] at htame
  obtain ⟨hspares, rfl, -⟩ := htame
  cases result' with
  | ok done => exact ⟨(hspares.book c).follow done.control, rfl⟩
  | error i => exact ⟨hspares, rfl⟩

/-- A frame that ends for a reason that memory is not to blame for. -/
lemma ofReason_staysWithin {reason : ExitReason} (h : reason.blamesMemory = false) :
    (FrameStatus.ofReason reason).StaysWithin n := by
  cases reason with
  | succeed s =>
      simp only [FrameStatus.ofReason]
      exact ⟨by simp, by simp, by simp⟩
  | error e =>
      simp only [FrameStatus.ofReason]
      refine ⟨by simp, ?_, by simp⟩
      rintro ⟨⟩
      cases h
  | fatal => cases h

/-- A running frame that goes on within so many bytes has a status within them. -/
lemma follow_staysWithin {control : FrameControl} (hr : f.status = .running)
    (h : control.StaysWithin n) : (f.follow control).status.StaysWithin n := by
  cases control with
  | proceed =>
      show f.status.StaysWithin n
      rw [hr]
      exact ⟨by simp, by simp, by simp⟩
  | exit reason =>
      have hstatus : (f.follow (.exit reason)).status = .ofReason reason := by
        simp only [follow]
        split <;> rfl
      rw [hstatus]
      exact ofReason_staysWithin h
  | invokeCall context offset len =>
      simp only [follow]
      refine ⟨by simp, by simp, ?_⟩
      rintro _ _ _ ⟨⟩
      exact h
  | invokeCreate =>
      simp only [follow]
      exact ⟨by simp, by simp, by simp⟩

/-- **No step that is paid for fails for the sake of memory.** -/
lemma Cleared.step_staysWithin (h : f.Cleared chain op c afterGas memory)
    (hat : f.AtOpcode chain op) (hf : f.PaidFor chain.rules) {event : Option Event}
    (hstep : f.step chain = (g, .ok event)) :
    g.memoryWords = c.words ∧ g.status.StaysWithin (32 * c.words.toNat) := by
  have htame := h.execute_tame hat hf (hf.paid_alike h)
  have hstack : (f.withMemory memory).checkStack op.instruction = .ok () :=
    (check_parts.mp h.checked).2.1
  rw [hat.step_eq, h.stepAt_eq] at hstep
  rcases hexecute : (f.withMemory memory).execute chain c.stipend afterGas with ⟨g', result⟩
  rw [hexecute] at hstep htame
  cases result with
  | error i => cases hstep
  | ok done =>
      cases hstep
      have hrunning : g'.status = .running :=
        (execute_effect (f := f.withMemory memory) hat.next hstack hexecute).same.2.2.2.trans
          hat.running
      exact ⟨((g'.book c).follow_same done.control).2.2.1,
        follow_staysWithin (f := g'.book c) hrunning (htame.within done rfl)⟩

/-! ## Every move -/

/-- A frame whose memory and status have not changed, or that asks for no call. -/
lemma PaidFor.same (h : f.PaidFor rules) (hmemory : g.machine.memory = f.machine.memory)
    (hreturned : g.machine.returnRange = f.machine.returnRange)
    (hwords : g.memoryWords = f.memoryWords)
    (hstatus : g.status = f.status ∨ g.status.invoked? = none) : g.PaidFor rules where
  effective := by rw [hmemory, hwords, h.effective]
  bounded := hmemory ▸ h.bounded
  size := hmemory ▸ h.size
  limit := hmemory ▸ h.limit
  returned := by
    rw [hreturned, hmemory]
    exact h.returned
  region context offset len hasks := by
    rcases hstatus with hsame | hnone
    · rw [hmemory]
      exact h.region context offset len (hsame.symm.trans hasks)
    · rw [hasks] at hnone
      cases hnone

/-- A frame that spares what is behind its paid memory has memory that is paid for. -/
lemma Spares.paidFor (h : Spares (32 * f.memoryWords.toNat) M N f g)
    (hbounded : 32 * f.memoryWords.toNat ≤ rules.memoryLimit.toNat)
    (hsize : M.data.size ≤ 32 * f.memoryWords.toNat) (hlimit : M.limit = rules.memoryLimit.toNat)
    (hregion : ∀ context offset len, f.status = .invokeCall context offset len →
      len = 0 ∨ offset.toNat + len.toNat ≤ 32 * f.memoryWords.toNat) : f.PaidFor rules := by
  obtain ⟨N', -, hspares, hreturned⟩ := h
  have heffective := hspares.alike.paid
  exact ⟨heffective, heffective ▸ hbounded, heffective ▸ hspares.size hsize,
    hspares.limit.trans hlimit, heffective ▸ hreturned, heffective ▸ hregion⟩

/-- An opcode that is carried out leaves memory as long as it has paid for. -/
lemma PaidFor.executed (h : f.PaidFor chain.rules)
    (hcleared : f.Cleared chain op c afterGas memory) (hat : f.AtOpcode chain op)
    {event : Option Event} (hstep : f.step chain = (g, .ok event)) :
    g.PaidFor chain.rules ∧ f.memoryWords.toNat ≤ g.memoryWords.toNat := by
  obtain ⟨hpaid, hlimit, hgrows⟩ := h.paid hcleared.charged hcleared.afforded
  obtain ⟨hwords, hstays⟩ := hcleared.step_staysWithin hat h hstep
  obtain ⟨hspares, -⟩ := hcleared.step_spares hat h (h.paid_alike hcleared)
  rw [hstep] at hspares
  have hsize : memory.data.size ≤ 32 * c.words.toNat := by
    rw [hpaid]
    exact h.size.trans (h.effective.trans_le (Nat.mul_le_mul_left 32 hgrows))
  rw [← hwords] at hspares hlimit hsize hgrows hstays
  exact ⟨hspares.paidFor hlimit hsize (by rw [hpaid]; exact h.limit) hstays.region, hgrows⟩

/-- **A step** keeps memory paid for, and what is paid for never shrinks. -/
lemma PaidFor.step (h : f.PaidFor chain.rules) {event : Option Event}
    (hstep : f.step chain = (g, .ok event)) :
    g.PaidFor chain.rules ∧ f.memoryWords.toNat ≤ g.memoryWords.toNat := by
  have hstepped := step_stepped hstep
  cases hstepped with
  | idle => exact ⟨h, le_rfl⟩
  | precompile =>
      simp only [runPrecompile]
      split
      · exact ⟨h.same rfl rfl rfl (.inr rfl), le_rfl⟩
      · exact ⟨h.same rfl rfl rfl (.inr rfl), le_rfl⟩
  | past => exact ⟨h.same rfl rfl rfl (.inr rfl), le_rfl⟩
  | refused | unaffordable =>
      exact ⟨h.same rfl rfl rfl (.inr (f.invoked?_exit _)), le_rfl⟩
  | executed running code checked charged afforded effect next =>
      exact h.executed ⟨checked, charged, afforded⟩ ⟨running, code, next⟩ hstep

/-! ### Going back -/

lemma outputLen_fits {outOffset outLen : Word} (out : Bytes)
    (h : outLen = 0 ∨ outOffset.toNat + outLen.toNat ≤ n) :
    (if outLen.toNat ≤ out.size then outLen else Word.ofNat out.size) = 0 ∨
      outOffset.toNat + (if outLen.toNat ≤ out.size then outLen
        else Word.ofNat out.size).toNat ≤ n := by
  split
  · exact h
  · rename_i hlonger
    have hsize : (Word.ofNat out.size).toNat ≤ out.size := by
      rw [BitVec.toNat_ofNat]
      exact Nat.mod_le _ _
    refine .inr ?_
    rcases h with rfl | hend
    · exact absurd (Nat.zero_le _) hlonger
    · omega

/-- The output of a call goes to a region that is paid for. -/
lemma copyOutput_spares (h : f.machine.Within n M N) {outOffset outLen : Word} (out : Bytes)
    (hfits : outLen = 0 ∨ outOffset.toNat + outLen.toNat ≤ n) :
    Spares n M N (f.copyOutput outOffset outLen out)
        ((f.withMemory N).copyOutput outOffset outLen out) ∧
      (f.copyOutput outOffset outLen out).status = f.status := by
  obtain ⟨M', N', hcopy, hcopy', hspares⟩ :=
    h.alike.copyLarge_spares 0 out (outputLen_fits out hfits)
  rw [← h.memory] at hcopy
  have hcopy'' : (f.withMemory N).machine.memory.copyLarge outOffset 0
      (if outLen.toNat ≤ out.size then outLen else Word.ofNat out.size) out = .ok N' := hcopy'
  simp only [copyOutput]
  rw [hcopy, hcopy'']
  exact ⟨⟨N', rfl, hspares, h.returned⟩, rfl⟩

lemma failTop_within (h : f.machine.Within n M N) : f.failTop.machine.Within n M N ∧
    (f.withMemory N).failTop = f.failTop.withMemory N ∧
      ∀ e, f.failTop.status = .exitedNotSupported e → f.status = .exitedNotSupported e := by
  have hstack : (f.withMemory N).machine.stack = f.machine.stack := rfl
  simp only [failTop, hstack]
  cases f.machine.stack.set 0 0 with
  | ok stack => exact ⟨⟨h.memory, h.alike, h.returned⟩, rfl, fun e he => he⟩
  | error e => exact ⟨⟨h.memory, h.alike, h.returned⟩, rfl, fun _ he => by cases he⟩

/-- The frame after a call has written its output; a creation has none. -/
def takeOutput (f : Frame) (region : Option (Word × Word)) (out : Bytes) : Frame :=
  match region with
  | some (offset, len) => f.copyOutput offset len out
  | none => f

lemma takeOutput_spares (h : f.machine.Within n M N) {region : Option (Word × Word)} (out : Bytes)
    (hfits : ∀ r, region = some r → r.2 = 0 ∨ r.1.toNat + r.2.toNat ≤ n) :
    Spares n M N (f.takeOutput region out) ((f.withMemory N).takeOutput region out) ∧
      (f.takeOutput region out).status = f.status := by
  cases region with
  | none => exact ⟨spares_self h, rfl⟩
  | some r => exact copyOutput_spares h out (hfits r rfl)

/-- **Going back** touches no byte behind what is paid for, and only a frame that was stopped by
    its memory stops the one that asked for it. -/
lemma resume_spares (h : f.machine.Within n M N) (sub : Frame) {region : Option (Word × Word)}
    (hfits : ∀ r, region = some r → r.2 = 0 ∨ r.1.toNat + r.2.toNat ≤ n) :
    Spares n M N (f.resume sub region) ((f.withMemory N).resume sub region) ∧
      ∀ e, (f.resume sub region).status = .exitedNotSupported e →
        sub.status = .exitedNotSupported e := by
  obtain ⟨start, hstart⟩ : ∃ start : Frame, start =
    { f with status := .running, usedGas := f.usedGas + sub.totalUsedGas } := ⟨_, rfl⟩
  have hrunning : start.status = .running := by rw [hstart]
  have hwithin : start.machine.Within n M N := by
    rw [hstart]
    exact h
  have hother : start.withMemory N = { f.withMemory N with
      status := .running, usedGas := (f.withMemory N).usedGas + sub.totalUsedGas } := by
    rw [hstart]
    rfl
  obtain ⟨hfailed, hfailTop, hstatus⟩ := failTop_within hwithin
  simp only [resume, ← hstart, ← hother, hfailTop]
  split
  · have hadopted : ∀ ret, (start.adopt sub ret).machine.Within n M N := fun _ => hwithin
    obtain ⟨hspares, hsame⟩ := takeOutput_spares (hadopted _) sub.out hfits
    exact ⟨hspares, fun e he => by cases (hsame.trans hrunning).symm.trans he⟩
  · have hreverted : ({ start.failTop with ret := sub.out } : Frame).machine.Within n M N := hfailed
    obtain ⟨hspares, hsame⟩ := takeOutput_spares hreverted sub.out hfits
    exact ⟨hspares, fun e he => by cases hrunning.symm.trans (hstatus e (hsame.symm.trans he))⟩
  · exact ⟨spares_self (f := { start.failTop with ret := ByteArray.empty }) hfailed,
      fun e he => by cases hrunning.symm.trans (hstatus e he)⟩
  · rename_i e hsub
    refine ⟨spares_self (f := start.exit (.fatal e)) ⟨hwithin.memory, hwithin.alike,
      hwithin.returned⟩, ?_⟩
    rintro _ ⟨⟩
    exact hsub
  · exact ⟨spares_self hwithin, fun e he => by cases hrunning.symm.trans he⟩

/-- A frame whose memory is paid for is within it. -/
lemma PaidFor.within_alike (h : f.PaidFor rules)
    (halike : Memory.AlikeUpTo (32 * f.memoryWords.toNat) f.machine.memory N) :
    f.machine.Within (32 * f.memoryWords.toNat) f.machine.memory N :=
  ⟨rfl, halike, h.returned.trans_eq h.effective⟩

lemma PaidFor.resume (h : f.PaidFor rules) {region : Option (Word × Word)}
    (hfits : ∀ r, region = some r → r.2 = 0 ∨ r.1.toNat + r.2.toNat ≤ 32 * f.memoryWords.toNat) :
    (f.resume sub region).PaidFor rules := by
  have hwords : (f.resume sub region).memoryWords = f.memoryWords :=
    (f.keeps_resume sub region).memoryWords
  obtain ⟨hspares, -⟩ := resume_spares (h.within_alike h.alike) sub hfits
  have hbounded := h.effective.symm.trans_le h.bounded
  have hsize := h.size.trans_eq h.effective
  rw [← hwords] at hspares hbounded hsize
  refine hspares.paidFor hbounded hsize h.limit fun context offset len hasks => ?_
  have hunasked := f.invoked?_resume sub region
  rw [hasks] at hunasked
  cases hunasked

lemma PaidFor.begun (h : f.PaidFor rules) (hbegun : f.Begun chain g) :
    g.PaidFor rules ∧ f.memoryWords.toNat ≤ g.memoryWords.toNat := by
  cases hbegun with
  | call | create => exact ⟨h.same rfl rfl rfl (.inl rfl), le_rfl⟩
  | collision => exact ⟨h.same rfl rfl rfl (.inr (f.invoked?_exit _)), le_rfl⟩

lemma PaidFor.deposited (h : f.PaidFor rules) (hdeposited : f.Deposited chain g) :
    g.PaidFor rules ∧ f.memoryWords.toNat ≤ g.memoryWords.toNat := by
  cases hdeposited with
  | skipped => exact ⟨h, le_rfl⟩
  | failed => exact ⟨h.same rfl rfl rfl (.inr (f.invoked?_exit _)), le_rfl⟩
  | empty | paid => exact ⟨h.same rfl rfl rfl (.inl rfl), le_rfl⟩

lemma PaidFor.absorbed (h : f.PaidFor rules) (habsorbed : f.Absorbed ended chain g sub) :
    g.PaidFor rules ∧ f.memoryWords.toNat ≤ g.memoryWords.toNat := by
  have hwords : ∀ (sub : Frame) region,
      f.memoryWords.toNat ≤ (f.resume sub region).memoryWords.toNat :=
    fun sub region => (congrArg Gas.toNat (f.keeps_resume sub region).memoryWords).ge
  cases habsorbed with
  | returned asked =>
      refine ⟨h.resume ?_, hwords _ _⟩
      rintro _ ⟨⟩
      rw [← h.effective]
      exact h.region _ _ _ asked
  | created => exact ⟨h.resume nofun, hwords _ _⟩
  | dropped => exact ⟨h, le_rfl⟩

/-- **Every move** keeps memory paid for, and what is paid for never shrinks. -/
lemma PaidFor.move (h : f.PaidFor rs.rules) (hmove : f.MovesTo rs g) :
    g.PaidFor rs.rules ∧ f.memoryWords.toNat ≤ g.memoryWords.toNat := by
  cases hmove with
  | called begins => exact h.begun (beginCall_begun begins)
  | creating begins => exact h.begun (beginCreate_begun begins)
  | stepped steps => exact h.step steps
  | absorbed absorbs => exact h.absorbed (absorb_absorbed absorbs)
  | deposited deposits => exact h.deposited (depositCode_deposited deposits)

/-- **The memory of every frame is paid for.** -/
lemma Arises.paidFor (h : f.Arises rs) : f.PaidFor rs.rules := by
  induction h with
  | created => exact ⟨rfl, Nat.zero_le _, le_rfl, rfl, le_rfl, nofun⟩
  | moved before moves ih => exact (ih.move moves).1

/-- **Memory is always paid for and within the limit.**  Every frame has as much memory as it has
    paid for, no byte is written behind it, and what is paid for never shrinks.  Once an opcode has
    passed the gates of gas and of the limit it does not fail for the sake of memory, and comes to
    the same result whatever bytes lie behind what it has paid for, which it does not change.  The
    same goes for a frame that takes back a call, whose output is copied to a region that was paid
    for when the call was made. -/
theorem memory_is_paid_for (h : f.Arises rs) :
    f.PaidFor rs.rules ∧
    (∀ g, f.MovesTo rs g → f.memoryWords.toNat ≤ g.memoryWords.toNat) ∧
    (∀ block log op c afterGas memory, f.AtOpcode ⟨rs, block, log⟩ op →
      f.Cleared ⟨rs, block, log⟩ op c afterGas memory →
        memory = { f.machine.memory with effective := 32 * c.words.toNat } ∧
        (∀ g event, f.step ⟨rs, block, log⟩ = (g, .ok event) →
          g.memoryWords = c.words ∧ g.status.StaysWithin (32 * c.words.toNat)) ∧
        ∀ N, Memory.AlikeUpTo (32 * c.words.toNat) memory N →
          Spares (32 * c.words.toNat) memory N (f.step ⟨rs, block, log⟩).1
              (conclude c ((f.withMemory N).execute ⟨rs, block, log⟩ c.stipend afterGas)).1 ∧
            (conclude c ((f.withMemory N).execute ⟨rs, block, log⟩ c.stipend afterGas)).2 =
              (f.step ⟨rs, block, log⟩).2) ∧
    ∀ block log ended context offset len, f.status = .invokeCall context offset len →
      ∃ g, f.absorb ended ⟨rs, block, log⟩ = (g, ended, .ok ()) ∧
        (∀ e, g.status = .exitedNotSupported e → ended.status = .exitedNotSupported e) ∧
        ∀ N, Memory.AlikeUpTo (32 * f.memoryWords.toNat) f.machine.memory N →
          ∃ g', (f.withMemory N).absorb ended ⟨rs, block, log⟩ = (g', ended, .ok ()) ∧
            Spares (32 * f.memoryWords.toNat) f.machine.memory N g g' := by
  have hf := h.paidFor
  refine ⟨hf, fun g hmove => (hf.move hmove).2,
    fun block log op c afterGas memory hat hcleared =>
      ⟨?_, fun g event hstep => ?_, fun N hN => ?_⟩,
    fun block log ended context offset len hasks => ?_⟩
  · exact (hf.paid hcleared.charged hcleared.afforded).1
  · exact hcleared.step_staysWithin hat hf hstep
  · exact hcleared.step_spares hat hf hN
  · have hfits : ∀ r, some (offset, len) = some r →
        r.2 = 0 ∨ r.1.toNat + r.2.toNat ≤ 32 * f.memoryWords.toNat := by
      rintro _ ⟨⟩
      rw [← hf.effective]
      exact hf.region context offset len hasks
    have habsorb : ∀ k : Frame, k.status = .invokeCall context offset len →
        k.absorb ended ⟨rs, block, log⟩ =
          (k.resume ended (some (offset, len)), ended, .ok ()) := by
      intro k hk
      simp only [absorb, hk]
    refine ⟨_, habsorb f hasks, ?_, fun N hN => ⟨_, habsorb (f.withMemory N) hasks, ?_⟩⟩
    · exact (resume_spares (hf.within_alike hf.alike) ended hfits).2
    · exact (resume_spares (hf.within_alike hN) ended hfits).1

/-- Writing a word to fresh memory pays for one word of 32 bytes. -/
theorem answering_pays_for_a_word : ∃ g event,
    (answeringAfter 2).step ⟨.byzantium, {}, {}⟩ = (g, .ok event) ∧
      g.memoryWords.toNat = 1 ∧ g.status.StaysWithin 32 := by
  have harises : (answeringAfter 2).Arises .byzantium := by
    have hstart : (answeringAfter 0).Arises .byzantium := .created answering 0 (.empty .mainnet) []
    have hvalue : (answeringAfter 0).step ⟨.byzantium, {}, {}⟩ = (answeringAfter 1, .ok none) :=
      Prod.ext rfl (by rfl)
    have hoffset : (answeringAfter 1).step ⟨.byzantium, {}, {}⟩ = (answeringAfter 2, .ok none) :=
      Prod.ext rfl (by rfl)
    exact (hstart.moved (.stepped hvalue)).moved (.stepped hoffset)
  have hat : (answeringAfter 2).AtOpcode ⟨.byzantium, {}, {}⟩ ⟨0x52⟩ :=
    ⟨by decide +kernel, by decide +kernel, by decide +kernel⟩
  obtain ⟨afterGas, memory, hcleared⟩ : ∃ afterGas memory,
      (answeringAfter 2).Cleared ⟨.byzantium, {}, {}⟩ ⟨0x52⟩ ⟨1, 3, 0, 0⟩ afterGas memory :=
    ⟨_, _, ⟨by rfl, by rfl, by rfl⟩⟩
  obtain ⟨-, hsteps, -⟩ := (memory_is_paid_for harises).2.2.1 _ _ _ _ _ _ hat hcleared
  have hstore : (answeringAfter 2).step ⟨.byzantium, {}, {}⟩ = (answeringAfter 3, .ok none) :=
    Prod.ext rfl (by rfl)
  obtain ⟨hwords, hstays⟩ := hsteps _ _ hstore
  exact ⟨_, _, hstore, congrArg Gas.toNat hwords, hstays⟩

end Frame

end ResumableEvm
