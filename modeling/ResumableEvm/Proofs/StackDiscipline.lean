import ResumableEvm.Proofs.Announcements
import ResumableEvm.Proofs.FrameOrigins
import ResumableEvm.Proofs.MeteredFrame

/-!
# What the stack check is good for

Before an opcode is executed its operands and the room for its results are looked up in a table.
Two other places know an opcode: the machine, and the surroundings that it traps to.  Where the
check has passed, and gas and memory have been paid, they take and give just what the table says
and never come upon a missing operand, a full stack or an opcode that they do not know.

* `ExitError.isForestalled` — the failures that the check is there to prevent.
* `Machine.Leaves`, `Frame.Leaves` — an outcome with so many items on the stack and none of these
  failures.
* `Machine.evaluate_leaves`, `Frame.perform_leaves` — one case for each instruction.
* `Frame.step_leaves` — a step that passes its check.
* `Frame.Arises.room` — no frame has more items than fit on its stack.
* `Frame.opcode_checks_are_sound` — all of it together.
-/

namespace ResumableEvm

/-- **Failures that the check of an opcode is there to prevent.** -/
def ExitError.isForestalled : ExitError → Bool
  | .stackUnderflow | .stackOverflow | .invalidCode _ => true
  | _ => false

lemma exists_cons_of_check {stack : OperandStack} {taken given : ℕ}
    (h : stack.check (taken + 1) given = .ok ()) :
    ∃ x items, stack.items = x :: items ∧ stack.size = items.length + 1 := by
  obtain ⟨henough, -⟩ := Frame.check_eq_ok.mp h
  obtain ⟨x, items, hitems⟩ := List.exists_cons_of_length_pos (Nat.lt_of_lt_of_le
    (Nat.succ_pos taken) henough)
  exact ⟨x, items, hitems, by simp [OperandStack.size, hitems]⟩

lemma exists_three_of_length {items : List Word} (h : 3 ≤ items.length) :
    ∃ x y z rest, items = x :: y :: z :: rest :=
  @Machine.exists_three ⟨items, 0⟩ h

/-! ## The machine -/

namespace Machine

/-- **An outcome that the check has foreseen:** so many items on the stack, and none of the
    failures that the check is there to prevent. -/
structure Leaves (size : ℕ) (r : Machine × Control) : Prop where
  size : r.1.stack.size = size
  foreseen : ∀ e, r.2 = .exit (.error e) → e.isForestalled = false

variable {m : Machine} {op : Opcode} {taken given : ℕ} {items : List Word}

lemma leaves_next (m : Machine) (count : ℕ) : Leaves m.stack.size (m, .next count) :=
  ⟨rfl, by simp⟩

lemma leaves_exit (m : Machine) {reason : ExitReason}
    (h : ∀ e, reason = .error e → e.isForestalled = false) :
    Leaves m.stack.size (m, .exit reason) :=
  ⟨rfl, fun e he => h e (Control.exit.inj he)⟩

/-- Where there is room a result is pushed. -/
lemma leaves_pushNext (m : Machine) (h : m.stack.size + 1 ≤ m.stack.limit) (w : Word)
    (width : ℕ) : Leaves (m.stack.size + 1) (m.pushNext w width) := by
  simp only [pushNext, OperandStack.push, if_neg (Nat.not_lt.mpr h)]
  exact ⟨rfl, by simp⟩

/-- An instruction that has taken its operands and pushes one result. -/
lemma leaves_result (hcheck : m.stack.check taken 1 = .ok ())
    (hitems : m.stack.size = items.length + taken) (w : Word) (width : ℕ) :
    Leaves (m.stack.size - taken + 1) ((m.withItems items).pushNext w width) := by
  obtain ⟨-, hroom⟩ := Frame.check_eq_ok.mp hcheck
  have hsize : m.stack.size - taken = items.length := by omega
  rw [hsize] at hroom ⊢
  exact leaves_pushNext (m.withItems items) hroom w width

/-! ### Memory fails for reasons of its own -/

lemma resizeEnd_error {memory : Memory} {stop : ℕ} {e : ExitError}
    (h : memory.resizeEnd stop = .error e) : e = .invalidRange := by
  simp only [Memory.resizeEnd] at h
  split at h
  · split at h <;> cases h
    rfl
  · cases h

lemma resizeOffset_error {memory : Memory} {offset len : Word} {e : ExitError}
    (h : memory.resizeOffset offset len = .error e) : e = .invalidRange := by
  simp only [Memory.resizeOffset] at h
  split at h
  · cases h
  · split at h
    · cases h
      rfl
    · exact resizeEnd_error h

lemma leaves_withRegion {offset len : Word} {k : Machine → Machine × Control}
    (hk : ∀ memory, Leaves m.stack.size (k (m.withMemory memory))) :
    Leaves m.stack.size (m.withRegion offset len k) := by
  simp only [withRegion]
  split
  · exact hk _
  · rename_i hresize
    obtain rfl := resizeOffset_error hresize
    refine leaves_exit m ?_
    rintro e ⟨⟩
    rfl

lemma leaves_afterWrite (m : Machine) (r : Except ExitFatal Memory) :
    Leaves m.stack.size (m.afterWrite r) := by
  cases r with
  | ok memory => exact leaves_next { m with memory := memory } 1
  | error f => exact leaves_exit m (by simp)

/-! ### Instructions -/

lemma leaves_unary (h : m.stack.check 1 1 = .ok ()) (f : Word → Word) :
    Leaves (m.stack.size - 1 + 1) (m.unary f) := by
  obtain ⟨x, items, hitems, hsize⟩ := exists_cons_of_check h
  simp only [unary, hitems]
  exact leaves_result h hsize _ _

lemma leaves_binary (h : m.stack.check 2 1 = .ok ()) (f : Word → Word → Word) :
    Leaves (m.stack.size - 2 + 1) (m.binary f) := by
  obtain ⟨x, y, items, hitems⟩ := Frame.exists_two (Frame.check_eq_ok.mp h).1
  simp only [binary, hitems]
  exact leaves_result h (by simp [OperandStack.size, hitems]) _ _

lemma leaves_ternary (h : m.stack.check 3 1 = .ok ()) (f : Word → Word → Word → Word) :
    Leaves (m.stack.size - 3 + 1) (m.ternary f) := by
  obtain ⟨x, y, z, items, hitems⟩ := exists_three (Frame.check_eq_ok.mp h).1
  simp only [ternary, hitems]
  exact leaves_result h (by simp [OperandStack.size, hitems]) _ _

lemma leaves_copy (h : m.stack.check 3 0 = .ok ()) (source : Bytes) :
    Leaves (m.stack.size - 3) (m.copy source) := by
  obtain ⟨offset, sourceOffset, len, items, hitems⟩ := exists_three (Frame.check_eq_ok.mp h).1
  have hsize : m.stack.size - 3 = (m.withItems items).stack.size := by
    simp [OperandStack.size, hitems, withItems]
  simp only [copy, hitems]
  rw [hsize]
  exact leaves_withRegion fun memory =>
    leaves_afterWrite ((m.withItems items).withMemory memory) _

lemma leaves_store (h : m.stack.check 2 0 = .ok ()) (len : ℕ) :
    Leaves (m.stack.size - 2) (m.store len) := by
  obtain ⟨offset, value, items, hitems⟩ := Frame.exists_two (Frame.check_eq_ok.mp h).1
  have hsize : m.stack.size - 2 = (m.withItems items).stack.size := by
    simp [OperandStack.size, hitems, withItems]
  simp only [store, hitems]
  rw [hsize]
  refine leaves_withRegion fun memory => ?_
  split
  · exact leaves_afterWrite ((m.withItems items).withMemory memory) _
  · exact leaves_exit ((m.withItems items).withMemory memory) (by simp)

/-- A word is loaded from a region that can be addressed. -/
lemma leaves_load (h : m.stack.check 1 1 = .ok ())
    (hindex : (m.stack.peekD 0).toNat + 32 ≤ maxIndex) :
    Leaves (m.stack.size - 1 + 1) m.load := by
  obtain ⟨offset, items, hitems, hsize⟩ := exists_cons_of_check h
  rw [peekD_zero hitems] at hindex
  obtain ⟨memory, hresize⟩ := Memory.resizeOffset_ok (m.withItems items).memory
    (.inr hindex : (32 : Word) = 0 ∨ offset.toNat + (32 : Word).toNat ≤ maxIndex)
  have haddress : offset.isIndex = true := by
    simp only [Word.isIndex, decide_eq_true_eq]
    omega
  simp only [load, hitems, withRegion, hresize, haddress, if_true]
  exact leaves_result (m := m.withMemory memory) h hsize _ _

lemma leaves_jumpTo (m : Machine) (destination : Word) :
    Leaves m.stack.size (m, jumpTo destination) := by
  simp only [jumpTo]
  split
  · exact ⟨rfl, by simp⟩
  · refine leaves_exit m ?_
    rintro e ⟨⟩
    rfl

lemma leaves_jump (h : m.stack.check 1 0 = .ok ()) : Leaves (m.stack.size - 1) m.jump := by
  obtain ⟨destination, items, hitems, hsize⟩ := exists_cons_of_check h
  simp only [jump, hitems]
  rw [hsize]
  exact leaves_jumpTo (m.withItems items) destination

lemma leaves_jumpIf (h : m.stack.check 2 0 = .ok ()) : Leaves (m.stack.size - 2) m.jumpIf := by
  obtain ⟨destination, condition, items, hitems⟩ := Frame.exists_two (Frame.check_eq_ok.mp h).1
  have hsize : m.stack.size - 2 = (m.withItems items).stack.size := by
    simp [OperandStack.size, hitems, withItems]
  simp only [jumpIf, hitems]
  rw [hsize]
  split
  · exact leaves_next _ 1
  · exact leaves_jumpTo _ _

lemma leaves_finish (h : m.stack.check 2 0 = .ok ()) {reason : ExitReason}
    (hreason : ∀ e, reason = .error e → e.isForestalled = false) :
    Leaves (m.stack.size - 2) (m.finish reason) := by
  obtain ⟨start, len, items, hitems⟩ := Frame.exists_two (Frame.check_eq_ok.mp h).1
  have hsize : m.stack.size - 2 = (m.withItems items).stack.size := by
    simp [OperandStack.size, hitems, withItems]
  have hrange : ∀ e, ExitReason.error .invalidRange = .error e → e.isForestalled = false := by
    rintro e ⟨⟩
    rfl
  simp only [finish, hitems]
  rw [hsize]
  split
  · exact leaves_exit { m.withItems items with returnRange := (0, 0) } hreason
  · split
    · exact leaves_exit (m.withItems items) hrange
    · split <;> rename_i hresize
      · exact leaves_exit { m.withItems items with
          memory := _, returnRange := (start.toNat, start.toNat + len.toNat) } hreason
      · obtain rfl := resizeEnd_error hresize
        exact leaves_exit (m.withItems items) hrange

lemma leaves_dup {n : ℕ} (h : m.stack.check n (n + 1) = .ok ()) (hpos : 0 < n) :
    Leaves (m.stack.size - n + (n + 1)) (m.dup n) := by
  obtain ⟨henough, hroom⟩ := Frame.check_eq_ok.mp h
  have hsize : m.stack.size - n + (n + 1) = m.stack.size + 1 := by omega
  have hitem : n - 1 < m.stack.items.length := by
    simp only [OperandStack.size] at henough
    omega
  rw [hsize] at hroom ⊢
  simp only [dup, OperandStack.peek, List.getElem?_eq_getElem hitem]
  exact leaves_pushNext m hroom _ _

lemma leaves_swap {n : ℕ} (h : m.stack.check (n + 1) (n + 1) = .ok ()) :
    Leaves (m.stack.size - (n + 1) + (n + 1)) (m.swap n) := by
  obtain ⟨henough, -⟩ := Frame.check_eq_ok.mp h
  have hsize : m.stack.size - (n + 1) + (n + 1) = m.stack.items.length := by
    simp only [OperandStack.size] at henough ⊢
    omega
  simp only [OperandStack.size] at henough
  have hfirst : 0 < m.stack.items.length := by omega
  have hother : n < m.stack.items.length := by omega
  rw [hsize]
  simp only [swap, OperandStack.peek, List.getElem?_eq_getElem hfirst,
    List.getElem?_eq_getElem hother]
  exact ⟨by simp [withItems, OperandStack.size], by simp⟩

/-- **Every local instruction** leaves what the check has foreseen. -/
lemma evaluate_leaves (hlocal : op.instruction.isLocal = true)
    (harity : op.instruction.arity = some (taken, given))
    (hcheck : m.stack.check taken given = .ok ())
    (hindex : op.instruction = .mload → (m.stack.peekD 0).toNat + 32 ≤ maxIndex)
    (position : ℕ) : Leaves (m.stack.size - taken + given) (m.evaluate op position) := by
  have hroom := (Frame.check_eq_ok.mp hcheck).2
  have hreverted : ∀ e, ExitReason.error .reverted = .error e → e.isForestalled = false := by
    rintro e ⟨⟩
    rfl
  simp only [evaluate]
  cases hi : op.instruction <;> rw [hi] at hlocal harity hindex
  case dup n =>
    obtain ⟨rfl, rfl⟩ : n = taken ∧ n + 1 = given := by simpa [Instruction.arity] using harity
    exact leaves_dup hcheck (Opcode.dup_pos hi)
  all_goals first
    | cases hlocal; done
    | cases harity
  case stop => exact leaves_exit m (by simp)
  case unary f | callDataLoad => exact leaves_unary hcheck _
  case binary f => exact leaves_binary hcheck _
  case ternary f => exact leaves_ternary hcheck _
  case codeSize | callDataSize | programCounter | memorySize | push =>
    exact leaves_pushNext m hroom _ _
  case codeCopy | callDataCopy => exact leaves_copy hcheck _
  case pop =>
    obtain ⟨x, items, hitems, hsize⟩ := exists_cons_of_check hcheck
    simp only [hitems]
    rw [hsize]
    exact leaves_next (m.withItems items) 1
  case mload => exact leaves_load hcheck (hindex rfl)
  case mstore | mstore8 => exact leaves_store hcheck _
  case jump => exact leaves_jump hcheck
  case jumpIf => exact leaves_jumpIf hcheck
  case jumpDest => exact leaves_next m 1
  case swap n => exact leaves_swap hcheck
  case ret => exact leaves_finish hcheck (by simp)
  case revert => exact leaves_finish hcheck hreverted
  case invalid =>
    refine leaves_exit m ?_
    rintro e ⟨⟩
    rfl

/-- **The step of a local instruction** ends or goes on with what its evaluation leaves. -/
lemma step_leaves {position : ℕ} (hposition : m.position = .ok position)
    (hop : m.nextOpcode? = some op) (hlocal : op.instruction.isLocal = true) {size : ℕ}
    (h : Leaves size (m.evaluate op position)) :
    m.step.1.stack.size = size ∧ (m.step.2 = none ∨ ∃ reason, m.step.2 = some (.exit reason) ∧
      ∀ e, reason = .error e → e.isForestalled = false) := by
  have hstays := evaluate_local m hlocal position
  rcases hevaluate : m.evaluate op position with ⟨m', control⟩
  rw [hevaluate] at hstays h
  simp only [step, hposition, hop, hevaluate]
  cases control with
  | next count => exact ⟨h.size, .inl rfl⟩
  | jump destination =>
      dsimp only
      split
      · exact ⟨h.size, .inl rfl⟩
      · refine ⟨h.size, .inr ⟨_, rfl, ?_⟩⟩
        rintro e ⟨⟩
        rfl
  | exit reason => exact ⟨h.size, .inr ⟨reason, rfl, fun e he => h.foreseen e (by rw [he])⟩⟩
  | trap trapped => exact absurd rfl (hstays.noTrap trapped)

end Machine

/-! ## The surroundings -/

namespace Frame

variable {f g : Frame} {chain : ChainView} {op : Opcode} {taken given : ℕ} {items : List Word}
  {stipend afterGas : Gas}

/-- **An outcome that the check has foreseen,** for a trapped opcode.  Where a datum is missing or a
    counter runs over there is none. -/
inductive Leaves (size : ℕ) (faults : Prop) : Frame × Except Interrupt Performed → Prop where
  | done {g : Frame} {done : Performed} (sized : g.machine.stack.size = size)
      (foreseen : ∀ e, done.control = .exit (.error e) → e.isForestalled = false) :
      Leaves size faults (g, .ok done)
  | waits {g : Frame} {r : Requirement} : Leaves size faults (g, .error (.requires r))
  | fault {g : Frame} {e : Fault} (spent : faults) : Leaves size faults (g, .error (.fault e))

/-- The nonce of the frame's account cannot be raised any more. -/
def NonceSpent (f : Frame) (chain : ChainView) : Prop :=
  ∃ nonce, f.overlay.nonce f.context.address chain.log = .ok nonce ∧ nonce.toNat = maxWord

variable {size : ℕ} {faults faults' : Prop} {r : Frame × Except Interrupt Performed}

lemma Leaves.imp (h : Leaves size faults r) (himp : faults → faults') :
    Leaves size faults' r := by
  cases h with
  | done sized foreseen => exact .done sized foreseen
  | waits => exact .waits
  | fault spent => exact .fault (himp spent)

/-- Where there is room a result is pushed. -/
lemma leaves_giving (f : Frame) (h : f.machine.stack.size + 1 ≤ f.machine.stack.limit) (w : Word)
    {control : FrameControl} (hcontrol : ∀ e, control ≠ .exit (.error e)) (event : Option Event) :
    Leaves (f.machine.stack.size + 1) faults (f.giving w control event) := by
  simp only [giving, OperandStack.push, if_neg (Nat.not_lt.mpr h)]
  exact .done rfl fun e he => absurd he (hcontrol e)

lemma leaves_writing (f : Frame) (r : Except ExitFatal Memory) :
    Leaves f.machine.stack.size faults (f.writing r) := by
  cases r with
  | ok memory => exact .done rfl (by simp)
  | error e => exact .done rfl (by simp)

lemma leaves_reading {α : Type} {r : Except Requirement α}
    {k : α → Frame × Except Interrupt Performed} (hk : ∀ a, r = .ok a → Leaves size faults (k a)) :
    Leaves size faults (f.reading r k) := by
  cases r with
  | ok a => exact hk a rfl
  | error e => exact .waits

lemma leaves_performCreate (h : f.machine.stack.size + 1 ≤ f.machine.stack.limit)
    (value offset len : Word) (salt : Option Word) :
    Leaves (f.machine.stack.size + 1) (f.NonceSpent chain)
      (f.performCreate chain afterGas value offset len salt) := by
  simp only [performCreate]
  refine leaves_reading fun declined _ => ?_
  split
  · exact leaves_giving { f with ret := ByteArray.empty } h _ (by simp) _
  · refine leaves_reading fun nonce hnonce => ?_
    simp only [nextNonce]
    split
    · exact .fault ⟨nonce, hnonce, ‹_›⟩
    · refine leaves_reading fun overlay _ => ?_
      exact leaves_giving { f with ret := ByteArray.empty, overlay := overlay } h _ (by simp) _

lemma leaves_performCall (h : f.machine.stack.size + 1 ≤ f.machine.stack.limit) (kind : CallKind)
    (o : CallOperands) :
    Leaves (f.machine.stack.size + 1) faults (f.performCall chain kind stipend afterGas o) := by
  simp only [performCall]
  refine leaves_reading fun declined _ => ?_
  split
  · exact leaves_giving { f with ret := ByteArray.empty } h _ (by simp) _
  · refine leaves_reading fun code _ => ?_
    exact leaves_giving { f with ret := ByteArray.empty } h _ (by simp) _

lemma leaves_performSelfDestruct (target : Address) :
    Leaves f.machine.stack.size faults (f.performSelfDestruct chain target) := by
  simp only [performSelfDestruct]
  refine leaves_reading fun balance _ => leaves_reading fun paid _ => ?_
  exact leaves_reading fun remaining _ => leaves_reading fun overlay _ => .done rfl (by simp)

/-- A stack with enough items has the operands of a call. -/
lemma exists_callOperands {stack : OperandStack} (kind : CallKind)
    (harity : (Instruction.call kind).arity = some (taken, given)) (h : taken ≤ stack.size) :
    ∃ o rest, callOperands? kind stack.items = some (o, rest) := by
  have hsix : ∀ more, 6 + more ≤ stack.size → ∃ a b c d e f rest,
      stack.items = a :: b :: c :: d :: e :: f :: rest ∧ more ≤ rest.length := by
    intro more hsize
    obtain ⟨a, b, c, tail, htail⟩ := Machine.exists_three (by omega : 3 ≤ stack.size)
    simp only [OperandStack.size, htail, List.length_cons] at hsize
    obtain ⟨d, e, f, rest, rfl⟩ := exists_three_of_length (by omega : 3 ≤ tail.length)
    simp only [List.length_cons] at hsize
    exact ⟨a, b, c, d, e, f, rest, htail, by omega⟩
  cases kind <;> cases harity
  case call | callCode =>
    obtain ⟨a, b, c, d, e, f, rest, hitems, hrest⟩ := hsix 1 h
    obtain ⟨g, rest, rfl⟩ := List.exists_cons_of_length_pos hrest
    exact ⟨_, _, by rw [hitems]; rfl⟩
  case delegateCall | staticCall =>
    obtain ⟨a, b, c, d, e, f, rest, hitems, -⟩ := hsix 0 h
    exact ⟨_, _, by rw [hitems]; rfl⟩

/-- **Every trapped opcode** leaves what the check has foreseen; only a creation can be without an
    outcome. -/
lemma perform_leaves (hlocal : op.instruction.isLocal = false)
    (harity : op.instruction.arity = some (taken, given))
    (hcheck : f.machine.stack.check taken given = .ok ()) :
    Leaves (f.machine.stack.size - taken + given)
      ((∃ kind, op.instruction = .create kind) ∧ f.NonceSpent chain)
      (f.perform chain op stipend afterGas) := by
  obtain ⟨henough, hroom⟩ := check_eq_ok.mp hcheck
  -- what is left of the stack, and that it has room for a result
  have hrest : ∀ items : List Word, f.machine.stack.size = items.length + taken →
      f.machine.stack.size - taken + given = (f.withItems items).machine.stack.size + given ∧
        (f.withItems items).machine.stack.size + given ≤
          (f.withItems items).machine.stack.limit := by
    intro items hitems
    have hsize : (f.withItems items).machine.stack.size = items.length := rfl
    have hlimit : (f.withItems items).machine.stack.limit = f.machine.stack.limit := rfl
    omega
  cases hi : op.instruction <;> rw [hi] at hlocal harity
  case query q =>
    cases harity
    simp only [perform, hi]
    exact leaves_giving f hroom _ (by simp) _
  case keccak =>
    cases harity
    obtain ⟨offset, len, items, hitems⟩ := exists_two henough
    obtain ⟨hsize, hroom⟩ := hrest items (by simp [OperandStack.size, hitems])
    simp only [perform, hi, hitems]
    rw [hsize]
    exact leaves_giving _ hroom _ (by simp) _
  case balance | extCodeSize | extCodeHash | sload =>
    cases harity
    obtain ⟨x, items, hitems, hcount⟩ := exists_cons_of_check hcheck
    obtain ⟨hsize, hroom⟩ := hrest items hcount
    simp only [perform, hi, hitems]
    rw [hsize]
    exact leaves_reading fun _ _ => leaves_giving _ hroom _ (by simp) _
  case blockHash =>
    cases harity
    obtain ⟨x, items, hitems, hcount⟩ := exists_cons_of_check hcheck
    obtain ⟨hsize, hroom⟩ := hrest items hcount
    simp only [perform, hi, hitems]
    rw [hsize]
    split
    · exact leaves_reading fun _ _ => leaves_giving _ hroom _ (by simp) _
    · exact leaves_giving _ hroom _ (by simp) _
  case extCodeCopy =>
    cases harity
    obtain ⟨x, rest, hfirst, hcount⟩ := exists_cons_of_check hcheck
    obtain ⟨offset, codeOffset, len, items, rfl⟩ :=
      exists_three_of_length (by omega : 3 ≤ rest.length)
    obtain ⟨hsize, -⟩ := hrest items (by simpa using hcount)
    simp only [perform, hi, hfirst]
    rw [hsize]
    exact leaves_reading fun _ _ => leaves_writing _ _
  case returnDataCopy =>
    cases harity
    obtain ⟨offset, dataOffset, len, items, hitems⟩ := Machine.exists_three henough
    obtain ⟨hsize, -⟩ := hrest items (by simp [OperandStack.size, hitems])
    simp only [perform, hi, hitems]
    rw [hsize]
    exact leaves_writing _ _
  case sstore =>
    cases harity
    obtain ⟨index, value, items, hitems⟩ := exists_two henough
    obtain ⟨hsize, -⟩ := hrest items (by simp [OperandStack.size, hitems])
    simp only [perform, hi, hitems]
    rw [hsize]
    exact leaves_reading fun overlay _ => .done rfl (by simp)
  case log topics =>
    cases harity
    obtain ⟨offset, len, items, hitems⟩ := exists_two (by omega : 2 ≤ f.machine.stack.size)
    have hcount : f.machine.stack.size = items.length + 2 := by simp [OperandStack.size, hitems]
    have htopics : ¬ items.length < topics := by omega
    obtain ⟨hsize, -⟩ := hrest (items.drop topics) (by rw [List.length_drop]; omega)
    simp only [perform, hi, hitems, if_neg htopics]
    rw [hsize]
    exact .done rfl (by simp)
  case create kind =>
    cases kind with
    | byNonce =>
        cases harity
        obtain ⟨value, offset, len, items, hitems⟩ := Machine.exists_three henough
        obtain ⟨hsize, hroom⟩ := hrest items (by simp [OperandStack.size, hitems])
        simp only [perform, hi, hitems]
        rw [hsize]
        exact (leaves_performCreate hroom value offset len none).imp
          fun hspent => ⟨⟨_, rfl⟩, hspent⟩
    | bySalt =>
        cases harity
        obtain ⟨value, rest, hfirst, hcount⟩ := exists_cons_of_check hcheck
        obtain ⟨offset, len, salt, items, rfl⟩ :=
          exists_three_of_length (by omega : 3 ≤ rest.length)
        obtain ⟨hsize, hroom⟩ := hrest items (by simpa using hcount)
        simp only [perform, hi, hfirst]
        rw [hsize]
        exact (leaves_performCreate hroom value offset len (some salt)).imp
          fun hspent => ⟨⟨_, rfl⟩, hspent⟩
  case call kind =>
    obtain ⟨o, items, ho⟩ := exists_callOperands kind harity henough
    obtain ⟨taken', harity', hcount⟩ := callOperands_length ho
    obtain ⟨rfl, rfl⟩ : taken = taken' ∧ given = 1 := by
      simpa using harity.symm.trans harity'
    obtain ⟨hsize, hroom⟩ := hrest items (by rw [OperandStack.size, hcount, add_comm])
    simp only [perform, hi, ho]
    rw [hsize]
    exact leaves_performCall hroom kind o
  case selfDestruct =>
    cases harity
    obtain ⟨target, items, hitems, hcount⟩ := exists_cons_of_check hcheck
    obtain ⟨hsize, -⟩ := hrest items hcount
    simp only [perform, hi, hitems]
    rw [hsize]
    exact leaves_performSelfDestruct _
  all_goals first
    | cases hlocal; done
    | cases harity

/-! ## Steps -/

/-- An opcode that the rules have is in the table. -/
lemma exists_arity (i : Instruction) {rules : Rules} (h : i.isEnabled rules = true) :
    ∃ taken given, i.arity = some (taken, given) := by
  cases i <;> first
    | exact ⟨_, _, rfl⟩
    | (rename_i kind; cases kind <;> exact ⟨_, _, rfl⟩)
    | cases h

/-- **Executing an opcode** leaves what its check has foreseen. -/
lemma execute_leaves (hop : f.machine.nextOpcode? = some op)
    (harity : op.instruction.arity = some (taken, given))
    (hcheck : f.machine.stack.check taken given = .ok ())
    (hindex : op.instruction = .mload → (f.operand 0).toNat + 32 ≤ maxIndex) :
    Leaves (f.machine.stack.size - taken + given)
      ((∃ kind, op.instruction = .create kind) ∧ f.NonceSpent chain)
      (f.execute chain stipend afterGas) := by
  cases hlocal : op.instruction.isLocal with
  | false =>
      obtain ⟨p, hstep⟩ := f.machine.step_of_trap hop hlocal
      simp only [execute, hstep]
      exact perform_leaves (f := { f with machine := { f.machine with position := .ok (p + 1) } })
        hlocal harity hcheck
  | true =>
      obtain ⟨position, hposition⟩ := f.machine.exists_position hop
      obtain ⟨hsize, hcapture⟩ := Machine.step_leaves hposition hop hlocal
        (Machine.evaluate_leaves hlocal harity hcheck hindex position)
      rcases hstep : f.machine.step with ⟨m, capture⟩
      simp only [hstep] at hsize hcapture
      simp only [execute, hstep]
      rcases hcapture with rfl | ⟨reason, rfl, hforeseen⟩
      · exact .done hsize (by simp)
      · exact .done hsize fun e he => hforeseen e (FrameControl.exit.inj he)

/-- **A frame about to execute an opcode.** -/
structure AtOpcode (f : Frame) (chain : ChainView) (op : Opcode) : Prop where
  running : f.status = .running
  code : chain.ruleset.precompile? f.context.codeAddress = none
  next : f.machine.nextOpcode? = some op

/-- **An opcode that is carried out:** its check has passed, and gas and memory have been paid. -/
structure Cleared (f : Frame) (chain : ChainView) (op : Opcode) (c : Charge) (afterGas : Gas)
    (memory : Memory) : Prop where
  checked : f.check chain op = .ok ()
  charged : f.charge chain op.instruction = .ok c
  afforded : f.afford chain.rules op.instruction c = .ok (afterGas, memory)

variable {c : Charge} {memory : Memory}

lemma AtOpcode.step_eq (h : f.AtOpcode chain op) : f.step chain = f.stepAt chain op := by
  simp only [step, h.running, h.code, h.next]

/-- Past its check, an opcode is executed. -/
lemma Cleared.stepAt_eq (h : f.Cleared chain op c afterGas memory) :
    f.stepAt chain op = conclude c ((f.withMemory memory).execute chain c.stipend afterGas) := by
  simp only [stepAt, h.checked, h.charged, reading_ok, h.afforded]

/-- The stack check of an opcode that is carried out. -/
lemma Cleared.exists_arity (h : f.Cleared chain op c afterGas memory) : ∃ taken given,
    op.instruction.arity = some (taken, given) ∧ f.machine.stack.check taken given = .ok () := by
  obtain ⟨henabled, hstack, -⟩ := check_parts.mp h.checked
  obtain ⟨taken, given, harity⟩ := Frame.exists_arity _ henabled
  simp only [checkStack, harity] at hstack
  exact ⟨taken, given, harity, hstack⟩

lemma Cleared.execute_leaves (h : f.Cleared chain op c afterGas memory)
    (hop : f.machine.nextOpcode? = some op)
    (harity : op.instruction.arity = some (taken, given))
    (hcheck : f.machine.stack.check taken given = .ok ()) :
    Leaves (f.machine.stack.size - taken + given)
      ((∃ kind, op.instruction = .create kind) ∧ f.NonceSpent chain)
      ((f.withMemory memory).execute chain c.stipend afterGas) := by
  refine Frame.execute_leaves (f := f.withMemory memory) hop harity hcheck fun hi => ?_
  -- the word that is loaded has been paid for, so it can be addressed
  have hpaid := (afford_eq_ok h.afforded).2.1
  rw [(charge_eq_ok h.charged).1, hi] at hpaid
  rcases expand_covers hpaid with hzero | hend
  · cases hzero
  · exact hend.trans (memoryLimit_le chain.rules)

/-- **A step that passes its check** takes and gives what the table says, and fails for none of the
    reasons that the check is there for. -/
lemma Cleared.step_leaves (h : f.Cleared chain op c afterGas memory) (hat : f.AtOpcode chain op)
    (harity : op.instruction.arity = some (taken, given))
    (hcheck : f.machine.stack.check taken given = .ok ()) :
    (∃ g event, f.step chain = (g, .ok event) ∧
      g.machine.stack.size = f.machine.stack.size - taken + given ∧
        ∀ e, g.status = .exitedErr e → e.isForestalled = false) ∨
      (∃ kind, op.instruction = .create kind) ∧ f.NonceSpent chain ∧
        ∃ g fault, f.step chain = (g, .error (.fault fault)) := by
  have hleaves := h.execute_leaves hat.next harity hcheck
  have hasks := asksNothing_execute hat.next h.checked memory c.stipend afterGas
  have hstack : (f.withMemory memory).checkStack op.instruction = .ok () :=
    (check_parts.mp h.checked).2.1
  rw [hat.step_eq, h.stepAt_eq]
  rcases hexecute : (f.withMemory memory).execute chain c.stipend afterGas with ⟨g, result⟩
  rw [hexecute] at hleaves hasks
  cases hleaves with
  | waits => cases hasks
  | fault spent => exact .inr ⟨spent.1, spent.2, _, _, rfl⟩
  | @done _ done sized foreseen =>
      refine .inl ⟨_, _, rfl, ?_, fun e he => ?_⟩
      · rw [follow_stack]
        exact sized
      · have hrunning : g.status = .running :=
          (execute_effect (f := f.withMemory memory) hat.next hstack hexecute).same.2.2.2.trans
            hat.running
        cases hcontrol : done.control with
        | exit reason =>
            have hstatus : FrameStatus.ofReason reason = .exitedErr e := by
              rw [hcontrol] at he
              simp only [follow] at he
              split at he <;> exact he
            cases reason with
            | error e' =>
                cases hstatus
                exact foreseen _ hcontrol
            | succeed | fatal => cases hstatus
        | proceed =>
            rw [hcontrol] at he
            cases hrunning.symm.trans he
        | invokeCall | invokeCreate =>
            rw [hcontrol] at he
            cases he

/-- A check that fails leaves the stack, the memory and the accounts alone. -/
lemma AtOpcode.refused (h : f.AtOpcode chain op) {refusal : Refusal}
    (hrefused : f.check chain op = .error refusal) :
    (f.step chain).1 = f ∨ ∃ e, (f.step chain).1 = f.fail e := by
  rw [h.step_eq]
  cases refusal with
  | fails e => exact .inr ⟨e, by simp only [stepAt, hrefused]⟩
  | requires r => exact .inl (by simp only [stepAt, hrefused])

/-! ## Every frame -/

/-- A step that leaves more items than fit is never taken. -/
lemma step_room {event : Option Event} (h : f.step chain = (g, .ok event))
    (hroom : f.machine.stack.size ≤ f.machine.stack.limit) :
    g.machine.stack.size ≤ g.machine.stack.limit := by
  have hpaused : ∀ {k : Frame}, f.SameHeight k → k.machine.stack.size ≤ k.machine.stack.limit :=
    fun hk => hk.size.trans_le (hroom.trans_eq hk.limit.symm)
  have hstepped := step_stepped h
  cases hstepped with
  | idle => exact hroom
  | precompile =>
      refine hpaused (.of_stack ?_)
      simp only [runPrecompile]
      split <;> rfl
  | past | refused | unaffordable => exact hpaused (.of_stack rfl)
  | executed running code checked charged afforded effect next =>
      have hcleared : f.Cleared chain _ _ _ _ := ⟨checked, charged, afforded⟩
      have hlimit := effect.program.stackLimit
      obtain ⟨taken, given, harity, hcheck⟩ := hcleared.exists_arity
      rcases hcleared.step_leaves ⟨running, code, next⟩ harity hcheck with
        ⟨g', event', hstep, hsize, -⟩ | ⟨-, -, g', fault, hstep⟩
      · obtain rfl := congrArg Prod.fst (h.symm.trans hstep)
        rw [hsize, follow_stack]
        exact (check_eq_ok.mp hcheck).2.trans_eq hlimit.symm
      · cases h.symm.trans hstep

/-- A step keeps the limit of the stack. -/
lemma Stepped.stackLimit (h : f.Stepped chain g) :
    g.machine.stack.limit = f.machine.stack.limit := by
  cases h with
  | idle | past | refused | unaffordable => rfl
  | precompile =>
      simp only [runPrecompile]
      split <;> rfl
  | executed running code checked charged afforded effect =>
      rw [follow_stack]
      exact effect.program.stackLimit

/-- **No frame has more items than fit on its stack.** -/
lemma Arises.room {rs : Ruleset} (h : f.Arises rs) :
    f.machine.stack.limit = stackLimit ∧ f.machine.stack.size ≤ f.machine.stack.limit := by
  have hkeep : ∀ {f g : Frame}, f.SameHeight g →
      f.machine.stack.limit = stackLimit ∧ f.machine.stack.size ≤ f.machine.stack.limit →
        g.machine.stack.limit = stackLimit ∧ g.machine.stack.size ≤ g.machine.stack.limit :=
    fun hsame hf => ⟨hsame.limit.trans hf.1, hsame.size.trans_le (hf.2.trans_eq hsame.limit.symm)⟩
  induction h with
  | created => exact ⟨rfl, Nat.zero_le _⟩
  | moved before moves ih =>
      cases moves with
      | called begins => exact hkeep (beginCall_begun begins).height ih
      | creating begins => exact hkeep (beginCreate_begun begins).height ih
      | stepped steps =>
          exact ⟨(step_stepped steps).stackLimit.trans ih.1, step_room steps ih.2⟩
      | absorbed absorbs => exact hkeep (absorb_absorbed absorbs).height ih
      | deposited deposits => exact hkeep (depositCode_deposited deposits).height ih

/-- **The checks of opcodes are sound.**  A frame that carries out an opcode — its check has passed,
    and gas and memory have been paid — takes and gives as many items as the table says, whether it
    goes on, ends or asks for another frame, and never fails for want of an operand, of room or of a
    meaning; only a creation by an account without a next nonce has no outcome.  Where the check
    fails, stack, memory and accounts stay as they were.  Every opcode that the rules have is in the
    table and known to the machine or to its surroundings.  So no frame ever has more than 1024
    items. -/
theorem opcode_checks_are_sound :
    (∀ (f : Frame) (chain : ChainView) (op : Opcode), f.AtOpcode chain op →
      (∀ c afterGas memory, f.Cleared chain op c afterGas memory →
        ∃ taken given, op.instruction.arity = some (taken, given) ∧
          ((∃ g event, f.step chain = (g, .ok event) ∧
            g.machine.stack.size = f.machine.stack.size - taken + given ∧
              ∀ e, g.status = .exitedErr e → e.isForestalled = false) ∨
            (∃ kind, op.instruction = .create kind) ∧ f.NonceSpent chain ∧
              ∃ g fault, f.step chain = (g, .error (.fault fault)))) ∧
      (∀ refusal, f.check chain op = .error refusal →
        (f.step chain).1.machine.stack = f.machine.stack ∧
          (f.step chain).1.machine.memory = f.machine.memory ∧
            (f.step chain).1.overlay = f.overlay)) ∧
    (∀ (rules : Rules) (op : Opcode), op.instruction.isEnabled rules = true →
      ∃ taken given, op.instruction.arity = some (taken, given) ∧
        ((∀ (m : Machine) position trapped, (m.evaluate op position).2 ≠ .trap trapped) ∨
          ∀ (f g : Frame) chain stipend afterGas done invalid,
            f.machine.stack.check taken given = .ok () →
              f.perform chain op stipend afterGas = (g, .ok done) →
                done.control ≠ .exit (.error (.invalidCode invalid)))) ∧
    (∀ (rs : Ruleset) (f : Frame), f.Arises rs → f.machine.stack.size ≤ 1024) ∧
    ∀ (rs : Ruleset) (block : Header) (root : Frame) (s : CallStack), root.Arises rs →
      CallStack.ComesFrom rs block root s → ∀ f ∈ s.frames, f.machine.stack.size ≤ 1024 := by
  have hroom : ∀ (rs : Ruleset) (f : Frame), f.Arises rs → f.machine.stack.size ≤ 1024 :=
    fun rs f hf => hf.room.2.trans_eq hf.room.1
  refine ⟨fun f chain op hat => ⟨fun c afterGas memory hcleared => ?_, fun refusal hrefused => ?_⟩,
    fun rules op henabled => ?_, hroom, fun rs block root s hroot hs f hf => ?_⟩
  · obtain ⟨taken, given, harity, hcheck⟩ := hcleared.exists_arity
    exact ⟨taken, given, harity, hcleared.step_leaves hat harity hcheck⟩
  · rcases hat.refused hrefused with hsame | ⟨e, hfailed⟩
    · rw [hsame]
      exact ⟨rfl, rfl, rfl⟩
    · rw [hfailed]
      exact ⟨rfl, rfl, rfl⟩
  · obtain ⟨taken, given, harity⟩ := exists_arity _ henabled
    refine ⟨taken, given, harity, ?_⟩
    cases hlocal : op.instruction.isLocal with
    | true => exact .inl fun m position => (m.evaluate_local hlocal position).noTrap
    | false =>
        refine .inr fun f g chain stipend afterGas done invalid hcheck hperform hcontrol => ?_
        have hleaves : Leaves _ _ (f.perform chain op stipend afterGas) :=
          perform_leaves hlocal harity hcheck
        rw [hperform] at hleaves
        cases hleaves with
        | done sized foreseen => cases foreseen _ hcontrol
  · exact hroom rs f (hs.arises hroot f (List.mem_reverse.mp hf))

open CallStack in
/-- A call takes its seven operands and leaves one result, while the frame waits for the frame that
    it asks for. -/
theorem optimist_call_leaves_result : ∃ g event,
    (disappointment 7).current.step revertingChain = (g, .ok event) ∧
      g.status.invoked?.isSome = true ∧ g.machine.stack.size = 1 := by
  have hat : (disappointment 7).current.AtOpcode revertingChain ⟨0xf1⟩ :=
    ⟨by decide +kernel, by decide +kernel, by decide +kernel⟩
  obtain ⟨c, afterGas, memory, hcleared⟩ : ∃ c afterGas memory,
      (disappointment 7).current.Cleared revertingChain ⟨0xf1⟩ c afterGas memory :=
    ⟨_, _, _, ⟨by rfl, by rfl, by rfl⟩⟩
  have hsize : (disappointment 7).current.machine.stack.size = 7 := by decide +kernel
  have hinvokes : ((disappointment 7).current.step revertingChain).1.status.invoked?.isSome =
      true := by decide +kernel
  obtain ⟨taken, given, harity, hstep⟩ :=
    (opcode_checks_are_sound.1 _ _ _ hat).1 c afterGas memory hcleared
  obtain ⟨rfl, rfl⟩ : 7 = taken ∧ 1 = given :=
    Prod.mk.inj (Option.some.inj (show some (7, 1) = some (taken, given) from harity))
  rcases hstep with ⟨g, event, hstep, hleft, -⟩ | ⟨⟨kind, hcreate⟩, -⟩
  · refine ⟨g, event, hstep, ?_, ?_⟩
    · rw [hstep] at hinvokes
      exact hinvokes
    · rw [hleft, hsize]
  · cases (show Instruction.call .call = .create kind from hcreate)

end Frame

end ResumableEvm
