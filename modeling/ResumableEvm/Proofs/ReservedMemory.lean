import ResumableEvm.Proofs.Effect

/-!
# Memory reserved in advance

The machine extends its paid memory when an instruction needs it.  Nothing changes when the
region of the instruction has been paid for before: the machine comes to the same end, and while
it goes on it pays for nothing more.

* `Instruction.region` — the memory that such an instruction touches.
* `Machine.evaluate_reserved` — reserving the region first changes nothing.
* `Machine.GoesOn` — what a machine keeps that goes on.
* `Machine.evaluate_refused` — an instruction without room on the stack fails as it would have
  when checked first.
-/

namespace ResumableEvm

/-- The memory that a local instruction touches, by offset and length. -/
def Instruction.region (s : OperandStack) : Instruction → Word × Word
  | .mload | .mstore => (s.peekD 0, 32)
  | .mstore8 => (s.peekD 0, 1)
  | .codeCopy | .callDataCopy => (s.peekD 0, s.peekD 2)
  | .ret | .revert => (s.peekD 0, s.peekD 1)
  | _ => (0, 0)

/-- A copy to the top copies an item that has a position. -/
lemma Opcode.dup_pos {op : Opcode} {n : ℕ} (h : op.instruction = .dup n) : 0 < n := by
  have hsingle : ∀ k, single k ≠ .dup n := by
    intro k hk
    unfold single at hk
    split at hk <;> cases hk
  simp only [instruction] at h
  split at h
  · cases h
  · rename_i hdup
    cases h
    simp only [dupIndex?] at hdup
    split at hdup
    · rename_i hrange
      have hlow : 0x80 ≤ op.byte.toNat := hrange.1
      simp only [Option.some.injEq] at hdup
      omega
    · cases hdup
  · cases h
  · cases h
  · exact absurd h (hsingle _)

namespace Memory

variable {memory memory' : Memory} {offset len : Word}

/-- Memory can be paid for wherever it can be addressed. -/
lemma resizeEnd_ok {stop : ℕ} (h : stop ≤ maxIndex) :
    ∃ memory', memory.resizeEnd stop = .ok memory' := by
  have hmax : maxIndex + 31 ≤ maxWord := by decide
  by_cases hgrows : stop > memory.effective
  · have hword : ¬ roundUp stop > maxWord := by
      simp only [roundUp]
      omega
    refine ⟨{ memory with effective := roundUp stop }, ?_⟩
    rw [resizeEnd, if_pos hgrows, if_neg hword]
  · exact ⟨memory, if_neg hgrows⟩

/-- A region within the range of indices can always be paid for. -/
lemma resizeOffset_ok (memory : Memory) {offset len : Word}
    (h : len = 0 ∨ offset.toNat + len.toNat ≤ maxIndex) :
    ∃ memory', memory.resizeOffset offset len = .ok memory' := by
  by_cases hlen : len = 0
  · exact ⟨memory, if_pos hlen⟩
  · have hend := h.resolve_left hlen
    have hmax : maxIndex ≤ maxWord := by decide
    obtain ⟨memory', hresize⟩ := memory.resizeEnd_ok hend
    refine ⟨memory', ?_⟩
    rw [resizeOffset, if_neg hlen, if_neg (by omega), hresize]

lemma resizeEnd_again {stop : ℕ} (h : memory.resizeEnd stop = .ok memory') :
    memory'.resizeEnd stop = .ok memory' := by
  have hround : stop ≤ roundUp stop := by
    simp only [roundUp]
    omega
  simp only [resizeEnd] at h
  split at h
  · split at h
    · cases h
    · cases h
      exact if_neg (by simpa using hround)
  · rename_i hle
    cases h
    exact if_neg hle

/-- Paying for a region twice is paying for it once. -/
lemma resizeOffset_again (h : memory.resizeOffset offset len = .ok memory') :
    memory'.resizeOffset offset len = .ok memory' := by
  simp only [resizeOffset] at h ⊢
  split at h
  · exact if_pos ‹_›
  · split at h
    · cases h
    · rename_i hlen hword
      rw [if_neg hlen, if_neg hword]
      exact resizeEnd_again h

lemma resizeOffset_zero : memory.resizeOffset offset 0 = .ok memory := if_pos rfl

end Memory

namespace Machine

variable {m : Machine} {memory : Memory} {op : Opcode}

/-- The machine with other memory. -/
def withMemory (m : Machine) (memory : Memory) : Machine := { m with memory := memory }

@[simp] lemma withMemory_stack (m : Machine) (memory : Memory) :
    (m.withMemory memory).stack = m.stack := rfl

/-! ## Operands -/

lemma exists_three {stack : OperandStack} (h : 3 ≤ stack.size) :
    ∃ x y z items, stack.items = x :: y :: z :: items := by
  obtain ⟨x, y, rest, hrest⟩ := Frame.exists_two (by omega : 2 ≤ stack.size)
  simp only [OperandStack.size, hrest, List.length_cons] at h
  obtain ⟨z, items, rfl⟩ := List.exists_cons_of_length_pos (by omega : 0 < rest.length)
  exact ⟨x, y, z, items, hrest⟩

lemma peekD_zero {stack : OperandStack} {x : Word} {items : List Word}
    (h : stack.items = x :: items) : stack.peekD 0 = x := by
  simp [OperandStack.peekD, h]

lemma peekD_one {stack : OperandStack} {x y : Word} {items : List Word}
    (h : stack.items = x :: y :: items) : stack.peekD 1 = y := by
  simp [OperandStack.peekD, h]

lemma peekD_two {stack : OperandStack} {x y z : Word} {items : List Word}
    (h : stack.items = x :: y :: z :: items) : stack.peekD 2 = z := by
  simp [OperandStack.peekD, h]

/-! ## Instructions that touch memory -/

/-- A region that is paid for twice is the region that is paid for once. -/
lemma withRegion_reserved {offset len : Word} (items : List Word)
    (k : Machine → Machine × Control) (h : m.memory.resizeOffset offset len = .ok memory) :
    ((m.withMemory memory).withItems items).withRegion offset len k =
      (m.withItems items).withRegion offset len k := by
  have hagain : ((m.withMemory memory).withItems items).memory.resizeOffset offset len =
      .ok memory := Memory.resizeOffset_again h
  have honce : (m.withItems items).memory.resizeOffset offset len = .ok memory := h
  simp only [withRegion, hagain, honce]
  rfl

/-- A returned region that has been paid for can be addressed. -/
lemma finish_reserved {offset len : Word} {items : List Word} {reason : ExitReason}
    (hitems : m.stack.items = offset :: len :: items)
    (h : m.memory.resizeOffset offset len = .ok memory)
    (hindex : len = 0 ∨ offset.toNat + len.toNat ≤ maxIndex) :
    (m.withMemory memory).finish reason = m.finish reason := by
  simp only [finish, withMemory_stack, hitems]
  by_cases hlen : len = 0
  · subst hlen
    cases Memory.resizeOffset_zero.symm.trans h
    rfl
  · have hend : ¬ offset.toNat + len.toNat > maxIndex := Nat.not_lt.mpr (hindex.resolve_left hlen)
    have hmax : maxIndex ≤ maxWord := by decide
    simp only [Memory.resizeOffset] at h
    rw [if_neg hlen, if_neg (by omega)] at h
    have honce : (m.withItems items).memory.resizeEnd (offset.toNat + len.toNat) = .ok memory := h
    have hagain : ((m.withMemory memory).withItems items).memory.resizeEnd
        (offset.toNat + len.toNat) = .ok memory := Memory.resizeEnd_again h
    simp only [if_neg hlen, if_neg hend, honce, hagain]
    rfl

lemma copy_reserved {offset sourceOffset len : Word} {items : List Word} (source : Bytes)
    (hitems : m.stack.items = offset :: sourceOffset :: len :: items)
    (h : m.memory.resizeOffset offset len = .ok memory) :
    (m.withMemory memory).copy source = m.copy source := by
  simp only [copy, withMemory_stack, hitems]
  exact withRegion_reserved items _ h

lemma load_reserved {offset : Word} {items : List Word} (hitems : m.stack.items = offset :: items)
    (h : m.memory.resizeOffset offset 32 = .ok memory) :
    (m.withMemory memory).load = m.load := by
  simp only [load, withMemory_stack, hitems]
  exact withRegion_reserved items _ h

lemma store_reserved {offset value : Word} {items : List Word} {len : ℕ}
    (hitems : m.stack.items = offset :: value :: items)
    (h : m.memory.resizeOffset offset (Word.ofNat len) = .ok memory) :
    (m.withMemory memory).store len = m.store len := by
  simp only [store, withMemory_stack, hitems]
  exact withRegion_reserved items _ h

/-- **Reserving first.**  Memory that was extended over the region of a local instruction, before
    the instruction found its operands and extended memory itself, changes nothing. -/
lemma evaluate_reserved (hlocal : op.instruction.isLocal = true)
    (hcheck : ∀ taken given, op.instruction.arity = some (taken, given) → taken ≤ m.stack.size)
    (h : m.memory.resizeOffset (op.instruction.region m.stack).1 (op.instruction.region m.stack).2 =
      .ok memory)
    (hindex : (op.instruction.region m.stack).2 = 0 ∨ (op.instruction.region m.stack).1.toNat +
      (op.instruction.region m.stack).2.toNat ≤ maxIndex) (position : ℕ) :
    (m.withMemory memory).evaluate op position = m.evaluate op position := by
  simp only [evaluate]
  cases hi : op.instruction <;> rw [hi] at hlocal hcheck h hindex
  case mload =>
    obtain ⟨offset, items, hitems⟩ := List.exists_cons_of_length_pos (hcheck 1 1 rfl)
    simp only [Instruction.region, peekD_zero hitems] at h
    exact load_reserved hitems h
  case mstore | mstore8 =>
    obtain ⟨offset, value, items, hitems⟩ := Frame.exists_two (hcheck 2 0 rfl)
    simp only [Instruction.region, peekD_zero hitems] at h
    exact store_reserved hitems h
  case codeCopy | callDataCopy =>
    obtain ⟨offset, sourceOffset, len, items, hitems⟩ := exists_three (hcheck 3 0 rfl)
    simp only [Instruction.region, peekD_zero hitems, peekD_two hitems] at h
    exact copy_reserved _ hitems h
  case ret | revert =>
    obtain ⟨offset, len, items, hitems⟩ := Frame.exists_two (hcheck 2 0 rfl)
    simp only [Instruction.region, peekD_zero hitems, peekD_one hitems] at h hindex
    exact finish_reserved hitems h hindex
  -- the other instructions touch no memory, and reserving nothing leaves memory as it is
  all_goals first
    | cases hlocal; done
    | cases Memory.resizeOffset_zero.symm.trans h; rfl

/-! ## Going on -/

/-- **Going on.**  What an instruction keeps that does not end the machine. -/
structure Continues (m m' : Machine) : Prop where
  returnRange : m'.returnRange = m.returnRange
  effective : m'.memory.effective = m.memory.effective
  room : m'.stack.size ≤ m'.stack.limit

/-- The machine ends, or it goes on. -/
def GoesOn (m : Machine) (r : Machine × Control) : Prop :=
  (∃ reason, r.2 = .exit reason) ∨ m.Continues r.1

lemma goesOn_exit {m' : Machine} (reason : ExitReason) : m.GoesOn (m', .exit reason) :=
  .inl ⟨reason, rfl⟩

lemma goesOn_pushNext (items : List Word) (w : Word) (width : ℕ) :
    m.GoesOn ((m.withItems items).pushNext w width) := by
  simp only [pushNext, OperandStack.push]
  split <;> rename_i h
  · split at h
    · cases h
    · rename_i hroom
      cases h
      exact .inr ⟨rfl, rfl, Nat.le_of_not_lt hroom⟩
  · exact goesOn_exit _

lemma goesOn_withItems {items : List Word} {control : Control}
    (h : items.length ≤ m.stack.limit) : m.GoesOn (m.withItems items, control) :=
  .inr ⟨rfl, rfl, h⟩

lemma goesOn_afterWrite {items : List Word} {r : Except ExitFatal Memory}
    (hitems : items.length ≤ m.stack.limit)
    (hr : ∀ memory, r = .ok memory → memory.effective = m.memory.effective) :
    m.GoesOn ((m.withItems items).afterWrite r) := by
  cases r with
  | ok memory => exact .inr ⟨rfl, hr memory rfl, hitems⟩
  | error f => exact goesOn_exit _

lemma goesOn_withRegion {offset len : Word} {items : List Word} {k : Machine → Machine × Control}
    (hpaid : m.memory.resizeOffset offset len = .ok m.memory)
    (hk : m.GoesOn (k (m.withItems items))) :
    m.GoesOn ((m.withItems items).withRegion offset len k) := by
  have hagain : (m.withItems items).memory.resizeOffset offset len = .ok m.memory := hpaid
  simp only [withRegion, hagain]
  exact hk

lemma set_effective {memory' : Memory} {offset len : ℕ} {value : Bytes}
    (h : memory.set offset value len = .ok memory') : memory'.effective = memory.effective := by
  simp only [Memory.set] at h
  split at h
  · cases h
    rfl
  · split at h <;> cases h
    rfl

lemma copyLarge_effective {memory' : Memory} {offset sourceOffset len : Word} {source : Bytes}
    (h : memory.copyLarge offset sourceOffset len source = .ok memory') :
    memory'.effective = memory.effective := by
  simp only [Memory.copyLarge] at h
  split at h
  · cases h
    rfl
  · split at h <;> cases h
    rfl

/-- After its operands have been taken, an instruction has room for as many results. -/
lemma room_of_items {x : Word} {items : List Word} (hitems : m.stack.items = x :: items)
    (hroom : m.stack.size ≤ m.stack.limit) : items.length ≤ m.stack.limit := by
  simp only [OperandStack.size, hitems, List.length_cons] at hroom
  omega

lemma goesOn_unary (f : Word → Word) : m.GoesOn (m.unary f) := by
  simp only [unary]
  split
  · exact goesOn_pushNext _ _ _
  · exact goesOn_exit _

lemma goesOn_binary (f : Word → Word → Word) : m.GoesOn (m.binary f) := by
  simp only [binary]
  split
  · exact goesOn_pushNext _ _ _
  · exact goesOn_exit _

lemma goesOn_ternary (f : Word → Word → Word → Word) : m.GoesOn (m.ternary f) := by
  simp only [ternary]
  split
  · exact goesOn_pushNext _ _ _
  · exact goesOn_exit _

lemma goesOn_copy (source : Bytes) (hroom : m.stack.size ≤ m.stack.limit)
    (hpaid : m.memory.resizeOffset (m.stack.peekD 0) (m.stack.peekD 2) = .ok m.memory) :
    m.GoesOn (m.copy source) := by
  simp only [copy]
  split
  · rename_i offset sourceOffset len items hitems
    rw [peekD_zero hitems, peekD_two hitems] at hpaid
    have hrest := room_of_items hitems hroom
    simp only [List.length_cons] at hrest
    exact goesOn_withRegion hpaid (goesOn_afterWrite (by omega) fun _ h => copyLarge_effective h)
  · exact goesOn_exit _

lemma goesOn_load (hpaid : m.memory.resizeOffset (m.stack.peekD 0) 32 = .ok m.memory) :
    m.GoesOn m.load := by
  simp only [load]
  split
  · rename_i offset items hitems
    rw [peekD_zero hitems] at hpaid
    refine goesOn_withRegion hpaid ?_
    split
    · exact goesOn_pushNext _ _ _
    · exact goesOn_exit _
  · exact goesOn_exit _

lemma goesOn_store {len : ℕ} (hroom : m.stack.size ≤ m.stack.limit)
    (hpaid : m.memory.resizeOffset (m.stack.peekD 0) (Word.ofNat len) = .ok m.memory) :
    m.GoesOn (m.store len) := by
  simp only [store]
  split
  · rename_i offset value items hitems
    rw [peekD_zero hitems] at hpaid
    have hrest := room_of_items hitems hroom
    simp only [List.length_cons] at hrest
    refine goesOn_withRegion hpaid ?_
    split
    · exact goesOn_afterWrite (by omega) fun _ h => set_effective h
    · exact goesOn_exit _
  · exact goesOn_exit _

lemma goesOn_pop (hroom : m.stack.size ≤ m.stack.limit) :
    m.GoesOn (match m.stack.items with
      | _ :: rest => (m.withItems rest, .next 1)
      | _ => m.underflow) := by
  split
  · exact goesOn_withItems (room_of_items ‹_› hroom)
  · exact goesOn_exit _

lemma goesOn_jump (hroom : m.stack.size ≤ m.stack.limit) : m.GoesOn m.jump := by
  simp only [jump]
  split
  · exact goesOn_withItems (room_of_items ‹_› hroom)
  · exact goesOn_exit _

lemma goesOn_jumpIf (hroom : m.stack.size ≤ m.stack.limit) : m.GoesOn m.jumpIf := by
  simp only [jumpIf]
  split
  · have hrest := room_of_items ‹_› hroom
    simp only [List.length_cons] at hrest
    exact goesOn_withItems (by omega)
  · exact goesOn_exit _

lemma goesOn_dup (n : ℕ) : m.GoesOn (m.dup n) := by
  simp only [dup]
  split
  · exact goesOn_pushNext m.stack.items _ _
  · exact goesOn_exit _

lemma goesOn_swap (n : ℕ) (hroom : m.stack.size ≤ m.stack.limit) : m.GoesOn (m.swap n) := by
  simp only [swap]
  split
  · exact goesOn_withItems (by simpa [OperandStack.size] using hroom)
  · exact goesOn_exit _

/-- An instruction that returns a region never goes on. -/
lemma goesOn_finish (reason : ExitReason) : m.GoesOn (m.finish reason) := by
  unfold finish
  split
  · dsimp only
    split
    · exact goesOn_exit _
    · split
      · exact goesOn_exit _
      · split <;> exact goesOn_exit _
  · exact goesOn_exit _

/-- **A local instruction whose region is paid for** goes on within what is paid for. -/
lemma evaluate_goesOn (hroom : m.stack.size ≤ m.stack.limit)
    (hpaid : m.memory.resizeOffset (op.instruction.region m.stack).1
      (op.instruction.region m.stack).2 = .ok m.memory) (position : ℕ) :
    m.GoesOn (m.evaluate op position) := by
  simp only [evaluate]
  cases hi : op.instruction <;> rw [hi] at hpaid
  case unary f => exact goesOn_unary _
  case binary f => exact goesOn_binary _
  case ternary f => exact goesOn_ternary _
  case callDataLoad => exact goesOn_unary _
  case codeSize | callDataSize | programCounter | memorySize | push =>
    exact goesOn_pushNext m.stack.items _ _
  case codeCopy | callDataCopy => exact goesOn_copy _ hroom hpaid
  case pop => exact goesOn_pop hroom
  case mload => exact goesOn_load hpaid
  case mstore | mstore8 => exact goesOn_store hroom hpaid
  case jump => exact goesOn_jump hroom
  case jumpIf => exact goesOn_jumpIf hroom
  case dup => exact goesOn_dup _
  case swap => exact goesOn_swap _ hroom
  case ret | revert => exact goesOn_finish _
  all_goals exact .inr ⟨rfl, rfl, hroom⟩

/-! ## Instructions without room -/

lemma check_eq_error {stack : OperandStack} {taken given : ℕ} {e : ExitError}
    (h : stack.check taken given = .error e) :
    (stack.size < taken ∧ e = .stackUnderflow) ∨
      (taken ≤ stack.size ∧ stack.limit < stack.size - taken + given ∧ e = .stackOverflow) := by
  simp only [OperandStack.check] at h
  split at h
  · cases h
    exact .inl ⟨‹_›, rfl⟩
  · split at h <;> cases h
    exact .inr ⟨by omega, ‹_›, rfl⟩

lemma pushNext_full (h : m.stack.limit < m.stack.size + 1) (w : Word) (width : ℕ) :
    m.pushNext w width = (m, .exit (.error .stackOverflow)) := by
  simp only [pushNext, OperandStack.push, if_pos h]

/-- A local instruction fails when operands are missing. -/
lemma evaluate_lacking {taken given : ℕ} (hlocal : op.instruction.isLocal = true)
    (harity : op.instruction.arity = some (taken, given)) (h : m.stack.size < taken)
    (position : ℕ) : (m.evaluate op position).2 = .exit (.error .stackUnderflow) := by
  have hfew {items : List Word} (hitems : m.stack.items = items) : items.length < taken := by
    rw [← hitems]
    exact h
  simp only [evaluate]
  cases hi : op.instruction <;> rw [hi] at harity hlocal
  case stop | jumpDest | invalid | codeSize | callDataSize | programCounter | memorySize | push =>
    cases harity
    exact absurd h (Nat.not_lt_zero _)
  case dup n =>
    obtain ⟨rfl, rfl⟩ : n = taken ∧ n + 1 = given := by simpa [Instruction.arity] using harity
    have hnone : m.stack.items[n - 1]? = none :=
      List.getElem?_eq_none (by simp only [OperandStack.size] at h; omega)
    simp only [dup, OperandStack.peek, hnone]
  case swap n =>
    cases harity
    have hnone : m.stack.items[n]? = none :=
      List.getElem?_eq_none (by simp only [OperandStack.size] at h; omega)
    simp only [swap, OperandStack.peek, hnone]
    split
    · rename_i hpeek
      cases hpeek
    · rfl
  case pop =>
    cases harity
    dsimp only
    split
    · exact absurd (hfew ‹_›) (by simp)
    · rfl
  case unary | binary | ternary | callDataLoad | codeCopy | callDataCopy | mload | mstore
    | mstore8 | jump | jumpIf | ret | revert =>
    cases harity
    simp only [unary, binary, ternary, copy, load, store, jump, jumpIf, finish]
    split
    · exact absurd (hfew ‹_›) (by simp)
    · rfl
  all_goals cases hlocal

/-- A local instruction fails when its result does not fit. -/
lemma evaluate_overfull {taken given : ℕ} (hlocal : op.instruction.isLocal = true)
    (hroom : m.stack.size ≤ m.stack.limit)
    (harity : op.instruction.arity = some (taken, given)) (henough : taken ≤ m.stack.size)
    (h : m.stack.limit < m.stack.size - taken + given) (position : ℕ) :
    (m.evaluate op position).2 = .exit (.error .stackOverflow) := by
  simp only [evaluate]
  cases hi : op.instruction <;> rw [hi] at harity hlocal
  case codeSize | callDataSize | programCounter | memorySize | push =>
    cases harity
    dsimp only
    rw [pushNext_full h]
  case dup n =>
    obtain ⟨rfl, rfl⟩ : n = taken ∧ n + 1 = given := by simpa [Instruction.arity] using harity
    have hpos : 0 < n := Opcode.dup_pos hi
    have hitem : n - 1 < m.stack.items.length := by
      simp only [OperandStack.size] at henough
      omega
    simp only [dup, OperandStack.peek, List.getElem?_eq_getElem hitem]
    rw [pushNext_full (by omega)]
  -- no other local instruction gives more than it takes
  all_goals first
    | cases hlocal; done
    | cases harity; omega

/-- **An instruction that its check refuses fails alike without the check.** -/
lemma evaluate_refused {taken given : ℕ} {e : ExitError} (hlocal : op.instruction.isLocal = true)
    (hroom : m.stack.size ≤ m.stack.limit)
    (harity : op.instruction.arity = some (taken, given))
    (h : m.stack.check taken given = .error e) (position : ℕ) :
    (m.evaluate op position).2 = .exit (.error e) := by
  rcases check_eq_error h with ⟨hfew, rfl⟩ | ⟨henough, hfull, rfl⟩
  · exact evaluate_lacking hlocal harity hfew position
  · exact evaluate_overfull hlocal hroom harity henough hfull position

/-! ## Steps -/

variable {position : ℕ}

lemma step_eq_of_evaluate {m' : Machine} (hposition : m.position = .ok position)
    (hposition' : m'.position = .ok position) (hop : m.nextOpcode? = some op)
    (hop' : m'.nextOpcode? = some op) (h : m'.evaluate op position = m.evaluate op position) :
    m'.step = m.step := by
  simp only [step, hposition, hposition', hop, hop', h]

/-- An instruction that ends the machine ends its step. -/
lemma step_of_exit {reason : ExitReason} (hposition : m.position = .ok position)
    (hop : m.nextOpcode? = some op) (h : (m.evaluate op position).2 = .exit reason) :
    m.step = ((m.evaluate op position).1.halt reason, some (.exit reason)) := by
  rcases hevaluate : m.evaluate op position with ⟨m', control⟩
  rw [hevaluate] at h
  cases h
  simp only [step, hposition, hop, hevaluate, exitWith]

/-- **The step of a local instruction** whose evaluation goes on, or ends the machine. -/
lemma step_goesOn (hposition : m.position = .ok position) (hop : m.nextOpcode? = some op)
    (hlocal : op.instruction.isLocal = true) (h : m.GoesOn (m.evaluate op position)) :
    (∃ m' reason, m.step = (m', some (.exit reason)) ∧ m'.position = .error reason) ∨
      ∃ m', m.step = (m', none) ∧ m.Continues m' ∧ ∃ position', m'.position = .ok position' := by
  have hstays := evaluate_local m hlocal position
  rcases h with ⟨reason, hexit⟩ | hcontinues
  · exact .inl ⟨_, reason, step_of_exit hposition hop hexit, rfl⟩
  · rcases hevaluate : m.evaluate op position with ⟨m', control⟩
    rw [hevaluate] at hstays hcontinues
    cases control with
    | next count =>
        refine .inr ⟨{ m' with position := .ok (position + count) }, ?_, ?_, _, rfl⟩
        · simp only [step, hposition, hop, hevaluate]
        · exact ⟨hcontinues.returnRange, hcontinues.effective, hcontinues.room⟩
    | jump destination =>
        by_cases hvalid : m'.jumps.isValid destination = true
        · refine .inr ⟨{ m' with position := .ok destination }, ?_, ?_, _, rfl⟩
          · simp only [step, hposition, hop, hevaluate, if_pos hvalid]
          · exact ⟨hcontinues.returnRange, hcontinues.effective, hcontinues.room⟩
        · refine .inl ⟨m'.halt (.error .invalidJump), _, ?_, rfl⟩
          simp only [step, hposition, hop, hevaluate, if_neg hvalid, exitWith]
    | exit reason =>
        refine .inl ⟨m'.halt reason, reason, ?_, rfl⟩
        simp only [step, hposition, hop, hevaluate, exitWith]
    | trap op' => exact absurd rfl (hstays.noTrap op')

end Machine

end ResumableEvm
