import ResumableEvm.Proofs.CheckedMemory
import ResumableEvm.Proofs.MachineStep

/-!
# A machine whose steps could fail

Every instruction of the machine again, with operations that may have no result: positions in the
code, operands taken for indices, regions of code, data and memory.  On every operand they are what
the machine does.

* `Machine.checkedEvaluate_eq` — no instruction fails.
* `Machine.checkedStep_eq` — no step does.
* `Machine.Bounded`, `Machine.Bounded.step` — what a machine returned from is a region of indices.
* `Machine.checkedReturnValue_eq` — so what it returned can be read.
-/

namespace ResumableEvm

/-! ## Numbers of opcodes -/

namespace Opcode

variable {op : Opcode} {n : ℕ}

/-- The number of an opcode among those of its kind, the first of which has the number one. -/
def checkedCount (op : Opcode) (first : ℕ) : Except Panic ℕ := do
  addIndex (← subIndex op.byte.toNat first) 1

lemma single_plain (k : ℕ) :
    (∀ n, single k ≠ .push n) ∧ (∀ n, single k ≠ .dup n) ∧ (∀ n, single k ≠ .swap n) ∧
      ∀ n, single k ≠ .log n := by
  unfold single
  split <;> exact ⟨nofun, nofun, nofun, nofun⟩

lemma pushSize?_of_instruction (h : op.instruction = .push n) : op.pushSize? = some n := by
  simp only [instruction] at h
  split at h
  · cases h
    assumption
  all_goals first | cases h | exact absurd h ((single_plain _).1 n)

lemma dupIndex?_of_instruction (h : op.instruction = .dup n) : op.dupIndex? = some n := by
  simp only [instruction] at h
  split at h
  case h_2 => cases h; assumption
  all_goals first | cases h | exact absurd h ((single_plain _).2.1 n)

lemma swapIndex?_of_instruction (h : op.instruction = .swap n) : op.swapIndex? = some n := by
  simp only [instruction] at h
  split at h
  case h_3 => cases h; assumption
  all_goals first | cases h | exact absurd h ((single_plain _).2.2.1 n)

lemma logTopics?_of_instruction (h : op.instruction = .log n) : op.logTopics? = some n := by
  simp only [instruction] at h
  split at h
  case h_4 => cases h; assumption
  all_goals first | cases h | exact absurd h ((single_plain _).2.2.2 n)

/-- An opcode of a kind comes after the first of it. -/
lemma checkedCount_eq {first : ℕ} (h : first ≤ op.byte.toNat)
    (hn : n = op.byte.toNat - first + 1) : op.checkedCount first = .ok n := by
  have hbyte : op.byte.toNat < 256 := op.byte.toNat_lt
  have hindex : 256 ≤ maxIndex := by decide
  rw [checkedCount, subIndex_of_le h, ok_bind, addIndex_of_le (by omega), hn]

/-- A push is of 32 bytes at most. -/
lemma checkedCount_push (h : op.instruction = .push n) : op.checkedCount 0x60 = .ok n ∧ n ≤ 32 := by
  have hsize := pushSize?_of_instruction h
  simp only [pushSize?] at hsize
  obtain ⟨hrange, rfl⟩ : _ ∧ _ = n := by simpa using hsize
  have hlow : 0x60 ≤ op.byte.toNat := hrange.1
  have hhigh : op.byte.toNat ≤ 0x7f := hrange.2
  exact ⟨checkedCount_eq hlow (by omega), by omega⟩

/-- A copy is of an item from the first on. -/
lemma checkedCount_dup (h : op.instruction = .dup n) : op.checkedCount 0x80 = .ok n ∧ 1 ≤ n := by
  have hindex := dupIndex?_of_instruction h
  simp only [dupIndex?] at hindex
  obtain ⟨hrange, rfl⟩ : _ ∧ _ = n := by simpa using hindex
  have hlow : 0x80 ≤ op.byte.toNat := hrange.1
  exact ⟨checkedCount_eq hlow (by omega), by omega⟩

lemma checkedCount_swap (h : op.instruction = .swap n) : op.checkedCount 0x90 = .ok n := by
  have hindex := swapIndex?_of_instruction h
  simp only [swapIndex?] at hindex
  obtain ⟨hrange, rfl⟩ : _ ∧ _ = n := by simpa using hindex
  have hlow : 0x90 ≤ op.byte.toNat := hrange.1
  exact checkedCount_eq hlow (by omega)

/-- Topics are counted from the first of the logging opcodes. -/
lemma subIndex_log (h : op.instruction = .log n) : subIndex op.byte.toNat 0xa0 = .ok n := by
  have htopics := logTopics?_of_instruction h
  simp only [logTopics?] at htopics
  obtain ⟨hrange, rfl⟩ : _ ∧ _ = n := by simpa using htopics
  exact subIndex_of_le hrange.1

end Opcode

namespace Machine

variable (m : Machine)

/-! ## Operands and results -/

def checkedUnary (f : Word → Except Panic Word) : Except Panic (Machine × Control) :=
  match m.stack.items with
  | a :: rest => do return (m.withItems rest).pushNext (← f a) 1
  | _ => .ok m.underflow

def checkedBinary (f : Word → Word → Except Panic Word) : Except Panic (Machine × Control) :=
  match m.stack.items with
  | a :: b :: rest => do return (m.withItems rest).pushNext (← f a b) 1
  | _ => .ok m.underflow

def checkedTernary (f : Word → Word → Word → Except Panic Word) :
    Except Panic (Machine × Control) :=
  match m.stack.items with
  | a :: b :: c :: rest => do return (m.withItems rest).pushNext (← f a b c) 1
  | _ => .ok m.underflow

/-! ## Memory -/

def checkedWithRegion (offset len : Word) (k : Machine → Except Panic (Machine × Control)) :
    Except Panic (Machine × Control) := do
  match ← m.memory.checkedResizeOffset offset len with
  | .ok memory => k { m with memory := memory }
  | .error e => return (m, .exit (.error e))

def checkedCopy (source : Bytes) : Except Panic (Machine × Control) :=
  match m.stack.items with
  | offset :: sourceOffset :: len :: rest =>
    (m.withItems rest).checkedWithRegion offset len fun m => do
      return m.afterWrite (← m.memory.checkedCopyLarge offset sourceOffset len source)
  | _ => .ok m.underflow

def checkedDataWord (index : Word) : Except Panic Word := do
  if index.isIndex then
    Word.checkedOfBytes (← m.data.checkedPadded (← asIndex index.toNat) 32)
  else return 0

def checkedLoad : Except Panic (Machine × Control) :=
  match m.stack.items with
  | offset :: rest =>
    (m.withItems rest).checkedWithRegion offset 32 fun m => do
      if offset.isIndex then
        let bytes ← m.memory.checkedGet (← asIndex offset.toNat) 32
        return m.pushNext (← Word.checkedOfBytes bytes) 1
      else return (m, .exit (.fatal .notSupported))
  | _ => .ok m.underflow

def checkedStore (len : ℕ) : Except Panic (Machine × Control) :=
  match m.stack.items with
  | offset :: value :: rest =>
    (m.withItems rest).checkedWithRegion offset (Word.ofNat len) fun m => do
      if offset.isIndex then
        let offset ← asIndex offset.toNat
        return m.afterWrite (← m.memory.checkedSet offset (Bytes.ofNat len value.toNat) len)
      else return (m, .exit (.fatal .notSupported))
  | _ => .ok m.underflow

/-! ## Control flow -/

def checkedJumpTo (destination : Word) : Except Panic Control := do
  if destination.isIndex then return .jump (← asIndex destination.toNat)
  else return .exit (.error .invalidJump)

def checkedJump : Except Panic (Machine × Control) :=
  match m.stack.items with
  | destination :: rest => do return (m.withItems rest, ← checkedJumpTo destination)
  | _ => .ok m.underflow

def checkedJumpIf : Except Panic (Machine × Control) :=
  match m.stack.items with
  | destination :: condition :: rest => do
    if condition = 0 then return (m.withItems rest, .next 1)
    else return (m.withItems rest, ← checkedJumpTo destination)
  | _ => .ok m.underflow

def checkedFinish (reason : ExitReason) : Except Panic (Machine × Control) :=
  match m.stack.items with
  | start :: len :: rest => do
    let m := m.withItems rest
    if len = 0 then return ({ m with returnRange := (0, 0) }, .exit reason)
    let stop := start.toNat + len.toNat
    if stop > maxIndex then return (m, .exit (.error .invalidRange))
    match ← m.memory.checkedResizeEnd stop with
    | .ok memory =>
      return ({ m with memory := memory, returnRange := (start.toNat, stop) }, .exit reason)
    | .error e => return (m, .exit (.error e))
  | _ => .ok m.underflow

/-! ## Pushes, copies and exchanges -/

/-- The bytes of code behind a position, put at the end of a word of zeros. -/
def checkedPushedWord (n position : ℕ) : Except Panic Word := do
  let start ← addNear m.code.size position 1
  let stop := min (← addNear m.code.size start n) m.code.size
  let bytes ← m.code.checkedSlice start stop
  let first ← subIndex 32 n
  Word.checkedOfBytes (← (Bytes.zeros 32).checkedCopy first (← addIndex first bytes.size) bytes)

def checkedDup (n : ℕ) : Except Panic (Machine × Control) := do
  match ← m.stack.checkedPeek (← subIndex n 1) with
  | .ok w => return m.pushNext w 1
  | .error e => return (m, .exit (.error e))

def checkedSwap (n : ℕ) : Except Panic (Machine × Control) := do
  match ← m.stack.checkedPeek 0, ← m.stack.checkedPeek n with
  | .ok a, .ok b =>
    match ← m.stack.checkedSet 0 b with
    | .ok stack =>
      match ← stack.checkedSet n a with
      | .ok stack => return ({ m with stack := stack }, .next 1)
      | .error e => return ({ m with stack := stack }, .exit (.error e))
    | .error e => return (m, .exit (.error e))
  | _, _ => return (m, .exit (.error .stackUnderflow))

/-! ## Evaluation -/

def checkedEvaluate (op : Opcode) (position : ℕ) : Except Panic (Machine × Control) :=
  match op.instruction with
  | .binary f => m.checkedBinary f.checkedApply
  | .ternary f => m.checkedTernary f.checkedApply
  | .codeCopy => m.checkedCopy m.code
  | .callDataLoad => m.checkedUnary m.checkedDataWord
  | .callDataCopy => m.checkedCopy m.data
  | .mload => m.checkedLoad
  | .mstore => m.checkedStore 32
  | .mstore8 => m.checkedStore 1
  | .jump => m.checkedJump
  | .jumpIf => m.checkedJumpIf
  | .push _ => do
    let n ← op.checkedCount 0x60
    return m.pushNext (← m.checkedPushedWord n position) (← addIndex 1 n)
  | .dup _ => do m.checkedDup (← op.checkedCount 0x80)
  | .swap _ => do m.checkedSwap (← op.checkedCount 0x90)
  | .ret => m.checkedFinish (.succeed .returned)
  | .revert => m.checkedFinish (.error .reverted)
  -- what only moves whole words between the stack and the machine, or traps
  | _ => .ok (m.evaluate op position)

def checkedStep : Except Panic (Machine × Option Capture) :=
  match m.position with
  | .error reason => .ok (m, some (.exit reason))
  | .ok position =>
    match m.nextOpcode? with
    | none => .ok (m.exitWith (.succeed .stopped))
    | some op => do
      match ← m.checkedEvaluate op position with
      | (next, .next count) =>
        return ({ next with position := .ok (← addNear m.code.size position count) }, none)
      | (next, .exit reason) => return next.exitWith reason
      | (next, .jump destination) =>
        if ← next.jumps.checkedIsValid destination then
          return ({ next with position := .ok destination }, none)
        else return next.exitWith (.error .invalidJump)
      | (next, .trap op) =>
        return ({ next with position := .ok (← addNear m.code.size position 1) }, some (.trap op))

def checkedReturnValue : Except Panic Bytes := do
  if m.returnRange.2 ≤ m.returnRange.1 then return ByteArray.empty
  let start ← asIndex m.returnRange.1
  let stop ← asIndex m.returnRange.2
  m.memory.checkedGet start (← subIndex stop start)

/-! ## No instruction fails -/

lemma checkedUnary_eq {f : Word → Except Panic Word} {g : Word → Word} (h : ∀ a, f a = .ok (g a)) :
    m.checkedUnary f = .ok (m.unary g) := by
  simp only [checkedUnary, unary, h, ok_bind, pure_eq_ok]
  cases m.stack.items <;> rfl

lemma checkedBinary_eq {f : Word → Word → Except Panic Word} {g : Word → Word → Word}
    (h : ∀ a b, f a b = .ok (g a b)) : m.checkedBinary f = .ok (m.binary g) := by
  simp only [checkedBinary, binary, h, ok_bind, pure_eq_ok]
  rcases m.stack.items with _ | ⟨a, _ | ⟨b, rest⟩⟩ <;> rfl

lemma checkedTernary_eq {f : Word → Word → Word → Except Panic Word}
    {g : Word → Word → Word → Word} (h : ∀ a b c, f a b c = .ok (g a b c)) :
    m.checkedTernary f = .ok (m.ternary g) := by
  simp only [checkedTernary, ternary, h, ok_bind, pure_eq_ok]
  rcases m.stack.items with _ | ⟨a, _ | ⟨b, _ | ⟨c, rest⟩⟩⟩ <;> rfl

lemma checkedWithRegion_eq (offset len : Word) {k : Machine → Except Panic (Machine × Control)}
    {k' : Machine → Machine × Control} (h : ∀ m, k m = .ok (k' m)) :
    m.checkedWithRegion offset len k = .ok (m.withRegion offset len k') := by
  simp only [checkedWithRegion, withRegion, Memory.checkedResizeOffset_eq, ok_bind]
  cases m.memory.resizeOffset offset len with
  | ok memory => exact h _
  | error e => rfl

@[simp] lemma checkedCopy_eq (source : Bytes) : m.checkedCopy source = .ok (m.copy source) := by
  simp only [checkedCopy, copy, Memory.checkedCopyLarge_eq, ok_bind, pure_eq_ok]
  rcases m.stack.items with _ | ⟨offset, _ | ⟨sourceOffset, _ | ⟨len, rest⟩⟩⟩
  case cons.cons.cons => exact checkedWithRegion_eq _ _ _ fun m => rfl
  all_goals rfl

@[simp] lemma checkedDataWord_eq (index : Word) :
    m.checkedDataWord index = .ok (m.dataWord index) := by
  simp only [checkedDataWord, dataWord]
  split
  · rw [asIndex_of_isIndex ‹_›, ok_bind, Bytes.checkedPadded_eq, ok_bind,
      Word.checkedOfBytes_of_le (Bytes.size_slice _ _ _).le]
  · rfl

@[simp] lemma checkedLoad_eq : m.checkedLoad = .ok m.load := by
  simp only [checkedLoad, load]
  cases m.stack.items with
  | nil => rfl
  | cons offset rest =>
      refine checkedWithRegion_eq _ _ _ fun m => ?_
      split
      · rw [asIndex_of_isIndex ‹_›, ok_bind, Memory.checkedGet_eq, ok_bind,
          Word.checkedOfBytes_of_le (show (m.memory.get _ 32).size ≤ 32 from
            (Bytes.size_slice _ _ _).le)]
        rfl
      · rfl

@[simp] lemma checkedStore_eq (len : ℕ) : m.checkedStore len = .ok (m.store len) := by
  simp only [checkedStore, store]
  rcases m.stack.items with _ | ⟨offset, _ | ⟨value, rest⟩⟩
  case cons.cons =>
    refine checkedWithRegion_eq _ _ _ fun m => ?_
    split
    · rw [asIndex_of_isIndex ‹_›, ok_bind, Memory.checkedSet_eq]
      rfl
    · rfl
  all_goals rfl

@[simp] lemma checkedJumpTo_eq (destination : Word) :
    checkedJumpTo destination = .ok (jumpTo destination) := by
  simp only [checkedJumpTo, jumpTo]
  split
  · rw [asIndex_of_isIndex ‹_›]
    rfl
  · rfl

@[simp] lemma checkedJump_eq : m.checkedJump = .ok m.jump := by
  simp only [checkedJump, jump, checkedJumpTo_eq, ok_bind, pure_eq_ok]
  cases m.stack.items <;> rfl

@[simp] lemma checkedJumpIf_eq : m.checkedJumpIf = .ok m.jumpIf := by
  simp only [checkedJumpIf, jumpIf, checkedJumpTo_eq, ok_bind, pure_eq_ok]
  rcases m.stack.items with _ | ⟨destination, _ | ⟨condition, rest⟩⟩
  case cons.cons => dsimp only; split <;> rfl
  all_goals rfl

/-- **Ending** looks whether the end of the region is an index before memory is extended to it. -/
@[simp] lemma checkedFinish_eq (reason : ExitReason) :
    m.checkedFinish reason = .ok (m.finish reason) := by
  simp only [checkedFinish, finish]
  rcases m.stack.items with _ | ⟨start, _ | ⟨len, rest⟩⟩
  case cons.cons =>
    dsimp only
    split
    · rfl
    · split
      · rfl
      · have hword : start.toNat + len.toNat ≤ maxWord := by
          have : maxIndex ≤ maxWord := by decide
          omega
        rw [Memory.checkedResizeEnd_eq _ hword, ok_bind]
        cases (m.withItems rest).memory.resizeEnd (start.toNat + len.toNat) <;> rfl
  all_goals rfl

/-- **Near the end of the code** a push takes the bytes that are there, and zeros behind them. -/
lemma checkedPushedWord_eq {n position : ℕ} (hn : n ≤ 32) (h : position < m.code.size) :
    m.checkedPushedWord n position = .ok (m.pushedWord n position) := by
  have hsize : (m.code.extract (position + 1) (min (position + 1 + n) m.code.size)).size ≤ n := by
    rw [ByteArray.size_extract]
    omega
  have hindex : 64 ≤ maxIndex := by decide
  simp only [checkedPushedWord, pushedWord]
  rw [addNear_of_le (by omega), ok_bind, addNear_of_le (by omega), ok_bind,
    Bytes.checkedSlice_of_le (by omega) (min_le_right _ _), ok_bind, subIndex_of_le hn, ok_bind,
    addIndex_of_le (by omega), ok_bind,
    Bytes.checkedCopy_of_le rfl (by rw [Bytes.size_zeros]; omega), ok_bind,
    Bytes.overwrite_zeros (by omega), Bytes.slice_eq_append]
  set bytes := m.code.extract (position + 1) (min (position + 1 + n) m.code.size)
  have hrest : 32 - (32 - n) - bytes.size = n - bytes.size := by omega
  have hword : (Bytes.zeros (32 - n) ++ (bytes ++ Bytes.zeros (n - bytes.size))).size ≤ 32 := by
    simp only [ByteArray.size_append, Bytes.size_zeros]
    omega
  rw [hrest, Word.checkedOfBytes_of_le hword, Word.ofBytes, Bytes.toNat_append, Bytes.toNat_zeros,
    Nat.zero_mul, Nat.zero_add, Word.ofBytes]

lemma checkedDup_eq {n : ℕ} (h : 1 ≤ n) : m.checkedDup n = .ok (m.dup n) := by
  simp only [checkedDup, dup, subIndex_of_le h, OperandStack.checkedPeek_eq, ok_bind]
  cases m.stack.peek (n - 1) <;> rfl

/-- Items that were looked at can be replaced. -/
@[simp] lemma checkedSwap_eq (n : ℕ) : m.checkedSwap n = .ok (m.swap n) := by
  have hpresent {s : OperandStack} {i : ℕ} {w : Word} (h : s.peek i = .ok w) : i < s.size := by
    simp only [OperandStack.peek] at h
    split at h
    · exact (List.getElem?_eq_some_iff.mp ‹_›).1
    · cases h
  simp only [checkedSwap, swap, OperandStack.checkedPeek_eq, OperandStack.checkedSet_eq, ok_bind]
  rcases hfirst : m.stack.peek 0 with e | a <;> rcases hsecond : m.stack.peek n with e' | b
  case ok.ok =>
    have hzero := hpresent hfirst
    have hn : n < ({ m.stack with items := m.stack.items.set 0 b } : OperandStack).size := by
      simp only [OperandStack.size, List.length_set]
      exact hpresent hsecond
    simp only [OperandStack.set, if_pos hzero, if_pos hn]
    rfl
  all_goals rfl

/-- **No instruction fails** at a position of the code. -/
lemma checkedEvaluate_eq (op : Opcode) {position : ℕ} (h : position < m.code.size) :
    m.checkedEvaluate op position = .ok (m.evaluate op position) := by
  have hindex : 64 ≤ maxIndex := by decide
  simp only [checkedEvaluate, evaluate]
  cases hi : op.instruction with
  | binary f => exact checkedBinary_eq m f.checkedApply_eq
  | ternary f => exact checkedTernary_eq m f.checkedApply_eq
  | callDataLoad => exact checkedUnary_eq m m.checkedDataWord_eq
  | codeCopy | callDataCopy => exact checkedCopy_eq m _
  | mload => exact checkedLoad_eq m
  | mstore | mstore8 => exact checkedStore_eq m _
  | jump => exact checkedJump_eq m
  | jumpIf => exact checkedJumpIf_eq m
  | push n =>
      obtain ⟨hcount, hn⟩ := Opcode.checkedCount_push hi
      dsimp only
      rw [hcount, ok_bind, checkedPushedWord_eq m hn h, ok_bind, addIndex_of_le (by omega)]
      rfl
  | dup n =>
      obtain ⟨hcount, hn⟩ := Opcode.checkedCount_dup hi
      dsimp only
      rw [hcount, ok_bind, checkedDup_eq m hn]
  | swap n =>
      dsimp only
      rw [Opcode.checkedCount_swap hi, ok_bind, checkedSwap_eq]
  | ret | revert => exact checkedFinish_eq m _
  | _ => rfl

/-! ## How far an instruction goes -/

/-- What a machine returns is in a region of indices. -/
def Bounded : Prop := m.returnRange.2 ≤ maxIndex

/-- **What an instruction leaves within bounds:** the next position, and the region returned. -/
structure Confined (r : Machine × Control) : Prop where
  advance : ∀ count, r.2 = .next count → count ≤ 33
  region : m.Bounded → r.1.Bounded

lemma confined_exit (m' : Machine) (h : m'.returnRange = m.returnRange) (reason : ExitReason) :
    m.Confined (m', .exit reason) :=
  ⟨nofun, fun hm => by rw [Bounded, h]; exact hm⟩

lemma confined_pushNext {m' : Machine} (h : m'.returnRange = m.returnRange) (w : Word) {width : ℕ}
    (hwidth : width ≤ 33) : m.Confined (m'.pushNext w width) := by
  simp only [pushNext]
  split
  · refine ⟨?_, fun hm => ?_⟩
    · rintro count ⟨⟩
      exact hwidth
    · show m'.returnRange.2 ≤ maxIndex
      rw [h]
      exact hm
  · exact confined_exit m m' h _

lemma confined_unary (f : Word → Word) : m.Confined (m.unary f) := by
  simp only [unary]
  split
  · exact confined_pushNext m (by rfl) _ (by decide)
  · exact confined_exit m _ (by rfl) _

lemma confined_binary (f : Word → Word → Word) : m.Confined (m.binary f) := by
  simp only [binary]
  split
  · exact confined_pushNext m (by rfl) _ (by decide)
  · exact confined_exit m _ (by rfl) _

lemma confined_ternary (f : Word → Word → Word → Word) : m.Confined (m.ternary f) := by
  simp only [ternary]
  split
  · exact confined_pushNext m (by rfl) _ (by decide)
  · exact confined_exit m _ (by rfl) _

lemma confined_afterWrite {m' : Machine} (h : m'.returnRange = m.returnRange)
    (r : Except ExitFatal Memory) : m.Confined (m'.afterWrite r) := by
  cases r with
  | ok memory =>
      refine ⟨?_, fun hm => ?_⟩
      · rintro count ⟨⟩
        decide
      · show m'.returnRange.2 ≤ maxIndex
        rw [h]
        exact hm
  | error e => exact confined_exit m m' h _

lemma confined_withRegion (items : List Word) (offset len : Word) {k : Machine → Machine × Control}
    (hk : ∀ m' : Machine, m'.returnRange = m.returnRange → m.Confined (k m')) :
    m.Confined ((m.withItems items).withRegion offset len k) := by
  simp only [withRegion]
  split
  · exact hk _ rfl
  · exact confined_exit m _ (by rfl) _

lemma confined_copy (source : Bytes) : m.Confined (m.copy source) := by
  simp only [copy]
  split
  · exact confined_withRegion m _ _ _ fun m' h => confined_afterWrite m h _
  · exact confined_exit m _ (by rfl) _

lemma confined_load : m.Confined m.load := by
  simp only [load]
  split
  · refine confined_withRegion m _ _ _ fun m' h => ?_
    split
    · exact confined_pushNext m h _ (by decide)
    · exact confined_exit m m' h _
  · exact confined_exit m _ (by rfl) _

lemma confined_store (len : ℕ) : m.Confined (m.store len) := by
  simp only [store]
  split
  · refine confined_withRegion m _ _ _ fun m' h => ?_
    split
    · exact confined_afterWrite m h _
    · exact confined_exit m m' h _
  · exact confined_exit m _ (by rfl) _

lemma jumpTo_ne_next (destination : Word) (count : ℕ) : jumpTo destination ≠ .next count := by
  simp only [jumpTo]
  split <;> simp

lemma confined_jump : m.Confined m.jump := by
  simp only [jump]
  split
  · exact ⟨fun count h => absurd h (jumpTo_ne_next _ count), id⟩
  · exact confined_exit m _ (by rfl) _

lemma confined_jumpIf : m.Confined m.jumpIf := by
  simp only [jumpIf]
  split
  · refine ⟨fun count h => ?_, id⟩
    dsimp only at h
    split at h
    · cases h
      decide
    · exact absurd h (jumpTo_ne_next _ count)
  · exact confined_exit m _ (by rfl) _

/-- What is returned ends at an index. -/
lemma confined_finish (reason : ExitReason) : m.Confined (m.finish reason) := by
  simp only [finish]
  split
  · split
    · exact ⟨nofun, fun _ => Nat.zero_le _⟩
    · split
      · exact confined_exit m _ (by rfl) _
      · rename_i hindex
        split
        · exact ⟨nofun, fun _ => Nat.le_of_not_lt hindex⟩
        · exact confined_exit m _ (by rfl) _
  · exact confined_exit m _ (by rfl) _

lemma confined_dup (n : ℕ) : m.Confined (m.dup n) := by
  simp only [dup]
  split
  · exact confined_pushNext m (by rfl) _ (by decide)
  · exact confined_exit m _ (by rfl) _

lemma confined_next {m' : Machine} (h : m'.returnRange = m.returnRange) :
    m.Confined (m', .next 1) := by
  refine ⟨?_, fun hm => by rw [Bounded, h]; exact hm⟩
  rintro count ⟨⟩
  decide

lemma confined_swap (n : ℕ) : m.Confined (m.swap n) := by
  simp only [swap]
  split
  · exact confined_next m (by rfl)
  · exact confined_exit m _ (by rfl) _

/-- **Every instruction** stays within bounds. -/
lemma evaluate_confined (op : Opcode) (position : ℕ) :
    m.Confined (m.evaluate op position) := by
  simp only [evaluate]
  cases hi : op.instruction with
  | stop | invalid => exact confined_exit m m rfl _
  | unary f => exact confined_unary m _
  | binary f => exact confined_binary m _
  | ternary f => exact confined_ternary m _
  | callDataLoad => exact confined_unary m _
  | codeSize | callDataSize | programCounter | memorySize =>
      exact confined_pushNext m (by rfl) _ (by decide)
  | codeCopy | callDataCopy => exact confined_copy m _
  | pop =>
      dsimp only
      split
      · exact confined_next m (by rfl)
      · exact confined_exit m _ (by rfl) _
  | mload => exact confined_load m
  | mstore | mstore8 => exact confined_store m _
  | jump => exact confined_jump m
  | jumpIf => exact confined_jumpIf m
  | jumpDest => exact confined_next m (by rfl)
  | push n =>
      have hn := (Opcode.checkedCount_push hi).2
      exact confined_pushNext m (by rfl) _ (by omega)
  | dup n => exact confined_dup m n
  | swap n => exact confined_swap m n
  | ret | revert => exact confined_finish m _
  | _ => exact ⟨by simp, id⟩

/-- **A step** keeps the region returned within bounds. -/
lemma Bounded.step {m : Machine} (h : m.Bounded) : m.step.1.Bounded := by
  simp only [Machine.step, exitWith, halt]
  split
  · exact h
  · split
    · exact h
    · rename_i position _ _ op _
      have hconfined := (m.evaluate_confined op position).region h
      split <;> rename_i heq <;> rw [heq] at hconfined
      case h_3 => split <;> exact hconfined
      all_goals exact hconfined

/-! ## No step fails -/

/-- **No step fails.** -/
@[simp] lemma checkedStep_eq : m.checkedStep = .ok m.step := by
  simp only [checkedStep, step]
  cases hposition : m.position with
  | error reason => rfl
  | ok position =>
      dsimp only
      cases hop : m.nextOpcode? with
      | none => rfl
      | some op =>
          have hcode : position < m.code.size := by
            simp only [nextOpcode?, hposition] at hop
            split at hop
            · assumption
            · cases hop
          dsimp only
          rw [checkedEvaluate_eq m op hcode, ok_bind]
          have hwidth := (m.evaluate_confined op position).advance
          generalize m.evaluate op position = evaluated at hwidth ⊢
          rcases evaluated with ⟨next, count | destination | reason | trapped⟩
          · have hcount := hwidth count rfl
            dsimp only
            rw [addNear_of_le (by omega)]
            rfl
          · simp only [JumpTable.checkedIsValid_eq, ok_bind]
            split <;> rfl
          · rfl
          · dsimp only
            rw [addNear_of_le (by omega)]
            rfl

/-- **What was returned** is read from one index to another. -/
lemma checkedReturnValue_eq (h : m.Bounded) : m.checkedReturnValue = .ok m.returnValue := by
  simp only [checkedReturnValue, returnValue]
  split
  · rename_i hnone
    rw [Nat.sub_eq_zero_of_le hnone]
    refine congrArg Except.ok (Eq.symm ?_)
    exact ByteArray.size_eq_zero_iff.mp (Bytes.size_slice _ _ _)
  · rename_i hsome
    simp only [Bounded] at h
    rw [asIndex_of_le (by omega), ok_bind, asIndex_of_le h, ok_bind, subIndex_of_le (by omega),
      ok_bind, Memory.checkedGet_eq]

end Machine

end ResumableEvm
