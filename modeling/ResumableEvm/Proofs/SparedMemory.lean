import ResumableEvm.Proofs.CheckedMemory
import ResumableEvm.Proofs.ReservedMemory

/-!
# Bytes behind the paid memory

Two memories that have paid for the same length may have other bytes behind it.  An instruction
whose regions lie within that length cannot tell them apart: it comes to the same result, keeps
the bytes behind, and never fails for the sake of memory.

* `Memory.AlikeUpTo` — the same bytes, as far as they are paid for.
* `Memory.Spares` — two such memories become two such memories.
* `Machine.Tame` — an instruction that spares the bytes behind.
* `Machine.evaluate_tame`, `Machine.step_tame` — every local instruction does.
-/

namespace ResumableEvm

/-- **Reasons to end that memory gives:** a region that cannot be addressed or is not paid for. -/
def ExitReason.blamesMemory : ExitReason → Bool
  | .fatal _ | .error .invalidRange => true
  | _ => false

lemma Bytes.size_growTo (b : Bytes) (size : ℕ) : (b.growTo size).size = max b.size size := by
  simp only [growTo]
  split
  · rw [ByteArray.size_append, size_zeros]
    omega
  · omega

/-! ## Memory -/

namespace Memory

variable {n : ℕ} {M N M' N' : Memory} {offset len : Word}

/-- **The same memory as far as it is paid for.**  Both have paid for `n` bytes, which the limit
    allows, and have the same bytes there. -/
structure AlikeUpTo (n : ℕ) (M N : Memory) : Prop where
  paid : M.effective = n
  effective : N.effective = M.effective
  room : n ≤ M.limit
  limit : N.limit = M.limit
  index : M.limit ≤ maxIndex
  bytes : ∀ i < n, N.data.byteAt i = M.data.byteAt i

/-- **What becomes of two such memories** when nothing behind their paid length is touched. -/
structure Spares (n : ℕ) (M N M' N' : Memory) : Prop where
  alike : AlikeUpTo n M' N'
  limit : M'.limit = M.limit
  size : M.data.size ≤ n → M'.data.size ≤ n
  behind : ∀ i, n ≤ i → N'.data.byteAt i = N.data.byteAt i

lemma AlikeUpTo.refl (hpaid : M.effective = n) (hroom : n ≤ M.limit) (hindex : M.limit ≤ maxIndex) :
    AlikeUpTo n M M :=
  ⟨hpaid, rfl, hroom, rfl, hindex, fun _ _ => rfl⟩

lemma AlikeUpTo.spares (h : AlikeUpTo n M N) : Spares n M N M N :=
  ⟨h, rfl, id, fun _ _ => rfl⟩

lemma AlikeUpTo.index_le (h : AlikeUpTo n M N) : n ≤ maxIndex := h.room.trans h.index

/-! ### Reading -/

lemma AlikeUpTo.get_eq (h : AlikeUpTo n M N) {offset len : ℕ} (hfits : len = 0 ∨ offset + len ≤ n) :
    N.get offset len = M.get offset len := by
  refine Bytes.ext_byteAt (by simp [get]) fun i hi => ?_
  rw [get, Bytes.size_slice] at hi
  rw [get, get, Bytes.byteAt_slice hi, Bytes.byteAt_slice hi]
  exact h.bytes _ (by omega)

lemma AlikeUpTo.read_eq (h : AlikeUpTo n M N)
    (hfits : len = 0 ∨ offset.toNat + len.toNat ≤ n) :
    N.read offset len = M.read offset len := by
  simp only [read]
  split
  · rename_i hread
    exact h.get_eq (.inr (hfits.resolve_left hread.1))
  · rfl

/-! ### Extending -/

/-- A region that is paid for needs nothing more. -/
lemma AlikeUpTo.resizeOffset_eq (h : AlikeUpTo n M N)
    (hfits : len = 0 ∨ offset.toNat + len.toNat ≤ n) : M.resizeOffset offset len = .ok M := by
  have hmax : maxIndex ≤ maxWord := by decide
  have hindex := h.index_le
  have hpaid := h.paid
  by_cases hlen : len = 0
  · exact if_pos hlen
  · have hend := hfits.resolve_left hlen
    rw [resizeOffset, if_neg hlen, if_neg (by omega), resizeEnd, if_neg (by omega)]

/-- The other one needs nothing more either. -/
lemma AlikeUpTo.symm (h : AlikeUpTo n M N) : AlikeUpTo n N M :=
  ⟨h.effective.trans h.paid, h.effective.symm, h.room.trans_eq h.limit.symm, h.limit.symm,
    h.limit.trans_le h.index, fun i hi => (h.bytes i hi).symm⟩

/-! ### Writing -/

lemma size_write (M : Memory) (offset : ℕ) (value : Bytes) :
    (M.write offset value).data.size = max M.data.size (offset + value.size) := by
  rw [write, Bytes.size_overwrite (Bytes.le_size_growTo _ _), Bytes.size_growTo]

lemma AlikeUpTo.write_spares (h : AlikeUpTo n M N) (offset : ℕ) (value : Bytes)
    (hfits : offset + value.size ≤ n) :
    Spares n M N (M.write offset value) (N.write offset value) where
  alike :=
    { paid := h.paid
      effective := h.effective
      room := h.room
      limit := h.limit
      index := h.index
      bytes := fun i hi => by rw [byteAt_write, byteAt_write, h.bytes i hi] }
  limit := rfl
  size hsize := by
    rw [size_write]
    exact max_le hsize hfits
  behind i hi := by rw [byteAt_write, if_neg (by omega)]

/-- A write to a region that is paid for is not refused. -/
lemma AlikeUpTo.set_spares (h : AlikeUpTo n M N) {offset len : ℕ} (value : Bytes)
    (hfits : offset + len ≤ n) : ∃ M' N', M.set offset value len = .ok M' ∧
      N.set offset value len = .ok N' ∧ Spares n M N M' N' := by
  by_cases hlen : len = 0
  · exact ⟨M, N, if_pos hlen, if_pos hlen, h.spares⟩
  · have hroom := h.room
    have hlimit := h.limit
    have hindex := h.index
    have hadmits : M.admits offset len = true ∧ N.admits offset len = true := by
      simp only [admits, decide_eq_true_eq]
      omega
    refine ⟨_, _, ?_, ?_, h.write_spares offset (value.slice 0 len) ?_⟩
    · rw [set, if_neg hlen, if_pos hadmits.1]
    · rw [set, if_neg hlen, if_pos hadmits.2]
    · rw [Bytes.size_slice]
      exact hfits

/-- Nor is a copy. -/
lemma AlikeUpTo.copyLarge_spares (h : AlikeUpTo n M N) (sourceOffset : Word) (source : Bytes)
    (hfits : len = 0 ∨ offset.toNat + len.toNat ≤ n) :
    ∃ M' N', M.copyLarge offset sourceOffset len source = .ok M' ∧
      N.copyLarge offset sourceOffset len source = .ok N' ∧ Spares n M N M' N' := by
  by_cases hlen : len = 0
  · exact ⟨M, N, if_pos hlen, if_pos hlen, h.spares⟩
  · have hend := hfits.resolve_left hlen
    have hroom := h.room
    have hlimit := h.limit
    have hindex := h.index
    have hadmits :
        (offset.isIndex && len.isIndex && M.admits offset.toNat len.toNat) = true ∧
          (offset.isIndex && len.isIndex && N.admits offset.toNat len.toNat) = true := by
      simp only [Word.isIndex, admits, Bool.and_eq_true, decide_eq_true_eq]
      omega
    refine ⟨_, _, ?_, ?_,
      h.write_spares offset.toNat (sourceRegion source sourceOffset len.toNat) ?_⟩
    · rw [copyLarge, if_neg hlen, if_pos hadmits.1]
    · rw [copyLarge, if_neg hlen, if_pos hadmits.2]
    · rw [size_sourceRegion]
      exact hend

end Memory

/-! ## The machine -/

namespace Machine

variable {n : ℕ} {M N : Memory} {m : Machine} {items : List Word} {offset len : Word}

/-- **A machine within what is paid for:** its memory is one of two that are alike, and what it has
    returned lies in the paid length. -/
structure Within (n : ℕ) (M N : Memory) (m : Machine) : Prop where
  memory : m.memory = M
  alike : Memory.AlikeUpTo n M N
  returned : m.returnRange.2 ≤ n

/-- **The same machine over the other memory,** once both have gone on. -/
def Spares (n : ℕ) (M N : Memory) (m m' : Machine) : Prop :=
  ∃ N', m' = m.withMemory N' ∧ Memory.Spares n M N m.memory N' ∧ m.returnRange.2 ≤ n

/-- **An instruction that spares the bytes behind what is paid for.**  It comes to the same result
    over either memory, and memory is not to blame if it ends the machine. -/
structure Tame (n : ℕ) (M N : Memory) (r r' : Machine × Control) : Prop where
  spares : Spares n M N r.1 r'.1
  control : r'.2 = r.2
  blameless : ∀ reason, r.2 = .exit reason → reason.blamesMemory = false

lemma Within.withItems (h : m.Within n M N) (items : List Word) :
    (m.withItems items).Within n M N :=
  ⟨h.memory, h.alike, h.returned⟩

lemma Within.spares (h : m.Within n M N) : Spares n M N m (m.withMemory N) :=
  ⟨N, rfl, h.memory ▸ h.alike.spares, h.returned⟩

/-- An instruction that leaves memory alone. -/
lemma tame_still (h : m.Within n M N) {control : Control}
    (hcontrol : ∀ reason, control = .exit reason → reason.blamesMemory = false) :
    Tame n M N (m, control) (m.withMemory N, control) :=
  ⟨h.spares, rfl, hcontrol⟩

/-- An instruction that goes on behind itself. -/
lemma tame_next (h : m.Within n M N) (count : ℕ) :
    Tame n M N (m, .next count) (m.withMemory N, .next count) :=
  tame_still h (by simp)

/-- An instruction that ends the machine. -/
lemma tame_exit (h : m.Within n M N) {reason : ExitReason} (hreason : reason.blamesMemory = false) :
    Tame n M N (m, .exit reason) (m.withMemory N, .exit reason) := by
  refine tame_still h ?_
  rintro _ ⟨⟩
  exact hreason

lemma tame_underflow (h : m.Within n M N) :
    Tame n M N m.underflow (m.withMemory N).underflow :=
  tame_exit (h.withItems []) rfl

lemma tame_pushNext (h : m.Within n M N) (w : Word) (width : ℕ) :
    Tame n M N (m.pushNext w width) ((m.withMemory N).pushNext w width) := by
  simp only [pushNext, withMemory_stack]
  cases hpush : m.stack.push w with
  | ok stack =>
      exact tame_next (m := { m with stack := stack }) ⟨h.memory, h.alike, h.returned⟩ _
  | error e =>
      obtain rfl := Frame.push_eq_error hpush
      exact tame_exit h rfl

/-! ### Instructions that touch no memory -/

lemma tame_unary (h : m.Within n M N) (f : Word → Word) :
    Tame n M N (m.unary f) ((m.withMemory N).unary f) := by
  simp only [unary, withMemory_stack]
  split
  · exact tame_pushNext (h.withItems _) _ _
  · exact tame_underflow h

lemma tame_binary (h : m.Within n M N) (f : Word → Word → Word) :
    Tame n M N (m.binary f) ((m.withMemory N).binary f) := by
  simp only [binary, withMemory_stack]
  split
  · exact tame_pushNext (h.withItems _) _ _
  · exact tame_underflow h

lemma tame_ternary (h : m.Within n M N) (f : Word → Word → Word → Word) :
    Tame n M N (m.ternary f) ((m.withMemory N).ternary f) := by
  simp only [ternary, withMemory_stack]
  split
  · exact tame_pushNext (h.withItems _) _ _
  · exact tame_underflow h

lemma jumpTo_blameless (destination : Word) {reason : ExitReason}
    (h : jumpTo destination = .exit reason) : reason.blamesMemory = false := by
  simp only [jumpTo] at h
  split at h <;> cases h
  rfl

lemma tame_jump (h : m.Within n M N) : Tame n M N m.jump (m.withMemory N).jump := by
  simp only [jump, withMemory_stack]
  split
  · exact tame_still (h.withItems _) fun _ => jumpTo_blameless _
  · exact tame_underflow h

lemma tame_jumpIf (h : m.Within n M N) : Tame n M N m.jumpIf (m.withMemory N).jumpIf := by
  simp only [jumpIf, withMemory_stack]
  split
  · refine tame_still (h.withItems _) fun reason hexit => ?_
    split at hexit
    · cases hexit
    · exact jumpTo_blameless _ hexit
  · exact tame_underflow h

lemma tame_dup (h : m.Within n M N) (k : ℕ) : Tame n M N (m.dup k) ((m.withMemory N).dup k) := by
  simp only [dup, OperandStack.peek, withMemory_stack]
  cases m.stack.items[k - 1]? with
  | some w => exact tame_pushNext h w 1
  | none => exact tame_exit h rfl

lemma tame_swap (h : m.Within n M N) (k : ℕ) :
    Tame n M N (m.swap k) ((m.withMemory N).swap k) := by
  simp only [swap, withMemory_stack]
  split
  · exact tame_next (h.withItems _) _
  · exact tame_exit h rfl

/-! ### Instructions that touch a region -/

/-- Before it goes on, an instruction finds its region paid for. -/
lemma tame_withRegion (h : m.Within n M N) (hfits : len = 0 ∨ offset.toNat + len.toNat ≤ n)
    {k : Machine → Machine × Control} (hk : Tame n M N (k m) (k (m.withMemory N))) :
    Tame n M N (m.withRegion offset len k) ((m.withMemory N).withRegion offset len k) := by
  have hpaid : m.memory.resizeOffset offset len = .ok m.memory :=
    h.memory ▸ h.alike.resizeOffset_eq hfits
  have hpaid' : (m.withMemory N).memory.resizeOffset offset len = .ok N :=
    h.alike.symm.resizeOffset_eq hfits
  simp only [withRegion, hpaid, hpaid']
  exact hk

/-- A write that spares the bytes behind is carried out. -/
lemma tame_afterWrite (h : m.Within n M N) {r r' : Except ExitFatal Memory}
    (hr : ∃ M' N', r = .ok M' ∧ r' = .ok N' ∧ Memory.Spares n M N M' N') :
    Tame n M N (m.afterWrite r) ((m.withMemory N).afterWrite r') := by
  obtain ⟨M', N', rfl, rfl, hspares⟩ := hr
  exact ⟨⟨N', rfl, hspares, h.returned⟩, rfl, nofun⟩

lemma tame_copy (h : m.Within n M N) (source : Bytes)
    (hfits : m.stack.peekD 2 = 0 ∨ (m.stack.peekD 0).toNat + (m.stack.peekD 2).toNat ≤ n) :
    Tame n M N (m.copy source) ((m.withMemory N).copy source) := by
  simp only [copy, withMemory_stack]
  split
  · rename_i offset sourceOffset len items hitems
    rw [peekD_zero hitems, peekD_two hitems] at hfits
    refine tame_withRegion (h.withItems items) hfits (tame_afterWrite (h.withItems items) ?_)
    rw [show (m.withItems items).memory = M from h.memory]
    exact h.alike.copyLarge_spares sourceOffset source hfits
  · exact tame_underflow h

/-- A word that is paid for can be addressed. -/
lemma Within.isIndex (h : m.Within n M N) {k : ℕ} (hfits : offset.toNat + k ≤ n) :
    offset.isIndex = true := by
  have hindex := h.alike.index_le
  simp only [Word.isIndex, decide_eq_true_eq]
  omega

lemma tame_load (h : m.Within n M N) (hfits : (m.stack.peekD 0).toNat + 32 ≤ n) :
    Tame n M N m.load (m.withMemory N).load := by
  simp only [load, withMemory_stack]
  split
  · rename_i offset items hitems
    rw [peekD_zero hitems] at hfits
    refine tame_withRegion (h.withItems items) (.inr hfits) ?_
    have hword : ((m.withItems items).withMemory N).memory.get offset.toNat 32 =
        (m.withItems items).memory.get offset.toNat 32 := by
      rw [show (m.withItems items).memory = M from h.memory]
      exact h.alike.get_eq (.inr hfits)
    simp only [h.isIndex hfits, if_true, hword]
    exact tame_pushNext (h.withItems items) _ _
  · exact tame_underflow h

lemma tame_store (h : m.Within n M N) {k : ℕ} (hk : (Word.ofNat k).toNat = k)
    (hfits : (m.stack.peekD 0).toNat + k ≤ n) :
    Tame n M N (m.store k) ((m.withMemory N).store k) := by
  simp only [store, withMemory_stack]
  split
  · rename_i offset value items hitems
    rw [peekD_zero hitems] at hfits
    refine tame_withRegion (h.withItems items) (.inr (by rw [hk]; exact hfits)) ?_
    simp only [h.isIndex hfits, if_true]
    refine tame_afterWrite (h.withItems items) ?_
    rw [show (m.withItems items).memory = M from h.memory]
    exact h.alike.set_spares _ hfits
  · exact tame_underflow h

/-- What is returned lies in what is paid for. -/
lemma tame_finish (h : m.Within n M N) {reason : ExitReason} (hreason : reason.blamesMemory = false)
    (hfits : m.stack.peekD 1 = 0 ∨ (m.stack.peekD 0).toNat + (m.stack.peekD 1).toNat ≤ n) :
    Tame n M N (m.finish reason) ((m.withMemory N).finish reason) := by
  simp only [finish, withMemory_stack]
  split
  · rename_i start len items hitems
    rw [peekD_zero hitems, peekD_one hitems] at hfits
    by_cases hlen : len = 0
    · simp only [if_pos hlen]
      exact tame_exit (m := { m.withItems items with returnRange := (0, 0) })
        ⟨h.memory, h.alike, Nat.zero_le n⟩ hreason
    · have hend := hfits.resolve_left hlen
      have hindex := h.alike.index_le
      have hpaid : (m.withItems items).memory.resizeEnd (start.toNat + len.toNat) =
          .ok (m.withItems items).memory := by
        rw [show (m.withItems items).memory = M from h.memory]
        exact if_neg (by rw [h.alike.paid]; omega)
      have hpaid' : ((m.withMemory N).withItems items).memory.resizeEnd
          (start.toNat + len.toNat) = .ok N :=
        if_neg (by
          rw [show ((m.withMemory N).withItems items).memory.effective = n from
            h.alike.symm.paid]
          omega)
      simp only [if_neg hlen, if_neg (show ¬ start.toNat + len.toNat > maxIndex by omega), hpaid,
        hpaid']
      exact tame_exit
        (m := { m.withItems items with returnRange := (start.toNat, start.toNat + len.toNat) })
        ⟨h.memory, h.alike, hend⟩ hreason
  · exact tame_underflow h

/-! ### Every instruction -/

variable {op : Opcode}

/-- **A local instruction whose region is paid for** touches no byte behind what is paid for. -/
lemma evaluate_tame (h : m.Within n M N) (hlocal : op.instruction.isLocal = true)
    (hfits : (op.instruction.region m.stack).2 = 0 ∨ (op.instruction.region m.stack).1.toNat +
      (op.instruction.region m.stack).2.toNat ≤ n) (position : ℕ) :
    Tame n M N (m.evaluate op position) ((m.withMemory N).evaluate op position) := by
  have hword : ¬ (32 : Word) = 0 := by decide
  have hbyte : ¬ (1 : Word) = 0 := by decide
  simp only [evaluate]
  cases hi : op.instruction <;> rw [hi] at hlocal hfits
  case stop => exact tame_exit h rfl
  case unary f => exact tame_unary h _
  case binary f => exact tame_binary h _
  case ternary f => exact tame_ternary h _
  case callDataLoad => exact tame_unary h m.dataWord
  case codeSize | callDataSize | programCounter | push => exact tame_pushNext h _ _
  case memorySize =>
    have hsize : (m.withMemory N).memory.effective = m.memory.effective :=
      h.memory ▸ h.alike.effective
    simp only [hsize]
    exact tame_pushNext h _ _
  case codeCopy => exact tame_copy h m.code hfits
  case callDataCopy => exact tame_copy h m.data hfits
  case pop =>
    simp only [withMemory_stack]
    split
    · exact tame_next (h.withItems _) _
    · exact tame_underflow h
  case mload => exact tame_load h (hfits.resolve_left hword)
  case mstore => exact tame_store h (by decide) (hfits.resolve_left hword)
  case mstore8 => exact tame_store h (by decide) (hfits.resolve_left hbyte)
  case jump => exact tame_jump h
  case jumpIf => exact tame_jumpIf h
  case jumpDest => exact tame_next h _
  case dup => exact tame_dup h _
  case swap => exact tame_swap h _
  case ret => exact tame_finish h rfl hfits
  case revert => exact tame_finish h rfl hfits
  case invalid => exact tame_exit h rfl
  all_goals cases hlocal

/-- **The step of such an instruction** spares the bytes behind as well. -/
lemma step_tame (h : m.Within n M N) (hop : m.nextOpcode? = some op)
    (hlocal : op.instruction.isLocal = true)
    (hfits : (op.instruction.region m.stack).2 = 0 ∨ (op.instruction.region m.stack).1.toNat +
      (op.instruction.region m.stack).2.toNat ≤ n) :
    Spares n M N m.step.1 (m.withMemory N).step.1 ∧ (m.withMemory N).step.2 = m.step.2 ∧
      (m.step.2 = none ∨
        ∃ reason, m.step.2 = some (.exit reason) ∧ reason.blamesMemory = false) := by
  obtain ⟨position, hposition⟩ := m.exists_position hop
  have hposition' : (m.withMemory N).position = .ok position := hposition
  have hop' : (m.withMemory N).nextOpcode? = some op := hop
  have htame := evaluate_tame h hlocal hfits position
  have hstays := evaluate_local m hlocal position
  rcases hevaluate : m.evaluate op position with ⟨m₁, _⟩
  rcases hevaluate' : (m.withMemory N).evaluate op position with ⟨m₂, control⟩
  rw [hevaluate, hevaluate'] at htame
  rw [hevaluate] at hstays
  obtain ⟨⟨N', hsame, hspares, hreturned⟩, hcontrol, hblameless⟩ := htame
  dsimp only at hsame hspares hreturned hcontrol hblameless
  subst hsame hcontrol
  simp only [step, hposition, hposition', hop, hop', hevaluate, hevaluate']
  cases control with
  | next count => exact ⟨⟨N', rfl, hspares, hreturned⟩, rfl, .inl rfl⟩
  | jump destination =>
      have hjumps : (m₁.withMemory N').jumps.isValid destination =
          m₁.jumps.isValid destination := rfl
      simp only [hjumps]
      cases m₁.jumps.isValid destination with
      | true => exact ⟨⟨N', rfl, hspares, hreturned⟩, rfl, .inl rfl⟩
      | false => exact ⟨⟨N', rfl, hspares, hreturned⟩, rfl, .inr ⟨_, rfl, rfl⟩⟩
  | exit reason =>
      exact ⟨⟨N', rfl, hspares, hreturned⟩, rfl, .inr ⟨reason, rfl, hblameless reason rfl⟩⟩
  | trap trapped => exact absurd rfl (hstays.noTrap trapped)

end Machine

end ResumableEvm
