import ResumableEvm.Proofs.CheckedMachine

/-!
# Push data is never executed

Code is read from its first byte on, and a push takes the bytes behind it for data.  So only
some positions of a code are instructions: its *boundaries*, which the code alone settles.  Two
parts of the machine find them independently: the sweep that marks the jump destinations, and the
machine itself, which goes on behind whatever it has executed.

* `Pushes`, `Boundary` — which positions are instructions, said of the bytes alone.
* `Boundary.add_width_le` — boundaries do not overlap: from one to the next is at least the width
  of the instruction there.
* `Machine.Driven` — every machine that comes about from a fresh one, whatever the surroundings do
  to its stack and its memory in between.
* `Machine.Driven.atBoundary` — such a machine stands at a boundary.
* `JumpTable.isValid_iff` — and may jump to the destinations among them, and nowhere else.
-/

namespace ResumableEvm

/-- A byte of code that pushes the `n` bytes behind it. -/
structure Pushes (byte : UInt8) (n : ℕ) : Prop where
  pos : 1 ≤ n
  le : n ≤ 32
  byte_eq : byte.toNat = 0x5f + n

/-- **Instruction boundaries.**  The first byte is one; behind a push the next one comes after the
    bytes that it pushes, behind anything else at once.  A push that the end of the code cuts off
    leads past the end. -/
inductive Boundary (code : Bytes) : ℕ → Prop
  | start : Boundary code 0
  | push {p n : ℕ} (hp : Boundary code p) (h : p < code.size) (hpush : Pushes code[p] n) :
      Boundary code (p + 1 + n)
  | plain {p : ℕ} (hp : Boundary code p) (h : p < code.size) (hplain : ∀ n, ¬ Pushes code[p] n) :
      Boundary code (p + 1)

/-! ## The width of an instruction -/

namespace Opcode

variable {op : Opcode} {n : ℕ}

lemma pushSize?_iff : op.pushSize? = some n ↔ Pushes op.byte n := by
  simp only [pushSize?, UInt8.le_iff_toNat_le]
  constructor
  · intro h
    split at h
    · rename_i hrange
      obtain ⟨hlow, hhigh⟩ : 0x60 ≤ op.byte.toNat ∧ op.byte.toNat ≤ 0x7f := hrange
      cases h
      exact ⟨by omega, by omega, by omega⟩
    · cases h
  · rintro ⟨hpos, hle, hbyte⟩
    have hrange : 0x60 ≤ op.byte.toNat ∧ op.byte.toNat ≤ 0x7f := ⟨by omega, by omega⟩
    rw [if_pos (by exact hrange)]
    exact congrArg some (by omega)

lemma width_of_pushes (h : Pushes op.byte n) : op.width = 1 + n := by
  simp [width, pushSize?_iff.2 h]

lemma width_of_plain (h : ∀ n, ¬ Pushes op.byte n) : op.width = 1 := by
  have hnone : op.pushSize? = none :=
    Option.eq_none_iff_forall_ne_some.2 fun n hn => h n (pushSize?_iff.1 hn)
  simp [width, hnone]

/-- Only a push is wider than one byte. -/
lemma width_of_not_push (h : ∀ n, op.instruction ≠ .push n) : op.width = 1 := by
  refine width_of_plain fun n hn => h n ?_
  simp only [instruction, pushSize?_iff.2 hn]

lemma width_of_push (h : op.instruction = .push n) : op.width = 1 + n :=
  width_of_pushes (pushSize?_iff.1 (pushSize?_of_instruction h))

end Opcode

namespace Boundary

variable {code : Bytes} {p q : ℕ}

/-- Both ways on from a boundary at once: by the width of the instruction there. -/
lemma next (hp : Boundary code p) (h : p < code.size) :
    Boundary code (p + (⟨code[p]⟩ : Opcode).width) := by
  by_cases hpush : ∃ n, Pushes code[p] n
  · obtain ⟨n, hn⟩ := hpush
    rw [Opcode.width_of_pushes hn, ← Nat.add_assoc]
    exact hp.push h hn
  · rw [Opcode.width_of_plain (not_exists.1 hpush)]
    exact hp.plain h (not_exists.1 hpush)

/-- Every boundary but the first is one behind another. -/
lemma eq_zero_or_next (hp : Boundary code p) :
    p = 0 ∨ ∃ q, ∃ h : q < code.size, Boundary code q ∧ p = q + (⟨code[q]⟩ : Opcode).width := by
  cases hp with
  | start => exact .inl rfl
  | push hq h hpush =>
      exact .inr ⟨_, h, hq, by rw [Opcode.width_of_pushes hpush, ← Nat.add_assoc]⟩
  | plain hq h hplain => exact .inr ⟨_, h, hq, by rw [Opcode.width_of_plain hplain]⟩

/-- **Boundaries do not overlap.** -/
lemma add_width_le (hp : Boundary code p) :
    ∀ {q : ℕ} (h : q < code.size), Boundary code q → q < p →
      q + (⟨code[q]⟩ : Opcode).width ≤ p := by
  -- The boundary before `p` is compared with `q`; were `q` behind it, the same would hold with
  -- `q` as the later of the two, which leaves no room for `q`.
  induction p using Nat.strong_induction_on with
  | _ p ih =>
    intro q h hq hlt
    rcases hp.eq_zero_or_next with rfl | ⟨before, hbefore, hboundary, rfl⟩
    · omega
    · have hwidth := Opcode.width_pos ⟨code[before]⟩
      rcases Nat.lt_trichotomy q before with hless | rfl | hmore
      · have := ih before (by omega) hboundary h hq hless
        omega
      · exact le_rfl
      · have := ih q hlt hq hbefore hboundary hmore
        omega

/-- A boundary lies behind all data of an earlier push. -/
lemma behind_push (hp : Boundary code p) (hq : Boundary code q) (h : q < code.size) {n : ℕ}
    (hpush : Pushes code[q] n) (hlt : q < p) : q + n < p := by
  have hle := hp.add_width_le h hq hlt
  rw [Opcode.width_of_pushes hpush] at hle
  omega

end Boundary

/-! ## The sweep -/

namespace JumpTable

lemma setIfInBounds_getD {marks : Array Bool} {i : ℕ} (hi : i < marks.size) (p : ℕ) :
    (marks.setIfInBounds i true)[p]?.getD false = true ↔
      p = i ∨ marks[p]?.getD false = true := by
  rw [Array.getElem?_setIfInBounds]
  by_cases hp : i = p
  · subst hp
    simp [hi]
  · simp [hp, Ne.symm hp]

/-- **The sweep from a boundary on** adds the destinations among the boundaries from there on. -/
lemma sweep_iff (code : Bytes) (i : ℕ) (marks : Array Bool) (hsize : marks.size = code.size)
    (hi : Boundary code i) (p : ℕ) :
    (sweep code i marks)[p]?.getD false = true ↔
      marks[p]?.getD false = true ∨
        i ≤ p ∧ Boundary code p ∧ ∃ h : p < code.size, code[p] = 0x5b := by
  induction i, marks using sweep.induct code with
  | case1 i marks h op ih =>
      have hsweep : sweep code i marks = sweep code (i + op.width)
          (if op = Opcode.jumpDest then marks.setIfInBounds i true else marks) := by
        rw [sweep, dif_pos h]
      have hnext : Boundary code (i + op.width) := hi.next h
      simp only [dite_eq_ite] at ih
      have hop : op = Opcode.jumpDest ↔ code[i] = 0x5b := by
        simp [op, Opcode.jumpDest]
      have hmarks : (if op = Opcode.jumpDest then marks.setIfInBounds i true else marks).size
          = code.size := by
        split <;> simp [hsize]
      have hmarked : (if op = Opcode.jumpDest then marks.setIfInBounds i true
          else marks)[p]?.getD false = true ↔
            (p = i ∧ code[i] = 0x5b) ∨ marks[p]?.getD false = true := by
        split <;> rename_i hdest
        · rw [setIfInBounds_getD (by omega)]
          simp [hop.1 hdest]
        · simp [mt hop.2 hdest]
      -- Between this boundary and the next there is no other.
      have hhere : (i ≤ p ∧ Boundary code p ∧ ∃ h : p < code.size, code[p] = 0x5b) ↔
          (p = i ∧ code[i] = 0x5b) ∨
            i + op.width ≤ p ∧ Boundary code p ∧ ∃ h : p < code.size, code[p] = 0x5b := by
        constructor
        · rintro ⟨hle, hp, hdest⟩
          rcases Nat.eq_or_lt_of_le hle with rfl | hlt
          · exact .inl ⟨rfl, hdest.2⟩
          · exact .inr ⟨hp.add_width_le h hi hlt, hp, hdest⟩
        · rintro (⟨rfl, hdest⟩ | ⟨hle, hrest⟩)
          · exact ⟨le_rfl, hi, h, hdest⟩
          · exact ⟨by omega, hrest⟩
      rw [hsweep, ih hmarks hnext, hmarked, hhere, or_assoc]
      exact or_left_comm
  | case2 i marks h =>
      rw [sweep, dif_neg h]
      constructor
      · exact .inl
      · rintro (hmarked | ⟨hle, -, hlt, -⟩)
        · exact hmarked
        · omega

/-- **Jump destinations** are the boundaries with a destination byte. -/
lemma isValid_iff (code : Bytes) (p : ℕ) :
    (ofCode code).isValid p = true ↔
      Boundary code p ∧ ∃ h : p < code.size, code[p] = 0x5b := by
  have hnone : (Array.replicate code.size false)[p]?.getD false = false := by
    by_cases hp : p < code.size <;> simp [hp]
  rw [isValid, ofCode, sweep_iff code 0 _ (by simp) .start, hnone]
  simp

end JumpTable

namespace Machine

/-! ## How far an instruction goes on

An instruction that goes on behind itself does so by its width. -/

/-- Goes on by so many bytes, if it goes on at the byte behind at all. -/
def Advances (width : ℕ) (r : Machine × Control) : Prop :=
  ∀ count, r.2 = .next count → count = width

variable (m : Machine)

lemma advances_next (width : ℕ) : Advances width (m, .next width) := by
  rintro count ⟨⟩
  rfl

lemma advances_exit (width : ℕ) (reason : ExitReason) : Advances width (m, .exit reason) := by
  rintro count ⟨⟩

lemma advances_trap (width : ℕ) (op : Opcode) : Advances width (m, .trap op) := by
  rintro count ⟨⟩

lemma advances_pushNext (w : Word) (width : ℕ) : Advances width (m.pushNext w width) := by
  simp only [pushNext]
  split
  · exact advances_next _ width
  · exact advances_exit m width _

lemma advances_unary (f : Word → Word) : Advances 1 (m.unary f) := by
  simp only [unary]
  split
  · exact advances_pushNext _ _ 1
  · exact advances_exit _ 1 _

lemma advances_binary (f : Word → Word → Word) : Advances 1 (m.binary f) := by
  simp only [binary]
  split
  · exact advances_pushNext _ _ 1
  · exact advances_exit _ 1 _

lemma advances_ternary (f : Word → Word → Word → Word) : Advances 1 (m.ternary f) := by
  simp only [ternary]
  split
  · exact advances_pushNext _ _ 1
  · exact advances_exit _ 1 _

lemma advances_afterWrite (r : Except ExitFatal Memory) : Advances 1 (m.afterWrite r) := by
  cases r with
  | ok memory => exact advances_next _ 1
  | error f => exact advances_exit m 1 _

lemma advances_withRegion (offset len : Word) {k : Machine → Machine × Control}
    (hk : ∀ m', Advances 1 (k m')) : Advances 1 (m.withRegion offset len k) := by
  simp only [withRegion]
  split
  · exact hk _
  · exact advances_exit m 1 _

lemma advances_copy (source : Bytes) : Advances 1 (m.copy source) := by
  simp only [copy]
  split
  · exact advances_withRegion _ _ _ fun m' => advances_afterWrite m' _
  · exact advances_exit _ 1 _

lemma advances_load : Advances 1 m.load := by
  simp only [load]
  split
  · refine advances_withRegion _ _ _ fun m' => ?_
    split
    · exact advances_pushNext m' _ 1
    · exact advances_exit m' 1 _
  · exact advances_exit _ 1 _

lemma advances_store (len : ℕ) : Advances 1 (m.store len) := by
  simp only [store]
  split
  · refine advances_withRegion _ _ _ fun m' => ?_
    split
    · exact advances_afterWrite m' _
    · exact advances_exit m' 1 _
  · exact advances_exit _ 1 _

lemma advances_jumpTo (destination : Word) : Advances 1 (m, jumpTo destination) :=
  fun count h => absurd h (jumpTo_ne_next destination count)

lemma advances_jump : Advances 1 m.jump := by
  simp only [jump]
  split
  · exact advances_jumpTo _ _
  · exact advances_exit _ 1 _

lemma advances_jumpIf : Advances 1 m.jumpIf := by
  simp only [jumpIf]
  split
  · split
    · exact advances_next _ 1
    · exact advances_jumpTo _ _
  · exact advances_exit _ 1 _

lemma advances_finish (reason : ExitReason) : Advances 1 (m.finish reason) := by
  simp only [finish]
  split
  · split
    · exact advances_exit _ 1 _
    · split
      · exact advances_exit _ 1 _
      · split <;> exact advances_exit _ 1 _
  · exact advances_exit _ 1 _

lemma advances_dup (n : ℕ) : Advances 1 (m.dup n) := by
  simp only [dup]
  split
  · exact advances_pushNext m _ 1
  · exact advances_exit m 1 _

lemma advances_swap (n : ℕ) : Advances 1 (m.swap n) := by
  simp only [swap]
  split
  · exact advances_next _ 1
  · exact advances_exit m 1 _

/-- **Every instruction** that goes on behind itself leaves out just the data that it pushes. -/
lemma evaluate_advances (op : Opcode) (position : ℕ) :
    Advances op.width (m.evaluate op position) := by
  by_cases hpush : ∃ n, op.instruction = .push n
  · obtain ⟨n, hn⟩ := hpush
    simp only [evaluate, hn, Opcode.width_of_push hn]
    exact advances_pushNext m _ _
  · rw [Opcode.width_of_not_push (not_exists.1 hpush)]
    simp only [evaluate]
    cases hi : op.instruction with
    | push n => exact absurd ⟨n, hi⟩ hpush
    | stop | invalid => exact advances_exit m 1 _
    | unary f | callDataLoad => exact advances_unary m _
    | binary f => exact advances_binary m _
    | ternary f => exact advances_ternary m _
    | codeSize | callDataSize | programCounter | memorySize => exact advances_pushNext m _ 1
    | codeCopy | callDataCopy => exact advances_copy m _
    | pop =>
        dsimp only
        split
        · exact advances_next _ 1
        · exact advances_exit _ 1 _
    | mload => exact advances_load m
    | mstore | mstore8 => exact advances_store m _
    | jump => exact advances_jump m
    | jumpIf => exact advances_jumpIf m
    | jumpDest => exact advances_next m 1
    | dup => exact advances_dup m _
    | swap => exact advances_swap m _
    | ret | revert => exact advances_finish m _
    | _ => exact advances_trap m 1 op

/-! ## Runs -/

/-- **Machines that come about from a fresh one.**  Whenever the machine is at rest, behind a trap
    or not, its surroundings may leave it any stack and any memory, and may stop it. -/
inductive Driven (code data : Bytes) (stackLimit memoryLimit : ℕ) : Machine → Prop
  | created : Driven code data stackLimit memoryLimit (create code data stackLimit memoryLimit)
  | stepped {m : Machine} (hm : Driven code data stackLimit memoryLimit m) :
      Driven code data stackLimit memoryLimit m.step.1
  | served {m : Machine} (hm : Driven code data stackLimit memoryLimit m) (stack : OperandStack)
      (memory : Memory) :
      Driven code data stackLimit memoryLimit { m with stack := stack, memory := memory }
  | halted {m : Machine} (hm : Driven code data stackLimit memoryLimit m) (reason : ExitReason) :
      Driven code data stackLimit memoryLimit (m.halt reason)

/-- A machine with a code and its jump table, which stands, if anywhere, at a boundary. -/
structure AtBoundary (code : Bytes) : Prop where
  program : m.code = code
  table : m.jumps = JumpTable.ofCode code
  boundary : ∀ p, m.position = .ok p → Boundary code p

variable {m} {code data : Bytes} {stackLimit memoryLimit : ℕ}

/-- **One step** leads from boundary to boundary. -/
lemma AtBoundary.step (h : m.AtBoundary code) : m.step.1.AtBoundary code := by
  have hsame := m.step_sameProgram
  refine ⟨hsame.code.trans h.program, hsame.jumps.trans h.table, fun p hp => ?_⟩
  simp only [Machine.step, exitWith, halt] at hp
  split at hp
  · rename_i reason hposition
    cases hposition.symm.trans hp
  · rename_i position hposition
    have hboundary := h.boundary position hposition
    split at hp
    · cases hp
    · rename_i op hop
      obtain ⟨hlt, rfl⟩ : ∃ hlt : position < code.size, op = ⟨code[position]⟩ := by
        simp only [nextOpcode?, hposition, h.program] at hop
        split at hop
        · rename_i hlt
          exact ⟨hlt, (Option.some.inj hop).symm⟩
        · cases hop
      have hadvances := m.evaluate_advances ⟨code[position]⟩ position
      have hstays := m.evaluate_cases ⟨code[position]⟩ position
      split at hp <;> rename_i he <;> rw [he] at hadvances hstays
      · -- On behind the instruction.
        rw [hadvances _ rfl] at hp
        cases hp
        exact hboundary.next hlt
      · cases hp
      · -- Over to a destination.
        rename_i m' destination
        have hjumps : m'.jumps = JumpTable.ofCode code := by
          rcases hstays with hstays | htrap
          · exact hstays.program.jumps.trans h.table
          · cases congrArg Prod.snd htrap
        split at hp
        · rename_i hvalid
          cases hp
          rw [hjumps] at hvalid
          exact ((JumpTable.isValid_iff code _).1 hvalid).1
        · cases hp
      · -- Behind a trapped opcode, which pushes nothing.
        have hwidth : (⟨code[position]⟩ : Opcode).width = 1 := by
          refine Opcode.width_of_not_push fun n hn => ?_
          rcases hstays with hstays | -
          · exact hstays.noTrap _ rfl
          · simp only [evaluate, hn, pushNext] at he
            split at he <;> cases congrArg Prod.snd he
        cases hp
        have hnext := hboundary.next hlt
        rw [hwidth] at hnext
        exact hnext

/-- **Every run** keeps to the boundaries. -/
lemma Driven.atBoundary (h : Driven code data stackLimit memoryLimit m) : m.AtBoundary code := by
  induction h with
  | created =>
      refine ⟨rfl, rfl, ?_⟩
      rintro p ⟨⟩
      exact .start
  | stepped _ ih => exact ih.step
  | served _ stack memory ih => exact ⟨ih.program, ih.table, ih.boundary⟩
  | halted _ reason ih => exact ⟨ih.program, ih.table, nofun⟩

/-- **Push data is never executed.**  Wherever a machine stands in its code, however it got there
    and whatever its surroundings did to it on the way, it stands at a boundary, so in the data of
    no push; and the positions where its code may be jumped to are the boundaries with a
    destination byte. -/
theorem position_boundary_and_isValid_iff (code data : Bytes) (stackLimit memoryLimit : ℕ) :
    (∀ m, Driven code data stackLimit memoryLimit m → ∀ p, m.position = .ok p →
      Boundary code p ∧
        ∀ q n, Boundary code q → (h : q < code.size) → Pushes code[q] n → ¬ (q < p ∧ p ≤ q + n)) ∧
    ∀ p, (JumpTable.ofCode code).isValid p = true ↔
      Boundary code p ∧ ∃ h : p < code.size, code[p] = 0x5b := by
  refine ⟨fun m hm p hp => ?_, JumpTable.isValid_iff code⟩
  have hboundary := hm.atBoundary.boundary p hp
  refine ⟨hboundary, fun q n hq h hpush hinside => ?_⟩
  have := hboundary.behind_push hq h hpush hinside.1
  omega

/-- A push of a destination byte, then a destination: the machine goes on behind the pushed byte,
    which is a place to jump to. -/
theorem boundary_behind_data :
    Boundary ⟨#[0x60, 0x5b, 0x5b]⟩ 2 ∧
      (JumpTable.ofCode ⟨#[0x60, 0x5b, 0x5b]⟩).isValid 2 = true := by
  have hboth := position_boundary_and_isValid_iff ⟨#[0x60, 0x5b, 0x5b]⟩ ⟨#[]⟩ 1024 64
  have hboundary := (hboth.1 _ (.stepped .created) 2 (by rfl)).1
  exact ⟨hboundary, (hboth.2 2).2 ⟨hboundary, by decide, by rfl⟩⟩

end Machine

end ResumableEvm
