import Mathlib.Tactic
import ResumableEvm.Machine

/-!
# What one step of the machine leaves alone

Whatever an instruction does to the stack, the memory and the position, the program and the
limits of its machine stay.  An instruction of the surroundings does nothing at all: the machine
reports it and stands behind it.

* `Instruction.isLocal` — the instructions that the machine carries out itself.
* `Machine.SameProgram` — two machines with the same program and the same limits.
* `Machine.step_sameProgram` — a step keeps both.
* `Machine.step_trap` — a trap is the opcode at the position, and only the position has moved.
-/

namespace ResumableEvm

/-- Whether the machine carries an instruction out itself, and not its surroundings. -/
def Instruction.isLocal : Instruction → Bool
  | .stop | .unary _ | .binary _ | .ternary _ | .callDataLoad | .callDataSize | .callDataCopy
  | .codeSize | .codeCopy | .pop | .mload | .mstore | .mstore8 | .jump | .jumpIf
  | .programCounter | .memorySize | .jumpDest | .push _ | .dup _ | .swap _ | .ret | .revert
  | .invalid => true
  | _ => false

namespace Machine

/-- **The same program under the same limits.**  Position, stack and memory may differ. -/
structure SameProgram (m m' : Machine) : Prop where
  code : m'.code = m.code
  data : m'.data = m.data
  jumps : m'.jumps = m.jumps
  memoryLimit : m'.memory.limit = m.memory.limit
  stackLimit : m'.stack.limit = m.stack.limit

namespace SameProgram

variable {m m' m'' : Machine}

lemma refl (m : Machine) : m.SameProgram m := ⟨rfl, rfl, rfl, rfl, rfl⟩

lemma trans (h : m.SameProgram m') (h' : m'.SameProgram m'') : m.SameProgram m'' :=
  ⟨h'.code.trans h.code, h'.data.trans h.data, h'.jumps.trans h.jumps,
    h'.memoryLimit.trans h.memoryLimit, h'.stackLimit.trans h.stackLimit⟩

end SameProgram

/-! ## Memory keeps its limit -/

lemma resizeEnd_limit {memory memory' : Memory} {stop : ℕ}
    (h : memory.resizeEnd stop = .ok memory') : memory'.limit = memory.limit := by
  simp only [Memory.resizeEnd] at h
  split at h
  · split at h
    · cases h
    · cases h
      rfl
  · cases h
    rfl

lemma resizeOffset_limit {memory memory' : Memory} {offset len : Word}
    (h : memory.resizeOffset offset len = .ok memory') : memory'.limit = memory.limit := by
  simp only [Memory.resizeOffset] at h
  split at h
  · cases h
    rfl
  · split at h
    · cases h
    · exact resizeEnd_limit h

lemma set_limit {memory memory' : Memory} {offset len : ℕ} {value : Bytes}
    (h : memory.set offset value len = .ok memory') : memory'.limit = memory.limit := by
  simp only [Memory.set] at h
  split at h
  · cases h
    rfl
  · split at h
    · cases h
      rfl
    · cases h

lemma copyLarge_limit {memory memory' : Memory} {offset sourceOffset len : Word} {source : Bytes}
    (h : memory.copyLarge offset sourceOffset len source = .ok memory') :
    memory'.limit = memory.limit := by
  simp only [Memory.copyLarge] at h
  split at h
  · cases h
    rfl
  · split at h
    · cases h
      rfl
    · cases h

/-! ## Instructions of the machine -/

/-- An instruction that the machine carries out itself: it keeps the program and reports no
    trap. -/
structure Stays (m : Machine) (r : Machine × Control) : Prop where
  program : m.SameProgram r.1
  noTrap : ∀ op, r.2 ≠ .trap op

lemma Stays.of_sameProgram {m m' : Machine} {r : Machine × Control} (h : m.SameProgram m')
    (hr : m'.Stays r) : m.Stays r :=
  ⟨h.trans hr.program, hr.noTrap⟩

variable (m : Machine)

lemma stays_exit (reason : ExitReason) : m.Stays (m, .exit reason) :=
  ⟨.refl m, by simp⟩

lemma stays_underflow : m.Stays m.underflow :=
  ⟨⟨rfl, rfl, rfl, rfl, rfl⟩, by simp [underflow]⟩

lemma stays_pushNext (items : List Word) (w : Word) (width : ℕ) :
    m.Stays ((m.withItems items).pushNext w width) := by
  simp only [pushNext, OperandStack.push]
  split <;> rename_i h
  · split at h
    · cases h
    · cases h
      exact ⟨⟨rfl, rfl, rfl, rfl, rfl⟩, by simp⟩
  · exact ⟨⟨rfl, rfl, rfl, rfl, rfl⟩, by simp⟩

lemma stays_pushNext_self (w : Word) (width : ℕ) : m.Stays (m.pushNext w width) :=
  stays_pushNext m m.stack.items w width

lemma stays_unary (f : Word → Word) : m.Stays (m.unary f) := by
  simp only [unary]
  split
  · exact stays_pushNext m _ _ _
  · exact stays_underflow m

lemma stays_binary (f : Word → Word → Word) : m.Stays (m.binary f) := by
  simp only [binary]
  split
  · exact stays_pushNext m _ _ _
  · exact stays_underflow m

lemma stays_ternary (f : Word → Word → Word → Word) : m.Stays (m.ternary f) := by
  simp only [ternary]
  split
  · exact stays_pushNext m _ _ _
  · exact stays_underflow m

/-- Before an instruction goes on behind a region, only the paid memory has changed. -/
lemma stays_withRegion (items : List Word) (offset len : Word) (k : Machine → Machine × Control)
    (hk : ∀ memory : Memory, memory.limit = m.memory.limit →
      m.Stays (k { m.withItems items with memory := memory })) :
    m.Stays ((m.withItems items).withRegion offset len k) := by
  simp only [withRegion]
  split <;> rename_i h
  · exact hk _ (resizeOffset_limit h)
  · exact ⟨⟨rfl, rfl, rfl, rfl, rfl⟩, by simp⟩

lemma stays_afterWrite (items : List Word) (memory : Memory) (hl : memory.limit = m.memory.limit)
    (r : Except ExitFatal Memory) (hr : ∀ memory', r = .ok memory' → memory'.limit = memory.limit) :
    m.Stays (({ m.withItems items with memory := memory } : Machine).afterWrite r) := by
  cases r with
  | ok memory' => exact ⟨⟨rfl, rfl, rfl, (hr memory' rfl).trans hl, rfl⟩, by simp [afterWrite]⟩
  | error f => exact ⟨⟨rfl, rfl, rfl, hl, rfl⟩, by simp [afterWrite]⟩

lemma stays_copy (source : Bytes) : m.Stays (m.copy source) := by
  simp only [copy]
  split
  · refine stays_withRegion m _ _ _ _ fun memory hl => ?_
    exact stays_afterWrite m _ memory hl _ fun _ h => copyLarge_limit h
  · exact stays_underflow m

lemma stays_load : m.Stays m.load := by
  simp only [load]
  split
  · refine stays_withRegion m _ _ _ _ fun memory hl => ?_
    dsimp only
    split
    · refine Stays.of_sameProgram ?_ (stays_pushNext_self _ _ _)
      exact ⟨rfl, rfl, rfl, hl, rfl⟩
    · exact ⟨⟨rfl, rfl, rfl, hl, rfl⟩, by simp⟩
  · exact stays_underflow m

lemma stays_store (len : ℕ) : m.Stays (m.store len) := by
  simp only [store]
  split
  · refine stays_withRegion m _ _ _ _ fun memory hl => ?_
    dsimp only
    split
    · exact stays_afterWrite m _ memory hl _ fun _ h => set_limit h
    · exact ⟨⟨rfl, rfl, rfl, hl, rfl⟩, by simp⟩
  · exact stays_underflow m

lemma jumpTo_ne_trap (destination : Word) (op : Opcode) : jumpTo destination ≠ .trap op := by
  simp only [jumpTo]
  split <;> simp

lemma stays_jump : m.Stays m.jump := by
  simp only [jump]
  split
  · exact ⟨⟨rfl, rfl, rfl, rfl, rfl⟩, jumpTo_ne_trap _⟩
  · exact stays_underflow m

lemma stays_jumpIf : m.Stays m.jumpIf := by
  simp only [jumpIf]
  split
  · refine ⟨⟨rfl, rfl, rfl, rfl, rfl⟩, fun op => ?_⟩
    dsimp only
    split
    · simp
    · exact jumpTo_ne_trap _ op
  · exact stays_underflow m

lemma stays_finish (reason : ExitReason) : m.Stays (m.finish reason) := by
  unfold finish
  split
  · dsimp only
    split
    · exact ⟨⟨rfl, rfl, rfl, rfl, rfl⟩, by simp⟩
    · split
      · exact ⟨⟨rfl, rfl, rfl, rfl, rfl⟩, by simp⟩
      · split <;> rename_i h
        · exact ⟨⟨rfl, rfl, rfl, resizeEnd_limit h, rfl⟩, by simp⟩
        · exact ⟨⟨rfl, rfl, rfl, rfl, rfl⟩, by simp⟩
  · exact stays_underflow m

lemma stays_dup (n : ℕ) : m.Stays (m.dup n) := by
  simp only [dup]
  split
  · exact stays_pushNext_self m _ _
  · exact stays_exit m _

lemma stays_swap (n : ℕ) : m.Stays (m.swap n) := by
  simp only [swap]
  split
  · exact ⟨⟨rfl, rfl, rfl, rfl, rfl⟩, by simp⟩
  · exact stays_exit m _

/-! ## Every instruction -/

/-- **A local instruction** is carried out. -/
lemma evaluate_local {op : Opcode} (hlocal : op.instruction.isLocal = true) (position : ℕ) :
    m.Stays (m.evaluate op position) := by
  simp only [evaluate]
  cases hi : op.instruction with
  | stop => exact stays_exit m _
  | unary f => exact stays_unary m _
  | binary f => exact stays_binary m _
  | ternary f => exact stays_ternary m _
  | codeSize | callDataSize | programCounter | memorySize | push =>
      exact stays_pushNext_self m _ _
  | codeCopy | callDataCopy => exact stays_copy m _
  | callDataLoad => exact stays_unary m _
  | pop =>
      dsimp only
      split
      · exact ⟨⟨rfl, rfl, rfl, rfl, rfl⟩, by simp⟩
      · exact stays_underflow m
  | mload => exact stays_load m
  | mstore | mstore8 => exact stays_store m _
  | jump => exact stays_jump m
  | jumpIf => exact stays_jumpIf m
  | jumpDest => exact ⟨.refl m, by simp⟩
  | dup => exact stays_dup m _
  | swap => exact stays_swap m _
  | ret | revert => exact stays_finish m _
  | invalid => exact stays_exit m _
  | _ =>
      rw [hi] at hlocal
      cases hlocal

/-- Any other instruction is left to the surroundings. -/
lemma evaluate_trap {op : Opcode} (hlocal : op.instruction.isLocal = false) (position : ℕ) :
    m.evaluate op position = (m, .trap op) := by
  simp only [evaluate]
  cases hi : op.instruction <;> rw [hi] at hlocal <;> first | rfl | cases hlocal

/-- **Evaluation.**  Either the machine carries the opcode out, or it leaves everything to its
    surroundings. -/
lemma evaluate_cases (op : Opcode) (position : ℕ) :
    m.Stays (m.evaluate op position) ∨ m.evaluate op position = (m, .trap op) := by
  cases hlocal : op.instruction.isLocal with
  | true => exact .inl (evaluate_local m hlocal position)
  | false => exact .inr (evaluate_trap m hlocal position)

/-- **A trap** is the opcode at the position, and nothing but the position has moved. -/
lemma step_trap {m' : Machine} {op : Opcode} (h : m.step = (m', some (.trap op))) :
    ∃ p, m.nextOpcode? = some op ∧ m' = { m with position := .ok (p + 1) } := by
  simp only [step, exitWith] at h
  split at h
  · simp at h
  · rename_i p hp
    split at h
    · simp at h
    · rename_i next hn
      have hcases := evaluate_cases m next p
      split at h <;> rename_i he
      · simp at h
      · simp at h
      · split at h <;> simp at h
      · rcases hcases with hs | ht
        · exact absurd (congrArg Prod.snd he) (hs.noTrap _)
        · rw [ht] at he
          simp only [Prod.mk.injEq, Option.some.injEq, Capture.trap.injEq,
            Control.trap.injEq] at h he
          obtain ⟨rfl, rfl⟩ := he
          obtain ⟨rfl, rfl⟩ := h
          exact ⟨p, hn, rfl⟩

/-- A machine that stands before an opcode has a position. -/
lemma exists_position {op : Opcode} (hop : m.nextOpcode? = some op) : ∃ p, m.position = .ok p := by
  cases hposition : m.position with
  | error reason =>
      simp only [nextOpcode?, hposition] at hop
      cases hop
  | ok p => exact ⟨p, rfl⟩

/-- An instruction of the surroundings traps, and the machine stands behind it. -/
lemma step_of_trap_at {op : Opcode} {p : ℕ} (hposition : m.position = .ok p)
    (hop : m.nextOpcode? = some op) (hlocal : op.instruction.isLocal = false) :
    m.step = ({ m with position := .ok (p + 1) }, some (.trap op)) := by
  simp only [step, hposition, hop, evaluate_trap m hlocal p]

lemma step_of_trap {op : Opcode} (hop : m.nextOpcode? = some op)
    (hlocal : op.instruction.isLocal = false) :
    ∃ p, m.step = ({ m with position := .ok (p + 1) }, some (.trap op)) := by
  obtain ⟨p, hposition⟩ := m.exists_position hop
  exact ⟨p, m.step_of_trap_at hposition hop hlocal⟩

/-- A local instruction does not. -/
lemma step_of_local {m' : Machine} {op trapped : Opcode} (hop : m.nextOpcode? = some op)
    (hlocal : op.instruction.isLocal = true) : m.step ≠ (m', some (.trap trapped)) := by
  intro h
  obtain ⟨p, hnext, -⟩ := step_trap m h
  obtain rfl : op = trapped := Option.some.inj (hop.symm.trans hnext)
  simp only [step, exitWith] at h
  split at h
  · cases h
  · rename_i position _
    simp only [hop] at h
    have hstays := evaluate_local m hlocal position
    rcases hevaluate : m.evaluate op position with ⟨m'', control⟩
    rw [hevaluate] at h hstays
    cases control with
    | next count => cases h
    | jump destination =>
        dsimp only at h
        split at h <;> cases h
    | exit reason => cases h
    | trap op => exact hstays.noTrap op rfl

/-- **A step keeps the program and the limits.** -/
lemma step_sameProgram : m.SameProgram m.step.1 := by
  simp only [step, exitWith, halt]
  split
  · exact .refl m
  · rename_i p hp
    split
    · exact ⟨rfl, rfl, rfl, rfl, rfl⟩
    · rename_i next hn
      have hsame : m.SameProgram (m.evaluate next p).1 := by
        rcases evaluate_cases m next p with hs | ht
        · exact hs.program
        · rw [ht]
          exact .refl m
      split <;> rename_i he <;> rw [he] at hsame
      · exact hsame.trans ⟨rfl, rfl, rfl, rfl, rfl⟩
      · exact hsame.trans ⟨rfl, rfl, rfl, rfl, rfl⟩
      · split
        · exact hsame.trans ⟨rfl, rfl, rfl, rfl, rfl⟩
        · exact hsame.trans ⟨rfl, rfl, rfl, rfl, rfl⟩
      · exact hsame.trans ⟨rfl, rfl, rfl, rfl, rfl⟩

end Machine

end ResumableEvm
