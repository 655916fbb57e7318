import ResumableEvm.Proofs.PushData
import ResumableEvm.Proofs.ReservedMemory

/-!
# Zeros behind the code

Code has no byte behind its end, and yet the machine may look there: at the data of a push that
is cut off, at a region to copy, at the next instruction, at a destination.  Each of these reads
zero in its own way.  Two codes that read alike, byte by byte and with zeros behind, are the same
program to a machine that does not ask for their size.

* `Bytes.ReadsAs` — codes that read alike.
* `Boundary.readsAs`, `JumpTable.isValid_readsAs` — they have the same destinations.
* `Machine.Blind` — instructions that do not look at the program.
* `Machine.evaluate_withProgram`, `Machine.step_withProgram` — one step under either program.
* `Surroundings`, `Session` — a run, with whatever is done about its traps.
* `Session.run_withProgram` — every run under either.
* `Machine.readsZeros` — what is read behind the end.
-/

namespace ResumableEvm

/-! ## Codes that read alike -/

namespace Bytes

variable {a b : Bytes} {i : ℕ}

/-- **Codes that read alike:** the same bytes, where those behind the end are zero. -/
def ReadsAs (a b : Bytes) : Prop := ∀ i, a.byteAt i = b.byteAt i

lemma getElem_eq_byteAt (h : i < b.size) : b[i] = b.byteAt i := (dif_pos h).symm

lemma lt_size_of_byteAt_ne_zero (h : b.byteAt i ≠ 0) : i < b.size :=
  Nat.lt_of_not_le fun hle => h (byteAt_of_size_le hle)

/-- Zeros behind a code are there already. -/
lemma readsAs_append_zeros (b : Bytes) (k : ℕ) : (b ++ zeros k).ReadsAs b := by
  intro i
  rw [byteAt_append, byteAt_zeros]
  split
  · rfl
  · rw [byteAt_of_size_le (Nat.le_of_not_lt ‹_›)]

lemma ReadsAs.slice_eq (h : a.ReadsAs b) (offset len : ℕ) :
    a.slice offset len = b.slice offset len := by
  refine ext_byteAt (by simp) fun i hi => ?_
  rw [size_slice] at hi
  rw [byteAt_slice hi, byteAt_slice hi, h]

end Bytes

/-- A boundary of a code is one of any other with the same bytes before it. -/
lemma Boundary.readsAs {code code' : Bytes} {p : ℕ} (h : code'.ReadsAs code)
    (hp : Boundary code p) (hle : p ≤ code'.size) : Boundary code' p := by
  induction hp with
  | start => exact .start
  | @push q n hq hsize hpush ih =>
      have hsize' : q < code'.size := by omega
      rw [Bytes.getElem_eq_byteAt, ← h, ← Bytes.getElem_eq_byteAt hsize'] at hpush
      exact (ih (by omega)).push hsize' hpush
  | @plain q hq hsize hplain ih =>
      have hsize' : q < code'.size := by omega
      rw [Bytes.getElem_eq_byteAt, ← h, ← Bytes.getElem_eq_byteAt hsize'] at hplain
      exact (ih (by omega)).plain hsize' hplain

namespace JumpTable

variable {code code' : Bytes}

lemma isValid_iff_byteAt (code : Bytes) (p : ℕ) :
    (ofCode code).isValid p = true ↔ Boundary code p ∧ code.byteAt p = 0x5b := by
  rw [isValid_iff]
  refine and_congr_right fun _ => ⟨?_, fun hbyte => ?_⟩
  · rintro ⟨h, hbyte⟩
    rwa [← Bytes.getElem_eq_byteAt h]
  · have h : p < code.size := Bytes.lt_size_of_byteAt_ne_zero (by rw [hbyte]; decide)
    exact ⟨h, by rw [Bytes.getElem_eq_byteAt h, hbyte]⟩

lemma isValid_of_readsAs (h : code'.ReadsAs code) {p : ℕ} (hp : (ofCode code).isValid p = true) :
    (ofCode code').isValid p = true := by
  rw [isValid_iff_byteAt] at hp ⊢
  have hbyte : code'.byteAt p = 0x5b := (h p).trans hp.2
  have hlt : p < code'.size := Bytes.lt_size_of_byteAt_ne_zero (by rw [hbyte]; decide)
  exact ⟨hp.1.readsAs h hlt.le, hbyte⟩

/-- **Codes that read alike** have the same destinations. -/
lemma isValid_readsAs (h : code'.ReadsAs code) (p : ℕ) :
    (ofCode code').isValid p = (ofCode code).isValid p :=
  Bool.eq_iff_iff.mpr ⟨isValid_of_readsAs fun i => (h i).symm, isValid_of_readsAs h⟩

end JumpTable

namespace Machine

/-! ## The same machine with another program -/

/-- The machine with another program, whatever has become of it so far. -/
def withProgram (m : Machine) (code : Bytes) (jumps : JumpTable) : Machine :=
  { m with code := code, jumps := jumps }

@[simp] lemma withProgram_stack (m : Machine) (code : Bytes) (jumps : JumpTable) :
    (m.withProgram code jumps).stack = m.stack := rfl

@[simp] lemma withProgram_memory (m : Machine) (code : Bytes) (jumps : JumpTable) :
    (m.withProgram code jumps).memory = m.memory := rfl

@[simp] lemma withProgram_position (m : Machine) (code : Bytes) (jumps : JumpTable) :
    (m.withProgram code jumps).position = m.position := rfl

@[simp] lemma withProgram_withItems (m : Machine) (code : Bytes) (jumps : JumpTable)
    (items : List Word) :
    (m.withProgram code jumps).withItems items = (m.withItems items).withProgram code jumps := rfl

/-- **An instruction that does not look at the program** comes to the same under any. -/
def Blind (f : Machine → Machine × Control) : Prop :=
  ∀ m code jumps, f (m.withProgram code jumps) = ((f m).1.withProgram code jumps, (f m).2)

lemma blind_pushNext (w : Word) (width : ℕ) : Blind (·.pushNext w width) := by
  intro m code jumps
  simp only [pushNext, withProgram_stack]
  cases m.stack.push w <;> rfl

lemma blind_unary (f : Word → Word) : Blind (·.unary f) := by
  intro m code jumps
  simp only [unary, withProgram_stack]
  split
  · exact blind_pushNext _ _ (m.withItems _) code jumps
  · rfl

lemma blind_binary (f : Word → Word → Word) : Blind (·.binary f) := by
  intro m code jumps
  simp only [binary, withProgram_stack]
  split
  · exact blind_pushNext _ _ (m.withItems _) code jumps
  · rfl

lemma blind_ternary (f : Word → Word → Word → Word) : Blind (·.ternary f) := by
  intro m code jumps
  simp only [ternary, withProgram_stack]
  split
  · exact blind_pushNext _ _ (m.withItems _) code jumps
  · rfl

lemma blind_withRegion {k : Machine → Machine × Control} (hk : Blind k) (offset len : Word) :
    Blind (·.withRegion offset len k) := by
  intro m code jumps
  simp only [withRegion, withProgram_memory]
  cases m.memory.resizeOffset offset len with
  | ok memory => exact hk { m with memory := memory } code jumps
  | error e => rfl

/-- A write whose outcome depends on the memory alone. -/
lemma blind_afterWrite (write : Memory → Except ExitFatal Memory) :
    Blind fun m => m.afterWrite (write m.memory) := by
  intro m code jumps
  simp only [withProgram_memory]
  cases write m.memory <;> rfl

lemma blind_copy (source : Bytes) : Blind (·.copy source) := by
  intro m code jumps
  simp only [copy, withProgram_stack]
  split
  · exact blind_withRegion (blind_afterWrite fun memory => memory.copyLarge _ _ _ source) _ _
      (m.withItems _) code jumps
  · rfl

lemma blind_load : Blind load := by
  intro m code jumps
  simp only [load, withProgram_stack]
  split
  · refine blind_withRegion (fun m code jumps => ?_) _ _ (m.withItems _) code jumps
    simp only [withProgram_memory]
    split
    · exact blind_pushNext _ _ m code jumps
    · rfl
  · rfl

lemma blind_store (len : ℕ) : Blind (·.store len) := by
  intro m code jumps
  simp only [store, withProgram_stack]
  split
  · refine blind_withRegion (fun m code jumps => ?_) _ _ (m.withItems _) code jumps
    split
    · exact blind_afterWrite (fun memory => memory.set _ _ len) m code jumps
    · rfl
  · rfl

lemma blind_jump : Blind jump := by
  intro m code jumps
  simp only [jump, withProgram_stack]
  split <;> rfl

lemma blind_jumpIf : Blind jumpIf := by
  intro m code jumps
  simp only [jumpIf, withProgram_stack]
  split <;> rfl

lemma blind_finish (reason : ExitReason) : Blind (·.finish reason) := by
  intro m code jumps
  simp only [finish, withProgram_stack, withProgram_withItems, withProgram_memory]
  split
  · split
    · rfl
    · split
      · rfl
      · cases (m.withItems _).memory.resizeEnd _ <;> rfl
  · rfl

lemma blind_dup (n : ℕ) : Blind (·.dup n) := by
  intro m code jumps
  simp only [dup, withProgram_stack]
  cases m.stack.peek (n - 1) with
  | ok w => exact blind_pushNext w 1 m code jumps
  | error e => rfl

lemma blind_swap (n : ℕ) : Blind (·.swap n) := by
  intro m code jumps
  simp only [swap, withProgram_stack]
  split <;> rfl

lemma blind_pop : Blind fun m =>
    match m.stack.items with
    | _ :: rest => (m.withItems rest, .next 1)
    | _ => m.underflow := by
  intro m code jumps
  simp only [withProgram_stack]
  split <;> rfl

end Machine

/-- Only one byte asks for the size of the code. -/
lemma Opcode.eq_of_codeSize {op : Opcode} (h : op.instruction = .codeSize) : op = ⟨0x38⟩ := by
  have hsingle : single op.byte.toNat = .codeSize := by
    simp only [instruction] at h
    split at h <;> first | exact h | cases h
  have hbyte : op.byte.toNat = 0x38 := by
    unfold single at hsingle
    split at hsingle <;> first | assumption | cases hsingle
  exact congrArg Opcode.mk (UInt8.toNat_inj.mp hbyte)

namespace Machine

/-! ## Every instruction -/

variable {m : Machine} {op : Opcode} {code : Bytes} {jumps : JumpTable} {p : ℕ}

lemma copy_readsAs (h : code.ReadsAs m.code) : m.copy code = m.copy m.code := by
  simp only [copy, Memory.copyLarge, Memory.sourceRegion, h.slice_eq]

/-- **Every instruction** but the one for the size of the code comes to the same under a program
    that reads alike. -/
lemma evaluate_withProgram (h : code.ReadsAs m.code) (hop : op.instruction ≠ .codeSize)
    (jumps : JumpTable) (position : ℕ) :
    (m.withProgram code jumps).evaluate op position =
      ((m.evaluate op position).1.withProgram code jumps, (m.evaluate op position).2) := by
  simp only [evaluate]
  cases hi : op.instruction
  case codeSize => exact absurd hi hop
  case unary f => exact blind_unary _ m code jumps
  case binary f => exact blind_binary _ m code jumps
  case ternary f => exact blind_ternary _ m code jumps
  case callDataLoad => exact blind_unary m.dataWord m code jumps
  case callDataSize | programCounter | memorySize => exact blind_pushNext _ _ m code jumps
  case push n =>
    have hword : (m.withProgram code jumps).pushedWord n position = m.pushedWord n position :=
      congrArg Word.ofBytes (h.slice_eq _ _)
    simp only [hword]
    exact blind_pushNext _ _ m code jumps
  case codeCopy =>
    simp only [← copy_readsAs h]
    exact blind_copy code m code jumps
  case callDataCopy => exact blind_copy m.data m code jumps
  case pop => exact blind_pop m code jumps
  case mload => exact blind_load m code jumps
  case mstore | mstore8 => exact blind_store _ m code jumps
  case jump => exact blind_jump m code jumps
  case jumpIf => exact blind_jumpIf m code jumps
  case dup => exact blind_dup _ m code jumps
  case swap => exact blind_swap _ m code jumps
  case ret | revert => exact blind_finish _ m code jumps
  all_goals rfl

/-! ## One step -/

lemma nextOpcode?_of_lt (hposition : m.position = .ok p) (h : p < m.code.size) :
    m.nextOpcode? = some ⟨m.code[p]⟩ := by
  simp only [nextOpcode?, hposition, dif_pos h]

/-- Behind the end of the code, as at a zero byte, the machine stops. -/
lemma step_of_zero (hposition : m.position = .ok p) (hzero : m.code.byteAt p = 0) :
    m.step = m.exitWith (.succeed .stopped) := by
  by_cases h : p < m.code.size
  · have hop := nextOpcode?_of_lt hposition h
    rw [Bytes.getElem_eq_byteAt h, hzero] at hop
    simp only [step, hposition, hop]
    rfl
  · have hop : m.nextOpcode? = none := by
      simp only [nextOpcode?, hposition, dif_neg h]
    simp only [step, hposition, hop]

lemma nextOpcode?_of_byte (hposition : m.position = .ok p) (hbyte : m.code.byteAt p ≠ 0) :
    m.nextOpcode? = some ⟨m.code.byteAt p⟩ := by
  have h := Bytes.lt_size_of_byteAt_ne_zero hbyte
  rw [nextOpcode?_of_lt hposition h, Bytes.getElem_eq_byteAt h]

/-- **One step** comes to the same under a program that reads alike and has the same destinations,
    unless it asks for the size of the code. -/
lemma step_withProgram (h : code.ReadsAs m.code)
    (hjumps : ∀ p, jumps.isValid p = m.jumps.isValid p) (hop : m.nextOpcode? ≠ some ⟨0x38⟩) :
    (m.withProgram code jumps).step = (m.step.1.withProgram code jumps, m.step.2) := by
  cases hposition : m.position with
  | error reason => simp only [step, hposition, withProgram_position]
  | ok p =>
    by_cases hzero : m.code.byteAt p = 0
    · rw [step_of_zero hposition hzero,
        step_of_zero (m := m.withProgram code jumps) hposition ((h p).trans hzero)]
      rfl
    · have hnext := nextOpcode?_of_byte hposition hzero
      have hnext' : (m.withProgram code jumps).nextOpcode? = some ⟨m.code.byteAt p⟩ := by
        rw [← h p]
        exact nextOpcode?_of_byte (m := m.withProgram code jumps) hposition
          (fun hbyte => hzero ((h p).symm.trans hbyte))
      have hsize : (⟨m.code.byteAt p⟩ : Opcode).instruction ≠ .codeSize := fun hsize =>
        hop (hnext.trans (congrArg some (Opcode.eq_of_codeSize hsize)))
      have hevaluate := evaluate_withProgram h hsize jumps p
      have hsame : (m.evaluate ⟨m.code.byteAt p⟩ p).1.jumps = m.jumps := by
        rcases m.evaluate_cases ⟨m.code.byteAt p⟩ p with hstays | htrap
        · exact hstays.program.jumps
        · rw [htrap]
      simp only [step, hposition, withProgram_position, hnext, hnext', hevaluate]
      rcases hresult : m.evaluate ⟨m.code.byteAt p⟩ p with ⟨m', control⟩
      rw [hresult] at hsame
      cases control with
      | next count => rfl
      | exit reason => rfl
      | trap op => rfl
      | jump destination =>
          have hvalid : (m'.withProgram code jumps).jumps.isValid destination =
              m'.jumps.isValid destination := by
            rw [show m'.jumps = m.jumps from hsame]
            exact hjumps destination
          simp only [hvalid]
          split <;> rfl

end Machine

/-! ## Runs -/

/-- What is seen of a machine from outside, apart from its program. -/
structure View where
  position : Except ExitReason ℕ
  stack : OperandStack
  memory : Memory
  returnValue : Bytes

def Machine.view (m : Machine) : View := ⟨m.position, m.stack, m.memory, m.returnValue⟩

/-- What the surroundings leave a machine with after a step. -/
structure Reply where
  stack : OperandStack
  memory : Memory
  /-- Why the machine is to stop, if it is. -/
  stop : Option ExitReason

def Machine.served (m : Machine) (reply : Reply) : Machine :=
  let m := { m with stack := reply.stack, memory := reply.memory }
  match reply.stop with
  | none => m
  | some reason => m.halt reason

/-- **Surroundings** with a state of their own.  They are told what each step has reported, a trap
    above all, and see the machine but not its program; they leave it a stack and a memory, and
    may stop it. -/
abbrev Surroundings (σ : Type) := σ → Option Capture → View → σ × Reply

/-- A machine, the state of its surroundings, and what has been reported so far. -/
structure Session (σ : Type) where
  machine : Machine
  own : σ
  reports : List (Option Capture)

namespace Session

variable {σ : Type}

/-- **One step,** and what the surroundings do about it. -/
def next (env : Surroundings σ) (s : Session σ) : Session σ :=
  let (m, report) := s.machine.step
  let (own, reply) := env s.own report m.view
  ⟨m.served reply, own, s.reports ++ [report]⟩

/-- **A run** of so many steps, from the start of a machine. -/
def run (env : Surroundings σ) (own : σ) (m : Machine) (steps : ℕ) : Session σ :=
  (next env)^[steps] ⟨m, own, []⟩

/-- The session of the machine under another program. -/
def withProgram (s : Session σ) (code : Bytes) (jumps : JumpTable) : Session σ :=
  { s with machine := s.machine.withProgram code jumps }

variable {env : Surroundings σ} {own : σ} {m : Machine} {code : Bytes} {jumps : JumpTable}

lemma served_withProgram (reply : Reply) :
    (m.withProgram code jumps).served reply = (m.served reply).withProgram code jumps := by
  simp only [Machine.served]
  cases reply.stop <;> rfl

lemma sameProgram_served (reply : Reply) :
    (m.served reply).code = m.code ∧ (m.served reply).jumps = m.jumps := by
  simp only [Machine.served]
  cases reply.stop <;> exact ⟨rfl, rfl⟩

lemma next_code (s : Session σ) : (s.next env).machine.code = s.machine.code :=
  (sameProgram_served _).1.trans s.machine.step_sameProgram.code

lemma next_jumps (s : Session σ) : (s.next env).machine.jumps = s.machine.jumps :=
  (sameProgram_served _).2.trans s.machine.step_sameProgram.jumps

lemma run_succ (n : ℕ) : run env own m (n + 1) = (run env own m n).next env :=
  Function.iterate_succ_apply' _ _ _

/-- A run keeps the program. -/
lemma run_program (env : Surroundings σ) (own : σ) (m : Machine) (n : ℕ) :
    (run env own m n).machine.code = m.code ∧ (run env own m n).machine.jumps = m.jumps := by
  induction n with
  | zero => exact ⟨rfl, rfl⟩
  | succ n ih =>
      rw [run_succ]
      exact ⟨(next_code _).trans ih.1, (next_jumps _).trans ih.2⟩

/-- One step of two sessions that differ in programs that read alike. -/
lemma next_withProgram {s : Session σ} (h : code.ReadsAs s.machine.code)
    (hjumps : ∀ p, jumps.isValid p = s.machine.jumps.isValid p)
    (hop : s.machine.nextOpcode? ≠ some ⟨0x38⟩) :
    (s.withProgram code jumps).next env = (s.next env).withProgram code jumps := by
  have hstep := Machine.step_withProgram h hjumps hop
  have hview : (s.machine.step.1.withProgram code jumps).view = s.machine.step.1.view := rfl
  simp only [next, withProgram, hstep, hview, served_withProgram]

/-- **A run** under a program that reads alike, as long as nothing asks for its size. -/
lemma run_withProgram (h : code.ReadsAs m.code)
    (hjumps : ∀ p, jumps.isValid p = m.jumps.isValid p) {n : ℕ}
    (hop : ∀ i < n, (run env own m i).machine.nextOpcode? ≠ some ⟨0x38⟩) :
    run env own (m.withProgram code jumps) n = (run env own m n).withProgram code jumps := by
  induction n with
  | zero => rfl
  | succ n ih =>
      obtain ⟨hcode, htable⟩ := run_program env own m n
      rw [run_succ, run_succ, ih fun i hi => hop i (Nat.lt_succ_of_lt hi)]
      exact next_withProgram (by rwa [hcode]) (by rwa [htable]) (hop n (Nat.lt_succ_self n))

end Session

namespace Machine

variable {m : Machine} {p : ℕ}

/-- **A machine that reads zeros** behind the end of its code: in the data of a push that is cut
    off, in a region to copy, and as the next instruction.  A place in code is an index, so an
    offset that is none is behind its end. -/
structure ReadsZeros (m : Machine) : Prop where
  push : ∀ p n, (h : p < m.code.size) → m.position = .ok p → Pushes m.code[p] n →
    m.code.size < p + 1 + n → m.stack.size < m.stack.limit →
      m.step = ({ m.withItems (Word.ofBytes (m.code.extract (p + 1) m.code.size ++
        Bytes.zeros (p + 1 + n - m.code.size)) :: m.stack.items) with
          position := .ok (p + 1 + n) }, none)
  copy : ∀ p offset source len rest, (h : p < m.code.size) → m.position = .ok p →
    m.code[p] = 0x39 → m.stack.items = offset :: source :: len :: rest →
    offset.toNat + len.toNat ≤ min m.memory.limit maxIndex →
      ∃ memory, m.step = ({ m.withItems rest with
        memory := memory, position := .ok (p + 1) }, none) ∧
        ∀ i < len.toNat, memory.data.byteAt (offset.toNat + i) =
          if h : source.isIndex ∧ source.toNat + i < m.code.size then m.code[source.toNat + i]
          else 0
  stop : ∀ p, m.position = .ok p → m.code.size ≤ p →
    m.step = (m.halt (.succeed .stopped), some (.exit (.succeed .stopped)))

/-- The bytes behind a push that the end of the code cuts off. -/
lemma pushedWord_of_cutOff {n : ℕ} (h : p < m.code.size) (hshort : m.code.size < p + 1 + n) :
    m.pushedWord n p = Word.ofBytes (m.code.extract (p + 1) m.code.size ++
      Bytes.zeros (p + 1 + n - m.code.size)) := by
  have hstop : min (p + 1 + n) m.code.size = m.code.size := min_eq_right hshort.le
  have hmissing : n - (m.code.size - (p + 1)) = p + 1 + n - m.code.size := by omega
  rw [pushedWord, Bytes.slice_eq_append, hstop, ByteArray.size_extract, min_self, hmissing]

lemma readsZeros (m : Machine) : m.ReadsZeros where
  push p n h hposition hpush hshort hroom := by
    have hop := nextOpcode?_of_lt hposition h
    have hinstruction : (⟨m.code[p]⟩ : Opcode).instruction = .push n := by
      simp only [Opcode.instruction, Opcode.pushSize?_iff.mpr hpush]
    have hfits (w : Word) : m.stack.push w = .ok ⟨w :: m.stack.items, m.stack.limit⟩ :=
      if_neg (by omega)
    simp only [step, hposition, hop, evaluate, hinstruction, pushNext,
      pushedWord_of_cutOff h hshort, hfits, Nat.add_assoc]
    rfl
  copy p offset source len rest h hposition hbyte hitems hroom := by
    have hop := nextOpcode?_of_lt hposition h
    have hinstruction : (⟨0x39⟩ : Opcode).instruction = .codeCopy := rfl
    have hindex : len = 0 ∨ offset.toNat + len.toNat ≤ maxIndex := .inr (by omega)
    obtain ⟨paid, hpaid⟩ := (m.withItems rest).memory.resizeOffset_ok hindex
    have hlimit : paid.limit = m.memory.limit := resizeOffset_limit hpaid
    obtain ⟨memory, hcopied⟩ : ∃ memory, paid.copyLarge offset source len m.code = .ok memory :=
      Memory.copyLarge_ok (.inr (by omega))
    refine ⟨memory, ?_, fun i hi => ?_⟩
    · rw [hbyte] at hop
      simp only [step, hposition, hop, evaluate, hinstruction, copy, hitems, withRegion, hpaid,
        hcopied, afterWrite]
    · rw [(Memory.copyLarge_patched hcopied).inside i hi, Memory.byteAt_sourceRegion hi]
      by_cases hsource : source.isIndex
      · simp only [hsource, true_and, if_true]
        rfl
      · rw [if_neg hsource, dif_neg fun hboth => hsource hboth.1]
  stop p hposition hpast := step_of_zero hposition (Bytes.byteAt_of_size_le hpast)

end Machine

/-- **Code behaves as if followed by zeros.**  Two machines, one with zeros behind the code of the
    other, are run for any number of steps in the same surroundings, and nothing asks for the size
    of the code.  After each step the surroundings have been told the same and have seen the same,
    and both machines may jump to the same places.  For reading behind the end of the code, every
    machine reads zeros. -/
theorem code_is_followed_by_zeros {σ : Type} (env : Surroundings σ) (own : σ) (code data : Bytes)
    (stackLimit memoryLimit k n : ℕ)
    (hsize : ∀ i < n, (Session.run env own (Machine.create code data stackLimit memoryLimit)
      i).machine.nextOpcode? ≠ some ⟨0x38⟩) :
    let plain := Session.run env own (Machine.create code data stackLimit memoryLimit) n
    let padded := Session.run env own
      (Machine.create (code ++ Bytes.zeros k) data stackLimit memoryLimit) n
    padded.reports = plain.reports ∧ padded.own = plain.own ∧
      padded.machine.view = plain.machine.view ∧
      (∀ p, padded.machine.jumps.isValid p = plain.machine.jumps.isValid p) ∧
      ∀ m : Machine, m.ReadsZeros := by
  intro plain padded
  have hreads := Bytes.readsAs_append_zeros code k
  have hjumps := JumpTable.isValid_readsAs hreads
  have hrun : padded = plain.withProgram (code ++ Bytes.zeros k)
      (JumpTable.ofCode (code ++ Bytes.zeros k)) :=
    Session.run_withProgram (m := Machine.create code data stackLimit memoryLimit) hreads hjumps
      hsize
  obtain ⟨-, htable⟩ := Session.run_program env own
    (Machine.create code data stackLimit memoryLimit) n
  have hplain : plain.machine.jumps = JumpTable.ofCode code := htable
  rw [hrun]
  refine ⟨rfl, rfl, rfl, fun p => ?_, Machine.readsZeros⟩
  rw [hplain]
  exact hjumps p

/-- A storage read, which the surroundings answer, and then a push that the end of the code cuts
    off. -/
theorem cut_off_push_is_padded :
    let env : Surroundings ℕ := fun reads report seen =>
      match report with
      | some (.trap _) => (reads + 1, ⟨{ seen.stack with items := [7] }, seen.memory, none⟩)
      | _ => (reads, ⟨seen.stack, seen.memory, none⟩)
    let run (code : Bytes) := Session.run env 0 (Machine.create code ⟨#[]⟩ 1024 64) 4
    (run ⟨#[0x60, 0, 0x54, 0x61, 0xff]⟩).machine.stack.items = [0xff00, 7] ∧
      (run ⟨#[0x60, 0, 0x54, 0x61, 0xff, 0, 0, 0]⟩).machine.view =
        (run ⟨#[0x60, 0, 0x54, 0x61, 0xff]⟩).machine.view ∧
      (run ⟨#[0x60, 0, 0x54, 0x61, 0xff, 0, 0, 0]⟩).reports =
        [none, some (.trap ⟨0x54⟩), none, some (.exit (.succeed .stopped))] := by
  intro env run
  obtain ⟨hreports, -, hview, -⟩ := code_is_followed_by_zeros env 0
    ⟨#[0x60, 0, 0x54, 0x61, 0xff]⟩ ⟨#[]⟩ 1024 64 3 4 (by decide)
  exact ⟨by decide, hview, hreports.trans (by decide)⟩

end ResumableEvm
