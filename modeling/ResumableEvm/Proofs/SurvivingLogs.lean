import ResumableEvm.Proofs.CallStackShape
import ResumableEvm.Proofs.KeptOutput

/-!
# The log entries that survive

A frame keeps the entries it has logged to itself until it ends, and hands them on only if it ends
well.  What the transaction comes to have logged is nevertheless just what was logged in the course
of it, in that order, by frames that ended well and whose ancestors all did.

To say so a run is chronicled: frames get a number when they are entered, and each entry that is
built is noted with the numbers of the frames on the call stack.

* `Deed`, `Chronicle` — what is noted of a run.
* `Chronicle.next` — what a step of the engine adds to it.
* `survivors` — the entries whose frames all ended well.
* `Recounts` — how a chronicle and the frames on the call stack belong together.
* `logs_are_the_survivors` — what a transaction has logged.
-/

namespace ResumableEvm

/-! ## Chronicles -/

/-- What is noted of a run. -/
inductive Deed where
  /-- An entry was built in the first of these frames.  The others are those below it. -/
  | logged (frames : List ℕ) (entry : LogEntry)
  | ended (frame : ℕ) (well : Bool)
  deriving DecidableEq

/-- What was noted of a run so far. -/
structure Chronicle where
  /-- The numbers of the frames on the call stack, that of the current one first. -/
  frames : List ℕ := []
  /-- How many frames were entered. -/
  entered : ℕ := 0
  deeds : List Deed := []

/-- The entry that a frame is about to build, if its next instruction builds one. -/
def Frame.logging? (f : Frame) : Option LogEntry :=
  match f.machine.nextOpcode?.map Opcode.instruction with
  | some (.log topics) =>
    some ⟨f.context.address, (f.machine.stack.items.drop 2).take topics,
      f.machine.memory.read (f.operand 0) (f.operand 1)⟩
  | _ => none

namespace Chronicle

def enter (c : Chronicle) : Chronicle :=
  { c with frames := c.entered :: c.frames, entered := c.entered + 1 }

def log (c : Chronicle) (entry : LogEntry) : Chronicle :=
  { c with deeds := c.deeds ++ [.logged c.frames entry] }

/-- The current frame leaves the call stack. -/
def leave (c : Chronicle) (well : Bool) : Chronicle :=
  match c.frames with
  | [] => c
  | frame :: below => { c with frames := below, deeds := c.deeds ++ [.ended frame well] }

/-- What a step of a call stack adds.  An instruction was carried out if the frame runs on; how a
    creation ended is seen once its code was deposited. -/
def step (c : Chronicle) (chain : ChainView) (s s' : CallStack) : Chronicle :=
  match s.current.status with
  | .running =>
    match s.current.logging?, s'.current.status with
    | some entry, .running => c.log entry
    | _, _ => c
  | .invokeCall _ _ _ | .invokeCreate _ => c.enter
  | _ =>
    match s.waiting with
    | [] => c
    | parent :: _ => c.leave ((parent.absorb s.current chain).2.1.status = .exitedOk)

/-- **What a step of the engine adds.**  A step that has to wait for a datum will be taken again.
    The root is entered when the transaction is accepted, and leaves when it is settled. -/
def next (c : Chronicle) (e e' : Engine) : Chronicle :=
  if e'.pending.isSome then c
  else
    match e.phase, e'.phase with
    | .validating _, .executing _ => c.enter
    | .executing x, .executing x' =>
      if x.settled then c
      else if x'.settled then c.leave (x'.calls.root.status = .exitedOk)
      else c.step e.chain x.calls x'.calls
    | _, _ => c

end Chronicle

/-- **A run and its chronicle,** whatever the host answers. -/
inductive Engine.Chronicled (rs : Ruleset) (t : Transaction) (block : Header) :
    Engine → Chronicle → Prop where
  | create : Chronicled rs t block (.create rs t block) {}
  | step {e e' : Engine} {c : Chronicle} (before : Chronicled rs t block e c)
      (stepped : e.step = .ok e') : Chronicled rs t block e' (c.next e e')
  | tell {e e' : Engine} {c : Chronicle} {answer : Answer} (before : Chronicled rs t block e c)
      (told : e.tell answer = .ok e') : Chronicled rs t block e' c

/-! ## Entries that are kept -/

/-- The entry that a deed leaves, if all its frames are spared. -/
def Deed.kept? (spared : ℕ → Bool) : Deed → Option LogEntry
  | .logged frames entry => if ∀ i ∈ frames, spared i = true then some entry else none
  | .ended _ _ => none

/-- The entries whose frames are all spared. -/
def kept (spared : ℕ → Bool) (deeds : List Deed) : List LogEntry :=
  deeds.filterMap (Deed.kept? spared)

/-- **The entries whose frames all ended well,** in the order they were built. -/
def survivors (deeds : List Deed) : List LogEntry := kept (fun i => .ended i true ∈ deeds) deeds

variable {spared spared' : ℕ → Bool} {deeds before during : List Deed}

lemma kept_append : kept spared (before ++ during) = kept spared before ++ kept spared during :=
  List.filterMap_append

lemma kept_ended (spared : ℕ → Bool) (i : ℕ) (well : Bool) : kept spared [.ended i well] = [] := rfl

lemma kept_logged {frames : List ℕ} (h : ∀ i ∈ frames, spared i = true) (entry : LogEntry) :
    kept spared [.logged frames entry] = [entry] := by
  simp only [kept, List.filterMap_cons, Deed.kept?, if_pos h, List.filterMap_nil]

/-- Only the frames of the entries matter. -/
lemma kept_congr (h : ∀ frames entry, .logged frames entry ∈ deeds →
    ∀ i ∈ frames, spared i = spared' i) : kept spared deeds = kept spared' deeds := by
  refine List.filterMap_congr fun deed hdeed => ?_
  cases deed with
  | ended i well => rfl
  | logged frames entry =>
      have hall : (∀ i ∈ frames, spared i = true) ↔ ∀ i ∈ frames, spared' i = true :=
        forall₂_congr fun i hi => by rw [h frames entry hdeed i hi]
      simp only [Deed.kept?, hall]

/-- Nothing is kept where each entry has a frame that is not spared. -/
lemma kept_eq_nil (h : ∀ frames entry, .logged frames entry ∈ deeds →
    ∃ i ∈ frames, spared i = false) : kept spared deeds = [] := by
  refine List.filterMap_eq_nil_iff.mpr fun deed hdeed => ?_
  cases deed with
  | ended i well => rfl
  | logged frames entry =>
      obtain ⟨i, hi, hspared⟩ := h frames entry hdeed
      refine if_neg fun hall => ?_
      rw [hall i hi] at hspared
      cases hspared

/-- The frames that are spared as long as those that are open are: they and the ones that have ended
    well. -/
def spares (opened : List ℕ) (deeds : List Deed) (i : ℕ) : Bool :=
  i ∈ opened ∨ .ended i true ∈ deeds

lemma survivors_eq (deeds : List Deed) : survivors deeds = kept (spares [] deeds) deeds := by
  have hspares : spares [] deeds = fun i => decide (.ended i true ∈ deeds) := by
    funext i
    simp [spares]
  rw [survivors, hspares]

/-! ## What frames note while they are there -/

/-- **A deed of a frame or of one above it** that has been entered since.  The frames below are on
    the call stack all the while. -/
def Deed.Within (frame : ℕ) (below : List ℕ) (next : ℕ) : Deed → Prop
  | .logged frames _ => (∀ i ∈ frame :: below, i ∈ frames) ∧
    ∀ i ∈ frames, i ∈ frame :: below ∨ frame < i ∧ i < next
  | .ended i _ => frame < i ∧ i < next

lemma Deed.Within.mono {frame next next' : ℕ} {below : List ℕ} {deed : Deed}
    (h : deed.Within frame below next) (hle : next ≤ next') : deed.Within frame below next' := by
  cases deed with
  | logged frames entry =>
      refine ⟨h.1, fun i hi => ?_⟩
      rcases h.2 i hi with hopen | ⟨hlow, hhigh⟩
      · exact .inl hopen
      · exact .inr ⟨hlow, hhigh.trans_le hle⟩
  | ended i well => exact ⟨h.1, h.2.trans_le hle⟩

/-- **Frames and what was noted of them,** those on top first, up to the next number.  Each frame
    has logged what is left of the deeds since it was entered, should it and those below end
    well. -/
inductive Recounts : ℕ → List ℕ → List Frame → List Deed → Prop where
  | none {next : ℕ} : Recounts next [] [] []
  | frame {next i : ℕ} {ids : List ℕ} {f : Frame} {frames : List Frame} {before during : List Deed}
      (below : Recounts i ids frames before) (fresh : i < next)
      (inside : ∀ deed ∈ during, deed.Within i ids next)
      (logs : f.logs = kept (spares (i :: ids) during) during) :
      Recounts next (i :: ids) (f :: frames) (before ++ during)

namespace Recounts

variable {next i j : ℕ} {ids : List ℕ} {f g parent : Frame} {frames : List Frame}

lemma lt_next (h : Recounts next ids frames deeds) : ∀ i ∈ ids, i < next := by
  induction h with
  | none => exact fun i hi => (List.not_mem_nil hi).elim
  | frame below fresh inside logs ih =>
      refine List.forall_mem_cons.mpr ⟨fresh, fun k hk => ?_⟩
      exact (ih k hk).trans fresh

lemma exists_ids (h : Recounts next ids (f :: parent :: frames) deeds) :
    ∃ i j rest, ids = i :: j :: rest := by
  cases h with
  | frame below =>
      cases below with
      | frame => exact ⟨_, _, _, rfl⟩

lemma exists_id (h : Recounts next ids [f] deeds) : ∃ i, ids = [i] := by
  cases h with
  | frame below =>
      cases below with
      | none => exact ⟨_, rfl⟩

/-- The current frame may do anything that leaves its entries. -/
lemma move (h : Recounts next ids (f :: frames) deeds) (hlogs : g.logs = f.logs) :
    Recounts next ids (g :: frames) deeds := by
  cases h with
  | frame below fresh inside logs => exact .frame below fresh inside (hlogs.trans logs)

lemma enter (h : Recounts next ids frames deeds) (hlogs : f.logs = []) :
    Recounts (next + 1) (next :: ids) (f :: frames) deeds := by
  have hframe : Recounts (next + 1) (next :: ids) (f :: frames) (deeds ++ []) :=
    .frame h (Nat.lt_succ_self next) (fun deed hdeed => (List.not_mem_nil hdeed).elim) hlogs
  rwa [List.append_nil] at hframe

/-- An entry that the current frame has built is noted with the frames on the call stack. -/
lemma log {entry : LogEntry} (h : Recounts next ids (f :: frames) deeds)
    (hlogs : g.logs = f.logs ++ [entry]) :
    Recounts next ids (g :: frames) (deeds ++ [.logged ids entry]) := by
  cases h with
  | @frame _ i ids _ _ before during below fresh inside logs =>
      rw [List.append_assoc]
      refine .frame below fresh (fun deed hdeed => ?_) ?_
      · rcases List.mem_append.mp hdeed with hduring | hnew
        · exact inside deed hduring
        · obtain rfl := List.mem_singleton.mp hnew
          exact ⟨fun k hk => hk, fun k hk => .inl hk⟩
      · have hspares : spares (i :: ids) (during ++ [.logged (i :: ids) entry]) =
            spares (i :: ids) during := by
          funext k
          simp [spares]
        have hspared : ∀ k ∈ i :: ids, spares (i :: ids) during k = true := fun k hk =>
          decide_eq_true (.inl hk)
        rw [hspares, kept_append, kept_logged hspared, hlogs, logs]

/-! ### A frame that ends -/

section Merge

variable (hbefore : ∀ k ∈ ids, k < i) (hended : ∀ k, .ended k true ∈ before → k < i)
  (hinside : ∀ deed ∈ during, deed.Within i ids next) (well : Bool)

include hinside

/-- What the frames below have noted is kept as before. -/
lemma kept_below (hnoted : ∀ entry frames, .logged frames entry ∈ before →
      ∀ k ∈ frames, k ∈ ids ∨ k < i) :
    kept (spares ids (before ++ during ++ [.ended i well])) before =
      kept (spares ids before) before := by
  refine kept_congr fun frames entry hentry k hk => ?_
  have hduring : k < i → .ended k true ∉ during := fun hlt hmem =>
    absurd hlt (hinside _ hmem).1.not_gt
  rcases hnoted entry frames hentry k hk with hopen | hlt
  · simp [spares, hopen]
  · simp [spares, hduring hlt, hlt.ne]

include hbefore hended

/-- A frame that ends well leaves what it would. -/
lemma kept_well : kept (spares ids (before ++ during ++ [.ended i true])) during =
    kept (spares (i :: ids) during) during := by
  refine kept_congr fun frames entry hentry k hk => ?_
  rcases (hinside _ hentry).2 k hk with hopen | ⟨hgt, -⟩
  · rcases List.mem_cons.mp hopen with rfl | hmem
    · simp [spares]
    · simp [spares, hmem]
  · have hbelow : .ended k true ∉ before := fun hmem => absurd (hended k hmem) hgt.not_gt
    simp [spares, hbelow, hgt.ne']

/-- A frame that ends otherwise leaves nothing, and no frame above it does. -/
lemma kept_failed : kept (spares ids (before ++ during ++ [.ended i false])) during = [] := by
  refine kept_eq_nil fun frames entry hentry => ⟨i, (hinside _ hentry).1 i List.mem_cons_self, ?_⟩
  have hopen : i ∉ ids := fun hmem => absurd (hbefore i hmem) (lt_irrefl i)
  have hbelow : .ended i true ∉ before := fun hmem => absurd (hended i hmem) (lt_irrefl i)
  have hduring : .ended i true ∉ during := fun hmem => absurd (hinside _ hmem).1 (lt_irrefl i)
  simp [spares, hopen, hbelow, hduring]

end Merge

/-- **A frame that goes back.**  What it has logged goes over to the one below if it ended well, and
    is dropped otherwise. -/
lemma leave {well : Bool} (h : Recounts next (i :: j :: ids) (f :: parent :: frames) deeds)
    (hlogs : g.logs = parent.logs ++ if well then f.logs else []) :
    Recounts next (j :: ids) (g :: frames) (deeds ++ [.ended i well]) := by
  cases h with
  | @frame _ _ _ _ _ before during below fresh inside logs =>
  have hids := below.lt_next
  cases below with
  | @frame _ _ _ _ _ before' during' below' fresh' inside' logs' =>
      have hended : ∀ k, .ended k true ∈ during' → k < i := fun k hk => (inside' _ hk).2
      have hnoted : ∀ entry frames, .logged frames entry ∈ during' →
          ∀ k ∈ frames, k ∈ j :: ids ∨ k < i := fun entry frames hentry k hk =>
        ((inside' _ hentry).2 k hk).imp_right And.right
      rw [List.append_assoc, List.append_assoc]
      refine .frame below' (fresh'.trans fresh) (fun deed hdeed => ?_) ?_
      · simp only [List.mem_append, List.mem_singleton] at hdeed
        rcases hdeed with hparent | hchild | rfl
        · exact (inside' deed hparent).mono fresh.le
        · have hwithin := inside deed hchild
          cases deed with
          | logged path entry =>
              refine ⟨fun k hk => hwithin.1 k (List.mem_cons_of_mem _ hk), fun k hk => ?_⟩
              rcases hwithin.2 k hk with hopen | ⟨hlow, hhigh⟩
              · rcases List.mem_cons.mp hopen with rfl | hmem
                · exact .inr ⟨fresh', fresh⟩
                · exact .inl hmem
              · exact .inr ⟨fresh'.trans hlow, hhigh⟩
          | ended k ok => exact ⟨fresh'.trans hwithin.1, hwithin.2⟩
        · exact ⟨fresh', fresh⟩
      · rw [← List.append_assoc, kept_append, kept_append, kept_below inside well hnoted,
          hlogs, logs', logs]
        cases well with
        | true =>
            rw [kept_well hids hended inside, kept_ended, List.append_nil]
            rfl
        | false =>
            rw [kept_failed hids hended inside, kept_ended]
            simp

/-- **The root.**  Once it has ended well, what it has logged is what survives. -/
lemma survive (h : Recounts next [i] [f] deeds) :
    f.logs = survivors (deeds ++ [.ended i true]) := by
  cases h with
  | @frame _ _ _ _ _ before during below fresh inside logs =>
  cases below with
  | none =>
      have hnone : ∀ k ∈ ([] : List ℕ), k < i := fun k hk => (List.not_mem_nil hk).elim
      have hended : ∀ k, Deed.ended k true ∈ ([] : List Deed) → k < i := fun k hk =>
        (List.not_mem_nil hk).elim
      have hwell := kept_well hnone hended inside
      simp only [List.nil_append] at hwell ⊢
      rw [survivors_eq, kept_append, hwell, logs, kept_ended, List.append_nil]

end Recounts

/-! ## What moves do to the entries -/

namespace Frame

variable {f g sub ended parent : Frame} {chain : ChainView} {op : Opcode} {i : Instruction}
  {stipend afterGas : Gas} {control : FrameControl} {memory : Memory}

lemma logging?_eq_none (hop : f.machine.nextOpcode? = some op)
    (h : ∀ topics, op.instruction ≠ .log topics) : f.logging? = none := by
  simp only [logging?, hop, Option.map_some]
  split
  · rename_i topics heq
    exact absurd (Option.some.inj heq) (h topics)
  · rfl

/-- Only an instruction that logs changes the entries, and adds the one that was to be expected. -/
lemma Effect.logs (h : (f.withMemory memory).Effect chain stipend afterGas i g control)
    (hmemory : memory.data = f.machine.memory.data) (hop : f.machine.nextOpcode? = some op)
    (hi : op.instruction = i) :
    f.logging? = none ∧ g.logs = f.logs ∨
      control = .proceed ∧ ∃ entry, f.logging? = some entry ∧ g.logs = f.logs ++ [entry] := by
  have hplain : (∀ topics, i ≠ .log topics) → f.logging? = none := fun hne =>
    logging?_eq_none hop fun topics => hi ▸ hne topics
  cases h with
  | compute program stays plain =>
      refine .inl ⟨hplain fun topics heq => ?_, rfl⟩
      rw [heq] at plain
      cases plain
  | store | create | call | destroy => exact .inl ⟨hplain (by simp), rfl⟩
  | @log topics machine offset len items program taken =>
      refine .inr ⟨rfl, _, ?_, rfl⟩
      have hread : ∀ offset len, (f.withMemory memory).machine.memory.read offset len =
          f.machine.memory.read offset len := by
        intro offset len
        simp only [Memory.read, Memory.get, withMemory, hmemory]
      have htaken : f.machine.stack.items = offset :: len :: items := taken
      simp only [logging?, hop, Option.map_some, hi, hread, operand_zero htaken, operand_one htaken,
        htaken]
      rfl

lemma resizeEnd_data {memory memory' : Memory} {stop : ℕ}
    (h : memory.resizeEnd stop = .ok memory') : memory'.data = memory.data := by
  simp only [Memory.resizeEnd] at h
  split at h
  · split at h <;> cases h
    rfl
  · cases h
    rfl

/-- **A step of a frame** adds the entry that it builds, if the frame runs on. -/
lemma Stepped.logs (h : f.Stepped chain g) (hr : f.status = .running) :
    (g.status = .running → g.logs = f.logs ++ f.logging?.toList) ∧
      (g.status ≠ .running → g.logs = f.logs) := by
  have hexits : g.status.isExited = true → g.logs = f.logs →
      (g.status = .running → g.logs = f.logs ++ f.logging?.toList) ∧
        (g.status ≠ .running → g.logs = f.logs) := by
    refine fun hexited hlogs => ⟨fun hrunning => ?_, fun _ => hlogs⟩
    rw [hrunning] at hexited
    cases hexited
  cases h with
  | idle resting => exact absurd hr resting
  | precompile running contract =>
      exact hexits (runPrecompile_exited f _) (runPrecompile_traces f _).logs
  | past | refused => exact hexits rfl rfl
  | unaffordable => exact hexits (FrameStatus.isExited_ofReason _) rfl
  | executed running code checked charged afforded effect next =>
      have hdata := resizeEnd_data (afford_eq_ok afforded).2.2
      have hstatus := effect.same.2.2.2
      rw [(follow_traces _ _).logs]
      rcases effect.logs hdata next rfl with ⟨hnone, hlogs⟩ | ⟨rfl, entry, hentry, hlogs⟩
      · rw [hnone]
        exact ⟨fun _ => hlogs.trans (List.append_nil _).symm, fun _ => hlogs⟩
      · rw [hentry]
        exact ⟨fun _ => hlogs, fun hne => absurd (hstatus.trans hr) hne⟩

lemma Begun.logs (h : f.Begun chain g) : g.logs = f.logs := by
  cases h <;> rfl

lemma Deposited.logs (h : f.Deposited chain g) : g.logs = f.logs := by
  cases h <;> rfl

/-- **Going back,** a frame takes over what the other has logged if that one ended well. -/
lemma Absorbed.logs (h : f.Absorbed ended chain parent sub) {context : Context}
    (hasked : f.status.invoked? = some context) :
    parent.logs = f.logs ++ if sub.status = .exitedOk then ended.logs else [] := by
  have hresume : ∀ region, (f.resume sub region).logs =
      f.logs ++ if sub.status = .exitedOk then sub.logs else [] := by
    intro region
    rcases f.resume_traces sub region with ⟨hfailed, hsame⟩ | ⟨hok, hadopted⟩
    · rw [hsame.logs, if_neg hfailed, List.append_nil]
    · rw [hadopted.logs, if_pos hok]
      rfl
  cases h with
  | returned => exact hresume _
  | created _ deposited =>
      rw [← deposited.logs]
      exact hresume _
  | dropped unasked => cases unasked.symm.trans hasked

end Frame

/-! ## Call stacks -/

namespace Chronicle

variable {s s' : CallStack} {chain : ChainView} {c : Chronicle} {context : Context}
  {parent : Frame} {rest : List Frame}

lemma step_of_invoked (h : s.current.status.invoked? = some context) :
    c.step chain s s' = c.enter := by
  simp only [step]
  cases hs : s.current.status <;> rw [hs] at h <;> first | rfl | cases h

lemma step_of_alone (hexited : s.current.status.isExited = true) (h : s.waiting = []) :
    c.step chain s s' = c := by
  simp only [step, h]
  cases hs : s.current.status <;> rw [hs] at hexited <;> first | rfl | cases hexited

lemma step_of_exited (hexited : s.current.status.isExited = true) (h : s.waiting = parent :: rest) :
    c.step chain s s' = c.leave ((parent.absorb s.current chain).2.1.status = .exitedOk) := by
  simp only [step, h]
  cases hs : s.current.status <;> rw [hs] at hexited <;> first | rfl | cases hexited

lemma leave_of_frames {i : ℕ} {below : List ℕ} (h : c.frames = i :: below) (well : Bool) :
    c.leave well = { c with frames := below, deeds := c.deeds ++ [.ended i well] } := by
  simp only [leave, h]

end Chronicle

namespace CallStack

variable {s s' : CallStack} {chain : ChainView} {c : Chronicle}

/-- What was noted of a run and the frames on the call stack belong together. -/
def Recounted (s : CallStack) (c : Chronicle) : Prop :=
  Recounts c.entered c.frames (s.current :: s.waiting) c.deeds

/-- **A step of a call stack** and what is noted of it. -/
lemma Stepped.recounted (h : s.Stepped chain s') (hlinked : s.Linked) (hs : s.Recounted c) :
    s'.Recounted (c.step chain s s') := by
  simp only [Recounted] at hs
  cases h with
  | @ran g running stepped =>
      obtain ⟨hon, hoff⟩ := stepped.logs running
      simp only [Chronicle.step, running]
      split
      · rename_i entry hentry hrunning
        rw [hentry] at hon
        exact hs.log (hon hrunning)
      · rename_i hother
        refine hs.move ?_
        by_cases hrunning : g.status = .running
        · have hnone : s.current.logging? = none :=
            Option.eq_none_iff_forall_not_mem.mpr fun entry hentry => hother entry hentry hrunning
          rw [hon hrunning, hnone]
          exact List.append_nil _
        · exact hoff hrunning
  | entered asked begun =>
      rw [Chronicle.step_of_invoked asked]
      exact hs.enter begun.logs
  | rested ended alone =>
      rw [Chronicle.step_of_alone ended alone]
      exact hs
  | @left parent parent' sub rest ended below absorbs =>
      have hasked : parent.status.invoked? = some s.current.context := by
        simp only [Linked, below] at hlinked
        exact hlinked.asked
      have hlogs := (Frame.absorb_absorbed absorbs).logs hasked
      rw [below] at hs
      obtain ⟨i, j, ids, hids⟩ := hs.exists_ids
      rw [Chronicle.step_of_exited ended below, absorbs, Chronicle.leave_of_frames hids]
      rw [hids] at hs
      exact hs.leave (by simpa using hlogs)

end CallStack

/-! ## Runs -/

namespace Execution

variable {x x' : Execution} {chain : ChainView} {c : Chronicle}

/-- **An execution and its chronicle.**  Until it is settled they belong together, frame by frame;
    then what the root has logged is what has survived, or nothing after a failure. -/
structure Recounted (x : Execution) (c : Chronicle) : Prop where
  linked : x.settled = false → x.calls.Linked
  calls : x.settled = false → x.calls.Recounted c
  success : x.settled = true → x.calls.root.status = .exitedOk →
    x.calls.root.logs = survivors c.deeds
  failure : x.settled = true → x.calls.root.status ≠ .exitedOk → x.calls.root.logs = []

lemma Recounted.of_unsettled (hunsettled : x.settled = false) (hlinked : x.calls.Linked)
    (hcalls : x.calls.Recounted c) : x.Recounted c where
  linked _ := hlinked
  calls _ := hcalls
  success h := by
    rw [hunsettled] at h
    cases h
  failure h := by
    rw [hunsettled] at h
    cases h

/-- A root that is alone and has ended deposits its code. -/
lemma deposit_recounted {result : Except Requirement Unit} (hunsettled : x.settled = false)
    (hexited : x.calls.isExited = true) (h : x.deposit chain = (x', result))
    (hx : x.Recounted c) :
    x'.settled = false ∧ x'.calls.isExited = true ∧ x'.Recounted c := by
  simp only [CallStack.isExited, Bool.and_eq_true, List.isEmpty_iff] at hexited ⊢
  obtain ⟨halone, hended⟩ := hexited
  have hroot := root_of_alone halone
  simp only [deposit] at h
  split at h
  · split at h <;> rename_i hcode <;> cases h
    · rw [hroot] at hcode
      have hdeposited := Frame.depositCode_deposited hcode
      have hexited := hdeposited.exited hended
      refine ⟨hunsettled, ⟨halone, hexited⟩, .of_unsettled hunsettled ?_ ?_⟩
      · exact (hx.linked hunsettled).move hdeposited.context
          (.of_unasked (FrameStatus.invoked?_eq_none hexited))
      · exact (hx.calls hunsettled).move hdeposited.logs
    · obtain rfl := Frame.depositCode_requires hcode
      rw [withRoot_root halone]
      exact ⟨hunsettled, ⟨halone, hended⟩, hx⟩
  · cases h
    exact ⟨hunsettled, ⟨halone, hended⟩, hx⟩

/-- A root that settles the transaction leaves the call stack. -/
lemma settle_recounted (hunsettled : x.settled = false) (halone : x.calls.waiting = [])
    (h : x.settle chain = (x', .ok ())) (hx : x.Recounted c) :
    x'.settled = true ∧ x'.Recounted (c.leave (x'.calls.root.status = .exitedOk)) := by
  simp only [settle] at h
  split at h <;> rename_i hroot <;> cases h
  have hcalls := hx.calls hunsettled
  simp only [CallStack.Recounted, halone] at hcalls
  rw [root_of_alone halone] at hroot
  obtain ⟨swept, -, hsettled⟩ := Frame.settle_settles hroot
  obtain ⟨i, hids⟩ := hcalls.exists_id
  rw [hids] at hcalls
  refine ⟨rfl, ⟨by rintro ⟨⟩, by rintro ⟨⟩, fun _ hok => ?_, fun _ hfailed => ?_⟩⟩ <;>
    simp only [root_withRoot halone] at *
  · rcases hsettled with ⟨-, rfl⟩ | ⟨hfailed, rfl⟩
    · rw [Chronicle.leave_of_frames hids, decide_eq_true hok]
      exact hcalls.survive
    · exact absurd hok hfailed
  · rcases hsettled with ⟨hok, rfl⟩ | ⟨-, rfl⟩
    · exact absurd hok hfailed
    · rfl

/-- **A step of an execution** and what is noted of it. -/
lemma step_recounted {event : Option Event} (hunsettled : x.settled = false)
    (h : x.step chain = (x', .ok event)) (hx : x.Recounted c) :
    x'.Recounted (if x'.settled then c.leave (x'.calls.root.status = .exitedOk)
      else c.step chain x.calls x'.calls) := by
  simp only [step, hunsettled] at h
  rw [if_neg (by simp)] at h
  split at h
  · rename_i hexited
    split at h <;> rename_i hfinish <;> cases h
    simp only [finish] at hfinish
    split at hfinish <;> rename_i hdeposit
    · obtain ⟨hunsettled', hexited', hx'⟩ := deposit_recounted hunsettled hexited hdeposit hx
      have halone' : _ = [] := List.isEmpty_iff.mp (Bool.and_eq_true_iff.mp hexited').1
      obtain ⟨hsettled, hrecounted⟩ := settle_recounted hunsettled' halone' hfinish hx'
      rw [if_pos hsettled]
      exact hrecounted
    · cases hfinish
  · rcases hs : x.calls.step chain with ⟨calls, i | event⟩ <;> rw [hs] at h <;> cases h
    have hstepped := CallStack.step_stepped hs
    rw [if_neg (by simp)]
    exact .of_unsettled rfl (hstepped.linked (hx.linked hunsettled))
      (hstepped.recounted (hx.linked hunsettled) (hx.calls hunsettled))

/-- A step that has to wait is not noted. -/
lemma waits_recounted {r : Requirement} (h : x.step chain = (x', .error (.requires r)))
    (hx : x.Recounted c) : x'.Recounted c := by
  simp only [step] at h
  split at h
  · cases h
  · rename_i hsettled
    have hunsettled := Bool.eq_false_of_not_eq_true hsettled
    split at h
    · rename_i hexited
      split at h <;> rename_i hfinish <;> cases h
      simp only [finish] at hfinish
      split at hfinish <;> rename_i hdeposit <;>
        obtain ⟨hunsettled', hexited', hx'⟩ := deposit_recounted hunsettled hexited hdeposit hx
      · simp only [settle] at hfinish
        split at hfinish <;> rename_i hsettle <;> cases hfinish
        obtain rfl := Frame.settle_requires hsettle
        rw [withRoot_root (List.isEmpty_iff.mp (Bool.and_eq_true_iff.mp hexited').1)]
        exact hx'
      · cases hfinish
        exact hx'
    · rcases hs : x.calls.step chain with ⟨calls, i | event⟩ <;> rw [hs] at h <;> cases h
      obtain rfl := CallStack.step_requires hs
      exact hx

end Execution

namespace Engine

variable {rs : Ruleset} {t : Transaction} {block : Header} {e e' : Engine} {c : Chronicle}

/-- **The engine and its chronicle.**  Nothing is noted before the transaction is accepted. -/
structure Recounted (e : Engine) (c : Chronicle) : Prop where
  validating : ∀ t, e.phase = .validating t → c = {}
  executing : ∀ x, e.phase = .executing x → x.Recounted c

/-- An execution begins with its root, of which nothing is noted yet. -/
lemma recounted_of_accept {chain : ChainView} {x : Execution}
    (h : t.accept chain = .ok (.ok x)) : x.Recounted (Chronicle.enter {}) := by
  obtain ⟨hunsettled, halone, -, paid, code, -, hbegun⟩ := Transaction.accept_begins h
  have hroot := Execution.root_of_alone halone
  rw [hroot] at hbegun
  refine .of_unsettled hunsettled ?_ ?_
  · simp only [CallStack.Linked, halone]
    exact .root (.of_unasked (hbegun.unasked rfl))
  · simp only [CallStack.Recounted, halone]
    exact Recounts.none.enter hbegun.logs

lemma Recounted.step (h : e.Recounted c) (hs : e.step = .ok e') :
    e'.Recounted (c.next e e') := by
  simp only [Engine.step] at hs
  split at hs
  · rename_i hpending
    cases hs
    simp only [Chronicle.next, hpending]
    exact h
  · rename_i hpending hphase
    cases hs
    simp only [Chronicle.next, hpending, hphase]
    exact h
  · rename_i t hpending hphase
    split at hs
    · rename_i x haccept
      cases hs
      obtain rfl := h.validating t hphase
      obtain ⟨hunsettled, -⟩ := Transaction.accept_begins haccept
      simp only [Chronicle.next, hpending, hphase]
      refine ⟨by rintro t ⟨⟩, ?_⟩
      rintro x ⟨⟩
      exact recounted_of_accept haccept
    · cases hs
      simp only [Chronicle.next, hpending, hphase]
      exact ⟨by rintro t ⟨⟩, by rintro x ⟨⟩⟩
    · obtain ⟨r, -, rfl⟩ := interrupt_eq_ok hs
      exact ⟨h.validating, h.executing⟩
  · rename_i x hpending hphase
    split at hs <;> rename_i hstep
    · cases hs
      refine ⟨by rintro t ⟨⟩, ?_⟩
      rintro x' ⟨⟩
      simp only [Chronicle.next, hpending, hphase, Option.isSome_none, Bool.false_eq_true, if_false]
      have hx := h.executing x hphase
      by_cases hsettled : x.settled = true
      · rw [if_pos hsettled]
        rw [Execution.step_of_settled hsettled] at hstep
        cases hstep
        exact hx
      · rw [if_neg hsettled]
        exact Execution.step_recounted (Bool.eq_false_of_not_eq_true hsettled) hstep hx
    · obtain ⟨r, rfl, rfl⟩ := interrupt_eq_ok hs
      refine ⟨by rintro t ⟨⟩, ?_⟩
      rintro x' ⟨⟩
      exact Execution.waits_recounted hstep (h.executing x hphase)

/-- **A run and its chronicle** belong together, whatever the host answers. -/
lemma Chronicled.recounted (h : Chronicled rs t block e c) : e.Recounted c := by
  induction h with
  | create =>
      refine ⟨fun _ _ => rfl, ?_⟩
      rintro x ⟨⟩
  | step before stepped ih => exact ih.step stepped
  | tell before told ih =>
      have hphase := (tell_phase told).1
      exact ⟨fun t ht => ih.validating t (hphase ▸ ht), fun x hx => ih.executing x (hphase ▸ hx)⟩

/-- What is chronicled was come to. -/
lemma Chronicled.reachable (h : Chronicled rs t block e c) : Reachable rs t block e := by
  induction h with
  | create => exact .create
  | step _ stepped ih => exact ih.step stepped
  | tell _ told ih => exact ih.tell told

/-- Every run can be chronicled. -/
lemma Reachable.exists_chronicle (h : Reachable rs t block e) :
    ∃ c, Chronicled rs t block e c := by
  induction h with
  | create => exact ⟨_, .create⟩
  | step before stepped ih =>
      obtain ⟨c, hc⟩ := ih
      exact ⟨_, hc.step stepped⟩
  | tell before told ih =>
      obtain ⟨c, hc⟩ := ih
      exact ⟨c, hc.tell told⟩

end Engine

open Engine in
/-- **What a transaction has logged** are the entries that were built by frames that ended well and
    whose ancestors all did, in the order in which they were built.  A creation has ended well only
    once its code was deposited.  Whatever the host answers, every run has a chronicle; after a
    success the logs are what survives of it, and after anything else there are none. -/
theorem logs_are_the_survivors (rs : Ruleset) (t : Transaction) (block : Header) :
    (∀ e, Reachable rs t block e → ∃ c, Chronicled rs t block e c) ∧
    (∀ e c, Chronicled rs t block e c →
      (e.status = .exitedOk → e.logs = survivors c.deeds) ∧
      (e.status ≠ .exitedOk → e.logs = [])) := by
  refine ⟨fun e h => h.exists_chronicle, fun e c h => ⟨fun hok => ?_, fun hfailed => ?_⟩⟩
  · obtain ⟨x, hx, hroot⟩ := settled_of_exitedOk hok
    have hrecounted := h.recounted.executing x (phase_of_settled hx)
    rw [h.reachable.holdsOutput.logs_of_settled hx]
    exact hrecounted.success (settled_eq_true hx) hroot
  · cases hx : e.settled? with
    | none => exact h.reachable.holdsOutput.logs_of_unsettled hx
    | some x =>
        have hrecounted := h.recounted.executing x (phase_of_settled hx)
        rw [h.reachable.holdsOutput.logs_of_settled hx]
        refine hrecounted.failure (settled_eq_true hx) fun hroot => hfailed ?_
        rw [status_of_settled hx, hroot]
        rfl

/-- Runs against a world, and chronicles what happens. -/
def Engine.chronicle (w : World) :
    (fuel : ℕ) → Engine → Chronicle → Except Fault (Engine × Chronicle)
  | 0, e, c => .ok (e, c)
  | fuel + 1, e, c =>
    if e.isExited then .ok (e, c)
    else if e.pending.isSome then
      match e.answer w false with
      | .ok e' => chronicle w fuel e' c
      | .error _ => .ok (e, c)
    else
      match e.step with
      | .ok e' => chronicle w fuel e' (c.next e e')
      | .error fault => .error fault

lemma Engine.Chronicled.run {rs : Ruleset} {t : Transaction} {block : Header} {w : World}
    {fuel : ℕ} {e e' : Engine} {c c' : Chronicle} (h : Chronicled rs t block e c)
    (hrun : e.chronicle w fuel c = .ok (e', c')) : Chronicled rs t block e' c' := by
  induction fuel generalizing e c with
  | zero =>
      cases hrun
      exact h
  | succ fuel ih =>
      simp only [Engine.chronicle] at hrun
      split at hrun
      · cases hrun
        exact h
      · split at hrun
        · split at hrun <;> rename_i hanswer
          · simp only [answer] at hanswer
            split at hanswer
            · cases hanswer
              exact ih h hrun
            · exact ih (h.tell hanswer) hrun
          · cases hrun
            exact h
        · split at hrun <;> rename_i hstep
          · exact ih (h.step hstep) hrun
          · cases hrun

/-- Code that logs an entry with one topic. -/
def noisyCode (topic : UInt8) : List UInt8 := [0x60, topic, 0x60, 0, 0x60, 0, 0xa1]

/-- Code that calls an account and drops the result. -/
def callingCode (account : UInt8) : List UInt8 :=
  [0x60, 0, 0x60, 0, 0x60, 0, 0x60, 0, 0x60, 0, 0x60, account, 0x61, 0xff, 0xff, 0xf1, 0x50]

/-- A world where one account logs and calls two others.  The first of them logs, calls the second
    and reverts. -/
def noisyWorld : World :=
  { accounts := ((((∅ : Std.TreeMap Address WorldAccount).insert 200 { balance := 1000000 }).insert
      100 { code := ⟨(noisyCode 1 ++ callingCode 101 ++ callingCode 102 ++ noisyCode 4).toArray⟩ }
      ).insert 101
        { code := ⟨(noisyCode 2 ++ callingCode 102 ++ [0x60, 0, 0x60, 0, 0xfd]).toArray⟩ }).insert
      102 { code := ⟨(noisyCode 3).toArray⟩ } }

/-- The engine that runs a call of that account, and its chronicle. -/
def noisyCallAfter (fuel : ℕ) : Except Fault (Engine × Chronicle) :=
  (Engine.create .byzantium ⟨200, 1, 200000, .call 100, 0, ByteArray.empty, 0⟩ {}).chronicle
    noisyWorld fuel {}

/-- Of five entries that were built three survive: what was logged before the revert does not. -/
theorem noisyCall_logs : ∃ e c, noisyCallAfter 90 = .ok (e, c) ∧
    (c.deeds.filterMap (Deed.kept? fun _ => true)).map (·.topics) = [[1], [2], [3], [3], [4]] ∧
      e.logs = survivors c.deeds ∧ e.logs.map (·.topics) = [[1], [3], [4]] := by
  have hend : (noisyCallAfter 90).toOption.map (fun r => (r.1.status,
      (r.2.deeds.filterMap (Deed.kept? fun _ => true)).map (·.topics), r.1.logs.map (·.topics))) =
        some (.exitedOk, [[1], [2], [3], [3], [4]], [[1], [3], [4]]) := by decide +kernel
  rcases hrun : noisyCallAfter 90 with fault | ⟨e, c⟩
  · rw [hrun] at hend
    cases hend
  · rw [hrun] at hend
    simp only [Except.toOption, Option.map_some, Option.some.injEq, Prod.mk.injEq] at hend
    obtain ⟨hok, hbuilt, hlogged⟩ := hend
    have hchronicled : Engine.Chronicled .byzantium
        ⟨200, 1, 200000, .call 100, 0, ByteArray.empty, 0⟩ {} e c := .run .create hrun
    have hsurvive := ((logs_are_the_survivors _ _ _).2 e c hchronicled).1 hok
    exact ⟨e, c, rfl, hbuilt, hsurvive, hlogged⟩

end ResumableEvm
