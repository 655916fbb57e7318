import ResumableEvm.Proofs.CallStackShape
import ResumableEvm.Proofs.StackInvariant

/-!
# The history that survives

What frames do is noted as they do it: how they begin, the instructions that they carry out, and
the code that creations deposit.  The notes of a frame that goes back well become part of those of
the frame below, and the notes of one that fails are dropped with all that it has done.  What is
left when a transaction has ended well is the history of the frames that survive: those that ended
well and whose ancestors all did.

What a frame has come to can be read off its history, for whatever follows the laws of the notes.

* `Note`, `History`, `Annals` — what is noted of a frame, and of all frames on the call stack.
* `Annals.next`, `Engine.Narrated` — what a step adds, and runs with their annals.
* `Frame.CarriesOut` — an instruction that was carried out.
* `History.Law` — what has to be shown of a reading of histories.
* `Engine.Narrated.accounted` — a reading that follows the laws is right for every frame of a run.
-/

namespace ResumableEvm

/-! ## Notes -/

/-- **What is noted of a frame.** -/
inductive Note where
  /-- It began as a call. -/
  | called (context : Context)
  /-- It began as a creation. -/
  | created (context : Context)
  /-- It was to create an account where one is in use. -/
  | collided (context : Context)
  /-- Standing so, it carried out an instruction for a charge. -/
  | did (f : Frame) (i : Instruction) (c : Frame.Charge)
  /-- Having ended so, a creation deposited its output as code. -/
  | deposited (ended paid : Frame)

/-- The notes of a frame, the first first. -/
abbrev History := List Note

/-- The histories of the frames on the call stack, that of the current one first. -/
abbrev Annals := List History

/-- Whether a status asks for a creation. -/
def FrameStatus.asksCreation : FrameStatus → Bool
  | .invokeCreate _ => true
  | _ => false

namespace Frame

/-- **The instruction that a frame is about to carry out,** and its charge: the next one, unless it
    is refused or cannot be paid for. -/
def due? (f : Frame) (chain : ChainView) : Option (Instruction × Charge) :=
  if f.status = .running ∧ (chain.ruleset.precompile? f.context.codeAddress).isNone then do
    let op ← f.machine.nextOpcode?
    let _ ← (f.check chain op).toOption
    let c ← (f.charge chain op.instruction).toOption
    let _ ← (f.afford chain.rules op.instruction c).toOption
    return (op.instruction, c)
  else none

/-- What a step of the frame adds to its history. -/
def deeds (f : Frame) (chain : ChainView) : History :=
  (f.due? chain).toList.map fun due => .did f due.1 due.2

/-- What is left of the gas of a frame that has ended. -/
def leftover (f : Frame) : Gas := f.context.gasLimit - memoryGas f.memoryWords - f.usedGas

/-- Whether the output of a creation may become code: it keeps to the limit and can be paid for. -/
def fits (f : Frame) (rs : Ruleset) : Bool :=
  !overLimit rs f.out && !decide (depositGas f.out.size > f.leftover)

/-- **An output that is dropped:** it is over the limit, but the creation does not fail for it. -/
def Drops (f : Frame) (rs : Ruleset) : Prop :=
  overLimit rs f.out = true ∧ rs.rules.forceCodeDeposit = false ∧ f.depth = 0

/-- What the deposit of a creation that has ended adds to its history. -/
def deposits (f : Frame) (chain : ChainView) : History :=
  if f.status = .exitedOk ∧ f.fits chain.ruleset then [.deposited f (f.depositCode chain).1] else []

/-- The first note of a frame that has begun. -/
def opening (f : Frame) (creation : Bool) : Note :=
  if creation then if f.status = .running then .created f.context else .collided f.context
  else .called f.context

end Frame

namespace Annals

/-- Adds notes to the history of the current frame. -/
def note (hs : Annals) (notes : History) : Annals :=
  match hs with
  | [] => []
  | h :: below => (h ++ notes) :: below

@[simp] lemma note_nil (hs : Annals) : hs.note [] = hs := by
  cases hs <;> simp only [note, List.append_nil]

/-- The current frame goes back.  If all went well its history becomes part of that of the frame
    below. -/
def leave (hs : Annals) (well : Bool) : Annals :=
  match hs with
  | h :: parent :: below => (if well then parent ++ h else parent) :: below
  | _ => hs

/-- **What a step of a call stack adds.** -/
def step (hs : Annals) (chain : ChainView) (s s' : CallStack) : Annals :=
  match s.current.status with
  | .running => hs.note (s.current.deeds chain)
  | .invokeCall _ _ _ => [s'.current.opening false] :: hs
  | .invokeCreate _ => [s'.current.opening true] :: hs
  | _ =>
    match s.waiting with
    | [] => hs
    | parent :: _ =>
      let hs := if parent.status.asksCreation then hs.note (s.current.deposits chain) else hs
      hs.leave ((parent.absorb s.current chain).2.1.status = .exitedOk)

/-- What a step of an execution adds.  The root deposits its code once, also where the settlement
    has to wait; any other step that waits will be taken again. -/
def execute (hs : Annals) (chain : ChainView) (x x' : Execution) (waits : Bool) : Annals :=
  if x.settled then hs
  else if x.calls.isExited then
    if x.depositPending && !x'.depositPending then hs.note (x.calls.root.deposits chain) else hs
  else if waits then hs
  else hs.step chain x.calls x'.calls

/-- **What a step of the engine adds.**  The root begins when the transaction is accepted. -/
def next (hs : Annals) (e e' : Engine) : Annals :=
  match e.phase, e'.phase with
  | .validating t, .executing x => [[x.calls.root.opening (t.action = .create)]]
  | .executing x, .executing x' =>
    if e.pending.isSome then hs else hs.execute e.chain x x' e'.pending.isSome
  | _, _ => hs

end Annals

/-- **A run and its annals,** whatever the host answers. -/
inductive Engine.Narrated (rs : Ruleset) (t : Transaction) (block : Header) :
    Engine → Annals → Prop where
  | create : Narrated rs t block (.create rs t block) []
  | step {e e' : Engine} {hs : Annals} (before : Narrated rs t block e hs)
      (stepped : e.step = .ok e') : Narrated rs t block e' (hs.next e e')
  | tell {e e' : Engine} {hs : Annals} {answer : Answer} (before : Narrated rs t block e hs)
      (told : e.tell answer = .ok e') : Narrated rs t block e' hs

/-- **What a run and its annals lead to,** whatever the host answers. -/
inductive Engine.Leads (e : Engine) (hs : Annals) : Engine → Annals → Prop where
  | refl : Leads e hs e hs
  | step {e' e'' : Engine} {hs' : Annals} (before : Leads e hs e' hs')
      (stepped : e'.step = .ok e'') : Leads e hs e'' (hs'.next e' e'')
  | tell {e' e'' : Engine} {hs' : Annals} {answer : Answer} (before : Leads e hs e' hs')
      (told : e'.tell answer = .ok e'') : Leads e hs e'' hs'

/-! ## Instructions that were carried out -/

namespace Frame

variable {f g : Frame} {chain : ChainView} {i : Instruction} {c : Charge}

/-- **An instruction that was carried out:** it was checked, charged and paid for, and had its
    effect when it was executed. -/
inductive CarriesOut (f : Frame) (chain : ChainView) (c : Charge) : Instruction → Frame → Prop where
  | done {g : Frame} {op : Opcode} {afterGas : Gas} {memory : Memory} {control : FrameControl}
      (running : f.status = .running) (checked : f.check chain op = .ok ())
      (charged : f.charge chain op.instruction = .ok c)
      (afforded : f.afford chain.rules op.instruction c = .ok (afterGas, memory))
      (effect : (f.withMemory memory).Effect chain c.stipend afterGas op.instruction g control)
      (next : f.machine.nextOpcode? = some op)
      (executes : ∃ done, (f.withMemory memory).execute chain c.stipend afterGas = (g, .ok done) ∧
        done.control = control) :
      CarriesOut f chain c op.instruction ((g.book c).follow control)

lemma due?_eq_some : f.due? chain = some (i, c) ↔
    f.status = .running ∧ chain.ruleset.precompile? f.context.codeAddress = none ∧
      ∃ op, f.machine.nextOpcode? = some op ∧ f.check chain op = .ok () ∧
        f.charge chain op.instruction = .ok c ∧
          (∃ left, f.afford chain.rules op.instruction c = .ok left) ∧ op.instruction = i := by
  simp only [due?, Option.ite_none_right_eq_some, Option.isNone_iff_eq_none, Option.bind_eq_bind,
    Option.bind_eq_some_iff, toOption_eq_some, Option.pure_def, Option.some.injEq, Prod.mk.injEq]
  constructor
  · rintro ⟨⟨hrunning, hcode⟩, op, hop, ⟨⟩, hcheck, c', hcharge, left, hafford, rfl, rfl⟩
    exact ⟨hrunning, hcode, op, hop, hcheck, hcharge, ⟨left, hafford⟩, rfl⟩
  · rintro ⟨hrunning, hcode, op, hop, hcheck, hcharge, ⟨left, hafford⟩, rfl⟩
    exact ⟨⟨hrunning, hcode⟩, op, hop, (), hcheck, c, hcharge, left, hafford, rfl, rfl⟩

/-- **A step of a frame** carries out the instruction that is due; where none is, the frame may end
    but does nothing else. -/
lemma step_due {event : Option Event} (h : f.step chain = (g, .ok event)) :
    f.due? chain = none ∧ f.SameTraces g ∧ (g = f ∨ g.status.isExited = true) ∨
      ∃ i c, f.due? chain = some (i, c) ∧ f.CarriesOut chain c i g := by
  cases hdue : f.due? chain with
  | none =>
      refine .inl ⟨rfl, ?_⟩
      cases step_stepped h with
      | idle => exact ⟨⟨rfl, rfl, rfl, rfl⟩, .inl rfl⟩
      | past | refused => exact ⟨⟨rfl, rfl, rfl, rfl⟩, .inr rfl⟩
      | unaffordable => exact ⟨⟨rfl, rfl, rfl, rfl⟩, .inr (FrameStatus.isExited_ofReason _)⟩
      | precompile running contract =>
          exact ⟨runPrecompile_traces f _, .inr (runPrecompile_exited f _)⟩
      | executed running code checked charged afforded effect next =>
          have hsome := due?_eq_some.mpr
            ⟨running, code, _, next, checked, charged, ⟨_, afforded⟩, rfl⟩
          cases hdue.symm.trans hsome
  | some due =>
      obtain ⟨i, c⟩ := due
      obtain ⟨hrunning, hcode, op, hop, hcheck, hcharge, ⟨⟨afterGas, memory⟩, hafford⟩, rfl⟩ :=
        due?_eq_some.mp hdue
      refine .inr ⟨_, c, rfl, ?_⟩
      simp only [step, hrunning, hcode, hop, stepAt, hcheck, hcharge, hafford, reading_ok,
        conclude] at h
      split at h
      · rename_i k done hexecute
        cases h
        have hstack : f.checkStack op.instruction = .ok () := (check_parts.mp hcheck).2.1
        exact .done hrunning hcheck hcharge hafford (execute_effect hop hstack hexecute) hop
          ⟨done, hexecute, rfl⟩
      · cases h

/-! ## Beginnings and deposits -/

/-- **How a frame begins,** and its first note. -/
inductive Opens (start : Frame) (chain : ChainView) : Note → Frame → Prop where
  | called {paid moved : Overlay}
      (pays : start.overlay.decreaseBalance start.context.caller start.context.value chain.log =
        .ok paid)
      (moves : paid.increaseBalance start.context.address start.context.value chain.log =
        .ok moved)
      (payer : start.overlay.Knows start.context.caller chain.log)
      (payee : start.overlay.Knows start.context.address chain.log) :
      Opens start chain (.called start.context)
        { start with overlay := moved.touch start.context.address }
  | created {paid moved created : Overlay}
      (vacant : start.overlay.isTaken start.context.address chain.log = .ok false)
      (pays : start.overlay.decreaseBalance start.context.caller start.context.value chain.log =
        .ok paid)
      (moves : paid.increaseBalance start.context.address start.context.value chain.log =
        .ok moved)
      (creates : moved.create start.context.address chain.log = .ok created)
      (payer : start.overlay.Knows start.context.caller chain.log)
      (payee : start.overlay.Knows start.context.address chain.log) :
      Opens start chain (.created start.context)
        { start with overlay := created.touch start.context.address }
  | collided : Opens start chain (.collided start.context) (start.fail .createCollision)

lemma opens_of_beginCall {start : Frame} (h : start.beginCall chain = (g, .ok ())) :
    start.Opens chain (g.opening false) g := by
  obtain ⟨paid, moved, hpaid, hmoved, hpayer, hpayee, rfl⟩ := beginCall_eq_ok h
  exact .called hpaid hmoved hpayer hpayee

lemma opens_of_beginCreate {start : Frame} (hr : start.status = .running)
    (h : start.beginCreate chain = (g, .ok ())) : start.Opens chain (g.opening true) g := by
  obtain ⟨hpayer, hpayee, rfl | ⟨hvacant, paid, moved, created, hpaid, hmoved, hcreated, rfl⟩⟩ :=
    beginCreate_eq_ok h
  · exact .collided
  · rw [opening, if_pos rfl, if_pos hr]
    exact .created hvacant hpaid hmoved hcreated hpayer hpayee

/-- **What becomes of the output of a creation** that has ended well. -/
inductive Disposes (f : Frame) (chain : ChainView) : Frame → Prop where
  /-- It becomes code, and is paid for. -/
  | paid {overlay : Overlay} (fits : f.fits chain.ruleset = true)
      (deposits : f.overlay.depositCode f.context.address f.out chain.log = .ok overlay) :
      Disposes f chain { f with overlay := overlay, usedGas := f.usedGas + depositGas f.out.size }
  /-- It is over the limit, and nothing is stored. -/
  | dropped (unfit : f.fits chain.ruleset = false) (drops : f.Drops chain.ruleset) :
      Disposes f chain f
  /-- It cannot be paid for, and empty code is stored in its place. -/
  | emptied {overlay : Overlay} (unfit : f.fits chain.ruleset = false)
      (deposits : f.overlay.depositCode f.context.address ByteArray.empty chain.log =
        .ok overlay) : Disposes f chain { f with overlay := overlay }
  /-- The creation fails for it. -/
  | failed {e : ExitError} (unfit : f.fits chain.ruleset = false) (final : e ≠ .reverted) :
      Disposes f chain (f.fail e)

lemma depositCode_disposes (hok : f.status = .exitedOk)
    (h : f.depositCode chain = (g, .ok ())) : f.Disposes chain g := by
  simp only [depositCode, if_pos hok] at h
  split at h
  · rename_i hover
    have hunfit : f.fits chain.ruleset = false := by simp [fits, hover]
    split at h <;> rename_i hfails <;> cases h
    · exact .failed hunfit (by simp)
    · rw [not_or, Bool.not_eq_true] at hfails
      exact .dropped hunfit ⟨hover, hfails.1, Nat.eq_zero_of_not_pos hfails.2⟩
  · rename_i hwithin
    split at h
    · rename_i hcost
      have hunfit : f.fits chain.ruleset = false := by
        have hcost' : depositGas f.out.size > f.leftover := hcost
        simp [fits, hcost']
      split at h
      · obtain ⟨overlay, hoverlay, h⟩ := attempt_eq_ok.mp h
        cases h
        exact .emptied hunfit hoverlay
      · cases h
        exact .failed hunfit (by simp)
    · rename_i hcost
      obtain ⟨overlay, hoverlay, h⟩ := attempt_eq_ok.mp h
      cases h
      refine .paid ?_ hoverlay
      have hcost' : ¬ depositGas f.out.size > f.leftover := hcost
      simp [fits, hwithin, hcost']

lemma Disposes.context (h : f.Disposes chain g) : g.context = f.context := by
  cases h <;> rfl

/-! ## Laws of the notes -/

/-- How the history of a frame opens that was asked for as a call, or as a creation. -/
def Opened (f : Frame) (creation : Bool) (h : History) : Prop :=
  if creation then
    h.head? = some (.created f.context) ∨
      h.head? = some (.collided f.context) ∧ f.status = .exitedErr .createCollision
  else h.head? = some (.called f.context)

/-- Whether the frame on top of others was asked for as a creation. -/
def asCreation (creation : Bool) : (waiting : List Frame) → Bool
  | [] => creation
  | parent :: _ => parent.status.asksCreation

/-- A frame that has not begun: all it has are the accounts and the removals it starts from. -/
def Fresh (rs : Ruleset) (start : Frame) : Prop :=
  ∃ context depth overlay removed,
    start = { create context depth overlay rs.rules with removed := removed }

end Frame

/-- **The laws of a reading of histories:** what it has to make of the notes.  A frame that has come
    to `f` since it was `start` has the history `h`. -/
structure History.Law (rs : Ruleset) (block : Header) (w : World)
    (R : CommitLog → Frame → History → Frame → Prop) : Prop where
  /-- It does not matter that more is known. -/
  grow : ∀ {log log' : CommitLog} {start f : Frame} {h : History}, log'.Tells w →
    log.Within log' → R log start h f → R log' start h f
  opens : ∀ {log : CommitLog} {start g : Frame} {note : Note}, log.Tells w → start.Fresh rs →
    start.Opens ⟨rs, block, log⟩ note g → R log start [note] g
  /-- What is not noted is without trace. -/
  same : ∀ {log : CommitLog} {start f g : Frame} {h : History}, f.SameTraces g →
    g.context = f.context → g.status.invoked? = none → R log start h f → R log start h g
  carriesOut : ∀ {log : CommitLog} {start f g : Frame} {h : History} {i : Instruction}
    {c : Frame.Charge}, log.Tells w → f.CarriesOut ⟨rs, block, log⟩ c i g → R log start h f →
      R log start (h ++ [.did f i c]) g
  deposits : ∀ {log : CommitLog} {start f : Frame} {h : History} {overlay : Overlay},
    log.Tells w → f.Solvent rs → f.status = .exitedOk → f.fits rs = true →
      h.head? = some (.created f.context) →
      f.overlay.depositCode f.context.address f.out log = .ok overlay → R log start h f →
        R log start
          (h ++ [.deposited f
            { f with overlay := overlay, usedGas := f.usedGas + Frame.depositGas f.out.size }])
          { f with overlay := overlay, usedGas := f.usedGas + Frame.depositGas f.out.size }
  empties : ∀ {log : CommitLog} {start f : Frame} {h : History} {overlay : Overlay},
    log.Tells w → f.overlay.depositCode f.context.address ByteArray.empty log = .ok overlay →
      R log start h f → R log start h { f with overlay := overlay }
  /-- A frame takes over from one that it asked for and that went well. -/
  adopts : ∀ {log : CommitLog} {start f g sub : Frame} {h h' : History},
    f.status.invoked? = some sub.context → sub.status = .exitedOk →
      (f.adopt sub ByteArray.empty).SameTraces g → g.context = f.context →
        g.status.invoked? = none → R log start h f →
          R log (f.derive sub.context rs.rules) h' sub → R log start (h ++ h') g

namespace Frame

/-- **Frames and their histories,** the current one and those that wait below it.  Each that waits
    has asked for the one above it, which started from it. -/
inductive Accounted (rules : Rules) (Starts : Frame → Prop) (creation : Bool)
    (R : Frame → History → Frame → Prop) : Frame → List Frame → Annals → Prop where
  | root {start f : Frame} {h : History} (starts : Starts start) (opened : f.Opened creation h)
      (holds : R start h f) : Accounted rules Starts creation R f [] [h]
  | sub {f parent : Frame} {rest : List Frame} {h : History} {hs : Annals}
      (asked : parent.status.invoked? = some f.context)
      (opened : f.Opened parent.status.asksCreation h)
      (holds : R (parent.derive f.context rules) h f)
      (below : Accounted rules Starts creation R parent rest hs) :
      Accounted rules Starts creation R f (parent :: rest) (h :: hs)

variable {rs : Ruleset} {block : Header} {w : World} {log log' : CommitLog}
  {R : CommitLog → Frame → History → Frame → Prop} {rules : Rules} {Starts : Frame → Prop}
  {creation : Bool} {f g parent sub : Frame} {waiting rest : List Frame} {h notes : History}
  {hs : Annals} {chain : ChainView}

/-- Notes are added at the end, and a frame that has met a collision takes no step. -/
lemma Opened.append (hf : f.Opened creation h) (hcontext : g.context = f.context)
    (hcollided : f.status = .exitedErr .createCollision →
      g.status = .exitedErr .createCollision) : g.Opened creation (h ++ notes) := by
  simp only [Opened, List.head?_append, hcontext] at hf ⊢
  split at hf
  · rw [if_pos ‹_›]
    rcases hf with hf | ⟨hf, hstatus⟩
    · exact .inl (by rw [hf]; rfl)
    · exact .inr ⟨by rw [hf]; rfl, hcollided hstatus⟩
  · rw [if_neg ‹_›, hf]
    rfl

/-- A creation that has ended well began as one. -/
lemma Opened.created (hf : f.Opened creation h) (hcreates : creation = true)
    (hok : f.status = .exitedOk) : h.head? = some (.created f.context) := by
  subst hcreates
  rcases hf with hcreated | ⟨-, hcollided⟩
  · exact hcreated
  · cases hok.symm.trans hcollided

lemma Opens.opened {start : Frame} (hopens : start.Opens chain (g.opening creation) g) :
    g.Opened creation [g.opening creation] := by
  cases creation with
  | false => rfl
  | true =>
      simp only [opening, if_true] at hopens ⊢
      split at hopens <;> rename_i hrunning
      · exact .inl (by rw [if_pos hrunning]; rfl)
      · refine .inr ⟨by rw [if_neg hrunning]; rfl, ?_⟩
        generalize hnote : Note.collided g.context = note at hopens
        cases hopens with
        | called | created => cases hnote
        | collided => rfl

namespace Accounted

variable {Q : Frame → History → Frame → Prop}

/-- The current frame does something, which is noted. -/
lemma move (hf : Accounted rules Starts creation Q f waiting hs) (hcontext : g.context = f.context)
    (hcollided : f.status = .exitedErr .createCollision →
      g.status = .exitedErr .createCollision)
    (hmove : ∀ {start h}, f.Opened (asCreation creation waiting) h → Q start h f →
      Q start (h ++ notes) g) :
    Accounted rules Starts creation Q g waiting (hs.note notes) := by
  cases hf with
  | root starts opened holds =>
      exact .root starts (opened.append hcontext hcollided) (hmove opened holds)
  | sub asked opened holds below =>
      refine .sub (hcontext ▸ asked) (opened.append hcontext hcollided) ?_ below
      rw [hcontext]
      exact hmove opened holds

/-- A frame that no other waits for was not asked for. -/
lemma alone (hf : Accounted rules Starts creation Q f [] hs) :
    ∃ start h, hs = [h] ∧ Starts start ∧ f.Opened creation h ∧ Q start h f := by
  cases hf with
  | root starts opened holds => exact ⟨_, _, rfl, starts, opened, holds⟩

lemma mono {Q' : Frame → History → Frame → Prop}
    (hf : Accounted rules Starts creation Q f waiting hs)
    (himp : ∀ {start h f}, Q start h f → Q' start h f) :
    Accounted rules Starts creation Q' f waiting hs := by
  induction hf with
  | root starts opened holds => exact .root starts opened (himp holds)
  | sub asked opened holds below ih => exact .sub asked opened (himp holds) ih

/-- The frame in a place, counted from the top, with those below it. -/
lemma drop (hf : Accounted rules Starts creation Q f waiting hs) :
    ∀ {n : ℕ} {g : Frame}, (f :: waiting)[n]? = some g →
      Accounted rules Starts creation Q g ((f :: waiting).drop (n + 1)) (hs.drop n) := by
  induction hf with
  | root starts opened holds =>
      intro n g hg
      cases n with
      | zero =>
          cases hg
          exact .root starts opened holds
      | succ n => cases hg
  | sub asked opened holds below ih =>
      intro n g hg
      cases n with
      | zero =>
          cases hg
          exact .sub asked opened holds below
      | succ n => exact ih hg

/-- The frame in a place and its history. -/
lemma place (hf : Accounted rules Starts creation Q f waiting hs) {n : ℕ} {g : Frame} {h : History}
    (hg : (f :: waiting)[n]? = some g) (hh : hs[n]? = some h) :
    ∃ start, Q start h g ∧
      ((f :: waiting)[n + 1]? = none ∧ Starts start ∨
        ∃ parent, (f :: waiting)[n + 1]? = some parent ∧
          start = parent.derive g.context rules) := by
  have hdrop := hf.drop hg
  rw [← List.head?_drop] at hh ⊢
  generalize (f :: waiting).drop (n + 1) = above, hs.drop n = hs' at hdrop hh ⊢
  cases hdrop with
  | root starts opened holds =>
      cases hh
      exact ⟨_, holds, .inl ⟨rfl, starts⟩⟩
  | sub asked opened holds below =>
      cases hh
      exact ⟨_, holds, .inr ⟨_, rfl, rfl⟩⟩

lemma length_eq (hf : Accounted rules Starts creation Q f waiting hs) :
    hs.length = waiting.length + 1 := by
  induction hf with
  | root => rfl
  | sub asked opened holds below ih => simp only [List.length_cons, ih]

/-- A creation that has ended disposes of its output. -/
lemma deposit (hf : Accounted rules Starts creation (R log) f waiting hs)
    (hlaw : History.Law rs block w R) (ht : log.Tells w) (hsolvent : f.Solvent rs)
    (hcreates : asCreation creation waiting = true)
    (hg : f.depositCode ⟨rs, block, log⟩ = (g, .ok ())) :
    Accounted rules Starts creation (R log) g waiting (hs.note (f.deposits ⟨rs, block, log⟩)) := by
  by_cases hok : f.status = .exitedOk
  · have hcollided : f.status = .exitedErr .createCollision →
        g.status = .exitedErr .createCollision := by simp [hok]
    have hdisposes := depositCode_disposes hok hg
    refine hf.move hdisposes.context hcollided fun {start h} hopened holds => ?_
    have hfirst : (f.depositCode ⟨rs, block, log⟩).1 = g := congrArg Prod.fst hg
    simp only [deposits, hok, true_and, hfirst]
    cases hdisposes with
    | paid fits deposits =>
        rw [if_pos fits]
        exact hlaw.deposits ht hsolvent hok fits (hopened.created hcreates hok) deposits holds
    | dropped unfit =>
        rw [if_neg (by simp [unfit]), List.append_nil]
        exact holds
    | emptied unfit deposits =>
        rw [if_neg (by simp [unfit]), List.append_nil]
        exact hlaw.empties ht deposits holds
    | failed unfit =>
        rw [if_neg (by simp [unfit]), List.append_nil]
        exact hlaw.same (f := f) ⟨rfl, rfl, rfl, rfl⟩ rfl rfl holds
  · rw [depositCode, if_neg hok] at hg
    cases hg
    rw [deposits, if_neg (fun h => hok h.1), Annals.note_nil]
    exact hf

/-- A frame that has ended goes back into the one that asked for it. -/
lemma back (hf : Accounted rs.rules Starts creation (R log) f (parent :: rest) hs)
    (hlaw : History.Law rs block w R) (region : Option (Word × Word)) :
    Accounted rs.rules Starts creation (R log) (parent.resume f region) rest
      (hs.leave (f.status = .exitedOk)) := by
  have hcontext := (parent.keeps_resume f region).context
  have hunasked := parent.invoked?_resume f region
  cases hf with
  | sub asked opened holds below =>
      have hcollided : parent.status = .exitedErr .createCollision →
          (parent.resume f region).status = .exitedErr .createCollision :=
        fun hstatus => absurd hstatus (ne_exitedErr_of_invoked asked _)
      rcases parent.resume_traces f region with ⟨hfailed, htraces⟩ | ⟨hok, htraces⟩
      · have hback : Accounted rs.rules Starts creation (R log) (parent.resume f region) rest
            (Annals.note _ []) := below.move hcontext hcollided
          fun _ hparent => (List.append_nil _).symm ▸ hlaw.same htraces hcontext hunasked hparent
        rw [Annals.note_nil] at hback
        cases below <;> simpa only [Annals.leave, hfailed, decide_false, Bool.false_eq_true,
          if_false] using hback
      · have hback := below.move hcontext hcollided
          fun _ hparent => hlaw.adopts asked hok htraces hcontext hunasked hparent holds
        cases below <;>
          simpa only [Annals.leave, hok, decide_true, if_true, Annals.note] using hback

/-- The current frame takes a step. -/
lemma ran {event : Option Event} (hf : Accounted rules Starts creation (R log) f waiting hs)
    (hlaw : History.Law rs block w R) (ht : log.Tells w) (hrunning : f.status = .running)
    (hstep : f.step ⟨rs, block, log⟩ = (g, .ok event)) :
    Accounted rules Starts creation (R log) g waiting (hs.note (f.deeds ⟨rs, block, log⟩)) := by
  have hcontext := (step_stepped hstep).context
  have hcollided : f.status = .exitedErr .createCollision →
      g.status = .exitedErr .createCollision := by simp [hrunning]
  refine hf.move hcontext hcollided fun {start h} _ holds => ?_
  rcases step_due hstep with ⟨hdue, htraces, hended⟩ | ⟨i, c, hdue, hcarries⟩
  · have hunasked : g.status.invoked? = none := by
      rcases hended with rfl | hexited
      · rw [hrunning]
        rfl
      · exact FrameStatus.invoked?_eq_none hexited
    rw [deeds, hdue, Option.toList_none, List.map_nil, List.append_nil]
    exact hlaw.same htraces hcontext hunasked holds
  · rw [deeds, hdue]
    exact hlaw.carriesOut ht hcarries holds

/-- The frame that the current one has asked for begins. -/
lemma enter (hf : Accounted rs.rules Starts creation (R log) f waiting hs)
    (hlaw : History.Law rs block w R) (ht : log.Tells w)
    (hasked : f.status.invoked? = some sub.context)
    (hopens : (f.derive sub.context rs.rules).Opens ⟨rs, block, log⟩
      (sub.opening f.status.asksCreation) sub) :
    Accounted rs.rules Starts creation (R log) sub (f :: waiting)
      ([sub.opening f.status.asksCreation] :: hs) :=
  .sub hasked hopens.opened
    (hlaw.opens ht ⟨sub.context, f.depth + 1, f.overlay, f.removed, rfl⟩ hopens) hf

/-- The current frame goes back, and a creation disposes of its output first. -/
lemma absorb (hf : Accounted rs.rules Starts creation (R log) f (parent :: rest) hs)
    (hlaw : History.Law rs block w R) (ht : log.Tells w) (hsolvent : f.Solvent rs)
    (habsorb : parent.absorb f ⟨rs, block, log⟩ = (g, sub, .ok ())) :
    Accounted rs.rules Starts creation (R log) g rest
      ((if parent.status.asksCreation then hs.note (f.deposits ⟨rs, block, log⟩) else hs).leave
        (sub.status = .exitedOk)) := by
  simp only [Frame.absorb] at habsorb
  split at habsorb
  · rename_i hasked
    split at habsorb <;> rename_i hdeposit <;> cases habsorb
    rw [hasked]
    have hcreates : asCreation creation (parent :: rest) = true :=
      congrArg FrameStatus.asksCreation hasked
    exact (hf.deposit hlaw ht hsolvent hcreates hdeposit).back hlaw none
  · rename_i hasked
    cases habsorb
    rw [hasked]
    exact hf.back hlaw _
  · rename_i hcreate hcall
    cases hf with
    | sub asked => cases asked.symm.trans (FrameStatus.unasked hcall hcreate)

end Accounted

end Frame

/-! ## Call stacks and executions -/

/-- What is added when a frame has ended. -/
lemma Annals.step_of_exited {hs : Annals} {chain : ChainView} {s s' : CallStack}
    (hended : s.current.status.isExited = true) :
    hs.step chain s s' =
      match s.waiting with
      | [] => hs
      | parent :: _ =>
        (if parent.status.asksCreation then hs.note (s.current.deposits chain) else hs).leave
          ((parent.absorb s.current chain).2.1.status = .exitedOk) := by
  cases hstatus : s.current.status with
  | running | invokeCall | invokeCreate =>
      rw [hstatus] at hended
      cases hended
  | exitedOk | exitedErr | exitedNotSupported => simp only [step, hstatus]

namespace CallStack

variable {rs : Ruleset} {block : Header} {w : World} {log : CommitLog} {s s' : CallStack}
  {R : CommitLog → Frame → History → Frame → Prop} {Starts : Frame → Prop} {creation : Bool}
  {hs : Annals} {budget : ℕ}

/-- The frames of a call stack and their histories. -/
def Accounted (rules : Rules) (Starts : Frame → Prop) (creation : Bool)
    (R : Frame → History → Frame → Prop) (s : CallStack) (hs : Annals) : Prop :=
  Frame.Accounted rules Starts creation R s.current s.waiting hs

/-- **A step of a call stack** and what is noted of it. -/
lemma step_accounted {event : Option Event} (hlaw : History.Law rs block w R) (ht : log.Tells w)
    (hfunded : s.Funded rs budget) (h : s.step ⟨rs, block, log⟩ = (s', .ok event))
    (hcalls : s.Accounted rs.rules Starts creation (R log) hs) :
    s'.Accounted rs.rules Starts creation (R log) (hs.step ⟨rs, block, log⟩ s s') := by
  have hstepped := step_stepped h
  simp only [step] at h
  split at h
  · rename_i hrunning
    rcases hstep : s.current.step ⟨rs, block, log⟩ with ⟨g, result⟩
    rw [hstep] at h
    cases h
    simp only [Annals.step, hrunning]
    exact hcalls.ran hlaw ht hrunning hstep
  · rename_i context _ _ hasked
    split at h <;> rename_i hbegins <;> cases h
    obtain rfl : _ = context := (Frame.beginCall_begun hbegins).context
    have hopens := Frame.opens_of_beginCall hbegins
    simp only [Annals.step, hasked]
    have henter := hcalls.enter hlaw ht (by rw [hasked]; rfl) (by rw [hasked]; exact hopens)
    rwa [hasked] at henter
  · rename_i context hasked
    split at h <;> rename_i hbegins <;> cases h
    obtain rfl : _ = context := (Frame.beginCreate_begun hbegins).context
    have hopens := Frame.opens_of_beginCreate rfl hbegins
    simp only [Annals.step, hasked]
    have henter := hcalls.enter hlaw ht (by rw [hasked]; rfl) (by rw [hasked]; exact hopens)
    rwa [hasked] at henter
  · rename_i hrunning hcall hcreate
    cases hstepped with
    | ran running => exact absurd running hrunning
    | entered asked => cases asked.symm.trans (FrameStatus.unasked hcall hcreate)
    | rested ended alone =>
        rw [Annals.step_of_exited ended, alone]
        exact hcalls
    | left ended below absorbs =>
        rw [Annals.step_of_exited ended, below]
        simp only [Accounted, below, absorbs] at hcalls ⊢
        exact hcalls.absorb hlaw ht (Frame.Funded.solvent hfunded) absorbs

end CallStack

/-- **What the root of a transaction starts from:** the caller's nonce is raised and the price of
    its gas is claimed. -/
inductive Transaction.Starts (t : Transaction) (rs : Ruleset) (w : World) : Frame → Prop where
  | root {first : CommitLog} {nonce : Word} {fresh paid : Overlay} {code : Bytes}
      (tells : first.Tells w)
      (raises : (Overlay.empty rs.rules.accounts).setNonce t.caller nonce first = .ok fresh)
      (pays : fresh.decreaseBalance t.caller t.preclaimed first = .ok paid) :
      Starts t rs w (Frame.create (t.rootContext rs.rules code) 0 paid rs.rules)

lemma Transaction.beginRoot_opens {t : Transaction} {chain : ChainView} {start root : Frame}
    (hr : start.status = .running) (h : t.beginRoot start chain = (root, .ok ())) :
    start.Opens chain (root.opening (t.action = .create)) root := by
  simp only [beginRoot] at h
  split at h <;> rename_i haction <;> simp only [haction]
  · exact Frame.opens_of_beginCall h
  · exact Frame.opens_of_beginCreate hr h

namespace Execution

variable {rs : Ruleset} {t : Transaction} {block : Header} {w : World}
  {R : CommitLog → Frame → History → Frame → Prop} {log log' : CommitLog} {hs : Annals}
  {x x' : Execution}

/-- **What an execution keeps from its beginning:** it deposits code only for a creation, and what a
    failure starts over from is the world but for the caller's nonce. -/
structure Began (t : Transaction) (rs : Ruleset) (w : World) (x : Execution) : Prop where
  creates : x.depositPending = true → t.action = .create
  fresh : ∃ (first : CommitLog) (nonce : Word), first.Tells w ∧
    (Overlay.empty rs.rules.accounts).setNonce t.caller nonce first = .ok x.fresh

/-- **An execution and its annals.**  While it is not settled its frames are accounted for.  Once it
    is, it was settled from a root that was. -/
inductive Accounted (rs : Ruleset) (t : Transaction) (block : Header) (w : World)
    (R : CommitLog → Frame → History → Frame → Prop) (log : CommitLog) (hs : Annals) :
    Execution → Prop where
  | running {x : Execution} (unsettled : x.settled = false) (began : x.Began t rs w)
      (calls : x.calls.Accounted rs.rules (t.Starts rs w) (t.action = .create) (R log) hs) :
      Accounted rs t block w R log hs x
  | settled {x : Execution} {told : CommitLog} {root : Frame} (began : x.Began t rs w)
      (tells : told.Tells w) (within : told.Within log) (alone : x.calls.waiting = [])
      (last : x.calls.Accounted rs.rules (t.Starts rs w) (t.action = .create) (R told) hs)
      (settles : x.calls.root.settle ⟨rs, block, told⟩ x.chargedGas x.transaction.preclaimed
        x.fresh block.beneficiary = (root, .ok ())) :
      Accounted rs t block w R log hs
        { x with calls := x.calls.withRoot root, settled := true }

lemma Accounted.calls (h : x.Accounted rs t block w R log hs) (hunsettled : x.settled = false) :
    x.calls.Accounted rs.rules (t.Starts rs w) (t.action = .create) (R log) hs := by
  cases h with
  | running unsettled began calls => exact calls
  | settled => cases hunsettled

lemma Accounted.began (h : x.Accounted rs t block w R log hs) : x.Began t rs w := by
  cases h with
  | running unsettled began => exact began
  | settled began => exact ⟨began.creates, began.fresh⟩

lemma Accounted.grow (h : x.Accounted rs t block w R log hs) (hlaw : History.Law rs block w R)
    (ht : log'.Tells w) (hw : log.Within log') : x.Accounted rs t block w R log' hs := by
  cases h with
  | running unsettled began calls => exact .running unsettled began (calls.mono (hlaw.grow ht hw))
  | settled began tells within alone last settles =>
      exact .settled began tells (within.trans hw) alone last settles

/-- An execution begins with its root, and a note of how it has. -/
lemma accounted_of_accept (hlaw : History.Law rs block w R) (ht : log.Tells w)
    (h : t.accept ⟨rs, block, log⟩ = .ok (.ok x)) :
    x.Accounted rs t block w R log [[x.calls.root.opening (t.action = .create)]] := by
  obtain ⟨nonce, fresh, paid, code, root, hfresh, hpaid, hroot, rfl⟩ :=
    (Transaction.accept_accepted h).begun
  have hopens := Transaction.beginRoot_opens rfl hroot
  exact .running rfl ⟨of_decide_eq_true, _, _, ht, hfresh⟩ (.root (.root ht hfresh hpaid)
    hopens.opened (hlaw.opens ht ⟨_, 0, paid, [], rfl⟩ hopens))

/-- A root that has ended disposes of its output, once. -/
lemma deposit_accounted {result : Except Requirement Unit} (hlaw : History.Law rs block w R)
    (ht : log.Tells w) (hfunded : x.Funded rs t) (hunsettled : x.settled = false)
    (halone : x.calls.waiting = []) (h : x.deposit ⟨rs, block, log⟩ = (x', result))
    (hx : x.Accounted rs t block w R log hs) :
    x'.settled = false ∧ x'.calls.waiting = [] ∧ x'.Accounted rs t block w R log
      (if x.depositPending && !x'.depositPending
        then hs.note (x.calls.root.deposits ⟨rs, block, log⟩) else hs) := by
  simp only [deposit] at h
  split at h
  · rename_i hpending
    split at h <;> rename_i hdeposit <;> cases h
    · have hcreates : Frame.asCreation (t.action = .create) x.calls.waiting = true := by
        rw [halone]
        exact decide_eq_true (hx.began.creates hpending)
      rw [root_of_alone halone] at hdeposit ⊢
      rw [if_pos (by simp [hpending])]
      exact ⟨hunsettled, halone, .running hunsettled ⟨by rintro ⟨⟩, hx.began.fresh⟩
        ((hx.calls hunsettled).deposit hlaw ht (Frame.Funded.solvent hfunded.calls) hcreates
          hdeposit)⟩
    · obtain rfl := Frame.depositCode_requires hdeposit
      rw [withRoot_root halone, if_neg (by simp [hpending])]
      exact ⟨hunsettled, halone, hx⟩
  · rename_i hdone
    cases h
    rw [if_neg (by simp [hdone])]
    exact ⟨hunsettled, halone, hx⟩

/-- A settlement changes nothing of what is to be deposited, and waits without a trace. -/
lemma settle_accounted {result : Except Requirement Unit} (ht : log.Tells w)
    (hunsettled : x.settled = false) (halone : x.calls.waiting = [])
    (h : x.settle ⟨rs, block, log⟩ = (x', result)) (hx : x.Accounted rs t block w R log hs) :
    x'.depositPending = x.depositPending ∧ x'.Accounted rs t block w R log hs := by
  simp only [settle] at h
  split at h <;> rename_i hsettle <;> cases h
  · exact ⟨rfl, .settled hx.began ht (.refl log) halone (hx.calls hunsettled) hsettle⟩
  · obtain rfl := Frame.settle_requires hsettle
    rw [withRoot_root halone]
    exact ⟨rfl, hx⟩

/-- A root that has ended disposes of its output, and the transaction is settled. -/
lemma finish_accounted {result : Except Requirement Unit} (hlaw : History.Law rs block w R)
    (ht : log.Tells w) (hfunded : x.Funded rs t) (hunsettled : x.settled = false)
    (halone : x.calls.waiting = []) (h : x.finish ⟨rs, block, log⟩ = (x', result))
    (hx : x.Accounted rs t block w R log hs) :
    x'.Accounted rs t block w R log
      (if x.depositPending && !x'.depositPending
        then hs.note (x.calls.root.deposits ⟨rs, block, log⟩) else hs) := by
  simp only [finish] at h
  split at h <;> rename_i hdeposit <;>
    obtain ⟨hunsettled', halone', hdeposited⟩ :=
      deposit_accounted hlaw ht hfunded hunsettled halone hdeposit hx
  · obtain ⟨hpending, hsettled⟩ := settle_accounted ht hunsettled' halone' h hdeposited
    rw [hpending]
    exact hsettled
  · cases h
    exact hdeposited

/-- **A step of an execution** and what is noted of it, also where it waits for a datum. -/
lemma step_accounted {result : Except Interrupt (Option Event)} {waits : Bool}
    (hlaw : History.Law rs block w R) (ht : log.Tells w) (hfunded : x.Funded rs t)
    (h : x.step ⟨rs, block, log⟩ = (x', result))
    (hfaultless : ∀ fault, result ≠ .error (.fault fault))
    (hwaits : waits = true ↔ ∃ i, result = .error i) (hx : x.Accounted rs t block w R log hs) :
    x'.Accounted rs t block w R log (hs.execute ⟨rs, block, log⟩ x x' waits) := by
  simp only [step] at h
  split at h
  · rename_i hsettled
    cases h
    rw [Annals.execute, if_pos hsettled]
    exact hx
  · rename_i hsettled
    have hunsettled := Bool.eq_false_of_not_eq_true hsettled
    split at h
    · rename_i hexited
      have halone : x.calls.waiting = [] := (CallStack.isExited_iff.mp hexited).1
      rw [Annals.execute, if_neg hsettled, if_pos hexited]
      split at h <;> rename_i hfinish <;> cases h
      · exact finish_accounted hlaw ht hfunded hunsettled halone hfinish hx
      · exact finish_accounted hlaw ht hfunded hunsettled halone hfinish hx
    · rename_i hrunning
      rw [Annals.execute, if_neg hsettled, if_neg hrunning]
      rcases hs : x.calls.step ⟨rs, block, log⟩ with ⟨calls, i | event⟩ <;> rw [hs] at h <;> cases h
      · rw [if_pos (hwaits.mpr ⟨i, rfl⟩)]
        cases i with
        | requires r =>
            obtain rfl := CallStack.step_requires hs
            exact hx
        | fault fault => exact absurd rfl (hfaultless fault)
      · have hgoes : ¬ waits = true := fun hwaiting => by
          obtain ⟨i, hi⟩ := hwaits.mp hwaiting
          cases hi
        rw [if_neg hgoes]
        exact .running hunsettled ⟨hx.began.creates, hx.began.fresh⟩
          (CallStack.step_accounted hlaw ht hfunded.calls hs (hx.calls hunsettled))

end Execution

/-! ## Runs -/

namespace Engine

variable {rs : Ruleset} {t : Transaction} {block : Header} {w : World} {e e' : Engine}
  {R : CommitLog → Frame → History → Frame → Prop} {hs : Annals}

lemma Narrated.reachable (h : Narrated rs t block e hs) : Reachable rs t block e := by
  induction h with
  | create => exact .create
  | step before stepped ih => exact ih.step stepped
  | tell before told ih => exact ih.tell told

lemma Narrated.leads {hs' : Annals} (h : Narrated rs t block e hs) (hleads : e.Leads hs e' hs') :
    Narrated rs t block e' hs' := by
  induction hleads with
  | refl => exact h
  | step before stepped ih => exact ih.step stepped
  | tell before told ih => exact ih.tell told

/-- Every run can be narrated. -/
lemma Reachable.exists_narrated (h : Reachable rs t block e) :
    ∃ hs, Narrated rs t block e hs := by
  induction h with
  | create => exact ⟨_, .create⟩
  | step before stepped ih =>
      obtain ⟨hs, hnarrated⟩ := ih
      exact ⟨_, hnarrated.step stepped⟩
  | tell before told ih =>
      obtain ⟨hs, hnarrated⟩ := ih
      exact ⟨hs, hnarrated.tell told⟩

/-- **The engine and its annals,** by a reading of histories. -/
structure Accounted (rs : Ruleset) (t : Transaction) (block : Header) (w : World)
    (R : CommitLog → Frame → History → Frame → Prop) (e : Engine) (hs : Annals) : Prop where
  chain : e.chain = ⟨rs, block, e.chain.log⟩
  validating : ∀ t', e.phase = .validating t' → t' = t
  executing : ∀ x, e.phase = .executing x → x.Accounted rs t block w R e.chain.log hs

lemma Accounted.step (h : e.Accounted rs t block w R hs) (hlaw : History.Law rs block w R)
    (ht : e.chain.log.Tells w) (hfunded : e.Funded rs t) (hstep : e.step = .ok e') :
    e'.Accounted rs t block w R (hs.next e e') := by
  have hchain : e'.chain = e.chain := (step_stepped hstep).2
  -- what remains is the phase that the engine comes to
  suffices hphase : (∀ t', e'.phase = .validating t' → t' = t) ∧
      ∀ x, e'.phase = .executing x → x.Accounted rs t block w R e.chain.log (hs.next e e') by
    refine ⟨?_, hphase.1, ?_⟩ <;> rw [hchain]
    · exact h.chain
    · exact hphase.2
  simp only [Engine.step] at hstep
  split at hstep
  · rename_i r hpending
    cases hstep
    refine ⟨h.validating, fun x hx => ?_⟩
    simp only [Annals.next, hx, hpending, Option.isSome_some, if_true]
    exact h.executing x hx
  · rename_i hpending hphase
    cases hstep
    exact ⟨h.validating, fun x hx => by cases hphase.symm.trans hx⟩
  · rename_i t' hpending hphase
    obtain rfl := h.validating t' hphase
    split at hstep
    · rename_i x haccept
      cases hstep
      refine ⟨by rintro t ⟨⟩, ?_⟩
      rintro x ⟨⟩
      rw [h.chain] at haccept
      simp only [Annals.next, hphase]
      exact Execution.accounted_of_accept hlaw ht haccept
    · cases hstep
      exact ⟨by rintro t ⟨⟩, by rintro x ⟨⟩⟩
    · obtain ⟨r, -, rfl⟩ := interrupt_eq_ok hstep
      exact ⟨h.validating, fun x hx => by cases hphase.symm.trans hx⟩
  · rename_i x hpending hphase
    have hx := h.executing x hphase
    have hbudget := hfunded.executing x hphase
    split at hstep <;> rename_i hran <;> rw [h.chain] at hran
    · cases hstep
      refine ⟨by rintro t ⟨⟩, ?_⟩
      rintro x' ⟨⟩
      simp only [Annals.next, hphase, hpending, Option.isSome_none, Bool.false_eq_true, if_false]
      rw [h.chain]
      exact Execution.step_accounted hlaw ht hbudget hran (by rintro _ ⟨⟩) (by simp) hx
    · obtain ⟨r, rfl, rfl⟩ := interrupt_eq_ok hstep
      refine ⟨by rintro t ⟨⟩, ?_⟩
      rintro x' ⟨⟩
      simp only [Annals.next, hphase, hpending, Option.isSome_none, Bool.false_eq_true, if_false]
      rw [h.chain]
      exact Execution.step_accounted hlaw ht hbudget hran (by rintro _ ⟨⟩) (by simp) hx

/-- **A reading that follows the laws** is right for every frame of a run, up to the settlement and
    whatever the host answers. -/
lemma Narrated.accounted (h : Narrated rs t block e hs) (hlaw : History.Law rs block w R)
    (ht : e.chain.log.Tells w) : e.Accounted rs t block w R hs := by
  induction h with
  | create =>
      refine ⟨rfl, ?_, ?_⟩
      · rintro t' ⟨⟩
        rfl
      · rintro x ⟨⟩
  | @step e e' hs before stepped ih =>
      rw [(step_stepped stepped).2] at ht
      exact (ih ht).step hlaw ht before.reachable.funded stepped
  | @tell e e' hs answer before told ih =>
      obtain ⟨log, hlog, hchain, -, hphase, -⟩ := tell_eq_ok told
      have hadds := CommitLog.record_adds hlog
      rw [hchain] at ht
      have hbefore : e.chain.log.Tells w := hadds.tells ht
      have hwithin : e.chain.log.Within log :=
        (hadds.coherent before.reachable.coherent).within fun _ hd => hadds.holds hd
      have hbase := ih hbefore
      refine ⟨?_, ?_, fun x hx => ?_⟩
      · rw [hchain, hbase.chain]
      · rw [hphase]
        exact hbase.validating
      · rw [hphase] at hx
        rw [hchain]
        exact (hbase.executing x hx).grow hlaw ht hwithin

/-- **After a success** one history is left, that of the root, which was settled then. -/
lemma Accounted.success (h : e.Accounted rs t block w R hs) (hok : e.status = .exitedOk) :
    ∃ x told root start h swept, e.settled? = some x ∧ told.Tells w ∧
      told.Within e.chain.log ∧ hs = [h] ∧ t.Starts rs w start ∧ R told start h root ∧
        root.status = .exitedOk ∧
          root.Settles told (x.chargedGas * root.context.gasPrice).toWord x.transaction.preclaimed
            x.fresh block.beneficiary swept ∧
            x.calls.root = { root with overlay := swept } := by
  obtain ⟨x, hx, hroot⟩ := settled_of_exitedOk hok
  cases h.executing x (phase_of_settled hx) with
  | running unsettled => cases (settled_eq_true hx).symm.trans unsettled
  | @settled y told root began tells within alone last settles =>
      rw [Execution.root_withRoot alone] at hroot
      obtain ⟨swept, hsettles, ⟨hended, rfl⟩ | ⟨hfailed, rfl⟩⟩ := Frame.settle_settles settles
      · rw [← Execution.chargedGas_settled alone (.inl rfl)] at hsettles
        have hlast := Execution.root_of_alone alone
        simp only [CallStack.Accounted, alone, ← hlast] at last
        obtain ⟨start, h, hnotes, hstarts, -, hholds⟩ := last.alone
        exact ⟨_, told, _, start, h, swept, hx, tells, within, hnotes, hstarts, hholds, hended,
          hsettles, Execution.root_withRoot alone _⟩
      · exact absurd hroot hfailed

/-- An answer is not narrated. -/
lemma Leads.answer {hs' : Annals} {e'' : Engine} {fullCode : Bool} (h : e.Leads hs e' hs')
    (ha : e'.answer w fullCode = .ok e'') : e.Leads hs e'' hs' := by
  simp only [Engine.answer] at ha
  split at ha
  · cases ha
    exact h
  · exact h.tell ha

/-- What a run with a world for a host comes to, the engine is led to. -/
lemma exists_leads_of_run {fullCode : Bool} {fuel : ℕ} (hs : Annals)
    (hrun : e.run w fullCode fuel = .ok e') : ∃ hs', e.Leads hs e' hs' :=
  run_keeps (Q := fun e' => ∃ hs', e.Leads hs e' hs')
    (fun ⟨_, hleads⟩ hstep => ⟨_, hleads.step hstep⟩)
    (fun ⟨_, hleads⟩ hanswered => ⟨_, hleads.answer hanswered⟩) ⟨hs, .refl⟩ hrun

/-- Runs against a world, and narrates it. -/
def narrate (w : World) : (fuel : ℕ) → Engine → Annals → Except Fault (Engine × Annals)
  | 0, e, hs => .ok (e, hs)
  | fuel + 1, e, hs =>
    if e.isExited then .ok (e, hs)
    else if e.pending.isSome then
      match e.answer w false with
      | .ok e' => narrate w fuel e' hs
      | .error _ => .ok (e, hs)
    else
      match e.step with
      | .ok e' => narrate w fuel e' (hs.next e e')
      | .error fault => .error fault

/-- What steps and answers keep, a narrated run keeps. -/
lemma narrate_keeps {P : Engine → Annals → Prop}
    (hstep : ∀ {e e' : Engine} {hs : Annals}, P e hs → e.step = .ok e' → P e' (hs.next e e'))
    (hanswer : ∀ {e e' : Engine} {hs : Annals}, P e hs → e.answer w false = .ok e' → P e' hs)
    {fuel : ℕ} {hs' : Annals} (he : P e hs) (hrun : e.narrate w fuel hs = .ok (e', hs')) :
    P e' hs' := by
  induction fuel generalizing e hs with
  | zero =>
      cases hrun
      exact he
  | succ fuel ih =>
      simp only [narrate] at hrun
      split at hrun
      · cases hrun
        exact he
      · split at hrun
        · split at hrun <;> rename_i hanswered
          · exact ih (hanswer he hanswered) hrun
          · cases hrun
            exact he
        · split at hrun <;> rename_i hstepped
          · exact ih (hstep he hstepped) hrun
          · cases hrun

/-- A narrated run leads where it ends, and is hosted by its world. -/
lemma leads_of_narrate {fuel : ℕ} {hs' : Annals} (he : Hosted rs t block w e)
    (hrun : e.narrate w fuel hs = .ok (e', hs')) :
    e.Leads hs e' hs' ∧ Hosted rs t block w e' := by
  exact narrate_keeps (P := fun e' hs' => e.Leads hs e' hs' ∧ Hosted rs t block w e')
    (fun h hstep => ⟨h.1.step hstep, h.2.step hstep⟩)
    (fun h hanswered => ⟨h.1.answer hanswered, h.2.answer hanswered⟩) ⟨.refl, he⟩ hrun

/-- A narrated run from the beginning has its annals. -/
lemma narrated_of_narrate {fuel : ℕ}
    (hrun : (Engine.create rs t block).narrate w fuel [] = .ok (e, hs)) :
    Narrated rs t block e hs ∧ e.chain.log.Tells w := by
  obtain ⟨hleads, hhosted⟩ := leads_of_narrate .create hrun
  exact ⟨Narrated.create.leads hleads, hhosted.grounded.tells⟩

end Engine

end ResumableEvm
