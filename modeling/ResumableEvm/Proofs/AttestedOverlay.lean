import ResumableEvm.Proofs.ExactChanges

/-!
# Overlays attested by the log

A frame asks for an account before it writes to it, so whatever its overlay holds is held of an
account that the log was told of, and so is whatever has destroyed itself.  Two logs that both bear
an overlay out therefore agree on what the accounts in it were before; and where one of them was not
told of an account, the overlay has nothing to say of that account.

* `Overlay.Attested` — whatever is held is held of accounts that were told.
* `Overlay.Attested.update`, `Overlay.Attested.moveBalance` and so on — writes keep it.
* `Frame.attested_kept` — frames keep it.
-/

namespace ResumableEvm

variable {log log' : CommitLog} {a b : Address} {value : Word}

/-- **An overlay is attested by a log** that was told of every account it holds anything of. -/
def Overlay.Attested (s : Overlay) (log : CommitLog) : Prop :=
  ∀ (a : Address) (entry : AccountEntry), s.entries[a]? = some entry → log.Answers (.account a)

namespace Overlay.Attested

variable {s s' : Overlay}

lemma empty (rules : AccountRules) (log : CommitLog) : (Overlay.empty rules).Attested log := by
  intro a entry he
  simp [Overlay.empty] at he

lemma within (hs : s.Attested log) (hw : log.Within log') : s.Attested log' :=
  fun a entry he => hw.answers (hs a entry he)

/-- To an attested overlay only those accounts are known that the log was told of. -/
lemma answers (hs : s.Attested log) (hk : s.Knows a log) : log.Answers (.account a) := by
  rcases knows_iff.mp hk with ⟨account, he⟩ | he | htold
  · exact hs a _ he
  · exact hs a _ he
  · exact htold

/-- Of an account that the log was not told of nothing is held. -/
lemma unheld (hs : s.Attested log) (ha : ¬ log.Answers (.account a)) : s.entries[a]? = none := by
  cases he : s.entries[a]? with
  | none => rfl
  | some entry => exact absurd (hs a entry he) ha

/-! ## Writing -/

lemma insert {entry : AccountEntry} (hs : s.Attested log) (ha : log.Answers (.account a)) :
    Overlay.Attested { s with entries := s.entries.insert a entry } log := by
  intro b held hb
  rcases entry_of_insert hb with ⟨rfl, -⟩ | hb
  · exact ha
  · exact hs b held hb

lemma touch (hs : s.Attested log) (a : Address) : (s.touch a).Attested log := hs

lemma update {f : LiveAccount → LiveAccount} (hs : s.Attested log)
    (h : s.update a log f = .ok s') : s'.Attested log := by
  obtain ⟨account, hl, rfl⟩ := update_eq_ok.mp h
  exact hs.insert (hs.answers ⟨account, hl⟩)

lemma moveBalance {first : Word → BalanceShift} {shift : BalanceShift → Word → BalanceShift}
    {change : Word → Word → Word} (hs : s.Attested log) (hk : s.Knows a log)
    (h : s.moveBalance a value log first shift change = .ok s') : s'.Attested log := by
  rw [hk.moveBalance_eq] at h
  split at h
  · cases h
    exact hs
  · exact hs.update h

end Overlay.Attested

/-! ## Frames -/

/-- **A frame is attested by a log** if its overlay is, and the log was told of all accounts that
    have destroyed themselves. -/
structure Frame.Attested (log : CommitLog) (f : Frame) : Prop where
  held : f.overlay.Attested log
  removed : ∀ a ∈ f.removed, log.Answers (.account a)

namespace Frame

variable {rs : Ruleset} {block : Header} {w : World} {chain : ChainView} {f g : Frame}
  {i : Instruction} {stipend afterGas : Gas} {control : FrameControl}

lemma Attested.of_traces (h : f.Attested log) (ht : f.SameTraces g) : g.Attested log :=
  ⟨ht.overlay ▸ h.held, ht.removed ▸ h.removed⟩

lemma Effect.attested (h : f.Effect chain stipend afterGas i g control) (hd : f.HasData chain i)
    (hf : f.Attested chain.log) : g.Attested chain.log := by
  cases h with
  | compute | log | call => exact ⟨hf.held, hf.removed⟩
  | store program written => exact ⟨hf.held.update written, hf.removed⟩
  | create program raised => exact ⟨hf.held.update raised, hf.removed⟩
  | destroy program pays clears aims holds remains lists =>
      have htarget := aims ▸ hd.2
      have hself := hd.1.of_moveBalance htarget pays
      refine ⟨((hf.held.moveBalance htarget pays).moveBalance hself clears).touch _, ?_⟩
      subst lists
      intro a ha
      split at ha
      · exact hf.removed a ha
      · rcases List.mem_append.mp ha with ha | ha
        · exact hf.removed a ha
        · rw [List.mem_singleton.mp ha]
          exact hf.held.answers hd.1

lemma Stepped.attested (h : f.Stepped chain g) (hf : f.Attested chain.log) :
    g.Attested chain.log := by
  cases h with
  | idle | past | refused | unaffordable => exact hf.of_traces ⟨rfl, rfl, rfl, rfl⟩
  | precompile running contract => exact hf.of_traces (runPrecompile_traces f _)
  | @executed ran op c afterGas memory control running code checked charged afforded effect =>
      have hd := hasData_of_checkKnown (check_parts.mp checked).2.2.2.2
      have hran := effect.attested (hd.congr (by rfl) (by rfl) (by rfl)) ⟨hf.held, hf.removed⟩
      have hbooked : (ran.book c).Attested chain.log := ⟨hran.held, hran.removed⟩
      exact hbooked.of_traces (follow_traces _ _)

lemma Begun.attested (h : f.Begun chain g) (hf : f.Attested chain.log) : g.Attested chain.log := by
  cases h with
  | call pays moves payer payee =>
      have hpayee := payee.of_moveBalance payer pays
      exact ⟨((hf.held.moveBalance payer pays).moveBalance hpayee moves).touch _, hf.removed⟩
  | create pays moves creates payer payee =>
      have hpayee := payee.of_moveBalance payer pays
      exact ⟨(((hf.held.moveBalance payer pays).moveBalance hpayee moves).update creates).touch _,
        hf.removed⟩
  | collision => exact hf.of_traces ⟨rfl, rfl, rfl, rfl⟩

lemma Deposited.attested (h : f.Deposited chain g) (hf : f.Attested chain.log) :
    g.Attested chain.log := by
  cases h with
  | skipped | failed => exact hf.of_traces ⟨rfl, rfl, rfl, rfl⟩
  | empty ended deposits => exact ⟨hf.held.update deposits, hf.removed⟩
  | paid ended affordable deposits => exact ⟨hf.held.update deposits, hf.removed⟩

/-- **Frames stay attested.** -/
lemma attested_kept (rs : Ruleset) (block : Header) (w : World) : Kept rs block w Attested where
  grow _ hw h := ⟨h.held.within hw, fun a ha => hw.answers (h.removed a ha)⟩
  step _ hs h := hs.attested h
  enter _ _ hb h := hb.attested ⟨h.held, h.removed⟩
  deposit _ hd h := hd.attested h
  resume {log f sub} region h hsub := by
    rcases f.resume_traces sub region with ⟨-, htraces⟩ | ⟨-, htraces⟩
    · exact h.of_traces htraces
    · have hadopted : (f.adopt sub ByteArray.empty).Attested log := ⟨hsub.held, hsub.removed⟩
      exact hadopted.of_traces htraces

end Frame

/-! ## The beginning of a transaction -/

namespace Transaction

variable {rs : Ruleset} {t : Transaction} {block : Header} {start : Execution}

lemma fresh_attested (h : t.accept ⟨rs, block, log⟩ = .ok (.ok start)) :
    start.fresh.Attested log := by
  obtain ⟨nonce, -, hfresh⟩ := (accept_accepted h).raised
  exact (Overlay.Attested.empty _ log).update hfresh

lemma root_attested (h : t.accept ⟨rs, block, log⟩ = .ok (.ok start)) :
    start.calls.root.Attested log := by
  obtain ⟨-, -, -, paid, code, hpaid, hbegun⟩ := accept_begins h
  have hcaller := caller_known h (.refl log) start.fresh
  refine hbegun.attested ⟨(fresh_attested h).moveBalance hcaller hpaid, ?_⟩
  intro a ha
  cases ha

end Transaction

end ResumableEvm
