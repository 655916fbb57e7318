import ResumableEvm.Proofs.KeptOutput
import ResumableEvm.Proofs.Replay

/-!
# The changes of a run

Every frame of a hosted run keeps its overlay anchored in the log, and so does the settlement.  The
changes that the engine reports in the end are therefore exact: a host that replays them on its
world comes to what the engine says of every account and every slot, and none of them is idle.

* `Frame.anchored_kept` — frames keep their overlays anchored.
* `Frame.Settles.anchored` — so does a settlement.
* `Engine.Hosted.anchored`, `Engine.Hosted.replay_view` — what a settled run says of the accounts.
* `changes_are_exact` — the changes of a run, replayed.
-/

namespace ResumableEvm

/-! ## Frames -/

namespace Frame

variable {rs : Ruleset} {block : Header} {w : World} {rules : AccountRules} {chain : ChainView}
  {log : CommitLog} {f g : Frame} {i : Instruction} {stipend afterGas : Gas}
  {control : FrameControl}

lemma Effect.anchored (h : f.Effect chain stipend afterGas i g control) (hd : f.HasData chain i)
    (hs : f.overlay.Anchored rules chain.log) : g.overlay.Anchored rules chain.log := by
  cases h with
  | compute | log | call => exact hs
  | store program written => exact hs.writeStorage hd.2 written
  | create program raised result => exact hs.setNonce raised
  | destroy program pays clears aims =>
      have htarget := aims ▸ hd.2
      exact ((hs.moveBalance htarget pays).moveBalance (hd.1.of_moveBalance htarget pays)
        clears).touch _

lemma Stepped.anchored (h : f.Stepped chain g) (hs : f.overlay.Anchored rules chain.log) :
    g.overlay.Anchored rules chain.log := by
  cases h with
  | idle | past | refused | unaffordable => exact hs
  | precompile running contract => exact (runPrecompile_traces f _).overlay ▸ hs
  | executed running code checked charged afforded effect =>
      rw [(follow_same _ _).2.2.2.1]
      have hd := hasData_of_checkKnown (check_parts.mp checked).2.2.2.2
      exact effect.anchored (hd.congr (by rfl) (by rfl) (by rfl)) hs

lemma Begun.anchored (h : f.Begun chain g) (hs : f.overlay.Anchored rules chain.log) :
    g.overlay.Anchored rules chain.log := by
  cases h with
  | call pays moves payer payee =>
      exact ((hs.moveBalance payer pays).moveBalance (payee.of_moveBalance payer pays)
        moves).touch _
  | create pays moves creates payer payee =>
      exact (((hs.moveBalance payer pays).moveBalance (payee.of_moveBalance payer pays)
        moves).create creates).touch _
  | collision => exact hs

lemma Deposited.anchored (h : f.Deposited chain g) (hs : f.overlay.Anchored rules chain.log) :
    g.overlay.Anchored rules chain.log := by
  cases h with
  | skipped | failed => exact hs
  | empty ended deposits => exact hs.depositCode deposits
  | paid ended affordable deposits => exact hs.depositCode deposits

/-- **Frames keep their overlays anchored.** -/
lemma anchored_kept (rs : Ruleset) (block : Header) (w : World) (rules : AccountRules) :
    Kept rs block w fun log f => f.overlay.Anchored rules log where
  grow _ hw h := h.within hw
  step _ hs h := hs.anchored h
  enter _ _ hb h := hb.anchored h
  deposit _ hd h := hd.anchored h
  resume {log f sub} region h hsub := by
    rcases f.resume_overlay sub region with heq | heq <;> rw [heq] <;> assumption

/-! ## Settlements -/

lemma settlementStart_anchored {preclaimed : Word} {fresh start : Overlay}
    (h : f.settlementStart preclaimed fresh log = .ok start)
    (hcaller : fresh.Knows f.context.caller log) (hf : f.overlay.Anchored rules log)
    (hfresh : fresh.Anchored rules log) : start.Anchored rules log := by
  simp only [settlementStart] at h
  split at h
  · cases h
    exact hf
  · exact hfresh.moveBalance hcaller h

/-- **A settlement keeps overlays anchored,** if the caller is known. -/
lemma Settles.anchored {fee preclaimed : Word} {fresh swept : Overlay} {beneficiary : Address}
    (h : f.Settles log fee preclaimed fresh beneficiary swept) (ht : log.Tells w)
    (hcaller : ∀ s : Overlay, s.Knows f.context.caller log)
    (hf : f.overlay.Anchored rules log) (hfresh : fresh.Anchored rules log) :
    swept.Anchored rules log := by
  cases h with
  | @stages start refunded charged paid starts refunds charges pays sweeps =>
      have hstart := settlementStart_anchored starts (hcaller fresh) hf hfresh
      have hcharged : charged.Anchored rules log :=
        (hstart.moveBalance (hcaller _) refunds).moveBalance (hcaller _) charges
      exact sweep_keeps (Q := fun s => s.Anchored rules log) (fun _ s hs a _ => hs.remove a)
        (fun _ hs => hs.remove _) sweeps (hcharged.increaseBalance ht pays).1

end Frame

/-! ## The accounts of a run -/

namespace Transaction

variable {rs : Ruleset} {t : Transaction} {block : Header} {first log : CommitLog}
  {start : Execution}

/-- What a failure starts over from is anchored. -/
lemma fresh_anchored (h : t.accept ⟨rs, block, first⟩ = .ok (.ok start)) :
    start.fresh.Anchored rs.rules.accounts first := by
  obtain ⟨nonce, -, hfresh⟩ := (accept_accepted h).raised
  exact (Overlay.Anchored.empty _ first).setNonce hfresh

/-- The caller was asked for, so it is known ever after. -/
lemma caller_known (h : t.accept ⟨rs, block, first⟩ = .ok (.ok start)) (hw : first.Within log)
    (s : Overlay) : s.Knows t.caller log := by
  obtain ⟨balance, hknown, -⟩ := (accept_accepted h).validated
  rcases Overlay.knows_iff.mp hknown with ⟨account, he⟩ | he | ⟨known, hk⟩
  · simp [Overlay.empty] at he
  · simp [Overlay.empty] at he
  · exact Overlay.knows_iff.mpr (.inr (.inr ⟨known, hw.account hk⟩))

lemma root_anchored (h : t.accept ⟨rs, block, first⟩ = .ok (.ok start)) :
    start.calls.root.overlay.Anchored rs.rules.accounts first := by
  obtain ⟨-, -, -, paid, code, hpaid, hbegun⟩ := accept_begins h
  exact hbegun.anchored
    ((fresh_anchored h).moveBalance (caller_known h (.refl first) start.fresh) hpaid)

end Transaction

namespace Engine

variable {rs : Ruleset} {t : Transaction} {block : Header} {w : World} {e : Engine}
  {x : Execution}

namespace SettledFrom

variable {P : CommitLog → Frame → Prop} {log first told : CommitLog} {start : Execution}
  {root : Frame}

/-- The caller is known to the settlement. -/
lemma knows_caller (h : SettledFrom rs t block w P log x first told start root) (s : Overlay) :
    s.Knows root.context.caller told := by
  rw [h.caller]
  exact Transaction.caller_known h.accepts h.since s

lemma fresh_anchored (h : SettledFrom rs t block w P log x first told start root) :
    start.fresh.Anchored rs.rules.accounts told :=
  (Transaction.fresh_anchored h.accepts).within h.since

end SettledFrom

/-- All overlays of a run are grounded and anchored. -/
lemma Hosted.anchored_frames (h : Hosted rs t block w e) : e.Kept rs t block w fun log f =>
    f.overlay.Grounded log ∧ f.overlay.Anchored rs.rules.accounts log :=
  h.kept ((Frame.grounded_kept rs block w).and (Frame.anchored_kept rs block w rs.rules.accounts))
    (fun h => h.1) fun _ haccept =>
      ⟨Transaction.root_grounded haccept, Transaction.root_anchored haccept⟩

/-- The final accounts of a run are anchored. -/
lemma Hosted.anchored (h : Hosted rs t block w e) (hx : e.settled? = some x) :
    x.calls.root.overlay.Anchored rs.rules.accounts e.chain.log := by
  obtain ⟨first, told, start, root, hfrom⟩ := h.anchored_frames.settled hx
  exact (hfrom.settles.anchored hfrom.tells hfrom.knows_caller hfrom.last.2
    hfrom.fresh_anchored).within hfrom.within

/-- What is settled was not rejected. -/
lemma status_ne_invalid (hx : e.settled? = some x) (r : Rejection) :
    e.status ≠ .exitedInvalid r := by
  rw [status_of_settled hx]
  cases x.calls.root.status <;> simp [EngineStatus.ofFrame]

/-- **The changes of a run, replayed,** lead to its final accounts. -/
lemma Hosted.replay_view (h : Hosted rs t block w e) (hx : e.settled? = some x) :
    (w.replay rs.rules.accounts e.changes).view rs.rules.accounts =
      x.calls.root.overlay.view w := by
  rw [h.reachable.holdsOutput.changes_of_settled hx]
  exact (h.anchored hx).replay_view h.grounded.tells

end Engine

/-- **Changes are complete, exact and minimal.**  For every world that answers a run: what the
    engine holds of the accounts in the end reads, at every address and every slot, as the world
    does once the reported changes have been replayed on it; a transaction that was rejected
    reports none.  The changes come by strictly ascending address.  An account that is replaced
    differs from the committed one in nonce, code or a slot, and so does every slot that comes with
    it; a balance that is moved is moved by something; and what was committed as nonexistent is not
    removed. -/
theorem changes_are_exact {rs : Ruleset} {t : Transaction} {block : Header} {w : World}
    {e : Engine} (h : Engine.Hosted rs t block w e) :
    (∀ x, e.settled? = some x → ∀ full : CommitLog, full.Tells w → full.Complete → ∀ a,
      x.calls.root.overlay.Reads full a
        ((w.replay rs.rules.accounts e.changes).view rs.rules.accounts a)) ∧
    (∀ r, e.status = .exitedInvalid r → e.changes = []) ∧
    e.changes.Pairwise (fun c d => c.address < d.address) ∧
    (∀ r, .full r ∈ e.changes → ∃ old, w.accounts[r.address]? = some old ∧
      (r.nonce ≠ old.nonce ∨ r.code ≠ old.code ∨
        ∃ index value : Word, r.storage[index]? = some value) ∧
      ∀ index value : Word, r.storage[index]? = some value → value ≠ w.slot r.address index) ∧
    (∀ a value, .increaseBalance a value ∈ e.changes ∨ .decreaseBalance a value ∈ e.changes →
      value ≠ 0) ∧
    (∀ a, .removed a ∈ e.changes → e.chain.log.accounts[a]? ≠ some .nonexistent) := by
  have htells := h.grounded.tells
  have houtput := h.reachable.holdsOutput
  cases hx : e.settled? with
  | none =>
      rw [houtput.changes_of_unsettled hx]
      refine ⟨fun x hx' => (nomatch hx'), fun _ _ => rfl, .nil, fun r hr => ?_,
        fun a value hr => ?_, fun a hr => ?_⟩
      · cases hr
      · rcases hr with hr | hr <;> cases hr
      · cases hr
  | some x =>
      have hanchored := h.anchored hx
      refine ⟨fun x' hx' full hfull hc a => ?_, fun r hr => ?_, ?_, fun r hr => ?_,
        fun a value hr => ?_, fun a hr => ?_⟩
      · cases hx'
        rw [h.replay_view hx]
        exact Overlay.reads_view hc hfull a
      · exact absurd hr (Engine.status_ne_invalid hx r)
      all_goals rw [houtput.changes_of_settled hx] at *
      · exact Overlay.changes_ascending _ _
      · exact hanchored.full_change htells hr
      · exact Overlay.Anchored.balance_change hr
      · exact (Overlay.Anchored.removed_change hr).2

/-- A world with a caller and an account that writes a slot and stops. -/
def storeWorld : World :=
  { accounts := ((∅ : Std.TreeMap Address WorldAccount).insert 200
      { balance := 1000000 }).insert 300
      { code := ⟨#[0x60, 9, 0x60, 7, 0x55, 0x00]⟩, storage := (∅ : SlotMap).insert 7 8 } }

/-- A transaction that calls that account and pays for its gas. -/
def storeCall : Transaction := ⟨200, 1, 100000, .call 300, 0, ByteArray.empty, 0⟩

/-- The engine after some steps and answers. -/
def storeCallAfter (fuel : ℕ) : Except Fault Engine :=
  (Engine.create .byzantium storeCall {}).run storeWorld false fuel

/-- The beneficiary, the caller and the account have changed, and the changes lead to just what the
    engine says of all accounts. -/
theorem storeCall_changes : ∃ e x, storeCallAfter 30 = .ok e ∧ e.settled? = some x ∧
    e.changes.map (·.address) = [0, 200, 300] ∧
      ∀ full : CommitLog, full.Tells storeWorld → full.Complete → ∀ a,
        x.calls.root.overlay.Reads full a
          ((storeWorld.replay Ruleset.byzantium.rules.accounts e.changes).view
            Ruleset.byzantium.rules.accounts a) := by
  have hend : (storeCallAfter 30).toOption.map
      (fun e => (e.settled?.isSome, e.changes.map (·.address))) = some (true, [0, 200, 300]) := by
    decide +kernel
  rcases hrun : storeCallAfter 30 with fault | e
  · rw [hrun] at hend
    cases hend
  · rw [hrun] at hend
    obtain ⟨hsettled, hchanged⟩ := Prod.mk.inj (Option.some.inj hend)
    obtain ⟨x, hx⟩ := Option.isSome_iff_exists.mp hsettled
    have hhosted : Engine.Hosted .byzantium storeCall {} storeWorld e := .run .create hrun
    exact ⟨e, x, rfl, hx, hchanged, (changes_are_exact hhosted).1 x hx⟩

end ResumableEvm
