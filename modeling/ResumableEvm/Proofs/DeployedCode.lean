import ResumableEvm.Proofs.StateClearing
import ResumableEvm.Proofs.Termination

/-!
# Where code comes from

An account gets code when a creation at its address has ended well.  Its output becomes the code, if
it keeps to the limit and the gas of the creation pays for it.  So all code that a frame has and the
world has not is empty, or was deposited by a creation whose note is in the history of the frame or
of one below.

An output that does not fit leaves no code.  A creation that a frame asked for fails for it, or
stores empty code.  The creation of a transaction whose output is over the limit may succeed without
storing anything, and then its account has the code that was deposited there meanwhile, if another
creation came to the same address.

* `Frame.DepositsFor`, `History.Deploys` — code that was deposited and paid for.
* `Frame.Deploys` — what a frame has of code, read off its history.
* `Frame.Settles.code` — a settlement deposits nothing.
* `Frame.Forfeits` — what becomes of a creation that fails for its output.
* `Execution.Forgoes` — the end of a transaction whose creation has put out what does not fit.
* `deployed_code_is_paid_for` — the code of every frame, and of the final accounts.
* `dropped_output_leaves_code` — where an output over the limit leaves code all the same.
-/

namespace ResumableEvm

/-! ## Deposits -/

/-- **Code was deposited:** it is the output of a creation at that address that had ended well, it
    keeps to the limit, and 200 for each of its bytes was added to what the creation had used, which
    stays within what it was given. -/
structure Frame.DepositsFor (rs : Ruleset) (ended paid : Frame) (a : Address) (code : Bytes) :
    Prop where
  context : paid.context = ended.context
  address : ended.context.address = a
  status : ended.status = .exitedOk
  output : ended.out = code
  bounded : ∀ limit, rs.codeDepositLimit? = some limit → code.size ≤ limit
  charged : paid.usedGas.toNat = ended.usedGas.toNat + 200 * code.size
  affordable : paid.totalUsedGas.toNat ≤ paid.context.gasLimit.toNat

/-- **Code was deployed:** a frame that began as a creation has deposited it. -/
def History.Deploys (rs : Ruleset) (h : History) (a : Address) (code : Bytes) : Prop :=
  ∃ ended paid, .created ended.context ∈ h ∧ .deposited ended paid ∈ h ∧
    ended.DepositsFor rs paid a code

/-- **Code is explained:** the world has it, or it is empty or was deployed. -/
def Annals.Explains (rs : Ruleset) (w : World) (hs : Annals) (a : Address) (code : Bytes) : Prop :=
  code = w.code a ∨ code = ByteArray.empty ∨ ∃ h ∈ hs, h.Deploys rs a code

lemma History.Deploys.mono {rs : Ruleset} {h h' : History} {a : Address} {code : Bytes}
    (hd : h.Deploys rs a code) (hsub : h ⊆ h') : h'.Deploys rs a code := by
  obtain ⟨ended, paid, hcreated, hdeposited, hfor⟩ := hd
  exact ⟨ended, paid, hsub hcreated, hsub hdeposited, hfor⟩

/-- Where a creation can begin there is no code. -/
lemma Overlay.code_of_vacant {s : Overlay} {w : World} {log : CommitLog} {a : Address}
    (ht : log.Tells w) (h : s.isTaken a log = .ok false) :
    (s.view w a).code = ByteArray.empty := by
  obtain ⟨code, hcode, h⟩ := bind_eq_ok.mp h
  rw [← (s.shows_view ht a).code hcode]
  split at h
  · rename_i hnone
    exact ByteArray.size_eq_zero_iff.mp (beq_iff_eq.mp hnone)
  · cases h

/-- An account that is removed loses its code, and no other does. -/
lemma Overlay.remove_code {w : World} (s : Overlay) (b a : Address) :
    ((s.remove b).view w a).code = (s.view w a).code ∨
      ((s.remove b).view w a).code = ByteArray.empty := by
  rw [remove_view]
  by_cases hab : a = b
  · subst hab
    exact .inr (by rw [Function.update_self]; rfl)
  · exact .inl (by rw [Function.update_of_ne hab])

namespace Frame

variable {start f g sub : Frame} {h h' : History} {n : Note} {w : World} {log : CommitLog}
  {a : Address} {rs : Ruleset} {block : Header} {i : Instruction} {c : Charge}

/-- An output that fits is within the limit and can be paid for. -/
lemma depositsFor_of_fits (hsolvent : f.Solvent rs) (hok : f.status = .exitedOk)
    (hfits : f.fits rs = true) {overlay : Overlay} :
    f.DepositsFor rs { f with overlay := overlay, usedGas := f.usedGas + depositGas f.out.size }
      f.context.address f.out := by
  simp only [fits, Bool.and_eq_true, Bool.not_eq_true', decide_eq_false_iff_not] at hfits
  obtain ⟨hwithin, hleft⟩ := hfits
  refine ⟨rfl, rfl, hok, rfl, fun limit hlimit => ?_, ?_, ?_⟩
  · simpa only [overLimit, hlimit, decide_eq_false_iff_not, Nat.not_lt] using hwithin
  · -- what is left is less than the largest amount, so that no sum stops there
    have hunsaturated := hsolvent.unsaturated
    have hbounded := hsolvent.bounded
    have hcost : ¬ f.leftover.toNat < (depositGas f.out.size).toNat := hleft
    have htwo : (200 : Gas).toNat = 200 := by decide
    simp only [leftover, depositGas, limit, spent, Gas.toNat_sub, Gas.toNat_add, Gas.toNat_mul,
      Gas.toNat_ofNat, htwo] at hcost hunsaturated hbounded ⊢
    omega
  · rw [total_eq_spent (by simp [hok])]
    have hpaid : ∀ g : Frame, g.usedGas = f.usedGas + depositGas f.out.size →
        g.memoryWords = f.memoryWords → g.spent ≤ f.limit := fun g hused hwords =>
      (spent_pay hsolvent hleft hused hwords).2
    exact hpaid _ rfl rfl

/-- **The code that a frame has,** since it was `start`: that of the frame it started from, none, or
    some that was deployed.  A frame that began as a creation started where there was none. -/
structure Deploys (rs : Ruleset) (w : World) (start : Frame) (h : History) (f : Frame) : Prop where
  begun : h ≠ []
  vacant : ∀ context, h.head? = some (.created context) →
    (start.overlay.view w context.address).code = ByteArray.empty
  code : ∀ a, (f.overlay.view w a).code = (start.overlay.view w a).code ∨
    (f.overlay.view w a).code = ByteArray.empty ∨ h.Deploys rs a (f.overlay.view w a).code

namespace Deploys

/-- The frame goes on with the code it had. -/
lemma goesOn (hf : Deploys rs w start h f)
    (hcode : ∀ a, (g.overlay.view w a).code = (f.overlay.view w a).code) :
    Deploys rs w start h g :=
  ⟨hf.begun, hf.vacant, fun a => by rw [hcode]; exact hf.code a⟩

/-- Notes are added, and code that the frame did not have is empty or was deployed. -/
lemma note (hf : Deploys rs w start h f)
    (hcode : ∀ a, (g.overlay.view w a).code = (f.overlay.view w a).code ∨
      (g.overlay.view w a).code = ByteArray.empty ∨
        History.Deploys rs (h ++ h') a (g.overlay.view w a).code) :
    Deploys rs w start (h ++ h') g := by
  refine ⟨by simp [hf.begun], fun context hcreated => hf.vacant context ?_, fun a => ?_⟩
  · rwa [List.head?_append_of_ne_nil _ hf.begun] at hcreated
  · rcases hcode a with hsame | hother
    · rw [hsame]
      exact (hf.code a).imp_right fun h =>
        h.imp_right fun h => h.mono (List.subset_append_left _ _)
    · exact .inr hother

/-- A call begins with the code there was, and a creation without any. -/
lemma opens (ht : log.Tells w) (hg : start.Opens ⟨rs, block, log⟩ n g) :
    Deploys rs w start [n] g := by
  cases hg with
  | called pays moves =>
      refine ⟨by simp, by rintro _ ⟨⟩, fun a => .inl ?_⟩
      exact (Overlay.moveBalance_code ht moves a).trans (Overlay.moveBalance_code ht pays a)
  | created vacant pays moves creates =>
      refine ⟨by simp, ?_, fun a => ?_⟩
      · rintro _ ⟨⟩
        exact Overlay.code_of_vacant ht vacant
      · have hcode := Overlay.update_code_at ht creates (fun _ => rfl) a
        split at hcode
        · exact .inr (.inl hcode)
        · exact .inl (hcode.trans
            ((Overlay.moveBalance_code ht moves a).trans (Overlay.moveBalance_code ht pays a)))
  | collided => exact ⟨by simp, by rintro _ ⟨⟩, fun a => .inl rfl⟩

/-- No instruction changes code. -/
lemma carriesOut (ht : log.Tells w) (hg : f.CarriesOut ⟨rs, block, log⟩ c i g)
    (hf : Deploys rs w start h f) : Deploys rs w start (h ++ [.did f i c]) g := by
  refine hf.note fun a => .inl ?_
  cases hg with
  | @done g op afterGas memory control running checked charged afforded effect =>
      rw [(follow_traces (g.book c) control).overlay]
      generalize op.instruction = i at effect
      cases effect with
      | compute | log | call => rfl
      | store program written => exact Overlay.update_code ht written (fun _ => rfl) a
      | create program raised => exact Overlay.update_code ht raised (fun _ => rfl) a
      | destroy program pays clears =>
          exact (Overlay.moveBalance_code ht clears a).trans (Overlay.moveBalance_code ht pays a)

/-- A creation deploys its output at its address. -/
lemma deposits {overlay : Overlay} (ht : log.Tells w) (hsolvent : f.Solvent rs)
    (hok : f.status = .exitedOk) (hfits : f.fits rs = true)
    (hcreated : h.head? = some (.created f.context))
    (hdeposits : f.overlay.depositCode f.context.address f.out log = .ok overlay)
    (hf : Deploys rs w start h f) :
    Deploys rs w start
      (h ++ [.deposited f
        { f with overlay := overlay, usedGas := f.usedGas + depositGas f.out.size }])
      { f with overlay := overlay, usedGas := f.usedGas + depositGas f.out.size } := by
  refine hf.note fun a => ?_
  have hcode := Overlay.update_code_at ht hdeposits (fun _ => rfl) a
  split at hcode
  · rename_i hself
    subst hself
    refine .inr (.inr ⟨f, _, ?_, List.mem_append_right _ List.mem_cons_self, ?_⟩)
    · exact List.mem_append_left _ (List.mem_of_mem_head? hcreated)
    · rw [hcode]
      exact depositsFor_of_fits hsolvent hok hfits
  · exact .inl hcode

lemma empties {overlay : Overlay} (ht : log.Tells w)
    (hdeposits : f.overlay.depositCode f.context.address ByteArray.empty log = .ok overlay)
    (hf : Deploys rs w start h f) : Deploys rs w start h { f with overlay := overlay } := by
  rw [← List.append_nil h]
  refine hf.note fun a => ?_
  have hcode := Overlay.update_code_at ht hdeposits (fun _ => rfl) a
  split at hcode
  · exact .inr (.inl hcode)
  · exact .inl hcode

/-- A frame takes over the code of the other. -/
lemma adopts {rules : Rules} (hf : Deploys rs w start h f)
    (hsub : Deploys rs w (f.derive sub.context rules) h' sub)
    (hg : (f.adopt sub ByteArray.empty).SameTraces g) : Deploys rs w start (h ++ h') g := by
  have hoverlay : g.overlay = sub.overlay := hg.overlay
  refine hf.note fun a => ?_
  rw [hoverlay]
  exact (hsub.code a).imp_right fun h =>
    h.imp_right fun h => h.mono (List.subset_append_right _ _)

end Deploys

/-- **The code that frames have** follows the laws of the notes. -/
lemma deploys_law (rs : Ruleset) (block : Header) (w : World) :
    History.Law rs block w fun _ => Deploys rs w where
  grow _ _ h := h
  opens ht _ hg := .opens ht hg
  same htraces _ _ h := h.goesOn fun a => by rw [htraces.overlay]
  carriesOut ht hg h := h.carriesOut ht hg
  deposits ht hsolvent hok hfits hcreated hdeposits h :=
    h.deposits ht hsolvent hok hfits hcreated hdeposits
  empties ht hdeposits h := h.empties ht hdeposits
  adopts _ _ htraces _ _ h hsub := h.adopts hsub htraces

/-! ## All frames -/

/-- What a transaction starts from has the code of the world. -/
lemma code_of_starts {t : Transaction} (h : t.Starts rs w start) (a : Address) :
    (start.overlay.view w a).code = w.code a := by
  cases h with
  | root tells raises pays =>
      have hcode := (Overlay.moveBalance_code tells pays a).trans
        (Overlay.update_code tells raises (fun _ => rfl) a)
      exact hcode.trans World.view_code

/-- **All code of a frame is explained** by its history and those of the frames below. -/
lemma Accounted.explained {rules : Rules} {t : Transaction} {creation : Bool}
    {waiting : List Frame} {hs : Annals}
    (hf : Accounted rules (t.Starts rs w) creation (Deploys rs w) f waiting hs) (a : Address) :
    hs.Explains rs w a (f.overlay.view w a).code := by
  induction hf with
  | root starts opened holds =>
      rcases holds.code a with hsame | hempty | hdeployed
      · exact .inl (hsame.trans (code_of_starts starts a))
      · exact .inr (.inl hempty)
      · exact .inr (.inr ⟨_, List.mem_cons_self, hdeployed⟩)
  | @sub f parent rest h hs asked opened holds below ih =>
      rcases holds.code a with hsame | hempty | hdeployed
      · -- the code that it started with is that of the frame below
        have hparent : (f.overlay.view w a).code = (parent.overlay.view w a).code := hsame
        rw [hparent]
        exact ih.imp_right fun h => h.imp_right fun ⟨h, hmem, hdeployed⟩ =>
          ⟨h, List.mem_cons_of_mem _ hmem, hdeployed⟩
      · exact .inr (.inl hempty)
      · exact .inr (.inr ⟨_, List.mem_cons_self, hdeployed⟩)

/-- **A settlement deposits nothing:** it leaves the code of a frame that ended well, and else the
    code that there was at first, but for accounts that are removed. -/
lemma Settles.code {fee preclaimed : Word} {fresh swept : Overlay} {beneficiary : Address}
    (h : f.Settles log fee preclaimed fresh beneficiary swept) (ht : log.Tells w) (a : Address) :
    (swept.view w a).code =
        ((if f.status = .exitedOk then f.overlay else fresh).view w a).code ∨
      (swept.view w a).code = ByteArray.empty := by
  cases h with
  | @stages start refunded charged paid starts refunds charges pays sweeps =>
      have hstart : (start.view w a).code =
          ((if f.status = .exitedOk then f.overlay else fresh).view w a).code := by
        simp only [settlementStart] at starts
        split at starts <;> rename_i hended
        · cases starts
          rw [if_pos hended]
        · rw [if_neg hended]
          exact Overlay.moveBalance_code ht starts a
      have hpaid : (paid.view w a).code = (start.view w a).code :=
        (Overlay.moveBalance_code ht pays a).trans
          ((Overlay.moveBalance_code ht charges a).trans (Overlay.moveBalance_code ht refunds a))
      rw [← hstart, ← hpaid]
      have hkeeps : ∀ (s : Overlay) (b : Address),
          ((s.view w a).code = (paid.view w a).code ∨ (s.view w a).code = ByteArray.empty) →
            ((s.remove b).view w a).code = (paid.view w a).code ∨
              ((s.remove b).view w a).code = ByteArray.empty := fun s b hs =>
        (s.remove_code b a).elim (fun hsame => by rwa [hsame]) .inr
      exact sweep_keeps (Q := fun s => (s.view w a).code = (paid.view w a).code ∨
          (s.view w a).code = ByteArray.empty)
        (fun _ s hs b _ => hkeeps s b hs) (fun _ hs => hkeeps _ _ hs) sweeps (.inl rfl)

lemma settle_code {chain : ChainView} {usedGas : Gas} {preclaimed : Word} {fresh : Overlay}
    {beneficiary : Address}
    (h : f.settle chain usedGas preclaimed fresh beneficiary = (g, .ok ()))
    (ht : chain.log.Tells w) (a : Address) :
    (g.overlay.view w a).code =
        ((if f.status = .exitedOk then f.overlay else fresh).view w a).code ∨
      (g.overlay.view w a).code = ByteArray.empty := by
  obtain ⟨swept, hsettles, hsame⟩ := settle_settles h
  have hoverlay : g.overlay = swept := by
    rcases hsame with ⟨-, rfl⟩ | ⟨-, rfl⟩ <;> rfl
  rw [hoverlay]
  exact hsettles.code ht a

end Frame

/-- What a failure starts over from has the code of the world. -/
lemma Execution.Began.code {t : Transaction} {rs : Ruleset} {w : World} {x : Execution}
    (h : x.Began t rs w) (a : Address) : (x.fresh.view w a).code = w.code a := by
  obtain ⟨first, nonce, hfirst, hfresh⟩ := h.fresh
  exact (Overlay.update_code hfirst hfresh (fun _ => rfl) a).trans World.view_code

/-- **All code of an execution is explained,** that of its frames by their histories, and in the end
    that of the final accounts. -/
lemma Execution.Accounted.explained {rs : Ruleset} {t : Transaction} {block : Header} {w : World}
    {log : CommitLog} {hs : Annals} {x : Execution}
    (hx : x.Accounted rs t block w (fun _ => Frame.Deploys rs w) log hs) {n : ℕ} {f : Frame}
    (hf : (x.calls.current :: x.calls.waiting)[n]? = some f) (a : Address) :
    Annals.Explains rs w (hs.drop n) a (f.overlay.view w a).code := by
  cases hx with
  | running unsettled began calls => exact (calls.drop hf).explained a
  | @settled y told root began tells within alone last settles =>
      -- only the root is left
      obtain ⟨rfl, rfl⟩ : n = 0 ∧ f = root := by
        cases n with
        | zero => exact ⟨rfl, (Option.some.inj hf).symm⟩
        | succ n =>
            simp only [CallStack.withRoot, alone] at hf
            cases hf
      have hroot : hs.Explains rs w a (y.calls.root.overlay.view w a).code := by
        rw [root_of_alone alone]
        exact Frame.Accounted.explained last a
      rw [List.drop_zero]
      rcases Frame.settle_code settles tells a with hkept | hempty
      · rw [hkept]
        split
        · exact hroot
        · exact .inl (began.code a)
      · exact .inr (.inl hempty)

/-! ## Outputs that do not fit -/

namespace Frame

variable {f g parent sub : Frame} {chain : ChainView} {rules : Rules}

lemma Deposited.poised (h : f.Deposited chain g) (hf : f.Poised rules) : g.Poised rules := by
  cases h with
  | skipped => exact hf
  | failed => exact exit_poised hf.memoryLimit
  | empty | paid => exact ⟨hf.memoryLimit, hf.result, hf.region⟩

/-- **A creation is forfeited:** the frame that asked for it goes on over the accounts it had, with
    zero for a result, and all the gas that the creation was given counts as used. -/
structure Forfeits (ended parent after : Frame) : Prop where
  running : after.status = .running
  result : after.machine.stack.items.head? = some 0
  charged : after.usedGas.toNat = parent.usedGas.toNat + ended.context.gasLimit.toNat
  overlay : after.overlay = parent.overlay

/-- What the frame that goes on has of its own. -/
lemma Outlives.result (h : f.Outlives sub g) (hstack : f.machine.stack.items ≠ []) :
    g.status = .running ∧ g.machine.stack.items.head? = some 0 ∧ g.overlay = f.overlay := by
  obtain ⟨top, rest, hitems⟩ := List.exists_cons_of_ne_nil hstack
  cases h with
  | error | revertedCreate | revertedCall =>
      exact ⟨rfl, by simp [afterFailure, hitems], rfl⟩

/-- **A creation whose output does not fit** leaves no code at its address, and is forfeited if it
    fails for it. -/
lemma Accounted.absorb_unfit {rs : Ruleset} {t : Transaction} {block : Header} {w : World}
    {log : CommitLog} {creation : Bool} {context : Context} {rest : List Frame} {hs : Annals}
    {budget : ℕ}
    (hf : Accounted rs.rules (t.Starts rs w) creation (Deploys rs w) f (parent :: rest) hs)
    (ht : log.Tells w) (hpoised : parent.Poised rs.rules)
    (hfunded : Funded rs budget f (parent :: rest)) (hdepth : f.depth ≠ 0)
    (hok : f.status = .exitedOk) (hunfit : f.fits rs = false)
    (hasked : parent.status = .invokeCreate context)
    (habsorb : parent.absorb f ⟨rs, block, log⟩ = (g, sub, .ok ())) :
    (g.overlay.view w f.context.address).code = ByteArray.empty ∧
      (sub.status ≠ .exitedOk → f.Forfeits parent g) := by
  have hvacant : (parent.overlay.view w f.context.address).code = ByteArray.empty := by
    cases hf with
    | sub asked opened holds =>
        exact holds.vacant _ (opened.created (congrArg FrameStatus.asksCreation hasked) hok)
  have hinvoked : parent.status.invoked? = some context := congrArg FrameStatus.invoked? hasked
  have habsorbed := absorb_absorbed habsorb
  simp only [Frame.absorb, hasked] at habsorb
  split at habsorb <;> rename_i hdeposit <;> cases habsorb
  cases depositCode_disposes hok hdeposit with
  | paid fits => cases fits.symm.trans hunfit
  | dropped unfit drops => exact absurd drops.2.2 hdepth
  | @emptied overlay unfit deposits =>
      refine ⟨?_, fun hfailed => absurd hok hfailed⟩
      rcases parent.resume_traces { f with overlay := overlay } none with
        ⟨hfailed, -⟩ | ⟨-, htraces⟩
      · exact absurd hok hfailed
      · have hoverlay : (parent.resume { f with overlay := overlay } none).overlay = overlay :=
          htraces.overlay
        rw [hoverlay, Overlay.update_code_at ht deposits (fun _ => rfl), if_pos rfl]
        rfl
  | @failed e unfit final =>
      have houtlives := habsorbed.outlives hpoised hinvoked rfl
      obtain ⟨hrunning, hresult, hoverlay⟩ := houtlives.result (hpoised.result _ hinvoked)
      have htotal : (f.fail e).totalUsedGas = f.context.gasLimit := by
        cases e <;> first | rfl | exact absurd rfl final
      refine ⟨by rw [hoverlay, hvacant], fun _ => ⟨hrunning, hresult, ?_, hoverlay⟩⟩
      rw [houtlives.usedGas, hfunded.toNat_absorbed habsorbed, htotal]

end Frame

/-- Frames of a run are in order, whatever they are told. -/
lemma CallStack.ordered_kept (rs : Ruleset) (block : Header) (w : World) :
    Kept rs block w fun _ s => s.Ordered rs.rules where
  grow _ _ hs := hs
  step _ hstepped hs := hstepped.ordered hs
  deposit _ _ hdeposited hs :=
    ⟨List.forall_mem_cons.mpr ⟨hdeposited.poised (hs.poised _ List.mem_cons_self),
      fun f hf => hs.poised f (List.mem_cons_of_mem _ hf)⟩, hs.asking⟩

lemma CallStack.ordered_of_accept {t : Transaction} {chain : ChainView} {start : Execution}
    (h : t.accept chain = .ok (.ok start)) : start.calls.Ordered chain.rules := by
  obtain ⟨nonce, fresh, paid, code, root, -, -, hroot, rfl⟩ :=
    (Transaction.accept_accepted h).begun
  exact .ofRoot rfl rfl (Transaction.beginRoot_begun hroot)

/-! ## The creation of a transaction -/

namespace Execution

variable {rs : Ruleset} {t : Transaction} {block : Header} {w : World} {log : CommitLog}
  {a : Address} {dropped : Prop} {x x' : Execution}

/-- **The root has ended with an output that does not fit,** or has disposed of it since.  Unless
    the output is dropped, the account at its address is left without code. -/
inductive Forgoes (rs : Ruleset) (w : World) (a : Address) (dropped : Prop) :
    Execution → Prop where
  | pending {x : Execution} (unsettled : x.settled = false) (ended : x.calls.isExited = true)
      (fresh : (x.fresh.view w a).code = ByteArray.empty) (pending : x.depositPending = true)
      (ok : x.calls.root.status = .exitedOk) (address : x.calls.root.context.address = a)
      (unfit : x.calls.root.fits rs = false) (drops : x.calls.root.Drops rs → dropped) :
      Forgoes rs w a dropped x
  | disposed {x : Execution} (unsettled : x.settled = false) (ended : x.calls.isExited = true)
      (fresh : (x.fresh.view w a).code = ByteArray.empty) (done : x.depositPending = false)
      (bare : dropped ∨ (x.calls.root.status = .exitedOk →
        (x.calls.root.overlay.view w a).code = ByteArray.empty)) :
      Forgoes rs w a dropped x
  | settled {x : Execution} (settled : x.settled = true)
      (bare : dropped ∨ (x.calls.root.overlay.view w a).code = ByteArray.empty) :
      Forgoes rs w a dropped x

/-- A root that has ended with such an output began where there was no code. -/
lemma Accounted.forgoes {hs : Annals}
    (hx : x.Accounted rs t block w (fun _ => Frame.Deploys rs w) log hs)
    (hunsettled : x.settled = false) (hended : x.calls.isExited = true)
    (hpending : x.depositPending = true) (hok : x.calls.root.status = .exitedOk)
    (hunfit : x.calls.root.fits rs = false) :
    w.code x.calls.root.context.address = ByteArray.empty ∧
      x.Forgoes rs w x.calls.root.context.address (x.calls.root.Drops rs) := by
  have halone : x.calls.waiting = [] := (CallStack.isExited_iff.mp hended).1
  have hvacant : w.code x.calls.root.context.address = ByteArray.empty := by
    have hcalls := hx.calls hunsettled
    rw [root_of_alone halone] at hok ⊢
    rw [CallStack.Accounted, halone] at hcalls
    obtain ⟨start, h, -, hstarts, hopened, hholds⟩ := hcalls.alone
    rw [← Frame.code_of_starts hstarts]
    exact hholds.vacant _ (hopened.created (decide_eq_true (hx.began.creates hpending)) hok)
  exact ⟨hvacant, .pending hunsettled hended ((hx.began.code _).trans hvacant) hpending hok rfl
    hunfit id⟩

lemma Forgoes.final (h : x.Forgoes rs w a dropped) (hsettled : x.settled = true) :
    dropped ∨ (x.calls.root.overlay.view w a).code = ByteArray.empty := by
  cases h with
  | pending unsettled | disposed unsettled => cases hsettled.symm.trans unsettled
  | settled settled bare => exact bare

/-- Where the deposit has to wait nothing has changed. -/
lemma deposit_forgoes {result : Except Requirement Unit} (ht : log.Tells w)
    (hunsettled : x.settled = false) (h : x.deposit ⟨rs, block, log⟩ = (x', result))
    (hx : x.Forgoes rs w a dropped) :
    x'.Forgoes rs w a dropped ∧ x'.settled = false ∧
      (result = .ok () → x'.depositPending = false) := by
  cases hx with
  | settled settled => cases settled.symm.trans hunsettled
  | disposed unsettled ended fresh done bare =>
      rw [deposit, if_neg (by simp [done])] at h
      cases h
      exact ⟨.disposed unsettled ended fresh done bare, unsettled, fun _ => done⟩
  | pending unsettled ended fresh pending ok address unfit drops =>
      obtain ⟨halone, hexited⟩ := CallStack.isExited_iff.mp ended
      have hwound := deposit_windsUp halone hexited h
      rw [deposit, if_pos pending] at h
      split at h <;> rename_i hdeposit <;> cases h
      · refine ⟨.disposed unsettled hwound.isExited fresh rfl ?_, unsettled, fun _ => rfl⟩
        rw [root_withRoot halone]
        subst address
        cases Frame.depositCode_disposes ok hdeposit with
        | paid fits => cases fits.symm.trans unfit
        | dropped unfit hdrops => exact .inl (drops hdrops)
        | emptied unfit deposits =>
            refine .inr fun _ => ?_
            rw [Overlay.update_code_at ht deposits (fun _ => rfl), if_pos rfl]
            rfl
        | failed unfit => exact .inr (by rintro ⟨⟩)
      · obtain rfl := Frame.depositCode_requires hdeposit
        rw [withRoot_root halone]
        exact ⟨.pending unsettled ended fresh pending ok address unfit drops, unsettled,
          by rintro ⟨⟩⟩

lemma settle_forgoes {result : Except Requirement Unit} (ht : log.Tells w)
    (hunsettled : x.settled = false) (hdone : x.depositPending = false)
    (h : x.settle ⟨rs, block, log⟩ = (x', result)) (hx : x.Forgoes rs w a dropped) :
    x'.Forgoes rs w a dropped := by
  cases hx with
  | settled settled => cases settled.symm.trans hunsettled
  | pending unsettled ended fresh pending => cases pending.symm.trans hdone
  | disposed unsettled ended fresh done bare =>
      have halone : x.calls.waiting = [] := (CallStack.isExited_iff.mp ended).1
      rw [settle] at h
      split at h <;> rename_i hsettle <;> cases h
      · refine .settled rfl (bare.imp_right fun hbare => ?_)
        rw [root_withRoot halone]
        rcases Frame.settle_code hsettle ht a with hkept | hempty
        · rw [hkept]
          split <;> rename_i hended
          · exact hbare hended
          · exact fresh
        · exact hempty
      · obtain rfl := Frame.settle_requires hsettle
        rw [withRoot_root halone]
        exact .disposed unsettled ended fresh done bare

/-- The output is disposed of and the transaction is settled, or the one or the other waits. -/
lemma finish_forgoes {result : Except Requirement Unit} (ht : log.Tells w)
    (hunsettled : x.settled = false) (h : x.finish ⟨rs, block, log⟩ = (x', result))
    (hx : x.Forgoes rs w a dropped) : x'.Forgoes rs w a dropped := by
  rw [finish] at h
  split at h <;> rename_i hdeposit
  · obtain ⟨hx', hunsettled', hdone⟩ := deposit_forgoes ht hunsettled hdeposit hx
    exact settle_forgoes ht hunsettled' (hdone rfl) h hx'
  · cases h
    exact (deposit_forgoes ht hunsettled hdeposit hx).1

lemma step_forgoes {result : Except Interrupt (Option Event)} (ht : log.Tells w)
    (h : x.step ⟨rs, block, log⟩ = (x', result)) (hx : x.Forgoes rs w a dropped) :
    x'.Forgoes rs w a dropped := by
  simp only [step] at h
  split at h
  · cases h
    exact hx
  · rename_i hunsettled
    rw [Bool.not_eq_true] at hunsettled
    have hended : x.calls.isExited = true := by
      cases hx with
      | pending unsettled ended | disposed unsettled ended => exact ended
      | settled settled => cases settled.symm.trans hunsettled
    rw [if_pos hended] at h
    split at h <;> rename_i hran <;> cases h <;> exact finish_forgoes ht hunsettled hran hx

/-- Nothing is noted of it. -/
lemma Forgoes.execute (hx : x.Forgoes rs w a dropped) {chain : ChainView}
    (hchain : chain.ruleset = rs) {waits : Bool} (hs : Annals) :
    hs.execute chain x x' waits = hs := by
  cases hx with
  | settled settled => rw [Annals.execute, if_pos settled]
  | pending unsettled ended fresh pending ok address unfit drops =>
      have hnone : x.calls.root.deposits chain = [] := by
        rw [Frame.deposits, hchain, if_neg (by simp [unfit])]
      rw [Annals.execute, if_neg (by simp [unsettled]), if_pos ended, hnone, Annals.note_nil,
        ite_self]
  | disposed unsettled ended fresh done =>
      rw [Annals.execute, if_neg (by simp [unsettled]), if_pos ended, if_neg (by simp [done])]

end Execution

namespace Engine

variable {rs : Ruleset} {t : Transaction} {block : Header} {w : World} {e e' : Engine}
  {hs hs' : Annals} {a : Address} {dropped : Prop}

/-- **An output that does not fit** is disposed of and leaves no note. -/
lemma Leads.forgoes (h : e.Leads hs e' hs') (hchain : e.chain = ⟨rs, block, e.chain.log⟩)
    (ht : e'.chain.log.Tells w) {x : Execution} (hx : e.phase = .executing x)
    (hforgoes : x.Forgoes rs w a dropped) :
    hs' = hs ∧ e'.chain = ⟨rs, block, e'.chain.log⟩ ∧
      ∃ x', e'.phase = .executing x' ∧ x'.Forgoes rs w a dropped := by
  induction h with
  | refl => exact ⟨rfl, hchain, x, hx, hforgoes⟩
  | @step e' e'' hs' before stepped ih =>
      obtain ⟨hstepped, hsame⟩ := step_stepped stepped
      rw [hsame] at ht ⊢
      obtain ⟨rfl, hchain', x', hx', hforgoes'⟩ := ih ht
      have hphase : ∃ x'', e''.phase = .executing x'' ∧ x''.Forgoes rs w a dropped := by
        cases hstepped with
        | rested phase => exact ⟨x', phase.trans hx', hforgoes'⟩
        | rejected validating | accepted validating => cases hx'.symm.trans validating
        | ran running steps faultless phase =>
            cases hx'.symm.trans running
            rw [hchain'] at steps
            exact ⟨_, phase, Execution.step_forgoes ht steps hforgoes'⟩
      refine ⟨?_, hchain', hphase⟩
      obtain ⟨x'', hx'', -⟩ := hphase
      simp only [Annals.next, hx', hx'', hforgoes'.execute (congrArg (·.ruleset) hchain'), ite_self]
  | @tell e' e'' hs' answer before told ih =>
      obtain ⟨log, hlog, hchain', -, hphase, -⟩ := tell_eq_ok told
      rw [hchain'] at ht ⊢
      obtain ⟨rfl, hsame, x', hx', hforgoes'⟩ := ih ((CommitLog.record_adds hlog).tells ht)
      exact ⟨rfl, by rw [hsame], x', hphase.trans hx', hforgoes'⟩

end Engine

open Engine in
/-- **Deployed code is bounded and paid for.**  Whatever the host answers, every run has annals, and
    while the log agrees with a world this holds of its frames, up to the settlement and after it.
    Code that a frame has and the world has not is empty, or was deployed by a creation that is in
    the history of the frame or of one below: it is what the creation put out, keeps to the limit,
    and is paid for with 200 for each byte, within the gas of the creation.  An output that does not
    fit leaves no code.  The frame that asked for the creation finds none at its address, and where
    the creation fails for it gets zero and uses all gas that it gave.  The account that a
    transaction was to create has none in the end, unless its output was dropped for being over the
    limit: then it may have what a creation at the same address has deployed meanwhile. -/
theorem deployed_code_is_paid_for (rs : Ruleset) (t : Transaction) (block : Header) :
    (∀ e, Reachable rs t block e → ∃ hs, Narrated rs t block e hs) ∧
    (∀ e hs w x, Narrated rs t block e hs → e.chain.log.Tells w → e.phase = .executing x →
      (∀ (n : ℕ) (f : Frame) (a : Address), (x.calls.current :: x.calls.waiting)[n]? = some f →
        (f.overlay.view w a).code ≠ w.code a →
          (f.overlay.view w a).code = ByteArray.empty ∨
            ∃ h ∈ hs.drop n, h.Deploys rs a (f.overlay.view w a).code) ∧
      (∀ parent rest context s' event, x.settled = false → x.calls.waiting = parent :: rest →
        parent.status = .invokeCreate context → x.calls.current.status = .exitedOk →
        x.calls.current.fits rs = false → x.calls.step e.chain = (s', .ok event) →
          s'.waiting = rest ∧
          (s'.current.overlay.view w x.calls.current.context.address).code = ByteArray.empty ∧
          ∃ sub, parent.absorb x.calls.current e.chain = (s'.current, sub, .ok ()) ∧
            (sub.status ≠ .exitedOk → x.calls.current.Forfeits parent s'.current)) ∧
      (x.settled = false → x.calls.isExited = true → x.depositPending = true →
        x.calls.root.status = .exitedOk → x.calls.root.fits rs = false →
        ∀ e' hs' x', e.Leads hs e' hs' → e'.chain.log.Tells w → e'.phase = .executing x' →
          x'.settled = true →
            (x'.calls.root.overlay.view w x.calls.root.context.address).code = ByteArray.empty ∨
              x.calls.root.Drops rs ∧ ∃ h ∈ hs, h.Deploys rs x.calls.root.context.address
                (x'.calls.root.overlay.view w x.calls.root.context.address).code)) := by
  refine ⟨fun e h => h.exists_narrated, fun e hs w x hnarrated ht hx => ?_⟩
  have haccounted := hnarrated.accounted (Frame.deploys_law rs block w) ht
  have hexecution := haccounted.executing x hx
  refine ⟨fun n f a hf hdiffers => ?_, ?_, ?_⟩
  · rcases hexecution.explained hf a with hsame | hexplained
    · exact absurd hsame hdiffers
    · exact hexplained
  · intro parent rest context s' event hunsettled hbelow hasked hok hunfit hstep
    have hcalls := hexecution.calls hunsettled
    have hpoised : parent.Poised rs.rules :=
      ((hnarrated.reachable.upholds ht (CallStack.ordered_kept rs block w)
        fun _ => CallStack.ordered_of_accept).executing x hx |>.calls hunsettled).poised parent
          (List.mem_cons_of_mem _ (hbelow ▸ List.mem_cons_self))
    have hfunded := (hnarrated.reachable.funded.executing x hx).calls
    have hdepth : x.calls.current.depth ≠ 0 := by
      rw [(hnarrated.reachable.orderly hx).nested.depth, hbelow]
      exact Nat.succ_ne_zero _
    rw [CallStack.Accounted, hbelow] at hcalls
    rw [CallStack.Funded, hbelow] at hfunded
    cases CallStack.step_stepped hstep with
    | ran running => cases hok.symm.trans running
    | entered invoked => cases (congrArg FrameStatus.invoked? hok).symm.trans invoked
    | rested ended alone => cases hbelow.symm.trans alone
    | left ended below absorbs =>
        cases hbelow.symm.trans below
        have habsorbs := absorbs
        rw [haccounted.chain] at habsorbs
        obtain ⟨hnone, hforfeits⟩ :=
          hcalls.absorb_unfit ht hpoised hfunded hdepth hok hunfit hasked habsorbs
        exact ⟨rfl, hnone, _, absorbs, hforfeits⟩
  · intro hunsettled hended hpending hok hunfit e' hs' x' hleads ht' hx' hsettled
    obtain ⟨hvacant, hforgoes⟩ := hexecution.forgoes hunsettled hended hpending hok hunfit
    obtain ⟨rfl, -, y, hy, hforgone⟩ := hleads.forgoes haccounted.chain ht' hx hforgoes
    cases hx'.symm.trans hy
    have hfinal := hforgone.final hsettled
    -- once it is settled the root is the only frame
    have hleft := hnarrated.leads hleads
    have halone := (CallStack.isExited_iff.mp ((hleft.reachable.orderly hx').ended hsettled)).1
    rw [Execution.root_of_alone halone] at hfinal ⊢
    rcases ((hleft.accounted (Frame.deploys_law rs block w) ht').executing x' hx').explained
      (n := 0) rfl x.calls.root.context.address with hsame | hempty | hdeployed
    · exact .inl (hsame.trans hvacant)
    · exact .inl hempty
    · exact hfinal.symm.imp_right fun hdrops => ⟨hdrops, hdeployed⟩

/-- Whether something is noted of the deposit of code. -/
def Note.isDeposit : Note → Bool
  | .deposited _ _ => true
  | _ => false

/-- An account that destroyed itself has not the code that it had, and nothing was deposited. -/
lemma crumblingCall_run : ∃ e h x, crumblingCallAfter 120 = .ok (e, [h]) ∧
    e.phase = .executing x ∧ (∀ note ∈ h, note.isDeposit = false) ∧
      (x.calls.current.overlay.view crumblingWorld 101).code ≠ crumblingWorld.code 101 := by
  have hend : (crumblingCallAfter 120).toOption.bind (fun r => r.1.settled?.map fun x =>
      (r.2.map (·.any Note.isDeposit),
        decide ((x.calls.current.overlay.view crumblingWorld 101).code =
          crumblingWorld.code 101))) = some ([false], false) := by decide +kernel
  simp only [Option.bind_eq_some_iff, Option.map_eq_some_iff, toOption_eq_some, Prod.mk.injEq,
    Prod.exists, List.map_eq_singleton_iff, List.any_eq_false, Bool.not_eq_true,
    decide_eq_false_iff_not] at hend
  obtain ⟨e, _, hrun, x, hx, ⟨h, rfl, hnone⟩, hdiffers⟩ := hend
  exact ⟨e, h, x, hrun, Engine.phase_of_settled hx, hnone, hdiffers⟩

/-- Code that creates an account, whose creation puts out so many bytes. -/
def deployingCode (len : UInt8) : List UInt8 :=
  [0x64, 0x60, len, 0x60, 0, 0xf3, 0x60, 0, 0x52, 0x60, 5, 0x60, 27, 0x60, 0, 0xf0, 0x50]

/-- A world with an account that creates two others, with code of one byte and of two. -/
def deployingWorld : World :=
  { accounts := ((∅ : Std.TreeMap Address WorldAccount).insert 200 {}).insert
      100 { code := ⟨(deployingCode 1 ++ deployingCode 2).toArray⟩ } }

/-- The engine that runs a call of it where code is to be of one byte, and its annals. -/
def deployingCallAfter (fuel : ℕ) : Except Fault (Engine × Annals) :=
  (Engine.create recreatingRuleset ⟨200, 0, 200000, .call 100, 0, ByteArray.empty, 0⟩ {}).narrate
    deployingWorld fuel []

/-- The first creation has left its byte.  The second has ended well with two, which do not fit, and
    fails for them in the next step. -/
lemma deployingCall_run : ∃ e hs x parent a, deployingCallAfter 33 = .ok (e, hs) ∧
    e.phase = .executing x ∧ x.settled = false ∧ x.calls.waiting = [parent] ∧
      (parent.overlay.view deployingWorld a).code ≠ deployingWorld.code a ∧
        (parent.overlay.view deployingWorld a).code.data = #[0] ∧
          (∃ context, parent.status = .invokeCreate context) ∧
            x.calls.current.status = .exitedOk ∧ x.calls.current.fits recreatingRuleset = false ∧
              (∃ s' event, x.calls.step e.chain = (s', .ok event)) ∧
                (parent.absorb x.calls.current e.chain).2.1.status ≠ .exitedOk := by
  let a : Address := 0x86c56c43a1d19b06d54971c467bad4b25e4ef59e
  have hend : (deployingCallAfter 33).toOption.bind (fun r => r.1.phase.execution?.bind fun x =>
      x.calls.waiting.head?.map fun parent =>
        (decide (x.settled = false ∧ x.calls.waiting.length = 1 ∧
            parent.status.asksCreation = true ∧ x.calls.current.status = .exitedOk ∧
            x.calls.current.fits recreatingRuleset = false ∧
            (x.calls.step r.1.chain).2.toOption.isSome = true ∧
            (parent.absorb x.calls.current r.1.chain).2.1.status ≠ .exitedOk ∧
            (parent.overlay.view deployingWorld a).code ≠ deployingWorld.code a),
          (parent.overlay.view deployingWorld a).code.data)) = some (true, #[0]) := by
    decide +kernel
  simp only [Option.bind_eq_some_iff, Option.map_eq_some_iff, toOption_eq_some, Prod.mk.injEq,
    Prod.exists, Phase.execution?_eq_some, decide_eq_true_eq, Option.isSome_iff_exists] at hend
  obtain ⟨e, hs, hrun, x, hx, parent, hparent,
    ⟨hunsettled, hlength, hasks, hok, hunfit, ⟨event, hevent⟩, hfails, hdiffers⟩, hcode⟩ := hend
  have hbelow : x.calls.waiting = [parent] := by
    obtain ⟨f, hf⟩ := List.length_eq_one_iff.mp hlength
    rw [hf] at hparent ⊢
    cases hparent
    rfl
  have hasked : ∃ context, parent.status = .invokeCreate context := by
    cases hstatus : parent.status with
    | invokeCreate context => exact ⟨context, rfl⟩
    | _ => rw [hstatus] at hasks; cases hasks
  exact ⟨e, hs, x, parent, a, hrun, hx, hunsettled, hbelow, hdiffers, hcode, hasked, hok, hunfit,
    ⟨_, event, Prod.ext rfl hevent⟩, hfails⟩

/-- **Code that is deployed, given up and lost.**  Where one byte is the limit, a creation deploys
    its byte, while the next is forfeited for its two.  And an account that destroyed itself has no
    code any more, where no other was deployed. -/
theorem deployingCall_deploys_what_fits :
    (∃ e hs x parent a g sub, deployingCallAfter 33 = .ok (e, hs) ∧ e.phase = .executing x ∧
      x.calls.waiting = [parent] ∧ (parent.overlay.view deployingWorld a).code.data = #[0] ∧
        (∃ h ∈ hs.drop 1,
          h.Deploys recreatingRuleset a (parent.overlay.view deployingWorld a).code) ∧
            x.calls.current.fits recreatingRuleset = false ∧
              parent.absorb x.calls.current e.chain = (g, sub, .ok ()) ∧
                x.calls.current.Forfeits parent g) ∧
    ∃ e h x, crumblingCallAfter 120 = .ok (e, [h]) ∧ e.phase = .executing x ∧
      (x.calls.current.overlay.view crumblingWorld 101).code ≠ crumblingWorld.code 101 ∧
        (x.calls.current.overlay.view crumblingWorld 101).code = ByteArray.empty := by
  constructor
  · obtain ⟨e, hs, x, parent, a, hrun, hx, hunsettled, hbelow, hdiffers, hcode, ⟨context, hasked⟩,
      hok, hunfit, ⟨s', event, hstep⟩, hfails⟩ := deployingCall_run
    obtain ⟨hnarrated, htells⟩ := Engine.narrated_of_narrate hrun
    obtain ⟨hcodes, hforfeits, -⟩ :=
      (deployed_code_is_paid_for _ _ _).2 e hs deployingWorld x hnarrated htells hx
    have hparent : (x.calls.current :: x.calls.waiting)[1]? = some parent := by rw [hbelow]; rfl
    have hdeployed := (hcodes 1 parent a hparent hdiffers).resolve_left fun hempty => by
      rw [hempty] at hcode
      cases hcode
    obtain ⟨-, -, sub, habsorbs, hforfeited⟩ :=
      hforfeits parent [] context s' event hunsettled hbelow hasked hok hunfit hstep
    rw [habsorbs] at hfails
    exact ⟨e, hs, x, parent, a, s'.current, sub, hrun, hx, hbelow, hcode, hdeployed, hunfit,
      habsorbs, hforfeited hfails⟩
  · obtain ⟨e, h, x, hrun, hx, hnone, hdiffers⟩ := crumblingCall_run
    obtain ⟨hnarrated, htells⟩ := Engine.narrated_of_narrate hrun
    refine ⟨e, h, x, hrun, hx, hdiffers, ?_⟩
    rcases ((deployed_code_is_paid_for _ _ _).2 e [h] crumblingWorld x hnarrated htells hx).1
      0 x.calls.current 101 rfl hdiffers with hempty | ⟨h', hmem, ended, paid, -, hdeposited, -⟩
    · exact hempty
    · obtain rfl := List.mem_singleton.mp hmem
      cases hnone _ hdeposited

open Engine in
/-- **An output that is dropped may leave code.**  The creation of the transaction ends well, with
    an output over the limit.  But its caller has been created anew meanwhile, has gone through the
    same nonce again, and so has deployed a byte at the very address. -/
theorem dropped_output_leaves_code : ∃ e hs x e' hs' x',
    Narrated recreatingRuleset recreatingTransaction {} e hs ∧ e.phase = .executing x ∧
      x.settled = false ∧ x.calls.isExited = true ∧ x.depositPending = true ∧
        x.calls.root.status = .exitedOk ∧ x.calls.root.fits recreatingRuleset = false ∧
          e.Leads hs e' hs' ∧ e'.chain.log.Tells recreatingWorld ∧
            e'.phase = .executing x' ∧ x'.settled = true ∧
              (x'.calls.root.overlay.view recreatingWorld
                x.calls.root.context.address).code.data = #[0] := by
  obtain ⟨e, x, e', x', code, hrun, hx, ⟨hunsettled, hended, hpending, hok, hover⟩, hlater, hx',
    hread, hcode⟩ := recreating_run
  obtain ⟨hs, hleads⟩ := exists_leads_of_run [] hrun
  obtain ⟨hs', hleads'⟩ := exists_leads_of_run hs hlater
  have hunfit : x.calls.root.fits recreatingRuleset = false := by
    simp only [Frame.fits, hover, Bool.not_true, Bool.false_and]
  have ht := ((Hosted.create.run hrun).run hlater).grounded.tells
  refine ⟨e, hs, x, e', hs', x', Narrated.create.leads hleads, hx, hunsettled, hended, hpending,
    hok, hunfit, hleads', ht, phase_of_settled hx', settled_eq_true hx', ?_⟩
  rw [← (Overlay.shows_view ht _).code hread]
  exact hcode

end ResumableEvm
