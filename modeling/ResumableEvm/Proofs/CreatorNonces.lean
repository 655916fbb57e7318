import ResumableEvm.Proofs.Creations
import ResumableEvm.Proofs.StateClearing

/-!
# Nonces of creators

An account that creates others counts them with its nonce.  It goes up in the frame that asks for
the creation, so it stays up if the new frame fails.  A new account starts with a nonce of its own,
but only where the nonce is still the first, and an account that destroys itself keeps its nonce
until the transaction is settled.  So nonces never go down in a history that survives, and a creator
never uses one twice in it.

* `Overlay.NoncesGrow` — no nonce goes down.
* `Moment`, `History.moments` — the accounts as a history has seen them, and the nonces that go up.
* `Overlay.Rises` — nonces that rise through such moments.
* `Frame.Counts` — what a frame says of nonces, read off its history.
* `CallStack.step_nonces` — what one step does to them.
* `creator_nonces_only_grow` — nonces in every run.
-/

namespace ResumableEvm

/-! ## Nonces that grow -/

/-- A new account has no lower nonce than one that nothing has happened to. -/
def AccountRules.StartsAhead (rules : AccountRules) : Prop :=
  rules.initialNonce.toNat ≤ rules.createdNonce.toNat

/-- **No nonce goes down.** -/
def Overlay.NoncesGrow (w : World) (s s' : Overlay) : Prop :=
  ∀ a, (s.view w a).nonce.toNat ≤ (s'.view w a).nonce.toNat

namespace Overlay

variable {s s' t : Overlay} {w : World} {log : CommitLog} {a : Address} {value : Word}

namespace NoncesGrow

lemma refl (w : World) (s : Overlay) : s.NoncesGrow w s := fun _ => le_rfl

lemma of_eq (h : s' = s) : s.NoncesGrow w s' := h ▸ refl w s

lemma trans (h : s.NoncesGrow w s') (h' : s'.NoncesGrow w t) : s.NoncesGrow w t :=
  fun a => (h a).trans (h' a)

/-- A write that leaves the nonce as it is. -/
lemma update (ht : log.Tells w) {f : LiveAccount → LiveAccount}
    (h : s.update a log f = .ok s') (hf : ∀ account, (f account).nonce = account.nonce) :
    s.NoncesGrow w s' := fun b =>
  (congrArg BitVec.toNat (update_read ht AccountView.nonce (fun _ => rfl) h hf b)).ge

/-- That an account takes part does not change its nonce. -/
lemma touch (h : s.NoncesGrow w s') : s.NoncesGrow w (s'.touch a) := h

end NoncesGrow

lemma moveBalance_nonce (ht : log.Tells w) {first : Word → BalanceShift}
    {shift : BalanceShift → Word → BalanceShift} {change : Word → Word → Word}
    (h : s.moveBalance a value log first shift change = .ok s') (b : Address) :
    (s'.view w b).nonce = (s.view w b).nonce := by
  obtain ⟨balance, hview⟩ := moveBalance_view ht h
  rw [hview]
  by_cases hab : b = a
  · subst hab
    rw [Function.update_self]
  · rw [Function.update_of_ne hab]

lemma NoncesGrow.moveBalance (ht : log.Tells w) {first : Word → BalanceShift}
    {shift : BalanceShift → Word → BalanceShift} {change : Word → Word → Word}
    (h : s.moveBalance a value log first shift change = .ok s') : s.NoncesGrow w s' :=
  fun b => (congrArg BitVec.toNat (moveBalance_nonce ht h b)).ge

/-- An account begins with a nonce of its own, where its nonce was the first. -/
lemma NoncesGrow.create (ht : log.Tells w) (hrules : s.rules.StartsAhead)
    (hfirst : (s.view w a).nonce = s.rules.initialNonce) (h : s.create a log = .ok s') :
    s.NoncesGrow w s' := by
  obtain ⟨account, -, hview⟩ := update_view ht h
  intro b
  rw [hview]
  by_cases hab : b = a
  · subst hab
    rw [Function.update_self, hfirst]
    exact hrules
  · rw [Function.update_of_ne hab]

/-- Code that is stored changes neither nonces nor rules. -/
lemma depositCode_nonces (ht : log.Tells w) {code : Bytes} (h : s.depositCode a code log = .ok s') :
    s.NoncesGrow w s' ∧ s'.rules = s.rules :=
  ⟨.update ht h fun _ => rfl, (Continues.update ht h).rules⟩

/-- An account that is not in use has the first nonce. -/
lemma nonce_of_vacant (ht : log.Tells w) (h : s.isTaken a log = .ok false) :
    (s.view w a).nonce = s.rules.initialNonce := by
  obtain ⟨code, -, h⟩ := bind_eq_ok.mp h
  split at h
  · obtain ⟨nonce, hnonce, h⟩ := bind_eq_ok.mp h
    rw [← (s.shows_view ht a).nonce hnonce]
    by_contra hne
    have htaken : decide (nonce ≠ s.rules.initialNonce) = true := decide_eq_true hne
    cases h.symm.trans (congrArg _ htaken)
  · cases h

end Overlay

/-- **The accounts at a moment,** and the creator whose nonce goes up then. -/
structure Moment where
  overlay : Overlay
  raises : Option Address

/-- A moment at which no nonce goes up. -/
def Moment.still (s : Overlay) : Moment := ⟨s, none⟩

/-- The nonces of a moment come before those of an overlay. -/
def Moment.Precedes (w : World) (m : Moment) (s : Overlay) : Prop :=
  ∀ a, (m.overlay.view w a).nonce.toNat + (if m.raises = some a then 1 else 0) ≤
    (s.view w a).nonce.toNat

/-- **The nonces of a moment come before those of another:** none is higher, and one that goes up is
    lower. -/
def Moment.Before (w : World) (m m' : Moment) : Prop := m.Precedes w m'.overlay

/-- **Nonces rise** from an overlay through some moments to another overlay: those of each moment
    come before those of all that follow. -/
def Overlay.Rises (w : World) (s : Overlay) (moments : List Moment) (s' : Overlay) : Prop :=
  (Moment.still s :: moments ++ [Moment.still s']).Pairwise (Moment.Before w)

/-- The moment at which a frame carries out a creation. -/
def Frame.created (f : Frame) (rs : Ruleset) (w : World) : Moment :=
  ⟨f.overlay, if f.Enters rs w then some f.context.address else none⟩

/-- The moment at which a frame carries out an instruction. -/
def Frame.moment (f : Frame) (rs : Ruleset) (w : World) : Instruction → Moment
  | .create _ => f.created rs w
  | _ => .still f.overlay

/-- The moment that a note tells of. -/
def Note.moment? (rs : Ruleset) (w : World) : Note → Option Moment
  | .did f i _ => some (f.moment rs w i)
  | .deposited f _ => some (.still f.overlay)
  | _ => none

/-- The moments that a history tells of. -/
def History.moments (rs : Ruleset) (w : World) (h : History) : List Moment :=
  h.filterMap (Note.moment? rs w)

/-- The frame that has carried out a creation, as it stood. -/
def Note.creator? : Note → Option Frame
  | .did f (.create _) _ => some f
  | _ => none

/-- The frames that have carried out creations, as they stood then. -/
def History.creators (h : History) : List Frame := h.filterMap Note.creator?

lemma Note.moment?_creator {note : Note} {f : Frame} (rs : Ruleset) (w : World)
    (h : note.creator? = some f) : note.moment? rs w = some (f.created rs w) := by
  simp only [creator?] at h
  split at h <;> cases h
  rfl

lemma History.moments_append (rs : Ruleset) (w : World) (h h' : History) :
    History.moments rs w (h ++ h') = History.moments rs w h ++ History.moments rs w h' :=
  List.filterMap_append

lemma Frame.moment_overlay (f : Frame) (rs : Ruleset) (w : World) (i : Instruction) :
    (f.moment rs w i).overlay = f.overlay := by
  cases i <;> rfl

/-- What all frames on the call stack have noted, the first first. -/
def Annals.whole (hs : Annals) : History := hs.reverse.flatten

lemma Annals.whole_cons (h : History) (hs : Annals) : whole (h :: hs) = hs.whole ++ h := by
  simp only [whole, List.reverse_cons, List.flatten_append, List.flatten_singleton]

namespace Moment

variable {s s' : Overlay} {w : World} {m m' m'' : Moment}

lemma still_precedes : (still s).Precedes w s' ↔ s.NoncesGrow w s' :=
  forall_congr' fun _ => by simp only [still, reduceCtorEq, if_false, Nat.add_zero]

lemma Precedes.grow (h : m.Precedes w s) (hs : s.NoncesGrow w s') : m.Precedes w s' :=
  fun a => (h a).trans (hs a)

/-- No nonce goes down at a moment. -/
lemma Precedes.noncesGrow (h : m.Precedes w s) : m.overlay.NoncesGrow w s :=
  fun a => (Nat.le_add_right _ _).trans (h a)

/-- The nonce of a creator that enters a frame is higher from then on. -/
lemma lt_of_created {f : Frame} {rs : Ruleset} (henters : f.Enters rs w)
    (h : (f.created rs w).Precedes w s) : (f.overlay.view w f.context.address).nonce.toNat <
      (s.view w f.context.address).nonce.toNat := by
  have hraised := h f.context.address
  rwa [Frame.created, if_pos henters, if_pos rfl] at hraised

lemma Before.trans (h : m.Before w m') (h' : m'.Before w m'') : m.Before w m'' :=
  Precedes.grow h h'.noncesGrow

end Moment

namespace Overlay.Rises

variable {s s' s'' : Overlay} {w : World} {m : Moment} {ms ms' : List Moment} {rs : Ruleset}
  {notes : History} {f : Frame}

lemma of_grows (h : s.NoncesGrow w s') : s.Rises w [] s' :=
  List.pairwise_pair.mpr (Moment.still_precedes.mpr h)

/-- One moment. -/
lemma single (hs : m.overlay = s) (h : m.Precedes w s') : s.Rises w [m] s' := by
  subst hs
  refine .cons ?_ (List.pairwise_pair.mpr h)
  intro m' hm'
  rcases List.mem_pair.mp hm' with rfl | rfl
  · exact Moment.still_precedes.mpr (.refl w _)
  · exact Moment.still_precedes.mpr h.noncesGrow

/-- Nonces that have risen rise on. -/
lemma append (h : s.Rises w ms s') (h' : s'.Rises w ms' s'') : s.Rises w (ms ++ ms') s'' := by
  obtain ⟨hms, -, hlast⟩ := List.pairwise_append.mp h
  obtain ⟨hfirst, hms'⟩ := List.pairwise_cons.mp h'
  have hglued : (Moment.still s :: ms ++ (ms' ++ [Moment.still s''])).Pairwise (Moment.Before w) :=
    List.pairwise_append.mpr ⟨hms, hms', fun m hm m' hm' =>
      (hlast m hm _ (List.mem_singleton.mpr rfl)).trans (hfirst m' hm')⟩
  simpa only [Rises, List.cons_append, List.append_assoc] using hglued

/-- An account that has created one has a higher nonce in the end. -/
lemma creator_lt (h : s.Rises w (notes.moments rs w) s') (hf : f ∈ notes.creators)
    (henters : f.Enters rs w) : (f.overlay.view w f.context.address).nonce.toNat <
      (s'.view w f.context.address).nonce.toNat := by
  obtain ⟨-, -, hlast⟩ := List.pairwise_append.mp h
  obtain ⟨note, hnote, hcreator⟩ := List.mem_filterMap.mp hf
  have hmoment : f.created rs w ∈ notes.moments rs w :=
    List.mem_filterMap.mpr ⟨note, hnote, Note.moment?_creator rs w hcreator⟩
  have hbefore := hlast _ (List.mem_cons_of_mem _ hmoment) _ (List.mem_singleton.mpr rfl)
  exact Moment.lt_of_created henters hbefore

/-- An account that has created one and then creates another had a lower nonce at the first. -/
lemma creators (h : s.Rises w (notes.moments rs w) s') :
    notes.creators.Pairwise fun f f' => f.Enters rs w → f'.context.address = f.context.address →
      (f.overlay.view w f.context.address).nonce.toNat <
        (f'.overlay.view w f'.context.address).nonce.toNat := by
  have hmoments := (List.pairwise_append.mp h).1.of_cons
  refine List.pairwise_filterMap.mpr ((List.pairwise_filterMap.mp hmoments).imp ?_)
  intro note note' hbefore f hf f' hf' henters hsame
  rw [hsame]
  exact Moment.lt_of_created henters
    (hbefore _ (Note.moment?_creator rs w hf) _ (Note.moment?_creator rs w hf'))

end Overlay.Rises

/-! ## What frames say -/

namespace Frame

variable {start f g sub parent : Frame} {chain : ChainView} {h h' notes : History} {note : Note}
  {w : World} {log : CommitLog} {rs : Ruleset} {block : Header} {i : Instruction} {c : Charge}

/-- The nonces as a frame begins. -/
lemma Opens.noncesGrow (h : start.Opens chain note g) (ht : chain.log.Tells w)
    (hrules : start.overlay.rules.StartsAhead) : start.overlay.NoncesGrow w g.overlay := by
  cases h with
  | called pays moves =>
      have hpaid := (Overlay.NoncesGrow.moveBalance ht pays).trans (.moveBalance ht moves)
      exact hpaid.touch
  | created vacant pays moves creates =>
      have hpaid := (Overlay.NoncesGrow.moveBalance ht pays).trans (.moveBalance ht moves)
      have hkept := ((Overlay.Continues.moveBalance ht pays).trans (.moveBalance ht moves)).rules
      refine (hpaid.trans (.create ht (by rwa [hkept]) ?_ creates)).touch
      rw [Overlay.moveBalance_nonce ht moves, Overlay.moveBalance_nonce ht pays, hkept]
      exact Overlay.nonce_of_vacant ht vacant
  | collided => exact .refl w _

/-- **An instruction that is carried out** lets no nonce go down, and raises that of a creator. -/
lemma CarriesOut.precedes (ht : chain.log.Tells w) (h : f.CarriesOut chain c i g) :
    (f.moment chain.ruleset w i).Precedes w g.overlay := by
  by_cases hcreates : ∃ kind, i = .create kind
  · obtain ⟨kind, rfl⟩ := hcreates
    have hcreation := h.creation ht rfl
    simp only [moment, created]
    split at hcreation <;> rename_i henters
    · rw [if_pos henters]
      intro a
      rw [hcreation.raises]
      simp only [Option.some.injEq, eq_comm, le_refl]
    · rw [if_neg henters]
      exact Moment.still_precedes.mpr (.of_eq hcreation.1)
  · have hstill : f.moment chain.ruleset w i = .still f.overlay := by
      cases i with
      | create kind => exact absurd ⟨kind, rfl⟩ hcreates
      | _ => rfl
    rw [hstill, Moment.still_precedes]
    cases h with
    | @done g op afterGas memory control running checked charged afforded effect =>
        have hoverlay := (follow_traces (g.book c) control).overlay
        rw [hoverlay]
        generalize op.instruction = i at effect hcreates
        cases effect with
        | compute | log | call => exact .refl w _
        | store program written => exact .update ht written fun _ => rfl
        | create => exact absurd ⟨_, rfl⟩ hcreates
        | destroy program pays clears =>
            have hpaid := (Overlay.NoncesGrow.moveBalance ht pays).trans (.moveBalance ht clears)
            exact hpaid.touch

/-- **The nonces of all accounts,** as a frame says that has come to `f` since it was `start`. -/
structure Counts (rs : Ruleset) (w : World) (start : Frame) (h : History) (f : Frame) : Prop where
  rules : f.overlay.rules = start.overlay.rules
  rises : start.overlay.rules.StartsAhead → start.overlay.Rises w (h.moments rs w) f.overlay

namespace Counts

/-- A frame that counts goes on. -/
lemma append (hf : Counts rs w start h f) (hrules : g.overlay.rules = f.overlay.rules)
    (hrises : f.overlay.rules.StartsAhead → f.overlay.Rises w (notes.moments rs w) g.overlay) :
    Counts rs w start (h ++ notes) g where
  rules := hrules.trans hf.rules
  rises hcreated := by
    rw [History.moments_append]
    exact (hf.rises hcreated).append (hrises (by rwa [hf.rules]))

lemma opens (ht : log.Tells w) (hg : start.Opens ⟨rs, block, log⟩ note g) :
    Counts rs w start [note] g where
  rules := (Touches.opens ht hg).rules
  rises hrules := by
    have hsilent : History.moments rs w [note] = [] := by cases hg <;> rfl
    rw [hsilent]
    exact .of_grows (hg.noncesGrow ht hrules)

lemma carriesOut (ht : log.Tells w) (hg : f.CarriesOut ⟨rs, block, log⟩ c i g)
    (hf : Counts rs w start h f) : Counts rs w start (h ++ [.did f i c]) g := by
  have hrules : g.overlay.rules = f.overlay.rules :=
    (Touches.carriesOut ht hg (Touches.refl w f)).rules
  have hprecedes := hg.precedes ht
  exact hf.append hrules fun _ => .single (f.moment_overlay rs w i) hprecedes

/-- A frame takes over what the other says. -/
lemma adopts {rules : Rules} (hf : Counts rs w start h f)
    (hsub : Counts rs w (f.derive sub.context rules) h' sub)
    (hg : (f.adopt sub ByteArray.empty).SameTraces g) : Counts rs w start (h ++ h') g := by
  have hoverlay : g.overlay = sub.overlay := hg.overlay
  refine hf.append ?_ fun hrules => ?_ <;> rw [hoverlay]
  · exact hsub.rules
  · exact hsub.rises hrules

end Counts

/-- **What frames say of nonces** follows the laws of the notes. -/
lemma counts_law (rs : Ruleset) (block : Header) (w : World) :
    History.Law rs block w fun _ => Counts rs w where
  grow _ _ h := h
  opens ht _ hg := .opens ht hg
  same htraces _ _ h := ⟨htraces.overlay ▸ h.rules, htraces.overlay ▸ h.rises⟩
  carriesOut ht hg h := h.carriesOut ht hg
  deposits {log start f h overlay} ht _ _ _ _ hdeposits hf := by
    obtain ⟨hgrows, hrules⟩ := Overlay.depositCode_nonces ht hdeposits
    exact hf.append hrules fun _ => .single rfl (Moment.still_precedes.mpr hgrows)
  empties {log start f h overlay} ht hdeposits hf := by
    obtain ⟨hgrows, hrules⟩ := Overlay.depositCode_nonces ht hdeposits
    have hemptied : Counts rs w start (h ++ []) { f with overlay := overlay } :=
      hf.append hrules fun _ => .of_grows hgrows
    rwa [List.append_nil] at hemptied
  adopts _ _ htraces _ _ h hsub := h.adopts hsub htraces

/-- **All frames on the call stack** count as one that has done what they have. -/
lemma Accounted.counts {rules : Rules} {Starts : Frame → Prop} {creation : Bool}
    {waiting : List Frame} {hs : Annals}
    (h : Accounted rules Starts creation (Counts rs w) f waiting hs) :
    ∃ start, Starts start ∧ Counts rs w start hs.whole f := by
  induction h with
  | root starts opened holds => exact ⟨_, starts, by simpa [Annals.whole] using holds⟩
  | @sub f parent rest h hs asked opened holds below ih =>
      obtain ⟨start, hstarts, hcounts⟩ := ih
      refine ⟨start, hstarts, ?_⟩
      rw [Annals.whole_cons]
      exact hcounts.append holds.rules holds.rises

end Frame

/-! ## Steps -/

namespace Frame

variable {f g parent ended : Frame} {chain : ChainView} {w : World}

lemma step_nonces {event : Option Event} (ht : chain.log.Tells w)
    (h : f.step chain = (g, .ok event)) : f.overlay.NoncesGrow w g.overlay := by
  rcases step_due h with ⟨-, htraces, -⟩ | ⟨i, c, -, hcarries⟩
  · exact .of_eq htraces.overlay
  · have hgrows := (hcarries.precedes ht).noncesGrow
    rwa [moment_overlay] at hgrows

lemma depositCode_nonces (ht : chain.log.Tells w) (h : f.depositCode chain = (g, .ok ())) :
    f.overlay.NoncesGrow w g.overlay := by
  by_cases hok : f.status = .exitedOk
  · cases depositCode_disposes hok h with
    | dropped | failed => exact .refl w _
    | paid fits deposits => exact (Overlay.depositCode_nonces ht deposits).1
    | emptied unfit deposits => exact (Overlay.depositCode_nonces ht deposits).1
  · rw [depositCode, if_neg hok] at h
    cases h
    exact .refl w _

/-- A frame that goes back well brings its accounts along, and one that fails does not. -/
lemma absorb_nonces (ht : chain.log.Tells w) {context : Context}
    (hasked : parent.status.invoked? = some context)
    (h : parent.absorb f chain = (g, ended, .ok ())) :
    ended.status = .exitedOk ∧ f.overlay.NoncesGrow w g.overlay ∨
      ended.status ≠ .exitedOk ∧ g.overlay = parent.overlay := by
  have hresumes : ∀ {sub region}, f.overlay.NoncesGrow w sub.overlay →
      sub.status = .exitedOk ∧ f.overlay.NoncesGrow w (parent.resume sub region).overlay ∨
        sub.status ≠ .exitedOk ∧ (parent.resume sub region).overlay = parent.overlay := by
    intro sub region hsub
    rcases parent.resume_traces sub region with ⟨hfailed, htraces⟩ | ⟨hok, htraces⟩
    · exact .inr ⟨hfailed, htraces.overlay⟩
    · exact .inl ⟨hok, hsub.trans (.of_eq htraces.overlay)⟩
  simp only [absorb] at h
  split at h
  · split at h <;> rename_i hdeposit <;> cases h
    exact hresumes (depositCode_nonces ht hdeposit)
  · cases h
    exact hresumes (.refl w _)
  · rename_i hcreate hcall
    cases hasked.symm.trans (FrameStatus.unasked hcall hcreate)

end Frame

namespace CallStack

variable {s s' : CallStack} {chain : ChainView} {w : World} {rules : Rules} {Starts : Frame → Prop}
  {creation : Bool} {R : Frame → History → Frame → Prop} {hs : Annals}

/-- **What a step of a call stack does to nonces:** none goes down, unless a frame has failed and is
    left.  Then the accounts are those of the frame below it. -/
inductive StepsNonces (s : CallStack) (chain : ChainView) (w : World) (s' : CallStack) : Prop where
  | grows (nonces : s.current.overlay.NoncesGrow w s'.current.overlay)
  | undone {parent ended : Frame} (below : s.waiting = parent :: s'.waiting)
      (absorbs : parent.absorb s.current chain = (s'.current, ended, .ok ()))
      (failed : ended.status ≠ .exitedOk) (overlay : s'.current.overlay = parent.overlay)

lemma step_nonces {event : Option Event} (ht : chain.log.Tells w)
    (hrules : s.current.overlay.rules.StartsAhead)
    (hcalls : s.Accounted rules Starts creation R hs) (h : s.step chain = (s', .ok event)) :
    s.StepsNonces chain w s' := by
  have hstepped := step_stepped h
  simp only [step] at h
  split at h
  · rcases hstep : s.current.step chain with ⟨g, result⟩
    rw [hstep] at h
    cases h
    exact .grows (Frame.step_nonces ht hstep)
  · split at h <;> rename_i hbegins <;> cases h
    have hgrows := (Frame.opens_of_beginCall hbegins).noncesGrow ht hrules
    exact .grows hgrows
  · split at h <;> rename_i hbegins <;> cases h
    have hgrows := (Frame.opens_of_beginCreate rfl hbegins).noncesGrow ht hrules
    exact .grows hgrows
  · rename_i hrunning hcall hcreate
    cases hstepped with
    | ran running => exact absurd running hrunning
    | entered asked => cases asked.symm.trans (FrameStatus.unasked hcall hcreate)
    | rested => exact .grows (.refl w _)
    | left ended below absorbs =>
        rw [Accounted, below] at hcalls
        cases hcalls with
        | sub asked =>
            rcases Frame.absorb_nonces ht asked absorbs with ⟨-, hgrows⟩ | ⟨hfailed, hundone⟩
            · exact .grows hgrows
            · exact .undone below absorbs hfailed hundone

end CallStack

/-! ## Runs -/

open Engine in
/-- **The nonces of creators only grow,** where a new account has no lower nonce than one that
    nothing has happened to.  Whatever the host answers, every run has annals.  Over any world that
    agrees with what was told, until the transaction is settled:

    * nonces rise through all that the frames on the call stack have done, up to the accounts as
      they are now;
    * an account that has created one has a higher nonce now, whatever became of that, and had when
      it created another;
    * a step lets no nonce go down, unless a frame has failed and is left, which puts the accounts
      back to those of the frame below it.

    A creation that enters a frame raises the nonce of its account by one and no other, and its
    address is the one that was looked up before, derived from that nonce.  One that cannot enter a
    frame leaves the accounts as they are. -/
theorem creator_nonces_only_grow (rs : Ruleset) (t : Transaction) (block : Header)
    (hrules : rs.rules.accounts.initialNonce.toNat ≤ rs.rules.accounts.createdNonce.toNat) :
    (∀ e, Reachable rs t block e → ∃ hs, Narrated rs t block e hs) ∧
    (∀ e hs x w, Narrated rs t block e hs → e.phase = .executing x → x.settled = false →
      e.chain.log.Tells w →
      (∃ start, t.Starts rs w start ∧
        start.overlay.Rises w (hs.whole.moments rs w) x.calls.current.overlay) ∧
      (∀ f ∈ hs.whole.creators, f.Enters rs w →
        (f.overlay.view w f.context.address).nonce.toNat <
          (x.calls.current.overlay.view w f.context.address).nonce.toNat) ∧
      (hs.whole.creators.Pairwise fun f f' => f.Enters rs w →
        f'.context.address = f.context.address →
          (f.overlay.view w f.context.address).nonce.toNat <
            (f'.overlay.view w f'.context.address).nonce.toNat) ∧
      ∀ calls event, x.calls.step e.chain = (calls, .ok event) →
        x.calls.StepsNonces e.chain w calls) ∧
    ∀ (f g : Frame) (chain : ChainView) (w : World) kind c event, chain.log.Tells w →
      f.due? chain = some (.create kind, c) → f.step chain = (g, .ok event) →
        if f.Enters chain.ruleset w then f.EntersCreation chain w kind g
        else g.overlay = f.overlay ∧ g.status = .running := by
  refine ⟨fun e h => h.exists_narrated, fun e hs x w hnarrated hphase hunsettled ht => ?_,
    fun f g chain w kind c event ht hdue hstep => Frame.step_creation ht hdue hstep⟩
  have hcalls := ((hnarrated.accounted (Frame.counts_law rs block w) ht).executing x
    hphase).calls hunsettled
  obtain ⟨start, hstarts, hcounts⟩ := Frame.Accounted.counts hcalls
  have hstart : start.overlay.rules = rs.rules.accounts := hstarts.continues.rules
  have hrises := hcounts.rises (by rwa [hstart])
  refine ⟨⟨start, hstarts, hrises⟩, fun f hf henters => hrises.creator_lt hf henters,
    hrises.creators, fun calls event hstep => CallStack.step_nonces ht ?_ hcalls hstep⟩
  rwa [hcounts.rules, hstart]

/-- Code that creates an account, whose own code reverts. -/
def creatingCode : List UInt8 :=
  [0x64, 0x60, 0, 0x60, 0, 0xfd, 0x60, 0, 0x52, 0x60, 5, 0x60, 27, 0x60, 0, 0xf0, 0x50, 0x00]

/-- A world with an account that has this code. -/
def creatorWorld : World :=
  { accounts := ((∅ : Std.TreeMap Address WorldAccount).insert 200 { balance := 1000000 }).insert
      100 { nonce := 7, code := ⟨creatingCode.toArray⟩ } }

/-- The engine that runs a call of it, and its annals. -/
def creatorAfter (fuel : ℕ) : Except Fault (Engine × Annals) :=
  (Engine.create .byzantium ⟨200, 1, 200000, .call 100, 0, ByteArray.empty, 0⟩ {}).narrate
    creatorWorld fuel []

/-- The creation has failed, and its account has a higher nonce for it. -/
theorem creator_counts_on : ∃ e hs x f, creatorAfter 20 = .ok (e, hs) ∧
    e.phase = .executing x ∧ x.calls.waiting = [] ∧ hs.whole.creators = [f] ∧
      f.Enters .byzantium creatorWorld ∧
        (f.overlay.view creatorWorld f.context.address).nonce.toNat <
          (x.calls.current.overlay.view creatorWorld f.context.address).nonce.toNat := by
  have hend : (creatorAfter 20).toOption.bind (fun r => r.1.phase.execution?.map fun x =>
      (x.settled, x.calls.waiting.length,
        r.2.whole.creators.map fun f => decide (f.Enters .byzantium creatorWorld))) =
        some (false, 0, [true]) := by
    decide +kernel
  simp only [Option.bind_eq_some_iff, Option.map_eq_some_iff, toOption_eq_some, Prod.mk.injEq,
    Prod.exists, Phase.execution?_eq_some, List.length_eq_zero_iff, List.map_eq_singleton_iff,
    decide_eq_true_eq] at hend
  obtain ⟨e, hs, hrun, x, hphase, hunsettled, halone, f, hfound, henters⟩ := hend
  obtain ⟨hnarrated, htells⟩ := Engine.narrated_of_narrate hrun
  have hcounts := (creator_nonces_only_grow _ _ _ (by decide)).2.1 e hs x creatorWorld hnarrated
    hphase hunsettled htells
  exact ⟨e, hs, x, f, hrun, hphase, halone, hfound, henters,
    hcounts.2.1 f (by rw [hfound]; exact List.mem_singleton.mpr rfl) henters⟩

end ResumableEvm
