import ResumableEvm.Proofs.DestructionRefund
import ResumableEvm.Proofs.SettledAlike
import ResumableEvm.Proofs.StaticFrames

/-!
# Which accounts disappear

An account takes part in a transaction when it is called or created, or is paid by one that destroys
itself.  That is noted in the overlay of the frame, and so forgotten again if the frame fails.  No
account disappears while frames run.  Once the gas of a success is paid for, those go that destroyed
themselves, and those that took part and have come to nothing, where the rules say that such an
account does not exist.

* `AccountView.Blank` — an account that has come to nothing.
* `History.touched` — the accounts that took part.
* `Frame.Touches` — what a frame says of them, read off its history.
* `Frame.sweep_view` — what is swept away in the end.
* `clearing_is_exact` — the accounts that a success leaves.
-/

namespace ResumableEvm

/-- **An account that has come to nothing:** it has its first nonce, no balance and no code. -/
def AccountView.Blank (v : AccountView) (rules : AccountRules) : Prop :=
  v.nonce = rules.initialNonce ∧ v.balance = 0 ∧ v.code.isEmpty = true

instance (v : AccountView) (rules : AccountRules) : Decidable (v.Blank rules) :=
  inferInstanceAs (Decidable (_ ∧ _))

/-- The account that a note says took part. -/
def Note.touched? : Note → Option Address
  | .called context | .created context => some context.address
  | .did f .selfDestruct _ => some (Address.ofWord (f.operand 0))
  | _ => none

/-- **The accounts that took part:** those that were called or created, and those that were paid by
    one that destroyed itself. -/
def History.touched (h : History) : List Address := h.filterMap Note.touched?

/-- **An account goes in the end** if a surviving frame has destroyed it or, where what is empty
    does not exist, if it took part in a surviving frame and has come to nothing. -/
def History.Sweeps (h : History) (rules : AccountRules) (v : Address → AccountView)
    (a : Address) : Prop :=
  a ∈ h.destroyed ∨ rules.emptyExists = false ∧ a ∈ h.touched ∧ (v a).Blank rules

instance (h : History) (rules : AccountRules) (v : Address → AccountView) (a : Address) :
    Decidable (h.Sweeps rules v a) :=
  inferInstanceAs (Decidable (_ ∨ _))

/-- Only an instruction that destroys an account pays one. -/
lemma Note.touched?_did {f : Frame} {i : Instruction} {c : Frame.Charge}
    (hi : i ≠ .selfDestruct) : (Note.did f i c).touched? = none := by
  simp only [touched?]
  split
  · rename_i heq
    cases heq
  · rename_i heq
    cases heq
  · rename_i heq
    cases heq
    exact absurd rfl hi
  · rfl

lemma AccountView.blank_absent (rules : AccountRules) : (absent rules).Blank rules :=
  ⟨rfl, rfl, rfl⟩

/-! ## Accounts that go on -/

/-- **Accounts go on:** under the same rules, and with the same that took part.  None has
    disappeared. -/
structure Overlay.Continues (w : World) (s s' : Overlay) : Prop where
  rules : s'.rules = s.rules
  touched : s'.touched = s.touched
  present : ∀ a, (s.view w a).present = true → (s'.view w a).present = true

namespace Overlay

variable {s s' t : Overlay} {w : World} {log : CommitLog} {a b : Address} {value : Word}

namespace Continues

lemma of_eq (h : s' = s) : Continues w s s' := h ▸ ⟨rfl, rfl, fun _ h => h⟩

lemma trans (h : Continues w s s') (h' : Continues w s' t) : Continues w s t where
  rules := h'.rules.trans h.rules
  touched := h'.touched.trans h.touched
  present a ha := h'.present a (h.present a ha)

/-- An account is replaced by one that is there if it was. -/
lemma of_update {v : AccountView} (hrules : s'.rules = s.rules) (htouched : s'.touched = s.touched)
    (hview : s'.view w = Function.update (s.view w) a v)
    (hv : (s.view w a).present = true → v.present = true) : Continues w s s' := by
  refine ⟨hrules, htouched, fun b hb => ?_⟩
  rw [hview]
  by_cases hab : b = a
  · subst hab
    rw [Function.update_self]
    exact hv hb
  · rwa [Function.update_of_ne hab]

lemma update (ht : log.Tells w) {f : LiveAccount → LiveAccount}
    (h : s.update a log f = .ok s') : Continues w s s' := by
  obtain ⟨account, -, hview⟩ := update_view ht h
  obtain ⟨_, -, rfl⟩ := update_eq_ok.mp h
  exact of_update rfl rfl hview fun _ => rfl

lemma moveBalance (ht : log.Tells w) {first : Word → BalanceShift}
    {shift : BalanceShift → Word → BalanceShift} {change : Word → Word → Word}
    (h : s.moveBalance a value log first shift change = .ok s') : Continues w s s' := by
  obtain ⟨balance, hview⟩ := moveBalance_view ht h
  refine of_update ?_ (moveBalance_touched h) hview fun hp => by rw [hp, Bool.true_or]
  simp only [Overlay.moveBalance] at h
  split at h
  · cases h
    rfl
  · split at h
    · cases h
      rfl
    · obtain ⟨_, -, rfl⟩ := update_eq_ok.mp h
      rfl

end Continues

lemma mem_touch : b ∈ (s.touch a).touched ↔ b ∈ s.touched ∨ b = a := by
  rw [touch, Std.TreeSet.mem_insert, Std.LawfulEqCmp.compare_eq_iff_eq]
  exact or_comm.trans (or_congr_right eq_comm)

end Overlay

/-! ## What frames say -/

namespace Frame

variable {start f g sub : Frame} {h h' : History} {note : Note} {w : World} {log : CommitLog}
  {s : Overlay} {a : Address} {rs : Ruleset} {block : Header} {i : Instruction} {c : Charge}

/-- **The accounts that took part,** as a frame says that has come to `f` since it was `start`. -/
structure Touches (w : World) (start : Frame) (h : History) (f : Frame) : Prop where
  rules : f.overlay.rules = start.overlay.rules
  touched : ∀ a, a ∈ f.overlay.touched ↔ a ∈ start.overlay.touched ∨ a ∈ h.touched
  present : ∀ a, (start.overlay.view w a).present = true → (f.overlay.view w a).present = true

namespace Touches

lemma refl (w : World) (start : Frame) : Touches w start [] start :=
  ⟨rfl, fun a => by simp [History.touched], fun _ h => h⟩

lemma goesOn (hf : Touches w start h f) (hs : f.overlay.Continues w g.overlay) :
    Touches w start h g where
  rules := hs.rules.trans hf.rules
  touched a := by rw [hs.touched, hf.touched]
  present a ha := hs.present a (hf.present a ha)

/-- A note that says of no account that it took part. -/
lemma silent (hf : Touches w start h f) (hnote : note.touched? = none) :
    Touches w start (h ++ [note]) f := by
  refine ⟨hf.rules, fun a => ?_, hf.present⟩
  rw [hf.touched, History.touched, History.touched, List.filterMap_append,
    List.filterMap_cons_none hnote, List.filterMap_nil, List.append_nil]

/-- A note that says so of one. -/
lemma touch (hf : Touches w start h f) (hs : f.overlay.Continues w s)
    (hg : g.overlay = s.touch a) (hnote : note.touched? = some a) :
    Touches w start (h ++ [note]) g := by
  refine ⟨?_, fun b => ?_, fun b hb => ?_⟩
  · rw [hg]
    exact hs.rules.trans hf.rules
  · rw [hg, Overlay.mem_touch, hs.touched, hf.touched, History.touched, History.touched,
      List.filterMap_append, List.filterMap_cons_some hnote, List.filterMap_nil, List.mem_append,
      List.mem_singleton, or_assoc]
  · rw [hg]
    exact hs.present b (hf.present b hb)

lemma opens (ht : log.Tells w) (hg : start.Opens ⟨rs, block, log⟩ note g) :
    Touches w start [note] g := by
  have hstart := refl w start
  cases hg with
  | called pays moves =>
      have hpaid := (Overlay.Continues.moveBalance ht pays).trans (.moveBalance ht moves)
      exact hstart.touch hpaid rfl rfl
  | created vacant pays moves creates =>
      have hpaid := (Overlay.Continues.moveBalance ht pays).trans (.moveBalance ht moves)
      exact hstart.touch (hpaid.trans (.update ht creates)) rfl rfl
  | collided =>
      have hfailed : Touches w start [] (start.fail .createCollision) :=
        hstart.goesOn (.of_eq rfl)
      exact hfailed.silent rfl

lemma carriesOut (ht : log.Tells w) (hg : f.CarriesOut ⟨rs, block, log⟩ c i g)
    (hf : Touches w start h f) : Touches w start (h ++ [.did f i c]) g := by
  cases hg with
  | @done g op afterGas memory control running checked charged afforded effect =>
      have hoverlay := (follow_traces (g.book c) control).overlay
      generalize op.instruction = i at effect ⊢
      cases effect with
      | compute program stays plain =>
          refine .silent (hf.goesOn (.of_eq hoverlay)) (Note.touched?_did ?_)
          rintro rfl
          cases plain
      | store program written =>
          have hwritten := (Overlay.Continues.update ht written).trans (.of_eq hoverlay)
          exact .silent (hf.goesOn hwritten) rfl
      | log | call => exact .silent (hf.goesOn (.of_eq hoverlay)) rfl
      | create program raised =>
          have hraised := (Overlay.Continues.update ht raised).trans (.of_eq hoverlay)
          exact .silent (hf.goesOn hraised) rfl
      | destroy program pays clears aims =>
          have hpaid := (Overlay.Continues.moveBalance ht pays).trans (.moveBalance ht clears)
          exact hf.touch hpaid hoverlay (congrArg some aims.symm)

/-- A frame takes over what the other says. -/
lemma adopts {rules : Rules} (hf : Touches w start h f)
    (hsub : Touches w (f.derive sub.context rules) h' sub)
    (hg : (f.adopt sub ByteArray.empty).SameTraces g) : Touches w start (h ++ h') g := by
  have hoverlay : g.overlay = sub.overlay := hg.overlay
  refine ⟨?_, fun a => ?_, fun a ha => ?_⟩
  · rw [hoverlay]
    exact hsub.rules.trans hf.rules
  · have hmem : a ∈ sub.overlay.touched ↔ a ∈ f.overlay.touched ∨ a ∈ h'.touched := hsub.touched a
    rw [hoverlay, hmem, hf.touched, History.touched, History.touched, History.touched,
      List.filterMap_append, List.mem_append, or_assoc]
  · rw [hoverlay]
    exact hsub.present a (hf.present a ha)

end Touches

/-- **What frames say of the accounts that took part** follows the laws of the notes. -/
lemma touches_law (rs : Ruleset) (block : Header) (w : World) :
    History.Law rs block w fun _ => Touches w where
  grow _ _ h := h
  opens ht _ hg := .opens ht hg
  same htraces _ _ h := h.goesOn (.of_eq htraces.overlay)
  carriesOut ht hg h := h.carriesOut ht hg
  deposits {log start f h overlay} ht _ _ _ _ hdeposits hf := by
    have hstored : f.overlay.Continues w overlay := .update ht hdeposits
    exact (hf.goesOn hstored).silent rfl
  empties {log start f h overlay} ht hdeposits hf := by
    have hstored : f.overlay.Continues w overlay := .update ht hdeposits
    exact hf.goesOn hstored
  adopts _ _ htraces _ _ h hsub := h.adopts hsub htraces

/-! ## Settlements -/

/-- **The gas of a success is paid for:** the caller gets back what was claimed and is charged, and
    the beneficiary is paid. -/
inductive PaysFor (f : Frame) (log : CommitLog) (fee preclaimed : Word) (beneficiary : Address)
    (paid : Overlay) : Prop where
  | stages {refunded charged : Overlay}
      (refunds : f.overlay.increaseBalance f.context.caller preclaimed log = .ok refunded)
      (charges : refunded.decreaseBalance f.context.caller fee log = .ok charged)
      (pays : charged.increaseBalance beneficiary fee log = .ok paid)

variable {fee preclaimed : Word} {fresh swept paid s' : Overlay} {beneficiary : Address}

lemma Settles.paysFor (h : f.Settles log fee preclaimed fresh beneficiary swept)
    (hok : f.status = .exitedOk) :
    ∃ paid, f.PaysFor log fee preclaimed beneficiary paid ∧ f.sweep paid log = .ok swept := by
  cases h with
  | stages starts refunds charges pays sweeps =>
      rw [settlementStart, if_pos hok] at starts
      cases starts
      exact ⟨_, .stages refunds charges pays, sweeps⟩

lemma PaysFor.continues (h : f.PaysFor log fee preclaimed beneficiary paid) (ht : log.Tells w) :
    f.overlay.Continues w paid := by
  cases h with
  | stages refunds charges pays =>
      exact ((Overlay.Continues.moveBalance ht refunds).trans (.moveBalance ht charges)).trans
        (.moveBalance ht pays)

end Frame

namespace Overlay

variable {s s' : Overlay} {w : World} {log : CommitLog} {a b : Address}

/-- Where there is no account nothing is read. -/
lemma view_of_not_present (h : (s.view w a).present = false) : s.view w a = .absent s.rules := by
  simp only [view] at h ⊢
  cases he : s.entries[a]? with
  | none =>
      rw [he] at h
      simp only [Option.map_none, Option.getD_none, World.view] at h ⊢
      cases hw : w.accounts[a]? with
      | none => rfl
      | some account =>
          rw [hw] at h
          cases h
  | some entry =>
      rw [he] at h
      cases entry with
      | shifted | live => cases h
      | dead => rfl

/-- Whether an account is read as empty. -/
lemma blank_iff_isEmpty (ht : log.Tells w) {empty : Bool} (h : s.isEmpty a log = .ok empty) :
    (s.view w a).Blank s.rules ↔ empty = true := by
  have hshows := s.shows_view ht a
  obtain ⟨nonce, hnonce, h⟩ := bind_eq_ok.mp h
  rw [AccountView.Blank, ← hshows.nonce hnonce]
  split at h
  · rename_i hfirst
    obtain ⟨balance, hbalance, h⟩ := bind_eq_ok.mp h
    rw [← hshows.balance hbalance]
    split at h
    · rename_i hzero
      obtain ⟨code, hcode, h⟩ := bind_eq_ok.mp h
      cases h
      simp only [hfirst, hzero, ← hshows.code hcode, true_and]
    · rename_i hsome
      cases h
      simp only [hsome, false_and, and_false, Bool.false_eq_true]
  · rename_i hraised
    cases h
    simp only [hraised, false_and, Bool.false_eq_true]

end Overlay

namespace Frame

variable {f : Frame} {s s' : Overlay} {w : World} {log : CommitLog} {a b : Address}

/-- An account that took part goes if it has come to nothing. -/
lemma clearEmpty_view (ht : log.Tells w) (h : clearEmpty log s a = .ok s') :
    s'.rules = s.rules ∧ ∀ b, s'.view w b =
      if b = a ∧ (s.view w b).Blank s.rules then .absent s.rules else s.view w b := by
  obtain ⟨there, hthere, h⟩ := bind_eq_ok.mp h
  have hpresent := (s.shows_view ht a).present hthere
  split at h
  · obtain ⟨blank, hblank, h⟩ := bind_eq_ok.mp h
    have hiff := Overlay.blank_iff_isEmpty ht hblank
    split at h <;> rename_i hempty <;> cases h
    · refine ⟨rfl, fun b => ?_⟩
      rw [Overlay.remove_view]
      by_cases hb : b = a
      · subst hb
        rw [Function.update_self, if_pos ⟨rfl, hiff.mpr hempty⟩]
      · rw [Function.update_of_ne hb, if_neg fun h => hb h.1]
    · refine ⟨rfl, fun b => ?_⟩
      rw [if_neg]
      rintro ⟨rfl, hb⟩
      exact hempty (hiff.mp hb)
  · rename_i hgone
    cases h
    refine ⟨rfl, fun b => ?_⟩
    split
    · rename_i hb
      obtain ⟨rfl, -⟩ := hb
      exact Overlay.view_of_not_present (hpresent ▸ Bool.eq_false_of_not_eq_true hgone)
    · rfl

lemma clearEmpties_view (ht : log.Tells w) {touched : List Address}
    (h : touched.foldlM (clearEmpty log) s = .ok s') :
    ∀ b, s'.view w b =
      if b ∈ touched ∧ (s.view w b).Blank s.rules then .absent s.rules else s.view w b := by
  induction touched generalizing s with
  | nil =>
      cases h
      intro b
      rw [if_neg (by simp)]
  | cons a rest ih =>
      obtain ⟨next, hnext, h⟩ := bind_eq_ok.mp h
      obtain ⟨hrules, hview⟩ := clearEmpty_view ht hnext
      intro b
      rw [ih h, hrules, hview]
      by_cases hblank : (s.view w b).Blank s.rules
      · by_cases hb : b = a
        · simp [hb ▸ hblank, hb, AccountView.blank_absent]
        · simp [hblank, hb]
      · simp [hblank]

lemma foldl_remove_view (removed : List Address) (s : Overlay) (b : Address) :
    (removed.foldl Overlay.remove s).view w b =
      if b ∈ removed then .absent s.rules else s.view w b := by
  induction removed generalizing s with
  | nil => rw [if_neg List.not_mem_nil, List.foldl_nil]
  | cons a rest ih =>
      rw [List.foldl_cons, ih, Overlay.remove_view]
      by_cases hb : b = a
      · subst hb
        rw [Function.update_self, if_pos List.mem_cons_self]
        split <;> rfl
      · rw [Function.update_of_ne hb]
        simp only [List.mem_cons, hb, false_or]
        rfl

/-- **What is swept away after a success:** the accounts that destroyed themselves and, where what
    is empty does not exist, those that took part and have come to nothing. -/
lemma sweep_view (ht : log.Tells w) (hok : f.status = .exitedOk) (h : f.sweep s log = .ok s')
    (b : Address) : s'.view w b =
      if b ∈ f.removed ∨ s.rules.emptyExists = false ∧ b ∈ s.touched ∧
        (s.view w b).Blank s.rules then .absent s.rules else s.view w b := by
  obtain ⟨hrules, htouched, -⟩ := foldl_remove_same (b := 0) f.removed s
  have hremoved := foldl_remove_view (w := w) f.removed s b
  simp only [sweep, if_pos hok] at h
  rw [hrules, htouched] at h
  split at h
  · rename_i hkeeps
    cases h
    simp only [hremoved, hkeeps, Bool.true_eq_false, false_and, or_false]
  · rename_i hclears
    rw [clearEmpties_view ht h, hrules, hremoved]
    simp only [Std.TreeSet.mem_toList, Bool.eq_false_of_not_eq_true hclears, true_and]
    by_cases hb : b ∈ f.removed
    · simp [hb, AccountView.blank_absent]
    · simp [hb]

end Frame

/-- What the root of a transaction starts from has all the accounts of the world, and none of them
    took part yet. -/
lemma Transaction.Starts.continues {t : Transaction} {rs : Ruleset} {w : World} {start : Frame}
    (h : t.Starts rs w start) :
    (Overlay.empty rs.rules.accounts).Continues w start.overlay := by
  cases h with
  | root tells raises pays =>
      have hraised : (Overlay.empty rs.rules.accounts).Continues w _ := .update tells raises
      exact hraised.trans (.moveBalance tells pays)

/-! ## Runs -/

open Engine in
/-- **Clearing is exact.**  Whatever the host answers, every run has annals.  After a success, over
    any world that agrees with what was told, the accounts are those of the root once its gas was
    paid for, less those that surviving frames have destroyed and, where what is empty does not
    exist, less those that took part in surviving frames and had come to nothing.  So of the
    latter none is left that comes to nothing, and no other account of the world has
    disappeared. -/
theorem clearing_is_exact (rs : Ruleset) (t : Transaction) (block : Header) :
    (∀ e, Reachable rs t block e → ∃ hs, Narrated rs t block e hs) ∧
    ∀ e hs w, Narrated rs t block e hs → e.chain.log.Tells w → e.status = .exitedOk →
      ∃ (x : Execution) (h : History) (root : Frame) (told : CommitLog) (paid : Overlay),
        e.settled? = some x ∧ hs = [h] ∧ told.Within e.chain.log ∧
        x.calls.root = { root with overlay := x.calls.root.overlay } ∧
        root.PaysFor told (x.chargedGas * root.context.gasPrice).toWord x.transaction.preclaimed
          block.beneficiary paid ∧
        (∀ a, x.calls.root.overlay.view w a =
          if h.Sweeps rs.rules.accounts (paid.view w) a then .absent rs.rules.accounts
          else paid.view w a) ∧
        (rs.rules.accounts.emptyExists = false → ∀ a ∈ h.touched,
          (x.calls.root.overlay.view w a).Blank rs.rules.accounts →
            (x.calls.root.overlay.view w a).present = false) ∧
        (∀ a, (w.view rs.rules.accounts a).present = true →
          (x.calls.root.overlay.view w a).present = false →
            h.Sweeps rs.rules.accounts (paid.view w) a) := by
  refine ⟨fun e h => h.exists_narrated, fun e hs w hnarrated ht hok => ?_⟩
  obtain ⟨x, told, root, start, h, swept, hx, htold, hwithin, rfl, hstarts, htouches, hended,
    hsettles, hroot⟩ := (hnarrated.accounted (Frame.touches_law rs block w) ht).success hok
  obtain ⟨x', -, root', start', h', swept', hx', -, -, hh, hstarts', hrewarded, -, -, hroot'⟩ :=
    (hnarrated.accounted (Frame.rewarded_law rs block w) ht).success hok
  obtain rfl : x = x' := Option.some.inj (hx.symm.trans hx')
  obtain rfl : h = h' := (List.cons.inj hh).1
  obtain ⟨paid, hpays, hsweep⟩ := hsettles.paysFor hended
  have hpaid := hpays.continues htold
  have hstart := hstarts.continues
  have hrules : paid.rules = rs.rules.accounts :=
    hpaid.rules.trans (htouches.rules.trans hstart.rules)
  have htouched : ∀ a, a ∈ paid.touched ↔ a ∈ h.touched := fun a => by
    rw [hpaid.touched, htouches.touched, hstart.touched]
    simp [Overlay.empty]
  have hremoved : ∀ a, a ∈ root.removed ↔ a ∈ h.destroyed := fun a => by
    have hsame := congrArg Frame.removed (hroot.symm.trans hroot')
    dsimp only at hsame
    rw [hsame, hrewarded.removed, hstarts'.removed, mem_foldl_enlist]
    simp
  have hfinal : ∀ a, x.calls.root.overlay.view w a =
      if h.Sweeps rs.rules.accounts (paid.view w) a then .absent rs.rules.accounts
      else paid.view w a := fun a => by
    have hview := Frame.sweep_view htold hended hsweep a
    rw [hrules] at hview
    rw [hroot]
    refine hview.trans (if_congr ?_ rfl rfl)
    rw [hremoved, htouched]
    rfl
  refine ⟨x, h, root, told, paid, hx, rfl, hwithin, by rw [hroot], hpays, hfinal,
    fun hempty a ha hblank => ?_, fun a hthere hgone => ?_⟩
  · rw [hfinal] at hblank ⊢
    split
    · rfl
    · rename_i hstays
      rw [if_neg hstays] at hblank
      exact absurd (.inr ⟨hempty, ha, hblank⟩) hstays
  · by_contra hstays
    have hpresent := hpaid.present a (htouches.present a (hstart.present a hthere))
    rw [hfinal, if_neg hstays, hpresent] at hgone
    cases hgone

/-- A world with two accounts that have come to nothing.  A contract calls one of them, and a second
    contract, which calls the other and reverts. -/
def emptyCallsWorld : World :=
  { accounts := (((((∅ : Std.TreeMap Address WorldAccount).insert 200 { balance := 1000000 }).insert
      100 { code := ⟨(callingCode 105 ++ callingCode 102).toArray⟩ }).insert
      102 { code := ⟨(callingCode 106 ++ [0x60, 0, 0x60, 0, 0xfd]).toArray⟩ }).insert 105 {}).insert
      106 {} }

/-- The engine that runs a call of the first contract, and its annals. -/
def emptyCallsAfter (fuel : ℕ) : Except Fault (Engine × Annals) :=
  (Engine.create .byzantium ⟨200, 1, 200000, .call 100, 0, ByteArray.empty, 0⟩ {}).narrate
    emptyCallsWorld fuel []

/-- What is said of an account in the end. -/
def Engine.finalView? (e : Engine) (w : World) (a : Address) : Option AccountView :=
  e.settled?.map fun x => x.calls.root.overlay.view w a

/-- The account that was called has disappeared, and the other is still there. -/
theorem emptyCalls_clear_one : ∃ e h x, emptyCallsAfter 120 = .ok (e, [h]) ∧
    e.settled? = some x ∧ 105 ∈ h.touched ∧ 106 ∉ h.touched ∧
      (x.calls.root.overlay.view emptyCallsWorld 105).present = false ∧
        (x.calls.root.overlay.view emptyCallsWorld 106).present = true := by
  have hend : (emptyCallsAfter 120).toOption.map (fun r => (r.1.status, r.2.map (·.touched),
      (r.1.finalView? emptyCallsWorld 105).map (fun v =>
        decide (v.Blank Ruleset.byzantium.rules.accounts)),
      (r.1.finalView? emptyCallsWorld 106).map (·.present))) =
        some (.exitedOk, [[100, 105]], some true, some true) := by
    decide +kernel
  rcases hrun : emptyCallsAfter 120 with fault | ⟨e, hs⟩
  · rw [hrun] at hend
    cases hend
  · rw [hrun] at hend
    simp only [Except.toOption, Option.map_some, Option.some.injEq, Prod.mk.injEq] at hend
    obtain ⟨hok, htouched, hblank, hthere⟩ := hend
    obtain ⟨hnarrated, htells⟩ := Engine.narrated_of_narrate hrun
    obtain ⟨x, h, root, told, paid, hx, rfl, -, -, -, -, hcleared, -⟩ :=
      (clearing_is_exact _ _ _).2 e hs emptyCallsWorld hnarrated htells hok
    simp only [Engine.finalView?, hx, Option.map_some, Option.some.injEq, decide_eq_true_eq,
      List.map_cons, List.map_nil, List.cons.injEq, and_true] at htouched hblank hthere
    rw [htouched] at hcleared
    exact ⟨e, h, x, rfl, hx, by rw [htouched]; decide, by rw [htouched]; decide,
      hcleared rfl 105 (by decide) hblank, hthere⟩

end ResumableEvm
