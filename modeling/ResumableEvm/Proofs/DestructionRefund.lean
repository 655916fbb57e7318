import ResumableEvm.Proofs.SurvivingHistory
import ResumableEvm.Proofs.SurvivingLogs

/-!
# One refund for each account that destroys itself

An account that destroys itself earns a refund, unless it is on the list of those that have done so
already.  A frame starts from the list of the frame that asks for it, and its list goes over to that
frame only if it ends well.  So a list never names an account twice, what a frame has earned for
destructions is as much as it has added to the list, and in the end each account that surviving
frames have destroyed has been paid for once.

* `History.refund`, `History.destroyed` — what was earned, and which accounts were destroyed.
* `enlist` — an account goes on the list, unless it is there.
* `Frame.Rewarded` — the list and the refund of a frame, read off its history.
* `each_destruction_is_refunded_once` — lists and refunds in every run.
-/

namespace ResumableEvm

/-! ## Readings of a history -/

/-- What an instruction has earned, if it counts. -/
def Note.refund (counts : Instruction → Bool) : Note → ℤ
  | .did _ i c => if counts i then c.refund else 0
  | _ => 0

/-- What the instructions that count have earned. -/
def History.refund (counts : Instruction → Bool) (h : History) : ℤ :=
  (h.map (Note.refund counts)).sum

/-- The account that a note says was destroyed. -/
def Note.destroyed? : Note → Option Address
  | .did f .selfDestruct _ => some f.context.address
  | _ => none

/-- The accounts that were destroyed, as often as that has happened. -/
def History.destroyed (h : History) : List Address := h.filterMap Note.destroyed?

/-- What was earned for destructions. -/
def History.destructionRefund (h : History) : ℤ := h.refund (· = .selfDestruct)

/-- Puts an account on a list, unless it is there. -/
def enlist (removed : List Address) (a : Address) : List Address :=
  if removed.contains a then removed else removed ++ [a]

section Lists

variable {removed added : List Address} {a : Address}

lemma mem_enlist {b : Address} : b ∈ enlist removed a ↔ b ∈ removed ∨ b = a := by
  simp only [enlist]
  split
  · rename_i hthere
    refine ⟨.inl, ?_⟩
    rintro (hb | rfl)
    · exact hb
    · exact List.contains_iff_mem.mp hthere
  · simp

lemma nodup_enlist (h : removed.Nodup) : (enlist removed a).Nodup := by
  simp only [enlist]
  split
  · exact h
  · rename_i hnew
    rw [List.contains_iff_mem] at hnew
    exact h.append (List.nodup_singleton a) (List.disjoint_singleton.mpr hnew)

lemma prefix_enlist : removed <+: enlist removed a := by
  simp only [enlist]
  split
  · exact List.prefix_rfl
  · exact List.prefix_append _ _

lemma nodup_foldl_enlist (h : removed.Nodup) : (added.foldl enlist removed).Nodup := by
  induction added generalizing removed with
  | nil => exact h
  | cons a rest ih => exact ih (nodup_enlist h)

lemma prefix_foldl_enlist : removed <+: added.foldl enlist removed := by
  induction added generalizing removed with
  | nil => exact List.prefix_rfl
  | cons a rest ih => exact prefix_enlist.trans ih

lemma mem_foldl_enlist {b : Address} :
    b ∈ added.foldl enlist removed ↔ b ∈ removed ∨ b ∈ added := by
  induction added generalizing removed with
  | nil => simp
  | cons a rest ih => rw [List.foldl_cons, ih, mem_enlist, List.mem_cons, or_assoc]

/-- A list that starts with nobody on it counts each account once. -/
lemma length_foldl_enlist_nil (added : List Address) :
    (added.foldl enlist []).length = added.toFinset.card := by
  rw [← List.toFinset_card_of_nodup (nodup_foldl_enlist List.nodup_nil)]
  congr 1
  ext b
  simp [mem_foldl_enlist]

end Lists

namespace History

variable {h h' : History} {counts : Instruction → Bool} {note : Note}

lemma refund_append : (h ++ h').refund counts = h.refund counts + h'.refund counts := by
  simp [refund]

lemma refund_singleton : refund counts [note] = note.refund counts := by
  simp [refund]

/-- What is not earned for a destruction is earned otherwise. -/
lemma refund_split (h : History) :
    (h.refund fun _ => true) = h.destructionRefund + h.refund (· ≠ .selfDestruct) := by
  have hnote : ∀ note : Note, (note.refund fun _ => true) =
      note.refund (· = .selfDestruct) + note.refund (· ≠ .selfDestruct) := by
    rintro (_ | _ | _ | ⟨f, i, c⟩ | _)
    case did => by_cases hi : i = .selfDestruct <;> simp [Note.refund, hi]
    all_goals rfl
  simp only [destructionRefund, refund]
  rw [← List.sum_map_add]
  exact congrArg List.sum (List.map_congr_left fun note _ => hnote note)

lemma destroyed_append : (h ++ h').destroyed = h.destroyed ++ h'.destroyed := List.filterMap_append

lemma destroyed_eq_nil (hnote : note.destroyed? = none) : destroyed [note] = [] := by
  simp [destroyed, hnote]

end History

namespace Frame

variable {start f g sub : Frame} {h h' : History} {chain : ChainView} {i : Instruction}
  {c : Charge} {note : Note}

/-- **The list and the refund of a frame,** read off its history. -/
structure Rewarded (start : Frame) (h : History) (f : Frame) : Prop where
  removed : f.removed = h.destroyed.foldl enlist start.removed
  refund : f.refund = h.refund fun _ => true
  rewards : h.destructionRefund = 24000 * (f.removed.length - start.removed.length : ℤ)

/-! ## What the notes come to -/

/-- How a frame begins says nothing of destructions. -/
lemma Opens.unrewarded (hg : start.Opens chain note g) :
    g.removed = start.removed ∧ g.refund = start.refund ∧ note.destroyed? = none ∧
      ∀ counts, note.refund counts = 0 := by
  cases hg with
  | called | created | collided => exact ⟨rfl, rfl, rfl, fun _ => rfl⟩

/-- What an instruction earns is booked with its charge, not by itself. -/
lemma Effect.refund_eq {stipend afterGas : Gas} {control : FrameControl}
    (h : f.Effect chain stipend afterGas i g control) : g.refund = f.refund := by
  cases h <;> rfl

/-- **An instruction** earns what was charged, and only one that destroys its account enlists it. -/
lemma CarriesOut.rewarded (hg : f.CarriesOut chain c i g) : g.refund = f.refund + c.refund ∧
    (i = .selfDestruct ∧ g.removed = enlist f.removed f.context.address ∧
        c.refund = (if f.removed.contains f.context.address then 0 else 24000) ∨
      i ≠ .selfDestruct ∧ g.removed = f.removed) := by
  cases hg with
  | @done g op afterGas memory control running checked charged afforded effect =>
      have htraces := follow_traces (g.book c) control
      have hrefund := refund_of_charge charged
      generalize op.instruction = i at effect hrefund ⊢
      refine ⟨by rw [htraces.refund, book, effect.refund_eq]; rfl, ?_⟩
      rw [htraces.removed]
      cases effect with
      | compute program stays plain =>
          refine .inr ⟨?_, rfl⟩
          rintro rfl
          cases plain
      | store | log | create | call => exact .inr ⟨by simp, rfl⟩
      | destroy program pays clears aims holds remains lists =>
          exact .inl ⟨rfl, lists, (Except.ok.inj hrefund).symm⟩

lemma Rewarded.opens (hg : start.Opens chain note g) (hstart : start.refund = 0) :
    Rewarded start [note] g := by
  obtain ⟨hremoved, hrefund, hnone, hzero⟩ := hg.unrewarded
  refine ⟨?_, ?_, ?_⟩
  · rw [hremoved, History.destroyed_eq_nil hnone, List.foldl_nil]
  · rw [hrefund, hstart, History.refund_singleton, hzero]
  · rw [History.destructionRefund, History.refund_singleton, hzero, hremoved, sub_self, mul_zero]

lemma Rewarded.same (hf : Rewarded start h f) (hremoved : g.removed = f.removed)
    (hrefund : g.refund = f.refund) : Rewarded start h g :=
  ⟨hremoved.trans hf.removed, hrefund.trans hf.refund, hremoved ▸ hf.rewards⟩

/-- A note that says nothing of destructions. -/
lemma Rewarded.silent (hf : Rewarded start h f) (hremoved : g.removed = f.removed)
    (hrefund : g.refund = f.refund + note.refund fun _ => true)
    (hnone : note.destroyed? = none) (hzero : note.refund (· = .selfDestruct) = 0) :
    Rewarded start (h ++ [note]) g := by
  refine ⟨?_, ?_, ?_⟩
  · rw [hremoved, hf.removed, History.destroyed_append, History.destroyed_eq_nil hnone,
      List.append_nil]
  · rw [hrefund, hf.refund, History.refund_append, History.refund_singleton]
  · rw [History.destructionRefund, History.refund_append, History.refund_singleton, hzero, add_zero,
      hremoved]
    exact hf.rewards

lemma Rewarded.carriesOut (hf : Rewarded start h f) (hg : f.CarriesOut chain c i g) :
    Rewarded start (h ++ [.did f i c]) g := by
  obtain ⟨hrefund, ⟨rfl, hremoved, hearned⟩ | ⟨hother, hremoved⟩⟩ := hg.rewarded
  · have hnote : (Note.did f .selfDestruct c).refund (· = .selfDestruct) = c.refund := by
      simp [Note.refund]
    refine ⟨?_, ?_, ?_⟩
    · rw [hremoved, hf.removed, History.destroyed_append, List.foldl_append]
      rfl
    · rw [hrefund, hf.refund, History.refund_append, History.refund_singleton]
      rfl
    · -- the account is paid for just if it is new on the list
      rw [History.destructionRefund, History.refund_append, History.refund_singleton, hnote,
        ← History.destructionRefund, hf.rewards, hremoved, hearned, enlist]
      split
      · ring
      · rw [List.length_append, List.length_singleton]
        push_cast
        ring
  · refine hf.silent hremoved hrefund ?_ (by simp [Note.refund, hother])
    simp only [Note.destroyed?]
    split
    · rename_i heq
      cases heq
      exact absurd rfl hother
    · rfl

/-- A frame takes over what the other has earned, and its list. -/
lemma Rewarded.adopts (hf : Rewarded start h f)
    (hsub : Rewarded (f.derive sub.context rules) h' sub)
    (hg : (f.adopt sub ByteArray.empty).SameTraces g) : Rewarded start (h ++ h') g := by
  have hremoved : g.removed = sub.removed := hg.removed
  have hrefund : g.refund = f.refund + sub.refund := hg.refund
  have hlist : sub.removed = h'.destroyed.foldl enlist f.removed := hsub.removed
  have hearned : h'.destructionRefund = 24000 * (sub.removed.length - f.removed.length : ℤ) :=
    hsub.rewards
  refine ⟨?_, ?_, ?_⟩
  · rw [hremoved, hlist, hf.removed, History.destroyed_append, List.foldl_append]
  · rw [hrefund, hf.refund, hsub.refund, History.refund_append]
  · rw [History.destructionRefund, History.refund_append, ← History.destructionRefund,
      ← History.destructionRefund, hf.rewards, hearned, hremoved]
    ring

/-- **Lists and refunds follow the laws of the notes.** -/
lemma rewarded_law (rs : Ruleset) (block : Header) (w : World) :
    History.Law rs block w fun _ => Rewarded where
  grow _ _ h := h
  opens := by
    rintro log start g note - ⟨context, depth, overlay, removed, rfl⟩ hg
    exact .opens hg rfl
  same htraces _ _ h := h.same htraces.removed htraces.refund
  carriesOut _ hg h := h.carriesOut hg
  deposits _ _ _ _ _ _ h := h.silent rfl (add_zero _).symm rfl rfl
  empties _ _ h := h.same rfl rfl
  adopts _ _ htraces _ _ h hsub := h.adopts hsub htraces

/-- Nobody is on a list twice. -/
lemma Accounted.nodup {rules : Rules} {Starts : Frame → Prop} {creation : Bool}
    {waiting : List Frame} {hs : Annals}
    (hf : Accounted rules Starts creation Rewarded f waiting hs)
    (hstarts : ∀ {start}, Starts start → start.removed = []) :
    ∀ g ∈ f :: waiting, g.removed.Nodup := by
  induction hf with
  | root starts opened holds =>
      intro g hg
      obtain rfl := List.mem_singleton.mp hg
      rw [holds.removed, hstarts starts]
      exact nodup_foldl_enlist List.nodup_nil
  | @sub f parent rest h hs asked opened holds below ih =>
      refine List.forall_mem_cons.mpr ⟨?_, ih⟩
      have hparent : parent.removed.Nodup := ih parent List.mem_cons_self
      have hlist : f.removed = h.destroyed.foldl enlist parent.removed := holds.removed
      rw [hlist]
      exact nodup_foldl_enlist hparent

end Frame

/-! ## Runs -/

/-- The list of the frame below the one in a place, counted from the top. -/
def CallStack.removedBelow (s : CallStack) (n : ℕ) : List Address :=
  ((s.current :: s.waiting)[n + 1]?.map Frame.removed).getD []

lemma Transaction.Starts.removed {t : Transaction} {rs : Ruleset} {w : World} {start : Frame}
    (h : t.Starts rs w start) : start.removed = [] := by
  cases h
  rfl

open Engine in
/-- **Each destruction is refunded once.**  Whatever the host answers, every run has annals.  Until
    the settlement, no frame has an account on its list twice, its list goes on from that of the
    frame below, and what it has earned for destructions is 24000 for each account it has added;
    the rest of its refund it has earned otherwise.  After a success what is left are the notes of
    the frames that survive, and what was earned for destructions, which is part of the refund of
    the root, is 24000 for each account that they have destroyed, no matter how often. -/
theorem each_destruction_is_refunded_once (rs : Ruleset) (t : Transaction) (block : Header) :
    (∀ e, Reachable rs t block e → ∃ hs, Narrated rs t block e hs) ∧
    (∀ e hs, Narrated rs t block e hs →
      (∀ x, e.phase = .executing x → x.settled = false →
        hs.length = (x.calls.current :: x.calls.waiting).length ∧
        ∀ (n : ℕ) (f : Frame) (h : History),
          (x.calls.current :: x.calls.waiting)[n]? = some f → hs[n]? = some h →
            f.removed.Nodup ∧
            f.refund = h.destructionRefund + h.refund (· ≠ .selfDestruct) ∧
            ∃ added, f.removed = x.calls.removedBelow n ++ added ∧
              h.destructionRefund = 24000 * added.length) ∧
      (e.status = .exitedOk → ∃ x h, e.settled? = some x ∧ hs = [h] ∧
        x.calls.root.refund = h.destructionRefund + h.refund (· ≠ .selfDestruct) ∧
        h.destructionRefund = 24000 * h.destroyed.toFinset.card)) := by
  refine ⟨fun e h => h.exists_narrated, fun e hs hnarrated => ?_⟩
  obtain ⟨w, ht⟩ := hnarrated.reachable.coherent.exists_tells
  have haccounted := hnarrated.accounted (Frame.rewarded_law rs block w) ht
  refine ⟨fun x hx hunsettled => ?_, fun hok => ?_⟩
  · have hcalls := (haccounted.executing x hx).calls hunsettled
    refine ⟨hcalls.length_eq, fun n f h hf hh => ?_⟩
    obtain ⟨start, hrewarded, hbelow⟩ := hcalls.place hf hh
    have hstart : start.removed = x.calls.removedBelow n := by
      rcases hbelow with ⟨hnone, hstarts⟩ | ⟨parent, hparent, rfl⟩
      · rw [CallStack.removedBelow, hnone, hstarts.removed]
        rfl
      · rw [CallStack.removedBelow, hparent]
        rfl
    obtain ⟨added, hadded⟩ : start.removed <+: f.removed := by
      rw [hrewarded.removed]
      exact prefix_foldl_enlist
    refine ⟨hcalls.nodup (fun h => h.removed) f (List.mem_of_getElem? hf),
      hrewarded.refund.trans (History.refund_split h), added, by rw [← hadded, hstart], ?_⟩
    rw [hrewarded.rewards, ← hadded, List.length_append]
    push_cast
    ring
  · obtain ⟨x, -, root, start, h, swept, hx, -, -, rfl, hstarts, hrewarded, -, -, hroot⟩ :=
      haccounted.success hok
    refine ⟨x, _, hx, rfl, ?_, ?_⟩
    · rw [hroot]
      exact hrewarded.refund.trans (History.refund_split h)
    · have hlength := congrArg List.length hrewarded.removed
      rw [hstarts.removed, length_foldl_enlist_nil] at hlength
      rw [hrewarded.rewards, hstarts.removed, hlength, List.length_nil, Nat.cast_zero, sub_zero]

/-- A world where one account calls a second twice, which destroys itself, and then a third.  That
    one calls a fourth, which destroys itself, and reverts. -/
def crumblingWorld : World :=
  { accounts := (((((∅ : Std.TreeMap Address WorldAccount).insert 200 { balance := 1000000 }).insert
      100 { code := ⟨(callingCode 101 ++ callingCode 101 ++ callingCode 102).toArray⟩ }).insert
      101 { code := ⟨#[0x60, 200, 0xff]⟩ }).insert
      102 { code := ⟨(callingCode 103 ++ [0x60, 0, 0x60, 0, 0xfd]).toArray⟩ }).insert
      103 { code := ⟨#[0x60, 200, 0xff]⟩ } }

/-- The engine that runs a call of the first account, and its annals. -/
def crumblingCallAfter (fuel : ℕ) : Except Fault (Engine × Annals) :=
  (Engine.create .byzantium ⟨200, 1, 200000, .call 100, 0, ByteArray.empty, 0⟩ {}).narrate
    crumblingWorld fuel []

/-- Of three destructions one is paid for: the second is of the same account, and the third was
    undone. -/
theorem crumblingCall_refund : ∃ e h x, crumblingCallAfter 120 = .ok (e, [h]) ∧
    e.settled? = some x ∧ h.destroyed = [101, 101] ∧ x.calls.root.refund = 24000 := by
  have hend : (crumblingCallAfter 120).toOption.map (fun r => (r.1.status,
      r.2.map (·.destroyed), r.2.map (·.refund (· ≠ .selfDestruct)))) =
        some (.exitedOk, [[101, 101]], [0]) := by decide +kernel
  rcases hrun : crumblingCallAfter 120 with fault | ⟨e, hs⟩
  · rw [hrun] at hend
    cases hend
  · rw [hrun] at hend
    simp only [Except.toOption, Option.map_some, Option.some.injEq, Prod.mk.injEq] at hend
    obtain ⟨hok, hdestroyed, hother⟩ := hend
    have hnarrated := (Engine.narrated_of_narrate hrun).1
    obtain ⟨x, h, hx, rfl, hrefund, hearned⟩ :=
      ((each_destruction_is_refunded_once _ _ _).2 e hs hnarrated).2 hok
    simp only [List.map_cons, List.map_nil, List.cons.injEq, and_true] at hdestroyed hother
    refine ⟨e, h, x, rfl, hx, hdestroyed, ?_⟩
    rw [hrefund, hearned, hother, hdestroyed]
    rfl

end ResumableEvm
