import ResumableEvm.Proofs.AccountView
import ResumableEvm.Proofs.StackInvariant

/-!
# Refunds cover the slots that were cleared

Where storage writes are priced by their net effect, a write can take a refund back.  The refund of
a single frame may be negative, if it undoes what a frame below has cleared; but all that frames up
to some depth have earned covers what is cleared in the accounts of the frame there.  So the refund
of the root, which is what the caller gets, is never negative.

* `Overlay.clearedSlots` — the slots that are zero and were not before the transaction.
* `Overlay.cleared` — the same, laid over a world.
* `Frame.Credits` — a move that earns at least what it clears.
* `Frame.Covers` — the refunds of some frames cover what is cleared in each.
* `refunds_cover_cleared_slots` — in every call stack of a run they do.
-/

namespace ResumableEvm

open Classical in
/-- What one element more or less does to the size of a finite set. -/
lemma ncard_add_ite_le {α : Type} [Finite α] {A B : Set α} {p : α}
    (h : ∀ q ∈ B, q ≠ p → q ∈ A) :
    B.ncard + (if p ∈ A then 1 else 0) ≤ A.ncard + (if p ∈ B then 1 else 0) := by
  have hsplit : ∀ C : Set α, C.ncard = (C \ {p}).ncard + (if p ∈ C then 1 else 0) := by
    intro C
    split
    · exact (Set.ncard_sdiff_singleton_add_one ‹_›).symm
    · rw [Set.sdiff_singleton_eq_self ‹_›, add_zero]
  have hrest : (B \ {p}).ncard ≤ (A \ {p}).ncard :=
    Set.ncard_le_ncard fun q hq => ⟨h q hq.1 hq.2, hq.2⟩
  rw [hsplit A, hsplit B]
  omega

/-! ## Slots that were cleared -/

/-- What a slot of a live account was before the transaction, in a world. -/
def LiveAccount.original (w : World) (a : Address) (account : LiveAccount) (index : Word) : Word :=
  if account.reset then 0 else w.slot a index

namespace Overlay

variable {s s' : Overlay} {log : CommitLog} {w : World} {a b : Address} {index value : Word}

/-- **The slots that are zero and were not before the transaction,** as far as they are known. -/
def clearedSlots (s : Overlay) (log : CommitLog) : Set (Address × Word) :=
  {p | s.storage p.1 p.2 log = .ok 0 ∧ s.initialStorage p.1 p.2 log ≠ 0}

/-- What a slot was before the transaction, zero for an account created in it. -/
def original (s : Overlay) (w : World) (a : Address) (index : Word) : Word :=
  match s.entries[a]? with
  | some (.live account) => account.original w a index
  | _ => w.slot a index

/-- The slots that are zero and were not before the transaction, in a world. -/
def cleared (s : Overlay) (w : World) : Set (Address × Word) :=
  {p | (s.view w p.1).slots p.2 = 0 ∧ s.original w p.1 p.2 ≠ 0}

lemma original_of_live {account : LiveAccount} (h : s.entries[a]? = some (.live account)) :
    s.original w a index = account.original w a index := by
  simp only [original, h]

lemma original_of_not_live (h : ∀ account, s.entries[a]? ≠ some (.live account)) :
    s.original w a index = w.slot a index := by
  simp only [original]

lemma mem_cleared : (a, index) ∈ s.cleared w ↔
    (s.view w a).slots index = 0 ∧ s.original w a index ≠ 0 := Iff.rfl

/-- What is known of a slot is what the world says. -/
lemma clearedSlots_subset (ht : log.Tells w) : s.clearedSlots log ⊆ s.cleared w := by
  rintro ⟨a, index⟩ ⟨hzero, hinitial⟩
  refine ⟨((shows_view ht a).storage hzero).symm, ?_⟩
  have hcommitted : (log.storage a index).toOption.getD 0 ≠ 0 → w.slot a index ≠ 0 := by
    intro hne
    cases hs : log.storage a index with
    | error r => simp [hs, Except.toOption] at hne
    | ok told =>
        rw [← ht.storage_eq hs]
        simpa [hs, Except.toOption] using hne
  simp only [initialStorage] at hinitial
  split at hinitial
  · rename_i he
    rw [original_of_live he, LiveAccount.original]
    split at hinitial <;> rename_i hreset
    · exact absurd rfl hinitial
    · rw [if_neg hreset]
      exact hcommitted hinitial
  · rw [original_of_not_live ‹_›]
    exact hcommitted hinitial

/-! ### Writes -/

lemma original_insert_of_ne (s : Overlay) (w : World) (entry : AccountEntry) (h : b ≠ a) :
    ({ s with entries := s.entries.insert a entry } : Overlay).original w b = s.original w b := by
  funext index
  simp [original, Std.TreeMap.getElem?_insert, Ne.symm h]

/-- An entry changes nothing of what is cleared elsewhere. -/
lemma mem_cleared_insert_of_ne (s : Overlay) (w : World) (entry : AccountEntry) (h : b ≠ a) :
    (b, index) ∈ ({ s with entries := s.entries.insert a entry } : Overlay).cleared w ↔
      (b, index) ∈ s.cleared w := by
  rw [mem_cleared, mem_cleared, original_insert_of_ne s w entry h, insert_view,
    Function.update_of_ne h]

/-- Before an account is written to, its slots were what the overlay says they were. -/
lemma live_original (ht : log.Tells w) (hpresent : s.entries[a]? ≠ some .dead)
    {account : LiveAccount} (hl : s.live a log = .ok account) :
    account.original w a index = s.original w a index := by
  have hcommitted : ∀ {account : LiveAccount}, s.committed a log = .ok account →
      account.original w a index = w.slot a index := by
    intro account hcommitted
    obtain ⟨known, hk, rfl⟩ := map_eq_ok.mp hcommitted
    obtain rfl := ht.account_eq hk
    cases hw : w.accounts[a]? with
    | none => simp [World.account, World.slot, LiveAccount.original, fresh, hw]
    | some account => simp [World.account, LiveAccount.original, hw]
  simp only [live] at hl
  simp only [original]
  cases he : s.entries[a]? with
  | none =>
      rw [he] at hl
      exact hcommitted hl
  | some entry =>
      rw [he] at hl
      cases entry with
      | live held =>
          cases hl
          rfl
      | shifted shift =>
          obtain ⟨held, hheld, rfl⟩ := map_eq_ok.mp hl
          have hsame : held.original w a index = w.slot a index := hcommitted hheld
          exact hsame
      | dead => exact absurd he hpresent

/-- **A write** changes what is cleared of its account alone. -/
lemma update_cleared (ht : log.Tells w) (hpresent : s.entries[a]? ≠ some .dead)
    {f : LiveAccount → LiveAccount} (h : s.update a log f = .ok s') : ∃ account : LiveAccount,
      (∀ index, (account.view w a).slots index = (s.view w a).slots index) ∧
      (∀ index, account.original w a index = s.original w a index) ∧
      (∀ index, (a, index) ∈ s'.cleared w ↔
        ((f account).view w a).slots index = 0 ∧ (f account).original w a index ≠ 0) ∧
      ∀ b index, b ≠ a → ((b, index) ∈ s'.cleared w ↔ (b, index) ∈ s.cleared w) := by
  obtain ⟨account, hl, rfl⟩ := update_eq_ok.mp h
  refine ⟨account, fun index => ?_, fun index => live_original ht hpresent hl, fun index => ?_,
    fun b index hb => mem_cleared_insert_of_ne s w _ hb⟩
  · rw [live_view ht hl]
  · rw [mem_cleared, insert_view, Function.update_self]
    simp [original, AccountEntry.view]

/-- A write that keeps the slots keeps what is cleared. -/
lemma update_cleared_subset (ht : log.Tells w) (hpresent : s.entries[a]? ≠ some .dead)
    {f : LiveAccount → LiveAccount} (h : s.update a log f = .ok s')
    (hstorage : ∀ account, (f account).storage = account.storage)
    (hreset : ∀ account, (f account).reset = account.reset) : s'.cleared w ⊆ s.cleared w := by
  obtain ⟨account, hslots, horiginal, hself, hother⟩ := update_cleared ht hpresent h
  rintro ⟨b, index⟩ hb
  by_cases hab : b = a
  · subst hab
    obtain ⟨hzero, hne⟩ := (hself index).mp hb
    simp only [LiveAccount.original, hreset] at hne
    simp only [LiveAccount.view, hstorage, hreset] at hzero
    exact ⟨(hslots index).symm.trans hzero, (horiginal index) ▸ hne⟩
  · exact (hother b index hab).mp hb

lemma moveBalance_cleared {first : Word → BalanceShift} {shift : BalanceShift → Word → BalanceShift}
    {change : Word → Word → Word} (ht : log.Tells w) (hpresent : s.entries[a]? ≠ some .dead)
    (h : s.moveBalance a value log first shift change = .ok s') :
    s'.cleared w ⊆ s.cleared w := by
  simp only [moveBalance] at h
  split at h
  · cases h
    exact subset_rfl
  · split at h
    · cases h
      rintro ⟨b, index⟩ hb
      by_cases hab : b = a
      · -- an account of which only a difference is held has the slots it had
        subst hab
        obtain ⟨hzero, hne⟩ := mem_cleared.mp hb
        simp only [insert_view, Function.update_self, AccountEntry.view, World.view_slots] at hzero
        simp only [original, Std.TreeMap.getElem?_insert_self] at hne
        exact absurd hzero hne
      · exact (mem_cleared_insert_of_ne s w _ hab).mp hb
    · exact update_cleared_subset ht hpresent h (fun _ => rfl) fun _ => rfl

/-- An account that is created has no slots that were something before. -/
lemma create_cleared (ht : log.Tells w) (hpresent : s.entries[a]? ≠ some .dead)
    (h : s.create a log = .ok s') : s'.cleared w ⊆ s.cleared w := by
  obtain ⟨account, -, -, hself, hother⟩ := update_cleared ht hpresent h
  rintro ⟨b, index⟩ hb
  by_cases hab : b = a
  · subst hab
    exact absurd rfl ((hself index).mp hb).2
  · exact (hother b index hab).mp hb

/-- **A slot that is written** is cleared if the value is zero, and the others stay as they are. -/
lemma writeStorage_cleared (ht : log.Tells w) (hpresent : s.entries[a]? ≠ some .dead)
    (h : s.writeStorage a index value log = .ok s') :
    ((a, index) ∈ s'.cleared w ↔ value = 0 ∧ s.original w a index ≠ 0) ∧
      ∀ p ∈ s'.cleared w, p ≠ (a, index) → p ∈ s.cleared w := by
  obtain ⟨account, hslots, horiginal, hself, hother⟩ := update_cleared ht hpresent h
  have hwritten : ∀ j, ({ account with storage := account.storage.insert index value } :
      LiveAccount).original w a j = s.original w a j := horiginal
  refine ⟨?_, ?_⟩
  · rw [hself, hwritten]
    simp [LiveAccount.view]
  · rintro ⟨b, j⟩ hb hne
    by_cases hab : b = a
    · subst hab
      have hj : index ≠ j := fun hij => hne (by rw [hij])
      obtain ⟨hzero, hwas⟩ := (hself j).mp hb
      rw [hwritten] at hwas
      refine ⟨?_, hwas⟩
      rw [← hslots]
      simpa [LiveAccount.view, Std.TreeMap.getElem?_insert, hj] using hzero
    · exact (hother b j hab).mp hb

/-- What a slot that can be read was before the transaction is known. -/
lemma Grounded.initialStorage_eq_original (hg : s.Grounded log) (ht : log.Tells w)
    (hs : s.storage a index log = .ok value) :
    s.initialStorage a index log = s.original w a index := by
  have htold : ∀ {told}, log.storage a index = .ok told →
      (log.storage a index).toOption.getD 0 = w.slot a index := by
    intro told htold
    rw [htold, ← ht.storage_eq htold]
    rfl
  simp only [Overlay.storage] at hs
  split at hs
  · rename_i account he
    rw [original_of_live he]
    simp only [initialStorage, he, LiveAccount.original]
    split
    · rfl
    · rename_i hreset
      split at hs
      · obtain ⟨told, hlog⟩ := hg.slots he (Bool.eq_false_of_not_eq_true hreset) ‹_›
        exact htold hlog
      · rw [if_neg hreset] at hs
        exact htold hs
  · exact absurd ‹_› (hg.present a)
  · rename_i hlive hdead
    rw [original_of_not_live hlive]
    simp only [initialStorage]
    exact htold hs

end Overlay

/-! ## What a move earns -/

namespace Frame

variable {f g sub ended parent : Frame} {chain : ChainView} {w : World} {i : Instruction}
  {c : Charge} {stipend afterGas : Gas} {control : FrameControl} {memory : Memory}
  {below : List Frame}

/-- **The refund of a storage write** makes up for a slot that it clears, and takes back no more
    than what was earned for one that it restores. -/
lemma SlotWrite.refund_covers (w : SlotWrite) :
    15000 * (if w.value = 0 ∧ w.initial ≠ 0 then 1 else 0 : ℤ) ≤
      15000 * (if w.current = 0 ∧ w.initial ≠ 0 then 1 else 0) + w.refund true := by
  obtain ⟨initial, current, value⟩ := w
  simp only [refund]
  split_ifs <;> grind

/-- **A move that earns at least what it clears,** or gives back no more than what it restores. -/
def Credits (w : World) (f g : Frame) : Prop :=
  15000 * ((g.overlay.cleared w).ncard : ℤ) + f.refund ≤
    15000 * ((f.overlay.cleared w).ncard : ℤ) + g.refund

lemma Credits.refl (f : Frame) : f.Credits w f := le_refl _

/-- What clears nothing may earn anything. -/
lemma Credits.of_subset (hcleared : g.overlay.cleared w ⊆ f.overlay.cleared w)
    (hrefund : f.refund ≤ g.refund) : f.Credits w g := by
  have hcard : (g.overlay.cleared w).ncard ≤ (f.overlay.cleared w).ncard :=
    Set.ncard_le_ncard hcleared
  simp only [Credits]
  omega

lemma Credits.of_traces (h : f.SameTraces g) : f.Credits w g :=
  .of_subset (by rw [h.overlay]) h.refund.ge

lemma Credits.trans {k : Frame} (h : f.Credits w g) (h' : g.Credits w k) : f.Credits w k := by
  simp only [Credits] at h h' ⊢
  omega

/-! ### Instructions -/

/-- Only what leaves a trace earns anything. -/
lemma refundOf_of_plain (plain : i.leavesTrace = false) : f.refundOf chain i = .ok 0 := by
  cases i <;> first | rfl | cases plain

/-- Writing a slot earns what the write is worth. -/
lemma credits_store {written : Overlay} {refund : ℤ} (hnet : chain.rules.hasNetStorageGas = true)
    (ht : chain.log.Tells w) (hg : f.overlay.Grounded chain.log)
    (hwritten : f.overlay.writeStorage f.context.address (f.operand 0) (f.operand 1) chain.log =
      .ok written)
    (hrefund : f.refundOf chain .sstore = .ok refund) :
    15000 * ((written.cleared w).ncard : ℤ) ≤
      15000 * ((f.overlay.cleared w).ncard : ℤ) + refund := by
  obtain ⟨write, hwrite, rfl⟩ := map_eq_ok.mp hrefund
  obtain ⟨current, hcurrent, ⟨⟩⟩ := bind_eq_ok.mp hwrite
  have hslots : current = (f.overlay.view w f.context.address).slots (f.operand 0) :=
    (Overlay.shows_view ht _).storage hcurrent
  have hinitial := hg.initialStorage_eq_original ht hcurrent
  obtain ⟨hslot, hothers⟩ := Overlay.writeStorage_cleared ht (hg.present _) hwritten
  have hcovers := SlotWrite.refund_covers
    ⟨f.overlay.initialStorage f.context.address (f.operand 0) chain.log, current, f.operand 1⟩
  have hcount := ncard_add_ite_le hothers
  simp only [hslot, Overlay.mem_cleared, ← hslots] at hcount
  rw [hnet]
  simp only [hinitial] at hcovers ⊢
  split_ifs at hcount hcovers <;> omega

/-- **An instruction** earns at least what it clears. -/
lemma Effect.credits (h : (f.withMemory memory).Effect chain stipend afterGas i g control)
    (hnet : chain.rules.hasNetStorageGas = true) (ht : chain.log.Tells w)
    (hg : f.overlay.Grounded chain.log) (hrefund : f.refundOf chain i = .ok c.refund) :
    f.Credits w ((g.book c).follow control) := by
  refine Credits.trans (g := g.book c) ?_ (.of_traces (follow_traces (g.book c) control))
  have hclears : g.overlay.cleared w ⊆ f.overlay.cleared w → g.refund = f.refund →
      0 ≤ c.refund → f.Credits w (g.book c) := by
    intro hcleared hsame hearned
    refine .of_subset hcleared ?_
    show f.refund ≤ g.refund + c.refund
    omega
  cases h with
  | compute program stays plain =>
      have hzero := Except.ok.inj ((refundOf_of_plain plain).symm.trans hrefund)
      exact hclears subset_rfl rfl hzero.le
  | @store machine overlay program written =>
      have hstore := credits_store hnet ht hg written hrefund
      show 15000 * ((overlay.cleared w).ncard : ℤ) + f.refund ≤
        15000 * ((f.overlay.cleared w).ncard : ℤ) + (f.refund + c.refund)
      omega
  | log | call =>
      have hzero := Except.ok.inj hrefund
      exact hclears subset_rfl rfl hzero.le
  | create program raised =>
      have hzero := Except.ok.inj hrefund
      exact hclears (Overlay.update_cleared_subset ht (hg.present _) raised (fun _ => rfl)
        fun _ => rfl) rfl hzero.le
  | destroy program pays clears =>
      have hpaid : Overlay.Grounded _ chain.log := hg.moveBalance pays
      have hearned : 0 ≤ c.refund := by
        rw [← Except.ok.inj hrefund]
        split <;> omega
      exact hclears ((Overlay.moveBalance_cleared ht (hpaid.present _) clears).trans
        (Overlay.moveBalance_cleared ht (hg.present _) pays)) rfl hearned

/-- **A step of a frame** earns at least what it clears. -/
lemma Stepped.credits (h : f.Stepped chain g) (hnet : chain.rules.hasNetStorageGas = true)
    (ht : chain.log.Tells w) (hg : f.overlay.Grounded chain.log) : f.Credits w g := by
  cases h with
  | idle | past | refused | unaffordable => exact .refl f
  | precompile running contract => exact .of_traces (runPrecompile_traces f _)
  | executed running code checked charged afforded effect =>
      exact effect.credits hnet ht hg (refund_of_charge charged)

/-! ### From frame to frame -/

/-- A frame begins with nothing cleared but what was cleared before. -/
lemma Begun.cleared (h : f.Begun chain g) (ht : chain.log.Tells w)
    (hg : f.overlay.Grounded chain.log) :
    g.overlay.cleared w ⊆ f.overlay.cleared w ∧ g.refund = f.refund := by
  cases h with
  | call pays moves =>
      have hpaid := hg.moveBalance pays
      exact ⟨(Overlay.moveBalance_cleared ht (hpaid.present _) moves).trans
        (Overlay.moveBalance_cleared ht (hg.present _) pays), rfl⟩
  | create pays moves creates =>
      have hpaid := hg.moveBalance pays
      have hmoved := hpaid.moveBalance moves
      exact ⟨((Overlay.create_cleared ht (hmoved.present _) creates).trans
        (Overlay.moveBalance_cleared ht (hpaid.present _) moves)).trans
          (Overlay.moveBalance_cleared ht (hg.present _) pays), rfl⟩
  | collision => exact ⟨subset_rfl, rfl⟩

lemma Deposited.credits (h : f.Deposited chain g) (ht : chain.log.Tells w)
    (hg : f.overlay.Grounded chain.log) : f.Credits w g := by
  cases h with
  | skipped | failed => exact .refl _
  | empty ended deposits | paid ended affordable deposits =>
      exact .of_subset (Overlay.update_cleared_subset ht (hg.present _) deposits (fun _ => rfl)
        fun _ => rfl) le_rfl

/-! ## Frames together -/

/-- **Refunds that cover what is cleared.**  The frames come with the topmost first; what is
    cleared in one of them is covered by what it and those below it have earned. -/
def Covers (w : World) : List Frame → Prop
  | [] => True
  | f :: below =>
    15000 * ((f.overlay.cleared w).ncard : ℤ) ≤ ((f :: below).map (·.refund)).sum ∧ Covers w below

lemma Covers.move (h : Covers w (f :: below)) (hfg : f.Credits w g) : Covers w (g :: below) := by
  refine ⟨?_, h.2⟩
  have hcovers := h.1
  simp only [Credits] at hfg
  simp only [List.map_cons, List.sum_cons] at hcovers ⊢
  omega

/-- A frame that is entered has earned nothing and cleared nothing. -/
lemma Covers.enter (h : Covers w (f :: below))
    (hcleared : g.overlay.cleared w ⊆ f.overlay.cleared w) (hrefund : g.refund = 0) :
    Covers w (g :: f :: below) := by
  refine ⟨?_, h⟩
  have hcovers := h.1
  have hcard : (g.overlay.cleared w).ncard ≤ (f.overlay.cleared w).ncard :=
    Set.ncard_le_ncard hcleared
  simp only [List.map_cons, List.sum_cons] at hcovers ⊢
  omega

/-- **Going back:** what a frame takes over is covered by what it earns with it, and what it leaves
    behind it need not cover. -/
lemma Covers.resume (h : Covers w (sub :: f :: below)) (region : Option (Word × Word)) :
    Covers w (f.resume sub region :: below) := by
  have hcovers := h.1
  rcases f.resume_traces sub region with ⟨-, hsame⟩ | ⟨-, hadopted⟩
  · exact h.2.move (.of_traces hsame)
  · refine ⟨?_, h.2.2⟩
    simp only [List.map_cons, List.sum_cons] at hcovers ⊢
    rw [hadopted.overlay, hadopted.refund]
    show 15000 * ((sub.overlay.cleared w).ncard : ℤ) ≤ f.refund + sub.refund + _
    omega

lemma Covers.absorb (h : Covers w (ended :: f :: below)) (ha : f.Absorbed ended chain parent sub)
    (ht : chain.log.Tells w) (hg : ended.overlay.Grounded chain.log) :
    Covers w (parent :: below) := by
  cases ha with
  | returned => exact h.resume _
  | created asked deposited => exact (h.move (deposited.credits ht hg)).resume _
  | dropped => exact h.2

/-- What is cleared in a place is covered by what was earned up to there. -/
lemma Covers.place {frames : List Frame} (h : Covers w frames) {n : ℕ}
    (hf : frames.reverse[n]? = some f) :
    15000 * ((f.overlay.cleared w).ncard : ℤ) ≤
      ((frames.reverse.take (n + 1)).map (·.refund)).sum := by
  induction frames with
  | nil => cases hf
  | cons top below ih =>
      rcases getElem?_reverse_cons.mp hf with hbelow | ⟨rfl, rfl⟩
      · have hlt : n < below.length := by
          simpa using (List.getElem?_eq_some_iff.mp hbelow).1
        rw [List.reverse_cons, List.take_append_of_le_length (by simpa using hlt)]
        exact ih h.2 hbelow
      · rw [List.take_of_length_le (by simp), List.map_reverse, List.sum_reverse]
        exact h.1

end Frame

/-! ## Runs -/

namespace CallStack

/-- The frames' overlays are grounded, and their refunds cover what is cleared. -/
def Covered (w : World) (log : CommitLog) (s : CallStack) : Prop :=
  s.Every (fun log f => f.overlay.Grounded log) log ∧ Frame.Covers w (s.current :: s.waiting)

lemma covered_kept {rs : Ruleset} (hnet : rs.rules.hasNetStorageGas = true) (block : Header)
    (w : World) : Kept rs block w (Covered w) where
  grow ht hw hs := ⟨hs.1.grow (Frame.grounded_kept rs block w) ht hw, hs.2⟩
  step {log s s'} ht hstepped hs := by
    obtain ⟨hgrounded, hcovers⟩ := hs
    refine ⟨hstepped.every (Frame.grounded_kept rs block w) ht hgrounded, ?_⟩
    have hcurrent := hgrounded _ List.mem_cons_self
    cases hstepped with
    | ran running stepped => exact hcovers.move (stepped.credits hnet ht hcurrent)
    | entered asked begun =>
        obtain ⟨hcleared, hrefund⟩ := begun.cleared ht hcurrent
        exact hcovers.enter hcleared hrefund
    | rested => exact hcovers
    | left ended below absorbs =>
        rw [below] at hcovers
        exact hcovers.absorb (Frame.absorb_absorbed absorbs) ht hcurrent
  deposit {log s root} ht halone hdeposited hs := by
    refine ⟨(Frame.grounded_kept rs block w).everywhere.deposit ht halone hdeposited hs.1, ?_⟩
    exact hs.2.move (hdeposited.credits ht (hs.1 _ List.mem_cons_self))

/-- The root is the first of the frames. -/
lemma exists_frames_eq (s : CallStack) : ∃ above, s.frames = s.root :: above := by
  simp only [frames, root]
  rcases List.eq_nil_or_concat s.waiting with hnil | ⟨between, root, hroot⟩
  · exact ⟨[], by simp [hnil]⟩
  · exact ⟨(s.current :: between).reverse, by simp [hroot]⟩

/-- The root alone covers what is cleared in it, so its refund is not negative. -/
lemma Covered.root_refund {w : World} {log : CommitLog} {s : CallStack} (h : s.Covered w log) :
    0 ≤ s.root.refund := by
  obtain ⟨above, habove⟩ := s.exists_frames_eq
  have hroot : s.frames[0]? = some s.root := by rw [habove, List.getElem?_cons_zero]
  have hcovers : 15000 * ((s.root.overlay.cleared w).ncard : ℤ) ≤
      ((s.frames.take 1).map (·.refund)).sum := h.2.place hroot
  rw [habove] at hcovers
  simp only [List.take_succ_cons, List.take_zero, List.map_cons, List.map_nil, List.sum_cons,
    List.sum_nil, add_zero] at hcovers
  omega

end CallStack

/-- Settling leaves the refund of the root as it was. -/
lemma Execution.Upholds.root_refund {rs : Ruleset} {block : Header} {w : World} {log : CommitLog}
    {x : Execution} (h : x.Upholds rs block w (CallStack.Covered w) log) :
    0 ≤ x.calls.root.refund := by
  cases h with
  | running unsettled calls => exact calls.root_refund
  | @settled y told root tells within alone last settles =>
      obtain ⟨swept, -, hroot⟩ := Frame.settle_settles settles
      have hsame : root.refund = y.calls.root.refund := by
        rcases hroot with ⟨-, rfl⟩ | ⟨-, rfl⟩ <;> rfl
      show 0 ≤ (y.calls.withRoot root).root.refund
      rw [Execution.root_withRoot alone, hsame]
      exact last.root_refund

namespace Engine

variable {rs : Ruleset} {t : Transaction} {block : Header} {e : Engine}

/-- An execution begins with nothing cleared. -/
lemma covered_of_accept {w : World} {log : CommitLog} {start : Execution} (ht : log.Tells w)
    (h : t.accept ⟨rs, block, log⟩ = .ok (.ok start)) : start.calls.Covered w log := by
  obtain ⟨nonce, fresh, paid, code, root, hfresh, hpaid, hroot, rfl⟩ :=
    (Transaction.accept_accepted h).begun
  have hempty : (Overlay.empty rs.rules.accounts).cleared w = ∅ := by
    ext ⟨a, index⟩
    simp [Overlay.mem_cleared, Overlay.view, Overlay.original, Overlay.empty]
  have hgempty := Overlay.Grounded.empty rs.rules.accounts log
  have hgfresh := hgempty.setNonce hfresh
  have hgpaid := hgfresh.moveBalance hpaid
  have hbegun := Transaction.beginRoot_begun hroot
  have hnone : paid.cleared w ⊆ ∅ := by
    rw [← hempty]
    exact (Overlay.moveBalance_cleared ht (hgfresh.present _) hpaid).trans
      (Overlay.update_cleared_subset ht (hgempty.present _) hfresh (fun _ => rfl) fun _ => rfl)
  obtain ⟨hcleared, hrefund⟩ := hbegun.cleared ht hgpaid
  refine ⟨?_, ?_, trivial⟩
  · intro f hf
    obtain rfl := List.mem_singleton.mp hf
    exact hbegun.grounded hgpaid
  · have hroot : root.overlay.cleared w = ∅ := Set.subset_empty_iff.mp (hcleared.trans hnone)
    show 15000 * ((root.overlay.cleared w).ncard : ℤ) ≤ ([root].map (·.refund)).sum
    rw [hroot, Set.ncard_empty, List.map_singleton, List.sum_singleton, hrefund]
    exact le_refl _

end Engine

open Engine in
/-- **Refunds cover the slots that were cleared,** where storage writes are priced by their net
    effect.  Whatever the host answers: until a transaction is settled, the refunds of all frames up
    to any place come to 15000 at least for each slot that is zero in the accounts of the frame
    there and was not before the transaction.  So the refund of the root is never negative, and
    after a success nothing is changed by counting a negative one as none. -/
theorem refunds_cover_cleared_slots {rs : Ruleset} {t : Transaction} {block : Header} {e : Engine}
    (hnet : rs.rules.hasNetStorageGas = true) (h : Reachable rs t block e) :
    (∀ x, e.phase = .executing x → x.settled = false →
      ∀ (i : ℕ) (f : Frame), x.calls.frames[i]? = some f →
        15000 * ((f.overlay.clearedSlots e.chain.log).ncard : ℤ) ≤
          ((x.calls.frames.take (i + 1)).map (·.refund)).sum) ∧
    (∀ x, e.phase = .executing x → 0 ≤ x.calls.root.refund) ∧
    (e.status = .exitedOk → ∃ x, e.settled? = some x ∧ 0 ≤ x.calls.root.refund ∧
      (x.calls.root.refund.toNat : ℤ) = x.calls.root.refund) := by
  obtain ⟨w, ht⟩ := h.coherent.exists_tells
  have hupholds := h.upholds ht (CallStack.covered_kept hnet block w) covered_of_accept
  have hroot : ∀ x, e.phase = .executing x → 0 ≤ x.calls.root.refund := fun x hx =>
    (hupholds.executing x hx).root_refund
  refine ⟨fun x hx hunsettled i f hf => ?_, hroot, fun hok => ?_⟩
  · have hcovers := ((hupholds.executing x hx).calls hunsettled).2.place hf
    have hcard : (f.overlay.clearedSlots e.chain.log).ncard ≤ (f.overlay.cleared w).ncard :=
      Set.ncard_le_ncard (Overlay.clearedSlots_subset ht)
    exact le_trans (by omega) hcovers
  · obtain ⟨x, hx, -⟩ := settled_of_exitedOk hok
    have hearned := hroot x (phase_of_settled hx)
    exact ⟨x, hx, hearned, Int.toNat_of_nonneg hearned⟩

/-- A world with a caller and an account that clears a slot. -/
def clearingWorld : World :=
  { accounts := ((∅ : Std.TreeMap Address WorldAccount).insert 200
      { balance := 1000000 }).insert 300
      { code := ⟨#[0x60, 0, 0x60, 7, 0x55, 0x00]⟩, storage := (∅ : SlotMap).insert 7 8 } }

/-- The engine that runs a call of that account, after some steps and answers. -/
def clearingCallAfter (fuel : ℕ) : Except Fault Engine :=
  (Engine.create .constantinople ⟨200, 1, 100000, .call 300, 0, ByteArray.empty, 0⟩ {}).run
    clearingWorld false fuel

/-- The root earns the refund for the slot, and it counts in full. -/
theorem clearingCall_earns_refund : ∃ e x, clearingCallAfter 30 = .ok e ∧ e.settled? = some x ∧
    e.refundedGas = 15000 ∧ (x.calls.root.refund.toNat : ℤ) = x.calls.root.refund := by
  have hend : (clearingCallAfter 30).toOption.map (fun e => (e.status, e.refundedGas)) =
      some (.exitedOk, 15000) := by decide +kernel
  rcases hrun : clearingCallAfter 30 with fault | e
  · rw [hrun] at hend
    cases hend
  · rw [hrun] at hend
    obtain ⟨hok, hrefund⟩ := Prod.mk.inj (Option.some.inj hend)
    have hhosted : Engine.Hosted .constantinople
        ⟨200, 1, 100000, .call 300, 0, ByteArray.empty, 0⟩ {} clearingWorld e := .run .create hrun
    obtain ⟨x, hx, -, hkept⟩ := (refunds_cover_cleared_slots rfl hhosted.reachable).2.2 hok
    exact ⟨e, x, rfl, hx, hrefund, hkept⟩

end ResumableEvm
