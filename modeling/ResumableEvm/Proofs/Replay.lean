import ResumableEvm.Proofs.AnchoredOverlay

/-!
# Replaying changes

A host applies the changes of a transaction to its own state, one account at a time.  Replayed on
the world that an overlay lies over, the changes of an overlay that is anchored in the log make a
world that says of every account what the overlay does; and they change nothing in vain.

* `AccountChange.applyTo`, `World.replay` — what a host makes of changes.
* `Overlay.changes_ascending`, `Overlay.mem_changes` — one change at most for every address.
* `Overlay.Anchored.replay_view` — the replayed world says what the overlay says.
* `Overlay.Anchored.full_change` and so on — every change changes something.
-/

namespace ResumableEvm

/-! ## What a host does -/

/-- What a change makes of the account at its address.  An account that did not exist before a
    balance was moved has the first nonce. -/
def AccountChange.applyTo (rules : AccountRules) :
    AccountChange → Option WorldAccount → Option WorldAccount
  | .full r, old => some ⟨r.nonce, r.balance, r.code, (old.map (·.storage)).getD ∅ ∪ r.storage⟩
  | .create r, _ => some ⟨r.nonce, r.balance, r.code, r.storage⟩
  | .increaseBalance _ value, old =>
    let account := old.getD { nonce := rules.initialNonce }
    some { account with balance := account.balance.addSat value }
  | .decreaseBalance _ value, old =>
    let account := old.getD { nonce := rules.initialNonce }
    some { account with balance := account.balance.subSat value }
  | .removed _, _ => none

/-- **Replaying.**  Applies changes one after the other. -/
def World.replay (w : World) (rules : AccountRules) (changes : List AccountChange) : World :=
  changes.foldl
    (fun w change => { w with accounts := w.accounts.alter change.address (change.applyTo rules) })
    w

variable {log : CommitLog} {w : World} {rules : AccountRules} {a b : Address} {index value : Word}

namespace World

/-- An account that no change is about stays as it is. -/
lemma replay_untouched (w : World) {changes : List AccountChange}
    (h : ∀ change ∈ changes, change.address ≠ a) :
    (w.replay rules changes).accounts[a]? = w.accounts[a]? := by
  induction changes generalizing w with
  | nil => rfl
  | cons change rest ih =>
      obtain ⟨hne, hrest⟩ := List.forall_mem_cons.mp h
      have hnext := ih { w with
        accounts := w.accounts.alter change.address (change.applyTo rules) } hrest
      refine hnext.trans ?_
      rw [Std.TreeMap.getElem?_alter, if_neg]
      simpa using hne

/-- An account that one change is about is what that change makes of it. -/
lemma replay_of_mem (w : World) {changes : List AccountChange} {change : AccountChange}
    (hdistinct : changes.Pairwise fun c d => c.address ≠ d.address) (hc : change ∈ changes) :
    (w.replay rules changes).accounts[change.address]? =
      change.applyTo rules w.accounts[change.address]? := by
  induction changes generalizing w with
  | nil => cases hc
  | cons first rest ih =>
      obtain ⟨hfirst, hrest⟩ := List.pairwise_cons.mp hdistinct
      rcases List.mem_cons.mp hc with rfl | hc
      · let w' := { w with
          accounts := w.accounts.alter change.address (change.applyTo rules) }
        have hnone : (w'.replay rules rest).accounts[change.address]? =
            w'.accounts[change.address]? :=
          w'.replay_untouched fun d hd => (hfirst d hd).symm
        refine hnone.trans ?_
        rw [Std.TreeMap.getElem?_alter, if_pos (by simp)]
      · have hnext := ih { w with
          accounts := w.accounts.alter first.address (first.applyTo rules) } hrest hc
        refine hnext.trans ?_
        rw [Std.TreeMap.getElem?_alter, if_neg]
        simpa using hfirst change hc

end World

/-! ## The changes of an overlay -/

namespace Overlay

variable {s : Overlay} {change : AccountChange} {entry : AccountEntry}

/-- **How a change comes about** from what is held of an account. -/
inductive ChangeOf (log : CommitLog) (a : Address) : AccountEntry → AccountChange → Prop where
  | paid {value : Word} (something : value ≠ 0) :
      ChangeOf log a (.shifted (.up value)) (.increaseBalance a value)
  | charged {value : Word} (something : value ≠ 0) :
      ChangeOf log a (.shifted (.down value)) (.decreaseBalance a value)
  | removed (existed : log.accounts[a]? ≠ some .nonexistent) : ChangeOf log a .dead (.removed a)
  /-- Only the balance of the account has changed. -/
  | grown {account : LiveAccount} {before : Word} (grows : before < account.balance) :
      ChangeOf log a (.live account) (.increaseBalance a (account.balance - before))
  | shrunk {account : LiveAccount} {before : Word} (shrinks : account.balance < before) :
      ChangeOf log a (.live account) (.decreaseBalance a (before - account.balance))
  | replaced {account : LiveAccount} {nonce balance : Word} {code : Bytes}
      (kept : account.reset = false)
      (known : log.accounts[a]? = some (.full nonce balance code))
      (differs : ¬ (account.nonce = nonce ∧ account.code = code ∧
        (changedSlots a account log).isEmpty)) :
      ChangeOf log a (.live account)
        (.full ⟨account.nonce, a, account.balance, changedSlots a account log, account.code⟩)
  | created {account : LiveAccount} :
      ChangeOf log a (.live account) (.create ⟨account.nonce, a, account.balance,
        account.storage.filter fun _ value => value ≠ 0, account.code⟩)

/-- Every change comes about in one of these ways. -/
lemma change?_changeOf (h : change? a entry log = some change) : ChangeOf log a entry change := by
  cases entry with
  | shifted shift =>
      cases shift with
      | up value =>
          simp only [change?] at h
          split at h <;> cases h
          exact .paid ‹_›
      | down value =>
          simp only [change?] at h
          split at h <;> cases h
          exact .charged ‹_›
  | dead =>
      simp only [change?] at h
      split at h <;> cases h
      exact .removed ‹_›
  | live account =>
      simp only [change?, liveChange?] at h
      split at h
      · rename_i hknown hreset
        split at h
        · simp only [balanceChange?] at h
          split at h
          · cases h
            exact .grown ‹_›
          · split at h <;> cases h
            exact .shrunk ‹_›
        · cases h
          exact .replaced hreset hknown ‹_›
      · cases h
        exact .created

/-- A change is about the account whose entry it was found in. -/
lemma address_change? (h : change? a entry log = some change) : change.address = a := by
  cases change?_changeOf h <;> rfl

/-- Every change was found in the entry of its account. -/
lemma mem_changes : change ∈ s.changes log ↔
    ∃ entry, s.entries[change.address]? = some entry ∧
      change? change.address entry log = some change := by
  simp only [changes, List.mem_filterMap, Prod.exists]
  constructor
  · rintro ⟨a, entry, he, hc⟩
    obtain rfl := address_change? hc
    exact ⟨entry, Std.TreeMap.mem_toList_iff_getElem?_eq_some.mp he, hc⟩
  · rintro ⟨entry, he, hc⟩
    exact ⟨change.address, entry, Std.TreeMap.mem_toList_iff_getElem?_eq_some.mpr he, hc⟩

/-- **Changes come in ascending order,** so there is one at most for every address. -/
lemma changes_ascending (s : Overlay) (log : CommitLog) :
    (s.changes log).Pairwise fun c d => c.address < d.address := by
  refine List.Pairwise.filterMap _ ?_ Std.TreeMap.ordered_keys_toList
  rintro ⟨a, entry⟩ ⟨b, entry'⟩ hlt c hc d hd
  rw [address_change? hc, address_change? hd]
  exact compareOfLessAndEq_eq_lt.mp hlt

lemma changes_distinct (s : Overlay) (log : CommitLog) :
    (s.changes log).Pairwise fun c d => c.address ≠ d.address :=
  (s.changes_ascending log).imp fun {c d} hlt heq => by
    rw [heq] at hlt
    exact BitVec.lt_irrefl _ hlt

/-! ## The replayed world -/

/-- What is told of an account that was not created anew. -/
lemma liveChange?_kept {account : LiveAccount} {nonce balance : Word} {code : Bytes}
    (hreset : account.reset = false)
    (hk : log.accounts[a]? = some (.full nonce balance code)) : liveChange? a account log =
      if account.nonce = nonce ∧ account.code = code ∧ (changedSlots a account log).isEmpty then
        balanceChange? a balance account.balance
      else some (.full ⟨account.nonce, a, account.balance, changedSlots a account log,
        account.code⟩) := by
  simp only [liveChange?, hk, hreset]

/-- What is told of an account that was created anew. -/
lemma liveChange?_reset {account : LiveAccount} (hreset : account.reset = true) :
    liveChange? a account log = some (.create ⟨account.nonce, a, account.balance,
      account.storage.filter fun _ value => value ≠ 0, account.code⟩) := by
  simp only [liveChange?]
  split
  · rename_i hkept
    rw [hreset] at hkept
    cases hkept
  · rfl

/-- A slot that did not change is left out. -/
lemma changedSlots_getElem? {account : LiveAccount} (ht : log.Tells w)
    (hl : account.Anchored log a) (hreset : account.reset = false) (index : Word) :
    (changedSlots a account log)[index]? =
      account.storage[index]?.filter fun value => w.slot a index ≠ value := by
  simp only [changedSlots, Std.TreeMap.getElem?_filter']
  cases hv : account.storage[index]? with
  | none => rfl
  | some value =>
      obtain ⟨told, htold⟩ := hl.slots hreset hv
      rw [htold, ← ht.storage_eq htold]
      simp [Except.toOption, Option.filter]

/-- So the slots that changed say as much as all that were written. -/
lemma changedSlots_getD {account : LiveAccount} (ht : log.Tells w)
    (hl : account.Anchored log a) (hreset : account.reset = false) (index : Word) :
    (changedSlots a account log)[index]?.getD (w.slot a index) =
      account.storage[index]?.getD (w.slot a index) := by
  rw [changedSlots_getElem? ht hl hreset]
  cases account.storage[index]? with
  | none => rfl
  | some value =>
      by_cases hsame : w.slot a index = value
      · simp [Option.filter, hsame]
      · simp [Option.filter, hsame]

/-- What a host makes of a change, if there is one. -/
def applyChange? (rules : AccountRules) (change : Option AccountChange)
    (old : Option WorldAccount) : Option WorldAccount :=
  (change.map fun c => c.applyTo rules old).getD old

/-- The change of a balance leads to the balance that it was made for. -/
lemma applyChange?_balance (old : WorldAccount) (after : Word) :
    applyChange? rules (balanceChange? a old.balance after) (some old) =
      some { old with balance := after } := by
  have hlt : ∀ x y : Word, x < y ↔ x.toNat < y.toNat := fun _ _ => BitVec.lt_def
  have hmax := after.toNat_le_maxWord
  simp only [balanceChange?]
  split
  · rename_i hgrown
    rw [hlt] at hgrown
    have hsum : old.balance.addSat (after - old.balance) = after := by
      apply BitVec.eq_of_toNat_eq
      rw [Word.toNat_addSat, BitVec.toNat_sub_of_le (BitVec.le_def.mpr hgrown.le)]
      omega
    simp [applyChange?, AccountChange.applyTo, hsum]
  · split
    · rename_i hshrunk
      rw [hlt] at hshrunk
      have hrest : old.balance.subSat (old.balance - after) = after := by
        apply BitVec.eq_of_toNat_eq
        rw [Word.toNat_subSat, BitVec.toNat_sub_of_le (BitVec.le_def.mpr hshrunk.le)]
        omega
      simp [applyChange?, AccountChange.applyTo, hrest]
    · rename_i hup hdown
      rw [hlt] at hup hdown
      obtain rfl : old.balance = after := BitVec.eq_of_toNat_eq (by omega)
      rfl

/-- Applying the change of an account that was created anew. -/
lemma applyChange?_reset {account : LiveAccount} (hreset : account.reset = true)
    (old : Option WorldAccount) :
    ((applyChange? rules (liveChange? a account log) old).map WorldAccount.view).getD
      (.absent rules) = account.view w a := by
  rw [liveChange?_reset hreset]
  simp only [applyChange?, Option.map_some, Option.getD_some, AccountChange.applyTo,
    WorldAccount.view, LiveAccount.view, hreset, if_true]
  congr 1
  funext index
  rw [Std.TreeMap.getElem?_filter']
  cases account.storage[index]? with
  | none => rfl
  | some value =>
      simp only [Option.filter, Option.getD_some]
      split
      · rfl
      · rename_i hzero
        have hvalue : value = 0 := by simpa using hzero
        exact hvalue.symm

/-- Applying the change of an account that was not created anew. -/
lemma applyChange?_kept {account : LiveAccount} {old : WorldAccount} (ht : log.Tells w)
    (hl : account.Anchored log a) (hreset : account.reset = false)
    (hk : log.accounts[a]? = some (.full old.nonce old.balance old.code))
    (hw : w.accounts[a]? = some old) :
    ((applyChange? rules (liveChange? a account log) (some old)).map WorldAccount.view).getD
      (.absent rules) = account.view w a := by
  have hslots := changedSlots_getD ht hl hreset
  have hslot : ∀ index, old.storage[index]?.getD 0 = w.slot a index := by
    intro index
    simp [World.slot, hw]
  have hview : account.view w a = ⟨true, account.nonce, account.balance, account.code,
      fun index => (changedSlots a account log)[index]?.getD (w.slot a index)⟩ := by
    simp [LiveAccount.view, hreset, hslots]
  rw [hview, liveChange?_kept hreset hk]
  split
  · -- nothing but the balance differs, and no slot is told
    rename_i hsame
    obtain ⟨hnonce, hcode, hempty⟩ := hsame
    have hnone : ∀ index, (changedSlots a account log)[index]? = none := fun index =>
      Std.TreeMap.getElem?_eq_none (Std.TreeMap.isEmpty_iff_forall_not_mem.mp hempty index)
    rw [applyChange?_balance]
    simp only [Option.map_some, Option.getD_some, WorldAccount.view, hnonce, hcode, hnone, hslot,
      Option.getD_none]
  · simp only [applyChange?, Option.map_some, Option.getD_some, AccountChange.applyTo,
      WorldAccount.view]
    congr 1
    funext index
    rw [Std.TreeMap.getElem?_union, ← hslot]
    cases (changedSlots a account log)[index]? <;> rfl

/-- **Applying the change of an entry** gives what the entry says of its account. -/
lemma applyChange?_view (ht : log.Tells w) (he : entry.Anchored log a) :
    ((applyChange? rules (change? a entry log) w.accounts[a]?).map WorldAccount.view).getD
      (.absent rules) = entry.view rules w a := by
  have haccount : ∀ {known}, log.accounts[a]? = some known → known = w.account a := ht.account
  simp only [World.account] at haccount
  cases he with
  | @paid value something =>
      simp only [change?, if_neg something, applyChange?, Option.map_some, Option.getD_some,
        AccountChange.applyTo, AccountEntry.view, World.view, BalanceShift.apply]
      cases w.accounts[a]? <;> rfl
  | dead =>
      simp only [change?, AccountEntry.view]
      split
      · rename_i hnone
        have hworld := haccount hnone
        split at hworld
        · cases hworld
        · simp [applyChange?, *]
      · rfl
  | @live account anchored =>
      simp only [change?, AccountEntry.view]
      cases hreset : account.reset with
      | true => exact applyChange?_reset hreset _
      | false =>
          obtain ⟨nonce, balance, code, hk⟩ := anchored.committed hreset
          have hworld := haccount hk
          split at hworld <;> cases hworld
          rename_i old hw
          rw [hw]
          exact applyChange?_kept ht anchored hreset hk hw

namespace Anchored

/-- **The replayed world says of every account what the overlay does.** -/
lemma replay_view (hs : s.Anchored rules log) (ht : log.Tells w) :
    (w.replay rules (s.changes log)).view rules = s.view w := by
  have hrules := hs.rules
  subst hrules
  funext a
  simp only [World.view, view]
  cases he : s.entries[a]? with
  | none =>
      rw [w.replay_untouched]
      · rfl
      · rintro change hchange rfl
        obtain ⟨entry, hentry, -⟩ := mem_changes.mp hchange
        rw [he] at hentry
        cases hentry
  | some entry =>
      have hview : ((applyChange? s.rules (change? a entry log) w.accounts[a]?).map
          WorldAccount.view).getD (.absent s.rules) = entry.view s.rules w a :=
        applyChange?_view ht (hs.entry he)
      cases hc : change? a entry log with
      | none =>
          rw [w.replay_untouched]
          · rw [hc] at hview
            exact hview
          · rintro change hchange rfl
            obtain ⟨held, hheld, hsome⟩ := mem_changes.mp hchange
            obtain rfl : entry = held := Option.some.inj (he.symm.trans hheld)
            rw [hc] at hsome
            cases hsome
      | some change =>
          obtain rfl := address_change? hc
          rw [w.replay_of_mem (s.changes_distinct log) (mem_changes.mpr ⟨entry, he, hc⟩)]
          rw [hc] at hview
          exact hview

/-! ## No change in vain -/

/-- An account that is replaced differs from what it was in its nonce, its code or a slot, and so
    does every slot that comes with it. -/
lemma full_change {r : AccountRecord} (hs : s.Anchored rules log) (ht : log.Tells w)
    (h : .full r ∈ s.changes log) : ∃ old, w.accounts[r.address]? = some old ∧
      (r.nonce ≠ old.nonce ∨ r.code ≠ old.code ∨
        ∃ index value : Word, r.storage[index]? = some value) ∧
          ∀ index value : Word, r.storage[index]? = some value →
            value ≠ w.slot r.address index := by
  obtain ⟨entry, he, hc⟩ := mem_changes.mp h
  obtain ⟨nonce, a, balance, slots, code⟩ := r
  simp only [AccountChange.address] at he hc ⊢
  cases change?_changeOf hc with
  | @replaced account nonce' balance' code' kept known differs =>
      cases hs.entry he with
      | live anchored =>
          have hworld := ht.account known
          simp only [World.account] at hworld
          split at hworld <;> cases hworld
          rename_i old hw
          refine ⟨old, hw, ?_, fun index value hv => ?_⟩
          · by_contra hsame
            simp only [not_or, not_not, not_exists] at hsame
            refine differs ⟨hsame.1, hsame.2.1, ?_⟩
            rw [Std.TreeMap.isEmpty_iff_forall_not_mem]
            intro index hmem
            obtain ⟨value, hv⟩ := Option.isSome_iff_exists.mp
              (Std.TreeMap.mem_iff_isSome_getElem?.mp hmem)
            exact hsame.2.2 index value hv
          · rw [changedSlots_getElem? ht anchored kept, Option.filter_eq_some_iff] at hv
            have hne : w.slot a index ≠ value := by simpa using hv.2
            exact hne.symm

/-- A balance is not moved by nothing. -/
lemma balance_change (h : .increaseBalance a value ∈ s.changes log ∨
    .decreaseBalance a value ∈ s.changes log) : value ≠ 0 := by
  have hdifference : ∀ x y : Word, x < y → y - x ≠ 0 := by
    intro x y hlt hzero
    have hnat := congrArg BitVec.toNat hzero
    rw [BitVec.lt_def] at hlt
    rw [BitVec.toNat_sub_of_le (BitVec.le_def.mpr hlt.le)] at hnat
    have hz : (0 : Word).toNat = 0 := rfl
    omega
  rcases h with h | h <;> obtain ⟨entry, -, hc⟩ := mem_changes.mp h
  · cases change?_changeOf hc with
    | paid something => exact something
    | grown grows => exact hdifference _ _ grows
  · cases change?_changeOf hc with
    | charged something => exact something
    | shrunk shrinks => exact hdifference _ _ shrinks

/-- What is removed is held as dead, and existed as far as is known. -/
lemma removed_change (h : .removed a ∈ s.changes log) :
    s.entries[a]? = some .dead ∧ log.accounts[a]? ≠ some .nonexistent := by
  obtain ⟨entry, he, hc⟩ := mem_changes.mp h
  cases change?_changeOf hc with
  | removed existed => exact ⟨he, existed⟩

end Anchored

end Overlay

end ResumableEvm
