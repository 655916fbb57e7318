import Mathlib.Tactic
import ResumableEvm.World

/-!
# What logs know

A log that was told nothing but the data of a world answers as that world does, as far as it
answers at all.  Of two such logs one may know more than the other; and a datum that a log lacks
can always be told to it, which leaves less to ask for.

* `CommitLog.Tells` — a log holds only the data of a world.
* `CommitLog.Within` — one log answers all that another does, and the same.
* `CommitLog.Lacks` — a datum that can be asked for.
* `CommitLog.Tells.record` — the answer to what is asked for is always accepted.
* `World.exists_complete` — some log holds all the data of a world.
-/

namespace ResumableEvm

/-! ## The data of a world -/

namespace World

/-- The account at an address. -/
def account (w : World) (a : Address) : CommittedAccount :=
  match w.accounts[a]? with
  | some account => .full account.nonce account.balance account.code
  | none => .nonexistent

/-- The code at an address, empty if there is no account. -/
def code (w : World) (a : Address) : Bytes :=
  match w.accounts[a]? with
  | some account => account.code
  | none => ByteArray.empty

/-- The value of a slot. -/
def slot (w : World) (a : Address) (index : Word) : Word :=
  (w.accounts[a]?.bind (·.storage[index]?)).getD 0

/-- The hash of a block. -/
def blockHash (w : World) (number : Word) : Hash := w.blockHashes.getD number 0

end World

namespace CommitLog

variable {log log' log'' : CommitLog} {w : World} {a : Address} {index number : Word}
  {r : Requirement}

/-- **A log holds only the data of a world.** -/
structure Tells (log : CommitLog) (w : World) : Prop where
  account : ∀ {a known}, log.accounts[a]? = some known → known = w.account a
  code : ∀ {a code}, log.codes[a]? = some code → code = w.code a
  slot : ∀ {a index value}, log.slot? a index = some value → value = w.slot a index
  blockHash : ∀ {number hash}, log.blockHashes[number]? = some hash → hash = w.blockHash number

/-- Whether a log has the datum that a requirement asks for. -/
def Answers (log : CommitLog) : Requirement → Prop
  | .account a => ∃ known, log.account a = .ok known
  | .code a => ∃ code, log.code a = .ok code
  | .storage a index => ∃ value, log.storage a index = .ok value
  | .blockHash number => ∃ hash, log.blockHash number = .ok hash

/-- **A log that knows no more than another.**  What it answers the other answers too, and the
    same. -/
structure Within (log log' : CommitLog) : Prop where
  account : ∀ {a known}, log.account a = .ok known → log'.account a = .ok known
  code : ∀ {a code}, log.code a = .ok code → log'.code a = .ok code
  storage : ∀ {a index value}, log.storage a index = .ok value → log'.storage a index = .ok value
  blockHash : ∀ {number hash}, log.blockHash number = .ok hash → log'.blockHash number = .ok hash

/-- A log that answers everything. -/
def Complete (log : CommitLog) : Prop := ∀ r, log.Answers r

/-- **A datum that can be asked for.**  The log does not have it, and a slot is asked for only once
    its account is known to exist. -/
def Lacks (log : CommitLog) : Requirement → Prop
  | .account a => log.accounts[a]? = none
  | .code a => log.codes[a]? = none ∧ log.accounts[a]? = none
  | .storage a index =>
    (∃ nonce balance code, log.accounts[a]? = some (.full nonce balance code)) ∧
      log.slot? a index = none
  | .blockHash number => log.blockHashes[number]? = none

/-! ## Reads -/

lemma account_eq_ok {known : CommittedAccount} :
    log.account a = .ok known ↔ log.accounts[a]? = some known := by
  simp only [account]
  cases log.accounts[a]? <;> simp

lemma blockHash_eq_ok {hash : Hash} :
    log.blockHash number = .ok hash ↔ log.blockHashes[number]? = some hash := by
  simp only [blockHash]
  cases log.blockHashes[number]? <;> simp

lemma lacks_of_account (h : log.account a = .error r) : log.Lacks r := by
  simp only [account] at h
  split at h <;> cases h
  assumption

lemma lacks_of_code (h : log.code a = .error r) : log.Lacks r := by
  simp only [code] at h
  split at h
  · cases h
  · split at h <;> cases h
    exact ⟨‹_›, ‹_›⟩

lemma lacks_of_storage (h : log.storage a index = .error r) : log.Lacks r := by
  simp only [storage] at h
  cases ha : log.account a with
  | error missing =>
      rw [ha] at h
      cases h
      exact lacks_of_account ha
  | ok known =>
      rw [ha] at h
      cases known with
      | nonexistent => cases h
      | full nonce balance code =>
          cases hs : log.slot? a index with
          | some value => simp [hs, bind, Except.bind, pure, Except.pure] at h
          | none =>
              simp only [hs, bind, Except.bind, throw, throwThe, MonadExceptOf.throw] at h
              cases h
              exact ⟨⟨nonce, balance, code, account_eq_ok.mp ha⟩, hs⟩

lemma lacks_of_blockHash (h : log.blockHash number = .error r) : log.Lacks r := by
  simp only [blockHash] at h
  split at h <;> cases h
  assumption

/-! What is asked for under one log is asked for under any other that lacks it. -/

lemma account_still (h : log.account a = .error r) (hl : log'.Lacks r) :
    log'.account a = .error r := by
  simp only [account] at h ⊢
  split at h <;> cases h
  have hnone : log'.accounts[a]? = none := hl
  simp [hnone]

lemma code_still (h : log.code a = .error r) (hl : log'.Lacks r) : log'.code a = .error r := by
  simp only [code] at h ⊢
  split at h
  · cases h
  · split at h <;> cases h
    obtain ⟨hcode, haccount⟩ : log'.codes[a]? = none ∧ log'.accounts[a]? = none := hl
    simp [hcode, haccount]

lemma storage_still (h : log.storage a index = .error r) (hl : log'.Lacks r) :
    log'.storage a index = .error r := by
  simp only [storage] at h ⊢
  cases ha : log.account a with
  | error missing =>
      rw [ha] at h
      cases h
      rw [account_still ha hl]
      rfl
  | ok known =>
      rw [ha] at h
      cases known with
      | nonexistent => cases h
      | full nonce balance code =>
          cases hs : log.slot? a index with
          | some value => simp [hs, bind, Except.bind, pure, Except.pure] at h
          | none =>
              simp only [hs, bind, Except.bind, throw, throwThe, MonadExceptOf.throw] at h
              cases h
              obtain ⟨⟨nonce', balance', code', hk⟩, hnone⟩ := hl
              simp [account_eq_ok.mpr hk, hnone, bind, Except.bind, throw, throwThe,
                MonadExceptOf.throw]

lemma blockHash_still (h : log.blockHash number = .error r) (hl : log'.Lacks r) :
    log'.blockHash number = .error r := by
  simp only [blockHash] at h ⊢
  split at h <;> cases h
  have hnone : log'.blockHashes[number]? = none := hl
  simp [hnone]

/-! ## A log that tells of a world answers as the world does -/

namespace Tells

/-- A log that was told nothing. -/
lemma empty : Tells {} w where
  account h := by simp at h
  code h := by simp at h
  slot h := by simp [slot?] at h
  blockHash h := by simp at h

lemma account_eq (ht : log.Tells w) {known : CommittedAccount} (h : log.account a = .ok known) :
    known = w.account a :=
  ht.account (account_eq_ok.mp h)

lemma code_eq (ht : log.Tells w) {code : Bytes} (h : log.code a = .ok code) :
    code = w.code a := by
  simp only [CommitLog.code] at h
  split at h
  · cases h
    exact ht.code ‹_›
  · have haccount : ∀ {known}, log.accounts[a]? = some known → known = w.account a := ht.account
    simp only [World.account] at haccount
    simp only [World.code]
    split at h
    · cases h
      have := haccount ‹_›
      split at this <;> cases this
      simp [*]
    · cases h
      have := haccount ‹_›
      split at this <;> cases this
      simp [*]
    · cases h

lemma storage_eq (ht : log.Tells w) {value : Word} (h : log.storage a index = .ok value) :
    value = w.slot a index := by
  simp only [storage] at h
  cases ha : log.account a with
  | error missing =>
      rw [ha] at h
      cases h
  | ok known =>
      rw [ha] at h
      have hk : known = w.account a := ht.account_eq ha
      cases known with
      | nonexistent =>
          cases h
          simp only [World.account] at hk
          simp only [World.slot]
          split at hk <;> cases hk
          simp [*]
      | full nonce balance code =>
          cases hs : log.slot? a index with
          | none => simp [hs, bind, Except.bind, throw, throwThe, MonadExceptOf.throw] at h
          | some told =>
              simp only [hs, bind, Except.bind, pure, Except.pure, Except.ok.injEq] at h
              exact h ▸ ht.slot hs

lemma blockHash_eq (ht : log.Tells w) {hash : Hash} (h : log.blockHash number = .ok hash) :
    hash = w.blockHash number :=
  ht.blockHash (blockHash_eq_ok.mp h)

end Tells

/-! ## Knowing more -/

namespace Within

lemma refl (log : CommitLog) : log.Within log := ⟨id, id, id, id⟩

lemma trans (h : log.Within log') (h' : log'.Within log'') : log.Within log'' :=
  ⟨fun x => h'.account (h.account x), fun x => h'.code (h.code x),
    fun x => h'.storage (h.storage x), fun x => h'.blockHash (h.blockHash x)⟩

lemma answers (h : log.Within log') (hr : log.Answers r) : log'.Answers r := by
  cases r <;> obtain ⟨value, hv⟩ := hr
  · exact ⟨value, h.account hv⟩
  · exact ⟨value, h.code hv⟩
  · exact ⟨value, h.storage hv⟩
  · exact ⟨value, h.blockHash hv⟩

/-- Of two logs of one world, one is within the other if the other answers all that it does. -/
lemma of_answers (ht : log.Tells w) (ht' : log'.Tells w)
    (h : ∀ r, log.Answers r → log'.Answers r) : log.Within log' where
  account hk := by
    obtain ⟨known, hk'⟩ := h (.account _) ⟨_, hk⟩
    rw [hk', ht.account_eq hk, ht'.account_eq hk']
  code hc := by
    obtain ⟨code, hc'⟩ := h (.code _) ⟨_, hc⟩
    rw [hc', ht.code_eq hc, ht'.code_eq hc']
  storage hv := by
    obtain ⟨value, hv'⟩ := h (.storage _ _) ⟨_, hv⟩
    rw [hv', ht.storage_eq hv, ht'.storage_eq hv']
  blockHash hh := by
    obtain ⟨hash, hh'⟩ := h (.blockHash _) ⟨_, hh⟩
    rw [hh', ht.blockHash_eq hh, ht'.blockHash_eq hh']

end Within

/-- Every log of a world is within a complete one. -/
lemma Complete.within {full : CommitLog} (hc : full.Complete) (hfull : full.Tells w)
    (ht : log.Tells w) : log.Within full :=
  .of_answers ht hfull fun r _ => hc r

lemma answers_code_iff : log.Answers (.code a) ↔
    (∃ code, log.codes[a]? = some code) ∨ ∃ known, log.accounts[a]? = some known := by
  unfold Answers CommitLog.code
  cases hc : log.codes[a]? with
  | some code => simp [hc]
  | none => rcases hk : log.accounts[a]? with _ | (_ | _) <;> simp [hc, hk]

lemma answers_storage_iff : log.Answers (.storage a index) ↔
    log.accounts[a]? = some .nonexistent ∨
      ∃ nonce balance code value, log.accounts[a]? = some (.full nonce balance code) ∧
        log.slot? a index = some value := by
  unfold Answers storage CommitLog.account
  rcases hk : log.accounts[a]? with _ | (_ | _)
  · simp [hk, bind, Except.bind]
  · cases hs : log.slot? a index <;>
      simp [hk, hs, bind, Except.bind, pure, Except.pure, throw, throwThe, MonadExceptOf.throw]
  · simp [hk, bind, Except.bind, pure, Except.pure]

/-- A log that holds all that another does answers all that it does. -/
lemma Within.of_subset (ht : log.Tells w) (ht' : log'.Tells w)
    (haccounts : ∀ {a : Address} {known : CommittedAccount},
      log.accounts[a]? = some known → log'.accounts[a]? = some known)
    (hcodes : ∀ {a : Address} {code : Bytes},
      log.codes[a]? = some code → log'.codes[a]? = some code)
    (hslots : ∀ {a : Address} {index value : Word},
      log.slot? a index = some value → log'.slot? a index = some value)
    (hhashes : ∀ {number : Word} {hash : Hash},
      log.blockHashes[number]? = some hash → log'.blockHashes[number]? = some hash) :
    log.Within log' := by
  refine .of_answers ht ht' fun r hr => ?_
  cases r with
  | account a =>
      obtain ⟨known, hk⟩ := hr
      exact ⟨known, account_eq_ok.mpr (haccounts (account_eq_ok.mp hk))⟩
  | code a =>
      rw [answers_code_iff] at hr ⊢
      rcases hr with ⟨code, hc⟩ | ⟨known, hk⟩
      · exact .inl ⟨code, hcodes hc⟩
      · exact .inr ⟨known, haccounts hk⟩
  | storage a index =>
      rw [answers_storage_iff] at hr ⊢
      rcases hr with hk | ⟨nonce, balance, code, value, hk, hv⟩
      · exact .inl (haccounts hk)
      · exact .inr ⟨nonce, balance, code, value, haccounts hk, hslots hv⟩
  | blockHash number =>
      obtain ⟨hash, hh⟩ := hr
      exact ⟨hash, blockHash_eq_ok.mpr (hhashes (blockHash_eq_ok.mp hh))⟩

/-! ## Being told what is lacking -/

lemma slot?_insert (b : Address) (j value : Word) :
    { log with slots := log.slots.insert a ((log.slots.getD a ∅).insert index value) }.slot? b j =
      if a = b ∧ index = j then some value else log.slot? b j := by
  simp only [slot?]
  simp only [Std.TreeMap.getElem?_insert, Std.TreeMap.getD_eq_getD_getElem?]
  by_cases hab : a = b
  · subst hab
    by_cases hij : index = j
    · simp [hij]
    · cases log.slots[a]? <;> simp [hij, Std.TreeMap.getElem?_insert]
  · simp [hab]

namespace Tells

/-- A log that is told of an account it lacks. -/
lemma withAccount (ht : log.Tells w) (hl : log.accounts[a]? = none) :
    Tells { log with accounts := log.accounts.insert a (w.account a) } w ∧
      log.Within { log with accounts := log.accounts.insert a (w.account a) } := by
  have ht' : Tells { log with accounts := log.accounts.insert a (w.account a) } w := by
    refine ⟨fun {b known} h => ?_, ht.code, ht.slot, ht.blockHash⟩
    by_cases hab : a = b
    · subst hab
      simpa using h.symm
    · exact ht.account (by simpa [Std.TreeMap.getElem?_insert, hab] using h)
  refine ⟨ht', .of_subset ht ht' (fun {b known} h => ?_) id id id⟩
  have hab : a ≠ b := by
    rintro rfl
    simp [hl] at h
  simpa [Std.TreeMap.getElem?_insert, hab] using h

/-- A log that is told a code it lacks. -/
lemma withCode (ht : log.Tells w) (hl : log.codes[a]? = none) :
    Tells { log with codes := log.codes.insert a (w.code a) } w ∧
      log.Within { log with codes := log.codes.insert a (w.code a) } := by
  have ht' : Tells { log with codes := log.codes.insert a (w.code a) } w := by
    refine ⟨ht.account, fun {b code} h => ?_, ht.slot, ht.blockHash⟩
    by_cases hab : a = b
    · subst hab
      simpa using h.symm
    · exact ht.code (by simpa [Std.TreeMap.getElem?_insert, hab] using h)
  refine ⟨ht', .of_subset ht ht' id (fun {b code} h => ?_) id id⟩
  have hab : a ≠ b := by
    rintro rfl
    simp [hl] at h
  simpa [Std.TreeMap.getElem?_insert, hab] using h

/-- A log that is told a slot it lacks. -/
lemma withSlot (ht : log.Tells w) (hl : log.slot? a index = none) :
    let slots := (log.slots.getD a ∅).insert index (w.slot a index)
    Tells { log with slots := log.slots.insert a slots } w ∧
      log.Within { log with slots := log.slots.insert a slots } := by
  intro slots
  have ht' : Tells { log with slots := log.slots.insert a slots } w := by
    refine ⟨ht.account, ht.code, fun {b j value} h => ?_, ht.blockHash⟩
    rw [slot?_insert] at h
    split at h
    · rename_i heq
      obtain ⟨rfl, rfl⟩ := heq
      exact (Option.some.inj h).symm
    · exact ht.slot h
  refine ⟨ht', .of_subset ht ht' id id (fun {b j value} h => ?_) id⟩
  rw [slot?_insert]
  split
  · rename_i heq
    obtain ⟨rfl, rfl⟩ := heq
    simp [hl] at h
  · exact h

/-- A log that is told the hash of a block it lacks. -/
lemma withBlockHash (ht : log.Tells w) (hl : log.blockHashes[number]? = none) :
    Tells { log with blockHashes := log.blockHashes.insert number (w.blockHash number) } w ∧
      log.Within
        { log with blockHashes := log.blockHashes.insert number (w.blockHash number) } := by
  have ht' :
      Tells { log with blockHashes := log.blockHashes.insert number (w.blockHash number) } w := by
    refine ⟨ht.account, ht.code, ht.slot, fun {n hash} h => ?_⟩
    by_cases hn : number = n
    · subst hn
      simpa using h.symm
    · exact ht.blockHash (by simpa [Std.TreeMap.getElem?_insert, hn] using h)
  refine ⟨ht', .of_subset ht ht' id id id fun {n hash} h => ?_⟩
  have hn : number ≠ n := by
    rintro rfl
    simp [hl] at h
  simpa [Std.TreeMap.getElem?_insert, hn] using h

/-- What was told of a code before does not contradict the world. -/
lemma contradicts_eq_false (ht : log.Tells w) (a : Address) :
    log.contradicts a (w.code a) = false := by
  simp only [contradicts]
  split
  · rename_i known hk
    simp [ht.code hk]
  · rfl

/-- The account that a world answers with is accepted. -/
lemma record_account (ht : log.Tells w) (hl : log.accounts[a]? = none) (fullCode : Bool) :
    log.record (w.answer fullCode (.account a)) =
      .ok { log with accounts := log.accounts.insert a (w.account a) } := by
  have hfits := ht.contradicts_eq_false a
  have hnew : log.accounts.contains a = false := by
    rw [Std.TreeMap.contains_eq_isSome_getElem?, hl, Option.isSome_none]
  simp only [World.code] at hfits
  unfold World.answer World.account CommitLog.record commit contains
  cases hw : w.accounts[a]? with
  | none =>
      simp only [hw] at hfits
      simp [hw, hnew, hfits]
  | some account =>
      simp only [hw] at hfits
      simp [hw, hnew, hfits, World.fullCommitment]

/-- **What is asked for can be told.**  The answer of the world is accepted, and the log has one
    more datum. -/
lemma record (ht : log.Tells w) (hr : log.Lacks r) (fullCode : Bool) :
    ∃ log', log.record (w.answer fullCode r) = .ok log' ∧ log'.Tells w ∧ log.Within log' ∧
      ¬ log.Answers r ∧ log'.Answers r := by
  cases r with
  | account a =>
      obtain ⟨ht', hwithin⟩ := ht.withAccount hr
      refine ⟨_, ht.record_account hr fullCode, ht', hwithin, ?_, ?_⟩
      · rintro ⟨known, hk⟩
        simp [Lacks, account_eq_ok.mp hk] at hr
      · exact ⟨w.account a, account_eq_ok.mpr (by simp)⟩
  | code a =>
      obtain ⟨hc, ha⟩ := hr
      have hnot : ¬ log.Answers (.code a) := by simp [answers_code_iff, hc, ha]
      -- the world answers with the account if it is asked to, or if there is none
      by_cases hfull : fullCode = true ∨ w.accounts[a]? = none
      · obtain ⟨ht', hwithin⟩ := ht.withAccount ha
        refine ⟨_, ?_, ht', hwithin, hnot, answers_code_iff.mpr (.inr ⟨w.account a, by simp⟩)⟩
        rw [← ht.record_account ha fullCode]
        simp only [World.answer]
        rcases hfull with rfl | hw
        · cases w.accounts[a]? <;> simp
        · simp [hw]
      · obtain ⟨hfalse, hw⟩ := not_or.mp hfull
        obtain ⟨account, hw⟩ := Option.ne_none_iff_exists'.mp hw
        obtain ⟨ht', hwithin⟩ := ht.withCode hc
        refine ⟨_, ?_, ht', hwithin, hnot, answers_code_iff.mpr (.inl ⟨w.code a, by simp⟩)⟩
        simp [World.answer, World.code, CommitLog.record, commit, contains, hw, hfalse, hc, ha,
          Std.TreeMap.mem_iff_isSome_getElem?]
  | storage a index =>
      obtain ⟨⟨nonce, balance, code, ha⟩, hs⟩ := hr
      obtain ⟨ht', hwithin⟩ := ht.withSlot hs
      refine ⟨_, ?_, ht', hwithin, by simp [answers_storage_iff, ha, hs], ?_⟩
      · simp [World.answer, World.slot, CommitLog.record, commit, contains, ha, hs]
      · refine answers_storage_iff.mpr (.inr ⟨nonce, balance, code, w.slot a index, ha, ?_⟩)
        rw [slot?_insert, if_pos ⟨rfl, rfl⟩]
  | blockHash number =>
      obtain ⟨ht', hwithin⟩ := ht.withBlockHash hr
      refine ⟨_, ?_, ht', hwithin, ?_, ?_⟩
      · have hnew : log.blockHashes[number]? = none := hr
        simp [World.answer, World.blockHash, CommitLog.record, commitBlockHash, hnew,
          Std.TreeMap.mem_iff_isSome_getElem?]
      · rintro ⟨hash, hh⟩
        simp [Lacks, blockHash_eq_ok.mp hh] at hr
      · exact ⟨w.blockHash number, blockHash_eq_ok.mpr (by simp)⟩

end Tells

/-! ## How much is left to ask for -/

instance (n : ℕ) : Finite (BitVec n) :=
  Finite.of_injective BitVec.toFin fun _ _ h => BitVec.eq_of_toFin_eq h

/-- There are finitely many data to ask for. -/
instance : Finite Requirement := by
  let code : Requirement → Fin 4 × Option Address × Option Word
    | .account a => (0, some a, none)
    | .code a => (1, some a, none)
    | .storage a index => (2, some a, some index)
    | .blockHash number => (3, none, some number)
  refine Finite.of_injective code fun r r' h => ?_
  cases r <;> cases r' <;> simp_all [code]

/-- How many data a log does not answer. -/
noncomputable def unanswered (log : CommitLog) : ℕ := Set.ncard {r | ¬ log.Answers r}

/-- Every datum that is told leaves one less to ask for. -/
lemma Within.unanswered_lt (h : log.Within log') (hr : ¬ log.Answers r) (hr' : log'.Answers r) :
    log'.unanswered < log.unanswered := by
  refine Set.ncard_lt_ncard ⟨fun q hq hlog => hq (h.answers hlog), fun hsub => ?_⟩ (Set.toFinite _)
  exact hsub hr hr'

end CommitLog

/-! ## The log of all data -/

/-- Every function on finitely many keys has a table. -/
lemma exists_table {α β : Type} [Ord α] [Std.TransOrd α] [Std.LawfulEqOrd α] [Finite α]
    (f : α → β) : ∃ table : Std.TreeMap α β, ∀ key, table[key]? = some (f key) := by
  have hlist : ∀ keys : List α, ∃ table : Std.TreeMap α β,
      ∀ key ∈ keys, table[key]? = some (f key) := by
    intro keys
    induction keys with
    | nil => exact ⟨∅, by simp⟩
    | cons first rest ih =>
        obtain ⟨table, htable⟩ := ih
        refine ⟨table.insert first (f first), fun key hkey => ?_⟩
        by_cases hfirst : first = key
        · simp [hfirst]
        · have hrest : key ∈ rest := (List.mem_cons.mp hkey).resolve_left (Ne.symm hfirst)
          simp [Std.TreeMap.getElem?_insert, hfirst, htable key hrest]
  have := Fintype.ofFinite α
  obtain ⟨table, htable⟩ := hlist Finset.univ.toList
  exact ⟨table, fun key => htable key (by simp)⟩

/-- **Some log holds all the data of a world.** -/
lemma World.exists_complete (w : World) : ∃ full : CommitLog, full.Tells w ∧ full.Complete := by
  obtain ⟨accounts, haccounts⟩ := exists_table w.account
  obtain ⟨rows, hrows⟩ := Classical.skolem.mp fun a => exists_table (w.slot a)
  obtain ⟨slots, hslots⟩ := exists_table rows
  obtain ⟨hashes, hhashes⟩ := exists_table w.blockHash
  let full : CommitLog := ⟨accounts, ∅, slots, hashes⟩
  have hslot : ∀ a index, full.slot? a index = some (w.slot a index) := fun a index => by
    simp [full, CommitLog.slot?, hslots, hrows]
  refine ⟨full, ⟨fun {a known} h => ?_, fun {a code} h => ?_, fun {a index value} h => ?_,
    fun {number hash} h => ?_⟩, fun r => ?_⟩
  · exact Option.some.inj (h.symm.trans (haccounts a))
  · simp [full] at h
  · exact Option.some.inj (h.symm.trans (hslot a index))
  · exact Option.some.inj (h.symm.trans (hhashes number))
  · cases r with
    | account a => exact ⟨w.account a, CommitLog.account_eq_ok.mpr (haccounts a)⟩
    | code a => exact CommitLog.answers_code_iff.mpr (.inr ⟨_, haccounts a⟩)
    | storage a index =>
        refine CommitLog.answers_storage_iff.mpr ?_
        cases hw : w.account a with
        | nonexistent => exact .inl ((haccounts a).trans (congrArg some hw))
        | full nonce balance code =>
            exact .inr ⟨nonce, balance, code, _, (haccounts a).trans (congrArg some hw),
              hslot a index⟩
    | blockHash number => exact ⟨_, CommitLog.blockHash_eq_ok.mpr (hhashes number)⟩

/-! ## All data but those of one account -/

namespace CommitLog

variable {log full : CommitLog} {w : World} {a b : Address}

/-- A log without what it tells of an account and its code. -/
def without (log : CommitLog) (a : Address) : CommitLog :=
  { log with accounts := log.accounts.erase a, codes := log.codes.erase a }

lemma without_account (log : CommitLog) (a b : Address) :
    (log.without a).accounts[b]? = if a = b then none else log.accounts[b]? := by
  simp [without, Std.TreeMap.getElem?_erase]

lemma without_code (log : CommitLog) (a b : Address) :
    (log.without a).codes[b]? = if a = b then none else log.codes[b]? := by
  simp [without, Std.TreeMap.getElem?_erase]

lemma Tells.without (ht : log.Tells w) (a : Address) : (log.without a).Tells w where
  account := by
    intro b known hk
    rw [without_account] at hk
    split at hk
    · cases hk
    · exact ht.account hk
  code := by
    intro b code hk
    rw [without_code] at hk
    split at hk
    · cases hk
    · exact ht.code hk
  slot := ht.slot
  blockHash := ht.blockHash

lemma silent_without (log : CommitLog) (a : Address) : ¬ (log.without a).Answers (.code a) := by
  rw [answers_code_iff]
  simp [without_account, without_code]

/-- What is told by a log that knows nothing of an account is left without that account. -/
lemma Complete.within_without (hc : full.Complete) (hfull : full.Tells w) (ht : log.Tells w)
    (hsilent : ¬ log.Answers (.code a)) : log.Within (full.without a) := by
  have hne : ∀ {b : Address}, log.Answers (.code b) → a ≠ b := by
    rintro b hb rfl
    exact hsilent hb
  have hknown : ∀ {b : Address} {known : CommittedAccount}, log.accounts[b]? = some known →
      a ≠ b := fun hk => hne (answers_code_iff.mpr (.inr ⟨_, hk⟩))
  refine .of_answers ht (hfull.without a) fun r hr => ?_
  have hall := hc r
  cases r with
  | account b =>
      obtain ⟨known, hk⟩ := hr
      obtain ⟨known', hk'⟩ := hall
      refine ⟨known', account_eq_ok.mpr ?_⟩
      rw [without_account, if_neg (hknown (account_eq_ok.mp hk))]
      exact account_eq_ok.mp hk'
  | code b =>
      rw [answers_code_iff] at hall ⊢
      rw [without_account, without_code, if_neg (hne hr), if_neg (hne hr)]
      exact hall
  | storage b index =>
      have hb : a ≠ b := by
        rcases answers_storage_iff.mp hr with hk | ⟨nonce, balance, code, -, hk, -⟩
        · exact hknown hk
        · exact hknown hk
      rw [answers_storage_iff] at hall ⊢
      rw [without_account, if_neg hb]
      exact hall
  | blockHash number => exact hall

end CommitLog

/-- **Some log holds all the data of a world but those of one account,** so that every log that
    knows nothing of this account is within it. -/
lemma World.exists_complete_but (w : World) (a : Address) : ∃ full : CommitLog, full.Tells w ∧
    ¬ full.Answers (.code a) ∧
      ∀ log : CommitLog, log.Tells w → ¬ log.Answers (.code a) → log.Within full := by
  obtain ⟨full, hfull, hc⟩ := w.exists_complete
  exact ⟨full.without a, hfull.without a, full.silent_without a,
    fun log ht hsilent => hc.within_without hfull ht hsilent⟩

end ResumableEvm
