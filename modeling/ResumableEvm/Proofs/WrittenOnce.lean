import ResumableEvm.Proofs.HostedRun

/-!
# What was told stays told

Whatever a host tells the engine, in whatever order, the log only grows: an answer that is accepted
adds one datum, one that is refused adds none, and no datum is ever replaced.  What the host told
fits together, also where it told the code of an account before the account.

* `Datum`, `CommitLog.Holds` — what a log holds, datum by datum.
* `CommitLog.record_adds` — telling adds one datum, which was not there.
* `CommitLog.Coherent` — slots belong to accounts, and code told twice was told alike.
* `CommitLog.Coherent.exists_tells` — a log that fits together holds the data of some world.
* `Engine.serve`, `Engine.serveAll` — the calls of a host, in any order.
* `log_is_written_once` — all of it together.
-/

namespace ResumableEvm

/-! ## Data -/

/-- One thing that a log holds. -/
inductive Datum where
  | account (a : Address) (known : CommittedAccount)
  /-- Code told on its own. -/
  | code (a : Address) (told : Bytes)
  | slot (a : Address) (index value : Word)
  | blockHash (number : Word) (hash : Hash)

/-- The question that a datum is filed under. -/
def Datum.key : Datum → Requirement
  | .account a _ => .account a
  | .code a _ => .code a
  | .slot a index _ => .storage a index
  | .blockHash number _ => .blockHash number

/-- What a commitment tells. -/
def Commitment.datum : Commitment → Datum
  | .full a nonce balance told => .account a (.full nonce balance told)
  | .code a told => .code a told
  | .storage a index value => .slot a index value
  | .nonexistent a => .account a .nonexistent

namespace Answer

/-- What an answer tells. -/
def datum : Answer → Datum
  | .account c => c.datum
  | .blockHash number hash => .blockHash number hash

/-- Whether an answer is one to a requirement. -/
def satisfies : Answer → Requirement → Bool
  | .account c, r => c.satisfies r
  | .blockHash number _, r => r = .blockHash number

end Answer

/-- The code that an account comes with. -/
def CommittedAccount.code : CommittedAccount → Bytes
  | .full _ _ code => code
  | .nonexistent => ByteArray.empty

namespace CommitLog

variable {log log' : CommitLog} {answer : Answer} {d d' : Datum} {a : Address}
  {known : CommittedAccount} {told : Bytes} {index value number : Word} {hash : Hash} {w : World}

/-- **What a log holds.** -/
def Holds (log : CommitLog) : Datum → Prop
  | .account a known => log.accounts[a]? = some known
  | .code a told => log.codes[a]? = some told
  | .slot a index value => log.slot? a index = some value
  | .blockHash number hash => log.blockHashes[number]? = some hash

/-! ## Telling -/

/-- A datum that fits what a log holds: an account comes with the code that was told before, and a
    slot belongs to an account. -/
def Fits (log : CommitLog) : Datum → Prop
  | .account a known => ∀ told, log.Holds (.code a told) → known.code = told
  | .slot a _ _ => ∃ nonce balance code, log.Holds (.account a (.full nonce balance code))
  | .code _ _ | .blockHash _ _ => True

/-- **A log that is told one datum,** which fits and which it could not answer with before. -/
structure Adds (log : CommitLog) (d : Datum) (log' : CommitLog) : Prop where
  absent : ¬ log.Answers d.key
  fits : log.Fits d
  exact : ∀ d', log'.Holds d' ↔ log.Holds d' ∨ d' = d

lemma Adds.holds (h : log.Adds d log') (hd : log.Holds d') : log'.Holds d' :=
  (h.exact d').mpr (.inl hd)

/-- What a table holds that got one more row. -/
lemma getElem?_insert_eq_some {α β : Type} [Ord α] [Std.TransOrd α] [Std.LawfulEqOrd α]
    {table : Std.TreeMap α β} {key key' : α} {value value' : β} (h : table[key]? = none) :
    (table.insert key value)[key']? = some value' ↔
      table[key']? = some value' ∨ key' = key ∧ value' = value := by
  by_cases hkey : key' = key
  · subst hkey
    simp [h, eq_comm]
  · simp [Std.TreeMap.getElem?_insert, hkey, Ne.symm hkey]

lemma adds_account (habsent : log.accounts[a]? = none) (hfits : log.Fits (.account a known)) :
    log.Adds (.account a known) { log with accounts := log.accounts.insert a known } where
  absent := by
    rintro ⟨known', hk⟩
    cases habsent.symm.trans (account_eq_ok.mp hk)
  fits := hfits
  exact d' := by
    cases d' with
    | account b known' => simp [Holds, getElem?_insert_eq_some habsent]
    | code | slot | blockHash => simp [Holds, slot?]

lemma adds_code (haccount : log.accounts[a]? = none) (hcode : log.codes[a]? = none) :
    log.Adds (.code a told) { log with codes := log.codes.insert a told } where
  absent := by simp [Datum.key, answers_code_iff, haccount, hcode]
  fits := trivial
  exact d' := by
    cases d' with
    | code b told' => simp [Holds, getElem?_insert_eq_some hcode]
    | account | slot | blockHash => simp [Holds, slot?]

lemma adds_slot (habsent : log.slot? a index = none) (hfits : log.Fits (.slot a index value)) :
    log.Adds (.slot a index value)
      { log with slots := log.slots.insert a ((log.slots.getD a ∅).insert index value) } where
  absent := by
    obtain ⟨nonce, balance, code, haccount⟩ := hfits
    have haccount : log.accounts[a]? = some (.full nonce balance code) := haccount
    simp [Datum.key, answers_storage_iff, haccount, habsent]
  fits := hfits
  exact d' := by
    cases d' with
    | slot b j value' =>
        simp only [Holds, slot?_insert]
        by_cases h : a = b ∧ index = j
        · obtain ⟨rfl, rfl⟩ := h
          simp [habsent, eq_comm]
        · rw [if_neg h]
          refine ⟨.inl, fun hheld => hheld.resolve_right ?_⟩
          rintro ⟨⟩
          exact h ⟨rfl, rfl⟩
    | account | code | blockHash => simp [Holds]

lemma adds_blockHash (habsent : log.blockHashes[number]? = none) :
    log.Adds (.blockHash number hash)
      { log with blockHashes := log.blockHashes.insert number hash } where
  absent := by
    rintro ⟨hash', hh⟩
    cases habsent.symm.trans (blockHash_eq_ok.mp hh)
  fits := trivial
  exact d' := by
    cases d' with
    | blockHash n hash' => simp [Holds, getElem?_insert_eq_some habsent]
    | account | code | slot => simp [Holds, slot?]

/-- An account fits that does not contradict the code told before. -/
lemma fits_account (h : ¬ log.contradicts a known.code = true) : log.Fits (.account a known) := by
  intro told htold
  have hcode : log.codes[a]? = some told := htold
  have hsame : told = known.code := by simpa [contradicts, hcode] using h
  exact hsame.symm

/-- **Telling adds one datum** or is refused. -/
lemma record_adds (h : log.record answer = .ok log') : log.Adds answer.datum log' := by
  cases answer with
  | blockHash number hash =>
      simp only [record, commitBlockHash] at h
      split at h <;> cases h
      rename_i hnew
      exact adds_blockHash (Std.TreeMap.getElem?_eq_none hnew)
  | account c =>
      simp only [record, commit] at h
      split at h
      · cases h
      rename_i hnew
      cases c with
      | full a nonce balance told =>
          simp only at h
          split at h <;> cases h
          exact adds_account (Std.TreeMap.getElem?_eq_none hnew) (fits_account ‹_›)
      | code a told =>
          cases h
          obtain ⟨haccount, hcode⟩ := not_or.mp (mt Bool.or_eq_true_iff.mpr hnew)
          exact adds_code (Std.TreeMap.getElem?_eq_none haccount)
            (Std.TreeMap.getElem?_eq_none hcode)
      | storage a index value =>
          simp only at h
          split at h <;> cases h
          exact adds_slot (Option.not_isSome_iff_eq_none.mp hnew) ⟨_, _, _, ‹_›⟩
      | nonexistent a =>
          simp only at h
          split at h <;> cases h
          exact adds_account (Std.TreeMap.getElem?_eq_none hnew) (fits_account ‹_›)

/-! ## What fits together -/

/-- **A log whose data fit together:** slots belong to accounts that exist, and code told on its own
    is the code that the account came with. -/
def Coherent (log : CommitLog) : Prop := ∀ d, log.Holds d → log.Fits d

lemma Coherent.empty : Coherent {} := by
  intro d hd
  cases d <;> simp [Holds, slot?] at hd

/-- In whatever order data are told, they fit together. -/
lemma Adds.coherent (h : log.Adds d log') (hlog : log.Coherent) : log'.Coherent := by
  intro d' hd'
  cases d' with
  | code | blockHash => trivial
  | slot a index value =>
      have hslot : log.Fits (.slot a index value) := by
        rcases (h.exact _).mp hd' with hheld | rfl
        · exact hlog _ hheld
        · exact h.fits
      obtain ⟨nonce, balance, code, haccount⟩ := hslot
      exact ⟨nonce, balance, code, (h.exact _).mpr (.inl haccount)⟩
  | account a known =>
      intro told htold
      rcases (h.exact _).mp hd' with haccount | rfl <;>
        rcases (h.exact _).mp htold with hcode | hcode
      · exact hlog _ haccount told hcode
      · -- code is not told of an account that is known
        cases hcode
        exact absurd (answers_code_iff.mpr (.inr ⟨known, haccount⟩)) h.absent
      · exact h.fits told hcode
      · cases hcode

/-- The account of a world in which a log fits. -/
def account? (log : CommitLog) (a : Address) : Option WorldAccount :=
  match log.accounts[a]? with
  | some (.full nonce balance code) => some ⟨nonce, balance, code, log.slots.getD a ∅⟩
  | some .nonexistent => none
  | none => log.codes[a]?.map fun code => { code := code }

/-- **A log whose data fit together** holds nothing but the data of some world. -/
lemma Coherent.exists_tells (h : log.Coherent) : ∃ w, log.Tells w := by
  obtain ⟨table, htable⟩ := exists_table log.account?
  let w : World := ⟨table.filterMap fun _ account => account, log.blockHashes⟩
  have haccount : ∀ a, w.accounts[a]? = log.account? a := fun a => by simp [w, htable]
  refine ⟨w, ⟨fun {a known} hk => ?_, fun {a told} hc => ?_, fun {a index value} hv => ?_,
    fun {number hash} hh => ?_⟩⟩
  · simp only [World.account, haccount, account?, hk]
    cases known <;> rfl
  · simp only [World.code, haccount, account?]
    rcases hk : log.accounts[a]? with _ | known
    · simp [hc]
    · have hsame : known.code = told := h (.account a known) hk told hc
      cases known <;> exact hsame.symm
  · obtain ⟨nonce, balance, code, hk⟩ := h (.slot a index value) hv
    have hk : log.accounts[a]? = some (.full nonce balance code) := hk
    simp only [World.slot, haccount, account?, hk]
    obtain ⟨slots, hslots, hvalue⟩ := Option.bind_eq_some_iff.mp hv
    simp [Std.TreeMap.getD_eq_getD_getElem?, hslots, hvalue]
  · simp [World.blockHash, w, Std.TreeMap.getD_eq_getD_getElem?, hh]

/-- A log that holds less holds nothing but data of the same world. -/
lemma Tells.of_holds (ht' : log'.Tells w) (hmore : ∀ d, log.Holds d → log'.Holds d) :
    log.Tells w where
  account hk := ht'.account (hmore (.account _ _) hk)
  code hc := ht'.code (hmore (.code _ _) hc)
  slot hv := ht'.slot (hmore (.slot _ _ _) hv)
  blockHash hh := ht'.blockHash (hmore (.blockHash _ _) hh)

/-- **A log that holds more** answers all that it did, and the same. -/
lemma Coherent.within (h : log'.Coherent) (hmore : ∀ d, log.Holds d → log'.Holds d) :
    log.Within log' := by
  obtain ⟨w, ht'⟩ := h.exists_tells
  have ht : log.Tells w := ht'.of_holds hmore
  exact .of_subset ht ht' (hmore (.account _ _)) (hmore (.code _ _)) (hmore (.slot _ _ _))
    (hmore (.blockHash _ _))

end CommitLog

/-! ## The calls of a host -/

/-- What a host can ask of the engine. -/
inductive HostCall where
  | step
  /-- Some number of steps at most. -/
  | fire (fuel : ℕ)
  | tell (answer : Answer)

namespace Engine

variable {rs : Ruleset} {t : Transaction} {block : Header} {e e' : Engine} {answer : Answer}

/-- **Serves a call.**  An answer that is refused changes nothing. -/
def serve (e : Engine) : HostCall → Except Fault (Engine × Except CommitError Unit)
  | .step => e.step.map (·, .ok ())
  | .fire fuel => (e.fire fuel).map (·, .ok ())
  | .tell answer =>
    match e.tell answer with
    | .ok e' => .ok (e', .ok ())
    | .error refusal => .ok (e, .error refusal)

/-- Serves one call after another. -/
def serveAll (e : Engine) (calls : List HostCall) : Except Fault Engine :=
  calls.foldlM (fun e call => (e.serve call).map Prod.fst) e

/-- An answer is accepted only if it is one to what is pending. -/
lemma tell_satisfies (h : e.tell answer = .ok e') :
    ∃ r, e.pending = some r ∧ answer.satisfies r = true := by
  cases answer with
  | account c =>
      change e.commit c = .ok e' at h
      simp only [commit] at h
      split at h
      · cases h
      · split at h
        · rename_i hany
          cases hpending : e.pending with
          | none =>
              rw [hpending] at hany
              cases hany
          | some r =>
              rw [hpending] at hany
              exact ⟨r, rfl, hany⟩
        · cases h
  | blockHash number hash =>
      change e.commitBlockHash number hash = .ok e' at h
      simp only [commitBlockHash] at h
      split at h
      · cases h
      · split at h
        · exact ⟨_, ‹_›, decide_eq_true rfl⟩
        · cases h

lemma fire_chain {fuel : ℕ} (h : e.fire fuel = .ok e') : e'.chain = e.chain := by
  induction fuel generalizing e with
  | zero =>
      cases h
      rfl
  | succ fuel ih =>
      simp only [fire] at h
      split at h
      · cases h
        rfl
      · split at h <;> rename_i hstep
        · exact (ih h).trans (step_stepped hstep).2
        · cases h

/-- **What a call does to the log:** an answer adds its datum or leaves the log, and everything else
    leaves it. -/
lemma serve_log {call : HostCall} {result : Except CommitError Unit}
    (h : e.serve call = .ok (e', result)) :
    e'.chain.log = e.chain.log ∨
      ∃ answer, call = .tell answer ∧ e.chain.log.Adds answer.datum e'.chain.log := by
  cases call with
  | step =>
      obtain ⟨e₁, hstep, heq⟩ := map_eq_ok.mp h
      cases heq
      exact .inl (congrArg _ (step_stepped hstep).2)
  | fire fuel =>
      obtain ⟨e₁, hfire, heq⟩ := map_eq_ok.mp h
      cases heq
      exact .inl (congrArg _ (fire_chain hfire))
  | tell answer =>
      simp only [serve] at h
      split at h <;> cases h
      · obtain ⟨log, hrecord, hchain, -⟩ := tell_eq_ok ‹_›
        rw [hchain]
        exact .inr ⟨answer, rfl, CommitLog.record_adds hrecord⟩
      · exact .inl rfl

/-- **What calls do to the log:** nothing it holds is lost, and it stays coherent. -/
lemma serveAll_log {calls : List HostCall} (h : e.serveAll calls = .ok e')
    (hlog : e.chain.log.Coherent) :
    e'.chain.log.Coherent ∧ ∀ d, e.chain.log.Holds d → e'.chain.log.Holds d := by
  induction calls generalizing e with
  | nil =>
      cases h
      exact ⟨hlog, fun d hd => hd⟩
  | cons call rest ih =>
      obtain ⟨e₁, hserve, hrest⟩ := bind_eq_ok.mp h
      obtain ⟨⟨e₂, result⟩, hcall, rfl⟩ := map_eq_ok.mp hserve
      have hnext : e₂.chain.log.Coherent ∧ ∀ d, e.chain.log.Holds d → e₂.chain.log.Holds d := by
        rcases serve_log hcall with hsame | ⟨answer, -, hadds⟩
        · rw [hsame]
          exact ⟨hlog, fun d hd => hd⟩
        · exact ⟨hadds.coherent hlog, fun d hd => hadds.holds hd⟩
      obtain ⟨hcoherent, hmore⟩ := ih hrest hnext.1
      exact ⟨hcoherent, fun d hd => hmore d (hnext.2 d hd)⟩

/-- **What an answer does** that is accepted. -/
lemma serve_tell_ok (h : e.serve (.tell answer) = .ok (e', .ok ())) : e.tell answer = .ok e' := by
  simp only [serve] at h
  split at h <;> cases h
  assumption

/-- **What an answer does** that is refused. -/
lemma serve_tell_error {refusal : CommitError}
    (h : e.serve (.tell answer) = .ok (e', .error refusal)) : e' = e := by
  simp only [serve] at h
  split at h <;> cases h
  rfl

end Engine

/-- **The log is written once.**  Whatever a host calls, in whatever order: what the log holds fits
    together, and it holds it from then on and always answers with the same.  An answer is accepted
    only if it is one to what is pending and the log had no answer, and then the log holds that
    datum more, nothing is pending, and what is being done is as it was.  An answer that is refused
    changes nothing, and nothing but an answer changes the log. -/
theorem log_is_written_once {rs : Ruleset} {t : Transaction} {block : Header}
    {calls : List HostCall} {e : Engine}
    (h : (Engine.create rs t block).serveAll calls = .ok e) :
    e.chain.log.Coherent ∧
    (∀ later e', e.serveAll later = .ok e' →
      (∀ d, e.chain.log.Holds d → e'.chain.log.Holds d) ∧ e.chain.log.Within e'.chain.log) ∧
    (∀ answer e', e.serve (.tell answer) = .ok (e', .ok ()) →
      (∃ r, e.pending = some r ∧ answer.satisfies r = true) ∧
        e.chain.log.Adds answer.datum e'.chain.log ∧ e'.pending = none ∧ e'.phase = e.phase) ∧
    (∀ answer e' refusal, e.serve (.tell answer) = .ok (e', .error refusal) → e' = e) ∧
    (∀ call e' result, e.serve call = .ok (e', result) → (∀ answer, call ≠ .tell answer) →
      e'.chain.log = e.chain.log) := by
  have hcoherent : e.chain.log.Coherent := (Engine.serveAll_log h .empty).1
  refine ⟨hcoherent, fun later e' hlater => ?_, fun answer e' hserve => ?_,
    fun answer e' refusal => Engine.serve_tell_error, fun call e' result hserve hother => ?_⟩
  · obtain ⟨hcoherent', hmore⟩ := Engine.serveAll_log hlater hcoherent
    exact ⟨hmore, hcoherent'.within hmore⟩
  · have htell := Engine.serve_tell_ok hserve
    obtain ⟨log, hrecord, hchain, hpending, hphase, -⟩ := Engine.tell_eq_ok htell
    rw [hchain]
    exact ⟨Engine.tell_satisfies htell, CommitLog.record_adds hrecord, hpending, hphase⟩
  · rcases Engine.serve_log hserve with hsame | ⟨answer, rfl, -⟩
    · exact hsame
    · exact absurd rfl (hother answer)

/-- A contract that asks for the code at account 77 and then for its balance. -/
def curiousCode : Bytes := ⟨#[0x60, 77, 0x3b, 0x60, 77, 0x31, 0]⟩

/-- A transaction that calls that contract. -/
def curiousCall : Transaction := ⟨200, 0, 100000, .call 300, 0, ByteArray.empty, 0⟩

/-- What a host tells of account 77. -/
def curiousAnswer (code : Bytes) : HostCall := .tell (.account (.full 77 0 0 code))

/-- The engine when it was told the code at account 77, asks for the account, and was told one with
    other code, which it refused. -/
def curiousEngine : Except Fault Engine :=
  (Engine.create .byzantium curiousCall {}).serveAll
    [.fire 9, .tell (.account (.nonexistent 200)), .fire 9,
      .tell (.account (.full 300 0 0 curiousCode)), .fire 9, .tell (.account (.code 77 ⟨#[1]⟩)),
      .fire 9, curiousAnswer ⟨#[2]⟩]

/-- The account with that code is accepted, and the answer for the code stays what it was. -/
theorem curiousEngine_keeps_code : ∃ e e', curiousEngine = .ok e ∧
    e.serve (curiousAnswer ⟨#[1]⟩) = .ok (e', .ok ()) ∧
      e.chain.log.Adds (.account 77 (.full 0 0 ⟨#[1]⟩)) e'.chain.log ∧
        e'.chain.log.code 77 = .ok ⟨#[1]⟩ := by
  have hcode : (curiousEngine.map fun e => (e.chain.log.code 77).toOption).toOption =
      some (some ⟨#[1]⟩) := by
    decide +kernel
  have hlast : (curiousEngine.bind (·.serve (curiousAnswer ⟨#[1]⟩))).toOption.map
      (·.2.toOption) = some (some ()) := by
    decide +kernel
  rcases hrun : curiousEngine with fault | e
  · rw [hrun] at hcode
    cases hcode
  · simp only [hrun, Except.map, Except.bind, Except.toOption, Option.some.injEq] at hcode hlast
    have hknown : e.chain.log.code 77 = .ok ⟨#[1]⟩ := by
      split at hcode <;> cases hcode
      assumption
    rcases hserve : e.serve (curiousAnswer ⟨#[1]⟩) with fault | ⟨e', refusal | ⟨⟨⟩⟩⟩
    · simp [hserve] at hlast
    · simp [hserve] at hlast
    · obtain ⟨-, hlater, haccepted, -, -⟩ := log_is_written_once hrun
      have hnext : e.serveAll [curiousAnswer ⟨#[1]⟩] = .ok e' := by
        simp [Engine.serveAll, hserve, Except.map]
      exact ⟨e, e', rfl, hserve, (haccepted _ e' hserve).2.1,
        (hlater _ e' hnext).2.code hknown⟩

end ResumableEvm
