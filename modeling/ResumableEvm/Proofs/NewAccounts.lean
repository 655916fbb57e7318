import ResumableEvm.Proofs.CreatorNonces

/-!
# Accounts that calls bring about

Where empty accounts exist, a call of an account that does not exist costs more.  The price is found
in the accounts of the caller, but what brings the account about is the value of the call, which the
new frame moves in accounts of its own as it begins.  They become those of the caller if that frame
ends well, and no account that is there goes before the transaction is settled.  So a call that
carries a value is the last to pay for its target, unless its frame fails.

A call that carries none brings nothing about, and the next one pays again.

* `Overlay.HasAccount` — an account that is there, whatever is told.
* `Note.Asks`, `Note.Links` — how the note of a call goes before that of the frame it enters.
* `Frame.Brings` — what a frame says of the accounts that its calls bring about.
* `Frame.Accounted.brings` — what all frames on the call stack say.
* `Frame.Brings.called` — what is left of a call that carried a value.
* `new_account_is_paid_for_once` — calls with a value in every run.
* `idle_calls_pay_again` — calls without.
-/

namespace ResumableEvm

/-! ## Accounts that are there -/

/-- **An account is there,** whatever is told. -/
def Overlay.HasAccount (s : Overlay) (a : Address) : Prop :=
  ∀ log : CommitLog, s.accountExists a log = .ok true

/-- **No account has gone.** -/
def Overlay.Retains (s s' : Overlay) : Prop := ∀ a, s.HasAccount a → s'.HasAccount a

namespace Overlay

variable {s s' t : Overlay} {log : CommitLog} {a : Address} {value : Word}

lemma hasAccount_of_entry {entry : AccountEntry} (he : s.entries[a]? = some entry)
    (hentry : entry ≠ .dead) : s.HasAccount a := by
  intro log
  cases entry with
  | shifted | live => simp [accountExists, he]
  | dead => exact absurd rfl hentry

/-- An account that is there has an entry: nothing was told to a log that is empty. -/
lemma HasAccount.entry (h : s.HasAccount a) :
    ∃ entry, s.entries[a]? = some entry ∧ entry ≠ .dead := by
  have hnothing := h {}
  simp only [accountExists] at hnothing
  cases he : s.entries[a]? with
  | none => simp [he, CommitLog.accountExists, CommitLog.account, Except.map] at hnothing
  | some entry =>
      refine ⟨entry, rfl, ?_⟩
      rintro rfl
      simp [he] at hnothing

lemma hasAccount_insert (s : Overlay) (a : Address) {entry : AccountEntry}
    (hentry : entry ≠ .dead) :
    ({ s with entries := s.entries.insert a entry } : Overlay).HasAccount a :=
  hasAccount_of_entry Std.TreeMap.getElem?_insert_self hentry

namespace Retains

lemma refl (s : Overlay) : s.Retains s := fun _ h => h

lemma of_eq (h : s' = s) : s.Retains s' := h ▸ refl s

lemma trans (h : s.Retains s') (h' : s'.Retains t) : s.Retains t := fun a ha => h' a (h a ha)

lemma insert (s : Overlay) (a : Address) {entry : AccountEntry} (hentry : entry ≠ .dead) :
    s.Retains { s with entries := s.entries.insert a entry } := by
  intro b hb
  by_cases hab : a = b
  · subst hab
    exact s.hasAccount_insert a hentry
  · obtain ⟨held, he, hheld⟩ := hb.entry
    exact hasAccount_of_entry (by simpa [Std.TreeMap.getElem?_insert, hab] using he) hheld

lemma update {f : LiveAccount → LiveAccount} (h : s.update a log f = .ok s') :
    s.Retains s' := by
  obtain ⟨account, -, rfl⟩ := update_eq_ok.mp h
  exact .insert s a (by simp)

lemma moveBalance {first : Word → BalanceShift} {shift : BalanceShift → Word → BalanceShift}
    {change : Word → Word → Word} (h : s.moveBalance a value log first shift change = .ok s') :
    s.Retains s' := by
  simp only [Overlay.moveBalance] at h
  split at h
  · cases h
    exact .refl s
  · split at h
    · cases h
      exact .insert s a (by simp)
    · exact .update h

end Retains

/-- A movement of more than nothing brings an account about. -/
lemma hasAccount_of_moveBalance {first : Word → BalanceShift}
    {shift : BalanceShift → Word → BalanceShift} {change : Word → Word → Word}
    (hvalue : value ≠ 0) (h : s.moveBalance a value log first shift change = .ok s') :
    s'.HasAccount a := by
  simp only [moveBalance, if_neg hvalue] at h
  split at h
  · cases h
    exact s.hasAccount_insert a (by simp)
  · obtain ⟨account, -, rfl⟩ := update_eq_ok.mp h
    exact s.hasAccount_insert a (by simp)

end Overlay

/-! ## Calls and the frames they enter -/

/-- The account that a frame is about to call. -/
def Frame.callee (f : Frame) : Address := Address.ofWord (f.operand 1)

/-- What a call costs, whether or not there is an account to call. -/
def Frame.baseCallGas (f : Frame) (rules : Rules) : Gas := rules.gasCall + f.transferGas .call

/-- If a note tells of a call, what it asks for is a frame for its target, with its value. -/
def Note.Asks (note : Note) (context : Context) : Prop :=
  ∀ f c, note = .did f (.call .call) c → context.address = f.callee ∧ context.value = f.operand 2

/-- A note that goes before that of a frame called has asked for it. -/
def Note.Links (note note' : Note) : Prop :=
  ∀ context, note' = .called context → note.Asks context

/-- An instruction that is carried out after a value was moved to an account finds that there. -/
def Note.Finds (note note' : Note) : Prop :=
  ∀ context g i c, note = .called context → note' = .did g i c → context.value ≠ 0 →
    g.overlay.HasAccount context.address

/-- Nothing more to pay. -/
lemma Gas.add_zero (gas : Gas) : gas + 0 = gas :=
  congrArg Gas.mk (Word.addSat_zero gas.toWord)

namespace Frame

variable {start f f' g sub : Frame} {chain : ChainView} {h h' : History} {note : Note}
  {log : CommitLog} {rs : Ruleset} {block : Header} {i : Instruction} {c : Charge}

/-- A call costs more for a target that is missing, and no more for one that is there. -/
lemma price_of_charge (hexists : chain.rules.accounts.emptyExists = true)
    (hcharge : f.charge chain (.call .call) = .ok c) :
    c.price = f.baseCallGas chain.rules ∨
      c.price = f.baseCallGas chain.rules + 25000 ∧ ¬ f.overlay.HasAccount f.callee := by
  obtain ⟨-, hprice, -⟩ := charge_eq_ok hcharge
  obtain ⟨surcharge, hsurcharge, hsum⟩ := bind_eq_ok.mp hprice
  obtain ⟨brought, hbrought, hpays⟩ := bind_eq_ok.mp hsurcharge
  simp only [makesAccount, if_pos hexists] at hbrought
  obtain ⟨there, hthere, hmissing⟩ := bind_eq_ok.mp hbrought
  have hsum' : f.baseCallGas chain.rules + surcharge = c.price := Except.ok.inj hsum
  cases hmissing
  cases hpays
  rw [← hsum']
  cases there with
  | true => exact .inl (Gas.add_zero _)
  | false =>
      refine .inr ⟨rfl, fun hhas => ?_⟩
      cases hthere.symm.trans (hhas chain.log)

/-- A call of an account that is there costs no more. -/
lemma price_of_hasAccount (hexists : chain.rules.accounts.emptyExists = true)
    (hcharge : f.charge chain (.call .call) = .ok c) (hhas : f.overlay.HasAccount f.callee) :
    c.price = f.baseCallGas chain.rules :=
  (price_of_charge hexists hcharge).resolve_right fun h => h.2 hhas

lemma Opens.retains (h : start.Opens chain note g) : start.overlay.Retains g.overlay := by
  cases h with
  | called pays moves =>
      have hpaid := (Overlay.Retains.moveBalance pays).trans (.moveBalance moves)
      exact hpaid
  | created vacant pays moves creates =>
      have hpaid := (Overlay.Retains.moveBalance pays).trans (.moveBalance moves)
      have hcreated := hpaid.trans (.update creates)
      exact hcreated
  | collided => exact .refl _

lemma CarriesOut.retains (h : f.CarriesOut chain c i g) : f.overlay.Retains g.overlay := by
  cases h with
  | @done g op afterGas memory control running checked charged afforded effect =>
      rw [(follow_traces (g.book c) control).overlay]
      generalize op.instruction = i at effect
      cases effect with
      | compute | log | call => exact .refl _
      | store program written => exact .update written
      | create program raised => exact .update raised
      | destroy program pays clears =>
          have hpaid := (Overlay.Retains.moveBalance pays).trans (.moveBalance clears)
          exact hpaid

/-- The operands of a call are those of the frame that carries it out. -/
lemma operands_of_taken {operands : CallOperands} {items : List Word}
    (taken : callOperands? .call f.machine.stack.items = some (operands, items)) :
    operands.target = f.callee ∧ operands.value = f.operand 2 := by
  simp only [callOperands?] at taken
  split at taken
  case h_1 hitems =>
      cases taken
      simp [callee, operand, OperandStack.peekD, hitems]
  all_goals contradiction

/-- What a frame asks for is what its last instruction asks for. -/
lemma CarriesOut.asks {context : Context} (h : f.CarriesOut chain c i g)
    (hasked : g.status.invoked? = some context) : (Note.did f i c).Asks context := by
  intro f' c' hcall
  cases h with
  | @done g op afterGas memory control running checked charged afforded effect =>
      obtain ⟨-, -, -, hstatus⟩ := effect.same
      rw [(follow_status (f := g.book c) (hstatus.trans running) control).1] at hasked
      generalize op.instruction = i at effect hcall
      cases effect with
      | compute program stays => rcases stays with rfl | ⟨reason, rfl⟩ <;> cases hasked
      | store | log | destroy => cases hasked
      | create => cases hcall
      | @call kind _ _ _ _ _ program sameMemory taken =>
          cases kind with
          | callCode | delegateCall | staticCall => cases hcall
          | call =>
              cases hasked
              cases hcall
              exact operands_of_taken (f := f) taken

/-! ## What frames say -/

/-- **The accounts that calls bring about,** as a frame says that has come to `f` since it was
    `start`. -/
structure Brings (rs : Ruleset) (block : Header) (start : Frame) (h : History) (f : Frame) :
    Prop where
  /-- A frame has a history from its beginning. -/
  noted : h ≠ []
  /-- A frame begins as it was asked to. -/
  began : ∀ context, h.head? = some (.called context) → context = start.context
  retains : start.overlay.Retains f.overlay
  /-- Where instructions were carried out, no account had gone. -/
  did : ∀ g i c, .did g i c ∈ h → start.overlay.Retains g.overlay
  charged : ∀ g c, .did g (.call .call) c ∈ h →
    ∃ log, g.charge ⟨rs, block, log⟩ (.call .call) = .ok c
  /-- The target of what has moved a value is there. -/
  paid : ∀ context, .called context ∈ h → context.value ≠ 0 →
    f.overlay.HasAccount context.address
  finds : h.Pairwise Note.Finds
  links : h.IsChain Note.Links
  /-- What the frame asks for, its last note asks for. -/
  asks : ∀ context, f.status.invoked? = some context → ∀ note ∈ h.getLast?, note.Asks context

namespace Brings

/-- Nothing is added but accounts, and nothing more is asked for. -/
lemma goesOn (hf : Brings rs block start h f) (hretains : f.overlay.Retains g.overlay)
    (hstatus : g.status.invoked? = none ∨ g.status = f.status) : Brings rs block start h g where
  noted := hf.noted
  began := hf.began
  retains := hf.retains.trans hretains
  did := hf.did
  charged := hf.charged
  paid context hmem hvalue := hretains _ (hf.paid context hmem hvalue)
  finds := hf.finds
  links := hf.links
  asks context hasked := by
    rcases hstatus with hunasked | hsame
    · cases hunasked.symm.trans hasked
    · exact hf.asks context (hsame ▸ hasked)

/-- **A frame that goes on** from the accounts that it has come to. -/
lemma append (hf : Brings rs block start h f) (hg : Brings rs block f' h' g)
    (hsame : f'.overlay = f.overlay)
    (hlinks : ∀ note ∈ h.getLast?, ∀ note' ∈ h'.head?, note.Links note') :
    Brings rs block start (h ++ h') g where
  noted := List.append_ne_nil_of_left_ne_nil hf.noted h'
  began context hcontext := by
    rw [List.head?_append_of_ne_nil _ hf.noted] at hcontext
    exact hf.began context hcontext
  retains := hf.retains.trans (hsame ▸ hg.retains)
  did k i c hmem := by
    rcases List.mem_append.mp hmem with hmem | hmem
    · exact hf.did k i c hmem
    · exact hf.retains.trans (hsame ▸ hg.did k i c hmem)
  charged k c hmem := (List.mem_append.mp hmem).elim (hf.charged k c) (hg.charged k c)
  paid context hmem hvalue := by
    rcases List.mem_append.mp hmem with hmem | hmem
    · exact (hsame ▸ hg.retains) _ (hf.paid context hmem hvalue)
    · exact hg.paid context hmem hvalue
  finds := by
    refine List.pairwise_append.mpr ⟨hf.finds, hg.finds, ?_⟩
    rintro _ hnote _ hnote' context k i c rfl rfl hvalue
    exact (hsame ▸ hg.did k i c hnote') _ (hf.paid context hnote hvalue)
  links := List.isChain_append.mpr ⟨hf.links, hg.links, hlinks⟩
  asks context hasked note hnote := by
    rw [List.getLast?_append_of_ne_nil _ hg.noted] at hnote
    exact hg.asks context hasked note hnote

/-- A frame that has noted one thing. -/
lemma single (hretains : f.overlay.Retains g.overlay)
    (hbegan : ∀ context, note = .called context → context = f.context ∧
      (context.value ≠ 0 → g.overlay.HasAccount context.address))
    (hdid : ∀ k i c, note = .did k i c → k = f ∧ ∃ log, k.charge ⟨rs, block, log⟩ i = .ok c)
    (hasks : ∀ context, g.status.invoked? = some context → note.Asks context) :
    Brings rs block f [note] g where
  noted := List.cons_ne_nil _ _
  began context hcontext := (hbegan context (Option.some.inj hcontext)).1
  retains := hretains
  did k i c hmem := by
    obtain ⟨rfl, -⟩ := hdid k i c (List.mem_singleton.mp hmem).symm
    exact .refl _
  charged k c hmem := (hdid k _ c (List.mem_singleton.mp hmem).symm).2
  paid context hmem := (hbegan context (List.mem_singleton.mp hmem).symm).2
  finds := List.pairwise_singleton _ _
  links := List.isChain_singleton _
  asks context hasked _ hnote := by
    cases hnote
    exact hasks context hasked

lemma opens (hr : start.status = .running) (hg : start.Opens ⟨rs, block, log⟩ note g) :
    Brings rs block start [note] g := by
  have hunasked : g.status.invoked? = none := by
    cases hg with
    | called | created =>
        show start.status.invoked? = none
        rw [hr]
        rfl
    | collided => rfl
  refine .single hg.retains ?_ ?_ fun context hasked => ?_
  · cases hg with
    | called pays moves =>
        rintro context ⟨⟩
        refine ⟨rfl, fun hvalue => ?_⟩
        have hmoved := Overlay.hasAccount_of_moveBalance hvalue moves
        exact hmoved
    | created | collided => rintro context ⟨⟩
  · cases hg <;> rintro k i c ⟨⟩
  · cases hunasked.symm.trans hasked

lemma carriesOut (hg : f.CarriesOut ⟨rs, block, log⟩ c i g)
    (hf : Brings rs block start h f) : Brings rs block start (h ++ [.did f i c]) g := by
  have hstep : Brings rs block f [.did f i c] g := by
    refine .single hg.retains ?_ ?_ fun context hasked => hg.asks hasked
    · rintro context ⟨⟩
    · rintro k i' c' ⟨⟩
      cases hg with
      | done running checked charged => exact ⟨rfl, log, charged⟩
  refine hf.append hstep rfl ?_
  rintro note - note' ⟨⟩ context ⟨⟩

/-- **A frame that was asked for** says what the one that asked for it has said, and goes on. -/
lemma entered {rules : Rules} (hasked : f.status.invoked? = some sub.context)
    (hf : Brings rs block start h f) (hsub : Brings rs block (f.derive sub.context rules) h' sub) :
    Brings rs block start (h ++ h') sub := by
  refine hf.append hsub rfl fun note hnote note' hnote' context hcalled => ?_
  subst hcalled
  obtain rfl : context = sub.context := hsub.began context hnote'
  exact hf.asks _ hasked note hnote

end Brings

/-- **What frames say of the accounts that calls bring about** follows the laws of the notes. -/
lemma brings_law (rs : Ruleset) (block : Header) (w : World) :
    History.Law rs block w fun _ => Brings rs block where
  grow _ _ h := h
  opens := by
    rintro log start g note - ⟨context, depth, overlay, removed, rfl⟩ hg
    exact .opens rfl hg
  same htraces _ hunasked h := h.goesOn (.of_eq htraces.overlay) (.inl hunasked)
  carriesOut _ hg h := h.carriesOut hg
  deposits {log start f h overlay} _ _ hok _ _ hdeposits hf := by
    refine hf.append (.single (.update hdeposits) ?_ ?_ ?_) rfl ?_
    · rintro context ⟨⟩
    · rintro k i c ⟨⟩
    · intro context hasked
      rw [hok] at hasked
      cases hasked
    · rintro note - note' ⟨⟩ context ⟨⟩
  empties _ hdeposits h := h.goesOn (.update hdeposits) (.inr rfl)
  adopts {log start f g sub h h'} hasked _ htraces _ hunasked hf hsub := by
    have hoverlay : g.overlay = sub.overlay := htraces.overlay
    exact (hf.entered hasked hsub).goesOn (.of_eq hoverlay) (.inl hunasked)

/-- **All frames on the call stack** say so as one that has done what they have. -/
lemma Accounted.brings {Starts : Frame → Prop} {creation : Bool} {waiting : List Frame}
    {hs : Annals} (hf : Accounted rs.rules Starts creation (Brings rs block) f waiting hs) :
    ∃ start, Brings rs block start hs.whole f := by
  induction hf with
  | root starts opened holds => exact ⟨_, by simpa [Annals.whole] using holds⟩
  | sub asked opened holds below ih =>
      obtain ⟨start, hparent⟩ := ih
      rw [Annals.whole_cons]
      exact ⟨start, hparent.entered asked holds⟩

/-- **After a call that carries a value,** which has entered a frame, its target is there, and was
    for all that came after. -/
lemma Brings.called {before after : History} {context : Context}
    (hf : Brings rs block start h f)
    (hsplit : h = before ++ .did g (.call .call) c :: .called context :: after)
    (hvalue : g.operand 2 ≠ 0) :
    f.overlay.HasAccount g.callee ∧
      ∀ k i c', .did k i c' ∈ after → k.overlay.HasAccount g.callee := by
  subst hsplit
  obtain ⟨-, hlink, -⟩ := List.isChain_append_cons_cons.mp hf.links
  obtain ⟨haddress, hmoved⟩ : context.address = g.callee ∧ context.value = g.operand 2 :=
    hlink context rfl g c rfl
  rw [← hmoved] at hvalue
  rw [← haddress]
  obtain ⟨-, hfinds, -⟩ := List.pairwise_append.mp hf.finds
  obtain ⟨hfirst, -⟩ := List.pairwise_cons.mp hfinds.of_cons
  exact ⟨hf.paid context (by simp) hvalue,
    fun k i c' hmem => hfirst _ hmem context k i c' rfl rfl hvalue⟩

end Frame

/-! ## Runs -/

open Engine in
/-- **A new account is paid for once,** where empty accounts exist, by calls that carry a value.
    Whatever the host answers, every run has annals.  Until the transaction is settled, each call
    that they tell of was charged 25000 more than others only if its target was missing.  Let one
    of them carry a value, and let it have entered a frame that has not failed, nor any of those
    below it.  For every frame that goes on from there:

    * the target of that call is there, whatever is told;
    * no call of the same target since was charged more for it;
    * nor is the call of it that the frame may be about to carry out. -/
theorem new_account_is_paid_for_once (rs : Ruleset) (t : Transaction) (block : Header)
    (hexists : rs.rules.accounts.emptyExists = true) :
    (∀ e, Reachable rs t block e → ∃ hs, Narrated rs t block e hs) ∧
    ∀ (e : Engine) (hs : Annals) (x : Execution), Narrated rs t block e hs →
      e.phase = .executing x → x.settled = false →
      (∀ k c, .did k (.call .call) c ∈ hs.whole → c.price = k.baseCallGas rs.rules ∨
        c.price = k.baseCallGas rs.rules + 25000 ∧ ¬ k.overlay.HasAccount k.callee) ∧
      ∀ (n : ℕ) (g : Frame), (x.calls.current :: x.calls.waiting)[n]? = some g →
      ∀ (before after : History) (f : Frame) (c : Frame.Charge) (context : Context),
        Annals.whole (hs.drop n) =
          before ++ .did f (.call .call) c :: .called context :: after →
        f.operand 2 ≠ 0 →
          g.overlay.HasAccount f.callee ∧
          (∀ k c', .did k (.call .call) c' ∈ after → k.callee = f.callee →
            c'.price = k.baseCallGas rs.rules) ∧
          ∀ c', g.due? e.chain = some (.call .call, c') → g.callee = f.callee →
            c'.price = g.baseCallGas rs.rules := by
  refine ⟨fun e h => h.exists_narrated, fun e hs x hnarrated hphase hunsettled => ?_⟩
  obtain ⟨w, ht⟩ := hnarrated.reachable.coherent.exists_tells
  have haccounted := hnarrated.accounted (Frame.brings_law rs block w) ht
  have hcalls := (haccounted.executing x hphase).calls hunsettled
  refine ⟨fun k c hmem => ?_, fun n g hg before after f c context hsplit hvalue => ?_⟩
  · obtain ⟨start, hbrings⟩ := hcalls.brings
    obtain ⟨log, hcharge⟩ := hbrings.charged k c hmem
    exact Frame.price_of_charge hexists hcharge
  · obtain ⟨start, hbrings⟩ := (hcalls.drop hg).brings
    obtain ⟨hhas, hlater⟩ := hbrings.called hsplit hvalue
    refine ⟨hhas, fun k c' hmem hsame => ?_, fun c' hdue hsame => ?_⟩
    · have hwhole : .did k (.call .call) c' ∈ Annals.whole (hs.drop n) := by
        rw [hsplit]
        simp [hmem]
      obtain ⟨log, hcharge⟩ := hbrings.charged k c' hwhole
      exact Frame.price_of_hasAccount hexists hcharge (hsame ▸ hlater k _ c' hmem)
    · obtain ⟨-, -, op, -, -, hcharge, -, hop⟩ := Frame.due?_eq_some.mp hdue
      rw [hop, haccounted.chain] at hcharge
      exact Frame.price_of_hasAccount hexists hcharge (hsame ▸ hhas)

/-- The call that a note tells of, by the frame as it stood and its charge. -/
def Note.call? : Note → Option (Frame × Frame.Charge)
  | .did f (.call .call) c => some (f, c)
  | _ => none

lemma Note.call?_eq_some {note : Note} {f : Frame} {c : Frame.Charge} :
    note.call? = some (f, c) ↔ note = .did f (.call .call) c := by
  constructor
  · intro hcall
    simp only [call?] at hcall
    split at hcall <;> cases hcall
    rfl
  · rintro rfl
    rfl

/-- The first call that has entered a frame, and the first one since. -/
def History.twoCalls? : History → Option ((Frame × Frame.Charge) × Frame × Frame.Charge)
  | .did f (.call .call) c :: .called _ :: after => (after.findSome? Note.call?).map ((f, c), ·)
  | _ :: h => twoCalls? h
  | [] => none

lemma History.exists_of_twoCalls? {h : History} {f k : Frame} {c c' : Frame.Charge}
    (hcalls : h.twoCalls? = some ((f, c), k, c')) : ∃ before context after,
      h = before ++ .did f (.call .call) c :: .called context :: after ∧
        .did k (.call .call) c' ∈ after := by
  induction h using twoCalls?.induct with
  | case1 g c₁ context after =>
      obtain ⟨⟨k₁, c₂⟩, hfind, heq⟩ := Option.map_eq_some_iff.mp hcalls
      cases heq
      obtain ⟨note, hmem, hnote⟩ := List.exists_of_findSome?_eq_some hfind
      rw [Note.call?_eq_some.mp hnote] at hmem
      exact ⟨[], context, after, rfl, hmem⟩
  | case2 note rest hother ih =>
      rw [twoCalls?] at hcalls
      · obtain ⟨before, context, after, rfl, hmem⟩ := ih hcalls
        exact ⟨note :: before, context, after, rfl, hmem⟩
      · exact hother
  | case3 => cases hcalls

/-- **Two calls of one account** on a run.  The first has entered a frame, and both are back. -/
structure Engine.CallsTwice (e : Engine) (hs : Annals) (x : Execution) (f k : Frame)
    (c c' : Frame.Charge) : Prop where
  phase : e.phase = .executing x
  unsettled : x.settled = false
  alone : x.calls.waiting = []
  notes : ∃ before context after,
    hs.whole = before ++ .did f (.call .call) c :: .called context :: after ∧
      .did k (.call .call) c' ∈ after
  same : k.callee = f.callee

/-- Code that calls an account with a value. -/
def payingCode (value : UInt8) : List UInt8 :=
  [0x60, 0, 0x60, 0, 0x60, 0, 0x60, 0, 0x60, value, 0x60, 150, 0x61, 0x03, 0xe8, 0xf1, 0x50]

/-- A call of an account whose code this is. -/
def payingCall : Transaction := ⟨200, 1, 200000, .call 100, 0, ByteArray.empty, 0⟩

/-- The engine that runs it, where that code stands twice, and its annals. -/
def payerAfter (value : UInt8) (fuel : ℕ) : Except Fault (Engine × Annals) :=
  (Engine.create .frontier payingCall {}).narrate
    { accounts := ((∅ : Std.TreeMap Address WorldAccount).insert 200 { balance := 1000000 }).insert
        100 { balance := 10, code := ⟨(payingCode value ++ payingCode value).toArray⟩ } } fuel []

/-- Whether a run has come to two calls of one account, of which something can be decided. -/
def Engine.callsTwice? (run : Except Fault (Engine × Annals))
    (decides : Engine → Execution → Frame × Frame.Charge → Frame × Frame.Charge → Bool) : Bool :=
  run.toOption.any fun r => r.1.phase.execution?.any fun x => r.2.whole.twoCalls?.any fun calls =>
    !x.settled && x.calls.waiting.isEmpty && decide (calls.2.1.callee = calls.1.1.callee) &&
      decides r.1 x calls.1 calls.2

lemma Engine.exists_callsTwice (run : Except Fault (Engine × Annals))
    (decides : Engine → Execution → Frame × Frame.Charge → Frame × Frame.Charge → Bool)
    (h : callsTwice? run decides = true) : ∃ e hs x f c k c',
      run = .ok (e, hs) ∧ e.CallsTwice hs x f k c c' ∧ decides e x (f, c) (k, c') = true := by
  simp only [callsTwice?, Option.any_eq_true, toOption_eq_some, Phase.execution?_eq_some,
    Bool.and_eq_true, Bool.not_eq_true', List.isEmpty_iff, decide_eq_true_eq] at h
  obtain ⟨⟨e, hs⟩, hrun, x, hphase, ⟨⟨f, c⟩, k, c'⟩, hcalls, ⟨⟨hunsettled, halone⟩, hsame⟩,
    hdecides⟩ := h
  exact ⟨e, hs, x, f, c, k, c', hrun, ⟨hphase, hunsettled, halone,
    History.exists_of_twoCalls? hcalls, hsame⟩, hdecides⟩

/-- With a value of one, the first call has paid for the account and the second has not. -/
theorem payer_pays_once : ∃ e hs x f c k c', payerAfter 1 30 = .ok (e, hs) ∧
    e.CallsTwice hs x f k c c' ∧ c.price = f.baseCallGas Ruleset.frontier.rules + 25000 ∧
      c'.price = k.baseCallGas Ruleset.frontier.rules ∧
        x.calls.current.overlay.HasAccount f.callee := by
  obtain ⟨e, hs, x, f, c, k, c', hrun, htwice, hdecides⟩ :=
    Engine.exists_callsTwice (payerAfter 1 30) (fun _ _ call _ =>
      decide (call.1.operand 2 ≠ 0) &&
        decide (call.2.price = call.1.baseCallGas Ruleset.frontier.rules + 25000))
      (by decide +kernel)
  simp only [Bool.and_eq_true, decide_eq_true_eq] at hdecides
  obtain ⟨before, context, after, hsplit, hmem⟩ := htwice.notes
  obtain ⟨hhas, hlater, -⟩ := ((new_account_is_paid_for_once _ _ _ rfl).2 e hs x
    (Engine.narrated_of_narrate hrun).1 htwice.phase htwice.unsettled).2 0 _ rfl before after f c
      context hsplit hdecides.1
  exact ⟨e, hs, x, f, c, k, c', hrun, htwice, hdecides.2, hlater k c' hmem htwice.same, hhas⟩

/-- With a value of zero, both have paid for it and it is still missing. -/
theorem idle_calls_pay_again : ∃ e hs x f c k c',
    Ruleset.frontier.rules.accounts.emptyExists = true ∧ payerAfter 0 30 = .ok (e, hs) ∧
      Engine.Narrated .frontier payingCall {} e hs ∧ e.CallsTwice hs x f k c c' ∧
        f.operand 2 = 0 ∧ c.price = f.baseCallGas Ruleset.frontier.rules + 25000 ∧
          c'.price = k.baseCallGas Ruleset.frontier.rules + 25000 ∧
            x.calls.current.overlay.accountExists f.callee e.chain.log = .ok false := by
  obtain ⟨e, hs, x, f, c, k, c', hrun, htwice, hdecides⟩ :=
    Engine.exists_callsTwice (payerAfter 0 30) (fun e x call call' =>
      decide (call.1.operand 2 = 0) &&
        decide (call.2.price = call.1.baseCallGas Ruleset.frontier.rules + 25000) &&
          decide (call'.2.price = call'.1.baseCallGas Ruleset.frontier.rules + 25000) &&
            (x.calls.current.overlay.accountExists call.1.callee e.chain.log).toOption =
              some false)
      (by decide +kernel)
  simp only [Bool.and_eq_true, decide_eq_true_eq, toOption_eq_some] at hdecides
  obtain ⟨⟨⟨hvalue, hfirst⟩, hsecond⟩, hmissing⟩ := hdecides
  exact ⟨e, hs, x, f, c, k, c', rfl, hrun, (Engine.narrated_of_narrate hrun).1, htwice, hvalue,
    hfirst, hsecond, hmissing⟩

end ResumableEvm
