import ResumableEvm.Proofs.AccountView
import ResumableEvm.Proofs.PaidMemory
import ResumableEvm.Proofs.SurvivingHistory
import ResumableEvm.Proofs.SurvivingLogs

/-!
# What a creation does

A creation that has been checked and paid for enters a frame, or it leaves the accounts as they are.
If it enters one, it raises the nonce of its account before it asks for the frame.  The address of
the new account was looked up when the creation was checked, and is derived from the nonce as it
stood then.

* `Frame.Creates` — what a creation does when it is executed.
* `Frame.Enters` — whether a frame can be entered.
* `Frame.EntersCreation` — what a creation does that enters one.
* `Frame.step_creation` — what a step does in which a creation is due.
* `Frame.step_asks` — at which address a frame asks for a creation.
-/

namespace ResumableEvm

/-! ## Executing a creation -/

/-- The machine leaves creations to its surroundings. -/
lemma Machine.step_of_create {m : Machine} {op : Opcode} {kind : CreateKind}
    (hop : m.nextOpcode? = some op) (hi : op.instruction = .create kind) :
    m.step.2 = some (.trap op) := by
  have htrap : ∀ position, m.evaluate op position = (m, .trap op) := fun position => by
    rw [evaluate, hi]
  simp only [step]
  split
  · rename_i hposition
    rw [nextOpcode?, hposition] at hop
    cases hop
  · simp only [hop, htrap]

namespace Frame

variable {f g : Frame} {chain : ChainView} {op : Opcode} {i : Instruction} {kind : CreateKind}
  {stipend afterGas : Gas} {c : Charge} {w : World} {memory : Memory} {control : FrameControl}

/-- The address that a creation derives from a nonce of the creator, or from a salt and the code. -/
def derivedAddress (f : Frame) (nonce : Word) : CreateKind → Address
  | .byNonce => createAddress f.context.address nonce
  | .bySalt =>
    let code := f.machine.memory.read (f.operand 1) (f.operand 2)
    saltedAddress f.context.address (f.operand 3) code

/-- **What a creation does** that is carried out. -/
inductive Creates (f : Frame) (chain : ChainView) (kind : CreateKind) (g : Frame) :
    FrameControl → Prop where
  /-- It cannot enter a frame, and leaves the accounts as they are. -/
  | declined (declines : f.cannotEnter chain (f.operand 0) = .ok true)
      (overlay : g.overlay = f.overlay) (status : g.status = f.status) :
      Creates f chain kind g .proceed
  /-- It raises the nonce of its account and asks for a frame. -/
  | entered {nonce raised : Word} {context : Context}
      (enters : f.cannotEnter chain (f.operand 0) = .ok false)
      (counted : f.overlay.nonce f.context.address chain.log = .ok nonce)
      (raises : nextNonce nonce = .ok raised)
      (written : f.overlay.setNonce f.context.address raised chain.log = .ok g.overlay)
      (address : context.address = f.derivedAddress nonce kind) :
      Creates f chain kind g (.invokeCreate context)

/-- An instruction with room on the stack ends with its result there. -/
lemma giving_of_room {w : Word} {event : Option Event} {done : Performed}
    (hroom : f.machine.stack.size < f.machine.stack.limit)
    (h : f.giving w control event = (g, .ok done)) :
    g.overlay = f.overlay ∧ g.status = f.status ∧ done.control = control := by
  have hpush : f.machine.stack.push w =
      .ok { f.machine.stack with items := w :: f.machine.stack.items } := by
    rw [OperandStack.push, if_neg (by omega)]
  simp only [giving, hpush] at h
  cases h
  exact ⟨rfl, rfl, rfl⟩

/-- A creation past its operands. -/
lemma creates_of_performCreate {items : List Word} {salt : Option Word} {done : Performed}
    (hroom : items.length < f.machine.stack.limit)
    (haddress : ∀ nonce, f.derivedAddress nonce kind =
      match salt with
      | some salt => saltedAddress f.context.address salt
          (f.machine.memory.read (f.operand 1) (f.operand 2))
      | none => createAddress f.context.address nonce)
    (h : (f.withItems items).performCreate chain afterGas (f.operand 0) (f.operand 1)
      (f.operand 2) salt = (g, .ok done)) : f.Creates chain kind g done.control := by
  obtain ⟨declined, hdeclined, h⟩ := reading_eq_ok.mp h
  split at h
  · rename_i hdeclines
    rw [hdeclines] at hdeclined
    obtain ⟨hoverlay, hstatus, hcontrol⟩ :=
      giving_of_room (f := { f.withItems items with ret := ByteArray.empty }) hroom h
    rw [hcontrol]
    exact .declined hdeclined hoverlay hstatus
  · rename_i henters
    rw [Bool.eq_false_of_not_eq_true henters] at hdeclined
    obtain ⟨nonce, hnonce, h⟩ := reading_eq_ok.mp h
    obtain ⟨raised, hraised, h⟩ := attempt_eq_ok.mp h
    obtain ⟨overlay, hwritten, h⟩ := reading_eq_ok.mp h
    obtain ⟨hoverlay, -, hcontrol⟩ := giving_of_room
      (f := { f.withItems items with ret := ByteArray.empty, overlay := overlay }) hroom h
    rw [hcontrol]
    exact .entered hdeclined hnonce hraised (hoverlay ▸ hwritten) (haddress nonce).symm

/-- A creation takes its operands off the stack. -/
lemma creates_of_perform {done : Performed} (hi : op.instruction = .create kind)
    (hs : f.checkStack (.create kind) = .ok ())
    (h : f.perform chain op stipend afterGas = (g, .ok done)) :
    f.Creates chain kind g done.control := by
  cases kind with
  | byNonce =>
      obtain ⟨henough, hlimit⟩ := check_eq_ok.mp hs
      obtain ⟨value, offset, len, items, hitems⟩ := Machine.exists_three henough
      have hvalue : f.operand 0 = value := operand_zero hitems
      have hoffset : f.operand 1 = offset := operand_one hitems
      have hlen : f.operand 2 = len := Machine.peekD_two hitems
      rw [perform, hi, hitems, ← hvalue, ← hoffset, ← hlen] at h
      simp only [OperandStack.size, hitems, List.length_cons] at hlimit
      exact creates_of_performCreate (by omega) (fun _ => rfl) h
  | bySalt =>
      obtain ⟨henough, hlimit⟩ := check_eq_ok.mp hs
      obtain ⟨value, offset, len, rest, hrest⟩ :=
        Machine.exists_three (le_trans (by decide) henough)
      simp only [OperandStack.size, hrest, List.length_cons] at henough hlimit
      obtain ⟨salt, items, rfl⟩ := List.exists_cons_of_length_pos (by omega : 0 < rest.length)
      have hvalue : f.operand 0 = value := operand_zero hrest
      have hoffset : f.operand 1 = offset := operand_one hrest
      have hlen : f.operand 2 = len := Machine.peekD_two hrest
      have hsalt : f.operand 3 = salt := by simp [operand, OperandStack.peekD, hrest]
      rw [perform, hi, hrest, ← hvalue, ← hoffset, ← hlen] at h
      simp only [List.length_cons] at hlimit
      refine creates_of_performCreate (by omega) (fun _ => ?_) h
      simp only [derivedAddress, hsalt]

/-- **A creation that is executed** does so. -/
lemma creates_of_execute {done : Performed} (hop : f.machine.nextOpcode? = some op)
    (hi : op.instruction = .create kind) (hs : f.checkStack (.create kind) = .ok ())
    (h : f.execute chain stipend afterGas = (g, .ok done)) :
    f.Creates chain kind g done.control := by
  have htraps : f.machine.step.2 = some (.trap op) := Machine.step_of_create hop hi
  simp only [execute] at h
  split at h <;> rename_i hstep
  · rw [hstep] at htraps
    cases htraps
  · rw [hstep] at htraps
    cases htraps
  · rw [hstep] at htraps
    cases htraps
    obtain ⟨p, -, rfl⟩ := Machine.step_trap _ hstep
    have hcreates := creates_of_perform (f := { f with
      machine := { f.machine with position := .ok (p + 1) } }) hi hs h
    generalize done.control = control at hcreates ⊢
    cases hcreates with
    | declined declines overlay status => exact .declined declines overlay status
    | entered enters counted raises written address =>
        exact .entered enters counted raises written address

/-! ## Creations that are carried out -/

/-- **A frame can be entered** for a creation: calls do not nest too deep, and the balance covers
    the value. -/
def Enters (f : Frame) (rs : Ruleset) (w : World) : Prop :=
  f.depth < rs.rules.callStackLimit.toNat ∧
    (f.operand 0).toNat ≤ (f.overlay.view w f.context.address).balance.toNat

instance (f : Frame) (rs : Ruleset) (w : World) : Decidable (f.Enters rs w) :=
  inferInstanceAs (Decidable (_ ∧ _))

lemma enters_iff (ht : chain.log.Tells w) {declined : Bool}
    (h : f.cannotEnter chain (f.operand 0) = .ok declined) :
    f.Enters chain.ruleset w ↔ declined = false := by
  simp only [cannotEnter] at h
  split at h
  · rename_i hdeep
    cases h
    simp only [Enters, Bool.true_eq_false, iff_false]
    exact fun henters => absurd henters.1 (Nat.not_lt.mpr hdeep)
  · rename_i hshallow
    obtain ⟨balance, hbalance, h⟩ := bind_eq_ok.mp h
    cases h
    obtain rfl := Overlay.balance_eq_view ht hbalance
    simp only [Enters, Nat.lt_of_not_le hshallow, true_and, decide_eq_false_iff_not, BitVec.not_lt]
    exact Iff.rfl

/-- **A creation enters a frame:** it asks for one at the address that was looked up when it was
    checked, which is derived from the nonce of its account, and raises that nonce by one. -/
structure EntersCreation (f : Frame) (chain : ChainView) (w : World) (kind : CreateKind)
    (g : Frame) : Prop where
  reads : f.overlay.nonce f.context.address chain.log =
    .ok (f.overlay.view w f.context.address).nonce
  asks : ∃ context, g.status = .invokeCreate context ∧
    f.createdAddress? chain kind = .ok (some context.address) ∧
      context.address = f.derivedAddress (f.overlay.view w f.context.address).nonce kind
  raises : ∀ a, (g.overlay.view w a).nonce.toNat =
    (f.overlay.view w a).nonce.toNat + if a = f.context.address then 1 else 0

/-- A creation that has been paid for can read its code. -/
lemma canReadCode_of_afford (hcharge : f.charge chain (.create kind) = .ok c)
    (hafford : f.afford chain.rules (.create kind) c = .ok (afterGas, memory)) :
    f.canReadCode chain.rules = true := by
  have hlimit := (afford_eq_ok hafford).2.1
  have hindex := memoryLimit_le chain.rules
  rw [toNat_words_mul (hlimit.trans hindex)] at hlimit
  have hregion : f.operand 2 = 0 ∨
      (f.operand 1).toNat + (f.operand 2).toNat ≤ 32 * c.words.toNat :=
    charge_covers hcharge hafford _ (List.mem_singleton.mpr rfl)
  simp only [canReadCode, Word.isIndex, Bool.or_eq_true, decide_eq_true_eq, Bool.and_eq_true]
  exact hregion.imp_right fun hend => by omega

/-- The address of a creation that can read its code is derived from the nonce that is read. -/
lemma createdAddress?_eq (hread : f.canReadCode chain.rules = true) {nonce : Word}
    (hnonce : f.overlay.nonce f.context.address chain.log = .ok nonce) :
    f.createdAddress? chain kind = .ok (some (f.derivedAddress nonce kind)) := by
  cases kind with
  | byNonce =>
      simp only [createdAddress?, hnonce]
      rfl
  | bySalt => rw [createdAddress?, if_pos hread, derivedAddress]

/-- Memory that has the same bytes makes no difference to a creation. -/
lemma Creates.of_withMemory (hdata : memory.data = f.machine.memory.data)
    (h : (f.withMemory memory).Creates chain kind g control) : f.Creates chain kind g control := by
  cases h with
  | declined declines overlay status => exact .declined declines overlay status
  | @entered nonce raised context enters counted raises written address =>
      refine .entered enters counted raises written ?_
      have hread : ∀ offset len, memory.read offset len = f.machine.memory.read offset len :=
        fun offset len => by simp only [Memory.read, Memory.get, hdata]
      rw [address]
      cases kind with
      | byNonce => rfl
      | bySalt => exact congrArg (saltedAddress _ _) (hread _ _)

/-- A creation that is carried out by a frame that could read its code. -/
lemma CarriesOut.creates (hi : i = .create kind) (h : f.CarriesOut chain c i g) :
    f.status = .running ∧ f.canReadCode chain.rules = true ∧ ∃ made control,
      f.Creates chain kind made control ∧ g = (made.book c).follow control := by
  cases h with
  | @done g op afterGas memory control running checked charged afforded effect next executes =>
      obtain ⟨done, hexecute, rfl⟩ := executes
      rw [hi] at charged afforded
      have hstack : f.checkStack op.instruction = .ok () := (check_parts.mp checked).2.1
      rw [hi] at hstack
      have hexecuted := creates_of_execute (f := f.withMemory memory) next hi hstack hexecute
      exact ⟨running, canReadCode_of_afford charged afforded, g, done.control,
        hexecuted.of_withMemory (resizeEnd_data (afford_eq_ok afforded).2.2), rfl⟩

/-- **A creation that is carried out** enters a frame, or it leaves the accounts as they are and the
    frame runs on. -/
lemma CarriesOut.creation (ht : chain.log.Tells w) (hi : i = .create kind)
    (h : f.CarriesOut chain c i g) :
    if f.Enters chain.ruleset w then f.EntersCreation chain w kind g
    else g.overlay = f.overlay ∧ g.status = .running := by
  obtain ⟨running, hread, g, control, hcreates, rfl⟩ := h.creates hi
  have hoverlay := (follow_traces (g.book c) control).overlay
  cases hcreates with
  | declined declines overlay status =>
      have hstays : ¬ f.Enters chain.ruleset w := by
        rw [enters_iff ht declines]
        decide
      rw [if_neg hstays]
      exact ⟨hoverlay.trans overlay, status.trans running⟩
  | @entered nonce raised context enters counted raises written address =>
      rw [if_pos ((enters_iff ht enters).mpr rfl)]
      have hlooked : f.createdAddress? chain kind = _ := createdAddress?_eq hread counted
      obtain rfl : nonce = (f.overlay.view w f.context.address).nonce :=
        (f.overlay.shows_view ht _).nonce counted
      refine ⟨counted, ⟨context, rfl, by rw [hlooked, address], address⟩, fun a => ?_⟩
      rw [hoverlay]
      have hview : g.overlay.view w = _ := Overlay.setNonce_view ht written
      rw [show (g.book c).overlay = g.overlay from rfl, hview]
      by_cases ha : a = f.context.address
      · subst ha
        rw [Function.update_self, if_pos rfl]
        exact toNat_nextNonce raises
      · rw [Function.update_of_ne ha, if_neg ha, Nat.add_zero]

/-- **A creation that is due** enters a frame in the step that is taken, or it leaves the accounts
    as they are. -/
lemma step_creation {event : Option Event} (ht : chain.log.Tells w)
    (hdue : f.due? chain = some (.create kind, c)) (h : f.step chain = (g, .ok event)) :
    if f.Enters chain.ruleset w then f.EntersCreation chain w kind g
    else g.overlay = f.overlay ∧ g.status = .running := by
  rcases step_due h with ⟨hnone, -⟩ | ⟨i, c', hsome, hcarries⟩
  · cases hdue.symm.trans hnone
  · cases hdue.symm.trans hsome
    exact hcarries.creation ht rfl

/-! ## Asking for a creation -/

variable {context : Context}

/-- A frame that goes on as told asks for a creation only if that is what it is told. -/
lemma control_of_asks (running : f.status = .running)
    (asks : (f.follow control).status = .invokeCreate context) :
    control = .invokeCreate context := by
  cases control with
  | proceed => cases running.symm.trans asks
  | exit reason =>
      have hexited := follow_exit_exited f reason
      rw [asks] at hexited
      cases hexited
  | invokeCall => cases asks
  | invokeCreate =>
      cases asks
      rfl

/-- Only a creation asks for one. -/
lemma CarriesOut.exists_kind (h : f.CarriesOut chain c i g)
    (asks : g.status = .invokeCreate context) : ∃ kind, i = .create kind := by
  cases h with
  | @done g op afterGas memory control running checked charged afforded effect =>
      obtain ⟨-, -, -, hstatus⟩ := effect.same
      obtain rfl : control = .invokeCreate context :=
        control_of_asks (f := g.book c) (hstatus.trans running) asks
      generalize op.instruction = i at effect ⊢
      cases effect with
      | compute program stays => rcases stays with h | ⟨reason, h⟩ <;> cases h
      | create => exact ⟨_, rfl⟩

/-- **A frame that asks for a creation** does so at the address that is derived from its nonce, or
    from a salt and the code. -/
lemma step_asks {event : Option Event} (running : f.status = .running)
    (stepped : f.step chain = (g, .ok event)) (asks : g.status = .invokeCreate context) :
    ∃ op kind nonce, f.machine.nextOpcode? = some op ∧ op.instruction = .create kind ∧
      f.overlay.nonce f.context.address chain.log = .ok nonce ∧
        context.address = f.derivedAddress nonce kind := by
  rcases step_due stepped with ⟨-, -, rfl | hexited⟩ | ⟨i, c, hdue, hcarries⟩
  · cases running.symm.trans asks
  · rw [asks] at hexited
    cases hexited
  · obtain ⟨-, -, op, hop, -, -, -, hi⟩ := due?_eq_some.mp hdue
    obtain ⟨kind, hkind⟩ := hcarries.exists_kind asks
    obtain ⟨-, -, made, control, hcreates, rfl⟩ := hcarries.creates hkind
    cases hcreates with
    | declined declines overlay status => cases (running.symm.trans status.symm).trans asks
    | @entered nonce _ _ enters counted raises written address =>
        cases asks
        exact ⟨op, kind, nonce, hop, hi.trans hkind, counted, address⟩

end Frame

end ResumableEvm
