import ResumableEvm.Proofs.Creations
import ResumableEvm.Proofs.LengthPrefix

/-!
# Addresses of contracts

The address of a contract is cut out of a digest: of its creator and the creator's nonce, or of its
creator, a salt and the digest of its code.  What is digested determines all of these, and the two
ways to an address never digest the same string.  So contracts that are created differently have one
address only if digests of different strings agree.

* `createPreimage_iff`, `saltedPreimage_iff`, `createPreimage_ne_saltedPreimage` — what is digested.
* `Keccak.kept`, `Keccak.Collide` — the bytes of a digest that an address keeps.
* `Deployment`, `Deployment.Yields` — what a contract is created from, and where its address is
  taken.
* `contract_addresses_meet_only_in_collisions` — when two contracts have one address.
-/

namespace ResumableEvm

/-! ## What is digested -/

namespace Address

variable {a b : Address}

lemma toNat_lt (a : Address) : a.toNat < 256 ^ 20 := a.isLt

@[simp] lemma size_toBytes (a : Address) : a.toBytes.size = 20 := Bytes.size_ofNat _ _

@[simp] lemma toBytes_inj : a.toBytes = b.toBytes ↔ a = b :=
  (Bytes.ofNat_inj a.toNat_lt b.toNat_lt).trans BitVec.toNat_inj

end Address

namespace Word

variable {w v : Word}

lemma toNat_lt (w : Word) : w.toNat < 256 ^ 32 := w.isLt

@[simp] lemma size_toBytes (w : Word) : w.toBytes.size = 32 := Bytes.size_ofNat _ _

@[simp] lemma toBytes_inj : w.toBytes = v.toBytes ↔ w = v :=
  (Bytes.ofNat_inj w.toNat_lt v.toNat_lt).trans BitVec.toNat_inj

end Word

section Preimages

variable {caller caller' : Address} {nonce nonce' salt salt' : Word} {codeHash codeHash' : Bytes}

/-- The byte strings that the preimage of a creation by nonce lists. -/
def createFields (caller : Address) (nonce : Word) : List Bytes :=
  [caller.toBytes, Bytes.minimal nonce.toNat]

/-- The list is short: an address has twenty bytes, and a nonce at most 32. -/
lemma size_createFields (caller : Address) (nonce : Word) :
    (Rlp.payload ((createFields caller nonce).map Rlp.string)).size ≤ 54 := by
  have hcaller := caller.size_toBytes
  have hnonce : (Bytes.minimal nonce.toNat).size ≤ 32 :=
    (Bytes.size_minimal _).trans_le (Bytes.lengthOf_le nonce.toNat_lt)
  have hfirst : (Rlp.string caller.toBytes).size ≤ _ := Rlp.size_string_le (by omega)
  have hsecond : (Rlp.string (Bytes.minimal nonce.toNat)).size ≤ _ := Rlp.size_string_le (by omega)
  simp only [createFields, List.map_cons, List.map_nil, Rlp.payload_cons, ByteArray.size_append]
  have hnil : (Rlp.payload []).size = 0 := rfl
  omega

/-- **A creator and its nonce** are determined by what is digested of them. -/
lemma createPreimage_iff :
    createPreimage caller nonce = createPreimage caller' nonce' ↔
      caller = caller' ∧ nonce = nonce' := by
  refine ⟨fun h => ?_, fun ⟨hcaller, hnonce⟩ => by rw [hcaller, hnonce]⟩
  have hshort := size_createFields caller nonce
  have hshort' := size_createFields caller' nonce'
  have hfields : createFields caller nonce = createFields caller' nonce' :=
    Rlp.list_injective (by omega) (by omega) h
  obtain ⟨hcaller, hrest⟩ := List.cons.inj hfields
  obtain ⟨hnonce, -⟩ := List.cons.inj hrest
  exact ⟨Address.toBytes_inj.mp hcaller, BitVec.eq_of_toNat_eq (Bytes.minimal_injective hnonce)⟩

/-- **A creator, its salt and a code hash** are determined by what is digested of them. -/
lemma saltedPreimage_iff :
    saltedPreimage caller salt codeHash = saltedPreimage caller' salt' codeHash' ↔
      caller = caller' ∧ salt = salt' ∧ codeHash = codeHash' := by
  -- all parts but the last have fixed sizes
  rw [saltedPreimage, saltedPreimage, Bytes.append_inj_iff, Bytes.append_inj_iff,
    Bytes.append_inj_iff]
  · simp [and_assoc]
  all_goals simp

/-- **The two ways to an address digest different strings:** a list this short does not begin with
    the largest byte. -/
lemma createPreimage_ne_saltedPreimage :
    createPreimage caller nonce ≠ saltedPreimage caller' salt codeHash := by
  intro h
  have hshort := size_createFields caller nonce
  have hfirst : ((createPreimage caller nonce).byteAt 0).toNat < 0xff :=
    Rlp.byteAt_list_lt (hshort.trans_lt (by decide))
  rw [h] at hfirst
  have hmarker : (saltedPreimage caller' salt codeHash).byteAt 0 = 0xff := by
    simp only [saltedPreimage, ByteArray.append_assoc]
    rw [Bytes.byteAt_append, if_pos (by rw [Bytes.size_ofNat]; exact one_pos)]
    rfl
  rw [hmarker] at hfirst
  exact absurd hfirst (by decide)

end Preimages

/-! ## What is kept of a digest -/

namespace Keccak

/-- A digest has 32 bytes, whatever is digested. -/
@[simp] lemma size_digest (b : Bytes) : (digest b).size = 32 := by
  have hlane (w : UInt64) : (laneBytes w).length = 8 := by simp [laneBytes]
  simp only [digest, List.size_toByteArray, List.length_flatten, List.map_map, Function.comp_def,
    hlane, List.map_const', List.sum_replicate, List.length_take, Vector.length_toList]
  rfl

/-- **The bytes of a digest that an address keeps,** the last twenty. -/
def kept (b : Bytes) : Bytes := (digest b).slice 12 20

/-- **Different strings collide** where their digests agree in the bytes that an address keeps. -/
structure Collide (a b : Bytes) : Prop where
  differ : a ≠ b
  agree : kept a = kept b

end Keccak

/-- An address that is taken from a digest is its last twenty bytes. -/
lemma Address.toBytes_ofHash {d : Bytes} (hd : d.size = 32) :
    (ofHash (Word.ofBytes d)).toBytes = d.slice 12 20 := by
  have hnumber : (ofHash (Word.ofBytes d)).toNat = (d.slice 12 20).toNat := by
    rw [ofHash, ofWord, BitVec.toNat_ofNat, Word.toNat_ofBytes hd.le, ← Bytes.toNat_mod hd]
    rfl
  have hbytes := Bytes.ofNat_toNat (d.slice 12 20)
  rw [Bytes.size_slice] at hbytes
  rw [toBytes, hnumber, hbytes]

/-! ## Deployments -/

/-- **What a contract is created from.** -/
inductive Deployment where
  | byNonce (caller : Address) (nonce : Word)
  | bySalt (caller : Address) (salt : Word) (code : Bytes)
  deriving DecidableEq

namespace Deployment

/-- What the address of a contract is a digest of. -/
def preimage : Deployment → Bytes
  | byNonce caller nonce => createPreimage caller nonce
  | bySalt caller salt code => saltedPreimage caller salt (Keccak.digest code)

def address : Deployment → Address
  | byNonce caller nonce => createAddress caller nonce
  | bySalt caller salt code => saltedAddress caller salt code

/-- **Where deployments collide:** their preimages do, or they deploy different codes that have one
    digest, with one salt and for one creator. -/
inductive Collide : Deployment → Deployment → Prop where
  | preimages {d d' : Deployment} (collide : Keccak.Collide d.preimage d'.preimage) : Collide d d'
  | codes {caller : Address} {salt : Word} {code code' : Bytes} (differ : code ≠ code')
      (agree : Keccak.digest code = Keccak.digest code') :
      Collide (bySalt caller salt code) (bySalt caller salt code')

variable {d d' : Deployment} {a a' : Address}

lemma toBytes_address (d : Deployment) : d.address.toBytes = Keccak.kept d.preimage := by
  cases d <;> exact Address.toBytes_ofHash (Keccak.size_digest _)

lemma address_eq_iff :
    d.address = d'.address ↔ Keccak.kept d.preimage = Keccak.kept d'.preimage := by
  rw [← toBytes_address, ← toBytes_address, Address.toBytes_inj]

/-- Deployments that differ have different preimages, unless their codes have one digest. -/
lemma eq_or_collide (h : d.preimage = d'.preimage) : d = d' ∨ d.Collide d' := by
  cases d with
  | byNonce caller nonce =>
      cases d' with
      | byNonce caller' nonce' =>
          obtain ⟨rfl, rfl⟩ := createPreimage_iff.mp h
          exact .inl rfl
      | bySalt => exact absurd h createPreimage_ne_saltedPreimage
  | bySalt caller salt code =>
      cases d' with
      | byNonce => exact absurd h.symm createPreimage_ne_saltedPreimage
      | bySalt caller' salt' code' =>
          obtain ⟨rfl, rfl, hdigest⟩ := saltedPreimage_iff.mp h
          by_cases hcode : code = code'
          · exact .inl (by rw [hcode])
          · exact .inr (.codes hcode hdigest)

/-- Two deployments have one address where they are the same or collide. -/
lemma address_eq_iff_collide : d.address = d'.address ↔ d = d' ∨ d.Collide d' := by
  rw [address_eq_iff]
  constructor
  · intro hkept
    by_cases hsame : d.preimage = d'.preimage
    · exact eq_or_collide hsame
    · exact .inr (.preimages ⟨hsame, hkept⟩)
  · rintro (rfl | hcollide)
    · rfl
    · cases hcollide with
      | preimages collide => exact collide.agree
      | codes differ agree => rw [preimage, preimage, agree]

end Deployment

/-! ## Where addresses are taken -/

namespace Frame

/-- What a frame that carries out a creation deploys from. -/
def deployment (f : Frame) (nonce : Word) : CreateKind → Deployment
  | .byNonce => .byNonce f.context.address nonce
  | .bySalt =>
    let code := f.machine.memory.read (f.operand 1) (f.operand 2)
    .bySalt f.context.address (f.operand 3) code

lemma derivedAddress_eq (f : Frame) (nonce : Word) (kind : CreateKind) :
    f.derivedAddress nonce kind = (f.deployment nonce kind).address := by
  cases kind <;> rfl

end Frame

/-- **Where an address of a contract is taken:** by a transaction that creates one, or by a frame
    whose step asks for a frame to create one. -/
inductive Deployment.Yields : Deployment → Address → Prop where
  | transaction (t : Transaction) (creates : t.action = .create) :
      Yields (.byNonce t.caller t.nonce) t.address
  | frame {f g : Frame} {chain : ChainView} {op : Opcode} {kind : CreateKind}
      {event : Option Event} {nonce : Word} {context : Context}
      (running : f.status = .running) (next : f.machine.nextOpcode? = some op)
      (creates : op.instruction = .create kind) (stepped : f.step chain = (g, .ok event))
      (asks : g.status = .invokeCreate context)
      (counted : f.overlay.nonce f.context.address chain.log = .ok nonce) :
      Yields (f.deployment nonce kind) context.address

namespace Deployment.Yields

variable {d : Deployment} {a : Address}

lemma address_eq (h : d.Yields a) : a = d.address := by
  cases h with
  | transaction t creates => rw [Transaction.address, creates, address]
  | frame running next creates stepped asks counted =>
      obtain ⟨op', kind', nonce', next', creates', counted', haddress⟩ :=
        Frame.step_asks running stepped asks
      cases next.symm.trans next'
      cases creates.symm.trans creates'
      cases counted.symm.trans counted'
      rw [haddress, Frame.derivedAddress_eq]

/-- Every frame that asks for a creation takes an address so. -/
lemma exists_of_asks {f g : Frame} {chain : ChainView} {event : Option Event} {context : Context}
    (running : f.status = .running) (stepped : f.step chain = (g, .ok event))
    (asks : g.status = .invokeCreate context) : ∃ d : Deployment, d.Yields context.address := by
  obtain ⟨op, kind, nonce, next, creates, counted, -⟩ := Frame.step_asks running stepped asks
  exact ⟨f.deployment nonce kind, .frame running next creates stepped asks counted⟩

end Deployment.Yields

/-- **Contracts meet only in collisions.**  What is digested for the address of a contract
    determines its creator and nonce, or its creator, salt and code hash, and no string is digested
    for both.  Whatever a transaction or a frame creates is deployed so, and its address is the last
    twenty bytes of that digest.  So two contracts that are created differently have one address
    only if Keccak-256 gives two different strings digests that agree there. -/
theorem contract_addresses_meet_only_in_collisions :
    (∀ (caller caller' : Address) (nonce nonce' : Word),
      createPreimage caller nonce = createPreimage caller' nonce' ↔
        caller = caller' ∧ nonce = nonce') ∧
    (∀ (caller caller' : Address) (salt salt' : Word) (codeHash codeHash' : Bytes),
      saltedPreimage caller salt codeHash = saltedPreimage caller' salt' codeHash' ↔
        caller = caller' ∧ salt = salt' ∧ codeHash = codeHash') ∧
    (∀ (caller caller' : Address) (nonce salt : Word) (codeHash : Bytes),
      createPreimage caller nonce ≠ saltedPreimage caller' salt codeHash) ∧
    (∀ (f g : Frame) (chain : ChainView) (event : Option Event) (context : Context),
      f.status = .running → f.step chain = (g, .ok event) → g.status = .invokeCreate context →
        ∃ d : Deployment, d.Yields context.address) ∧
    (∀ (d : Deployment) (a : Address), d.Yields a → a = d.address) ∧
    (∀ d : Deployment, d.address.toBytes = Keccak.kept d.preimage) ∧
    ∀ d d' : Deployment, d.address = d'.address ↔ d = d' ∨ d.Collide d' := by
  refine ⟨?preimages, ?saltedPreimages, ?apart, ?frames, ?yields, ?kept, ?addresses⟩
  case preimages => exact fun _ _ _ _ => createPreimage_iff
  case saltedPreimages => exact fun _ _ _ _ _ _ => saltedPreimage_iff
  case apart => exact fun _ _ _ _ _ => createPreimage_ne_saltedPreimage
  case frames =>
    intro f g chain event context running stepped asks
    exact Deployment.Yields.exists_of_asks running stepped asks
  case yields => exact fun d a h => h.address_eq
  case kept => exact Deployment.toBytes_address
  case addresses => exact fun d d' => Deployment.address_eq_iff_collide

/-- A chain on which account 100 has the nonce seven, and nothing is where it would create an
    account without code, with the salt seven. -/
def saltedChain : ChainView where
  ruleset := .constantinople
  block := {}
  log :=
    { accounts := ((∅ : Std.TreeMap Address CommittedAccount).insert 100
        (.full 7 0 ByteArray.empty)).insert
          0x9c983e712ea3a6f96c53574b2d810e4b69393bb6 .nonexistent }

/-- A frame of that account that is about to create one so. -/
def saltedCreator : Frame :=
  (Frame.create ⟨100, 100, 200, ⟨#[0xf5]⟩, ByteArray.empty, 100000, 1, 200, 0, 0, false⟩ 0
    (Overlay.empty .mainnet) .constantinople).withItems [0, 0, 0, 7]

/-- A transaction by which the account creates another from that nonce. -/
def deployingTransaction : Transaction := ⟨100, 1, 100000, .create, 0, ByteArray.empty, 7⟩

/-- The frame asks for its creation, and the two contracts have one address only if what is digested
    for them collides. -/
theorem salted_and_deployed_meet_only_in_collision : ∃ g event context,
    saltedCreator.step saltedChain = (g, .ok event) ∧ g.status = .invokeCreate context ∧
      (deployingTransaction.address = context.address ↔
        Deployment.Collide (.byNonce 100 7) (.bySalt 100 7 ByteArray.empty)) := by
  have hasks : (saltedCreator.step saltedChain).2.toOption.isSome = true ∧
      (saltedCreator.step saltedChain).1.status.asksCreation = true := by decide +kernel
  rcases hstep : saltedCreator.step saltedChain with ⟨g, i | event⟩
  · rw [hstep] at hasks
    cases hasks.1
  · rw [hstep] at hasks
    have hcreates : g.status.asksCreation = true := hasks.2
    cases hstatus : g.status with
    | invokeCreate context =>
        have hnext : saltedCreator.machine.nextOpcode? = some ⟨0xf5⟩ := by rfl
        have hcounted : saltedCreator.overlay.nonce 100 saltedChain.log = .ok 7 := by rfl
        have hdeployed : Deployment.Yields (.byNonce 100 7) deployingTransaction.address :=
          .transaction deployingTransaction rfl
        have hsalted : Deployment.Yields (.bySalt 100 7 ByteArray.empty) context.address :=
          .frame rfl hnext rfl hstep hstatus hcounted
        obtain ⟨-, -, -, -, hyields, -, hmeet⟩ := contract_addresses_meet_only_in_collisions
        refine ⟨g, event, context, rfl, hstatus, ?_⟩
        rw [hyields _ _ hdeployed, hyields _ _ hsalted, hmeet]
        exact or_iff_right nofun
    | running | exitedOk | exitedErr | exitedNotSupported | invokeCall =>
        rw [hstatus] at hcreates
        cases hcreates

end ResumableEvm
