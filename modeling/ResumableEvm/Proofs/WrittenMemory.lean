import ResumableEvm.Proofs.MemoryRegion

/-!
# Memory as an array of bytes

Memory is asked for four things, in any order and with numbers that nobody has looked at: to take
a value, to take a region of some longer source, and twice to pay for more of itself.  Whatever it
is asked for, it reads as an array of bytes that starts out all zero and in which each accepted
write changes the places of its own region.

* `Memory.Operation` — what memory is asked for, with the byte it writes to each place.
* `Memory.Sound.perform` — what is done, and what is refused.
* `Memory.Holds.after` — one operation, from one array to the next.
* `Memory.lastWritten` — the byte that a place was last given.
* `Memory.reads_what_was_last_written` — after any operations, memory is that array.
-/

namespace ResumableEvm

namespace Memory

/-! ## What memory is asked for -/

/-- One thing that memory is asked for. -/
inductive Operation
  /-- To take the first `len` bytes of a value, continued with zeros. -/
  | set (offset : ℕ) (value : Bytes) (len : ℕ)
  /-- To take the `len` bytes of a source from some place on, continued with zeros. -/
  | copyLarge (offset sourceOffset len : Word) (source : Bytes)
  /-- To have everything before an end paid for. -/
  | resizeEnd (stop : Word)
  /-- To have a region paid for. -/
  | resizeOffset (offset len : Word)

/-- Where a region ends.  An empty one ends nowhere, wherever it lies. -/
def regionEnd (offset len : ℕ) : ℕ := if len = 0 then 0 else offset + len

namespace Operation

/-- Where the region ends that is written to. -/
def writtenTo : Operation → ℕ
  | .set offset _ len => regionEnd offset len
  | .copyLarge offset _ len _ => regionEnd offset.toNat len.toNat
  | .resizeEnd _ | .resizeOffset _ _ => 0

/-- Where the region ends that has to be paid for. -/
def paidTo : Operation → ℕ
  | .set _ _ _ | .copyLarge _ _ _ _ => 0
  | .resizeEnd stop => stop.toNat
  | .resizeOffset offset len => regionEnd offset.toNat len.toNat

/-- **What is accepted:** a write that ends within the limit, and a region whose end, rounded up
    to words, is a number of 256 bits. -/
def Fits (limit : ℕ) (op : Operation) : Prop :=
  op.writtenTo ≤ limit ∧ roundUp op.paidTo ≤ maxWord

instance (limit : ℕ) (op : Operation) : Decidable (op.Fits limit) :=
  inferInstanceAs (Decidable (_ ∧ _))

/-- **The byte that a place is given,** if the place is one of those written to.  Past the end of
    the value or of the source, that byte is zero, and an offset that is no index is past the end
    of every source. -/
def byte? (op : Operation) (i : ℕ) : Option UInt8 :=
  match op with
  | .set offset value len =>
    if offset ≤ i ∧ i < offset + len then some (value.byteAt (i - offset)) else none
  | .copyLarge offset sourceOffset len source =>
    if offset.toNat ≤ i ∧ i < offset.toNat + len.toNat then
      some (if sourceOffset.isIndex then source.byteAt (sourceOffset.toNat + (i - offset.toNat))
        else 0)
    else none
  | .resizeEnd _ | .resizeOffset _ _ => none

/-- A copy gives the places of its region the bytes of its source, one for one.  No byte string is
    longer than an index can say. -/
lemma byte?_copyLarge {offset sourceOffset len : Word} {source : Bytes} {i : ℕ}
    (hsource : source.size ≤ maxIndex) (hi : i < len.toNat) :
    (copyLarge offset sourceOffset len source).byte? (offset.toNat + i) =
      some (source.byteAt (sourceOffset.toNat + i)) := by
  rw [byte?, if_pos (by omega), Nat.add_sub_cancel_left]
  split <;> rename_i hindex
  · rfl
  · have hpast : maxIndex < sourceOffset.toNat :=
      Nat.lt_of_not_le fun hle => hindex (decide_eq_true hle)
    rw [Bytes.byteAt_of_size_le (by omega)]

/-- How memory says no. -/
def refusal : Operation → ExitReason
  | .set _ _ _ | .copyLarge _ _ _ _ => .fatal .notSupported
  | .resizeEnd _ | .resizeOffset _ _ => .error .invalidRange

end Operation

/-- Memory does what it is asked for, or says why not. -/
def perform (m : Memory) : Operation → Except ExitReason Memory
  | .set offset value len => (m.set offset value len).mapError .fatal
  | .copyLarge offset sourceOffset len source =>
    (m.copyLarge offset sourceOffset len source).mapError .fatal
  | .resizeEnd stop => (m.resizeEnd stop.toNat).mapError .error
  | .resizeOffset offset len => (m.resizeOffset offset len).mapError .error

/-- Memory after it was asked for something. -/
def after (m : Memory) (op : Operation) : Memory :=
  match m.perform op with
  | .ok m' => m'
  | .error _ => m

/-- Memory after it was asked for one thing after another. -/
def afterAll (m : Memory) (ops : List Operation) : Memory := ops.foldl after m

/-! ## One operation -/

/-- Memory between operations: the paid length is a number of words and has at most 256 bits. -/
structure Sound (m : Memory) : Prop where
  words : 32 ∣ m.effective
  le_maxWord : m.effective ≤ maxWord
  limit_le : m.limit ≤ maxIndex

/-- **What an accepted operation makes of memory.**  The places it writes to hold what it wrote
    there, all others what they held, and the paid length reaches as far as it did, or to the end
    of the word with what had to be paid for. -/
structure Operation.Makes (op : Operation) (m m' : Memory) : Prop where
  byte : ∀ i, m'.data.byteAt i = (op.byte? i).getD (m.data.byteAt i)
  effective : m'.effective = max m.effective (roundUp op.paidTo)
  limit : m'.limit = m.limit

/-- **How an operation is answered:** it is done if it fits, and refused otherwise. -/
structure Operation.Answered {ε : Type} (op : Operation) (m : Memory) (answer : Except ε Memory)
    (refusal : ε) : Prop where
  done : op.Fits m.limit → ∃ m', answer = .ok m' ∧ op.Makes m m'
  refused : ¬ op.Fits m.limit → answer = .error refusal

variable {m m' : Memory} {op : Operation} {ops : List Operation} {limit : ℕ}

lemma roundUp_dvd (n : ℕ) : 32 ∣ roundUp n := Dvd.intro_left _ rfl

/-- Every number up to some words is, rounded up, within those words. -/
lemma roundUp_le_of_dvd {n k : ℕ} (h : n ≤ k) (hk : 32 ∣ k) : roundUp n ≤ k := by
  obtain ⟨words, rfl⟩ := hk
  simp only [roundUp]
  omega

lemma le_roundUp (n : ℕ) : n ≤ roundUp n := by
  simp only [roundUp]
  omega

/-- An operation that writes nothing, where all it wants to be paid for is paid for already. -/
lemma Operation.makes_self (hbyte : ∀ i, op.byte? i = none)
    (hpaid : roundUp op.paidTo ≤ m.effective) : op.Makes m m where
  byte i := by rw [hbyte, Option.getD_none]
  effective := (max_eq_left hpaid).symm
  limit := rfl

/-- An operation that writes nothing and has more paid for. -/
lemma Operation.makes_resized (hbyte : ∀ i, op.byte? i = none)
    (hmore : m.effective < op.paidTo) :
    op.Makes m { m with effective := roundUp op.paidTo } where
  byte i := by rw [hbyte, Option.getD_none]
  effective := (max_eq_right (hmore.le.trans (le_roundUp _))).symm
  limit := rfl

/-- Taking a value. -/
lemma set_answered (hm : m.Sound) (offset : ℕ) (value : Bytes) (len : ℕ) :
    (Operation.set offset value len).Answered m (m.set offset value len) .notSupported := by
  have hpaid : roundUp 0 ≤ m.effective := Nat.zero_le _
  by_cases hlen : len = 0
  · subst hlen
    refine ⟨fun _ => ⟨m, rfl, ?_⟩, fun hrefused => absurd ?_ hrefused⟩
    · exact Operation.makes_self (fun i => if_neg (by omega)) hpaid
    · exact ⟨Nat.zero_le _, hpaid.trans hm.le_maxWord⟩
  · have hend : (Operation.set offset value len).writtenTo = offset + len := if_neg hlen
    rw [set, if_neg hlen]
    constructor
    · rintro ⟨hfits, -⟩
      rw [hend] at hfits
      have hadmits : m.admits offset len = true := decide_eq_true ⟨hfits, hfits.trans hm.limit_le⟩
      rw [if_pos hadmits]
      refine ⟨_, rfl, fun i => ?_, (max_eq_left hpaid).symm, rfl⟩
      rw [byteAt_write, Bytes.size_slice, Operation.byte?]
      split
      · rw [Bytes.byteAt_slice (by omega), Nat.zero_add, Option.getD_some]
      · rfl
    · intro hrefused
      rw [if_neg fun hadmits => hrefused ⟨?_, hpaid.trans hm.le_maxWord⟩]
      rw [hend]
      exact (of_decide_eq_true hadmits).1

/-- A copy takes the region of its source as a value. -/
lemma copyLarge_eq_set (m : Memory) (offset sourceOffset len : Word) (source : Bytes) :
    m.copyLarge offset sourceOffset len source =
      m.set offset.toNat (sourceRegion source sourceOffset len.toNat) len.toNat := by
  by_cases hlen : len = 0
  · subst hlen
    rfl
  · have hlen' : len.toNat ≠ 0 := fun hzero => hlen (BitVec.eq_of_toNat_eq hzero)
    rw [copyLarge, set, if_neg hlen, if_neg hlen', slice_sourceRegion]
    by_cases hadmits : m.admits offset.toNat len.toNat
    · have hends := of_decide_eq_true hadmits
      have hindex : (offset.isIndex && len.isIndex) = true := by
        simp only [Word.isIndex, Bool.and_eq_true, decide_eq_true_eq]
        omega
      rw [hindex, Bool.true_and]
    · rw [if_neg hadmits, if_neg fun hall => hadmits (Bool.and_eq_true_iff.mp hall).2]

/-- Taking a region of a source, however far it lies behind the source's end. -/
lemma copyLarge_answered (hm : m.Sound) (offset sourceOffset len : Word) (source : Bytes) :
    (Operation.copyLarge offset sourceOffset len source).Answered m
      (m.copyLarge offset sourceOffset len source) .notSupported := by
  have hset := set_answered hm offset.toNat (sourceRegion source sourceOffset len.toNat) len.toNat
  rw [← copyLarge_eq_set] at hset
  refine ⟨fun hfits => ?_, hset.refused⟩
  obtain ⟨m', hm', hmakes⟩ := hset.done hfits
  refine ⟨m', hm', fun i => ?_, hmakes.effective, hmakes.limit⟩
  rw [hmakes.byte, Operation.byte?, Operation.byte?]
  split
  · rw [byteAt_sourceRegion (by omega)]
  · rfl

/-- Having everything before an end paid for. -/
lemma resizeEnd_answered (hm : m.Sound) (op : Operation) (hbyte : ∀ i, op.byte? i = none)
    (hwritten : op.writtenTo = 0) : op.Answered m (m.resizeEnd op.paidTo) .invalidRange := by
  have hwrites : op.writtenTo ≤ m.limit := hwritten ▸ Nat.zero_le _
  rw [resizeEnd]
  by_cases hmore : m.effective < op.paidTo
  · rw [if_pos hmore]
    constructor
    · rintro ⟨-, hfits⟩
      rw [if_neg (Nat.not_lt_of_le hfits)]
      exact ⟨_, rfl, Operation.makes_resized hbyte hmore⟩
    · intro hrefused
      rw [if_pos (Nat.lt_of_not_le fun hle => hrefused ⟨hwrites, hle⟩)]
  · have hround : roundUp op.paidTo ≤ m.effective :=
      roundUp_le_of_dvd (Nat.le_of_not_lt hmore) hm.words
    rw [if_neg hmore]
    refine ⟨fun _ => ⟨m, rfl, Operation.makes_self hbyte hround⟩, fun hrefused => ?_⟩
    exact absurd ⟨hwrites, hround.trans hm.le_maxWord⟩ hrefused

/-- Having a region paid for: as for its end, if it has one. -/
lemma resizeOffset_answered (hm : m.Sound) (offset len : Word) :
    (Operation.resizeOffset offset len).Answered m (m.resizeOffset offset len) .invalidRange := by
  have hend := resizeEnd_answered hm (.resizeOffset offset len) (fun _ => rfl) rfl
  by_cases hlen : len = 0
  · subst hlen
    exact hend
  · have hlen' : len.toNat ≠ 0 := fun hzero => hlen (BitVec.eq_of_toNat_eq hzero)
    have hpaid : (Operation.resizeOffset offset len).paidTo = offset.toNat + len.toNat :=
      if_neg hlen'
    rw [resizeOffset, if_neg hlen]
    split <;> rename_i hfar
    · refine ⟨fun hfits => absurd hfits.2 (Nat.not_le_of_lt ?_), fun _ => rfl⟩
      rw [hpaid]
      exact hfar.trans_le (le_roundUp _)
    · rw [hpaid] at hend
      exact hend

lemma Operation.Answered.mapError {ε : Type} {answer : Except ε Memory} {refusal : ε}
    (h : op.Answered m answer refusal) (wrap : ε → ExitReason) :
    op.Answered m (answer.mapError wrap) (wrap refusal) := by
  refine ⟨fun hfits => ?_, fun hrefused => ?_⟩
  · obtain ⟨m', rfl, hmakes⟩ := h.done hfits
    exact ⟨m', rfl, hmakes⟩
  · rw [h.refused hrefused]
    rfl

/-- **Whatever fits is done, and nothing else is.** -/
lemma Sound.perform (hm : m.Sound) (op : Operation) :
    op.Answered m (m.perform op) op.refusal := by
  cases op with
  | set offset value len => exact (set_answered hm offset value len).mapError .fatal
  | copyLarge offset sourceOffset len source =>
      exact (copyLarge_answered hm offset sourceOffset len source).mapError .fatal
  | resizeEnd stop =>
      exact (resizeEnd_answered hm (.resizeEnd stop) (fun _ => rfl) rfl).mapError .error
  | resizeOffset offset len => exact (resizeOffset_answered hm offset len).mapError .error

lemma after_of_refused (hm : m.Sound) (h : ¬ op.Fits m.limit) : m.after op = m := by
  simp only [after, (hm.perform op).refused h]

/-! ## One after another -/

/-- **Memory that holds an array of bytes,** between operations. -/
structure Holds (m : Memory) (limit : ℕ) (array : ℕ → UInt8) : Prop extends m.Sound where
  limit_eq : m.limit = limit
  byte : ∀ i, m.data.byteAt i = array i

/-- The byte that an operation gives to a place, if it is accepted. -/
def Operation.accepted? (limit : ℕ) (op : Operation) (i : ℕ) : Option UInt8 :=
  if op.Fits limit then op.byte? i else none

lemma holds_empty (h : limit ≤ maxIndex) : (empty limit).Holds limit fun _ => 0 where
  words := Nat.dvd_zero 32
  le_maxWord := Nat.zero_le _
  limit_le := h
  limit_eq := rfl
  byte _ := Bytes.byteAt_of_size_le (Nat.zero_le _)

lemma Holds.after {array : ℕ → UInt8} (h : m.Holds limit array) (op : Operation) :
    (m.after op).Holds limit fun i => (op.accepted? limit i).getD (array i) := by
  obtain ⟨hm, rfl, hbyte⟩ := h
  by_cases hfits : op.Fits m.limit
  · obtain ⟨m', hm', hmakes⟩ := (hm.perform op).done hfits
    have hafter : m.after op = m' := by simp only [Memory.after, hm']
    rw [hafter]
    exact {
      words := by
        rw [hmakes.effective]
        exact max_rec' (32 ∣ ·) hm.words (roundUp_dvd _)
      le_maxWord := by
        rw [hmakes.effective]
        exact max_le hm.le_maxWord hfits.2
      limit_le := hmakes.limit ▸ hm.limit_le
      limit_eq := hmakes.limit
      byte := fun i => by rw [hmakes.byte, hbyte, Operation.accepted?, if_pos hfits] }
  · rw [after_of_refused hm hfits]
    exact ⟨hm, rfl, fun i => by rw [hbyte, Operation.accepted?, if_neg hfits, Option.getD_none]⟩

/-- **The byte last written to a place** by the operations that were accepted; zero where none of
    them wrote. -/
def lastWritten (limit : ℕ) (ops : List Operation) (i : ℕ) : UInt8 :=
  (ops.reverse.findSome? (·.accepted? limit i)).getD 0

lemma lastWritten_concat (ops : List Operation) (op : Operation) (i : ℕ) :
    lastWritten limit (ops ++ [op]) i =
      (op.accepted? limit i).getD (lastWritten limit ops i) := by
  rw [lastWritten, List.reverse_concat, List.findSome?_cons]
  cases op.accepted? limit i <;> rfl

lemma holds_afterAll (h : limit ≤ maxIndex) (ops : List Operation) :
    ((empty limit).afterAll ops).Holds limit (lastWritten limit ops) := by
  induction ops using List.reverseRecOn with
  | nil => exact holds_empty h
  | append_singleton ops op ih =>
      have hlast : lastWritten limit (ops ++ [op]) =
          fun i => (op.accepted? limit i).getD (lastWritten limit ops i) :=
        funext (lastWritten_concat ops op)
      rw [hlast, afterAll, List.foldl_concat]
      exact ih.after op

/-- **Memory that reads as an array of bytes,** wherever and however far it is read. -/
structure ReadsAs (m : Memory) (array : ℕ → UInt8) : Prop where
  size : ∀ offset len, (m.get offset len).size = len
  byte : ∀ offset len, ∀ i < len, (m.get offset len).byteAt i = array (offset + i)
  /-- A region that has been paid for is read from its place, if it can be addressed. -/
  read : ∀ offset len : Word, offset.isIndex → len.isIndex →
    m.read offset len = m.get offset.toNat len.toNat

lemma Holds.readsAs {array : ℕ → UInt8} (h : m.Holds limit array) : m.ReadsAs array where
  size _ _ := Bytes.size_slice _ _ _
  byte offset len i hi := (Bytes.byteAt_slice hi).trans (h.byte _)
  read offset len hoffset hlen := by
    by_cases hzero : len = 0
    · subst hzero
      exact (ByteArray.size_eq_zero_iff.mp (Bytes.size_slice m.data offset.toNat 0)).symm
    · exact if_pos ⟨hzero, hoffset, hlen⟩

/-- **Memory is an array of bytes that starts out all zero.**  Whatever it is asked for, one thing
    after another:
    * a read has as many bytes as were asked for, and each is the one last written to its place by
      an operation that was accepted, or zero if there was none;
    * the paid length is a number of words, and at most a number of 256 bits;
    * the next operation, if it fits, gives the places of its region their bytes, leaves all other
      places alone and never makes the paid length less; a resize has no such places;
    * the places of a copy get the bytes of its source, one for one, or zero past its end;
    * if it does not fit, it is refused, and memory stays as it is;
    * an empty write always succeeds, wherever it goes, and changes nothing. -/
theorem reads_what_was_last_written (limit : UInt64) (ops : List Operation) :
    let m := (Memory.empty limit.toNat).afterAll ops
    m.ReadsAs (lastWritten limit.toNat ops) ∧
    (32 ∣ m.effective ∧ m.effective ≤ maxWord) ∧
    (∀ op : Operation, op.Fits limit.toNat → ∃ m', m.perform op = .ok m' ∧ op.Makes m m') ∧
    (∀ (offset sourceOffset len : Word) (source : Bytes), source.size ≤ maxIndex →
      ∀ i < len.toNat, (Operation.copyLarge offset sourceOffset len source).byte?
        (offset.toNat + i) = some (source.byteAt (sourceOffset.toNat + i))) ∧
    (∀ op : Operation, ¬ op.Fits limit.toNat →
      m.perform op = .error op.refusal ∧ m.after op = m) ∧
    (∀ offset value, m.set offset value 0 = .ok m) ∧
    ∀ offset sourceOffset source, m.copyLarge offset sourceOffset 0 source = .ok m := by
  intro m
  have hlimit : limit.toNat ≤ maxIndex := Nat.le_of_lt_succ limit.toNat_lt
  have hm : m.Holds limit.toNat (lastWritten limit.toNat ops) := holds_afterAll hlimit ops
  refine ⟨hm.readsAs, ⟨hm.words, hm.le_maxWord⟩, fun op hfits => ?_,
    fun _ _ _ _ hsource _ hi => Operation.byte?_copyLarge hsource hi, fun op hrefused => ?_,
    fun _ _ => rfl, fun _ _ _ => rfl⟩
  · rw [← hm.limit_eq] at hfits
    exact (hm.perform op).done hfits
  · rw [← hm.limit_eq] at hrefused
    exact ⟨(hm.perform op).refused hrefused, after_of_refused hm.toSound hrefused⟩

/-- A copy that runs past the end of its source, read from before it to behind it. -/
example : ((Memory.empty maxIndex).afterAll [.copyLarge 2 1 4 ⟨#[1, 2, 3]⟩]).get 0 8 =
    ⟨#[0, 0, 2, 3, 0, 0, 0, 0]⟩ := by decide +kernel

end Memory

end ResumableEvm
