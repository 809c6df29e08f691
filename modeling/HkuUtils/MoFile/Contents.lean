import HkuUtils.MoFile.Model

set_option relaxedAutoImplicit false
set_option autoImplicit false

/-!
# What is read of any data

The functions that read move a stream with flags; here the same is said by the places in the data
alone. The strings are read one after the other until one does not end within the data; from there
on all of them are empty, and nothing of this is an error.

## Main definitions

* `HkuUtils.MoFile.intAt`, `pairsAt` — the numbers and the descriptions of pairs by their places.
* `HkuUtils.MoFile.Readable`, `stored` — what can be read, and the pairs that are read.

## Main results

* `HkuUtils.MoFile.parseData_outcome` — **how `ParseData` ends, for any data.**
-/

namespace HkuUtils.MoFile

open Blocks InputStream

variable {data : List UInt8} {s : InputStream} {p : ℕ}

/-! ## Numbers -/

/-- The `int` at a place; bytes that are missing are zero. -/
def intAt (data : List UInt8) (p : ℕ) : BitVec 32 := BitVec.ofNat 32 (littleEndian (slice data p 4))

/-- A number is read where the reader stands. -/
lemma readInt_at (h : At data p s) :
    (readInt s).1 = intAt data p ∧ At data (p + 4) (readInt s).2 := by
  obtain ⟨hbytes, hat⟩ := read_at h 4
  rw [readInt, intAt, ← hbytes]
  exact ⟨rfl, hat⟩

/-- The lengths and offsets in a table. -/
def descriptorsAt (data : List UInt8) (p n : ℕ) : List (BitVec 32 × BitVec 32) :=
  (List.range n).map fun i => (intAt data (p + 8 * i), intAt data (p + 8 * i + 4))

/-- A table is read where the reader stands.

**Proof sketch.** By induction on the number of entries, each with two numbers of four bytes. -/
lemma readDescriptors_at (n : ℕ) (h : At data p s) :
    (readDescriptors n s).1 = descriptorsAt data p n ∧
      At data (p + 8 * n) (readDescriptors n s).2 := by
  induction n generalizing p s with
  | zero => exact ⟨rfl, h⟩
  | succ n ih =>
    obtain ⟨hlength, h4⟩ := readInt_at h
    obtain ⟨hoffset, h8⟩ := readInt_at h4
    obtain ⟨hrest, hat⟩ := ih h8
    have hplace : p + 4 + 4 + 8 * n = p + 8 * (n + 1) := by omega
    rw [hplace] at hat
    refine ⟨?_, hat⟩
    change ((readInt s).1, (readInt (readInt s).2).1) ::
      (readDescriptors n (readInt (readInt s).2).2).1 = _
    rw [hlength, hoffset, hrest, descriptorsAt, descriptorsAt, List.range_succ_eq_map,
      List.map_cons, List.map_map]
    congr 1
    apply List.map_congr_left
    intro i _
    have hi : p + 4 + 4 + 8 * i = p + 8 * (i + 1) := by omega
    simp only [hi, Function.comp_apply, Nat.succ_eq_add_one]

/-- The number of the strings. -/
def countAt (data : List UInt8) : ℕ := (intAt data 8).toInt.toNat

/-- The descriptions of the pairs. -/
def pairsAt (data : List UInt8) : List TranslationPairInformation :=
  List.zipWith (fun o t => ⟨o.1, o.2, t.1, t.2⟩) (descriptorsAt data 28 (countAt data))
    (descriptorsAt data (28 + 8 * countAt data) (countAt data))

/-- Both tables are there. -/
def tablesThere (data : List UInt8) : Bool := decide (28 + 16 * countAt data ≤ data.length)

/-! ## Strings -/

/-- A string ends within the data. -/
def complete (data : List UInt8) (length offset : BitVec 32) : Bool :=
  decide (0 ≤ offset.toInt ∧ offset.toInt + length.toInt + 1 ≤ data.length)

/-- The bytes that a buffer gets, if the stream has not failed. -/
def bytesOf (data : List UInt8) (alive : Bool) (length offset : BitVec 32) : List UInt8 :=
  if alive = true ∧ 0 ≤ offset.toInt then slice data offset.toInt.toNat (length.toInt.toNat + 1)
  else []

/-- The text of a string. -/
def textOf (data : List UInt8) (alive : Bool) (length offset : BitVec 32) : List UInt8 :=
  CString.upToZero (bytesOf data alive length offset)

/-- A string can be read: its length is one, and there is a zero byte in a buffer that gets all its
bytes. -/
structure Ends (data : List UInt8) (alive : Bool) (length offset : BitVec 32) : Prop where
  nonneg : 0 ≤ length.toInt
  lt : length.toInt < 2 ^ 31 - 1
  zero_mem : (alive && complete data length offset) = true → 0 ∈ bytesOf data alive length offset

/-- The stream stands somewhere in the data and has failed or not. -/
structure Stands (data : List UInt8) (alive : Bool) (s : InputStream) : Prop where
  data_eq : s.data = data
  fail_eq : s.fail = !alive

/-- A reader at a place stands there if the place is not behind the end. -/
lemma stands_of_at (h : At data p s) : Stands data (decide (p ≤ data.length)) s := by
  obtain ⟨hdata, ⟨-, hfail, -, hle⟩ | ⟨hfail, hlt⟩⟩ := h
  · exact ⟨hdata, by simp [hfail, hle]⟩
  · exact ⟨hdata, by simp [hfail, hlt]⟩

variable {alive : Bool} {length offset : BitVec 32}

/-- What is read of a string.

**Proof sketch.** A reader that has failed before, or is sent to a place before the beginning,
reads nothing and has failed. Otherwise it reads what is there from the place on, and has failed if
that is not all. -/
lemma read_string (h : Stands data alive s) (hlength : 0 ≤ length.toInt) :
    ((s.seek offset.toInt).read (length.toInt.toNat + 1)).1 = bytesOf data alive length offset ∧
      Stands data (alive && complete data length offset)
        ((s.seek offset.toInt).read (length.toInt.toNat + 1)).2 := by
  obtain ⟨hdata, hfail⟩ := h
  have hfailed (hseek : (s.seek offset.toInt).fail = true) :
      Stands data false (s.seek offset.toInt) := ⟨(data_seek s _).trans hdata, hseek⟩
  cases alive with
  | false =>
    have hseek := fail_seek hfail offset.toInt
    rw [read_of_fail hseek, bytesOf, if_neg (by simp), Bool.false_and]
    exact ⟨rfl, hfailed hseek⟩
  | true =>
    by_cases hoffset : 0 ≤ offset.toInt
    · obtain ⟨hbytes, hat⟩ := read_seek hdata hfail hoffset (length.toInt.toNat + 1)
      have hcomplete : (true && complete data length offset) =
          decide (offset.toInt.toNat + (length.toInt.toNat + 1) ≤ data.length) := by
        rw [Bool.true_and, complete, decide_eq_decide]
        omega
      rw [hbytes, bytesOf, if_pos ⟨rfl, hoffset⟩, hcomplete]
      exact ⟨rfl, stands_of_at hat⟩
    · have hseek : (s.seek offset.toInt).fail = true := fail_seek_of_neg (by omega)
      have hcomplete : (true && complete data length offset) = false := by
        rw [Bool.true_and, complete, decide_eq_false_iff_not]
        exact fun h => hoffset h.1
      rw [read_of_fail hseek, bytesOf, if_neg fun h => hoffset h.2, hcomplete]
      exact ⟨rfl, hfailed hseek⟩

/-- A buffer of at least one byte. -/
lemma readBuffer_eq (h : Stands data alive s) (hlength : 0 ≤ length.toInt) :
    ∃ s', readBuffer s length offset =
        .ok (bytesOf data alive length offset ++ List.replicate
          (length.toInt.toNat + 1 - (bytesOf data alive length offset).length) 0, s') ∧
      Stands data (alive && complete data length offset) s' := by
  obtain ⟨hbytes, hstands⟩ := read_string h hlength
  have hn : (length.toInt + 1).toNat = length.toInt.toNat + 1 := by omega
  refine ⟨_, ?_, hstands⟩
  rw [← hbytes, readBuffer, if_neg (by omega), hn]

/-- The bytes are all there exactly if the string ends within the data. -/
lemma length_bytesOf (hlength : 0 ≤ length.toInt) :
    (bytesOf data alive length offset).length = length.toInt.toNat + 1 ↔
      (alive && complete data length offset) = true := by
  rw [bytesOf, complete, Bool.and_eq_true, decide_eq_true_iff]
  split
  next h =>
    rw [length_slice_eq (Nat.succ_pos _), and_iff_right h.1]
    omega
  next h =>
    rw [List.length_nil]
    constructor
    · intro h'
      omega
    · intro h'
      exact absurd ⟨h'.1, h'.2.1⟩ h

/-- No more is read than was asked for. -/
lemma length_bytesOf_le : (bytesOf data alive length offset).length ≤ length.toInt.toNat + 1 := by
  rw [bytesOf]
  split
  · rw [length_slice]
    omega
  · exact Nat.zero_le _

/-- **The string in a buffer.** -/
lemma read_buffer (hlength : 0 ≤ length.toInt) :
    CString.read (bytesOf data alive length offset ++ List.replicate
        (length.toInt.toNat + 1 - (bytesOf data alive length offset).length) 0) =
      if (alive && complete data length offset) = true → 0 ∈ bytesOf data alive length offset then
        some (textOf data alive length offset) else none := by
  have hle : (bytesOf data alive length offset).length ≤ length.toInt.toNat + 1 := length_bytesOf_le
  have hall : (bytesOf data alive length offset).length = length.toInt.toNat + 1 ↔
    (alive && complete data length offset) = true := length_bytesOf hlength
  by_cases hfull : (alive && complete data length offset) = true
  · rw [hall.2 hfull, Nat.sub_self, List.replicate_zero, List.append_nil, CString.read, textOf]
    simp [hfull]
  · have hlt : (bytesOf data alive length offset).length < length.toInt.toNat + 1 :=
      lt_of_le_of_ne hle fun h => hfull (hall.1 h)
    obtain ⟨k, hk⟩ : ∃ k, length.toInt.toNat + 1 - (bytesOf data alive length offset).length =
        k + 1 := ⟨_, (Nat.succ_pred_eq_of_pos (by omega)).symm⟩
    rw [hk, List.replicate_succ, CString.read, if_pos (by simp), CString.upToZero_append_zero,
      if_pos fun h => absurd h hfull, textOf]

/-! ## Pairs -/

/-- The original of a pair can be read, and then its translation. -/
def PairEnds (data : List UInt8) (alive : Bool) (p : TranslationPairInformation) : Prop :=
  Ends data alive p.orLength p.orOffset ∧
    Ends data (alive && complete data p.orLength p.orOffset) p.trLength p.trOffset

/-- The stream has not failed after a pair. -/
def aliveAfter (data : List UInt8) (alive : Bool) (p : TranslationPairInformation) : Bool :=
  alive && complete data p.orLength p.orOffset && complete data p.trLength p.trOffset

/-- The texts of a pair. -/
def textsOf (data : List UInt8) (alive : Bool) (p : TranslationPairInformation) :
    List UInt8 × List UInt8 :=
  (textOf data alive p.orLength p.orOffset,
    textOf data (alive && complete data p.orLength p.orOffset) p.trLength p.trOffset)

/-- A pair is read. -/
lemma readPair_eq (h : Stands data alive s) {p : TranslationPairInformation}
    (hp : PairEnds data alive p) :
    ∃ s', readPair s p = .ok ((textsOf data alive p).1, (textsOf data alive p).2, s') ∧
      Stands data (aliveAfter data alive p) s' := by
  obtain ⟨ho, ht⟩ := hp
  obtain ⟨s₁, hread₁, hstands₁⟩ := readBuffer_eq h ho.nonneg
  obtain ⟨s₂, hread₂, hstands₂⟩ := readBuffer_eq hstands₁ ht.nonneg
  refine ⟨s₂, ?_, hstands₂⟩
  rw [readPair, if_neg (not_or.2 ⟨ho.lt.ne, ht.lt.ne⟩), hread₁]
  simp only [bind, Except.bind, hread₂, read_buffer ho.nonneg, read_buffer ht.nonneg,
    if_pos ho.zero_mem, if_pos ht.zero_mem]
  rfl

/-- A buffer with a string in it.

**Proof sketch.** If the length is not negative, then the buffer is what was read, with zeros
behind it, and it has a string only if a zero was read. If it is negative, the array has no
elements and there is nothing to read. -/
lemma ends_of_readBuffer (h : Stands data alive s) (hmax : length.toInt ≠ 2 ^ 31 - 1)
    {b : List UInt8} {s' : InputStream} (hb : readBuffer s length offset = .ok (b, s'))
    (hread : CString.read b ≠ none) :
    Ends data alive length offset ∧ Stands data (alive && complete data length offset) s' := by
  have hlt : length.toInt < 2 ^ 31 := BitVec.toInt_lt
  by_cases hlength : 0 ≤ length.toInt
  · obtain ⟨s₁, hok, hstands⟩ := readBuffer_eq h hlength
    rw [hok, Except.ok.injEq, Prod.mk.injEq] at hb
    obtain ⟨rfl, rfl⟩ := hb
    rw [read_buffer hlength] at hread
    refine ⟨⟨hlength, by omega, ?_⟩, hstands⟩
    by_contra hzero
    exact hread (if_neg hzero)
  · -- the array has no elements
    rw [readBuffer] at hb
    split at hb
    · exact absurd hb (by simp)
    next hthrown =>
      have hn : (length.toInt + 1).toNat = 0 := by omega
      rw [hn, Except.ok.injEq, Prod.mk.injEq] at hb
      obtain ⟨rfl, -⟩ := hb
      have hempty : ((s.seek offset.toInt).read 0).1 = [] := by
        rw [InputStream.read]
        split <;> rfl
      rw [hempty] at hread
      exact absurd rfl hread

/-- A pair that cannot be read.

**Proof sketch.** By cases on what is read: a length that is refused, a buffer that is not there,
and a text without its end. If none of these is the case, both texts end. -/
lemma readPair_error (h : Stands data alive s) {p : TranslationPairInformation}
    (hp : ¬ PairEnds data alive p) : ∃ e, readPair s p = .error e := by
  rw [readPair]
  split
  · exact ⟨_, rfl⟩
  next hmax =>
    obtain ⟨hmax₁, hmax₂⟩ := not_or.1 hmax
    cases hread₁ : readBuffer s p.orLength p.orOffset with
    | error e => exact ⟨e, rfl⟩
    | ok b₁ =>
      cases hread₂ : readBuffer b₁.2 p.trLength p.trOffset with
      | error e => exact ⟨e, by simp only [bind, Except.bind, hread₂]⟩
      | ok b₂ =>
        simp only [bind, Except.bind, hread₂]
        split
        next o t ho ht =>
          obtain ⟨hends₁, hstands⟩ := ends_of_readBuffer h hmax₁ hread₁ (by simp [ho])
          obtain ⟨hends₂, -⟩ := ends_of_readBuffer hstands hmax₂ hread₂ (by simp [ht])
          exact absurd ⟨hends₁, hends₂⟩ hp
        next => exact ⟨_, rfl⟩

/-! ## Tables -/

/-- The context of an original, if there is one, and its id. -/
def keyOf (original : List UInt8) : Option (List UInt8) × List UInt8 :=
  match original.idxOf? contextSeparator with
  | none => (none, original)
  | some i => (some (original.take i), original.drop (i + 1))

namespace Reader

/-- A pair is entered. -/
def put (r : Reader) (p : List UInt8 × List UInt8) : Reader :=
  match keyOf p.1 with
  | (none, id) =>
    { r with lookupMap := r.lookupMap.insert id p.2, numStrings := r.numStrings + 1 }
  | (some context, id) =>
    { r with
      lookupContextMap := r.lookupContextMap.assign context id p.2
      numStrings := r.numStrings + 1 }

/-- Pairs are entered one after the other. -/
def putAll (r : Reader) (ps : List (List UInt8 × List UInt8)) : Reader := ps.foldl put r

/-- `substr` does not throw. -/
lemma store_eq (r : Reader) (original translation : List UInt8) :
    r.store original translation = some (r.put (original, translation)) := by
  rw [store, put, keyOf]
  cases hfind : original.idxOf? contextSeparator with
  | none => rfl
  | some i =>
    have hi : i < original.length := (List.findIdx?_eq_some_iff_findIdx_eq.1 hfind).1
    have hrest : (original.drop (i + 1)).take original.length = original.drop (i + 1) :=
      List.take_of_length_le (by simp)
    simp only [Strings.substr, if_pos (Nat.zero_le _), if_pos (Nat.succ_le_of_lt hi),
      List.drop_zero, hrest]

/-- **The count has room** for some more strings. -/
def Fits (r : Reader) (n : ℕ) : Prop := r.numStrings.toInt + n < 2 ^ 31

instance (r : Reader) (n : ℕ) : Decidable (r.Fits n) := inferInstanceAs (Decidable (_ < _))

/-- Where there is room for more strings, there is room for less. -/
lemma Fits.mono {r : Reader} {n m : ℕ} (h : r.Fits m) (hle : n ≤ m) : r.Fits n := by
  unfold Fits at *
  omega

/-- One more string is counted. -/
lemma toInt_put (r : Reader) (p : List UInt8 × List UInt8) (h : r.numStrings.toInt ≠ 2 ^ 31 - 1) :
    (r.put p).numStrings.toInt = r.numStrings.toInt + 1 := by
  have hnum : (r.put p).numStrings = r.numStrings + 1 := by
    rw [put]
    split <;> rfl
  have hlt : r.numStrings.toInt < 2 ^ 31 := BitVec.toInt_lt
  have hle : -2 ^ 31 ≤ r.numStrings.toInt := BitVec.le_toInt r.numStrings
  have hone : (1 : BitVec 32).toInt = 1 := rfl
  rw [hnum, BitVec.toInt_add, hone]
  exact Int.bmod_eq_of_le (by omega) (by omega)

end Reader

/-- The pairs can be read one after the other. -/
def Readable (data : List UInt8) : Bool → List TranslationPairInformation → Prop
  | _, [] => True
  | alive, p :: ps => PairEnds data alive p ∧ Readable data (aliveAfter data alive p) ps

/-- The texts of the pairs. -/
def texts (data : List UInt8) :
    Bool → List TranslationPairInformation → List (List UInt8 × List UInt8)
  | _, [] => []
  | alive, p :: ps => textsOf data alive p :: texts data (aliveAfter data alive p) ps

/-- **The loop that reads the strings.** It enters all pairs if they can be read and counted, and
otherwise ends behind some of them.

**Proof sketch.** By induction on the pairs. The first one is read and counted, and then the rest
has to be read where it leaves the stream, with one place less in the count; or it cannot be read,
or the count is at its greatest number, and the loop ends there. -/
lemma readStrings_eq (r : Reader) (ps : List TranslationPairInformation)
    (h : Stands data alive s) :
    (Readable data alive ps ∧ r.Fits ps.length →
      readStrings r s ps = (r.putAll (texts data alive ps), .ok .ecSuccess)) ∧
    (¬ (Readable data alive ps ∧ r.Fits ps.length) → ∃ k < ps.length, ∃ e,
      readStrings r s ps = (r.putAll ((texts data alive ps).take k), .error e)) := by
  induction ps generalizing r s alive with
  | nil =>
    have hlt : r.numStrings.toInt < 2 ^ 31 := BitVec.toInt_lt
    exact ⟨fun _ => rfl, fun h => absurd ⟨trivial, by simpa [Reader.Fits] using hlt⟩ h⟩
  | cons p ps ih =>
    by_cases hp : PairEnds data alive p
    · obtain ⟨s', hread, hstands⟩ := readPair_eq h hp
      have hstep : readStrings r s (p :: ps) =
          if r.numStrings.toInt = 2 ^ 31 - 1 then (r, .error .undefined)
          else readStrings (r.put (textsOf data alive p)) s' ps := by
        rw [readStrings, hread]
        simp only [Reader.store_eq, Prod.mk.eta]
      rw [hstep]
      by_cases hfull : r.numStrings.toInt = 2 ^ 31 - 1
      · rw [if_pos hfull]
        refine ⟨fun hall => ?_, fun _ => ⟨0, Nat.succ_pos _, .undefined, rfl⟩⟩
        have hfits : r.numStrings.toInt + ((ps.length + 1 : ℕ) : ℤ) < 2 ^ 31 := hall.2
        omega
      · have hfits : r.Fits (p :: ps).length ↔ (r.put (textsOf data alive p)).Fits ps.length := by
          rw [Reader.Fits, Reader.Fits, Reader.toInt_put r _ hfull, List.length_cons]
          omega
        obtain ⟨hsuccess, herror⟩ := ih (r.put (textsOf data alive p)) hstands
        rw [if_neg hfull, hfits]
        refine ⟨fun hall => hsuccess ⟨hall.1.2, hall.2⟩, fun hnot => ?_⟩
        obtain ⟨k, hk, e, he⟩ := herror fun hrest => hnot ⟨⟨hp, hrest.1⟩, hrest.2⟩
        exact ⟨k + 1, Nat.succ_lt_succ hk, e, he⟩
    · refine ⟨fun hall => absurd hall.1.1 hp, fun _ => ?_⟩
      obtain ⟨e, he⟩ := readPair_error h hp
      refine ⟨0, Nat.succ_pos _, e, ?_⟩
      rw [readStrings, he]
      rfl

/-! ## Any data -/

/-- All strings can be read. -/
def Accepted (data : List UInt8) : Prop := Readable data (tablesThere data) (pairsAt data)

/-- The pairs that are read. -/
def stored (data : List UInt8) : List (List UInt8 × List UInt8) :=
  texts data (tablesThere data) (pairsAt data)

/-- The header. -/
lemma readHeader_at (h : At data p s) :
    (readHeader s).1.magicNumber = intAt data p ∧
      (readHeader s).1.numStrings = intAt data (p + 8) ∧ At data (p + 28) (readHeader s).2 := by
  obtain ⟨hmagic, h4⟩ := readInt_at h
  obtain ⟨-, h8⟩ := readInt_at h4
  obtain ⟨hcount, h12⟩ := readInt_at h8
  obtain ⟨-, h16⟩ := readInt_at h12
  obtain ⟨-, h20⟩ := readInt_at h16
  obtain ⟨-, h24⟩ := readInt_at h20
  obtain ⟨-, h28⟩ := readInt_at h24
  exact ⟨hmagic, hcount, h28⟩

/-- There are as many pairs as the header says. -/
lemma length_pairsAt (data : List UInt8) : (pairsAt data).length = countAt data := by
  simp [pairsAt, descriptorsAt]

/-- Another magic number. -/
lemma parseData_of_ne (r : Reader) (h : intAt data 0 ≠ magicNumber) :
    ∃ error, r.parseData data = ({ r with error := error },
      .ok (if intAt data 0 = magicReversed then .ecMagicNumberReversed
        else .ecMagicNumberNoMatch)) := by
  obtain ⟨hmagic, -, -⟩ := readHeader_at (at_ofData data)
  rw [Reader.parseData, readStream]
  simp only [hmagic]
  rw [if_pos h]
  by_cases hreversed : intAt data 0 = magicReversed
  · rw [if_neg (not_not.2 hreversed), if_pos hreversed]
    exact ⟨_, rfl⟩
  · rw [if_pos hreversed, if_neg hreversed]
    exact ⟨_, rfl⟩

/-- **All pairs are read**, or an exception or undefined behaviour ends the function behind some of
them.

**Proof sketch.** The header and the tables are read as they are in the data, and the strings then
one pair after another, by `readStrings_eq`. -/
theorem parseData_of_eq (r : Reader) (h : intAt data 0 = magicNumber) :
    (Accepted data ∧ r.Fits (countAt data) →
      r.parseData data = (r.putAll (stored data), .ok .ecSuccess)) ∧
    (¬ (Accepted data ∧ r.Fits (countAt data)) → ∃ k < countAt data, ∃ e,
      r.parseData data = (r.putAll ((stored data).take k), .error e)) := by
  obtain ⟨hmagic, hcount, hat⟩ := readHeader_at (at_ofData data)
  obtain ⟨horiginals, hat₁⟩ := readDescriptors_at (countAt data) hat
  obtain ⟨htranslations, hat₂⟩ := readDescriptors_at (countAt data) hat₁
  have hplace : 0 + 28 + 8 * countAt data + 8 * countAt data = 28 + 16 * countAt data := by omega
  have hstands := stands_of_at hat₂
  rw [hplace] at hstands
  have hparse : r.parseData data = readStrings r (readDescriptors (countAt data)
      (readDescriptors (countAt data) (readHeader (ofData data)).2).2).2 (pairsAt data) := by
    have hn : (readHeader (ofData data)).1.numStrings.toInt.toNat = countAt data := by
      rw [hcount]
      rfl
    rw [Reader.parseData, readStream]
    simp only [hmagic, h, hn, ne_eq, not_true_eq_false, if_false]
    rw [horiginals, htranslations, pairsAt, Nat.zero_add]
  have hstrings := readStrings_eq r (pairsAt data) hstands
  rw [length_pairsAt] at hstrings
  rw [hparse]
  exact hstrings

/-- **How `ParseData` ends, for any data.** It succeeds exactly if the magic number is right, each
string can be read, whether or not the data ends before the strings do, and the count of the strings
has room for them; and enters all pairs then. Otherwise it returns one of the two codes for the
magic number, and the tables stay as they are, or an exception or undefined behaviour ends it; it
never returns another code.

**Proof sketch.** With another magic number the function returns at once. With the right one its
result is that of the loop over the strings, by the places of the numbers in the data
(`parseData_of_eq`): success if each of them can be read and counted, and an error otherwise. -/
theorem parseData_outcome (r : Reader) (data : List UInt8) :
    ((r.parseData data).2 = .ok .ecSuccess ↔
      intAt data 0 = magicNumber ∧ Accepted data ∧ r.Fits (countAt data)) ∧
    ((r.parseData data).2 = .ok .ecSuccess → (r.parseData data).1 = r.putAll (stored data)) ∧
    ∀ c, (r.parseData data).2 = .ok c → c ≠ .ecSuccess →
      (c = if intAt data 0 = magicReversed then .ecMagicNumberReversed
        else .ecMagicNumberNoMatch) ∧
      ∃ error, (r.parseData data).1 = { r with error := error } := by
  by_cases hmagic : intAt data 0 = magicNumber
  · obtain ⟨hyes, hno⟩ := parseData_of_eq r hmagic
    by_cases haccepted : Accepted data ∧ r.Fits (countAt data)
    · rw [hyes haccepted]
      exact ⟨⟨fun _ => ⟨hmagic, haccepted⟩, fun _ => rfl⟩, fun _ => rfl,
        fun c hc hne => absurd (Except.ok.inj hc).symm hne⟩
    · obtain ⟨k, -, e, he⟩ := hno haccepted
      rw [he]
      exact ⟨⟨nofun, fun h => absurd h.2 haccepted⟩, nofun, nofun⟩
  · obtain ⟨error, herror⟩ := parseData_of_ne r hmagic
    have hcode : ∀ b : Prop, [Decidable b] → (if b then ErrorCode.ecMagicNumberReversed
        else .ecMagicNumberNoMatch) ≠ .ecSuccess := by
      intro b _
      split <;> decide
    rw [herror]
    exact ⟨⟨fun h => absurd (Except.ok.inj h) (hcode _), fun h => absurd h.1 hmagic⟩,
      fun h => absurd (Except.ok.inj h) (hcode _),
      fun c hc _ => ⟨(Except.ok.inj hc).symm, error, rfl⟩⟩

/-- A file with one string, `a`, and its translation `b`. -/
def oneString : List UInt8 :=
  [0xDE, 0x12, 0x04, 0x95, 0, 0, 0, 0, 1, 0, 0, 0, 28, 0, 0, 0, 36, 0, 0, 0, 0, 0, 0, 0, 0, 0, 0, 0,
    1, 0, 0, 0, 44, 0, 0, 0, 1, 0, 0, 0, 46, 0, 0, 0, 97, 0, 98, 0]

/-- The file is read, and so is what is left of it without its last two bytes, with an empty
translation. -/
theorem parseData_outcome_one :
    (Reader.new.parseData oneString).2 = .ok .ecSuccess ∧
      (Reader.new.parseData oneString).1 = Reader.new.putAll [([97], [98])] ∧
      (Reader.new.parseData (oneString.take 46)).1 = Reader.new.putAll [([97], [])] := by
  have hwhole : (Reader.new.parseData oneString).2 = .ok .ecSuccess := by rfl
  have hcut : (Reader.new.parseData (oneString.take 46)).2 = .ok .ecSuccess := by rfl
  have hpair : stored oneString = [([97], [98])] := by decide +kernel
  have hempty : stored (oneString.take 46) = [([97], [])] := by decide +kernel
  refine ⟨hwhole, ?_, ?_⟩
  · rw [(parseData_outcome Reader.new oneString).2.1 hwhole, hpair]
  · rw [(parseData_outcome Reader.new (oneString.take 46)).2.1 hcut, hempty]

end HkuUtils.MoFile
