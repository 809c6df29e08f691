import HkuUtils.MoFile.Contents

set_option relaxedAutoImplicit false
set_option autoImplicit false

/-!
# Catalogues of translations

A catalogue is what the tables are filled with, and a file that is written for it is read as it. A
file that has been cut off is read as well: all strings behind the cut are empty, and nothing tells
it from a whole one.

## Main definitions

* `HkuUtils.MoFile.Entry`, `write` — a translation, and the file for a catalogue.
* `HkuUtils.MoFile.Holds` — the strings that a file holds, with its tables behind the header.
* `HkuUtils.MoFile.Call`, `Reader.run` — files that are loaded one after the other.

## Main results

* `HkuUtils.MoFile.translate_write` — **a catalogue that is written is read.**
* `HkuUtils.MoFile.parseData_take` — **a file that is cut off.**
* `HkuUtils.MoFile.translate_run` — **what is found after any number of files.**
-/

namespace HkuUtils.MoFile

open Blocks InputStream

variable {data : List UInt8}

/-! ## The tables -/

namespace Reader

/-- What is found for an id, with a context or without. -/
def translate (r : Reader) : Option (List UInt8) → List UInt8 → List UInt8
  | none, id => r.lookup id
  | some context, id => r.lookupWithContext context id

/-- The entry for a key. -/
def entry (r : Reader) : Option (List UInt8) × List UInt8 → Option (List UInt8)
  | (none, id) => r.lookupMap.lookup id
  | (some context, id) => r.lookupContextMap.value context id

/-- A text without a translation is shown as it is. -/
lemma translate_eq (r : Reader) (context : Option (List UInt8)) (id : List UInt8) :
    r.translate context id = (r.entry (context, id)).getD id := by
  cases context with
  | none => rfl
  | some context =>
    rw [translate, lookupWithContext, entry, NestedMap.value]
    cases r.lookupContextMap.lookup context <;> rfl

/-- One pair.

**Proof sketch.** A pair goes to one of the two tables, as its id names a context or not; in this
table it is found under its key only, and the other table stays as it is. -/
lemma entry_put (r : Reader) (p : List UInt8 × List UInt8)
    (key : Option (List UInt8) × List UInt8) :
    (r.put p).entry key = if keyOf p.1 = key then some p.2 else r.entry key := by
  obtain ⟨context', id'⟩ := key
  rw [put]
  split
  next id hkey =>
    rw [hkey]
    cases context' with
    | none =>
      by_cases hid : id = id'
      · subst hid
        simp [entry, Finmap.lookup_insert]
      · simp [entry, hid, Finmap.lookup_insert_of_ne _ (Ne.symm hid)]
    | some context' => simp [entry]
  next context id hkey =>
    rw [hkey]
    cases context' with
    | none => simp [entry]
    | some context' =>
      have hrun := NestedMap.value_run (.assign context id p.2) (m := r.lookupContextMap)
        (a := context') (b := id')
      by_cases hsame : context = context' ∧ id = id'
      · obtain ⟨rfl, rfl⟩ := hsame
        simpa [entry, NestedMap.Write.run, NestedMap.Write.sets] using hrun
      · simpa [entry, NestedMap.Write.run, NestedMap.Write.sets, hsame] using hrun

end Reader

/-- The last text that is assigned to a key. -/
def assigned (ps : List (List UInt8 × List UInt8)) (key : Option (List UInt8) × List UInt8) :
    Option (List UInt8) :=
  (ps.filterMap fun p => if keyOf p.1 = key then some p.2 else none).getLast?

/-- **Pairs that are entered one after the other**: the last one for a key is found. -/
lemma entry_putAll (r : Reader) (ps : List (List UInt8 × List UInt8))
    (key : Option (List UInt8) × List UInt8) :
    (r.putAll ps).entry key = (assigned ps key).or (r.entry key) := by
  induction ps generalizing r with
  | nil => rfl
  | cons p ps ih =>
    change ((r.put p).putAll ps).entry key = _
    rw [ih (r.put p), Reader.entry_put, assigned, assigned, List.filterMap_cons]
    by_cases hkey : keyOf p.1 = key
    · rw [if_pos hkey, if_pos hkey, List.getLast?_cons]
      cases (ps.filterMap fun p => if keyOf p.1 = key then some p.2 else none).getLast? <;> rfl
    · rw [if_neg hkey, if_neg hkey]

/-- All of them are counted, as long as the count has room. -/
lemma toInt_putAll {r : Reader} {ps : List (List UInt8 × List UInt8)} (h : r.Fits ps.length) :
    (r.putAll ps).numStrings.toInt = r.numStrings.toInt + ps.length := by
  induction ps generalizing r with
  | nil => exact (Int.add_zero _).symm
  | cons p ps ih =>
    rw [Reader.Fits, List.length_cons] at h
    have hput := Reader.toInt_put r p (by omega)
    change ((r.put p).putAll ps).numStrings.toInt = _
    rw [ih (by rw [Reader.Fits, hput]; omega), hput, List.length_cons]
    omega

/-! ## Files -/

/-- A string of a file, with the zero byte behind it. -/
structure StringOf (data : List UInt8) (length offset : BitVec 32) (t : List UInt8) : Prop where
  length_eq : length.toNat = t.length
  slice_eq : slice data offset.toNat (t.length + 1) = t ++ [0]

/-- **A file with its tables behind the header**, and the strings that it holds. Their descriptors
may point anywhere in the file. -/
structure Holds (data : List UInt8) (raw : List (List UInt8 × List UInt8)) : Prop where
  length_lt : data.length < 2 ^ 31
  magic : intAt data 0 = magicNumber
  count : (intAt data 8).toNat = raw.length
  offsetOriginal : (intAt data 12).toNat = 28
  offsetTranslation : (intAt data 16).toNat = 28 + 8 * raw.length
  tables_le : 28 + 16 * raw.length ≤ data.length
  original : ∀ (i : ℕ) (hi : i < raw.length), StringOf data
    (intAt data ((intAt data 12).toNat + 8 * i)) (intAt data ((intAt data 12).toNat + 8 * i + 4))
    (raw[i]).1
  translation : ∀ (i : ℕ) (hi : i < raw.length), StringOf data
    (intAt data ((intAt data 16).toNat + 8 * i)) (intAt data ((intAt data 16).toNat + 8 * i + 4))
    (raw[i]).2

/-- The strings as they are read: what stands behind a zero byte is left out. -/
def shown (raw : List (List UInt8 × List UInt8)) : List (List UInt8 × List UInt8) :=
  raw.map fun p => (CString.upToZero p.1, CString.upToZero p.2)

/-- A number below `2 ^ 31` is the same with a sign. -/
lemma toInt_of_lt {v : BitVec 32} (h : v.toNat < 2 ^ 31) : v.toInt = v.toNat :=
  BitVec.toInt_eq_toNat_of_lt (by omega)

section Strings

variable {length offset : BitVec 32} {t : List UInt8}

/-- A string ends within the file. -/
lemma StringOf.le (h : StringOf data length offset t) :
    offset.toNat + (t.length + 1) ≤ data.length := by
  rw [← length_slice_eq (Nat.succ_pos _), h.slice_eq, List.length_append, List.length_singleton]

/-- The numbers of a string are not negative. -/
lemma StringOf.toInt (hlt : data.length < 2 ^ 31) (h : StringOf data length offset t) :
    length.toInt = t.length ∧ offset.toInt = offset.toNat := by
  have hle := h.le
  have hlength := h.length_eq
  rw [toInt_of_lt (by omega), toInt_of_lt (by omega), hlength]
  exact ⟨rfl, rfl⟩

/-- **A string in the first part of a file.** -/
lemma StringOf.take (hlt : data.length < 2 ^ 31) (h : StringOf data length offset t) (L : ℕ) :
    (complete (data.take L) length offset = true →
      bytesOf (data.take L) true length offset = t ++ [0]) ∧
    ∃ k, bytesOf (data.take L) true length offset = (t ++ [0]).take k := by
  obtain ⟨hlength, hoffset⟩ := h.toInt hlt
  have hle := h.le
  have hbytes : bytesOf (data.take L) true length offset = (t ++ [0]).take (L - offset.toNat) := by
    rw [bytesOf, if_pos ⟨rfl, by omega⟩, hlength, hoffset, Int.toNat_natCast, Int.toNat_natCast,
      slice_take, h.slice_eq]
  refine ⟨fun hcomplete => ?_, _, hbytes⟩
  rw [complete, decide_eq_true_iff, List.length_take] at hcomplete
  rw [hbytes, List.take_of_length_le]
  rw [List.length_append, List.length_singleton]
  omega

/-- A string of a file can be read, also in the first part of the file. -/
lemma StringOf.ends (hlt : data.length < 2 ^ 31) (h : StringOf data length offset t) (L : ℕ)
    (alive : Bool) : Ends (data.take L) alive length offset := by
  obtain ⟨hlength, -⟩ := h.toInt hlt
  have hle := h.le
  refine ⟨by omega, by omega, fun hall => ?_⟩
  obtain ⟨rfl, hcomplete⟩ := (Bool.and_eq_true _ _).mp hall
  rw [(h.take hlt L).1 hcomplete]
  simp

end Strings

/-! ## Files that are cut off -/

/-- The strings of pairs, in the order in which they are read. -/
def flat (ps : List (List UInt8 × List UInt8)) : List (List UInt8) := ps.flatMap fun p => [p.1, p.2]

/-- The strings that are read one after the other. -/
def strings (data : List UInt8) : Bool → List (BitVec 32 × BitVec 32) → List (List UInt8)
  | _, [] => []
  | alive, d :: ds =>
    textOf data alive d.1 d.2 :: strings data (alive && complete data d.1 d.2) ds

/-- The lengths and offsets of pairs, in the order in which the strings are read. -/
def descriptorsOf (ps : List TranslationPairInformation) : List (BitVec 32 × BitVec 32) :=
  ps.flatMap fun p => [(p.orLength, p.orOffset), (p.trLength, p.trOffset)]

/-- The texts of the pairs are the strings of their descriptors. -/
lemma flat_texts (data : List UInt8) (alive : Bool) (ps : List TranslationPairInformation) :
    flat (texts data alive ps) = strings data alive (descriptorsOf ps) := by
  induction ps generalizing alive with
  | nil => rfl
  | cons p ps ih => exact congrArg (_ :: _ :: ·) (ih (aliveAfter data alive p))

/-- Each pair has two texts. -/
lemma texts_length (data : List UInt8) (alive : Bool) (ps : List TranslationPairInformation) :
    (texts data alive ps).length = ps.length := by
  induction ps generalizing alive with
  | nil => rfl
  | cons p ps ih => exact congrArg (· + 1) (ih (aliveAfter data alive p))

/-- The pairs can be told from the list of all their texts. -/
lemma flat_injective : Function.Injective flat := by
  intro ps
  induction ps with
  | nil =>
    intro qs h
    cases qs with
    | nil => rfl
    | cons q qs => simp [flat] at h
  | cons p ps ih =>
    intro qs h
    cases qs with
    | nil => simp [flat] at h
    | cons q qs =>
      obtain ⟨h₁, h₂, hrest⟩ : p.1 = q.1 ∧ p.2 = q.2 ∧ flat ps = flat qs := by
        simpa [flat] using h
      rw [ih hrest, Prod.ext h₁ h₂]

/-- A stream that has failed. -/
lemma strings_false (data : List UInt8) (ds : List (BitVec 32 × BitVec 32)) :
    strings data false ds = List.replicate ds.length [] := by
  induction ds with
  | nil => rfl
  | cons d ds ih =>
    rw [strings, Bool.false_and, ih, textOf, bytesOf, if_neg (by simp)]
    rfl

/-- **Strings that are cut off**: either all are read, or one of them is read in part and those
behind it are empty.

**Proof sketch.** By induction on the descriptors. While strings are whole, they are read; the
first one that is cut off is read in part, and at the end of the file the others are empty. -/
lemma strings_take (hlt : data.length < 2 ^ 31) (L : ℕ) {ds : List (BitVec 32 × BitVec 32)}
    {ts : List (List UInt8)} (h : List.Forall₂ (fun d t => StringOf data d.1 d.2 t) ds ts) :
    strings (data.take L) true ds = ts.map CString.upToZero ∨
      ∃ pre x post t, ts.map CString.upToZero = pre ++ x :: post ∧ t <+: x ∧
        strings (data.take L) true ds = pre ++ t :: List.replicate post.length [] := by
  induction h with
  | nil => exact .inl rfl
  | @cons d t ds ts hd h ih =>
    rw [strings, Bool.true_and, List.map_cons]
    by_cases hcomplete : complete (data.take L) d.1 d.2 = true
    · have htext : textOf (data.take L) true d.1 d.2 = CString.upToZero t := by
        rw [textOf, (hd.take hlt L).1 hcomplete, CString.upToZero_append_zero]
      rw [hcomplete, htext]
      rcases ih with hall | ⟨pre, x, post, u, hts, hu, hread⟩
      · exact .inl (congrArg _ hall)
      · exact .inr ⟨CString.upToZero t :: pre, x, post, u, congrArg _ hts, hu, congrArg _ hread⟩
    · right
      obtain ⟨k, hk⟩ := (hd.take hlt L).2
      refine ⟨[], CString.upToZero t, ts.map CString.upToZero,
        textOf (data.take L) true d.1 d.2, rfl, ?_, ?_⟩
      · rw [textOf, hk, ← CString.upToZero_append_zero t []]
        exact CString.upToZero_isPrefix_of_isPrefix (List.take_prefix k _)
      · rw [Bool.eq_false_of_not_eq_true hcomplete, strings_false, List.length_map, h.length_eq]
        rfl

/-- The strings of a whole file. -/
lemma strings_eq (hlt : data.length < 2 ^ 31) {ds : List (BitVec 32 × BitVec 32)}
    {ts : List (List UInt8)} (h : List.Forall₂ (fun d t => StringOf data d.1 d.2 t) ds ts) :
    strings data true ds = ts.map CString.upToZero := by
  induction h with
  | nil => rfl
  | @cons d t ds ts hd h ih =>
    have hcomplete : complete data d.1 d.2 = true := by
      obtain ⟨hlength, hoffset⟩ := hd.toInt hlt
      have hle := hd.le
      rw [complete, decide_eq_true_iff]
      omega
    have hbytes := hd.take hlt data.length
    rw [List.take_length] at hbytes
    rw [strings, Bool.true_and, hcomplete, ih, textOf, hbytes.1 hcomplete,
      CString.upToZero_append_zero, List.map_cons]

/-- The strings of a pair. -/
def PairOf (data : List UInt8) (p : TranslationPairInformation) (q : List UInt8 × List UInt8) :
    Prop :=
  StringOf data p.orLength p.orOffset q.1 ∧ StringOf data p.trLength p.trOffset q.2

/-- What the pairs say of a file, one after the other, is what their descriptors say of it. -/
lemma forall₂_flat {ps : List TranslationPairInformation} {raw : List (List UInt8 × List UInt8)}
    (h : List.Forall₂ (PairOf data) ps raw) :
    List.Forall₂ (fun d t => StringOf data d.1 d.2 t) (descriptorsOf ps) (flat raw) := by
  induction h with
  | nil => exact .nil
  | cons hp _ ih => exact .cons hp.1 (.cons hp.2 ih)

/-- The pairs of a file can be read, also of its first part. -/
lemma readable_take (hlt : data.length < 2 ^ 31) (L : ℕ) (alive : Bool)
    {ps : List TranslationPairInformation} {raw : List (List UInt8 × List UInt8)}
    (h : List.Forall₂ (PairOf data) ps raw) : Readable (data.take L) alive ps := by
  induction h generalizing alive with
  | nil => trivial
  | cons hp _ ih => exact ⟨⟨hp.1.ends hlt L _, hp.2.ends hlt L _⟩, ih _⟩

section Holds

variable {raw : List (List UInt8 × List UInt8)}

/-- The header of a file that holds some pairs tells their number. -/
lemma Holds.countAt_eq (h : Holds data raw) : countAt data = raw.length := by
  have hlt := h.length_lt
  have hle := h.tables_le
  have hcount := h.count
  rw [countAt, toInt_of_lt (by omega), hcount, Int.toNat_natCast]

/-- The pairs of a file. -/
lemma Holds.pairs (h : Holds data raw) : List.Forall₂ (PairOf data) (pairsAt data) raw := by
  rw [List.forall₂_iff_get]
  refine ⟨by rw [length_pairsAt, h.countAt_eq], fun i hi hi' => ?_⟩
  have horiginal := h.original i hi'
  have htranslation := h.translation i hi'
  rw [h.offsetOriginal] at horiginal
  rw [h.offsetTranslation, ← h.countAt_eq] at htranslation
  simpa [PairOf, pairsAt, descriptorsAt] using ⟨horiginal, htranslation⟩

/-- A file that holds some pairs has room for its tables. -/
lemma Holds.tablesThere_eq (h : Holds data raw) : tablesThere data = true := by
  rw [tablesThere, h.countAt_eq, decide_eq_true_iff]
  exact h.tables_le

/-- The pairs as they are shown end where their texts have a zero. -/
lemma flat_shown (raw : List (List UInt8 × List UInt8)) :
    flat (shown raw) = (flat raw).map CString.upToZero := by
  simp [flat, shown, List.flatMap_map, List.map_flatMap]

/-- **A whole file is read.** -/
lemma Holds.stored_eq (h : Holds data raw) : Accepted data ∧ stored data = shown raw := by
  have hreadable := readable_take h.length_lt data.length true h.pairs
  rw [List.take_length] at hreadable
  rw [Accepted, stored, h.tablesThere_eq]
  refine ⟨hreadable, flat_injective ?_⟩
  rw [flat_texts, flat_shown, strings_eq h.length_lt (forall₂_flat h.pairs)]

/-- **A file that holds some pairs is read**, and they are stored in this order. -/
lemma Holds.parseData_eq (h : Holds data raw) {r : Reader} (hfits : r.Fits raw.length) :
    r.parseData data = (r.putAll (shown raw), .ok .ecSuccess) := by
  obtain ⟨haccepted, hstored⟩ := h.stored_eq
  rw [(parseData_of_eq r h.magic).1 ⟨haccepted, h.countAt_eq ▸ hfits⟩, hstored]

/-! ### Numbers in the first part of a file -/

/-- A number that is there as a whole. -/
lemma intAt_take {L p : ℕ} (hL : p + 4 ≤ L) : intAt (data.take L) p = intAt data p := by
  rw [intAt, intAt, slice_take, List.take_of_length_le]
  rw [length_slice]
  omega

/-- A number of a file as its four bytes, the low one first. -/
lemma toNat_intAt (data : List UInt8) (p : ℕ) :
    (intAt data p).toNat = littleEndian (slice data p 4) := by
  have hlt := littleEndian_lt (slice data p 4)
  have hlen : (slice data p 4).length ≤ 4 := by
    rw [length_slice]
    omega
  have hpow : 256 ^ (slice data p 4).length ≤ 256 ^ 4 := Nat.pow_le_pow_right (by omega) hlen
  rw [intAt, BitVec.toNat_ofNat, Nat.mod_eq_of_lt (by omega)]

/-- A number that is there in part is not greater. -/
lemma intAt_take_le (data : List UInt8) (L p : ℕ) :
    (intAt (data.take L) p).toNat ≤ (intAt data p).toNat := by
  rw [toNat_intAt, toNat_intAt, slice_take, littleEndian_take]
  exact Nat.mod_le _ _

/-- A number behind the end. -/
lemma intAt_of_length_le {p : ℕ} (hp : data.length ≤ p) : intAt data p = 0 := by
  rw [intAt, slice_of_length_le hp]
  rfl

/-- A stream that has failed reads pairs of empty strings, if their lengths are ones. -/
lemma readable_false {ps : List TranslationPairInformation}
    (h : ∀ p ∈ ps, p.orLength.toNat < 2 ^ 31 - 1 ∧ p.trLength.toNat < 2 ^ 31 - 1) :
    Readable data false ps ∧ texts data false ps = List.replicate ps.length ([], []) := by
  have hends : ∀ l o : BitVec 32, l.toNat < 2 ^ 31 - 1 → Ends data false l o := by
    intro l o hl
    have hint := toInt_of_lt (show l.toNat < 2 ^ 31 by omega)
    exact ⟨by omega, by omega, nofun⟩
  induction ps with
  | nil => exact ⟨trivial, rfl⟩
  | cons p ps ih =>
    obtain ⟨hp₁, hp₂⟩ := h p (by simp)
    obtain ⟨hreadable, htexts⟩ := ih fun q hq => h q (List.mem_cons_of_mem p hq)
    refine ⟨⟨⟨hends _ _ hp₁, hends _ _ hp₂⟩, hreadable⟩, ?_⟩
    rw [List.length_cons, List.replicate_succ, ← htexts]
    simp [texts, textsOf, textOf, bytesOf, aliveAfter, CString.upToZero]

/-- The number of strings in the first part of a file. -/
lemma Holds.countAt_take (h : Holds data raw) (L : ℕ) :
    countAt (data.take L) ≤ raw.length ∧ (12 ≤ L → countAt (data.take L) = raw.length) := by
  have hlt := h.length_lt
  have hle := h.tables_le
  have hcount := h.count
  have hmore := intAt_take_le data L 8
  refine ⟨?_, fun hL => ?_⟩
  · rw [countAt, toInt_of_lt (by omega), Int.toNat_natCast]
    omega
  · rw [← h.countAt_eq, countAt, countAt, intAt_take (by omega)]

/-- The lengths in the first part of a file are not greater than those in the file.

**Proof sketch.** Where the header is there, an entry of the tables is the one of the whole file or
is cut to a smaller number, and the whole file is shorter than `2 ^ 31`. Where it is not, the first
part has nothing at the places of the tables, and the entries are zero. -/
lemma Holds.lengths_take (h : Holds data raw) (L : ℕ) :
    ∀ p ∈ pairsAt (data.take L), p.orLength.toNat < 2 ^ 31 - 1 ∧ p.trLength.toNat < 2 ^ 31 - 1 := by
  intro p hp
  have hlt := h.length_lt
  obtain ⟨i, hi, rfl⟩ := List.getElem_of_mem hp
  rw [length_pairsAt] at hi
  obtain ⟨hcount, hsame⟩ := h.countAt_take L
  simp only [pairsAt, descriptorsAt, List.getElem_zipWith, List.getElem_map, List.getElem_range]
  by_cases hL : 12 ≤ L
  · rw [hsame hL] at hi ⊢
    have horiginal := h.original i hi
    have htranslation := h.translation i hi
    rw [h.offsetOriginal] at horiginal
    rw [h.offsetTranslation] at htranslation
    have h₁ := horiginal.le
    have h₂ := htranslation.le
    have h₃ := horiginal.length_eq
    have h₄ := htranslation.length_eq
    have h₅ := intAt_take_le data L (28 + 8 * i)
    have h₆ := intAt_take_le data L (28 + 8 * raw.length + 8 * i)
    omega
  · have hzero : ∀ q, 28 ≤ q → intAt (data.take L) q = 0 := by
      intro q hq
      apply intAt_of_length_le
      rw [List.length_take]
      omega
    rw [hzero _ (by omega), hzero _ (by omega)]
    decide

/-- A whole file, and a part of it in which the tables are whole.

**Proof sketch.** The tables are whole, so the same descriptors are read from the part; the strings
then are those of `strings_take`. -/
lemma Holds.stored_take (h : Holds data raw) {L : ℕ} (hL : 28 + 16 * raw.length ≤ L) :
    Accepted (data.take L) ∧ (stored (data.take L)).length = raw.length ∧
      (flat (stored (data.take L)) = flat (shown raw) ∨
        ∃ pre x post t, flat (shown raw) = pre ++ x :: post ∧ t <+: x ∧
          flat (stored (data.take L)) = pre ++ t :: List.replicate post.length []) := by
  have hcount := (h.countAt_take L).2 (by omega)
  have hle := h.tables_le
  have hthere : tablesThere (data.take L) = true := by
    rw [tablesThere, hcount, decide_eq_true_iff, List.length_take]
    omega
  have hpairs : pairsAt (data.take L) = pairsAt data := by
    have hnumber : ∀ p, p + 4 ≤ L → intAt (data.take L) p = intAt data p := fun p => intAt_take
    have htable : ∀ p, p + 8 * raw.length ≤ L →
        descriptorsAt (data.take L) p raw.length = descriptorsAt data p raw.length := by
      intro p hp
      apply List.map_congr_left
      intro i hi
      have := List.mem_range.1 hi
      rw [hnumber _ (by omega), hnumber _ (by omega)]
    rw [pairsAt, pairsAt, hcount, h.countAt_eq, htable _ (by omega), htable _ (by omega)]
  rw [Accepted, stored, hthere, hpairs, texts_length, length_pairsAt, h.countAt_eq, flat_texts,
    flat_shown]
  exact ⟨readable_take h.length_lt L true h.pairs, rfl,
    strings_take h.length_lt L (forall₂_flat h.pairs)⟩

/-- **A file that is cut off.** The first part of a file is read without an error if it has the
four bytes of the magic number. All pairs are counted if it has their number. If it has the tables,
either all strings are read or one of them is read in part and all strings behind it are empty; if
it does not, all strings are empty.

**Proof sketch.** Where the numbers and tables are there as a whole, they are those of the file, and
elsewhere the missing bytes are zeros. A string that does not end within the first part sets the
flags of the stream, and everything that is read from then on is empty. -/
theorem parseData_take (h : Holds data raw) {r : Reader} (hfits : r.Fits raw.length) (L : ℕ) :
    (L < 4 → (r.parseData (data.take L)).2 = .ok .ecMagicNumberNoMatch) ∧
    (4 ≤ L → ∃ ps, r.parseData (data.take L) = (r.putAll ps, .ok .ecSuccess) ∧
      ps.length ≤ raw.length ∧ (12 ≤ L → ps.length = raw.length) ∧
      (L < 28 + 16 * raw.length → ps = List.replicate ps.length ([], [])) ∧
      (28 + 16 * raw.length ≤ L → ps = shown raw ∨
        ∃ pre x post t, flat (shown raw) = pre ++ x :: post ∧ t <+: x ∧
          flat ps = pre ++ t :: List.replicate post.length [])) := by
  have hle := h.tables_le
  constructor
  · intro hL
    have hmagic : (intAt (data.take L) 0).toNat = 0x950412DE % 256 ^ L := by
      rw [toNat_intAt, slice_take, littleEndian_take, ← toNat_intAt, h.magic, Nat.sub_zero]
      rfl
    have hother : intAt (data.take L) 0 ≠ magicNumber ∧ intAt (data.take L) 0 ≠ magicReversed := by
      rw [ne_eq, ne_eq, ← BitVec.toNat_inj, ← BitVec.toNat_inj, hmagic]
      obtain rfl | rfl | rfl | rfl : L = 0 ∨ L = 1 ∨ L = 2 ∨ L = 3 := by omega
      all_goals decide
    obtain ⟨error, herror⟩ := parseData_of_ne r hother.1
    rw [herror, if_neg hother.2]
  · intro hL
    have hmagic : intAt (data.take L) 0 = magicNumber := by rw [intAt_take (by omega), h.magic]
    obtain ⟨hcount, hsame⟩ := h.countAt_take L
    by_cases htables : 28 + 16 * raw.length ≤ L
    · obtain ⟨haccepted, hlength, hread⟩ := h.stored_take htables
      have hread' := (parseData_of_eq r hmagic).1 ⟨haccepted, hfits.mono hcount⟩
      refine ⟨stored (data.take L), hread', hlength.le, fun _ => hlength,
        fun hlt => absurd htables (by omega), fun _ => ?_⟩
      exact hread.imp_left fun heq => flat_injective heq
    · have hthere : tablesThere (data.take L) = false := by
        rw [tablesThere, decide_eq_false_iff_not, List.length_take]
        rcases Nat.lt_or_ge L 12 with h12 | h12
        · omega
        · rw [hsame h12]
          omega
      obtain ⟨hreadable, htexts⟩ := readable_false (h.lengths_take L)
      rw [← hthere] at hreadable htexts
      have hlength : (stored (data.take L)).length = countAt (data.take L) := by
        rw [stored, texts_length, length_pairsAt]
      have hread := (parseData_of_eq r hmagic).1 ⟨hreadable, hfits.mono hcount⟩
      refine ⟨stored (data.take L), hread, ?_, ?_, fun _ => ?_, fun hge => absurd hge htables⟩
      · rw [hlength]
        exact hcount
      · intro h12
        rw [hlength, hsame h12]
      · rw [hlength, ← length_pairsAt]
        exact htexts

end Holds

/-! ## Files that are written -/

/-- A translation. -/
structure Entry where
  context : Option (List UInt8)
  id : List UInt8
  translation : List UInt8
  deriving DecidableEq, Repr

/-- The context in front of the id. -/
def Entry.original (e : Entry) : List UInt8 :=
  match e.context with
  | none => e.id
  | some context => context ++ contextSeparator :: e.id

/-- The separator stands only behind the context, and there are no zero bytes. -/
structure Entry.Valid (e : Entry) : Prop where
  separator : contextSeparator ∉ e.context.getD e.id
  original : 0 ∉ e.original
  translation : 0 ∉ e.translation

/-- The lengths and offsets of strings that stand one behind the other from a place on. -/
def table : ℕ → List (List UInt8) → List UInt8
  | _, [] => []
  | start, t :: ts => leBytes 4 t.length ++ leBytes 4 start ++ table (start + t.length + 1) ts

/-- The strings with their zero bytes. -/
def area (ts : List (List UInt8)) : List UInt8 := ts.flatMap fun t => t ++ [0]

/-- The header. -/
def header (n : ℕ) : List UInt8 :=
  leBytes 4 0x950412DE ++ leBytes 4 0 ++ leBytes 4 n ++ leBytes 4 28 ++ leBytes 4 (28 + 8 * n) ++
    leBytes 4 0 ++ leBytes 4 (28 + 16 * n)

/-- The file for a catalogue, without a hash table. -/
def write (es : List Entry) : List UInt8 :=
  let ts := es.map Entry.original ++ es.map Entry.translation
  header es.length ++ (table (28 + 16 * es.length) ts ++ area ts)

/-- A number that is written. -/
lemma intAt_of_eq {a c : List UInt8} {v p : ℕ} (hdata : data = a ++ (leBytes 4 v ++ c))
    (hp : a.length = p) : intAt data p = BitVec.ofNat 32 v := by
  have hslice := slice_append a (leBytes 4 v) c
  rw [length_leBytes, hp, ← hdata] at hslice
  rw [intAt, hslice, littleEndian_leBytes]
  apply BitVec.eq_of_toNat_eq
  rw [BitVec.toNat_ofNat, BitVec.toNat_ofNat]
  exact Nat.mod_mod _ _

/-- A table has eight bytes for each string. -/
@[simp] lemma length_table (start : ℕ) (ts : List (List UInt8)) :
    (table start ts).length = 8 * ts.length := by
  induction ts generalizing start with
  | nil => rfl
  | cons t ts ih =>
    simp only [table, List.length_append, length_leBytes, ih, List.length_cons]
    omega

/-- **Strings behind their table**, with anything in front of each.

**Proof sketch.** By induction on the strings, for anything in front of the table and between it
and the texts. The first entry is the length and the place of the first string; then this entry
counts as what is in front, and the first string as what is between. -/
lemma stringOf_table {ts : List (List UInt8)} (pre mid : List UInt8)
    (hdata : data = pre ++ (table (pre.length + 8 * ts.length + mid.length) ts ++ (mid ++ area ts)))
    (hlt : data.length < 2 ^ 31) {j : ℕ} (hj : j < ts.length) :
    StringOf data (intAt data (pre.length + 8 * j)) (intAt data (pre.length + 8 * j + 4))
      ts[j] := by
  induction ts generalizing pre mid j with
  | nil => exact absurd hj (Nat.not_lt_zero j)
  | cons t ts ih =>
    set start := pre.length + 8 * (t :: ts).length + mid.length with hstart
    have hlen := congrArg List.length hdata
    simp only [area, List.flatMap_cons, List.length_append, length_table, List.length_cons,
      List.length_nil] at hlen hstart
    cases j with
    | zero =>
      have hlength : intAt data pre.length = BitVec.ofNat 32 t.length := by
        apply intAt_of_eq (a := pre) _ rfl
        · exact leBytes 4 start ++ (table (start + t.length + 1) ts ++ (mid ++ area (t :: ts)))
        · simp only [hdata, table, List.append_assoc]
      have hoffset : intAt data (pre.length + 4) = BitVec.ofNat 32 start := by
        apply intAt_of_eq (a := pre ++ leBytes 4 t.length) _ (by simp)
        · exact table (start + t.length + 1) ts ++ (mid ++ area (t :: ts))
        · simp only [hdata, table, List.append_assoc]
      have hslice : slice data start (t.length + 1) = t ++ [0] := by
        have hfront : data =
            (pre ++ (table start (t :: ts) ++ mid)) ++ ((t ++ [0]) ++ area ts) := by
          rw [hdata, area, List.flatMap_cons]
          simp only [List.append_assoc, area]
        have hplace : (pre ++ (table start (t :: ts) ++ mid)).length = start := by
          simp only [List.length_append, length_table, List.length_cons]
          omega
        have hmid := slice_append (pre ++ (table start (t :: ts) ++ mid)) (t ++ [0]) (area ts)
        rwa [← hfront, hplace, List.length_append, List.length_singleton] at hmid
      rw [Nat.mul_zero, Nat.add_zero, List.getElem_cons_zero, hlength, hoffset]
      refine ⟨?_, ?_⟩
      · rw [BitVec.toNat_ofNat, Nat.mod_eq_of_lt (by omega)]
      · rw [BitVec.toNat_ofNat, Nat.mod_eq_of_lt (by omega), hslice]
    | succ j =>
      have hpre : (pre ++ (leBytes 4 t.length ++ leBytes 4 start)).length = pre.length + 8 := by
        simp
      have hrest := ih (pre ++ (leBytes 4 t.length ++ leBytes 4 start)) (mid ++ (t ++ [0])) ?_
        (Nat.lt_of_succ_lt_succ hj)
      · rw [hpre] at hrest
        have hplace : pre.length + 8 + 8 * j = pre.length + 8 * (j + 1) := by omega
        rw [hplace] at hrest
        exact hrest
      · have hnext : pre.length + 8 + 8 * ts.length + (mid ++ (t ++ [0])).length =
            start + t.length + 1 := by
          simp only [List.length_append, List.length_singleton]
          omega
        rw [hpre, hnext, hdata, table, area, List.flatMap_cons]
        simp only [List.append_assoc, area]

/-- **A file that is written** holds its catalogue.

**Proof sketch.** The two tables that follow each other are one table of all strings, whose texts
follow it, so `stringOf_table` finds each of them. The numbers of the header are read from their
places. -/
lemma holds_write {es : List Entry} (hlt : (write es).length < 2 ^ 31) :
    Holds (write es) (es.map fun e => (e.original, e.translation)) := by
  set ts := es.map Entry.original ++ es.map Entry.translation with hts
  have hlen : ts.length = 2 * es.length := by
    simp [hts]
    omega
  have hheader : (header es.length).length = 28 := by simp [header]
  have hwrite : write es = header es.length ++
      (table ((header es.length).length + 8 * ts.length + ([] : List UInt8).length) ts ++
        ([] ++ area ts)) := by
    have hplace : 28 + 8 * (2 * es.length) + ([] : List UInt8).length = 28 + 16 * es.length := by
      rw [List.length_nil]
      omega
    rw [hheader, hlen, hplace]
    rfl
  have hsize := congrArg List.length hwrite
  simp only [List.length_append, length_table, hheader, List.length_nil] at hsize
  have hstring : ∀ j (hj : j < ts.length), StringOf (write es) (intAt (write es) (28 + 8 * j))
      (intAt (write es) (28 + 8 * j + 4)) ts[j] := by
    intro j hj
    have h := stringOf_table _ [] hwrite hlt hj
    rwa [hheader] at h
  have hcount : intAt (write es) 8 = BitVec.ofNat 32 es.length :=
    intAt_of_eq (a := leBytes 4 0x950412DE ++ leBytes 4 0)
      (by simp only [write, header, List.append_assoc]; rfl) (by simp)
  have hmagic : intAt (write es) 0 = BitVec.ofNat 32 0x950412DE :=
    intAt_of_eq (a := []) (by simp only [write, header, List.append_assoc]; rfl) rfl
  have horiginals : intAt (write es) 12 = BitVec.ofNat 32 28 :=
    intAt_of_eq (a := leBytes 4 0x950412DE ++ leBytes 4 0 ++ leBytes 4 es.length)
      (by simp only [write, header, List.append_assoc]; rfl) (by simp)
  have htranslations : intAt (write es) 16 = BitVec.ofNat 32 (28 + 8 * es.length) :=
    intAt_of_eq (a := leBytes 4 0x950412DE ++ leBytes 4 0 ++ leBytes 4 es.length ++ leBytes 4 28)
      (by simp only [write, header, List.append_assoc]; rfl) (by simp)
  have hplace : (intAt (write es) 16).toNat = 28 + 8 * es.length := by
    rw [htranslations, BitVec.toNat_ofNat, Nat.mod_eq_of_lt (by omega)]
  constructor
  · exact hlt
  · exact hmagic
  · rw [hcount, BitVec.toNat_ofNat, Nat.mod_eq_of_lt (by omega), List.length_map]
  · rw [horiginals]
    rfl
  · rw [hplace, List.length_map]
  · rw [List.length_map]
    omega
  · intro i hi
    rw [List.length_map] at hi
    have h := hstring i (by omega)
    simp only [hts, List.getElem_append_left (show i < (es.map Entry.original).length by simpa),
      List.getElem_map] at h
    rw [horiginals, List.getElem_map]
    exact h
  · intro i hi
    rw [List.length_map] at hi
    have h := hstring (es.length + i) (by omega)
    have hj : 28 + 8 * (es.length + i) = 28 + 8 * es.length + 8 * i := by omega
    have hright : (es.map Entry.original).length ≤ es.length + i := by simp
    simp only [hts, List.getElem_append_right hright, List.length_map, Nat.add_sub_cancel_left,
      List.getElem_map, hj] at h
    rw [hplace, List.getElem_map]
    exact h

/-- The key of an entry. -/
lemma Entry.Valid.keyOf_eq {e : Entry} (h : e.Valid) : keyOf e.original = (e.context, e.id) := by
  obtain ⟨context, id, translation⟩ := e
  have hseparator := h.separator
  cases context with
  | none =>
    have hnone : id.idxOf? contextSeparator = none := List.idxOf?_eq_none_iff.2 hseparator
    simp only [keyOf, Entry.original, hnone]
  | some context =>
    have hnone : context.idxOf? contextSeparator = none := List.idxOf?_eq_none_iff.2 hseparator
    have hfind : (context ++ contextSeparator :: id).idxOf? contextSeparator =
        some context.length := by
      rw [List.idxOf?] at hnone ⊢
      rw [List.findIdx?_append, hnone, List.findIdx?_cons, if_pos (by simp)]
      simp
    simp only [keyOf, Entry.original, hfind]
    simp

/-- The last translation of an id in a catalogue. -/
def lastOf (es : List Entry) (context : Option (List UInt8)) (id : List UInt8) :
    Option (List UInt8) :=
  (es.filterMap fun e => if (e.context, e.id) = (context, id) then some e.translation
    else none).getLast?

/-- What a catalogue assigns. -/
lemma assigned_shown {es : List Entry} (hes : ∀ e ∈ es, e.Valid) (context : Option (List UInt8))
    (id : List UInt8) :
    assigned (shown (es.map fun e => (e.original, e.translation))) (context, id) =
      lastOf es context id := by
  have hshown : shown (es.map fun e => (e.original, e.translation)) =
      es.map fun e => (e.original, e.translation) := by
    rw [shown, List.map_map]
    apply List.map_congr_left
    intro e he
    have h := hes e he
    simp only [Function.comp_apply, CString.upToZero_eq_self_iff.2 h.original,
      CString.upToZero_eq_self_iff.2 h.translation]
  rw [hshown, assigned, lastOf, List.filterMap_map]
  congr 1
  apply List.filterMap_congr
  intro e he
  simp only [Function.comp_apply, (hes e he).keyOf_eq]

/-- **A catalogue that is written is read.** The file for a catalogue is read without an error by
any reader whose count has room for it. Each id is then found with its last translation in the
catalogue, in its context only, and what was loaded before for other ids is still there.

**Proof sketch.** The file holds the strings of the catalogue, with its tables behind the header, so
that all of them are read and entered in their order. A valid entry has no zero byte, so that it is
read as it is, and its key is taken apart at the first separator, where it was put together. -/
theorem translate_write {es : List Entry} (hes : ∀ e ∈ es, e.Valid)
    (hlt : (write es).length < 2 ^ 31) {r : Reader} (hfits : r.Fits es.length) :
    ∃ r', r.parseData (write es) = (r', .ok .ecSuccess) ∧
      r'.numStrings.toInt = r.numStrings.toInt + es.length ∧
      ∀ context id, r'.translate context id =
        (lastOf es context id).getD (r.translate context id) := by
  have hlength : (shown (es.map fun e => (e.original, e.translation))).length = es.length := by
    rw [shown, List.length_map, List.length_map]
  have hread := (holds_write hlt).parseData_eq (r := r) (by rwa [List.length_map])
  refine ⟨_, hread, ?_, fun context id => ?_⟩
  · rw [toInt_putAll (by rwa [hlength]), hlength]
  · rw [Reader.translate_eq, Reader.translate_eq, entry_putAll, assigned_shown hes]
    cases lastOf es context id <;> rfl

/-- An id with a context and without. -/
theorem translate_write_two :
    ∃ r, Reader.new.parseData (write [⟨none, [97], [98]⟩, ⟨some [99], [97], [100]⟩]) =
        (r, .ok .ecSuccess) ∧
      r.translate none [97] = [98] ∧ r.translate (some [99]) [97] = [100] ∧
      r.translate none [99] = [99] := by
  have hvalid : ∀ e ∈ ([⟨none, [97], [98]⟩, ⟨some [99], [97], [100]⟩] : List Entry), e.Valid := by
    intro e he
    rcases List.mem_pair.1 he with rfl | rfl
    · exact ⟨by decide, by decide, by decide⟩
    · exact ⟨by decide, by decide, by decide⟩
  have hfits : Reader.new.Fits 2 := by decide
  obtain ⟨r, hread, -, htranslate⟩ := translate_write hvalid (by decide) hfits
  exact ⟨r, hread, (htranslate _ _).trans (by decide), (htranslate _ _).trans (by decide),
    (htranslate _ _).trans (by decide)⟩

/-- A file whose last string is cut off, and the file without its magic number. -/
theorem parseData_take_short :
    (∃ ps, Reader.new.parseData ((write [⟨none, [97], [98, 98]⟩]).take 47) =
        (Reader.new.putAll ps, .ok .ecSuccess) ∧ ps.length = 1) ∧
      (Reader.new.parseData ((write [⟨none, [97], [98, 98]⟩]).take 3)).2 =
        .ok .ecMagicNumberNoMatch := by
  have h : Holds (write [⟨none, [97], [98, 98]⟩]) [([97], [98, 98])] := holds_write (by decide)
  have hfits : Reader.new.Fits 1 := by decide
  obtain ⟨ps, hread, -, hlength, -⟩ := (parseData_take h hfits 47).2 (by decide)
  exact ⟨⟨ps, hread, hlength (by decide)⟩, (parseData_take h hfits 3).1 (by decide)⟩

/-! ## Any number of files -/

/-- What is done with a reader. -/
inductive Call where
  | parse (data : List UInt8)
  | clear
  deriving DecidableEq, Repr

namespace Reader

/-- A call that ends with a code. -/
def call (r : Reader) : Call → Option Reader
  | .parse data =>
    match r.parseData data with
    | (r, .ok _) => some r
    | (_, .error _) => none
  | .clear => some r.clearTable

/-- A file that is read with a code. -/
lemma call_ok {r r' : Reader} {data : List UInt8} {code : ErrorCode}
    (h : r.parseData data = (r', .ok code)) : r.call (.parse data) = some r' := by
  delta call
  dsimp only
  rw [h]

/-- A file whose reading has no code. -/
lemma call_error {r r' : Reader} {data : List UInt8} {e : Failure}
    (h : r.parseData data = (r', .error e)) : r.call (.parse data) = none := by
  delta call
  dsimp only
  rw [h]

/-- Calls one after the other. -/
def run (r : Reader) (cs : List Call) : Option Reader := cs.foldlM call r

end Reader

/-- The pairs that are loaded after a call. -/
def loaded (ps : List (List UInt8 × List UInt8)) : Call → List (List UInt8 × List UInt8)
  | .parse data => if intAt data 0 = magicNumber then ps ++ stored data else ps
  | .clear => []

/-- What a reader holds: the pairs, entered one after the other. -/
def Represents (r : Reader) (ps : List (List UInt8 × List UInt8)) : Prop :=
  (∀ key, r.entry key = assigned ps key) ∧ r.numStrings.toInt = ps.length

/-- Of two lists of pairs, the second one has the last word. -/
lemma assigned_append (ps qs : List (List UInt8 × List UInt8))
    (key : Option (List UInt8) × List UInt8) :
    assigned (ps ++ qs) key = (assigned qs key).or (assigned ps key) := by
  rw [assigned, assigned, assigned, List.filterMap_append, List.getLast?_append]

/-- A call.

**Proof sketch.** A call that clears forgets everything. A call that reads a file with the right
first number either stores all its pairs, behind those that are there, or does not end; a file with
another first number changes nothing. -/
lemma represents_call {r r' : Reader} {ps : List (List UInt8 × List UInt8)} {c : Call}
    (h : Represents r ps) (hcall : r.call c = some r') : Represents r' (loaded ps c) := by
  cases c with
  | clear =>
    obtain rfl : r.clearTable = r' := Option.some.inj hcall
    refine ⟨fun key => ?_, rfl⟩
    obtain ⟨context, id⟩ := key
    cases context <;> rfl
  | parse data =>
    rw [loaded]
    by_cases hmagic : intAt data 0 = magicNumber
    · rw [if_pos hmagic]
      by_cases haccepted : Accepted data ∧ r.Fits (countAt data)
      · rw [Reader.call_ok ((parseData_of_eq r hmagic).1 haccepted)] at hcall
        obtain rfl : r.putAll (stored data) = r' := Option.some.inj hcall
        have hlength : (stored data).length = countAt data := by
          rw [stored, texts_length, length_pairsAt]
        refine ⟨fun key => ?_, ?_⟩
        · rw [entry_putAll, h.1 key, assigned_append]
        · rw [toInt_putAll (hlength ▸ haccepted.2), h.2, List.length_append, Nat.cast_add]
      · obtain ⟨k, -, e, he⟩ := (parseData_of_eq r hmagic).2 haccepted
        rw [Reader.call_error he] at hcall
        exact absurd hcall (by simp)
    · rw [if_neg hmagic]
      obtain ⟨error, herror⟩ := parseData_of_ne r hmagic
      rw [Reader.call_ok herror] at hcall
      obtain rfl := Option.some.inj hcall
      exact h

/-- **What is found after any number of files**, loaded and cleared in any order: the last
translation that was loaded for the id in this context since the last call of `clearTable`, or the
id. The number of strings counts all pairs that were loaded since, also those that replaced
others.

**Proof sketch.** A step lemma, `represents_call`, and induction on the calls: a reader represents
the pairs that were entered since the last call of `ClearTable`. A call that would count beyond the
greatest `int` is not defined, so that the count is that of the pairs. -/
theorem translate_run {cs : List Call} {r : Reader} (hrun : Reader.new.run cs = some r) :
    (∀ context id, r.translate context id =
      (assigned (cs.foldl loaded []) (context, id)).getD id) ∧
    r.getNumStrings.toNat = (cs.foldl loaded []).length := by
  have hall : ∀ (cs : List Call) (r₀ : Reader) (ps : List (List UInt8 × List UInt8)),
      Represents r₀ ps → r₀.run cs = some r → Represents r (cs.foldl loaded ps) := by
    intro cs
    induction cs with
    | nil =>
      intro r₀ ps h hrun
      obtain rfl := Option.some.inj hrun
      exact h
    | cons c cs ih =>
      intro r₀ ps h hrun
      rw [Reader.run, List.foldlM_cons] at hrun
      obtain ⟨r₁, hcall, hrest⟩ := Option.bind_eq_some_iff.1 hrun
      exact ih r₁ _ (represents_call h hcall) hrest
  have hnew : Represents Reader.new [] := by
    refine ⟨fun key => ?_, rfl⟩
    obtain ⟨context, id⟩ := key
    cases context <;> rfl
  obtain ⟨hentry, hnum⟩ := hall cs Reader.new [] hnew hrun
  refine ⟨fun context id => ?_, ?_⟩
  · rw [Reader.translate_eq, hentry]
  · have hcount : r.getNumStrings.toInt = (cs.foldl loaded []).length := hnum
    rw [BitVec.toInt_eq_toNat_cond] at hcount
    split at hcount <;> omega

/-- A second file that replaces a translation. -/
theorem translate_run_two :
    ∃ r, Reader.new.run [.parse (write [⟨none, [97], [98]⟩]), .parse (write [⟨none, [97], [99]⟩])] =
        some r ∧
      r.translate none [97] = [99] ∧ r.getNumStrings.toNat = 2 := by
  obtain ⟨r, hrun⟩ : ∃ r, Reader.new.run
      [.parse (write [⟨none, [97], [98]⟩]), .parse (write [⟨none, [97], [99]⟩])] = some r :=
    ⟨_, rfl⟩
  obtain ⟨htranslate, hnum⟩ := translate_run hrun
  exact ⟨r, hrun, (htranslate _ _).trans (by decide), hnum.trans (by decide)⟩

end HkuUtils.MoFile
