import Mathlib.Data.List.DropRight
import Mathlib.Data.List.TakeWhile
import Mathlib.Data.Nat.Digits.Defs
import HkuUtils.CString

set_option relaxedAutoImplicit false
set_option autoImplicit false

/-!
# Requests on a connection

The messages of HTTP/1.1 that a client writes to one connection, one after the other: what a message
is, how its head is written, and how a server finds the end of each message.

## Main definitions

* `Http.IsToken`, `IsTarget`, `IsText`, `Same`, `trim` — the words of a head.
* `Http.Fields`, `Fields.set`, `lookup` — a container in which no field is twice.
* `Http.Message`, `encodeHead`, `parseRequest` — a message, and the two directions.
* `Http.Requests` — the messages that some bytes consist of.

## Main results

* `Http.Fields.lookup_set` — the fields after one was set.
* `Http.parseRequest_encodeHead` — a well-formed head is read back, and the body is as long as the
  head says.

## Design

The end of a message is what its head says: a body is as long as the one `Content-Length`, and
without that there is none. Transfer codings are left out, a message with one is not read. Blanks
around a value belong to no value; names are compared without regard to case.
-/

namespace Http

/-! ## Words -/

/-- The characters of a token. -/
def isTokenChar (c : UInt8) : Bool :=
  (97 ≤ c && c ≤ 122) || (65 ≤ c && c ≤ 90) || (48 ≤ c && c ≤ 57) ||
    c ∈ ([33, 35, 36, 37, 38, 39, 42, 43, 45, 46, 94, 95, 96, 124, 126] : List UInt8)

/-- The characters of a request target. -/
def isVisible (c : UInt8) : Bool := 33 ≤ c && c ≤ 126

/-- The characters of a value: visible ones, blanks, and all from `128` on. -/
def isTextChar (c : UInt8) : Bool := c == 9 || (32 ≤ c && c != 127)

/-- Space and tab. -/
def isBlank (c : UInt8) : Bool := c == 32 || c == 9

/-- The small letter for a capital one. -/
def lower (c : UInt8) : UInt8 := if 65 ≤ c && c ≤ 90 then c + 32 else c

/-- A method or the name of a field. -/
def IsToken (t : List UInt8) : Prop := t ≠ [] ∧ ∀ c ∈ t, isTokenChar c = true

/-- A request target. -/
def IsTarget (t : List UInt8) : Prop := t ≠ [] ∧ ∀ c ∈ t, isVisible c = true

/-- The value of a field. -/
def IsText (t : List UInt8) : Prop := ∀ c ∈ t, isTextChar c = true

instance (t : List UInt8) : Decidable (IsToken t) := inferInstanceAs (Decidable (_ ∧ _))

instance (t : List UInt8) : Decidable (IsTarget t) := inferInstanceAs (Decidable (_ ∧ _))

instance (t : List UInt8) : Decidable (IsText t) := inferInstanceAs (Decidable (∀ c ∈ t, _))

/-- Two names are the same. -/
def Same (n m : List UInt8) : Prop := n.map lower = m.map lower

instance (n m : List UInt8) : Decidable (Same n m) := inferInstanceAs (Decidable (_ = _))

/-- A value without the blanks around it. -/
def trim (v : List UInt8) : List UInt8 := (v.dropWhile isBlank).rdropWhile isBlank

/-- A name is the same as itself. -/
@[refl]
lemma Same.refl (n : List UInt8) : Same n n := rfl

/-- Sameness of names goes both ways. -/
lemma Same.symm {n m : List UInt8} (h : Same n m) : Same m n := Eq.symm h

/-- Sameness of names is passed on. -/
lemma Same.trans {n m k : List UInt8} (h : Same n m) (h' : Same m k) : Same n k := Eq.trans h h'

/-- Lowering a letter leaves it a letter of a name, or none. -/
lemma isTokenChar_lower (c : UInt8) : isTokenChar (lower c) = isTokenChar c := by
  refine CString.forall_byte (P := fun c => isTokenChar (lower c) = isTokenChar c) ?_ c
  decide +kernel

/-- Whether a name is a token does not depend on its case. -/
lemma IsToken.of_same {n m : List UInt8} (hn : IsToken n) (h : Same n m) : IsToken m := by
  obtain ⟨hne, hn⟩ := hn
  constructor
  · rintro rfl
    exact hne (List.map_eq_nil_iff.1 h)
  · intro c hc
    have hmem : lower c ∈ n.map lower := by
      rw [h]
      exact List.mem_map_of_mem hc
    obtain ⟨d, hd, hdc⟩ := List.mem_map.1 hmem
    rw [← isTokenChar_lower, ← hdc, isTokenChar_lower]
    exact hn d hd

/-- A word of one kind of characters has no other ones. -/
lemma not_mem_of_all {kind : UInt8 → Bool} {t : List UInt8} (ht : ∀ c ∈ t, kind c = true)
    {c : UInt8} (hc : kind c = false) : c ∉ t := by
  intro hmem
  rw [ht c hmem] at hc
  cases hc

/-- What is left of a text was there. -/
lemma mem_of_mem_trim {v : List UInt8} {c : UInt8} (h : c ∈ trim v) : c ∈ v :=
  (List.dropWhile_suffix isBlank).subset ((List.rdropWhile_prefix isBlank _).subset h)

/-- A text without its outer blanks is a text. -/
lemma IsText.trim {v : List UInt8} (h : IsText v) : IsText (trim v) :=
  fun c hc => h c (mem_of_mem_trim hc)

/-- Nothing is left of nothing. -/
@[simp]
lemma trim_nil : trim [] = [] := rfl

/-- A blank before a value is dropped. -/
lemma trim_cons_blank {c : UInt8} (hc : isBlank c = true) (v : List UInt8) :
    trim (c :: v) = trim v := by
  simp [trim, hc]

/-- There are no blanks around what is left. -/
@[simp]
lemma trim_trim (v : List UInt8) : trim (trim v) = trim v := by
  have hhead : (trim v).dropWhile isBlank = trim v := by
    rw [List.dropWhile_eq_self_iff]
    intro hpos hblank
    obtain ⟨r, hr⟩ : trim v <+: v.dropWhile isBlank := List.rdropWhile_prefix isBlank _
    -- the first byte is the one at which the blanks in front end
    have hpos' : 0 < (v.dropWhile isBlank).length := by
      rw [← hr, List.length_append]
      omega
    refine List.dropWhile_get_zero_not isBlank v hpos' ?_
    simpa [← hr, List.getElem_append_left hpos] using hblank
  calc trim (trim v) = (trim v).rdropWhile isBlank := by rw [trim, hhead]
    _ = trim v := List.rdropWhile_idempotent isBlank _

/-- Without blanks there is nothing to drop. -/
lemma trim_eq_self {v : List UInt8} (h : ∀ c ∈ v, isBlank c = false) : trim v = v := by
  have hhead : v.dropWhile isBlank = v := by
    rw [List.dropWhile_eq_self_iff]
    intro hpos
    simpa using h _ (List.get_mem v ⟨0, hpos⟩)
  rw [trim, hhead, List.rdropWhile_eq_self_iff]
  intro hne
  simpa using h _ (List.getLast_mem hne)

/-! ## Numbers -/

/-- A number in decimal digits. -/
def decimal (n : ℕ) : List UInt8 :=
  if n = 0 then [48] else (Nat.digits 10 n).reverse.map fun d => 48 + UInt8.ofNat d

/-- A decimal digit. -/
def isDigit (c : UInt8) : Bool := 48 ≤ c && c ≤ 57

/-- The number that some digits write. -/
def number (t : List UInt8) : Option ℕ :=
  if t ≠ [] ∧ t.all isDigit then some (t.foldl (fun n c => 10 * n + (c.toNat - 48)) 0) else none

/-- The number of the letter of a digit. -/
lemma toNat_digit {d : ℕ} (hd : d < 10) : (48 + UInt8.ofNat d).toNat = 48 + d := by
  have hsize : d < UInt8.size := by
    rw [UInt8.size]
    omega
  rw [UInt8.toNat_add, UInt8.toNat_ofNat_of_lt' hsize]
  simp
  omega

/-- The letter of a digit is a digit. -/
lemma isDigit_digit {d : ℕ} (hd : d < 10) : isDigit (48 + UInt8.ofNat d) = true := by
  simp [isDigit, UInt8.le_iff_toNat_le, toNat_digit hd]
  omega

/-- Every byte of a written number is a digit. -/
lemma isDigit_of_mem_decimal {n : ℕ} {c : UInt8} (h : c ∈ decimal n) : isDigit c = true := by
  rw [decimal] at h
  split at h
  · rw [List.mem_singleton.1 h]
    rfl
  · obtain ⟨d, hd, rfl⟩ := List.mem_map.1 h
    exact isDigit_digit (Nat.digits_lt_base (by omega) (List.mem_reverse.1 hd))

/-- Every number is written with some digit. -/
lemma decimal_ne_nil (n : ℕ) : decimal n ≠ [] := by
  rw [decimal]
  split
  · exact List.cons_ne_nil _ _
  · rename_i hn
    rw [Ne, List.map_eq_nil_iff, List.reverse_eq_nil_iff]
    exact Nat.digits_ne_nil_iff_ne_zero.2 hn

/-- Digits, the last one first, are read from the end. -/
lemma foldl_digits (ds : List ℕ) (h : ∀ d ∈ ds, d < 10) :
    (ds.reverse.map fun d => 48 + UInt8.ofNat d).foldl
        (fun n c => 10 * n + (c.toNat - 48)) 0 = Nat.ofDigits 10 ds := by
  induction ds with
  | nil => rfl
  | cons d ds ih =>
    obtain ⟨hd, hds⟩ := List.forall_mem_cons.1 h
    simp only [List.reverse_cons, List.map_append, List.foldl_append, ih hds, List.map_cons,
      List.map_nil, List.foldl_cons, List.foldl_nil, toNat_digit hd, Nat.ofDigits_cons]
    simp
    omega

/-- A number is read back. -/
lemma number_decimal (n : ℕ) : number (decimal n) = some n := by
  have hall : (decimal n).all isDigit = true := by
    rw [List.all_eq_true]
    exact fun c hc => isDigit_of_mem_decimal hc
  rw [number, if_pos ⟨decimal_ne_nil n, hall⟩, decimal]
  split
  · rename_i hn
    simp [hn]
  · rw [foldl_digits _ fun d hd => Nat.digits_lt_base (by omega) hd, Nat.ofDigits_digits]

/-- The digits of a number are a text. -/
lemma isText_decimal (n : ℕ) : IsText (decimal n) := by
  have hdigit : ∀ c : UInt8, isDigit c = true → isTextChar c = true :=
    CString.forall_byte (by decide +kernel)
  exact fun c hc => hdigit c (isDigit_of_mem_decimal hc)

/-- Around the digits of a number there are no blanks. -/
lemma trim_decimal (n : ℕ) : trim (decimal n) = decimal n := by
  have hdigit : ∀ c : UInt8, isDigit c = true → isBlank c = false :=
    CString.forall_byte (by decide +kernel)
  exact trim_eq_self fun c hc => hdigit c (isDigit_of_mem_decimal hc)

/-! ## Fields -/

/-- A name and a value. -/
abbrev Field := List UInt8 × List UInt8

/-- The value of the first field of a name. -/
def lookup (fields : List Field) (n : List UInt8) : Option (List UInt8) :=
  (fields.find? fun f => Same f.1 n).map (·.2)

/-- The values of all fields of a name. -/
def valuesOf (fields : List Field) (n : List UInt8) : List (List UInt8) :=
  (fields.filter fun f => Same f.1 n).map (·.2)

/-- No name is twice. -/
def Distinct (fields : List Field) : Prop := fields.Pairwise fun f g => ¬ Same f.1 g.1

/-- A container of fields, each name at most once, with no blanks around a value. -/
structure Fields where
  list : List Field
  distinct : Distinct list
  trimmed : ∀ f ∈ list, trim f.2 = f.2

/-- No fields. -/
def Fields.empty : Fields := ⟨[], .nil, List.forall_mem_nil _⟩

/-- A field is put in the place of all of its name, at the end.

The fields that are left were distinct before, and none of them has the name that is put behind
them. -/
def Fields.set (fs : Fields) (n v : List UInt8) : Fields where
  list := fs.list.filter (fun f => ¬ Same f.1 n) ++ [(n, trim v)]
  distinct := by
    rw [Distinct, List.pairwise_append]
    refine ⟨fs.distinct.filter _, List.pairwise_singleton _ _, ?_⟩
    intro f hf g hg
    rw [List.mem_singleton.1 hg]
    simpa using (List.mem_filter.1 hf).2
  trimmed := by
    intro f hf
    rcases List.mem_append.1 hf with hf | hf
    · exact fs.trimmed f (List.mem_filter.1 hf).1
    · rw [List.mem_singleton.1 hf]
      exact trim_trim v

/-- A value that is found is that of a field of this name. -/
lemma exists_of_lookup {fields : List Field} {n v : List UInt8} (h : lookup fields n = some v) :
    ∃ f ∈ fields, Same f.1 n ∧ f.2 = v := by
  obtain ⟨f, hf, rfl⟩ := Option.map_eq_some_iff.1 h
  exact ⟨f, List.mem_of_find?_eq_some hf, by simpa using List.find?_some hf, rfl⟩

/-- The value of a name does not depend on how the name is written. -/
lemma lookup_congr {n m : List UInt8} (h : Same n m) (fields : List Field) :
    lookup fields n = lookup fields m := by
  have hsame : ∀ k, Same k n ↔ Same k m := fun k => ⟨(·.trans h), (·.trans h.symm)⟩
  simp only [lookup, hsame]

/-- Each field is found by its name if no name is twice. -/
lemma lookup_of_mem {fields : List Field} (hdistinct : Distinct fields) {f : Field}
    (hf : f ∈ fields) : lookup fields f.1 = some f.2 := by
  induction fields with
  | nil => cases hf
  | cons g fields ih =>
    obtain ⟨hg, hfields⟩ := List.pairwise_cons.1 hdistinct
    rcases List.mem_cons.1 hf with rfl | hf
    · simp [lookup, Same.refl]
    · have hne : ¬ Same g.1 f.1 := hg f hf
      simpa [lookup, hne] using ih hfields hf

/-- A field that was set. -/
lemma Fields.lookup_set_self (fs : Fields) {n m : List UInt8} (v : List UInt8) (h : Same n m) :
    lookup (fs.set n v).list m = some (trim v) := by
  rw [lookup_congr h.symm]
  exact lookup_of_mem (f := (n, trim v)) (fs.set n v).distinct
    (List.mem_append_right _ (List.mem_singleton_self _))

/-- Another field than the one that was set. -/
lemma Fields.lookup_set_of_not (fs : Fields) {n m : List UInt8} (v : List UInt8)
    (h : ¬ Same n m) : lookup (fs.set n v).list m = lookup fs.list m := by
  have hkept : (fun f : Field => !decide (Same f.1 n) && decide (Same f.1 m)) =
      fun f => decide (Same f.1 m) := by
    funext f
    by_cases hf : Same f.1 m
    · have hne : ¬ Same f.1 n := fun hfn => h (hfn.symm.trans hf)
      simp [hf, hne]
    · simp [hf]
  simp [lookup, Fields.set, List.find?_append, List.find?_filter, hkept, h]

/-- The fields after one was set. -/
lemma Fields.lookup_set (fs : Fields) (n v m : List UInt8) :
    lookup (fs.set n v).list m = if Same n m then some (trim v) else lookup fs.list m := by
  split
  · exact fs.lookup_set_self v ‹_›
  · exact fs.lookup_set_of_not v ‹_›

/-- All values of a name are the one that is found, if no name is twice. -/
lemma valuesOf_eq {fields : List Field} (hdistinct : Distinct fields) (n : List UInt8) :
    valuesOf fields n = (lookup fields n).toList := by
  induction fields with
  | nil => rfl
  | cons g fields ih =>
    obtain ⟨hg, hfields⟩ := List.pairwise_cons.1 hdistinct
    by_cases hgn : Same g.1 n
    · -- no later field has this name
      have hrest : fields.filter (fun f => decide (Same f.1 n)) = [] := by
        rw [List.filter_eq_nil_iff]
        intro f hf hfn
        exact hg f hf (hgn.trans (of_decide_eq_true hfn).symm)
      simp [valuesOf, lookup, hgn, hrest]
    · simpa [valuesOf, lookup, hgn] using ih hfields

/-! ## Messages -/

/-- The end of a line. -/
def crlf : List UInt8 := [13, 10]

/-- The text `HTTP/1.1`. -/
def version : List UInt8 := [72, 84, 84, 80, 47, 49, 46, 49]

/-- The name `Content-Length`. -/
def contentLength : List UInt8 := "Content-Length".toUTF8.data.toList

/-- The name `Transfer-Encoding`. -/
def transferEncoding : List UInt8 := "Transfer-Encoding".toUTF8.data.toList

/-- What a head must be. -/
structure IsHead (method target : List UInt8) (fields : List Field) : Prop where
  method : IsToken method
  target : IsTarget target
  names : ∀ f ∈ fields, IsToken f.1
  values : ∀ f ∈ fields, IsText f.2

instance (method target : List UInt8) (fields : List Field) :
    Decidable (IsHead method target fields) :=
  decidable_of_iff (IsToken method ∧ IsTarget target ∧ (∀ f ∈ fields, IsToken f.1) ∧
    ∀ f ∈ fields, IsText f.2) ⟨fun ⟨a, b, c, d⟩ => ⟨a, b, c, d⟩, fun ⟨a, b, c, d⟩ => ⟨a, b, c, d⟩⟩

/-- A request with a well-formed head. -/
structure Message where
  method : List UInt8
  target : List UInt8
  fields : List Field
  body : List UInt8
  isHead : IsHead method target fields

/-- The first line of a request. -/
def requestLine (method target : List UInt8) : List UInt8 :=
  method ++ 32 :: (target ++ 32 :: version)

/-- The line of a field. -/
def fieldLine (f : Field) : List UInt8 := f.1 ++ 58 :: 32 :: f.2

/-- Some lines, and an empty one. -/
def headOf (lines : List (List UInt8)) : List UInt8 := lines.flatMap (· ++ crlf) ++ crlf

/-- How the head of a request is written. -/
def encodeHead (method target : List UInt8) (fields : List Field) : List UInt8 :=
  headOf (requestLine method target :: fields.map fieldLine)

/-- The parts before and after a byte. -/
def cut (c : UInt8) (line : List UInt8) : Option (List UInt8 × List UInt8) :=
  match line.dropWhile (· != c) with
  | [] => none
  | _ :: rest => some (line.takeWhile (· != c), rest)

/-- The lines up to the first empty one, the first of which has begun, and what follows. -/
def headLines (line : List UInt8) : List UInt8 → Option (List (List UInt8) × List UInt8)
  | 13 :: 10 :: rest =>
    if line = [] then some ([], rest)
    else (headLines [] rest).map fun p => (line :: p.1, p.2)
  | c :: rest => headLines (line ++ [c]) rest
  | [] => none

/-- Method and target. -/
def parseRequestLine (line : List UInt8) : Option (List UInt8 × List UInt8) := do
  let (method, rest) ← cut 32 line
  let (target, v) ← cut 32 rest
  if v = version then some (method, target) else none

/-- Name and value. -/
def parseField (line : List UInt8) : Option Field := (cut 58 line).map fun p => (p.1, trim p.2)

/-- How long the body is that follows. -/
def bodyLength (fields : List Field) : Option ℕ :=
  if valuesOf fields transferEncoding ≠ [] then none
  else
    match valuesOf fields contentLength with
    | [] => some 0
    | [v] => number v
    | _ => none

/-- The first line and the fields. -/
def parseHead : List (List UInt8) → Option ((List UInt8 × List UInt8) × List Field)
  | [] => none
  | line :: lines => do
    let start ← parseRequestLine line
    let fields ← lines.mapM parseField
    return (start, fields)

/-- The request that some bytes begin with, and what follows it. -/
def parseRequest (bs : List UInt8) : Option (Message × List UInt8) := do
  let (lines, rest) ← headLines [] bs
  let ((method, target), fields) ← parseHead lines
  let n ← bodyLength fields
  if h : IsHead method target fields then
    if n ≤ rest.length then some (⟨method, target, fields, rest.take n, h⟩, rest.drop n) else none
  else none

/-- The requests that some bytes consist of. -/
inductive Requests : List UInt8 → List Message → Prop
  | nil : Requests [] []
  | cons {bs rest : List UInt8} {m : Message} {ms : List Message}
      (hparse : parseRequest bs = some (m, rest)) (hrest : Requests rest ms) :
      Requests bs (m :: ms)

/-- The first request and the others. -/
lemma requests_cons_iff {bs : List UInt8} {m : Message} {ms : List Message} :
    Requests bs (m :: ms) ↔ ∃ rest, parseRequest bs = some (m, rest) ∧ Requests rest ms := by
  constructor
  · intro h
    cases h with
    | cons hparse hrest => exact ⟨_, hparse, hrest⟩
  · rintro ⟨rest, hparse, hrest⟩
    exact .cons hparse hrest

/-! ### A head is read back -/

/-- The first byte of its kind is where a line is cut. -/
lemma cut_append {c : UInt8} {t : List UInt8} (ht : c ∉ t) (rest : List UInt8) :
    cut c (t ++ c :: rest) = some (t, rest) := by
  have hall : ∀ d ∈ t, (d != c) = true := by
    intro d hd
    have hne : d ≠ c := fun h => ht (h ▸ hd)
    simpa using hne
  rw [cut, List.dropWhile_append_of_pos hall, List.takeWhile_append_of_pos hall]
  simp

/-- A first line is read back. -/
lemma parseRequestLine_requestLine {method target : List UInt8} (hmethod : IsToken method)
    (htarget : IsTarget target) :
    parseRequestLine (requestLine method target) = some (method, target) := by
  unfold parseRequestLine requestLine
  have hrest : cut 32 (target ++ 32 :: version) = some (target, version) :=
    cut_append (not_mem_of_all htarget.2 rfl) version
  rw [cut_append (not_mem_of_all hmethod.2 rfl)]
  simp [hrest]

/-- The line of a field is read back. -/
lemma parseField_fieldLine {f : Field} (hname : IsToken f.1) (htrim : trim f.2 = f.2) :
    parseField (fieldLine f) = some f := by
  rw [parseField, fieldLine, cut_append (not_mem_of_all hname.2 rfl), Option.map_some,
    trim_cons_blank rfl, htrim]

/-- The lines of some fields are read back. -/
lemma mapM_parseField {fields : List Field} (hnames : ∀ f ∈ fields, IsToken f.1)
    (htrimmed : ∀ f ∈ fields, trim f.2 = f.2) :
    (fields.map fieldLine).mapM parseField = some fields := by
  induction fields with
  | nil => rfl
  | cons f fields ih =>
    obtain ⟨hname, hnames⟩ := List.forall_mem_cons.1 hnames
    obtain ⟨htrim, htrimmed⟩ := List.forall_mem_cons.1 htrimmed
    rw [List.map_cons, List.mapM_cons, parseField_fieldLine hname htrim, ih hnames htrimmed]
    rfl

/-- A line ends at the first end of a line. -/
lemma headLines_line {line rest : List UInt8} (hline : 13 ∉ line) :
    ∀ begun : List UInt8, begun ++ line ≠ [] →
      headLines begun (line ++ 13 :: 10 :: rest) =
        (headLines [] rest).map fun p => ((begun ++ line) :: p.1, p.2) := by
  induction line with
  | nil =>
    intro begun hne
    rw [List.append_nil] at hne ⊢
    rw [List.nil_append, headLines, if_neg hne]
  | cons c line ih =>
    intro begun _
    obtain ⟨hc, hline⟩ := not_or.1 (mt List.mem_cons.2 hline)
    rw [List.cons_append, headLines, ih hline (begun ++ [c]) (by simp), List.append_assoc]
    · rfl
    · rintro _ rfl
      exact absurd rfl hc

/-- The lines of a head are found again. -/
lemma headLines_headOf {lines : List (List UInt8)} (hlines : ∀ l ∈ lines, l ≠ [] ∧ 13 ∉ l)
    (rest : List UInt8) : headLines [] (headOf lines ++ rest) = some (lines, rest) := by
  induction lines with
  | nil => rfl
  | cons line lines ih =>
    obtain ⟨⟨hne, hline⟩, hlines⟩ := List.forall_mem_cons.1 hlines
    have hsplit : headOf (line :: lines) ++ rest = line ++ 13 :: 10 :: (headOf lines ++ rest) := by
      simp [headOf, crlf]
    rw [hsplit, headLines_line hline [] hne, ih hlines]
    rfl

/-- No line of a head is empty, and none ends before its end. -/
lemma lines_of_isHead {method target : List UInt8} {fields : List Field}
    (h : IsHead method target fields) :
    ∀ l ∈ requestLine method target :: fields.map fieldLine, l ≠ [] ∧ 13 ∉ l := by
  rw [List.forall_mem_cons]
  constructor
  · constructor
    · simp [requestLine]
    · have hmethod : 13 ∉ method := not_mem_of_all h.method.2 rfl
      have htarget : 13 ∉ target := not_mem_of_all h.target.2 rfl
      simp [requestLine, version, hmethod, htarget]
  · intro l hl
    obtain ⟨f, hf, rfl⟩ := List.mem_map.1 hl
    constructor
    · simp [fieldLine]
    · have hname : 13 ∉ f.1 := not_mem_of_all (h.names f hf).2 rfl
      have hvalue : 13 ∉ f.2 := not_mem_of_all (h.values f hf) rfl
      simp [fieldLine, hname, hvalue]

/-- A well-formed head is read back, and the body is as long as the head says. -/
theorem parseRequest_encodeHead {method target : List UInt8} {fields : List Field} {n : ℕ}
    (h : IsHead method target fields) (htrimmed : ∀ f ∈ fields, trim f.2 = f.2)
    (hn : bodyLength fields = some n) {rest : List UInt8} (hrest : n ≤ rest.length) :
    parseRequest (encodeHead method target fields ++ rest) =
      some (⟨method, target, fields, rest.take n, h⟩, rest.drop n) := by
  have hlines : headLines [] (encodeHead method target fields ++ rest) =
      some (requestLine method target :: fields.map fieldLine, rest) :=
    headLines_headOf (lines_of_isHead h) rest
  have hhead : parseHead (requestLine method target :: fields.map fieldLine) =
      some ((method, target), fields) := by
    simp [parseHead, parseRequestLine_requestLine h.method h.target,
      mapM_parseField h.names htrimmed]
  simp [parseRequest, hlines, hhead, hn, h, hrest]

/-- The length of a body that a container says. -/
lemma Fields.bodyLength_eq (fs : Fields) {n : ℕ} (hcoding : lookup fs.list transferEncoding = none)
    (hn : (lookup fs.list contentLength).elim (some 0) number = some n) :
    bodyLength fs.list = some n := by
  rw [bodyLength, valuesOf_eq fs.distinct, valuesOf_eq fs.distinct, hcoding]
  cases hlength : lookup fs.list contentLength with
  | none => simpa [hlength] using hn
  | some v => simpa [hlength] using hn

end Http
