import HkuUtils.IniParser.Runs
import HkuUtils.Strings.Split

set_option relaxedAutoImplicit false
set_option autoImplicit false

/-!
# Documents and what is read from them

A document is a list of blocks, each a section with assignments under it. Written line by line, with
blanks around the parts of a line, comments behind it, and empty lines and comment lines anywhere
between, it is read to the map that the document describes: its sections are those of the blocks,
and an option has the value that was assigned last. Files without errors may be joined.

## Main definitions

* `IniParser.Name`, `Key` — the texts that can stand on a line.
* `IniParser.Shows` — how an item may be written on a line.
* `IniParser.Block`, `Renders`, `Written` — how a document may be written as a file.
* `IniParser.Describes` — the map that a document describes.

## Main results

* `IniParser.classify_of_shows` — an item is read from every way of writing it.
* `IniParser.read_renders` — **round trip**.
* `IniParser.read_append` — a joined file is read as its parts one after another.
-/

open Search (text)
open Strings (Spaces Solid trim)

namespace IniParser

/-- A text that can stand as the name of a section or as a value: not empty, without `;`, carriage
return and line feed, and without a blank at its ends. -/
structure Name (s : List UInt8) : Prop where
  ne_nil : s ≠ []
  comment : 59 ∉ s
  cr : 13 ∉ s
  lf : 10 ∉ s
  head_ne : s.head? ≠ some 32
  last_ne : s.getLast? ≠ some 32

/-- A text that can stand as the key of an option. -/
structure Key (s : List UInt8) : Prop extends Name s where
  equals : 61 ∉ s
  bracket : s.head? ≠ some 91

/-- What may stand behind the content of a line: blanks, and a comment. -/
inductive Tail : List UInt8 → Prop where
  | spaces {a : List UInt8} (ha : Spaces a) : Tail a
  | comment {a t : List UInt8} (ha : Spaces a) (ht : 10 ∉ t) : Tail (a ++ 59 :: t)

/-- How an item may be written on a line. -/
inductive Shows : Item → List UInt8 → Prop where
  | blank {t : List UInt8} (ht : Tail t) : Shows .blank t
  | header {name a b c t : List UInt8} (hname : Name name) (ha : Spaces a) (hb : Spaces b)
      (hc : Spaces c) (ht : Tail t) :
      Shows (.header name) (a ++ (91 :: (b ++ name ++ c) ++ [93]) ++ t)
  | option {key value a b c t : List UInt8} (hkey : Key key) (hvalue : Name value) (ha : Spaces a)
      (hb : Spaces b) (hc : Spaces c) (ht : Tail t) :
      Shows (.option key value) (a ++ (key ++ b ++ 61 :: (c ++ value)) ++ t)

/-- A name begins and ends with no blank. -/
lemma Name.solid {s : List UInt8} (h : Name s) : Solid s where
  ne_nil := h.ne_nil
  head_ne := h.head_ne
  blank_ne := h.last_ne
  cr_ne := fun hlast => h.cr (List.mem_of_getLast? hlast)
  lf_ne := fun hlast => h.lf (List.mem_of_getLast? hlast)

/-! ## Single lines -/

section Lines

variable {s a b t : List UInt8} {c : UInt8}

/-- The content of a line without a comment is what `trim` leaves. -/
lemma content_of_trim (h : trim t = s) (hs : s ≠ []) (hcomment : 59 ∉ s) : content t = some s := by
  have hhead : s.head? ≠ some 59 := fun h => hcomment (List.mem_of_mem_head? h)
  rw [content, h]
  simp only [hs, hhead, or_self, if_false, List.idxOf?_eq_none_iff.mpr hcomment]

/-- **The content of a line** is what stands between the blanks, in front of the comment.

**Proof sketch.** Without a comment the blanks are trimmed. With one, the text up to the semicolon
begins and ends with no blank, so trimming the line leaves it and something behind it; the cut at
the first semicolon and a second trimming leave the content. -/
lemma content_append (ha : Spaces a) (hs : Solid s) (hcomment : 59 ∉ s) (ht : Tail t) :
    content (a ++ s ++ t) = some s := by
  cases ht with
  | spaces ht => exact content_of_trim (Strings.trim_append ha hs ht) hs.ne_nil hcomment
  | @comment b t hb ht =>
    have hmarked : Solid (s ++ b ++ [59]) :=
      { ne_nil := by simp
        head_ne := by
          rw [List.append_assoc, Strings.head?_append_of_ne_nil hs.ne_nil]
          exact hs.head_ne
        blank_ne := by simp
        cr_ne := by simp
        lf_ne := by simp }
    obtain ⟨t', htrim⟩ := Strings.exists_trim_append ha hmarked t
    have hsplit : a ++ s ++ (b ++ 59 :: t) = a ++ (s ++ b ++ [59]) ++ t := by simp
    have hfront : (s ++ b ++ 59 :: t').head? ≠ some 59 := by
      rw [List.append_assoc, Strings.head?_append_of_ne_nil hs.ne_nil]
      exact fun h => hcomment (List.mem_of_mem_head? h)
    have hnone : 59 ∉ s ++ b := by
      rw [List.mem_append, not_or]
      exact ⟨hcomment, hb.not_mem (by decide)⟩
    have hline : trim (a ++ s ++ (b ++ 59 :: t)) = s ++ b ++ 59 :: t' := by
      rw [hsplit, htrim]
      simp
    have hcut : trim (s ++ b) = s := Strings.trim_append Strings.spaces_nil hs hb
    rw [content, hline, Strings.idxOf?_append hnone]
    simp only [hfront, List.take_left, hcut]
    simp

/-- Nothing is read from a line of blanks and a comment. -/
lemma content_tail (ht : Tail t) : content t = none := by
  cases ht with
  | spaces ha => simp [content, Strings.trim_spaces ha]
  | @comment a t ha ht =>
    have hmark : Solid [(59 : UInt8)] := by constructor <;> decide
    obtain ⟨t', htrim⟩ := Strings.exists_trim_append ha hmark t
    have hsplit : a ++ 59 :: t = a ++ [59] ++ t := by simp
    rw [content, hsplit, htrim]
    simp

/-- A line with some content is what its content is. -/
lemma classify_of_content (h : content t = some s) (hs : s ≠ []) :
    classify t = if s.head? = some 91 then classifySection s else classifyOption s := by
  rw [classify, h]
  cases s with
  | nil => exact absurd rfl hs
  | cons d s => simp

/-- A header in brackets. -/
lemma solid_brackets (s : List UInt8) : Solid (91 :: s ++ [93]) := by
  have hlast : (91 :: s ++ [93]).getLast? = some 93 := List.getLast?_concat
  exact
    { ne_nil := by simp
      head_ne := by simp
      blank_ne := by rw [hlast]; decide
      cr_ne := by rw [hlast]; decide
      lf_ne := by rw [hlast]; decide }

/-- Within the brackets. -/
lemma take_drop_brackets (s : List UInt8) :
    ((91 :: s ++ [93]).drop 1).take ((91 :: s ++ [93]).length - 2) = s := by
  have hlen : (91 :: s ++ [93]).length - 2 = s.length := by simp
  rw [hlen, List.cons_append, List.drop_one, List.tail_cons, List.take_left]

/-- What is read from a header. -/
lemma classifySection_name {name : List UInt8} (ha : Spaces a) (hname : Solid name)
    (hb : Spaces b) : classifySection (91 :: (a ++ name ++ b) ++ [93]) = .header name := by
  have htrim : trim (a ++ name ++ b) = name := Strings.trim_append ha hname hb
  have hlast : (91 :: (a ++ name ++ b) ++ [93]).getLast? = some 93 := List.getLast?_concat
  rw [classifySection, hlast, take_drop_brackets, htrim]
  simp [hname.ne_nil]

/-- What is read from a line with an equals sign. -/
lemma classifyOption_append_cons (hs : 61 ∉ s) (t : List UInt8) :
    classifyOption (s ++ 61 :: t) =
      if trim s = [] ∨ trim t = [] then .malformed (s ++ 61 :: t)
      else .option (trim s) (trim t) := by
  have hdrop : (s ++ 61 :: t).drop (s.length + 1) = t := by
    rw [← List.drop_drop, List.drop_left, List.drop_one, List.tail_cons]
  rw [classifyOption, Strings.idxOf?_append hs]
  simp only [List.take_left, hdrop]
  by_cases ht : t = []
  · simp [ht]
  · have hpos : s.length ≠ (s ++ 61 :: t).length - 1 := by
      have hlen := List.length_pos_of_ne_nil ht
      simp only [List.length_append, List.length_cons]
      omega
    rw [if_neg hpos]
    by_cases hk : trim s = [] <;> by_cases hv : trim t = [] <;> simp [hk, hv]

/-- What is read from an assignment. -/
lemma classifyOption_assignment {key value : List UInt8} (hkey : Key key) (hvalue : Solid value)
    (ha : Spaces a) (hb : Spaces b) :
    classifyOption (key ++ a ++ 61 :: (b ++ value)) = .option key value := by
  have hnone : 61 ∉ key ++ a := by
    rw [List.mem_append, not_or]
    exact ⟨hkey.equals, ha.not_mem (by decide)⟩
  have hk : trim (key ++ a) = key := Strings.trim_append Strings.spaces_nil hkey.solid ha
  have hv : trim (b ++ value) = value := by
    simpa using Strings.trim_append hb hvalue Strings.spaces_nil
  rw [classifyOption_append_cons hnone, hk, hv, if_neg (by simp [hkey.ne_nil, hvalue.ne_nil])]

/-- **An item is read from every way of writing it.**

**Proof sketch.** One case for each way of writing. In each, the content of the line is what stands
between the outer blanks and the comment, and the constructor for that content takes it apart. -/
theorem classify_of_shows {i : Item} (h : Shows i t) : classify t = i := by
  cases h with
  | blank ht => rw [classify, content_tail ht]
  | @header name a b c t hname ha hb hc ht =>
    have hsolid := solid_brackets (b ++ name ++ c)
    have hcomment : 59 ∉ 91 :: (b ++ name ++ c) ++ [93] := by
      simp [hname.comment, hb.not_mem, hc.not_mem]
    rw [classify_of_content (content_append ha hsolid hcomment ht) hsolid.ne_nil]
    exact classifySection_name hb hname.solid hc
  | @option key value a b c t hkey hvalue ha hb hc ht =>
    have hlast : ∀ d, value.getLast? ≠ some d →
        (key ++ b ++ 61 :: (c ++ value)).getLast? ≠ some d := by
      intro d hd
      have hsplit : key ++ b ++ 61 :: (c ++ value) = key ++ b ++ 61 :: c ++ value := by simp
      rwa [hsplit, Strings.getLast?_append_of_ne_nil _ hvalue.ne_nil]
    have hhead : (key ++ b ++ 61 :: (c ++ value)).head? = key.head? := by
      rw [List.append_assoc, Strings.head?_append_of_ne_nil hkey.ne_nil]
    have hsolid : Solid (key ++ b ++ 61 :: (c ++ value)) :=
      { ne_nil := by simp
        head_ne := by rw [hhead]; exact hkey.head_ne
        blank_ne := hlast 32 hvalue.last_ne
        cr_ne := hlast 13 hvalue.solid.cr_ne
        lf_ne := hlast 10 hvalue.solid.lf_ne }
    have hcomment : 59 ∉ key ++ b ++ 61 :: (c ++ value) := by
      simp [hkey.comment, hvalue.comment, hb.not_mem, hc.not_mem]
    rw [classify_of_content (content_append ha hsolid hcomment ht) hsolid.ne_nil, hhead,
      if_neg hkey.bracket]
    exact classifyOption_assignment hkey hvalue.solid hb hc

/-- A line has no line feed. -/
lemma lf_not_mem_of_shows {i : Item} (h : Shows i t) : 10 ∉ t := by
  have htail : ∀ {u}, Tail u → 10 ∉ u := by
    intro u hu
    cases hu with
    | spaces ha => exact ha.not_mem (by decide)
    | comment ha ht => simp [ha.not_mem, ht]
  cases h with
  | blank ht => exact htail ht
  | header hname ha hb hc ht => simp [ha.not_mem, hb.not_mem, hc.not_mem, hname.lf, htail ht]
  | option hkey hvalue ha hb hc ht =>
    simp [ha.not_mem, hb.not_mem, hc.not_mem, hkey.lf, hvalue.lf, htail ht]

end Lines

/-! ## Files -/

/-- A block of a document: the name of a section, and the assignments under it. -/
abbrev Block := List UInt8 × List (List UInt8 × List UInt8)

/-- The headers and the assignments of a document, in order. -/
def entries (bs : List Block) : List Item :=
  bs.flatMap fun b => .header b.1 :: b.2.map fun q => .option q.1 q.2

/-- The lines are a way of writing the document: each shows an entry of it or is empty but for a
comment. -/
def Renders (bs : List Block) (ls : List (List UInt8)) : Prop :=
  ∃ is, List.Forall₂ Shows is ls ∧ is.filter (· ≠ .blank) = entries bs

/-- The file consists of the lines, with or without a line feed behind the last one. -/
def Written (ls : List (List UInt8)) (bytes : List UInt8) : Prop :=
  bytes = ls.flatMap (· ++ [10]) ∨
    ∃ front last, ls = front ++ [last] ∧ bytes = front.flatMap (· ++ [10]) ++ last

/-- The value that a document assigns last to the option `k` of the section `s`. -/
def lastValue (bs : List Block) (s k : List UInt8) : Option (List UInt8) :=
  ((((bs.filter (·.1 = s)).flatMap (·.2)).filter (·.1 = k)).getLast?).map Prod.snd

/-- The map that a document describes. -/
def Describes (bs : List Block) (m : Sections) : Prop :=
  (∀ s, s ∈ m ↔ ∃ b ∈ bs, b.1 = s) ∧ ∀ s k, m.value s k = lastValue bs s k

/-- A map of which every text can stand in a file. -/
def Writable (m : Sections) : Prop :=
  (∀ s ∈ m, Name s) ∧ ∀ s k v, m.value s k = some v → Key k ∧ Name v

/-- The plainest line that shows an item. -/
def plain : Item → List UInt8
  | .header name => 91 :: name ++ [93]
  | .option key value => key ++ 61 :: value
  | _ => []

/-- A line that ends is in front of the others. -/
lemma lines_append {l : List UInt8} (hl : 10 ∉ l) (s : List UInt8) :
    lines (l ++ 10 :: s) = l :: lines s := by
  induction l with
  | nil => rfl
  | cons c l ih =>
    rw [List.mem_cons, not_or] at hl
    rw [List.cons_append, lines, if_neg (Ne.symm hl.1), ih hl.2]

/-- A last line without a line feed is a line. -/
lemma lines_last {l : List UInt8} (hl : 10 ∉ l) (hne : l ≠ []) : lines l = [l] := by
  induction l with
  | nil => exact absurd rfl hne
  | cons c l ih =>
    rw [List.mem_cons, not_or] at hl
    rw [lines, if_neg (Ne.symm hl.1)]
    cases l with
    | nil => rfl
    | cons d l => rw [ih hl.2 (by simp)]

/-- Lines that end are in front of the others. -/
lemma lines_flatMap {ls : List (List UInt8)} (hls : ∀ l ∈ ls, 10 ∉ l) (s : List UInt8) :
    lines (ls.flatMap (· ++ [10]) ++ s) = ls ++ lines s := by
  induction ls with
  | nil => rfl
  | cons l ls ih =>
    rw [List.forall_mem_cons] at hls
    have hsplit :
        (l :: ls).flatMap (· ++ [10]) ++ s = l ++ 10 :: (ls.flatMap (· ++ [10]) ++ s) := by
      simp
    rw [hsplit, lines_append hls.1, ih hls.2, List.cons_append]

/-- The lines of a file are those that it was written from, up to an empty one at the end. -/
lemma lines_of_written {ls : List (List UInt8)} {bytes : List UInt8} (hls : ∀ l ∈ ls, 10 ∉ l)
    (h : Written ls bytes) : ls = lines bytes ∨ ls = lines bytes ++ [[]] := by
  rcases h with rfl | ⟨front, last, rfl, rfl⟩
  · refine .inl ?_
    simpa [lines] using (lines_flatMap hls []).symm
  · have hfront : ∀ l ∈ front, 10 ∉ l := fun l hl => hls l (by simp [hl])
    rw [lines_flatMap hfront]
    by_cases hlast : last = []
    · refine .inr ?_
      simp [hlast, lines]
    · refine .inl ?_
      rw [lines_last (hls last (by simp)) hlast]

/-- **The lines of a joined file**: those of the parts, with an empty line between if the first
part ends with a line feed.

**Proof sketch.** By induction on the first part. It makes a difference only at its end, where an
empty rest is no line of its own but is one in front of a line feed. -/
lemma lines_append_lf (a b : List UInt8) :
    lines (a ++ 10 :: b) = lines a ++ lines b ∨
      lines (a ++ 10 :: b) = lines a ++ [] :: lines b := by
  induction a with
  | nil => exact .inr rfl
  | cons c a ih =>
    rw [List.cons_append, lines, lines]
    by_cases hc : c = 10
    · simpa [hc] using ih
    · simp only [hc, if_false]
      cases ha : lines a with
      | nil =>
        have hnil : a = [] := by
          cases a with
          | nil => rfl
          | cons d a =>
            rw [lines] at ha
            split at ha
            · exact absurd ha (by simp)
            · split at ha <;> exact absurd ha (by simp)
        subst hnil
        exact .inl rfl
      | cons l ls =>
        rw [ha] at ih
        rcases ih with ih | ih
        · exact .inl (by rw [ih]; rfl)
        · exact .inr (by rw [ih]; rfl)

/-! ## Items -/

section Items

variable {sec sec' : List UInt8} {is js : List Item}

/-- Empty lines and comment lines store nothing. -/
lemma writesOf_filter (sec : List UInt8) (is : List Item) :
    writesOf sec (is.filter (· ≠ .blank)) = writesOf sec is := by
  induction is generalizing sec with
  | nil => rfl
  | cons i is ih =>
    by_cases hi : i = .blank
    · simp [hi, writesOf, stored, next, ← ih sec]
    · rw [List.filter_cons_of_pos (by simpa using hi), writesOf, writesOf]
      cases next sec i with
      | none => rfl
      | some sec' => simp only [ih sec']

/-- Empty lines and comment lines are not in error. -/
lemma faultless_filter : Faultless sec (is.filter (· ≠ .blank)) ↔ Faultless sec is := by
  induction is generalizing sec with
  | nil => rfl
  | cons i is ih =>
    by_cases hi : i = .blank
    · rw [faultless_cons, hi]
      have hsame := @ih sec
      simp [InError, noted, next, ← hsame]
    · rw [List.filter_cons_of_pos (by simpa using hi), faultless_cons, faultless_cons]
      simp only [ih]

/-- Assignments under a section. -/
lemma writesOf_assignments (hsec : sec ≠ []) (qs : List (List UInt8 × List UInt8))
    (is : List Item) :
    writesOf sec (qs.map (fun q => .option q.1 q.2) ++ is) =
      qs.map (fun q => .assign sec q.1 q.2) ++ writesOf sec is := by
  induction qs with
  | nil => rfl
  | cons q qs ih => simp [writesOf, stored, next, hsec, ih]

/-- In a section, options make no errors. -/
lemma faultless_assignments (hsec : sec ≠ []) {qs : List (List UInt8 × List UInt8)} :
    Faultless sec (qs.map (fun q => .option q.1 q.2) ++ is) ↔ Faultless sec is := by
  induction qs with
  | nil => rfl
  | cons q qs ih =>
    rw [List.map_cons, List.cons_append, faultless_cons]
    simp [InError, noted, next, hsec, ih]

/-- **A document is read without errors**, and what is stored are its writes. -/
lemma read_entries {bs : List Block} (hbs : ∀ b ∈ bs, b.1 ≠ []) (sec : List UInt8) :
    Faultless sec (entries bs) ∧ writesOf sec (entries bs) = NestedMap.blockWrites bs := by
  induction bs generalizing sec with
  | nil => exact ⟨⟨rfl, rfl⟩, rfl⟩
  | cons b bs ih =>
    rw [List.forall_mem_cons] at hbs
    obtain ⟨hfault, hwrites⟩ := ih hbs.2 b.1
    have hsplit : entries (b :: bs) =
        .header b.1 :: (b.2.map (fun q => Item.option q.1 q.2) ++ entries bs) := by
      simp [entries]
    rw [hsplit]
    constructor
    · rw [faultless_cons]
      simp [InError, noted, next, faultless_assignments hbs.1, hfault]
    · rw [writesOf]
      simp [stored, next, writesOf_assignments hbs.1, hwrites, NestedMap.blockWrites]

/-- The last assignment in a document, as the last of its writes.

**Proof sketch.** By induction on the blocks, and on the options of each: only those of the section
and key are kept. -/
lemma assigned_blockWrites (bs : List Block) (s k : List UInt8) :
    NestedMap.assigned (NestedMap.blockWrites bs) s k = lastValue bs s k := by
  have hblock : ∀ (a : List UInt8) (qs : List (List UInt8 × List UInt8)),
      (qs.map fun q => NestedMap.Write.assign a q.1 q.2).filterMap (NestedMap.Write.sets s k) =
        if a = s then (qs.filter (·.1 = k)).map Prod.snd else [] := by
    intro a qs
    induction qs with
    | nil => simp
    | cons q qs ih =>
      by_cases ha : a = s <;> by_cases hk : q.1 = k <;>
        simp_all [NestedMap.Write.sets]
  have hall : (NestedMap.blockWrites bs).filterMap (NestedMap.Write.sets s k) =
      ((((bs.filter (·.1 = s)).flatMap (·.2)).filter (·.1 = k))).map Prod.snd := by
    induction bs with
    | nil => rfl
    | cons b bs ih =>
      rw [NestedMap.blockWrites, List.flatMap_cons, ← NestedMap.blockWrites, List.cons_append,
        List.filterMap_cons_none rfl, List.filterMap_append, ih, hblock]
      by_cases hb : b.1 = s <;> simp [hb]
  rw [NestedMap.assigned, hall, lastValue, List.getLast?_map]

/-- The writes of a document leave the map that it describes.

**Proof sketch.** A map is known by its sections and by the value of each key. The sections are
those that are entered, and a value is the last one assigned. -/
lemma writes_blockWrites_iff (bs : List Block) (m : Sections) :
    NestedMap.writes (NestedMap.blockWrites bs) ∅ = m ↔ Describes bs m := by
  have hkey : ∀ s, (∃ w ∈ NestedMap.blockWrites bs, w.key = s) ↔ ∃ b ∈ bs, b.1 = s := by
    intro s
    simp only [NestedMap.blockWrites, List.mem_flatMap]
    constructor
    · rintro ⟨w, ⟨b, hb, hw⟩, hws⟩
      refine ⟨b, hb, ?_⟩
      rcases List.mem_cons.mp hw with rfl | hw
      · exact hws
      · obtain ⟨q, -, rfl⟩ := List.mem_map.mp hw
        exact hws
    · rintro ⟨b, hb, hbs⟩
      exact ⟨.enter b.1, ⟨b, hb, by simp⟩, hbs⟩
  have hempty : ∀ s, s ∉ (∅ : Sections) := fun s => Finmap.notMem_empty
  have hvalue : ∀ s k, (∅ : Sections).value s k = none := by
    intro s k
    rw [NestedMap.value, Finmap.lookup_empty, Option.bind_none]
  rw [NestedMap.writes_eq_iff, Describes]
  simp only [hkey, assigned_blockWrites, hempty, hvalue, or_false, Option.or_none]

/-- What is stored by lines read one after another. -/
lemma writesOf_append (h : Reaches sec is sec') (js : List Item) :
    writesOf sec (is ++ js) = writesOf sec is ++ writesOf sec' js := by
  induction is generalizing sec with
  | nil =>
    obtain rfl := reaches_nil.mp h
    rfl
  | cons i is ih =>
    obtain ⟨s, hs, hrest⟩ := reaches_cons.mp h
    rw [List.cons_append, writesOf, writesOf, hs]
    simp only [ih hrest, List.append_assoc]

/-- Two files behind each other are without errors if the second is, from the section where the
first ends. -/
lemma faultless_append (h : Faultless sec is) (hreach : Reaches sec is sec') (js : List Item) :
    Faultless sec (is ++ js) ↔ Faultless sec' js := by
  induction is generalizing sec with
  | nil =>
    obtain rfl := reaches_nil.mp hreach
    rfl
  | cons i is ih =>
    obtain ⟨s, hs, hrest⟩ := reaches_cons.mp hreach
    obtain ⟨hi, his⟩ := faultless_cons.mp h
    rw [List.cons_append, faultless_cons]
    simp [hi, hs, ih (his s hs) hrest]

/-- **A file without errors does not depend on the section in force before it**: its first line that
is not empty is a header. -/
lemma writesOf_of_faultless (h : Faultless [] js) (sec : List UInt8) :
    Faultless sec js ∧ writesOf sec js = writesOf [] js := by
  induction js with
  | nil => exact ⟨⟨rfl, rfl⟩, rfl⟩
  | cons j js ih =>
    obtain ⟨hj, hjs⟩ := faultless_cons.mp h
    cases j with
    | blank =>
      obtain ⟨hfault, hwrites⟩ := ih (hjs [] rfl)
      refine ⟨faultless_cons.mpr ⟨hj, fun s hs => ?_⟩, ?_⟩
      · obtain rfl : sec = s := Option.some.inj hs
        exact hfault
      · simpa [writesOf, stored, next] using hwrites
    | header name =>
      refine ⟨faultless_cons.mpr ⟨hj, fun s hs => ?_⟩, rfl⟩
      exact hjs s hs
    | _ => simp [InError, noted] at hj

end Items

/-! ## Reading documents -/

/-- What is known of lines that show items. -/
lemma forall_shows {is : List Item} {ls : List (List UInt8)} (h : List.Forall₂ Shows is ls) :
    ls.map classify = is ∧ (∀ l ∈ ls, 10 ∉ l) ∧ ∀ name, .header name ∈ is → name ≠ [] := by
  induction h with
  | nil => simp
  | @cons i l is ls hi _ ih =>
    obtain ⟨hmap, hlf, hname⟩ := ih
    refine ⟨by rw [List.map_cons, classify_of_shows hi, hmap], ?_, ?_⟩
    · exact List.forall_mem_cons.mpr ⟨lf_not_mem_of_shows hi, hlf⟩
    · intro name hmem
      rcases List.mem_cons.mp hmem with rfl | hmem
      · cases hi with
        | header hname => exact hname.ne_nil
      · exact hname name hmem

/-- **A document is read as the map that it describes**, however it is written.

**Proof sketch.** The items of the lines are the entries of the document, with blank ones between
them that change nothing. They are read without an error, and leave the map. -/
theorem read_renders {bs : List Block} {ls : List (List UInt8)} {bytes : List UInt8} {m : Sections}
    (hdoc : Describes bs m) (hls : Renders bs ls) (hbytes : Written ls bytes)
    (filename : List UInt8) : read filename (some bytes) ∅ = (.ok (), m) := by
  obtain ⟨is, hshows, hfilter⟩ := hls
  obtain ⟨hmap, hlf, hname⟩ := forall_shows hshows
  -- an empty line at the end makes no difference
  have hitems : (items bytes).filter (· ≠ .blank) = entries bs := by
    rw [← hfilter, ← hmap, items]
    rcases lines_of_written hlf hbytes with h | h
    · rw [← h]
    · have hlast : classify [] = .blank := rfl
      simp [h, hlast]
  have hbs : ∀ b ∈ bs, b.1 ≠ [] := by
    intro b hb
    refine hname b.1 (List.mem_of_mem_filter (p := (· ≠ Item.blank)) ?_)
    rw [hfilter]
    exact List.mem_flatMap.mpr ⟨b, hb, List.mem_cons_self⟩
  obtain ⟨hfault, hwrites⟩ := read_entries hbs []
  rw [← hitems] at hfault hwrites
  rw [writesOf_filter] at hwrites
  obtain ⟨herrors, hescapes⟩ := faultless_filter.mp hfault
  rw [read_eq, hwrites, hescapes, herrors, (writes_blockWrites_iff bs m).mpr hdoc]
  rfl

/-- **A joined file is read as its parts one after another.**

**Proof sketch.** The lines of the joined file are those of the parts, up to an empty line between.
Without errors the second part does not depend on the section where the first one ends, because it
begins with a header or has nothing to assign. -/
theorem read_append {a b : List UInt8} (ha : Faultless [] (items a)) (hb : Faultless [] (items b))
    (f g h : List UInt8) (m : Sections) :
    read h (some (a ++ 10 :: b)) m = (do read f (some a); read g (some b)) m := by
  obtain ⟨sec, hsec⟩ := ha.exists_reaches
  obtain ⟨hfault, hwrites⟩ := writesOf_of_faultless hb sec
  -- an empty line between the parts makes no difference
  have hjoin : (items (a ++ 10 :: b)).filter (· ≠ .blank) =
      (items a ++ items b).filter (· ≠ .blank) := by
    rw [items, items, items]
    rcases lines_append_lf a b with h | h
    · rw [h, List.map_append]
    · have hempty : classify [] = .blank := rfl
      simp [h, hempty]
  have hall : Faultless [] (items (a ++ 10 :: b)) ∧
      writesOf [] (items (a ++ 10 :: b)) = writesOf [] (items a) ++ writesOf [] (items b) := by
    constructor
    · rw [← faultless_filter, hjoin, faultless_filter, faultless_append ha hsec]
      exact hfault
    · rw [← writesOf_filter, hjoin, writesOf_filter, writesOf_append hsec, hwrites]
  have hread : ∀ (f bytes : List UInt8) (m : Sections), Faultless [] (items bytes) →
      read f (some bytes) m = (.ok (), NestedMap.writes (writesOf [] (items bytes)) m) := by
    intro f bytes m hbytes
    rw [read_eq, hbytes.1, hbytes.2]
    rfl
  rw [hread h _ m hall.1, hall.2, NestedMap.writes_append]
  rw [Fallible.bind_ok (hread f a m ha), hread g b _ hb]

/-- A header is written without blanks. -/
lemma shows_header {name : List UInt8} (h : Name name) :
    Shows (.header name) (plain (.header name)) := by
  have hnil := Strings.spaces_nil
  simpa [plain] using Shows.header h hnil hnil hnil (.spaces hnil)

/-- An option is written without blanks. -/
lemma shows_option {key value : List UInt8} (hkey : Key key) (hvalue : Name value) :
    Shows (.option key value) (plain (.option key value)) := by
  have hnil := Strings.spaces_nil
  simpa [plain] using Shows.option hkey hvalue hnil hnil hnil (.spaces hnil)

/-- **Every map that can be written is described by a document**, and the document by a file.

**Proof sketch.** The map is a list of blocks, one for each section. Each header and each option of
them is written as a line of its own, which shows it because its words are trimmed and have no
comment. -/
theorem exists_document {m : Sections} (hm : Writable m) :
    ∃ bs ls bytes, Describes bs m ∧ Renders bs ls ∧ Written ls bytes := by
  obtain ⟨bs, hwrites, hbs⟩ := NestedMap.exists_blocks m
  have hentry : ∀ i ∈ entries bs, i ≠ .blank ∧ Shows i (plain i) := by
    intro i hi
    obtain ⟨b, hb, hi⟩ := List.mem_flatMap.mp hi
    rcases List.mem_cons.mp hi with rfl | hi
    · exact ⟨by simp, shows_header (hm.1 _ (hbs b hb).1)⟩
    · obtain ⟨q, hq, rfl⟩ := List.mem_map.mp hi
      obtain ⟨hkey, hvalue⟩ := hm.2 _ _ _ ((hbs b hb).2 q hq)
      exact ⟨by simp, shows_option hkey hvalue⟩
  refine ⟨bs, (entries bs).map plain, _, (writes_blockWrites_iff bs m).mp hwrites,
    ⟨entries bs, ?_, ?_⟩, .inl rfl⟩
  · exact List.forall₂_map_right_iff.mpr (List.forall₂_same.mpr fun i hi => (hentry i hi).2)
  · rw [List.filter_eq_self]
    intro i hi
    simpa using (hentry i hi).1

/-- **Round trip and composition.** Every map of names and values that can be written has a file; a
file that renders a document is read by an empty parser as exactly the map that the document
describes, with the last assignment of an option; and files without errors may be joined.

**Proof sketch.** The three parts are `exists_document`, `read_renders` and `read_append`. -/
theorem read_round_trip :
    (∀ m, Writable m → ∃ bs ls bytes, Describes bs m ∧ Renders bs ls ∧ Written ls bytes) ∧
    (∀ filename bs ls bytes m, Describes bs m → Renders bs ls → Written ls bytes →
      read filename (some bytes) ∅ = (.ok (), m)) ∧
    ∀ f g h a b m, (read f (some a) ∅).1 = .ok () → (read g (some b) ∅).1 = .ok () →
      read h (some (a ++ 10 :: b)) m = (do read f (some a); read g (some b)) m := by
  refine ⟨fun m => exists_document, fun filename bs ls bytes m hdoc hls hbytes =>
    read_renders hdoc hls hbytes filename, fun f g h a b m ha hb => ?_⟩
  exact read_append ((read_ok_iff f a ∅).mp ha) ((read_ok_iff g b ∅).mp hb) f g h m

/-- A document that names a section twice, with a comment line and a comment behind an option.

**Proof sketch.** Every line is shown by its item, with blanks and comments where the rendering
allows them; the three parts of the theorem apply to the same document. -/
theorem read_round_trip_split :
    (∃ bs ls bytes, Describes bs (NestedMap.assign ∅ [115] [107] [50]) ∧ Renders bs ls ∧
      Written ls bytes) ∧
    read [] (some (text "; c\n [s] \nk = 1;x\n[s]\nk=2")) ∅ =
      (.ok (), NestedMap.writes (NestedMap.blockWrites
        [([115], [([107], [49])]), ([115], [([107], [50])])]) ∅) ∧
    read [] (some (text "[s]" ++ 10 :: text "[t]")) ∅ =
      (do read [] (some (text "[s]")); read [] (some (text "[t]"))) ∅ := by
  have hs : Name [115] := by constructor <;> decide
  have hk : Key [107] := { (by constructor <;> decide : Name [107]) with
    equals := by decide
    bracket := by decide }
  have hone : Name [49] := by constructor <;> decide
  have htwo : Name [50] := by constructor <;> decide
  have hnil := Strings.spaces_nil
  have hblank : Spaces [32] := by decide
  refine ⟨read_round_trip.1 _ ⟨?_, ?_⟩, read_round_trip.2.1 []
    [([115], [([107], [49])]), ([115], [([107], [50])])]
    [text "; c", text " [s] ", text "k = 1;x", text "[s]", text "k=2"] _ _
    ((writes_blockWrites_iff _ _).mp rfl) ⟨[.blank, .header [115], .option [107] [49],
      .header [115], .option [107] [50]], ?_, rfl⟩
    (.inr ⟨[text "; c", text " [s] ", text "k = 1;x", text "[s]"], text "k=2", rfl, rfl⟩),
    read_round_trip.2.2 [] [] [] _ _ _ rfl rfl⟩
  · intro s hmem
    rcases Finmap.mem_insert.mp hmem with rfl | hmem
    · exact hs
    · exact absurd hmem Finmap.notMem_empty
  · intro s k v hv
    have hrun := hv.symm.trans (NestedMap.value_run (.assign [115] [107] [50]))
    by_cases h : [115] = s ∧ [107] = k
    · obtain ⟨rfl, rfl⟩ := h
      have hval : v = [50] := by simpa [NestedMap.Write.sets] using hrun
      exact ⟨hk, hval ▸ htwo⟩
    · simp [NestedMap.Write.sets, h, NestedMap.value] at hrun
  · refine .cons (.blank (.comment (a := []) hnil (by decide))) (.cons ?_ (.cons ?_ (.cons ?_
      (.cons ?_ .nil))))
    · exact .header (a := [32]) (b := []) (c := []) hs hblank hnil hnil (.spaces hblank)
    · exact .option (a := []) (b := [32]) (c := [32]) hk hone hnil hblank hblank
        (.comment (a := []) (t := [120]) hnil (by decide))
    · exact .header (a := []) (b := []) (c := []) hs hnil hnil hnil (.spaces hnil)
    · exact .option (a := []) (b := []) (c := []) hk htwo hnil hnil hnil (.spaces hnil)

end IniParser
