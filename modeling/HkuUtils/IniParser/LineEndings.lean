import HkuUtils.IniParser.Documents

set_option relaxedAutoImplicit false
set_option autoImplicit false

/-!
# Line ends with a carriage return

`trim` removes blanks before it removes a carriage return, so a line with blanks in front of its
`\r\n` keeps them. This matters for headers alone: the last letter of `[name] ` is not a bracket.
And `trim` leaves nothing of carriage returns in front of a comment, on which `at` throws.

## Main definitions

* `IniParser.crlf` — a file with `\r\n` for each `\n`.
* `IniParser.SameOutcome` — the same map, or errors on the same lines.
* `IniParser.Dangling`, `Hollow` — the lines that make the difference.
* `IniParser.Insensitive` — no line that is read makes a difference.

## Main results

* `IniParser.classify_cr` — what a carriage return changes on a line.
* `IniParser.classify_eq_hollow_iff` — the lines of which the comment leaves nothing.
* `IniParser.read_line_endings_iff` — when line ends make no difference, and when `at` is safe.

## Design

The two readings go on together until a header is refused by one of them. If it has a name, the
outcomes differ there. If it has none, both readings note it, but only one of them forgets the
section that was in force; what follows decides whether this shows (`Spoils`).
-/

open Search (text)
open Strings (Spaces Solid trim)

namespace IniParser

/-- The file with `\r\n` for each `\n`. -/
def crlf (bytes : List UInt8) : List UInt8 :=
  bytes.flatMap fun c => if c = 10 then [13, 10] else [c]

/-- The lines of a file, each with whether a line feed ends it. -/
def endings : List UInt8 → List (List UInt8 × Bool)
  | [] => []
  | c :: s =>
    if c = 10 then ([], true) :: endings s
    else match endings s with
      | [] => [([c], false)]
      | (l, b) :: ls => (c :: l, b) :: ls

/-- The numbers of the lines that an exception names. -/
def Fault.lineNumbers : Fault → List ℕ
  | logicError errors => errors.map Prod.fst
  | invalidArgument _ | outOfRange => []

/-- The same map, or errors on the same lines. -/
def SameOutcome (x y : Except Fault Unit × Sections) : Prop :=
  match x.1, y.1 with
  | .ok _, .ok _ => x.2 = y.2
  | .error e, .error e' => e.lineNumbers = e'.lineNumbers
  | _, _ => False

/-- A header with blanks behind its bracket and no comment. -/
def Dangles (l : List UInt8) : Prop :=
  59 ∉ l ∧ ∃ a s b, Spaces a ∧ Spaces b ∧ b ≠ [] ∧ l = a ++ (91 :: s ++ [93]) ++ b

/-- A line of which the comment leaves nothing: carriage returns stand in front of it. -/
def Hollow (l : List UInt8) : Prop :=
  ∃ a cr b t, Spaces a ∧ cr ≠ [] ∧ (∀ c ∈ cr, c = 13) ∧ Spaces b ∧ l = a ++ (cr ++ b) ++ 59 :: t

/-- A header with blanks in front of its line feed. -/
def Dangling (p : List UInt8 × Bool) : Prop := p.2 = true ∧ Dangles p.1

/-- What is read from a line that ends with `\n`. -/
def lfItem (p : List UInt8 × Bool) : Item := classify p.1

/-- What is read from a line that ends with `\r\n` for `\n`. -/
def crlfItem (p : List UInt8 × Bool) : Item := classify (if p.2 then p.1 ++ [13] else p.1)

/-- The lines of the two files. -/
lemma lines_eq_endings (bytes : List UInt8) : lines bytes = (endings bytes).map Prod.fst := by
  induction bytes with
  | nil => rfl
  | cons c s ih =>
    rw [lines, endings, ih]
    split
    · rfl
    · cases endings s <;> rfl

/-- The lines of a file with carriage returns: those that end with a line feed end with one now. -/
lemma lines_crlf (bytes : List UInt8) :
    lines (crlf bytes) = (endings bytes).map fun p => if p.2 then p.1 ++ [13] else p.1 := by
  induction bytes with
  | nil => rfl
  | cons c s ih =>
    rw [crlf, List.flatMap_cons, ← crlf, endings]
    by_cases hc : c = 10
    · simp [hc, lines, ih]
    · simp only [hc, if_false, List.singleton_append, lines, ih]
      cases endings s with
      | nil => rfl
      | cons p ps =>
        obtain ⟨l, b⟩ := p
        cases b <;> rfl

/-- No line holds a line feed. -/
lemma lf_not_mem_lines (bytes : List UInt8) : ∀ l ∈ lines bytes, 10 ∉ l := by
  induction bytes with
  | nil => simp [lines]
  | cons c s ih =>
    rw [lines]
    split
    · simpa using ih
    · rename_i hc
      cases hs : lines s with
      | nil => simp [Ne.symm hc]
      | cons l ls =>
        rw [hs, List.forall_mem_cons] at ih
        exact List.forall_mem_cons.mpr ⟨by simp [Ne.symm hc, ih.1], ih.2⟩

/-! ## Lines -/

section Lines

variable {l s a b : List UInt8}

/-- An item without the texts that are noted. -/
def Item.bare : Item → Item
  | unended _ => unended []
  | unnamed _ => unnamed []
  | malformed _ => malformed []
  | i => i

/-- Blanks behind an option change nothing. -/
lemma bare_classifyOption_append (s : List UInt8) (hb : Spaces b) :
    (classifyOption (s ++ b)).bare = (classifyOption s).bare := by
  by_cases hmem : 61 ∈ s
  · obtain ⟨u, v, rfl, hu⟩ := List.eq_append_cons_of_mem hmem
    rw [List.append_assoc, List.cons_append, classifyOption_append_cons hu,
      classifyOption_append_cons hu, Strings.trim_append_spaces v hb]
    split_ifs <;> rfl
  · have hmem' : 61 ∉ s ++ b := by
      rw [List.mem_append, not_or]
      exact ⟨hmem, hb.not_mem (by decide)⟩
    rw [classifyOption, classifyOption, List.idxOf?_eq_none_iff.mpr hmem,
      List.idxOf?_eq_none_iff.mpr hmem']
    rfl

/-- With blanks behind it a header is not closed. -/
lemma classifySection_append (s : List UInt8) (hb : Spaces b) (hne : b ≠ []) :
    classifySection (s ++ b) = .unended (s ++ b) := by
  have hlast : (s ++ b).getLast? ≠ some 93 := by
    rw [Strings.getLast?_append_of_ne_nil s hne]
    intro h
    exact absurd (hb 93 (List.mem_of_getLast? h)) (by decide)
  rw [classifySection, if_pos hlast]

/-- The content of a line that ends with `\r`, without a comment: blanks behind it stay. -/
lemma content_append_cr (ha : Spaces a) (hs : Solid s) (hb : Spaces b) (hcomment : 59 ∉ s) :
    content (a ++ s ++ b ++ [13]) = some (s ++ b) := by
  have hnone : 59 ∉ s ++ b := by
    rw [List.mem_append, not_or]
    exact ⟨hcomment, hb.not_mem (by decide)⟩
  exact content_of_trim (Strings.trim_append_cr ha hs hb) (by simp [hs.ne_nil]) hnone

/-- The content of a line that ends with `\r`, with a comment: it is that of the line. -/
lemma content_append_cr_of_mem (ha : Spaces a) (hs : Solid s) (hb : Spaces b) (hcomment : 59 ∈ s) :
    content (a ++ s ++ b ++ [13]) = content (a ++ s ++ b) := by
  obtain ⟨u, v, rfl, hu⟩ := List.eq_append_cons_of_mem hcomment
  have hhead : (u ++ 59 :: v ++ b).head? = (u ++ 59 :: v).head? :=
    Strings.head?_append_of_ne_nil hs.ne_nil b
  have hsplit : u ++ 59 :: v ++ b = u ++ 59 :: (v ++ b) := by simp
  rw [content, content, Strings.trim_append_cr ha hs hb, Strings.trim_append ha hs hb, hhead,
    Strings.idxOf?_append hu, hsplit, Strings.idxOf?_append hu]
  simp

/-- A text that begins and ends like a header. -/
lemma exists_brackets (hopen : s.head? = some 91) (hclose : s.getLast? = some 93) :
    ∃ u, s = 91 :: u ++ [93] := by
  cases s with
  | nil => simp at hopen
  | cons c s =>
    obtain rfl : c = 91 := by simpa using hopen
    rcases List.eq_nil_or_concat s with rfl | ⟨u, d, rfl⟩
    · simp at hclose
    · rw [List.concat_eq_append, ← List.cons_append, List.getLast?_concat,
        Option.some_inj] at hclose
      exact ⟨u, by rw [hclose, List.concat_eq_append, List.cons_append]⟩

/-- What is known of a line that dangles. -/
lemma Dangles.inv (ha : Spaces a) (hs : Solid s) (hb : Spaces b) (h : Dangles (a ++ s ++ b)) :
    b ≠ [] ∧ ∃ u, s = 91 :: u ++ [93] := by
  obtain ⟨-, a', u, b', ha', hb', hne, hline⟩ := h
  have htrim := congrArg trim hline
  rw [Strings.trim_append ha hs hb, Strings.trim_append ha' (solid_brackets u) hb'] at htrim
  refine ⟨?_, u, htrim⟩
  rintro rfl
  -- the line would end with a bracket and with a blank
  have hlast := congrArg List.getLast? hline
  rw [List.append_nil, Strings.getLast?_append_of_ne_nil _ hs.ne_nil,
    Strings.getLast?_append_of_ne_nil _ hne] at hlast
  rw [List.getLast?_eq_some_getLast hne, hb' _ (List.getLast_mem hne)] at hlast
  exact hs.blank_ne hlast

/-- **What a carriage return changes on a line**: a header with blanks behind its bracket is not
closed.

**Proof sketch.** Take the line apart into blanks, what is left and blanks. A carriage return is
kept by trimming only if something stands behind a semicolon-free content, and it then stands at
the end of that content, with the blanks in front of it: a header is not closed any more unless
there are no blanks, and everything else is what it was. -/
theorem classify_cr (hcr : 13 ∉ l) (hlf : 10 ∉ l) :
    (¬ Dangles l → (classify (l ++ [13])).bare = (classify l).bare) ∧
    (Dangles l → (∃ t, classify (l ++ [13]) = .unended t) ∧
      ((∃ t, classify l = .unnamed t) ∨ ∃ name, classify l = .header name)) := by
  obtain ⟨a, b, ha, hb, hl, hsolid⟩ := Strings.exists_trim_of_not_mem hcr hlf
  generalize trim l = s at hl hsolid
  subst hl
  by_cases hs : s = []
  · subst hs
    have hblank : Spaces (a ++ b) := ha.append hb
    have hcontent : ∀ r, trim r = [] → classify r = .blank := by
      intro r hr
      simp [classify, content, hr]
    simp only [List.append_nil]
    rw [hcontent _ (Strings.trim_spaces_cr hblank), hcontent _ (Strings.trim_spaces hblank)]
    refine ⟨fun _ => rfl, ?_⟩
    rintro ⟨-, a', s', b', -, -, -, h⟩
    exact absurd (hblank 91 (by rw [h]; simp)) (by decide)
  have hsolid := hsolid hs
  by_cases hcomment : 59 ∈ s
  · rw [classify, classify, content_append_cr_of_mem ha hsolid hb hcomment]
    exact ⟨fun _ => rfl, fun h => absurd (by simp [hcomment]) h.1⟩
  · have hplain : content (a ++ s ++ b) = some s :=
      content_append ha hsolid hcomment (.spaces hb)
    have hhead : (s ++ b).head? = s.head? := Strings.head?_append_of_ne_nil hs b
    rw [classify_of_content (content_append_cr ha hsolid hb hcomment) (by simp [hs]),
      classify_of_content hplain hs, hhead]
    by_cases hopen : s.head? = some 91
    · simp only [hopen, if_true]
      refine ⟨fun hdangles => ?_, fun hdangles => ?_⟩
      · by_cases hbnil : b = []
        · rw [hbnil, List.append_nil]
        · rw [classifySection_append s hb hbnil]
          by_cases hclose : s.getLast? = some 93
          · obtain ⟨u, rfl⟩ := exists_brackets hopen hclose
            have hnone : 59 ∉ a ++ (91 :: u ++ [93]) ++ b := by
              simp only [List.mem_append, not_or] at hcomment ⊢
              exact ⟨⟨ha.not_mem (by decide), hcomment⟩, hb.not_mem (by decide)⟩
            exact absurd ⟨hnone, a, u, b, ha, hb, hbnil, rfl⟩ hdangles
          · rw [classifySection, if_pos hclose]
            rfl
      · obtain ⟨hbnil, u, rfl⟩ := hdangles.inv ha hsolid hb
        refine ⟨⟨_, classifySection_append _ hb hbnil⟩, ?_⟩
        have hlast : (91 :: u ++ [93]).getLast? = some 93 := List.getLast?_concat
        rw [classifySection, hlast]
        simp only [ne_eq, not_true_eq_false, if_false]
        split_ifs
        · exact .inl ⟨_, rfl⟩
        · exact .inr ⟨_, rfl⟩
    · simp only [hopen, if_false]
      refine ⟨fun _ => bare_classifyOption_append s hb, fun hdangles => ?_⟩
      obtain ⟨-, u, rfl⟩ := hdangles.inv ha hsolid hb
      exact absurd rfl hopen

/-- What is read from a line that the comment leaves empty. -/
lemma classify_eq_hollow : classify l = .hollow ↔ content l = some [] := by
  rw [classify]
  cases content l with
  | none => simp
  | some s =>
    cases s with
    | nil => simp
    | cons c s =>
      simp only [Option.some.injEq, reduceCtorEq, iff_false]
      split_ifs
      · simp only [classifySection]
        split_ifs <;> simp
      · rw [classifyOption]
        split <;> (try split_ifs) <;> simp

/-- If the content of a line is empty, its comment stands behind carriage returns.

**Proof sketch.** The content is cut at its first semicolon and trimmed once more to nothing. What
stands in front of the semicolon begins with no blank, so it is carriage returns and blanks; line
feeds are not on a line. -/
lemma hollow_of_content (hlf : 10 ∉ l) (h : content l = some []) : Hollow l := by
  obtain ⟨a, lf, cr, b, ha, -, -, -, hl⟩ := Strings.exists_trim l
  have hhead := Strings.head?_trim l
  rw [content] at h
  generalize trim l = s at h hl hhead
  have hnone : ¬ (s = [] ∨ s.head? = some 59) := by
    intro hs
    simp [hs] at h
  simp only [hnone, if_false] at h
  -- what stands in front of the comment begins with no blank, so with a carriage return
  by_cases hmem : 59 ∈ s
  · obtain ⟨u, v, rfl, hu⟩ := List.eq_append_cons_of_mem hmem
    simp only [Strings.idxOf?_append hu, List.take_left, Option.some.injEq] at h
    obtain ⟨a', lf', cr', b', ha', hlf', hcr', hb', rfl⟩ := Strings.trim_eq_nil_iff.mp h
    have hlfnil : lf' = [] := by
      refine List.eq_nil_iff_forall_not_mem.mpr fun c hc => hlf ?_
      rw [hl, ← hlf' c hc]
      simp [hc]
    subst hlfnil
    have ha'nil : a' = [] := by
      cases a' with
      | nil => rfl
      | cons c a' => exact absurd (by simp [ha' c]) hhead
    subst ha'nil
    refine ⟨a, cr', b', v ++ lf ++ cr ++ b, ha, ?_, hcr', hb', by simpa using hl⟩
    rintro rfl
    cases b' with
    | nil => exact hnone (by simp)
    | cons c b' => exact hhead (by simp [hb' c])
  · rw [List.idxOf?_eq_none_iff.mpr hmem] at h
    exact absurd (.inl (Option.some.inj h)) hnone

/-- Of carriage returns in front of a comment nothing is left.

**Proof sketch.** The line is trimmed to carriage returns, blanks, a semicolon and something behind
it. It does not begin with the semicolon, so it is no comment, and what is in front of the
semicolon is trimmed to nothing. -/
lemma content_of_hollow (h : Hollow l) : content l = some [] := by
  obtain ⟨a, cr, b, t, ha, hne, hcr, hb, rfl⟩ := h
  have hhead : cr.head? = some 13 := by
    cases cr with
    | nil => exact absurd rfl hne
    | cons c cr => simp [hcr c]
  have hmark : Solid (cr ++ b ++ [59]) :=
    { ne_nil := by simp
      head_ne := by
        rw [List.append_assoc, Strings.head?_append_of_ne_nil hne, hhead]
        decide
      blank_ne := by simp
      cr_ne := by simp
      lf_ne := by simp }
  obtain ⟨t', htrim⟩ := Strings.exists_trim_append ha hmark t
  have hline : trim (a ++ (cr ++ b) ++ 59 :: t) = cr ++ b ++ 59 :: t' := by
    simpa using htrim
  have hnone : 59 ∉ cr ++ b := by
    rw [List.mem_append, not_or]
    exact ⟨fun h => absurd (hcr 59 h) (by decide), hb.not_mem (by decide)⟩
  have hfront : (cr ++ b ++ 59 :: t').head? = some 13 := by
    rw [List.append_assoc, Strings.head?_append_of_ne_nil hne, hhead]
  have hnil : trim (cr ++ b) = [] :=
    Strings.trim_eq_nil_iff.mpr ⟨[], [], cr, b, Strings.spaces_nil, by simp, hcr, hb, by simp⟩
  rw [content, hline, hfront, Strings.idxOf?_append hnone]
  simp only [List.take_left, hnil]
  simp

/-- **The lines of which the comment leaves nothing.** -/
theorem classify_eq_hollow_iff (hlf : 10 ∉ l) : classify l = .hollow ↔ Hollow l := by
  rw [classify_eq_hollow]
  exact ⟨hollow_of_content hlf, content_of_hollow⟩

end Lines

/-! ## Two readings -/

section Readings

variable {sec sec' s : List UInt8} {i j : Item} {is js : List Item} {n : ℕ}
  {p : List UInt8 × Bool} {ps : List (List UInt8 × Bool)}

/-- The numbers of the lines in error. -/
def errorLines : ℕ → List UInt8 → List Item → List ℕ
  | _, _, [] => []
  | n, sec, i :: is =>
    (if (noted sec i).isSome then [n + 1] else []) ++
      match next sec i with
      | none => []
      | some sec => errorLines (n + 1) sec is

/-- The numbers of the lines with errors. -/
lemma map_fst_errors (n : ℕ) (sec : List UInt8) (is : List Item) :
    (errors n sec is).map Prod.fst = errorLines n sec is := by
  induction is generalizing n sec with
  | nil => rfl
  | cons i is ih =>
    rw [errors, errorLines]
    cases noted sec i <;> cases next sec i <;> simp [ih]

/-- Later lines have greater numbers. -/
lemma lt_of_mem_errorLines {k : ℕ} (h : k ∈ errorLines n sec is) : n < k := by
  induction is generalizing n sec with
  | nil => simp [errorLines] at h
  | cons i is ih =>
    rw [errorLines, List.mem_append] at h
    rcases h with h | h
    · split at h
      · have : k = n + 1 := by simpa using h
        omega
      · simp at h
    · split at h
      · simp at h
      · have := ih h
        omega

/-- The errors of later lines do not begin with the number of this one. -/
lemma errorLines_ne_cons (n : ℕ) (sec : List UInt8) (is : List Item) (ns : List ℕ) :
    errorLines (n + 1) sec is ≠ (n + 1) :: ns := by
  intro h
  have hmem : n + 1 ∈ errorLines (n + 1) sec is := by simp [h]
  exact absurd (lt_of_mem_errorLines hmem) (lt_irrefl _)

/-- The texts that are noted have no part in what follows. -/
lemma noted_next_of_bare (h : i.bare = j.bare) (sec : List UInt8) :
    ((noted sec i).isSome ↔ (noted sec j).isSome) ∧ next sec i = next sec j := by
  have hi : ∀ i : Item, ((noted sec i).isSome ↔ (noted sec i.bare).isSome) ∧
      next sec i = next sec i.bare := by
    intro i
    cases i with
    | malformed line => by_cases hsec : sec = [] <;> simp [Item.bare, noted, next, hsec]
    | _ => exact ⟨Iff.rfl, rfl⟩
  rw [(hi i).1, (hi i).2, (hi j).1, (hi j).2, h]
  exact ⟨Iff.rfl, rfl⟩

/-- A line that both readings pass over while one of them has forgotten the section. -/
def Passes (p : List UInt8 × Bool) : Prop :=
  lfItem p = .blank ∨ (∃ t, lfItem p = .unended t) ∨ Dangling p ∧ ∃ t, lfItem p = .unnamed t

/-- A line that is in error in the reading that has not forgotten the section. -/
def Wrong (p : List UInt8 × Bool) : Prop :=
  Dangling p ∨ (∃ t, lfItem p = .unended t) ∨ (∃ t, lfItem p = .unnamed t) ∨
    ∃ t, lfItem p = .malformed t

/-- What follows shows that one reading has forgotten the section: the first line that is not passed
over is an option, or is none but stands where an option may stand, with lines in error behind
it. -/
def Spoils (ps : List (List UInt8 × Bool)) : Prop :=
  ∃ mid p rest, ps = mid ++ p :: rest ∧ (∀ q ∈ mid, Passes q) ∧
    ((∃ k v, lfItem p = .option k v) ∨ (∃ t, lfItem p = .malformed t) ∧ ∃ q ∈ rest, Wrong q)

/-- **No line that is read makes a difference**: none is a header with a name and blanks behind its
bracket, and where one without a name stands under a section, what follows does not show it. -/
def Insensitive (sec : List UInt8) (ps : List (List UInt8 × Bool)) : Prop :=
  ∀ pre p post s, ps = pre ++ p :: post → Reaches sec (pre.map lfItem) s → Dangling p →
    (∃ t, lfItem p = .unnamed t) ∧ (s = [] ∨ ¬ Spoils post)

/-- The condition for a first line and the others. The first line must not dangle where this is
seen, and the others keep the condition in the section that it leaves. -/
lemma insensitive_cons :
    Insensitive sec (p :: ps) ↔
      (Dangling p → (∃ t, lfItem p = .unnamed t) ∧ (sec = [] ∨ ¬ Spoils ps)) ∧
      ∀ s, next sec (lfItem p) = some s → Insensitive s ps := by
  constructor
  · intro h
    refine ⟨h [] p ps sec rfl rfl, fun s hs pre q post s' hps hs' => ?_⟩
    subst hps
    exact h (p :: pre) q post s' rfl (reaches_cons.mpr ⟨s, hs, hs'⟩)
  · rintro ⟨hp, hrest⟩ pre q post s hps hs
    cases pre with
    | nil =>
      obtain ⟨rfl, rfl⟩ := List.cons.inj hps
      obtain rfl := reaches_nil.mp hs
      exact hp
    | cons q' pre =>
      obtain ⟨rfl, rfl⟩ := List.cons.inj hps
      obtain ⟨s', hs', hpre⟩ := reaches_cons.mp hs
      exact hrest s' hs' pre q post s rfl hpre

/-- The other condition for a first line and the others. -/
lemma spoils_cons :
    Spoils (p :: ps) ↔ ((∃ k v, lfItem p = .option k v) ∨
      (∃ t, lfItem p = .malformed t) ∧ ∃ q ∈ ps, Wrong q) ∨ Passes p ∧ Spoils ps := by
  constructor
  · rintro ⟨mid, q, rest, hps, hmid, hq⟩
    cases mid with
    | nil =>
      obtain ⟨rfl, rfl⟩ := List.cons.inj hps
      exact .inl hq
    | cons q' mid =>
      obtain ⟨rfl, rfl⟩ := List.cons.inj hps
      rw [List.forall_mem_cons] at hmid
      exact .inr ⟨hmid.1, mid, q, rest, rfl, hmid.2, hq⟩
  · rintro (hp | ⟨hp, mid, q, rest, rfl, hmid, hq⟩)
    · exact ⟨[], p, ps, rfl, by simp, hp⟩
    · exact ⟨p :: mid, q, rest, rfl, List.forall_mem_cons.mpr ⟨hp, hmid⟩, hq⟩

/-- A line without carriage return and line feed. -/
def Clean (p : List UInt8 × Bool) : Prop := 13 ∉ p.1 ∧ 10 ∉ p.1

/-- What the two readings find on a line. -/
lemma crlfItem_spec (hp : Clean p) :
    (¬ Dangling p → (crlfItem p).bare = (lfItem p).bare) ∧
    (Dangling p → (∃ t, crlfItem p = .unended t) ∧
      ((∃ t, lfItem p = .unnamed t) ∨ ∃ name, lfItem p = .header name)) := by
  obtain ⟨l, b⟩ := p
  cases b with
  | false => exact ⟨fun _ => rfl, fun h => absurd h.1 (by simp)⟩
  | true =>
    obtain ⟨hsame, hdiffer⟩ := classify_cr hp.1 hp.2
    exact ⟨fun h => hsame fun h' => h ⟨rfl, h'⟩, fun h => hdiffer h.2⟩

/-- A line without carriage returns has no empty content. -/
lemma lfItem_ne_hollow (hp : Clean p) : lfItem p ≠ .hollow := by
  intro h
  obtain ⟨a, cr, b, t, -, hne, hcr, -, hl⟩ := (classify_eq_hollow_iff hp.2).mp h
  obtain ⟨c, cr', rfl⟩ := List.exists_cons_of_ne_nil hne
  exact hp.1 (by simp [hl, hcr c])

/-- Nor has it one with a carriage return behind it. -/
lemma crlfItem_ne_hollow (hp : Clean p) : crlfItem p ≠ .hollow := by
  intro h
  obtain ⟨hsame, hdiffer⟩ := crlfItem_spec hp
  by_cases hd : Dangling p
  · obtain ⟨⟨t, ht⟩, -⟩ := hdiffer hd
    simp [h] at ht
  · have hbare := hsame hd
    rw [h] at hbare
    cases hi : lfItem p <;> simp [hi, Item.bare] at hbare
    exact lfItem_ne_hollow hp hi

/-- A header has a name, since a line without one is noted as an error. -/
lemma header_ne_nil {l name : List UInt8} (h : classify l = .header name) : name ≠ [] := by
  rw [classify] at h
  cases hc : content l with
  | none => simp [hc] at h
  | some s =>
    cases s with
    | nil => simp [hc] at h
    | cons c u =>
      simp only [hc] at h
      split_ifs at h
      · simp only [classifySection] at h
        split_ifs at h with _ hname
        exact Item.header.inj h ▸ hname
      · rw [classifyOption] at h
        split at h
        · simp at h
        · split_ifs at h

/-- Where errors stand depends on the bare kind of the lines only. -/
lemma errorLines_cons_congr (h : i.bare = j.bare) :
    errorLines n sec (i :: is) = errorLines n sec (j :: is) := by
  obtain ⟨hnoted, hnext⟩ := noted_next_of_bare h sec
  rw [errorLines, errorLines, hnext]
  simp only [hnoted]

/-- Under a section a reading is without errors when no line is wrong. A line that dangles is read
as a header without a name then, which is wrong. -/
lemma errorLines_crlf_eq_nil_iff (hps : ∀ p ∈ ps, Clean p) (hs : s ≠ []) :
    errorLines n s (ps.map crlfItem) = [] ↔ ∀ q ∈ ps, ¬ Wrong q := by
  induction ps generalizing n s with
  | nil => simp [errorLines]
  | cons p ps ih =>
    rw [List.forall_mem_cons] at hps ⊢
    obtain ⟨hsame, hdiffer⟩ := crlfItem_spec hps.1
    rw [List.map_cons]
    by_cases hd : Dangling p
    · obtain ⟨⟨t, ht⟩, -⟩ := hdiffer hd
      simp [errorLines, ht, noted, Wrong, hd]
    · rw [errorLines_cons_congr (hsame hd), errorLines]
      cases hi : lfItem p with
      | hollow => exact absurd hi (lfItem_ne_hollow hps.1)
      | header name =>
        simp [noted, next, Wrong, hd, hi, ih hps.2 (header_ne_nil hi)]
      | _ => simp [noted, next, Wrong, hd, hi, hs, ih hps.2 hs]

/-- **The two readings**, from the same section or after one has forgotten it: errors stand on the
same lines exactly when no line that is read makes a difference, and what follows does not show
that a section has been forgotten.

**Proof sketch.** By induction on the lines, for both statements at once. A line that dangles is
noted by one reading or both; if only the second one notes it, the numbers differ. Every other line
is of the same kind for both, and what the section is decides whether it is noted. -/
theorem errorLines_eq_iff (hps : ∀ p ∈ ps, Clean p) :
    (∀ n sec, errorLines n sec (ps.map lfItem) = errorLines n sec (ps.map crlfItem) ↔
      Insensitive sec ps) ∧
    (∀ n s, s ≠ [] → (errorLines n [] (ps.map lfItem) = errorLines n s (ps.map crlfItem) ↔
      Insensitive [] ps ∧ ¬ Spoils ps)) := by
  induction ps with
  | nil => simp [errorLines, Insensitive, Spoils]
  | cons p ps ih =>
    rw [List.forall_mem_cons] at hps
    obtain ⟨ihsame, ihapart⟩ := ih hps.2
    obtain ⟨hsame, hdiffer⟩ := crlfItem_spec hps.1
    simp only [List.map_cons, insensitive_cons, spoils_cons]
    by_cases hd : Dangling p
    · obtain ⟨⟨t, ht⟩, ⟨u, hi⟩ | ⟨name, hi⟩⟩ := hdiffer hd
      · -- both readings note the line, the first one forgets the section
        have hpass : Passes p := .inr (.inr ⟨hd, u, hi⟩)
        constructor
        · intro n sec
          by_cases hsec : sec = []
          · subst hsec
            simp [errorLines, hi, ht, noted, next, ihsame]
          · simp [errorLines, hi, ht, noted, next, hd, hsec, ihapart _ _ hsec, and_comm]
        · intro n s hs
          simp [errorLines, hi, ht, noted, next, hpass, ihapart _ _ hs]
      · -- only the second reading notes the line
        simp [errorLines, hi, ht, noted, next, hd, errorLines_ne_cons]
    · have hcongr : ∀ n sec, errorLines n sec (crlfItem p :: ps.map crlfItem) =
          errorLines n sec (lfItem p :: ps.map crlfItem) := fun n sec =>
        errorLines_cons_congr (hsame hd)
      simp only [hcongr]
      cases hi : lfItem p with
      | hollow => exact absurd hi (lfItem_ne_hollow hps.1)
      | blank | unended t =>
        constructor
        · intro n sec
          simp [errorLines, noted, next, hd, ihsame]
        · intro n s hs
          simp [errorLines, noted, next, hd, hi, Passes, ihapart _ _ hs]
      | unnamed t | header name =>
        constructor
        · intro n sec
          simp [errorLines, noted, next, hd, ihsame]
        · intro n s hs
          simp [errorLines, noted, next, hd, hi, Passes, ihsame]
      | malformed t =>
        constructor
        · intro n sec
          by_cases hsec : sec = [] <;> simp [errorLines, noted, next, hd, hsec, ihsame]
        · intro n s hs
          -- the reading that has forgotten the section ends here
          have hrest := errorLines_crlf_eq_nil_iff (n := n + 1) hps.2 hs
          rw [eq_comm] at hrest
          simp [errorLines, noted, next, hd, hi, hs, Passes, hrest]
      | option k v =>
        constructor
        · intro n sec
          by_cases hsec : sec = [] <;> simp [errorLines, noted, next, hd, hsec, ihsame]
        · intro n s hs
          have hne := (errorLines_ne_cons n s (ps.map crlfItem) []).symm
          simp [errorLines, noted, next, hd, hs, hne]

/-- What two readings without errors store is the same.

**Proof sketch.** By induction on the lines. A line that could be read differently is in error,
which is excluded, and any other stores the same. -/
lemma writesOf_crlf (hps : ∀ p ∈ ps, Clean p) (h : Faultless sec (ps.map crlfItem)) :
    writesOf sec (ps.map crlfItem) = writesOf sec (ps.map lfItem) := by
  induction ps generalizing sec with
  | nil => rfl
  | cons p ps ih =>
    rw [List.forall_mem_cons] at hps
    rw [List.map_cons, faultless_cons] at h
    obtain ⟨hp, hrest⟩ := h
    obtain ⟨hsame, hdiffer⟩ := crlfItem_spec hps.1
    by_cases hd : Dangling p
    · obtain ⟨⟨t, ht⟩, -⟩ := hdiffer hd
      simp [ht, InError, noted] at hp
    · have hstored : ∀ i : Item, stored sec i = stored sec i.bare := by
        intro i
        cases i <;> rfl
      have hnext := (noted_next_of_bare (hsame hd) sec).2
      rw [List.map_cons, List.map_cons, writesOf, writesOf, hstored, hsame hd, ← hstored, ← hnext]
      cases hs : next sec (crlfItem p) with
      | none => rfl
      | some s => simp only [ih hps.2 (hrest s hs)]

end Readings

/-! ## Line ends -/

/-- No line that is read is left empty by its comment. -/
def NoHollow (bytes : List UInt8) : Prop :=
  ∀ pre l post s, lines bytes = pre ++ l :: post → Reaches [] (pre.map classify) s → ¬ Hollow l

/-- `at` is safe on a file when no line that is read is left empty by its comment. -/
theorem escapes_eq_false_iff (bytes : List UInt8) :
    escapes [] (items bytes) = false ↔ NoHollow bytes := by
  rw [← Bool.not_eq_true, escapes_iff, NoHollow]
  have hlf := lf_not_mem_lines bytes
  constructor
  · intro h pre l post s hlines hs hl
    have hmem : l ∈ lines bytes := by simp [hlines]
    refine h ⟨pre.map classify, post.map classify, s, ?_, hs⟩
    rw [items, hlines, List.map_append, List.map_cons,
      (classify_eq_hollow_iff (hlf l hmem)).mpr hl]
  · rintro h ⟨pre, post, s, hitems, hs⟩
    obtain ⟨pre', rest, hlines, rfl, hrest⟩ := List.map_eq_append_iff.mp hitems
    obtain ⟨l, post', rfl, hl, -⟩ := List.map_eq_cons_iff.mp hrest
    have hmem : l ∈ lines bytes := by simp [hlines]
    exact h pre' l post' s hlines hs ((classify_eq_hollow_iff (hlf l hmem)).mp hl)

/-- **When line ends make no difference.**

**Proof sketch.** Neither file has a line with an empty content, so the reader does not leave its
loop early. If one of the readings has errors, the outcomes agree if and only if the lines of the
errors do; if neither has, the writes are the same. The rest is `errorLines_eq_iff`. -/
theorem sameOutcome_iff {bytes : List UInt8} (hcr : ∀ l ∈ lines bytes, 13 ∉ l)
    (filename : List UInt8) (m : Sections) :
    SameOutcome (read filename (some (crlf bytes)) m) (read filename (some bytes) m) ↔
      Insensitive [] (endings bytes) := by
  have hclean : ∀ p ∈ endings bytes, Clean p := by
    intro p hp
    have hmem : p.1 ∈ lines bytes := by
      rw [lines_eq_endings]
      exact List.mem_map_of_mem hp
    exact ⟨hcr _ hmem, lf_not_mem_lines bytes _ hmem⟩
  have hlf : items bytes = (endings bytes).map lfItem := by
    rw [items, lines_eq_endings, List.map_map]
    rfl
  have hcrlf : items (crlf bytes) = (endings bytes).map crlfItem := by
    rw [items, lines_crlf, List.map_map]
    rfl
  have hsafe : ∀ is : List Item, (∀ i ∈ is, i ≠ .hollow) → escapes [] is = false := by
    intro is his
    rw [← Bool.not_eq_true, escapes_iff]
    rintro ⟨pre, post, s, rfl, -⟩
    exact his .hollow (by simp) rfl
  have hlfSafe : escapes [] (items bytes) = false := by
    refine hsafe _ fun i hi => ?_
    obtain ⟨p, hp, rfl⟩ := List.mem_map.mp (hlf ▸ hi)
    exact lfItem_ne_hollow (hclean p hp)
  have hcrlfSafe : escapes [] (items (crlf bytes)) = false := by
    refine hsafe _ fun i hi => ?_
    obtain ⟨p, hp, rfl⟩ := List.mem_map.mp (hcrlf ▸ hi)
    exact crlfItem_ne_hollow (hclean p hp)
  rw [← (errorLines_eq_iff hclean).1 0, ← hlf, ← hcrlf, ← map_fst_errors, ← map_fst_errors,
    read_eq, read_eq, hlfSafe, hcrlfSafe]
  by_cases h : errors 0 [] (items (crlf bytes)) = []
  · have hfault : Faultless [] ((endings bytes).map crlfItem) := by
      rw [← hcrlf]
      exact ⟨h, hcrlfSafe⟩
    have hwrites := writesOf_crlf hclean hfault
    rw [← hcrlf, ← hlf] at hwrites
    by_cases h' : errors 0 [] (items bytes) = [] <;> simp [h, h', SameOutcome, hwrites]
  · by_cases h' : errors 0 [] (items bytes) = []
    · simp [h, h', SameOutcome]
    · simp [h, h', SameOutcome, Fault.lineNumbers, eq_comm]

/-- **When line ends make no difference, and when `at` is safe**: the first for every file without
carriage returns exactly when no header with blanks behind it that is read shows, the second for
every file exactly when no line that is read is left empty by its comment.

**Proof sketch.** The first part is `sameOutcome_iff`. For the second, `outOfRange` is what the
reading throws exactly if a line that is read is left empty by its comment. -/
theorem read_line_endings_iff (filename bytes : List UInt8) (m : Sections) :
    ((∀ l ∈ lines bytes, 13 ∉ l) →
      (SameOutcome (read filename (some (crlf bytes)) m) (read filename (some bytes) m) ↔
        Insensitive [] (endings bytes))) ∧
    ((read filename (some bytes) m).1 ≠ .error .outOfRange ↔ NoHollow bytes) := by
  refine ⟨fun hcr => sameOutcome_iff hcr filename m, ?_⟩
  rw [← escapes_eq_false_iff, read_eq]
  cases escapes [] (items bytes) with
  | true => simp
  | false => by_cases h : errors 0 [] (items bytes) = [] <;> simp [h]

/-- A file with no header of this kind. -/
theorem read_line_endings_plain :
    (SameOutcome (read [] (some (crlf (text "[s]\nk=v \n"))) ∅)
        (read [] (some (text "[s]\nk=v \n")) ∅) ↔
      Insensitive [] (endings (text "[s]\nk=v \n"))) ∧
    ((read [] (some (text "[s]\nk=v \n")) ∅).1 ≠ .error .outOfRange ↔
      NoHollow (text "[s]\nk=v \n")) :=
  have h := read_line_endings_iff [] (text "[s]\nk=v \n") ∅
  ⟨h.1 (by decide), h.2⟩

/-- A blank behind a header, and a carriage return in front of a comment. -/
theorem not_read_line_endings :
    (¬ ∀ (bytes filename : List UInt8) (m : Sections), (∀ l ∈ lines bytes, 13 ∉ l) →
      SameOutcome (read filename (some (crlf bytes)) m) (read filename (some bytes) m)) ∧
    ¬ ∀ (bytes filename : List UInt8) (m : Sections),
      (read filename (some bytes) m).1 ≠ .error .outOfRange :=
  ⟨fun h => h (text "[s] \n") [] ∅ (by decide), fun h => h (text "\r;x") [] ∅ rfl⟩

end IniParser
