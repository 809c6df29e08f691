import Mathlib.Data.List.DropRight

set_option relaxedAutoImplicit false
set_option autoImplicit false

/-!
# Texts without the blanks around them

`trim` removes the blanks at both ends, then carriage returns at the end and then line feeds at the
end, each kind once and in this order. A blank in front of a carriage return therefore stays.

## Main definitions

* `Strings.trim` — the function `trim` of the source.
* `Strings.Spaces`, `Solid` — texts of blanks, and texts of which `trim` removes nothing.

## Main results

* `Strings.trim_append` — blanks around a solid text are removed.
* `Strings.trim_append_cr` — blanks in front of a carriage return are not.
* `Strings.trim_eq_nil_iff` — the texts of which nothing is left.
-/

namespace Strings

variable {s t a b : List UInt8}

/-- `trim`: blanks at both ends are erased, then `\r` at the end, then `\n` at the end. -/
def trim (s : List UInt8) : List UInt8 :=
  if s = [] then s
  else (((s.dropWhile (· == 32)).rdropWhile (· == 32)).rdropWhile (· == 13)).rdropWhile (· == 10)

/-- Only blanks. -/
def Spaces (s : List UInt8) : Prop := ∀ c ∈ s, c = 32

/-- A text that neither begins nor ends with anything that `trim` removes there. -/
structure Solid (s : List UInt8) : Prop where
  ne_nil : s ≠ []
  head_ne : s.head? ≠ some 32
  blank_ne : s.getLast? ≠ some 32
  cr_ne : s.getLast? ≠ some 13
  lf_ne : s.getLast? ≠ some 10

instance (s : List UInt8) : Decidable (Spaces s) :=
  List.decidableBAll _ s

/-- The empty text is made of spaces. -/
lemma spaces_nil : Spaces [] := List.forall_mem_nil _

/-- Spaces behind spaces. -/
lemma Spaces.append (ha : Spaces a) (hb : Spaces b) : Spaces (a ++ b) :=
  List.forall_mem_append.mpr ⟨ha, hb⟩

/-- Among spaces there is nothing else. -/
lemma Spaces.not_mem (ha : Spaces a) {c : UInt8} (hc : c ≠ 32) : c ∉ a := fun h => hc (ha c h)

/-- Nothing is left of nothing. -/
@[simp]
lemma trim_nil : trim [] = [] := rfl

/-- The guard of the empty text changes nothing. -/
lemma trim_eq (s : List UInt8) :
    trim s = (((s.dropWhile (· == 32)).rdropWhile (· == 32)).rdropWhile
      (· == 13)).rdropWhile (· == 10) := by
  cases s <;> simp [trim]

/-! ## Erasing at one end -/

/-- Spaces in front are dropped. -/
lemma dropWhile_spaces (ha : Spaces a) (s : List UInt8) :
    (a ++ s).dropWhile (· == 32) = s.dropWhile (· == 32) :=
  List.dropWhile_append_of_pos fun c hc => by simp [ha c hc]

/-- Nothing is dropped of a text that begins with something else. -/
lemma dropWhile_of_head (h : s.head? ≠ some 32) : s.dropWhile (· == 32) = s := by
  cases s with
  | nil => rfl
  | cons c s =>
    have hc : ¬ (c == 32) = true := by simpa using h
    rw [List.dropWhile_cons, if_neg hc]

/-- Nothing is dropped at the end of a text that ends with something else. -/
lemma rdropWhile_of_getLast {c : UInt8} (h : s.getLast? ≠ some c) : s.rdropWhile (· == c) = s := by
  rw [List.rdropWhile_eq_self_iff]
  intro hne
  rw [List.getLast?_eq_some_getLast hne] at h
  simpa using h

/-- What is one character over and over is dropped at the end. -/
lemma rdropWhile_append_all {c : UInt8} (hb : ∀ d ∈ b, d = c) (s : List UInt8) :
    (s ++ b).rdropWhile (· == c) = s.rdropWhile (· == c) := by
  rw [List.rdropWhile, List.rdropWhile, List.reverse_append, List.dropWhile_append_of_pos]
  intro d hd
  simp [hb d (List.mem_reverse.mp hd)]

/-- Behind a text that ends with something else, dropping at the end stays in the part behind it. -/
lemma rdropWhile_append_of_getLast {c : UInt8} (h : s.getLast? ≠ some c) (t : List UInt8) :
    (s ++ t).rdropWhile (· == c) = s ++ t.rdropWhile (· == c) := by
  rw [List.rdropWhile, List.reverse_append, List.dropWhile_append]
  cases ht : t.reverse.dropWhile (· == c) with
  | nil =>
    have hnil : t.rdropWhile (· == c) = [] := by rw [List.rdropWhile, ht, List.reverse_nil]
    have hself := rdropWhile_of_getLast h
    rw [List.rdropWhile] at hself
    simpa [hnil] using hself
  | cons d u => simp [List.rdropWhile, ht]

/-- What is erased at the end is made of the one letter. -/
lemma exists_rdropWhile (c : UInt8) (s : List UInt8) :
    ∃ b, (∀ d ∈ b, d = c) ∧ s = s.rdropWhile (· == c) ++ b := by
  refine ⟨s.rtakeWhile (· == c), fun d hd => ?_, (List.rdropWhile_append_rtakeWhile).symm⟩
  simpa using List.mem_rtakeWhile_imp hd

/-- The end of two texts is the end of the second. -/
lemma getLast?_append_of_ne_nil (a : List UInt8) (hs : s ≠ []) :
    (a ++ s).getLast? = s.getLast? := by
  rw [List.getLast?_append, List.getLast?_eq_some_getLast hs, Option.some_or]

/-- The beginning of two texts is the beginning of the first. -/
lemma head?_append_of_ne_nil (hs : s ≠ []) (b : List UInt8) : (s ++ b).head? = s.head? := by
  cases s with
  | nil => exact absurd rfl hs
  | cons c s => rfl

/-! ## What is left -/

/-- **Blanks around a text are removed.** -/
theorem trim_append (ha : Spaces a) (hs : Solid s) (hb : Spaces b) : trim (a ++ s ++ b) = s := by
  rw [trim_eq, List.append_assoc, dropWhile_spaces ha,
    dropWhile_of_head (by rw [head?_append_of_ne_nil hs.ne_nil]; exact hs.head_ne),
    rdropWhile_append_all hb, rdropWhile_of_getLast hs.blank_ne, rdropWhile_of_getLast hs.cr_ne,
    rdropWhile_of_getLast hs.lf_ne]

/-- A solid text is trimmed to itself. -/
lemma Solid.trim_eq (hs : Solid s) : trim s = s := by
  simpa using trim_append spaces_nil hs spaces_nil

/-- A solid text stays, whatever stands behind it. -/
lemma exists_trim_append (ha : Spaces a) (hs : Solid s) (t : List UInt8) :
    ∃ t', trim (a ++ s ++ t) = s ++ t' := by
  refine ⟨((t.rdropWhile (· == 32)).rdropWhile (· == 13)).rdropWhile (· == 10), ?_⟩
  rw [Strings.trim_eq, List.append_assoc, dropWhile_spaces ha,
    dropWhile_of_head (by rw [head?_append_of_ne_nil hs.ne_nil]; exact hs.head_ne),
    rdropWhile_append_of_getLast hs.blank_ne, rdropWhile_append_of_getLast hs.cr_ne,
    rdropWhile_append_of_getLast hs.lf_ne]

/-- Blanks behind a text make no difference. -/
lemma trim_append_spaces (s : List UInt8) (hb : Spaces b) : trim (s ++ b) = trim s := by
  rw [Strings.trim_eq, Strings.trim_eq, List.dropWhile_append]
  split
  case isTrue h =>
    have hdrop : b.dropWhile (· == 32) = [] := by simpa using dropWhile_spaces hb []
    rw [hdrop, List.isEmpty_iff.mp h]
  case isFalse => rw [rdropWhile_append_all hb]

/-- Of blanks nothing is left. -/
lemma trim_spaces (ha : Spaces a) : trim a = [] := by
  have hdrop : a.dropWhile (· == 32) = [] := by simpa using dropWhile_spaces ha []
  simp [Strings.trim_eq, hdrop]

/-- **Blanks in front of a carriage return stay**, the carriage return itself is removed. -/
theorem trim_append_cr (ha : Spaces a) (hs : Solid s) (hb : Spaces b) :
    trim (a ++ s ++ b ++ [13]) = s ++ b := by
  have hlast : ∀ c, c ≠ 32 → s.getLast? ≠ some c → (s ++ b).getLast? ≠ some c := by
    intro c hc hsc
    rcases List.eq_nil_or_concat b with rfl | ⟨b', d, rfl⟩
    · simpa using hsc
    · have hd : d = 32 := hb d (by simp)
      rw [List.getLast?_append]
      simpa [hd] using hc.symm
  have hcr : (s ++ b ++ [13]).getLast? ≠ some 32 := by
    rw [List.getLast?_concat]
    decide
  rw [Strings.trim_eq, List.append_assoc, List.append_assoc, dropWhile_spaces ha,
    dropWhile_of_head (by rw [head?_append_of_ne_nil hs.ne_nil]; exact hs.head_ne),
    ← List.append_assoc, rdropWhile_of_getLast hcr, rdropWhile_append_all (by simp),
    rdropWhile_of_getLast (hlast 13 (by decide) hs.cr_ne),
    rdropWhile_of_getLast (hlast 10 (by decide) hs.lf_ne)]

/-- Of blanks in front of a carriage return nothing is left. -/
lemma trim_spaces_cr (ha : Spaces a) : trim (a ++ [13]) = [] := by
  rw [Strings.trim_eq, dropWhile_spaces ha]
  rfl

/-- Behind the blanks at the front stands what is left, and then line feeds, carriage returns and
blanks in this order. -/
lemma exists_end (s : List UInt8) :
    ∃ lf cr b, (∀ c ∈ lf, c = 10) ∧ (∀ c ∈ cr, c = 13) ∧ Spaces b ∧
      s.dropWhile (· == 32) = trim s ++ lf ++ cr ++ b := by
  obtain ⟨b, hb, hsb⟩ := exists_rdropWhile 32 (s.dropWhile (· == 32))
  obtain ⟨cr, hcr, hscr⟩ := exists_rdropWhile 13 ((s.dropWhile (· == 32)).rdropWhile (· == 32))
  obtain ⟨lf, hlf, hslf⟩ := exists_rdropWhile 10
    (((s.dropWhile (· == 32)).rdropWhile (· == 32)).rdropWhile (· == 13))
  refine ⟨lf, cr, b, hlf, hcr, hb, ?_⟩
  rw [Strings.trim_eq, ← hslf, ← hscr, ← hsb]

/-- **Every text is what is left of it, with what is removed around it**: blanks at the front, and
line feeds, carriage returns and blanks in this order at the end. -/
theorem exists_trim (s : List UInt8) :
    ∃ a lf cr b, Spaces a ∧ (∀ c ∈ lf, c = 10) ∧ (∀ c ∈ cr, c = 13) ∧ Spaces b ∧
      s = a ++ (trim s ++ lf ++ cr ++ b) := by
  obtain ⟨lf, cr, b, hlf, hcr, hb, hs⟩ := exists_end s
  refine ⟨s.takeWhile (· == 32), lf, cr, b, fun c hc => ?_, hlf, hcr, hb, ?_⟩
  · simpa using List.mem_takeWhile_imp hc
  · rw [← hs]
    exact List.takeWhile_append_dropWhile.symm

/-- What is left does not begin with a blank. -/
lemma head?_trim (s : List UInt8) : (trim s).head? ≠ some 32 := by
  have hpre : trim s <+: s.dropWhile (· == 32) := by
    rw [Strings.trim_eq]
    exact ((List.rdropWhile_prefix _ _).trans (List.rdropWhile_prefix _ _)).trans
      (List.rdropWhile_prefix _ _)
  intro h
  obtain ⟨t, ht⟩ := hpre
  have hhead : (s.dropWhile (· == 32)).head? = some 32 := by
    rw [← ht, List.head?_append, h, Option.some_or]
  have := List.head?_dropWhile_not (· == 32) s
  simp [hhead] at this

/-- What is left of a text without carriage returns and line feeds.

**Proof sketch.** What is dropped of line feeds and carriage returns is empty, since the text has
none. What is left begins and ends with no space by the conditions of the two loops. -/
lemma exists_trim_of_not_mem (hcr : 13 ∉ s) (hlf : 10 ∉ s) :
    ∃ a b, Spaces a ∧ Spaces b ∧ s = a ++ trim s ++ b ∧ (trim s ≠ [] → Solid (trim s)) := by
  obtain ⟨a, lf, cr, b, ha, hlfs, hcrs, hb, hs⟩ := exists_trim s
  have hlfnil : lf = [] := by
    refine List.eq_nil_iff_forall_not_mem.mpr fun c hc => hlf ?_
    rw [hs, ← hlfs c hc]
    simp [hc]
  have hcrnil : cr = [] := by
    refine List.eq_nil_iff_forall_not_mem.mpr fun c hc => hcr ?_
    rw [hs, ← hcrs c hc]
    simp [hc]
  have hmem : ∀ c, (trim s).getLast? = some c → c ∈ s := by
    intro c hc
    rw [hs]
    simp [List.mem_of_getLast? hc]
  have hinner : trim s = (s.dropWhile (· == 32)).rdropWhile (· == 32) := by
    have hsub : (s.dropWhile (· == 32)).rdropWhile (· == 32) <:+: s :=
      (List.rdropWhile_prefix _ _).isInfix.trans (List.dropWhile_suffix _).isInfix
    have hne : ∀ c, c ∉ s → ((s.dropWhile (· == 32)).rdropWhile (· == 32)).getLast? ≠ some c :=
      fun c hc h => hc (hsub.subset (List.mem_of_getLast? h))
    rw [Strings.trim_eq, rdropWhile_of_getLast (hne 13 hcr), rdropWhile_of_getLast (hne 10 hlf)]
  refine ⟨a, b, ha, hb, ?_, fun hne => ⟨hne, head?_trim s, fun h => ?_, fun h => hcr (hmem _ h),
    fun h => hlf (hmem _ h)⟩⟩
  · simpa [hlfnil, hcrnil] using hs
  · have hne' : (s.dropWhile (· == 32)).rdropWhile (· == 32) ≠ [] := hinner ▸ hne
    have hlast := List.rdropWhile_last_not (· == (32 : UInt8)) (s.dropWhile (· == 32)) hne'
    rw [hinner, List.getLast?_eq_some_getLast hne', Option.some_inj] at h
    exact hlast (by rw [h]; rfl)

/-- **The texts of which nothing is left.**

**Proof sketch.** A text is what was dropped of it around what is left. Conversely, if there is a
line feed or a carriage return, then the loops drop one kind after the other in this order and
nothing is left; without any, all of the text is spaces. -/
theorem trim_eq_nil_iff :
    trim s = [] ↔ ∃ a lf cr b, Spaces a ∧ (∀ c ∈ lf, c = 10) ∧ (∀ c ∈ cr, c = 13) ∧ Spaces b ∧
      s = a ++ (lf ++ cr ++ b) := by
  constructor
  · intro h
    obtain ⟨a, lf, cr, b, ha, hlf, hcr, hb, hs⟩ := exists_trim s
    rw [h] at hs
    exact ⟨a, lf, cr, b, ha, hlf, hcr, hb, hs⟩
  · rintro ⟨a, lf, cr, b, ha, hlf, hcr, hb, rfl⟩
    -- with nothing in between, the blanks at the end are blanks at the front
    by_cases hmid : lf ++ cr = []
    · rw [hmid, List.nil_append]
      exact trim_spaces (ha.append hb)
    · have hhead : (lf ++ cr ++ b).head? ≠ some 32 := by
        rw [head?_append_of_ne_nil hmid]
        intro h
        have hmem := List.mem_of_mem_head? h
        rcases List.mem_append.mp hmem with h | h
        · exact absurd (hlf _ h) (by decide)
        · exact absurd (hcr _ h) (by decide)
      have hlast : (lf ++ cr).getLast? ≠ some 32 := by
        intro h
        rcases List.mem_append.mp (List.mem_of_getLast? h) with h | h
        · exact absurd (hlf _ h) (by decide)
        · exact absurd (hcr _ h) (by decide)
      have hall : lf.rdropWhile (· == 10) = [] := by
        rw [List.rdropWhile_eq_nil_iff]
        intro c hc
        simp [hlf c hc]
      have hlfLast : lf.getLast? ≠ some 13 := by
        intro h
        exact absurd (hlf _ (List.mem_of_getLast? h)) (by decide)
      rw [Strings.trim_eq, dropWhile_spaces ha, dropWhile_of_head hhead, rdropWhile_append_all hb,
        rdropWhile_of_getLast hlast, rdropWhile_append_all hcr, rdropWhile_of_getLast hlfLast, hall]

end Strings
