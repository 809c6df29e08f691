import HkuUtils.Strings.Trim

set_option relaxedAutoImplicit false
set_option autoImplicit false

/-!
# What `trim` leaves at the ends

At the end `trim` erases blanks, then carriage returns, then line feeds, each kind once. Where these
letters stand in the opposite order, line feeds first and blanks last, all of them are erased and
`trim` has nothing left to do. In any other order something stays: of a line that ends with `\r\n`
the carriage return, of one with blanks in front of `\r` the blanks.

## Main definitions

* `Strings.Clean` — nothing that `trim` erases is at the ends of a text.
* `Strings.lineEnd` — the letters at the end of a text that `trim` could erase.
* `Strings.InOrder` — they are in the order in which all are erased.

## Main results

* `Strings.clean_trim_iff` — when nothing is left at the ends.
* `Strings.trim_crlf_ne` — the two line endings never give the same text.
* `Strings.trim_eq_self_iff` — the texts that `trim` does not change.
-/

namespace Strings

variable {s t m e : List UInt8}

/-- A letter that `trim` erases at the end. -/
def ends (c : UInt8) : Bool := c == 32 || c == 13 || c == 10

/-- A text that neither begins nor ends with anything that `trim` erases there. -/
structure Clean (s : List UInt8) : Prop where
  head_ne : s.head? ≠ some 32
  last_ne : ∀ c, s.getLast? = some c → ends c = false

/-- The letters at the end of a text that `trim` could erase, behind the blanks at the front. -/
def lineEnd (s : List UInt8) : List UInt8 := (s.dropWhile (· == 32)).rtakeWhile ends

/-- Line feeds, then carriage returns, then blanks. -/
def InOrder (e : List UInt8) : Prop :=
  ∃ lf cr b, (∀ c ∈ lf, c = 10) ∧ (∀ c ∈ cr, c = 13) ∧ Spaces b ∧ e = lf ++ cr ++ b

/-! ## The end of a text -/

/-- What is dropped at an end are blanks, carriage returns and line feeds. -/
lemma InOrder.all_ends (h : InOrder e) : ∀ c ∈ e, ends c = true := by
  obtain ⟨lf, cr, b, hlf, hcr, hb, rfl⟩ := h
  intro c hc
  rw [List.mem_append, List.mem_append] at hc
  rcases hc with (hc | hc) | hc
  · rw [hlf c hc]
    rfl
  · rw [hcr c hc]
    rfl
  · rw [hb c hc]
    rfl

/-- The longest end with a property, when what is in front of it does not end with it. -/
lemma rtakeWhile_append {p : UInt8 → Bool} (hm : ∀ c, m.getLast? = some c → p c = false)
    (he : ∀ c ∈ e, p c = true) : (m ++ e).rtakeWhile p = e := by
  have hstop : m.reverse.takeWhile p = [] := by
    cases hrev : m.reverse with
    | nil => rfl
    | cons c l =>
      have hlast : m.getLast? = some c := by
        rw [← List.head?_reverse, hrev, List.head?_cons]
      simp [hm c hlast]
  rw [List.rtakeWhile, List.reverse_append, List.takeWhile_append_of_pos, hstop, List.append_nil,
    List.reverse_reverse]
  intro c hc
  exact he c (List.mem_reverse.mp hc)

/-- What is in front of the longest end with a property does not end with it. -/
lemma getLast?_rdropWhile {p : UInt8 → Bool} (s : List UInt8) :
    ∀ c, (s.rdropWhile p).getLast? = some c → p c = false := by
  intro c hc
  have hne : s.rdropWhile p ≠ [] := by
    intro hnil
    simp [hnil] at hc
  rw [List.getLast?_eq_some_getLast hne, Option.some_inj] at hc
  have hlast := List.rdropWhile_last_not p s hne
  rwa [hc, Bool.not_eq_true] at hlast

/-- A text does not end with a letter that neither its front nor its back ends with. -/
lemma getLast?_append_ne {c : UInt8} (hm : m.getLast? ≠ some c) (ht : c ∉ t) :
    (m ++ t).getLast? ≠ some c := by
  rw [List.getLast?_append]
  cases hlast : t.getLast? with
  | none => simpa using hm
  | some d =>
    rw [Option.some_or]
    intro h
    exact ht (List.mem_of_getLast? (hlast.trans h))

/-- A clean text ends with no character that is dropped. -/
lemma Clean.last_ne' (h : Clean s) {c : UInt8} (hc : ends c = true) : s.getLast? ≠ some c := by
  intro hlast
  rw [h.last_ne c hlast] at hc
  cases hc

/-- Of a clean text nothing is erased. -/
lemma Clean.trim_eq (h : Clean s) : trim s = s := by
  rw [Strings.trim_eq, dropWhile_of_head h.head_ne, rdropWhile_of_getLast (h.last_ne' rfl),
    rdropWhile_of_getLast (h.last_ne' rfl), rdropWhile_of_getLast (h.last_ne' rfl)]

/-- An end in order is erased. -/
lemma rdropWhile_inOrder (hm : ∀ c, m.getLast? = some c → ends c = false) (he : InOrder e) :
    (((m ++ e).rdropWhile (· == 32)).rdropWhile (· == 13)).rdropWhile (· == 10) = m := by
  obtain ⟨lf, cr, b, hlf, hcr, hb, rfl⟩ := he
  have hne : ∀ c, ends c = true → m.getLast? ≠ some c := by
    intro c hc hlast
    rw [hm c hlast] at hc
    cases hc
  have hlf13 : (m ++ lf).getLast? ≠ some 13 :=
    getLast?_append_ne (hne 13 rfl) fun h => absurd (hlf 13 h) (by decide)
  have hlf32 : (m ++ lf).getLast? ≠ some 32 :=
    getLast?_append_ne (hne 32 rfl) fun h => absurd (hlf 32 h) (by decide)
  have hcr32 : (m ++ lf ++ cr).getLast? ≠ some 32 :=
    getLast?_append_ne hlf32 fun h => absurd (hcr 32 h) (by decide)
  rw [← List.append_assoc, ← List.append_assoc, rdropWhile_append_all hb,
    rdropWhile_of_getLast hcr32, rdropWhile_append_all hcr, rdropWhile_of_getLast hlf13,
    rdropWhile_append_all hlf, rdropWhile_of_getLast (hne 10 rfl)]

/-- What is erased at the end is in order. -/
lemma exists_inOrder (s : List UInt8) :
    ∃ e, InOrder e ∧ s.dropWhile (· == 32) = trim s ++ e := by
  obtain ⟨lf, cr, b, hlf, hcr, hb, hs⟩ := exists_end s
  refine ⟨lf ++ cr ++ b, ⟨lf, cr, b, hlf, hcr, hb, rfl⟩, ?_⟩
  rw [hs, ← List.append_assoc, ← List.append_assoc]

/-! ## When nothing is left -/

/-- **Nothing that `trim` erases is left at the ends** exactly when the end of the text is in
order.

**Proof sketch.** What `trim` erases at the end is in order, and it is the whole end when the rest
is clean. Conversely an end in order is erased. -/
theorem clean_trim_iff : Clean (trim s) ↔ InOrder (lineEnd s) := by
  constructor
  · intro h
    obtain ⟨e, he, hs⟩ := exists_inOrder s
    rw [lineEnd, hs, rtakeWhile_append h.last_ne he.all_ends]
    exact he
  · intro h
    refine ⟨head?_trim s, ?_⟩
    have hsplit : (s.dropWhile (· == 32)).rdropWhile ends ++ lineEnd s = s.dropWhile (· == 32) :=
      List.rdropWhile_append_rtakeWhile
    have hlast := getLast?_rdropWhile (p := ends) (s.dropWhile (· == 32))
    rw [Strings.trim_eq, ← hsplit, rdropWhile_inOrder hlast h]
    exact hlast

/-- **The texts that `trim` does not change** are the clean ones.

**Proof sketch.** The text that is left is a part of the text at each of the four steps. If it is
as long as the text, then no step has dropped anything, so the text has none of these characters at
its ends. -/
theorem trim_eq_self_iff : trim s = s ↔ Clean s := by
  refine ⟨fun h => ?_, Clean.trim_eq⟩
  rw [Strings.trim_eq] at h
  -- each of the four steps makes the text shorter or leaves it as it is
  have h1 := List.dropWhile_suffix (l := s) (· == (32 : UInt8))
  have h2 := List.rdropWhile_prefix (· == (32 : UInt8)) (s.dropWhile (· == 32))
  have h3 := List.rdropWhile_prefix (· == (13 : UInt8))
    ((s.dropWhile (· == 32)).rdropWhile (· == 32))
  have h4 := List.rdropWhile_prefix (· == (10 : UInt8))
    (((s.dropWhile (· == 32)).rdropWhile (· == 32)).rdropWhile (· == 13))
  rw [h] at h4
  have e1 := h1.eq_of_length_le (h4.length_le.trans (h3.length_le.trans h2.length_le))
  rw [e1] at h2 h3 h4 h
  have e2 := h2.eq_of_length_le (h4.length_le.trans h3.length_le)
  rw [e2] at h3 h4 h
  have e3 := h3.eq_of_length_le h4.length_le
  rw [e3] at h
  refine ⟨?_, fun c hc => ?_⟩
  · rw [← e1]
    intro hhead
    have := List.head?_dropWhile_not (· == 32) s
    simp [hhead] at this
  · have h32 := getLast?_rdropWhile (p := (· == 32)) s c (by rwa [e2])
    have h13 := getLast?_rdropWhile (p := (· == 13)) s c (by rwa [e3])
    have h10 := getLast?_rdropWhile (p := (· == 10)) s c (by rwa [h])
    rw [ends, h32, h13, h10]
    rfl

/-! ## The two line endings -/

/-- Blanks are erased from the front alone when something else stands behind them. -/
lemma dropWhile_append_of_head (h : t.head? ≠ some 32) (s : List UInt8) :
    (s ++ t).dropWhile (· == 32) = s.dropWhile (· == 32) ++ t := by
  rw [List.dropWhile_append]
  split
  · next hnil => rw [List.isEmpty_iff.mp hnil, dropWhile_of_head h, List.nil_append]
  · rfl

/-- A line feed at the end is erased, with those in front of it. -/
lemma trim_append_lf (s : List UInt8) :
    trim (s ++ [10]) = (s.dropWhile (· == 32)).rdropWhile (· == 10) := by
  rw [Strings.trim_eq, dropWhile_append_of_head (by decide)]
  have hlast : (s.dropWhile (· == 32) ++ [10]).getLast? = some 10 := List.getLast?_concat
  have h32 : (s.dropWhile (· == 32) ++ [10]).getLast? ≠ some 32 := by simp [hlast]
  have h13 : (s.dropWhile (· == 32) ++ [10]).getLast? ≠ some 13 := by simp [hlast]
  rw [rdropWhile_of_getLast h32, rdropWhile_of_getLast h13, rdropWhile_append_all (by simp)]

/-- **`\r\n` and `\n` never give the same text**: the carriage return stays. -/
theorem trim_crlf_ne (s : List UInt8) : trim (s ++ [13, 10]) ≠ trim (s ++ [10]) := by
  have hcr : ((s ++ [13]).dropWhile (· == 32)).getLast? ≠ some 10 := by
    rw [dropWhile_append_of_head (by decide), List.getLast?_concat]
    decide
  have hsplit : s ++ [13, 10] = s ++ [13] ++ [10] := by simp
  rw [hsplit, trim_append_lf, trim_append_lf, rdropWhile_of_getLast hcr,
    dropWhile_append_of_head (by decide)]
  intro h
  have hle := (List.rdropWhile_prefix (· == (10 : UInt8)) (s.dropWhile (· == 32))).length_le
  rw [← h, List.length_append, List.length_singleton] at hle
  omega

/-- **What `trim` is for**, and when it does it: a second `trim` changes nothing and nothing that
it erases is left at the ends exactly when the end of the text is in order; and the two line
endings never come to the same.

**Proof sketch.** A second `trim` changes nothing exactly if the first has left a clean text, so
both parts of the first statement are the same. -/
theorem trim_projects_iff (s : List UInt8) :
    ((trim (trim s) = trim s ∧ Clean (trim s)) ↔ InOrder (lineEnd s)) ∧
      trim (s ++ [13, 10]) ≠ trim (s ++ [10]) := by
  refine ⟨?_, trim_crlf_ne s⟩
  rw [trim_eq_self_iff, and_self_iff]
  exact clean_trim_iff

/-- Of `text\r\n` the first `trim` leaves `text\r`, and the second one `text`. -/
theorem not_trim_projects :
    ¬ ∀ s : List UInt8, trim (trim s) = trim s ∧ Clean (trim s) ∧
      trim (s ++ [13, 10]) = trim (s ++ [10]) := by
  intro h
  have htwice := (h [116, 101, 120, 116, 13, 10]).1
  revert htwice
  decide

end Strings
