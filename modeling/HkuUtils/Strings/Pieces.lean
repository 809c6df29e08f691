import HkuUtils.Separators
import HkuUtils.Strings.Split

set_option relaxedAutoImplicit false
set_option autoImplicit false

/-!
# The pieces of `split`

The overloads of `split`, with the positions that their loop moves: `pos` at the next separator and
`prepos` behind the last one. Each cuts the text at the occurrences of its separator, and the
`split` for a single letter is the one that the other files use.

## Main definitions

* `Strings.splitChar`, `splitViewChar`, `splitString` — the overloads of the source.

## Main results

* `Strings.splitLoop_cuts` — the loop ends, and cuts the rest of the text.
* `Strings.splitChar_eq` — the pieces of the model without positions.
* `Strings.split_pieces` — the pieces joined are the text, and they are what they should be.
-/

namespace Strings

open Separators

variable {s sep : List UInt8} {c : UInt8}

/-! ## The functions -/

/-- `substr(pos, n)`, with `none` for the exception where `pos` is behind the end. -/
def substr (s : List UInt8) (pos n : ℕ) : Option (List UInt8) :=
  if pos ≤ s.length then some ((s.drop pos).take n) else none

/-- `find_first_of(c, pos)`, with `none` for `npos`. -/
def findFirstOf (s : List UInt8) (c : UInt8) (pos : ℕ) : Option ℕ :=
  if pos ≤ s.length then ((s.drop pos).idxOf? c).map (pos + ·) else none

/-- `find(str, pos)`, with `none` for `npos`. -/
def findFrom (s str : List UInt8) (pos : ℕ) : Option ℕ :=
  if pos ≤ s.length then (Search.find str (s.drop pos)).map (pos + ·) else none

/-- How a call of `split` stands. -/
inductive Splitting where
  /-- The loop runs. -/
  | running
  /-- `substr` has thrown. -/
  | outOfRange
  | done (result : List (List UInt8))
  deriving DecidableEq, Repr

/-- The loop of `split`: `find` is the search from a position, and `len` the length of the
separator. -/
def splitLoop (view : List UInt8) (find : ℕ → Option ℕ) (len : ℕ) :
    ℕ → ℕ → Option ℕ → List (List UInt8) → Splitting
  | _, prepos, none, result =>
    match substr view prepos view.length with
    | some piece => .done (result ++ [piece])
    | none => .outOfRange
  | 0, _, some _, _ => .running
  | fuel + 1, prepos, some pos, result =>
    match substr view prepos (pos - prepos) with
    | some piece => splitLoop view find len fuel (pos + len) (find (pos + len)) (result ++ [piece])
    | none => .outOfRange

/-- `split(const std::string &, char)`. -/
def splitChar (str : List UInt8) (c : UInt8) (fuel : ℕ) : Splitting :=
  splitLoop str (findFirstOf str c) 1 fuel 0 (findFirstOf str c 0) []

/-- `split(const std::string_view &, char)`. -/
def splitViewChar (view : List UInt8) (c : UInt8) (fuel : ℕ) : Splitting :=
  splitLoop view (findFirstOf view c) 1 fuel 0 (findFirstOf view c 0) []

/-- `split(const std::string_view &, const std::string &)`. -/
def splitString (str split_str : List UInt8) (fuel : ℕ) : Splitting :=
  if split_str.length = 0 then .done [str]
  else splitLoop str (findFrom str split_str) split_str.length fuel 0 (findFrom str split_str 0) []

/-! ## The loop -/

/-- The search for a letter is that for the text of this letter. -/
lemma idxOf?_eq_find (c : UInt8) (s : List UInt8) : s.idxOf? c = Search.find [c] s := by
  induction s with
  | nil => rfl
  | cons d s ih =>
    rw [List.idxOf?_cons, ih, Search.find]
    by_cases hcd : d = c
    · simp [hcd]
    · simp [hcd, Ne.symm hcd]

/-- A single separator is a word of one letter. -/
lemma findFirstOf_eq (s : List UInt8) (c : UInt8) : findFirstOf s c = findFrom s [c] := by
  funext pos
  rw [findFirstOf, findFrom, idxOf?_eq_find]

/-- A piece in front of a separator. -/
lemma substr_eq {a t : List UInt8} {pos : ℕ} (hpos : pos ≤ s.length)
    (hs : s.drop pos = a ++ t) : substr s pos a.length = some a := by
  rw [substr, if_pos hpos, hs, List.take_left]

/-- The last piece. -/
lemma substr_rest {pos : ℕ} (hpos : pos ≤ s.length) :
    substr s pos s.length = some (s.drop pos) := by
  rw [substr, if_pos hpos, List.take_of_length_le (by simp)]

/-- **The loop ends** and cuts the rest of the text.

**Proof sketch.** By induction on the length of the rest. Where the separator is found, the rest is
the piece in front of it, the separator and a shorter rest; where it is not, the rest is the last
piece. -/
theorem splitLoop_cuts (hsep : sep ≠ []) {prepos : ℕ} (hpos : prepos ≤ s.length)
    (result : List (List UInt8)) :
    ∃ l, Cuts sep (s.drop prepos) l ∧ ∀ fuel, s.length - prepos + 1 ≤ fuel →
      splitLoop s (findFrom s sep) sep.length fuel prepos (findFrom s sep prepos) result =
        .done (result ++ l) := by
  induction hn : s.length - prepos using Nat.strong_induction_on generalizing prepos result with
  | _ n ih =>
  cases hfind : Search.find sep (s.drop prepos) with
  | none =>
    refine ⟨[s.drop prepos], .last (Search.find_eq_none_iff.mp hfind), fun fuel _ => ?_⟩
    have hfrom : findFrom s sep prepos = none := by
      rw [findFrom, if_pos hpos, hfind, Option.map_none]
    rw [hfrom]
    cases fuel <;> rw [splitLoop, substr_rest hpos]
  | some i =>
    obtain ⟨a, t, hs, rfl, hfirst⟩ := first_of_find hfind
    have hfrom : findFrom s sep prepos = some (prepos + a.length) := by
      rw [findFrom, if_pos hpos, hfind, Option.map_some]
    -- the loop goes on behind the separator, where the rest is shorter
    have hrest : s.drop (prepos + a.length + sep.length) = t := by
      rw [← List.drop_drop, ← List.drop_drop, hs, List.append_assoc, List.drop_left,
        List.drop_left]
    have hlen : s.length = prepos + a.length + sep.length + t.length := by
      have := congrArg List.length hs
      rw [List.length_drop, List.length_append, List.length_append] at this
      omega
    have hseplen := List.length_pos_of_ne_nil hsep
    obtain ⟨l, hcuts, hloop⟩ := ih (s.length - (prepos + a.length + sep.length)) (by omega)
      (by omega) (result ++ [a]) rfl
    rw [hrest] at hcuts
    refine ⟨a :: l, hs ▸ .next hfirst hcuts, fun fuel hfuel => ?_⟩
    obtain ⟨fuel, rfl⟩ : ∃ m, fuel = m + 1 := ⟨fuel - 1, by omega⟩
    rw [hfrom, splitLoop, Nat.add_sub_cancel_left,
      substr_eq hpos (hs.trans (List.append_assoc a sep t))]
    simp only
    rw [hloop fuel (by omega), List.append_assoc, List.singleton_append]

/-! ## The overloads -/

/-- A text cut at a letter. -/
lemma splitChar_cuts (s : List UInt8) (c : UInt8) :
    ∃ l, Cuts [c] s l ∧ ∀ fuel, s.length + 1 ≤ fuel → splitChar s c fuel = .done l := by
  obtain ⟨l, hcuts, hloop⟩ := splitLoop_cuts (s := s) (List.cons_ne_nil c []) (Nat.zero_le _) []
  refine ⟨l, hcuts, fun fuel hfuel => ?_⟩
  rw [splitChar, findFirstOf_eq]
  exact hloop fuel hfuel

/-- A text cut at a text. -/
lemma splitString_cuts (s : List UInt8) (hsep : sep ≠ []) :
    ∃ l, Cuts sep s l ∧ ∀ fuel, s.length + 1 ≤ fuel → splitString s sep fuel = .done l := by
  obtain ⟨l, hcuts, hloop⟩ := splitLoop_cuts (s := s) hsep (Nat.zero_le _) []
  refine ⟨l, hcuts, fun fuel hfuel => ?_⟩
  rw [splitString, if_neg (fun h => hsep (List.length_eq_zero_iff.mp h))]
  exact hloop fuel hfuel

/-- A letter as a text. -/
lemma singleton_infix_iff : [c] <:+: s ↔ c ∈ s := by
  constructor
  · intro h
    exact h.subset (List.mem_singleton_self c)
  · intro h
    obtain ⟨a, t, rfl⟩ := List.append_of_mem h
    exact ⟨a, t, by simp⟩

/-- The model without positions gives the pieces. -/
lemma split_eq_of_cuts {l : List (List UInt8)} (h : Cuts [c] s l) : split c s = l := by
  induction h with
  | last h => exact split_of_not_mem fun hmem => h (singleton_infix_iff.mpr hmem)
  | @next a t l h hl ih =>
    have hnot : c ∉ a := fun hmem =>
      h.absent (List.cons_ne_nil c []) (singleton_infix_iff.mpr hmem)
    rw [List.append_assoc, List.singleton_append, split_append hnot, ih]

/-- **The overloads for a letter** return what the model without positions does. -/
theorem splitChar_eq (s : List UInt8) (c : UInt8) {fuel : ℕ} (hfuel : s.length + 1 ≤ fuel) :
    splitChar s c fuel = .done (split c s) := by
  obtain ⟨l, hcuts, hends⟩ := splitChar_cuts s c
  rw [hends fuel hfuel, split_eq_of_cuts hcuts]

/-- **`split` inverts the joining of its pieces**, for a letter and for a text that is not empty:
the call ends, the pieces joined are the text, no piece has the separator in it, and there is one
piece more than there are occurrences of it.

**Proof sketch.** The loop cuts the text at each first occurrence of the separator, by
`splitChar_cuts` and `splitString_cuts`, and what is said of the pieces holds of any such cuts. -/
theorem split_pieces (s : List UInt8) :
    (∀ c : UInt8, ∃ l,
      (∀ fuel, s.length + 1 ≤ fuel →
        splitChar s c fuel = .done l ∧ splitViewChar s c fuel = .done l) ∧
      [c].intercalate l = s ∧ (∀ p ∈ l, c ∉ p) ∧ l.length = occurrences [c] s + 1) ∧
    ∀ sep : List UInt8, sep ≠ [] → ∃ l,
      (∀ fuel, s.length + 1 ≤ fuel → splitString s sep fuel = .done l) ∧
      sep.intercalate l = s ∧ (∀ p ∈ l, ¬ sep <:+: p) ∧ l.length = occurrences sep s + 1 := by
  constructor
  · intro c
    have hsep := List.cons_ne_nil c []
    obtain ⟨l, hcuts, hends⟩ := splitChar_cuts s c
    refine ⟨l, fun fuel hfuel => ⟨hends fuel hfuel, hends fuel hfuel⟩, hcuts.intercalate_eq,
      fun p hp hmem => ?_, hcuts.length_eq hsep⟩
    exact hcuts.absent hsep p hp (singleton_infix_iff.mpr hmem)
  · intro sep hsep
    obtain ⟨l, hcuts, hends⟩ := splitString_cuts s hsep
    exact ⟨l, hends, hcuts.intercalate_eq, hcuts.absent hsep, hcuts.length_eq hsep⟩

/-- `aaaba` cut at `aa`, which overlaps itself. -/
theorem split_pieces_overlapping :
    ∃ l, (∀ fuel, 6 ≤ fuel → splitString [97, 97, 97, 98, 97] [97, 97] fuel = .done l) ∧
      List.intercalate [97, 97] l = [97, 97, 97, 98, 97] ∧ (∀ p ∈ l, ¬ [97, 97] <:+: p) ∧
      l.length = occurrences [97, 97] ([97, 97, 97, 98, 97] : List UInt8) + 1 :=
  (split_pieces [97, 97, 97, 98, 97]).2 [97, 97] (by decide)

end Strings
