import Mathlib.Tactic.SplitIfs
import HkuUtils.CString

set_option relaxedAutoImplicit false
set_option autoImplicit false

/-!
# Texts in UTF-8

The bytes of a JSON text are UTF-8. A byte below 128 is a character of its own and occurs in no
other one, so that a text can be taken apart at such bytes.

## Main definitions

* `Json.IsUtf8` — the encodings of some characters, one after the other.

## Main results

* `Json.isUtf8_append_cons_iff` — a byte below 128 stands between characters.
* `Json.isUtf8_of_lt` — bytes below 128 only.
-/

namespace Json

/-- **The bytes are UTF-8**: the encodings of some characters, one after the other. -/
def IsUtf8 (s : List UInt8) : Prop := ∃ cs : List Char, s = cs.flatMap String.utf8EncodeChar

/-- This is what the library decides on arrays of bytes. -/
lemma isValidUTF8_iff (s : List UInt8) : s.toByteArray.IsValidUTF8 ↔ IsUtf8 s := by
  constructor
  · rintro ⟨cs, hcs⟩
    exact ⟨cs, List.toByteArray_inj.mp hcs⟩
  · rintro ⟨cs, rfl⟩
    exact ⟨cs, rfl⟩

instance : DecidablePred IsUtf8 := fun s =>
  decidable_of_iff s.toByteArray.IsValidUTF8 (isValidUTF8_iff s)

/-- Two texts, one after the other. -/
lemma IsUtf8.append {s t : List UInt8} (hs : IsUtf8 s) (ht : IsUtf8 t) : IsUtf8 (s ++ t) := by
  obtain ⟨cs, rfl⟩ := hs
  obtain ⟨ds, rfl⟩ := ht
  exact ⟨cs ++ ds, List.flatMap_append.symm⟩

/-- The bytes of a character. -/
lemma isUtf8_char (ch : Char) : IsUtf8 (String.utf8EncodeChar ch) := ⟨[ch], by simp⟩

/-- A byte below 128 is a character. -/
lemma utf8EncodeChar_of_lt {c : UInt8} (hc : c < 128) :
    String.utf8EncodeChar (Char.ofUInt8 c) = [c] := by
  have h : ∀ c : UInt8, c < 128 → String.utf8EncodeChar (Char.ofUInt8 c) = [c] :=
    CString.forall_byte (by decide +kernel)
  exact h c hc

/-- **Bytes below 128 only** are characters of one byte each. -/
lemma isUtf8_of_lt {s : List UInt8} (h : ∀ c ∈ s, c < 128) : IsUtf8 s := by
  induction s with
  | nil => exact ⟨[], rfl⟩
  | cons c s ih =>
    obtain ⟨hc, hs⟩ := List.forall_mem_cons.mp h
    have hone := isUtf8_char (Char.ofUInt8 c)
    rw [utf8EncodeChar_of_lt hc] at hone
    exact hone.append (ih hs)

/-- A character is one byte below 128, or has no such byte. The bytes of a longer encoding are
built by adding to 128 or more. -/
lemma utf8EncodeChar_cases (ch : Char) :
    (∃ c, String.utf8EncodeChar ch = [c]) ∨ ∀ c ∈ String.utf8EncodeChar ch, 128 ≤ c := by
  have hbyte : ∀ k, 128 ≤ k → k < 256 → 128 ≤ UInt8.ofNat k := by
    intro k hk hlt
    rw [UInt8.le_iff_toNat_le, UInt8.toNat_ofNat_of_lt' hlt]
    exact hk
  unfold String.utf8EncodeChar
  dsimp only
  split_ifs
  · exact .inl ⟨_, rfl⟩
  all_goals
    refine .inr ?_
    simp only [List.forall_mem_cons, List.not_mem_nil, false_implies, implies_true, and_true]
    refine ⟨hbyte _ (by omega) (by omega), ?_⟩
  · exact hbyte _ (by omega) (by omega)
  · exact ⟨hbyte _ (by omega) (by omega), hbyte _ (by omega) (by omega)⟩
  · exact ⟨hbyte _ (by omega) (by omega), hbyte _ (by omega) (by omega),
      hbyte _ (by omega) (by omega)⟩

/-- **A byte below 128 stands between characters.**

**Proof sketch.** By induction on the characters of the whole text. The first of them ends before
the byte, and is a part of the text before it; or it is the byte itself, since a character of
several bytes has none below 128. -/
theorem isUtf8_append_cons_iff {c : UInt8} (hc : c < 128) (s t : List UInt8) :
    IsUtf8 (s ++ c :: t) ↔ IsUtf8 s ∧ IsUtf8 t := by
  constructor
  · rintro ⟨cs, hcs⟩
    induction cs generalizing s with
    | nil => exact absurd hcs (by simp)
    | cons ch cs ih =>
      rw [List.flatMap_cons] at hcs
      rcases List.append_eq_append_iff.mp hcs with ⟨u, hu, hrest⟩ | ⟨u, rfl, hrest⟩
      · cases u with
        | nil =>
          rw [List.append_nil] at hu
          exact ⟨hu ▸ isUtf8_char ch, (ih [] hrest).2⟩
        | cons d u =>
          obtain ⟨rfl, ht⟩ := List.cons.inj hrest
          rcases utf8EncodeChar_cases ch with ⟨d, hone⟩ | hhigh
          · rw [hone] at hu
            obtain ⟨rfl, hlast⟩ | ⟨-, hlast⟩ := List.append_eq_singleton_iff.mp hu.symm
            · rw [(List.cons.inj hlast).2] at ht
              exact ⟨⟨[], rfl⟩, cs, ht⟩
            · exact absurd hlast (List.cons_ne_nil _ _)
          · have hmem : c ∈ String.utf8EncodeChar ch := by simp [hu]
            exact absurd hc (UInt8.not_lt.mpr (hhigh c hmem))
      · obtain ⟨hu, ht⟩ := ih u hrest.symm
        exact ⟨(isUtf8_char ch).append hu, ht⟩
  · rintro ⟨hs, ht⟩
    have hone : IsUtf8 [c] := isUtf8_of_lt (by simpa using hc)
    simpa using hs.append (hone.append ht)

/-- A byte below 128 in front of a text. -/
lemma isUtf8_cons_iff {c : UInt8} (hc : c < 128) (t : List UInt8) : IsUtf8 (c :: t) ↔ IsUtf8 t :=
  (isUtf8_append_cons_iff hc [] t).trans (and_iff_right ⟨[], rfl⟩)

end Json
