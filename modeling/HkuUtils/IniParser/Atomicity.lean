import HkuUtils.IniParser.Documents

set_option relaxedAutoImplicit false
set_option autoImplicit false

/-!
# What a failed reading leaves

`read` stores each line when it comes to it and throws when it has read the file, or from the middle
of it if `at` throws. A parser therefore keeps what stood on the lines in order of a file in error.

## Main definitions

* `IniParser.AllInOrder` — no line that is read is in error.
* `IniParser.Present` — what the lines that are read store is in the parser.

## Main results

* `IniParser.read_atomic_iff` — when a reading that throws leaves the parser as it was.
-/

open Search (text)

namespace IniParser

/-- No line of the file that is read is in error. -/
def AllInOrder (bytes : List UInt8) : Prop :=
  ∀ pre i post sec, items bytes = pre ++ i :: post → Reaches [] pre sec → ¬ InError sec i

/-- What the lines of the file that are read store is in the parser: the sections that they enter,
and as the value of each option the one that they assign last. -/
def Present (bytes : List UInt8) (m : Sections) : Prop :=
  (∀ w ∈ writesOf [] (items bytes), w.key ∈ m) ∧
    ∀ s k v, NestedMap.assigned (writesOf [] (items bytes)) s k = some v → m.value s k = some v

/-- A file that cannot be opened changes nothing. -/
lemma read_none (filename : List UInt8) (m : Sections) : (read filename none m).2 = m := rfl

/-- **What a reading leaves**, whether it throws or not. -/
lemma read_snd (filename bytes : List UInt8) (m : Sections) :
    (read filename (some bytes) m).2 = NestedMap.writes (writesOf [] (items bytes)) m := by
  rw [read_eq]

/-- **A reading that throws leaves the parser as it was** exactly when the file cannot be opened,
no line of it that is read is in error (then nothing is thrown), or what the lines that are read
store is in the parser already.

**Proof sketch.** A reading throws exactly if a line is in error, and what it leaves is the map
after the writes of its lines. These change nothing exactly if what they store is there. -/
theorem read_atomic_iff (filename : List UInt8) (inifile : Option (List UInt8)) (m : Sections) :
    ((∃ e, (read filename inifile m).1 = .error e) → (read filename inifile m).2 = m) ↔
      ∀ bytes, inifile = some bytes → AllInOrder bytes ∨ Present bytes m := by
  cases inifile with
  | none => simp [read_none]
  | some bytes =>
    have hthrows : (∃ e, (read filename (some bytes) m).1 = .error e) ↔ ¬ AllInOrder bytes := by
      rw [AllInOrder, ← faultless_iff, ← read_ok_iff filename bytes m]
      cases (read filename (some bytes) m).1 <;> simp
    rw [hthrows, read_snd, NestedMap.writes_eq_self_iff]
    simp only [Option.some.injEq, forall_eq', Present]
    tauto

/-- The option above the line in error stays. -/
theorem not_read_atomic :
    ¬ ((∃ e, (read [] (some (text "[s]\nk=1\nx")) ∅).1 = .error e) →
      (read [] (some (text "[s]\nk=1\nx")) ∅).2 = ∅) := by
  intro h
  have hvalue := congrArg (fun m => NestedMap.value m [115] [107])
    (h ⟨.logicError [(3, [120])], rfl⟩)
  exact absurd hvalue (by decide)

end IniParser
