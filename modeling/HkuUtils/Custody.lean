import Mathlib.Data.List.Nodup
import Mathlib.Data.List.Perm.Basic
import Mathlib.Data.List.Range

set_option relaxedAutoImplicit false
set_option autoImplicit false

/-!
# Custody of things that are made, lent and destroyed

The owner of a stock of things makes them, keeps them idle, lends them out and at last destroys
them. `Custody.Accounted` says that the four lists that record this are right: each thing that
was made is in exactly one of the idle list, the lent list and the list of the destroyed, and
there once.

## Main definitions

* `Custody.Accounted` — the lists account for everything made.

## Main results

* `Custody.Accounted.make`, `lend`, `giveBack`, `scrapIdle`, `scrapHeld`, `flush` — the moves of
  a thing from one list to another keep the account.
* `Custody.Accounted.nodup`, `held_nodup`, `not_mem_idle_of_mem_held` — no thing is in two places or
  twice in one.
-/

namespace Custody

open scoped List

universe u

variable {α : Type u}

/-- Everything in `made` is in exactly one of `idle`, `held` and `gone`, and there once. -/
structure Accounted (made idle held gone : List α) : Prop where
  /-- No thing is made twice. -/
  made_nodup : made.Nodup
  /-- The three places together hold what was made, each thing as often as it was made. -/
  perm : idle ++ held ++ gone ~ made

namespace Accounted

variable {made idle held held' gone : List α} {a : α}

/-- The account of an empty stock. -/
lemma empty : Accounted ([] : List α) [] [] [] := ⟨List.nodup_nil, List.Perm.nil⟩

/-- The three places together hold nothing twice. -/
lemma nodup (h : Accounted made idle held gone) : (idle ++ held ++ gone).Nodup :=
  h.perm.nodup_iff.mpr h.made_nodup

/-- Nothing is lent to two borrowers. -/
lemma held_nodup (h : Accounted made idle held gone) : held.Nodup :=
  (List.nodup_append.mp (List.nodup_append.mp h.nodup).1).2.1

/-- What is lent is not idle. -/
lemma not_mem_idle_of_mem_held (h : Accounted made idle held gone) (ha : a ∈ held) : a ∉ idle :=
  fun hi => (List.nodup_append.mp (List.nodup_append.mp h.nodup).1).2.2 a hi a ha rfl

/-- What is idle was made. -/
lemma mem_made_of_mem_idle (h : Accounted made idle held gone) (ha : a ∈ idle) : a ∈ made :=
  h.perm.mem_iff.mp (by simp [ha])

/-- What is lent was made. -/
lemma mem_made_of_mem_held (h : Accounted made idle held gone) (ha : a ∈ held) : a ∈ made :=
  h.perm.mem_iff.mp (by simp [ha])

/-- The order of the lent list does not matter. -/
lemma congr_held (h : Accounted made idle held gone) (hp : held ~ held') :
    Accounted made idle held' gone :=
  ⟨h.made_nodup, ((hp.symm.append_left idle).append_right gone).trans h.perm⟩

/-- A new thing is made and lent at once. -/
lemma make (h : Accounted made idle held gone) (ha : a ∉ made) :
    Accounted (made ++ [a]) idle (a :: held) gone := by
  refine ⟨?_, ?_⟩
  · exact List.nodup_append.mpr ⟨h.made_nodup, List.nodup_singleton a,
      fun b hb c hc => by rintro rfl; exact ha (by simpa [List.mem_singleton.mp hc] using hb)⟩
  · calc idle ++ a :: held ++ gone
      _ = idle ++ a :: (held ++ gone) := by simp
      _ ~ a :: (idle ++ held ++ gone) := by rw [List.append_assoc]; exact List.perm_middle
      _ ~ a :: made := h.perm.cons a
      _ ~ made ++ [a] := (List.perm_append_singleton a made).symm

/-- An idle thing is lent. -/
lemma lend (h : Accounted made (a :: idle) held gone) : Accounted made idle (a :: held) gone := by
  refine ⟨h.made_nodup, List.Perm.trans ?_ h.perm⟩
  simp only [List.cons_append, List.append_assoc]
  exact List.perm_middle

/-- A lent thing goes to the back of the idle list. -/
lemma giveBack (h : Accounted made idle (a :: held) gone) :
    Accounted made (idle ++ [a]) held gone := by
  refine ⟨h.made_nodup, List.Perm.trans (List.Perm.of_eq ?_) h.perm⟩
  simp

/-- A lent thing is destroyed. -/
lemma scrapHeld (h : Accounted made idle (a :: held) gone) :
    Accounted made idle held (a :: gone) := by
  refine ⟨h.made_nodup, List.Perm.trans ?_ h.perm⟩
  simp only [List.cons_append, List.append_assoc]
  exact (List.perm_middle).append_left idle

/-- An idle thing is destroyed. -/
lemma scrapIdle (h : Accounted made (a :: idle) held gone) :
    Accounted made idle held (a :: gone) :=
  h.lend.scrapHeld

/-- All idle things are destroyed. -/
lemma flush (h : Accounted made idle held gone) : Accounted made [] held (idle ++ gone) := by
  refine ⟨h.made_nodup, List.Perm.trans ?_ h.perm⟩
  simp only [List.nil_append, List.append_assoc]
  exact List.perm_append_comm_assoc held idle gone

end Accounted

/-- The first element that passes a test, moved to the front. -/
lemma perm_cons_eraseP {p : α → Bool} {l : List α} {a : α} (h : l.find? p = some a) :
    l ~ a :: l.eraseP p := by
  induction l with
  | nil => simp at h
  | cons b l ih =>
    by_cases hb : p b
    · obtain rfl : b = a := by simpa [hb] using h
      simp [hb]
    · simp only [List.find?_cons_of_neg hb] at h
      rw [List.eraseP_cons_of_neg hb]
      exact ((ih h).cons b).trans (List.Perm.swap a b _)

end Custody
