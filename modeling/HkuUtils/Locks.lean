import HkuUtils.Threads

set_option relaxedAutoImplicit false
set_option autoImplicit false

/-!
# Threads that share a lock

A lock in the memory that a thread holds in some of its local states. An action of a thread takes
the lock, gives it back or leaves it, so that there is at most one holder. What the holder knows has
to be kept only by those actions of the others that they take without the lock.

## Main definitions

* `Locks.Counted` — the lock is taken exactly if one thread holds it.
* `Locks.Protected` — an invariant of the memory, and what the holder knows.

## Main results

* `Locks.step_locked`, `run_locked` — **the invariant and the knowledge of the holder** are kept.
-/

namespace Locks

open Transition Threads

universe u w x

variable {σ : Type u} {L : Type} {A : Type w} {E : Type x}

/-- Of two elements of a kind that is there at most once, both are the same.

**Proof sketch.** By induction on the list. If the first element is of the kind, then no other one
is. -/
lemma eq_of_countP_le_one {α : Type} {p : α → Bool} {ls : List α} (h : ls.countP p ≤ 1) {i j : ℕ}
    {a b : α} (hi : ls[i]? = some a) (hj : ls[j]? = some b) (ha : p a = true) (hb : p b = true) :
    i = j := by
  induction ls generalizing i j with
  | nil => simp at hi
  | cons x ls ih =>
    rw [List.countP_cons] at h
    cases i with
    | zero =>
      cases j with
      | zero => rfl
      | succ j =>
        obtain rfl : x = a := by simpa using hi
        rw [if_pos ha] at h
        have hpos : 0 < ls.countP p :=
          List.countP_pos_iff.2 ⟨b, List.mem_of_getElem? (by simpa using hj), hb⟩
        omega
    | succ i =>
      cases j with
      | zero =>
        obtain rfl : x = b := by simpa using hj
        rw [if_pos hb] at h
        have hpos : 0 < ls.countP p :=
          List.countP_pos_iff.2 ⟨a, List.mem_of_getElem? (by simpa using hi), ha⟩
        omega
      | succ j =>
        have hij := ih (i := i) (j := j) (by omega) (by simpa using hi) (by simpa using hj)
        rw [hij]

/-- The lock is taken exactly if one thread holds it. -/
def Counted (locked : σ → Bool) (holds : L → Bool) (s : State σ L) : Prop :=
  s.threads.countP holds = (locked s.shared).toNat

/-- An invariant of the memory, and what the holder of the lock knows. -/
structure Protected (locked : σ → Bool) (holds : L → Bool) (I : σ → Prop) (Q : σ → L → Prop)
    (s : State σ L) : Prop where
  counted : Counted locked holds s
  memory : I s.shared
  holder : ∀ l ∈ s.threads, holds l = true → Q s.shared l

/-- **The lock and its holders** in a program: what the actions and the environment have to keep.

`holds` says of a place in the program whether a thread there has the lock, `I` is what the lock
protects, and `Q` is what the holder knows. -/
structure Discipline (prog : Program σ L A E) (locked : σ → Bool) (holds : L → Bool) (I : σ → Prop)
    (Q : σ → L → Prop) : Prop where
  start : holds prog.start = false
  /-- An action takes the lock if it is free, gives it back or leaves it. -/
  lock : ∀ {m l a m' l'}, prog.act m l a = some (m', l') → (holds l = true → locked m = true) →
    (locked m').toNat + (holds l).toNat = (locked m).toNat + (holds l').toNat
  /-- An action keeps the invariant, and the thread knows what it has to know afterwards. -/
  own : ∀ {m l a m' l'}, prog.act m l a = some (m', l') → I m → (holds l = true → Q m l) →
    I m' ∧ (holds l' = true → Q m' l')
  /-- An action without the lock keeps what another thread knows that has it. -/
  other : ∀ {m l a m' l' k}, prog.act m l a = some (m', l') → I m → holds l = false →
    holds l' = false → holds k = true → Q m k → Q m' k
  env : ∀ {m e m'}, prog.env m e = some m' → I m →
    locked m' = locked m ∧ I m' ∧ ∀ k, holds k = true → Q m k → Q m' k

variable {prog : Program σ L A E} {locked : σ → Bool} {holds : L → Bool} {I : σ → Prop}
  {Q : σ → L → Prop} {s t : State σ L}

/-- The holder is the only one. -/
lemma Counted.unique (h : Counted locked holds s) {i j : ℕ} {l k : L} (hi : s.threads[i]? = some l)
    (hj : s.threads[j]? = some k) (hl : holds l = true) (hk : holds k = true) : i = j := by
  apply eq_of_countP_le_one _ hi hj hl hk
  rw [h]
  cases locked s.shared <;> decide

/-- No thread holds a lock that is free. -/
lemma Counted.not_holds (h : Counted locked holds s) (hfree : locked s.shared = false) {l : L}
    (hl : l ∈ s.threads) : holds l = false := by
  rw [Counted, hfree] at h
  exact Bool.eq_false_of_not_eq_true (List.countP_eq_zero.1 h l hl)

/-- A lock that a thread holds is taken. -/
lemma Counted.taken (h : Counted locked holds s) {l : L} (hl : l ∈ s.threads)
    (hholds : holds l = true) : locked s.shared = true := by
  apply Bool.eq_true_of_not_eq_false
  intro hfree
  exact absurd ((h.not_holds hfree hl).symm.trans hholds) (by decide)

/-- A step keeps the number of holders. -/
lemma Counted.set (h : Counted locked holds s) {i : ℕ} {l l' : L} {m : σ}
    (hl : s.threads[i]? = some l)
    (hlock : (locked m).toNat + (holds l).toNat = (locked s.shared).toNat + (holds l').toNat) :
    Counted locked holds ⟨m, s.threads.set i l'⟩ := by
  have hset := countP_set_add holds hl l'
  have htoNat : ∀ b : Bool, (if b = true then 1 else 0) = b.toNat := by decide
  rw [htoNat, htoNat, h] at hset
  change (s.threads.set i l').countP holds = (locked m).toNat
  omega

/-- **A step** keeps the invariant and the knowledge of the holder.

**Proof sketch.** One case for each step. The thread that moves holds the lock before and after it
by its own discipline; another thread holds it at the same time in no case, so what that one knows
is not touched. -/
theorem step_locked (hd : Discipline prog locked holds I Q) (h : Protected locked holds I Q s)
    {e : Event A E} (hstep : prog.step s e = some t) : Protected locked holds I Q t := by
  obtain ⟨hcounted, hmemory, hholder⟩ := h
  cases Program.steps_of_step hstep with
  | spawn =>
    refine ⟨?_, hmemory, fun l hl => ?_⟩
    · rw [Counted, List.countP_append, List.countP_singleton, hd.start, hcounted]
      rfl
    · rcases List.mem_append.1 hl with hl | hl
      · exact hholder l hl
      · obtain rfl := List.mem_singleton.1 hl
        intro hstart
        exact absurd (hd.start.symm.trans hstart) (by decide)
  | @act i a l l' m hl ha =>
    obtain ⟨hmemory', hown⟩ := hd.own ha hmemory (hholder l (List.mem_of_getElem? hl))
    have hlock := hd.lock ha (hcounted.taken (List.mem_of_getElem? hl))
    refine ⟨hcounted.set hl hlock, hmemory', fun k hk hkholds => ?_⟩
    obtain ⟨j, hj⟩ := List.mem_iff_getElem?.1 hk
    by_cases hij : i = j
    · subst hij
      rw [List.getElem?_set_self (List.getElem?_eq_some_iff.1 hl).1] at hj
      obtain rfl := Option.some.inj hj
      exact hown hkholds
    · have hj' : s.threads[j]? = some k := by rwa [List.getElem?_set_ne hij] at hj
      cases hlholds : holds l with
      | true => exact absurd (hcounted.unique hl hj' hlholds hkholds) hij
      | false =>
        cases hl'holds : holds l' with
        | true =>
          -- the lock was free
          have hfree : locked s.shared = false := by
            rw [hlholds, hl'holds] at hlock
            cases hcase : locked s.shared with
            | false => rfl
            | true =>
              rw [hcase] at hlock
              have hle := Bool.toNat_le (locked m)
              simp at hlock
              omega
          have hno := hcounted.not_holds hfree (List.mem_of_getElem? hj')
          exact absurd (hno.symm.trans hkholds) (by decide)
        | false =>
          exact hd.other ha hmemory hlholds hl'holds hkholds
            (hholder k (List.mem_of_getElem? hj') hkholds)
  | env he =>
    obtain ⟨hlocked, hmemory', hkeep⟩ := hd.env he hmemory
    refine ⟨?_, hmemory', fun k hk hkholds => hkeep k hkholds (hholder k hk hkholds)⟩
    rw [Counted, hlocked]
    exact hcounted

/-- **A run** keeps the invariant and the knowledge of the holder. -/
theorem run_locked (hd : Discipline prog locked holds I Q) {m : σ} (hI : I m)
    (hfree : locked m = false) {es : List (Event A E)} (hrun : (prog.system m).run es = some s) :
    Protected locked holds I Q s := by
  refine System.run_invariant (I := Protected locked holds I Q) ?_
    (fun _ _ _ h hstep => step_locked hd h hstep) hrun
  refine ⟨?_, hI, fun l hl => absurd hl (by simp [Program.system])⟩
  rw [Counted]
  change 0 = (locked m).toNat
  rw [hfree]
  rfl

end Locks
