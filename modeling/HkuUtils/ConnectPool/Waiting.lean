import Mathlib.Data.Nat.Find
import HkuUtils.ConnectPool.Model

set_option relaxedAutoImplicit false
set_option autoImplicit false

/-!
# Waiting for a connection

`getAndWait` with a timeout asks at once and then every 100 ms. The attempt counter is compared
with its limit after a further `getConnect` and before the result of that is looked at. With
`max_count` the whole number of tenths of a second in the timeout, the connection of one of the
attempts 0 to `max_count` is returned, and the attempt `max_count + 1` is made and given up whatever
it has found.

## Main definitions

* `HkuUtils.ConnectPool.GivesUpLast` — the call throws only if it never had a connection, and
  returns the one it had.
* `HkuUtils.ConnectPool.TooLate` — a connection is there at the last attempt, and not before.

## Main results

* `HkuUtils.ConnectPool.getAndWait_of_obtained`, `getAndWait_of_busy` — how a call ends.
* `HkuUtils.ConnectPool.getAndWait_ends` — every call with a timeout ends.
* `HkuUtils.ConnectPool.getAndWait_not_threw` — a call without one never throws.
* `HkuUtils.ConnectPool.getAndWait_givesUpLast_iff` — no connection is lost exactly when it is not
  there too late.
-/

namespace HkuUtils.ConnectPool

variable {P : Type} {timeout : ℤ} {polls : ℕ → Poll P}

/-- An attempt without result. -/
lemma Poll.attempt_null_iff {p : Poll P} : p.attempt = .null ↔ p.pool.Busy := getConnect_null_iff

/-- An attempt with a connection. -/
lemma Poll.exists_connected_iff {p : Poll P} : (∃ h, p.attempt = .connected h) ↔ p.Yields :=
  getConnect_connected_iff

/-- The number of attempts that a timeout has room for, not counting the first. -/
def maxPolls (timeout : ℤ) : ℕ := timeout.toNat / 100

/-- The limit of the counter. -/
lemma maxCount_eq (hpos : 0 < timeout) : maxCount timeout = maxPolls timeout := by
  obtain ⟨n, rfl⟩ := Int.eq_ofNat_of_zero_le hpos.le
  rw [maxCount, sleep, maxPolls, Int.tdiv_eq_ediv_of_nonneg hpos.le]
  simp

/-! ## How a call ends -/

/-- While the counter is below its limit, an attempt without result is one turn of the loop. -/
lemma waitLoop_null (hpos : 0 < timeout) {n : ℕ} (hn : n < maxPolls timeout) (fuel : ℕ)
    (hnull : (polls (n + 1)).attempt = .null) :
    waitLoop timeout polls (fuel + 1) n n .null =
      waitLoop timeout polls fuel (n + 1) (n + 1 : ℕ) .null := by
  have hlt : (n : ℤ) < maxCount timeout := by
    rw [maxCount_eq hpos]
    exact_mod_cast hn
  rw [waitLoop, hnull]
  simp only [if_pos hpos, if_pos hlt, Nat.cast_add, Nat.cast_one]

/-- **The attempts without result at the front.** After `n` of them the counter is `n`. -/
lemma waitLoop_skip (hpos : 0 < timeout) {n : ℕ} (hn : n ≤ maxPolls timeout) (fuel : ℕ)
    (hnull : ∀ i ≤ n, (polls i).attempt = .null) :
    getAndWait timeout polls (fuel + n) = waitLoop timeout polls fuel n n .null := by
  induction n generalizing fuel with
  | zero =>
    rw [getAndWait, hnull 0 le_rfl]
    rfl
  | succ n ih =>
    have hskip := ih (by omega) (fuel + 1) fun i hi => hnull i (by omega)
    rw [show fuel + (n + 1) = fuel + 1 + n by omega, hskip]
    exact waitLoop_null hpos hn fuel (hnull (n + 1) le_rfl)

/-- **A connection within the limit is returned.** -/
theorem getAndWait_of_obtained (hpos : 0 < timeout) {n : ℕ} (hn : n ≤ maxPolls timeout)
    (hnull : ∀ i < n, (polls i).attempt = .null) {h : Handle P}
    (hobt : (polls n).attempt = .connected h) {fuel : ℕ} (hfuel : n ≤ fuel) :
    getAndWait timeout polls fuel = some (.returned n h) := by
  cases n with
  | zero =>
    rw [getAndWait, hobt]
    cases fuel <;> rfl
  | succ n =>
    obtain ⟨k, rfl⟩ : ∃ k, fuel = k + 1 + n := ⟨fuel - (n + 1), by omega⟩
    rw [waitLoop_skip hpos (by omega) (k + 1) fun i hi => hnull i (by omega), waitLoop, hobt]
    have hlt : (n : ℤ) < maxCount timeout := by
      rw [maxCount_eq hpos]
      exact_mod_cast hn
    simp only [if_pos hpos, if_pos hlt]
    cases k <;> rfl

/-- A construction that throws ends the program. -/
lemma getAndWait_of_terminates (hpos : 0 < timeout) {n : ℕ} (hn : n ≤ maxPolls timeout + 1)
    (hnull : ∀ i < n, (polls i).attempt = .null) (hterm : (polls n).attempt = .terminates)
    {fuel : ℕ} (hfuel : n ≤ fuel) :
    getAndWait timeout polls fuel = some (.terminated n) := by
  cases n with
  | zero =>
    rw [getAndWait, hterm]
    cases fuel <;> rfl
  | succ n =>
    obtain ⟨k, rfl⟩ : ∃ k, fuel = k + 1 + n := ⟨fuel - (n + 1), by omega⟩
    rw [waitLoop_skip hpos (by omega) (k + 1) fun i hi => hnull i (by omega), waitLoop, hterm]

/-- **A call that finds nothing within the limit throws after one more attempt**, whatever that
has found, unless the construction of a connection ends the program. -/
theorem getAndWait_of_busy (hpos : 0 < timeout)
    (hnull : ∀ i ≤ maxPolls timeout, (polls i).attempt = .null)
    (hterm : (polls (maxPolls timeout + 1)).attempt ≠ .terminates) {fuel : ℕ}
    (hfuel : maxPolls timeout + 1 ≤ fuel) :
    getAndWait timeout polls fuel =
      some (.threw (maxPolls timeout + 1) (polls (maxPolls timeout + 1)).attempt.handle?) := by
  obtain ⟨k, rfl⟩ : ∃ k, fuel = k + 1 + maxPolls timeout :=
    ⟨fuel - (maxPolls timeout + 1), by omega⟩
  have hge : ¬ ((maxPolls timeout : ℕ) : ℤ) < maxCount timeout := by
    rw [maxCount_eq hpos]
    exact lt_irrefl _
  rw [waitLoop_skip hpos le_rfl (k + 1) hnull, waitLoop]
  cases hatt : (polls (maxPolls timeout + 1)).attempt with
  | null => simp only [if_pos hpos, if_neg hge]
  | connected h => simp only [if_pos hpos, if_neg hge]
  | terminates => exact absurd hatt hterm

/-- Either the attempts within the limit find nothing, or one of them is the first that does. -/
lemma busy_or_first (polls : ℕ → Poll P) (m : ℕ) :
    (∀ i ≤ m, (polls i).attempt = .null) ∨
      ∃ n ≤ m, (∀ i < n, (polls i).attempt = .null) ∧ (polls n).attempt ≠ .null := by
  classical
  by_cases hex : ∃ n, n ≤ m ∧ (polls n).attempt ≠ .null
  · refine .inr ⟨Nat.find hex, (Nat.find_spec hex).1, fun i hi => ?_, (Nat.find_spec hex).2⟩
    by_contra hi'
    exact Nat.find_min hex hi ⟨hi.le.trans (Nat.find_spec hex).1, hi'⟩
  · push Not at hex
    exact .inl hex

/-! ## What a call promises -/

/-- The call throws only if every attempt was without result, and when an attempt had a connection,
the call returned that one. -/
structure GivesUpLast (polls : ℕ → Poll P) (e : Ending P) : Prop where
  threw : ∀ poll dropped, e = .threw poll dropped → ∀ i ≤ poll, (polls i).attempt = .null
  obtained : ∀ i ≤ e.poll, ∀ h, (polls i).attempt = .connected h → e = .returned i h

/-- All attempts within the limit find the pool busy, and the last one, beyond it, does not. -/
def TooLate (timeout : ℤ) (polls : ℕ → Poll P) : Prop :=
  (∀ i ≤ maxPolls timeout, (polls i).pool.Busy) ∧ (polls (maxPolls timeout + 1)).Yields

/-- An attempt with another result has no connection. -/
lemma Poll.not_yields {p : Poll P} (h : ∀ hd, p.attempt ≠ .connected hd) : ¬ p.Yields := by
  intro hyields
  obtain ⟨hd, hobt⟩ := exists_connected_iff.mpr hyields
  exact h hd hobt

/-- A call that returns the first connection is right. -/
lemma givesUpLast_returned {n : ℕ} {h : Handle P} (hnull : ∀ i < n, (polls i).attempt = .null)
    (hobt : (polls n).attempt = .connected h) : GivesUpLast polls (.returned n h) := by
  refine ⟨fun poll dropped he => (by cases he), fun i hi h' hobt' => ?_⟩
  rcases Nat.lt_or_eq_of_le hi with hlt | rfl
  · rw [hnull i hlt] at hobt'
    cases hobt'
  · rw [hobt] at hobt'
    rw [Attempt.connected.inj hobt']

/-- So is a call that throws without a connection. -/
lemma givesUpLast_threw {n : ℕ} {dropped : Option (Handle P)}
    (hnull : ∀ i ≤ n, (polls i).attempt = .null) : GivesUpLast polls (.threw n dropped) := by
  refine ⟨fun poll d he => ?_, fun i hi h hobt => ?_⟩
  · cases he
    exact hnull
  · rw [hnull i hi] at hobt
    cases hobt

/-- And one that ends with the program. -/
lemma givesUpLast_terminated {n : ℕ} (hnull : ∀ i < n, (polls i).attempt = .null)
    (hterm : (polls n).attempt = .terminates) : GivesUpLast polls (.terminated n) := by
  refine ⟨fun poll dropped he => (by cases he), fun i hi h hobt => ?_⟩
  rcases Nat.lt_or_eq_of_le hi with hlt | rfl
  · rw [hnull i hlt] at hobt
    cases hobt
  · rw [hterm] at hobt
    cases hobt

/-- **Every call with a timeout ends**, and it is fair unless the connection comes too late.

**Proof sketch.** If the attempts within the limit find nothing, the call ends with the attempt
after them: by the program's end, or by the exception, which is right when that attempt finds
nothing either. Otherwise the call ends with the first attempt that is not without result. -/
theorem getAndWait_ends (hpos : 0 < timeout) (polls : ℕ → Poll P) :
    ∃ e, (∀ fuel, maxPolls timeout + 1 ≤ fuel → getAndWait timeout polls fuel = some e) ∧
      (GivesUpLast polls e ↔ ¬ TooLate timeout polls) := by
  rcases busy_or_first polls (maxPolls timeout) with hnull | ⟨n, hn, hnull, hne⟩
  · have hbefore : ∀ i < maxPolls timeout + 1, (polls i).attempt = .null :=
      fun i hi => hnull i (by omega)
    cases hatt : (polls (maxPolls timeout + 1)).attempt with
    | null =>
      refine ⟨_, fun fuel hfuel => getAndWait_of_busy hpos hnull (by simp [hatt]) hfuel, ?_⟩
      have hall : ∀ i ≤ maxPolls timeout + 1, (polls i).attempt = .null := by
        intro i hi
        rcases Nat.lt_or_eq_of_le hi with hlt | rfl
        · exact hbefore i hlt
        · exact hatt
      exact iff_of_true (givesUpLast_threw hall)
        fun hlate => Poll.not_yields (by simp [hatt]) hlate.2
    | connected h =>
      refine ⟨_, fun fuel hfuel => getAndWait_of_busy hpos hnull (by simp [hatt]) hfuel, ?_⟩
      have hlate : TooLate timeout polls :=
        ⟨fun i hi => Poll.attempt_null_iff.mp (hnull i hi), Poll.exists_connected_iff.mp ⟨h, hatt⟩⟩
      refine iff_of_false (fun hfair => ?_) fun hnot => hnot hlate
      have hlast := hfair.threw _ _ rfl _ le_rfl
      rw [hatt] at hlast
      cases hlast
    | terminates =>
      refine ⟨_, fun fuel hfuel => getAndWait_of_terminates hpos le_rfl hbefore hatt hfuel, ?_⟩
      exact iff_of_true (givesUpLast_terminated hbefore hatt)
        fun hlate => Poll.not_yields (by simp [hatt]) hlate.2
  · have hlate : ¬ TooLate timeout polls :=
      fun hlate => hne (Poll.attempt_null_iff.mpr (hlate.1 n hn))
    cases hatt : (polls n).attempt with
    | null => exact absurd hatt hne
    | connected h =>
      refine ⟨_, fun fuel hfuel => getAndWait_of_obtained hpos hn hnull hatt (by omega), ?_⟩
      exact iff_of_true (givesUpLast_returned hnull hatt) hlate
    | terminates =>
      refine ⟨_, fun fuel hfuel =>
        getAndWait_of_terminates hpos (by omega) hnull hatt (by omega), ?_⟩
      exact iff_of_true (givesUpLast_terminated hnull hatt) hlate

/-- **The last word on the timeout.** A call returns the connection that an attempt of it had, and
throws only without one, exactly when it is not so that the pool is busy at all attempts within the
limit and has a connection at the one beyond.

**Proof sketch.** With enough fuel the loop ends in one way, by `getAndWait_ends`, and this says
which. -/
theorem getAndWait_givesUpLast_iff (timeout : ℤ) (hpos : 0 < timeout) (polls : ℕ → Poll P) :
    (∃ e, (∀ fuel, maxPolls timeout + 1 ≤ fuel → getAndWait timeout polls fuel = some e) ∧
      GivesUpLast polls e) ↔ ¬ TooLate timeout polls := by
  obtain ⟨e, hends, hfair⟩ := getAndWait_ends hpos polls
  rw [← hfair]
  constructor
  · rintro ⟨e', hends', hfair'⟩
    have hsame : some e = some e' := by
      rw [← hends _ le_rfl, ← hends' _ le_rfl]
    rwa [Option.some.inj hsame]
  · intro h
    exact ⟨e, hends, h⟩

/-- A pool with the limit 1 whose connection is with a caller. -/
def lentOut : State Unit := (getConnect (State.init () 1 100) .ok).1

/-- The caller has dropped the connection. -/
def givenBack : State Unit := (release lentOut 0).getD lentOut

/-- The connection is given back before the attempt with the number `n`. -/
def backAt (n i : ℕ) : Poll Unit := ⟨if i < n then lentOut else givenBack, .ok⟩

example : (system () 1 100).run [.getConnect .ok, .release 0] = some givenBack := by decide

/-- With 150 ms there is a second attempt, and its connection is returned. -/
theorem getAndWait_givesUpLast_150 :
    ∃ e, (∀ fuel, maxPolls 150 + 1 ≤ fuel → getAndWait 150 (backAt 1) fuel = some e) ∧
      GivesUpLast (backAt 1) e := by
  refine (getAndWait_givesUpLast_iff 150 (by decide) (backAt 1)).mpr ?_
  rintro ⟨hbusy, -⟩
  have hfree : ¬ (backAt 1 1).pool.Busy := by decide
  exact hfree (hbusy 1 (by decide))

/-- With 50 ms the connection that is back before the second attempt is given up. -/
theorem not_getAndWait_givesUpLast :
    ¬ ∀ timeout : ℤ, 0 < timeout → ∀ polls : ℕ → Poll Unit,
      ∃ e, (∀ fuel, maxPolls timeout + 1 ≤ fuel → getAndWait timeout polls fuel = some e) ∧
        GivesUpLast polls e := by
  intro hall
  obtain ⟨e, hends, hfair⟩ := hall 50 (by decide) (backAt 1)
  have hrun : getAndWait 50 (backAt 1) 1 = some (.threw 1 (some ⟨1, ⟨0, 0, ()⟩, true⟩)) := by decide
  have he := Option.some.inj ((hends 1 (by decide)).symm.trans hrun)
  have hnull := hfair.threw _ _ he 1 le_rfl
  revert hnull
  decide

/-! ## Without a timeout -/

/-- A call without a timeout does not throw, however long it waits.

**Proof sketch.** By induction on the fuel, for every number of polls so far: the exception is only
thrown behind the test of a positive timeout. -/
theorem getAndWait_not_threw (hpos : ¬ 0 < timeout) (polls : ℕ → Poll P) (fuel poll : ℕ)
    (dropped : Option (Handle P)) : getAndWait timeout polls fuel ≠ some (.threw poll dropped) := by
  suffices hloop : ∀ n count result,
      waitLoop timeout polls fuel n count result ≠ some (.threw poll dropped) by
    exact hloop 0 0 _
  induction fuel with
  | zero =>
    intro n count result
    cases result <;> simp [waitLoop]
  | succ fuel ih =>
    intro n count result
    cases result with
    | null =>
      rw [waitLoop]
      cases (polls (n + 1)).attempt with
      | null => simpa [hpos] using ih (n + 1) count _
      | connected h => simpa [hpos] using ih (n + 1) count _
      | terminates => simp
    | connected h => simp [waitLoop]
    | terminates => simp [waitLoop]

end HkuUtils.ConnectPool
