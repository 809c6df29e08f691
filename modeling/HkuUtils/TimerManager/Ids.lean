import HkuUtils.TimerManager.Model

set_option relaxedAutoImplicit false
set_option autoImplicit false

/-!
# The search for a timer id

`getNewTimerId` goes on from the id it gave last until it finds one that is not in use, and begins
again at 0 behind the greatest `int`. Here the search is taken turn by turn, with the increment of
an `int` that may overflow. While the table is not full the search ends, after one turn more than
there are timers at the latest, and no increment overflows.

## Main definitions

* `HkuUtils.TimerManager.moveOn` — the two places where `m_current_timer_id` moves on.
* `HkuUtils.TimerManager.searchTimerId` — the search after a number of turns.

## Main results

* `HkuUtils.TimerManager.searchTimerId_of_getNewTimerId` — the search finds what `getNewTimerId`
  returns.
* `HkuUtils.TimerManager.searchTimerId_found` — the search ends with a free id.
* `HkuUtils.TimerManager.current_range` — the ids that the manager searches from.
-/

namespace HkuUtils.TimerManager

open Transition

variable {timers : Timers} {current id new : ℤ}

/-- `++` on an `int`, with `none` for an overflow. -/
def increment (id : ℤ) : Option ℤ := if id + 1 ≤ maxInt then some (id + 1) else none

/-- `m_current_timer_id` moves on: to 0 from `max_int`, else by one. -/
def moveOn (id : ℤ) : Option ℤ := if maxInt ≤ id then some 0 else increment id

/-- How a call of `getNewTimerId` stands. -/
inductive Search where
  /-- `Timer queue is full!`, and -1 is returned. -/
  | full
  /-- An increment overflowed, which is undefined. -/
  | overflow
  /-- The loop runs, with this `m_current_timer_id`. -/
  | running (current : ℤ)
  | found (id : ℤ)
  deriving DecidableEq, Repr

/-- The loop of `getNewTimerId` after a number of turns. -/
def searchLoop (timers : Timers) : ℕ → ℤ → Search
  | 0, id => .running id
  | turns + 1, id =>
    if id ∈ timers then
      match moveOn id with
      | some id => searchLoop timers turns id
      | none => .overflow
    else .found id

/-- `getNewTimerId` after a number of turns of its loop. -/
def searchTimerId (timers : Timers) (current : ℤ) (turns : ℕ) : Search :=
  if maxInt ≤ timers.entries.length then .full
  else
    match moveOn current with
    | some id => searchLoop timers turns id
    | none => .overflow

/-! ## Moving on -/

/-- No id overflows when it moves on. -/
@[simp]
lemma moveOn_eq (id : ℤ) : moveOn id = some (nextId id) := by
  unfold moveOn increment nextId
  split
  · rfl
  · rw [if_pos (by omega)]

/-- What an `int` from -1 on moves on to is an id. -/
lemma nextId_range (h0 : -1 ≤ id) : 0 ≤ nextId id ∧ nextId id ≤ maxInt := by
  rw [nextId]
  split
  · exact ⟨le_rfl, by decide⟩
  · omega

/-- The loop does not overflow. -/
lemma searchLoop_ne_overflow (turns : ℕ) (id : ℤ) : searchLoop timers turns id ≠ .overflow := by
  induction turns generalizing id with
  | zero => simp [searchLoop]
  | succ turns ih =>
    rw [searchLoop, moveOn_eq]
    split
    · exact ih (nextId id)
    · simp

/-- **The search finds what `freeId` finds**, and stays there. -/
lemma searchLoop_of_freeId {fuel turns : ℕ} (h : freeId timers fuel id = some new)
    (hle : fuel ≤ turns) : searchLoop timers turns id = .found new := by
  induction fuel generalizing id turns with
  | zero => simp [freeId] at h
  | succ fuel ih =>
    obtain ⟨turns, rfl⟩ : ∃ m, turns = m + 1 := ⟨turns - 1, by omega⟩
    rw [freeId] at h
    rw [searchLoop, moveOn_eq]
    split at h
    · next hid =>
      rw [if_pos hid]
      exact ih h (by omega)
    · next hid =>
      rw [if_neg hid, Option.some.inj h]

/-- What `freeId` finds is an id. -/
lemma freeId_range {fuel : ℕ} (h0 : 0 ≤ id) (h1 : id ≤ maxInt)
    (h : freeId timers fuel id = some new) : 0 ≤ new ∧ new ≤ maxInt := by
  induction fuel generalizing id with
  | zero => simp [freeId] at h
  | succ fuel ih =>
    rw [freeId] at h
    split at h
    · obtain ⟨hn0, hn1⟩ := nextId_range (show -1 ≤ id by omega)
      exact ih hn0 hn1 h
    · exact Option.some.inj h ▸ ⟨h0, h1⟩

/-- A new id is one. -/
lemma getNewTimerId_range (h0 : -1 ≤ current) (h : getNewTimerId timers current = some new) :
    0 ≤ new ∧ new ≤ maxInt := by
  rw [getNewTimerId] at h
  split at h
  · simp at h
  · obtain ⟨hn0, hn1⟩ := nextId_range h0
    exact freeId_range hn0 hn1 h

/-! ## The search -/

/-- **The search finds the id that `getNewTimerId` returns**, after one turn more than there are
timers at the latest. -/
theorem searchTimerId_of_getNewTimerId (h : getNewTimerId timers current = some new) {turns : ℕ}
    (hturns : timers.entries.length + 1 ≤ turns) :
    searchTimerId timers current turns = .found new := by
  rw [getNewTimerId] at h
  split at h
  · simp at h
  next hfull =>
  rw [searchTimerId, if_neg hfull, moveOn_eq]
  exact searchLoop_of_freeId h hturns

/-- The search does not overflow. -/
lemma searchTimerId_ne_overflow (timers : Timers) (current : ℤ) (turns : ℕ) :
    searchTimerId timers current turns ≠ .overflow := by
  rw [searchTimerId, moveOn_eq]
  split
  · simp
  · exact searchLoop_ne_overflow turns (nextId current)

/-- **The search ends with a free id** while the table is not full: after one turn more than there
are timers at the latest, from every id that may have been given last, and without an overflow.

**Proof sketch.** Turn by turn the search tries what `freeId` tries, which finds an id: the ids that
it tries are distinct, and there is one more of them than there are timers. -/
theorem searchTimerId_found (timers : Timers) (current : ℤ) (h0 : -1 ≤ current)
    (hfull : timers.entries.length < maxInt) :
    ∃ id, 0 ≤ id ∧ id ≤ maxInt ∧ id ∉ timers ∧
      (∀ turns, timers.entries.length + 1 ≤ turns →
        searchTimerId timers current turns = .found id) ∧
      ∀ turns, searchTimerId timers current turns ≠ .overflow := by
  obtain ⟨id, hid⟩ := Option.isSome_iff_exists.mp (getNewTimerId_isSome h0 hfull)
  obtain ⟨hid0, hid1⟩ := getNewTimerId_range h0 hid
  refine ⟨id, hid0, hid1, getNewTimerId_notMem hid, fun turns hturns => ?_, fun turns => ?_⟩
  · exact searchTimerId_of_getNewTimerId hid hturns
  · exact searchTimerId_ne_overflow timers current turns

/-- A timer that runs once. -/
def once : Timer := ⟨0, maxDatetime, 0, 0, 1, 1, 0⟩

/-- A table with the id 0 in use. -/
def zeroUsed : Timers := AList.singleton 0 once

/-- Behind the greatest id the search goes on at 0, and past it when it is in use. -/
theorem searchTimerId_found_around :
    ∃ id, 0 ≤ id ∧ id ≤ maxInt ∧ id ∉ zeroUsed ∧
      (∀ turns, zeroUsed.entries.length + 1 ≤ turns →
        searchTimerId zeroUsed maxInt turns = .found id) ∧
      ∀ turns, searchTimerId zeroUsed maxInt turns ≠ .overflow :=
  searchTimerId_found zeroUsed maxInt (by decide) (by decide)

/-! ## The ids of a manager -/

/-- A notification leaves the id that was given last. -/
@[simp]
lemma State.notify_current (s : State) : s.notify.current = s.current := by
  rw [State.notify]
  split <;> rfl

/-- Removing a timer leaves the id that was given last. -/
@[simp]
lemma removeTimer_current (s : State) (id : ℤ) : (removeTimer s id).current = s.current := by
  rw [removeTimer]
  split <;> rfl

/-- Building the queue anew leaves the id that was given last. -/
@[simp]
lemma restart_current (F : Arith) (s : State) (clock : ℤ → Clock) :
    (restart F s clock).current = s.current := by
  simp only [restart]
  split <;> rfl

/-- Only a call that adds a timer changes the id that was given last, to the one it gives.

**Proof sketch.** One case for each move. All but `add` are about the queue, the flags and the
log. -/
lemma current_of_moves {F : Arith} {extended : Bool} {s t : State} {e : Event}
    (h : Moves F extended s e t) :
    t.current = s.current ∨ getNewTimerId s.timers s.current = some t.current := by
  cases h with
  | add ht hp hid => exact .inr hid
  | addNotify hp => left; simp
  | remove => left; simp
  | test hd => exact .inl rfl
  | examine hd hex =>
    left
    cases hex with
    | wait hq => rfl
    | finish hi h0 => rfl
    | sleep hi hlt => rfl
    | due hi h0 hle hd => cases hd <;> rfl
  | wakeup hd => exact .inl rfl
  | started hc hs => exact .inl rfl
  | start hc hs => exact .inl rfl
  | rebuild hc => left; simp
  | announce hc => left; simp
  | spawn hc => exact .inl rfl
  | stop hc => exact .inl rfl
  | clear hc => exact .inl rfl
  | wake hc => left; simp
  | join hc hd => exact .inl rfl

/-- **The id that was given last** is -1 or an id in every state that is reached. -/
theorem current_range {F : Arith} {extended : Bool} {s : State} {es : List Event}
    (hrun : (system F extended).run es = some s) : -1 ≤ s.current ∧ s.current ≤ maxInt := by
  refine (system F extended).run_invariant (I := fun s => -1 ≤ s.current ∧ s.current ≤ maxInt)
    ⟨le_rfl, show (-1 : ℤ) ≤ maxInt by decide⟩ (fun s e t hs hstep => ?_) hrun
  rcases current_of_moves (moves_of_step hstep) with heq | hid
  · rw [heq]
    exact hs
  · obtain ⟨h0, h1⟩ := getNewTimerId_range hs.1 hid
    exact ⟨by omega, h1⟩

end HkuUtils.TimerManager
