import HkuUtils.Snowflake.Model

set_option relaxedAutoImplicit false
set_option autoImplicit false

/-!
# The ids of a run

However the calls on any number of generators follow each other, two equal ids can only come from
two generators that have been given the same numbers. The ids that a generator issues with the same
numbers become greater, and a call waits only when all ids of its millisecond have been issued.

## Main definitions

* `Snowflake.Place.Sound` — what is always true of a generator.
* `Snowflake.Quiet`, `Issues` — what an event can do to a generator.
* `Snowflake.Ordered` — the invariant of the ids issued.

## Main results

* `Snowflake.step_cases` — every event does one of the two.
* `Snowflake.ids_distinct` — equal ids, and the order of the ids of a generator.
* `Snowflake.waits_when_exhausted` — when a call waits, and that it need not wait longer than the
  millisecond lasts.
-/

namespace Snowflake

open Transition

variable {ι : Type} [DecidableEq ι] {twepoch : ℤ} {s s' : State ι} {e : Event ι} {who : ι}

/-! ## What an event does -/

/-- What is always true of a generator and its clock: its numbers are in their ranges, and the
clock has been at the last timestamp. -/
structure Place.Sound (p : Place) : Prop where
  datacenterid_nonneg : 0 ≤ p.generator.datacenterid
  datacenterid_le : p.generator.datacenterid ≤ maxDatacenterId
  workerid_nonneg : 0 ≤ p.generator.workerid
  workerid_le : p.generator.workerid ≤ maxWorkerId
  sequence_le : p.generator.sequence ≤ sequenceMask
  /-- The last id is from when the clock was looked at last. -/
  clock : p.clock = some p.generator.lastTimestamp ∨
    p.clock = none ∧ p.generator.lastTimestamp = -1 ∧ p.waiting = false
  waiting : p.waiting = true → p.generator.sequence = 0

/-- An event that issues no id: the sequence stays, or it has come to its end and a call waits. -/
structure Quiet (p p' : Place) : Prop where
  lastTimestamp : p'.generator.lastTimestamp = p.generator.lastTimestamp
  clock : p'.clock = p.clock
  waiting : p'.waiting = p.waiting ∧ p'.generator.sequence = p.generator.sequence ∨
    p.waiting = false ∧ p.clock ≠ none ∧ p.generator.sequence = sequenceMask ∧ p'.waiting = true

/-- An event that issues an id: the first one of a later millisecond, or the next one of the same.
-/
structure Issues (twepoch : ℤ) (p p' : Place) : Prop where
  waiting : p'.waiting = false
  clock : p'.clock = some p'.generator.lastTimestamp
  twepoch_le : twepoch ≤ p'.generator.lastTimestamp
  timestamp_lt : p'.generator.lastTimestamp < twepoch + 2 ^ 41
  next : p.generator.lastTimestamp < p'.generator.lastTimestamp ∧ p'.generator.sequence = 0 ∨
    p.generator.lastTimestamp = p'.generator.lastTimestamp ∧ p.waiting = false ∧ p.clock ≠ none ∧
      p'.generator.sequence = p.generator.sequence + 1

/-- The mask gives the next sequence, or 0 behind the last one. -/
lemma and_sequenceMask (n : ℕ) : (n + 1) &&& sequenceMask = (n + 1) % 2 ^ 12 := by
  rw [sequenceMask, Nat.and_two_pow_sub_one_eq_mod]

/-- The clock of a sound generator shows at least the time of the last id, and more at the first
look. -/
lemma Place.Sound.le_timestamp {p : Place} (h : p.Sound) {t : ℤ} (h0 : 0 ≤ t)
    (ht : ∀ u ∈ p.clock, u ≤ t) :
    p.generator.lastTimestamp ≤ t ∧ (p.generator.lastTimestamp = t → p.clock = some t) := by
  rcases h.clock with hclock | ⟨hclock, hlast, -⟩
  · refine ⟨ht _ hclock, fun heq => ?_⟩
    rw [hclock, heq]
  · refine ⟨by omega, fun heq => ?_⟩
    omega

/-- What an event does to the generator that it happens to. -/
structure Changes (twepoch : ℤ) (s s' : State ι) (who : ι) (p' : Place) : Prop where
  place : s'.place = Function.update s.place who p'
  sound : p'.Sound
  issued : s'.issued = s.issued ∧ Quiet (s.place who) p' ∨
    s'.issued = p'.generator.issue who :: s.issued ∧ Issues twepoch (s.place who) p'

/-- A call of `init`.

**Proof sketch.** By cases on the two checks; if one fails, the generator stays as it was, and
otherwise the numbers are in range. -/
lemma changes_init {workerid datacenterid : ℤ} (hs : (s.place who).Sound)
    (h : step s (.init who workerid datacenterid) = some s') :
    ∃ p', Changes twepoch s s' who p' := by
  simp only [step, Generator.init] at h
  split at h
  · cases h
  next hwait =>
  have hstay : Changes twepoch s s who (s.place who) :=
    ⟨(Function.update_eq_self who s.place).symm, hs, .inl ⟨rfl, rfl, rfl, .inl ⟨rfl, rfl⟩⟩⟩
  by_cases hw : workerid > maxWorkerId ∨ workerid < 0
  · simp only [if_pos hw, Option.some.injEq] at h
    subst h
    exact ⟨_, hstay⟩
  by_cases hd : datacenterid > maxDatacenterId ∨ datacenterid < 0
  · simp only [if_neg hw, if_pos hd, Option.some.injEq] at h
    subst h
    exact ⟨_, hstay⟩
  simp only [if_neg hw, if_neg hd, Option.some.injEq] at h
  subst h
  refine ⟨_, rfl, ?_, .inl ⟨rfl, rfl, rfl, .inl ⟨rfl, rfl⟩⟩⟩
  exact ⟨by simp only; omega, by simp only; omega, by simp only; omega, by simp only; omega,
    hs.sequence_le, hs.clock, hs.waiting⟩

/-- A call of `nextid`.

**Proof sketch.** If the clock shows the time of the last id, then the next sequence number is
taken, or the call waits when there is none; at a later time the sequence begins at zero. In each
case an id of the new state is issued, or none is and the call waits. -/
lemma changes_call {timestamp : ℤ} (hs : (s.place who).Sound)
    (hrange : InRange twepoch s (.call who timestamp))
    (h : step s (.call who timestamp) = some s') : ∃ p', Changes twepoch s s' who p' := by
  simp only [step, Option.ite_none_right_eq_some, Option.some.injEq] at h
  obtain ⟨⟨hwait, hclock⟩, rfl⟩ := h
  obtain ⟨h0, hepoch, hend⟩ := hrange
  obtain ⟨hle, hseen⟩ := hs.le_timestamp h0 hclock
  have hseq := hs.sequence_le
  rw [Generator.nextid]
  by_cases heq : (s.place who).generator.lastTimestamp = timestamp
  · have hmask := and_sequenceMask (s.place who).generator.sequence
    rw [if_pos heq]
    by_cases hlast : (s.place who).generator.sequence = sequenceMask
    · -- the sequence is used up
      have hzero : ((s.place who).generator.sequence + 1) &&& sequenceMask = 0 := by
        rw [hmask, hlast]
        rfl
      simp only [hzero, if_true, State.record]
      refine ⟨_, rfl, ?_, .inl ⟨rfl, rfl, (hseen heq).symm, .inr ⟨hwait, ?_, hlast, rfl⟩⟩⟩
      · exact ⟨hs.datacenterid_nonneg, hs.datacenterid_le, hs.workerid_nonneg, hs.workerid_le,
          Nat.zero_le _, .inl (by simp [heq]), fun _ => rfl⟩
      · rw [hseen heq]
        exact Option.some_ne_none _
    · have hnext : ((s.place who).generator.sequence + 1) &&& sequenceMask =
          (s.place who).generator.sequence + 1 := by
        rw [sequenceMask] at hseq hlast
        rw [hmask, Nat.mod_eq_of_lt (by omega)]
      simp only [hnext, Nat.add_eq_zero_iff, one_ne_zero, and_false, if_false, State.record]
      refine ⟨_, rfl, ?_, .inr ⟨rfl, rfl, rfl, hepoch, hend, .inr ⟨heq, hwait, ?_, rfl⟩⟩⟩
      · exact ⟨hs.datacenterid_nonneg, hs.datacenterid_le, hs.workerid_nonneg, hs.workerid_le,
          by simp only; omega, .inl rfl, fun h => absurd h Bool.false_ne_true⟩
      · rw [hseen heq]
        exact Option.some_ne_none _
  · rw [if_neg heq]
    refine ⟨_, rfl, ?_, .inr ⟨rfl, rfl, rfl, hepoch, hend, .inl ⟨?_, rfl⟩⟩⟩
    · exact ⟨hs.datacenterid_nonneg, hs.datacenterid_le, hs.workerid_nonneg, hs.workerid_le,
        Nat.zero_le _, .inl rfl, fun h => absurd h Bool.false_ne_true⟩
    · simp only
      omega

/-- A further look of a call that waits.

**Proof sketch.** By cases on whether the clock has gone on. If not, the call goes on waiting; if
it has, the id is the first of its millisecond. -/
lemma changes_poll {timestamp : ℤ} (hs : (s.place who).Sound)
    (hrange : InRange twepoch s (.poll who timestamp))
    (h : step s (.poll who timestamp) = some s') : ∃ p', Changes twepoch s s' who p' := by
  simp only [step, Option.ite_none_right_eq_some, Option.some.injEq] at h
  obtain ⟨⟨hwait, hclock⟩, rfl⟩ := h
  obtain ⟨h0, hepoch, hend⟩ := hrange
  obtain ⟨hle, hseen⟩ := hs.le_timestamp h0 hclock
  have hsequence := hs.waiting hwait
  rw [Generator.waitNextMillis]
  by_cases hold : timestamp ≤ (s.place who).generator.lastTimestamp
  · have heq : (s.place who).generator.lastTimestamp = timestamp := by omega
    rw [if_pos hold]
    refine ⟨_, rfl, ?_, .inl ⟨rfl, rfl, (hseen heq).symm, .inl ⟨hwait.symm, rfl⟩⟩⟩
    exact ⟨hs.datacenterid_nonneg, hs.datacenterid_le, hs.workerid_nonneg, hs.workerid_le,
      hs.sequence_le, .inl (by simp [heq]), fun _ => hsequence⟩
  · rw [if_neg hold]
    refine ⟨_, rfl, ?_, .inr ⟨rfl, rfl, rfl, hepoch, hend, .inl ⟨?_, hsequence⟩⟩⟩
    · exact ⟨hs.datacenterid_nonneg, hs.datacenterid_le, hs.workerid_nonneg, hs.workerid_le,
        hs.sequence_le, .inl rfl, fun h => absurd h Bool.false_ne_true⟩
    · simp only
      omega

/-- **What an event does.** -/
theorem step_cases (hs : ∀ j, (s.place j).Sound) (hrange : InRange twepoch s e)
    (h : step s e = some s') : ∃ who p', Changes twepoch s s' who p' := by
  cases e with
  | init who workerid datacenterid => exact ⟨who, changes_init (hs who) h⟩
  | call who timestamp => exact ⟨who, changes_call (hs who) hrange h⟩
  | poll who timestamp => exact ⟨who, changes_poll (hs who) hrange h⟩

/-! ## The ids of a generator -/

/-- The time and the sequence of an id come before those of another one. -/
def Issue.Earlier (x y : Issue ι) : Prop :=
  x.timestamp < y.timestamp ∨ x.timestamp = y.timestamp ∧ x.sequence < y.sequence

/-- How many ids a generator has issued in a millisecond. -/
def State.issuedIn (s : State ι) (who : ι) (t : ℤ) : ℕ :=
  s.issued.countP fun x => decide (x.who = who ∧ x.timestamp = t)

/-- **The invariant of the ids issued.** They are from the past of their generators, each behind
the one before, and as many in the last millisecond as its sequence says. -/
structure Ordered (twepoch : ℤ) (s : State ι) : Prop where
  sound : ∀ j, (s.place j).Sound
  fits : ∀ x ∈ s.issued, x.Fits twepoch
  /-- An id is from a time at which the clock has been looked at, and no later than the last one. -/
  behind : ∀ x ∈ s.issued, (s.place x.who).clock ≠ none ∧
    x.timestamp ≤ (s.place x.who).generator.lastTimestamp
  last : ∀ x ∈ s.issued, (s.place x.who).waiting = false →
    x.timestamp = (s.place x.who).generator.lastTimestamp →
    x.sequence ≤ (s.place x.who).generator.sequence
  order : s.issued.Pairwise fun y x => x.who = y.who → x.Earlier y
  count : ∀ j, (s.place j).clock ≠ none →
    s.issuedIn j (s.place j).generator.lastTimestamp =
      if (s.place j).waiting then sequenceMask + 1 else (s.place j).generator.sequence + 1

/-- Before anything has happened. -/
lemma ordered_init (twepoch : ℤ) : Ordered twepoch (generators ι).init where
  sound := fun _ => ⟨le_rfl, show (0 : ℤ) ≤ maxDatacenterId by decide, le_rfl,
    show (0 : ℤ) ≤ maxWorkerId by decide, Nat.zero_le _, .inr ⟨rfl, rfl, rfl⟩, fun _ => rfl⟩
  fits := fun x hx => absurd hx List.not_mem_nil
  behind := fun x hx => absurd hx List.not_mem_nil
  last := fun x hx => absurd hx List.not_mem_nil
  order := List.Pairwise.nil
  count := fun _ h => absurd rfl h

/-- An event that issues no id keeps the invariant.

**Proof sketch.** The ids are the same, and of the generator only what `Quiet` allows has changed:
neither the time of its last id nor how many ids of it there are. -/
lemma Ordered.quiet {p' : Place} (h : Ordered twepoch s)
    (hplace : s'.place = Function.update s.place who p') (hsound : p'.Sound)
    (hissued : s'.issued = s.issued) (hquiet : Quiet (s.place who) p') : Ordered twepoch s' := by
  have hcount : ∀ j t, s'.issuedIn j t = s.issuedIn j t := by
    intro j t
    rw [State.issuedIn, State.issuedIn, hissued]
  refine ⟨fun j => ?_, ?_, fun x hx => ?_, fun x hx hwait htime => ?_, ?_, fun j hclock => ?_⟩
  · rw [hplace]
    by_cases hj : j = who
    · subst hj
      rwa [Function.update_self]
    · rw [Function.update_of_ne hj]
      exact h.sound j
  · rw [hissued]
    exact h.fits
  · rw [hissued] at hx
    rw [hplace]
    by_cases hj : x.who = who
    · rw [hj, Function.update_self, hquiet.clock, hquiet.lastTimestamp, ← hj]
      exact h.behind x hx
    · rw [Function.update_of_ne hj]
      exact h.behind x hx
  · rw [hissued] at hx
    rw [hplace] at hwait htime ⊢
    by_cases hj : x.who = who
    · rw [hj, Function.update_self] at hwait htime ⊢
      rw [hquiet.lastTimestamp, ← hj] at htime
      rcases hquiet.waiting with ⟨hsame, hseq⟩ | ⟨-, -, -, hwait'⟩
      · rw [hseq, ← hj]
        rw [hsame, ← hj] at hwait
        exact h.last x hx hwait htime
      · exact absurd (hwait.symm.trans hwait') Bool.false_ne_true
    · rw [Function.update_of_ne hj] at hwait htime ⊢
      exact h.last x hx hwait htime
  · rw [hissued]
    exact h.order
  · rw [hcount]
    rw [hplace] at hclock ⊢
    by_cases hj : j = who
    · subst hj
      rw [Function.update_self] at hclock ⊢
      rw [hquiet.clock] at hclock
      rw [hquiet.lastTimestamp, h.count j hclock]
      rcases hquiet.waiting with ⟨hsame, hseq⟩ | ⟨hwait, -, hseq, hwait'⟩
      · rw [hsame, hseq]
      · rw [hwait, hwait', if_neg Bool.false_ne_true, if_pos rfl, hseq]
    · rw [Function.update_of_ne hj] at hclock ⊢
      exact h.count j hclock

/-- The id that is issued comes behind all others of its generator. -/
lemma Ordered.earlier {p' : Place} (h : Ordered twepoch s)
    (hissues : Issues twepoch (s.place who) p') {x : Issue ι} (hx : x ∈ s.issued)
    (hwho : x.who = who) : x.Earlier (p'.generator.issue who) := by
  have hbehind := (h.behind x hx).2
  rw [hwho] at hbehind
  rcases hissues.next with ⟨hlt, -⟩ | ⟨heq, hwait, -, hseq⟩
  · exact .inl (lt_of_le_of_lt hbehind hlt)
  · rcases hbehind.lt_or_eq with hlt | htime
    · exact .inl (hlt.trans_eq heq)
    · refine .inr ⟨htime.trans heq, ?_⟩
      have hlast := h.last x hx (by rwa [hwho]) (by rwa [hwho])
      rw [hwho] at hlast
      simp only [Generator.issue, hseq]
      omega

/-- An event that issues an id keeps the invariant.

**Proof sketch.** The new id has a later time than all others of this generator, or the same time
and a greater sequence number. The count of ids of the last millisecond grows by one or begins
again. -/
lemma Ordered.issues {p' : Place} (h : Ordered twepoch s)
    (hplace : s'.place = Function.update s.place who p') (hsound : p'.Sound)
    (hissued : s'.issued = p'.generator.issue who :: s.issued)
    (hissues : Issues twepoch (s.place who) p') : Ordered twepoch s' := by
  have hself : s'.place who = p' := by rw [hplace, Function.update_self]
  have hother : ∀ j, j ≠ who → s'.place j = s.place j := by
    intro j hj
    rw [hplace, Function.update_of_ne hj]
  have hle : (s.place who).generator.lastTimestamp ≤ p'.generator.lastTimestamp := by
    rcases hissues.next with ⟨hlt, -⟩ | ⟨heq, -⟩
    · exact hlt.le
    · exact heq.le
  refine ⟨fun j => ?_, ?_, ?_, ?_, ?_, fun j hclock => ?_⟩
  · by_cases hj : j = who
    · rwa [hj, hself]
    · rw [hother j hj]
      exact h.sound j
  · rw [hissued, List.forall_mem_cons]
    exact ⟨⟨hissues.twepoch_le, hissues.timestamp_lt, hsound.datacenterid_nonneg,
      hsound.datacenterid_le, hsound.workerid_nonneg, hsound.workerid_le, hsound.sequence_le⟩,
      h.fits⟩
  · rw [hissued, List.forall_mem_cons]
    refine ⟨?_, fun x hx => ?_⟩
    · have hwho : (p'.generator.issue who).who = who := rfl
      rw [hwho, hself, hissues.clock]
      exact ⟨Option.some_ne_none _, le_rfl⟩
    · by_cases hj : x.who = who
      · rw [hj, hself, hissues.clock]
        have hbehind := (h.behind x hx).2
        rw [hj] at hbehind
        exact ⟨Option.some_ne_none _, hbehind.trans hle⟩
      · rw [hother _ hj]
        exact h.behind x hx
  · rw [hissued, List.forall_mem_cons]
    refine ⟨fun _ _ => ?_, fun x hx hwait htime => ?_⟩
    · have hwho : (p'.generator.issue who).who = who := rfl
      rw [hwho, hself]
      exact le_rfl
    · by_cases hj : x.who = who
      · rw [hj, hself] at htime ⊢
        rcases h.earlier hissues hx hj with hlt | ⟨-, hseq⟩
        · exact absurd htime hlt.ne
        · exact hseq.le
      · rw [hother _ hj] at hwait htime ⊢
        exact h.last x hx hwait htime
  · rw [hissued, List.pairwise_cons]
    exact ⟨fun x hx hwho => h.earlier hissues hx hwho, h.order⟩
  · rw [State.issuedIn, hissued, List.countP_cons]
    by_cases hj : j = who
    · subst hj
      rw [hself, hissues.waiting, if_neg Bool.false_ne_true, if_pos (by simp [Generator.issue])]
      congr 1
      rcases hissues.next with ⟨hlt, hzero⟩ | ⟨heq, hwait, hclocked, hseq⟩
      · -- no id of this millisecond has been issued
        rw [hzero, List.countP_eq_zero]
        intro x hx
        rw [decide_eq_true_eq]
        rintro ⟨hwho, htime⟩
        have hbehind := (h.behind x hx).2
        rw [hwho] at hbehind
        omega
      · have hold := h.count j hclocked
        rw [hwait, if_neg Bool.false_ne_true, State.issuedIn, heq] at hold
        rw [hold, hseq]
    · have hne : (p'.generator.issue who).who ≠ j := fun hwho => hj hwho.symm
      rw [hother j hj] at hclock ⊢
      rw [if_neg (by simp [hne]), Nat.add_zero]
      exact h.count j hclock

/-- **Every event keeps the invariant.** -/
lemma Ordered.step (h : Ordered twepoch s) (hrange : InRange twepoch s e)
    (hst : step s e = some s') : Ordered twepoch s' := by
  obtain ⟨who, p', hplace, hsound, hissued⟩ := step_cases h.sound hrange hst
  rcases hissued with ⟨hissued, hquiet⟩ | ⟨hissued, hissues⟩
  · exact h.quiet hplace hsound hissued hquiet
  · exact h.issues hplace hsound hissued hissues

/-- It holds after every run while the clocks are in range. -/
lemma ordered_of_run {es : List (Event ι)} (hrange : (generators ι).Along (InRange twepoch) es)
    (hrun : (generators ι).run es = some s) : Ordered twepoch s :=
  System.run_invariant_along (ordered_init twepoch)
    (fun _ _ _ h hrange hst => h.step hrange hst) hrange hrun

/-! ## Results -/

/-- **Equal ids and the order of ids.** In every run, two equal ids are of different generators with
the same numbers, and of two ids of a generator with the same numbers the one issued later is
greater.

**Proof sketch.** Each generator issues its ids with times and sequences that increase, and an id
has its four parts in it. -/
theorem ids_distinct {es : List (Event ι)} (hrange : (generators ι).Along (InRange twepoch) es)
    (hrun : (generators ι).run es = some s) :
    s.issued.Pairwise fun y x =>
      (x.id twepoch = y.id twepoch →
        x.who ≠ y.who ∧ x.datacenterid = y.datacenterid ∧ x.workerid = y.workerid) ∧
      (x.who = y.who → x.datacenterid = y.datacenterid → x.workerid = y.workerid →
        (x.id twepoch).toInt < (y.id twepoch).toInt) := by
  have h := ordered_of_run hrange hrun
  refine h.order.imp_of_mem fun {y x} hy hx hearlier => ⟨fun hid => ?_, fun hwho hd hw => ?_⟩
  · obtain ⟨htime, hd, hw, hseq⟩ := Issue.id_inj (h.fits x hx) (h.fits y hy) hid
    refine ⟨fun hwho => ?_, hd, hw⟩
    rcases hearlier hwho with hlt | ⟨-, hlt⟩
    · exact absurd htime hlt.ne
    · exact absurd hseq hlt.ne
  · exact Issue.toInt_id_lt (h.fits x hx) (h.fits y hy) hd hw (hearlier hwho)

/-- Two generators with the same numbers but one, and three calls in one millisecond. -/
theorem ids_distinct_two : ∃ s : State Bool,
    (generators Bool).run [.init true 3 0, .call true 7, .call false 7, .call true 7] = some s ∧
      s.issued.Pairwise fun y x =>
        (x.id 5 = y.id 5 →
          x.who ≠ y.who ∧ x.datacenterid = y.datacenterid ∧ x.workerid = y.workerid) ∧
        (x.who = y.who → x.datacenterid = y.datacenterid → x.workerid = y.workerid →
          (x.id 5).toInt < (y.id 5).toInt) := by
  have hrange : (generators Bool).Along (InRange 5)
      [.init true 3 0, .call true 7, .call false 7, .call true 7] := by
    simp [System.Along, System.AlongFrom, InRange]
  obtain ⟨s, hrun⟩ : ∃ s, (generators Bool).run
      [.init true 3 0, .call true 7, .call false 7, .call true 7] = some s := ⟨_, rfl⟩
  exact ⟨s, hrun, ids_distinct hrange hrun⟩

/-- **When a call waits.** In every run whose looks at the clock show times from 1970 and from the
epoch on, less than `2 ^ 41` milliseconds behind it, a call of `nextid` waits only when all ids of
the millisecond have been issued, and it ends at the first look at the clock that shows a later one.

**Proof sketch.** The invariant `Ordered` counts the ids of the last millisecond: there are one more
than `sequence` says, and one more again while a call waits, for which `sequence` went back to
`0`. -/
theorem waits_when_exhausted {es : List (Event ι)}
    (hrange : (generators ι).Along (InRange twepoch) es) (hrun : (generators ι).run es = some s)
    (hwait : (s.place who).waiting = true) :
    (∀ t ∈ (s.place who).clock, s.issuedIn who t = 2 ^ 12) ∧
    ∀ t' : ℤ, (∀ t ∈ (s.place who).clock, t < t') →
      ∃ x s', step s (.poll who t') = some s' ∧ x.who = who ∧ x.timestamp = t' ∧
        s'.issued = x :: s.issued := by
  have h := ordered_of_run hrange hrun
  have hclock : (s.place who).clock = some (s.place who).generator.lastTimestamp := by
    rcases (h.sound who).clock with hclock | ⟨-, -, hno⟩
    · exact hclock
    · exact absurd (hno.symm.trans hwait) Bool.false_ne_true
  refine ⟨fun t ht => ?_, fun t' ht' => ?_⟩
  · have hcount := h.count who (by rw [hclock]; exact Option.some_ne_none _)
    rw [hwait, if_pos rfl] at hcount
    rw [hclock, Option.mem_some_iff] at ht
    rw [← ht, hcount]
    rfl
  · have hlater : (s.place who).generator.lastTimestamp < t' := ht' _ hclock
    refine ⟨{ (s.place who).generator with lastTimestamp := t' }.issue who, _,
      if_pos ⟨hwait, fun t ht => (ht' t ht).le⟩, ?_⟩
    rw [Generator.waitNextMillis, if_neg hlater.not_ge]
    exact ⟨rfl, rfl, rfl⟩

/-- The calls of one millisecond, up to the last one that does not wait. -/
lemma calls_of_millisecond {n : ℕ} (hn : n < 2 ^ 12) : ∃ s : State Unit,
    (generators Unit).run (List.replicate (n + 1) (.call () 0)) = some s ∧
      s.place () = ⟨⟨0, 0, 0, n⟩, some 0, false⟩ := by
  induction n with
  | zero => exact ⟨_, rfl, rfl⟩
  | succ n ih =>
    obtain ⟨s, hrun, hplace⟩ := ih (by omega)
    have hmask : (n + 1) &&& sequenceMask = n + 1 := by
      rw [and_sequenceMask, Nat.mod_eq_of_lt hn]
    refine ⟨s.record () 0 (.returned ⟨0, 0, 0, n + 1⟩), ?_, ?_⟩
    · rw [List.replicate_succ', System.run, System.runFrom_append, ← System.run, hrun,
        Option.bind_some]
      simp [generators, step, hplace, Generator.nextid, hmask]
    · simp [State.record]

/-- The call behind all ids of a millisecond waits.

**Proof sketch.** The run is computed by the lemma for the calls of one millisecond, and the
theorem is applied to it. -/
theorem waits_after_all : ∃ s : State Unit,
    (generators Unit).run (List.replicate 4097 (.call () 0)) = some s ∧
      s.issuedIn () 0 = 2 ^ 12 := by
  obtain ⟨s, hrun, hplace⟩ := calls_of_millisecond (show 4095 < 2 ^ 12 by omega)
  have hwaits : (generators Unit).run (List.replicate 4097 (.call () 0)) =
      some (s.record () 0 (.waits ⟨0, 0, 0, 0⟩)) := by
    rw [List.replicate_succ', System.run, System.runFrom_append, ← System.run, hrun,
      Option.bind_some]
    simp [generators, step, hplace, Generator.nextid, and_sequenceMask]
  have hrange : (generators Unit).Along (InRange 0) (List.replicate 4097 (.call () 0)) := by
    suffices h : ∀ n s,
        (generators Unit).AlongFrom (InRange 0) s (List.replicate n (.call () 0)) from h _ _
    intro n
    induction n with
    | zero => exact fun _ => trivial
    | succ n ih => exact fun s => ⟨by simp [InRange], fun t _ => ih t⟩
  have hclock : ((s.record () 0 (.waits ⟨0, 0, 0, 0⟩)).place ()).clock = some 0 := by
    simp [State.record]
  have hall := (waits_when_exhausted hrange hwaits (by simp [State.record])).1 0 hclock
  exact ⟨_, hwaits, hall⟩

end Snowflake
