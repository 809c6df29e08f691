import Mathlib.Data.Int.Order.Basic
import Mathlib.Data.Nat.Bitwise
import Mathlib.Logic.Function.Basic
import HkuUtils.Transition

set_option relaxedAutoImplicit false
set_option autoImplicit false

/-!
# Ids without a coordinator

The generators of `snowflake.h`. Each has a clock that never goes back, two numbers that `init`
sets, and a sequence that counts the ids of one millisecond. An id is put together from the
milliseconds since an epoch, the two numbers and the sequence. When the sequence of a millisecond is
used up, the call that finds this out waits, with the lock, for the clock to go on.

## Main definitions

* `Snowflake.Generator.init`, `Generator.nextid`, `Generator.waitNextMillis` — the functions.
* `Snowflake.Issue.id` — the id that a call returns.
* `Snowflake.generators` — any number of generators with their callers.

## Main results

* `Snowflake.Issue.toNat_id` — an id has its four parts in it.

## Design

The milliseconds that a clock shows are an argument of the functions; in the system they do not go
back. A call of `nextid` is one event, or one for its beginning and one for each time that it looks
at the clock again. The lock makes it wait for the calls before it, so that a generator has no other
event while one of its calls waits; a generator without a lock is used by one thread.
-/

namespace Snowflake

open Transition

/-! ## A generator -/

/-- `MAX_WORKER_ID`. -/
def maxWorkerId : ℤ := 2 ^ 5 - 1

/-- `MAX_DATACENTER_ID`. -/
def maxDatacenterId : ℤ := 2 ^ 5 - 1

/-- `SEQUENCE_MASK`. -/
def sequenceMask : ℕ := 2 ^ 12 - 1

/-- The members of a generator. -/
structure Generator where
  lastTimestamp : ℤ
  workerid : ℤ
  datacenterid : ℤ
  sequence : ℕ
  deriving DecidableEq, Repr

/-- A generator as it is constructed. -/
def Generator.new : Generator := ⟨-1, 0, 0, 0⟩

/-- How a call of `nextid` stands. -/
inductive Call where
  /-- It has returned the id of these members. -/
  | returned (g : Generator)
  /-- It is in the loop of `wait_next_millis`. -/
  | waits (g : Generator)
  deriving DecidableEq, Repr

namespace Generator

/-- `init`, with the texts of its exceptions. -/
def init (g : Generator) (workerid datacenterid : ℤ) : Except String Generator :=
  if workerid > maxWorkerId ∨ workerid < 0 then
    .error "worker Id can't be greater than 31 or less than 0"
  else if datacenterid > maxDatacenterId ∨ datacenterid < 0 then
    .error "datacenter Id can't be greater than 31 or less than 0"
  else .ok { g with workerid := workerid, datacenterid := datacenterid }

/-- `nextid` up to the loop of `wait_next_millis`, when the clock shows `timestamp`. -/
def nextid (g : Generator) (timestamp : ℤ) : Call :=
  if g.lastTimestamp = timestamp then
    let g := { g with sequence := (g.sequence + 1) &&& sequenceMask }
    if g.sequence = 0 then .waits g
    else .returned { g with lastTimestamp := timestamp }
  else .returned { g with sequence := 0, lastTimestamp := timestamp }

/-- The loop of `wait_next_millis`, and `nextid` behind it, when the clock shows `timestamp`. -/
def waitNextMillis (g : Generator) (timestamp : ℤ) : Call :=
  if timestamp ≤ g.lastTimestamp then .waits g
  else .returned { g with lastTimestamp := timestamp }

end Generator

/-! ## Ids -/

/-- An id that the generator `who` has issued, by its parts. -/
structure Issue (ι : Type) where
  who : ι
  timestamp : ℤ
  datacenterid : ℤ
  workerid : ℤ
  sequence : ℕ

/-- The id that the members of a generator give. -/
def Generator.issue {ι : Type} (g : Generator) (who : ι) : Issue ι :=
  ⟨who, g.lastTimestamp, g.datacenterid, g.workerid, g.sequence⟩

namespace Issue

variable {ι : Type} {twepoch : ℤ} {x y : Issue ι}

/-- The value that `nextid` returns. -/
def id (twepoch : ℤ) (x : Issue ι) : BitVec 64 :=
  BitVec.ofInt 64 (x.timestamp - twepoch) <<< 22 ||| BitVec.ofInt 64 x.datacenterid <<< 17 |||
    BitVec.ofInt 64 x.workerid <<< 12 ||| BitVec.ofNat 64 x.sequence

/-- The parts of an id fit into their places. -/
structure Fits (twepoch : ℤ) (x : Issue ι) : Prop where
  twepoch_le : twepoch ≤ x.timestamp
  timestamp_lt : x.timestamp < twepoch + 2 ^ 41
  datacenterid_nonneg : 0 ≤ x.datacenterid
  datacenterid_le : x.datacenterid ≤ maxDatacenterId
  workerid_nonneg : 0 ≤ x.workerid
  workerid_le : x.workerid ≤ maxWorkerId
  sequence_le : x.sequence ≤ sequenceMask

/-- A number moved to the left in 64 bits. -/
lemma toNat_ofInt_shiftLeft {v : ℤ} {k : ℕ} (h0 : 0 ≤ v) (h : v.toNat * 2 ^ k < 2 ^ 64) :
    (BitVec.ofInt 64 v <<< k).toNat = v.toNat <<< k := by
  obtain ⟨n, rfl⟩ := Int.eq_ofNat_of_zero_le h0
  rw [Int.toNat_natCast] at h
  have hn : n < 2 ^ 64 := lt_of_le_of_lt (Nat.le_mul_of_pos_right n (Nat.two_pow_pos k)) h
  rw [BitVec.toNat_shiftLeft, BitVec.ofInt_natCast, BitVec.toNat_ofNat, Nat.mod_eq_of_lt hn,
    Int.toNat_natCast, Nat.shiftLeft_eq, Nat.mod_eq_of_lt h]

/-- **An id has its four parts in it.**

**Proof sketch.** Each part is shifted beyond the next one, so joining them is adding them up. -/
theorem toNat_id (h : x.Fits twepoch) :
    (x.id twepoch).toNat = (x.timestamp - twepoch).toNat * 2 ^ 22 + x.datacenterid.toNat * 2 ^ 17 +
      x.workerid.toNat * 2 ^ 12 + x.sequence := by
  obtain ⟨ht0, ht, hd0, hd, hw0, hw, hs⟩ := h
  rw [maxDatacenterId] at hd
  rw [maxWorkerId] at hw
  rw [sequenceMask] at hs
  have hseq : (BitVec.ofNat 64 x.sequence).toNat = x.sequence := by
    rw [BitVec.toNat_ofNat, Nat.mod_eq_of_lt (by omega)]
  have htimestamp := toNat_ofInt_shiftLeft (v := x.timestamp - twepoch) (k := 22) (by omega)
    (by omega)
  have hdatacenter := toNat_ofInt_shiftLeft (k := 17) hd0 (by omega)
  have hworker := toNat_ofInt_shiftLeft (k := 12) hw0 (by omega)
  -- the parts do not overlap
  have hjoin₁ : x.workerid.toNat <<< 12 ||| x.sequence =
      x.workerid.toNat * 2 ^ 12 + x.sequence := by
    rw [← Nat.shiftLeft_add_eq_or_of_lt (by omega), Nat.shiftLeft_eq]
  have hjoin₂ : x.datacenterid.toNat <<< 17 ||| (x.workerid.toNat * 2 ^ 12 + x.sequence) =
      x.datacenterid.toNat * 2 ^ 17 + (x.workerid.toNat * 2 ^ 12 + x.sequence) := by
    rw [← Nat.shiftLeft_add_eq_or_of_lt (by omega), Nat.shiftLeft_eq]
  rw [id, BitVec.toNat_or, BitVec.toNat_or, BitVec.toNat_or, htimestamp, hdatacenter, hworker, hseq,
    Nat.or_assoc, Nat.or_assoc, hjoin₁, hjoin₂, ← Nat.shiftLeft_add_eq_or_of_lt (by omega),
    Nat.shiftLeft_eq]
  omega

/-- As an `int64_t` it is the same number. -/
lemma toInt_id (h : x.Fits twepoch) : (x.id twepoch).toInt = (x.id twepoch).toNat := by
  have hnat := toNat_id h
  obtain ⟨ht0, ht, hd0, hd, hw0, hw, hs⟩ := h
  rw [maxDatacenterId] at hd
  rw [maxWorkerId] at hw
  rw [sequenceMask] at hs
  rw [BitVec.toInt_eq_toNat_of_lt]
  omega

/-- Two ids are equal when all their parts are. -/
theorem id_inj (hx : x.Fits twepoch) (hy : y.Fits twepoch) (h : x.id twepoch = y.id twepoch) :
    x.timestamp = y.timestamp ∧ x.datacenterid = y.datacenterid ∧ x.workerid = y.workerid ∧
      x.sequence = y.sequence := by
  have hnat := congrArg BitVec.toNat h
  rw [toNat_id hx, toNat_id hy] at hnat
  obtain ⟨ht0, ht, hd0, hd, hw0, hw, hs⟩ := hx
  obtain ⟨ht0', ht', hd0', hd', hw0', hw', hs'⟩ := hy
  rw [maxDatacenterId] at hd hd'
  rw [maxWorkerId] at hw hw'
  rw [sequenceMask] at hs hs'
  omega

/-- With the same numbers a later time, or a greater sequence at the same time, is a greater id. -/
theorem toInt_id_lt (hx : x.Fits twepoch) (hy : y.Fits twepoch)
    (hd : x.datacenterid = y.datacenterid) (hw : x.workerid = y.workerid)
    (h : x.timestamp < y.timestamp ∨ x.timestamp = y.timestamp ∧ x.sequence < y.sequence) :
    (x.id twepoch).toInt < (y.id twepoch).toInt := by
  rw [toInt_id hx, toInt_id hy, toNat_id hx, toNat_id hy, hd, hw]
  have hs := hx.sequence_le
  have hs' := hy.sequence_le
  have ht := hx.twepoch_le
  have ht' := hy.twepoch_le
  rw [sequenceMask] at hs hs'
  omega

end Issue

/-! ## The system -/

/-- A generator, its clock, and whether one of its calls waits. -/
structure Place where
  generator : Generator
  /-- What the clock has shown last. -/
  clock : Option ℤ
  waiting : Bool

/-- The generators, and the ids that they have issued, the last one first. -/
structure State (ι : Type) where
  place : ι → Place
  issued : List (Issue ι)

/-- What happens. -/
inductive Event (ι : Type) where
  /-- A call of `init`. -/
  | init (who : ι) (workerid datacenterid : ℤ)
  /-- A call of `nextid` has the lock and looks at the clock. -/
  | call (who : ι) (timestamp : ℤ)
  /-- The call that waits looks at the clock again. -/
  | poll (who : ι) (timestamp : ℤ)

section System

variable {ι : Type} [DecidableEq ι]

/-- What a call has come to. -/
def State.record (s : State ι) (who : ι) (timestamp : ℤ) : Call → State ι
  | .returned g =>
    ⟨Function.update s.place who ⟨g, some timestamp, false⟩, g.issue who :: s.issued⟩
  | .waits g => ⟨Function.update s.place who ⟨g, some timestamp, true⟩, s.issued⟩

/-- The step of an event: no event of a generator but the next look at the clock happens while one
of its calls waits, and no clock goes back. -/
def step (s : State ι) : Event ι → Option (State ι)
  | .init who workerid datacenterid =>
    if (s.place who).waiting then none
    else
      match (s.place who).generator.init workerid datacenterid with
      | .ok g =>
        some { s with place := Function.update s.place who { s.place who with generator := g } }
      | .error _ => some s
  | .call who timestamp =>
    if (s.place who).waiting = false ∧ ∀ t ∈ (s.place who).clock, t ≤ timestamp then
      some (s.record who timestamp ((s.place who).generator.nextid timestamp))
    else none
  | .poll who timestamp =>
    if (s.place who).waiting = true ∧ ∀ t ∈ (s.place who).clock, t ≤ timestamp then
      some (s.record who timestamp ((s.place who).generator.waitNextMillis timestamp))
    else none

/-- Any number of generators. -/
def generators (ι : Type) [DecidableEq ι] : System (State ι) (Event ι) :=
  ⟨⟨fun _ => ⟨Generator.new, none, false⟩, []⟩, step⟩

/-- The clock is between the epoch and the end of the 41 bits of an id, and behind 1970. -/
def InRange (twepoch : ℤ) (_ : State ι) : Event ι → Prop
  | .init _ _ _ => True
  | .call _ timestamp | .poll _ timestamp =>
    0 ≤ timestamp ∧ twepoch ≤ timestamp ∧ timestamp < twepoch + 2 ^ 41

end System

end Snowflake
