import Mathlib.Data.List.Basic
import Mathlib.Order.Basic
import Mathlib.Algebra.Group.Nat.Defs

set_option relaxedAutoImplicit false
set_option autoImplicit false

/-!
# Streaming a response

The end of `async_requestStream`: one read of the header, and then a loop that reads the body into a
buffer and hands it to a callback until the parser is done.

## Main definitions

* `HkuUtils.Streaming.ReadResult`, `ReadError` — what a read reports, and what it left behind.
* `HkuUtils.Streaming.Progress`, `Status` — the callbacks so far, and where the function is.
* `HkuUtils.Streaming.bodyStep`, `loop`, `stream` — one iteration, the loop, the function.
* `HkuUtils.Streaming.ClosedFrom`, `Ends` — the peer has closed; the function comes to an end.

## Main results

* `HkuUtils.Streaming.loop_ended_iff` — the loop ends with one of its iterations.
* `HkuUtils.Streaming.ends_iff` — the function ends with one of its reads.
* `HkuUtils.Streaming.stream_ends`, `close_before_header` — when the function comes to an end.

## Design

The reads that will follow are a sequence of results, the first for the header. A result says what
was written at the front of the buffer; the callback gets a pointer and a length, so that it sees
what is in the buffer from before, and after its end what is in memory there. Timeouts are errors of
a read.
-/

namespace HkuUtils.Streaming

/-- The errors of a read. -/
inductive ReadError where
  /-- `http::error::need_buffer`. -/
  | needBuffer
  /-- `http::error::end_of_stream`. -/
  | endOfStream
  /-- `http::error::body_limit`. -/
  | bodyLimit
  | other (code : ℕ)
  deriving DecidableEq, Repr

/-- What a read reports, and what it left behind. -/
structure ReadResult where
  /-- `read_ec`. -/
  ec : Option ReadError
  /-- `bytes_transferred`. -/
  bytes : ℕ
  /-- What was written at the front of the buffer. -/
  written : List UInt8
  /-- `parser.is_done()` afterwards. -/
  isDone : Bool
  deriving DecidableEq, Repr

/-- `BUFFER_SIZE`. -/
def bufferSize : ℕ := 8192

/-- What the function has done so far. -/
structure Progress where
  /-- `chunk_buffer`. -/
  buffer : List UInt8
  /-- `response.m_total_bytes_read`. -/
  total : ℕ
  /-- What the calls of `chunk_callback` saw. -/
  calls : List (List UInt8)
  deriving DecidableEq, Repr

/-- Before the first read. -/
def Progress.init : Progress := ⟨List.replicate bufferSize 0, 0, []⟩

/-- Where the function is. -/
inductive Status where
  /-- Before an iteration of the loop. -/
  | looping (p : Progress)
  | returned (p : Progress)
  | threw (p : Progress)
  deriving DecidableEq, Repr

/-- What a callback sees from the front of the buffer on; `beyond` is what lies after its end. -/
def seen (beyond : ℕ → UInt8) (buffer : List UInt8) (size : ℕ) : List UInt8 :=
  (List.range size).map fun i => buffer.getD i (beyond i)

/-- The read writes at the front of the buffer. -/
def fill (buffer written : List UInt8) : List UInt8 := written ++ buffer.drop written.length

/-- The errors that the read of the body may report. -/
def bodyTolerates : Option ReadError → Bool
  | none | some .needBuffer | some .endOfStream => true
  | _ => false

/-- The errors that the read of the header may report. -/
def headerTolerates : Option ReadError → Bool
  | none | some .endOfStream => true
  | _ => false

/-- The condition of the loop. -/
def whileNotDone (isDone : Bool) (p : Progress) : Status :=
  if isDone then .returned p else .looping p

/-- An iteration of the loop: a read, the test of its error, and the callback with what the read
has put in the buffer.

`beyond` is what stands behind the buffer, which the callback sees if more bytes were transferred
than written. -/
def bodyStep (beyond : ℕ → UInt8) (r : ReadResult) (p : Progress) : Status :=
  let p := { p with buffer := fill p.buffer r.written }
  if bodyTolerates r.ec then
    whileNotDone r.isDone
      (if 0 < r.bytes then
        { p with
          total := (p.total + r.bytes) % 2 ^ 64
          calls := p.calls ++ [seen beyond p.buffer r.bytes] }
      else p)
  else .threw p

/-- Some iterations of the loop. -/
def loop (beyond : ℕ → UInt8) (reads : ℕ → ReadResult) : ℕ → Progress → Status
  | 0, p => .looping p
  | n + 1, p =>
    match bodyStep beyond (reads 0) p with
    | .looping p' => loop beyond (fun k => reads (k + 1)) n p'
    | s => s

/-- The read of the header, and some iterations of the loop. -/
def stream (beyond : ℕ → UInt8) (reads : ℕ → ReadResult) (n : ℕ) : Status :=
  if headerTolerates (reads 0).ec then
    match whileNotDone (reads 0).isDone Progress.init with
    | .looping p => loop beyond (fun k => reads (k + 1)) n p
    | s => s
  else .threw Progress.init

/-- The function has come to an end. -/
def Status.Ended : Status → Prop
  | looping _ => False
  | returned _ => True
  | threw _ => True

instance : DecidablePred Status.Ended
  | .looping _ => isFalse id
  | .returned _ => isTrue trivial
  | .threw _ => isTrue trivial

/-- **The function comes to an end.** -/
def Ends (beyond : ℕ → UInt8) (reads : ℕ → ReadResult) : Prop :=
  ∃ n, (stream beyond reads n).Ended

/-- A read of a connection that the peer has closed. -/
def closedRead : ReadResult := ⟨some .endOfStream, 0, [], false⟩

/-- The peer has closed before the read `c`. -/
def ClosedFrom (c : ℕ) (reads : ℕ → ReadResult) : Prop := ∀ k, c ≤ k → reads k = closedRead

/-- The read `k` is the last one: it ends the message, or reports an error that is not tolerated. -/
def IsLast (reads : ℕ → ReadResult) (k : ℕ) : Prop :=
  (reads k).isDone = true ∨
    (if k = 0 then headerTolerates (reads k).ec else bodyTolerates (reads k).ec) = false

/-! ## Iterations -/

variable {beyond : ℕ → UInt8}

/-- An iteration goes on exactly if its read is not the last one. -/
lemma bodyStep_ended_iff (r : ReadResult) (p : Progress) :
    (bodyStep beyond r p).Ended ↔ r.isDone = true ∨ bodyTolerates r.ec = false := by
  cases hec : bodyTolerates r.ec with
  | false => simp [bodyStep, hec, Status.Ended]
  | true =>
    cases hdone : r.isDone with
    | false => simp [bodyStep, hec, whileNotDone, hdone, Status.Ended]
    | true => simp [bodyStep, hec, whileNotDone, hdone, Status.Ended]

/-- An iteration that goes on. -/
lemma exists_of_not_ended {s : Status} (h : ¬ s.Ended) : ∃ p, s = .looping p := by
  cases s with
  | looping p => exact ⟨p, rfl⟩
  | returned p => exact absurd trivial h
  | threw p => exact absurd trivial h

/-- **The loop ends** exactly if one of its iterations does.

**Proof sketch.** By induction on the fuel. If the first iteration ends the loop, it is the one;
otherwise the loop goes on with the reads from the second on. -/
lemma loop_ended_iff (reads : ℕ → ReadResult) (n : ℕ) (p : Progress) :
    (loop beyond reads n p).Ended ↔
      ∃ k < n, (reads k).isDone = true ∨ bodyTolerates (reads k).ec = false := by
  induction n generalizing reads p with
  | zero => simp [loop, Status.Ended]
  | succ n ih =>
    by_cases hend : (bodyStep beyond (reads 0) p).Ended
    · have hloop : loop beyond reads (n + 1) p = bodyStep beyond (reads 0) p := by
        rw [loop]
        split
        · rename_i p' hp'
          rw [hp'] at hend
          cases hend
        · rfl
      rw [hloop]
      exact iff_of_true hend ⟨0, Nat.succ_pos n, (bodyStep_ended_iff _ p).mp hend⟩
    · obtain ⟨p', hp'⟩ := exists_of_not_ended hend
      have hloop : loop beyond reads (n + 1) p = loop beyond (fun k => reads (k + 1)) n p' := by
        rw [loop, hp']
      have hfirst := mt (@bodyStep_ended_iff beyond (reads 0) p).mpr hend
      rw [hloop, ih]
      constructor
      · rintro ⟨k, hk, hlast⟩
        exact ⟨k + 1, Nat.succ_lt_succ hk, hlast⟩
      · rintro ⟨k, hk, hlast⟩
        cases k with
        | zero => exact absurd hlast hfirst
        | succ k => exact ⟨k, Nat.lt_of_succ_lt_succ hk, hlast⟩

/-- **The function comes to an end** exactly if one of its reads is the last one.

**Proof sketch.** The first read is that of the header, and it ends the function or the loop
begins. The loop ends with enough fuel exactly if one of its reads is the last. -/
lemma ends_iff (reads : ℕ → ReadResult) : Ends beyond reads ↔ ∃ k, IsLast reads k := by
  have hzero : IsLast reads 0 ↔
      (reads 0).isDone = true ∨ headerTolerates (reads 0).ec = false := Iff.rfl
  by_cases hlast : IsLast reads 0
  · refine iff_of_true ⟨0, ?_⟩ ⟨0, hlast⟩
    rw [stream]
    cases hec : headerTolerates (reads 0).ec with
    | false => exact trivial
    | true =>
      have hdone : (reads 0).isDone = true := by simpa [hec] using hzero.mp hlast
      rw [hdone]
      exact trivial
  · obtain ⟨hdone, hec⟩ := not_or.mp (mt hzero.mpr hlast)
    rw [Bool.not_eq_true] at hdone
    rw [Bool.not_eq_false] at hec
    have hstream : ∀ n, stream beyond reads n =
        loop beyond (fun k => reads (k + 1)) n Progress.init := fun n => by
      rw [stream, if_pos hec, hdone]
      rfl
    constructor
    · rintro ⟨n, hn⟩
      rw [hstream, loop_ended_iff] at hn
      obtain ⟨k, -, hk⟩ := hn
      exact ⟨k + 1, hk⟩
    · rintro ⟨k, hk⟩
      cases k with
      | zero => exact absurd hk hlast
      | succ k =>
        refine ⟨k + 1, ?_⟩
        rw [hstream, loop_ended_iff]
        exact ⟨k, Nat.lt_succ_self k, hk⟩

/-- **When the function comes to an end**: exactly if some read before the peer closes, if it ever
does, ends the message or reports an error that is not tolerated.

**Proof sketch.** Each iteration goes on unless its read is such a one. A read of a closed
connection is none: its error is tolerated by both reads, and the parser is not done. -/
theorem stream_ends (beyond : ℕ → UInt8) {reads : ℕ → ReadResult} {closed : Option ℕ}
    (hclosed : ∀ c ∈ closed, ClosedFrom c reads) :
    Ends beyond reads ↔ ∃ k, (∀ c ∈ closed, k < c) ∧ IsLast reads k := by
  rw [ends_iff]
  constructor
  · rintro ⟨k, hk⟩
    refine ⟨k, fun c hc => ?_, hk⟩
    by_contra hle
    rw [IsLast, hclosed c hc k (Nat.not_lt.mp hle)] at hk
    split at hk <;> simp [closedRead, headerTolerates, bodyTolerates] at hk
  · rintro ⟨k, -, hk⟩
    exact ⟨k, hk⟩

/-- The reads of a peer that answers at once and then closes. -/
def answered (k : ℕ) : ReadResult := if k = 0 then ⟨none, 20, [], true⟩ else closedRead

/-- The function returns. -/
theorem stream_ends_answered : Ends (fun _ => 0) answered := by
  have hclosed : ∀ c ∈ some 1, ClosedFrom c answered := fun c hc k hk => by
    have hc' : 1 = c := Option.some.inj hc
    exact if_neg (by omega)
  exact (stream_ends (fun _ => 0) hclosed).mpr
    ⟨0, fun c hc => Option.some.inj hc ▸ Nat.one_pos, Or.inl rfl⟩

/-- A peer that closes before the header: the loop goes on for ever. -/
theorem close_before_header :
    ClosedFrom 0 (fun _ => closedRead) ∧ ¬ Ends (fun _ => 0) fun _ => closedRead := by
  refine ⟨fun _ _ => rfl, fun h => ?_⟩
  obtain ⟨k, hk⟩ := (ends_iff _).mp h
  rw [IsLast] at hk
  split at hk <;> simp [closedRead, headerTolerates, bodyTolerates] at hk

end HkuUtils.Streaming
