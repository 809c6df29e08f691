import HkuUtils.HttpClient.Streaming

set_option relaxedAutoImplicit false
set_option autoImplicit false

/-!
# What a stream delivers

The callbacks of `async_requestStream` for a response that the peer sends completely. A read reports
how many bytes the parser has taken from the connection, and the function takes that for the number
of bytes in the buffer.

## Main definitions

* `HkuUtils.Streaming.Response`, `wire` — a response, and what is sent for its body.
* `HkuUtils.Streaming.IsSplit`, `reads` — how it is split into reads, and their results.
* `HkuUtils.Streaming.Delivered` — the callbacks have seen exactly the body.

## Main results

* `HkuUtils.Streaming.loop_reads` — what the callbacks see.
* `HkuUtils.Streaming.delivered_iff`, `framing_delivered` — when that is the body.

## Design

What is sent after the header is a sequence of bytes of the body and bytes of the framing. A read
takes any part of it whose bytes of the body fit into the buffer, and ends with `need_buffer` unless
the message is done; Beast would take as much as fits. More than 8 MiB are an error, at once where
the header tells the length.
-/

namespace HkuUtils.Streaming

/-! ## Responses -/

/-- A byte after the header: of the body, or of the framing of a chunk. -/
inductive Sent where
  | body (b : UInt8)
  | framing (b : UInt8)
  deriving DecidableEq, Repr

/-- A chunk: the line with its size, and its bytes. -/
structure Chunk where
  head : List UInt8
  data : List UInt8
  deriving DecidableEq, Repr

/-- A response, by its transfer coding. -/
inductive Response where
  /-- The identity; the header may tell the length. -/
  | identity (hasLength : Bool) (body : List UInt8)
  /-- Chunks, and the fields of the trailer. -/
  | chunked (chunks : List Chunk) (trailer : List UInt8)
  deriving DecidableEq, Repr

namespace Response

/-- The decoded body. -/
def body : Response → List UInt8
  | identity _ body => body
  | chunked chunks _ => chunks.flatMap Chunk.data

/-- The transfer coding is the identity. -/
def isIdentity : Response → Bool
  | identity _ _ => true
  | chunked _ _ => false

/-- The header tells the length. -/
def hasLength : Response → Bool
  | identity hasLength _ => hasLength
  | chunked _ _ => false

/-- What is sent after the header: behind each chunk an end of a line, and at the end the line
`0`, the trailer and an empty line. -/
def wire : Response → List Sent
  | identity _ body => body.map .body
  | chunked chunks trailer =>
    (chunks.flatMap fun c =>
      c.head.map .framing ++ c.data.map .body ++ [.framing 13, .framing 10]) ++
      ([48, 13, 10] ++ trailer ++ [13, 10]).map .framing

end Response

/-- The bytes of the body. -/
def bodyOf (sent : List Sent) : List UInt8 :=
  sent.filterMap fun
    | .body b => some b
    | .framing _ => none

/-- The limit of Beast for the body of a response: 8 MiB. -/
def bodyLimit : ℕ := 8 * 1024 * 1024

/-- What is sent is split into reads, each of which takes bytes of the body that fit into the
buffer. -/
structure IsSplit (r : Response) (pieces : List (List Sent)) : Prop where
  flatten_eq : pieces.flatten = r.wire
  fits : ∀ p ∈ pieces, (bodyOf p).length ≤ bufferSize

/-- The results of the reads of the body, of which `taken` bytes have been read. -/
def reads (taken : ℕ) : List (List Sent) → ℕ → ReadResult
  | [], _ => closedRead
  | p :: ps, 0 =>
    if bodyLimit < taken + (bodyOf p).length then ⟨some .bodyLimit, p.length, bodyOf p, false⟩
    else if ps = [] then ⟨none, p.length, bodyOf p, true⟩
    else ⟨some .needBuffer, p.length, bodyOf p, false⟩
  | p :: ps, k + 1 => reads (taken + (bodyOf p).length) ps k

/-- The results of all reads; the message may be done with its header. -/
def responseReads (r : Response) (pieces : List (List Sent)) : ℕ → ReadResult
  | 0 =>
    if r.hasLength ∧ bodyLimit < r.body.length then ⟨some .bodyLimit, 0, [], false⟩
    else ⟨none, 0, [], decide (pieces = [])⟩
  | k + 1 => reads 0 pieces k

/-- **The body is delivered**: the function returns, the callbacks have seen the body and nothing
else, each at most what fits into the buffer, and the total is its length. -/
def Delivered (beyond : ℕ → UInt8) (r : Response) (pieces : List (List Sent)) : Prop :=
  ∃ n p, stream beyond (responseReads r pieces) n = .returned p ∧ p.calls.flatten = r.body ∧
    (∀ c ∈ p.calls, c.length ≤ bufferSize) ∧ p.total = r.body.length

/-! ## What is sent -/

/-- The bytes of the body, of two parts. -/
@[simp]
lemma bodyOf_append (s t : List Sent) : bodyOf (s ++ t) = bodyOf s ++ bodyOf t :=
  List.filterMap_append

/-- Bytes of the body are all of it. -/
@[simp]
lemma bodyOf_body (bs : List UInt8) : bodyOf (bs.map .body) = bs := by
  induction bs with
  | nil => rfl
  | cons b bs ih => exact congrArg (b :: ·) ih

/-- Bytes around the body are none of it. -/
@[simp]
lemma bodyOf_framing (bs : List UInt8) : bodyOf (bs.map .framing) = [] := by
  induction bs with
  | nil => rfl
  | cons b bs ih => exact ih

/-- The body is no more than what was sent. -/
lemma length_bodyOf_le (s : List Sent) : (bodyOf s).length ≤ s.length :=
  List.length_filterMap_le _ s

/-- The bytes of the body are sent in their order. -/
lemma Response.bodyOf_wire (r : Response) : bodyOf r.wire = r.body := by
  cases r with
  | identity _ body => exact bodyOf_body body
  | chunked chunks trailer =>
    rw [wire, bodyOf_append, bodyOf_framing, List.append_nil, body]
    induction chunks with
    | nil => rfl
    | cons c chunks ih =>
      have hline : bodyOf [.framing 13, .framing 10] = [] := rfl
      rw [List.flatMap_cons, bodyOf_append, ih, List.flatMap_cons, bodyOf_append, bodyOf_append,
        bodyOf_framing, bodyOf_body, hline, List.append_nil, List.nil_append]

/-- **More is sent than the body** exactly if it is sent in chunks. -/
lemma Response.length_wire_iff (r : Response) :
    r.wire.length = r.body.length ↔ r.isIdentity = true := by
  cases r with
  | identity _ body => exact iff_of_true (List.length_map _) rfl
  | chunked chunks trailer =>
    refine iff_of_false (fun h => ?_) Bool.false_ne_true
    have hbody := congrArg List.length (bodyOf_wire (chunked chunks trailer))
    rw [← h, wire, bodyOf_append, bodyOf_framing, List.append_nil, List.length_append,
      List.length_map] at hbody
    have hle := length_bodyOf_le (chunks.flatMap fun c =>
      c.head.map .framing ++ c.data.map .body ++ [.framing 13, .framing 10])
    simp only [List.length_append, List.length_cons, List.length_nil] at hbody
    omega

/-! ## What the callbacks see -/

variable {beyond : ℕ → UInt8}

/-- What was written at the front of the buffer is seen. -/
lemma seen_fill (buffer written : List UInt8) :
    seen beyond (fill buffer written) written.length = written := by
  refine List.ext_getElem (by simp [seen]) fun i h _ => ?_
  have hi : i < written.length := by simpa [seen] using h
  simp [seen, fill, List.getElem?_append_left hi, hi]

/-- A callback sees as many bytes as it is told. -/
lemma length_seen (buffer : List UInt8) (size : ℕ) : (seen beyond buffer size).length = size := by
  simp [seen]

/-- The callbacks after an iteration that reports no error: `bytes` more bytes were seen. -/
def called (beyond : ℕ → UInt8) (r : ReadResult) (p : Progress) : Progress :=
  if 0 < r.bytes then
    { buffer := fill p.buffer r.written
      total := (p.total + r.bytes) % 2 ^ 64
      calls := p.calls ++ [seen beyond (fill p.buffer r.written) r.bytes] }
  else { p with buffer := fill p.buffer r.written }

/-- An iteration that reports no error. -/
lemma bodyStep_eq {r : ReadResult} (hec : bodyTolerates r.ec = true) (p : Progress) :
    bodyStep beyond r p = whileNotDone r.isDone (called beyond r p) := by
  rw [bodyStep, if_pos hec]
  rfl

/-- The bytes that were seen. -/
lemma length_called (r : ReadResult) (p : Progress) :
    (called beyond r p).calls.flatten.length = p.calls.flatten.length + r.bytes := by
  rw [called]
  split
  · rw [List.flatten_append, List.length_append, List.flatten_singleton, length_seen]
  · rename_i h
    show p.calls.flatten.length = _
    omega

/-- The connection is closed: the loop does not return. -/
lemma loop_closed_ne (taken n : ℕ) (p p' : Progress) :
    loop beyond (reads taken []) n p ≠ .returned p' := by
  intro h
  have hended : (loop beyond (reads taken []) n p).Ended := by
    rw [h]
    trivial
  obtain ⟨k, -, hk⟩ := (loop_ended_iff _ n p).mp hended
  simp [reads, closedRead, bodyTolerates] at hk

/-- The result of a read within the limit. -/
def withinLimit (piece : List Sent) (pieces : List (List Sent)) : ReadResult :=
  if pieces = [] then ⟨none, piece.length, bodyOf piece, true⟩
  else ⟨some .needBuffer, piece.length, bodyOf piece, false⟩

/-- What a read within the limit does. -/
lemma bodyStep_withinLimit (piece : List Sent) (pieces : List (List Sent)) (p : Progress) :
    bodyStep beyond (withinLimit piece pieces) p =
      if pieces = [] then .returned (called beyond (withinLimit piece pieces) p)
      else .looping (called beyond (withinLimit piece pieces) p) := by
  by_cases h : pieces = []
  · rw [withinLimit, if_pos h, if_pos h]
    exact bodyStep_eq rfl p
  · rw [withinLimit, if_neg h, if_neg h]
    exact bodyStep_eq rfl p

/-- Both results of a read within the limit report what was taken. -/
lemma bytes_withinLimit (piece : List Sent) (pieces : List (List Sent)) :
    (withinLimit piece pieces).bytes = piece.length ∧
      (withinLimit piece pieces).written = bodyOf piece := by
  rw [withinLimit]
  split
  · exact ⟨rfl, rfl⟩
  · exact ⟨rfl, rfl⟩

/-- An iteration of the loop over the reads. -/
lemma loop_cons {piece : List Sent} {pieces : List (List Sent)} {taken : ℕ}
    (hlimit : taken + (bodyOf piece).length ≤ bodyLimit) (n : ℕ) (p : Progress) :
    loop beyond (reads taken (piece :: pieces)) (n + 1) p =
      if pieces = [] then .returned (called beyond (withinLimit piece pieces) p)
      else loop beyond (reads (taken + (bodyOf piece).length) pieces) n
        (called beyond (withinLimit piece pieces) p) := by
  have hread : reads taken (piece :: pieces) 0 = withinLimit piece pieces :=
    if_neg (Nat.not_lt.mpr hlimit)
  rw [loop, hread, bodyStep_withinLimit]
  by_cases h : pieces = []
  · rw [if_pos h, if_pos h]
  · rw [if_neg h, if_neg h]
    rfl

/-- **A loop that returns** has told the callbacks of every byte that was sent, and the body was
within the limit.

**Proof sketch.** By induction on the pieces. A piece that takes the body beyond the limit ends the
loop with an exception; otherwise its bytes are handed out, and the loop returns after the last
piece and goes on before it. -/
lemma loop_returned {pieces : List (List Sent)} {taken n : ℕ} {p p' : Progress}
    (h : loop beyond (reads taken pieces) n p = .returned p') :
    p'.calls.flatten.length = p.calls.flatten.length + pieces.flatten.length ∧
      taken + (bodyOf pieces.flatten).length ≤ bodyLimit := by
  induction pieces generalizing taken n p with
  | nil => exact absurd h (loop_closed_ne taken n p p')
  | cons piece pieces ih =>
    cases n with
    | zero => cases h
    | succ n =>
      by_cases hlimit : taken + (bodyOf piece).length ≤ bodyLimit
      · have hbytes := (bytes_withinLimit piece pieces).1
        have hlength := @length_called beyond (withinLimit piece pieces) p
        rw [hbytes] at hlength
        rw [loop_cons hlimit] at h
        rw [List.flatten_cons, List.length_append, bodyOf_append, List.length_append]
        by_cases hlast : pieces = []
        · rw [if_pos hlast] at h
          rw [← Status.returned.inj h, hlength, hlast]
          exact ⟨rfl, hlimit⟩
        · rw [if_neg hlast] at h
          obtain ⟨hcalls, hbody⟩ := ih h
          rw [hlength] at hcalls
          exact ⟨by omega, by omega⟩
      · have hread : reads taken (piece :: pieces) 0 =
            ⟨some .bodyLimit, piece.length, bodyOf piece, false⟩ := if_pos (Nat.not_le.mp hlimit)
        rw [loop, hread] at h
        cases h

/-- The callbacks of a response that is not sent in chunks: a read puts in the buffer what it
takes.

**Proof sketch.** If the read puts nothing in the buffer, there is no callback and the body is
empty; otherwise the buffer is passed on as it is. -/
lemma called_withinLimit {piece : List Sent} (hplain : piece.length = (bodyOf piece).length)
    (pieces : List (List Sent)) (p : Progress) :
    (called beyond (withinLimit piece pieces) p).calls.flatten = p.calls.flatten ++ bodyOf piece ∧
      (∀ c ∈ (called beyond (withinLimit piece pieces) p).calls, c ∈ p.calls ∨ c = bodyOf piece) ∧
      (p.total + (bodyOf piece).length < 2 ^ 64 →
        (called beyond (withinLimit piece pieces) p).total = p.total + (bodyOf piece).length) := by
  obtain ⟨hbytes, hwritten⟩ := bytes_withinLimit piece pieces
  rw [called, hbytes, hwritten, hplain]
  split
  · refine ⟨?_, ?_, fun h => Nat.mod_eq_of_lt h⟩
    · rw [seen_fill, List.flatten_append, List.flatten_singleton]
    · intro c hc
      rw [seen_fill, List.mem_append, List.mem_singleton] at hc
      exact hc
  · rename_i hzero
    have hempty : bodyOf piece = [] := List.eq_nil_of_length_eq_zero (by omega)
    refine ⟨?_, fun c hc => Or.inl hc, fun _ => ?_⟩
    · rw [hempty, List.append_nil]
    · rw [hempty]
      rfl

/-- **The callbacks see the body** of a response that is not sent in chunks.

**Proof sketch.** By induction on the pieces. Each of them is body only and fits into the buffer,
so one call of the callback gets it as it is; the total cannot wrap around below the limit. -/
lemma loop_reads {pieces : List (List Sent)} {taken : ℕ} (hne : pieces ≠ [])
    (hplain : ∀ piece ∈ pieces, piece.length = (bodyOf piece).length)
    (hfits : ∀ piece ∈ pieces, (bodyOf piece).length ≤ bufferSize)
    (hlimit : taken + (bodyOf pieces.flatten).length ≤ bodyLimit) {p : Progress}
    (htotal : p.total = taken) (hcalls : ∀ c ∈ p.calls, c.length ≤ bufferSize) :
    ∃ n p', loop beyond (reads taken pieces) n p = .returned p' ∧
      p'.calls.flatten = p.calls.flatten ++ bodyOf pieces.flatten ∧
      (∀ c ∈ p'.calls, c.length ≤ bufferSize) ∧
      p'.total = taken + (bodyOf pieces.flatten).length := by
  induction pieces generalizing taken p with
  | nil => exact absurd rfl hne
  | cons piece pieces ih =>
    obtain ⟨hpiece, hplain⟩ := List.forall_mem_cons.mp hplain
    obtain ⟨hfit, hfits⟩ := List.forall_mem_cons.mp hfits
    rw [List.flatten_cons, bodyOf_append, List.length_append] at hlimit ⊢
    have hlimit' : taken + (bodyOf piece).length ≤ bodyLimit := by omega
    obtain ⟨hseen, hmem, hsum⟩ := @called_withinLimit beyond piece hpiece pieces p
    have hsum := hsum (by unfold bodyLimit at hlimit'; omega)
    have hlengths : ∀ c ∈ (called beyond (withinLimit piece pieces) p).calls,
        c.length ≤ bufferSize := by
      intro c hc
      rcases hmem c hc with hc | rfl
      · exact hcalls c hc
      · exact hfit
    by_cases hlast : pieces = []
    · refine ⟨1, _, (loop_cons hlimit' 0 p).trans (if_pos hlast), ?_, hlengths, ?_⟩
      · have hnil : bodyOf [] = [] := rfl
        rw [hseen, hlast, List.flatten_nil, hnil, List.append_nil]
      · rw [hsum, hlast, htotal]
        rfl
    · have hrest : taken + (bodyOf piece).length + (bodyOf pieces.flatten).length ≤ bodyLimit := by
        omega
      obtain ⟨n, p', hloop, hflatten, hlengths', htotal'⟩ :=
        ih hlast hplain hfits hrest
          (hsum.trans (by rw [htotal])) hlengths
      refine ⟨n + 1, p', ?_, ?_, hlengths', ?_⟩
      · rw [loop_cons hlimit', if_neg hlast, hloop]
      · rw [hflatten, hseen, List.append_assoc]
      · rw [htotal', Nat.add_assoc]

/-- A part of what is sent that has no framing. -/
lemma length_bodyOf_eq {s : List Sent} (h : ∀ x ∈ s, ∃ b, x = .body b) :
    s.length = (bodyOf s).length := by
  induction s with
  | nil => rfl
  | cons x s ih =>
    obtain ⟨⟨b, rfl⟩, hs⟩ := List.forall_mem_cons.mp h
    exact congrArg Nat.succ (ih hs)

/-! ## When the body is delivered -/

/-- The reads take the body. -/
lemma IsSplit.bodyOf_eq {r : Response} {pieces : List (List Sent)} (h : IsSplit r pieces) :
    bodyOf pieces.flatten = r.body := by
  rw [h.flatten_eq, r.bodyOf_wire]

/-- Without chunks the reads take nothing but the body. -/
lemma IsSplit.length_eq {r : Response} {pieces : List (List Sent)} (h : IsSplit r pieces)
    (hidentity : r.isIdentity = true) :
    ∀ piece ∈ pieces, piece.length = (bodyOf piece).length := by
  intro piece hpiece
  refine length_bodyOf_eq fun x hx => ?_
  have hwire : x ∈ r.wire := h.flatten_eq ▸ List.mem_flatten_of_mem hpiece hx
  cases r with
  | identity _ body =>
    obtain ⟨b, -, hb⟩ := List.mem_map.mp hwire
    exact ⟨b, hb.symm⟩
  | chunked chunks trailer => cases hidentity

/-- A body whose length is told and too large is not read. -/
lemma not_returned_of_tooLarge {r : Response} (pieces : List (List Sent)) {n : ℕ} {p : Progress}
    (h : r.hasLength ∧ bodyLimit < r.body.length) :
    stream beyond (responseReads r pieces) n ≠ .returned p := by
  have hread : responseReads r pieces 0 = ⟨some .bodyLimit, 0, [], false⟩ := if_pos h
  rw [stream, hread]
  intro hreturned
  cases hreturned

/-- After the header the loop reads the body, if there is something to read. -/
lemma stream_responseReads {r : Response} (pieces : List (List Sent))
    (h : ¬ (r.hasLength ∧ bodyLimit < r.body.length)) (n : ℕ) :
    stream beyond (responseReads r pieces) n =
      if pieces = [] then .returned Progress.init
      else loop beyond (reads 0 pieces) n Progress.init := by
  have hread : responseReads r pieces 0 = ⟨none, 0, [], decide (pieces = [])⟩ := if_neg h
  by_cases hnone : pieces = []
  · rw [stream, hread, if_pos hnone, decide_eq_true hnone]
    rfl
  · rw [stream, hread, if_neg hnone, decide_eq_false hnone]
    rfl

/-- Where the callbacks see the body, nothing else was sent, and it was within the limit. -/
lemma length_of_delivered {r : Response} {pieces : List (List Sent)} (hsplit : IsSplit r pieces)
    (h : Delivered beyond r pieces) :
    r.wire.length = r.body.length ∧ r.body.length ≤ bodyLimit := by
  obtain ⟨n, p, hreturned, hcalls, -, -⟩ := h
  by_cases hlarge : r.hasLength ∧ bodyLimit < r.body.length
  · exact absurd hreturned (not_returned_of_tooLarge pieces hlarge)
  rw [stream_responseReads pieces hlarge] at hreturned
  rw [← hsplit.flatten_eq, ← hsplit.bodyOf_eq]
  by_cases hnone : pieces = []
  · rw [hnone]
    exact ⟨rfl, Nat.zero_le _⟩
  · rw [if_neg hnone] at hreturned
    obtain ⟨hlength, hlimit⟩ := loop_returned hreturned
    have hinit : Progress.init.calls.flatten.length = 0 := rfl
    rw [hcalls, ← hsplit.bodyOf_eq, hinit, Nat.zero_add] at hlength
    exact ⟨hlength.symm, by omega⟩

/-- Without chunks, and within the limit, the callbacks see the body.

**Proof sketch.** Without chunks the reads take nothing but the body, so that the lengths agree and
each callback sees what its read has put in the buffer. If there is no body, there is no read. -/
lemma delivered_of_identity {r : Response} {pieces : List (List Sent)} (hsplit : IsSplit r pieces)
    (hidentity : r.isIdentity = true) (hlimit : r.body.length ≤ bodyLimit) :
    Delivered beyond r pieces := by
  have hstream := fun n => @stream_responseReads beyond r pieces
    (fun h => absurd h.2 (Nat.not_lt.mpr hlimit)) n
  by_cases hnone : pieces = []
  · refine ⟨0, Progress.init, (hstream 0).trans (if_pos hnone), ?_, ?_, ?_⟩
    · rw [← hsplit.bodyOf_eq, hnone]
      rfl
    · exact List.forall_mem_nil _
    · rw [← hsplit.bodyOf_eq, hnone]
      rfl
  · obtain ⟨n, p, hloop, hflatten, hlengths, htotal⟩ := @loop_reads beyond _ 0 hnone
      (hsplit.length_eq hidentity) hsplit.fits
      (by rw [hsplit.bodyOf_eq, Nat.zero_add]; exact hlimit) Progress.init rfl
      (List.forall_mem_nil _)
    rw [hsplit.bodyOf_eq] at hflatten htotal
    refine ⟨n, p, ?_, hflatten, hlengths, htotal.trans (Nat.zero_add _)⟩
    rw [hstream, if_neg hnone, hloop]

/-- **When the body is delivered**: exactly if it is not sent in chunks and not longer than 8 MiB.

**Proof sketch.** A function that returns has told the callbacks of every byte that was sent, so
that with the framing of the chunks they have seen more than the body; and it has read no more than
the limit. Without framing each callback sees what its read has put in the buffer. -/
theorem delivered_iff (beyond : ℕ → UInt8) {r : Response} {pieces : List (List Sent)}
    (hsplit : IsSplit r pieces) :
    Delivered beyond r pieces ↔ r.isIdentity = true ∧ r.body.length ≤ bodyLimit := by
  constructor
  · intro h
    obtain ⟨hwire, hlimit⟩ := length_of_delivered hsplit h
    exact ⟨r.length_wire_iff.mp hwire, hlimit⟩
  · rintro ⟨hidentity, hlimit⟩
    exact delivered_of_identity hsplit hidentity hlimit

/-- The body `ab` without chunks, in two reads. -/
theorem delivered_two_reads :
    Delivered (fun _ => 0) (.identity true [97, 98]) [[.body 97], [.body 98]] :=
  (delivered_iff (fun _ => 0) (r := .identity true [97, 98]) ⟨rfl, by decide⟩).mpr ⟨rfl, by decide⟩

/-- The chunk `a`, and what is sent for it: `1`, an end of a line, `a`, and so on. -/
def oneChunk : Response := .chunked [⟨[49, 13, 10], [97]⟩] []

/-- One read takes eleven bytes, of which one is in the buffer. -/
theorem framing_delivered :
    (∃ p, stream (fun _ => 0) (responseReads oneChunk [oneChunk.wire]) 1 = .returned p ∧
      p.total = 11 ∧ p.calls = [97 :: List.replicate 10 0]) ∧
    IsSplit oneChunk [oneChunk.wire] ∧ ¬ Delivered (fun _ => 0) oneChunk [oneChunk.wire] := by
  have hsplit : IsSplit oneChunk [oneChunk.wire] := ⟨rfl, by decide⟩
  refine ⟨⟨_, rfl, by decide +kernel, by decide +kernel⟩, hsplit, ?_⟩
  rintro ⟨n, p, hreturned, hcalls, -⟩
  cases n with
  | zero => cases hreturned
  | succ n =>
    -- the one read of the body makes one callback
    have hloop : loop (fun _ => 0) (reads 0 [oneChunk.wire]) (n + 1) Progress.init =
        .returned p := hreturned
    have hlength := (loop_returned hloop).1
    rw [hcalls] at hlength
    revert hlength
    decide

end HkuUtils.Streaming
