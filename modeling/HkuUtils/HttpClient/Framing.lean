import HkuUtils.Http

set_option relaxedAutoImplicit false
set_option autoImplicit false

/-!
# What a server sees

The requests that `async_request` and `async_requestStream` write to one connection, read by a
server that finds the end of each request by its head. With the build option
`HKU_ENABLE_HTTP_CLIENT_ZIP` a body may be compressed, and the header `Content-Type` says if it is.

## Main definitions

* `HkuUtils.Framing.Call`, `Build` — what a request is made from.
* `HkuUtils.Framing.asyncRequest`, `asyncRequestStream`, `written` — the requests, and their bytes.
* `HkuUtils.Framing.Sees` — a server's message is the request that a call issued.
* `HkuUtils.Framing.Framed` — the condition on a call.

## Main results

* `HkuUtils.Framing.parse_written` — what a server reads of one request.
* `HkuUtils.Framing.requests_framed` — when a server sees the requests of a connection.

## Design

Strings are lists of bytes, and headers are in the order in which the maps are run through. What the
members `m_default_headers` and `m_host` have when a request is made belongs to the call. A request
that Beast refuses, because it does not know the method or because `TRACE` is given a body, throws
before anything is written. Compression and decompression are parameters.
-/

namespace HkuUtils.Framing

open Http

/-! ## Names -/

/-- The name `Content-Type`. -/
def fieldContentType : List UInt8 := "Content-Type".toUTF8.data.toList

/-- The name `User-Agent`. -/
def fieldUserAgent : List UInt8 := "User-Agent".toUTF8.data.toList

/-- The name `Host`. -/
def fieldHost : List UInt8 := "Host".toUTF8.data.toList

/-- The content type `gzip`. -/
def gzip : List UInt8 := "gzip".toUTF8.data.toList

/-! ## The functions -/

/-- What `async_request` and `async_requestStream` make a request from: the arguments and the
members that they read. -/
structure Call where
  /-- The call is one of `async_requestStream`. -/
  stream : Bool
  method : List UInt8
  uri : List UInt8
  /-- `m_host`. -/
  host : List UInt8
  /-- `m_default_headers`. -/
  defaultHeaders : List Field
  headers : List Field
  body : List UInt8
  contentType : List UInt8
  deriving DecidableEq

/-- What is the same for all calls. -/
structure Build where
  /-- `HKU_ENABLE_HTTP_CLIENT_ZIP`. -/
  zip : Bool
  /-- `gzip::Compressor::compress`. -/
  compress : List UInt8 → List UInt8
  /-- `BOOST_BEAST_VERSION_STRING`. -/
  agent : List UInt8
  isText_agent : IsText agent

/-- `http::request<http::string_body>`. -/
structure Request where
  method : List UInt8
  target : List UInt8
  fields : Fields
  body : List UInt8

/-- `set`. -/
def Request.set (r : Request) (n v : List UInt8) : Request :=
  ⟨r.method, r.target, r.fields.set n v, r.body⟩

/-- `set` for each of some headers. -/
def Request.setAll (r : Request) (headers : List Field) : Request :=
  headers.foldl (fun r f => r.set f.1 f.2) r

/-- `operator[]`: the value of a field, or an empty text. -/
def Request.get (r : Request) (n : List UInt8) : List UInt8 := (lookup r.fields.list n).getD []

/-- The body is assigned. -/
def Request.withBody (r : Request) (body : List UInt8) : Request :=
  ⟨r.method, r.target, r.fields, body⟩

/-- `prepare_payload` of a request with a body. -/
def Request.preparePayload (r : Request) : Request := r.set contentLength (decimal r.body.length)

/-- The request before a body is added. -/
def newRequest (b : Build) (c : Call) : Request :=
  (((Request.setAll ⟨c.method, c.uri, .empty, []⟩ c.defaultHeaders).setAll c.headers).set
    fieldUserAgent b.agent).set fieldHost c.host

/-- What both functions write. A body is compressed if the build can do so and the headers ask for
it, and is then assigned as it is; otherwise the content type is set, and the length with the
body. -/
def request (b : Build) (c : Call) : Request :=
  let req := newRequest b c
  if c.body ≠ [] then
    if b.zip then
      let content := req.get fieldContentType
      -- a compressed body is assigned without `prepare_payload`
      if content = gzip then req.withBody (b.compress c.body)
      else ((req.set fieldContentType content).withBody c.body).preparePayload
    else ((req.set fieldContentType c.contentType).withBody c.body).preparePayload
  else req

/-- `async_request`, up to the write. -/
def asyncRequest (b : Build) (c : Call) : Request := request b c

/-- `async_requestStream`, up to the write. -/
def asyncRequestStream (b : Build) (c : Call) : Request := request b c

/-- The bytes that are written for a call. -/
def written (b : Build) (c : Call) : List UInt8 :=
  let req := if c.stream then asyncRequestStream b c else asyncRequest b c
  encodeHead req.method req.target req.fields.list ++ req.body

/-! ## What was issued -/

/-- The value that some headers give to a name: the last one counts. -/
def given (headers : List Field) (n : List UInt8) : Option (List UInt8) :=
  (lookup headers.reverse n).map trim

/-- The value that a call gives to a name: its own headers override the default ones. -/
def Call.header (c : Call) (n : List UInt8) : Option (List UInt8) :=
  (given c.headers n).or (given c.defaultHeaders n)

/-- The body of a call is compressed. -/
def Call.Zipped (b : Build) (c : Call) : Prop :=
  b.zip = true ∧ c.body ≠ [] ∧ c.header fieldContentType = some gzip

instance (b : Build) (c : Call) : Decidable (c.Zipped b) :=
  inferInstanceAs (Decidable (_ ∧ _))

/-- The names that no header may have. -/
def reserved : List (List UInt8) := [contentLength, transferEncoding, fieldHost, fieldUserAgent]

/-- What a caller may ask for: a known method, headers other than the reserved ones, and a content
type. -/
structure Call.Allowed (c : Call) : Prop where
  method : IsToken c.method
  headers : ∀ f ∈ c.defaultHeaders ++ c.headers, ∀ n ∈ reserved, ¬ Same f.1 n
  contentType : IsText c.contentType

/-- **A message of the server is the request that a call issued**, with its target, its headers and
no others, and its body. -/
structure Sees (b : Build) (gunzip : List UInt8 → Option (List UInt8)) (c : Call) (m : Message) :
    Prop where
  method : m.method = c.method
  target : m.target = c.uri
  host : lookup m.fields fieldHost = some (trim c.host)
  headers : ∀ n v, c.header n = some v → lookup m.fields n = some v
  /-- There are no other headers than those that both functions set. -/
  others : ∀ n, c.header n = none →
    (∀ g ∈ [fieldContentType, contentLength, fieldHost, fieldUserAgent], ¬ Same g n) →
    lookup m.fields n = none
  content : c.body ≠ [] → c.header fieldContentType = none →
    lookup m.fields fieldContentType = some (trim c.contentType)
  body : if c.Zipped b then gunzip m.body = some c.body else m.body = c.body

/-- The words of the head are well-formed. -/
structure Writable (c : Call) : Prop where
  uri : IsTarget c.uri
  host : IsText (trim c.host)
  headers : ∀ n v, c.header n = some v → IsToken n ∧ IsText v

/-- The condition on a call: the words of its head are well-formed, and the content type of a body
is the one that the function sets, which is never that of a compressed body. -/
structure Framed (b : Build) (c : Call) : Prop extends Writable c where
  header : c.body ≠ [] → ∀ v, c.header fieldContentType = some v →
    if b.zip then v ≠ gzip else v = trim c.contentType
  none : c.body ≠ [] → c.header fieldContentType = none → b.zip = true → trim c.contentType = []

/-! ## The fields of a request -/

/-- A field that is set is among the fields of the request. -/
lemma Request.fields_set (r : Request) (n v : List UInt8) : (r.set n v).fields = r.fields.set n v :=
  rfl

/-- The last of some headers counts, and a field that was set before only if there is none. -/
lemma Request.lookup_setAll (r : Request) (headers : List Field) (n : List UInt8) :
    lookup (r.setAll headers).fields.list n = (given headers n).or (lookup r.fields.list n) := by
  induction headers generalizing r with
  | nil => rfl
  | cons f headers ih =>
    have hgiven : given (f :: headers) n =
        (given headers n).or (if Same f.1 n then some (trim f.2) else none) := by
      by_cases hf : Same f.1 n <;>
        cases hfind : headers.reverse.find? (fun f => decide (Same f.1 n)) <;>
          simp [given, lookup, List.find?_append, hf, hfind]
    calc lookup ((r.set f.1 f.2).setAll headers).fields.list n
        = (given headers n).or (lookup (r.set f.1 f.2).fields.list n) := ih _
      _ = (given (f :: headers) n).or (lookup r.fields.list n) := by
          rw [hgiven, Request.fields_set, Fields.lookup_set]
          by_cases hf : Same f.1 n <;> cases given headers n <;> simp [hf]

/-- Setting fields leaves method, target and body. -/
lemma Request.method_setAll (r : Request) (headers : List Field) :
    (r.setAll headers).method = r.method ∧ (r.setAll headers).target = r.target ∧
      (r.setAll headers).body = r.body := by
  induction headers generalizing r with
  | nil => exact ⟨rfl, rfl, rfl⟩
  | cons f headers ih => exact ih (r.set f.1 f.2)

/-- The fields before a body is added. -/
lemma lookup_newRequest (b : Build) (c : Call) (n : List UInt8) :
    lookup (newRequest b c).fields.list n =
      if Same fieldHost n then some (trim c.host)
      else if Same fieldUserAgent n then some (trim b.agent)
      else c.header n := by
  simp only [newRequest, Request.fields_set, Fields.lookup_set, Request.lookup_setAll, Call.header]
  simp [lookup, Fields.empty]

/-- The content type is not one of the fields that are set after the headers. -/
lemma lookup_newRequest_contentType (b : Build) (c : Call) :
    lookup (newRequest b c).fields.list fieldContentType = c.header fieldContentType := by
  have hhost : ¬ Same fieldHost fieldContentType := by decide
  have hagent : ¬ Same fieldUserAgent fieldContentType := by decide
  rw [lookup_newRequest, if_neg hhost, if_neg hagent]

/-- Without a header of a name, no value is given to it. -/
lemma header_eq_none {c : Call} {n : List UInt8}
    (h : ∀ f ∈ c.defaultHeaders ++ c.headers, ¬ Same f.1 n) : c.header n = none := by
  rw [List.forall_mem_append] at h
  have hgiven : ∀ headers : List Field, (∀ f ∈ headers, ¬ Same f.1 n) → given headers n = none := by
    intro headers hheaders
    simpa [given, lookup] using fun a b hmem => hheaders (a, b) hmem
  rw [Call.header, hgiven _ h.1, hgiven _ h.2]
  rfl

/-- How a name is written does not matter. -/
lemma header_congr (c : Call) {n m : List UInt8} (h : Same n m) : c.header n = c.header m := by
  simp only [Call.header, given, lookup_congr h]

/-- The value of a header is that of one of the headers. -/
lemma exists_of_header {c : Call} {n v : List UInt8} (h : c.header n = some v) :
    ∃ f ∈ c.defaultHeaders ++ c.headers, Same f.1 n ∧ trim f.2 = v := by
  have hgiven : ∀ headers : List Field, given headers n = some v →
      ∃ f ∈ headers, Same f.1 n ∧ trim f.2 = v := by
    intro headers hv
    obtain ⟨w, hw, rfl⟩ := Option.map_eq_some_iff.1 hv
    obtain ⟨f, hf, hname, rfl⟩ := exists_of_lookup hw
    exact ⟨f, List.mem_reverse.1 hf, hname, rfl⟩
  rcases Option.or_eq_some_iff.1 h with h | ⟨-, h⟩
  · obtain ⟨f, hf, hv⟩ := hgiven _ h
    exact ⟨f, List.mem_append_right _ hf, hv⟩
  · obtain ⟨f, hf, hv⟩ := hgiven _ h
    exact ⟨f, List.mem_append_left _ hf, hv⟩

/-- There are no blanks around the value of a header. -/
lemma trim_header {c : Call} {n v : List UInt8} (h : c.header n = some v) : trim v = v := by
  obtain ⟨f, -, -, rfl⟩ := exists_of_header h
  exact trim_trim f.2

/-- It is enough that all headers are well-formed. -/
lemma Writable.of_headers {c : Call} (huri : IsTarget c.uri) (hhost : IsText (trim c.host))
    (hheaders : ∀ f ∈ c.defaultHeaders ++ c.headers, IsToken f.1 ∧ IsText f.2) : Writable c := by
  refine ⟨huri, hhost, ?_⟩
  intro n v hv
  obtain ⟨f, hf, hname, rfl⟩ := exists_of_header hv
  exact ⟨(hheaders f hf).1.of_same hname, (hheaders f hf).2.trim⟩

/-- No value is given to a reserved name. -/
lemma Call.Allowed.header_reserved {c : Call} (ha : c.Allowed) {n : List UInt8}
    (hn : n ∈ reserved) : c.header n = none :=
  header_eq_none fun f hf => ha.headers f hf n hn

/-- The content type that is set with a body. -/
def Call.content (b : Build) (c : Call) : List UInt8 :=
  if b.zip then (c.header fieldContentType).getD [] else c.contentType

/-- The three kinds of requests.

**Proof sketch.** By cases on the body, the build and the header. With a body, compression is asked
for by the build and the content type together. -/
lemma request_cases (b : Build) (c : Call) :
    (c.body = [] ∧ request b c = newRequest b c) ∨
    (c.Zipped b ∧ request b c = (newRequest b c).withBody (b.compress c.body)) ∨
    (c.body ≠ [] ∧ ¬ c.Zipped b ∧ request b c =
      (((newRequest b c).set fieldContentType (c.content b)).withBody c.body).preparePayload) := by
  have hget : (newRequest b c).get fieldContentType = (c.header fieldContentType).getD [] := by
    rw [Request.get, lookup_newRequest_contentType]
  have hgzip : (c.header fieldContentType).getD [] = gzip ↔
      c.header fieldContentType = some gzip := by
    cases c.header fieldContentType with
    | none => exact ⟨fun h => absurd h (by decide), nofun⟩
    | some v => simp
  by_cases hbody : c.body = []
  · left
    simp [request, hbody]
  · right
    by_cases hzip : b.zip = true
    · by_cases hheader : c.header fieldContentType = some gzip
      · left
        simp [request, hbody, hzip, hget, hheader, Call.Zipped]
      · right
        simp [request, hbody, hzip, hget, hgzip, hheader, Call.Zipped, Call.content]
    · right
      simp [request, hbody, hzip, Call.Zipped, Call.content]

/-- The method and the target are those of the call. -/
lemma request_method (b : Build) (c : Call) :
    (request b c).method = c.method ∧ (request b c).target = c.uri := by
  have hnew : (newRequest b c).method = c.method ∧ (newRequest b c).target = c.uri := by
    simp [newRequest, Request.set, Request.method_setAll]
  obtain ⟨-, heq⟩ | ⟨-, heq⟩ | ⟨-, -, heq⟩ := request_cases b c <;> rw [heq] <;> exact hnew

/-- The body is that of the call or a compressed one. -/
lemma request_body (b : Build) (c : Call) :
    (request b c).body = if c.Zipped b then b.compress c.body else c.body := by
  have hnew : (newRequest b c).body = [] := by
    simp [newRequest, Request.set, Request.method_setAll]
  obtain ⟨hbody, heq⟩ | ⟨hzipped, heq⟩ | ⟨-, hzipped, heq⟩ := request_cases b c
  · have hzipped : ¬ c.Zipped b := fun h => h.2.1 hbody
    rw [heq, if_neg hzipped, hnew, hbody]
  · rw [heq, if_pos hzipped]
    rfl
  · rw [heq, if_neg hzipped]
    rfl

/-- The fields of a request. -/
lemma lookup_request (b : Build) (c : Call) (n : List UInt8) :
    lookup (request b c).fields.list n =
      if c.body ≠ [] ∧ ¬ c.Zipped b ∧ Same contentLength n then some (decimal c.body.length)
      else if c.body ≠ [] ∧ ¬ c.Zipped b ∧ Same fieldContentType n then some (trim (c.content b))
      else lookup (newRequest b c).fields.list n := by
  obtain ⟨hbody, heq⟩ | ⟨hzipped, heq⟩ | ⟨hbody, hzipped, heq⟩ := request_cases b c
  · simp [heq, hbody]
  · simp [heq, hzipped, Request.withBody]
  · simp [heq, hbody, hzipped, Request.withBody, Request.preparePayload, Request.fields_set,
      Fields.lookup_set, trim_decimal]

/-! ## One request -/

/-- How long the body is, as the head says.

**Proof sketch.** The fields of the call may not set the length or the coding, so the only length
is the one that `prepare_payload` has written, and there is no coding. -/
lemma bodyLength_request (b : Build) {c : Call} (ha : c.Allowed) :
    bodyLength (request b c).fields.list = some (if c.Zipped b then 0 else c.body.length) := by
  have hnew : ∀ n ∈ [contentLength, transferEncoding],
      lookup (newRequest b c).fields.list n = none := by
    have hother : ∀ n ∈ [contentLength, transferEncoding],
        ¬ Same fieldHost n ∧ ¬ Same fieldUserAgent n ∧ n ∈ reserved := by decide
    intro n hn
    obtain ⟨hhost, hagent, hreserved⟩ := hother n hn
    rw [lookup_newRequest, if_neg hhost, if_neg hagent, ha.header_reserved hreserved]
  have hcoding : lookup (request b c).fields.list transferEncoding = none := by
    have hlength : ¬ Same contentLength transferEncoding := by decide
    have hcontent : ¬ Same fieldContentType transferEncoding := by decide
    simp [lookup_request, hlength, hcontent, hnew]
  have hlength : lookup (request b c).fields.list contentLength =
      if c.body ≠ [] ∧ ¬ c.Zipped b then some (decimal c.body.length) else none := by
    have hcontent : ¬ Same fieldContentType contentLength := by decide
    simp [lookup_request, Same.refl, hcontent, hnew]
  refine Fields.bodyLength_eq _ hcoding ?_
  rw [hlength]
  by_cases hbody : c.body = []
  · simp [hbody]
  · by_cases hzipped : c.Zipped b <;> simp [hbody, hzipped, number_decimal]

/-- Every word of the head is well-formed if those of the call are.

**Proof sketch.** A field of the request is one that the call or the client has set. The names of
the client are words and its values are texts; those of the call are by assumption. -/
lemma isHead_request {b : Build} {c : Call} (ha : c.Allowed) (hw : Writable c) :
    IsHead (request b c).method (request b c).target (request b c).fields.list := by
  have hnames : IsToken fieldHost ∧ IsToken fieldUserAgent ∧ IsToken fieldContentType ∧
      IsToken contentLength := by decide +kernel
  have hnew : ∀ n v, lookup (newRequest b c).fields.list n = some v → IsToken n ∧ IsText v := by
    intro n v hv
    rw [lookup_newRequest] at hv
    split at hv
    · cases hv
      exact ⟨hnames.1.of_same ‹_›, hw.host⟩
    · split at hv
      · cases hv
        exact ⟨hnames.2.1.of_same ‹_›, b.isText_agent.trim⟩
      · exact hw.headers n v hv
  have hcontent : IsText (c.content b) := by
    rw [Call.content]
    split
    · cases hheader : c.header fieldContentType with
      | none => exact List.forall_mem_nil _
      | some v => exact (hw.headers _ v hheader).2
    · exact ha.contentType
  have hall : ∀ n v, lookup (request b c).fields.list n = some v → IsToken n ∧ IsText v := by
    intro n v hv
    rw [lookup_request] at hv
    split at hv
    · rename_i h
      cases hv
      exact ⟨hnames.2.2.2.of_same h.2.2, isText_decimal _⟩
    · split at hv
      · rename_i h
        cases hv
        exact ⟨hnames.2.2.1.of_same h.2.2, hcontent.trim⟩
      · exact hnew n v hv
  obtain ⟨hmethod, htarget⟩ := request_method b c
  refine ⟨hmethod ▸ ha.method, htarget ▸ hw.uri, ?_, ?_⟩
  · intro f hf
    exact (hall f.1 f.2 (lookup_of_mem (request b c).fields.distinct hf)).1
  · intro f hf
    exact (hall f.1 f.2 (lookup_of_mem (request b c).fields.distinct hf)).2

/-- What a server reads of one request: the body is there or, if it was compressed, left for the
next request.

**Proof sketch.** The head is read back as it was written, and the length in it says how much of
what follows belongs to the request. -/
theorem parse_written {b : Build} {c : Call} (ha : c.Allowed) (hw : Writable c)
    (rest : List UInt8) :
    ∃ m, parseRequest (written b c ++ rest) =
        some (m, if c.Zipped b then b.compress c.body ++ rest else rest) ∧
      m.method = c.method ∧ m.target = c.uri ∧ m.fields = (request b c).fields.list ∧
      m.body = if c.Zipped b then [] else c.body := by
  obtain ⟨hmethod, htarget⟩ := request_method b c
  have hwritten : written b c ++ rest =
      encodeHead (request b c).method (request b c).target (request b c).fields.list ++
        ((request b c).body ++ rest) := by
    simp [written, asyncRequest, asyncRequestStream]
  have hlength : (if c.Zipped b then 0 else c.body.length) ≤
      ((request b c).body ++ rest).length := by
    rw [request_body]
    split <;> simp
  have hparse := parseRequest_encodeHead (isHead_request ha hw) (request b c).fields.trimmed
    (bodyLength_request b ha) hlength
  rw [hwritten, hparse]
  refine ⟨_, congrArg some (Prod.ext rfl ?_), hmethod, htarget, rfl, ?_⟩
  · simp only [request_body]
    split <;> simp
  · simp only [request_body]
    split <;> simp

/-- What a server sees has well-formed words. -/
lemma Sees.writable {b : Build} {gunzip : List UInt8 → Option (List UInt8)} {c : Call}
    {m : Message} (h : Sees b gunzip c m) : Writable c := by
  have hvalue : ∀ n v, lookup m.fields n = some v → IsToken n ∧ IsText v := by
    intro n v hv
    obtain ⟨f, hf, hname, rfl⟩ := exists_of_lookup hv
    exact ⟨(m.isHead.names f hf).of_same hname, m.isHead.values f hf⟩
  refine ⟨h.target ▸ m.isHead.target, (hvalue _ _ h.host).2, ?_⟩
  intro n v hv
  exact hvalue n v (h.headers n v hv)

/-- Under the condition no body is compressed. -/
lemma Framed.not_zipped {b : Build} {c : Call} (h : Framed b c) : ¬ c.Zipped b := by
  rintro ⟨hzip, hne, hv⟩
  have hother := h.header hne gzip hv
  rw [if_pos hzip] at hother
  exact hother rfl

/-- A server that reads the request as it was written, and sees it, sees that the condition is met.

**Proof sketch.** What the server sees is compared with what the request has. A body that was
zipped without its length would be read as empty, so the call is not zipped; and the server misses
a content type exactly where the client has put its own in front of the one of the call. -/
lemma Sees.framed {b : Build} {gunzip : List UInt8 → Option (List UInt8)}
    (hgunzip : ∀ t, gunzip [] = some t → t = []) {c : Call} {m : Message}
    (h : Sees b gunzip c m) (hfields : m.fields = (request b c).fields.list)
    (hbody : m.body = if c.Zipped b then [] else c.body) : Framed b c := by
  have hzipped : ¬ c.Zipped b := by
    intro hz
    have hunzip := h.body
    rw [if_pos hz, hbody, if_pos hz] at hunzip
    exact hz.2.1 (hgunzip _ hunzip)
  have hset : c.body ≠ [] → lookup m.fields fieldContentType = some (trim (c.content b)) := by
    intro hne
    have hlength : ¬ Same contentLength fieldContentType := by decide
    simp [hfields, lookup_request, hne, hzipped, hlength, Same.refl]
  refine ⟨h.writable, ?_, ?_⟩
  · intro hne v hv
    split
    · rename_i hzip
      rintro rfl
      exact hzipped ⟨hzip, hne, hv⟩
    · rename_i hzip
      have heq := (h.headers _ v hv).symm.trans (hset hne)
      simpa [Call.content, hzip] using heq
  · intro hne hnone hzip
    have heq := (h.content hne hnone).symm.trans (hset hne)
    simpa [Call.content, hzip, hnone] using heq

/-- Under the condition, the content type that replaces a header of the caller is the same. -/
lemma Framed.trim_content {b : Build} {c : Call} (h : Framed b c) (hne : c.body ≠ [])
    {v : List UInt8} (hv : c.header fieldContentType = some v) : trim (c.content b) = v := by
  have hcase := h.header hne v hv
  split at hcase
  · simp [Call.content, *, trim_header hv]
  · simp [Call.content, *]

/-- A server that reads the request as it was written sees it if the condition is met.

**Proof sketch.** Each field of the call is looked up in the request. A name with a value is none
of the names that the client writes itself, except the content type, for which the condition says
that the two agree. -/
lemma Framed.sees {b : Build} {gunzip : List UInt8 → Option (List UInt8)} {c : Call}
    (h : Framed b c) (ha : c.Allowed) {m : Message} (hmethod : m.method = c.method)
    (htarget : m.target = c.uri) (hfields : m.fields = (request b c).fields.list)
    (hbody : m.body = if c.Zipped b then [] else c.body) : Sees b gunzip c m := by
  have hzipped := h.not_zipped
  refine ⟨hmethod, htarget, ?_, ?_, ?_, ?_, ?_⟩
  · have hnot : ¬ Same contentLength fieldHost ∧ ¬ Same fieldContentType fieldHost := by decide
    simp [hfields, lookup_request, lookup_newRequest, hnot, Same.refl]
  · intro n v hv
    -- a name with a value is none of the reserved ones
    have hnot : ∀ r ∈ reserved, ¬ Same r n := by
      intro r hr hsame
      rw [← header_congr c hsame, ha.header_reserved hr] at hv
      cases hv
    have hlength : ¬ Same contentLength n := hnot _ (by decide)
    have hhost : ¬ Same fieldHost n := hnot _ (by decide)
    have hagent : ¬ Same fieldUserAgent n := hnot _ (by decide)
    rw [hfields, lookup_request, if_neg fun hp => hlength hp.2.2]
    split
    · rename_i hset
      have hheader : c.header fieldContentType = some v := by rw [header_congr c hset.2.2, hv]
      rw [h.trim_content hset.1 hheader]
    · rw [lookup_newRequest, if_neg hhost, if_neg hagent, hv]
  · intro n hnone hnot
    simp [hfields, lookup_request, lookup_newRequest, hnot, hnone]
  · intro hne hnone
    have hnot : ¬ Same contentLength fieldContentType := by decide
    have hcontent : trim (c.content b) = trim c.contentType := by
      rw [Call.content]
      split
      · simp [hnone, h.none hne hnone ‹_›]
      · rfl
    simp [hfields, lookup_request, hne, hzipped, hnot, Same.refl, hcontent]
  · rw [if_neg hzipped, hbody, if_neg hzipped]

/-- If the first message is the request that was issued, the condition is met, and the other
messages are what follows. -/
lemma framed_of_requests {b : Build} {gunzip : List UInt8 → Option (List UInt8)}
    (hgunzip : ∀ t, gunzip [] = some t → t = []) {c : Call} (ha : c.Allowed) {rest : List UInt8}
    {m : Message} {ms : List Message} (hrequests : Requests (written b c ++ rest) (m :: ms))
    (hsees : Sees b gunzip c m) : Framed b c ∧ Requests rest ms := by
  obtain ⟨left, hparse, hleft⟩ := requests_cons_iff.1 hrequests
  obtain ⟨m', hparse', -, -, hfields, hbody⟩ := parse_written (b := b) ha hsees.writable rest
  obtain ⟨rfl, rfl⟩ := Prod.mk.inj (Option.some.inj (hparse.symm.trans hparse'))
  have hframed := hsees.framed hgunzip hfields hbody
  rw [if_neg hframed.not_zipped] at hleft
  exact ⟨hframed, hleft⟩

/-! ## All requests of a connection -/

/-- **The requests of a connection**: for every sequence of calls, the bytes that are written are
read as exactly the requests that were issued if and only if the condition is met by each call.

**Proof sketch.** Induction on the calls. What a server sees has well-formed words, so that its
first message is the one that `parse_written` gives: it meets the condition (`Sees.framed`). If the
condition is met the server sees the request (`Framed.sees`), the body is not compressed, and what
follows are the bytes of the other calls. -/
theorem requests_framed (b : Build) (gunzip : List UInt8 → Option (List UInt8))
    (hgunzip : ∀ t, gunzip [] = some t → t = []) {calls : List Call}
    (hcalls : ∀ c ∈ calls, c.Allowed) :
    (∃ ms, Requests (calls.flatMap (written b)) ms ∧ List.Forall₂ (Sees b gunzip) calls ms) ↔
      ∀ c ∈ calls, Framed b c := by
  induction calls with
  | nil => exact ⟨fun _ => List.forall_mem_nil _, fun _ => ⟨[], .nil, .nil⟩⟩
  | cons c calls ih =>
    obtain ⟨ha, hcalls⟩ := List.forall_mem_cons.1 hcalls
    rw [List.flatMap_cons, List.forall_mem_cons, ← ih hcalls]
    constructor
    · rintro ⟨_, hrequests, hsees⟩
      cases hsees with
      | cons hsee hsees =>
        obtain ⟨hframed, hrest⟩ := framed_of_requests hgunzip ha hrequests hsee
        exact ⟨hframed, _, hrest, hsees⟩
    · rintro ⟨hframed, ms, hrest, hsees⟩
      obtain ⟨m, hparse, hmethod, htarget, hfields, hbody⟩ :=
        parse_written (b := b) ha hframed.toWritable (calls.flatMap (written b))
      rw [if_neg hframed.not_zipped] at hparse
      have hsee : Sees b gunzip c m := hframed.sees ha hmethod htarget hfields hbody
      exact ⟨m :: ms, .cons hparse hrest, .cons hsee hsees⟩

/-- The text `hi`, compressed. -/
def hiZipped : List UInt8 :=
  [31, 139, 8, 0, 0, 0, 0, 0, 0, 3, 203, 200, 4, 0, 172, 42, 147, 216, 2, 0, 0, 0]

/-- A build, in which the text `hi` can be compressed. -/
def hiBuild (zip : Bool) : Build where
  zip := zip
  compress t := if t = [104, 105] then hiZipped else []
  agent := "Boost.Beast/347".toUTF8.data.toList
  isText_agent := by decide +kernel

/-- Decompression of that text. -/
def hiGunzip (t : List UInt8) : Option (List UInt8) :=
  if t = hiZipped then some [104, 105] else none

/-- `POST /a` with the text `hi` as a body. -/
def hiCall (headers : List Field) (contentType : String) : Call :=
  ⟨false, "POST".toUTF8.data.toList, [47, 97], [104], [], headers, [104, 105],
    contentType.toUTF8.data.toList⟩

/-- `GET /b`. -/
def getCall : Call := ⟨true, "GET".toUTF8.data.toList, [47, 98], [104], [], [], [], []⟩

/-- Both calls are allowed. -/
lemma allowed_calls : (hiCall [] "text/plain").Allowed ∧
    (hiCall [(fieldContentType, gzip)] "").Allowed ∧ getCall.Allowed := by
  refine ⟨⟨?_, ?_, ?_⟩, ⟨?_, ?_, ?_⟩, ⟨?_, ?_, ?_⟩⟩ <;> decide +kernel

/-- Both calls without compression. -/
theorem requests_framed_plain :
    ∃ ms, Requests ([hiCall [] "text/plain", getCall].flatMap (written (hiBuild false))) ms ∧
      List.Forall₂ (Sees (hiBuild false) hiGunzip) [hiCall [] "text/plain", getCall] ms := by
  have hheader : ∀ c ∈ [hiCall [] "text/plain", getCall], c.header fieldContentType = none := by
    decide
  refine (requests_framed (hiBuild false) hiGunzip (fun t ht => by cases ht) ?_).2 ?_
  · simp only [List.forall_mem_cons]
    exact ⟨allowed_calls.1, allowed_calls.2.2, List.forall_mem_nil _⟩
  · have hwords : ∀ c ∈ [hiCall [] "text/plain", getCall], IsTarget c.uri ∧ IsText (trim c.host) ∧
        ∀ f ∈ c.defaultHeaders ++ c.headers, IsToken f.1 ∧ IsText f.2 := by
      decide +kernel
    intro c hc
    obtain ⟨huri, hhost, hheaders⟩ := hwords c hc
    refine ⟨.of_headers huri hhost hheaders, fun _ v hv => ?_, nofun⟩
    rw [hheader c hc] at hv
    cases hv

/-- With compression and a header `Content-Type: gzip` the compressed body is no part of its
request, and with no such header the content type of the call is lost.

**Proof sketch.** A reading that sees the requests would make them framed by `framed_of_requests`,
and they are compressed. -/
theorem body_unframed :
    (hiCall [(fieldContentType, gzip)] "").Allowed ∧ (hiCall [] "text/plain").Allowed ∧
    getCall.Allowed ∧
    (¬ ∃ ms, Requests
        ([hiCall [(fieldContentType, gzip)] "", getCall].flatMap (written (hiBuild true))) ms ∧
      List.Forall₂ (Sees (hiBuild true) hiGunzip)
        [hiCall [(fieldContentType, gzip)] "", getCall] ms) ∧
    ¬ ∃ ms, Requests (written (hiBuild true) (hiCall [] "text/plain")) ms ∧
      List.Forall₂ (Sees (hiBuild true) hiGunzip) [hiCall [] "text/plain"] ms := by
  have hgunzip : ∀ t, hiGunzip [] = some t → t = [] := fun t ht => by cases ht
  refine ⟨allowed_calls.2.1, allowed_calls.1, allowed_calls.2.2, ?_, ?_⟩
  · rintro ⟨_, hrequests, hsees⟩
    cases hsees with
    | cons hsee _ =>
      obtain ⟨hframed, -⟩ := framed_of_requests hgunzip allowed_calls.2.1 hrequests hsee
      exact hframed.not_zipped (by decide)
  · rintro ⟨_, hrequests, hsees⟩
    cases hsees with
    | cons hsee _ =>
      rw [← List.append_nil (written _ _)] at hrequests
      obtain ⟨hframed, -⟩ := framed_of_requests hgunzip allowed_calls.1 hrequests hsee
      exact absurd (hframed.none (by decide) (by decide) rfl) (by decide)

end HkuUtils.Framing
