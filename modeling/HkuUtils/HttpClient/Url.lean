import Mathlib.Algebra.Order.Ring.Int
import HkuUtils.HttpClient.Escape

set_option relaxedAutoImplicit false
set_option autoImplicit false

/-!
# The URL of a client

The constructors of `AsioHttpClient` that are given a URL, `setUrl`, and the function `_parseUrl`
that they call. The parser assigns the members one after the other and returns where the URL is not
valid.

## Main definitions

* `HkuUtils.Url.Parsed`, `parseUrl` — the members that the parser assigns, and `_parseUrl`.
* `HkuUtils.Url.Client`, `construct`, `setUrl` — the members with the connection pool.
* `HkuUtils.Url.Valid`, `IsHttps` — what a URL is.

## Main results

* `HkuUtils.Url.parseUrl_cases` — what the parser assigns, and the one member that it never resets.
* `HkuUtils.Url.isHttps_setUrls` — that member after some calls.
* `HkuUtils.Url.setUrl_independent`, `https_kept` — when the history of a client does not matter.

## Design

Strings are lists of bytes. `std::stoi` follows `strtol` with base ten; a port is what is left of
its result in 16 bits. The parameters of the pool are always empty, so that only their number of
changes is kept. The flag `ssl` is the build option `HKU_ENABLE_HTTP_CLIENT_SSL`.
-/

namespace HkuUtils.Url

/-! ## Strings -/

/-- The bytes of a text. -/
def bytes (s : String) : List UInt8 := s.toUTF8.data.toList

/-- `find`: where a text is found first. -/
def find (pat : List UInt8) : List UInt8 → Option ℕ
  | [] => if pat.isPrefixOf [] then some 0 else none
  | c :: s => if pat.isPrefixOf (c :: s) then some 0 else (find pat s).map (· + 1)

/-- A character that does not occur is not found. -/
lemma find_eq_none {c : UInt8} {s : List UInt8} (h : c ∉ s) : find [c] s = none := by
  induction s with
  | nil => rfl
  | cons d s ih =>
    obtain ⟨hd, hs⟩ := not_or.mp (mt List.mem_cons.mpr h)
    rw [find, if_neg (by simpa using hd), ih hs]
    rfl

/-- A character is found where it occurs first. -/
lemma find_append {c : UInt8} {s : List UInt8} (h : c ∉ s) (rest : List UInt8) :
    find [c] (s ++ c :: rest) = some s.length := by
  induction s with
  | nil => simp [find]
  | cons d s ih =>
    obtain ⟨hd, hs⟩ := not_or.mp (mt List.mem_cons.mpr h)
    rw [List.cons_append, find, if_neg (by simpa using hd), ih hs]
    rfl

/-- `isspace`. -/
def isSpace (c : UInt8) : Bool := c == 32 || (9 ≤ c && c ≤ 13)

/-- The number of some decimal digits. -/
def decimal (digits : List UInt8) : ℤ := digits.foldl (fun n d => 10 * n + (d.toNat - 48)) 0

/-- `std::stoi`; `none` is an exception. -/
def stoi (s : List UInt8) : Option ℤ :=
  let s := s.dropWhile isSpace
  let negative := s.head? == some 45
  let s := if s.head? == some 43 || negative then s.tail else s
  let digits := s.takeWhile isNumber
  let n := if negative then -decimal digits else decimal digits
  if digits.isEmpty ∨ n < -2 ^ 31 ∨ 2 ^ 31 ≤ n then none else some n

/-! ## The parser -/

/-- The members that `_parseUrl` reads and assigns. They keep what they had where it does not
assign them. -/
structure Parsed where
  /-- `m_url`. -/
  url : List UInt8
  /-- `m_is_valid_url`. -/
  isValidUrl : Bool
  /-- `m_is_https`. -/
  isHttps : Bool
  /-- `m_base_path`. -/
  basePath : List UInt8
  /-- `m_host`. -/
  host : List UInt8
  /-- `m_port`. -/
  port : List UInt8
  deriving DecidableEq, Repr

/-- The members before a URL is parsed. -/
def Parsed.init : Parsed := ⟨[], false, false, [], [], []⟩

/-- `m_url = url`. -/
def Parsed.given (p : Parsed) (url : List UInt8) : Parsed := { p with url := url }

/-- The URL that is given is kept. -/
@[simp]
lemma Parsed.url_given (p : Parsed) (url : List UInt8) : (p.given url).url = url := rfl

/-- A new URL leaves the flag for `https`. -/
@[simp]
lemma Parsed.isHttps_given (p : Parsed) (url : List UInt8) :
    (p.given url).isHttps = p.isHttps := rfl

/-- The end of `_parseUrl`: what follows `://`, with the default port of the protocol.

The port is read by `std::stoi`, which may throw, and is cut to 16 bits. -/
def parseHost (p : Parsed) (port : ℕ) (rest : List UInt8) : Parsed :=
  let (basePath, host) :=
    match find [47] rest with
    | some pos => (rest.drop pos, rest.take pos)
    | none => ([], rest)
  match find [58] host with
  | some pos =>
    match stoi (host.drop (pos + 1)) with
    | none => { p with isValidUrl := false }
    | some n =>
      { p with
        basePath := basePath
        host := host.take pos
        port := bytes (toString (n % 2 ^ 16).toNat) }
  | none => { p with basePath := basePath, host := host, port := bytes (toString port) }

/-- `_parseUrl`. It never resets `m_is_https`, and without TLS it never sets it. -/
def parseUrl (ssl : Bool) (p : Parsed) : Parsed :=
  match find (bytes "://") p.url with
  | none => { p with isValidUrl := false }
  | some pos =>
    let p := { p with isValidUrl := true }
    let proto := p.url.take pos
    if proto = bytes "http" then parseHost p 80 (p.url.drop (pos + 3))
    else if proto = bytes "https" then
      parseHost (if ssl then { p with isHttps := true } else p) 443 (p.url.drop (pos + 3))
    else { p with isValidUrl := false }

/-! ## The client -/

/-- The members of a client that the URL decides. -/
structure Client where
  parsed : Parsed
  /-- `m_connection_pool`: how often its parameters were set anew, if there is a pool. -/
  pool : Option ℕ
  deriving DecidableEq, Repr

/-- The constructors with a URL. -/
def construct (ssl : Bool) (url : List UInt8) : Client :=
  let p := parseUrl ssl (Parsed.init.given url)
  { parsed := p, pool := if p.isValidUrl then some 0 else none }

/-- `setUrl`. -/
def setUrl (ssl : Bool) (c : Client) (url : List UInt8) : Client :=
  let p := parseUrl ssl (c.parsed.given url)
  if !p.isValidUrl then { c with parsed := p }
  else if c.parsed.host ≠ p.host ∨ c.parsed.port ≠ p.port then
    { parsed := p, pool := c.pool.map (· + 1) }
  else { c with parsed := p }

/-- The client after some calls of `setUrl`. -/
def setUrls (ssl : Bool) (c : Client) (urls : List (List UInt8)) : Client :=
  urls.foldl (setUrl ssl) c

/-- The URL parses as valid. -/
def Valid (url : List UInt8) : Prop := (construct false url).parsed.isValidUrl = true

/-- The protocol of the URL is `https`, whether the rest is valid or not. -/
def IsHttps (url : List UInt8) : Prop :=
  (find (bytes "://") url).map url.take = some (bytes "https")

instance (url : List UInt8) : Decidable (Valid url) :=
  inferInstanceAs (Decidable (_ = true))

instance (url : List UInt8) : Decidable (IsHttps url) :=
  inferInstanceAs (Decidable (_ = _))

/-! ## What the parser assigns -/

/-- The end of the parser rejects a URL, or assigns members that the URL alone decides. -/
lemma parseHost_cases (port : ℕ) (rest : List UInt8) :
    (∀ p, parseHost p port rest = { p with isValidUrl := false }) ∨
    ∃ basePath host port', ∀ p, parseHost p port rest =
      { p with basePath := basePath, host := host, port := port' } := by
  unfold parseHost
  generalize hsplit : (match find [47] rest with
    | some pos => (rest.drop pos, rest.take pos)
    | none => ([], rest)) = parts
  obtain ⟨basePath, host⟩ := parts
  cases hcolon : find [58] host with
  | none => exact Or.inr ⟨_, _, _, fun p => by simp only [hcolon]; rfl⟩
  | some pos =>
    cases hport : stoi (host.drop (pos + 1)) with
    | none => exact Or.inl fun p => by simp only [hcolon, hport]
    | some n => exact Or.inr ⟨_, _, _, fun p => by simp only [hcolon, hport]; rfl⟩

/-- The two protocols differ. -/
lemma bytes_http_ne_https : bytes "http" ≠ bytes "https" := by decide

/-- **What the parser assigns**: it rejects the URL, or assigns members that the URL alone decides.
In both cases `m_is_https` is set for the protocol `https`, and is never reset.

**Proof sketch.** One case for each branch of the parser: there is no protocol, or it is `http`,
`https` or another. The host is parsed from the URL alone, and the flag is only ever set. -/
lemma parseUrl_cases (url : List UInt8) :
    (∀ ssl p, p.url = url → parseUrl ssl p =
      { p with isValidUrl := false, isHttps := p.isHttps || (ssl && decide (IsHttps url)) }) ∨
    ∃ basePath host port, ∀ ssl p, p.url = url → parseUrl ssl p =
      ⟨url, true, p.isHttps || (ssl && decide (IsHttps url)), basePath, host, port⟩ := by
  cases hfind : find (bytes "://") url with
  | none =>
    have hhttps : ¬ IsHttps url := by simp [IsHttps, hfind]
    refine Or.inl fun ssl p hp => ?_
    simp [parseUrl, hp, hfind, hhttps]
  | some pos =>
    have hiff : IsHttps url ↔ url.take pos = bytes "https" := by simp [IsHttps, hfind]
    by_cases hhttp : url.take pos = bytes "http"
    · have hhttps : ¬ IsHttps url := by
        rw [hiff, hhttp]
        exact bytes_http_ne_https
      rcases parseHost_cases 80 (url.drop (pos + 3)) with h | ⟨basePath, host, port, h⟩
      · refine Or.inl fun ssl p hp => ?_
        simp [parseUrl, hp, hfind, hhttp, hhttps, h]
      · refine Or.inr ⟨basePath, host, port, fun ssl p hp => ?_⟩
        simp [parseUrl, hp, hfind, hhttp, hhttps, h]
    · by_cases hhttps : url.take pos = bytes "https"
      · have hurl : IsHttps url := hiff.mpr hhttps
        rcases parseHost_cases 443 (url.drop (pos + 3)) with h | ⟨basePath, host, port, h⟩
        · refine Or.inl fun ssl p hp => ?_
          cases ssl <;> simp [parseUrl, hp, hfind, bytes_http_ne_https.symm, hhttps, hurl, h]
        · refine Or.inr ⟨basePath, host, port, fun ssl p hp => ?_⟩
          cases ssl <;> simp [parseUrl, hp, hfind, bytes_http_ne_https.symm, hhttps, hurl, h]
      · have hurl : ¬ IsHttps url := fun h => hhttps (hiff.mp h)
        refine Or.inl fun ssl p hp => ?_
        simp [parseUrl, hp, hfind, hhttp, hhttps, hurl]

/-- `m_is_https` afterwards. -/
lemma isHttps_parseUrl (ssl : Bool) (p : Parsed) :
    (parseUrl ssl p).isHttps = (p.isHttps || (ssl && decide (IsHttps p.url))) := by
  rcases parseUrl_cases p.url with h | ⟨_, _, _, h⟩
  · rw [h ssl p rfl]
  · rw [h ssl p rfl]

/-- **A valid URL**: all members but `m_is_https` are those that the URL decides. -/
lemma parseUrl_valid {url : List UInt8} (hurl : Valid url) :
    ∃ basePath host port, ∀ ssl p, p.url = url → parseUrl ssl p =
      ⟨url, true, p.isHttps || (ssl && decide (IsHttps url)), basePath, host, port⟩ := by
  rcases parseUrl_cases url with h | h
  · have hinvalid : (construct false url).parsed.isValidUrl = false := by
      rw [construct, h false _ rfl]
    rw [Valid, hinvalid] at hurl
    cases hurl
  · exact h

/-- A URL that is not valid: of the other members only `m_is_https` can change. -/
lemma parseUrl_not_valid {url : List UInt8} (hurl : ¬ Valid url) (ssl : Bool) (p : Parsed)
    (hp : p.url = url) : parseUrl ssl p =
      { p with isValidUrl := false, isHttps := p.isHttps || (ssl && decide (IsHttps url)) } := by
  rcases parseUrl_cases url with h | ⟨_, _, _, h⟩
  · exact h ssl p hp
  · have hvalid : (construct false url).parsed.isValidUrl = true := by
      rw [construct, h false _ rfl]
    exact absurd hvalid hurl

/-- Validity does not depend on the build or on the client. -/
lemma isValidUrl_parseUrl (ssl : Bool) (p : Parsed) :
    (parseUrl ssl p).isValidUrl = true ↔ Valid p.url := by
  show _ ↔ (parseUrl false (Parsed.init.given p.url)).isValidUrl = true
  rcases parseUrl_cases p.url with h | ⟨_, _, _, h⟩
  · rw [h ssl p rfl, h false (Parsed.init.given p.url) rfl]
  · rw [h ssl p rfl, h false (Parsed.init.given p.url) rfl]

/-! ## The client -/

variable {ssl : Bool}

/-- `setUrl` parses the URL. -/
@[simp]
lemma parsed_setUrl (c : Client) (url : List UInt8) :
    (setUrl ssl c url).parsed = parseUrl ssl (c.parsed.given url) := by
  simp only [setUrl]
  split
  · rfl
  · split <;> rfl

/-- `setUrl` neither makes nor removes a pool. -/
lemma isSome_pool_setUrl (c : Client) (url : List UInt8) :
    (setUrl ssl c url).pool.isSome = c.pool.isSome := by
  simp only [setUrl]
  split
  · rfl
  · split
    · exact Option.isSome_map
    · rfl

/-- `m_is_https` after some calls. -/
lemma isHttps_setUrls (c : Client) (urls : List (List UInt8)) :
    (setUrls ssl c urls).parsed.isHttps =
      (c.parsed.isHttps || (ssl && urls.any fun url => decide (IsHttps url))) := by
  induction urls generalizing c with
  | nil => simp [setUrls]
  | cons url urls ih =>
    rw [show setUrls ssl c (url :: urls) = setUrls ssl (setUrl ssl c url) urls from rfl, ih,
      parsed_setUrl, isHttps_parseUrl, List.any_cons, Bool.or_assoc, Bool.and_or_distrib_left]
    rfl

/-- The pool after some calls. -/
lemma isSome_pool_setUrls (c : Client) (urls : List (List UInt8)) :
    (setUrls ssl c urls).pool.isSome = c.pool.isSome := by
  induction urls generalizing c with
  | nil => rfl
  | cons url urls ih => exact (ih _).trans (isSome_pool_setUrl c url)

/-- A constructor makes a pool if the URL is valid. -/
lemma isSome_pool_construct (url : List UInt8) :
    (construct ssl url).pool.isSome = true ↔ Valid url := by
  have hvalid := isValidUrl_parseUrl ssl (Parsed.init.given url)
  rw [Parsed.url_given] at hvalid
  rw [← hvalid, construct]
  split
  · next h => exact ⟨fun _ => h, fun _ => rfl⟩
  · next h => exact ⟨nofun, fun h' => absurd h' h⟩

/-- **When the history of a client does not matter**: after `setUrl` with a valid URL the client is
like a new one exactly if the URL of its constructor was valid, and the new URL is one of `https`
or no earlier one was.

**Proof sketch.** The pool of connections is there if and only if the constructor has made it, and
the flag for `https` is set if and only if one of the URLs so far was one of `https`; all else is
overwritten. -/
theorem setUrl_independent (ssl : Bool) (url₀ : List UInt8) (urls : List (List UInt8))
    {url : List UInt8} (hurl : Valid url) :
    ((setUrl ssl (setUrls ssl (construct ssl url₀) urls) url).parsed =
        (construct ssl url).parsed ∧
      (setUrl ssl (setUrls ssl (construct ssl url₀) urls) url).pool.isSome =
        (construct ssl url).pool.isSome) ↔
    Valid url₀ ∧ (ssl = true → IsHttps url ∨ ∀ v ∈ url₀ :: urls, ¬ IsHttps v) := by
  obtain ⟨basePath, host, port, hparse⟩ := parseUrl_valid hurl
  have hpool : (setUrl ssl (setUrls ssl (construct ssl url₀) urls) url).pool.isSome =
      (construct ssl url).pool.isSome ↔ Valid url₀ := by
    rw [isSome_pool_setUrl, isSome_pool_setUrls, (isSome_pool_construct url).mpr hurl]
    exact isSome_pool_construct url₀
  have hhttps : (setUrls ssl (construct ssl url₀) urls).parsed.isHttps =
      (ssl && (url₀ :: urls).any fun v => decide (IsHttps v)) := by
    rw [isHttps_setUrls, construct, isHttps_parseUrl, List.any_cons, Bool.and_or_distrib_left]
    rfl
  have hnew : (construct ssl url).parsed = parseUrl ssl (Parsed.init.given url) := rfl
  rw [hpool, parsed_setUrl, hnew, hparse ssl _ (Parsed.url_given _ _),
    hparse ssl _ (Parsed.url_given _ _), and_comm]
  refine and_congr_right fun _ => ?_
  simp only [hhttps, Parsed.isHttps_given, Parsed.mk.injEq, true_and, and_true, Parsed.init,
    Bool.false_or]
  cases ssl with
  | false => simp
  | true =>
    by_cases h : IsHttps url
    · simp [h]
    · simp [h]

/-- From one host to another. -/
theorem setUrl_independent_http :
    (setUrl true (setUrls true (construct true (bytes "http://a")) [bytes "b"])
      (bytes "http://c:8080/x")).parsed = (construct true (bytes "http://c:8080/x")).parsed :=
  have hvalid : Valid (bytes "http://c:8080/x") := by decide +kernel
  ((setUrl_independent true (bytes "http://a") [bytes "b"] hvalid).mpr
    ⟨by decide +kernel, fun _ => Or.inr (by decide +kernel)⟩).1

/-- A client that had a URL of `https` keeps TLS for a URL of `http`. -/
theorem https_kept :
    Valid (bytes "http://b") ∧
    (setUrl true (construct true (bytes "https://a")) (bytes "http://b")).parsed.isHttps = true ∧
    (construct true (bytes "http://b")).parsed.isHttps = false := by
  decide +kernel

end HkuUtils.Url
