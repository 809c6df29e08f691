import HkuUtils.HttpClient.Url

set_option relaxedAutoImplicit false
set_option autoImplicit false

/-!
# Ports of URLs

The function `_parseUrl` reads the port of a URL with `std::stoi`, which skips blanks, takes a sign
and ignores what follows the digits, and keeps 16 bits of the result.

## Main definitions

* `HkuUtils.Url.Address` — the URLs of the two protocols, by their parts.
* `HkuUtils.Url.IsPort` — the decimal numbers of 16 bits.
* `HkuUtils.Url.ReadsInt` — the texts in which `std::stoi` finds a number.
* `HkuUtils.Url.PortDecided` — exactly the ports are accepted, and nothing else is assigned.

## Main results

* `HkuUtils.Url.stoi_isSome_iff` — when `std::stoi` throws.
* `HkuUtils.Url.Address.parseUrl_url` — the parser on the parts of a URL.
* `HkuUtils.Url.exists_address` — every URL of the two protocols has parts.
* `HkuUtils.Url.port_decided`, `port_junk` — when the ports are decided.
-/

namespace HkuUtils.Url

/-! ## Numbers in texts -/

/-- Some decimal digits. -/
def IsDigits (t : List UInt8) : Prop := t ≠ [] ∧ ∀ c ∈ t, isNumber c = true

/-- A port: a decimal number from `0` to `65535`, with no other characters. -/
def IsPort (t : List UInt8) : Prop := IsDigits t ∧ decimal t ≤ 65535

instance (t : List UInt8) : Decidable (IsDigits t) := inferInstanceAs (Decidable (_ ∧ _))

instance (t : List UInt8) : Decidable (IsPort t) := inferInstanceAs (Decidable (_ ∧ _))

/-- The number of some digits after a sign. -/
def signed (sign digits : List UInt8) : ℤ := if sign = [45] then -decimal digits else decimal digits

/-- The text begins with an `int`: perhaps blanks, perhaps a sign, and some digits; anything may
follow. -/
def ReadsInt (t : List UInt8) : Prop :=
  ∃ blanks sign digits rest, t = blanks ++ (sign ++ (digits ++ rest)) ∧
    (∀ c ∈ blanks, isSpace c = true) ∧ (sign = [] ∨ sign = [43] ∨ sign = [45]) ∧
    IsDigits digits ∧ (∀ c ∈ rest.head?, isNumber c = false) ∧
    -2 ^ 31 ≤ signed sign digits ∧ signed sign digits < 2 ^ 31

/-- A digit is no blank and no sign. -/
lemma isNumber_bound {c : UInt8} (hc : isNumber c = true) :
    isSpace c = false ∧ c ≠ 43 ∧ c ≠ 45 := by
  revert hc
  refine CString.forall_byte (P := fun c => isNumber c = true →
    isSpace c = false ∧ c ≠ 43 ∧ c ≠ 45) ?_ c
  decide +kernel

/-- The digits at the front of a text. -/
lemma takeWhile_digits {digits rest : List UInt8} (hdigits : ∀ c ∈ digits, isNumber c = true)
    (hrest : ∀ c ∈ rest.head?, isNumber c = false) :
    (digits ++ rest).takeWhile isNumber = digits := by
  rw [List.takeWhile_append_of_pos hdigits]
  cases rest with
  | nil => simp
  | cons c rest => simp [hrest c rfl]

/-- **What `std::stoi` reads**: the number after the blanks, if it is an `int`.

**Proof sketch.** The blanks are dropped and the sign is read. The digits are taken as long as they
last, and what follows is none. -/
lemma stoi_eq {blanks sign digits rest : List UInt8} (hblanks : ∀ c ∈ blanks, isSpace c = true)
    (hsign : sign = [] ∨ sign = [43] ∨ sign = [45]) (hdigits : IsDigits digits)
    (hrest : ∀ c ∈ rest.head?, isNumber c = false) :
    stoi (blanks ++ (sign ++ (digits ++ rest))) =
      if signed sign digits < -2 ^ 31 ∨ 2 ^ 31 ≤ signed sign digits then none
      else some (signed sign digits) := by
  have htake := takeWhile_digits hdigits.2 hrest
  obtain ⟨d, ds, rfl⟩ := List.exists_cons_of_ne_nil hdigits.1
  obtain ⟨hspace, hplus, hminus⟩ := isNumber_bound (hdigits.2 d List.mem_cons_self)
  have hdrop : (blanks ++ (sign ++ (d :: ds ++ rest))).dropWhile isSpace =
      sign ++ (d :: ds ++ rest) := by
    rw [List.dropWhile_append_of_pos hblanks]
    rcases hsign with rfl | rfl | rfl
    · simp [hspace]
    · simp [isSpace]
    · simp [isSpace]
  unfold stoi
  rw [hdrop]
  rcases hsign with rfl | rfl | rfl
  · rw [List.cons_append] at htake
    simp [hplus, hminus, htake, signed]
  · rw [List.cons_append] at htake
    simp [htake, signed]
  · rw [List.cons_append] at htake
    simp [htake, signed]

/-- The sign at the front of a text. -/
lemma exists_sign (s : List UInt8) : ∃ sign u, (sign = [] ∨ sign = [43] ∨ sign = [45]) ∧
    s = sign ++ u ∧ (s.head? == some 45) = decide (sign = [45]) ∧
    (if (s.head? == some 43 || decide (sign = [45])) = true then s.tail else s) = u := by
  rcases s with _ | ⟨c, s⟩
  · exact ⟨[], [], Or.inl rfl, rfl, rfl, rfl⟩
  · by_cases hplus : c = 43
    · exact ⟨[43], s, Or.inr (Or.inl rfl), by simp [hplus], by simp [hplus], by simp [hplus]⟩
    · by_cases hminus : c = 45
      · exact ⟨[45], s, Or.inr (Or.inr rfl), by simp [hminus], by simp [hminus], by simp⟩
      · exact ⟨[], c :: s, Or.inl rfl, rfl, by simp [hminus], by simp [hplus]⟩

/-- **When `std::stoi` throws**: exactly if the text does not begin with an `int`.

**Proof sketch.** What the function takes apart is itself the text that the condition asks for.
Conversely, `stoi_eq` computes the result of such a text. -/
lemma stoi_isSome_iff (t : List UInt8) : (stoi t).isSome = true ↔ ReadsInt t := by
  constructor
  · intro h
    obtain ⟨sign, u, hsign, happend, hneg, htail⟩ := exists_sign (t.dropWhile isSpace)
    have hvalue : (if decide (sign = [45]) = true then -decimal (u.takeWhile isNumber)
        else decimal (u.takeWhile isNumber)) = signed sign (u.takeWhile isNumber) := by
      simp [signed]
    simp only [stoi, hneg, htail, hvalue] at h
    split at h
    · cases h
    · rename_i hint
      rw [not_or, not_or, not_lt, not_le] at hint
      obtain ⟨hne, hlow, hhigh⟩ := hint
      refine ⟨t.takeWhile isSpace, sign, u.takeWhile isNumber, u.dropWhile isNumber, ?_,
        fun c hc => List.mem_takeWhile_imp hc, hsign, ⟨by simpa using hne,
        fun c hc => List.mem_takeWhile_imp hc⟩, ?_, hlow, hhigh⟩
      · rw [List.takeWhile_append_dropWhile, ← happend, List.takeWhile_append_dropWhile]
      · intro c hc
        have hdrop := List.head?_dropWhile_not isNumber u
        rw [Option.mem_def.mp hc] at hdrop
        simpa using hdrop
  · rintro ⟨blanks, sign, digits, rest, rfl, hblanks, hsign, hdigits, hrest, hlow, hhigh⟩
    have hint : ¬ (signed sign digits < -2 ^ 31 ∨ 2 ^ 31 ≤ signed sign digits) :=
      not_or.mpr ⟨not_lt.mpr hlow, not_le.mpr hhigh⟩
    rw [stoi_eq hblanks hsign hdigits hrest, if_neg hint]
    rfl

/-- The number of some digits is not negative. -/
lemma decimal_nonneg {digits : List UInt8} (h : ∀ c ∈ digits, isNumber c = true) :
    0 ≤ decimal digits := by
  have hstep : ∀ n : ℤ, 0 ≤ n →
      0 ≤ digits.foldl (fun n d => 10 * n + ((d.toNat : ℤ) - 48)) n := by
    induction digits with
    | nil => exact fun n hn => hn
    | cons d digits ih =>
      intro n hn
      have hd : 48 ≤ d.toNat := by
        have hnumber := h d List.mem_cons_self
        simp only [isNumber, Bool.and_eq_true, decide_eq_true_eq, UInt8.le_iff_toNat_le] at hnumber
        exact hnumber.1
      have hnext : 0 ≤ 10 * n + ((d.toNat : ℤ) - 48) := by omega
      exact ih (fun c hc => h c (List.mem_cons_of_mem d hc)) _ hnext
  exact hstep 0 le_rfl

/-- A port is read as its number. -/
lemma stoi_isPort {t : List UInt8} (h : IsPort t) : stoi t = some (decimal t) := by
  have hread := @stoi_eq [] [] t [] (List.forall_mem_nil _) (Or.inl rfl) h.1 (by simp)
  have hnonneg := decimal_nonneg h.1.2
  have hbound := h.2
  have hsigned : signed [] t = decimal t := rfl
  simp only [List.nil_append, List.append_nil, hsigned] at hread
  rw [hread, if_neg (by omega)]

/-! ## The parts of a URL -/

/-- A URL of one of the two protocols, by its parts. What makes the parts unambiguous is part of
it. -/
structure Address where
  /-- The scheme is `https`. -/
  https : Bool
  /-- What stands before the first `:` and the first `/`. -/
  host : List UInt8
  /-- What follows the first `:`, if there is one before the first `/`. -/
  port : Option (List UInt8)
  /-- What begins with the first `/`. -/
  path : List UInt8
  host_plain : 47 ∉ host ∧ 58 ∉ host
  port_plain : ∀ t ∈ port, 47 ∉ t
  path_rooted : ∀ c ∈ path.head?, c = 47

namespace Address

/-- The text of the scheme. -/
def scheme (a : Address) : List UInt8 := if a.https then bytes "https" else bytes "http"

/-- The default port of the scheme. -/
def defaultPort (a : Address) : ℕ := if a.https then 443 else 80

/-- The text between the scheme and the path. -/
def authority (a : Address) : List UInt8 := a.host ++ a.port.elim [] (58 :: ·)

/-- The URL. -/
def url (a : Address) : List UInt8 := a.scheme ++ (bytes "://" ++ (a.authority ++ a.path))

/-- There is no port, or a decimal number of 16 bits. -/
def HasPort (a : Address) : Prop := ∀ t ∈ a.port, IsPort t

/-- The port: the number that is given, or the default. -/
def number (a : Address) : ℕ := a.port.elim a.defaultPort fun t => (decimal t).toNat

end Address

/-- **The ports are decided**: the URL is accepted exactly if its port is absent or a port, which
`m_port` is then; otherwise host, port and base path are those from before. -/
structure PortDecided (ssl : Bool) (p : Parsed) (a : Address) : Prop where
  accepted_iff : (parseUrl ssl (p.given a.url)).isValidUrl = true ↔ a.HasPort
  port_eq : a.HasPort → (parseUrl ssl (p.given a.url)).port = bytes (toString a.number)
  kept : ¬ a.HasPort → (parseUrl ssl (p.given a.url)).host = p.host ∧
    (parseUrl ssl (p.given a.url)).port = p.port ∧
    (parseUrl ssl (p.given a.url)).basePath = p.basePath

/-- The authority has no `/`. -/
lemma Address.authority_plain (a : Address) : 47 ∉ a.authority := by
  rw [authority, List.mem_append, not_or]
  refine ⟨a.host_plain.1, ?_⟩
  cases hport : a.port with
  | none => simp
  | some t =>
    have ht := a.port_plain t hport
    simpa using ht

/-- The path begins at the first `/`. -/
lemma Address.find_path (a : Address) :
    find [47] (a.authority ++ a.path) = if a.path = [] then none else some a.authority.length := by
  rcases hpath : a.path with _ | ⟨c, path⟩
  · rw [List.append_nil, find_eq_none a.authority_plain, if_pos rfl]
  · have hc : c = 47 := a.path_rooted c (by rw [hpath]; rfl)
    rw [hc, find_append a.authority_plain, if_neg (List.cons_ne_nil _ _)]

/-- The port begins after the first `:`. -/
lemma Address.find_port (a : Address) :
    find [58] a.authority = a.port.elim none fun _ => some a.host.length := by
  rcases hport : a.port with _ | t
  · rw [authority, hport]
    exact (congrArg _ (List.append_nil _)).trans (find_eq_none a.host_plain.2)
  · rw [authority, hport]
    exact find_append a.host_plain.2 t

/-- The end of the parser on the parts of a URL.

**Proof sketch.** By cases on whether there is a port: the colon is found exactly then, and what is
behind it up to the path is read as a number. -/
lemma Address.parseHost_eq (a : Address) (p : Parsed) (port : ℕ) :
    parseHost p port (a.authority ++ a.path) =
      a.port.elim { p with basePath := a.path, host := a.host, port := bytes (toString port) }
        fun t =>
          match stoi t with
          | none => { p with isValidUrl := false }
          | some n =>
            { p with
              basePath := a.path
              host := a.host
              port := bytes (toString (n % 2 ^ 16).toNat) } := by
  have hcolon := a.find_port
  simp only [parseHost, a.find_path]
  rcases hport : a.port with _ | t
  · have hauthority : a.authority = a.host := by simp [authority, hport]
    rw [hport, hauthority] at hcolon
    by_cases h : a.path = [] <;> simp [h, hauthority, hcolon]
  · have hdrop : a.authority.drop (a.host.length + 1) = t := by simp [authority, hport]
    have htake : a.authority.take a.host.length = a.host := by simp [authority, hport]
    rw [hport] at hcolon
    by_cases h : a.path = [] <;> rcases hread : stoi t with _ | n <;>
      simp [h, hcolon, hdrop, htake, hread]

/-- The scheme ends at the first `://`. -/
lemma Address.find_scheme (a : Address) :
    find (bytes "://") a.url = some a.scheme.length ∧ a.url.take a.scheme.length = a.scheme ∧
      a.url.drop (a.scheme.length + 3) = a.authority ++ a.path := by
  have hsep : bytes "://" = [58, 47, 47] := by decide
  refine ⟨?_, List.take_left, ?_⟩
  · cases hhttps : a.https with
    | false =>
      have hscheme : a.scheme = [104, 116, 116, 112] := by rw [scheme, hhttps]; decide
      simp [url, hscheme, hsep, find]
    | true =>
      have hscheme : a.scheme = [104, 116, 116, 112, 115] := by rw [scheme, hhttps]; decide
      simp [url, hscheme, hsep, find]
  · rw [url, hsep, ← List.drop_drop, List.drop_left]
    rfl

/-- **The parser on the parts of a URL.**

**Proof sketch.** The protocol is found in front of the authority, and the host in front of the
first colon or slash behind it. A port is read by `std::stoi`, and without one it is that of the
protocol. -/
lemma Address.parseUrl_url (a : Address) (ssl : Bool) (p : Parsed) :
    ∃ isHttps, parseUrl ssl (p.given a.url) =
      a.port.elim ⟨a.url, true, isHttps, a.path, a.host, bytes (toString a.defaultPort)⟩
        fun t =>
          match stoi t with
          | none => ⟨a.url, false, isHttps, p.basePath, p.host, p.port⟩
          | some n =>
            ⟨a.url, true, isHttps, a.path, a.host, bytes (toString (n % 2 ^ 16).toNat)⟩ := by
  obtain ⟨hfind, htake, hdrop⟩ := a.find_scheme
  have hparse : ∃ isHttps, parseUrl ssl (p.given a.url) =
      parseHost ⟨a.url, true, isHttps, p.basePath, p.host, p.port⟩ a.defaultPort
        (a.authority ++ a.path) := by
    cases hhttps : a.https with
    | false =>
      have hscheme : a.scheme = bytes "http" := by rw [scheme, hhttps]; rfl
      rw [hscheme] at hfind htake hdrop
      refine ⟨p.isHttps, ?_⟩
      simp only [parseUrl, Parsed.given, hfind, htake, hdrop, defaultPort, hhttps]
      rfl
    | true =>
      have hscheme : a.scheme = bytes "https" := by rw [scheme, hhttps]; rfl
      rw [hscheme] at hfind htake hdrop
      refine ⟨if ssl then true else p.isHttps, ?_⟩
      simp only [parseUrl, Parsed.given, hfind, htake, hdrop, defaultPort, hhttps,
        if_neg bytes_http_ne_https.symm]
      cases ssl <;> rfl
  obtain ⟨isHttps, hparse⟩ := hparse
  exact ⟨isHttps, by rw [hparse, a.parseHost_eq]⟩

/-- A text is an authority and a path. -/
lemma exists_authority (rest : List UInt8) : ∃ authority path, rest = authority ++ path ∧
    47 ∉ authority ∧ ∀ c ∈ path.head?, c = 47 := by
  by_cases h : 47 ∈ rest
  · obtain ⟨authority, path, hrest, hnot⟩ := List.eq_append_cons_of_mem h
    exact ⟨authority, 47 :: path, hrest, hnot, by simp⟩
  · exact ⟨rest, [], (List.append_nil rest).symm, h, by simp⟩

/-- **Every URL of the two protocols has parts.** -/
theorem exists_address {url : List UInt8}
    (h : bytes "http" ++ bytes "://" <+: url ∨ bytes "https" ++ bytes "://" <+: url) :
    ∃ a : Address, a.url = url := by
  obtain ⟨https, rest, hurl⟩ : ∃ (https : Bool) (rest : List UInt8),
      (if https then bytes "https" else bytes "http") ++ (bytes "://" ++ rest) = url := by
    rcases h with ⟨rest, h⟩ | ⟨rest, h⟩
    · exact ⟨false, rest, by rw [← h, List.append_assoc]; rfl⟩
    · exact ⟨true, rest, by rw [← h, List.append_assoc]; rfl⟩
  obtain ⟨authority, path, rfl, hslash, hpath⟩ := exists_authority rest
  by_cases hcolon : 58 ∈ authority
  · obtain ⟨host, port, rfl, hhost⟩ := List.eq_append_cons_of_mem hcolon
    rw [List.mem_append, List.mem_cons, not_or, not_or] at hslash
    exact ⟨⟨https, host, some port, path, ⟨hslash.1, hhost⟩,
      fun t ht => Option.some.inj ht ▸ hslash.2.2, hpath⟩, hurl⟩
  · refine ⟨⟨https, authority, none, path, ⟨hslash, hcolon⟩, by simp, hpath⟩, ?_⟩
    rw [← hurl, Address.url, Address.authority, Option.elim_none, List.append_nil]
    rfl

/-! ## Which ports are decided -/

/-- A port is read as its number, which fits. -/
lemma toNat_of_isPort {t : List UInt8} (h : IsPort t) :
    (decimal t % 2 ^ 16).toNat = (decimal t).toNat := by
  have hnonneg := decimal_nonneg h.1.2
  have hbound := h.2
  rw [Int.emod_eq_of_lt hnonneg (by omega)]

/-- A port begins with an `int`. -/
lemma IsPort.readsInt {t : List UInt8} (h : IsPort t) : ReadsInt t :=
  (stoi_isSome_iff t).mp (by rw [stoi_isPort h]; rfl)

/-- **When the ports are decided**: exactly if the port that is given, where it begins with an
`int`, is nothing but a number of 16 bits.

**Proof sketch.** A port is read as itself, and narrowing keeps it. A text that does not begin with
an `int` makes `std::stoi` throw before anything but the validity is assigned. Any other text is
accepted though it is no port. -/
theorem port_decided (ssl : Bool) (p : Parsed) (a : Address) :
    PortDecided ssl p a ↔ ∀ t ∈ a.port, ReadsInt t → IsPort t := by
  obtain ⟨isHttps, hparse⟩ := a.parseUrl_url ssl p
  rcases hport : a.port with _ | t
  · have hhas : a.HasPort := by simp [Address.HasPort, hport]
    refine iff_of_true ⟨?_, fun _ => ?_, fun h => absurd hhas h⟩ (by simp)
    · simp [hparse, hport, hhas]
    · simp [hparse, hport, Address.number]
  · have hhas : a.HasPort ↔ IsPort t := by simp [Address.HasPort, hport]
    have hiff : (∀ u ∈ some t, ReadsInt u → IsPort u) ↔ (ReadsInt t → IsPort t) := by simp
    rw [hiff]
    rcases hread : stoi t with _ | n
    · have hnot : ¬ ReadsInt t := by
        rw [← stoi_isSome_iff, hread]
        exact Bool.false_ne_true
      have hno : ¬ a.HasPort := fun h => hnot (hhas.mp h).readsInt
      simp only [hport, Option.elim, hread] at hparse
      refine iff_of_true ⟨?_, fun h => absurd h hno, fun _ => ?_⟩ fun h => absurd h hnot
      · simp [hparse, hno]
      · simp [hparse]
    · have hreads : ReadsInt t := (stoi_isSome_iff t).mp (by rw [hread]; rfl)
      simp only [hport, Option.elim, hread] at hparse
      constructor
      · intro h _
        exact hhas.mp (h.accepted_iff.mp (by rw [hparse]))
      · intro h
        have hisPort := h hreads
        have hn : n = decimal t := by
          rw [stoi_isPort hisPort] at hread
          exact (Option.some.inj hread).symm
        refine ⟨?_, fun _ => ?_, fun h' => absurd (hhas.mpr hisPort) h'⟩
        · simp [hparse, hhas, hisPort]
        · rw [hparse, Address.number, hport, hn]
          exact congrArg (fun k : ℕ => bytes (toString k)) (toNat_of_isPort hisPort)

/-- The URL `http://h:80x`. -/
def junkAddress : Address where
  https := false
  host := bytes "h"
  port := some (bytes "80x")
  path := []
  host_plain := by decide
  port_plain := by decide
  path_rooted := fun _ h => by cases h

/-- A port with a letter is accepted. -/
theorem port_junk : junkAddress.url = bytes "http://h:80x" ∧
    (parseUrl false (Parsed.init.given junkAddress.url)).isValidUrl = true ∧
    ¬ PortDecided false Parsed.init junkAddress := by
  have haccepted : (parseUrl false (Parsed.init.given junkAddress.url)).isValidUrl = true := by
    decide +kernel
  refine ⟨by decide +kernel, haccepted, fun h => ?_⟩
  have hport := h.accepted_iff.mp haccepted (bytes "80x") rfl
  revert hport
  decide +kernel

end HkuUtils.Url
