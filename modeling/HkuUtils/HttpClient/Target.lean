import HkuUtils.HttpClient.Url

set_option relaxedAutoImplicit false
set_option autoImplicit false

/-!
# The target of a request

The function `_buildURI` puts a target together from the base path of the client, the path of the
request and its parameters. A loop escapes the path segment by segment; what stands before and after
it decides on the separators.

## Main definitions

* `HkuUtils.Url.buildURI`, `writeSegments`, `writeParams` — the function, its loops.
* `HkuUtils.Url.pathPart`, `readQuery` — how a target is read.
* `HkuUtils.Url.Faithful` — the target is read as what it was built from.
* `HkuUtils.Url.OneSlash` — when the separators come out right.

## Main results

* `HkuUtils.Url.writeSegments_eq` — the loop escapes every segment.
* `HkuUtils.Url.readQuery_append` — the parameters are read back.
* `HkuUtils.Url.pathText_eq` — the path of the target, with the slashes that are too many.
* `HkuUtils.Url.buildURI_faithful`, `slash_doubled` — when the target is faithful.

## Design

The parameters are a `std::map`, here the list of its entries in their order. A target is read as
the text up to the first `?`, split at `/`, and the text after it, split at `&` and `=`. Of two
paths one after the other, the slash that ends the first or begins the second is the one between
them.
-/

namespace HkuUtils.Url

/-! ## The function -/

/-- The loop of `_buildURI` over the path. -/
def writeSegments (path : List UInt8) : List UInt8 :=
  match path with
  | [] => []
  | c :: rest =>
    match find [47] (c :: rest) with
    | none => urlEscape (c :: rest)
    | some slash =>
      (if 0 < slash then urlEscape ((c :: rest).take slash) else []) ++
        47 :: writeSegments (rest.drop slash)
termination_by path.length
decreasing_by simp only [List.length_drop, List.length_cons]; omega

/-- The loop of `_buildURI` over the parameters. -/
def writeParams (first : Bool) : List (List UInt8 × List UInt8) → List UInt8
  | [] => []
  | (key, value) :: params =>
    (if first then 63 else 38) :: (urlEscape key ++ 61 :: urlEscape value) ++
      writeParams false params

/-- `need_separator`. -/
def needSeparator (basePath path : List UInt8) : Bool :=
  if basePath ≠ [] ∧ basePath ≠ [47] then
    basePath.getLast? ≠ some 47 && path.head? ≠ some 47
  else path.head? ≠ some 47

/-- `_buildURI`. -/
def buildURI (basePath path : List UInt8) (params : List (List UInt8 × List UInt8)) :
    List UInt8 :=
  (if basePath ≠ [] ∧ basePath ≠ [47] then basePath else []) ++
    (if path ≠ [] then
      (if needSeparator basePath path then [47] else []) ++ writeSegments path ++
        (if path.getLast? = some 47 then [47] else [])
    else []) ++ writeParams true params

/-! ## How a target is read -/

/-- The path of a target. -/
def pathPart (target : List UInt8) : List UInt8 := target.takeWhile (· != 63)

/-- A parameter of a query. -/
def readParam (t : List UInt8) : Option (List UInt8 × List UInt8) :=
  match t.splitOn 61 with
  | [key, value] => some (urlUnescape key, urlUnescape value)
  | _ => none

/-- The parameters of a target. -/
def readQuery (target : List UInt8) : Option (List (List UInt8 × List UInt8)) :=
  match find [63] target with
  | none => some []
  | some pos => ((target.drop (pos + 1)).splitOn 38).mapM readParam

/-- A path without the slash at its end. -/
def withoutLast (path : List UInt8) : List UInt8 :=
  if path.getLast? = some 47 then path.dropLast else path

/-- A path without the slash at its front. -/
def withoutFirst (path : List UInt8) : List UInt8 :=
  if path.head? = some 47 then path.tail else path

/-- The segments of the base path, of which the slash at the end is taken off if a path follows. -/
def baseSegments (basePath path : List UInt8) : List (List UInt8) :=
  if path = [] then basePath.splitOn 47 else (withoutLast basePath).splitOn 47

/-- The segments of the path. -/
def segments (path : List UInt8) : List (List UInt8) :=
  if path = [] then [] else (withoutFirst path).splitOn 47

/-- **The target is faithful**: it begins with a slash; its segments are those of the base path, and
then those of the path, escaped; its query has the parameters. -/
structure Faithful (basePath path : List UInt8) (params : List (List UInt8 × List UInt8)) :
    Prop where
  rooted : (buildURI basePath path params).head? = some 47
  path_eq : ∃ added, (pathPart (buildURI basePath path params)).splitOn 47 =
    baseSegments basePath path ++ added ∧ added.map urlUnescape = segments path
  query_eq : readQuery (buildURI basePath path params) = some params

/-- The separators come out right: there is a path that does not end with a slash, and does not
begin with one if the base path ends with one; or there is only a base path. The base path `/` is
dropped. -/
def OneSlash (basePath path : List UInt8) : Prop :=
  if path = [] then basePath ≠ [] ∧ basePath ≠ [47]
  else path.getLast? ≠ some 47 ∧
    (path.head? = some 47 → basePath.getLast? = some 47 → basePath = [47])

instance (basePath path : List UInt8) : Decidable (OneSlash basePath path) :=
  inferInstanceAs (Decidable (ite _ _ _))

/-! ## Texts that are split -/

/-- What a part of a text has, the text has. -/
lemma mem_of_mem_splitOn {c x : UInt8} {part s : List UInt8} (hpart : part ∈ s.splitOn x)
    (hc : c ∈ part) : c ∈ s := by
  induction s generalizing part with
  | nil =>
    rw [List.splitOn_nil, List.mem_singleton] at hpart
    rwa [hpart] at hc
  | cons d s ih =>
    rw [List.splitOn_cons_eq_if_modifyHead] at hpart
    split at hpart
    · rcases List.mem_cons.mp hpart with rfl | hpart
      · cases hc
      · exact List.mem_cons_of_mem d (ih hpart hc)
    · obtain ⟨q, qs, hsplit⟩ := List.exists_cons_of_ne_nil (List.splitOn_ne_nil x s)
      rw [hsplit] at ih hpart
      rcases List.mem_cons.mp hpart with rfl | hpart
      · rcases List.mem_cons.mp hc with rfl | hc
        · exact List.mem_cons_self
        · exact List.mem_cons_of_mem d (ih List.mem_cons_self hc)
      · exact List.mem_cons_of_mem d (ih (List.mem_cons_of_mem q hpart) hc)

/-- What a text has, one of its parts has.

**Proof sketch.** By induction on the text; the separator is another character, so the one in
question stays in a part. -/
lemma exists_mem_splitOn {c x : UInt8} (hne : c ≠ x) {s : List UInt8} (hc : c ∈ s) :
    ∃ part ∈ s.splitOn x, c ∈ part := by
  induction s with
  | nil => cases hc
  | cons d s ih =>
    rw [List.splitOn_cons_eq_if_modifyHead]
    obtain ⟨q, qs, hsplit⟩ := List.exists_cons_of_ne_nil (List.splitOn_ne_nil x s)
    split
    · rename_i hd
      rcases List.mem_cons.mp hc with rfl | hc
      · exact absurd (beq_iff_eq.mp hd) hne
      · obtain ⟨part, hpart, hmem⟩ := ih hc
        exact ⟨part, List.mem_cons_of_mem _ hpart, hmem⟩
    · rw [hsplit] at ih ⊢
      rcases List.mem_cons.mp hc with rfl | hc
      · exact ⟨c :: q, List.mem_cons_self, List.mem_cons_self⟩
      · obtain ⟨part, hpart, hmem⟩ := ih hc
        rcases List.mem_cons.mp hpart with rfl | hpart
        · exact ⟨d :: part, List.mem_cons_self, List.mem_cons_of_mem d hmem⟩
        · exact ⟨part, List.mem_cons_of_mem _ hpart, hmem⟩

/-! ## The loops -/

/-- The characters of an escaped text: those that need no escape, hexadecimal digits, which are
among them, and the percent sign. -/
lemma Escaped.mem {t : List UInt8} (ht : Escaped t) {c : UInt8} (hc : c ∈ t) :
    isUnambiguous c = true ∨ c = 37 := by
  have hhex : ∀ {c : UInt8}, isHex c = true → isUnambiguous c = true := fun {c} => by
    refine CString.forall_byte (P := fun c => isHex c = true → isUnambiguous c = true) ?_ c
    decide +kernel
  induction ht with
  | nil => cases hc
  | unreserved d t hd _ ih =>
    rcases List.mem_cons.mp hc with rfl | hc
    · exact Or.inl hd
    · exact ih hc
  | triplet h l t hh hl _ ih =>
    simp only [List.mem_cons] at hc
    rcases hc with rfl | rfl | rfl | hc
    · exact Or.inr rfl
    · exact Or.inl (hhex hh)
    · exact Or.inl (hhex hl)
    · exact ih hc

/-- A separator does not occur in an escaped text. -/
lemma not_mem_urlEscape {c : UInt8} (hc : isUnambiguous c = false) (hpercent : c ≠ 37)
    (s : List UInt8) : c ∉ urlEscape s := by
  intro hmem
  rcases (escaped_urlEscape s).mem hmem with h | h
  · rw [hc] at h
    cases h
  · exact hpercent h

/-- **The loop escapes every segment.**

**Proof sketch.** By induction on the length of the path. The loop escapes up to the next slash and
goes on behind it, as the text is split there; an empty segment is escaped to nothing. -/
lemma writeSegments_eq (path : List UInt8) :
    writeSegments path = [47].intercalate ((path.splitOn 47).map urlEscape) := by
  induction hn : path.length using Nat.strong_induction_on generalizing path with
  | _ n ih =>
    cases path with
    | nil => rw [writeSegments]; rfl
    | cons c rest =>
      rw [writeSegments]
      by_cases hslash : 47 ∈ c :: rest
      · obtain ⟨s, t, heq, hs⟩ := List.eq_append_cons_of_mem hslash
        have hdrop : rest.drop s.length = t := by
          have hcons : (c :: rest).drop (s.length + 1) = t := by rw [heq]; simp
          exact hcons
        have htake : (c :: rest).take s.length = s := by rw [heq, List.take_left]
        have hlength : t.length < n := by rw [← hn, heq]; simp; omega
        have hempty : (if 0 < s.length then urlEscape s else []) = urlEscape s := by
          cases s <;> rfl
        obtain ⟨q, qs, hsplit⟩ := List.exists_cons_of_ne_nil (List.splitOn_ne_nil 47 t)
        rw [show find [47] (c :: rest) = some s.length from heq ▸ find_append hs t]
        simp only [htake, hdrop, hempty]
        rw [ih t.length hlength t rfl, heq, List.splitOn_append_cons_self_of_not_mem hs,
          List.map_cons, hsplit, List.map_cons, List.intercalate_cons_cons, List.append_assoc,
          List.singleton_append]
      · rw [find_eq_none hslash, List.splitOn_eq_singleton hslash, List.map_singleton,
          List.intercalate_singleton]

/-- Printable characters of ASCII. -/
def Printable (t : List UInt8) : Prop := ∀ c ∈ t, 32 ≤ c ∧ c ≤ 126

instance (t : List UInt8) : Decidable (Printable t) := inferInstanceAs (Decidable (∀ _ ∈ _, _))

/-- Printable texts come back. -/
lemma urlUnescape_of_printable {t : List UInt8} (ht : Printable t) :
    urlUnescape (urlEscape t) = t := by
  have hzero : 0 ∉ t := fun h => absurd (ht 0 h).1 (by decide)
  have hbound : (126 : UInt8) < 128 := by decide
  have hself : ∀ c ∈ t, unescaped c = c := fun c hc =>
    (unescaped_eq_self_iff c).mpr (Or.inl (UInt8.lt_of_le_of_lt (ht c hc).2 hbound))
  rw [urlUnescape_urlEscape hzero, List.map_congr_left hself, List.map_id']

/-- A parameter as it is written. -/
def writeParam (param : List UInt8 × List UInt8) : List UInt8 :=
  urlEscape param.1 ++ 61 :: urlEscape param.2

/-- The loop over the parameters puts `&` between them. -/
lemma writeParams_eq (first : Bool) (param : List UInt8 × List UInt8)
    (params : List (List UInt8 × List UInt8)) : writeParams first (param :: params) =
      (if first then 63 else 38) :: [38].intercalate ((param :: params).map writeParam) := by
  induction params generalizing first param with
  | nil => simp [writeParams, writeParam]
  | cons param' params ih =>
    rw [writeParams, ih false param', List.map_cons, List.map_cons, List.map_cons,
      List.intercalate_cons_cons]
    simp [writeParam]

/-- A parameter is read back. -/
lemma readParam_writeParam {param : List UInt8 × List UInt8} (hkey : Printable param.1)
    (hvalue : Printable param.2) : readParam (writeParam param) = some param := by
  have hnot : ∀ t, 61 ∉ urlEscape t := not_mem_urlEscape (by decide) (by decide)
  rw [readParam, writeParam, List.splitOn_append_cons_self_of_not_mem (hnot _),
    List.splitOn_eq_singleton (hnot _)]
  simp only [urlUnescape_of_printable hkey, urlUnescape_of_printable hvalue]

/-- A parameter has neither `?` nor `&`. -/
lemma not_mem_writeParam {c : UInt8} (hc : isUnambiguous c = false) (hpercent : c ≠ 37)
    (hequals : c ≠ 61) (param : List UInt8 × List UInt8) : c ∉ writeParam param := by
  simp [writeParam, not_mem_urlEscape hc hpercent, hequals]

/-- **The parameters are read back**, behind a path that has no `?`.

**Proof sketch.** The path has no `?`, so the parameters begin at the first one. An escaped key or
value has neither `&` nor `=`, so the parameters and their parts are found again and read back. -/
lemma readQuery_append {path : List UInt8} (hpath : 63 ∉ path)
    {params : List (List UInt8 × List UInt8)}
    (hparams : ∀ p ∈ params, Printable p.1 ∧ Printable p.2) :
    readQuery (path ++ writeParams true params) = some params := by
  cases params with
  | nil => simp [readQuery, writeParams, find_eq_none hpath]
  | cons param params =>
    have hsplit : ([38].intercalate ((param :: params).map writeParam)).splitOn 38 =
        (param :: params).map writeParam := by
      refine List.splitOn_intercalate 38 (fun t ht => ?_) (by simp)
      obtain ⟨p, -, rfl⟩ := List.mem_map.mp ht
      exact not_mem_writeParam (by decide) (by decide) (by decide) p
    have hread : ∀ ps : List (List UInt8 × List UInt8),
        (∀ p ∈ ps, Printable p.1 ∧ Printable p.2) →
          (ps.map writeParam).mapM readParam = some ps := by
      intro ps hps
      induction ps with
      | nil => rfl
      | cons p ps ih =>
        obtain ⟨hkey, hvalue⟩ := hps p List.mem_cons_self
        rw [List.map_cons, List.mapM_cons, readParam_writeParam hkey hvalue,
          ih fun q hq => hps q (List.mem_cons_of_mem p hq)]
        rfl
    have hdrop : (path ++ 63 :: [38].intercalate ((param :: params).map writeParam)).drop
        (path.length + 1) = [38].intercalate ((param :: params).map writeParam) := by simp
    rw [writeParams_eq, readQuery, if_pos rfl, find_append hpath]
    simp only [hdrop, hsplit]
    exact hread _ hparams

/-! ## The path of a target -/

/-- The parameters are written behind the path. -/
lemma buildURI_eq (basePath path : List UInt8) (params : List (List UInt8 × List UInt8)) :
    buildURI basePath path params = buildURI basePath path [] ++ writeParams true params := by
  simp [buildURI, writeParams]

/-- The last character put back. -/
lemma withoutLast_eq {path : List UInt8} (h : path.getLast? = some 47) :
    withoutLast path ++ [47] = path := by
  rw [withoutLast, if_pos h]
  exact List.dropLast_append_getLast? 47 h

/-- The segments of the path as they are written. -/
def escapedSegments (path : List UInt8) : List (List UInt8) :=
  ((withoutFirst path).splitOn 47).map urlEscape

/-- The base path ends with a slash and the path begins with one; the base path `/` is dropped. -/
def meets (basePath path : List UInt8) : Bool :=
  path.head? == some 47 && basePath.getLast? == some 47 && basePath != [47]

/-- What begins with a slash still does. -/
lemma head_withoutLast {path : List UInt8} (hroot : ∀ c ∈ path.head?, c = 47) :
    ∀ c ∈ (withoutLast path).head?, c = 47 := by
  have hprefix : withoutLast path <+: path := by
    rw [withoutLast]
    split
    · exact List.dropLast_prefix path
    · exact List.prefix_refl path
  intro c hc
  obtain ⟨rest, hrest⟩ := List.head?_eq_some_iff.mp hc
  obtain ⟨t, ht⟩ := hprefix
  exact hroot c (by rw [← ht, hrest]; rfl)

/-- The base path `/` is dropped. -/
lemma withoutLast_of_not {basePath : List UInt8} (h : ¬ (basePath ≠ [] ∧ basePath ≠ [47])) :
    withoutLast basePath = [] := by
  by_cases hnil : basePath = []
  · rw [hnil]
    rfl
  · rw [not_not.mp fun hne => h ⟨hnil, hne⟩]
    rfl

/-- A path that begins with a slash is put behind the base path.

**Proof sketch.** By cases on whether there is a base path and whether it ends with a slash. If it
does, two slashes meet, and this is the one that is too many. -/
lemma basePath_of_first (basePath : List UInt8) {path : List UInt8}
    (hfirst : path.head? = some 47) :
    (if basePath ≠ [] ∧ basePath ≠ [47] then basePath else []) ++
        (if needSeparator basePath path then [47] else []) =
      withoutLast basePath ++ (if meets basePath path then [47] else []) := by
  have hsep : needSeparator basePath path = false := by simp [needSeparator, hfirst]
  rw [hsep, if_neg Bool.false_ne_true, List.append_nil]
  by_cases hbased : basePath ≠ [] ∧ basePath ≠ [47]
  · rw [if_pos hbased]
    by_cases hlast : basePath.getLast? = some 47
    · rw [show meets basePath path = true by simp [meets, hfirst, hlast, hbased.2], if_pos rfl,
        withoutLast_eq hlast]
    · rw [show meets basePath path = false by simp [meets, hlast], if_neg Bool.false_ne_true,
        withoutLast, if_neg hlast, List.append_nil]
  · have hmeets : meets basePath path = false := by
      rcases not_and_or.mp hbased with h | h
      · simp [meets, not_not.mp h]
      · simp [meets, not_not.mp h]
    rw [if_neg hbased, hmeets, withoutLast_of_not hbased]
    rfl

/-- Before another path there is a slash: that of the base path, or a separator. -/
lemma basePath_of_not_first (basePath : List UInt8) {path : List UInt8}
    (hfirst : path.head? ≠ some 47) :
    (if basePath ≠ [] ∧ basePath ≠ [47] then basePath else []) ++
        (if needSeparator basePath path then [47] else []) = withoutLast basePath ++ [47] := by
  by_cases hbased : basePath ≠ [] ∧ basePath ≠ [47]
  · rw [if_pos hbased]
    by_cases hlast : basePath.getLast? = some 47
    · rw [show needSeparator basePath path = false by simp [needSeparator, hbased, hlast],
        withoutLast_eq hlast, if_neg Bool.false_ne_true, List.append_nil]
    · rw [show needSeparator basePath path = true by simp [needSeparator, hbased, hlast, hfirst],
        withoutLast, if_neg hlast, if_pos rfl]
  · have hsep : needSeparator basePath path = true := by
      rw [needSeparator, if_neg hbased]
      exact decide_eq_true hfirst
    rw [if_neg hbased, hsep, withoutLast_of_not hbased]
    rfl

/-- **The path of a target**: the base path and the path with a slash between them, and with the
slashes that are too many.

**Proof sketch.** By cases on whether the path begins with a slash. If it does, its first segment
is empty, and this makes the slash behind the base path; otherwise the source puts one there. -/
lemma pathText_eq (basePath : List UInt8) {path : List UInt8} (hpath : path ≠ []) :
    buildURI basePath path [] =
      withoutLast basePath ++ (if meets basePath path then [47] else []) ++
        47 :: ([47].intercalate (escapedSegments path) ++
          (if path.getLast? = some 47 then [47] else [])) := by
  have hbuild : buildURI basePath path [] =
      (if basePath ≠ [] ∧ basePath ≠ [47] then basePath else []) ++
        (if needSeparator basePath path then [47] else []) ++
          (writeSegments path ++ (if path.getLast? = some 47 then [47] else [])) := by
    simp only [buildURI, if_pos hpath, writeParams, List.append_nil, List.append_assoc]
  rw [hbuild, writeSegments_eq]
  by_cases hfirst : path.head? = some 47
  · obtain ⟨rest, rfl⟩ := List.head?_eq_some_iff.mp hfirst
    obtain ⟨q, qs, hsplit⟩ := List.exists_cons_of_ne_nil (List.splitOn_ne_nil 47 rest)
    have hsegments : escapedSegments (47 :: rest) = urlEscape q :: qs.map urlEscape := by
      rw [escapedSegments, withoutFirst, if_pos hfirst, List.tail_cons, hsplit, List.map_cons]
    have hcons : (47 :: rest).splitOn 47 = [] :: q :: qs := by
      rw [List.splitOn_cons_eq_if_modifyHead, if_pos (beq_self_eq_true _), hsplit]
    have hempty : urlEscape [] = [] := rfl
    rw [basePath_of_first basePath hfirst, hsegments, hcons, List.map_cons, List.map_cons,
      List.intercalate_cons_cons, hempty]
    rfl
  · have hmeets : meets basePath path = false := by simp [meets, hfirst]
    rw [basePath_of_not_first basePath hfirst, hmeets, escapedSegments, withoutFirst,
      if_neg hfirst]
    simp

/-- The segments of a target, with the empty ones that the slashes too many make.

**Proof sketch.** Base path, segments and what is at the end are split each by themselves; an
escaped segment has no slash. -/
lemma splitOn_pathText (basePath : List UInt8) {path : List UInt8} (hpath : path ≠ []) :
    (buildURI basePath path []).splitOn 47 =
      (withoutLast basePath).splitOn 47 ++ ((if meets basePath path then [[]] else []) ++
        (escapedSegments path ++ (if path.getLast? = some 47 then [[]] else []))) := by
  have hescaped : ([47].intercalate (escapedSegments path)).splitOn 47 = escapedSegments path := by
    refine List.splitOn_intercalate 47 (fun t ht => ?_) (by simp [escapedSegments])
    obtain ⟨u, -, rfl⟩ := List.mem_map.mp ht
    exact not_mem_urlEscape (by decide) (by decide) u
  have hend : ([47].intercalate (escapedSegments path) ++
      (if path.getLast? = some 47 then [47] else [])).splitOn 47 =
        escapedSegments path ++ (if path.getLast? = some 47 then [[]] else []) := by
    split
    · rw [List.splitOn_append_cons_self, hescaped]
      rfl
    · rw [List.append_nil, List.append_nil, hescaped]
  have hfront : (withoutLast basePath ++ (if meets basePath path then [47] else [])).splitOn 47 =
      (withoutLast basePath).splitOn 47 ++ (if meets basePath path then [[]] else []) := by
    split
    · rw [List.splitOn_append_cons_self]
      rfl
    · rw [List.append_nil, List.append_nil]
  rw [pathText_eq basePath hpath, List.splitOn_append_cons_self, hfront, hend, List.append_assoc]

/-- The path has a `?` only from the base path.

**Proof sketch.** The segments are escaped, and a question mark is escaped in them; nothing else
than slashes is added. -/
lemma question_not_mem {basePath : List UInt8} (hbase : 63 ∉ basePath) (path : List UInt8) :
    63 ∉ buildURI basePath path [] := by
  have hsegments : 63 ∉ writeSegments path := by
    rw [writeSegments_eq]
    intro hmem
    obtain ⟨part, hpart, hmem⟩ := exists_mem_splitOn (x := 47) (by decide) hmem
    rw [List.splitOn_intercalate 47 (fun t ht => ?_) (by simp)] at hpart
    · obtain ⟨t, -, rfl⟩ := List.mem_map.mp hpart
      exact not_mem_urlEscape (by decide) (by decide) t hmem
    · obtain ⟨u, -, rfl⟩ := List.mem_map.mp ht
      exact not_mem_urlEscape (by decide) (by decide) u
  simp only [buildURI, writeParams, List.append_nil, List.mem_append, not_or]
  refine ⟨?_, ?_⟩
  · split
    · exact hbase
    · exact List.not_mem_nil
  · split
    · refine List.mem_append.not.mpr (not_or.mpr ⟨List.mem_append.not.mpr (not_or.mpr
        ⟨?_, hsegments⟩), ?_⟩)
      · split <;> simp
      · split <;> simp
    · exact List.not_mem_nil

/-- The path of a target is what stands before the parameters. -/
lemma pathPart_buildURI {basePath : List UInt8} (hbase : 63 ∉ basePath) (path : List UInt8)
    (params : List (List UInt8 × List UInt8)) :
    pathPart (buildURI basePath path params) = buildURI basePath path [] := by
  have hnot : ∀ c ∈ buildURI basePath path [], (c != 63) = true := fun c hc => by
    rw [bne_iff_ne]
    rintro rfl
    exact question_not_mem hbase path hc
  rw [buildURI_eq, pathPart, List.takeWhile_append_of_pos hnot]
  cases params with
  | nil => simp [writeParams]
  | cons param params => simp [writeParams]

/-! ## When the target is faithful -/

/-- A `?` of the base path ends the path of the target.

**Proof sketch.** The parts of the base path are parts of the path of the target, and this ends
before the first question mark. -/
lemma question_not_mem_of_faithful {basePath path : List UInt8}
    {params : List (List UInt8 × List UInt8)} (h : Faithful basePath path params) :
    63 ∉ basePath := by
  obtain ⟨added, hsplit, -⟩ := h.path_eq
  have hpart : ∀ t : List UInt8, t.splitOn 47 ⊆ baseSegments basePath path → 63 ∉ t := by
    intro t ht hmem
    obtain ⟨part, hpart, hmem⟩ := exists_mem_splitOn (x := 47) (by decide) hmem
    have hin : part ∈ (pathPart (buildURI basePath path params)).splitOn 47 := by
      rw [hsplit]
      exact List.mem_append_left _ (ht hpart)
    have htake := List.mem_takeWhile_imp (mem_of_mem_splitOn hin hmem)
    simp at htake
  by_cases hpath : path = []
  · exact hpart basePath (by rw [baseSegments, if_pos hpath]; exact List.Subset.refl _)
  · have hlast := hpart (withoutLast basePath)
      (by rw [baseSegments, if_neg hpath]; exact List.Subset.refl _)
    intro hmem
    by_cases hslash : basePath.getLast? = some 47
    · rw [← withoutLast_eq hslash, List.mem_append] at hmem
      exact hmem.elim hlast (by decide)
    · rw [withoutLast, if_neg hslash] at hlast
      exact hlast hmem

/-- Without a path: the target has the base path, unless that is dropped.

**Proof sketch.** Without a path the target is the base path, or only the parameters if the base
path is dropped, and these do not begin with a slash. -/
lemma faithful_nil_iff {basePath : List UInt8} (hroot : ∀ c ∈ basePath.head?, c = 47)
    (hbase : 63 ∉ basePath) {params : List (List UInt8 × List UInt8)}
    (hparams : ∀ p ∈ params, Printable p.1 ∧ Printable p.2) :
    Faithful basePath [] params ↔ basePath ≠ [] ∧ basePath ≠ [47] := by
  have hbuild : buildURI basePath [] [] =
      if basePath ≠ [] ∧ basePath ≠ [47] then basePath else [] := by
    simp [buildURI, writeParams]
  constructor
  · intro h
    by_contra hdropped
    have hrooted := h.rooted
    rw [buildURI_eq, hbuild, if_neg hdropped, List.nil_append] at hrooted
    cases params with
    | nil => cases hrooted
    | cons param params => simp [writeParams] at hrooted
  · intro hbased
    rw [if_pos hbased] at hbuild
    refine ⟨?_, ⟨[], ?_, rfl⟩, ?_⟩
    · obtain ⟨c, rest, rfl⟩ := List.exists_cons_of_ne_nil hbased.1
      rw [buildURI_eq, hbuild, List.cons_append, List.head?_cons, hroot c rfl]
    · rw [pathPart_buildURI hbase, hbuild, baseSegments, if_pos rfl, List.append_nil]
    · rw [buildURI_eq, hbuild]
      exact readQuery_append hbase hparams

/-- The segments of a printable path come back. -/
lemma map_escapedSegments {path : List UInt8} (hpath : path ≠ []) (hprint : Printable path) :
    (escapedSegments path).map urlUnescape = segments path := by
  have hfirst : Printable (withoutFirst path) := by
    intro c hc
    refine hprint c ?_
    rw [withoutFirst] at hc
    split at hc
    · exact List.mem_of_mem_tail hc
    · exact hc
  rw [segments, if_neg hpath, escapedSegments, List.map_map]
  refine (List.map_congr_left fun t ht => ?_).trans (List.map_id _)
  exact urlUnescape_of_printable fun c hc => hfirst c (mem_of_mem_splitOn ht hc)

/-- With a path: no slash may be too many.

**Proof sketch.** Split at the slashes, the path of the target is that of the base, the segments of
the path, and an empty segment for each slash that is too many; these are counted. -/
lemma faithful_cons_iff {basePath : List UInt8} (hroot : ∀ c ∈ basePath.head?, c = 47)
    (hbase : 63 ∉ basePath) {path : List UInt8} (hpath : path ≠ []) (hprint : Printable path)
    {params : List (List UInt8 × List UInt8)}
    (hparams : ∀ p ∈ params, Printable p.1 ∧ Printable p.2) :
    Faithful basePath path params ↔ path.getLast? ≠ some 47 ∧ meets basePath path = false := by
  have hsplit := splitOn_pathText basePath hpath
  constructor
  · intro h
    obtain ⟨added, hadded, hmap⟩ := h.path_eq
    have hcount : added.length = (escapedSegments path).length := by
      rw [← map_escapedSegments hpath hprint] at hmap
      simpa using congrArg List.length hmap
    -- the empty segments would be too many
    rw [pathPart_buildURI hbase, hsplit, baseSegments, if_neg hpath,
      List.append_right_inj] at hadded
    have hlength := congrArg List.length hadded
    rw [List.length_append, List.length_append, hcount] at hlength
    constructor
    · intro hlast
      rw [if_pos hlast] at hlength
      simp only [List.length_cons, List.length_nil] at hlength
      omega
    · by_contra hmeets
      rw [if_pos (by simpa using hmeets)] at hlength
      simp only [List.length_cons, List.length_nil] at hlength
      omega
  · rintro ⟨hlast, hmeets⟩
    rw [hmeets, if_neg Bool.false_ne_true, if_neg hlast, List.append_nil, List.nil_append] at hsplit
    refine ⟨?_, ⟨escapedSegments path, ?_, map_escapedSegments hpath hprint⟩, ?_⟩
    · have htext := pathText_eq basePath hpath
      rw [hmeets, if_neg Bool.false_ne_true, List.append_nil] at htext
      rw [buildURI_eq, htext, List.append_assoc]
      rcases hfront : withoutLast basePath with _ | ⟨c, front⟩
      · rfl
      · rw [List.cons_append, List.head?_cons]
        exact congrArg some (head_withoutLast hroot c (by rw [hfront]; rfl))
    · rw [pathPart_buildURI hbase, hsplit, baseSegments, if_neg hpath]
    · rw [buildURI_eq]
      exact readQuery_append (question_not_mem hbase path) hparams

/-- **When the target is faithful**: exactly if the separators come out right and the base path has
no `?`.

**Proof sketch.** A slash too many makes an empty segment, so that the segments are counted. The
base path is not escaped: its `?` would end the path. The parameters come back in any other case. -/
theorem buildURI_faithful {basePath path : List UInt8}
    {params : List (List UInt8 × List UInt8)} (hroot : ∀ c ∈ basePath.head?, c = 47)
    (hprint : Printable path) (hparams : ∀ p ∈ params, Printable p.1 ∧ Printable p.2) :
    Faithful basePath path params ↔ OneSlash basePath path ∧ 63 ∉ basePath := by
  by_cases hbase : 63 ∈ basePath
  · exact iff_of_false (fun h => question_not_mem_of_faithful h hbase) fun h => h.2 hbase
  · rw [and_iff_left hbase, OneSlash]
    by_cases hpath : path = []
    · rw [if_pos hpath, hpath]
      exact faithful_nil_iff hroot hbase hparams
    · rw [if_neg hpath, faithful_cons_iff hroot hbase hpath hprint hparams]
      refine and_congr_right fun _ => ?_
      simp only [meets, Bool.and_eq_false_iff, beq_eq_false_iff_ne, bne_eq_false_iff_eq]
      tauto

/-- The parameter `a b` of a path below `/api`. -/
theorem buildURI_faithful_api :
    Faithful (bytes "/api") (bytes "users") [(bytes "q", bytes "a b&c")] :=
  (buildURI_faithful (by decide +kernel) (by decide +kernel) (by decide +kernel)).mpr
    (by decide +kernel)

/-- The slash at the end of a path is written twice. -/
theorem slash_doubled : buildURI (bytes "/api") (bytes "users/") [] = bytes "/api/users//" ∧
    ¬ Faithful (bytes "/api") (bytes "users/") [] := by
  refine ⟨(pathText_eq _ (by decide +kernel)).trans (by decide +kernel), fun h => ?_⟩
  have hslash := (faithful_cons_iff (by decide +kernel) (by decide +kernel) (by decide +kernel)
    (by decide +kernel) (List.forall_mem_nil _)).mp h
  exact hslash.1 (by decide +kernel)

end HkuUtils.Url
