import HkuUtils.ResultSet.Model
import HkuUtils.Sql.Grammar

set_option relaxedAutoImplicit false
set_option autoImplicit false

/-!
# The condition and the ordering of a query

What the constructor of a result set makes of a text that consists of a condition and an optional
`ORDER BY` clause. It cuts the text at the last place where the letters `ORDER` occur, so that the
two parts are the condition and the clause only if this is where the clause begins, and it uses both
parts as they are, also if one of them is empty.

## Main definitions

* `HkuUtils.ResultSet.IsOrderBy`, `Query` — a clause, and a text of a condition and a clause.
* `HkuUtils.ResultSet.SplitsCorrectly` — the parts, and the statements made from them.
* `HkuUtils.ResultSet.countTokens`, `pageTokens` — the tokens of the statements.
* `HkuUtils.ResultSet.TakenApart` — the condition and the ordering get into the statements.

## Main results

* `HkuUtils.ResultSet.construct_of_last` — the constructor where the clause has the last `ORDER`.
* `HkuUtils.ResultSet.spells_of_takenApart` — the parts of a set with and without a clause.
* `HkuUtils.ResultSet.splitsCorrectly_iff` — when a text is taken apart correctly.

## Design

Texts are compared by their tokens. The text is what is left of the argument after `trim`. It does
not end inside of a quoted text or of a comment between signs, but it may end in a comment.
-/

namespace HkuUtils.ResultSet

open Search Sql

/-! ## Queries -/

/-- An `ORDER BY` clause. -/
def IsOrderBy (clause : List UInt8) : Prop :=
  ∃ kw d rest t list, clause = kw ++ d :: rest ∧ toUpper kw = text "ORDER" ∧
    isWordChar d = false ∧ tokens (d :: rest) = t :: list ∧ isKeyword "BY" t = true ∧ list ≠ []

/-- The lexer is in the middle of a comment. -/
def InComment : Mode → Prop
  | .lineComment | .blockComment | .star => True
  | _ => False

instance : DecidablePred InComment
  | .lineComment | .blockComment | .star => isTrue trivial
  | .start | .word _ | .quoted _ _ | .quoteSeen _ _ | .dash | .slash => isFalse id

/-- The text consists of a condition and an `ORDER BY` clause, or of a condition; if there is no
clause, the letters of `ORDER` occur in the condition only outside of comments. -/
structure Query (s cond clause : List UInt8) : Prop where
  eq_append : s = cond ++ clause
  not_broken : .broken ∉ tokens s
  isOrderBy : clause = [] ∨ IsOrderBy clause
  breaks : ∀ c ∈ clause.head?, Breaks (after cond) c
  letters : clause = [] → ∀ a b, cond = a ++ b → text "ORDER" <+: toUpper b → ¬ InComment (after a)

/-! ## The intended parts -/

/-- The condition, or `1=1`. -/
def intendedWhere (cond : List UInt8) : List Token :=
  if tokens cond = [] then tokens (text "1=1") else tokens cond

/-- The ordering by the clause and then by the id. -/
def intendedOrder (clause : List UInt8) : List Token :=
  if clause = [] then tokens (text "ORDER BY id") else tokens clause ++ tokens (text ", id ASC")

/-- **The result set has the condition and the ordering**, and its statements consist of them,
token by token. -/
structure SplitsCorrectly {R : Type} [Table R] (pageSize : ℕ) (set : SQLResultSet R)
    (cond clause : List UInt8) : Prop where
  where_eq : tokens set.whereText = intendedWhere cond
  inner_eq : tokens set.orderbyInner = intendedOrder clause
  outer_eq : tokens set.orderbyOuter = intendedOrder clause
  count_eq : tokens set.countStatement =
    tokens (text "select count(1) from ") ++ tokens (Table.tableName R) ++
      tokens (text " where ") ++ intendedWhere cond
  page_eq : ∀ page, tokens (set.pageText pageSize page) =
    tokens (text "id IN (SELECT id FROM ") ++ tokens (Table.tableName R) ++
      tokens (text " WHERE ") ++ intendedWhere cond ++ tokens (text " ") ++ intendedOrder clause ++
      tokens (text " LIMIT ") ++ [.word (Http.decimal pageSize)] ++ tokens (text " OFFSET ") ++
      [.word (Http.decimal (page * pageSize % 2 ^ 64))] ++ tokens (text ") ") ++
      intendedOrder clause

/-! ## Where the text is cut -/

section Cut

variable {R : Type} {sql cond clause : List UInt8}

/-- A clause begins with the letters of `ORDER`. -/
lemma IsOrderBy.prefix_toUpper (h : IsOrderBy clause) : text "ORDER" <+: toUpper clause := by
  obtain ⟨kw, d, rest, -, -, rfl, hkw, -⟩ := h
  rw [toUpper_append, hkw]
  exact List.prefix_append _ _

/-- The letter `O` is a character of a word and not a digit. -/
lemma letter_of_upper {c : UInt8} (h : upper c = 79) : isWordChar c = true ∧ c ≠ 49 := by
  revert h
  refine CString.forall_byte (P := fun c => upper c = 79 → isWordChar c = true ∧ c ≠ 49) ?_ c
  decide +kernel

/-- What begins with the letters of `ORDER` begins with a letter. -/
lemma exists_cons_of_prefix (h : text "ORDER" <+: toUpper clause) :
    ∃ c s, clause = c :: s ∧ isWordChar c = true ∧ c ≠ 49 := by
  cases clause with
  | nil => exact absurd h (by decide)
  | cons c s =>
    have hc : (79 : UInt8) = upper c := (List.cons_prefix_cons.mp h).1
    exact ⟨c, s, rfl, letter_of_upper hc.symm⟩

/-- **The constructor where the clause has the last `ORDER`.** -/
theorem construct_of_last (connect : Bool) (hs : trim sql = cond ++ clause)
    (hclause : text "ORDER" <+: toUpper clause)
    (hlast : ¬ text "ORDER" <:+: (toUpper clause).tail) :
    (construct connect sql : SQLResultSet R) =
      ⟨connect, [], cond, clause ++ text ", id ASC", clause ++ text ", id ASC", nullSize⟩ := by
  obtain ⟨c, s, rfl, -⟩ := exists_cons_of_prefix hclause
  have hne : trim sql ≠ [] := by simp [hs]
  have hpos : rfind (text "ORDER") (toUpper (trim sql)) = some cond.length := by
    refine (rfind_eq_some_iff (by decide)).mpr ⟨toUpper cond, _, ?_, ?_, hclause, hlast⟩
    · rw [hs, toUpper_append]
    · exact length_toUpper cond
  simp only [construct, if_neg hne, hpos]
  rw [hs, List.take_left, List.drop_left]

/-- If the letters of `ORDER` occur, the text is cut where they occur last. -/
lemma construct_of_some (connect : Bool) (hne : trim sql ≠ [])
    (hword : text "ORDER" <:+: toUpper (trim sql)) :
    ∃ a b, trim sql = a ++ b ∧ (construct connect sql : SQLResultSet R).whereText = a ∧
      text "ORDER" <+: toUpper b ∧ ¬ text "ORDER" <:+: (toUpper b).tail := by
  cases hpos : rfind (text "ORDER") (toUpper (trim sql)) with
  | none => exact absurd hword (rfind_eq_none_iff.mp hpos)
  | some pos =>
    obtain ⟨a, b, hab, rfl, hb, hlast⟩ := (rfind_eq_some_iff (by decide)).mp hpos
    have hdrop : toUpper ((trim sql).drop a.length) = b := by
      rw [toUpper, List.map_drop]
      change (toUpper (trim sql)).drop a.length = b
      rw [hab, List.drop_left]
    refine ⟨(trim sql).take a.length, (trim sql).drop a.length,
      (List.take_append_drop _ _).symm, ?_, ?_, ?_⟩
    · simp only [construct, if_neg hne, hpos]
    · rwa [hdrop]
    · rwa [hdrop]

/-- The text is cut at the beginning of the clause or inside of it.

**Proof sketch.** The text is cut at the last `ORDER`, and the clause begins with one, so the cut
is at its beginning or later. -/
lemma exists_cut (connect : Bool) (hs : trim sql = cond ++ clause)
    (hclause : text "ORDER" <+: toUpper clause) :
    ∃ w, w <+: clause ∧ (construct connect sql : SQLResultSet R).whereText = cond ++ w ∧
      (w = [] → ¬ text "ORDER" <:+: (toUpper clause).tail) := by
  have hne : trim sql ≠ [] := by
    obtain ⟨c, s, rfl, -⟩ := exists_cons_of_prefix hclause
    simp [hs]
  have hword : text "ORDER" <:+: toUpper (trim sql) := by
    rw [hs, toUpper_append]
    exact List.infix_append_of_infix_right hclause.isInfix
  obtain ⟨a, b, hab, hwhere, -, hlast⟩ := construct_of_some (R := R) connect hne hword
  rcases List.append_eq_append_iff.mp (hs.symm.trans hab) with ⟨w, rfl, rfl⟩ | ⟨w, rfl, rfl⟩
  · refine ⟨w, List.prefix_append _ _, hwhere, ?_⟩
    rintro rfl
    exact hlast
  · cases w with
    | nil =>
      refine ⟨[], List.nil_prefix, by simpa using hwhere, fun _ => ?_⟩
      simpa using hlast
    | cons d w =>
      refine absurd ?_ hlast
      rw [List.cons_append, toUpper, List.map_cons, List.tail_cons, List.map_append]
      exact List.infix_append_of_infix_right hclause.isInfix

end Cut

/-! ## The tokens of the parts -/

section Parts

variable {cond clause : List UInt8}

/-- There is a condition. -/
lemma intendedWhere_ne_nil (cond : List UInt8) : intendedWhere cond ≠ [] := by
  rw [intendedWhere]
  split
  · decide
  · assumption

/-- A condition that is not broken remains so. -/
lemma broken_not_mem_intendedWhere (h : .broken ∉ tokens cond) :
    .broken ∉ intendedWhere cond := by
  rw [intendedWhere]
  split
  · decide
  · exact h

/-- More than the condition is not the condition. -/
lemma intendedWhere_ne_append {c : UInt8} (hc : isWordChar c = true) (hone : c ≠ 49)
    (w : List UInt8) : tokens cond ++ tokens (c :: w) ≠ intendedWhere cond := by
  intro h
  obtain ⟨v, ts, hword⟩ := exists_tokens_word hc w
  rw [hword, intendedWhere] at h
  split at h
  next hnil =>
    have hfirst : tokens (text "1=1") = [.word [49], .symbol 61, .word [49]] := by decide
    rw [hnil, hfirst] at h
    have hhead : Token.word (c :: v) = .word [49] := (List.cons.inj h).1
    simp only [Token.word.injEq, List.cons.injEq] at hhead
    exact hone hhead.1
  next => simp at h

/-- A word begins a new token, or goes on with a word.

**Proof sketch.** One case for each mode of the lexer outside of quotes and comments; a word
character ends any token but a word. -/
lemma breaks_or_word {m : Mode} (hm : Complete m) (hproper : m.Proper) {c : UInt8}
    (hc : isWordChar c = true) : Breaks m c ∨ ∃ acc, m = .word acc := by
  have hne : ∀ d, isWordChar d = false → c ≠ d := by
    rintro d hd rfl
    rw [hc] at hd
    cases hd
  cases m with
  | start => exact .inl rfl
  | word acc => exact .inr ⟨acc, rfl⟩
  | quoteSeen q acc =>
    have hq : isWordChar q = false := by
      simp only [Mode.Proper, isQuote, Bool.or_eq_true, beq_iff_eq] at hproper
      rcases hproper with (rfl | rfl) | rfl <;> rfl
    exact .inl (by simp [Breaks, step, hne q hq])
  | dash => exact .inl (by simp [Breaks, step, hne 45 rfl])
  | slash => exact .inl (by simp [Breaks, step, hne 42 rfl])
  | quoted q acc => exact hm.elim
  | lineComment => exact hm.elim
  | blockComment => exact hm.elim
  | star => exact hm.elim

/-- **A condition that is cut** before a word outside of a comment is not the condition.

**Proof sketch.** The cut is outside of a comment, so the word behind it is a token, or the end of
one, that the part before the cut has not. -/
lemma intendedWhere_ne_of_cut {a b : List UInt8} {c : UInt8} (hc : isWordChar c = true)
    (ha : ¬ InComment (after a)) (hsound : .broken ∉ tokens (a ++ c :: b)) :
    tokens a ≠ intendedWhere (a ++ c :: b) := by
  intro h
  by_cases hcomplete : Complete (after a)
  · have hproper : (after a).Proper := proper_lex (m := .start) trivial a
    rcases breaks_or_word hcomplete hproper hc with hbreaks | ⟨acc, hacc⟩
    · obtain ⟨w, ts, hword⟩ := exists_tokens_word hc b
      rw [intendedWhere, tokens_append_of_breaks hbreaks, hword] at h
      simp at h
    · have hmode : (lex .start a).2 = .word acc := hacc
      obtain ⟨w, ts, hword⟩ := exists_tokensFrom_word (acc ++ [c]) b
      have hall : tokens (a ++ c :: b) = (lex .start a).1 ++ .word (acc ++ [c] ++ w) :: ts := by
        rw [tokens, tokensFrom_append, hmode, tokensFrom_cons, step, if_pos hc, hword]
        rfl
      have htake : tokens a = (lex .start a).1 ++ [.word acc] := by
        rw [tokens, tokensFrom, hmode]
        rfl
      rw [intendedWhere, hall, htake, if_neg (by simp)] at h
      simpa using (List.cons.inj (List.append_cancel_left h)).1
  · have hbroken : .broken ∈ tokens a := by
      by_contra hnot
      refine hcomplete (complete_of_broken_notMem hnot fun hline => ?_)
      simp [hline, InComment] at ha
    rw [h] at hbroken
    exact broken_not_mem_intendedWhere hsound hbroken

end Parts

/-! ## The statements -/

section Statements

variable {R : Type} [Table R] {pageSize : ℕ} {set : SQLResultSet R} {cond clause : List UInt8}
  {w inner outer : List Token}

/-- The tokens of a count statement with the condition `w`. -/
def countTokens (R : Type) [Table R] (w : List Token) : List Token :=
  tokens (text "select count(1) from ") ++ tokens (Table.tableName R) ++
    tokens (text " where ") ++ w

/-- The tokens of a page statement with the condition `w` and the two orderings. -/
def pageTokens (R : Type) [Table R] (pageSize offset : ℕ) (w inner outer : List Token) :
    List Token :=
  tokens (text "id IN (SELECT id FROM ") ++ tokens (Table.tableName R) ++
    tokens (text " WHERE ") ++ w ++ tokens (text " ") ++ inner ++
    tokens (text " LIMIT ") ++ [.word (Http.decimal pageSize)] ++ tokens (text " OFFSET ") ++
    [.word (Http.decimal offset)] ++ tokens (text ") ") ++ outer

/-- Some words between two parts of a statement. -/
lemma separator_text {s : String} {c : UInt8} {t : List UInt8} (hcons : text s = c :: t)
    (hc : Separates c) (hstart : after (text s) = .start) :
    Separator (text s) (tokens (text s)) :=
  ⟨⟨_, _, hcons, hc⟩, hstart, rfl⟩

/-- **The count statement** of a set whose condition is a text with the tokens `w`. -/
theorem spells_countStatement (htable : Complete (after (Table.tableName R)))
    (hwhere : Spells set.whereText w) : Spells set.countStatement (countTokens R w) := by
  have htableName : Spells (Table.tableName R) (tokens (Table.tableName R)) := ⟨rfl, htable⟩
  exact (Spells.append_of_start (s := text "select count(1) from ") rfl (by decide)
    htableName).append_separator
      (separator_text (s := " where ") rfl (by decide) (by decide)) hwhere

variable (pageSize) in
/-- **The page statement** of a set whose parts are texts with the tokens `w`, `inner` and
`outer`. -/
theorem spells_pageText (htable : Complete (after (Table.tableName R)))
    (hwhere : Spells set.whereText w) (hinner : Spells set.orderbyInner inner)
    (houter : Spells set.orderbyOuter outer) (page : ℕ) : Spells (set.pageText pageSize page)
      (pageTokens R pageSize (page * pageSize % 2 ^ 64) w inner outer) := by
  have htableName : Spells (Table.tableName R) (tokens (Table.tableName R)) := ⟨rfl, htable⟩
  exact (((((Spells.append_of_start (s := text "id IN (SELECT id FROM ") rfl
    (by decide) htableName).append_separator
      (separator_text (s := " WHERE ") rfl (by decide) (by decide)) hwhere).append_separator
      (separator_text (s := " ") rfl (by decide) (by decide)) hinner).append_separator
      (separator_text (s := " LIMIT ") rfl (by decide) (by decide))
        (spells_decimal pageSize)).append_separator
      (separator_text (s := " OFFSET ") rfl (by decide) (by decide))
        (spells_decimal (page * pageSize % 2 ^ 64))).append_separator
      (separator_text (s := ") ") rfl (by decide) (by decide)) houter

/-- **The statements of a set** whose parts are texts with the intended tokens. -/
theorem splitsCorrectly_of_spells (htable : Complete (after (Table.tableName R)))
    (hwhere : Spells set.whereText (intendedWhere cond))
    (hinner : Spells set.orderbyInner (intendedOrder clause))
    (houter : Spells set.orderbyOuter (intendedOrder clause)) :
    SplitsCorrectly pageSize set cond clause :=
  ⟨hwhere.tokens_eq, hinner.tokens_eq, houter.tokens_eq,
    (spells_countStatement htable hwhere).tokens_eq,
    fun page => (spells_pageText pageSize htable hwhere hinner houter page).tokens_eq⟩

end Statements

/-- The condition and the ordering get into the statements. With a clause: there is a condition, and
the letters of `ORDER` do not occur in the clause a second time. Without one: the text is empty, or
there is a condition and these letters do not occur. The text does not end in a comment. -/
def TakenApart (s cond clause : List UInt8) : Prop :=
  after s ≠ .lineComment ∧
    if clause = [] then (s = [] ∨ tokens cond ≠ []) ∧ ¬ text "ORDER" <:+: toUpper s
    else tokens cond ≠ [] ∧ ¬ text "ORDER" <:+: (toUpper clause).tail

instance (s cond clause : List UInt8) : Decidable (TakenApart s cond clause) :=
  inferInstanceAs (Decidable (_ ∧ ite _ _ _))

section Query

variable {R : Type} [Table R] {sql cond clause : List UInt8}

omit [Table R] in
/-- Without a clause, there is no outer ordering, or the condition is cut. -/
lemma not_split_of_condition (connect : Bool) (h : Query (trim sql) cond []) :
    tokens (construct connect sql : SQLResultSet R).orderbyOuter ≠ intendedOrder [] ∨
      tokens (construct connect sql : SQLResultSet R).whereText ≠ intendedWhere cond := by
  have hs : trim sql = cond := h.eq_append.trans (List.append_nil cond)
  by_cases hword : text "ORDER" <:+: toUpper (trim sql)
  · right
    have hne : trim sql ≠ [] := by
      intro hnil
      rw [hnil] at hword
      exact absurd (List.infix_nil.mp hword) (by decide)
    obtain ⟨a, b, hab, hwhere, hprefix, -⟩ := construct_of_some (R := R) connect hne hword
    obtain ⟨c, t, rfl, hc, -⟩ := exists_cons_of_prefix hprefix
    have hsound := h.not_broken
    rw [hwhere, ← hs, hab]
    rw [hab] at hsound
    exact intendedWhere_ne_of_cut hc (h.letters rfl a _ (hs.symm.trans hab) hprefix) hsound
  · left
    rw [(orderbyOuter_eq_nil_iff connect sql).mpr hword]
    decide

omit [Table R] in
/-- The parts of a set with a condition and a clause.

**Proof sketch.** The cut is at the beginning of the clause, so the parts are the condition and the
clause, with `id` appended to the clause within the page. -/
lemma spells_of_clause (connect : Bool) (h : Query (trim sql) cond clause) (hne : clause ≠ [])
    (hline : after (trim sql) ≠ .lineComment) (hcond : tokens cond ≠ [])
    (hlast : ¬ text "ORDER" <:+: (toUpper clause).tail) :
    Spells (construct connect sql : SQLResultSet R).whereText (intendedWhere cond) ∧
      Spells (construct connect sql : SQLResultSet R).orderbyInner (intendedOrder clause) ∧
      Spells (construct connect sql : SQLResultSet R).orderbyOuter (intendedOrder clause) := by
  have hprefix := (h.isOrderBy.resolve_left hne).prefix_toUpper
  obtain ⟨c, t, hcons, hc, -⟩ := exists_cons_of_prefix hprefix
  have hbreaks : Breaks (after cond) c := h.breaks c (by simp [hcons])
  have hafter : after (trim sql) = after clause := by
    rw [h.eq_append, hcons, after_append_of_breaks hbreaks]
  have hcomplete : Complete (after clause) := by
    rw [← hafter]
    exact complete_of_broken_notMem h.not_broken hline
  have hid : Spells (text ", id ASC") (tokens (text ", id ASC")) := ⟨rfl, by decide⟩
  have hinner : Spells (clause ++ text ", id ASC") (intendedOrder clause) := by
    rw [intendedOrder, if_neg hne]
    exact Spells.append ⟨rfl, hcomplete⟩ (by decide) hid
  have hwhere : Spells cond (intendedWhere cond) := by
    rw [intendedWhere, if_neg hcond]
    exact ⟨rfl, complete_of_breaks hc hbreaks⟩
  rw [construct_of_last connect h.eq_append hprefix hlast]
  exact ⟨hwhere, hinner, hinner⟩

omit [Table R] in
/-- The parts of a set without a clause: there is no outer ordering.

**Proof sketch.** Without the letters of `ORDER` the whole text is the condition, and an empty one
becomes `1=1`. -/
lemma spells_of_condition (connect : Bool) (h : Query (trim sql) cond [])
    (hline : after (trim sql) ≠ .lineComment) (hcond : trim sql = [] ∨ tokens cond ≠ [])
    (hword : ¬ text "ORDER" <:+: toUpper (trim sql)) :
    Spells (construct connect sql : SQLResultSet R).whereText (intendedWhere cond) ∧
      Spells (construct connect sql : SQLResultSet R).orderbyInner (intendedOrder []) ∧
      (construct connect sql : SQLResultSet R).orderbyOuter = [] := by
  have hs : trim sql = cond := h.eq_append.trans (List.append_nil cond)
  have hid : Spells (text "ORDER BY id") (intendedOrder []) := ⟨rfl, by decide⟩
  by_cases hnil : trim sql = []
  · have hone : intendedWhere cond = tokens (text "1=1") := by
      rw [← hs, hnil]
      rfl
    have hwhere : Spells (text "1=1") (intendedWhere cond) := ⟨hone.symm, by decide⟩
    simp only [construct, if_pos hnil]
    exact ⟨hwhere, hid, trivial⟩
  · have hnone : rfind (text "ORDER") (toUpper (trim sql)) = none := rfind_eq_none_iff.mpr hword
    have hwhere : Spells (trim sql) (intendedWhere cond) := by
      rw [intendedWhere, if_neg (hcond.resolve_left hnil), hs]
      exact ⟨rfl, hs ▸ complete_of_broken_notMem h.not_broken hline⟩
    simp only [construct, if_neg hnil, hnone]
    exact ⟨hwhere, hid, trivial⟩

omit [Table R] in
/-- **The parts of a set** whose text is taken apart as it should be. -/
theorem spells_of_takenApart (connect : Bool) (h : Query (trim sql) cond clause)
    (happart : TakenApart (trim sql) cond clause) :
    Spells (construct connect sql : SQLResultSet R).whereText (intendedWhere cond) ∧
      Spells (construct connect sql : SQLResultSet R).orderbyInner (intendedOrder clause) ∧
      Spells (construct connect sql : SQLResultSet R).orderbyOuter
        (if clause = [] then [] else intendedOrder clause) := by
  obtain ⟨hline, hparts⟩ := happart
  by_cases hnil : clause = []
  · subst hnil
    rw [if_pos rfl] at hparts ⊢
    obtain ⟨hwhere, hinner, houter⟩ :=
      spells_of_condition (R := R) connect h hline hparts.1 hparts.2
    rw [houter]
    exact ⟨hwhere, hinner, rfl, trivial⟩
  · rw [if_neg hnil] at hparts ⊢
    exact spells_of_clause connect h hnil hline hparts.1 hparts.2

/-- **When a text is taken apart correctly**: there are a condition and a clause, the letters of
`ORDER` do not occur in the clause a second time, and the text does not end in a comment.

**Proof sketch.** Without a clause the text is not split as intended. With one, the split is at the
last `ORDER`: this is the beginning of the clause exactly if the letters do not occur in it again,
and what the page text adds stands in the text exactly if no line comment hides it. -/
theorem splitsCorrectly_iff (htable : Complete (after (Table.tableName R))) (pageSize : ℕ)
    (connect : Bool) (h : Query (trim sql) cond clause) :
    SplitsCorrectly pageSize (construct connect sql : SQLResultSet R) cond clause ↔
      clause ≠ [] ∧ tokens cond ≠ [] ∧ ¬ text "ORDER" <:+: (toUpper clause).tail ∧
        after (trim sql) ≠ .lineComment := by
  rcases h.isOrderBy with rfl | hclause
  · refine iff_of_false (fun hsplit => ?_) (fun hand => hand.1 rfl)
    rcases not_split_of_condition (R := R) connect h with houter | hwhere
    · exact houter hsplit.outer_eq
    · exact hwhere hsplit.where_eq
  have hprefix := hclause.prefix_toUpper
  obtain ⟨c, t, hcons, hc, hone⟩ := exists_cons_of_prefix hprefix
  have hbreaks : Breaks (after cond) c := h.breaks c (by simp [hcons])
  have htokens : tokens (trim sql) = tokens cond ++ tokens clause := by
    rw [h.eq_append, hcons, tokens_append_of_breaks hbreaks]
  have hafter : after (trim sql) = after clause := by
    rw [h.eq_append, hcons, after_append_of_breaks hbreaks]
  constructor
  · intro hsplit
    obtain ⟨w, hw, hwhere, hlast⟩ := exists_cut (R := R) connect h.eq_append hprefix
    have hnil : w = [] := by
      cases w with
      | nil => rfl
      | cons d w =>
        rw [hcons] at hw
        obtain rfl : d = c := (List.cons_prefix_cons.mp hw).1
        have hcond := hsplit.where_eq
        rw [hwhere, tokens_append_of_breaks hbreaks] at hcond
        exact absurd hcond (intendedWhere_ne_append hc hone w)
    have hconstruct := construct_of_last (R := R) connect h.eq_append hprefix (hlast hnil)
    rw [hconstruct] at hsplit
    refine ⟨by simp [hcons], fun hcond => ?_, hlast hnil, fun hline => ?_⟩
    · exact intendedWhere_ne_nil cond (hsplit.where_eq.symm.trans hcond)
    · have hinner : tokens (clause ++ text ", id ASC") = intendedOrder clause := hsplit.inner_eq
      rw [tokens_append_of_lineComment (hafter.symm.trans hline) (by decide),
        intendedOrder, if_neg (by simp [hcons])] at hinner
      exact absurd (List.append_right_eq_self.mp hinner.symm) (by decide)
  · rintro ⟨hne, hcond, hlast, hline⟩
    obtain ⟨hwhere, hinner, houter⟩ :=
      spells_of_clause (R := R) connect h hne hline hcond hlast
    exact splitsCorrectly_of_spells htable hwhere hinner houter

end Query

/-- A condition with the letters of `ORDER` in an identifier and in a string. -/
theorem splitsCorrectly_order_id :
    SplitsCorrectly 10 (construct true
        (text "  order_id=5 and note='my order' ORDER BY name DESC ") : SQLResultSet Plain)
      (text "order_id=5 and note='my order' ") (text "ORDER BY name DESC") := by
  have hclause : IsOrderBy (text "ORDER BY name DESC") :=
    ⟨text "ORDER", 32, text "BY name DESC", .word (text "BY"),
      [.word (text "name"), .word (text "DESC")], by decide⟩
  have hquery : Query (trim (text "  order_id=5 and note='my order' ORDER BY name DESC "))
      (text "order_id=5 and note='my order' ") (text "ORDER BY name DESC") :=
    ⟨by decide, by decide, .inr hclause, by decide +kernel, nofun⟩
  exact (splitsCorrectly_iff (by decide) 10 true hquery).mpr (by decide)

/-- The letters of `ORDER` in the list of the clause, and a clause without a condition: the text is
cut inside of the clause, and a statement has an empty condition.

**Proof sketch.** Both sets are computed, and the condition in them is not the one that was
given. -/
theorem not_splitsCorrectly :
    (Query (trim (text "status=1 ORDER BY order_no")) (text "status=1 ")
        (text "ORDER BY order_no") ∧
      (construct true (text "status=1 ORDER BY order_no") : SQLResultSet Plain).countStatement =
        text "select count(1) from plain where status=1 ORDER BY " ∧
      ¬ SplitsCorrectly 10 (construct true (text "status=1 ORDER BY order_no") : SQLResultSet Plain)
        (text "status=1 ") (text "ORDER BY order_no")) ∧
    Query (trim (text "ORDER BY name")) [] (text "ORDER BY name") ∧
      (construct true (text "ORDER BY name") : SQLResultSet Plain).countStatement =
        text "select count(1) from plain where " ∧
      ¬ SplitsCorrectly 10 (construct true (text "ORDER BY name") : SQLResultSet Plain)
        [] (text "ORDER BY name") := by
  refine ⟨⟨⟨by decide, by decide, .inr ?_, by decide +kernel, nofun⟩,
    by decide, fun h => ?_⟩,
    ⟨by decide, by decide, .inr ?_, by decide +kernel, nofun⟩,
    by decide, fun h => ?_⟩
  · exact ⟨text "ORDER", 32, text "BY order_no", .word (text "BY"), [.word (text "order_no")],
      by decide⟩
  · exact absurd h.where_eq (by decide)
  · exact ⟨text "ORDER", 32, text "BY name", .word (text "BY"), [.word (text "name")],
      by decide⟩
  · exact absurd h.where_eq (by decide)

end HkuUtils.ResultSet
