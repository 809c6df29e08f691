import HkuUtils.Condition.Literals

set_option relaxedAutoImplicit false
set_option autoImplicit false

/-!
# Conditions put together

What a parser of SQL reads in the text of a condition that is made of comparisons and empty
conditions with `&` and `|`, and of orderings and a limit with `+`. An empty condition on the right
of `&` or `|` is written down with its operator, every ordering is written with its own `order by`,
and all of it is written where it comes, so that not every text can be read.

## Main definitions

* `HkuUtils.Condition.Atom`, `Column` — the comparisons, and the fields of an ordering.
* `HkuUtils.Condition.Expr`, `Suffix` — the expressions, and what is added to them.
* `HkuUtils.Condition.str` — the text of all of it.
* `HkuUtils.Condition.intended` — what it should mean.
* `HkuUtils.Condition.Regular` — the expressions whose text means that.

## Main results

* `HkuUtils.Condition.Operation.atom` — comparisons of a field with strings are atoms.
* `HkuUtils.Condition.Expr.reads_eval` — how the text of an expression is read.
* `HkuUtils.Condition.wellFormed_iff` — when the statements are read as intended.

## Design

The operands of an expression are objects of their own, so that `&` and `|` are never called with
one object on both sides. What an expression means is a condition of the library, compared as a
tree: an empty operand is left out.
-/

namespace HkuUtils.Condition

open Search (text)
open Sql

/-! ## Expressions -/

/-- A comparison, or a comparison in parentheses. It carries the proof that it is one, so an
expression made of atoms needs none. -/
structure Atom where
  /-- What it is made from. -/
  text : List UInt8
  /-- The text may end where it ends. -/
  complete : Complete (Sql.after text)
  /-- The tokens of the comparison. -/
  comparison : List Token
  /-- They are a comparison. -/
  plain : Plain comparison
  /-- The text is this comparison. -/
  tokens_eq : tokens text = comparison ∨ tokens text = lparen :: comparison ++ [rparen]

/-- The field of an ordering. -/
structure Column where
  /-- The name. -/
  text : List UInt8
  /-- The name may end where it ends. -/
  complete : Complete (Sql.after text)
  /-- There is a name. -/
  ne_nil : tokens text ≠ []
  /-- There is nothing else. -/
  not_endsName : ∀ t ∈ tokens text, endsName t = false

/-- `&` or `|`. -/
inductive Connective where
  | and
  | or
  deriving DecidableEq, Repr

/-- The condition that two conditions make. -/
def Connective.apply : Connective → Cond → Cond → Cond
  | and => .and
  | or => .or

/-- Atomic conditions and empty ones, put together. -/
inductive Expr where
  | empty
  | atom (a : Atom)
  | node (op : Connective) (l r : Expr)

/-- What is added with `+`. -/
inductive Suffix where
  | order (column : Column) (direction : DBCondition.OrderBy)
  | limit (n : ℤ)

namespace Expr

/-- The object that an expression returns. -/
def eval : Expr → DBCondition
  | empty => .empty
  | atom a => ⟨a.text⟩
  | node .and l r => DBCondition.and false l.eval r.eval
  | node .or l r => DBCondition.or false l.eval r.eval

/-- What an expression should mean. -/
def meaning : Expr → Option Cond
  | empty => none
  | atom a => some (.atom a.comparison)
  | node op l r =>
    match l.meaning, r.meaning with
    | none, c => c
    | some a, none => some a
    | some a, some b => some (op.apply a b)

/-- There are only empty conditions in the expression. -/
def Blank : Expr → Prop
  | empty => True
  | atom _ => False
  | node _ l r => l.Blank ∧ r.Blank

/-- No `&` and no `|` has an empty condition on its right only. -/
def Sound : Expr → Prop
  | empty | atom _ => True
  | node _ l r => l.Sound ∧ r.Sound ∧ (r.Blank → l.Blank)

end Expr

namespace Suffix

/-- The object after `+`. -/
def add (self : DBCondition) : Suffix → DBCondition
  | order column .orderAsc => self.asc column.text
  | order column .orderDesc => self.desc column.text
  | limit n => self.limit n

/-- The part of an ordering that it should be. -/
def item : Suffix → Option Item
  | order column direction => some ⟨tokens column.text, direction = .orderAsc⟩
  | limit _ => none

/-- The limit that it should be. -/
def bound : Suffix → Option ℤ
  | order _ _ => none
  | limit n => some n

end Suffix

/-- The object that an expression with everything that is added returns. -/
def str (e : Expr) (suffixes : List Suffix) : DBCondition := suffixes.foldl Suffix.add e.eval

/-- **What an expression should mean**: the condition of the operands that are not empty, and the
fields of the ordering in their order. -/
def intended (e : Expr) (suffixes : List Suffix) : Tail :=
  ⟨e.meaning, suffixes.filterMap Suffix.item, (suffixes.filterMap Suffix.bound).head?⟩

/-- Nothing, or one limit. -/
def AtMostLimit : List Suffix → Prop
  | [] | [.limit _] => True
  | _ => False

/-- At most one ordering, and then at most one limit. -/
def InOrder : List Suffix → Prop
  | .order _ _ :: suffixes => AtMostLimit suffixes
  | suffixes => AtMostLimit suffixes

/-- The expressions whose text means what it should. -/
structure Regular (e : Expr) (suffixes : List Suffix) : Prop where
  sound : e.Sound
  inOrder : InOrder suffixes
  not_blank : e.Blank → suffixes = []

/-- The statement is a `SELECT` of all rows of the table with this tail. -/
def WellFormed (R : Type) [ResultSet.Table R] (statement : List UInt8) (tail : Tail) : Prop :=
  ∃ ts, tokens statement = tokens (ResultSet.Table.selectSQL R) ++ ts ∧ parseTail ts = some tail

/-! ## Comparisons of fields are atoms -/

/-- Tokens that do not begin or end anything are read up to a comparison. -/
lemma splitAtom_append_left {ts b : List Token} (h : ∀ t ∈ ts, stops t = false ∧ t ≠ lparen)
    {r : List Token × List Token} (hb : splitAtom 0 b = some r) :
    splitAtom 0 (ts ++ b) = some (ts ++ r.1, r.2) := by
  induction ts with
  | nil => exact hb
  | cons t ts ih =>
    obtain ⟨hstops, hne⟩ := h t (by simp)
    rw [List.cons_append, splitAtom, hstops, if_neg Bool.false_ne_true, if_neg hne,
      ih fun t ht => h t (List.mem_cons_of_mem _ ht)]
    rfl

/-- Literals and commas. -/
lemma mem_literalTokens {values : List (List UInt8)} {t : Token} (h : t ∈ literalTokens values) :
    t = comma ∨ ∃ val, t = .quoted 34 val := by
  rw [literalTokens] at h
  induction values with
  | nil => simp at h
  | cons val values ih =>
    cases values with
    | nil => exact .inr ⟨val, by simpa using h⟩
    | cons v values =>
      have hmem : t = .quoted 34 val ∨ t = comma ∨
          t ∈ ((v :: values).map (Token.quoted 34)).intersperse comma := by
        simpa [List.intersperse] using h
      rcases hmem with rfl | rfl | hmem
      · exact .inr ⟨val, rfl⟩
      · exact .inl rfl
      · exact ih hmem

/-- Tokens in parentheses without parentheses in them. -/
lemma splitAtom_parens {ts : List Token} (h : ∀ t ∈ ts, t ≠ lparen ∧ t ≠ rparen) :
    splitAtom 0 (lparen :: ts ++ [rparen]) = some (lparen :: ts ++ [rparen], []) := by
  have hinner : splitAtom 1 (ts ++ [rparen]) = some (ts ++ [rparen], []) := by
    induction ts with
    | nil => rfl
    | cons t ts ih =>
      obtain ⟨hl, hr⟩ := h t (by simp)
      rw [List.cons_append, splitAtom, if_neg hl, if_neg hr,
        ih fun t ht => h t (List.mem_cons_of_mem _ ht)]
      rfl
  have hstops : stops lparen = false := rfl
  rw [List.cons_append, splitAtom, hstops, if_neg Bool.false_ne_true, if_pos rfl, hinner]
  rfl

namespace Operation

/-- The comparison without the parentheses around it. -/
def bare (name : List UInt8) (op : Operation) : List Token :=
  tokens name ++ op.operator ++ literalTokens op.values ++ op.closing.dropLast

/-- The comparison is the one without the parentheses, in parentheses. -/
lemma comparison_eq_bare (name : List UInt8) (op : Operation) :
    op.comparison name = lparen :: op.bare name ++ [rparen] := by
  have hclosing : op.closing = op.closing.dropLast ++ [rparen] := by cases op <;> rfl
  rw [comparison, hclosing, bare]
  simp

/-- A comparison with one string is split after it. -/
lemma splitAtom_one {ts : List Token} (h : ∀ t ∈ ts, stops t = false ∧ t ≠ lparen)
    (val : List UInt8) :
    splitAtom 0 (ts ++ literalTokens [val] ++ []) = some (ts ++ literalTokens [val] ++ [], []) := by
  have hval : splitAtom 0 (literalTokens [val]) = some (literalTokens [val], []) := rfl
  rw [List.append_nil]
  exact splitAtom_append_left h hval

/-- A comparison with a list of strings is split after it. -/
lemma splitAtom_list {ts : List Token} (h : ∀ t ∈ ts, stops t = false ∧ t ≠ lparen)
    (vals : List (List UInt8)) :
    splitAtom 0 (ts ++ [lparen] ++ literalTokens vals ++ [rparen]) =
      some (ts ++ [lparen] ++ literalTokens vals ++ [rparen], []) := by
  have hvals : ∀ t ∈ literalTokens vals, t ≠ lparen ∧ t ≠ rparen := by
    intro t ht
    rcases mem_literalTokens ht with rfl | ⟨val, rfl⟩
    · decide
    · exact ⟨nofun, nofun⟩
  have hassoc : ts ++ [lparen] ++ literalTokens vals ++ [rparen] =
      ts ++ (lparen :: literalTokens vals ++ [rparen]) := by simp
  rw [hassoc, splitAtom_append_left h (splitAtom_parens hvals)]

/-- **A comparison of a field is a comparison.**

**Proof sketch.** One case for each operation. What the name is compared with is behind an operator
that no word stops at, and lists of values are in parentheses that belong together. -/
theorem plain {name : List UInt8} (hne : tokens name ≠ [])
    (hname : ∀ t ∈ tokens name, stops t = false ∧ t ≠ lparen) (op : Operation) :
    Plain (op.bare name) := by
  have hsplit : splitAtom 0 (op.bare name) = some (op.bare name, []) := by
    have happ : ∀ ts : List Token, (∀ t ∈ ts, stops t = false ∧ t ≠ lparen) →
        ∀ t ∈ tokens name ++ ts, stops t = false ∧ t ≠ lparen := by
      intro ts hts t ht
      exact (List.mem_append.mp ht).elim (hname t) (hts t)
    cases op with
    | eq val => exact splitAtom_one (happ [.symbol 61] (by decide)) val
    | ne val => exact splitAtom_one (happ [.symbol 60, .symbol 62] (by decide)) val
    | gt val => exact splitAtom_one (happ [.symbol 62] (by decide)) val
    | lt val => exact splitAtom_one (happ [.symbol 60] (by decide)) val
    | ge val => exact splitAtom_one (happ [.symbol 62, .symbol 61] (by decide)) val
    | le val => exact splitAtom_one (happ [.symbol 60, .symbol 61] (by decide)) val
    | like pattern =>
      exact splitAtom_one (happ [.word (text "like")] (by decide)) pattern
    | in_ vals =>
      have h := splitAtom_list (happ [.word (text "in")] (by decide)) vals
      rwa [List.append_assoc (tokens name)] at h
    | notIn vals =>
      have h := splitAtom_list
        (happ [.word (text "not"), .word (text "in")] (by decide)) vals
      rwa [List.append_assoc (tokens name)] at h
  obtain ⟨t, ts, hcons⟩ := List.exists_cons_of_ne_nil hne
  have hhead : (op.bare name).head? = some t := by simp [bare, hcons]
  refine ⟨?_, ?_, hsplit⟩
  · intro hnil
    rw [hnil] at hhead
    cases hhead
  · rw [hhead]
    intro h
    exact (hname t (by simp [hcons])).2 (Option.some.inj h)

/-- **A comparison of a field with strings without double quotes is an atom.** -/
def atom {field : Field} (hcomplete : Complete (Sql.after field.name))
    (hne : tokens field.name ≠ []) (hname : ∀ t ∈ tokens field.name, stops t = false ∧ t ≠ lparen)
    (op : Operation) (c : DBCondition) (h : op.apply field = .ok c)
    (hvalues : ∀ val ∈ op.values, 34 ∉ val) : Atom where
  text := c.condition
  complete := complete_of_forall (tokens_condition_append hcomplete h hvalues)
  comparison := op.bare field.name
  plain := plain hne hname op
  tokens_eq := .inr (by
    have hall := tokens_condition_append hcomplete h hvalues []
    rw [List.append_nil, show tokens [] = [] from rfl, List.append_nil] at hall
    rw [hall, comparison_eq_bare])

end Operation

/-! ## The texts -/

/-- The tokens of a number. -/
def numberTokens (n : ℤ) : List Token :=
  if n < 0 then [.symbol 45, .word (Http.decimal n.natAbs)] else [.word (Http.decimal n.natAbs)]

/-- A number with its sign.

**Proof sketch.** A negative number is a minus and digits. The first digit is no second minus, so
no comment begins there. -/
lemma spells_number (n : ℤ) : Spells (DBCondition.decimal n) (numberTokens n) := by
  rw [DBCondition.decimal, numberTokens]
  split
  next =>
    have hdigits := spells_decimal n.natAbs
    obtain ⟨c, s, hcons⟩ := List.exists_cons_of_ne_nil (Http.decimal_ne_nil n.natAbs)
    have hdigit : Http.isDigit c = true := Http.isDigit_of_mem_decimal (hcons ▸ List.mem_cons_self)
    have hne : c ≠ 45 := by
      rintro rfl
      exact absurd hdigit (by decide)
    have hbreaks : Breaks (Sql.after [45]) c := by
      change step .dash c = restart .dash c
      rw [step, if_neg hne]
    rw [hcons] at hdigits ⊢
    refine ⟨?_, ?_⟩
    · exact (tokens_append_of_breaks hbreaks).trans (congrArg _ hdigits.tokens_eq)
    · have hafter := after_append_of_breaks hbreaks s
      change Complete (Sql.after ([45] ++ c :: s))
      rw [hafter]
      exact hdigits.complete
  next => exact spells_decimal _

namespace Suffix

/-- The word of a direction. -/
def directionWord : DBCondition.OrderBy → List UInt8
  | .orderAsc => text "ASC"
  | .orderDesc => text "DESC"

/-- The tokens of what is added. -/
def toks : Suffix → List Token
  | order column direction =>
    [.word (text "order"), .word (text "by")] ++ tokens column.text ++
      [.word (directionWord direction)]
  | limit n => .word (text "limit") :: numberTokens n

/-- The text of an ordering. -/
lemma condition_orderBy (self : DBCondition) (field : List UInt8)
    (direction : DBCondition.OrderBy) :
    (self.orderBy field direction).condition =
      self.condition ++ text " order by " ++ field ++ 32 :: directionWord direction := by
  cases direction <;> rfl

/-- The word of a direction is one token. -/
lemma spells_directionWord (direction : DBCondition.OrderBy) :
    Spells (32 :: directionWord direction) [.word (directionWord direction)] := by
  cases direction with
  | orderAsc => exact ⟨by decide, by decide⟩
  | orderDesc => exact ⟨by decide, by decide⟩

/-- An ordering behind a text. -/
lemma spells_orderBy {self : DBCondition} {ts : List Token} (h : Spells self.condition ts)
    (column : Column) (direction : DBCondition.OrderBy) :
    Spells (self.orderBy column.text direction).condition
      (ts ++ (order column direction).toks) := by
  have horder : Separator (text " order by ") [.word (text "order"), .word (text "by")] :=
    ⟨⟨_, _, rfl, by decide⟩, by decide, by decide⟩
  have hall := (h.append_separator horder ⟨rfl, column.complete⟩).append (by decide)
    (spells_directionWord direction)
  rw [condition_orderBy, toks]
  simpa only [List.append_assoc] using hall

/-- **What is added** is read behind what was there. -/
theorem spells_add {self : DBCondition} {ts : List Token} (h : Spells self.condition ts)
    (suffix : Suffix) : Spells (suffix.add self).condition (ts ++ suffix.toks) := by
  cases suffix with
  | order column direction =>
    have horder := spells_orderBy h column direction
    cases direction with
    | orderAsc => exact horder
    | orderDesc => exact horder
  | limit n =>
    have hlimit : Separator (text " limit ") [.word (text "limit")] :=
      ⟨⟨_, _, rfl, by decide⟩, by decide, by decide⟩
    have hall := h.append_separator hlimit (spells_number n)
    rwa [List.append_assoc ts] at hall

end Suffix

/-- Everything that is added, one after the other. -/
lemma spells_foldl {self : DBCondition} {ts : List Token} (h : Spells self.condition ts)
    (suffixes : List Suffix) :
    Spells (suffixes.foldl Suffix.add self).condition (ts ++ suffixes.flatMap Suffix.toks) := by
  induction suffixes generalizing self ts with
  | nil => simpa using h
  | cons suffix suffixes ih =>
    rw [List.foldl_cons, List.flatMap_cons, ← List.append_assoc]
    exact ih (suffix.spells_add h)

/-! ## Expressions -/

namespace Expr

/-- Two operands in parentheses, or what is not empty of them. -/
lemma condition_connect (word : String) (self other : DBCondition) :
    (DBCondition.connect word false self other).condition =
      if self.condition = [] then other.condition
      else text "(" ++ self.condition ++ text word ++ other.condition ++ text ")" := by
  rw [DBCondition.connect, if_neg Bool.false_ne_true]
  split <;> rfl

/-- The word of a connective. -/
def word : Connective → String
  | .and => " and "
  | .or => " or "

/-- The text of two conditions that are connected. -/
lemma eval_node (op : Connective) (l r : Expr) :
    (node op l r).eval = DBCondition.connect (word op) false l.eval r.eval := by
  cases op <;> rfl

/-- There is no text without a comparison. -/
lemma eval_eq_nil_iff (e : Expr) : e.eval.condition = [] ↔ e.Blank := by
  induction e with
  | empty => simp [eval, DBCondition.empty, Blank]
  | atom a =>
    have hne : a.text ≠ [] := by
      intro hnil
      have htokens := a.tokens_eq
      rw [hnil] at htokens
      rcases htokens with h | h
      · exact a.plain.ne_nil h.symm
      · cases h
    simp [eval, Blank, hne]
  | node op l r ihl ihr =>
    rw [eval_node, condition_connect, Blank, ← ihl, ← ihr]
    split
    next h => simp [h]
    next h => simp [h, show text "(" = [40] from rfl]

/-- There is no meaning without a comparison. -/
lemma meaning_eq_none_iff (e : Expr) : e.meaning = none ↔ e.Blank := by
  induction e with
  | empty => simp [meaning, Blank]
  | atom a => simp [meaning, Blank]
  | node op l r ihl ihr =>
    rw [meaning, Blank, ← ihl, ← ihr]
    cases l.meaning <;> cases r.meaning <;> simp

/-- Nothing is wrong with empty conditions. -/
lemma Blank.sound {e : Expr} (h : e.Blank) : e.Sound := by
  induction e with
  | empty => trivial
  | atom a => trivial
  | node op l r ihl ihr => exact ⟨ihl h.1, ihr h.2, fun _ => h.1⟩

/-- The token of a connective. -/
def token : Connective → Token
  | .and => .word (text "and")
  | .or => .word (text "or")

/-- Two operands in parentheses. -/
lemma spells_node {op : Connective} {s t : List UInt8} {l r : List Token} (hl : Spells s l)
    (hr : Spells t r) :
    Spells (text "(" ++ s ++ text (word op) ++ t ++ text ")")
      (lparen :: (l ++ token op :: r) ++ [rparen]) := by
  have hword : Separator (text (word op)) [token op] := by
    cases op with
    | and => exact ⟨⟨_, _, rfl, by decide⟩, by decide, by decide⟩
    | or => exact ⟨⟨_, _, rfl, by decide⟩, by decide, by decide⟩
  have hlparen : tokens (text "(") = [lparen] := by decide
  have hopen : Sql.after (text "(") = .start := by decide
  have hclose : Spells [41] [rparen] := ⟨by decide, by decide⟩
  have hrparen : text ")" = [41] := rfl
  have hall := Spells.append_of_start hlparen hopen
    ((hl.append_separator hword hr).append (by decide) hclose)
  simpa only [hrparen, List.append_assoc, List.cons_append, List.nil_append] using hall

/-- Two operands in parentheses are read as one operand. -/
lemma reads_node {l r : List Token} {cl cr : Option Cond} (op : Connective) (hl : Reads l cl)
    (hr : Reads r cr) :
    Reads (lparen :: (l ++ token op :: r) ++ [rparen])
      (cl.bind fun a => cr.map (op.apply a)) := by
  cases op with
  | and => exact reads_and hl hr (by decide)
  | or => exact reads_or hl hr (by decide) (by decide)

/-- **How the text of an expression is read**: as its meaning if it is sound, and not at all
otherwise.

**Proof sketch.** By induction on the expression. An empty operand on the left leaves the right one
alone, and so does one on the right in the same way; if both are there, the parentheses that
`connect` puts make the text one of two conditions, unless an operand itself cannot be read. -/
theorem reads_eval (e : Expr) :
    ∃ ts c, Spells e.eval.condition ts ∧ Reads ts c ∧ (e.Sound → c = e.meaning) ∧
      (¬ e.Sound → c = none) := by
  induction e with
  | empty => exact ⟨[], none, ⟨rfl, trivial⟩, reads_nil, fun _ => rfl, fun _ => rfl⟩
  | atom a =>
    refine ⟨tokens a.text, some (.atom a.comparison), ⟨rfl, a.complete⟩, ?_, fun _ => rfl,
      fun h => absurd trivial h⟩
    rcases a.tokens_eq with h | h
    · rw [h]
      exact reads_plain a.plain
    · rw [h]
      exact reads_paren (reads_plain a.plain)
  | node op l r ihl ihr =>
    obtain ⟨tl, cl, hspellsl, hreadsl, hsoundl, hunsoundl⟩ := ihl
    obtain ⟨tr, cr, hspellsr, hreadsr, hsoundr, hunsoundr⟩ := ihr
    rw [eval_node, condition_connect]
    split
    next hnil =>
      -- an empty operand on the left
      have hblank := (eval_eq_nil_iff l).mp hnil
      have hmeaning : (node op l r).meaning = r.meaning := by
        rw [meaning, (meaning_eq_none_iff l).mpr hblank]
      rw [hmeaning]
      exact ⟨tr, cr, hspellsr, hreadsr, fun h => hsoundr h.2.1,
        fun h => hunsoundr fun hr => h ⟨hblank.sound, hr, fun _ => hblank⟩⟩
    next hne =>
      have hblank : ¬ l.Blank := fun h => hne ((eval_eq_nil_iff l).mpr h)
      refine ⟨_, _, spells_node hspellsl hspellsr, reads_node op hreadsl hreadsr, ?_, ?_⟩
      · rintro ⟨hl, hr, hright⟩
        rw [hsoundl hl, hsoundr hr, meaning]
        cases hml : l.meaning with
        | none => exact absurd ((meaning_eq_none_iff l).mp hml) hblank
        | some a =>
          cases hmr : r.meaning with
          | none => exact absurd (hright ((meaning_eq_none_iff r).mp hmr)) hblank
          | some b => rfl
      · intro hunsound
        by_cases hl : l.Sound
        · have hcr : cr = none := by
            by_cases hr : r.Sound
            · have hright : r.Blank := by
                by_contra hright
                exact hunsound ⟨hl, hr, fun h => absurd h hright⟩
              rw [hsoundr hr, (meaning_eq_none_iff r).mpr hright]
            · exact hunsoundr hr
          rw [hcr]
          cases cl <;> rfl
        · rw [hunsoundl hl]
          rfl

end Expr

/-! ## Orderings and limits -/

/-- What is added begins with `order` or `limit`. -/
lemma head_flatMap {suffixes : List Suffix} :
    ∀ t ∈ (suffixes.flatMap Suffix.toks).head?,
      t = .word (text "order") ∨ t = .word (text "limit") := by
  cases suffixes with
  | nil => simp
  | cons suffix suffixes =>
    cases suffix with
    | order column direction =>
      intro t ht
      exact .inl (Option.some.inj ht).symm
    | limit n =>
      intro t ht
      exact .inr (Option.some.inj ht).symm

/-- What holds of `order` and of `limit` holds of the beginning. -/
lemma head_flatMap_of {P : Token → Prop} (horder : P (.word (text "order")))
    (hlimit : P (.word (text "limit"))) (suffixes : List Suffix) :
    ∀ t ∈ (suffixes.flatMap Suffix.toks).head?, P t := by
  intro t ht
  rcases head_flatMap t ht with rfl | rfl
  · exact horder
  · exact hlimit

/-- What is added ends a condition. -/
lemma stops_flatMap (suffixes : List Suffix) : Stops (suffixes.flatMap Suffix.toks) := by
  have hhead := head_flatMap_of (P := fun t => stops t = true) (by decide)
    (by decide) suffixes
  cases h : suffixes.flatMap Suffix.toks with
  | nil => trivial
  | cons t ts => exact hhead t (by simp [h])

/-- A number is read. -/
lemma parseNumber_append (n : ℤ) (rest : List Token) :
    parseNumber (numberTokens n ++ rest) = some (n, rest) := by
  rw [numberTokens]
  split
  next hn =>
    have hneg : -((n.natAbs : ℕ) : ℤ) = n := by omega
    rw [List.cons_append, List.cons_append, List.nil_append, parseNumber, Http.number_decimal,
      Option.map_some, hneg]
  next hn =>
    have hpos : ((n.natAbs : ℕ) : ℤ) = n := by omega
    rw [List.cons_append, List.nil_append, parseNumber, Http.number_decimal, Option.map_some, hpos]

/-- A limit is read. -/
lemma parseLimit_limit (n : ℤ) (rest : List Token) :
    parseLimit ((Suffix.limit n).toks ++ rest) = some (some n, rest) := by
  have hkeyword : isKeyword "LIMIT" (.word (text "limit")) = true := by decide
  rw [Suffix.toks, List.cons_append, parseLimit, if_pos hkeyword, parseNumber_append]
  rfl

/-- An ordering is read: the column, its direction, and what follows. The keywords and the
direction are small closed facts. -/
lemma parseOrder_order (column : Column) (direction : DBCondition.OrderBy) {rest : List Token}
    (hrest : rest.head? ≠ some comma) :
    parseOrder ((Suffix.order column direction).toks ++ rest) =
      some ([⟨tokens column.text, direction = .orderAsc⟩], rest) := by
  have horder : isKeyword "ORDER" (.word (text "order")) = true := by decide
  have hby : isKeyword "BY" (.word (text "by")) = true := by decide
  have hends : endsName (.word (Suffix.directionWord direction)) = true := by
    cases direction with
    | orderAsc => decide
    | orderDesc => decide
  have hdirection : Sql.direction (.word (Suffix.directionWord direction) :: rest) =
      (decide (direction = .orderAsc), rest) := by
    cases direction with
    | orderAsc => rfl
    | orderDesc => rfl
  simp only [Suffix.toks, List.append_assoc, List.cons_append, List.nil_append]
  rw [parseOrder, if_pos horder, if_pos hby]
  exact parseItems_single column.ne_nil column.not_endsName hends hdirection hrest _

/-- At most a limit is added: there is no ordering. -/
lemma AtMostLimit.items_eq {suffixes : List Suffix} (h : AtMostLimit suffixes) :
    suffixes.filterMap Suffix.item = [] := by
  match suffixes, h with
  | [], _ => rfl
  | [.limit n], _ => rfl

/-- Something is added. -/
lemma flatMap_toks_eq_nil_iff {suffixes : List Suffix} :
    suffixes.flatMap Suffix.toks = [] ↔ suffixes = [] := by
  cases suffixes with
  | nil => simp
  | cons suffix suffixes => cases suffix <;> simp [Suffix.toks]

/-- What is read behind an ordering. -/
def parseEnd (w : Option Cond) (o : List Item × List Token) : Option Tail :=
  (parseLimit o.2).bind fun l => if l.2 = [] then some ⟨w, o.1, l.1⟩ else none

/-- What is read where only a limit may stand.

**Proof sketch.** By cases on the suffixes. An order cannot be read where only a limit may stand,
and nothing can be read behind a limit. -/
lemma parseEnd_flatMap (suffixes : List Suffix) {w : Option Cond} {items : List Item}
    {tail : Tail} :
    parseEnd w (items, suffixes.flatMap Suffix.toks) = some tail ↔
      AtMostLimit suffixes ∧ tail = ⟨w, items, (suffixes.filterMap Suffix.bound).head?⟩ := by
  cases suffixes with
  | nil => exact ⟨fun h => ⟨trivial, (Option.some.inj h).symm⟩, fun h => congrArg some h.2.symm⟩
  | cons suffix suffixes =>
    cases suffix with
    | order column direction =>
      have hnot : ¬ AtMostLimit (.order column direction :: suffixes) := id
      rw [parseEnd, List.flatMap_cons, Suffix.toks, List.append_assoc, List.append_assoc,
        List.cons_append, parseLimit_of_not (by decide)]
      simp [hnot]
    | limit n =>
      rw [parseEnd, List.flatMap_cons, parseLimit_limit, Option.bind_some]
      cases suffixes with
      | nil => exact ⟨fun h => ⟨trivial, (Option.some.inj h).symm⟩, fun h => congrArg some h.2.symm⟩
      | cons suffix suffixes =>
        have hne : (suffix :: suffixes).flatMap Suffix.toks ≠ [] :=
          mt flatMap_toks_eq_nil_iff.mp (List.cons_ne_nil _ _)
        have hnot : ¬ AtMostLimit (.limit n :: suffix :: suffixes) := id
        rw [if_neg hne]
        simp [hnot]

/-- What is read behind the condition.

**Proof sketch.** By cases on the suffixes: with an order at the front, the parser reads one column
and expects the end, since no comma follows; with a limit, or nothing, there is no order. -/
lemma parseOrder_flatMap {suffixes : List Suffix} {w : Option Cond} {tail : Tail} :
    (parseOrder (suffixes.flatMap Suffix.toks)).bind (parseEnd w) = some tail ↔
      InOrder suffixes ∧ tail = ⟨w, suffixes.filterMap Suffix.item,
        (suffixes.filterMap Suffix.bound).head?⟩ := by
  cases suffixes with
  | nil => exact parseEnd_flatMap []
  | cons suffix suffixes =>
    cases suffix with
    | order column direction =>
      have hcomma : (suffixes.flatMap Suffix.toks).head? ≠ some comma := by
        intro h
        exact head_flatMap_of (P := (· ≠ comma)) (by decide) (by decide) suffixes comma h rfl
      rw [List.flatMap_cons, parseOrder_order column direction hcomma, Option.bind_some,
        parseEnd_flatMap, InOrder]
      constructor
      · rintro ⟨h, rfl⟩
        refine ⟨h, ?_⟩
        rw [List.filterMap_cons, List.filterMap_cons, h.items_eq]
        rfl
      · rintro ⟨h, rfl⟩
        refine ⟨h, ?_⟩
        rw [List.filterMap_cons, List.filterMap_cons, h.items_eq]
        rfl
    | limit n =>
      have horder : parseOrder ((Suffix.limit n :: suffixes).flatMap Suffix.toks) =
          some ([], (Suffix.limit n :: suffixes).flatMap Suffix.toks) := by
        rw [List.flatMap_cons, Suffix.toks, List.cons_append]
        exact parseOrder_of_not (by decide) _
      rw [horder, Option.bind_some, parseEnd_flatMap]
      constructor
      · rintro ⟨h, rfl⟩
        exact ⟨h, by rw [h.items_eq]⟩
      · rintro ⟨h, rfl⟩
        have hlimit : AtMostLimit (.limit n :: suffixes) := h
        exact ⟨hlimit, by rw [hlimit.items_eq]⟩

/-! ## Statements -/

/-- The keyword of a condition. -/
def whereToken : Token := .word (text "where")

/-- The token `where` is this keyword. -/
lemma isKeyword_whereToken : isKeyword "WHERE" whereToken = true := by decide

/-- There is no condition in no text. -/
lemma parseTail_whereToken : parseTail [whereToken] = none := by
  rw [parseTail, parseWhere, if_pos isKeyword_whereToken]
  rfl

/-- **How the text behind `where` is read.**

**Proof sketch.** The tokens of the text are those of the expression and those of the suffixes. An
expression without a condition leaves `where` in front of a suffix, which no condition begins with;
otherwise the condition is read up to the first suffix, if it is sound. -/
theorem parseTail_where {e : Expr} {suffixes : List Suffix} {ts : List Token}
    (hts : Spells (str e suffixes).condition ts) {tail : Tail} :
    parseTail (whereToken :: ts) = some tail ↔
      e.Sound ∧ ¬ e.Blank ∧ InOrder suffixes ∧ tail = intended e suffixes := by
  obtain ⟨te, c, hspells, hreads, hsound, hunsound⟩ := e.reads_eval
  obtain rfl : te ++ suffixes.flatMap Suffix.toks = ts :=
    (spells_foldl hspells suffixes).tokens_eq.symm.trans hts.tokens_eq
  by_cases hnil : te ++ suffixes.flatMap Suffix.toks = []
  · obtain ⟨rfl, -⟩ := List.append_eq_nil_iff.mp hnil
    have hc : c = none := Option.map_eq_none_iff.mp (hreads [] trivial 0 le_rfl).symm
    rw [hnil, parseTail_whereToken]
    constructor
    · exact nofun
    · rintro ⟨hs, hblank, -⟩
      exact absurd ((Expr.meaning_eq_none_iff e).mp ((hsound hs).symm.trans hc)) hblank
  have hpos := List.length_pos_of_ne_nil hnil
  obtain ⟨n, hn⟩ : ∃ n, (te ++ suffixes.flatMap Suffix.toks).length + 1 = n + 2 :=
    ⟨(te ++ suffixes.flatMap Suffix.toks).length - 1, by omega⟩
  have hlength : te.length ≤ n + 1 := by
    rw [List.length_append] at hn
    omega
  have hand := head_flatMap_of (P := fun t => isKeyword "AND" t = false) (by decide)
    (by decide) suffixes
  have hor := head_flatMap_of (P := fun t => isKeyword "OR" t = false) (by decide)
    (by decide) suffixes
  rw [parseTail, parseWhere, if_pos isKeyword_whereToken, hn,
    parseCond_of_reads hreads (stops_flatMap suffixes) hand hor hlength]
  show (((c.map fun c => (c, suffixes.flatMap Suffix.toks)).map fun r => (some r.1, r.2)).bind
    fun w => (parseOrder w.2).bind (parseEnd w.1)) = some tail ↔ _
  by_cases hs : e.Sound
  · rw [hsound hs]
    cases hm : e.meaning with
    | none =>
      have hblank := (Expr.meaning_eq_none_iff e).mp hm
      simp [hblank]
    | some a =>
      have hblank : ¬ e.Blank := fun h => by simp [(Expr.meaning_eq_none_iff e).mpr h] at hm
      simp only [Option.map_some, Option.bind_some, parseOrder_flatMap, intended, hm, hs, hblank,
        not_false_eq_true, true_and]
  · rw [hunsound hs]
    simp [hs]

section Statements

variable {R : Type} [ResultSet.Table R] {e : Expr} {suffixes : List Suffix} {tail : Tail}

/-- There is no text if there are only empty conditions and nothing is added. -/
lemma str_eq_nil_iff : (str e suffixes).condition = [] ↔ e.Blank ∧ suffixes = [] := by
  obtain ⟨ts, -, hspells, -⟩ := e.reads_eval
  cases suffixes with
  | nil =>
    rw [str, List.foldl_nil, Expr.eval_eq_nil_iff]
    simp
  | cons suffix suffixes =>
    have hne : (str e (suffix :: suffixes)).condition ≠ [] := by
      intro hnil
      have htokens := (spells_foldl hspells (suffix :: suffixes)).tokens_eq
      change tokens (str e (suffix :: suffixes)).condition = _ at htokens
      rw [hnil] at htokens
      have happ := (List.append_eq_nil_iff.mp htokens.symm).2
      exact List.cons_ne_nil _ _ (flatMap_toks_eq_nil_iff.mp happ)
    simp [hne]

/-- The statement is read behind the tables. -/
lemma wellFormed_iff_of_tokens {statement : List UInt8} {ts : List Token}
    (h : tokens statement = tokens (ResultSet.Table.selectSQL R) ++ ts) :
    WellFormed R statement tail ↔ parseTail ts = some tail := by
  constructor
  · rintro ⟨ts', h', hparse⟩
    obtain rfl : ts = ts' := List.append_cancel_left (h.symm.trans h')
    exact hparse
  · exact fun hparse => ⟨ts, h, hparse⟩

variable (hselect : Complete (Sql.after (ResultSet.Table.selectSQL R)))

include hselect

/-- **How the statement of `batchLoad` is read.**

**Proof sketch.** Without any text the statement is the selection itself. With some, ` where ` is
put in between, and the rest is `parseTail_where`. -/
theorem wellFormed_batchLoad_iff :
    WellFormed R (batchLoad R (str e suffixes)) tail ↔
      Regular e suffixes ∧ tail = intended e suffixes := by
  rw [batchLoad, ResultSet.loadStatement]
  split
  next hnil =>
    obtain ⟨hblank, rfl⟩ := str_eq_nil_iff.mp hnil
    rw [wellFormed_iff_of_tokens (List.append_nil _).symm, intended,
      (Expr.meaning_eq_none_iff e).mpr hblank]
    have hregular : Regular e [] := ⟨hblank.sound, trivial, fun _ => rfl⟩
    exact ⟨fun h => ⟨hregular, (Option.some.inj h).symm⟩, fun h => congrArg some h.2.symm⟩
  next hne =>
    obtain ⟨te, -, hspells, -⟩ := e.reads_eval
    have hstr : Spells (str e suffixes).condition (te ++ suffixes.flatMap Suffix.toks) :=
      spells_foldl hspells suffixes
    have hwhere : Separator (text " where ") [whereToken] :=
      ⟨⟨_, _, rfl, by decide⟩, by decide, by decide⟩
    have hstatement := tokens_append_separator hselect hwhere (str e suffixes).condition
    rw [hstr.tokens_eq, List.append_assoc (tokens _)] at hstatement
    rw [wellFormed_iff_of_tokens hstatement]
    show parseTail (whereToken :: (te ++ suffixes.flatMap Suffix.toks)) = some tail ↔ _
    rw [parseTail_where hstr]
    constructor
    · rintro ⟨hsound, hblank, hinOrder, rfl⟩
      exact ⟨⟨hsound, hinOrder, fun h => absurd h hblank⟩, rfl⟩
    · rintro ⟨⟨hsound, hinOrder, hblank⟩, rfl⟩
      exact ⟨hsound, fun h => hne (str_eq_nil_iff.mpr ⟨h, hblank h⟩), hinOrder, rfl⟩

omit hselect in
/-- `load` adds a limit of its own. -/
lemma load_eq (hne : (str e suffixes).condition ≠ []) :
    load R (str e suffixes) = batchLoad R (str e (suffixes ++ [.limit 1])) := by
  have hlimit : text " limit 1" = text " limit " ++ DBCondition.decimal 1 := by decide
  have hstr : (str e (suffixes ++ [.limit 1])).condition =
      (str e suffixes).condition ++ text " limit 1" := by
    rw [str, List.foldl_append, hlimit, ← List.append_assoc]
    rfl
  have hne' : (str e (suffixes ++ [.limit 1])).condition ≠ [] := by
    rw [hstr]
    exact List.append_ne_nil_of_left_ne_nil hne _
  rw [load, if_neg hne, batchLoad, ResultSet.loadStatement, if_neg hne', hstr, ← List.append_assoc]

omit hselect in
/-- With one more limit, everything is in order if there was no limit.

**Proof sketch.** By cases on the suffixes, as `InOrder` is defined: behind an order there may be
one limit, and behind a limit nothing. -/
lemma inOrder_append_limit {n : ℤ} :
    InOrder (suffixes ++ [.limit n]) ↔ InOrder suffixes ∧ suffixes.filterMap Suffix.bound = [] := by
  have hatMost : ∀ suffixes, AtMostLimit (suffixes ++ [.limit n]) ↔ suffixes = [] := by
    intro suffixes
    match suffixes with
    | [] => exact ⟨fun _ => rfl, fun _ => trivial⟩
    | [.order _ _] => exact ⟨fun h => h.elim, nofun⟩
    | [.limit _] => exact ⟨fun h => h.elim, nofun⟩
    | .order _ _ :: _ :: _ => exact ⟨fun h => h.elim, nofun⟩
    | .limit _ :: _ :: _ => exact ⟨fun h => h.elim, nofun⟩
  match suffixes with
  | [] => exact ⟨fun _ => ⟨trivial, rfl⟩, fun _ => trivial⟩
  | .order _ _ :: suffixes =>
    have hnil : AtMostLimit suffixes ∧ suffixes.filterMap Suffix.bound = [] ↔ suffixes = [] := by
      match suffixes with
      | [] => exact ⟨fun _ => rfl, fun _ => ⟨trivial, rfl⟩⟩
      | .order _ _ :: _ => exact ⟨fun h => h.1.elim, nofun⟩
      | .limit _ :: _ => exact ⟨fun h => absurd h.2 nofun, nofun⟩
    exact (hatMost suffixes).trans hnil.symm
  | .limit m :: suffixes =>
    exact ⟨fun h => absurd ((hatMost (.limit m :: suffixes)).mp h) nofun, fun h => absurd h.2 nofun⟩

/-- **How the statement of `load` is read.**

**Proof sketch.** Without any text a limit is put behind the selection. With some it is put behind
the condition, where it is one more suffix, so that `wellFormed_batchLoad_iff` applies; a limit
that was there would be the second. -/
theorem wellFormed_load_iff :
    WellFormed R (load R (str e suffixes)) tail ↔
      Regular e suffixes ∧ suffixes.filterMap Suffix.bound = [] ∧
        tail = { intended e suffixes with limit := some 1 } := by
  by_cases hnil : (str e suffixes).condition = []
  · obtain ⟨hblank, rfl⟩ := str_eq_nil_iff.mp hnil
    have hregular : Regular e [] := ⟨hblank.sound, trivial, fun _ => rfl⟩
    have hlimit : tokens (text " limit 1") = (Suffix.limit 1).toks := by decide
    have hstatement : tokens (load R (str e [])) =
        tokens (ResultSet.Table.selectSQL R) ++ (Suffix.limit 1).toks := by
      rw [load, if_pos hnil, ← hlimit]
      exact tokens_append_of_separates (by decide) hselect
    have hparse : parseTail (Suffix.limit 1).toks = some ⟨none, [], some 1⟩ := by decide
    rw [wellFormed_iff_of_tokens hstatement, hparse, intended,
      (Expr.meaning_eq_none_iff e).mpr hblank]
    exact ⟨fun h => ⟨hregular, rfl, (Option.some.inj h).symm⟩, fun h => congrArg some h.2.2.symm⟩
  · rw [load_eq hnil, wellFormed_batchLoad_iff hselect]
    have hblank : e.Blank → suffixes ++ [.limit 1] ≠ [] := fun _ => by simp
    have hintended : suffixes.filterMap Suffix.bound = [] →
        intended e (suffixes ++ [.limit 1]) = { intended e suffixes with limit := some 1 } := by
      intro hbound
      simp [intended, hbound, Suffix.item, Suffix.bound]
    constructor
    · rintro ⟨⟨hsound, hinOrder, hempty⟩, rfl⟩
      obtain ⟨hinOrder, hbound⟩ := inOrder_append_limit.mp hinOrder
      exact ⟨⟨hsound, hinOrder, fun h => absurd (hempty h) (hblank h)⟩, hbound, hintended hbound⟩
    · rintro ⟨⟨hsound, hinOrder, hempty⟩, hbound, rfl⟩
      refine ⟨⟨hsound, inOrder_append_limit.mpr ⟨hinOrder, hbound⟩, fun h => ?_⟩,
        (hintended hbound).symm⟩
      exact absurd (str_eq_nil_iff.mpr ⟨h, hempty h⟩) hnil

end Statements

/-- **When the statements are read as intended**: that of `batchLoad` if the expression is regular,
and that of `load`, with its own limit, if no limit is added, either.

**Proof sketch.** One lemma for each of the two statements. -/
theorem wellFormed_iff (R : Type) [ResultSet.Table R]
    (hselect : Complete (Sql.after (ResultSet.Table.selectSQL R))) (e : Expr)
    (suffixes : List Suffix) :
    (WellFormed R (batchLoad R (str e suffixes)) (intended e suffixes) ↔ Regular e suffixes) ∧
      (WellFormed R (load R (str e suffixes)) { intended e suffixes with limit := some 1 } ↔
        Regular e suffixes ∧ suffixes.filterMap Suffix.bound = []) := by
  constructor
  · rw [wellFormed_batchLoad_iff hselect, and_iff_left rfl]
  · rw [wellFormed_load_iff hselect, and_iff_left rfl]

/-- `Field("name") == "x"`. -/
def nameIsX : Atom :=
  @Operation.atom ⟨text "name"⟩ (by decide) (by decide)
    (by decide) (.eq (text "x")) ⟨_⟩ rfl (by decide)

/-- The field `a`. -/
def columnA : Column := ⟨text "a", by decide, by decide, by decide⟩

/-- The field `b`. -/
def columnB : Column := ⟨text "b", by decide, by decide, by decide⟩

/-- An empty operand on the left, one ordering and a limit. -/
theorem wellFormed_order_limit :
    (str (.node .and (.node .or .empty (.atom nameIsX)) (.atom nameIsX))
        [.order columnB .orderDesc, .limit (-1)]).condition =
      text "((name=\"x\") and (name=\"x\")) order by b DESC limit -1" ∧
    WellFormed ResultSet.Plain
      (batchLoad ResultSet.Plain
        (str (.node .and (.node .or .empty (.atom nameIsX)) (.atom nameIsX))
          [.order columnB .orderDesc, .limit (-1)]))
      ⟨some (.and (.atom nameIsX.comparison) (.atom nameIsX.comparison)),
        [⟨[.word (text "b")], false⟩], some (-1)⟩ := by
  refine ⟨by decide, ?_⟩
  refine (wellFormed_iff ResultSet.Plain (by decide) _ _).1.mpr ⟨?_, trivial, ?_⟩
  · exact ⟨⟨trivial, trivial, fun h => h.elim⟩, trivial, fun h => h.elim⟩
  · exact fun h => h.2.elim

/-- Two orderings, and an empty operand on the right: the statements cannot be read at all. -/
theorem not_wellFormed :
    ((str (.atom nameIsX) [.order columnA .orderAsc, .order columnB .orderDesc]).condition =
        text "(name=\"x\") order by a ASC order by b DESC" ∧
      ∀ tail, ¬ WellFormed ResultSet.Plain (batchLoad ResultSet.Plain
        (str (.atom nameIsX) [.order columnA .orderAsc, .order columnB .orderDesc])) tail) ∧
    (str (.node .and (.atom nameIsX) .empty) []).condition = text "((name=\"x\") and )" ∧
      ∀ tail, ¬ WellFormed ResultSet.Plain (batchLoad ResultSet.Plain
        (str (.node .and (.atom nameIsX) .empty) [])) tail := by
  have hselect : Complete (Sql.after (ResultSet.Table.selectSQL ResultSet.Plain)) := by
    decide
  refine ⟨⟨by decide, fun tail h => ?_⟩, by decide, fun tail h => ?_⟩
  · obtain ⟨hregular, -⟩ := (wellFormed_batchLoad_iff hselect).mp h
    exact hregular.inOrder
  · obtain ⟨hregular, -⟩ := (wellFormed_batchLoad_iff hselect).mp h
    exact hregular.sound.2.2 trivial

end HkuUtils.Condition
