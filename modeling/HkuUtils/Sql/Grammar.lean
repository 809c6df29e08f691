import HkuUtils.Http
import HkuUtils.Search
import HkuUtils.Sql.Lexer

set_option relaxedAutoImplicit false
set_option autoImplicit false

/-!
# Conditions, orderings and limits

What may follow the tables of a `SELECT` statement: a condition of comparisons with `AND` and `OR`,
an ordering and a limit, in this order, each of them optional. The parser reads tokens; a comparison
is any sequence of tokens without connectives in which the parentheses match.

## Main definitions

* `Sql.Cond`, `Tail` — conditions, and what follows the tables.
* `Sql.parseCond`, `parseTail` — the parsers; the first one has fuel.
* `Sql.Plain` — the tokens of a comparison.
* `Sql.Reads` — what some tokens are as an operand.

## Main results

* `Sql.reads_plain`, `reads_paren`, `reads_and`, `reads_or`, `reads_nil` — the operands.
* `Sql.parseCond_of_reads` — an operand is a condition.
* `Sql.parseItems_single` — an ordering by one name.
-/

namespace Sql

open Search (text toUpper)

/-! ## Syntax -/

/-- A condition. -/
inductive Cond where
  | atom (ts : List Token)
  | and (a b : Cond)
  | or (a b : Cond)
  deriving DecidableEq, Repr

/-- A part of an ordering: some tokens, ascending or descending. -/
structure Item where
  /-- What is compared. -/
  name : List Token
  /-- The direction. -/
  ascending : Bool
  deriving DecidableEq, Repr

/-- What follows the tables of a `SELECT` statement. -/
structure Tail where
  /-- The condition. -/
  cond : Option Cond
  /-- The ordering. -/
  order : List Item
  /-- The limit. -/
  limit : Option ℤ
  deriving DecidableEq, Repr

/-- The token is a keyword. -/
def isKeyword (k : String) : Token → Bool
  | .word s => toUpper s = text k
  | _ => false

/-- `(`. -/
def lparen : Token := .symbol 40

/-- `)`. -/
def rparen : Token := .symbol 41

/-- `,`. -/
def comma : Token := .symbol 44

/-- A token that ends a comparison. -/
def stops (t : Token) : Bool :=
  t = rparen || t = comma || isKeyword "AND" t || isKeyword "OR" t || isKeyword "ORDER" t ||
    isKeyword "LIMIT" t

/-- A number in decimal. -/
lemma spells_decimal (n : ℕ) : Spells (Http.decimal n) [.word (Http.decimal n)] := by
  have hword : ∀ c ∈ Http.decimal n, isWordChar c = true := by
    intro c hc
    have hdigit : (48 ≤ c && c ≤ 57) = true := Http.isDigit_of_mem_decimal hc
    simp [isWordChar, hdigit]
  have hne := Http.decimal_ne_nil n
  refine ⟨tokens_word hne hword, ?_⟩
  rw [after, lex_of_word hne hword]
  trivial

/-! ## Conditions -/

/-- The tokens up to the one that ends a comparison, inside of `d` parentheses. -/
def splitAtom : ℕ → List Token → Option (List Token × List Token)
  | 0, [] => some ([], [])
  | _ + 1, [] => none
  | 0, t :: ts =>
    if stops t then some ([], t :: ts)
    else (splitAtom (if t = lparen then 1 else 0) ts).map fun r => (t :: r.1, r.2)
  | d + 1, t :: ts =>
    (splitAtom (if t = lparen then d + 2 else if t = rparen then d else d + 1) ts).map
      fun r => (t :: r.1, r.2)

/-- What a parser of conditions returns: a condition and the tokens that follow it. -/
abbrev Parser : Type := List Token → Option (Cond × List Token)

/-- A comparison. -/
def parseAtom : Parser := fun ts =>
  (splitAtom 0 ts).bind fun r => if r.1 = [] then none else some (.atom r.1, r.2)

/-- The tokens go on with `)`. -/
def closed (r : Cond × List Token) : Option (Cond × List Token) :=
  match r.2 with
  | [] => none
  | t :: ts => if t = rparen then some (r.1, ts) else none

/-- A condition in parentheses, or a comparison. -/
def parsePrim (sub : Parser) : Parser
  | [] => parseAtom []
  | t :: ts => if t = lparen then (sub ts).bind closed else parseAtom (t :: ts)

/-- More operands of the same operator, at most `n - 1`. -/
def chain (op : String) (mk : Cond → Cond → Cond) (operand : Parser) :
    ℕ → Cond → List Token → Option (Cond × List Token)
  | 0, _, _ => none
  | _ + 1, c, [] => some (c, [])
  | n + 1, c, t :: ts =>
    if isKeyword op t then (operand ts).bind fun r => chain op mk operand n (mk c r.1) r.2
    else some (c, t :: ts)

/-- Operands with `AND` between them. -/
def parseConj (sub : Parser) (n : ℕ) : Parser := fun ts =>
  (parsePrim sub ts).bind fun r => chain "AND" .and (parsePrim sub) n r.1 r.2

/-- Conjunctions with `OR` between them. -/
def parseDisj (sub : Parser) (n : ℕ) : Parser := fun ts =>
  (parseConj sub n ts).bind fun r => chain "OR" .or (parseConj sub n) n r.1 r.2

/-- A condition, with fuel for the parentheses and the operators. -/
def parseCond : ℕ → Parser
  | 0 => fun _ => none
  | n + 1 => parseDisj (parseCond n) n

/-! ## Orderings and limits -/

/-- A token that ends the name in an ordering. -/
def endsName (t : Token) : Bool :=
  t = rparen || t = comma || isKeyword "ASC" t || isKeyword "DESC" t || isKeyword "ORDER" t ||
    isKeyword "LIMIT" t

/-- The direction after a name. -/
def direction : List Token → Bool × List Token
  | [] => (true, [])
  | t :: ts =>
    if isKeyword "ASC" t then (true, ts) else if isKeyword "DESC" t then (false, ts)
    else (true, t :: ts)

/-- A part of an ordering. -/
def parseItem (ts : List Token) : Option (Item × List Token) :=
  if ts.takeWhile (!endsName ·) = [] then none
  else
    let d := direction (ts.dropWhile (!endsName ·))
    some (⟨ts.takeWhile (!endsName ·), d.1⟩, d.2)

/-- The parts of an ordering, at most `n`. -/
def parseItems : ℕ → List Token → Option (List Item × List Token)
  | 0, _ => none
  | n + 1, ts =>
    (parseItem ts).bind fun r =>
      if r.2.head? = some comma then
        (parseItems n r.2.tail).map fun r' => (r.1 :: r'.1, r'.2)
      else some ([r.1], r.2)

/-- The condition after `WHERE`. -/
def parseWhere : List Token → Option (Option Cond × List Token)
  | [] => some (none, [])
  | t :: ts =>
    if isKeyword "WHERE" t then (parseCond (ts.length + 1) ts).map fun r => (some r.1, r.2)
    else some (none, t :: ts)

/-- The ordering after `ORDER BY`. -/
def parseOrder : List Token → Option (List Item × List Token)
  | [] => some ([], [])
  | [t] => if isKeyword "ORDER" t then none else some ([], [t])
  | t :: u :: ts =>
    if isKeyword "ORDER" t then
      if isKeyword "BY" u then parseItems (ts.length + 1) ts else none
    else some ([], t :: u :: ts)

/-- A number, with or without a sign. -/
def parseNumber : List Token → Option (ℤ × List Token)
  | .word d :: ts => (Http.number d).map fun n : ℕ => ((n : ℤ), ts)
  | .symbol 45 :: .word d :: ts => (Http.number d).map fun n : ℕ => (-(n : ℤ), ts)
  | _ => none

/-- The number after `LIMIT`. -/
def parseLimit : List Token → Option (Option ℤ × List Token)
  | [] => some (none, [])
  | t :: ts =>
    if isKeyword "LIMIT" t then (parseNumber ts).map fun r => (some r.1, r.2)
    else some (none, t :: ts)

/-- What follows the tables of a `SELECT` statement. -/
def parseTail (ts : List Token) : Option Tail :=
  (parseWhere ts).bind fun w => (parseOrder w.2).bind fun o => (parseLimit o.2).bind fun l =>
    if l.2 = [] then some ⟨w.1, o.1, l.1⟩ else none

/-! ## Comparisons -/

/-- The tokens of a comparison. -/
structure Plain (b : List Token) : Prop where
  ne_nil : b ≠ []
  head_ne : b.head? ≠ some lparen
  split : splitAtom 0 b = some (b, [])

/-- Tokens that begin with one that ends a comparison, or none. -/
def Stops : List Token → Prop
  | [] => True
  | t :: _ => stops t = true

/-- Tokens without connectives are read up to what follows them.

**Proof sketch.** By induction on the tokens, with the depth of the parentheses; at depth zero the
rest begins with a token that stops the reading. -/
lemma splitAtom_append {d : ℕ} {b : List Token} (h : splitAtom d b = some (b, []))
    {rest : List Token} (hrest : Stops rest) : splitAtom d (b ++ rest) = some (b, rest) := by
  induction b generalizing d with
  | nil =>
    cases d with
    | zero =>
      cases rest with
      | nil => rfl
      | cons t ts =>
        have hstop : stops t = true := hrest
        rw [List.nil_append, splitAtom, if_pos hstop]
    | succ d => cases h
  | cons t b ih =>
    have hmap : ∀ {e : ℕ}, (splitAtom e b).map (fun r => (t :: r.1, r.2)) = some (t :: b, []) →
        (splitAtom e (b ++ rest)).map (fun r => (t :: r.1, r.2)) = some (t :: b, rest) := by
      intro e he
      obtain ⟨⟨b', r⟩, hsplit, heq⟩ := Option.map_eq_some_iff.mp he
      obtain ⟨rfl, rfl⟩ : b' = b ∧ r = [] := by simpa using heq
      rw [ih hsplit, Option.map_some]
    cases d with
    | zero =>
      rw [splitAtom] at h
      rw [List.cons_append, splitAtom]
      split at h
      next => simp at h
      next hstop =>
        rw [if_neg hstop]
        exact hmap h
    | succ d =>
      rw [splitAtom] at h
      rw [List.cons_append, splitAtom]
      exact hmap h

/-- A comparison is read up to what follows it. -/
lemma parseAtom_plain {b : List Token} (hb : Plain b) {rest : List Token} (hrest : Stops rest) :
    parseAtom (b ++ rest) = some (.atom b, rest) := by
  rw [parseAtom, splitAtom_append hb.split hrest, Option.bind_some, if_neg hb.ne_nil]

/-- There is no comparison before a token that ends one. -/
lemma parseAtom_stops {rest : List Token} (hrest : Stops rest) : parseAtom rest = none := by
  cases rest with
  | nil => rfl
  | cons t ts =>
    have hstop : stops t = true := hrest
    rw [parseAtom, splitAtom, if_pos hstop]
    rfl

/-! ## Operands -/

/-- As an operand, the tokens are the condition, or are not one at all. -/
def Reads (ts : List Token) (c : Option Cond) : Prop :=
  ∀ rest, Stops rest → ∀ n, ts.length ≤ n →
    parsePrim (parseCond n) (ts ++ rest) = c.map fun c => (c, rest)

/-- No more operands. -/
lemma chain_end {op : String} {mk : Cond → Cond → Cond} {operand : Parser} {n : ℕ} {c : Cond}
    {rest : List Token} (h : ∀ t ∈ rest.head?, isKeyword op t = false) :
    chain op mk operand (n + 1) c rest = some (c, rest) := by
  cases rest with
  | nil => rfl
  | cons t ts => rw [chain, h t (by simp), if_neg Bool.false_ne_true]

/-- The closing parenthesis ends an operand. -/
lemma stops_rparen (rest : List Token) : Stops (rparen :: rest) := rfl

/-- A comparison is an operand. -/
theorem reads_plain {b : List Token} (hb : Plain b) : Reads b (some (.atom b)) := by
  intro rest hrest n _
  have hatom := parseAtom_plain hb hrest
  obtain ⟨t, b, rfl⟩ := List.exists_cons_of_ne_nil hb.ne_nil
  have hne : t ≠ lparen := fun h => hb.head_ne (congrArg some h)
  rw [List.cons_append, parsePrim, if_neg hne]
  exact hatom

/-- No tokens are no operand. -/
theorem reads_nil : Reads [] none := by
  intro rest hrest n _
  have hatom := parseAtom_stops hrest
  cases rest with
  | nil => exact hatom
  | cons t ts =>
    have hne : t ≠ lparen := by
      rintro rfl
      exact Bool.false_ne_true hrest
    rw [List.nil_append, parsePrim, if_neg hne]
    exact hatom

/-- A condition in parentheses, from how it is read inside of them. -/
lemma parsePrim_paren {ts rest : List Token} {n : ℕ} {c : Option Cond}
    (h : parseCond n (ts ++ rparen :: rest) = c.map fun c => (c, rparen :: rest)) :
    parsePrim (parseCond n) (lparen :: ts ++ rparen :: rest) = c.map fun c => (c, rest) := by
  rw [List.cons_append, parsePrim, if_pos rfl, h]
  cases c with
  | none => rfl
  | some c => rfl

/-- An operand is a condition. -/
theorem parseCond_of_reads {ts : List Token} {c : Option Cond} (h : Reads ts c) {rest : List Token}
    (hrest : Stops rest) (hand : ∀ t ∈ rest.head?, isKeyword "AND" t = false)
    (hor : ∀ t ∈ rest.head?, isKeyword "OR" t = false) {n : ℕ} (hn : ts.length ≤ n + 1) :
    parseCond (n + 2) (ts ++ rest) = c.map fun c => (c, rest) := by
  rw [parseCond, parseDisj, parseConj, h rest hrest (n + 1) hn]
  cases c with
  | none => rfl
  | some c =>
    rw [Option.map_some, Option.bind_some, chain_end hand, Option.bind_some, chain_end hor]

/-- What is not an operand is not the beginning of a condition. -/
lemma parseConj_none {ts rest : List Token} (h : Reads ts none) (hrest : Stops rest) {n : ℕ}
    (hn : ts.length ≤ n) : parseConj (parseCond n) n (ts ++ rest) = none := by
  rw [parseConj, h rest hrest n hn]
  rfl

/-- An operand before something that is not `AND` is a conjunction. -/
lemma parseConj_some {ts rest : List Token} {c : Cond} (h : Reads ts (some c)) (hrest : Stops rest)
    (hand : ∀ t ∈ rest.head?, isKeyword "AND" t = false) {n : ℕ} (hn : ts.length ≤ n + 1) :
    parseConj (parseCond (n + 1)) (n + 1) (ts ++ rest) = some (c, rest) := by
  rw [parseConj, h rest hrest (n + 1) hn]
  exact chain_end hand

/-- The closing parenthesis is no keyword. -/
lemma rparen_not_keyword {k : String} {rest : List Token} :
    ∀ t ∈ (rparen :: rest).head?, isKeyword k t = false := by
  intro t ht
  obtain rfl : rparen = t := by simpa using ht
  rfl

/-- An operand in parentheses. -/
theorem reads_paren {ts : List Token} {c : Option Cond} (h : Reads ts c) :
    Reads (lparen :: ts ++ [rparen]) c := by
  intro rest _ n hn
  obtain ⟨m, rfl⟩ : ∃ m, n = m + 2 := ⟨n - 2, by simp at hn; omega⟩
  rw [List.append_assoc, List.singleton_append]
  refine parsePrim_paren (parseCond_of_reads h (stops_rparen rest) rparen_not_keyword
    rparen_not_keyword ?_)
  simp at hn
  omega

section Binary

variable {l r : List Token} {cl cr : Option Cond} {op : Token}

/-- **Two operands with `AND` in parentheses**; without the second one it is no condition.

**Proof sketch.** The first operand is read up to `AND`, and the second up to the closing
parenthesis, which ends the conjunction and the disjunction. -/
theorem reads_and (hl : Reads l cl) (hr : Reads r cr) (hop : isKeyword "AND" op = true) :
    Reads (lparen :: (l ++ op :: r) ++ [rparen]) (cl.bind fun a => cr.map (.and a)) := by
  intro rest _ n hn
  obtain ⟨m, rfl⟩ : ∃ m, n = m + 3 := ⟨n - 3, by simp at hn; omega⟩
  have hlm : l.length ≤ m + 2 := by simp at hn; omega
  have hrm : r.length ≤ m + 2 := by simp at hn; omega
  have hstop : Stops (op :: (r ++ rparen :: rest)) := by simp [Stops, stops, hop]
  rw [List.append_assoc, List.singleton_append]
  refine parsePrim_paren ?_
  rw [List.append_assoc, List.cons_append, parseCond, parseDisj, parseConj, hl _ hstop _ hlm]
  cases cl with
  | none => rfl
  | some a =>
    rw [Option.map_some, Option.bind_some, chain, if_pos hop, hr _ (stops_rparen rest) _ hrm]
    cases cr with
    | none => rfl
    | some b =>
      rw [Option.map_some, Option.bind_some, chain_end rparen_not_keyword, Option.bind_some,
        chain_end rparen_not_keyword]
      rfl

/-- **Two operands with `OR` in parentheses**; without the second one it is no condition.

**Proof sketch.** The first operand is read up to `OR`, which is no `AND`, so the conjunction ends
there and the disjunction goes on with the second, up to the closing parenthesis. -/
theorem reads_or (hl : Reads l cl) (hr : Reads r cr) (hop : isKeyword "OR" op = true)
    (hand : isKeyword "AND" op = false) :
    Reads (lparen :: (l ++ op :: r) ++ [rparen]) (cl.bind fun a => cr.map (.or a)) := by
  intro rest _ n hn
  obtain ⟨m, rfl⟩ : ∃ m, n = m + 3 := ⟨n - 3, by simp at hn; omega⟩
  have hlm : l.length ≤ m + 2 := by simp at hn; omega
  have hrm : r.length ≤ m + 2 := by simp at hn; omega
  have hstop : Stops (op :: (r ++ rparen :: rest)) := by simp [Stops, stops, hop]
  have hhead : ∀ t ∈ (op :: (r ++ rparen :: rest)).head?, isKeyword "AND" t = false := by
    intro t ht
    obtain rfl : op = t := by simpa using ht
    exact hand
  rw [List.append_assoc, List.singleton_append]
  refine parsePrim_paren ?_
  rw [List.append_assoc, List.cons_append, parseCond, parseDisj]
  cases cl with
  | none => rw [parseConj_none hl hstop hlm]; rfl
  | some a =>
    rw [parseConj_some hl hstop hhead hlm, Option.bind_some, chain, if_pos hop]
    cases cr with
    | none => rw [parseConj_none hr (stops_rparen rest) hrm]; rfl
    | some b =>
      rw [parseConj_some hr (stops_rparen rest) rparen_not_keyword hrm, Option.bind_some,
        chain_end rparen_not_keyword]
      rfl

end Binary

/-! ## What follows a condition -/

/-- No limit before another word. -/
lemma parseLimit_of_not {t : Token} (h : isKeyword "LIMIT" t = false) (ts : List Token) :
    parseLimit (t :: ts) = some (none, t :: ts) := by
  rw [parseLimit, h, if_neg Bool.false_ne_true]

/-- No ordering before another word. -/
lemma parseOrder_of_not {t : Token} (h : isKeyword "ORDER" t = false) (ts : List Token) :
    parseOrder (t :: ts) = some ([], t :: ts) := by
  cases ts with
  | nil => rw [parseOrder, h, if_neg Bool.false_ne_true]
  | cons u ts => rw [parseOrder, h, if_neg Bool.false_ne_true]

/-- A part of an ordering with its direction. -/
lemma parseItem_append {b : List Token} (hne : b ≠ []) (hb : ∀ t ∈ b, endsName t = false)
    {t : Token} (ht : endsName t = true) {rest : List Token} {d : Bool}
    (hd : direction (t :: rest) = (d, rest)) :
    parseItem (b ++ t :: rest) = some (⟨b, d⟩, rest) := by
  have hall : ∀ t ∈ b, (!endsName t) = true := fun t ht => by rw [hb t ht]; rfl
  have hstop : (!endsName t) = false := by rw [ht]; rfl
  have htake : (b ++ t :: rest).takeWhile (!endsName ·) = b := by
    rw [List.takeWhile_append_of_pos hall, List.takeWhile_cons, hstop]
    simp
  have hdrop : (b ++ t :: rest).dropWhile (!endsName ·) = t :: rest := by
    rw [List.dropWhile_append_of_pos hall, List.dropWhile_cons, hstop]
    simp
  rw [parseItem, htake, hdrop, hd, if_neg hne]

/-- **An ordering by one name.** -/
theorem parseItems_single {b : List Token} (hne : b ≠ []) (hb : ∀ t ∈ b, endsName t = false)
    {t : Token} (ht : endsName t = true) {rest : List Token} {d : Bool}
    (hd : direction (t :: rest) = (d, rest)) (hcomma : rest.head? ≠ some comma) (n : ℕ) :
    parseItems (n + 1) (b ++ t :: rest) = some ([⟨b, d⟩], rest) := by
  rw [parseItems, parseItem_append hne hb ht hd, Option.bind_some, if_neg hcomma]

end Sql
