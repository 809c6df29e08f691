import Mathlib.Data.List.Basic
import HkuUtils.Sql.Grammar

set_option relaxedAutoImplicit false
set_option autoImplicit false

/-!
# Statements on one table

The statements that insert a row of parameters, update the rows with a given value in one column and
select columns of all rows, as syntax, as text and on a table. Names are compared without regard
to case. A parameter that is not bound is `NULL`, which is equal to nothing.

## Main definitions

* `Sql.Command`, `command` — the statements, and what a text is read as.
* `Sql.Table`, `Table.execute`, `Table.query` — tables, and what the statements do to them.

## Main results

* `Sql.tokens_names` — the tokens of a list of quoted names with the same signs behind each.
* `Sql.parseList_intercalate` — a list with commas is read item by item.
* `Sql.parseCommand_insert`, `parseCommand_update`, `parseCommand_select` — how the statements are
  read.

## Design

A table has no constraints. A row is a function from names to values; one column is the key, which
the engine fills in where a row has none. A statement that names another table or an unknown
column, that has not as many values as columns, or that gets more parameters than it has
placeholders, is an error.
-/

namespace Sql

open Search (text toUpper)

universe u v

/-! ## Syntax -/

/-- A name, in capitals. -/
abbrev Name := List UInt8

/-- The statements; every value of them is a placeholder. -/
inductive Command where
  | insert (table : Name) (columns : List Name) (placeholders : ℕ)
  /-- `UPDATE table SET column = ?, ... WHERE key = ?`. -/
  | update (table : Name) (columns : List Name) (key : Name)
  | select (columns : List Name) (table : Name)
  deriving DecidableEq, Repr

/-- The tokens after a keyword. -/
def keyword (k : String) : List Token → Option (List Token)
  | t :: ts => if isKeyword k t then some ts else none
  | [] => none

/-- The tokens after a symbol. -/
def symbol (c : UInt8) : List Token → Option (List Token)
  | t :: ts => if t = .symbol c then some ts else none
  | [] => none

/-- A name. What stands in single quotes is a string. -/
def parseName : List Token → Option (Name × List Token)
  | .word s :: ts => some (toUpper s, ts)
  | .quoted q s :: ts => if q = 39 then none else some (toUpper s, ts)
  | _ => none

/-- `?`. -/
def parsePlaceholder (ts : List Token) : Option (Unit × List Token) :=
  (symbol 63 ts).map fun ts => ((), ts)

/-- `column = ?`. -/
def parseAssignment (ts : List Token) : Option (Name × List Token) :=
  (parseName ts).bind fun r => (symbol 61 r.2).bind fun ts =>
    (symbol 63 ts).map fun ts => (r.1, ts)

/-- Items with commas between them, at most `n`. -/
def parseList {α : Type u} (item : List Token → Option (α × List Token)) :
    ℕ → List Token → Option (List α × List Token)
  | 0, _ => none
  | n + 1, ts =>
    (item ts).bind fun r =>
      if r.2.head? = some comma then
        (parseList item n r.2.tail).map fun r' => (r.1 :: r'.1, r'.2)
      else some ([r.1], r.2)

/-- `INSERT INTO table (columns) VALUES (placeholders)`, and nothing behind it. -/
def parseInsert (ts : List Token) : Option Command := do
  let ts ← keyword "INSERT" ts
  let ts ← keyword "INTO" ts
  let (table, ts) ← parseName ts
  let ts ← symbol 40 ts
  let (columns, ts) ← parseList parseName ts.length ts
  let ts ← symbol 41 ts
  let ts ← keyword "VALUES" ts
  let ts ← symbol 40 ts
  let (values, ts) ← parseList parsePlaceholder ts.length ts
  let ts ← symbol 41 ts
  if ts = [] then some (.insert table columns values.length) else none

/-- `UPDATE table SET assignments WHERE key = ?`. -/
def parseUpdate (ts : List Token) : Option Command := do
  let ts ← keyword "UPDATE" ts
  let (table, ts) ← parseName ts
  let ts ← keyword "SET" ts
  let (columns, ts) ← parseList parseAssignment ts.length ts
  let ts ← keyword "WHERE" ts
  let (key, ts) ← parseAssignment ts
  if ts = [] then some (.update table columns key) else none

/-- `SELECT columns FROM table`. -/
def parseSelect (ts : List Token) : Option Command := do
  let ts ← keyword "SELECT" ts
  let (columns, ts) ← parseList parseName ts.length ts
  let ts ← keyword "FROM" ts
  let (table, ts) ← parseName ts
  if ts = [] then some (.select columns table) else none

/-- A statement. -/
def parseCommand (ts : List Token) : Option Command :=
  (parseInsert ts).or ((parseUpdate ts).or (parseSelect ts))

/-- What a text is read as. -/
def command (s : List UInt8) : Option Command := parseCommand (tokens s)

/-! ## Tables -/

/-- A row, with `none` for `NULL`. -/
abbrev Cells (V : Type v) := Name → Option V

/-- A table. -/
structure Table (V : Type v) where
  name : Name
  /-- The columns that statements may name. -/
  columns : List Name
  /-- The column that the engine fills in. -/
  key : Name
  rows : List (Cells V)

namespace Table

variable {V : Type v} [DecidableEq V] (t : Table V)

/-- The value of a column in a list of values. -/
def assigned (columns : List Name) (params : List (Option V)) (c : Name) : Option V :=
  if c ∈ columns then params.getD (columns.idxOf c) none else none

/-- The row that an insertion makes. -/
def newCells (newKey : V) (columns : List Name) (params : List (Option V)) : Cells V := fun c =>
  match assigned columns params c with
  | some v => some v
  | none => if c = t.key then some newKey else none

/-- A row with some columns changed. -/
def changed (columns : List Name) (params : List (Option V)) (r : Cells V) : Cells V := fun c =>
  if c ∈ columns then assigned columns params c else r c

/-- The value of a column is that of a parameter. -/
def Matches (r : Cells V) (key : Name) (param : Option V) : Prop := r key = param ∧ param ≠ none

instance (r : Cells V) (key : Name) (param : Option V) : Decidable (Matches r key param) :=
  inferInstanceAs (Decidable (_ ∧ _))

/-- What a statement makes of the table, where `newKey` is the key of a new row.

A name that the table does not have is an error, and so are more parameters than placeholders; a
placeholder without a parameter is null. -/
def execute (newKey : V) (params : List (Option V)) : Command → Option (Table V)
  | .insert table columns placeholders =>
    if table = t.name ∧ (∀ c ∈ columns, c ∈ t.columns) ∧ columns.length = placeholders ∧
        params.length ≤ placeholders then
      some { t with rows := t.rows ++ [t.newCells newKey columns params] }
    else none
  | .update table columns key =>
    if table = t.name ∧ (∀ c ∈ columns, c ∈ t.columns) ∧ (key ∈ t.columns ∨ key = t.key) ∧
        params.length ≤ columns.length + 1 then
      some { t with
        rows := t.rows.map fun r =>
          if Matches r key (params.getD columns.length none) then changed columns params r else r }
    else none
  | .select _ _ => none

/-- The rows that a statement selects. -/
def query : Command → Option (List (List (Option V)))
  | .select columns table =>
    if table = t.name ∧ ∀ c ∈ columns, c ∈ t.columns then
      some (t.rows.map fun r => columns.map r)
    else none
  | _ => none

end Table

/-! ## Texts -/

section Texts

variable {q : UInt8} {s t : List UInt8}

/-- A quoted text and something that is not its quote. -/
lemma tokens_quoted_append (hq : isQuote q = true) (hs : q ∉ s) {c : UInt8} (hc : c ≠ q)
    (t : List UInt8) : tokens (q :: (s ++ q :: c :: t)) = .quoted q s :: tokens (c :: t) := by
  rw [tokens_quote hq, tokensFrom_quoted hs hc]

/-- A quoted text at the end. -/
lemma tokens_quoted_end (hq : isQuote q = true) (hs : q ∉ s) :
    tokens (q :: (s ++ [q])) = [.quoted q s] := by
  rw [tokens_quote hq, tokensFrom_append, lex_quoted [] hs, tokensFrom_cons, step, if_pos rfl]
  rfl

/-- Symbols in front. -/
lemma tokens_symbols_append {l : List UInt8} (hl : ∀ c ∈ l, IsSymbol c) (t : List UInt8) :
    tokens (l ++ t) = l.map .symbol ++ tokens t := by
  induction l with
  | nil => rfl
  | cons c l ih =>
    rw [List.cons_append, tokens_symbol (hl c (by simp)),
      ih fun d hd => hl d (List.mem_cons_of_mem c hd)]
    rfl

/-- **Quoted names** with the same signs behind each and commas between them.

**Proof sketch.** By induction on the names. What follows a quoted name is one of the signs, the
comma or the character behind all of them, and none of these is the quote, so the name ends
there. -/
theorem tokens_names (hq : isQuote q = true) (mid : List UInt8)
    (hmid : ∀ c ∈ mid, IsSymbol c ∧ c ≠ q) {names : List (List UInt8)} (hne : names ≠ [])
    (hnames : ∀ s ∈ names, q ∉ s) {c : UInt8} (hc : c ≠ q) (t : List UInt8) :
    tokens (q :: ((q :: (mid ++ [44, q])).intercalate names ++ q :: (mid ++ c :: t))) =
      [comma].intercalate (names.map fun s => .quoted q s :: mid.map .symbol) ++
        tokens (c :: t) := by
  have hq44 : (44 : UInt8) ≠ q := by
    rintro rfl
    exact absurd hq (by decide)
  -- what stands behind a quoted name is not its quote
  have hname : ∀ (s : List UInt8) (d : UInt8) (u : List UInt8), q ∉ s → d ≠ q →
      tokens (q :: (s ++ q :: (mid ++ d :: u))) =
        .quoted q s :: (mid.map .symbol ++ tokens (d :: u)) := by
    intro s d u hs hd
    cases mid with
    | nil => exact tokens_quoted_append hq hs hd u
    | cons m mid =>
      rw [List.cons_append, tokens_quoted_append hq hs (hmid m (by simp)).2, ← List.cons_append,
        tokens_symbols_append fun c hc => (hmid c hc).1]
  induction names with
  | nil => exact absurd rfl hne
  | cons s names ih =>
    have hs := hnames s (by simp)
    cases names with
    | nil =>
      rw [List.intercalate_singleton, hname s c t hs hc]
      simp [List.intercalate]
    | cons s' names =>
      have hrest := ih (by simp) fun u hu => hnames u (List.mem_cons_of_mem s hu)
      set rest := (q :: (mid ++ [44, q])).intercalate (s' :: names) ++ q :: (mid ++ c :: t)
        with hrestdef
      have hshape : q :: ((q :: (mid ++ [44, q])).intercalate (s :: s' :: names)
          ++ q :: (mid ++ c :: t)) = q :: (s ++ q :: (mid ++ 44 :: (q :: rest))) := by
        rw [hrestdef, List.intercalate_cons_cons]
        simp only [List.append_assoc, List.cons_append, List.nil_append]
      rw [hshape, hname s 44 (q :: rest) hs hq44, tokens_symbol (by decide), hrest]
      simp [comma, List.intercalate_cons_cons]

end Texts

/-! ## Reading -/

/-- **A list with commas** is read item by item.

**Proof sketch.** By induction on the items: behind one of them comes a comma and the next, or
something that is no comma. -/
theorem parseList_intercalate {α : Type u} {β : Type v}
    {p : List Token → Option (α × List Token)} {f : β → List Token} {g : β → α} {l : List β}
    (hne : l ≠ []) (hitem : ∀ b ∈ l, ∀ ts, p (f b ++ ts) = some (g b, ts)) {t : List Token}
    (ht : t.head? ≠ some comma) {n : ℕ} (hn : l.length ≤ n) :
    parseList p n ([comma].intercalate (l.map f) ++ t) = some (l.map g, t) := by
  induction l generalizing n with
  | nil => exact absurd rfl hne
  | cons b l ih =>
    obtain ⟨n, rfl⟩ : ∃ m, n = m + 1 := ⟨n - 1, by simp at hn; omega⟩
    cases l with
    | nil =>
      rw [List.map_singleton, List.intercalate_singleton, parseList, hitem b (by simp)]
      simp [ht]
    | cons b' l =>
      have hnext := ih (by simp) (fun c hc => hitem c (List.mem_cons_of_mem b hc))
        (n := n) (by simpa using hn)
      rw [List.map_cons, List.map_cons, List.intercalate_cons_cons, ← List.map_cons, parseList,
        List.append_assoc, List.append_assoc, hitem b (by simp)]
      simp only [Option.bind_some, List.cons_append, List.nil_append, List.head?_cons, if_true,
        List.tail_cons, hnext]
      rfl

/-- There are at least as many tokens in a list with commas as there are items. -/
lemma length_le_intercalate {β : Type v} {f : β → List Token} (hf : ∀ b, f b ≠ []) (l : List β) :
    l.length ≤ ([comma].intercalate (l.map f)).length := by
  induction l with
  | nil => exact Nat.zero_le _
  | cons b l ih =>
    have hpos := List.length_pos_of_ne_nil (hf b)
    cases l with
    | nil => simpa using Nat.succ_le_of_lt hpos
    | cons b' l =>
      rw [List.map_cons, List.map_cons, List.intercalate_cons_cons, ← List.map_cons]
      simp only [List.length_cons, List.length_append] at ih ⊢
      omega

/-- A token that is a name. -/
def IsName : Token → Prop
  | .word _ => True
  | .quoted q _ => q ≠ 39
  | _ => False

/-- The name that a token is. -/
def nameOf : Token → Name
  | .word s => toUpper s
  | .quoted _ s => toUpper s
  | _ => []

/-- A keyword. -/
def kw (s : String) : Token := .word (text s)

/-- A name is read. -/
lemma parseName_cons {t : Token} (h : IsName t) (ts : List Token) :
    parseName (t :: ts) = some (nameOf t, ts) := by
  cases t with
  | word s => rfl
  | quoted q s => exact if_neg h
  | symbol c => exact h.elim
  | broken => exact h.elim

/-- An assignment of a placeholder is read. -/
lemma parseAssignment_cons {t : Token} (h : IsName t) (ts : List Token) :
    parseAssignment (t :: .symbol 61 :: .symbol 63 :: ts) = some (nameOf t, ts) := by
  rw [parseAssignment, parseName_cons h]
  rfl

/-- A keyword is read, whatever the case of its letters. -/
lemma keyword_kw {k s : String} (h : isKeyword k (kw s) = true) (ts : List Token) :
    keyword k (kw s :: ts) = some ts := by
  rw [keyword, if_pos h]

/-- Another word is not read. -/
lemma keyword_kw_none {k s : String} (h : isKeyword k (kw s) = false) (ts : List Token) :
    keyword k (kw s :: ts) = none := by
  rw [keyword, h]
  rfl

/-- A sign is read. -/
lemma symbol_self (c : UInt8) (ts : List Token) : symbol c (.symbol c :: ts) = some ts := by
  rw [symbol, if_pos rfl]

section Commands

variable {table key : Token} {columns : List Token}

/-- A list of names. -/
lemma parseList_names (hne : columns ≠ []) (hcolumns : ∀ c ∈ columns, IsName c) {t : List Token}
    (ht : t.head? ≠ some comma) :
    parseList parseName ([comma].intercalate (columns.map fun c => [c]) ++ t).length
      ([comma].intercalate (columns.map fun c => [c]) ++ t) = some (columns.map nameOf, t) := by
  apply parseList_intercalate hne _ ht
  · have := length_le_intercalate (f := fun c : Token => [c]) (by simp) columns
    rw [List.length_append]
    omega
  · intro c hc ts
    exact parseName_cons (hcolumns c hc) ts

/-- **An insertion** is read.

**Proof sketch.** The two lists are read by the rule for lists with commas between, each up to its
closing parenthesis, and there is fuel for each of their tokens. -/
theorem parseCommand_insert (htable : IsName table) (hne : columns ≠ [])
    (hcolumns : ∀ c ∈ columns, IsName c) {n : ℕ} (hn : 0 < n) :
    parseCommand (kw "insert" :: kw "into" :: table :: lparen ::
      ([comma].intercalate (columns.map fun c => [c]) ++ rparen :: kw "values" :: lparen ::
        ([comma].intercalate (List.replicate n [.symbol 63]) ++ [rparen]))) =
      some (.insert (nameOf table) (columns.map nameOf) n) := by
  have hvalues : parseList parsePlaceholder
      ([comma].intercalate (List.replicate n [Token.symbol 63]) ++ [rparen]).length
      ([comma].intercalate (List.replicate n [Token.symbol 63]) ++ [rparen]) =
        some (List.replicate n (), [rparen]) := by
    have hreplicate : List.replicate n [Token.symbol 63] =
        (List.replicate n ()).map fun _ => [.symbol 63] := by
      rw [List.map_replicate]
    rw [hreplicate]
    have hlen := length_le_intercalate (f := fun _ : Unit => [Token.symbol 63]) (by simp)
      (List.replicate n ())
    have hread := parseList_intercalate (p := parsePlaceholder) (f := fun _ => [.symbol 63])
      (g := id) (l := List.replicate n ()) (by simpa using hn.ne')
      (fun _ _ ts => rfl) (t := [rparen]) (by decide)
      (n := ([comma].intercalate ((List.replicate n ()).map fun _ => [.symbol 63])
        ++ [rparen]).length) (by
          rw [List.length_append]
          omega)
    rwa [List.map_id] at hread
  have hinsert : parseInsert (kw "insert" :: kw "into" :: table :: lparen ::
      ([comma].intercalate (columns.map fun c => [c]) ++ rparen :: kw "values" :: lparen ::
        ([comma].intercalate (List.replicate n [.symbol 63]) ++ [rparen]))) =
      some (.insert (nameOf table) (columns.map nameOf) n) := by
    have hcols := parseList_names hne hcolumns (t := rparen :: kw "values" :: lparen ::
      ([comma].intercalate (List.replicate n [.symbol 63]) ++ [rparen])) (by simp [rparen, comma])
    have k1 := keyword_kw (k := "INSERT") (s := "insert") (by decide)
    have k2 := keyword_kw (k := "INTO") (s := "into") (by decide)
    have k3 := keyword_kw (k := "VALUES") (s := "values") (by decide)
    simp only [parseInsert, k1, k2, lparen, rparen, symbol_self, parseName_cons htable, bind,
      Option.bind_some] at hcols hvalues ⊢
    simp only [hcols, k3, symbol_self, hvalues, Option.bind_some, List.length_replicate, if_true]
  rw [parseCommand, hinsert]
  rfl

/-- **An update** is read.

**Proof sketch.** The list of assignments is read by the rule for lists up to the word `where`,
which no comma precedes; the text is no insertion, as its first word is another. -/
theorem parseCommand_update (htable : IsName table) (hkey : IsName key) (hne : columns ≠ [])
    (hcolumns : ∀ c ∈ columns, IsName c) :
    parseCommand (kw "update" :: table :: kw "set" ::
      ([comma].intercalate (columns.map fun c => [c, .symbol 61, .symbol 63]) ++
        [kw "where", key, .symbol 61, .symbol 63])) =
      some (.update (nameOf table) (columns.map nameOf) (nameOf key)) := by
  have hcols := parseList_intercalate (p := parseAssignment)
    (f := fun c => [c, .symbol 61, .symbol 63]) (g := nameOf) hne
    (fun c hc ts => parseAssignment_cons (hcolumns c hc) ts)
    (t := [kw "where", key, .symbol 61, .symbol 63]) (by simp [kw, comma])
    (n := ([comma].intercalate (columns.map fun c => [c, .symbol 61, .symbol 63]) ++
        [kw "where", key, .symbol 61, .symbol 63]).length) (by
      have := length_le_intercalate (f := fun c : Token => [c, .symbol 61, .symbol 63]) (by simp)
        columns
      rw [List.length_append]
      omega)
  have k1 := keyword_kw (k := "UPDATE") (s := "update") (by decide)
  have k2 := keyword_kw (k := "SET") (s := "set") (by decide)
  have k3 := keyword_kw (k := "WHERE") (s := "where") (by decide)
  have hno := keyword_kw_none (k := "INSERT") (s := "update") (by decide)
  have hinsert : ∀ ts, parseInsert (kw "update" :: ts) = none := by
    intro ts
    simp only [parseInsert, hno, bind, Option.bind_none]
  rw [parseCommand, hinsert, Option.none_or]
  simp only [parseUpdate, k1, k2, k3, parseName_cons htable, hcols, parseAssignment_cons hkey, bind,
    Option.bind_some, if_true]
  rfl

/-- **A selection** is read. -/
theorem parseCommand_select (htable : IsName table) (hne : columns ≠ [])
    (hcolumns : ∀ c ∈ columns, IsName c) :
    parseCommand (kw "select" :: ([comma].intercalate (columns.map fun c => [c]) ++
      [kw "from", table])) = some (.select (columns.map nameOf) (nameOf table)) := by
  have hcols := parseList_names hne hcolumns (t := [kw "from", table]) (by simp [kw, comma])
  have k1 := keyword_kw (k := "SELECT") (s := "select") (by decide)
  have k2 := keyword_kw (k := "FROM") (s := "from") (by decide)
  have hnoInsert := keyword_kw_none (k := "INSERT") (s := "select") (by decide)
  have hnoUpdate := keyword_kw_none (k := "UPDATE") (s := "select") (by decide)
  have hinsert : ∀ ts, parseInsert (kw "select" :: ts) = none := by
    intro ts
    simp only [parseInsert, hnoInsert, bind, Option.bind_none]
  have hupdate : ∀ ts, parseUpdate (kw "select" :: ts) = none := by
    intro ts
    simp only [parseUpdate, hnoUpdate, bind, Option.bind_none]
  rw [parseCommand, hinsert, hupdate, Option.none_or, Option.none_or]
  simp only [parseSelect, k1, k2, hcols, parseName_cons htable, bind, Option.bind_some, if_true]

end Commands

end Sql
