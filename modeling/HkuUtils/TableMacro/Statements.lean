import HkuUtils.Sql.Tables
import HkuUtils.TableMacro.Model

set_option relaxedAutoImplicit false
set_option autoImplicit false

/-!
# The statements of classes bound to tables

The texts that the macros write are read as statements on a table. A text is a sequence of pieces,
and the tokens of the pieces are put together.

## Main results

* `HkuUtils.TableMacro.command_insert`, `command_update`, `command_select` — **how the texts are
  read.**
-/

namespace HkuUtils.TableMacro

open Search (text toUpper)
open Sql (Token tokens command Cells comma rparen lparen kw nameOf)
open Database (Item Row Backend Statement)

variable {V : Type}

/-! ## Texts -/

/-- The quotes of names in the texts: a backquote, or a double quote. -/
def NameQuote (q : UInt8) : Prop := q = 96 ∨ q = 34

section Texts

variable {q : UInt8} (hq : NameQuote q)

include hq

/-- The quotes of names are quotes of the language. -/
lemma isQuote_of_nameQuote : Sql.isQuote q = true := by
  rcases hq with rfl | rfl <;> rfl

/-- The quotes of names are none of the other signs. -/
lemma ne_of_nameQuote : q ≠ 39 ∧ 32 ≠ q ∧ 41 ≠ q ∧ 44 ≠ q ∧ 61 ≠ q ∧ 63 ≠ q := by
  rcases hq with rfl | rfl <;> decide

/-- What stands in the quotes of names is a name. -/
lemma isName_quoted (s : List UInt8) : Sql.IsName (.quoted q s) := (ne_of_nameQuote hq).1

end Texts

/-- The tokens of placeholders. -/
lemma tokens_placeholders (n : ℕ) (t : List UInt8) :
    tokens (placeholders n ++ t) =
      [comma].intercalate (List.replicate n [.symbol 63]) ++ tokens t := by
  induction n with
  | zero => rfl
  | succ n ih =>
    cases n with
    | zero =>
      rw [placeholders, List.replicate_one, List.intercalate_singleton, List.replicate_one,
        List.intercalate_singleton]
      exact Sql.tokens_symbol (by decide) t
    | succ n =>
      have hshape : placeholders (n + 1 + 1) ++ t = 63 :: 44 :: (placeholders (n + 1) ++ t) := by
        rw [placeholders, List.replicate_succ, List.replicate_succ, List.intercalate_cons_cons,
          ← List.replicate_succ]
        rfl
      rw [hshape, Sql.tokens_symbol (by decide), Sql.tokens_symbol (by decide), ih,
        List.replicate_succ (n := n + 1), List.replicate_succ, List.intercalate_cons_cons]
      rfl

section Commands

variable {q : UInt8} {table : List UInt8} {fs : List (List UInt8)}

/-- What stands between the name of the table and the first quoted column. -/
def opening (idFirst : Bool) : List UInt8 := if idFirst then text " (id, " else text " ("

/-- The columns of an insertion. -/
def insertColumns (idFirst : Bool) (q : UInt8) (fs : List (List UInt8)) : List Token :=
  (if idFirst then [kw "id"] else []) ++ fs.map (.quoted q)

/-- A list of columns begins with a parenthesis, and the id if it is listed. -/
lemma tokens_opening (idFirst : Bool) (t : List UInt8) :
    tokens (opening idFirst ++ t) = lparen ::
      ((if idFirst then [kw "id", comma] else []) ++ tokens t) := by
  cases idFirst with
  | false => exact Sql.tokens_append_of_start (s := text " (") (by decide) t
  | true => exact Sql.tokens_append_of_start (s := text " (id, ") (by decide) t

/-- The columns with commas between them, behind the id if it is listed. -/
lemma intercalate_insertColumns (idFirst : Bool) (hne : fs ≠ []) :
    [comma].intercalate ((insertColumns idFirst q fs).map fun c => [c]) =
      (if idFirst then [kw "id", comma] else []) ++
        [comma].intercalate (fs.map fun s => [Token.quoted q s]) := by
  have hmap : (fs.map (Token.quoted q)).map (fun c => [c]) = fs.map fun s => [.quoted q s] := by
    rw [List.map_map]
    rfl
  cases idFirst with
  | false => exact congrArg _ hmap
  | true =>
    obtain ⟨f, gs, rfl⟩ := List.exists_cons_of_ne_nil hne
    rw [insertColumns, if_pos rfl, List.map_append, hmap, List.map_singleton, List.singleton_append,
      List.map_cons, List.intercalate_cons_cons]
    rfl

/-- **A text that inserts** is read.

**Proof sketch.** The text is taken apart from its front: the words of the command, the table, the
list of columns, the word before the values, the placeholders. Each part ends where the next begins
whatever follows, so the tokens of the text are those of its parts, and these are an insertion. -/
lemma command_insert (hq : NameQuote q) (htable : q ∉ table) (hne : fs ≠ []) (hfs : ∀ f ∈ fs, q ∉ f)
    (idFirst : Bool) {values : List UInt8} {n : ℕ} (hn : 0 < n)
    (hvalues : tokens (values ++ [41]) =
      [comma].intercalate (List.replicate n [.symbol 63]) ++ [rparen]) :
    command (text "insert into " ++ q :: (table ++ q :: (opening idFirst ++
        q :: ([q, 44, q].intercalate fs ++ q :: (text ") values (" ++ (values ++ [41])))))) =
      some (.insert (toUpper table) ((insertColumns idFirst q fs).map nameOf) n) := by
  obtain ⟨-, h32, h41, -⟩ := ne_of_nameQuote hq
  have hquote := isQuote_of_nameQuote hq
  have hnames := Sql.tokens_names hquote [] (by simp) hne hfs h41
    (text " values (" ++ (values ++ [41]))
  have hbehind : tokens (41 :: (text " values (" ++ (values ++ [41]))) =
      rparen :: kw "values" :: lparen ::
        ([comma].intercalate (List.replicate n [.symbol 63]) ++ [rparen]) := by
    rw [← hvalues]
    exact Sql.tokens_append_of_start (s := text ") values (") (by decide) _
  have htokens : tokens (q :: (table ++ q :: (opening idFirst ++
        q :: ([q, 44, q].intercalate fs ++ q :: (text ") values (" ++ (values ++ [41])))))) =
      .quoted q table :: lparen ::
        ([comma].intercalate ((insertColumns idFirst q fs).map fun c => [c]) ++ rparen ::
          kw "values" :: lparen ::
            ([comma].intercalate (List.replicate n [.symbol 63]) ++ [rparen])) := by
    have hhead : ∃ u, opening idFirst = 32 :: u := by
      cases idFirst with
      | false => exact ⟨[40], rfl⟩
      | true => exact ⟨[40, 105, 100, 44, 32], rfl⟩
    obtain ⟨u, hu⟩ := hhead
    rw [hu, List.cons_append, Sql.tokens_quoted_append hquote htable h32, ← List.cons_append, ← hu,
      tokens_opening idFirst, intercalate_insertColumns idFirst hne, List.append_assoc,
      ← hbehind]
    exact congrArg _ (congrArg _ (congrArg _ hnames))
  have hstart := Sql.tokens_append_of_start (s := text "insert into ") (by decide)
  have hname : ∀ c ∈ insertColumns idFirst q fs, Sql.IsName c := by
    intro c hc
    rcases List.mem_append.1 hc with hc | hc
    · cases idFirst with
      | false => simp at hc
      | true =>
        obtain rfl : c = kw "id" := by simpa using hc
        trivial
    · obtain ⟨f, -, rfl⟩ := List.mem_map.1 hc
      exact isName_quoted hq f
  have hcolumns : insertColumns idFirst q fs ≠ [] := by
    intro h
    exact hne (by simpa using (List.append_eq_nil_iff.1 h).2)
  rw [command, hstart, htokens]
  exact Sql.parseCommand_insert (isName_quoted hq table) hcolumns hname hn

/-- **A text that updates** is read.

**Proof sketch.** As for the insertion: the tokens of the text are those of its parts, from the
words of the command to the condition, each found whatever follows. -/
lemma command_update (hq : NameQuote q) (htable : q ∉ table) (hne : fs ≠ []) (hfs : ∀ f ∈ fs, q ∉ f)
    {key : List UInt8} (hkey : q ∉ key) :
    command (text "update " ++ q :: (table ++ q :: (text " set " ++
        q :: ((q :: ([61, 63] ++ [44, q])).intercalate fs ++ q :: ([61, 63] ++ (text " where " ++
          q :: (key ++ q :: [61, 63]))))))) =
      some (.update (toUpper table) (fs.map toUpper) (toUpper key)) := by
  obtain ⟨-, h32, -, -, h61, h63⟩ := ne_of_nameQuote hq
  have hquote := isQuote_of_nameQuote hq
  have hmid : ∀ c ∈ ([61, 63] : List UInt8), Sql.IsSymbol c ∧ c ≠ q := by
    intro c hc
    rcases List.mem_pair.1 hc with rfl | rfl
    · exact ⟨by decide, h61⟩
    · exact ⟨by decide, h63⟩
  have hnames := Sql.tokens_names hquote [61, 63] hmid hne hfs h32
    (text "where " ++ q :: (key ++ q :: [61, 63]))
  have hbehind : tokens (32 :: (text "where " ++ q :: (key ++ q :: [61, 63]))) =
      [kw "where", .quoted q key, .symbol 61, .symbol 63] := by
    have hwhere := Sql.tokens_append_of_start (s := text " where ") (by decide)
      (q :: (key ++ q :: [61, 63]))
    rw [Sql.tokens_quoted_append hquote hkey h61] at hwhere
    exact hwhere
  have hset := Sql.tokens_append_of_start (s := text " set ") (by decide)
    (q :: ((q :: ([61, 63] ++ [44, q])).intercalate fs ++ q :: ([61, 63] ++ (text " where " ++
      q :: (key ++ q :: [61, 63])))))
  have hstart := Sql.tokens_append_of_start (s := text "update ") (by decide)
  have htable' := Sql.tokens_quoted_append hquote htable h32 (text "set " ++
    q :: ((q :: ([61, 63] ++ [44, q])).intercalate fs ++ q :: ([61, 63] ++ (text " where " ++
      q :: (key ++ q :: [61, 63])))))
  have hname : ∀ c ∈ fs.map (Token.quoted q), Sql.IsName c := by
    intro c hc
    obtain ⟨f, -, rfl⟩ := List.mem_map.1 hc
    exact isName_quoted hq f
  have hcolumns : fs.map (Token.quoted q) ≠ [] := by simpa using hne
  have hparse := Sql.parseCommand_update (isName_quoted hq table) (isName_quoted hq key) hcolumns
    hname
  rw [List.map_map, List.map_map] at hparse
  rw [command, hstart]
  refine (congrArg (fun ts => Sql.parseCommand (tokens (text "update ") ++ ts)) ?_).trans hparse
  exact htable'.trans (congrArg _ (hset.trans (congrArg _ (hnames.trans (congrArg _ hbehind)))))

/-- **A text that selects** is read.

**Proof sketch.** The tokens of the text are the names in quotes with commas between them, and the
grammar reads them. -/
lemma command_select (hq : NameQuote q) (htable : q ∉ table) (hne : fs ≠ [])
    (hfs : ∀ f ∈ fs, q ∉ f) :
    command (text "select " ++ q :: ([q, 44, q].intercalate fs ++ q :: (text " from " ++
        q :: (table ++ [q])))) = some (.select (fs.map toUpper) (toUpper table)) := by
  obtain ⟨-, h32, -⟩ := ne_of_nameQuote hq
  have hquote := isQuote_of_nameQuote hq
  have hnames := Sql.tokens_names hquote [] (by simp) hne hfs h32
    (text "from " ++ q :: (table ++ [q]))
  have hfrom := Sql.tokens_append_of_start (s := text " from ") (by decide) (q :: (table ++ [q]))
  rw [Sql.tokens_quoted_end hquote htable] at hfrom
  have hstart := Sql.tokens_append_of_start (s := text "select ") (by decide)
  have hname : ∀ c ∈ fs.map (Token.quoted q), Sql.IsName c := by
    intro c hc
    obtain ⟨f, -, rfl⟩ := List.mem_map.1 hc
    exact isName_quoted hq f
  have hcolumns : fs.map (Token.quoted q) ≠ [] := by simpa using hne
  have hparse := Sql.parseCommand_select (isName_quoted hq table) hcolumns hname
  rw [List.map_map, List.map_map] at hparse
  rw [command, hstart]
  refine (congrArg (fun ts => Sql.parseCommand (tokens (text "select ") ++ ts)) ?_).trans hparse
  exact hnames.trans (congrArg _ hfrom)

end Commands

end HkuUtils.TableMacro
