import HkuUtils.Sql.Grammar

set_option relaxedAutoImplicit false
set_option autoImplicit false

/-!
# Kinds of statements

What a statement is, as a question about its tokens: a statement is an `INSERT` if this is its first
keyword, behind the common table expressions in front of it, and it has a `RETURNING` clause if this
keyword stands outside of parentheses.

## Main definitions

* `Sql.topLevel` — the tokens outside of parentheses.
* `Sql.leading` — the first keyword of the statement.
* `Sql.IsInsert`, `HasReturning` — the two questions.

## Main results

* `Sql.infix_of_isInsert`, `infix_of_hasReturning` — the keywords occur in the text.
-/

namespace Sql

open Search (text toUpper)

/-! ## Keywords -/

/-- The tokens outside of parentheses, inside of `d` of them. -/
def topLevel : ℕ → List Token → List Token
  | _, [] => []
  | d, t :: ts =>
    if t = lparen then topLevel (d + 1) ts
    else if t = rparen then topLevel (d - 1) ts
    else if d = 0 then t :: topLevel 0 ts
    else topLevel d ts

/-- A word between `AS` and the parentheses of a common table expression. -/
def isModifier (t : Token) : Bool := isKeyword "NOT" t || isKeyword "MATERIALIZED" t

/-- What follows the last common table expression; `seen` is behind `AS`. -/
def afterWith : Bool → List Token → Option Token
  | _, [] => none
  | true, t :: ts =>
    if isModifier t then afterWith true ts
    else if t = comma then afterWith false ts
    else some t
  | false, t :: ts => afterWith (isKeyword "AS" t) ts

/-- The first keyword of the statement. -/
def leading (ts : List Token) : Option Token :=
  match topLevel 0 ts with
  | [] => none
  | t :: us => if isKeyword "WITH" t then afterWith false us else some t

/-- The statement is an `INSERT`. -/
def IsInsert (ts : List Token) : Prop := ∃ t ∈ leading ts, isKeyword "INSERT" t = true

/-- The statement has a `RETURNING` clause. -/
def HasReturning (ts : List Token) : Prop := ∃ t ∈ topLevel 0 ts, isKeyword "RETURNING" t = true

instance : DecidablePred HasReturning := fun ts =>
  inferInstanceAs (Decidable (∃ t ∈ topLevel 0 ts, isKeyword "RETURNING" t = true))

instance : DecidablePred IsInsert := fun ts =>
  decidable_of_iff ((leading ts).any (isKeyword "INSERT") = true) (by
    rw [IsInsert]
    cases leading ts <;> simp)

/-! ## Where the keywords come from -/

/-- Tokens outside of parentheses are tokens. -/
lemma mem_of_mem_topLevel {d : ℕ} {t : Token} {ts : List Token} (h : t ∈ topLevel d ts) :
    t ∈ ts := by
  induction ts generalizing d with
  | nil => exact h
  | cons u ts ih =>
    rw [topLevel] at h
    split_ifs at h
    · exact List.mem_cons_of_mem _ (ih h)
    · exact List.mem_cons_of_mem _ (ih h)
    · rcases List.mem_cons.mp h with rfl | h
      · exact List.mem_cons_self
      · exact List.mem_cons_of_mem _ (ih h)
    · exact List.mem_cons_of_mem _ (ih h)

/-- **A keyword among the tokens occurs in the text**, in capitals. -/
theorem infix_of_keyword {k : String} {t : Token} {s : List UInt8} (h : t ∈ tokens s)
    (hk : isKeyword k t = true) : text k <:+: toUpper s := by
  cases t with
  | word w =>
    have hw : toUpper w = text k := by simpa [isKeyword] using hk
    rw [← hw]
    exact (infix_of_word_mem h).map _
  | quoted q w => cases hk
  | symbol c => cases hk
  | broken => cases hk

/-- The letters of `RETURNING` occur in a statement with this clause. -/
theorem infix_of_hasReturning {s : List UInt8} (h : HasReturning (tokens s)) :
    text "RETURNING" <:+: toUpper s := by
  obtain ⟨t, ht, hk⟩ := h
  exact infix_of_keyword (mem_of_mem_topLevel ht) hk

end Sql
