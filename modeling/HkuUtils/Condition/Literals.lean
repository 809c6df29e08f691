import HkuUtils.Condition.Model
import HkuUtils.Sql.Grammar

set_option relaxedAutoImplicit false
set_option autoImplicit false

/-!
# Strings in conditions

What a comparison with strings is for a parser of SQL. Every string is written between double quotes
as it is, so it is one literal with this value if and only if there is no double quote in it.

## Main definitions

* `HkuUtils.Condition.Operation.comparison` — the tokens that a comparison should be.
* `HkuUtils.Condition.Contained` — a text is these tokens, wherever it stands.

## Main results

* `HkuUtils.Condition.contained_iff` — when no string gets out of its literal.
-/

namespace HkuUtils.Condition

open Search (text)
open Sql

/-! ## The intended comparison -/

/-- Literals with commas between them. -/
def literalTokens (values : List (List UInt8)) : List Token :=
  (values.map (Token.quoted 34)).intersperse comma

namespace Operation

/-- The tokens of the operator, up to the first value. The opening parenthesis of `in` and `not in`
belongs to it. -/
def operator : Operation → List Token
  | eq _ => [.symbol 61]
  | ne _ => [.symbol 60, .symbol 62]
  | gt _ => [.symbol 62]
  | lt _ => [.symbol 60]
  | ge _ => [.symbol 62, .symbol 61]
  | le _ => [.symbol 60, .symbol 61]
  | like _ => [.word (text "like")]
  | in_ _ => [.word (text "in"), lparen]
  | notIn _ => [.word (text "not"), .word (text "in"), lparen]

/-- The tokens behind the last value. -/
def closing : Operation → List Token
  | in_ _ | notIn _ => [rparen, rparen]
  | _ => [rparen]

/-- The tokens of a comparison of `name` with the values of the operation. -/
def comparison (name : List UInt8) (op : Operation) : List Token :=
  lparen :: tokens name ++ op.operator ++ literalTokens op.values ++ op.closing

end Operation

/-- Wherever a token may begin, the text is the tokens `ts`, and what stands around it is not read
differently. -/
def Contained (s : List UInt8) (ts : List Token) : Prop :=
  ∀ before behind, Complete (Sql.after before) →
    tokens (before ++ s ++ behind) = tokens before ++ ts ++ tokens behind

/-! ## Literals -/

variable {init : List (List UInt8)} {last : List UInt8}

/-- The last literal apart. -/
lemma literalTokens_append (init : List (List UInt8)) (last : List UInt8) :
    literalTokens (init ++ [last]) =
      (init.flatMap fun val => [.quoted 34 val, comma]) ++ [.quoted 34 last] := by
  induction init with
  | nil => rfl
  | cons val init ih =>
    rw [literalTokens] at ih
    rw [literalTokens, List.cons_append, List.map_cons, List.flatMap_cons, List.append_assoc, ← ih]
    cases init with
    | nil => rfl
    | cons v init => rfl

/-- A literal without a double quote in it is read as it is. -/
lemma tokens_quoted {val : List UInt8} (hval : 34 ∉ val) {c : UInt8} (hc : c ≠ 34)
    (t : List UInt8) : tokens (quoted val ++ c :: t) = .quoted 34 val :: tokens (c :: t) := by
  have hassoc : quoted val ++ c :: t = 34 :: (val ++ 34 :: c :: t) := by
    rw [quoted, List.append_assoc, List.append_assoc]
    rfl
  rw [hassoc, tokens_quote (by decide), tokensFrom_quoted hval hc]

/-- Literals without double quotes in them are read one after the other. -/
lemma tokens_literals (h : ∀ val ∈ init ++ [last], 34 ∉ val) {c : UInt8} (hc : c ≠ 34)
    (t : List UInt8) :
    tokens (literals init last ++ c :: t) = literalTokens (init ++ [last]) ++ tokens (c :: t) := by
  rw [literalTokens_append, literals]
  induction init with
  | nil => exact tokens_quoted (h last (by simp)) hc t
  | cons val init ih =>
    have hcomma : quoted val ++ text "," = quoted val ++ [44] := rfl
    rw [List.flatMap_cons, List.flatMap_cons, hcomma]
    simp only [List.append_assoc, List.cons_append, List.nil_append] at ih ⊢
    rw [tokens_quoted (h val (by simp)) (by decide), tokens_symbol (by decide), ih]
    · rfl
    · exact fun v hv => h v (List.mem_cons_of_mem _ hv)

/-- How many characters literals need: a double quote in a value needs two. -/
lemma cost_literalTokens (init : List (List UInt8)) (last : List UInt8) :
    cost (literalTokens (init ++ [last])) =
      (literals init last).length + ((init ++ [last]).map (List.count 34)).sum := by
  have hquoted : ∀ val, (quoted val).length = val.length + 2 := by
    intro val
    simp only [quoted, List.length_append, show (text "\"").length = 1 from rfl]
    omega
  rw [literalTokens_append, literals]
  induction init with
  | nil => simp [Token.cost, hquoted]; omega
  | cons val init ih =>
    have hcomma : (text ",").length = 1 := rfl
    simp only [cost_append, List.length_append, List.map_append, List.sum_append,
      List.flatMap_cons, List.cons_append, List.map_cons, List.sum_cons, hquoted, hcomma,
      cost_cons, cost_nil, comma, Token.cost, List.nil_append] at ih ⊢
    omega

/-! ## Comparisons -/

/-- What closes a comparison: it does not go on with a literal, and ends between tokens. -/
structure IsClose (close : String) (ts : List Token) : Prop where
  head : ∃ c s, text close = c :: s ∧ c ≠ 34
  ends : Sql.after (text close) = .start
  tokens_eq : tokens (text close) = ts
  cost_eq : cost ts = (text close).length

section Formatted

variable {name : List UInt8} {op close : String} {operator closing : List Token}

/-- A comparison up to its values. -/
lemma tokens_formatted (hname : Complete (Sql.after name))
    (hop : Separator (text op) operator) (t : List UInt8) :
    tokens (text "(" ++ name ++ text op ++ t) =
      lparen :: tokens name ++ operator ++ tokens t := by
  have hlparen : tokens (text "(" ++ name) = lparen :: tokens name := tokens_symbol (by decide) name
  have hcomplete : Complete (Sql.after (text "(" ++ name)) := by
    have hstart : Sql.after (text "(") = .start := by decide
    rwa [after_append_of_start hstart]
  rw [tokens_append_separator hcomplete hop, hlparen]

/-- A comparison whose values have no double quotes, with what follows it. -/
lemma tokens_formatted_append (hname : Complete (Sql.after name))
    (hop : Separator (text op) operator) (hclose : IsClose close closing)
    (h : ∀ val ∈ init ++ [last], 34 ∉ val) (behind : List UInt8) :
    tokens (formatted name op init last close ++ behind) =
      lparen :: tokens name ++ operator ++ literalTokens (init ++ [last]) ++ closing ++
        tokens behind := by
  obtain ⟨c, s, hcons, hc⟩ := hclose.head
  have hrest : tokens (c :: (s ++ behind)) = closing ++ tokens behind := by
    rw [← hclose.tokens_eq, ← tokens_append_of_start hclose.ends, hcons, List.cons_append]
  have hbehind : text close ++ behind = c :: (s ++ behind) := by rw [hcons, List.cons_append]
  rw [formatted, List.append_assoc _ (literals init last), List.append_assoc,
    List.append_assoc (literals init last), hbehind, tokens_formatted hname hop,
    tokens_literals h hc, hrest]
  simp only [List.append_assoc]

/-- If the values are read as literals, they have no double quotes: there is no room for them. -/
lemma not_mem_of_tokens_formatted (hname : Complete (Sql.after name))
    (hop : Separator (text op) operator) (hclose : IsClose close closing)
    (h : tokens (formatted name op init last close) =
      lparen :: tokens name ++ operator ++ literalTokens (init ++ [last]) ++ closing) :
    ∀ val ∈ init ++ [last], 34 ∉ val := by
  intro val hval
  rw [formatted, List.append_assoc _ (literals init last), tokens_formatted hname hop,
    List.append_assoc _ (literalTokens _), List.append_cancel_left_eq] at h
  have hle := cost_tokensFrom_le .start (literals init last ++ text close)
  change cost (tokens (literals init last ++ text close)) ≤ 0 + _ at hle
  rw [h, cost_append, cost_literalTokens, hclose.cost_eq, List.length_append] at hle
  have hsum : ((init ++ [last]).map (List.count 34)).sum = 0 := by omega
  exact List.count_eq_zero.mp
    (List.sum_eq_zero_iff_forall_eq_nat.mp hsum _ (List.mem_map_of_mem hval))

/-- **Literals in a comparison.** -/
theorem contained_formatted_iff (hname : Complete (Sql.after name))
    (hop : Separator (text op) operator) (hclose : IsClose close closing) :
    Contained (formatted name op init last close)
        (lparen :: tokens name ++ operator ++ literalTokens (init ++ [last]) ++ closing) ↔
      ∀ val ∈ init ++ [last], 34 ∉ val := by
  constructor
  · intro h
    have halone := h [] [] trivial
    rw [List.nil_append, List.append_nil] at halone
    exact not_mem_of_tokens_formatted hname hop hclose (halone.trans (List.append_nil _))
  · intro h before behind hbefore
    have hcons : ∃ s, formatted name op init last close = 40 :: s := ⟨_, rfl⟩
    have hbehind := tokens_formatted_append hname hop hclose h behind
    obtain ⟨s, hs⟩ := hcons
    rw [hs] at hbehind ⊢
    rw [List.append_assoc, List.cons_append, tokens_append_of_separates (by decide) hbefore,
      ← List.cons_append, hbehind, ← List.append_assoc]

end Formatted

/-! ## The operations -/

namespace Operation

/-- How the operator is written, with the blanks around words that the source puts there. -/
def sign : Operation → String
  | eq _ => "="
  | ne _ => "<>"
  | gt _ => ">"
  | lt _ => "<"
  | ge _ => ">="
  | le _ => "<="
  | like _ => " like "
  | in_ _ => " in ("
  | notIn _ => " not in ("

/-- How the comparison is closed. -/
def close : Operation → String
  | in_ _ | notIn _ => "))"
  | _ => ")"

/-- An operator stands apart from the name before it and from the literal after it.

**Proof sketch.** One case for each operation, whose sign is a fixed text. -/
lemma separator_sign (op : Operation) : Separator (text op.sign) op.operator := by
  cases op with
  | eq val =>
    exact (⟨⟨_, _, rfl, by decide⟩, by decide, by decide⟩ :
      Separator (text "=") [.symbol 61])
  | ne val =>
    exact (⟨⟨_, _, rfl, by decide⟩, by decide, by decide⟩ :
      Separator (text "<>") [.symbol 60, .symbol 62])
  | gt val =>
    exact (⟨⟨_, _, rfl, by decide⟩, by decide, by decide⟩ :
      Separator (text ">") [.symbol 62])
  | lt val =>
    exact (⟨⟨_, _, rfl, by decide⟩, by decide, by decide⟩ :
      Separator (text "<") [.symbol 60])
  | ge val =>
    exact (⟨⟨_, _, rfl, by decide⟩, by decide, by decide⟩ :
      Separator (text ">=") [.symbol 62, .symbol 61])
  | le val =>
    exact (⟨⟨_, _, rfl, by decide⟩, by decide, by decide⟩ :
      Separator (text "<=") [.symbol 60, .symbol 61])
  | like pattern =>
    exact (⟨⟨_, _, rfl, by decide⟩, by decide, by decide⟩ :
      Separator (text " like ") [.word (text "like")])
  | in_ vals =>
    exact (⟨⟨_, _, rfl, by decide⟩, by decide, by decide⟩ :
      Separator (text " in (") [.word (text "in"), lparen])
  | notIn vals =>
    exact (⟨⟨_, _, rfl, by decide⟩, by decide, by decide⟩ :
      Separator (text " not in (") [.word (text "not"), .word (text "in"), lparen])

/-- What closes a comparison with one string. -/
lemma isClose_one : IsClose ")" [rparen] :=
  ⟨⟨_, _, rfl, by decide⟩, by decide, by decide, by decide⟩

/-- What closes a comparison with a list of strings. -/
lemma isClose_list : IsClose "))" [rparen, rparen] :=
  ⟨⟨_, _, rfl, by decide⟩, by decide, by decide, by decide⟩

/-- All comparisons are closed. -/
lemma isClose (op : Operation) : IsClose op.close op.closing := by
  cases op with
  | in_ vals => exact isClose_list
  | notIn vals => exact isClose_list
  | _ => exact isClose_one

/-- The empty list of strings is refused, and other lists are written like single strings. -/
lemma listed_eq_ok {field : Field} {op : String} {vals : List (List UInt8)} {c : DBCondition}
    (h : field.listed op vals = .ok c) :
    ∃ init last, vals = init ++ [last] ∧ c.condition = formatted field.name op init last "))" := by
  rw [Field.listed] at h
  split at h
  next => cases h
  next last hlast =>
    obtain ⟨rfl⟩ := h
    exact ⟨vals.dropLast, last, (List.dropLast_append_getLast? last hlast).symm, rfl⟩

/-- **All operations write the same text** but for the operator and what closes it. -/
theorem apply_eq_ok {field : Field} {op : Operation} {c : DBCondition}
    (h : op.apply field = .ok c) :
    ∃ init last, op.values = init ++ [last] ∧
      c.condition = formatted field.name op.sign init last op.close := by
  cases op with
  | in_ vals => exact listed_eq_ok h
  | notIn vals => exact listed_eq_ok h
  | _ val =>
    obtain ⟨rfl⟩ := h
    exact ⟨[], val, rfl, rfl⟩

/-- Only an empty list of strings is refused. -/
theorem apply_eq_error_iff {field : Field} {op : Operation} :
    (∃ e, op.apply field = .error e) ↔ op.values = [] := by
  have hlisted : ∀ sign vals, (∃ e, field.listed sign vals = .error e) ↔ vals = [] := by
    intro sign vals
    rw [Field.listed]
    split
    next hnone => simpa using List.getLast?_eq_none_iff.mp hnone
    next last hlast =>
      have hne : vals ≠ [] := by
        rintro rfl
        cases hlast
      simp [hne]
  cases op with
  | in_ vals => exact hlisted _ vals
  | notIn vals => exact hlisted _ vals
  | _ val => simp [apply, values]

/-- A comparison whose strings have no double quotes, with what follows it. -/
theorem tokens_condition_append {field : Field} (hname : Complete (Sql.after field.name))
    {op : Operation} {c : DBCondition} (h : op.apply field = .ok c)
    (hvalues : ∀ val ∈ op.values, 34 ∉ val) (behind : List UInt8) :
    tokens (c.condition ++ behind) = op.comparison field.name ++ tokens behind := by
  obtain ⟨init, last, heq, hcondition⟩ := apply_eq_ok h
  rw [heq] at hvalues
  rw [hcondition, comparison, heq]
  exact tokens_formatted_append hname op.separator_sign op.isClose hvalues behind

end Operation

/-- **No string gets out of its literal** if and only if there is no double quote in the strings.

**Proof sketch.** The condition is the name, the operator and the values in quotes. Read token by
token, each value stays in its literal exactly if there is no quote in it. -/
theorem contained_iff {field : Field} (hname : Complete (Sql.after field.name)) {op : Operation}
    {c : DBCondition} (h : op.apply field = .ok c) :
    Contained c.condition (op.comparison field.name) ↔ ∀ val ∈ op.values, 34 ∉ val := by
  obtain ⟨init, last, hvalues, hcondition⟩ := Operation.apply_eq_ok h
  rw [hcondition, Operation.comparison, hvalues]
  exact contained_formatted_iff hname op.separator_sign op.isClose

/-- The lists `in` and `not_in` with single quotes and commas in the strings. -/
theorem contained_not_in :
    Contained (text "(name not in (\"O'Neil\",\"a,b)\"))")
      ((Operation.notIn [text "O'Neil", text "a,b)"]).comparison (text "name")) :=
  (@contained_iff ⟨text "name"⟩ (by decide) (.notIn [text "O'Neil", text "a,b)"]) ⟨_⟩
    rfl).mpr (by decide)

/-- A string with double quotes makes two comparisons of one. -/
theorem escapes_like :
    ((⟨text "name"⟩ : Field).like (text "x\" or \"1\"=\"1")).condition =
        text "(name like \"x\" or \"1\"=\"1\")" ∧
      tokens (text "(name like \"x\" or \"1\"=\"1\")") =
        [lparen, .word (text "name"), .word (text "like"), .quoted 34 (text "x"),
          .word (text "or"), .quoted 34 (text "1"), .symbol 61, .quoted 34 (text "1"), rparen] ∧
      ¬ Contained (text "(name like \"x\" or \"1\"=\"1\")")
        ((Operation.like (text "x\" or \"1\"=\"1")).comparison (text "name")) := by
  refine ⟨by decide, by decide, ?_⟩
  intro h
  have halone := h [] [] trivial
  revert halone
  decide

end HkuUtils.Condition
