import Mathlib.Data.List.Basic

set_option relaxedAutoImplicit false
set_option autoImplicit false

/-!
# Tokens of SQL

The tokens of an SQL text: words (identifiers, keywords and numbers), quoted texts and single
symbols, with blanks and comments between them. A quoted text ends at the first quote that is not
doubled, and a doubled quote stands for one. The lexer reads one character at a time, so that the
tokens of two texts put together are those of the first and those of the second from the mode that
the first has left.

## Main definitions

* `Sql.Token`, `Mode` — the tokens, and what the lexer is in the middle of.
* `Sql.step`, `finish` — one character, and the end of the text.
* `Sql.tokens` — the tokens of a text.
* `Sql.Complete` — a text may end in this mode, and what follows a blank is a new token.
* `Sql.Breaks` — a character that begins a new token.
* `Sql.Separator`, `Spells` — texts that may stand between others, and texts with their tokens.

## Main results

* `Sql.tokens_append_of_breaks` — texts put together where a new token begins.
* `Sql.tokens_word`, `tokens_quoted` — what becomes of a word and of a quoted text.
* `Sql.cost_tokensFrom_le` — the tokens are not longer than the text.

## Design

Characters of identifiers are letters, digits, underscores, dollar signs and all bytes from 128 on.
A text that ends inside of a quoted text or of a comment between `/*` and `*/` has a last token
`broken`.
-/

namespace Sql

/-- The tokens. -/
inductive Token where
  | word (s : List UInt8)
  | quoted (q : UInt8) (s : List UInt8)
  | symbol (c : UInt8)
  | broken
  deriving DecidableEq, Repr

/-- What the lexer is in the middle of; `quoteSeen` is after a quote that ends the quoted text
unless it is doubled. -/
inductive Mode where
  | start
  | word (acc : List UInt8)
  | quoted (q : UInt8) (acc : List UInt8)
  | quoteSeen (q : UInt8) (acc : List UInt8)
  | dash
  | lineComment
  | slash
  | blockComment
  | star
  deriving DecidableEq, Repr

/-! ## Characters -/

/-- A blank. -/
def isBlank (c : UInt8) : Bool := c == 32 || (9 ≤ c && c ≤ 13)

/-- A character of a word. -/
def isWordChar (c : UInt8) : Bool :=
  (48 ≤ c && c ≤ 57) || (65 ≤ c && c ≤ 90) || (97 ≤ c && c ≤ 122) || c == 95 || c == 36 || 128 ≤ c

/-- A quote: `"`, `'` or a backquote. -/
def isQuote (c : UInt8) : Bool := c == 34 || c == 39 || c == 96

/-! ## The lexer -/

/-- A character between tokens. -/
def begin (c : UInt8) : List Token × Mode :=
  if isBlank c then ([], .start)
  else if isWordChar c then ([], .word [c])
  else if isQuote c then ([], .quoted c [])
  else if c = 45 then ([], .dash)
  else if c = 47 then ([], .slash)
  else ([.symbol c], .start)

/-- The tokens that the end of the text completes. A quote or a block comment that is still open
makes the text broken. -/
def finish : Mode → List Token
  | .start => []
  | .word acc => [.word acc]
  | .quoted _ _ => [.broken]
  | .quoteSeen q acc => [.quoted q acc]
  | .dash => [.symbol 45]
  | .lineComment => []
  | .slash => [.symbol 47]
  | .blockComment => [.broken]
  | .star => [.broken]

/-- A character that begins a new token, after what the lexer was in the middle of. -/
def restart (m : Mode) (c : UInt8) : List Token × Mode := (finish m ++ (begin c).1, (begin c).2)

/-- One character: the tokens that it completes, and what the lexer is in the middle of then.

A quote that is doubled stands for itself, and two minus signs begin a comment. -/
def step (m : Mode) (c : UInt8) : List Token × Mode :=
  match m with
  | .start => begin c
  | .word acc => if isWordChar c then ([], .word (acc ++ [c])) else restart m c
  | .quoted q acc => if c = q then ([], .quoteSeen q acc) else ([], .quoted q (acc ++ [c]))
  | .quoteSeen q acc => if c = q then ([], .quoted q (acc ++ [q])) else restart m c
  | .dash => if c = 45 then ([], .lineComment) else restart m c
  | .lineComment => if c = 10 then ([], .start) else ([], .lineComment)
  | .slash => if c = 42 then ([], .blockComment) else restart m c
  | .blockComment => if c = 42 then ([], .star) else ([], .blockComment)
  | .star =>
    if c = 47 then ([], .start) else if c = 42 then ([], .star) else ([], .blockComment)

/-- The tokens that a text completes, and the mode after it. -/
def lex (m : Mode) : List UInt8 → List Token × Mode
  | [] => ([], m)
  | c :: s => ((step m c).1 ++ (lex (step m c).2 s).1, (lex (step m c).2 s).2)

/-- The mode after a text. -/
def after (s : List UInt8) : Mode := (lex .start s).2

/-- The tokens of a text that is read from some mode on. -/
def tokensFrom (m : Mode) (s : List UInt8) : List Token := (lex m s).1 ++ finish (lex m s).2

/-- The tokens of a text. -/
def tokens (s : List UInt8) : List Token := tokensFrom .start s

/-! ## Texts put together -/

/-- At the end there is nothing to read. -/
@[simp]
lemma lex_nil (m : Mode) : lex m [] = ([], m) := rfl

/-- The first character and the others. -/
@[simp]
lemma lex_cons (m : Mode) (c : UInt8) (s : List UInt8) :
    lex m (c :: s) = ((step m c).1 ++ (lex (step m c).2 s).1, (lex (step m c).2 s).2) := rfl

/-- Two texts one after the other. -/
lemma lex_append (m : Mode) (s t : List UInt8) :
    lex m (s ++ t) = ((lex m s).1 ++ (lex (lex m s).2 t).1, (lex (lex m s).2 t).2) := by
  induction s generalizing m with
  | nil => rfl
  | cons c s ih => simp [ih, List.append_assoc]

/-- The tokens of two texts one after the other. -/
lemma tokensFrom_append (m : Mode) (s t : List UInt8) :
    tokensFrom m (s ++ t) = (lex m s).1 ++ tokensFrom (lex m s).2 t := by
  simp [tokensFrom, lex_append, List.append_assoc]

/-- The tokens of the second text. -/
lemma tokensFrom_cons (m : Mode) (c : UInt8) (s : List UInt8) :
    tokensFrom m (c :: s) = (step m c).1 ++ tokensFrom (step m c).2 s := by
  simp [tokensFrom, List.append_assoc]

/-- The character begins a new token. -/
def Breaks (m : Mode) (c : UInt8) : Prop := step m c = restart m c

instance (m : Mode) (c : UInt8) : Decidable (Breaks m c) := inferInstanceAs (Decidable (_ = _))

/-- A text may end in this mode. -/
def Complete : Mode → Prop
  | .start | .word _ | .quoteSeen _ _ | .dash | .slash => True
  | .quoted _ _ | .lineComment | .blockComment | .star => False

instance : DecidablePred Complete
  | .start | .word _ | .quoteSeen _ _ | .dash | .slash => isTrue trivial
  | .quoted _ _ | .lineComment | .blockComment | .star => isFalse id

/-- A character is part of what the lexer is in the middle of. There is one constructor for each
way in which no token ends. -/
inductive Within : Mode → UInt8 → Mode → Prop where
  | word (acc : List UInt8) (c : UInt8) : Within (.word acc) c (.word (acc ++ [c]))
  | close (q : UInt8) (acc : List UInt8) : Within (.quoted q acc) q (.quoteSeen q acc)
  | quoted {q c : UInt8} (acc : List UInt8) (h : c ≠ q) :
    Within (.quoted q acc) c (.quoted q (acc ++ [c]))
  | double (q : UInt8) (acc : List UInt8) : Within (.quoteSeen q acc) q (.quoted q (acc ++ [q]))
  | dash : Within .dash 45 .lineComment
  | newline : Within .lineComment 10 .start
  | lineComment (c : UInt8) : Within .lineComment c .lineComment
  | slash : Within .slash 42 .blockComment
  | star : Within .blockComment 42 .star
  | blockComment (c : UInt8) : Within .blockComment c .blockComment
  | closeComment : Within .star 47 .start
  | stars : Within .star 42 .star
  | noStar (c : UInt8) : Within .star c .blockComment

/-- **What a character does**: it begins a new token, where a text may end, or it is part of what
the lexer is in the middle of.

**Proof sketch.** One case for each mode, and in each whether the character is the one that the
mode looks for. -/
theorem step_cases (m : Mode) (c : UInt8) :
    (Complete m ∧ step m c = restart m c) ∨ ∃ m', Within m c m' ∧ step m c = ([], m') := by
  cases m with
  | start => exact .inl ⟨trivial, rfl⟩
  | word acc =>
    rw [step]
    split
    · exact .inr ⟨_, .word acc c, rfl⟩
    · exact .inl ⟨trivial, rfl⟩
  | quoted q acc =>
    rw [step]
    split
    next h => exact .inr ⟨_, h ▸ .close q acc, rfl⟩
    next h => exact .inr ⟨_, .quoted acc h, rfl⟩
  | quoteSeen q acc =>
    rw [step]
    split
    next h => exact .inr ⟨_, h ▸ .double q acc, rfl⟩
    next => exact .inl ⟨trivial, rfl⟩
  | dash =>
    rw [step]
    split
    next h => exact .inr ⟨_, h ▸ .dash, rfl⟩
    next => exact .inl ⟨trivial, rfl⟩
  | lineComment =>
    rw [step]
    split
    next h => exact .inr ⟨_, h ▸ .newline, rfl⟩
    next => exact .inr ⟨_, .lineComment c, rfl⟩
  | slash =>
    rw [step]
    split
    next h => exact .inr ⟨_, h ▸ .slash, rfl⟩
    next => exact .inl ⟨trivial, rfl⟩
  | blockComment =>
    rw [step]
    split
    next h => exact .inr ⟨_, h ▸ .star, rfl⟩
    next => exact .inr ⟨_, .blockComment c, rfl⟩
  | star =>
    rw [step]
    split
    next h => exact .inr ⟨_, h ▸ .closeComment, rfl⟩
    next =>
      split
      next h => exact .inr ⟨_, h ▸ .stars, rfl⟩
      next => exact .inr ⟨_, .noStar c, rfl⟩

/-- A character that begins a new token does so after a text, too. -/
lemma tokensFrom_of_breaks {m : Mode} {c : UInt8} (h : Breaks m c) (s : List UInt8) :
    tokensFrom m (c :: s) = finish m ++ tokens (c :: s) := by
  rw [tokensFrom_cons, h, tokens, tokensFrom_cons, restart, List.append_assoc]
  rfl

/-- **Texts put together** where a new token begins. -/
theorem tokens_append_of_breaks {s t : List UInt8} {c : UInt8} (h : Breaks (after s) c) :
    tokens (s ++ c :: t) = tokens s ++ tokens (c :: t) := by
  rw [tokens, tokensFrom_append]
  show (lex .start s).1 ++ tokensFrom (after s) (c :: t) = _
  rw [tokensFrom_of_breaks h, ← List.append_assoc]
  rfl

/-- A text after one that ends between tokens. -/
lemma tokens_append_of_start {s : List UInt8} (h : after s = .start) (t : List UInt8) :
    tokens (s ++ t) = tokens s ++ tokens t := by
  have hmode : (lex .start s).2 = .start := h
  have hs : tokens s = (lex .start s).1 := by
    rw [tokens, tokensFrom, hmode]
    exact List.append_nil _
  rw [hs, tokens, tokensFrom_append, hmode]
  rfl

/-- A character that is in no token with others: it ends words, quoted texts and operators. -/
def Separates (c : UInt8) : Prop := isWordChar c = false ∧ isQuote c = false ∧ c ≠ 45 ∧ c ≠ 42

instance : DecidablePred Separates := fun _ => inferInstanceAs (Decidable (_ ∧ _))

/-- The quote of a mode is a quote. -/
def Mode.Proper : Mode → Prop
  | .quoted q _ | .quoteSeen q _ => isQuote q = true
  | _ => True

/-- A separator begins a new token wherever a text may end. Within a quoted text or a comment no
token can end, and these are excluded. -/
lemma breaks_of_separates {m : Mode} {c : UInt8} (hc : Separates c) (hm : Complete m)
    (hq : m.Proper) : Breaks m c := by
  obtain ⟨hword, hquote, hdash, hstar⟩ := hc
  cases m with
  | start => rfl
  | word acc => simp [Breaks, step, hword]
  | quoteSeen q acc =>
    have hne : c ≠ q := by
      rintro rfl
      rw [Mode.Proper, hquote] at hq
      cases hq
    simp [Breaks, step, hne]
  | dash => simp [Breaks, step, hdash]
  | slash => simp [Breaks, step, hstar]
  | quoted q acc => exact hm.elim
  | lineComment => exact hm.elim
  | blockComment => exact hm.elim
  | star => exact hm.elim

/-- The lexer only takes quotes for quotes. -/
lemma proper_begin (c : UInt8) : (begin c).2.Proper := by
  unfold begin
  split_ifs with hblank hword hquote
  · trivial
  · trivial
  · exact hquote
  · trivial
  · trivial
  · trivial

/-- The lexer keeps the quote of a quoted text. -/
lemma proper_step {m : Mode} (hm : m.Proper) (c : UInt8) : (step m c).2.Proper := by
  rcases step_cases m c with ⟨-, h⟩ | ⟨m', hwithin, h⟩
  · rw [h]
    exact proper_begin c
  · rw [h]
    cases hwithin <;> exact hm

/-- The mode after a text. -/
lemma proper_lex {m : Mode} (hm : m.Proper) (s : List UInt8) : (lex m s).2.Proper := by
  induction s generalizing m with
  | nil => exact hm
  | cons c s ih => exact ih (proper_step hm c)

/-- **Texts put together** at a separator. -/
theorem tokens_append_of_separates {s t : List UInt8} {c : UInt8} (hc : Separates c)
    (hs : Complete (after s)) : tokens (s ++ c :: t) = tokens s ++ tokens (c :: t) :=
  tokens_append_of_breaks (breaks_of_separates hc hs (proper_lex (m := .start) trivial s))

/-- The mode after texts put together where a new token begins. -/
lemma after_append_of_breaks {s : List UInt8} {c : UInt8} (h : Breaks (after s) c)
    (t : List UInt8) : after (s ++ c :: t) = after (c :: t) := by
  have hstep : (step (lex .start s).2 c).2 = (begin c).2 := by
    rw [show step (lex .start s).2 c = restart (lex .start s).2 c from h]
    rfl
  rw [after, lex_append, lex_cons, hstep]
  rfl

/-- The mode after texts put together at a separator. -/
lemma after_append_of_separates {s : List UInt8} {c : UInt8} (hc : Separates c)
    (hs : Complete (after s)) (t : List UInt8) : after (s ++ c :: t) = after (c :: t) :=
  after_append_of_breaks (breaks_of_separates hc hs (proper_lex (m := .start) trivial s)) t

/-- The mode after a text that follows one that ends between tokens. -/
lemma after_append_of_start {s : List UInt8} (h : after s = .start) (t : List UInt8) :
    after (s ++ t) = after t := by
  have hmode : (lex .start s).2 = .start := h
  rw [after, lex_append, hmode]
  rfl

/-- Some words or signs that stand apart from what is before them and from what follows them. -/
structure Separator (s : List UInt8) (ts : List Token) : Prop where
  separates : ∃ c t, s = c :: t ∧ Separates c
  ends : after s = .start
  tokens_eq : tokens s = ts

section Separator

variable {s sep t : List UInt8} {ts us vs : List Token}

/-- **Texts put together** with something between them. -/
theorem tokens_append_separator (hs : Complete (after s)) (hsep : Separator sep us)
    (t : List UInt8) : tokens (s ++ sep ++ t) = tokens s ++ us ++ tokens t := by
  obtain ⟨c, w, hcons, hc⟩ := hsep.separates
  rw [List.append_assoc, hcons, List.cons_append, tokens_append_of_separates hc hs,
    ← List.cons_append, ← hcons, tokens_append_of_start hsep.ends, hsep.tokens_eq,
    List.append_assoc]

/-- The mode after texts put together with something between them. -/
lemma after_append_separator (hs : Complete (after s)) (hsep : Separator sep us) (t : List UInt8) :
    after (s ++ sep ++ t) = after t := by
  obtain ⟨c, w, hcons, hc⟩ := hsep.separates
  rw [List.append_assoc, hcons, List.cons_append, after_append_of_separates hc hs,
    ← List.cons_append, ← hcons, after_append_of_start hsep.ends]

/-- A text with its tokens that may end where it ends. -/
structure Spells (s : List UInt8) (ts : List Token) : Prop where
  tokens_eq : tokens s = ts
  complete : Complete (after s)

/-- A separator and something more behind a text. -/
lemma Spells.append (hs : Spells s ts) {c : UInt8} (hc : Separates c) (ht : Spells (c :: t) us) :
    Spells (s ++ c :: t) (ts ++ us) where
  tokens_eq := by
    rw [tokens_append_of_separates hc hs.complete, hs.tokens_eq, ht.tokens_eq]
  complete := by
    rw [after_append_of_separates hc hs.complete]
    exact ht.complete

/-- Something behind a text that ends between tokens. -/
lemma Spells.append_of_start (hs : tokens s = ts) (hstart : after s = .start) (ht : Spells t us) :
    Spells (s ++ t) (ts ++ us) where
  tokens_eq := by rw [tokens_append_of_start hstart, hs, ht.tokens_eq]
  complete := by
    rw [after_append_of_start hstart]
    exact ht.complete

/-- Two texts with something between them. -/
lemma Spells.append_separator (hs : Spells s ts) (hsep : Separator sep us) (ht : Spells t vs) :
    Spells (s ++ sep ++ t) (ts ++ us ++ vs) where
  tokens_eq := by
    rw [tokens_append_separator hs.complete hsep, hs.tokens_eq, ht.tokens_eq]
  complete := by
    rw [after_append_separator hs.complete hsep]
    exact ht.complete

end Separator

/-! ## Single tokens -/

/-- A character that is a token by itself. -/
def IsSymbol (c : UInt8) : Prop := begin c = ([.symbol c], .start)

instance : DecidablePred IsSymbol := fun _ => inferInstanceAs (Decidable (_ = _))

/-- A symbol. -/
lemma tokens_symbol {c : UInt8} (hc : IsSymbol c) (t : List UInt8) :
    tokens (c :: t) = .symbol c :: tokens t := by
  rw [tokens, tokensFrom_cons, step, hc]
  rfl

/-- The characters of a word are not blanks, and not quotes. -/
lemma begin_of_isWordChar {c : UInt8} (hc : isWordChar c = true) : begin c = ([], .word [c]) := by
  have hblank : isBlank c = false := by
    by_contra h
    simp only [isWordChar, isBlank, Bool.or_eq_true, Bool.and_eq_true, decide_eq_true_eq,
      beq_iff_eq, Bool.not_eq_false] at hc h
    simp only [UInt8.le_iff_toNat_le, ← UInt8.toNat_inj, UInt8.toNat_ofNat] at hc h
    omega
  rw [begin, hblank, hc]
  rfl

/-- More characters of a word. -/
lemma lex_word (acc : List UInt8) {w : List UInt8} (hw : ∀ c ∈ w, isWordChar c = true) :
    lex (.word acc) w = ([], .word (acc ++ w)) := by
  induction w generalizing acc with
  | nil => simp
  | cons c w ih =>
    rw [lex_cons, step, if_pos (hw c (by simp)), ih _ fun c hc => hw c (List.mem_cons_of_mem _ hc)]
    simp

/-- A word is one token so far. -/
lemma lex_of_word {w : List UInt8} (hne : w ≠ []) (hw : ∀ c ∈ w, isWordChar c = true) :
    lex .start w = ([], .word w) := by
  cases w with
  | nil => exact absurd rfl hne
  | cons c w =>
    rw [lex_cons, step, begin_of_isWordChar (hw c (by simp)),
      lex_word _ fun c hc => hw c (List.mem_cons_of_mem _ hc)]
    rfl

/-- **A word.** -/
theorem tokens_word {w : List UInt8} (hne : w ≠ []) (hw : ∀ c ∈ w, isWordChar c = true) :
    tokens w = [.word w] := by
  rw [tokens, tokensFrom, lex_of_word hne hw]
  rfl

/-- Characters of a quoted text. -/
lemma lex_quoted {q : UInt8} (acc : List UInt8) {s : List UInt8} (hs : q ∉ s) :
    lex (.quoted q acc) s = ([], .quoted q (acc ++ s)) := by
  induction s generalizing acc with
  | nil => simp
  | cons c s ih =>
    obtain ⟨hc, hs⟩ := not_or.mp (mt List.mem_cons.mpr hs)
    rw [lex_cons, step, if_neg (Ne.symm hc), ih _ hs]
    simp

/-- **A quoted text** without the quote in it. -/
theorem tokensFrom_quoted {q : UInt8} {s : List UInt8} (hs : q ∉ s) {c : UInt8} (hc : c ≠ q)
    (t : List UInt8) :
    tokensFrom (.quoted q []) (s ++ q :: c :: t) = .quoted q s :: tokens (c :: t) := by
  have hbreaks : Breaks (.quoteSeen q s) c := by simp [Breaks, step, hc]
  rw [tokensFrom_append, lex_quoted [] hs, tokensFrom_cons]
  show [] ++ ((step (.quoted q s) q).1 ++ tokensFrom (step (.quoted q s) q).2 (c :: t)) = _
  rw [step, if_pos rfl]
  exact tokensFrom_of_breaks hbreaks t

/-- A quote begins a quoted text. -/
lemma tokens_quote {q : UInt8} (hq : isQuote q = true) (t : List UInt8) :
    tokens (q :: t) = tokensFrom (.quoted q []) t := by
  have hbegin : begin q = ([], .quoted q []) := by
    simp only [isQuote, Bool.or_eq_true, beq_iff_eq] at hq
    rcases hq with (rfl | rfl) | rfl <;> rfl
  rw [tokens, tokensFrom_cons, step, hbegin]
  rfl

/-- A text may end where it does if it is read the same whatever follows it.

**Proof sketch.** In a mode where a text may not end there is something that could follow and would
be read as a part of what is open: the quote that closes it, a symbol in a comment. -/
theorem complete_of_forall {s : List UInt8} {ts : List Token}
    (h : ∀ t, tokens (s ++ t) = ts ++ tokens t) : Complete (after s) := by
  have hts : (lex .start s).1 ++ finish (after s) = ts := by
    have hnil := h []
    rwa [List.append_nil, show tokens [] = [] from rfl, List.append_nil] at hnil
  have hrest : ∀ t, tokensFrom (after s) t = finish (after s) ++ tokens t := by
    intro t
    have ht := h t
    rw [← hts, tokens, tokensFrom_append, List.append_assoc, List.append_cancel_left_eq] at ht
    exact ht
  have hproper : (after s).Proper := proper_lex (m := .start) trivial s
  cases hm : after s with
  | start => trivial
  | word acc => trivial
  | quoteSeen q acc => trivial
  | dash => trivial
  | slash => trivial
  | quoted q acc =>
    -- the quote that closes the text
    rw [hm] at hrest hproper
    have hquote := hrest [q]
    rw [tokens_quote hproper] at hquote
    simp [tokensFrom, step, finish] at hquote
  | lineComment =>
    have hsymbol := hrest [61]
    rw [hm] at hsymbol
    exact absurd hsymbol (by decide)
  | blockComment =>
    have hclose := hrest [42, 47]
    rw [hm] at hclose
    exact absurd hclose (by decide)
  | star =>
    have hclose := hrest [47]
    rw [hm] at hclose
    exact absurd hclose (by decide)

/-- A word that the text goes on with is longer, but still the first token. -/
lemma exists_tokensFrom_word (acc s : List UInt8) :
    ∃ w ts, tokensFrom (.word acc) s = .word (acc ++ w) :: ts := by
  induction s generalizing acc with
  | nil => exact ⟨[], [], by simp [tokensFrom, finish]⟩
  | cons c s ih =>
    rw [tokensFrom_cons, step]
    split
    next =>
      obtain ⟨w, ts, h⟩ := ih (acc ++ [c])
      exact ⟨c :: w, ts, by rw [h, List.append_assoc]; rfl⟩
    next => exact ⟨[], (begin c).1 ++ tokensFrom (begin c).2 s, by simp [restart, finish]⟩

/-- A text that begins with a character of a word has a word first. -/
lemma exists_tokens_word {c : UInt8} (hc : isWordChar c = true) (s : List UInt8) :
    ∃ w ts, tokens (c :: s) = .word (c :: w) :: ts := by
  rw [tokens, tokensFrom_cons, step, begin_of_isWordChar hc]
  exact exists_tokensFrom_word [c] s

/-- A text may end where a new token begins.

**Proof sketch.** One case for each mode; within quotes and comments a word character does not
begin a new token. -/
lemma complete_of_breaks {m : Mode} {c : UInt8} (hc : isWordChar c = true) (h : Breaks m c) :
    Complete m := by
  have hbegin := begin_of_isWordChar hc
  cases m with
  | start => trivial
  | word acc => trivial
  | quoteSeen q acc => trivial
  | dash => trivial
  | slash => trivial
  | quoted q acc =>
    rw [Breaks, step, restart] at h
    split at h <;> simp [finish] at h
  | lineComment =>
    rw [Breaks, step, restart, hbegin] at h
    split at h <;> simp at h
  | blockComment =>
    rw [Breaks, step, restart] at h
    split at h <;> simp [finish] at h
  | star =>
    rw [Breaks, step, restart] at h
    split at h
    · simp [finish] at h
    · split at h <;> simp [finish] at h

/-! ## Comments and broken texts -/

/-- A comment goes on to the end of the line. -/
lemma tokensFrom_lineComment {s : List UInt8} (hs : 10 ∉ s) : tokensFrom .lineComment s = [] := by
  induction s with
  | nil => rfl
  | cons c s ih =>
    obtain ⟨hc, hs⟩ := not_or.mp (mt List.mem_cons.mpr hs)
    rw [tokensFrom_cons, step, if_neg (Ne.symm hc), ih hs]
    rfl

/-- What is put behind a comment is part of it. -/
lemma tokens_append_of_lineComment {s t : List UInt8} (h : after s = .lineComment) (ht : 10 ∉ t) :
    tokens (s ++ t) = tokens s := by
  have hmode : (lex .start s).2 = .lineComment := h
  rw [tokens, tokensFrom_append, hmode, tokensFrom_lineComment ht, tokens, tokensFrom, hmode]
  rfl

/-- A character does not break a text. -/
lemma broken_not_mem_step (m : Mode) (c : UInt8) : .broken ∉ (step m c).1 := by
  have hbegin : Token.broken ∉ (begin c).1 := by
    unfold begin
    split_ifs <;> simp
  rcases step_cases m c with ⟨hm, h⟩ | ⟨m', -, h⟩
  · have hfinish : Token.broken ∉ finish m := by
      cases m <;> simp_all [Complete, finish]
    rw [h, restart, List.mem_append]
    exact not_or.mpr ⟨hfinish, hbegin⟩
  · rw [h]
    exact List.not_mem_nil

/-- Only the end of a text can be broken. -/
lemma broken_not_mem_lex (m : Mode) (s : List UInt8) : .broken ∉ (lex m s).1 := by
  induction s generalizing m with
  | nil => simp
  | cons c s ih =>
    rw [lex_cons, List.mem_append]
    exact not_or.mpr ⟨broken_not_mem_step m c, ih _⟩

/-- A text is broken if it ends inside of a quoted text or of a comment between signs. -/
lemma broken_mem_tokens_iff {s : List UInt8} :
    .broken ∈ tokens s ↔ .broken ∈ finish (after s) := by
  rw [tokens, tokensFrom, List.mem_append, or_iff_right (broken_not_mem_lex _ _)]
  rfl

/-- A text that is not broken may end, unless it does so in a comment to the end of the line. -/
lemma complete_of_broken_notMem {s : List UInt8} (h : .broken ∉ tokens s)
    (hline : after s ≠ .lineComment) : Complete (after s) := by
  rw [broken_mem_tokens_iff] at h
  cases hm : after s with
  | quoted q acc => simp [hm, finish] at h
  | start => trivial
  | word acc => trivial
  | quoteSeen q acc => trivial
  | dash => trivial
  | slash => trivial
  | lineComment => exact hline hm
  | blockComment => simp [hm, finish] at h
  | star => simp [hm, finish] at h

/-! ## Where words come from -/

/-- The characters of the word that the lexer is in the middle of. -/
def Mode.pending : Mode → List UInt8
  | .word acc => acc
  | _ => []

/-- The word that the lexer is in the middle of ends where the text does. -/
lemma pending_step (m : Mode) (c : UInt8) : (step m c).2.pending <:+ m.pending ++ [c] := by
  rcases step_cases m c with ⟨-, h⟩ | ⟨m', hwithin, h⟩
  · rw [h, restart]
    unfold begin
    split_ifs <;> simp [Mode.pending]
  · rw [h]
    cases hwithin <;> simp [Mode.pending]

/-- The end of a text completes only the word that the lexer is in the middle of. -/
lemma word_mem_finish {m : Mode} {w : List UInt8} (h : .word w ∈ finish m) : w = m.pending := by
  cases m <;> simp_all [finish, Mode.pending]

/-- A character completes only the word that the lexer is in the middle of. -/
lemma word_mem_step {m : Mode} {c : UInt8} {w : List UInt8} (h : .word w ∈ (step m c).1) :
    w = m.pending := by
  have hbegin : Token.word w ∉ (begin c).1 := by
    unfold begin
    split_ifs <;> simp
  rcases step_cases m c with ⟨-, hstep⟩ | ⟨m', -, hstep⟩
  · rw [hstep, restart, List.mem_append, or_iff_left hbegin] at h
    exact word_mem_finish h
  · rw [hstep] at h
    exact absurd h List.not_mem_nil

/-- A word among the tokens occurs in the text.

**Proof sketch.** By induction on the text, with what the lexer has read of an unfinished token in
front. A word that a character completes is this part; otherwise it is found in the rest. -/
lemma word_infix_of_mem {m : Mode} {s w : List UInt8} (h : .word w ∈ tokensFrom m s) :
    w <:+: m.pending ++ s := by
  induction s generalizing m with
  | nil =>
    obtain rfl := word_mem_finish (m := m) (by simpa [tokensFrom] using h)
    simp
  | cons c s ih =>
    rw [tokensFrom_cons, List.mem_append] at h
    rcases h with hstep | hrest
    · obtain rfl := word_mem_step hstep
      exact (List.prefix_append _ _).isInfix
    · obtain ⟨a, ha⟩ := pending_step m c
      have happ : m.pending ++ c :: s = a ++ ((step m c).2.pending ++ s) := by
        rw [← List.append_assoc, ha, List.append_assoc]
        rfl
      rw [happ]
      exact List.infix_append_of_infix_right (ih hrest)

/-- **A word among the tokens occurs in the text.** -/
theorem infix_of_word_mem {s w : List UInt8} (h : .word w ∈ tokens s) : w <:+: s :=
  word_infix_of_mem h

/-! ## The length of the tokens -/

/-- How many characters a token needs at least; a quote in a quoted text is doubled. -/
def Token.cost : Token → ℕ
  | .word s => s.length
  | .quoted q s => s.length + s.count q + 2
  | .symbol _ => 1
  | .broken => 1

/-- How many characters a mode has needed at least. -/
def Mode.cost : Mode → ℕ
  | .start | .lineComment => 0
  | .word acc => acc.length
  | .quoted q acc => acc.length + acc.count q + 1
  | .quoteSeen q acc => acc.length + acc.count q + 2
  | .dash | .slash | .blockComment | .star => 1

/-- How many characters some tokens need at least. -/
def cost (ts : List Token) : ℕ := ts.foldr (fun t n => t.cost + n) 0

/-- No tokens cost nothing. -/
@[simp]
lemma cost_nil : cost [] = 0 := rfl

/-- The first token and the others. -/
@[simp]
lemma cost_cons (t : Token) (ts : List Token) : cost (t :: ts) = t.cost + cost ts := rfl

/-- Tokens behind each other. -/
@[simp]
lemma cost_append (ts us : List Token) : cost (ts ++ us) = cost ts + cost us := by
  induction ts with
  | nil => simp
  | cons t ts ih => rw [List.cons_append, cost_cons, cost_cons, ih, Nat.add_assoc]

/-- The end of a text needs no more. -/
lemma cost_finish_le (m : Mode) : cost (finish m) ≤ m.cost := by
  cases m <;> simp [finish, Token.cost, Mode.cost]

/-- A character between tokens is at most one. -/
lemma cost_begin_le (c : UInt8) : cost (begin c).1 + (begin c).2.cost ≤ 1 := by
  unfold begin
  split_ifs <;> simp [Token.cost, Mode.cost]

/-- A character that begins a new token. -/
lemma cost_restart_le (m : Mode) (c : UInt8) :
    cost (restart m c).1 + (restart m c).2.cost ≤ m.cost + 1 := by
  have hm := cost_finish_le m
  have hc := cost_begin_le c
  simp only [restart, cost_append]
  omega

/-- Each character is needed for at most one. -/
lemma cost_step_le (m : Mode) (c : UInt8) :
    cost (step m c).1 + (step m c).2.cost ≤ m.cost + 1 := by
  rcases step_cases m c with ⟨-, h⟩ | ⟨m', hwithin, h⟩
  · rw [h]
    exact cost_restart_le m c
  · rw [h]
    cases hwithin with
    | quoted acc hne =>
      have hcount : [c].count _ = 0 := List.count_eq_zero.mpr (by simpa using Ne.symm hne)
      simp only [cost_nil, Mode.cost, List.length_append, List.count_append, hcount,
        List.length_singleton]
      omega
    | double q acc =>
      simp only [cost_nil, Mode.cost, List.length_append, List.count_append,
        List.count_singleton_self, List.length_singleton]
      omega
    | _ => simp [Mode.cost]

/-- **The tokens are not longer than the text.** -/
theorem cost_tokensFrom_le (m : Mode) (s : List UInt8) :
    cost (tokensFrom m s) ≤ m.cost + s.length := by
  induction s generalizing m with
  | nil => simpa [tokensFrom] using cost_finish_le m
  | cons c s ih =>
    have hstep := cost_step_le m c
    have hrest := ih (step m c).2
    rw [tokensFrom_cons, cost_append, List.length_cons]
    omega

end Sql
