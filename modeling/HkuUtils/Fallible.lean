import Mathlib.Data.List.Basic

set_option relaxedAutoImplicit false
set_option autoImplicit false

/-!
# Programs that can fail

A program on a state returns a value or throws; what it did to the state before it threw stays
done. Programs are run on concrete states, and reasoned about by what they keep.

## Main definitions

* `Fallible` — the programs, a monad with exceptions.
* `Fallible.lift`, `onCopy` — a program run beside another part of the state, or on a copy of it.
* `Fallible.forEach` — a program run on each element of a list, in place.
* `Fallible.Throws`, `Keeps`, `Preserves` — how a program ends, what it does not change, and which
  invariants it preserves.

## Main results

* `Fallible.Keeps.bind`, `lift`, `forEach` — one frame rule for each construct.
* `Fallible.Preserves.bind`, `tryCatch` — the rules for invariants.
* `Fallible.forEach_cons_ok`, `forEach_cons_error` — a loop step by step.
-/

/-- A program on the state `σ` that returns an `α` or throws an `ε`. -/
def Fallible (σ ε α : Type) : Type := σ → Except ε α × σ

namespace Fallible

variable {σ τ ω ε α β : Type}

/-- The program that returns a value. -/
def ret (a : α) : Fallible σ ε α := fun s => (.ok a, s)

/-- One program after another; the second does not run if the first throws. -/
def andThen (p : Fallible σ ε α) (q : α → Fallible σ ε β) : Fallible σ ε β := fun s =>
  match p s with
  | (.ok a, t) => q a t
  | (.error e, t) => (.error e, t)

/-- The program that throws. -/
def raise (e : ε) : Fallible σ ε α := fun s => (.error e, s)

/-- A handler goes on in the state that the exception has left. -/
def handle (p : Fallible σ ε α) (h : ε → Fallible σ ε α) : Fallible σ ε α := fun s =>
  match p s with
  | (.ok a, t) => (.ok a, t)
  | (.error e, t) => h e t

instance : Monad (Fallible σ ε) where
  pure := ret
  bind := andThen

instance : MonadExceptOf ε (Fallible σ ε) where
  throw := raise
  tryCatch := handle

/-- The state. -/
def get : Fallible σ ε σ := fun s => (.ok s, s)

/-- The state is changed. -/
def modify (f : σ → σ) : Fallible σ ε Unit := fun s => (.ok (), f s)

/-- The program, or nothing. -/
def when (c : Bool) (p : Fallible σ ε Unit) : Fallible σ ε Unit := if c then p else pure ()

/-- A program runs beside another part of the state. -/
def lift (p : Fallible ω ε α) : Fallible (ω × τ) ε α := fun s =>
  match p s.1 with
  | (r, w) => (r, (w, s.2))

/-- A program runs on the copy `l` of a part of the state, which is dropped afterwards. -/
def onCopy (l : τ) (p : Fallible (ω × τ) ε α) : Fallible (ω × τ) ε α := fun s =>
  match p (s.1, l) with
  | (r, (w, _)) => (r, (w, s.2))

/-- `for (auto& a : as) p(a)`: an exception leaves the elements that follow as they are. -/
def forEach (p : Fallible (ω × τ) ε Unit) : Fallible (ω × List τ) ε Unit := fun s =>
  loop s.1 s.2
where
  /-- The loop from the state `w` over the elements that are left. -/
  loop (w : ω) : List τ → Except ε Unit × ω × List τ
    | [] => (.ok (), (w, []))
    | a :: as =>
      match p (w, a) with
      | (.ok _, (w', a')) =>
        let (r, (w'', as')) := loop w' as
        (r, (w'', a' :: as'))
      | (.error e, (w', a')) => (.error e, (w', a' :: as))

/-! ## Running a program -/

/-- A value without any effect. -/
@[simp]
lemma pure_apply (a : α) (s : σ) : (pure a : Fallible σ ε α) s = (.ok a, s) := rfl

/-- An exception leaves the state. -/
@[simp]
lemma throw_apply (e : ε) (s : σ) : (throw e : Fallible σ ε α) s = (.error e, s) := rfl

/-- The state is read. -/
@[simp]
lemma get_apply (s : σ) : (get : Fallible σ ε σ) s = (.ok s, s) := rfl

/-- The state is changed. -/
@[simp]
lemma modify_apply (f : σ → σ) (s : σ) :
    (modify f : Fallible σ ε Unit) s = (.ok (), f s) := rfl

/-- A computation on one part of the state leaves the other part. -/
@[simp]
lemma lift_apply (p : Fallible ω ε α) (s : ω × τ) :
    lift p s = ((p s.1).1, ((p s.1).2, s.2)) := rfl

/-- A computation on a copy does not change the original. -/
@[simp]
lemma onCopy_apply (l : τ) (p : Fallible (ω × τ) ε α) (s : ω × τ) :
    onCopy l p s = ((p (s.1, l)).1, ((p (s.1, l)).2.1, s.2)) := rfl

/-- What is asked for is done. -/
@[simp]
lemma when_true (p : Fallible σ ε Unit) : when true p = p := rfl

/-- What is not asked for is not done. -/
@[simp]
lemma when_false (p : Fallible σ ε Unit) : when false p = pure () := rfl

/-- The second program runs in the state that the first has left. -/
lemma bind_ok {p : Fallible σ ε α} {s t : σ} {a : α} (h : p s = (.ok a, t))
    (q : α → Fallible σ ε β) : (p >>= q) s = q a t := by
  show andThen p q s = _
  rw [andThen, h]

/-- The second program does not run. -/
lemma bind_error {p : Fallible σ ε α} {s t : σ} {e : ε} (h : p s = (.error e, t))
    (q : α → Fallible σ ε β) : (p >>= q) s = (.error e, t) := by
  show andThen p q s = _
  rw [andThen, h]

/-- A program and then nothing. -/
lemma id_map_apply (p : Fallible σ ε α) : id <$> p = p := by
  funext s
  show andThen p (fun a => ret a) s = p s
  unfold andThen
  rcases p s with ⟨_ | _, _⟩ <;> rfl

/-- Programs one after the other. -/
lemma bind_bind {γ : Type} (p : Fallible σ ε α) (q : α → Fallible σ ε β) (r : β → Fallible σ ε γ) :
    p >>= q >>= r = p >>= fun a => q a >>= r := by
  funext s
  show andThen (andThen p q) r s = andThen p (fun a => andThen (q a) r) s
  unfold andThen
  rcases p s with ⟨_ | _, _⟩ <;> rfl

instance : LawfulMonad (Fallible σ ε) :=
  LawfulMonad.mk' _ id_map_apply (fun _ _ => rfl) bind_bind

/-- The handler does not run. -/
lemma tryCatch_ok {p : Fallible σ ε α} {s t : σ} {a : α} (h : p s = (.ok a, t))
    (q : ε → Fallible σ ε α) : (tryCatch p q) s = (.ok a, t) := by
  show handle p q s = _
  rw [handle, h]

/-- The handler runs in the state that the exception has left. -/
lemma tryCatch_error {p : Fallible σ ε α} {s t : σ} {e : ε} (h : p s = (.error e, t))
    (q : ε → Fallible σ ε α) : (tryCatch p q) s = q e t := by
  show handle p q s = _
  rw [handle, h]

/-- A loop over nothing. -/
@[simp]
lemma forEach_nil (p : Fallible (ω × τ) ε Unit) (w : ω) : forEach p (w, []) = (.ok (), (w, [])) :=
  rfl

/-- A loop whose first step returns. -/
lemma forEach_cons_ok {p : Fallible (ω × τ) ε Unit} {w w' : ω} {a a' : τ} {u : Unit}
    (h : p (w, a) = (.ok u, (w', a'))) (as : List τ) :
    forEach p (w, a :: as) =
      ((forEach p (w', as)).1, ((forEach p (w', as)).2.1, a' :: (forEach p (w', as)).2.2)) := by
  simp only [forEach, forEach.loop, h]

/-- A loop whose first step throws. -/
lemma forEach_cons_error {p : Fallible (ω × τ) ε Unit} {w w' : ω} {a a' : τ} {e : ε}
    (h : p (w, a) = (.error e, (w', a'))) (as : List τ) :
    forEach p (w, a :: as) = (.error e, (w', a' :: as)) := by
  simp only [forEach, forEach.loop, h]

/-! ## How a program ends -/

/-- The program throws. -/
def Throws (p : Fallible σ ε α) (s : σ) : Prop := ∃ e, (p s).1 = .error e

/-- The program returns. -/
def Returns (p : Fallible σ ε α) (s : σ) : Prop := ∃ a, (p s).1 = .ok a

/-- A returned value. -/
lemma returns_pure (a : α) (s : σ) : Returns (pure a : Fallible σ ε α) s := ⟨a, rfl⟩

/-- A run that returns. -/
lemma returns_of_eq {p : Fallible σ ε α} {s t : σ} {a : α} (h : p s = (.ok a, t)) : Returns p s :=
  ⟨a, by rw [h]⟩

/-- A run that throws. -/
lemma throws_of_eq {p : Fallible σ ε α} {s t : σ} {e : ε} (h : p s = (.error e, t)) :
    Throws p s := ⟨e, by rw [h]⟩

/-- A program throws unless it returns. -/
lemma throws_iff {p : Fallible σ ε α} {s : σ} : Throws p s ↔ ¬ Returns p s := by
  unfold Throws Returns
  cases (p s).1 with
  | ok a => simp
  | error e => simp

/-! ## What a program keeps -/

/-- The program does not change the part `f` of the state, whichever way it ends. -/
def Keeps (f : σ → β) (p : Fallible σ ε α) : Prop := ∀ s, f (p s).2 = f s

namespace Keeps

variable {γ : Type} {f : σ → γ}

/-- A returned value. -/
lemma pure (a : α) : Keeps f (Pure.pure a : Fallible σ ε α) := fun _ => rfl

/-- An exception. -/
lemma throw (e : ε) : Keeps f (MonadExceptOf.throw e : Fallible σ ε α) := fun _ => rfl

/-- A look at the state. -/
lemma get : Keeps f (Fallible.get : Fallible σ ε σ) := fun _ => rfl

/-- A change elsewhere. -/
lemma modify {g : σ → σ} (h : ∀ s, f (g s) = f s) :
    Keeps f (Fallible.modify g : Fallible σ ε Unit) := h

/-- Both programs keep it. -/
lemma bind {p : Fallible σ ε α} {q : α → Fallible σ ε β} (hp : Keeps f p)
    (hq : ∀ a, Keeps f (q a)) : Keeps f (p >>= q) := by
  intro s
  have hps := hp s
  rcases h : p s with ⟨r, t⟩
  rw [h] at hps
  cases r with
  | ok a => rw [bind_ok h, hq a t, hps]
  | error e => rw [bind_error h, hps]

/-- Both branches keep it. -/
lemma ite {c : Prop} [Decidable c] {p q : Fallible σ ε α} (hp : Keeps f p) (hq : Keeps f q) :
    Keeps f (if c then p else q) := by
  split
  · exact hp
  · exact hq

/-- What the program and the rest of the state keep. -/
lemma lift {f : ω → γ} {p : Fallible ω ε α} (hp : Keeps f p) :
    Keeps (fun s : ω × τ => f s.1) (Fallible.lift p) := fun s => hp s.1

/-- A program beside another part of the state keeps that part. -/
lemma lift_snd (p : Fallible ω ε α) : Keeps (fun s : ω × τ => s.2) (Fallible.lift p) := fun _ => rfl

/-- Every step of a loop keeps it. -/
lemma forEach {f : ω → γ} {p : Fallible (ω × τ) ε Unit} (hp : Keeps (fun s => f s.1) p) :
    Keeps (fun s => f s.1) (Fallible.forEach p) := by
  rintro ⟨w, as⟩
  induction as generalizing w with
  | nil => rfl
  | cons a as ih =>
    have hpa : f (p (w, a)).2.1 = f w := hp (w, a)
    rcases h : p (w, a) with ⟨r, w', a'⟩
    rw [h] at hpa
    cases r with
    | ok u =>
      rw [forEach_cons_ok h]
      exact (ih w').trans hpa
    | error e =>
      rw [forEach_cons_error h]
      exact hpa

end Keeps

/-! ## What holds before and after a program -/

/-- The program preserves the invariant, whichever way it ends. -/
def Preserves (I : σ → Prop) (p : Fallible σ ε α) : Prop := ∀ s, I s → I (p s).2

namespace Preserves

variable {I : σ → Prop}

/-- A returned value. -/
lemma pure (a : α) : Preserves I (Pure.pure a : Fallible σ ε α) := fun _ h => h

/-- An exception. -/
lemma throw (e : ε) : Preserves I (MonadExceptOf.throw e : Fallible σ ε α) := fun _ h => h

/-- Both programs preserve it. -/
lemma bind {p : Fallible σ ε α} {q : α → Fallible σ ε β} (hp : Preserves I p)
    (hq : ∀ a, Preserves I (q a)) : Preserves I (p >>= q) := by
  intro s hs
  have ht := hp s hs
  rcases h : p s with ⟨r, t⟩
  rw [h] at ht
  cases r with
  | ok a =>
    rw [bind_ok h]
    exact hq a t ht
  | error e =>
    rw [bind_error h]
    exact ht

/-- The program and the handler preserve it. -/
lemma tryCatch {p : Fallible σ ε α} {q : ε → Fallible σ ε α} (hp : Preserves I p)
    (hq : ∀ e, Preserves I (q e)) : Preserves I (tryCatch p q) := by
  intro s hs
  have ht := hp s hs
  rcases h : p s with ⟨r, t⟩
  rw [h] at ht
  cases r with
  | ok a =>
    rw [tryCatch_ok h]
    exact ht
  | error e =>
    rw [tryCatch_error h]
    exact hq e t ht

end Preserves

end Fallible
