import Mathlib.Data.List.Basic
import Mathlib.Order.Basic

set_option relaxedAutoImplicit false
set_option autoImplicit false

/-!
# Labelled transition systems

A system is an initial state and a partial step function: an event carries every choice that is
made outside of the system (which caller moves, how a call into the environment ends), and
`none` says that the event cannot happen in that state. Runs are lists of events, so a concrete
run can be evaluated.

## Main definitions

* `Transition.System` — the systems.
* `Transition.System.run` — the state a list of events leads to.
* `Transition.System.Along` — a condition that every step of a run meets in the state it is
  taken from.
* `Transition.System.Always` — a property of every state that a run goes through.
* `Transition.System.count` — the number of steps of a run that are of a kind in the state they
  are taken from.

## Main results

* `Transition.System.run_invariant` — what holds initially and is kept by every step holds
  after every run.
* `Transition.System.run_invariant_along` — the same for the runs whose steps all meet a
  condition.
* `Transition.System.always_of_along` — the same for every state of such a run.
* `Transition.System.always_iff_along_of_imp`, `always_iff_along` — a condition on the steps that
  is exact for a property of the states.
* `Transition.System.run_invariant_count` — the same for an invariant indexed by the number
  of steps of one kind taken so far; `run_invariant_countP` — where the kind is one of the event
  alone.
* `Transition.System.along_of_along`, `along_congr` — from one condition on the steps to another,
  and two that agree.
* `Transition.System.run_invariant_past` — the same for an invariant that speaks of the events so
  far.
* `Transition.System.run_simulates` — a system whose steps are runs of another one.
* `Transition.System.returns_of_measure` — every schedule ends with the same result.
-/

namespace Transition

universe u v w x

/-- A system with states `σ` and events `ε`. -/
structure System (σ : Type u) (ε : Type v) where
  /-- The state before any event. -/
  init : σ
  /-- The state after an event, or `none` if the event cannot happen. -/
  step : σ → ε → Option σ

namespace System

variable {σ : Type u} {ε : Type v} {τ : Type w} {δ : Type x} (S : System σ ε)

/-- The state that a list of events leads to from a given state. -/
def runFrom (s : σ) : List ε → Option σ
  | [] => some s
  | e :: es => (S.step s e).bind fun t => runFrom t es

/-- The state that a list of events leads to from the initial state. -/
def run (es : List ε) : Option σ := S.runFrom S.init es

/-- Without events nothing changes. -/
@[simp]
lemma runFrom_nil (s : σ) : S.runFrom s [] = some s := rfl

/-- The first event and the others. -/
@[simp]
lemma runFrom_cons (s : σ) (e : ε) (es : List ε) :
    S.runFrom s (e :: es) = (S.step s e).bind fun t => S.runFrom t es := rfl

/-- A run splits at any point. -/
lemma runFrom_append (s : σ) (es fs : List ε) :
    S.runFrom s (es ++ fs) = (S.runFrom s es).bind fun t => S.runFrom t fs := by
  induction es generalizing s with
  | nil => rfl
  | cons e es ih =>
    simp only [List.cons_append, runFrom_cons, Option.bind_assoc]
    congr 1
    funext t
    exact ih t

/-- The first step of a nonempty run. -/
lemma runFrom_cons_eq_some {s s' : σ} {e : ε} {es : List ε} :
    S.runFrom s (e :: es) = some s' ↔
      ∃ t, S.step s e = some t ∧ S.runFrom t es = some s' := by
  rw [runFrom_cons, Option.bind_eq_some_iff]

/-- If every event can happen in every state, then every list of events is a run. -/
lemma exists_run (h : ∀ s e, ∃ t, S.step s e = some t) (es : List ε) : ∃ s, S.run es = some s := by
  suffices hfrom : ∀ s, ∃ t, S.runFrom s es = some t from hfrom S.init
  induction es with
  | nil =>
    intro s
    exact ⟨s, rfl⟩
  | cons e es ih =>
    intro s
    obtain ⟨t, ht⟩ := h s e
    obtain ⟨u, hu⟩ := ih t
    exact ⟨u, S.runFrom_cons_eq_some.mpr ⟨t, ht, hu⟩⟩

/-- The steps of a run from `s` all meet the condition `C` in the state they are taken from. -/
def AlongFrom (C : σ → ε → Prop) (s : σ) : List ε → Prop
  | [] => True
  | e :: es => C s e ∧ ∀ t, S.step s e = some t → AlongFrom C t es

/-- The steps of a run all meet the condition `C` in the state they are taken from. -/
def Along (C : σ → ε → Prop) (es : List ε) : Prop := S.AlongFrom C S.init es

/-- A condition can be checked along a run. -/
instance decidableAlongFrom (C : σ → ε → Prop) [∀ s e, Decidable (C s e)] :
    ∀ s es, Decidable (S.AlongFrom C s es)
  | _, [] => isTrue trivial
  | s, e :: es =>
    have : Decidable (∀ t, S.step s e = some t → S.AlongFrom C t es) :=
      match h : S.step s e with
      | none => isTrue fun _ ht => by simp at ht
      | some t =>
        match decidableAlongFrom C t es with
        | isTrue ht => isTrue fun _ hu => Option.some.inj hu ▸ ht
        | isFalse ht => isFalse fun hall => ht (hall t rfl)
    inferInstanceAs (Decidable (_ ∧ _))

instance (C : σ → ε → Prop) [∀ s e, Decidable (C s e)] (es : List ε) :
    Decidable (S.Along C es) := inferInstanceAs (Decidable (S.AlongFrom C S.init es))

/-- How many steps from `s` are of the kind `p`, each judged in the state it is taken from. The
events behind one that cannot happen do not count. -/
def countFrom (p : σ → ε → Bool) (s : σ) : List ε → ℕ
  | [] => 0
  | e :: es => (if p s e then 1 else 0) + (S.step s e).elim 0 fun t => countFrom p t es

/-- How many steps of a run are of the kind `p`, each judged in the state it is taken from. -/
def count (p : σ → ε → Bool) (es : List ε) : ℕ := S.countFrom p S.init es

/-- A step and the steps behind it. -/
lemma countFrom_cons {S : System σ ε} {p : σ → ε → Bool} {s t : σ} {e : ε} {es : List ε}
    (hstep : S.step s e = some t) :
    S.countFrom p s (e :: es) = (if p s e then 1 else 0) + S.countFrom p t es := by
  rw [countFrom, hstep, Option.elim_some]

/-- A kind that the event alone decides is counted without the states. -/
lemma countFrom_event {S : System σ ε} (p : ε → Bool) {s t : σ} {es : List ε}
    (hrun : S.runFrom s es = some t) : S.countFrom (fun _ => p) s es = es.countP p := by
  induction es generalizing s with
  | nil => rfl
  | cons e es ih =>
    obtain ⟨u, hu, hrest⟩ := S.runFrom_cons_eq_some.mp hrun
    rw [countFrom_cons hu, ih hrest, List.countP_cons, Nat.add_comm]

/-- Every run meets the condition that says nothing. -/
lemma alongFrom_true (s : σ) (es : List ε) : S.AlongFrom (fun _ _ => True) s es := by
  induction es generalizing s with
  | nil => trivial
  | cons e es ih => exact ⟨trivial, fun t _ => ih t⟩

/-- `I` holds in every state that a run from `s` goes through. -/
def AlwaysFrom (I : σ → Prop) (s : σ) : List ε → Prop
  | [] => I s
  | e :: es => I s ∧ ∀ t, S.step s e = some t → AlwaysFrom I t es

/-- `I` holds in every state that a run goes through. -/
def Always (I : σ → Prop) (es : List ε) : Prop := S.AlwaysFrom I S.init es

/-- The states that a run goes through are those that its prefixes lead to. -/
lemma alwaysFrom_iff {I : σ → Prop} {s : σ} {es : List ε} :
    S.AlwaysFrom I s es ↔ ∀ fs, fs <+: es → ∀ t, S.runFrom s fs = some t → I t := by
  induction es generalizing s with
  | nil => simp [AlwaysFrom, List.prefix_nil]
  | cons e es ih =>
    refine ⟨fun ⟨hs, hrest⟩ fs hfs t hrun => ?_, fun h => ⟨h [] List.nil_prefix s rfl, ?_⟩⟩
    · rcases List.prefix_cons_iff.mp hfs with rfl | ⟨gs, rfl, hgs⟩
      · obtain rfl : s = t := by simpa using hrun
        exact hs
      · obtain ⟨u, hu, hrun⟩ := S.runFrom_cons_eq_some.mp hrun
        exact ih.mp (hrest u hu) gs hgs t hrun
    · intro u hu
      refine ih.mpr fun gs hgs t hrun => h (e :: gs) ?_ t (S.runFrom_cons_eq_some.mpr ⟨u, hu, hrun⟩)
      exact List.prefix_cons_inj e |>.mpr hgs

section Invariants

variable {S}

/-- **Invariants along a condition.** What holds in a state and is kept by every step that
meets `C` holds after every run from there whose steps all meet `C`. -/
theorem runFrom_invariant_along {C : σ → ε → Prop} {I : σ → Prop}
    (hstep : ∀ s e t, I s → C s e → S.step s e = some t → I t) {s s' : σ} {es : List ε}
    (hs : I s) (hC : S.AlongFrom C s es) (hrun : S.runFrom s es = some s') : I s' := by
  induction es generalizing s with
  | nil =>
    obtain rfl : s = s' := by simpa using hrun
    exact hs
  | cons e es ih =>
    obtain ⟨t, ht, hrest⟩ := S.runFrom_cons_eq_some.mp hrun
    exact ih (hstep s e t hs hC.1 ht) (hC.2 t ht) hrest

/-- What holds initially and is kept by every step that meets `C` holds after every run whose
steps all meet `C`. -/
theorem run_invariant_along {C : σ → ε → Prop} {I : σ → Prop} (hinit : I S.init)
    (hstep : ∀ s e t, I s → C s e → S.step s e = some t → I t) {s : σ} {es : List ε}
    (hC : S.Along C es) (hrun : S.run es = some s) : I s :=
  runFrom_invariant_along hstep hinit hC hrun

/-- If `I` implies `P`, holds initially and is kept by every step that meets `C`, then `P` holds in
every state of a run whose steps all meet `C`. -/
theorem always_of_along {C : σ → ε → Prop} {I P : σ → Prop} (hI : I S.init)
    (hP : ∀ s, I s → P s) (hstep : ∀ s e t, I s → C s e → S.step s e = some t → I t)
    {es : List ε} (hC : S.Along C es) : S.Always P es := by
  suffices h : ∀ s, I s → S.AlongFrom C s es → S.AlwaysFrom P s es from h S.init hI hC
  clear hC
  induction es with
  | nil => exact fun s hs _ => hP s hs
  | cons e es ih =>
    rintro s hs ⟨hC, halong⟩
    exact ⟨hP s hs, fun t ht => ih t (hstep s e t hs hC ht) (halong t ht)⟩

/-- **Exact conditions.** Let `I` imply `P`. If, given an invariant `J`, a step from a state with
`I` that meets `C` leads to one with `I`, and one that does not meet `C` leads to one without `P`,
then a run stays in `P` exactly when its steps meet `C`.

**Proof sketch.** By induction on the run. As long as the steps meet the condition, the invariant
holds, and the first one that does not leads out of the property. -/
theorem always_iff_along_of_imp {C : σ → ε → Prop} {J I P : σ → Prop} (hJ : J S.init)
    (hI : I S.init) (hP : ∀ s, I s → P s) (hkeep : ∀ s e t, J s → S.step s e = some t → J t)
    (hmeets : ∀ s e t, J s → I s → C s e → S.step s e = some t → I t)
    (hfails : ∀ s e t, J s → I s → S.step s e = some t → P t → C s e) {s : σ} {es : List ε}
    (hrun : S.run es = some s) : S.Always P es ↔ S.Along C es := by
  constructor
  · suffices h : ∀ s₀, J s₀ → I s₀ → S.runFrom s₀ es = some s → S.AlwaysFrom P s₀ es →
        S.AlongFrom C s₀ es from h S.init hJ hI hrun
    clear hrun
    induction es with
    | nil => exact fun _ _ _ _ _ => trivial
    | cons e es ih =>
      rintro s₀ hJ hI hrun ⟨_, halways⟩
      obtain ⟨t, ht, hrest⟩ := S.runFrom_cons_eq_some.mp hrun
      have hPt : P t := S.alwaysFrom_iff.mp (halways t ht) [] List.nil_prefix t rfl
      have hC := hfails s₀ e t hJ hI ht hPt
      refine ⟨hC, fun u hu => ?_⟩
      obtain rfl : t = u := Option.some.inj (ht.symm.trans hu)
      exact ih t (hkeep s₀ e t hJ ht) (hmeets s₀ e t hJ hI hC ht) hrest (halways t ht)
  · exact always_of_along (I := fun s => J s ∧ I s) ⟨hJ, hI⟩ (fun s h => hP s h.2)
      fun s e t h hC hst => ⟨hkeep s e t h.1 hst, hmeets s e t h.1 h.2 hC hst⟩

/-- If, given an invariant `J`, a step from a state with `I` leads to one with `I` exactly when it
meets `C`, then a run stays in `I` exactly when its steps meet `C`. -/
theorem always_iff_along {C : σ → ε → Prop} {J I : σ → Prop} (hJ : J S.init) (hI : I S.init)
    (hkeep : ∀ s e t, J s → S.step s e = some t → J t)
    (hstep : ∀ s e t, J s → I s → S.step s e = some t → (I t ↔ C s e)) {s : σ} {es : List ε}
    (hrun : S.run es = some s) : S.Always I es ↔ S.Along C es :=
  always_iff_along_of_imp hJ hI (fun _ => id) hkeep
    (fun s e t hJ hI hC hst => (hstep s e t hJ hI hst).mpr hC)
    (fun s e t hJ hI hst => (hstep s e t hJ hI hst).mp) hrun

/-- **From one condition to another.** If the steps that meet `C` keep an invariant and meet `D`,
then so do all steps of a run whose steps meet `C`. -/
theorem along_of_along {C D : σ → ε → Prop} {I : σ → Prop} (hI : I S.init)
    (hstep : ∀ s e t, I s → C s e → S.step s e = some t → I t ∧ D s e) {s : σ} {es : List ε}
    (hrun : S.run es = some s) (hC : S.Along C es) : S.Along D es := by
  suffices h : ∀ s₀, I s₀ → S.runFrom s₀ es = some s → S.AlongFrom C s₀ es → S.AlongFrom D s₀ es by
    exact h S.init hI hrun hC
  clear hrun hC
  induction es with
  | nil => exact fun _ _ _ _ => trivial
  | cons e es ih =>
    intro s₀ hs hrun hC
    obtain ⟨t, ht, hrest⟩ := S.runFrom_cons_eq_some.mp hrun
    obtain ⟨hI', hD⟩ := hstep s₀ e t hs hC.1 ht
    refine ⟨hD, fun u hu => ?_⟩
    obtain rfl : t = u := Option.some.inj (ht.symm.trans hu)
    exact ih t hI' hrest (hC.2 t ht)

/-- **Conditions that agree.** Two conditions that agree on every step from a state satisfying an
invariant are met along the same runs. -/
theorem along_congr {C D : σ → ε → Prop} {J : σ → Prop} (hJ : J S.init)
    (hkeep : ∀ s e t, J s → S.step s e = some t → J t)
    (hstep : ∀ s e t, J s → S.step s e = some t → (C s e ↔ D s e)) {s : σ} {es : List ε}
    (hrun : S.run es = some s) : S.Along C es ↔ S.Along D es :=
  ⟨along_of_along hJ (fun s e t hs hC hst =>
      ⟨hkeep s e t hs hst, (hstep s e t hs hst).mp hC⟩) hrun,
    along_of_along hJ (fun s e t hs hD hst =>
      ⟨hkeep s e t hs hst, (hstep s e t hs hst).mpr hD⟩) hrun⟩

/-- What holds initially and is kept by every step holds after every run. -/
theorem run_invariant {I : σ → Prop} (hinit : I S.init)
    (hstep : ∀ s e t, I s → S.step s e = some t → I t) {s : σ} {es : List ε}
    (hrun : S.run es = some s) : I s :=
  run_invariant_along (C := fun _ _ => True) hinit (fun s e t hI _ => hstep s e t hI)
    (S.alongFrom_true _ es) hrun

/-- **Invariants that count.** `I n` is kept by the steps that are not of the kind `p` and
moves on to `I (n + 1)` by those that are; so after a run with `m` of the latter `I m` holds.

**Proof sketch.** By induction on the events, for every state that the run may start from and every
count that this state may have. -/
theorem run_invariant_count {C : σ → ε → Prop} (p : σ → ε → Bool) {I : ℕ → σ → Prop}
    (hinit : I 0 S.init)
    (hstep : ∀ n s e t, I n s → C s e → S.step s e = some t →
      I (n + if p s e then 1 else 0) t) {s : σ} {es : List ε}
    (hC : S.Along C es) (hrun : S.run es = some s) : I (S.count p es) s := by
  suffices h : ∀ n s₀, I n s₀ → S.AlongFrom C s₀ es → S.runFrom s₀ es = some s →
      I (n + S.countFrom p s₀ es) s by
    simpa [count] using h 0 S.init hinit hC hrun
  clear hC hrun
  induction es with
  | nil =>
    intro n s₀ hs _ hrun
    obtain rfl : s₀ = s := by simpa using hrun
    exact hs
  | cons e es ih =>
    intro n s₀ hs hC hrun
    obtain ⟨t, ht, hrest⟩ := S.runFrom_cons_eq_some.mp hrun
    have := ih _ t (hstep n s₀ e t hs hC.1 ht) (hC.2 t ht) hrest
    rwa [Nat.add_assoc, ← countFrom_cons ht] at this

/-- **Invariants that count events.** The same for a kind that the event alone decides. -/
theorem run_invariant_countP {C : σ → ε → Prop} (p : ε → Bool) {I : ℕ → σ → Prop}
    (hinit : I 0 S.init)
    (hstep : ∀ n s e t, I n s → C s e → S.step s e = some t →
      I (n + if p e then 1 else 0) t) {s : σ} {es : List ε}
    (hC : S.Along C es) (hrun : S.run es = some s) : I (es.countP p) s := by
  rw [← countFrom_event p hrun]
  exact run_invariant_count (fun _ => p) hinit hstep hC hrun

/-- **Invariants of the past.** `I past` relates a state to the events that led to it, the last one
first; if it holds initially and every step extends it by its event, it holds after every run. -/
theorem run_invariant_past {I : List ε → σ → Prop} (hinit : I [] S.init)
    (hstep : ∀ past s e t, I past s → S.step s e = some t → I (e :: past) t) {s : σ}
    {es : List ε} (hrun : S.run es = some s) : I es.reverse s := by
  suffices h : ∀ past s₀, I past s₀ → S.runFrom s₀ es = some s → I (es.reverse ++ past) s by
    simpa using h [] S.init hinit hrun
  clear hrun
  induction es with
  | nil =>
    intro past s₀ hs hrun
    obtain rfl : s₀ = s := by simpa using hrun
    exact hs
  | cons e es ih =>
    intro past s₀ hs hrun
    obtain ⟨t, ht, hrest⟩ := S.runFrom_cons_eq_some.mp hrun
    rw [List.reverse_cons, List.append_assoc]
    exact ih (e :: past) t (hstep past s₀ e t hs ht) hrest

/-- **Simulation.** If `f` maps the initial state of `S` to that of `T`, and each step of `S`
between states satisfying an invariant is matched by some run of `T`, then every run of `S` is
matched by a run of `T`.

**Proof sketch.** By induction on the run; the runs that match its steps are put together. -/
theorem run_simulates {T : System τ δ} {I : σ → Prop} {f : σ → τ} (hI : I S.init)
    (hinit : f S.init = T.init)
    (hstep : ∀ s e t, I s → S.step s e = some t →
      I t ∧ ∃ ds, T.runFrom (f s) ds = some (f t)) {s : σ} {es : List ε}
    (hrun : S.run es = some s) : ∃ ds, T.run ds = some (f s) := by
  suffices h : ∀ s₀, I s₀ → S.runFrom s₀ es = some s → ∃ ds, T.runFrom (f s₀) ds = some (f s) by
    obtain ⟨ds, hds⟩ := h S.init hI hrun
    exact ⟨ds, by rw [run, ← hinit, hds]⟩
  clear hrun
  induction es with
  | nil =>
    intro s₀ _ hrun
    obtain rfl : s₀ = s := by simpa using hrun
    exact ⟨[], rfl⟩
  | cons e es ih =>
    intro s₀ hs hrun
    obtain ⟨t, ht, hrest⟩ := S.runFrom_cons_eq_some.mp hrun
    obtain ⟨hIt, ds, hds⟩ := hstep s₀ e t hs ht
    obtain ⟨ds', hds'⟩ := ih t hIt hrest
    exact ⟨ds ++ ds', by rw [T.runFrom_append, hds, Option.bind_some, hds']⟩

/-- **Runs come to an end.** If every step makes a measure smaller, a run takes at most as many
steps as the measure goes down. -/
theorem runFrom_length_le {I : σ → Prop} {μ : σ → ℕ}
    (hstep : ∀ s e t, I s → S.step s e = some t → I t ∧ μ t < μ s) {s t : σ} {es : List ε}
    (hs : I s) (hrun : S.runFrom s es = some t) : es.length + μ t ≤ μ s := by
  induction es generalizing s with
  | nil =>
    obtain rfl : s = t := by simpa using hrun
    exact Nat.le_of_eq (Nat.zero_add _)
  | cons e es ih =>
    obtain ⟨u, hu, hrest⟩ := S.runFrom_cons_eq_some.mp hrun
    obtain ⟨hI, hlt⟩ := hstep s e u hs hu
    have := ih hI hrest
    rw [List.length_cons]
    omega

end Invariants

/-- Every schedule ends, and ends with the result `a`: the runs have a bounded length, a state that
has no result has a next step, and no state has another result. -/
structure Returns {α : Type w} (result : σ → Option α) (a : α) : Prop where
  bounded : ∃ n, ∀ es s, S.run es = some s → es.length ≤ n
  progress : ∀ es s, S.run es = some s → result s = none → ∃ e t, S.step s e = some t
  right : ∀ es s b, S.run es = some s → result s = some b → b = a

/-- What ends with a result, from an invariant and a measure. -/
theorem returns_of_measure {S : System σ ε} {α : Type w} {result : σ → Option α} {a : α}
    {I : σ → Prop} {μ : σ → ℕ} (hinit : I S.init)
    (hstep : ∀ s e t, I s → S.step s e = some t → I t ∧ μ t < μ s)
    (hprogress : ∀ s, I s → result s = none → ∃ e t, S.step s e = some t)
    (hright : ∀ s b, I s → result s = some b → b = a) : S.Returns result a := by
  have hI : ∀ es s, S.run es = some s → I s := fun es s hrun =>
    run_invariant hinit (fun s e t hs hst => (hstep s e t hs hst).1) hrun
  refine ⟨⟨μ S.init, fun es s hrun => ?_⟩, fun es s hrun => hprogress s (hI es s hrun),
    fun es s b hrun => hright s b (hI es s hrun)⟩
  exact Nat.le_trans (Nat.le_add_right _ _) (runFrom_length_le hstep hinit hrun)

end System

end Transition
