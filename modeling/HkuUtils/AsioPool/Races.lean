import HkuUtils.AsioPool.Parallel

set_option relaxedAutoImplicit false
set_option autoImplicit false

/-!
# The races of the coroutine pools

Two pairs of actions of `get` belong together and are not one section: the comparison of `m_count`
with the limit and the increment, and the copy of the parameters and the load of the version. What
other threads do in between breaks the limit, or makes a resource pass for one with parameters
that it does not have.

## Main definitions

* `HkuUtils.AsioPool.Parallel.WithinLimit`, `ChecksAlone` — the limit, and the condition that
  no check passes on the room of a call that is under way.
* `HkuUtils.AsioPool.Parallel.TagsTruthful`, `CopiesInForce` — a current version means current
  parameters, and the condition that parameters do not change under a call that has copied them.

## Main results

* `HkuUtils.AsioPool.Parallel.within_limit`, `over_limit` — the limit holds along the condition,
  and not in every interleaving.
* `HkuUtils.AsioPool.Parallel.tags_truthful`, `tags_not_truthful` — versions are truthful along
  the condition, and not in every interleaving.
-/

namespace HkuUtils.AsioPool.Parallel

open Transition

variable {P N V : Type} {k : Kind}

/-! ## The limit -/

/-- `m_count` is a number of resources, and not over the limit. -/
def WithinLimit (m : Shared P) : Prop := 0 ≤ m.count ∧ (0 < m.maxCount → m.count ≤ m.maxCount)

/-- The calls that have passed the check and not incremented `m_count` yet. -/
def Stage.underWay : Stage P → ℤ
  | .allowed | .copied _ | .constructed .. | .tagged _ => 1
  | _ => 0

/-- If the action passes the check against the limit, there is room for this call besides all
that are under way. -/
def ChecksAlone (s : Threads.State (Shared P) (Stage P)) :
    Threads.Event Action (Change P N V) → Prop
  | .act i _ => s.threads[i]? = some .unserved → 0 < s.shared.maxCount →
      s.shared.count < s.shared.maxCount →
      s.shared.count + (s.threads.map Stage.underWay).sum < s.shared.maxCount
  | _ => True

instance [DecidableEq P] (s : Threads.State (Shared P) (Stage P)) :
    DecidablePred (ChecksAlone (N := N) (V := V) s)
  | .act i _ => inferInstanceAs
      (Decidable (s.threads[i]? = some .unserved → 0 < s.shared.maxCount → _ < _ → _ < _))
  | .spawn | .env _ => isTrue trivial

/-- A call that is not under way adds nothing. -/
lemma Stage.underWay_nonneg (l : Stage P) : 0 ≤ l.underWay := by
  cases l <;> simp [Stage.underWay]

/-- An action that does not pass the check takes no room. -/
lemma Acts.room {m m' : Shared P} {l l' : Stage P} {a : Action} (h : Acts k m l a m' l') :
    m'.maxCount = m.maxCount ∧
      (m'.count + l'.underWay ≤ m.count + l.underWay ∨
        l = .unserved ∧ (m.maxCount = 0 ∨ m.count < m.maxCount) ∧
          m'.count + l'.underWay = m.count + l.underWay + 1) := by
  cases h with
  | allow hlt => exact ⟨rfl, Or.inr ⟨rfl, hlt, by simp only [Stage.underWay]; omega⟩⟩
  | uncount again =>
    refine ⟨rfl, Or.inl ?_⟩
    cases again <;> simp only [Stage.underWay, Bool.false_eq_true, ↓reduceIte] <;> omega
  | _ => exact ⟨rfl, Or.inl (by simp only [Stage.underWay]; omega)⟩

/-- No change takes room. -/
lemma Changes.room [ParameterOps P N V] [BEq V] {m m' : Shared P} {e : Change P N V}
    (h : Changes k m e m') : m'.maxCount = m.maxCount ∧ m'.count ≤ m.count := by
  cases h with
  | releaseIdle | setParam | setParameter =>
    refine ⟨rfl, ?_⟩
    simp only [Shared.replaceParam, Shared.releaseIdleResource]
    omega
  | setParamKept | incVersion => exact ⟨rfl, le_rfl⟩

/-- **The limit is kept** in the interleavings in which each check that passes finds room besides
the calls that are under way.

**Proof sketch.** While there is a limit, `m_count` and the calls under way together stay within
it: the passing check adds one of the latter, and the increment turns one of them into one of the
former. -/
theorem within_limit [ParameterOps P N V] [BEq V] (k : Kind) (param : P) (maxCount : ℕ)
    {es : List (Threads.Event Action (Change P N V))} {s : Threads.State (Shared P) (Stage P)}
    (hC : (system k param maxCount).Along ChecksAlone es)
    (hrun : (system k param maxCount).run es = some s) : WithinLimit s.shared := by
  have hroom : 0 < s.shared.maxCount →
      s.shared.count + (s.threads.map Stage.underWay).sum ≤ s.shared.maxCount := by
    refine System.run_invariant_along
      (I := fun s : Threads.State (Shared P) (Stage P) => 0 < s.shared.maxCount →
        s.shared.count + (s.threads.map Stage.underWay).sum ≤ s.shared.maxCount)
      (fun _ => ?_) ?_ hC hrun
    · exact Int.natCast_nonneg maxCount
    intro s e t h hC hstep hpos
    cases Threads.Program.steps_of_step hstep with
    | spawn =>
      rw [Threads.sum_map_concat]
      simpa [program, Stage.underWay] using h hpos
    | act hl ha =>
      obtain ⟨hmax, hacts⟩ := (acts_of_act ha).room
      rw [Threads.sum_map_set _ hl]
      simp only at hpos ⊢
      rw [hmax] at hpos ⊢
      have hle := h hpos
      rcases hacts with hle' | ⟨rfl, hlt, hone⟩
      · omega
      · have := hC hl hpos (by omega)
        omega
    | env he =>
      obtain ⟨hmax, hle'⟩ := (changes_of_change he).room
      simp only at hpos ⊢
      rw [hmax] at hpos ⊢
      have := h hpos
      omega
  have hcounted := Threads.sum_map_nonneg Stage.counted_nonneg s.threads
  have hunderWay := Threads.sum_map_nonneg Stage.underWay_nonneg s.threads
  have hcount := count_eq hrun
  refine ⟨by omega, fun hpos => ?_⟩
  have := hroom hpos
  omega

/-- Two calls that make a resource one after the other, and a third that waits. -/
theorem within_limit_of_turns : ∃ s,
    (system .versioned ([] : IntParams) 2).run
      [.spawn, .act 0 .next, .act 0 .next, .act 0 .next, .act 0 (.construct .ok), .act 0 .next,
        .act 0 .next, .spawn, .act 1 .next, .act 1 .next, .act 1 .next, .act 1 (.construct .ok),
        .act 1 .next, .act 1 .next, .spawn, .act 2 .next, .act 2 .next] = some s ∧
    WithinLimit s.shared := by
  have hC : (system .versioned ([] : IntParams) 2).Along ChecksAlone
      [.spawn, .act 0 .next, .act 0 .next, .act 0 .next, .act 0 (.construct .ok), .act 0 .next,
        .act 0 .next, .spawn, .act 1 .next, .act 1 .next, .act 1 .next, .act 1 (.construct .ok),
        .act 1 .next, .act 1 .next, .spawn, .act 2 .next, .act 2 .next] := by decide
  exact ⟨_, rfl, within_limit .versioned [] 2 hC rfl⟩

/-- Two calls pass the check before either of them increments `m_count`. -/
theorem over_limit : ∃ s,
    (system .versioned ([] : IntParams) 1).run
      [.spawn, .spawn, .act 0 .next, .act 0 .next, .act 1 .next, .act 1 .next,
        .act 0 .next, .act 0 (.construct .ok), .act 0 .next, .act 0 .next,
        .act 1 .next, .act 1 (.construct .ok), .act 1 .next, .act 1 .next] = some s ∧
    s.shared.count = 2 ∧ s.shared.maxCount = 1 ∧ ¬ WithinLimit s.shared :=
  ⟨_, rfl, rfl, rfl, by unfold WithinLimit; decide⟩

/-! ## The versions -/

/-- The resource that a call holds, if its version is set. -/
def Stage.resource : Stage P → Option (Resource P)
  | .popped _ p | .tagged p | .holding p | .returning p => some p
  | _ => none

/-- The parameters that a call has copied, while it has no version to go with them. -/
def Stage.copy : Stage P → Option P
  | .copied param | .constructed _ param => some param
  | _ => none

/-- Each resource with the current version, idle or not, has the current parameters. -/
def TagsTruthful (s : Threads.State (Shared P) (Stage P)) : Prop :=
  (∀ p ∈ s.shared.resourceList,
      p.version = s.shared.version → p.param = s.shared.param) ∧
    ∀ l ∈ s.threads, ∀ p ∈ l.resource, p.version = s.shared.version → p.param = s.shared.param

/-- The parameters that a change sets, if it sets any. -/
def Change.newParam [ParameterOps P N V] [BEq V] (m : Shared P) : Change P N V → Option P
  | .setParam name value =>
    match changeParam m.param name value with
    | .ok param => param
    | .error _ => none
  | .setParameter param => some param
  | .releaseIdle | .incVersion => none

/-- If the step changes the parameters, then to those that every call has copied that has no
version to go with them yet. -/
def CopiesInForce [ParameterOps P N V] [BEq V] (s : Threads.State (Shared P) (Stage P)) :
    Threads.Event Action (Change P N V) → Prop
  | .env e => ∀ param ∈ e.newParam s.shared, ∀ l ∈ s.threads, ∀ q ∈ l.copy, q = param
  | _ => True

instance [ParameterOps P N V] [BEq V] [DecidableEq P] (s : Threads.State (Shared P) (Stage P)) :
    DecidablePred (CopiesInForce (N := N) (V := V) s)
  | .env e => inferInstanceAs
      (Decidable (∀ param ∈ e.newParam s.shared, ∀ l ∈ s.threads, ∀ q ∈ l.copy, q = param))
  | .spawn | .act .. => isTrue trivial

/-- The step increments the version: `incVersion`, and a change that sets parameters. A call of
`setParam` with the value that is there, or with one that the parameter refuses, does not. -/
def increments [ParameterOps P N V] [BEq V] (s : Threads.State (Shared P) (Stage P)) :
    Threads.Event Action (Change P N V) → Bool
  | .env .incVersion => true
  | .env e => (e.newParam s.shared).isSome
  | _ => false

/-- The version of `p` was reached after at most `v` increments, and if after `v` of them then `p`
has the parameters of the pool. -/
def Dated (v : ℕ) (m : Shared P) (p : Resource P) : Prop :=
  ∃ j ≤ v, p.version = BitVec.ofNat 32 j ∧ (j = v → p.param = m.param)

/-- What a call holds is dated, and what it has copied is in force. -/
def Stage.Dated (v : ℕ) (m : Shared P) (l : Stage P) : Prop :=
  (∀ p ∈ l.resource, Parallel.Dated v m p) ∧ ∀ q ∈ l.copy, q = m.param

/-- The memory after `v` increments of the version. -/
structure Shared.Dated (v : ℕ) (m : Shared P) : Prop where
  version_eq : m.version = BitVec.ofNat 32 v
  idle : ∀ p ∈ m.resourceList, Parallel.Dated v m p

/-- A resource keeps its date while the parameters stay. -/
lemma Dated.congr {v : ℕ} {m m' : Shared P} {p : Resource P} (h : Dated v m p)
    (hparam : m'.param = m.param) : Dated v m' p := by
  obtain ⟨j, hj, hversion, hp⟩ := h
  exact ⟨j, hj, hversion, fun heq => (hp heq).trans hparam.symm⟩

/-- After one more increment the parameters of a resource that is there do not matter. -/
lemma Dated.succ {v : ℕ} {m m' : Shared P} {p : Resource P} (h : Dated v m p) :
    Dated (v + 1) m' p := by
  obtain ⟨j, hj, hversion, _⟩ := h
  exact ⟨j, by omega, hversion, fun heq => by omega⟩

/-- **An action keeps everything dated.**

**Proof sketch.** One case for each action. What is popped was dated in the queue, what is copied
is in force, and a call that sets a version has copied the parameters of this version. -/
lemma Acts.dated {v : ℕ} {m m' : Shared P} {l l' : Stage P} {a : Action}
    (h : Acts k m l a m' l') (hm : m.Dated v) (hl : l.Dated v m) :
    m'.Dated v ∧ l'.Dated v m' ∧ m'.param = m.param := by
  obtain ⟨hversion, hidle⟩ := hm
  obtain ⟨hresource, hcopy⟩ := hl
  cases h with
  | pop hs | wokenPop hs =>
    rw [hs] at hidle
    obtain ⟨hp, hrest⟩ := List.forall_mem_cons.mp hidle
    refine ⟨⟨hversion, hrest⟩, ⟨fun q hq => ?_, fun q hq => by simp [Stage.copy] at hq⟩, rfl⟩
    obtain rfl : _ = q := by simpa [Stage.resource] using hq
    exact hp
  | copy =>
    refine ⟨⟨hversion, hidle⟩, ⟨fun q hq => by simp [Stage.resource] at hq, fun q hq => ?_⟩, rfl⟩
    simpa [Stage.copy] using hq.symm
  | tag ptr param =>
    refine ⟨⟨hversion, hidle⟩, ⟨fun q hq => ?_, fun q hq => by simp [Stage.copy] at hq⟩, rfl⟩
    obtain rfl : _ = q := by simpa [Stage.resource] using hq
    exact ⟨v, le_rfl, hversion, fun _ => hcopy param (by simp [Stage.copy])⟩
  | push p =>
    refine ⟨⟨hversion, fun q hq => ?_⟩, ⟨by simp [Stage.resource], by simp [Stage.copy]⟩, rfl⟩
    rcases List.mem_append.mp hq with hq | hq
    · exact hidle q hq
    · rw [List.mem_singleton.mp hq]
      exact hresource p (by simp [Stage.resource])
  | uncount again =>
    refine ⟨⟨hversion, hidle⟩, ?_, rfl⟩
    cases again <;> exact ⟨by simp [Stage.resource], by simp [Stage.copy]⟩
  | current | count | releaseCurrent => exact ⟨⟨hversion, hidle⟩, ⟨hresource, hcopy⟩, rfl⟩
  | construct => exact ⟨⟨hversion, hidle⟩, ⟨hresource, hcopy⟩, rfl⟩
  | _ => exact ⟨⟨hversion, hidle⟩, ⟨by simp [Stage.resource], by simp [Stage.copy]⟩, rfl⟩

/-- The memory and the calls after `v` increments of the version. -/
structure DatedAt (v : ℕ) (s : Threads.State (Shared P) (Stage P)) : Prop where
  memory : s.shared.Dated v
  calls : ∀ l ∈ s.threads, l.Dated v s.shared

/-- New parameters, if they are those that every call under way has copied. -/
lemma DatedAt.replaceParam {v : ℕ} {s : Threads.State (Shared P) (Stage P)} (h : DatedAt v s)
    {param : P} (hcopies : ∀ l ∈ s.threads, ∀ q ∈ l.copy, q = param) :
    DatedAt (v + 1) { s with shared := s.shared.replaceParam param } := by
  refine ⟨⟨?_, by simp [Shared.replaceParam, Shared.releaseIdleResource]⟩, fun l hl => ⟨?_, ?_⟩⟩
  · simp only [Shared.replaceParam, Shared.releaseIdleResource, h.memory.version_eq]
    rw [BitVec.ofNat_add]
    rfl
  · exact fun p hp => ((h.calls l hl).1 p hp).succ
  · exact hcopies l hl

/-- **One event** of an interleaving keeps everything dated.

**Proof sketch.** A thread by `Acts.dated`, and what it does leaves the parameters. A change of the
parameters empties the queue, keeps the dates of what calls hold below the new one, and finds the
copies of all calls in force by the condition. -/
lemma step_dated [ParameterOps P N V] [BEq V] {v : ℕ} {s t : Threads.State (Shared P) (Stage P)}
    {e : Threads.Event Action (Change P N V)} (h : DatedAt v s) (hC : CopiesInForce s e)
    (hstep : (program k).step s e = some t) :
    DatedAt v t ∨ increments s e = true ∧ DatedAt (v + 1) t := by
  cases Threads.Program.steps_of_step hstep with
  | spawn =>
    refine Or.inl ⟨h.memory, fun l hl => ?_⟩
    rcases List.mem_append.mp hl with hl | hl
    · exact h.calls l hl
    · rw [List.mem_singleton.mp hl]
      exact ⟨by simp [program, Stage.resource], by simp [program, Stage.copy]⟩
  | @act i a l l' m hl ha =>
    obtain ⟨hm, hl', hparam⟩ :=
      (acts_of_act ha).dated h.memory (h.calls l (List.mem_of_getElem? hl))
    refine Or.inl ⟨hm, fun q hq => ?_⟩
    rcases List.mem_or_eq_of_mem_set hq with hq | rfl
    · refine ⟨fun p hp => ((h.calls q hq).1 p hp).congr hparam, fun c hc => ?_⟩
      exact ((h.calls q hq).2 c hc).trans hparam.symm
    · exact hl'
  | env he =>
    cases changes_of_change he with
    | releaseIdle hs =>
      obtain ⟨hversion, hidle⟩ := h.memory
      rw [hs] at hidle
      exact Or.inl ⟨⟨hversion, (List.forall_mem_cons.mp hidle).2⟩, h.calls⟩
    | setParamKept => exact Or.inl h
    | setParam hp =>
      exact Or.inr ⟨by simp [increments, Change.newParam, hp],
        h.replaceParam (hC _ (by simp [Change.newParam, hp]))⟩
    | setParameter param => exact Or.inr ⟨rfl, h.replaceParam (hC param rfl)⟩
    | incVersion =>
      refine Or.inr ⟨rfl, ⟨?_, fun p hp => (h.memory.idle p hp).succ⟩, fun l hl => ?_⟩
      · simp only [h.memory.version_eq]
        rw [BitVec.ofNat_add]
        rfl
      · exact ⟨fun p hp => ((h.calls l hl).1 p hp).succ, (h.calls l hl).2⟩

/-- Before the version wraps around, dates tell versions apart. -/
lemma DatedAt.truthful {v : ℕ} {s : Threads.State (Shared P) (Stage P)} (h : DatedAt v s)
    (hv : v < 2 ^ 32) : TagsTruthful s := by
  have hone : ∀ p, Dated v s.shared p → p.version = s.shared.version →
      p.param = s.shared.param := by
    rintro p ⟨j, hj, hversion, hp⟩ heq
    rw [hversion, h.memory.version_eq] at heq
    have heq := congrArg BitVec.toNat heq
    rw [BitVec.toNat_ofNat, BitVec.toNat_ofNat, Nat.mod_eq_of_lt (by omega),
      Nat.mod_eq_of_lt hv] at heq
    exact hp heq
  exact ⟨fun p hp => hone p (h.memory.idle p hp), fun l hl p hp => hone p ((h.calls l hl).1 p hp)⟩

/-- **Versions are truthful** in the interleavings in which the parameters change only to what
every call under way has copied, for the first `2 ^ 32 - 1` increments of the version.

**Proof sketch.** After `v` increments of the version each resource carries the number of an
increment up to `v`, and one that carries `v` has the parameters in force. A call that sets the
version of its resource has copied the parameters in force. Below `2 ^ 32` the numbers are as
distinct as the versions. -/
theorem tags_truthful [ParameterOps P N V] [BEq V] (param : P) (maxCount : ℕ)
    {es : List (Threads.Event Action (Change P N V))} {s : Threads.State (Shared P) (Stage P)}
    (hC : (system .versioned param maxCount).Along CopiesInForce es)
    (hfew : (system .versioned param maxCount).count increments es < 2 ^ 32)
    (hrun : (system .versioned param maxCount).run es = some s) : TagsTruthful s := by
  obtain ⟨v, hv, h⟩ : ∃ v ≤ (system .versioned param maxCount).count increments es,
      DatedAt v s := by
    refine System.run_invariant_count increments (I := fun n s => ∃ v ≤ n, DatedAt v s)
      ⟨0, le_rfl, ⟨rfl, by simp [system, Threads.Program.system, Shared.init]⟩,
        by simp [system, Threads.Program.system]⟩ ?_ hC hrun
    rintro n s e t ⟨v, hv, h⟩ hC hstep
    rcases step_dated h hC hstep with ht | ⟨he, ht⟩
    · exact ⟨v, by omega, ht⟩
    · exact ⟨v + 1, by rw [if_pos he]; omega, ht⟩
  exact h.truthful (by omega)

/-- A change of the parameters while a resource of the old ones is lent. -/
theorem tags_truthful_of_idle_change : ∃ s,
    (system .versioned ([] : IntParams) 1).run
      [.spawn, .act 0 .next, .act 0 .next, .act 0 .next, .act 0 (.construct .ok), .act 0 .next,
        .act 0 .next, .env (.setParam "port" 1), .act 0 .next, .act 0 .next] = some s ∧
    TagsTruthful s := by
  have hrun : (system .versioned ([] : IntParams) 1).run
      [.spawn, .act 0 .next, .act 0 .next, .act 0 .next, .act 0 (.construct .ok), .act 0 .next,
        .act 0 .next, .env (.setParam "port" 1), .act 0 .next, .act 0 .next] = some _ := rfl
  exact ⟨_, hrun, tags_truthful [] 1 (by decide) (by decide) hrun⟩

/-- The parameters change between the copy and the load of the version: a resource of the old
parameters goes back to the queue and is lent again as a current one. -/
theorem tags_not_truthful : ∃ s,
    (system .versioned ([] : IntParams) 1).run
      [.spawn, .act 0 .next, .act 0 .next, .act 0 .next, .env (.setParameter [("port", 1)]),
        .act 0 (.construct .ok), .act 0 .next, .act 0 .next, .act 0 .next, .act 0 (.push true),
        .spawn, .act 1 .next, .act 1 .next] = some s ∧
    s.threads[1]? = some (.holding ⟨0, s.shared.version, []⟩) ∧ s.shared.param = [("port", 1)] ∧
    ¬ TagsTruthful s := by
  refine ⟨_, rfl, rfl, rfl, fun h => ?_⟩
  have := h.2 (.holding ⟨0, 1, []⟩) (by decide) ⟨0, 1, []⟩ rfl rfl
  exact absurd this (by decide)

end HkuUtils.AsioPool.Parallel
