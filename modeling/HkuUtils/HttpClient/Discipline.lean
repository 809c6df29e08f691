import HkuUtils.HttpClient.Client

set_option relaxedAutoImplicit false
set_option autoImplicit false

/-!
# Disciplines for connections

A call has the connection that it is lent to itself, so what is true of a connection while it is
idle, and what is true of it in each phase of the call that has it, can be checked one step of one
call at a time. This file makes that a rule: a `Discipline` states these conditions and that the
steps of a call keep them, and a client then keeps them in all its runs.

A step that ends a call may leave the connection unfit for the next one. That does no harm when
the pool deletes it, because it is stale or the push into the queue fails; `EndsWell` is the
condition on a run that it happens in no other case.

## Main definitions

* `HkuUtils.HttpClient.Discipline` — conditions for idle and for lent connections that each step
  of a call keeps.
* `HkuUtils.HttpClient.Discipline.EndsWell` — what the steps that end a call have to meet.
* `HkuUtils.HttpClient.Discipline.Kept` — a client that keeps a discipline.

## Main results

* `HkuUtils.HttpClient.Discipline.step_kept`, `run_kept` — a discipline is kept by one step, and by
  every run whose steps end well.
-/

namespace HkuUtils.HttpClient

open Transition AsioPool

/-- Conditions for the connections of a client and for what its calls return. -/
structure Conditions where
  /-- The condition for an idle connection. -/
  Idle : HttpConnection → Prop
  /-- The condition for the connection of a call in a phase. -/
  Held : ℕ → Phase → HttpConnection → Prop
  /-- The condition for a response that a call returns. -/
  Returns : ℕ → ℕ → Prop
  /-- The condition for a step, if it ends the call. -/
  Fit : HttpConnection → Outcome → Prop

/-- What has to be true after a step of the call `c`: if it ends the call and was `fit`, the
connection can be idle. -/
def Conditions.After (K : Conditions) (c : ℕ) (fit : Prop) (conn : HttpConnection) : Phase → Prop
  | .returned tag => K.Returns c tag ∧ (fit → K.Idle conn)
  | .threw _ => fit → K.Idle conn
  | phase => K.Held c phase conn

/-- Conditions that are kept by each step of a call on its connection. -/
structure Discipline (target : Target) extends Conditions where
  /-- A new connection is fit for a call. -/
  held_new : ∀ c stream now, Held c (.connecting stream) (.new now)
  /-- So is an idle one. -/
  held_of_idle : ∀ c stream {conn}, Idle conn → Held c (.connecting stream) conn
  /-- A step of a call keeps the conditions. -/
  act_after : ∀ {c conn conn' phase phase' outcome}, Held c phase conn →
    act target c conn phase outcome = some (conn', phase') →
    toConditions.After c (Fit conn outcome) conn' phase'

namespace Discipline

variable {target : Target} (D : Discipline target)

/-- The step of a call on its connection is fit, if it ends the call, or the connection does not go
back into the queue. -/
def EndsWell (s : State) : Event → Prop
  | .act c outcome pushed => ∀ hd ∈ s.pool.handles.find? (·.closer = c),
      Kind.stale .versioned s.pool.version hd.res = true ∨ pushed = false ∨
        D.Fit (s.conns hd.res.ptr) outcome
  | _ => True

/-- What a step that does not end a call keeps. -/
lemma goesOn {c : ℕ} {conn conn' : HttpConnection} {phase phase' : Phase} {outcome : Outcome}
    (h : D.Held c phase conn) (hact : act target c conn phase outcome = some (conn', phase'))
    (hover : phase'.over = false) : D.Held c phase' conn' := by
  have := D.act_after h hact
  cases phase' with
  | returned | threw => simp [Phase.over] at hover
  | unmade | waiting | connecting | writing | reading | readingHeader | readingBody => exact this

/-- What a step that ends a call leaves. -/
lemma idle_of_ends {c : ℕ} {conn conn' : HttpConnection} {phase phase' : Phase}
    {outcome : Outcome} (h : D.Held c phase conn)
    (hact : act target c conn phase outcome = some (conn', phase')) (hover : phase'.over = true)
    (hfit : D.Fit conn outcome) : D.Idle conn' := by
  have := D.act_after h hact
  cases phase' with
  | returned => exact this.2 hfit
  | threw => exact this hfit
  | unmade | waiting | connecting | writing | reading | readingHeader | readingBody =>
    simp [Phase.over] at hover

/-- What a call returns. -/
lemma returns {c tag : ℕ} {conn conn' : HttpConnection} {phase : Phase} {outcome : Outcome}
    (h : D.Held c phase conn)
    (hact : act target c conn phase outcome = some (conn', .returned tag)) : D.Returns c tag :=
  (D.act_after h hact).1

/-- All connections and all responses are as the discipline demands. -/
structure Kept (s : State) : Prop where
  alive : s.pool.alive = true
  sound : Sound s.pool
  idle : ∀ p ∈ s.pool.resourceList, D.Idle (s.conns p.ptr)
  held : ∀ hd ∈ s.pool.handles, D.Held hd.closer (s.phase hd.closer) (s.conns hd.res.ptr)
  returned : ∀ c tag, s.phase c = .returned tag → D.Returns c tag

/-- Whether a step ends well can be computed if it can be computed whether it is fit. -/
instance [∀ conn outcome, Decidable (D.Fit conn outcome)] (s : State) (e : Event) :
    Decidable (D.EndsWell s e) :=
  match e with
  | .act _ _ _ => inferInstanceAs (Decidable (∀ _ ∈ _, _ ∨ _))
  | .call .. | .expire _ | .interrupt _ | .resume _ | .setTimeout _ => isTrue trivial

variable {D} {s t : State} {c : ℕ}

namespace Kept

/-- The account of the pool. -/
lemma account (h : D.Kept s) : Accounting s.pool := h.sound.account h.alive

/-- The pool is still there, and sound, after a step. -/
lemma step_pool (h : D.Kept s) {e : Event} (hstep : step target s e = some t) :
    t.pool.alive = true ∧ Sound t.pool := by
  obtain ⟨halive, ds, hrun⟩ := pool_step 0 h.alive hstep
  exact ⟨halive, System.runFrom_invariant_along (I := Sound) (C := fun _ _ => True)
    (fun _ _ _ hs _ hd => step_sound hs hd) h.sound (System.alongFrom_true _ _ _) hrun⟩

/-- The calls and connections that a step does not touch. -/
lemma held_put (h : D.Kept s) {ptr : ℕ} {conn : HttpConnection} {phase : Phase}
    {hd : Handle IntParams} (hmem : hd ∈ s.pool.handles) (hc : hd.closer ≠ c)
    (hptr : hd.res.ptr ≠ ptr) :
    D.Held hd.closer ((s.put c ptr conn phase).phase hd.closer)
      ((s.put c ptr conn phase).conns hd.res.ptr) := by
  simp only [State.put, Function.update_of_ne hc, Function.update_of_ne hptr]
  exact h.held hd hmem

/-- What was returned before, and what a step returns. -/
lemma returned_update (h : D.Kept s) {phase : Phase}
    (hphase : ∀ tag, phase = .returned tag → D.Returns c tag) (d tag : ℕ)
    (hd : Function.update s.phase c phase d = .returned tag) : D.Returns d tag := by
  by_cases hdc : d = c
  · subst hdc
    rw [Function.update_self] at hd
    exact hphase tag hd
  · rw [Function.update_of_ne hdc] at hd
    exact h.returned d tag hd

end Kept

/-- A segment of `get` returns no response. -/
lemma enter_ne_returned (stream : Bool) (r : GetResult IntParams) (tag : ℕ) :
    enter stream r ≠ .returned tag := by
  cases r <;> simp [enter]

/-- A call that has made a handle goes on with its connection. -/
lemma enter_of_mem {stream : Bool} {r : GetResult IntParams} {hd : Handle IntParams}
    (hmem : hd ∈ r.handles) : enter stream r = .connecting stream := by
  cases r with
  | lent => rfl
  | suspended => simp [GetResult.handles] at hmem
  | threw e => simp [GetResult.handles] at hmem

/-- A call is made.

**Proof sketch.** A connection that is lent is idle or new, so it may be held; the other handles
and the idle ones are those of before. -/
lemma call_kept (h : D.Kept s) (stream : Bool) (how : Construction) (now : ℕ)
    (hpool : (get .versioned s.pool how).1.alive = true ∧ Sound (get .versioned s.pool how).1) :
    D.Kept { s.put s.pool.gets s.pool.made (.new now)
        (enter stream (get .versioned s.pool how).2) with
      pool := (get .versioned s.pool how).1 } := by
  obtain ⟨hidle, hhandles, hlent⟩ := get_lends .versioned s.pool how
  refine ⟨hpool.1, hpool.2, fun p hp => ?_, fun hd hmem => ?_,
    h.returned_update fun tag htag => absurd htag (enter_ne_returned _ _ _)⟩
  · have hlt := h.account.ptr_lt_made_of_idle (hidle p hp)
    simp only [State.put, Function.update_of_ne hlt.ne]
    exact h.idle p (hidle p hp)
  · rcases List.mem_append.mp (hhandles ▸ hmem) with hnew | hold
    · obtain ⟨hcloser, hres⟩ := hlent hd hnew
      simp only [State.put, hcloser, Function.update_self, enter_of_mem hnew]
      rcases hres with hres | hres
      · rw [Function.update_of_ne (h.account.ptr_lt_made_of_idle hres).ne]
        exact D.held_of_idle _ _ (h.idle _ hres)
      · rw [hres, Function.update_self]
        exact D.held_new _ _ _
    · exact h.held_put hold (h.sound.calls.closer_lt hold).ne
        (h.account.ptr_lt_made_of_held hold).ne

/-- A call resumes. -/
lemma resume_kept (h : D.Kept s) (stream : Bool) {pool : AsioPool.State IntParams}
    {r : GetResult IntParams} (hr : Resumes .versioned s.pool c pool r)
    (hpool : pool.alive = true ∧ Sound pool) :
    D.Kept { s with pool := pool, phase := Function.update s.phase c (enter stream r) } := by
  obtain ⟨hidle, hhandles, hlent⟩ := resumes_lends hr
  refine ⟨hpool.1, hpool.2, fun p hp => h.idle p (hidle p hp), fun hd hmem => ?_,
    h.returned_update fun tag htag => absurd htag (enter_ne_returned _ _ _)⟩
  rcases List.mem_append.mp (hhandles ▸ hmem) with hnew | hold
  · obtain ⟨hcloser, hres⟩ := hlent hd hnew
    simp only [hcloser, Function.update_self, enter_of_mem hnew]
    exact D.held_of_idle _ _ (h.idle _ hres)
  · have hne : hd.closer ≠ c := by
      rintro rfl
      exact h.sound.calls.not_mem_closers hr.ended (List.mem_map_of_mem hold)
    simp only [Function.update_of_ne hne]
    exact h.held hd hold

/-- A call takes a step that does not end it.

**Proof sketch.** The connection of the call is the only one that changes, since every other handle
and every idle connection has another address. -/
lemma goesOn_kept (h : D.Kept s) {outcome : Outcome} {hd : Handle IntParams}
    {conn : HttpConnection} {phase : Phase}
    (hf : s.pool.handles.find? (·.closer = c) = some hd)
    (hact : act target c (s.conns hd.res.ptr) (s.phase c) outcome = some (conn, phase))
    (hover : phase.over = false) : D.Kept (s.put c hd.res.ptr conn phase) := by
  have hmem := List.mem_of_find?_eq_some hf
  obtain rfl : hd.closer = c := by simpa using List.find?_some hf
  refine ⟨h.alive, h.sound, fun p hp => ?_, fun hd' hmem' => ?_, h.returned_update ?_⟩
  · simp only [State.put, Function.update_of_ne (h.account.ptr_ne_of_idle hp hmem)]
    exact h.idle p hp
  · by_cases heq : hd' = hd
    · subst heq
      simp only [State.put, Function.update_self]
      exact D.goesOn (h.held hd' hmem) hact hover
    · apply h.held_put hmem'
      · intro hc
        exact heq (List.inj_on_of_nodup_map h.sound.calls.closers_nodup hmem' hmem hc)
      · intro hptr
        exact heq (h.account.eq_of_ptr_eq hmem' hmem hptr)
  · rintro tag rfl
    simp [Phase.over] at hover

/-- A call ends well.

**Proof sketch.** The connection that the call has used goes back to the queue, where it has to be
idle in the sense of the discipline; the last action of the call has left it so, or it was not
pushed. All other connections are those of other calls. -/
lemma ends_kept (h : D.Kept s) {outcome : Outcome} {pushed : Bool} {hd : Handle IntParams}
    {conn : HttpConnection} {phase : Phase} {pool : AsioPool.State IntParams}
    (hf : s.pool.handles.find? (·.closer = c) = some hd)
    (hact : act target c (s.conns hd.res.ptr) (s.phase c) outcome = some (conn, phase))
    (hover : phase.over = true) (hrel : release .versioned s.pool c pushed = some pool)
    (hends : D.EndsWell s (.act c outcome pushed)) (hpool : pool.alive = true ∧ Sound pool) :
    D.Kept { s.put c hd.res.ptr conn phase with pool := pool } := by
  have hmem := List.mem_of_find?_eq_some hf
  have hheld : D.Held c (s.phase c) (s.conns hd.res.ptr) := by
    obtain rfl : hd.closer = c := by simpa using List.find?_some hf
    exact h.held hd hmem
  rw [h.sound.release_eq _ h.alive hf] at hrel
  obtain ⟨hhandles, hlist⟩ := returnResource_places .versioned (s.pool.drop c) hd.res c pushed
  rw [Option.some.inj hrel] at hhandles hlist
  refine ⟨hpool.1, hpool.2, fun p hp => ?_, fun hd' hmem' => ?_,
    h.returned_update fun tag htag => D.returns hheld (htag ▸ hact)⟩
  · rcases hlist p hp with hold | ⟨rfl, hstale, hpushed⟩
    · simp only [State.put, Function.update_of_ne (h.account.ptr_ne_of_idle hold hmem)]
      exact h.idle p hold
    · simp only [State.put, Function.update_self]
      rcases hends hd hf with hstale' | hpushed' | hfit
      · exact absurd (hstale.symm.trans hstale') (by simp)
      · exact absurd (hpushed.symm.trans hpushed') (by simp)
      · exact D.idle_of_ends hheld hact hover hfit
  · obtain ⟨hold, hne⟩ := h.sound.calls.mem_drop (hhandles ▸ hmem')
    apply h.held_put hold hne
    intro hptr
    apply hne
    rw [h.account.eq_of_ptr_eq hold hmem hptr]
    simpa using List.find?_some hf

/-- **One step keeps a discipline**, if it ends well.

**Proof sketch.** One case for each step, by its own lemma; the timers of the pool leave the
connections where they are. -/
theorem step_kept (h : D.Kept s) {e : Event} (hends : D.EndsWell s e)
    (hstep : step target s e = some t) : D.Kept t := by
  have hpool := h.step_pool hstep
  cases steps_of_step hstep with
  | call stream how now => exact call_kept h stream how now hpool
  | expire hexp =>
    obtain ⟨_, hexp⟩ := Option.ite_none_right_eq_some.mp hexp
    obtain rfl := Option.some.inj hexp
    exact ⟨hpool.1, hpool.2, h.idle, h.held, h.returned⟩
  | interrupt hint =>
    obtain ⟨_, hint⟩ := Option.ite_none_right_eq_some.mp hint
    obtain rfl := Option.some.inj hint
    exact ⟨hpool.1, hpool.2, h.idle, h.held, h.returned⟩
  | resume hres => exact resume_kept h _ (resumes_of_resume hres) hpool
  | goesOn _ hf hact hover => exact goesOn_kept h hf hact hover
  | ends hf hact hover hrel => exact ends_kept h hf hact hover hrel hends hpool
  | setTimeoutKept => exact h
  | setTimeout =>
    obtain ⟨hhandles, hlist⟩ := replaceParam_places s.pool []
    refine ⟨hpool.1, hpool.2, fun p hp => ?_, fun hd hmem => ?_, h.returned⟩
    · simp [hlist] at hp
    · exact h.held hd (hhandles ▸ hmem)

/-- A new client has no connections. -/
lemma init_kept (timeout : ℤ) (maxConcurrency : ℕ) : D.Kept (State.init timeout maxConcurrency) :=
  ⟨rfl, init_sound _ _, by simp [State.init, AsioPool.State.init],
    by simp [State.init, AsioPool.State.init], by simp [State.init]⟩

/-- **A discipline is kept by every run** whose steps end well. -/
theorem run_kept {timeout : ℤ} {maxConcurrency : ℕ} {es : List Event}
    (hends : (system target timeout maxConcurrency).Along D.EndsWell es)
    (hrun : (system target timeout maxConcurrency).run es = some s) : D.Kept s :=
  System.run_invariant_along (C := D.EndsWell) (init_kept timeout maxConcurrency)
    (fun _ _ _ h hends hstep => step_kept h hends hstep) hends hrun

end Discipline

end HkuUtils.HttpClient
