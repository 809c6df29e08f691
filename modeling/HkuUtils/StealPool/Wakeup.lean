import HkuUtils.StealPool.Model

set_option relaxedAutoImplicit false
set_option autoImplicit false

/-!
# Waking the workers of a work-stealing pool

A worker that finds no task evaluates the predicate of its wait while it has locked `m_cv_mutex`,
and then blocks. The master queue and `m_done` are changed without that mutex, and so the change and
its notification can both fall between the two steps of the worker, which then blocks for good.

## Main definitions

* `HkuUtils.StealPool.Owed` — a notification is still to be issued.
* `HkuUtils.StealPool.Stranded` — a worker is blocked although its predicate holds.
* `HkuUtils.StealPool.Heard` — the condition on the notifications of a run.

## Main results

* `HkuUtils.StealPool.step_calm` — one step that meets the condition.
* `HkuUtils.StealPool.wakeup_not_lost`, `wakeup_lost` — the runs that meet the condition, and a
  notification that no worker hears.
-/

namespace HkuUtils.StealPool

open Threads Transition

variable {p : Pool} {m : Memory}

/-! ## Notifications -/

/-- The predicate of a worker's wait holds because of the master queue or of `m_done`. -/
def Called (m : Memory) : Prop := m.done = true ∨ m.master ≠ []

/-- The task of the worker is about to notify. -/
def Worker.notifies : Worker → Bool
  | .running _ (some (.notify _)) => true
  | _ => false

/-- The call has changed the master queue or `m_done`, or may do so, and will notify. -/
def Stage.owes : Stage → Bool
  | .submit (.notify _) | .fill _ _ | .notifyAll _ => true
  | _ => false

/-- A notification is still to be issued. -/
def Owed (p : Pool) (s : State Memory Stage) : Prop :=
  (∃ l ∈ s.threads, l.owes = true) ∨ ∃ i < p.workerNum, (s.shared.worker i).notifies = true

/-- A worker is blocked although its predicate holds, and no notification will wake it. -/
def Stranded (p : Pool) (s : State Memory Stage) (i : ℕ) : Prop :=
  i < p.workerNum ∧ s.shared.worker i = .asleep ∧ Called s.shared ∧ ¬ Owed p s

/-- No worker is between its predicate and its wait. -/
def NoneBetween (p : Pool) (m : Memory) : Prop := ∀ i < p.workerNum, m.worker i ≠ .block

/-- At most one worker is blocked. -/
def OneAsleep (p : Pool) (m : Memory) : Prop :=
  ∀ i < p.workerNum, ∀ j < p.workerNum, m.worker i = .asleep → m.worker j = .asleep → i = j

/-- What must not be when a call issues the last notification. -/
def Reaches (p : Pool) (m : Memory) : Stage → Prop
  | .submit (.notify _) => NoneBetween p m ∧ OneAsleep p m
  | .notifyAll _ => NoneBetween p m
  | _ => True

/-- The condition on a step. When the last notification is issued while the master queue is not
empty or `m_done` is set, no worker is between its predicate and its wait, and if it is
`notify_one`, at most one worker is blocked. -/
def Heard (p : Pool) (s : State Memory Stage) : Event Action Tick → Prop
  | .act i (.go _) =>
    Called s.shared → (∀ l ∈ s.threads.eraseIdx i, l.owes = false) →
      (∀ k < p.workerNum, (s.shared.worker k).notifies = false) →
      ∀ l ∈ s.threads[i]?, Reaches p s.shared l
  | .env (.work i _) =>
    Called s.shared → (∀ l ∈ s.threads, l.owes = false) → (s.shared.worker i).notifies = true →
      (∀ k < p.workerNum, k ≠ i → (s.shared.worker k).notifies = false) →
      NoneBetween p s.shared ∧ OneAsleep p s.shared
  | _ => True

instance (m : Memory) : Decidable (Called m) := inferInstanceAs (Decidable (_ ∨ _))

instance (p : Pool) (m : Memory) : Decidable (NoneBetween p m) :=
  inferInstanceAs (Decidable (∀ i < p.workerNum, m.worker i ≠ .block))

instance (p : Pool) (m : Memory) : Decidable (OneAsleep p m) :=
  inferInstanceAs (Decidable (∀ i < p.workerNum, ∀ j < p.workerNum,
    m.worker i = .asleep → m.worker j = .asleep → i = j))

instance (p : Pool) (m : Memory) (l : Stage) : Decidable (Reaches p m l) := by
  unfold Reaches
  split <;> infer_instance

instance (p : Pool) (s : State Memory Stage) : ∀ e, Decidable (Heard p s e)
  | .act _ (.go _) => inferInstanceAs (Decidable (_ → _ → _ → ∀ _ ∈ _, _))
  | .env (.work _ _) => inferInstanceAs (Decidable (_ → _ → _ → _ → _ ∧ _))
  | .spawn | .act _ .submit | .act _ .stop | .act _ .join | .env (.submit _)
  | .env (.spurious _) => inferInstanceAs (Decidable True)

instance (p : Pool) (s : State Memory Stage) : Decidable (Owed p s) :=
  inferInstanceAs (Decidable ((∃ l ∈ s.threads, l.owes = true) ∨
    ∃ i < p.workerNum, (s.shared.worker i).notifies = true))

instance (p : Pool) (s : State Memory Stage) (i : ℕ) : Decidable (Stranded p s i) :=
  inferInstanceAs (Decidable (_ ∧ _ ∧ _ ∧ _))

/-! ## What a run preserves -/

/-- If the predicate holds and no notification is owed, no worker blocks or is about to. -/
def Calm (p : Pool) (s : State Memory Stage) : Prop :=
  Called s.shared → ¬ Owed p s →
    ∀ i < p.workerNum, s.shared.worker i ≠ .block ∧ s.shared.worker i ≠ .asleep

/-- After `notify_one` no worker blocks, if at most one did. -/
lemma calm_notifyOne {m' : Memory} {w : Option ℕ} (hone : OneAsleep p m) (hnone : NoneBetween p m)
    (h : notifyOne p m w = some m') :
    ∀ i < p.workerNum, m'.worker i ≠ .block ∧ m'.worker i ≠ .asleep := by
  intro i hi
  rcases notifyOne_cases h with ⟨j, hj, hasleep, rfl⟩ | ⟨hnot, rfl⟩
  · by_cases hij : i = j
    · subst hij
      simp [Memory.setWorker]
    · have hworker : (m.setWorker j .woken).worker i = m.worker i := Function.update_of_ne hij ..
      rw [hworker]
      exact ⟨hnone i hi, fun h => hij (hone i hi j hj h hasleep)⟩
  · exact ⟨hnone i hi, hnot i hi⟩

/-- A thread that owes no notification leaves what the others owe. -/
lemma owed_set {s : State Memory Stage} {i : ℕ} {l l' : Stage} {m' : Memory}
    (hl : s.threads[i]? = some l) (howes : l.owes = false)
    (hworker : ∀ k < p.workerNum, (s.shared.worker k).notifies = true →
      (m'.worker k).notifies = true)
    (h : Owed p s) : Owed p ⟨m', s.threads.set i l'⟩ := by
  rcases h with ⟨k, hk, hkowes⟩ | ⟨k, hk, hknotifies⟩
  · refine .inl ⟨k, mem_set_of_ne hl hk ?_ l', hkowes⟩
    rintro rfl
    exact Bool.false_ne_true (howes.symm.trans hkowes)
  · exact .inr ⟨k, hk, hworker k hk hknotifies⟩

/-- What the others owe, when a thread has issued its notification. -/
lemma not_owed_set {s : State Memory Stage} {i : ℕ} {l' : Stage} {m' : Memory}
    (hworker : ∀ k < p.workerNum, (s.shared.worker k).notifies = true →
      (m'.worker k).notifies = true)
    (h : ¬ Owed p ⟨m', s.threads.set i l'⟩) :
    (∀ l ∈ s.threads.eraseIdx i, l.owes = false) ∧
      ∀ k < p.workerNum, (s.shared.worker k).notifies = false := by
  constructor
  · intro k hk
    by_contra howes
    obtain ⟨j, hji, hj⟩ := List.mem_eraseIdx_iff_getElem?.1 hk
    refine h (.inl ⟨k, List.mem_iff_getElem?.2 ⟨j, ?_⟩, Bool.eq_true_of_not_eq_false howes⟩)
    rw [List.getElem?_set_ne (Ne.symm hji), hj]
  · intro k hk
    by_contra hnotifies
    exact h (.inr ⟨k, hk, hworker k hk (Bool.eq_true_of_not_eq_false hnotifies)⟩)

/-- `notify_one` wakes no worker that notifies. -/
lemma notifies_notifyOne {m' : Memory} {w : Option ℕ} (h : notifyOne p m w = some m') (k : ℕ)
    (hk : (m.worker k).notifies = true) : (m'.worker k).notifies = true := by
  rcases notifyOne_cases h with ⟨j, -, hj, rfl⟩ | ⟨-, rfl⟩
  · have hkj : k ≠ j := by
      rintro rfl
      rw [hj] at hk
      cases hk
    show (Function.update m.worker j .woken k).notifies = true
    rw [Function.update_of_ne hkj]
    exact hk
  · exact hk

/-- `notify_one` changes neither the master queue nor `m_done`. -/
lemma called_notifyOne {m' : Memory} {w : Option ℕ} (h : notifyOne p m w = some m')
    (hcalled : Called m') : Called m := by
  rcases notifyOne_cases h with ⟨j, -, -, rfl⟩ | ⟨-, rfl⟩
  · exact hcalled
  · exact hcalled

/-- What a call has changed, when it neither owes a notification nor issues one. -/
structure Same (m m' : Memory) : Prop where
  called : Called m' → Called m
  worker : m'.worker = m.worker

/-- A call that does not owe a notification, before and after a step that changes nothing. -/
lemma Calm.same {s : State Memory Stage} (h : Calm p s) {i : ℕ} {l l' : Stage} {m' : Memory}
    (hl : s.threads[i]? = some l) (howes : l.owes = false) (hsame : Same s.shared m') :
    Calm p ⟨m', s.threads.set i l'⟩ := by
  intro hcalled hnot k hk
  show m'.worker k ≠ _ ∧ m'.worker k ≠ _
  rw [hsame.worker]
  refine h (hsame.called hcalled) (fun howed => hnot (owed_set hl howes ?_ howed)) k hk
  intro j _ hj
  rw [hsame.worker]
  exact hj

/-- A call that owes a notification afterwards. -/
lemma calm_of_owes {s : State Memory Stage} {i : ℕ} {l l' : Stage} {m' : Memory}
    (hl : s.threads[i]? = some l) (howes : l'.owes = true) :
    Calm p ⟨m', s.threads.set i l'⟩ :=
  fun _ hnot => absurd (.inl ⟨l', mem_set_self hl l', howes⟩) hnot

/-- One step of a call that meets the condition.

**Proof sketch.** One case for each step of a call. The steps before a notification leave a call
that owes one, and the notification itself reaches every sleeper, by the condition. -/
theorem act_calm {s : State Memory Stage} {i : ℕ} {l l' : Stage} {a : Action} {m' : Memory}
    (h : Calm p s) (hknows : Knows p s.shared l) (hC : Heard p s (.act i a))
    (hl : s.threads[i]? = some l) (ha : act p s.shared l a = some (m', l')) :
    Calm p ⟨m', s.threads.set i l'⟩ := by
  have hrefl : Same s.shared s.shared := ⟨id, rfl⟩
  cases acts_of_act ha with
  | callSubmit | callStop | callJoin | stopAgain | stopTest | joinAgain | join | poll
  | pollQueue | skip | awaited | finished => exact h.same hl rfl hrefl
  | stop | stopMark | hurry | joinMark | fill | filled => exact calm_of_owes hl rfl
  | await how hw w => exact h.same hl rfl ⟨id, rfl⟩
  | finish how x todo w =>
    intro _ _ k hk
    show (x.run s.shared).worker k ≠ _ ∧ (x.run s.shared).worker k ≠ _
    rw [worker_finish, hknows k hk]
    exact ⟨nofun, nofun⟩
  | submit hs =>
    cases hs with
    | flag | throws | goOn | route => exact h.same hl rfl hrefl
    | pushFront hwho => cases hwho
    | push => exact calm_of_owes hl rfl
    | notify t hm =>
      intro hcalled hnot
      obtain ⟨hcalls, hworkers⟩ :=
        not_owed_set (fun k _ => notifies_notifyOne hm k) hnot
      have hheard : NoneBetween p s.shared ∧ OneAsleep p s.shared :=
        hC (called_notifyOne hm hcalled) hcalls hworkers _ hl
      exact fun k hk => calm_notifyOne hheard.2 hheard.1 hm k hk
  | notifyAll how w =>
    intro hcalled hnot k hk
    obtain ⟨hcalls, hworkers⟩ := not_owed_set (fun k _ hk' => by
      show (if _ then _ else _ : Worker).notifies = true
      rw [if_neg (fun hasleep => by rw [hasleep.2] at hk'; cases hk')]
      exact hk') hnot
    have hheard : NoneBetween p s.shared := hC hcalled hcalls hworkers _ hl
    show (if _ then _ else _ : Worker) ≠ _ ∧ (if _ then _ else _ : Worker) ≠ _
    split
    · exact ⟨nofun, nofun⟩
    · rename_i hasleep
      exact ⟨hheard k hk, fun heq => hasleep ⟨hk, heq⟩⟩

/-- A worker that neither notifies nor blocks goes on.

**Proof sketch.** The other workers have not moved and this one is awake; it owed no notification
before, so whoever owes one now did so before. -/
lemma Calm.setWorker {s : State Memory Stage} (h : Calm p s) {i : ℕ} {m' : Memory} {v : Worker}
    (hsame : Same s.shared m') (hold : (s.shared.worker i).notifies = false)
    (hv : v ≠ .block ∧ v ≠ .asleep) : Calm p { s with shared := m'.setWorker i v } := by
  intro hcalled hnot k hk
  have hother : ∀ j, j ≠ i → (m'.setWorker i v).worker j = s.shared.worker j := by
    intro j hj
    rw [← hsame.worker]
    exact Function.update_of_ne hj ..
  by_cases hki : k = i
  · subst hki
    have hself : (m'.setWorker k v).worker k = v := Function.update_self ..
    show (m'.setWorker k v).worker k ≠ _ ∧ (m'.setWorker k v).worker k ≠ _
    rw [hself]
    exact hv
  · show (m'.setWorker i v).worker k ≠ _ ∧ (m'.setWorker i v).worker k ≠ _
    rw [hother k hki]
    refine h (hsame.called hcalled) (fun howed => hnot ?_) k hk
    rcases howed with howed | ⟨j, hj, hnotifies⟩
    · exact .inl howed
    · refine .inr ⟨j, hj, ?_⟩
      have hji : j ≠ i := by
        rintro rfl
        exact Bool.false_ne_true (hold.symm.trans hnotifies)
      show ((m'.setWorker i v).worker j).notifies = true
      rw [hother j hji]
      exact hnotifies

/-- A worker that blocks: it was about to, in a state in which none is. -/
lemma Calm.sleep {s : State Memory Stage} (h : Calm p s) {i : ℕ} (hi : i < p.workerNum)
    (hold : s.shared.worker i = .block) :
    Calm p { s with shared := (s.shared.setLocked false).setWorker i .asleep } := by
  intro hcalled hnot
  refine absurd hold (h hcalled (fun howed => hnot ?_) i hi).1
  refine howed.imp id fun ⟨k, hk, hnotifies⟩ => ⟨k, hk, ?_⟩
  have hki : k ≠ i := by
    rintro rfl
    rw [hold] at hnotifies
    cases hnotifies
  show (Function.update s.shared.worker i .asleep k).notifies = true
  rw [Function.update_of_ne hki]
  exact hnotifies

/-- A step of `submit` in a task.

**Proof sketch.** One case for each step of `submit`. Behind the push the worker owes a
notification, and with the condition this one reaches the only sleeper. -/
lemma Calm.worker_submits {s : State Memory Stage} (h : Calm p s) {i t : ℕ} {w : Option ℕ}
    {c : Submit} {m' : Memory} {c' : Option Submit} (hC : Heard p s (.env (.work i w)))
    (hi : i < p.workerNum) (hold : s.shared.worker i = .running t (some c))
    (hs : Submits p s.shared (some i) w c m' c') :
    Calm p { s with shared := m'.setWorker i (.running t c') } := by
  have hsilent (hc : (Worker.running t (some c)).notifies = false) :
      (s.shared.worker i).notifies = false := hold ▸ hc
  cases hs with
  | flag | throws | goOn | route => exact h.setWorker ⟨id, rfl⟩ (hsilent rfl) ⟨nofun, nofun⟩
  | pushFront hwho => exact h.setWorker ⟨id, rfl⟩ (hsilent rfl) ⟨nofun, nofun⟩
  | push =>
    refine fun _ hnot => absurd (.inr ⟨i, hi, ?_⟩) hnot
    show (Function.update s.shared.worker i _ i).notifies = true
    rw [Function.update_self]
    rfl
  | @notify m₂ u hm =>
    intro hcalled hnot
    have hheard : NoneBetween p s.shared ∧ OneAsleep p s.shared := by
      refine hC (called_notifyOne hm hcalled) (fun l hl => ?_) (by rw [hold]; rfl)
        fun k hk hki => ?_
      · by_contra howes
        exact hnot (.inl ⟨l, hl, Bool.eq_true_of_not_eq_false howes⟩)
      · by_contra hnotifies
        refine hnot (.inr ⟨k, hk, ?_⟩)
        show (Function.update m₂.worker i _ k).notifies = true
        rw [Function.update_of_ne hki]
        exact notifies_notifyOne hm k (Bool.eq_true_of_not_eq_false hnotifies)
    intro k hk
    show Function.update m₂.worker i _ k ≠ _ ∧ Function.update m₂.worker i _ k ≠ _
    by_cases hki : k = i
    · subst hki
      rw [Function.update_self]
      exact ⟨nofun, nofun⟩
    · rw [Function.update_of_ne hki]
      exact calm_notifyOne hheard.2 hheard.1 hm k hk

/-- A worker that looks for a task neither notifies nor blocks. -/
lemma silent_of_looks {v : Worker} (hv : v.looks = true) :
    v.notifies = false ∧ v ≠ .block ∧ v ≠ .asleep := by
  cases v with
  | running | block | asleep => cases hv
  | _ => exact ⟨rfl, nofun, nofun⟩

/-- One step of the workers that meets the condition.

**Proof sketch.** One case for each step of a worker. Only the one that goes to sleep could do
harm, and the condition excludes that a notification falls between its test and its sleep. -/
theorem tick_calm {s : State Memory Stage} {e : Tick} {m' : Memory} (h : Calm p s)
    (hC : Heard p s (.env e)) (he : tick p s.shared e = some m') :
    Calm p { s with shared := m' } := by
  have hrefl : Same s.shared s.shared := ⟨id, rfl⟩
  have hsilent {i : ℕ} {v : Worker} (hold : s.shared.worker i = v) (hv : v.notifies = false) :
      (s.shared.worker i).notifies = false := hold ▸ hv
  cases ticks_of_tick he with
  | submit hi hold => exact h.setWorker hrefl (hsilent hold rfl) ⟨nofun, nofun⟩
  | spurious hi hold => exact h.setWorker hrefl (hsilent hold rfl) ⟨nofun, nofun⟩
  | @work i w _ hw =>
    cases hw with
    | @move v hi hold hv =>
      refine h.setWorker hrefl (silent_of_looks hold).1 ?_
      rcases hv with hv | rfl | rfl
      · exact (silent_of_looks hv).2
      · exact ⟨nofun, nofun⟩
      · exact ⟨nofun, nofun⟩
    | @popLocal item rest hi hold hq =>
      refine h.setWorker ⟨id, rfl⟩ (hsilent hold rfl) ?_
      cases item <;> exact ⟨nofun, nofun⟩
    | @popMaster item rest hi hold hq =>
      refine h.setWorker ⟨?_, rfl⟩ (hsilent hold rfl) ?_
      · refine Or.imp_right fun _ => ?_
        rw [hq]
        exact List.cons_ne_nil _ _
      · cases item <;> exact ⟨nofun, nofun⟩
    | stolen hi hold hq => exact h.setWorker ⟨id, rfl⟩ (hsilent hold rfl) ⟨nofun, nofun⟩
    | lock hi hold hl =>
      refine h.setWorker ⟨id, rfl⟩ ?_ ⟨nofun, nofun⟩
      rcases hold with hold | hold <;> exact hsilent hold rfl
    | goOn hi hold hready => exact h.setWorker ⟨id, rfl⟩ (hsilent hold rfl) ⟨nofun, nofun⟩
    | block hi hold hready =>
      -- the predicate is false, for the master queue and `m_done` as well
      rintro (hdone | hmaster)
      · have hdone : s.shared.done = true := hdone
        simp [ready, hdone] at hready
      · have hmaster : s.shared.master ≠ [] := hmaster
        simp [ready, hmaster] at hready
    | sleep hi hold => exact h.sleep hi hold
    | execute hi hold => exact h.setWorker ⟨id, rfl⟩ (hsilent hold rfl) ⟨nofun, nofun⟩
    | ending hi hold =>
      obtain ⟨flag, hflag⟩ := setFlag_eq p s.shared i
      rw [hflag]
      exact h.setWorker ⟨id, rfl⟩ (hsilent hold rfl) ⟨nofun, nofun⟩
    | submit hi hold hs => exact h.worker_submits hC hi hold hs

/-- One step of the whole that meets the condition. -/
theorem step_calm {s t : State Memory Stage} {e : Event Action Tick} (h : Calm p s)
    (hknows : ∀ l ∈ s.threads, Knows p s.shared l) (hC : Heard p s e)
    (hstep : (system p).step s e = some t) : Calm p t := by
  cases Program.steps_of_step hstep with
  | spawn =>
    intro hcalled hnot
    refine h hcalled fun howed => hnot ?_
    exact howed.imp (fun ⟨l, hl, howes⟩ => ⟨l, List.mem_append_left _ hl, howes⟩) id
  | act hl ha => exact act_calm h (hknows _ (List.mem_of_getElem? hl)) hC hl ha
  | env he => exact tick_calm h hC he

/-- **No lost wake-up**: in every run whose notifications meet the condition, no worker is ever
blocked although its predicate holds, without a notification that is still to be issued.

**Proof sketch.** The invariant is `Calm`: if the predicate of the workers holds and nobody owes a
notification, then no worker is asleep or about to sleep. A step that meets the condition keeps it,
by `step_calm`. -/
theorem wakeup_not_lost {es : List (Event Action Tick)} (hC : (system p).Along (Heard p) es) :
    (system p).Always (fun s => ∀ i, ¬ Stranded p s i) es := by
  refine System.always_of_along
    (I := fun s => (Joined s.shared ∧ ∀ l ∈ s.threads, Knows p s.shared l) ∧ Calm p s)
    ⟨⟨?_, List.forall_mem_nil _⟩, ?_⟩ ?_ ?_ hC
  · intro i hi
    cases hi
  · rintro (hd | hmaster)
    · cases hd
    · exact absurd rfl hmaster
  · rintro s ⟨-, hcalm⟩ i ⟨hi, hasleep, hcalled, hnot⟩
    exact (hcalm hcalled hnot i hi).2 hasleep
  · rintro s e t ⟨hknows, hcalm⟩ hC hstep
    exact ⟨step_knows hknows hstep, step_calm hcalm hknows.2 hC hstep⟩

/-- A pool with one worker. -/
def onePool (kind : Kind) : Pool := ⟨kind, 1, true⟩

/-- Some steps of a call. -/
def steps (i k : ℕ) : List (Event Action Tick) := List.replicate k (.act i (.go none))

/-- Some steps of a worker. -/
def works (i k : ℕ) : List (Event Action Tick) := List.replicate k (.env (.work i none))

/-- The worker blocks, a task is submitted, and the worker takes it. -/
def heardRun : List (Event Action Tick) :=
  [.spawn] ++ works 0 10 ++ [.act 0 .submit] ++ steps 0 2 ++ [.act 0 (.go (some 0))] ++ works 0 6

/-- In this run the worker is woken for the task. -/
theorem wakeup_not_lost_one : ∃ s, (system (onePool .steal)).run heardRun = some s ∧
    s.shared.worker 0 = .running 0 none ∧
    (system (onePool .steal)).Always (fun s => ∀ i, ¬ Stranded (onePool .steal) s i) heardRun :=
  ⟨_, rfl, rfl, wakeup_not_lost (by decide)⟩

/-- A task is pushed and `notify_one` is called while the worker is between its predicate and its
wait. The number is that of the steps of `submit`. -/
def missedRun (submit : ℕ) : List (Event Action Tick) :=
  [.spawn] ++ works 0 9 ++ [.act 0 .submit] ++ steps 0 submit ++ works 0 1

/-- The worker is between its predicate and its wait when `stop` sets `m_done` and notifies all. The
number is that of the steps of `stop` up to the notification. -/
def missedStop (stop : ℕ) : List (Event Action Tick) :=
  [.spawn] ++ works 0 9 ++ [.act 0 .stop] ++ steps 0 stop ++ works 0 1

/-- In both classes the worker blocks for good, with a task in the master queue and nobody else to
take it, or with `m_done` set and a call of `stop` that waits for it. -/
theorem wakeup_lost :
    (∃ s, (system (onePool .steal)).run (missedRun 3) = some s ∧ Stranded (onePool .steal) s 0 ∧
      s.threads = [.returned] ∧ s.shared.master = [some 0]) ∧
    (∃ s, (system (onePool .globalSteal)).run (missedRun 4) = some s ∧
      Stranded (onePool .globalSteal) s 0 ∧ s.threads = [.returned] ∧
      s.shared.master = [some 0]) ∧
    (∃ s, (system (onePool .steal)).run (missedStop 6) = some s ∧ Stranded (onePool .steal) s 0 ∧
      s.threads = [.await .stop 0] ∧ s.shared.done = true) ∧
    ∃ s, (system (onePool .globalSteal)).run (missedStop 5) = some s ∧
      Stranded (onePool .globalSteal) s 0 ∧ s.threads = [.await .stop 0] ∧ s.shared.done = true :=
  ⟨⟨_, rfl, by decide, rfl, rfl⟩, ⟨_, rfl, by decide, rfl, rfl⟩, ⟨_, rfl, by decide, rfl, rfl⟩,
    ⟨_, rfl, by decide, rfl, rfl⟩⟩

end HkuUtils.StealPool
