import Mathlib.Logic.Function.Basic
import HkuUtils.BlockingPool.Accounting

set_option relaxedAutoImplicit false
set_option autoImplicit false

/-!
# The versions of the resources of a blocking pool

A `ResourceVersionPool` compares versions when a resource is returned, not when it is handed out:
what `get` and `getWaitFor` hand out is current as long as every idle resource is. The functions
that change the version empty the queue, apart from `incVersion`.

## Main definitions

* `HkuUtils.BlockingPool.handedOut` — the handle that an event gives to a caller.
* `HkuUtils.BlockingPool.IdleCurrent` — the idle resources are current.
* `HkuUtils.BlockingPool.LendsCurrent`, `LendsInForce` — whatever is handed out next is current,
  and was built from the parameters in force.
* `HkuUtils.BlockingPool.EmptyAtIncVersion` — the condition on the steps.
* `HkuUtils.BlockingPool.Dated` — each resource has the parameters of its version.

## Main results

* `HkuUtils.BlockingPool.step_dated`, `step_idleCurrent` — what one event does to versions.
* `HkuUtils.BlockingPool.never_lends_stale`, `lends_stale` — no stale resource is handed out
  exactly along the condition, and one is in some run.
-/

namespace HkuUtils.BlockingPool

open Transition

variable {P N V : Type} {s t : State P} {c : ℕ}

/-! ## What is handed out -/

/-- The handle that a call returns, if it returns one. -/
def GetResult.handle? : GetResult P → Option (Handle P)
  | .lent h => some h
  | .null | .waits | .threw _ => none

/-- The handle that an event gives to a caller, if it gives one. -/
def handedOut (s : State P) : Event P N V → Option (Handle P)
  | .get how => (get s how).2.handle?
  | .getWaitFor ms_timeout how => (getWaitFor s ms_timeout how).2.handle?
  | .resume c => (resume s c).bind fun tr => tr.2.handle?
  | _ => none

/-- A construction hands out a new resource. -/
lemma handle_create {how : Construction} {hd : Handle P}
    (h : (create s how).2.handle? = some hd) : hd.res = s.fresh := by
  cases how with
  | ok =>
    obtain rfl : _ = hd := Option.some.inj h
    rfl
  | throws what => simp [create, GetResult.handle?] at h
  | throwsUnknown => simp [create, GetResult.handle?] at h

/-- What is handed out is new or was idle.

**Proof sketch.** One case for each event that hands out: the front of the queue, if there is one,
and a new resource otherwise. -/
lemma handedOut_res {e : Event P N V} {hd : Handle P} (h : handedOut s e = some hd) :
    hd.res = s.fresh ∨ hd.res ∈ s.resourceList := by
  cases e with
  | get how =>
    simp only [handedOut, get] at h
    split at h
    · split at h
      · simp [GetResult.handle?] at h
      · exact Or.inl (handle_create h)
    · next hs =>
      obtain rfl : _ = hd := Option.some.inj h
      exact Or.inr (by rw [hs]; exact List.mem_cons_self)
  | getWaitFor ms_timeout how =>
    simp only [handedOut, getWaitFor] at h
    split at h
    · split at h
      · simp [GetResult.handle?] at h
      · exact Or.inl (handle_create h)
    · next hs =>
      obtain rfl : _ = hd := Option.some.inj h
      exact Or.inr (by rw [hs]; exact List.mem_cons_self)
  | resume c =>
    obtain ⟨⟨t, r⟩, hr, hd'⟩ := Option.bind_eq_some_iff.mp h
    cases resumes_of_resume hr with
    | sleepsAgain | timeout => simp [GetResult.handle?] at hd'
    | notified _ hs | late _ hs =>
      obtain rfl : _ = hd := Option.some.inj hd'
      exact Or.inr (by rw [hs]; exact List.mem_cons_self)
  | _ => simp [handedOut] at h

/-- Whatever the next event hands out carries the version of the pool. -/
def LendsCurrent (N V : Type) (s : State P) : Prop :=
  ∀ (e : Event P N V) (hd : Handle P), handedOut s e = some hd → hd.res.version = s.version

/-- Whatever the next event hands out was built from the parameters in force. -/
def LendsInForce (N V : Type) (s : State P) : Prop :=
  ∀ (e : Event P N V) (hd : Handle P), handedOut s e = some hd → hd.res.param = s.param

/-! ## The idle resources are current -/

/-- The idle resources carry the version of the pool. -/
def IdleCurrent (s : State P) : Prop := ∀ p ∈ s.resourceList, p.version = s.version

/-- `incVersion` is called only when there is no idle resource. -/
def EmptyAtIncVersion (s : State P) : Event P N V → Prop
  | .incVersion => s.resourceList = []
  | _ => True

instance [DecidableEq P] (s : State P) : ∀ e : Event P N V, Decidable (EmptyAtIncVersion s e)
  | .incVersion => inferInstanceAs (Decidable (s.resourceList = []))
  | .get _ | .getWaitFor _ _ | .wakeUp _ | .timeout _ | .resume _ | .release _
  | .releaseIdleResource | .setParam _ _ | .setParameter _ | .destroy => isTrue trivial

namespace IdleCurrent

/-- No idle resource. -/
lemma of_nil (h : s.resourceList = []) : IdleCurrent s := by simp [IdleCurrent, h]

/-- Fewer idle resources. -/
lemma mono (h : IdleCurrent s) (hlist : t.resourceList ⊆ s.resourceList)
    (hversion : t.version = s.version) : IdleCurrent t := by
  intro p hp
  rw [hversion]
  exact h p (hlist hp)

/-- What is handed out is current. -/
lemma lendsCurrent (h : IdleCurrent s) : LendsCurrent N V s := by
  intro e hd he
  rcases handedOut_res he with hres | hmem
  · rw [hres]
    rfl
  · exact h _ hmem

/-- After `incVersion` an idle resource is stale, and `get` hands it out. -/
lemma not_lendsCurrent_incVersion (h : IdleCurrent s) (hs : s.resourceList ≠ []) :
    ¬ LendsCurrent N V (incVersion s) := by
  intro hlends
  obtain ⟨p, rest, hlist⟩ := List.exists_cons_of_ne_nil hs
  have hget : handedOut (N := N) (V := V) (incVersion s) (.get .ok) =
      some ⟨s.calls, p, true⟩ := by
    have : (incVersion s).resourceList = p :: rest := hlist
    simp only [handedOut, get, this]
    rfl
  have hstale : p.version = s.version + 1 := hlends _ _ hget
  have hp : p.version = s.version := h p (by rw [hlist]; exact List.mem_cons_self)
  rw [hp] at hstale
  exact absurd hstale (by bv_omega)

end IdleCurrent

/-! ## What one event does to the versions -/

/-- The resources of the pool and of its callers. -/
def State.resources (s : State P) : List (Resource P) :=
  s.resourceList ++ s.handles.map (·.res)

/-- A step that does not change the version. -/
structure KeepsVersion (s t : State P) : Prop where
  version_eq : t.version = s.version
  param_eq : t.param = s.param
  /-- What comes to the queue is current. -/
  idle : ∀ p ∈ t.resourceList, p ∈ s.resourceList ∨ p.version = s.version
  /-- At most one resource is made. -/
  resources : t.resources ⊆ s.fresh :: s.resources

namespace KeepsVersion

/-- Nothing is moved. -/
lemma of_eq (hversion : t.version = s.version) (hparam : t.param = s.param)
    (hlist : t.resourceList = s.resourceList) (hhandles : t.handles = s.handles) :
    KeepsVersion s t := by
  refine ⟨hversion, hparam, fun p hp => Or.inl (hlist ▸ hp), ?_⟩
  rw [State.resources, hlist, hhandles]
  exact List.subset_cons_self _ _

/-- The handles lose resources and the queue is empty. -/
lemma of_nil (hversion : t.version = s.version) (hparam : t.param = s.param)
    (hlist : t.resourceList = []) (hhandles : t.handles.map (·.res) ⊆ s.handles.map (·.res)) :
    KeepsVersion s t := by
  refine ⟨hversion, hparam, by simp [hlist], ?_⟩
  rw [State.resources, hlist, List.nil_append]
  exact fun p hp => List.mem_cons_of_mem _ (List.mem_append_right _ (hhandles hp))

/-- A call takes the front resource. -/
lemma of_pop_lend {p : Resource P} {rest : List (Resource P)} (hversion : t.version = s.version)
    (hparam : t.param = s.param) (hs : s.resourceList = p :: rest)
    (hlist : t.resourceList = rest)
    (hhandles : t.handles.map (·.res) = p :: s.handles.map (·.res)) : KeepsVersion s t := by
  refine ⟨hversion, hparam, fun q hq => Or.inl ?_, fun q hq => List.mem_cons_of_mem _ ?_⟩
  · rw [hs]
    exact List.mem_cons_of_mem _ (hlist ▸ hq)
  · simp only [State.resources, hlist, hhandles, hs, List.mem_append, List.mem_cons] at hq ⊢
    tauto

end KeepsVersion

/-- The outcome of a construction. -/
lemma create_keepsVersion (s : State P) (how : Construction) :
    KeepsVersion s (create s how).1 := by
  cases how with
  | ok =>
    refine ⟨rfl, rfl, fun p hp => Or.inl hp, fun p hp => ?_⟩
    simp only [State.resources, create, State.lend, State.construct, Stock.lend, Stock.construct,
      List.map_cons, List.mem_append, List.mem_cons] at hp ⊢
    tauto
  | throws what => exact .of_eq rfl rfl rfl rfl
  | throwsUnknown => exact .of_eq rfl rfl rfl rfl

/-- A call of `get`. -/
lemma get_keepsVersion (s : State P) (how : Construction) : KeepsVersion s (get s how).1 := by
  unfold get
  split
  · split
    · exact .of_eq rfl rfl rfl rfl
    · exact create_keepsVersion s how
  · next hs => exact .of_pop_lend rfl rfl hs rfl rfl

/-- A call of `getWaitFor` up to its wait. -/
lemma getWaitFor_keepsVersion (s : State P) (ms_timeout : ℕ) (how : Construction) :
    KeepsVersion s (getWaitFor s ms_timeout how).1 := by
  unfold getWaitFor
  split
  · split
    · exact .of_eq rfl rfl rfl rfl
    · exact create_keepsVersion s how
  · next hs => exact .of_pop_lend rfl rfl hs rfl rfl

/-- The rest of a call of `getWaitFor`. -/
lemma resumes_keepsVersion {r : GetResult P} (hr : Resumes s c t r) : KeepsVersion s t := by
  cases hr with
  | sleepsAgain | timeout => exact .of_eq rfl rfl rfl rfl
  | notified _ hs | late _ hs => exact .of_pop_lend rfl rfl hs rfl rfl

/-- The resources in handles when one is dropped. -/
lemma map_res_drop_subset (s : State P) (c : ℕ) :
    (s.drop c).handles.map (·.res) ⊆ s.handles.map (·.res) :=
  List.map_subset _ List.eraseP_subset

/-- The return of a resource: the versions are compared.

**Proof sketch.** A resource that is put back was compared with the version and is current. All
others are deleted, and the handle is dropped in both cases. -/
lemma returned_keepsVersion {hd : Handle P} (hf : s.handles.find? (·.closer = c) = some hd) :
    KeepsVersion s (returnResource .versioned (s.drop c) hd.res c) := by
  have hdrop := map_res_drop_subset s c
  unfold returnResource
  split
  · next hacc =>
    have hcurrent : hd.res.version = s.version := by
      have : Kind.stale .versioned s.version hd.res = false := hacc.1
      simpa [Kind.stale] using this
    have hmem : hd.res ∈ s.handles.map (·.res) :=
      List.mem_map_of_mem (List.mem_of_find?_eq_some hf)
    refine ⟨rfl, rfl, fun p hp => ?_, fun p hp => List.mem_cons_of_mem _ ?_⟩
    · rcases List.mem_append.mp hp with hp | hp
      · exact Or.inl hp
      · obtain rfl := List.mem_singleton.mp hp
        exact Or.inr hcurrent
    · rcases List.mem_append.mp hp with hp | hp
      · rcases List.mem_append.mp hp with hp | hp
        · exact List.mem_append_left _ hp
        · obtain rfl := List.mem_singleton.mp hp
          exact List.mem_append_right _ hmem
      · exact List.mem_append_right _ (hdrop hp)
  · refine ⟨rfl, rfl, fun p hp => Or.inl hp, fun p hp => List.mem_cons_of_mem _ ?_⟩
    rcases List.mem_append.mp hp with hp | hp
    · exact List.mem_append_left _ hp
    · exact List.mem_append_right _ (hdrop hp)

/-- The events that may change the version. -/
def Event.changesVersion : Event P N V → Bool
  | .setParam _ _ | .setParameter _ | .incVersion => true
  | _ => false

/-- What an event does to the version of the pool. -/
inductive ChangesVersion (s : State P) : Event P N V → State P → Prop where
  | kept {e : Event P N V} {t : State P} (hkeeps : KeepsVersion s t) : ChangesVersion s e t
  /-- New parameters, and no idle resources. -/
  | replaced {e : Event P N V} {t : State P} (he : e.changesVersion = true)
    (hversion : t.version = s.version + 1) (hlist : t.resourceList = [])
    (hhandles : t.handles = s.handles) : ChangesVersion s e t
  /-- The idle resources stay. -/
  | incremented : ChangesVersion s .incVersion (incVersion s)

/-- `replaceParam` changes the version and empties the queue. -/
lemma changesVersion_replaceParam {e : Event P N V} (he : e.changesVersion = true) (param : P) :
    ChangesVersion s e (replaceParam s param) := by
  rw [replaceParam, releaseIdleResource_eq]
  exact .replaced he rfl rfl rfl

/-- **What one event does to the version**: it keeps it, or empties the queue, or is `incVersion`.

**Proof sketch.** One case for each event. Only a change of the parameters and `incVersion` touch
the version, and the first of them empties the queue. -/
theorem step_changesVersion [ParameterOps P N V] [BEq V] {e : Event P N V}
    (hstep : step .versioned s e = some t) : ChangesVersion s e t := by
  cases fires_of_step hstep with
  | get how => exact .kept (get_keepsVersion s how)
  | getWaitFor ms_timeout how => exact .kept (getWaitFor_keepsVersion s ms_timeout how)
  | wakeUp | timeout | timeoutNotified | setParamKept => exact .kept (.of_eq rfl rfl rfl rfl)
  | resume _ hr => exact .kept (resumes_keepsVersion hr)
  | returned _ hf => exact .kept (returned_keepsVersion hf)
  | @freed c =>
    refine .kept ⟨rfl, rfl, fun p hp => Or.inl hp, fun p hp => List.mem_cons_of_mem _ ?_⟩
    rcases List.mem_append.mp hp with hp | hp
    · exact List.mem_append_left _ hp
    · exact List.mem_append_right _ (map_res_drop_subset s c hp)
  | releaseIdleResource =>
    rw [releaseIdleResource_eq]
    exact .kept (.of_nil rfl rfl rfl fun _ hp => hp)
  | setParam | setParameter => exact changesVersion_replaceParam rfl _
  | incVersion => exact .incremented
  | destroy =>
    refine .kept (.of_nil rfl rfl rfl fun p hp => ?_)
    simp only [destroy, List.map_map, List.mem_map, Function.comp_apply] at hp ⊢
    obtain ⟨hd, hmem, rfl⟩ := hp
    refine ⟨hd, hmem, ?_⟩
    split <;> rfl

/-- **One event keeps the idle resources current**, unless it is an `incVersion` beside idle
resources. -/
theorem step_idleCurrent [ParameterOps P N V] [BEq V] {e : Event P N V} (h : IdleCurrent s)
    (hC : EmptyAtIncVersion s e) (hstep : step .versioned s e = some t) : IdleCurrent t := by
  cases step_changesVersion hstep with
  | kept hkeeps =>
    intro p hp
    rw [hkeeps.version_eq]
    exact (hkeeps.idle p hp).elim (h p) id
  | replaced _ _ hlist => exact .of_nil hlist
  | incremented => exact .of_nil hC

/-! ## The parameters of a version -/

/-- After `n` changes of the version at most, there is a list of parameters, one for each
version, and each resource was built from those of its version. -/
def Dated (n : ℕ) (s : State P) : Prop :=
  ∃ (param : ℕ → P) (m : ℕ), m ≤ n ∧ s.version = BitVec.ofNat 32 m ∧ s.param = param m ∧
    ∀ p ∈ s.resources, ∃ j ≤ m, p.version = BitVec.ofNat 32 j ∧ p.param = param j

namespace Dated

/-- A change of the version: the parameters of the versions before stay as they are. -/
lemma next {n : ℕ} (h : Dated n s) (hversion : t.version = s.version + 1)
    (hresources : t.resources ⊆ s.resources) : Dated (n + 1) t := by
  obtain ⟨param, m, hm, hver, _, hres⟩ := h
  refine ⟨Function.update param (m + 1) t.param, m + 1, by omega, ?_, by simp, fun p hp => ?_⟩
  · rw [hversion, hver, BitVec.ofNat_add]
    rfl
  · obtain ⟨j, hj, hpver, hparam⟩ := hres p (hresources hp)
    exact ⟨j, by omega, hpver, by rw [Function.update_of_ne (by omega), hparam]⟩

/-- A step that does not change the version. -/
lemma kept {n : ℕ} (h : Dated n s) (hkeeps : KeepsVersion s t) : Dated n t := by
  obtain ⟨param, m, hm, hver, hparam, hres⟩ := h
  refine ⟨param, m, hm, by rw [hkeeps.version_eq, hver], by rw [hkeeps.param_eq, hparam],
    fun p hp => ?_⟩
  rcases List.mem_cons.mp (hkeeps.resources hp) with rfl | hp
  · exact ⟨m, le_rfl, hver, hparam⟩
  · exact hres p hp

/-- More changes. -/
lemma mono {n n' : ℕ} (h : Dated n s) (hn : n ≤ n') : Dated n' s := by
  obtain ⟨param, m, hm, hrest⟩ := h
  exact ⟨param, m, hm.trans hn, hrest⟩

/-- Before the version wraps around, an idle resource that is current was built from the
parameters in force. -/
lemma param_eq {n : ℕ} (h : Dated n s) (hn : n < 2 ^ 32) {p : Resource P}
    (hp : p ∈ s.resourceList) (hcurrent : p.version = s.version) : p.param = s.param := by
  obtain ⟨param, m, hm, hver, hparam, hres⟩ := h
  obtain ⟨j, hj, hpver, hpparam⟩ := hres p (List.mem_append_left _ hp)
  have heq : (BitVec.ofNat 32 j).toNat = (BitVec.ofNat 32 m).toNat := by
    rw [← hpver, ← hver, hcurrent]
  rw [BitVec.toNat_ofNat, BitVec.toNat_ofNat, Nat.mod_eq_of_lt (by omega),
    Nat.mod_eq_of_lt (by omega)] at heq
  rw [hpparam, hparam, heq]

end Dated

/-- **One event keeps the dates**, and is one change at most. -/
theorem step_dated [ParameterOps P N V] [BEq V] {e : Event P N V} {n : ℕ} (h : Dated n s)
    (hstep : step .versioned s e = some t) :
    Dated (n + if e.changesVersion then 1 else 0) t := by
  cases step_changesVersion hstep with
  | kept hkeeps => exact (h.kept hkeeps).mono (Nat.le_add_right _ _)
  | replaced he hversion hlist hhandles =>
    rw [if_pos he]
    refine h.next hversion fun p hp => ?_
    rw [State.resources, hlist, hhandles, List.nil_append] at hp
    exact List.mem_append_right _ hp
  | incremented => exact h.next rfl fun _ hp => hp

/-! ## Runs -/

/-- A new pool has no resources. -/
lemma init_dated (param : P) (maxPoolSize maxIdelSize : ℕ) :
    Dated 0 (State.init param maxPoolSize maxIdelSize) :=
  ⟨fun _ => param, 0, le_rfl, rfl, rfl, by simp [State.resources, State.init, Stock.empty]⟩

/-- **No stale resource is handed out exactly along the runs in which `incVersion` finds no idle
resource**, and until the version wraps around what is handed out there was built from the
parameters in force.

**Proof sketch.** By `always_iff_along_of_imp`: along the condition every idle resource is
current, by `step_idleCurrent`; after any other `incVersion` the front of the queue is stale, and
`get` would hand it out. The parameters of a version are those of `Dated`, which counts the
changes. -/
theorem never_lends_stale [ParameterOps P N V] [BEq V] (param : P) (maxPoolSize maxIdelSize : ℕ)
    {es : List (Event P N V)}
    (hrun : (ResourceVersionPool.system param maxPoolSize maxIdelSize).run es = some s) :
    ((ResourceVersionPool.system param maxPoolSize maxIdelSize).Always (LendsCurrent N V) es ↔
      (ResourceVersionPool.system param maxPoolSize maxIdelSize).Along EmptyAtIncVersion es) ∧
    (es.countP (·.changesVersion) < 2 ^ 32 →
      (ResourceVersionPool.system param maxPoolSize maxIdelSize).Along EmptyAtIncVersion es →
      (ResourceVersionPool.system param maxPoolSize maxIdelSize).Always (LendsInForce N V) es) := by
  have hinit : IdleCurrent
      (ResourceVersionPool.system (N := N) (V := V) param maxPoolSize maxIdelSize).init :=
    .of_nil rfl
  constructor
  · refine System.always_iff_along_of_imp (J := fun _ => True) (I := IdleCurrent) trivial hinit
      (fun s h => h.lendsCurrent) (fun _ _ _ _ _ => trivial)
      (fun s e t _ h hC hstep => step_idleCurrent h hC hstep) ?_ hrun
    intro s e t _ h hstep ht
    cases e with
    | incVersion =>
      by_contra hs
      have hfires : Fires .versioned s (.incVersion : Event P N V) t := fires_of_step hstep
      cases hfires with
      | incVersion => exact h.not_lendsCurrent_incVersion hs ht
    | _ => trivial
  · intro hlt hC
    have hidle := System.always_of_along hinit (fun s h => h)
      (fun s e t h hC hstep => step_idleCurrent h hC hstep) hC
    refine System.alwaysFrom_iff _ |>.mpr fun fs hfs t ht e hd he => ?_
    have hdated : Dated (fs.countP (·.changesVersion)) t :=
      System.run_invariant_countP (C := fun _ _ => True) (I := Dated) (·.changesVersion)
        (init_dated param maxPoolSize maxIdelSize)
        (fun n s e t h _ hstep => step_dated h hstep) (System.alongFrom_true _ _ fs) ht
    have hcount := hfs.sublist.countP_le (p := (·.changesVersion))
    rcases handedOut_res he with hres | hmem
    · rw [hres]
      rfl
    · have hcurrent := (System.alwaysFrom_iff _).mp hidle fs hfs t ht hd.res hmem
      exact hdated.param_eq (by omega) hmem hcurrent

/-- A change of the parameters empties the queue, and `incVersion` finds it empty. -/
theorem never_lends_stale_after_change :
    (ResourceVersionPool.system ([] : IntParams) 1 1).Always (LendsCurrent String ℤ)
      [.get .ok, .release 0, .setParam "port" 1, .incVersion, .get .ok] :=
  (never_lends_stale [] 1 1 rfl).1.mpr (by decide)

/-- The idle resource is there before `incVersion`, and the next call gets it. -/
theorem lends_stale : ∃ s hd,
    (ResourceVersionPool.system ([] : IntParams) 1 1).run
      [.get .ok, .release 0, .incVersion] = some s ∧
    (get s .ok).2 = .lent hd ∧ hd.res.version = 0 ∧ s.version = 1 ∧
    ¬ LendsCurrent String ℤ s := by
  refine ⟨_, _, rfl, rfl, rfl, rfl, fun h => ?_⟩
  exact absurd (h (.get .ok) _ rfl) (by decide)

end HkuUtils.BlockingPool
