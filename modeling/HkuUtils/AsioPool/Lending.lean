import HkuUtils.AsioPool.Calls

set_option relaxedAutoImplicit false
set_option autoImplicit false

/-!
# What a coroutine pool lends

For the users of a pool: which resource a call of `get` hands out, what becomes of one that is
returned, and that nobody else has a resource while it is lent.

## Main definitions

* `HkuUtils.AsioPool.Lends` — what a call takes from the queue and adds to the handles.

## Main results

* `HkuUtils.AsioPool.get_lends`, `resumes_lends` — what a call of `get` lends.
* `HkuUtils.AsioPool.get_version`, `Resumes.version`, `returnResource_version` — the version stays
  as it is.
* `HkuUtils.AsioPool.returnResource_places` — where a returned resource goes.
* `HkuUtils.AsioPool.Accounting.ptr_lt_made_of_idle`, `ptr_lt_made_of_held`, `ptr_ne_of_idle`,
  `eq_of_ptr_eq` — a resource is at one place only.
-/

namespace HkuUtils.AsioPool

open Custody

variable {P : Type} {k : Kind} {s t : State P} {c : ℕ} {r : GetResult P}

/-! ## A resource is at one place -/

namespace Accounting

/-- The idle resources were made. -/
lemma ptr_lt_made_of_idle (h : Accounting s) {p : Resource P} (hp : p ∈ s.resourceList) :
    p.ptr < s.made :=
  List.mem_range.mp (h.balanced.accounted.mem_made_of_mem_idle (List.mem_map_of_mem hp))

/-- The lent resources were made. -/
lemma ptr_lt_made_of_held (h : Accounting s) {hd : Handle P} (hmem : hd ∈ s.handles) :
    hd.res.ptr < s.made :=
  List.mem_range.mp (h.balanced.accounted.mem_made_of_mem_held (List.mem_map_of_mem hmem))

/-- A lent resource is not idle. -/
lemma ptr_ne_of_idle (h : Accounting s) {p : Resource P} {hd : Handle P}
    (hp : p ∈ s.resourceList) (hmem : hd ∈ s.handles) : p.ptr ≠ hd.res.ptr := by
  intro heq
  have hidle : hd.res.ptr ∈ s.resourceList.map (·.ptr) := heq ▸ List.mem_map_of_mem hp
  exact h.balanced.accounted.not_mem_idle_of_mem_held (List.mem_map_of_mem hmem) hidle

/-- A resource is lent through one handle. -/
lemma eq_of_ptr_eq (h : Accounting s) {hd hd' : Handle P} (hmem : hd ∈ s.handles)
    (hmem' : hd' ∈ s.handles) (heq : hd.res.ptr = hd'.res.ptr) : hd = hd' :=
  List.inj_on_of_nodup_map h.balanced.accounted.held_nodup hmem hmem' heq

end Accounting

/-! ## What a call changes -/

/-- The handle that a segment of `get` has made, if it has made one. -/
def GetResult.handles : GetResult P → List (Handle P)
  | .lent hd => [hd]
  | .suspended => []
  | .threw _ => []

/-- A segment of the call `c` that ends with `r` has taken resources off the queue, and the handle
it has made, if any, is for a resource from `source`. -/
structure Lends (s t : State P) (c : ℕ) (source : Resource P → Prop) (r : GetResult P) :
    Prop where
  idle : ∀ p ∈ t.resourceList, p ∈ s.resourceList
  handles : t.handles = r.handles ++ s.handles
  lent : ∀ hd ∈ r.handles, hd.closer = c ∧ source hd.res

/-- Below the limit a new resource is lent. -/
lemma createOrWait_lends (s : State P) (c : ℕ) (how : Construction) :
    Lends s (createOrWait s c how).1 c (fun p => p.ptr = s.made) (createOrWait s c how).2 := by
  unfold createOrWait
  split
  · cases how with
    | ok => exact ⟨fun _ hp => hp, rfl, fun hd hmem => by
        rw [List.mem_singleton.mp hmem]
        exact ⟨rfl, rfl⟩⟩
    | throws what => exact ⟨fun _ hp => hp, rfl, by simp [GetResult.handles]⟩
    | throwsUnknown => exact ⟨fun _ hp => hp, rfl, by simp [GetResult.handles]⟩
  · exact ⟨fun _ hp => hp, rfl, by simp [GetResult.handles]⟩

/-- A new call of `get` lends an idle resource or a new one. Stale resources that it finds first
are deleted, and are not lent. -/
lemma get_lends (k : Kind) (s : State P) (how : Construction) :
    Lends s (get k s how).1 s.gets (fun p => p ∈ s.resourceList ∨ p.ptr = s.made)
      (get k s how).2 := by
  simp only [get]
  split
  · obtain ⟨hidle, hhandles, hlent⟩ :=
      createOrWait_lends { s with gets := s.gets + 1 } s.gets how
    exact ⟨hidle, hhandles, fun hd hmem => ⟨(hlent hd hmem).1, Or.inr (hlent hd hmem).2⟩⟩
  · next p rest hs =>
    have hrest : ∀ q ∈ rest, q ∈ s.resourceList := fun q hq => hs ▸ List.mem_cons_of_mem p hq
    split
    · obtain ⟨hidle, hhandles, hlent⟩ := createOrWait_lends
        ((State.pop { s with gets := s.gets + 1 } rest).discard p) s.gets how
      exact ⟨fun q hq => hrest q (hidle q hq), hhandles,
        fun hd hmem => ⟨(hlent hd hmem).1, Or.inr (hlent hd hmem).2⟩⟩
    · refine ⟨hrest, rfl, fun hd hmem => ?_⟩
      rw [List.mem_singleton.mp hmem]
      exact ⟨rfl, Or.inl (hs ▸ List.mem_cons_self)⟩

/-- A call that resumes lends an idle resource. -/
lemma resumes_lends (hr : Resumes k s c t r) : Lends s t c (· ∈ s.resourceList) r := by
  cases hr with
  | timedOut => exact ⟨fun _ hp => hp, rfl, by simp [GetResult.handles]⟩
  | empty => exact ⟨fun _ hp => hp, rfl, by simp [GetResult.handles]⟩
  | mismatch _ _ hs =>
    exact ⟨fun _ hp => hs ▸ List.mem_cons_of_mem _ hp, rfl, by simp [GetResult.handles]⟩
  | lent _ _ hs =>
    refine ⟨fun _ hp => hs ▸ List.mem_cons_of_mem _ hp, rfl, fun hd hmem => ?_⟩
    rw [List.mem_singleton.mp hmem]
    exact ⟨rfl, hs ▸ List.mem_cons_self⟩

/-- The wait of a call that resumes has ended. -/
lemma Resumes.ended (hr : Resumes k s c t r) :
    c ∈ s.cancelled ∨ c ∈ s.expired ∨ c ∈ s.interrupted := by
  cases hr with
  | timedOut hc => exact Or.inr (Or.inl hc)
  | empty hc | mismatch hc | lent hc => exact hc.imp_right Or.inr

/-- A call of `get` keeps the version. -/
lemma get_version (k : Kind) (s : State P) (how : Construction) :
    (get k s how).1.version = s.version ∧ (get k s how).1.gets = s.gets + 1 := by
  have hwait (u : State P) (c : ℕ) : (createOrWait u c how).1.version = u.version ∧
      (createOrWait u c how).1.gets = u.gets := by
    unfold createOrWait
    split
    · cases how <;> exact ⟨rfl, rfl⟩
    · exact ⟨rfl, rfl⟩
  simp only [get]
  split
  · exact hwait _ _
  · split
    · exact hwait _ _
    · exact ⟨rfl, rfl⟩

/-- So does a call that resumes. -/
lemma Resumes.version (hr : Resumes k s c t r) : t.version = s.version ∧ t.gets = s.gets := by
  cases hr <;> exact ⟨rfl, rfl⟩

/-- So does a return. -/
lemma returnResource_version (k : Kind) (s : State P) (p : Resource P) (c : ℕ) (pushed : Bool) :
    (returnResource k s p c pushed).version = s.version ∧
      (returnResource k s p c pushed).gets = s.gets := by
  obtain ⟨_, _, _, hpush⟩ := (s.push p).wake_eq
  obtain ⟨_, _, _, hdiscard⟩ := (s.discard p).wake_eq
  rw [returnResource, hpush, hdiscard]
  split
  · exact ⟨rfl, rfl⟩
  · split <;> exact ⟨rfl, rfl⟩

/-- A returned resource goes to the queue, unless it is stale or the push fails. -/
lemma returnResource_places (k : Kind) (s : State P) (p : Resource P) (c : ℕ) (pushed : Bool) :
    (returnResource k s p c pushed).handles = s.handles ∧
      ∀ q ∈ (returnResource k s p c pushed).resourceList,
        q ∈ s.resourceList ∨ q = p ∧ k.stale s.version p = false ∧ pushed = true := by
  obtain ⟨_, _, _, hpush⟩ := (s.push p).wake_eq
  obtain ⟨_, _, _, hdiscard⟩ := (s.discard p).wake_eq
  unfold returnResource
  rw [hpush, hdiscard]
  split
  · exact ⟨rfl, fun q hq => Or.inl hq⟩
  · next hstale =>
    split
    · next hpushed =>
      refine ⟨rfl, fun q hq => ?_⟩
      rcases List.mem_append.mp hq with hq | hq
      · exact Or.inl hq
      · exact Or.inr ⟨List.mem_singleton.mp hq, by simpa using hstale, hpushed⟩
    · exact ⟨rfl, fun q hq => Or.inl hq⟩

/-- The handles that are left when one is dropped. -/
lemma Calls.mem_drop (h : Calls s) {hd : Handle P} (hmem : hd ∈ (s.drop c).handles) :
    hd ∈ s.handles ∧ hd.closer ≠ c := by
  have hcloser : hd.closer ∈ (s.handles.map (·.closer)).erase c := by
    rw [← Stock.closers_drop]
    exact List.mem_map_of_mem hmem
  exact ⟨List.mem_of_mem_eraseP hmem, (h.closers_nodup.mem_erase_iff.mp hcloser).1⟩

/-- As long as a pool exists, a handle that is dropped is returned to it. -/
lemma Sound.release_eq (h : Sound s) (k : Kind) (halive : s.alive = true) {hd : Handle P}
    (hf : s.handles.find? (·.closer = c) = some hd) (pushed : Bool) :
    release k s c pushed = some (returnResource k (s.drop c) hd.res c pushed) := by
  have hbound := (h.account halive).balanced.bound hd (List.mem_of_find?_eq_some hf)
  unfold release
  rw [hf]
  simp only [hbound, halive, if_true]

/-- New parameters empty the queue and leave the handles. -/
lemma replaceParam_places (s : State P) (param : P) :
    (replaceParam s param).handles = s.handles ∧ (replaceParam s param).resourceList = [] := by
  rw [replaceParam, releaseIdleResource_eq]
  exact ⟨rfl, rfl⟩

/-- New parameters have a version of their own. -/
lemma replaceParam_version (s : State P) (param : P) :
    (replaceParam s param).version = s.version + 1 ∧ (replaceParam s param).gets = s.gets := by
  rw [replaceParam, releaseIdleResource_eq]
  exact ⟨rfl, rfl⟩

end HkuUtils.AsioPool
