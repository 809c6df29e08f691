import HkuUtils.Plugin.Model

set_option relaxedAutoImplicit false
set_option autoImplicit false

/-!
# Plugins that several threads share

The calls of `getPlugin` for one name give one plugin, and it is there until the next `clear`. What
the calls load is accounted for: a plugin is in the map, with a call that has not returned, or
deleted once. The libraries are opened as often as they are closed, but for one case: `load` closes
the library when `createPlugin` gives nothing and keeps the handle, so that the destructor of the
loader closes it once more.

## Main results

* `HkuUtils.Plugin.plugins_agree` — **the results between two calls of `clear`.**
* `HkuUtils.Plugin.objects_accounted` — **where the plugins are.**
* `HkuUtils.Plugin.handles_balance` — **how often a library is closed.**
-/

namespace HkuUtils.Plugin

open Transition Threads

variable {path : String} {s s₀ : Threads.State Shared Stage}
  {es past : List (Threads.Event Action Change)}

/-! ## What belongs to whom -/

/-- The loader of a call. -/
def Stage.loader : Stage → Option PluginLoader
  | .resolving _ l | .creating _ l | .loaded _ l | .leaving l => some l
  | _ => none

/-- The plugins that belong to a call. -/
def Stage.objects (l : Stage) : List ℕ := l.loader.toList.flatMap PluginLoader.objects

/-- The handles that belong to a call. -/
def Stage.handles (l : Stage) : List String := l.loader.toList.flatMap PluginLoader.handles

/-- The plugins in the map. -/
def Shared.objects (m : Shared) : List ℕ := m.plugins.flatMap fun e => e.2.objects

/-- The handles in the map. -/
def Shared.handles (m : Shared) : List String := m.plugins.flatMap fun e => e.2.handles

/-- The handles of the map and of all calls. -/
def handlesOf (s : Threads.State Shared Stage) : List String :=
  s.shared.handles ++ s.threads.flatMap Stage.handles

/-- How often something belongs to the calls. -/
lemma sum_count {α : Type} [DecidableEq α] (f : Stage → List α) (a : α) (ls : List Stage) :
    (ls.map fun l => ((f l).count a : ℤ)).sum = ((ls.flatMap f).count a : ℤ) := by
  induction ls with
  | nil => rfl
  | cons l ls ih => simp [ih]

/-- How often a plugin was created, when `n` were. -/
def made (k n : ℕ) : ℕ := if k < n then 1 else 0

/-- One more plugin was made. -/
lemma made_succ (k n : ℕ) : made k (n + 1) = made k n + [n].count k := by
  rw [made, made, List.count_singleton]
  by_cases hlt : k < n
  · have hne : n ≠ k := by omega
    simp [hlt, hne, Nat.lt_succ_of_lt hlt]
  · by_cases heq : n = k
    · simp [heq]
    · have hge : ¬ k < n + 1 := by omega
      simp [hlt, heq, hge]

/-! ## Plugins -/

/-- How often a plugin is somewhere.

**Proof sketch.** The count is a sum over the memory and the threads, and each action moves one
plugin between these or makes one; so `Program.run_sum` keeps the balance. -/
lemma count_objects (hrun : (system path).run es = some s) (k : ℕ) :
    s.shared.objects.count k + (s.threads.flatMap Stage.objects).count k +
      s.shared.deleted.count k = made k s.shared.created := by
  have hsum := Program.run_sum
    (fun m => (made k m.created : ℤ) - m.objects.count k - m.deleted.count k)
    (fun l => (l.objects.count k : ℤ)) (by rfl) (by rfl) ?_ ?_ hrun
  · rw [sum_count] at hsum
    omega
  · intro m l a m' l' h
    cases acts_of_act h with
    | create r l interfaces =>
      simp only [Stage.objects, Stage.loader, Shared.objects, PluginLoader.objects, made_succ,
        List.count_append, Option.toList_some, List.flatMap_singleton, List.map_singleton]
      omega
    | refuse | insert | leave =>
      simp [Stage.objects, Stage.loader, Shared.objects, Shared.unload, Shared.give,
        PluginLoader.objects]
      omega
    | _ => simp [Stage.objects, Stage.loader, Shared.objects, Shared.give, PluginLoader.objects]
  · intro m e m' h
    cases changes_of_change h with
    | clear =>
      simp only [Shared.objects, Shared.clear, List.flatMap_nil, List.count_nil, List.count_append]
      omega
    | checkEmpty path =>
      rw [Shared.checkEmpty]
      split <;> rfl
    | setPluginPath path => rfl

/-- **Where the plugins are.** In every interleaving, with any number of calls of `clear`, the
plugins that are in the map, those that belong to calls that have not returned and those that were
deleted are all that were created, each in one place and once; so none is deleted twice, and none
is lost.

**Proof sketch.** Each number is counted in the three places: once if it was created, by
`count_objects`, and not at all otherwise. -/
theorem objects_accounted (hrun : (system path).run es = some s) :
    (s.shared.objects ++ s.threads.flatMap Stage.objects ++ s.shared.deleted).Perm
      (List.range s.shared.created) := by
  apply List.perm_iff_count.2
  intro k
  rw [List.count_append, List.count_append, count_objects hrun k, made]
  split
  next hk => exact (List.count_eq_one_of_mem List.nodup_range (List.mem_range.2 hk)).symm
  next hk => exact (List.count_eq_zero_of_not_mem fun h => hk (List.mem_range.1 h)).symm

/-- Two threads load a plugin at the same time. -/
def twoLoads : List (Threads.Event Action Change) :=
  let load (i : ℕ) : List (Threads.Event Action Change) :=
    [.act i (.open .opened), .act i (.resolve true), .act i (.create (some [0])), .act i .next]
  [.act 0 (.call ⟨"p", true, 0⟩), .act 1 (.call ⟨"p", true, 0⟩), .act 0 .next, .act 1 .next,
    .act 0 .next, .act 1 .next] ++ load 0 ++ load 1 ++ [.act 1 .next]

/-- The second plugin of the two was deleted, once. -/
theorem objects_accounted_two :
    ∃ s, (system ".").run ([.spawn, .spawn] ++ twoLoads) = some s ∧ s.shared.created = 2 ∧
      s.shared.deleted = [1] ∧
      (s.shared.objects ++ s.threads.flatMap Stage.objects ++ s.shared.deleted).Perm
        (List.range s.shared.created) :=
  ⟨((system ".").run ([.spawn, .spawn] ++ twoLoads)).get (by decide), (Option.some_get _).symm,
    by decide, by decide, objects_accounted (Option.some_get _).symm⟩

/-! ## Libraries -/

/-- **How often a library is closed.** In every interleaving `dlclose` is called for a library as
often as `dlopen` has given a handle of it, less the handles that are still held, and once more for
each time when its `createPlugin` gave nothing. So the calls of `dlclose` are fewer than those of
`dlopen` exactly if `createPlugin` has given nothing less often than there are holders of the
library. This counts calls; what a call of `dlclose` does that comes too often is not said.

**Proof sketch.** The sum over the members of the manager and over all threads is the same after
every step: `dlopen` adds a call and a holder, the destructor of a loader takes the holder and adds
a call, and a load that is refused adds a call and leaves the holder. -/
theorem handles_balance (hrun : (system path).run es = some s) (file : String) :
    s.shared.closed.count file + (handlesOf s).count file =
        s.shared.opened.count file + s.shared.refused.count file ∧
      (s.shared.closed.count file < s.shared.opened.count file ↔
        s.shared.refused.count file < (handlesOf s).count file) := by
  have hsum := Program.run_sum
    (fun m => (m.opened.count file : ℤ) + m.refused.count file - m.handles.count file
      - m.closed.count file)
    (fun l => (l.handles.count file : ℤ)) (by rfl) (by rfl) ?_ ?_ hrun
  · rw [sum_count] at hsum
    simp only [handlesOf, List.count_append]
    omega
  · intro m l a m' l' h
    cases acts_of_act h with
    | «open» r path =>
      simp only [Stage.handles, Stage.loader, Shared.handles, PluginLoader.handles, List.count_cons,
        Option.toList_some, Option.toList_none, List.flatMap_singleton, List.flatMap_nil,
        List.count_nil]
      omega
    | refuse | insert | leave =>
      simp [Stage.handles, Stage.loader, Shared.handles, Shared.unload, Shared.give,
        PluginLoader.handles]
      omega
    | _ => simp [Stage.handles, Stage.loader, Shared.handles, Shared.give, PluginLoader.handles]
  · intro m e m' h
    cases changes_of_change h with
    | clear =>
      simp only [Shared.handles, Shared.clear, List.flatMap_nil, List.count_nil, List.count_append]
      omega
    | checkEmpty path =>
      rw [Shared.checkEmpty]
      split <;> rfl
    | setPluginPath path => rfl

/-- Two threads load a plugin, and the second one gets nothing from `createPlugin`. -/
def refusedLoad : List (Threads.Event Action Change) :=
  let load (i : ℕ) (interfaces : Option (List ℕ)) : List (Threads.Event Action Change) :=
    [.act i (.open .opened), .act i (.resolve true), .act i (.create interfaces), .act i .next]
  [.spawn, .spawn, .act 0 (.call ⟨"p", true, 0⟩), .act 1 (.call ⟨"p", true, 0⟩), .act 0 .next,
    .act 1 .next, .act 0 .next, .act 1 .next] ++ load 0 (some [0]) ++ load 1 none

/-- A library that is closed while a plugin of it is in use. -/
theorem handles_balance_refused :
    ∃ s, (system ".").run refusedLoad = some s ∧ s.shared.objects = [0] ∧
      handlesOf s = ["./libp.so"] ∧
      s.shared.closed.count "./libp.so" + (handlesOf s).count "./libp.so" =
        s.shared.opened.count "./libp.so" + s.shared.refused.count "./libp.so" ∧
      ¬ s.shared.closed.count "./libp.so" < s.shared.opened.count "./libp.so" :=
  ⟨((system ".").run refusedLoad).get (by decide), (Option.some_get _).symm, by decide, by decide,
    (handles_balance (Option.some_get _).symm "./libp.so").1, by decide⟩

/-! ## Results -/

/-- Calls of `clear` are left out. -/
def NoClear (_ : Threads.State Shared Stage) (e : Threads.Event Action Change) : Prop :=
  e ≠ .env .clear

instance : ∀ s e, Decidable (NoClear s e)
  | _, .env .clear => isFalse fun h => h rfl
  | _, .env (.checkEmpty _) => isTrue fun h => nomatch h
  | _, .env (.setPluginPath _) => isTrue fun h => nomatch h
  | _, .act .. => isTrue fun h => nomatch h
  | _, .spawn => isTrue fun h => nomatch h

/-- The results that were added to the first ones are plugins in the map. -/
def Installed (first : List (String × PluginBase)) (m : Shared) : Prop :=
  ∃ given, m.returned = given ++ first ∧
    ∀ e ∈ given, ∃ l, m.plugins.lookup e.1 = some l ∧ l.plugin = some e.2

/-- A result is a plugin of the loader. -/
lemma plugin_of_instance {l : PluginLoader} {interface : ℕ} {p : PluginBase}
    (h : p ∈ (l.instance interface).toList) : l.plugin = some p := by
  rw [Option.mem_toList, PluginLoader.instance, Option.filter_eq_some_iff] at h
  exact h.1

/-- A result of a loader in the map. -/
lemma installed_give {first : List (String × PluginBase)} {m : Shared} (h : Installed first m)
    {r : Request} {l : PluginLoader} (hl : m.plugins.lookup r.pluginname = some l) :
    Installed first (m.give r (l.instance r.interface)) := by
  obtain ⟨given, hgiven, hin⟩ := h
  refine ⟨((l.instance r.interface).toList.map fun p => (r.pluginname, p)) ++ given, ?_, ?_⟩
  · rw [Shared.give, hgiven, List.append_assoc]
  · intro e he
    rcases List.mem_append.1 he with he | he
    · obtain ⟨p, hp, rfl⟩ := List.mem_map.1 he
      exact ⟨l, hl, plugin_of_instance hp⟩
    · exact hin e he

/-- A name that is not in the map is added. -/
lemma installed_insert {first : List (String × PluginBase)} {m : Shared} (h : Installed first m)
    {name : String} (hname : m.plugins.lookup name = none) (l : PluginLoader) :
    Installed first { m with plugins := (name, l) :: m.plugins } := by
  obtain ⟨given, hgiven, hin⟩ := h
  refine ⟨given, hgiven, fun e he => ?_⟩
  obtain ⟨l', hl', hp⟩ := hin e he
  refine ⟨l', ?_, hp⟩
  have hne : e.1 ≠ name := by
    rintro rfl
    rw [hname] at hl'
    exact absurd hl' (by simp)
  rw [List.lookup_cons, beq_eq_false_iff_ne.2 hne, hl']

/-- A step that is not `clear`. -/
lemma installed_step {first : List (String × PluginBase)} {t : Threads.State Shared Stage}
    {e : Threads.Event Action Change} (h : Installed first s.shared) (hclear : NoClear s e)
    (hstep : program.step s e = some t) : Installed first t.shared := by
  cases Program.steps_of_step hstep with
  | spawn => exact h
  | act hl ha =>
    cases acts_of_act ha with
    | found hlookup => exact installed_give h hlookup
    | reuse hlookup l => exact installed_give h hlookup
    | @insert r hlookup l =>
      exact installed_give (installed_insert h hlookup l) (List.lookup_cons_self)
    | _ => exact h
  | env he =>
    cases changes_of_change he with
    | clear => exact absurd rfl hclear
    | checkEmpty path =>
      rw [Shared.checkEmpty]
      split <;> exact h
    | setPluginPath path => exact h

/-- **The results between two calls of `clear`.** In every interleaving, from any state that can be
reached on, the plugins that are returned for one name while nothing clears the map are one and the
same plugin, which is in the map and has not been deleted, although any number of threads may have
loaded and deleted plugins of their own for this name.

**Proof sketch.** While nothing clears the map, what was returned for a name is the plugin that is
installed for it (`Installed`), and an installed plugin is replaced by none. One name has one
entry. -/
theorem plugins_agree (hpast : (system path).run past = some s₀)
    (hrun : (system path).runFrom s₀ es = some s) (hclear : (system path).AlongFrom NoClear s₀ es) :
    ∃ given, s.shared.returned = given ++ s₀.shared.returned ∧
      ∀ name p, (name, p) ∈ given → p.id ∈ s.shared.objects ∧ p.id ∉ s.shared.deleted ∧
        ∀ q, (name, q) ∈ given → q = p := by
  have hwhole : (system path).run (past ++ es) = some s := by
    rw [System.run, System.runFrom_append]
    change ((system path).run past).bind _ = _
    rw [hpast]
    exact hrun
  obtain ⟨given, hgiven, hin⟩ : Installed s₀.shared.returned s.shared :=
    System.runFrom_invariant_along (I := fun s => Installed s₀.shared.returned s.shared)
      (fun s e t h hC hst => installed_step h hC hst) ⟨[], rfl, by simp⟩ hclear hrun
  refine ⟨given, hgiven, fun name p hp => ?_⟩
  obtain ⟨l, hl, hplugin⟩ := hin _ hp
  have hmem : p.id ∈ s.shared.objects := by
    obtain ⟨l₁, l₂, hsplit, -⟩ := List.lookup_eq_some_iff.1 hl
    refine List.mem_flatMap.2 ⟨(name, l), ?_, ?_⟩
    · rw [hsplit]
      exact List.mem_append_right _ (List.mem_cons_self ..)
    · simp [PluginLoader.objects, hplugin]
  refine ⟨hmem, fun hdeleted => ?_, fun q hq => ?_⟩
  · have hone := count_objects hwhole p.id
    have h1 := List.count_pos_iff.2 hmem
    have h2 := List.count_pos_iff.2 hdeleted
    rw [made] at hone
    split at hone <;> omega
  · obtain ⟨l', hl', hplugin'⟩ := hin _ hq
    rw [hl] at hl'
    obtain rfl := Option.some.inj hl'
    exact Option.some.inj (hplugin'.symm.trans hplugin)

/-- Both get the plugin of the first one, and the other one is deleted. -/
theorem plugins_agree_two :
    ∃ s, (system ".").runFrom ⟨.init ".", [.idle, .idle]⟩ twoLoads = some s ∧
      s.shared.returned = [("p", ⟨0, [0]⟩), ("p", ⟨0, [0]⟩)] ∧ s.shared.deleted = [1] ∧
      ∃ given, s.shared.returned = given ++ [] ∧
        ∀ name p, (name, p) ∈ given → p.id ∈ s.shared.objects ∧ p.id ∉ s.shared.deleted ∧
          ∀ q, (name, q) ∈ given → q = p :=
  ⟨((system ".").runFrom ⟨.init ".", [.idle, .idle]⟩ twoLoads).get (by decide),
    (Option.some_get _).symm, by decide, by decide,
    plugins_agree (show (system ".").run [.spawn, .spawn] = _ from rfl) (Option.some_get _).symm
      (by decide)⟩

end HkuUtils.Plugin
