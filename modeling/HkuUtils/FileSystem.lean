import Mathlib.Data.List.Induction
import Mathlib.Data.List.Nodup
import Mathlib.Data.Nat.Notation

set_option relaxedAutoImplicit false
set_option autoImplicit false

/-!
# File systems with symbolic links

A disk lists its entries with their locations, the names from the root down. A path is a list of
steps, and the walk along it follows the links it meets, up to a number of them. What the walk
reaches stays within reach when entries are added to the disk.

## Main definitions

* `FileSystem.Step`, `Entry`, `Disk` — paths, and what is at a location.
* `FileSystem.resolve` — the location a path leads to.
* `FileSystem.prune`, `clear` — a disk without the trees at some locations, and with a directory
  emptied.
* `FileSystem.WellFormed` — every entry is in a directory.

## Main results

* `FileSystem.resolve_mono` — a path leads where it leads in a part of the disk.
* `FileSystem.resolve_concat` — the walk to an entry of the directory a path leads to.
* `FileSystem.prune_names` — a directory without its entries is an emptied directory.

## Design

The order of the list is the order in which a directory is read. The root directory has no entry of
its own: it is at the location without names.
-/

namespace FileSystem

variable {N D : Type}

/-- A step of a path. -/
inductive Step (N : Type) where
  | root
  | here
  | up
  | name (n : N)
  deriving DecidableEq

/-- What is at a location. A relative link starts in the directory it is in. -/
inductive Entry (N D : Type) where
  | file (data : D)
  | link (target : List (Step N))
  | dir
  deriving DecidableEq

/-- The entries of a disk, with their locations. -/
abbrev Disk (N D : Type) : Type := List (List N × Entry N D)

variable [DecidableEq N]

/-- The entry at a location. -/
def entry (fs : Disk N D) (loc : List N) : Option (Entry N D) :=
  if loc = [] then some .dir else fs.lookup loc

/-- The location is one of a directory. -/
def isDir (fs : Disk N D) (loc : List N) : Bool :=
  match entry fs loc with
  | some .dir => true
  | _ => false

/-- The names in a directory, in the order of the disk. -/
def names (fs : Disk N D) (c : List N) : List N :=
  fs.filterMap fun e => if e.1.dropLast = c then e.1.getLast? else none

/-- The disk without one entry. -/
def erase (fs : Disk N D) (loc : List N) : Disk N D := fs.filter fun e => e.1 != loc

/-- The disk without the trees at some locations. -/
def prune (fs : Disk N D) (locs : List (List N)) : Disk N D :=
  fs.filter fun e => locs.all fun loc => !loc.isPrefixOf e.1

/-- The disk with a directory emptied. -/
def clear (fs : Disk N D) (c : List N) : Disk N D :=
  fs.filter fun e => !c.isPrefixOf e.1 || e.1 == c

/-- The entry that a step leads to: another location, or the target of a link. -/
def leadsTo (loc : List N) : Entry N D → List N ⊕ List (Step N)
  | .link target => .inr target
  | .file _ | .dir => .inl loc

/-- One step from a location. -/
def move (fs : Disk N D) (cur : List N) : Step N → Option (List N ⊕ List (Step N))
  | .root => some (.inl [])
  | .here => if isDir fs cur then some (.inl cur) else none
  | .up => if isDir fs cur then some (.inl cur.dropLast) else none
  | .name n => (entry fs (cur ++ [n])).map (leadsTo (cur ++ [n]))

/-- The walk along a path, with `follow` for what comes after a link. -/
def walk (fs : Disk N D) (follow : List N → List (Step N) → Option (List N)) :
    List N → List (Step N) → Option (List N)
  | cur, [] => some cur
  | cur, step :: path =>
    match move fs cur step with
    | none => none
    | some (.inl loc) => walk fs follow loc path
    | some (.inr target) => follow cur (target ++ path)

/-- The location that a path leads to, over at most so many links. -/
def resolve (fs : Disk N D) : ℕ → List N → List (Step N) → Option (List N)
  | 0 => walk fs fun _ _ => none
  | links + 1 => walk fs (resolve fs links)

/-- No location is taken twice, and every entry is in a directory. -/
structure WellFormed (fs : Disk N D) : Prop where
  nodup : (fs.map Prod.fst).Nodup
  parent : ∀ c n x, (c ++ [n], x) ∈ fs → entry fs c = some .dir
  root : ∀ e ∈ fs, e.1 ≠ []

/-- Nothing is below the location. -/
def Leaf (fs : Disk N D) (loc : List N) : Prop := ∀ e ∈ fs, loc <+: e.1 → e.1 = loc

/-! ## Entries -/

/-- A directory is an entry that is one; the root is always there. -/
lemma isDir_iff {fs : Disk N D} {loc : List N} :
    isDir fs loc = true ↔ entry fs loc = some .dir := by
  unfold isDir
  split <;> simp_all

/-- What is to be looked at for a disk that is given. -/
lemma wellFormed_of_all {fs : Disk N D} (hnodup : (fs.map Prod.fst).Nodup)
    (hall : ∀ e ∈ fs, e.1 ≠ [] ∧ isDir fs e.1.dropLast = true) : WellFormed fs where
  nodup := hnodup
  parent := by
    intro c n x h
    have hdir := (hall _ h).2
    rw [List.dropLast_concat] at hdir
    exact isDir_iff.mp hdir
  root := by
    intro e he
    exact (hall e he).1

/-- An entry of the disk, if it is not the root, is stored. -/
lemma mem_of_entry {fs : Disk N D} {loc : List N} {x : Entry N D} (h : entry fs loc = some x)
    (hne : loc ≠ []) : (loc, x) ∈ fs := by
  rw [entry, if_neg hne] at h
  obtain ⟨before, after, rfl, -⟩ := List.lookup_eq_some_iff.mp h
  simp

/-- What is stored is found if no place is stored twice. -/
lemma lookup_of_mem {fs : Disk N D} (hnodup : (fs.map Prod.fst).Nodup) {loc : List N}
    {x : Entry N D} (h : (loc, x) ∈ fs) : fs.lookup loc = some x := by
  rw [List.lookup_eq_some_iff]
  obtain ⟨before, after, rfl⟩ := List.append_of_mem h
  refine ⟨before, after, rfl, ?_⟩
  intro e he
  rw [List.map_append, List.map_cons, List.nodup_middle, List.nodup_cons] at hnodup
  rw [bne_iff_ne]
  intro heq
  exact hnodup.1 (List.mem_append_left _ (List.mem_map.mpr ⟨e, he, heq.symm⟩))

/-- What is stored on a well-formed disk is the entry at its place. -/
lemma entry_of_mem {fs : Disk N D} (wf : WellFormed fs) {loc : List N} {x : Entry N D}
    (h : (loc, x) ∈ fs) : entry fs loc = some x := by
  rw [entry, if_neg (wf.root _ h)]
  exact lookup_of_mem wf.nodup h

/-- An entry of a part of the disk is an entry of the disk. -/
lemma entry_mono {part fs : Disk N D} (wf : WellFormed fs) (hsub : part ⊆ fs) {loc : List N}
    {x : Entry N D} (h : entry part loc = some x) : entry fs loc = some x := by
  by_cases hne : loc = []
  · rw [entry, if_pos hne] at h ⊢
    exact h
  · exact entry_of_mem wf (hsub (mem_of_entry h hne))

/-- The names in a directory are those of the entries one below it. -/
lemma mem_names {fs : Disk N D} {c : List N} {n : N} :
    n ∈ names fs c ↔ ∃ x, (c ++ [n], x) ∈ fs := by
  rw [names, List.mem_filterMap]
  constructor
  · rintro ⟨⟨loc, x⟩, he, hn⟩
    split_ifs at hn with hc
    refine ⟨x, ?_⟩
    obtain ⟨front, rfl⟩ := List.getLast?_eq_some_iff.mp hn
    simp only [List.dropLast_concat] at hc
    rwa [← hc]
  · rintro ⟨x, he⟩
    exact ⟨_, he, by simp⟩

/-- No name occurs twice in a directory. -/
lemma nodup_names {fs : Disk N D} (wf : WellFormed fs) (c : List N) : (names fs c).Nodup := by
  have hkeys : names fs c =
      (fs.map Prod.fst).filterMap fun loc => if loc.dropLast = c then loc.getLast? else none := by
    rw [names, List.filterMap_map]
    rfl
  rw [hkeys]
  refine wf.nodup.filterMap ?_
  intro loc loc' n hn hn'
  simp only [Option.mem_def] at hn hn'
  split_ifs at hn hn' with hc hc'
  obtain ⟨front, rfl⟩ := List.getLast?_eq_some_iff.mp hn
  obtain ⟨front', rfl⟩ := List.getLast?_eq_some_iff.mp hn'
  simp_all

omit [DecidableEq N] in
/-- A disk has entries down to some depth only. -/
lemma exists_depth (fs : Disk N D) : ∃ depth, ∀ e ∈ fs, e.1.length ≤ depth := by
  induction fs with
  | nil => exact ⟨0, by simp⟩
  | cons e fs ih =>
    obtain ⟨depth, hdepth⟩ := ih
    refine ⟨max e.1.length depth, ?_⟩
    intro e' he'
    rcases List.mem_cons.mp he' with rfl | hmem
    · exact Nat.le_max_left _ _
    · exact Nat.le_trans (hdepth e' hmem) (Nat.le_max_right _ _)

/-! ## Parts of a disk -/

/-- What is left of a disk when some places are removed with all below them. -/
@[simp] lemma mem_prune {fs : Disk N D} {locs : List (List N)} {e : List N × Entry N D} :
    e ∈ prune fs locs ↔ e ∈ fs ∧ ∀ loc ∈ locs, ¬ loc <+: e.1 := by
  simp [prune, List.isPrefixOf_iff_prefix, ← Bool.not_eq_true]

/-- What is left of a disk when a directory is emptied: the directory itself, and all that is not
below it. -/
@[simp] lemma mem_clear {fs : Disk N D} {c : List N} {e : List N × Entry N D} :
    e ∈ clear fs c ↔ e ∈ fs ∧ (c <+: e.1 → e.1 = c) := by
  simp [clear, List.isPrefixOf_iff_prefix, ← Bool.not_eq_true, imp_iff_not_or]

/-- Nothing is removed. -/
@[simp] lemma prune_nil (fs : Disk N D) : prune fs [] = fs := by
  simp [prune]

/-- Places are removed one after the other or all at once. -/
lemma prune_prune (fs : Disk N D) (locs locs' : List (List N)) :
    prune (prune fs locs) locs' = prune fs (locs ++ locs') := by
  simp only [prune, List.filter_filter, List.all_append, Bool.and_comm]

/-- Above every entry there are directories only. -/
lemma entry_above {fs : Disk N D} (wf : WellFormed fs) {c rest : List N} {x : Entry N D}
    (h : (c ++ rest, x) ∈ fs) (hne : rest ≠ []) : entry fs c = some .dir := by
  induction rest using List.reverseRecOn generalizing x with
  | nil => exact absurd rfl hne
  | append_singleton rest n ih =>
    rw [← List.append_assoc] at h
    have hparent := wf.parent _ _ _ h
    by_cases hrest : rest = []
    · rw [hrest, List.append_nil] at hparent
      exact hparent
    · exact ih (mem_of_entry hparent (by simp [hrest])) hrest

/-- An entry below a directory is at or below one of its entries. -/
lemma exists_name {fs : Disk N D} (wf : WellFormed fs) {c : List N} {e : List N × Entry N D}
    (he : e ∈ fs) (hc : c <+: e.1) (hne : e.1 ≠ c) : ∃ n ∈ names fs c, c ++ [n] <+: e.1 := by
  obtain ⟨loc, x⟩ := e
  obtain ⟨rest, rfl⟩ := hc
  cases rest with
  | nil => simp at hne
  | cons n rest =>
    refine ⟨n, mem_names.mpr ?_, ⟨rest, by simp⟩⟩
    by_cases hrest : rest = []
    · subst hrest
      exact ⟨x, he⟩
    · have hsplit : c ++ n :: rest = (c ++ [n]) ++ rest := by simp
      rw [hsplit] at he
      exact ⟨.dir, mem_of_entry (entry_above wf he hrest) (by simp)⟩

/-- **A directory without its entries is an emptied directory.**

**Proof sketch.** An entry that stays is not strictly below the directory, for otherwise the first
step to it would be one of the names. Conversely, what is below a name is longer than the path of
the directory. -/
theorem prune_names {fs : Disk N D} (wf : WellFormed fs) (c : List N) :
    prune fs ((names fs c).map fun n => c ++ [n]) = clear fs c := by
  apply List.filter_congr
  intro e he
  rw [Bool.eq_iff_iff]
  simp only [List.all_map, List.all_eq_true, Function.comp_apply, Bool.not_eq_eq_eq_not,
    Bool.not_true, Bool.or_eq_true, beq_iff_eq, ← Bool.not_eq_true, List.isPrefixOf_iff_prefix]
  constructor
  · intro hnot
    by_contra hcon
    push Not at hcon
    obtain ⟨n, hn, hbelow⟩ := exists_name wf he hcon.1 hcon.2
    exact hnot n hn hbelow
  · rintro (hnot | rfl) n - hbelow
    · exact hnot ((List.prefix_append c [n]).trans hbelow)
    · have hle := hbelow.length_le
      simp only [List.length_append, List.length_singleton] at hle
      omega

/-- A well-formed disk stays well-formed when places are removed with all below them.

The parent of an entry that stays has to stay too.

**Proof sketch.** A place that removes the parent would remove the entry, since it is below. -/
lemma wellFormed_prune {fs : Disk N D} (wf : WellFormed fs) (locs : List (List N)) :
    WellFormed (prune fs locs) where
  nodup := wf.nodup.sublist ((List.filter_sublist).map _)
  parent := by
    intro c n x h
    rw [mem_prune] at h
    by_cases hc : c = []
    · rw [entry, if_pos hc]
    have hmem := mem_of_entry (wf.parent c n x h.1) hc
    rw [entry, if_neg hc]
    have hkeep : (c, Entry.dir) ∈ prune fs locs := by
      rw [mem_prune]
      refine ⟨hmem, ?_⟩
      intro loc hloc hbelow
      exact h.2 loc hloc (hbelow.trans (List.prefix_append c [n]))
    exact lookup_of_mem (wf.nodup.sublist (List.filter_sublist.map _)) hkeep
  root := by
    intro e he
    exact wf.root e (mem_prune.mp he).1

/-- A well-formed disk stays well-formed when a directory is emptied. -/
lemma wellFormed_clear {fs : Disk N D} (wf : WellFormed fs) (c : List N) :
    WellFormed (clear fs c) := by
  rw [← prune_names wf c]
  exact wellFormed_prune wf _

/-- Removing adds nothing. -/
lemma prune_subset (fs : Disk N D) (locs : List (List N)) : prune fs locs ⊆ fs :=
  List.filter_sublist.subset

/-- Emptying a directory adds nothing. -/
lemma clear_subset (fs : Disk N D) (c : List N) : clear fs c ⊆ fs :=
  List.filter_sublist.subset

/-- An emptied directory has no names. -/
lemma names_clear {fs : Disk N D} (c : List N) : names (clear fs c) c = [] := by
  apply List.eq_nil_iff_forall_not_mem.mpr
  intro n hn
  obtain ⟨x, hx⟩ := mem_names.mp hn
  have heq := (mem_clear.mp hx).2 (List.prefix_append c [n])
  simp at heq

/-- Where nothing is below an entry, the entry is its tree. -/
lemma erase_eq_prune {fs : Disk N D} {c : List N} (h : Leaf fs c) : erase fs c = prune fs [c] := by
  apply List.filter_congr
  intro e he
  rw [Bool.eq_iff_iff]
  simp only [List.all_cons, List.all_nil, Bool.and_true, bne_iff_ne, Bool.not_eq_eq_eq_not,
    Bool.not_true, ← Bool.not_eq_true, List.isPrefixOf_iff_prefix]
  constructor
  · intro hne hbelow
    exact hne (h e he hbelow)
  · intro hnot heq
    exact hnot (heq ▸ List.prefix_refl _)

/-- Nothing is below an entry that is not a directory. -/
lemma leaf_of_entry {fs : Disk N D} (wf : WellFormed fs) {c : List N} {x : Entry N D}
    (h : (c, x) ∈ fs) (hx : x ≠ .dir) : Leaf fs c := by
  rintro ⟨loc, y⟩ he ⟨rest, rfl⟩
  by_contra hne
  have hdir := entry_above wf he (by simpa using hne)
  rw [entry_of_mem wf h] at hdir
  exact hx (Option.some.inj hdir)

/-- Nothing is below a directory without entries. -/
lemma leaf_of_names {fs : Disk N D} (wf : WellFormed fs) {c : List N} (h : names fs c = []) :
    Leaf fs c := by
  intro e he hbelow
  by_contra hne
  obtain ⟨n, hn, -⟩ := exists_name wf he hbelow hne
  rw [h] at hn
  cases hn

/-- To empty a directory and to remove it is to remove its tree. -/
lemma erase_clear {fs : Disk N D} (c : List N) : erase (clear fs c) c = prune fs [c] := by
  have hprune : prune (clear fs c) [c] = prune fs [c] := by
    simp only [prune, clear, List.filter_filter]
    apply List.filter_congr
    intro e he
    cases hp : c.isPrefixOf e.1 <;> simp [hp]
  rw [← hprune]
  apply erase_eq_prune
  intro e he
  exact (mem_clear.mp he).2

/-! ## Paths -/

/-- **A step on a part of a disk** leads where it leads on the whole disk: what is a directory or
an entry of the part is one of the whole.

**Proof sketch.** One case for each step; only a name looks up an entry, and this is one of the
whole. -/
lemma move_mono {part fs : Disk N D} (wf : WellFormed fs) (hsub : part ⊆ fs) {cur : List N}
    {step : Step N} {x : List N ⊕ List (Step N)} (h : move part cur step = some x) :
    move fs cur step = some x := by
  have hdir : isDir part cur = true → isDir fs cur = true := by
    intro hdir
    exact isDir_iff.mpr (entry_mono wf hsub (isDir_iff.mp hdir))
  cases step with
  | root => exact h
  | here =>
    rw [move] at h ⊢
    split_ifs at h with hpart
    rw [if_pos (hdir hpart)]
    exact h
  | up =>
    rw [move] at h ⊢
    split_ifs at h with hpart
    rw [if_pos (hdir hpart)]
    exact h
  | name n =>
    obtain ⟨y, hy, rfl⟩ := Option.map_eq_some_iff.mp h
    rw [move, entry_mono wf hsub hy, Option.map_some]

/-- A step that is a name, without a link there. -/
lemma move_name {fs : Disk N D} {cur : List N} {n : N} {x : Entry N D}
    (hentry : entry fs (cur ++ [n]) = some x) (hx : ∀ target, x ≠ .link target) :
    move fs cur (.name n) = some (.inl (cur ++ [n])) := by
  rw [move, hentry]
  cases x with
  | file data => rfl
  | dir => rfl
  | link target => exact absurd rfl (hx target)

/-- Where there are no links, no step leads to one.

**Proof sketch.** One case for each step; only a name can lead to a link, and there is none. -/
lemma move_ne_link {fs : Disk N D} (hlinks : ∀ loc target, (loc, .link target) ∉ fs)
    {cur : List N} {step : Step N} {target : List (Step N)} :
    move fs cur step ≠ some (.inr target) := by
  intro h
  cases step with
  | root => cases h
  | here =>
    rw [move] at h
    split_ifs at h
    cases h
  | up =>
    rw [move] at h
    split_ifs at h
    cases h
  | name n =>
    obtain ⟨y, hy, hlead⟩ := Option.map_eq_some_iff.mp h
    cases y with
    | file data => cases hlead
    | dir => cases hlead
    | link target' => exact hlinks _ _ (mem_of_entry hy (by simp))

/-- A walk on a part of a disk that arrives, arrives at the same place on the whole disk, if this
holds of the links that it follows.

**Proof sketch.** By induction on the path. A step that succeeds on the part gives the same on the
whole, and a link is followed by the hypothesis. -/
lemma walk_mono {part fs : Disk N D} (wf : WellFormed fs) (hsub : part ⊆ fs)
    {follow follow' : List N → List (Step N) → Option (List N)}
    (hfollow : ∀ cur path loc, follow cur path = some loc → follow' cur path = some loc)
    (path : List (Step N)) (cur loc : List N) (h : walk part follow cur path = some loc) :
    walk fs follow' cur path = some loc := by
  induction path generalizing cur with
  | nil => exact h
  | cons step path ih =>
    rw [walk] at h ⊢
    cases hmove : move part cur step with
    | none =>
      rw [hmove] at h
      cases h
    | some x =>
      rw [hmove] at h
      rw [move_mono wf hsub hmove]
      cases x with
      | inl next => exact ih next h
      | inr target => exact hfollow _ _ _ h

/-- **A path leads where it leads in a part of the disk.** -/
theorem resolve_mono {part fs : Disk N D} (wf : WellFormed fs) (hsub : part ⊆ fs) (links : ℕ)
    (cur : List N) (path : List (Step N)) (loc : List N)
    (h : resolve part links cur path = some loc) : resolve fs links cur path = some loc := by
  induction links generalizing cur path loc with
  | zero => exact walk_mono wf hsub (fun _ _ _ h => h) path cur loc h
  | succ links ih => exact walk_mono wf hsub ih path cur loc h

/-- A walk that arrives in a directory goes on by a name in it, if the entry is no link.

**Proof sketch.** By induction on the steps. Where a link is met the rest of the path is handed to
`follow`, which is assumed to go on in the same way. -/
lemma walk_concat {fs : Disk N D} {q : List N} {n : N} {x : Entry N D}
    (hentry : entry fs (q ++ [n]) = some x) (hx : ∀ target, x ≠ .link target)
    {follow : List N → List (Step N) → Option (List N)}
    (hfollow : ∀ cur path, follow cur path = some q →
      follow cur (path ++ [.name n]) = some (q ++ [n]))
    (path : List (Step N)) (cur : List N) (h : walk fs follow cur path = some q) :
    walk fs follow cur (path ++ [.name n]) = some (q ++ [n]) := by
  induction path generalizing cur with
  | nil =>
    have hcur : cur = q := Option.some.inj h
    rw [hcur, List.nil_append, walk, move_name hentry hx]
    rfl
  | cons step path ih =>
    rw [List.cons_append]
    rw [walk] at h ⊢
    cases hmove : move fs cur step with
    | none =>
      rw [hmove] at h
      cases h
    | some y =>
      rw [hmove] at h
      cases y with
      | inl next => exact ih next h
      | inr target =>
        simp only [← List.append_assoc]
        exact hfollow _ _ h

/-- **The walk to an entry of the directory a path leads to.** -/
theorem resolve_concat {fs : Disk N D} {q : List N} {n : N} {x : Entry N D}
    (hentry : entry fs (q ++ [n]) = some x) (hx : ∀ target, x ≠ .link target) (links : ℕ)
    (cur : List N) (path : List (Step N)) (h : resolve fs links cur path = some q) :
    resolve fs links cur (path ++ [.name n]) = some (q ++ [n]) := by
  induction links generalizing cur path with
  | zero => exact walk_concat hentry hx (fun _ _ h => by cases h) path cur h
  | succ links ih => exact walk_concat hentry hx ih path cur h

/-- Where there are no links, a walk whose last step is a name has passed the directory of that
name before.

**Proof sketch.** By induction on the steps: none of them meets a link, so the walk is the walk of
its front and the last step. -/
lemma walk_split {fs : Disk N D} (hlinks : ∀ loc target, (loc, .link target) ∉ fs)
    {follow : List N → List (Step N) → Option (List N)} {n : N} {loc : List N}
    (path : List (Step N)) (cur : List N)
    (h : walk fs follow cur (path ++ [.name n]) = some loc) :
    ∃ q, walk fs follow cur path = some q ∧ loc = q ++ [n] := by
  induction path generalizing cur with
  | nil =>
    rw [List.nil_append, walk] at h
    cases hentry : entry fs (cur ++ [n]) with
    | none =>
      rw [move, hentry] at h
      cases h
    | some y =>
      have hy : ∀ target, y ≠ .link target := by
        rintro target rfl
        exact hlinks _ _ (mem_of_entry hentry (by simp))
      rw [move_name hentry hy] at h
      exact ⟨cur, rfl, (Option.some.inj h).symm⟩
  | cons step path ih =>
    rw [List.cons_append] at h
    rw [walk] at h ⊢
    cases hmove : move fs cur step with
    | none =>
      rw [hmove] at h
      cases h
    | some y =>
      rw [hmove] at h
      cases y with
      | inl next => exact ih next h
      | inr target => exact absurd hmove (move_ne_link hlinks)

/-- Without links, a path that ends in a name leads to the entry of that name. -/
lemma resolve_split {fs : Disk N D} (hlinks : ∀ loc target, (loc, .link target) ∉ fs) {n : N}
    {loc : List N} (links : ℕ) (cur : List N) (path : List (Step N))
    (h : resolve fs links cur (path ++ [.name n]) = some loc) :
    ∃ q, resolve fs links cur path = some q ∧ loc = q ++ [n] := by
  cases links with
  | zero => exact walk_split hlinks path cur h
  | succ links => exact walk_split hlinks path cur h

end FileSystem
