import HkuUtils.FileSystem

set_option relaxedAutoImplicit false
set_option autoImplicit false

/-!
# Removal of a directory

`removeDir` reads the entries of a directory, calls itself for those that `stat` takes for
directories, removes the others and then the directory. `stat` follows links and its outcome is not
looked at, so that a link to a directory is entered, and so that what it leads to is removed.

## Main definitions

* `HkuUtils.Os.parse` — the steps of a path.
* `HkuUtils.Os.removeDir` — the function.
* `HkuUtils.Os.atTurn` — the disk when the turn of an entry comes.
* `HkuUtils.Os.Lasting`, `Inside` — the condition.

## Main results

* `HkuUtils.Os.visit_turn` — the loop removes the tree of the entry whose turn it is.
* `HkuUtils.Os.removeDir_eq_prune` — under the condition the tree of the directory is removed, and
  nothing else.

## Design

The recursion takes its depth as fuel, and the path is not empty. A directory is read as it is when
it is opened. The calls of the system are those of Linux: a path with a slash at its end is the path
without it for `rmdir`, which refuses links, directories with entries, and paths that end in `.` or
`..`. Nothing else makes a removal fail.
-/

namespace HkuUtils.Os

open FileSystem

variable {D : Type}

/-! ## Paths -/

/-- A name of an entry. -/
abbrev Name : Type := {n : List Char // n ≠ [] ∧ '/' ∉ n ∧ n ≠ ['.'] ∧ n ≠ ['.', '.']}

/-- The step that a part of a path stands for. -/
def readStep (part : List Char) : Step Name :=
  if h : part ≠ [] ∧ '/' ∉ part ∧ part ≠ ['.'] ∧ part ≠ ['.', '.'] then .name ⟨part, h⟩
  else if part = ['.', '.'] then .up
  else .here

/-- The steps of a path. -/
def parse (path : List Char) : List (Step Name) :=
  (if path.head? = some '/' then [.root] else []) ++
    ((path.splitOn '/').filter fun part => part ≠ []).map readStep

/-! ## The system -/

/-- The process, and what `removeDir` reads where `stat` fails. -/
structure System where
  cwd : List Name
  /-- The number of links that the walk along one path follows. -/
  maxLinks : ℕ
  /-- `S_ISDIR` of the `st` that a failed `stat` leaves as it was. -/
  stale : List Char → Bool

variable (s : System)

/-- `stat`, and `S_ISDIR` of what it leaves in `st`. -/
def statIsDir (fs : Disk Name D) (path : List Char) : Bool :=
  match resolve fs s.maxLinks s.cwd (parse path) with
  | none => s.stale path
  | some loc => isDir fs loc

/-- `opendir`, and the names that `readdir` returns one after the other. -/
def readDir (fs : Disk Name D) (path : List Char) : Option (List (List Char)) :=
  match resolve fs s.maxLinks s.cwd (parse path) with
  | none => none
  | some loc =>
    if isDir fs loc then some (['.'] :: ['.', '.'] :: (names fs loc).map Subtype.val) else none

/-- The location of the entry that a path names, without following it. -/
def locate (fs : Disk Name D) (path : List Char) : Option (List Name) :=
  match (parse path).getLast? with
  | some (.name n) =>
    (resolve fs s.maxLinks s.cwd (parse path).dropLast).map fun q => q ++ [n]
  | _ => none

/-- `rmdir`. -/
def rmdir (fs : Disk Name D) (path : List Char) : Bool × Disk Name D :=
  match locate s fs path with
  | none => (false, fs)
  | some loc =>
    if isDir fs loc && (names fs loc).isEmpty then (true, erase fs loc) else (false, fs)

/-- `std::remove`. -/
def remove (fs : Disk Name D) (path : List Char) : Disk Name D :=
  match locate s fs path with
  | none => fs
  | some loc =>
    match entry fs loc with
    | none => fs
    | some .dir => (rmdir s fs path).2
    | some _ => erase fs loc

/-! ## The function -/

/-- The path with a separator at its end. -/
def slashed (path : List Char) : List Char :=
  if path.getLast? ≠ some '\\' ∧ path.getLast? ≠ some '/' then path ++ ['/'] else path

/-- The loop for one name that `readdir` returns. -/
def visit (enter : Disk Name D → List Char → Option (Bool × Disk Name D)) (strPath : List Char)
    (fs : Disk Name D) (d_name : List Char) : Option (Disk Name D) :=
  if d_name = ['.', '.'] ∨ d_name = ['.'] then some fs
  else if statIsDir s fs (strPath ++ d_name) then
    (enter fs (strPath ++ d_name)).map Prod.snd
  else some (remove s fs (strPath ++ d_name))

/-- `removeDir`. -/
def removeDir : ℕ → Disk Name D → List Char → Option (Bool × Disk Name D)
  | 0, _, _ => none
  | fuel + 1, fs, path =>
    match readDir s fs (slashed path) with
    | none => some (rmdir s fs (slashed path))
    | some listing =>
      (listing.foldlM (visit s (removeDir fuel) (slashed path)) fs).map fun fs =>
        rmdir s fs (slashed path)

/-! ## The condition -/

/-- The path by which the function names an entry below a directory. -/
def join (path : List Char) (rel : List Name) : List Char :=
  rel.foldl (fun path n => slashed path ++ n.val) path

/-- The disk when the turn of an entry below a directory comes: what is listed before it, and before
the directories above it, has been removed. -/
def atTurn (fs : Disk Name D) (c : List Name) : List Name → Disk Name D
  | [] => fs
  | n :: rel =>
    atTurn (prune fs (((names fs c).takeWhile fun m => m ≠ n).map fun m => c ++ [m])) (c ++ [n]) rel

/-- The path ends in the name of the directory, and leads to it when the directory is empty. -/
def Lasting (fs : Disk Name D) (path : List Char) (d : List Name) : Prop :=
  ∃ steps q n, parse path = steps ++ [.name n] ∧ d = q ++ [n] ∧
    resolve (clear fs d) s.maxLinks s.cwd steps = some q

/-- **The condition.** No directory with entries is named by a path that ends in a backslash, and no
link is taken for a directory when its turn comes. -/
structure Inside (fs : Disk Name D) (path : List Char) (d : List Name) : Prop where
  backslash : ∀ rel n x, (d ++ rel ++ [n], x) ∈ fs → (join path rel).getLast? ≠ some '\\'
  links : ∀ rel target, (d ++ rel, .link target) ∈ fs →
    statIsDir s (atTurn fs d rel) (join path rel) = false

variable {s}

/-! ## What the paths lead to -/

/-- A name is a step to the entry of this name. -/
lemma readStep_name (n : Name) : readStep n.val = .name n := by
  rw [readStep, dif_pos n.property]

/-- A slash at its end changes nothing in a path. -/
lemma parse_slash {path : List Char} (hne : path ≠ []) : parse (path ++ ['/']) = parse path := by
  simp [parse, List.splitOn_append_cons_self, List.head?_append_of_ne_nil _ hne]

/-- A name after a slash is one more step. -/
lemma parse_concat (path : List Char) (n : Name) :
    parse (path ++ '/' :: n.val) = parse (path ++ ['/']) ++ [.name n] := by
  have hsplit : n.val.splitOn '/' = [n.val] := List.splitOn_eq_singleton n.property.2.1
  have hhead : (path ++ '/' :: n.val).head? = (path ++ ['/']).head? := by
    cases path <;> rfl
  simp only [parse, List.splitOn_append_cons_self, List.splitOn_nil, hsplit, hhead,
    List.filter_append, List.map_append, List.append_assoc]
  simp [n.property.1, readStep_name]

/-- A slash behind a path makes no other path. -/
lemma parse_slashed {path : List Char} (hne : path ≠ []) : parse (slashed path) = parse path := by
  unfold slashed
  split_ifs with h
  · exact parse_slash hne
  · rfl

/-- Without a backslash at its end, a path goes on with the name of an entry. -/
lemma parse_join {path : List Char} (hne : path ≠ []) (hlast : path.getLast? ≠ some '\\')
    (n : Name) : parse (slashed path ++ n.val) = parse path ++ [.name n] := by
  unfold slashed
  split_ifs with h
  · rw [List.append_assoc, List.singleton_append, parse_concat, parse_slash hne]
  · have hslash : path.getLast? = some '/' := by
      by_contra hcon
      exact h ⟨hlast, hcon⟩
    obtain ⟨front, rfl⟩ := List.getLast?_eq_some_iff.mp hslash
    rw [List.append_assoc, List.singleton_append, parse_concat]

/-! ## One entry -/

/-- The place of an entry is the directory that the front of its path leads to, and its name. -/
lemma locate_concat {fs : Disk Name D} {path : List Char} {steps : List (Step Name)} {n : Name}
    (hpath : parse path = steps ++ [.name n]) :
    locate s fs path = (resolve fs s.maxLinks s.cwd steps).map fun q => q ++ [n] := by
  simp [locate, hpath]

/-- Where the path lasts it leads to the directory. -/
lemma resolve_of_lasting {fs : Disk Name D} (wf : WellFormed fs) {path : List Char}
    {c : List Name} (hdir : isDir fs c = true) (h : Lasting s fs path c) :
    resolve fs s.maxLinks s.cwd (parse path) = some c := by
  obtain ⟨steps, q, n, hpath, rfl, hq⟩ := h
  rw [hpath]
  apply resolve_concat (isDir_iff.mp hdir) (by simp)
  exact resolve_mono wf (clear_subset fs _) _ _ _ _ hq

/-- A directory lists itself, the one above it, and its entries. -/
lemma readDir_eq {fs : Disk Name D} (wf : WellFormed fs) {path : List Char} {c : List Name}
    (hne : path ≠ []) (hdir : isDir fs c = true) (h : Lasting s fs path c) :
    readDir s fs (slashed path) =
      some (['.'] :: ['.', '.'] :: (names fs c).map Subtype.val) := by
  rw [readDir, parse_slashed hne, resolve_of_lasting wf hdir h]
  simp [hdir]

/-- The directory is removed when it is empty. -/
lemma rmdir_clear {fs : Disk Name D} (wf : WellFormed fs) {path : List Char} {c : List Name}
    (hne : path ≠ []) (hdir : isDir fs c = true) (h : Lasting s fs path c) :
    rmdir s (clear fs c) (slashed path) = (true, prune fs [c]) := by
  obtain ⟨steps, q, n, hpath, rfl, hq⟩ := h
  have hmem : (q ++ [n], Entry.dir) ∈ clear fs (q ++ [n]) := by
    rw [mem_clear]
    exact ⟨mem_of_entry (isDir_iff.mp hdir) (by simp), fun _ => rfl⟩
  have hdir' : isDir (clear fs (q ++ [n])) (q ++ [n]) = true :=
    isDir_iff.mpr (entry_of_mem (wellFormed_clear wf _) hmem)
  have hpath' : parse (slashed path) = steps ++ [.name n] := by
    rw [parse_slashed hne, hpath]
  rw [rmdir, locate_concat hpath', hq]
  simp [hdir', names_clear, erase_clear]

/-- The path of an entry lasts as long as the path of its directory.

**Proof sketch.** What is on the way to the directory is on the way to its entry, and the directory
itself is not cleared as long as the entry is to be found. -/
lemma lasting_join {fs : Disk Name D} (wf : WellFormed fs) {path : List Char} {c : List Name}
    (hne : path ≠ []) (hdir : isDir fs c = true) (hlast : path.getLast? ≠ some '\\')
    (h : Lasting s fs path c) (n : Name) :
    Lasting s fs (slashed path ++ n.val) (c ++ [n]) := by
  obtain ⟨steps, q, m, hpath, rfl, hq⟩ := h
  refine ⟨parse path, q ++ [m], n, parse_join hne hlast n, rfl, ?_⟩
  have hkeep : clear fs (q ++ [m]) ⊆ clear fs (q ++ [m] ++ [n]) := by
    intro e he
    rw [mem_clear] at he ⊢
    refine ⟨he.1, ?_⟩
    intro hbelow
    have heq := he.2 ((List.prefix_append _ _).trans hbelow)
    have hle := hbelow.length_le
    rw [heq] at hle
    simp at hle
  have hmem : (q ++ [m], Entry.dir) ∈ clear fs (q ++ [m] ++ [n]) := by
    apply hkeep
    rw [mem_clear]
    exact ⟨mem_of_entry (isDir_iff.mp hdir) (by simp), fun _ => rfl⟩
  have hwf := wellFormed_clear wf (q ++ [m] ++ [n])
  rw [hpath]
  apply resolve_concat (entry_of_mem hwf hmem) (by simp)
  exact resolve_mono hwf hkeep _ _ _ _ hq

/-- An entry that is not a directory is removed. -/
lemma remove_join {fs : Disk Name D} (wf : WellFormed fs) {path : List Char} {c : List Name}
    (hne : path ≠ []) (hdir : isDir fs c = true) (hlast : path.getLast? ≠ some '\\')
    (h : Lasting s fs path c) {n : Name} {x : Entry Name D}
    (hentry : entry fs (c ++ [n]) = some x) (hx : x ≠ .dir) :
    remove s fs (slashed path ++ n.val) = prune fs [c ++ [n]] := by
  rw [remove, locate_concat (parse_join hne hlast n), resolve_of_lasting wf hdir h, Option.map_some]
  simp only [hentry]
  have herase := erase_eq_prune (leaf_of_entry wf (mem_of_entry hentry (by simp)) hx)
  cases x with
  | file data => exact herase
  | link target => exact herase
  | dir => exact absurd rfl hx

section Turn

variable {fs : Disk Name D} {path : List Char} {c : List Name} {before after : List Name} {n : Name}

/-- What is removed before the turn of an entry is not above it. -/
lemma mem_of_turn (wf : WellFormed fs) (hnames : names fs c = before ++ n :: after)
    {rest : List Name} {x : Entry Name D} (h : (c ++ n :: rest, x) ∈ fs) :
    (c ++ n :: rest, x) ∈ prune fs (before.map fun m => c ++ [m]) := by
  rw [mem_prune]
  refine ⟨h, ?_⟩
  intro loc hloc hbelow
  obtain ⟨m, hm, rfl⟩ := List.mem_map.mp hloc
  obtain ⟨tail, htail⟩ := hbelow
  have hmn : m = n := by simp at htail; exact htail.1
  have hnodup := nodup_names wf c
  rw [hnames, List.nodup_middle, List.nodup_cons] at hnodup
  exact hnodup.1 (List.mem_append_left _ (hmn ▸ hm))

/-- The turn of an entry in a directory below is its turn there, on the disk of the turn of that
directory. -/
lemma atTurn_cons (wf : WellFormed fs) (hnames : names fs c = before ++ n :: after)
    (rel : List Name) :
    atTurn fs c (n :: rel) =
      atTurn (prune fs (before.map fun m => c ++ [m])) (c ++ [n]) rel := by
  have hnodup := nodup_names wf c
  rw [hnames, List.nodup_middle, List.nodup_cons] at hnodup
  have htake : (names fs c).takeWhile (fun m => m ≠ n) = before := by
    rw [hnames, List.takeWhile_append_of_pos]
    · simp
    · intro m hm
      rw [decide_eq_true_eq]
      rintro rfl
      exact hnodup.1 (List.mem_append_left _ hm)
  rw [atTurn, htake]

/-- Nothing is removed above the entries of the directory. -/
lemma clear_subset_turn : clear fs c ⊆ prune fs (before.map fun m => c ++ [m]) := by
  intro e he
  rw [mem_clear] at he
  rw [mem_prune]
  refine ⟨he.1, ?_⟩
  intro loc hloc hbelow
  obtain ⟨m, -, rfl⟩ := List.mem_map.mp hloc
  have hle := hbelow.length_le
  rw [he.2 ((List.prefix_append c [m]).trans hbelow), List.length_append,
    List.length_singleton] at hle
  omega

/-- The directory itself is there at every turn. -/
lemma isDir_turn (wf : WellFormed fs) (hne : c ≠ []) (hdir : isDir fs c = true) :
    isDir (prune fs (before.map fun m => c ++ [m])) c = true := by
  apply isDir_iff.mpr
  apply entry_of_mem (wellFormed_prune wf _)
  apply clear_subset_turn
  rw [mem_clear]
  exact ⟨mem_of_entry (isDir_iff.mp hdir) hne, fun _ => rfl⟩

/-- The path keeps leading to the directory at every turn. -/
lemma lasting_turn (wf : WellFormed fs) (h : Lasting s fs path c) :
    Lasting s (prune fs (before.map fun m => c ++ [m])) path c := by
  obtain ⟨steps, q, m, hpath, hc, hq⟩ := h
  refine ⟨steps, q, m, hpath, hc, ?_⟩
  apply resolve_mono (wellFormed_clear (wellFormed_prune wf _) c) _ _ _ _ _ hq
  intro e he
  rw [mem_clear]
  exact ⟨clear_subset_turn he, (mem_clear.mp he).2⟩

/-- The condition for an entry that is a directory. -/
lemma inside_turn (wf : WellFormed fs) (hnames : names fs c = before ++ n :: after)
    (h : Inside s fs path c) :
    Inside s (prune fs (before.map fun m => c ++ [m])) (slashed path ++ n.val) (c ++ [n]) where
  backslash := by
    intro rel m x hmem
    apply h.backslash (n :: rel) m x
    have hfs := prune_subset _ _ hmem
    simpa using hfs
  links := by
    intro rel target hmem
    rw [← atTurn_cons wf hnames]
    apply h.links (n :: rel) target
    have hfs := prune_subset _ _ hmem
    simpa using hfs

end Turn

/-! ## One directory -/

/-- The turn of one entry.

**Proof sketch.** One case for each kind of entry. A directory is found as one through its path and
removed by the induction hypothesis, on the disk that is left at its turn. A file, and a link that
leads to no directory, are removed at once. -/
lemma visit_turn {fs : Disk Name D} (wf : WellFormed fs) {path : List Char} {c : List Name}
    (hne : path ≠ []) (hc : c ≠ []) (hdir : isDir fs c = true) (hlasting : Lasting s fs path c)
    (hinside : Inside s fs path c) {before after : List Name} {n : Name}
    (hnames : names fs c = before ++ n :: after) {fuel : ℕ}
    (ih : ∀ turn, turn = prune fs (before.map fun m => c ++ [m]) →
      isDir turn (c ++ [n]) = true → WellFormed turn →
      Lasting s turn (slashed path ++ n.val) (c ++ [n]) →
      removeDir s fuel turn (slashed path ++ n.val) = some (true, prune turn [c ++ [n]])) :
    visit s (removeDir s fuel) (slashed path) (prune fs (before.map fun m => c ++ [m])) n.val =
      some (prune fs ((before ++ [n]).map fun m => c ++ [m])) := by
  have hmem : n ∈ names fs c := by simp [hnames]
  obtain ⟨x, hx⟩ := mem_names.mp hmem
  have hlast : path.getLast? ≠ some '\\' := hinside.backslash [] n x (by simpa using hx)
  set turn := prune fs (before.map fun m => c ++ [m]) with hturn
  have hwf : WellFormed turn := wellFormed_prune wf _
  have hdirturn : isDir turn c = true := isDir_turn wf hc hdir
  have hlastturn : Lasting s turn path c := lasting_turn wf hlasting
  have hentry : entry turn (c ++ [n]) = some x := entry_of_mem hwf (mem_of_turn wf hnames hx)
  have hafter : prune turn [c ++ [n]] = prune fs ((before ++ [n]).map fun m => c ++ [m]) := by
    rw [hturn, prune_prune, List.map_append]
    rfl
  have hproper : ¬ (n.val = ['.', '.'] ∨ n.val = ['.']) := by
    rintro (hn | hn)
    · exact n.property.2.2.2 hn
    · exact n.property.2.2.1 hn
  rw [visit, if_neg hproper]
  have hremove : x ≠ .dir →
      remove s turn (slashed path ++ n.val) = prune fs ((before ++ [n]).map fun m => c ++ [m]) := by
    intro hx'
    rw [remove_join hwf hne hdirturn hlast hlastturn hentry hx', hafter]
  cases x with
  | dir =>
    have hlasting' := lasting_join hwf hne hdirturn hlast hlastturn n
    have hdir' : isDir turn (c ++ [n]) = true := isDir_iff.mpr hentry
    have hstat : statIsDir s turn (slashed path ++ n.val) = true := by
      rw [statIsDir, resolve_of_lasting hwf hdir' hlasting']
      exact hdir'
    rw [if_pos hstat, ih turn rfl hdir' hwf hlasting', Option.map_some, hafter]
  | file data =>
    have hstat : statIsDir s turn (slashed path ++ n.val) = false := by
      rw [statIsDir, parse_join hne hlast,
        resolve_concat hentry (by simp) _ _ _ (resolve_of_lasting hwf hdirturn hlastturn)]
      simp [isDir, hentry]
    rw [if_neg (by simp [hstat]), hremove (by simp)]
  | link target =>
    have hstat : statIsDir s turn (slashed path ++ n.val) = false := by
      have hlink := hinside.links [n] target hx
      rw [atTurn_cons wf hnames] at hlink
      exact hlink
    rw [if_neg (by simp [hstat]), hremove (by simp)]

/-- A loop that takes the state for each part of the list to that for one more. -/
lemma foldlM_of_step {σ α : Type} {f : σ → α → Option σ} (g : List α → σ) (l : List α)
    (h : ∀ before x after, l = before ++ x :: after → f (g before) x = some (g (before ++ [x]))) :
    l.foldlM f (g []) = some (g l) := by
  suffices hsuffix : ∀ todo before, l = before ++ todo → todo.foldlM f (g before) = some (g l) from
    hsuffix l [] rfl
  intro todo
  induction todo with
  | nil =>
    intro before hl
    rw [hl, List.append_nil]
    rfl
  | cons x todo ih =>
    intro before hl
    rw [List.foldlM_cons, h before x todo hl]
    exact ih (before ++ [x]) (by simp [hl])

/-- **One directory.** The induction is on the depth of the tree.

**Proof sketch.** The loop goes through the names of the directory, and before each turn the disk
is what is left when the earlier entries are removed with all below them. In the end the directory
is empty, and `rmdir` removes it. A path of an entry is one longer than that of its directory, so
the fuel suffices. -/
theorem removeDir_eq_prune (fuel : ℕ) {fs : Disk Name D} (wf : WellFormed fs) {path : List Char}
    {c : List Name} (hne : path ≠ []) (hdir : isDir fs c = true) (hlasting : Lasting s fs path c)
    (hinside : Inside s fs path c)
    (hdepth : ∀ e ∈ fs, c <+: e.1 → e.1.length < c.length + fuel) :
    removeDir s fuel fs path = some (true, prune fs [c]) := by
  have hc : c ≠ [] := by
    obtain ⟨steps, q, n, -, rfl, -⟩ := hlasting
    simp
  induction fuel generalizing fs path c with
  | zero =>
    have hlt := hdepth _ (mem_of_entry (isDir_iff.mp hdir) hc) (List.prefix_refl c)
    simp at hlt
  | succ fuel ih =>
    have hloop : (names fs c).foldlM
        (fun fs n => visit s (removeDir s fuel) (slashed path) fs n.val) fs =
        some (clear fs c) := by
      have hfold := foldlM_of_step (f := fun fs n =>
        visit s (removeDir s fuel) (slashed path) fs n.val)
        (fun before => prune fs (before.map fun m => c ++ [m])) (names fs c) ?_
      · simpa only [List.map_nil, prune_nil, prune_names wf] using hfold
      intro before n after hnames
      apply visit_turn wf hne hc hdir hlasting hinside hnames
      rintro turn rfl hdir' hwf hlasting'
      apply ih hwf _ hdir' hlasting' (inside_turn wf hnames hinside) _ (by simp)
      · have hn := n.property.1
        simp [hn]
      · intro e he hbelow
        have hlt := hdepth e (prune_subset _ _ he) ((List.prefix_append c [n]).trans hbelow)
        simp only [List.length_append, List.length_singleton]
        omega
    rw [removeDir, readDir_eq wf hne hdir hlasting]
    simp only [List.foldlM_cons, List.foldlM_map]
    have hdot : ∀ fs : Disk Name D,
        visit s (removeDir s fuel) (slashed path) fs ['.'] = some fs := fun _ => rfl
    have hdotdot : ∀ fs : Disk Name D,
        visit s (removeDir s fuel) (slashed path) fs ['.', '.'] = some fs := fun _ => rfl
    simp only [hdot, hdotdot, Option.bind_eq_bind, Option.bind_some, hloop, Option.map_some]
    rw [rmdir_clear wf hne hdir hlasting]

end HkuUtils.Os
