import HkuUtils.Os.RemoveDir

set_option relaxedAutoImplicit false
set_option autoImplicit false

/-!
# What a removal leaves

Whatever a removal does, it takes away entries that have nothing below them. From this it follows
that the path of a directory that was removed lasted to the end, and, where no link leads away, that
no directory with entries was named by a path that ends in a backslash: what is in such a directory
is named without a separator, and stays.

## Main definitions

* `HkuUtils.Os.NamesDir`, `Removed` — the path of a directory, and its removal.
* `HkuUtils.Os.Keeps` — what every single removal keeps.
* `HkuUtils.Os.Avoids` — a path that does not lead into a directory.

## Main results

* `HkuUtils.Os.removeDir_run` — what every removal keeps holds in the end.
* `HkuUtils.Os.exists_last` — the disk before the directory itself is removed.
* `HkuUtils.Os.removeDir_stays`, `removeDir_escapes` — when the function stays in its directory, and
  a link by which it leaves it.
-/

namespace HkuUtils.Os

open FileSystem

variable {D : Type} {s : System}

/-- The path is one of a directory. -/
def NamesDir (s : System) (fs : Disk Name D) (path : List Char) (d : List Name) : Prop :=
  path ≠ [] ∧ resolve fs s.maxLinks s.cwd (parse path) = some d ∧ isDir fs d = true

/-- The function returns `true`, and has removed the tree of the directory and nothing else. -/
def Removed (s : System) (fs : Disk Name D) (path : List Char) (d : List Name) : Prop :=
  ∃ depth, ∀ fuel ≥ depth, removeDir s fuel fs path = some (true, prune fs [d])

/-! ## One removal -/

/-- What is located is a name in a directory that the front of the path leads to. -/
lemma exists_of_locate {fs : Disk Name D} {path : List Char} {loc : List Name}
    (h : locate s fs path = some loc) :
    ∃ steps q n, parse path = steps ++ [.name n] ∧ loc = q ++ [n] ∧
      resolve fs s.maxLinks s.cwd steps = some q := by
  unfold locate at h
  split at h
  · next n hlast =>
    obtain ⟨steps, hsteps⟩ := List.getLast?_eq_some_iff.mp hlast
    rw [hsteps, List.dropLast_concat] at h
    obtain ⟨q, hq, rfl⟩ := Option.map_eq_some_iff.mp h
    exact ⟨steps, q, n, hsteps, rfl, hq⟩
  · cases h

/-- The root is not located. -/
lemma locate_ne_nil {fs : Disk Name D} {path : List Char} {loc : List Name}
    (h : locate s fs path = some loc) : loc ≠ [] := by
  obtain ⟨steps, q, n, -, rfl, -⟩ := exists_of_locate h
  simp

/-- The path leads to the entry that it names, when that is no link. -/
lemma resolve_of_locate {fs : Disk Name D} {path : List Char} {loc : List Name} {x : Entry Name D}
    (h : locate s fs path = some loc) (hentry : entry fs loc = some x)
    (hx : ∀ target, x ≠ .link target) :
    resolve fs s.maxLinks s.cwd (parse path) = some loc := by
  obtain ⟨steps, q, n, hpath, rfl, hq⟩ := exists_of_locate h
  rw [hpath]
  exact resolve_concat hentry hx _ _ _ hq

/-- A slash behind a path leads to the same place. -/
lemma locate_slashed {fs : Disk Name D} {path : List Char} (hne : path ≠ []) :
    locate s fs (slashed path) = locate s fs path := by
  rw [locate, locate, parse_slashed hne]

/-- What `rmdir` does: nothing, or it removes an empty directory at the place of its path. -/
lemma rmdir_cases {fs fs' : Disk Name D} (wf : WellFormed fs) {path : List Char} {r : Bool}
    (h : rmdir s fs path = (r, fs')) :
    (r = false ∧ fs' = fs) ∨ (r = true ∧ ∃ loc, locate s fs path = some loc ∧
      entry fs loc = some .dir ∧ Leaf fs loc ∧ fs' = prune fs [loc]) := by
  unfold rmdir at h
  split at h
  · cases h
    exact .inl ⟨rfl, rfl⟩
  · next loc hloc =>
    split_ifs at h with hdir
    · cases h
      rw [Bool.and_eq_true, List.isEmpty_iff] at hdir
      have hleaf := leaf_of_names wf hdir.2
      exact .inr ⟨rfl, loc, hloc, isDir_iff.mp hdir.1, hleaf, erase_eq_prune hleaf⟩
    · cases h
      exact .inl ⟨rfl, rfl⟩

/-- What `remove` does: nothing, or it removes an entry without entries of its own at the place of
its path.

**Proof sketch.** By cases on what the path leads to: nothing, a directory, which is removed if it
is empty, or a file or link, which has no entries of its own. -/
lemma remove_cases {fs : Disk Name D} (wf : WellFormed fs) (path : List Char) :
    remove s fs path = fs ∨ ∃ loc x, locate s fs path = some loc ∧ entry fs loc = some x ∧
      Leaf fs loc ∧ remove s fs path = prune fs [loc] := by
  unfold remove
  split
  · exact .inl rfl
  · next loc hloc =>
    split
    · exact .inl rfl
    · next hentry =>
      obtain ⟨-, hfs⟩ | ⟨-, loc', hloc', -, hleaf, hfs⟩ :=
        rmdir_cases wf (Prod.eta (rmdir s fs path)).symm
      · exact .inl hfs
      · rw [hloc] at hloc'
        cases hloc'
        exact .inr ⟨loc, _, hloc, hentry, hleaf, hfs⟩
    · next x hx hentry =>
      obtain ⟨steps, q, n, -, rfl, -⟩ := exists_of_locate hloc
      have hleaf : Leaf fs (q ++ [n]) :=
        leaf_of_entry wf (mem_of_entry hentry (by simp)) (by rintro rfl; exact hx rfl)
      exact .inr ⟨_, x, hloc, hentry, hleaf, erase_eq_prune hleaf⟩

/-! ## All removals -/

/-- What every step of a loop keeps holds in the end. -/
lemma foldlM_invariant {σ α : Type} {f : σ → α → Option σ} {I : σ → Prop} (l : List α)
    (h : ∀ a, I a → ∀ x ∈ l, ∀ b, f a x = some b → I b) {a b : σ} (ha : I a)
    (hb : l.foldlM f a = some b) : I b := by
  induction l generalizing a with
  | nil =>
    cases hb
    exact ha
  | cons x l ih =>
    rw [List.foldlM_cons] at hb
    obtain ⟨c, hc, hb⟩ := Option.bind_eq_some_iff.mp hb
    exact ih (fun a ha y hy => h a ha y (List.mem_cons_of_mem _ hy))
      (h a ha x List.mem_cons_self c hc) hb

/-- What holds of parts of a disk is kept by removals, by paths of which something holds that is
kept when the name of an entry is put behind them. -/
structure Keeps (s : System) (fs : Disk Name D) (I : Disk Name D → Prop)
    (P : List Char → Prop) : Prop where
  wf : ∀ part, I part → WellFormed part
  sub : ∀ part, I part → part ⊆ fs
  ne : ∀ path, P path → path ≠ []
  child : ∀ part path loc, ∀ n ∈ names part loc, I part → P path →
    resolve part s.maxLinks s.cwd (parse path) = some loc → P (slashed path ++ n.val)
  prune : ∀ part path loc x, I part → P path → locate s part path = some loc →
    entry part loc = some x → Leaf part loc → I (prune part [loc])

/-- **What is kept by removals holds in the end**, before the directory itself is removed.

**Proof sketch.** By induction on the depth. Each entry of the listing gets a path that the
condition allows, by `child`. If it is taken for a directory, then the call for it ends with a
`rmdir` at that path, by the induction hypothesis; otherwise it is removed at that path. Either way
what is removed is allowed by `prune`. -/
theorem removeDir_run {all : Disk Name D} {I : Disk Name D → Prop} {P : List Char → Prop}
    (hkeeps : Keeps s all I P) (fuel : ℕ) {fs fs' : Disk Name D} {path : List Char} {r : Bool}
    (hfs : I fs) (hok : P path) (h : removeDir s fuel fs path = some (r, fs')) :
    ∃ last, I last ∧ rmdir s last (slashed path) = (r, fs') := by
  induction fuel generalizing fs fs' path r with
  | zero => cases h
  | succ fuel ih =>
    rw [removeDir] at h
    split at h
    · exact ⟨fs, hfs, Option.some.inj h⟩
    · next listing hlisting =>
      obtain ⟨last, hlast, hrmdir⟩ := Option.map_eq_some_iff.mp h
      refine ⟨last, ?_, hrmdir⟩
      refine foldlM_invariant listing ?_ hfs hlast
      intro a ha d_name hmem b hb
      unfold visit at hb
      split_ifs at hb with hdot hstat
      · cases hb
        exact ha
      all_goals
        have hname : P (slashed path ++ d_name) := by
          unfold readDir at hlisting
          rw [parse_slashed (hkeeps.ne path hok)] at hlisting
          split at hlisting
          · cases hlisting
          · next loc hloc =>
            split_ifs at hlisting with hdir
            cases hlisting
            simp only [List.mem_cons, List.mem_map] at hmem
            obtain rfl | rfl | ⟨n, hn, rfl⟩ := hmem
            · exact absurd (.inr rfl) hdot
            · exact absurd (.inl rfl) hdot
            · exact hkeeps.child fs path loc n hn hfs hok hloc
      · obtain ⟨⟨r', fs''⟩, hcall, rfl⟩ := Option.map_eq_some_iff.mp hb
        obtain ⟨last', hlast', hrmdir'⟩ := ih ha hname hcall
        obtain ⟨-, rfl⟩ | ⟨-, loc, hloc, hentry, hleaf, rfl⟩ :=
          rmdir_cases (hkeeps.wf _ hlast') hrmdir'
        · exact hlast'
        · rw [locate_slashed (hkeeps.ne _ hname)] at hloc
          exact hkeeps.prune _ _ _ _ hlast' hname hloc hentry hleaf
      · cases hb
        obtain heq | ⟨loc, x, hloc, hentry, hleaf, heq⟩ :=
          remove_cases (hkeeps.wf _ ha) (slashed path ++ d_name)
        · rw [heq]
          exact ha
        · rw [heq]
          exact hkeeps.prune _ _ _ _ ha hname hloc hentry hleaf

/-- When a directory has been removed, its path led to it at the end, and nothing was below it. -/
lemma exists_last {fs : Disk Name D} (wf : WellFormed fs) {I : Disk Name D → Prop}
    {P : List Char → Prop} (hkeeps : Keeps s fs I P) {path : List Char} {d : List Name}
    (hnames : NamesDir s fs path d) (hfs : I fs) (hok : P path) (h : Removed s fs path d) :
    ∃ last, I last ∧ locate s last path = some d ∧ Leaf last d := by
  obtain ⟨depth, h⟩ := h
  obtain ⟨last, hlast, hrmdir⟩ := removeDir_run hkeeps depth hfs hok (h depth (Nat.le_refl depth))
  obtain ⟨hfalse, -⟩ | ⟨-, loc, hloc, hentry, hleaf, -⟩ := rmdir_cases (hkeeps.wf _ hlast) hrmdir
  · cases hfalse
  rw [locate_slashed hnames.1] at hloc
  have hresolve := resolve_mono wf (hkeeps.sub _ hlast) _ _ _ _
    (resolve_of_locate hloc hentry (by simp))
  rw [hnames.2.1] at hresolve
  cases hresolve
  exact ⟨last, hlast, hloc, hleaf⟩

/-- What is left of a disk is a well-formed part of it, whatever the paths are. -/
lemma keeps_part (fs : Disk Name D) :
    Keeps s fs (fun part => part ⊆ fs ∧ WellFormed part) fun path => path ≠ [] where
  wf _ hI := hI.2
  sub _ hI := hI.1
  ne _ hne := hne
  child := by
    intro part path loc n _ _ _ _
    simp [n.property.1]
  prune := by
    rintro part path loc x ⟨hsub, hwf⟩ _ _ _ _
    exact ⟨fun e he => hsub (prune_subset _ _ he), wellFormed_prune hwf _⟩

/-- The path of a directory that was removed lasted to the end. -/
lemma lasting_of_removed {fs : Disk Name D} (wf : WellFormed fs) {path : List Char} {d : List Name}
    (hnames : NamesDir s fs path d) (h : Removed s fs path d) : Lasting s fs path d := by
  obtain ⟨last, ⟨hsub, hwf⟩, hloc, hleaf⟩ :=
    exists_last wf (keeps_part fs) hnames ⟨fun _ he => he, wf⟩ hnames.1 h
  obtain ⟨steps, q, n, hpath, hd, hq⟩ := exists_of_locate hloc
  refine ⟨steps, q, n, hpath, hd, ?_⟩
  apply resolve_mono (wellFormed_clear wf d) _ _ _ _ _ hq
  intro e he
  rw [mem_clear]
  -- `rmdir` removes a directory only when nothing is below it
  exact ⟨hsub he, hleaf e he⟩

/-! ## Backslashes -/

/-- A part of a path with a backslash is a name, and not one of the two special ones. -/
lemma readStep_backslash {part : List Char} (hslash : '/' ∉ part) (h : '\\' ∈ part) :
    ∃ w : Name, w.val = part ∧ readStep part = .name w := by
  have hpart : part ≠ [] ∧ '/' ∉ part ∧ part ≠ ['.'] ∧ part ≠ ['.', '.'] := by
    refine ⟨List.ne_nil_of_mem h, hslash, ?_, ?_⟩ <;> rintro rfl <;> simp at h
  exact ⟨⟨part, hpart⟩, rfl, by rw [readStep, dif_pos hpart]⟩

/-- The last part of a path goes on with what is put behind the path.

**Proof sketch.** Cut the path at its last slash. What is put behind it, without a slash, belongs
to the part behind this slash; without any slash, all of the path is one part. -/
lemma exists_last_part {path : List Char} (hne : path ≠ []) (hlast : path.getLast? ≠ some '/') :
    ∃ steps part, part <:+ path ∧ part ≠ [] ∧ '/' ∉ part ∧
      ∀ more, '/' ∉ more → parse (path ++ more) = steps ++ [readStep (part ++ more)] := by
  by_cases hslash : '/' ∈ path
  · obtain ⟨back, front, hback, hnot⟩ :=
      List.eq_append_cons_of_mem (List.mem_reverse.mpr hslash)
    have hpath : path = front.reverse ++ '/' :: back.reverse := by
      rw [← List.reverse_reverse path, hback]
      simp
    have hpart : back.reverse ≠ [] := by
      rintro hnil
      rw [hpath, hnil] at hlast
      simp at hlast
    have hnot' : '/' ∉ back.reverse := by simpa using hnot
    refine ⟨parse (front.reverse ++ ['/']), back.reverse, ?_, hpart, hnot', ?_⟩
    · rw [hpath]
      exact ⟨front.reverse ++ ['/'], by simp⟩
    · intro more hmore
      have hhead : (front.reverse ++ '/' :: (back.reverse ++ more)).head? =
          (front.reverse ++ ['/']).head? := by
        cases front.reverse <;> rfl
      have hsplit : (back.reverse ++ more).splitOn '/' = [back.reverse ++ more] :=
        List.splitOn_eq_singleton (by
          rw [List.mem_append, not_or]
          exact ⟨hnot', hmore⟩)
      rw [hpath, List.append_assoc, List.cons_append]
      simp only [parse, List.splitOn_append_cons_self, List.splitOn_nil, hsplit, hhead,
        List.filter_append, List.map_append, List.append_assoc]
      simp [hpart]
  · refine ⟨[], path, List.suffix_refl path, hne, hslash, ?_⟩
    intro more hmore
    have hnot : '/' ∉ path ++ more := by
      rw [List.mem_append, not_or]
      exact ⟨hslash, hmore⟩
    have hhead : (path ++ more).head? ≠ some '/' := by
      intro hhead
      exact hnot (List.mem_of_mem_head? hhead)
    rw [parse, if_neg hhead, List.splitOn_eq_singleton hnot]
    simp [hne]

/-- A path that ends in a backslash goes on within its last name.

**Proof sketch.** The last part of the path has a backslash in it, so it is read as a name, with or
without the characters behind it. -/
lemma exists_last_name {path : List Char} (h : path.getLast? = some '\\') :
    ∃ steps, ∃ w : Name, w.val.getLast? = some '\\' ∧ parse path = steps ++ [.name w] ∧
      ∀ n : Name, ∃ w' : Name, w'.val = w.val ++ n.val ∧
        parse (path ++ n.val) = steps ++ [.name w'] := by
  have hne : path ≠ [] := by
    rintro rfl
    cases h
  obtain ⟨steps, part, hsuffix, hpart, hslash, hparse⟩ :=
    exists_last_part hne (by simp [h])
  have hlast : part.getLast? = some '\\' := by
    obtain ⟨front, rfl⟩ := hsuffix
    rwa [List.getLast?_append_of_ne_nil _ hpart] at h
  have hmem : '\\' ∈ part := List.mem_of_mem_getLast? hlast
  obtain ⟨w, rfl, hw⟩ := readStep_backslash hslash hmem
  refine ⟨steps, w, hlast, ?_, ?_⟩
  · have hbase := hparse [] (by simp)
    rwa [List.append_nil, List.append_nil, hw] at hbase
  · intro n
    have hnot : '/' ∉ w.val ++ n.val := by
      rw [List.mem_append, not_or]
      exact ⟨hslash, n.property.2.1⟩
    obtain ⟨w', hval, hw'⟩ := readStep_backslash hnot (List.mem_append_left _ hmem)
    exact ⟨w', hval, by rw [hparse n.val n.property.2.1, hw']⟩

/-- The path does not lead into a directory: if it leads to the directory it ends in a backslash. -/
def Avoids (s : System) (fs : Disk Name D) (c : List Name) (path : List Char) : Prop :=
  path ≠ [] ∧ ∀ loc, resolve fs s.maxLinks s.cwd (parse path) = some loc → c <+: loc →
    loc = c ∧ path.getLast? = some '\\'

/-- Nor do the paths that the function makes of it.

**Proof sketch.** If the path ends with a backslash, no slash is put in between and the name goes
on with the last part of the path; the new path leads below the directory only at its last step, or
the old one would have. Otherwise the entry is one step below the place of the path. -/
lemma avoids_join {fs : Disk Name D} (wf : WellFormed fs)
    (hlinks : ∀ loc target, (loc, .link target) ∉ fs) {c : List Name} {k : Name}
    (hk : k.val.getLast? = some '\\') {path : List Char} (h : Avoids s fs (c ++ [k]) path)
    {loc : List Name} (hloc : resolve fs s.maxLinks s.cwd (parse path) = some loc) {n : Name}
    {x : Entry Name D} (hx : (loc ++ [n], x) ∈ fs) :
    Avoids s fs (c ++ [k]) (slashed path ++ n.val) := by
  have hlast : (slashed path ++ n.val).getLast? = n.val.getLast? :=
    List.getLast?_append_of_ne_nil _ n.property.1
  refine ⟨by simp [n.property.1], ?_⟩
  intro loc' hloc' hbelow
  rw [hlast]
  by_cases hback : path.getLast? = some '\\'
  · obtain ⟨steps, w, -, hparse, hmore⟩ := exists_last_name hback
    obtain ⟨w', hval, hparse'⟩ := hmore n
    have hslashed : slashed path = path := by simp [slashed, hback]
    rw [hslashed, hparse'] at hloc'
    obtain ⟨q, hq, rfl⟩ := resolve_split hlinks _ _ _ hloc'
    rw [hparse] at hloc
    obtain ⟨q', hq', rfl⟩ := resolve_split hlinks _ _ _ hloc
    rw [hq] at hq'
    cases hq'
    rcases List.prefix_concat_iff.mp hbelow with heq | hshort
    · refine ⟨heq.symm, ?_⟩
      have hkw : k = w' := by simp at heq; exact heq.2
      rw [← hk, hkw, hval, List.getLast?_append_of_ne_nil _ n.property.1]
    · -- the path would lead into the directory
      have hinto := (h.2 _ (hparse ▸ hloc) (hshort.trans (List.prefix_append q [w]))).1
      have hle := hshort.length_le
      rw [← hinto, List.length_append, List.length_singleton] at hle
      omega
  · rw [parse_join h.1 hback] at hloc'
    rw [resolve_concat (entry_of_mem wf hx) (by rintro target rfl; exact hlinks _ _ hx) _ _ _ hloc]
      at hloc'
    cases hloc'
    rcases List.prefix_concat_iff.mp hbelow with heq | hshort
    · refine ⟨heq.symm, ?_⟩
      have hkn : k = n := by simp at heq; exact heq.2
      rw [← hk, hkn]
    · exact absurd (h.2 loc hloc hshort).2 hback

/-- A location whose path ends in a backslash has a name that does. -/
lemma exists_concat_of_backslash {fs : Disk Name D} {path : List Char} {d rel : List Name}
    (h : Lasting s fs path d) (hback : (join path rel).getLast? = some '\\') :
    ∃ c k, d ++ rel = c ++ [k] ∧ k.val.getLast? = some '\\' := by
  cases rel using List.reverseRecOn with
  | nil =>
    obtain ⟨steps, q, m, hpath, hd, -⟩ := h
    obtain ⟨steps', w, hw, hparse, -⟩ := exists_last_name hback
    rw [join, List.foldl_nil, hpath] at hparse
    have hmw : m = w := by simp at hparse; exact hparse.2
    exact ⟨q, m, by simp [hd], hmw ▸ hw⟩
  | append_singleton rel k =>
    refine ⟨d ++ rel, k, by simp, ?_⟩
    rw [join, List.foldl_append, List.foldl_cons, List.foldl_nil,
      List.getLast?_append_of_ne_nil _ k.property.1] at hback
    exact hback

/-- A directory that is reached by a path with a backslash at its end is avoided by the paths that
begin there. -/
lemma avoids_of_backslash {fs : Disk Name D} {path : List Char} {d rel : List Name}
    (hnames : NamesDir s fs path d) (hback : (join path rel).getLast? = some '\\') :
    Avoids s fs (d ++ rel) path := by
  refine ⟨hnames.1, ?_⟩
  intro loc hloc hbelow
  rw [hnames.2.1] at hloc
  cases hloc
  have hrel : rel = [] := by
    have hle := hbelow.length_le
    rw [List.length_append] at hle
    exact List.length_eq_zero_iff.mp (by omega)
  subst hrel
  exact ⟨by simp, hback⟩

/-- What is below a directory that the paths avoid stays.

**Proof sketch.** The paths that are made avoid the directory by `avoids_join`, on the whole disk,
since what resolves on a part resolves on the whole. What is removed at such a path is not above
the entry: it would be a leaf with something below it. -/
lemma keeps_below {fs : Disk Name D} (wf : WellFormed fs)
    (hlinks : ∀ loc target, (loc, .link target) ∉ fs) {c : List Name} {k : Name}
    (hk : k.val.getLast? = some '\\') (n : Name) (x : Entry Name D) :
    Keeps s fs (fun part => part ⊆ fs ∧ WellFormed part ∧ (c ++ [k] ++ [n], x) ∈ part)
      (Avoids s fs (c ++ [k])) where
  wf _ hI := hI.2.1
  sub _ hI := hI.1
  ne _ hok := hok.1
  child := by
    rintro part path loc m hm ⟨hsub, -, -⟩ hok hloc
    obtain ⟨y, hy⟩ := mem_names.mp hm
    exact avoids_join wf hlinks hk hok (resolve_mono wf hsub _ _ _ _ hloc) (hsub hy)
  prune := by
    rintro part path loc y ⟨hsub, hwf, hkeep⟩ hok hloc hentry hleaf
    refine ⟨fun e he => hsub (prune_subset _ _ he), wellFormed_prune hwf _, ?_⟩
    have hy : ∀ target, y ≠ .link target := by
      rintro target rfl
      exact hlinks _ _ (mem_of_entry (entry_mono wf hsub hentry) (locate_ne_nil hloc))
    have hresolve := resolve_mono wf hsub _ _ _ _ (resolve_of_locate hloc hentry hy)
    simp only [mem_prune, List.mem_singleton, forall_eq]
    refine ⟨hkeep, ?_⟩
    intro hbelow
    have hloc_eq := hleaf _ hkeep hbelow
    have hinto := (hok.2 loc hresolve (hloc_eq ▸ List.prefix_append _ _)).1
    rw [← hloc_eq] at hinto
    simp at hinto

/-- Without links, what is in a directory whose path ends in a backslash stays. -/
lemma inside_of_removed {fs : Disk Name D} (wf : WellFormed fs)
    (hlinks : ∀ loc target, (loc, .link target) ∉ fs) {path : List Char} {d : List Name}
    (hnames : NamesDir s fs path d) (h : Removed s fs path d) : Inside s fs path d where
  links := by
    intro rel target hlink
    exact absurd hlink (hlinks _ _)
  backslash := by
    intro rel n x hmem hback
    have havoids := avoids_of_backslash hnames hback
    obtain ⟨c, k, hc, hk⟩ := exists_concat_of_backslash (lasting_of_removed wf hnames h) hback
    rw [hc] at hmem havoids
    obtain ⟨last, ⟨-, -, hkeep⟩, -, hleaf⟩ := exists_last wf (keeps_below wf hlinks hk n x) hnames
      ⟨fun _ he => he, wf, hmem⟩ havoids h
    have hbelow : d <+: c ++ [k] ++ [n] := ⟨rel ++ [n], by rw [← hc]; simp⟩
    have heq := hleaf _ hkeep hbelow
    rw [← hc] at heq
    simp at heq

/-! ## The removal -/

/-- **The function removes the directory and nothing else** if its path lasts, no directory with
entries is named by a path that ends in a backslash, and no link is taken for a directory. Without
links it does so only then, and in no case does it when the path does not last.

**Proof sketch.** Under the condition every entry is removed when its turn comes, by induction on
the depth of the tree. Conversely the last `rmdir` finds the directory empty: what is in a directory
whose path ends in a backslash is still there, and the path led to the directory without the
rest. -/
theorem removeDir_stays (s : System) {fs : Disk Name D} (wf : WellFormed fs) {path : List Char}
    {d : List Name} (hnames : NamesDir s fs path d) :
    (Lasting s fs path d ∧ Inside s fs path d → Removed s fs path d) ∧
      (Removed s fs path d → Lasting s fs path d ∧
        ((∀ loc target, (loc, .link target) ∉ fs) → Inside s fs path d)) := by
  constructor
  · rintro ⟨hlasting, hinside⟩
    obtain ⟨depth, hdepth⟩ := exists_depth fs
    refine ⟨depth + 1, ?_⟩
    intro fuel hfuel
    apply removeDir_eq_prune fuel wf hnames.1 hnames.2.2 hlasting hinside
    intro e he _
    have hle := hdepth e he
    omega
  · intro hremoved
    refine ⟨lasting_of_removed wf hnames hremoved, ?_⟩
    intro hlinks
    exact inside_of_removed wf hlinks hnames hremoved

/-- The names of the disks below. -/
def nameA : Name := ⟨['a'], by decide⟩

/-- A name for the examples. -/
def nameB : Name := ⟨['b'], by decide⟩

/-- Another name for the examples. -/
def nameK : Name := ⟨['k'], by decide⟩

/-- A process at the root, where the `st` of a failed `stat` is no directory. -/
def process : System := ⟨[], 40, fun _ => false⟩

/-- A directory with a link to the file beside it, a link to nothing and a directory with a file. -/
def linkedFile : Disk Name ℕ :=
  [([nameA], .dir), ([nameA, nameA], .link [.root, .name nameB]),
    ([nameA, nameB], .link [.up, .name nameK]), ([nameB], .file 1), ([nameA, nameK], .dir),
    ([nameA, nameK, nameB], .file 2)]

/-- The two links are removed, and the file beside the directory is left.

**Proof sketch.** The theorem at this disk; its condition is checked entry by entry. -/
theorem removeDir_stays_links :
    ∃ depth, ∀ fuel ≥ depth, removeDir process fuel linkedFile ['a'] =
      some (true, [([nameB], .file 1)]) := by
  have hwf : WellFormed linkedFile := wellFormed_of_all (by decide) (by decide)
  have hnames : NamesDir process linkedFile ['a'] [nameA] := ⟨by decide, rfl, rfl⟩
  refine (removeDir_stays process hwf hnames).1 ⟨⟨[], [], nameA, rfl, rfl, rfl⟩, ?_, ?_⟩
  · intro rel n x h
    have hrel : rel = [] ∨ rel = [nameK] := by
      simp only [linkedFile, List.cons_append, List.nil_append, List.mem_cons, Prod.mk.injEq,
        List.cons.injEq, true_and, List.not_mem_nil, or_false] at h
      have hdrop : rel = (rel ++ [n]).dropLast := List.dropLast_concat.symm
      rcases h with h | h | h | h | h | h
      · simp at h
      · exact .inl (by rw [hdrop, h.1]; rfl)
      · exact .inl (by rw [hdrop, h.1]; rfl)
      · exact absurd h.1.1 (by decide)
      · exact .inl (by rw [hdrop, h.1]; rfl)
      · exact .inr (by rw [hdrop, h.1]; rfl)
    rcases hrel with rfl | rfl <;> decide
  · intro rel target h
    simp [linkedFile] at h
    rcases h with ⟨rfl, -⟩ | ⟨rfl, -⟩ <;> rfl

/-- A directory with a link to the directory beside it, in which there is a file. -/
def linkedDir : Disk Name ℕ :=
  [([nameA], .dir), ([nameA, nameK], .link [.root, .name nameB]), ([nameB], .dir),
    ([nameB, nameA], .file 7)]

/-- **The function leaves its directory by a link**: the file is removed, the link is not, and the
function returns `false`. -/
theorem removeDir_escapes :
    WellFormed linkedDir ∧ NamesDir process linkedDir ['a'] [nameA] ∧
      (∀ fuel, removeDir process (fuel + 2) linkedDir ['a'] = some (false,
        [([nameA], .dir), ([nameA, nameK], .link [.root, .name nameB]), ([nameB], .dir)])) ∧
      ¬ Removed process linkedDir ['a'] [nameA] := by
  have hrun : ∀ fuel, removeDir process (fuel + 2) linkedDir ['a'] = some (false,
      [([nameA], .dir), ([nameA, nameK], .link [.root, .name nameB]), ([nameB], .dir)]) :=
    fun _ => rfl
  refine ⟨wellFormed_of_all (by decide) (by decide), ⟨by decide, rfl, rfl⟩, hrun, ?_⟩
  rintro ⟨depth, h⟩
  have hres := h (depth + 2) (by omega)
  rw [hrun] at hres
  cases hres

end HkuUtils.Os
