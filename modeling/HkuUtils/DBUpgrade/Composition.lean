import HkuUtils.DBUpgrade.Calls

set_option relaxedAutoImplicit false
set_option autoImplicit false

/-!
# Which scripts a call executes

Without failures a call brings its module from the recorded version to that of the last script of
its list. It does not matter whether this is done in one call or in several. The engine has to take
the name of the module between double quotes for that text.

## Main definitions

* `HkuUtils.DBUpgrade.Upgrades` — a call executes the scripts above the recorded version.
* `HkuUtils.DBUpgrade.Composes` — a call with a part of the list before changes nothing, and
  neither does the same call once more.

## Main results

* `HkuUtils.DBUpgrade.find_eq`, `recorded_update` — the statements for a name that is a text.
* `HkuUtils.DBUpgrade.upgradeRange_eq` — the arithmetic without overflow.
* `HkuUtils.DBUpgrade.numbered_append`, `filter_numbered` — the numbers of the scripts.
* `HkuUtils.DBUpgrade.upgrades`, `leaves_old` — a call for a recent and for an old version.
* `HkuUtils.DBUpgrade.upgrade_composes`, `not_composes` — the calls together, and three calls for
  which the conditions do not hold.
-/

namespace HkuUtils.DBUpgrade

open Fallible Transaction

/-! ## The numbers of the scripts -/

/-- The scripts of a list that is put together. -/
lemma numbered_append (number : ℤ) (ps qs : List String) :
    numbered number (ps ++ qs) = numbered number ps ++ numbered (number + ps.length) qs := by
  induction ps generalizing number with
  | nil => simp [numbered]
  | cons p ps ih =>
    rw [List.cons_append, numbered, ih, numbered, List.cons_append, List.length_cons, Nat.cast_add,
      Nat.cast_one, Int.add_assoc, Int.add_comm 1]

/-- The scripts are numbered from the first number on. -/
lemma number_of_mem {number : ℤ} {ps : List String} {s : Script} (h : s ∈ numbered number ps) :
    number ≤ s.number ∧ s.number < number + ps.length := by
  induction ps generalizing number with
  | nil => cases h
  | cons p ps ih =>
    rw [List.length_cons, Nat.cast_add, Nat.cast_one]
    rcases List.mem_cons.mp h with rfl | h
    · simp only [Script.number]
      omega
    · have := ih h
      omega

/-- The scripts above a version are those from an index on. -/
lemma filter_numbered (number version : ℤ) (ps : List String) :
    (numbered number ps).filter (fun s => version < s.number) =
      (numbered number ps).drop (version - number + 1).toNat := by
  induction ps generalizing number with
  | nil => simp [numbered]
  | cons p ps ih =>
    rw [numbered, List.filter_cons, ih]
    by_cases h : version < number
    · have hzero : (version - number + 1).toNat = 0 := by omega
      have hzero' : (version - (number + 1) + 1).toNat = 0 := by omega
      simp only [Script.number, h, decide_true, if_true, hzero, hzero', List.drop_zero]
    · have hsucc : (version - number + 1).toNat = (version - (number + 1) + 1).toNat + 1 := by omega
      simp only [Script.number, h, decide_false, Bool.false_eq_true, if_false, hsucc,
        List.drop_succ_cons]

/-- No script is above a version that the last one leads to. -/
lemma filter_eq_nil {number version : ℤ} {ps : List String} (h : number + ps.length - 1 ≤ version) :
    (numbered number ps).filter (fun s => version < s.number) = [] := by
  refine List.filter_eq_nil_iff.mpr fun x hx => ?_
  have := number_of_mem hx
  simp only [decide_eq_true_eq]
  omega

/-! ## The arithmetic -/

/-- The result of an operation that does not overflow. -/
lemma toInt_ok {n : ℤ} (hlow : -2 ^ 31 ≤ n) (hhigh : n < 2 ^ 31) : toInt n = .ok n :=
  if_pos ⟨hlow, hhigh⟩

/-- The number of scripts, if it fits. -/
lemma countOf_eq {size : ℕ} (h : (size : ℤ) < 2 ^ 31) : countOf size = size :=
  Int.bmod_eq_of_le (by omega) (by omega)

/-- The version of the module is too old. -/
lemma upgradeRange_old {start version : ℤ} {size : ℕ} (hstart : 2 ≤ start) (hfits : start < 2 ^ 31)
    (h : version < start - 1) : upgradeRange start version size = .ok none := by
  unfold upgradeRange
  rw [toInt_ok (by omega) (by omega)]
  show (if version < start - 1 then _ else _ : Except Error (Option (ℤ × ℤ))) = _
  rw [if_pos h]
  rfl

/-- **The arithmetic without overflow**: the scripts from the recorded version on are left.

**Proof sketch.** Below `2 ^ 31` no sum overflows, so the guards of the source are met or not as
they are for the integers. -/
lemma upgradeRange_eq {start version : ℤ} {size : ℕ} (hstart : 2 ≤ start)
    (hfits : start + size < 2 ^ 31) (h : start - 1 ≤ version) :
    upgradeRange start version size =
      .ok (if start + size - 1 ≤ version then none
        else some (version - start + 1, start + size - 1)) := by
  have hcount : countOf size = size := countOf_eq (by omega)
  unfold upgradeRange
  rw [hcount, toInt_ok (n := start - 1) (by omega) (by omega),
    toInt_ok (n := start + size) (by omega) (by omega)]
  show (if version < start - 1 then _ else _ : Except Error (Option (ℤ × ℤ))) = _
  rw [if_neg (by omega)]
  by_cases hsize : (size : ℤ) = 0
  · rw [if_pos hsize, if_pos (by omega)]
    rfl
  rw [if_neg hsize]
  show (toInt (start + size - 1) >>= _ : Except Error (Option (ℤ × ℤ))) = _
  rw [toInt_ok (by omega) (by omega)]
  show (if start + size - 1 ≤ version then _ else _ : Except Error (Option (ℤ × ℤ))) = _
  by_cases hto : start + size - 1 ≤ version
  · rw [if_pos hto, if_pos hto]
    rfl
  rw [if_neg hto, if_neg hto]
  by_cases hfirst : version < start
  · rw [if_pos hfirst, show version - start + 1 = 0 by omega]
    rfl
  · rw [if_neg hfirst, toInt_ok (n := version - start) (by omega) (by omega)]
    show (toInt (version - start + 1) >>= _ : Except Error (Option (ℤ × ℤ))) = _
    rw [toInt_ok (by omega) (by omega)]
    rfl

/-! ## A call without failures -/

variable {D : Driver} {m : Module} {scripts : List String} {s : Session Db} {v : ℤ}

/-- A statement on `module_version` is one for the module. -/
def Command.IsFor (moduleName : String) : Command → Prop
  | .createTable | .script _ => True
  | .insertVersion name _ | .updateVersion name _ => name = moduleName

/-- The commands of an upgrade are commands for its module. -/
lemma upgradeCommands_isFor : ∀ c ∈ (upgradeCommands m scripts v).1, c.IsFor m.name := by
  intro c hc
  unfold upgradeCommands at hc
  split at hc
  · cases hc
  · cases hc
  · rcases List.mem_append.mp hc with hc | hc
    · obtain ⟨x, _, rfl⟩ := List.mem_map.mp hc
      trivial
    · obtain rfl := List.mem_singleton.mp hc
      rfl

/-- The engine takes a command for a module for a statement, if it takes its name for a text. -/
lemma executes_of_isFor (hname : D.quoted m.name = .text) {db : Db} (htable : db.hasTable = true)
    {c : Command} (hc : c.IsFor m.name) : D.executes db c = true := by
  cases c with
  | createTable => rfl
  | script => rfl
  | insertVersion =>
    obtain rfl := hc
    simp only [Driver.executes, hname, htable]
  | updateVersion =>
    obtain rfl := hc
    simp only [Driver.executes, hname, htable]

/-- Without failures all commands for a module are executed once the table is there. -/
lemma acceptsAll_of_table (hD : ∀ n, D.fault n = none) (hname : D.quoted m.name = .text)
    (cs : List Command) (hcs : ∀ c ∈ cs, c.IsFor m.name) {s : Session Db}
    (htable : s.data.hasTable = true) : AcceptsAll D s cs := by
  induction cs generalizing s with
  | nil => trivial
  | cons c cs ih =>
    have hc := executes_of_isFor hname htable (hcs c List.mem_cons_self)
    refine ⟨⟨hD s.clock, hc⟩, ih (fun c' hc' => hcs c' (List.mem_cons_of_mem _ hc')) ?_⟩
    cases c with
    | createTable => rfl
    | script => exact htable
    | insertVersion => exact Option.isSome_map.trans htable
    | updateVersion => exact Option.isSome_map.trans htable

/-- The rows of a name that is a text. -/
lemma selects_eq {name : String} (hname : D.quoted name = .text) (row : String × ℤ) :
    D.selects name row = (row.1 == name) := by
  rw [Driver.selects, hname]

/-- **The query of a name that is a text** finds the recorded version. -/
lemma find_eq {name : String} (hname : D.quoted name = .text) (db : Db) :
    D.find db name = if db.hasTable then some (db.recorded name) else none := by
  have hlookup (rows : List (String × ℤ)) :
      (rows.find? (D.selects name)).map (·.2) = rows.lookup name := by
    induction rows with
    | nil => rfl
    | cons r rows ih =>
      obtain ⟨k, w⟩ := r
      rw [List.find?_cons, selects_eq hname, List.lookup_cons, BEq.comm (a := name)]
      cases k == name with
      | true => rfl
      | false => exact ih
  unfold Driver.find Db.recorded Db.hasTable
  rw [hname]
  cases db.table with
  | none => rfl
  | some rows => exact congrArg some (hlookup rows)

/-- A version that fits is kept by the cast. -/
lemma castInt_eq (hv : 1 ≤ v) (hfits : v < 2 ^ 31) : castInt v = v :=
  Int.bmod_eq_of_le (by omega) (by omega)

/-- A recorded version is in the table. -/
lemma hasTable_of_recorded {db : Db} {name : String} (h : db.recorded name = some v) :
    db.hasTable = true := by
  unfold Db.recorded at h
  unfold Db.hasTable
  cases htable : db.table with
  | none =>
    rw [htable] at h
    cases h
  | some rows => rfl

/-- The recorded version after an `UPDATE` for a name that is a text.

**Proof sketch.** By induction on the rows: for a name that is a text, the rows that are selected
are those of the name. -/
lemma recorded_update {name : String} (hname : D.quoted name = .text) (db : Db) (name' : String)
    (version : ℤ) : (D.apply db (.updateVersion name version)).recorded name' =
      if name' = name then (db.recorded name').map fun _ => version else db.recorded name' := by
  have hlookup (rows : List (String × ℤ)) :
      (rows.map fun r => if D.selects name r then (r.1, version) else r).lookup name' =
        if name' = name then (rows.lookup name').map fun _ => version else rows.lookup name' := by
    induction rows with
    | nil => simp
    | cons r rows ih =>
      obtain ⟨k, w⟩ := r
      rw [List.map_cons]
      simp only [selects_eq hname, beq_iff_eq] at ih ⊢
      by_cases hk : name' = k
      · subst hk
        by_cases hsame : name' = name <;> simp [hsame]
      · have hbeq : (name' == k) = false := by simpa using hk
        by_cases hsame : k = name
        · simp only [hsame, if_true, List.lookup_cons, hsame ▸ hbeq, ih]
        · simp only [hsame, if_false, List.lookup_cons, hbeq, ih]
  unfold Db.recorded Driver.apply
  cases db.table with
  | none => simp
  | some rows => exact hlookup rows

/-- Scripts are executed and nothing else happens. -/
lemma foldl_scripts (db : Db) (ss : List Script) :
    (ss.map Command.script).foldl D.apply db = { db with executed := db.executed ++ ss } := by
  induction ss generalizing db with
  | nil => simp
  | cons x ss ih => simp [ih, Driver.apply]

/-- A call from the session `s` returns, executes the scripts `ss` and leaves the recorded version
`version`; the versions of other modules stay as they are. -/
structure Executes (D : Driver) (m : Module) (scripts : List String) (s : Session Db)
    (ss : List Script) (version : ℤ) : Prop where
  returns : (dbUpgrade D m scripts s).1 = .ok ()
  executed : (dbUpgrade D m scripts s).2.data.executed = s.data.executed ++ ss
  recorded : (dbUpgrade D m scripts s).2.data.recorded m.name = some version
  others : ∀ name ≠ m.name,
    (dbUpgrade D m scripts s).2.data.recorded name = s.data.recorded name

/-- The table is found. -/
lemma prepared_of_table (hD : ∀ n, D.fault n = none) (htable : s.data.hasTable = true) :
    Prepares D s ∧ prepared D s = s.tick := by
  refine ⟨⟨hD _, fun h => ?_⟩, ?_⟩
  · rw [htable] at h
    cases h
  · simp [prepared, htable]

/-- The recorded version is read. -/
lemma readVersion_eq (hD : ∀ n, D.fault n = none) (hname : D.quoted m.name = .text)
    (hv : s.data.recorded m.name = some v) (hpos : 1 ≤ v) (hint : v < 2 ^ 31) :
    readVersion D m s.tick = v := by
  have hfind : D.find s.tick.data m.name = some (some v) := by
    rw [find_eq hname, tick_data, if_pos (hasTable_of_recorded hv), hv]
  have hreads : Reads D m s.tick := ⟨hD _, by rw [hfind]; rfl⟩
  rw [readVersion, if_pos hreads, hfind]
  exact castInt_eq hpos hint

/-- A call that has no commands to execute. -/
lemma executes_nothing (hD : ∀ n, D.fault n = none) (hname : D.quoted m.name = .text)
    (hv : s.data.recorded m.name = some v) (hpos : 1 ≤ v) (hint : v < 2 ^ 31)
    (hcmds : commands m scripts v = ([], false)) :
    (dbUpgrade D m scripts s).1 = .ok () ∧ (dbUpgrade D m scripts s).2.data = s.data := by
  obtain ⟨hprepares, hprepared⟩ := prepared_of_table hD (hasTable_of_recorded hv)
  cases hidle : scripts.isEmpty && m.create.isNone with
  | true =>
    rw [dbUpgrade_idle hprepares hidle, hprepared]
    exact ⟨rfl, rfl⟩
  | false =>
    rw [dbUpgrade_eq hprepares hidle, hprepared, readVersion_eq hD hname hv hpos hint, hcmds]
    exact ⟨rfl, rfl⟩

/-- The commands of a call for a module that exists. -/
lemma commands_of_pos (hv : 1 ≤ v) : commands m scripts v = upgradeCommands m scripts v :=
  if_neg (by omega)

/-- The scripts that an upgrade executes. -/
lemma scriptsFrom_eq (hstart : 2 ≤ m.start) (hfits : m.start + scripts.length < 2 ^ 31) :
    scriptsFrom m.start (v - m.start + 1) scripts =
      (numbered m.start scripts).filter (fun s => v < s.number) := by
  rw [filter_numbered, scriptsFrom, countOf_eq (by omega), Int.toNat_natCast, List.take_length]

/-- **A call for a recent version** executes the scripts above it.

**Proof sketch.** If all scripts are recorded, then nothing is executed. Otherwise the commands are
those of the scripts above the version and the update of the record, and without faults all of them
are executed. -/
theorem executes_recent (hD : ∀ n, D.fault n = none) (hname : D.quoted m.name = .text)
    (hstart : 2 ≤ m.start) (hfits : m.start + scripts.length < 2 ^ 31)
    (hv : s.data.recorded m.name = some v) (hint : v < 2 ^ 31) (hrecent : m.start - 1 ≤ v) :
    Executes D m scripts s ((numbered m.start scripts).filter (fun s => v < s.number))
      (max v (m.start + scripts.length - 1)) := by
  have hpos : 1 ≤ v := by omega
  have hcmds : commands m scripts v = _ := commands_of_pos hpos
  rw [upgradeCommands, upgradeRange_eq hstart hfits hrecent] at hcmds
  by_cases hto : m.start + scripts.length - 1 ≤ v
  · rw [if_pos hto] at hcmds
    obtain ⟨hreturns, hdata⟩ := executes_nothing hD hname hv hpos hint hcmds
    refine ⟨hreturns, ?_, ?_, ?_⟩
    · rw [hdata, filter_eq_nil hto, List.append_nil]
    · rw [hdata, hv, max_eq_left hto]
    · intro name _
      rw [hdata]
  · set ss := (numbered m.start scripts).filter (fun s => v < s.number) with hss
    have hcmds : commands m scripts v =
        (ss.map .script ++ [.updateVersion m.name (m.start + scripts.length - 1)], false) := by
      rw [hcmds, if_neg hto, hss, ← scriptsFrom_eq hstart hfits]
    obtain ⟨hprepares, hprepared⟩ := prepared_of_table hD (hasTable_of_recorded hv)
    have hidle : (scripts.isEmpty && m.create.isNone) = false := by
      cases scripts with
      | nil =>
        simp only [List.length_nil, Nat.cast_zero] at hto
        omega
      | cons => rfl
    have haccepts : AcceptsAll D s.tick.tick (commands m scripts v).1 :=
      acceptsAll_of_table hD hname _
        (by rw [commands_of_pos hpos]; exact upgradeCommands_isFor) (hasTable_of_recorded hv)
    have hrun : dbUpgrade D m scripts s =
        (.ok (), afterAll D s.tick.tick (commands m scripts v).1) := by
      rw [dbUpgrade_eq hprepares hidle, hprepared, readVersion_eq hD hname hv hpos hint, finish,
        bind_ok (execAll_ok haccepts), hcmds]
      rfl
    have hdata : (dbUpgrade D m scripts s).2.data =
        D.apply { s.data with executed := s.data.executed ++ ss }
          (.updateVersion m.name (m.start + scripts.length - 1)) := by
      rw [hrun, afterAll_data, hcmds, List.foldl_append, tick_data, tick_data, foldl_scripts]
      rfl
    have hrecorded (name : String) :
        ({ s.data with executed := s.data.executed ++ ss } : Db).recorded name =
          s.data.recorded name := rfl
    refine ⟨by rw [hrun], by rw [hdata]; rfl, ?_, ?_⟩
    · rw [hdata, recorded_update hname, if_pos rfl, hrecorded, hv, max_eq_right (by omega)]
      rfl
    · intro name hother
      rw [hdata, recorded_update hname, if_neg hother, hrecorded]

/-- **A call for an old version** executes nothing. -/
theorem executes_old (hD : ∀ n, D.fault n = none) (hname : D.quoted m.name = .text)
    (hstart : 2 ≤ m.start) (hfits : m.start + scripts.length < 2 ^ 31)
    (hv : s.data.recorded m.name = some v) (hint : v < 2 ^ 31) (hpos : 1 ≤ v)
    (hold : v < m.start - 1) : Executes D m scripts s [] v := by
  have hcmds : commands m scripts v = _ := commands_of_pos hpos
  rw [upgradeCommands, upgradeRange_old hstart (by omega) hold] at hcmds
  obtain ⟨hreturns, hdata⟩ := executes_nothing hD hname hv hpos hint hcmds
  exact ⟨hreturns, by rw [hdata, List.append_nil], by rw [hdata, hv], fun _ _ => by rw [hdata]⟩

/-! ## Several calls -/

/-- The session after a call. -/
def upgraded (D : Driver) (m : Module) (scripts : List String) (s : Session Db) : Session Db :=
  (dbUpgrade D m scripts s).2

/-- The scripts above a version, when some of them were executed before. -/
lemma filter_numbered_append (number version : ℤ) (ps qs : List String) :
    (numbered number ps).filter (fun s => version < s.number) ++
      (numbered number (ps ++ qs)).filter
        (fun s => max version (number + ps.length - 1) < s.number) =
      (numbered number (ps ++ qs)).filter (fun s => version < s.number) := by
  rw [numbered_append, List.filter_append, List.filter_append]
  have hsame : (numbered (number + ps.length) qs).filter
      (fun s => max version (number + ps.length - 1) < s.number) =
      (numbered (number + ps.length) qs).filter (fun s => version < s.number) := by
    refine List.filter_congr fun x hx => ?_
    have := number_of_mem hx
    rw [decide_eq_decide]
    omega
  rw [filter_eq_nil (le_max_right _ _), hsame, List.nil_append]

/-- A call for the module `m` at the version `v` executes the scripts above `v`, one with a part of
the list before it changes nothing about that, and neither does the same call once more. -/
structure Composes (D : Driver) (m : Module) (scripts : List String) (s : Session Db) (v : ℤ) :
    Prop where
  call : Executes D m scripts s ((numbered m.start scripts).filter (fun s => v < s.number))
    (max v (m.start + scripts.length - 1))
  split : ∀ ps, ps <+: scripts →
    (upgraded D m scripts (upgraded D m ps s)).data.executed =
      (upgraded D m scripts s).data.executed
  again : Executes D m scripts (upgraded D m scripts s) [] (max v (m.start + scripts.length - 1))

/-- **The calls compose**, without failures and overflow, for a module whose name the engine takes
for a text and whose recorded version is an `int`: a call from a recent version executes exactly the
scripts above it, whether in one call or in two, and a call from an old one executes nothing.

**Proof sketch.** The query finds the recorded version, and the arithmetic leaves the scripts above
it. After the first part of the list the version is that of its last script, or the one before if
that is greater; what is left above it for the whole list are the other scripts above the first
version. The same call once more finds its last script recorded. -/
theorem upgrade_composes (D : Driver) (hD : ∀ n, D.fault n = none) (m : Module)
    (hname : D.quoted m.name = .text) (scripts : List String) (hstart : 2 ≤ m.start)
    (hfits : m.start + scripts.length < 2 ^ 31) (s : Session Db) (v : ℤ)
    (hv : s.data.recorded m.name = some v) (hint : v < 2 ^ 31) :
    (m.start - 1 ≤ v → Composes D m scripts s v) ∧
      (1 ≤ v → v < m.start - 1 → Executes D m scripts s [] v) := by
  refine ⟨fun hrecent => ?_, executes_old hD hname hstart hfits hv hint⟩
  have hcall := executes_recent hD hname hstart hfits hv hint hrecent
  refine ⟨hcall, ?_, ?_⟩
  · rintro ps ⟨qs, rfl⟩
    rw [List.length_append, Nat.cast_add] at hfits
    have hpart : Executes D m ps s _ _ :=
      executes_recent hD hname hstart (by omega) hv hint hrecent
    have hrest : Executes D m (ps ++ qs) (upgraded D m ps s) _ _ :=
      executes_recent hD hname hstart (by rw [List.length_append, Nat.cast_add]; exact hfits)
        hpart.recorded (by omega) (by omega)
    calc (upgraded D m (ps ++ qs) (upgraded D m ps s)).data.executed
        = s.data.executed ++ (numbered m.start ps).filter (fun s => v < s.number) ++
            (numbered m.start (ps ++ qs)).filter
              (fun s => max v (m.start + ps.length - 1) < s.number) := by
          rw [← hpart.executed]
          exact hrest.executed
      _ = s.data.executed ++ (numbered m.start (ps ++ qs)).filter (fun s => v < s.number) := by
          rw [List.append_assoc, filter_numbered_append]
      _ = (upgraded D m (ps ++ qs) s).data.executed := hcall.executed.symm
  · have hagain : Executes D m scripts (upgraded D m scripts s) _ _ :=
      executes_recent hD hname hstart hfits hcall.recorded (by omega) (by omega)
    rwa [filter_eq_nil (le_max_right _ _), max_eq_left (le_max_right _ _)] at hagain

/-- A module that was created, and two scripts. -/
theorem upgrade_composes_two :
    Composes ⟨fun _ => none, true, fun _ => .text⟩ ⟨"test", 2, some "create"⟩ ["a", "b"]
      ⟨⟨some [("test", 1)], [.create "create"]⟩, none, 0, []⟩ 1 :=
  (upgrade_composes _ (fun _ => rfl) _ rfl _ (by decide) (by decide) _ 1 (by decide)
    (by decide)).1 (by decide)

/-- Without failures, three calls that do not do this. The arithmetic overflows where
`start_version` is the greatest `int` and there are two scripts. SQLite takes the name `version`
for the column of that name and compares the module of a row with its number, so that it finds no
row and the create script is executed again. The version `2 ^ 32` is cast to `0`, with the same
result.

**Proof sketch.** Each call is computed; the first throws, and the others execute the create script
again. -/
theorem not_composes :
    let D : Driver := ⟨fun _ => none, true, fun name =>
      if name = "version" then .condition fun row => row.1 == toString row.2 else .text⟩
    (¬ Composes D ⟨"test", 2147483647, some "create"⟩ ["a", "b"]
      ⟨⟨some [("test", 2147483646)], [.create "create"]⟩, none, 0, []⟩ 2147483646) ∧
    (¬ Composes D ⟨"version", 2, some "create"⟩ ["a", "b"]
      ⟨⟨some [("version", 1)], [.create "create"]⟩, none, 0, []⟩ 1) ∧
    ¬ Composes D ⟨"test", 2, some "create"⟩ ["a"]
      ⟨⟨some [("test", 2 ^ 32)], [.create "create"]⟩, none, 0, []⟩ (2 ^ 32) := by
  intro D
  refine ⟨fun h => ?overflow, fun h => ?column, fun h => ?cast⟩
  case overflow =>
    have hreturns := h.call.returns
    revert hreturns
    decide
  case column =>
    have hexecuted := h.call.executed
    revert hexecuted
    decide
  case cast =>
    have hexecuted := h.call.executed
    revert hexecuted
    decide

end HkuUtils.DBUpgrade
