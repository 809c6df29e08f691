import HkuUtils.DBUpgrade.Model

set_option relaxedAutoImplicit false
set_option autoImplicit false

/-!
# What a call of `DBUpgrade` executes

Once a call knows the version of its module, the commands that are left are settled. They are
executed one after the other up to the first that fails.

## Main definitions

* `HkuUtils.DBUpgrade.commands` — the commands for a version, and whether an overflow follows them.
* `HkuUtils.DBUpgrade.AcceptsAll` — the driver executes a list of commands.
* `HkuUtils.DBUpgrade.Prepares`, `Reads` — how a call gets to the version.

## Main results

* `HkuUtils.DBUpgrade.execAll_ok`, `execAll_error` — the commands of a list that are executed.
* `HkuUtils.DBUpgrade.dbUpgrade_unprepared`, `dbUpgrade_idle`, `dbUpgrade_eq` — the three ways of
  a call.
-/

namespace HkuUtils.DBUpgrade

open Fallible Transaction

variable (D : Driver) (m : Module) (scripts : List String)

/-! ## Lists of commands -/

/-- The commands are executed one after the other. -/
def execAll : List Command → OnDb Unit
  | [] => return ()
  | c :: cs => do
    exec D c
    execAll cs

/-- The driver executes a command. -/
def Accepts (s : Session Db) (c : Command) : Prop :=
  D.fault s.clock = none ∧ D.executes s.data c = true

instance (s : Session Db) (c : Command) : Decidable (Accepts D s c) :=
  inferInstanceAs (Decidable (_ ∧ _))

/-- The session after a command was executed. -/
def after (s : Session Db) (c : Command) : Session Db := { s.tick with data := D.apply s.data c }

/-- The session after some commands were executed. -/
def afterAll (s : Session Db) : List Command → Session Db
  | [] => s
  | c :: cs => afterAll (after D s c) cs

/-- A command is one attempt. -/
@[simp]
lemma after_clock (s : Session Db) (c : Command) : (after D s c).clock = s.clock + 1 := rfl

/-- A command changes the data as it says. -/
@[simp]
lemma after_data (s : Session Db) (c : Command) : (after D s c).data = D.apply s.data c := rfl

/-- An attempt alone changes no data. -/
@[simp]
lemma tick_data (s : Session Db) : s.tick.data = s.data := rfl

/-- The database after some commands. -/
lemma afterAll_data (s : Session Db) (cs : List Command) :
    (afterAll D s cs).data = cs.foldl D.apply s.data := by
  induction cs generalizing s with
  | nil => rfl
  | cons c cs ih => exact ih (after D s c)

/-- The driver executes a list of commands. -/
def AcceptsAll (s : Session Db) : List Command → Prop
  | [] => True
  | c :: cs => Accepts D s c ∧ AcceptsAll (after D s c) cs

instance decidableAcceptsAll (s : Session Db) :
    ∀ cs : List Command, Decidable (AcceptsAll D s cs)
  | [] => isTrue trivial
  | c :: cs =>
    have := decidableAcceptsAll (after D s c) cs
    inferInstanceAs (Decidable (_ ∧ _))

variable {D m scripts} {s : Session Db} {c : Command} {cs cs' : List Command}

/-- An attempt of the driver. -/
lemma attempt_fault {what : String} (h : D.fault s.clock = some what) :
    attempt D.engine s = (.error (.driver what), s.tick) :=
  attempt_error (by simp [Driver.engine, h])

/-- An attempt of the driver that does not fail. -/
lemma attempt_accepted (h : D.fault s.clock = none) : attempt D.engine s = (.ok (), s.tick) :=
  attempt_ok (by simp [Driver.engine, h])

/-- A command that is executed. -/
lemma exec_ok (h : Accepts D s c) : exec D c s = (.ok (), after D s c) := by
  obtain ⟨hfault, hexecutes⟩ := h
  rw [exec, bind_ok (attempt_accepted hfault), bind_ok (get_apply _)]
  simp only [tick_data, hexecutes, if_true]
  rfl

/-- A command that is not executed. -/
lemma exec_error (h : ¬ Accepts D s c) :
    ∃ e, e ≠ .overflow ∧ exec D c s = (.error e, s.tick) := by
  cases hfault : D.fault s.clock with
  | some what => exact ⟨.driver what, nofun, bind_error (attempt_fault hfault) _⟩
  | none =>
    refine ⟨.refused, nofun, ?_⟩
    rw [exec, bind_ok (attempt_accepted hfault), bind_ok (get_apply _)]
    have hrefuses : ¬ D.executes s.data c = true := fun hexecutes => h ⟨hfault, hexecutes⟩
    simp only [tick_data, hrefuses]
    rfl

/-- All commands are executed. -/
lemma execAll_ok (h : AcceptsAll D s cs) : execAll D cs s = (.ok (), afterAll D s cs) := by
  induction cs generalizing s with
  | nil => rfl
  | cons c cs ih =>
    rw [execAll, bind_ok (exec_ok h.1)]
    exact ih h.2

/-- The commands before the first one that fails are executed. -/
lemma execAll_error (h : ¬ AcceptsAll D s cs) :
    ∃ done c rest e, cs = done ++ c :: rest ∧ AcceptsAll D s done ∧
      ¬ Accepts D (afterAll D s done) c ∧ e ≠ .overflow ∧
      execAll D cs s = (.error e, (afterAll D s done).tick) := by
  induction cs generalizing s with
  | nil => exact absurd trivial h
  | cons c cs ih =>
    by_cases hc : Accepts D s c
    · obtain ⟨done, c', rest, e, rfl, hdone, hc', he, hrun⟩ :=
        ih fun hcs => h ⟨hc, hcs⟩
      exact ⟨c :: done, c', rest, e, rfl, ⟨hc, hdone⟩, hc', he,
        by rw [execAll, bind_ok (exec_ok hc), hrun]; rfl⟩
    · obtain ⟨e, he, hrun⟩ := exec_error hc
      exact ⟨[], c, cs, e, rfl, trivial, hc, he, by rw [execAll, bind_error hrun]; rfl⟩

/-- Commands after others. -/
lemma execAll_append (cs cs' : List Command) :
    execAll D (cs ++ cs') = (do execAll D cs; execAll D cs' : OnDb Unit) := by
  induction cs with
  | nil => rfl
  | cons c cs ih => simp only [List.cons_append, execAll, ih, bind_assoc]

/-- The scripts are executed as commands. -/
lemma execScripts_eq (ss : List Script) : execScripts D ss = execAll D (ss.map .script) := by
  induction ss with
  | nil => rfl
  | cons s ss ih => rw [execScripts, ih, List.map_cons, execAll]

/-! ## The commands for a version -/

/-- The commands of the upgrade of a module that has the version `version`, and whether the
arithmetic overflows. -/
def upgradeCommands (m : Module) (scripts : List String) (version : ℤ) : List Command × Bool :=
  match upgradeRange m.start version scripts.length with
  | .error _ => ([], true)
  | .ok none => ([], false)
  | .ok (some (startIndex, toVersion)) =>
    ((scriptsFrom m.start startIndex scripts).map .script ++ [.updateVersion m.name toVersion],
      false)

/-- The commands of a call that takes `version` for the version of its module, and whether an
overflow follows them. -/
def commands (m : Module) (scripts : List String) (version : ℤ) : List Command × Bool :=
  if version = 0 then
    match m.create with
    | none => ([], false)
    | some text =>
      (.script (.create text) :: .insertVersion m.name 1 :: (upgradeCommands m scripts 1).1,
        (upgradeCommands m scripts 1).2)
  else upgradeCommands m scripts version

/-- The commands are executed, and an overflow follows or not. -/
def finish (D : Driver) (cmds : List Command × Bool) : OnDb Unit := do
  execAll D cmds.1
  if cmds.2 then throw .overflow else return ()

/-- The arithmetic on version numbers fails only by an overflow.

**Proof sketch.** Each sum is either an `int`, and the computation goes on, or the overflow is
reported at once. -/
lemma upgradeRange_error {start version : ℤ} {size : ℕ} {e : Error}
    (h : upgradeRange start version size = .error e) : e = .overflow := by
  have hbind {α : Type} {n : ℤ} {f : ℤ → Except Error α} {e : Error}
      (h : (toInt n >>= f) = .error e) : e = .overflow ∨ f n = .error e := by
    unfold toInt at h
    split at h
    · exact Or.inr h
    · exact Or.inl (Except.error.inj h).symm
  unfold upgradeRange at h
  rcases hbind h with he | h
  · exact he
  split at h
  · cases h
  split at h
  · cases h
  rcases hbind h with he | h
  · exact he
  rcases hbind h with he | h
  · exact he
  split at h
  · cases h
  split at h
  · cases h
  rcases hbind h with he | h
  · exact he
  rcases hbind h with he | h
  · exact he
  cases h

/-- The upgrade executes its commands. -/
lemma upgradeFrom_eq (D : Driver) (m : Module) (scripts : List String) (version : ℤ) :
    upgradeFrom D m scripts version = finish D (upgradeCommands m scripts version) := by
  unfold upgradeFrom upgradeCommands
  cases h : upgradeRange m.start version scripts.length with
  | error e =>
    obtain rfl := upgradeRange_error h
    rfl
  | ok range =>
    cases range with
    | none => rfl
    | some range =>
      obtain ⟨startIndex, toVersion⟩ := range
      simp [finish, execAll_append, execScripts_eq, execAll]

/-! ## How a call gets to the version -/

/-- The table `module_version` is there or created, or the driver does not create it. -/
def Prepares (D : Driver) (s : Session Db) : Prop :=
  D.fault s.clock = none ∧
    (s.data.hasTable = false → D.createsTable = true → D.fault (s.clock + 1) = none)

instance (s : Session Db) : Decidable (Prepares D s) := inferInstanceAs (Decidable (_ ∧ _))

/-- The session then. -/
def prepared (D : Driver) (s : Session Db) : Session Db :=
  if !s.data.hasTable && D.createsTable then after D s.tick .createTable else s.tick

/-- The query of the version does not fail. -/
def Reads (D : Driver) (m : Module) (s : Session Db) : Prop :=
  D.fault s.clock = none ∧ (D.find s.data m.name).isSome = true

instance (s : Session Db) : Decidable (Reads D m s) := inferInstanceAs (Decidable (_ ∧ _))

/-- The version that a call takes for that of its module. -/
def readVersion (D : Driver) (m : Module) (s : Session Db) : ℤ :=
  if Reads D m s then ((D.find s.data m.name).join.map castInt).getD 0 else 0

/-- The table is there or not. -/
lemma tableExist_ok (h : D.fault s.clock = none) :
    tableExist D s = (.ok s.data.hasTable, s.tick) := by
  rw [tableExist, bind_ok (attempt_accepted h), bind_ok (get_apply _)]
  rfl

/-- The table is created if it is missing. -/
lemma createVersionTable_ok (h : Prepares D s) :
    createVersionTable D s = (.ok (), prepared D s) := by
  obtain ⟨hexist, hcreate⟩ := h
  rw [createVersionTable, bind_ok (tableExist_ok hexist), prepared]
  cases htable : s.data.hasTable with
  | true => rfl
  | false =>
    cases hcreates : D.createsTable with
    | false => rfl
    | true =>
      have haccept : Accepts D s.tick .createTable := ⟨hcreate htable hcreates, rfl⟩
      exact exec_ok haccept

/-- The table is missing, or nobody knows, and is not created. -/
lemma createVersionTable_error (h : ¬ Prepares D s) :
    ∃ e t, e ≠ .overflow ∧ t.data = s.data ∧ createVersionTable D s = (.error e, t) := by
  cases hexist : D.fault s.clock with
  | some what =>
    have hthrow : tableExist D s = (.error (.driver what), s.tick) :=
      bind_error (attempt_fault hexist) _
    exact ⟨.driver what, s.tick, nofun, rfl, bind_error hthrow _⟩
  | none =>
    have hcreate : s.data.hasTable = false ∧ D.createsTable = true ∧
        ¬ Accepts D s.tick .createTable := by
      by_contra hnot
      refine h ⟨hexist, fun htable hcreates => ?_⟩
      by_contra hfault
      exact hnot ⟨htable, hcreates, fun haccept => hfault haccept.1⟩
    obtain ⟨htable, hcreates, haccept⟩ := hcreate
    obtain ⟨e, he, hrun⟩ := exec_error haccept
    refine ⟨e, s.tick.tick, he, rfl, ?_⟩
    rw [createVersionTable, bind_ok (tableExist_ok hexist), htable, hcreates]
    exact hrun

/-- The database refuses the query: the table is missing, or a name that it reads as a column. -/
lemma queryInt_missing {moduleName : String} {default : ℤ} (hfault : D.fault s.clock = none)
    (hfind : D.find s.data moduleName = none) :
    queryInt D moduleName default s = (.error .refused, s.tick) := by
  rw [queryInt, bind_ok (attempt_accepted hfault), bind_ok (get_apply _),
    show D.find s.tick.data moduleName = none from hfind]
  rfl

/-- The database answers the query, with no row or with a version that is cut to an `int`. -/
lemma queryInt_found {moduleName : String} {default : ℤ} {found : Option ℤ}
    (hfault : D.fault s.clock = none) (hfind : D.find s.data moduleName = some found) :
    queryInt D moduleName default s = (.ok (found.elim default castInt), s.tick) := by
  rw [queryInt, bind_ok (attempt_accepted hfault), bind_ok (get_apply _),
    show D.find s.tick.data moduleName = some found from hfind]
  cases found with
  | none => rfl
  | some version => rfl

/-- The version of the module, as far as the query tells.

**Proof sketch.** By cases on whether the query fails, whether it finds a row, and whether the
column is null; in the first two an exception is caught. -/
lemma versionOf_eq (D : Driver) (m : Module) (s : Session Db) :
    versionOf D m s = (.ok (readVersion D m s), s.tick) := by
  unfold versionOf readVersion
  cases hfault : D.fault s.clock with
  | some what =>
    have hthrow : queryInt D m.name 0 s = (.error (.driver what), s.tick) :=
      bind_error (attempt_fault hfault) _
    rw [tryCatch_error hthrow, if_neg fun h => by simp [Reads, hfault] at h]
    rfl
  | none =>
    cases hfind : D.find s.data m.name with
    | none =>
      rw [tryCatch_error (queryInt_missing hfault hfind),
        if_neg fun h => by simp [Reads, hfind] at h]
      rfl
    | some found =>
      have hreads : Reads D m s := ⟨hfault, by rw [hfind]; rfl⟩
      rw [if_pos hreads, tryCatch_ok (queryInt_found hfault hfind)]
      cases found with
      | none => rfl
      | some version => rfl

/-! ## A call -/

/-- The table cannot be created, or nobody knows whether it exists. -/
lemma dbUpgrade_unprepared (h : ¬ Prepares D s) (m : Module) (scripts : List String) :
    ∃ e t, e ≠ .overflow ∧ t.data = s.data ∧ dbUpgrade D m scripts s = (.error e, t) := by
  obtain ⟨e, t, he, ht, hrun⟩ := createVersionTable_error h
  exact ⟨e, t, he, ht, bind_error hrun _⟩

/-- There are no scripts at all. -/
lemma dbUpgrade_idle (h : Prepares D s) (hidle : (scripts.isEmpty && m.create.isNone) = true) :
    dbUpgrade D m scripts s = (.ok (), prepared D s) := by
  rw [dbUpgrade, bind_ok (createVersionTable_ok h), if_pos hidle]
  rfl

/-- **A call that knows the version** executes the commands for it.

**Proof sketch.** Creating the module and upgrading it are the same list of commands, executed one
after another, and the rest of the function is `finish`. -/
lemma dbUpgrade_eq (h : Prepares D s) (hidle : (scripts.isEmpty && m.create.isNone) = false) :
    dbUpgrade D m scripts s =
      finish D (commands m scripts (readVersion D m (prepared D s))) (prepared D s).tick := by
  have hbody (version : ℤ) : (if version = 0 then
        match m.create with
        | none => return ()
        | some text => do
          exec D (.script (.create text))
          exec D (.insertVersion m.name 1)
          upgradeFrom D m scripts 1
      else upgradeFrom D m scripts version : OnDb Unit) =
      finish D (commands m scripts version) := by
    unfold commands
    split
    · cases m.create with
      | none => rfl
      | some text =>
        simp only [upgradeFrom_eq, finish, execAll, bind_assoc]
    · exact upgradeFrom_eq D m scripts version
  rw [dbUpgrade, bind_ok (createVersionTable_ok h), if_neg (by rw [hidle]; decide),
    bind_ok (versionOf_eq D m _)]
  exact congrFun (hbody _) _

end HkuUtils.DBUpgrade
