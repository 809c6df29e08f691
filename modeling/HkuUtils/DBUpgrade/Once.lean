import HkuUtils.Transition
import HkuUtils.DBUpgrade.Composition

set_option relaxedAutoImplicit false
set_option autoImplicit false

/-!
# Each script at most once

Calls of `DBUpgrade` for one module, with lists of scripts that extend one another, when any call
into the driver may fail. A script is executed first and recorded later, and a version that cannot
be read is taken for that of a module that does not exist. The engine has to take the name of the
module between double quotes for that text; for another one it does not find the version either.

## Main definitions

* `HkuUtils.DBUpgrade.system` — the calls one after the other.
* `HkuUtils.DBUpgrade.Once` — no script was executed twice, and the recorded version is that of the
  last one.
* `HkuUtils.DBUpgrade.InStep`, `Behind` — all executed scripts are recorded, or some are not.
* `HkuUtils.DBUpgrade.Safe` — what must not fail in a call.

## Main results

* `HkuUtils.DBUpgrade.upgradeRange_some`, `scriptsFrom_numbered` — what is executed from any
  version.
* `HkuUtils.DBUpgrade.upgrade_ends`, `create_ends` — how far the scripts of a call get.
* `HkuUtils.DBUpgrade.kept_of_safe`, `safe_of_once` — one call.
* `HkuUtils.DBUpgrade.scripts_once`, `script_twice` — every run of calls, and three in which a
  script is executed twice.
-/

namespace HkuUtils.DBUpgrade

open Fallible Transaction Transition

/-! ## The calls -/

/-- A session with a database, and the end of the last call. -/
structure Calls where
  session : Session Db
  ended : Except Error Unit

/-- The call with the first `n` of the scripts `texts`. -/
def call (D : Driver) (m : Module) (texts : List String) (s : Calls) (n : ℕ) : Calls :=
  ⟨(dbUpgrade D m (texts.take n) s.session).2, (dbUpgrade D m (texts.take n) s.session).1⟩

/-- The calls for a module whose scripts are `texts`, each with some of the first of them. -/
def system (D : Driver) (m : Module) (texts : List String) (db : Db) : System Calls ℕ where
  init := ⟨⟨db, none, 0, []⟩, .ok ()⟩
  step s n := some (call D m texts s n)

/-- The last script that was executed is the recorded one. -/
def Db.UpToDate (db : Db) (m : Module) : Prop := db.recorded m.name = db.last

instance (db : Db) (m : Module) : Decidable (db.UpToDate m) :=
  inferInstanceAs (Decidable (_ = _))

/-- No script was executed twice, a call that has returned has recorded the last one, and no
arithmetic has overflowed. -/
structure Once (m : Module) (s : Calls) : Prop where
  nodup : s.session.data.executed.Nodup
  recorded : s.ended = .ok () → s.session.data.UpToDate m
  defined : s.ended ≠ .error .overflow

/-- The first command of a list fails. -/
def FailsFirst (D : Driver) (s : Session Db) : List Command → Prop
  | [] => False
  | c :: _ => ¬ Accepts D s c

instance (s : Session Db) (D : Driver) : ∀ cs : List Command, Decidable (FailsFirst D s cs)
  | [] => inferInstanceAs (Decidable False)
  | _ :: _ => inferInstanceAs (Decidable (¬ _))

/-- What must not happen in a call that gets to the version. If all executed scripts are recorded:
the query of a recorded version fails and the create script is executed, or the arithmetic
overflows. If not: a script is executed, or there is none to execute. -/
def Safe (D : Driver) (m : Module) (texts : List String) (s : Session Db) (n : ℕ) : Prop :=
  Prepares D s →
    if ((texts.take n).isEmpty && m.create.isNone) = true then s.data.UpToDate m
    else
      let t := prepared D s
      let cmds := commands m (texts.take n) (readVersion D m t)
      if s.data.UpToDate m then
        (¬ Reads D m t → (s.data.recorded m.name).isSome = true → m.create.isSome = true →
          D.fault t.tick.clock ≠ none) ∧ ¬ (cmds.2 = true ∧ AcceptsAll D t.tick cmds.1)
      else FailsFirst D t.tick cmds.1

instance (D : Driver) (m : Module) (texts : List String) (s : Session Db) (n : ℕ) :
    Decidable (Safe D m texts s n) :=
  inferInstanceAs (Decidable (_ → ite _ _ (ite _ (_ ∧ ¬ (_ ∧ _)) _)))

/-! ## What an upgrade executes -/

/-- A step of the arithmetic that has a result stays within `int`. -/
lemma toInt_bind {α : Type} {n : ℤ} {f : ℤ → Except Error α} {a : α}
    (h : (toInt n >>= f) = .ok a) : IsInt n ∧ f n = .ok a := by
  unfold toInt at h
  split at h
  next hint => exact ⟨hint, h⟩
  · cases h

/-- **An upgrade that has scripts to execute** starts at the one above the version, and leads to
one that is an `int`.

**Proof sketch.** The function is read from its end: every step of its arithmetic has stayed in
range, and every test that would have ended it has failed. -/
lemma upgradeRange_some {start version startIndex toVersion : ℤ} {size : ℕ}
    (h : upgradeRange start version size = .ok (some (startIndex, toVersion))) :
    start - 1 ≤ version ∧ startIndex = version - start + 1 ∧
      toVersion = start + countOf size - 1 ∧ version < toVersion ∧ toVersion < 2 ^ 31 := by
  unfold upgradeRange at h
  replace h := (toInt_bind h).2
  split at h
  · cases h
  next hfirst =>
  split at h
  · cases h
  obtain ⟨⟨-, hint⟩, h⟩ := toInt_bind (toInt_bind h).2
  split at h
  · cases h
  next hto =>
  split at h
  · simp only [pure, Except.pure, Except.ok.injEq, Option.some.injEq, Prod.mk.injEq] at h
    omega
  · replace h := (toInt_bind (toInt_bind h).2).2
    simp only [pure, Except.pure, Except.ok.injEq, Option.some.injEq, Prod.mk.injEq] at h
    omega

/-- The scripts from an index on. -/
lemma drop_numbered (number : ℤ) (k : ℕ) (ps : List String) :
    (numbered number ps).drop k = numbered (number + k) (ps.drop k) := by
  induction k generalizing number ps with
  | zero => simp
  | succ k ih =>
    cases ps with
    | nil => simp [numbered]
    | cons p ps =>
      rw [numbered, List.drop_succ_cons, List.drop_succ_cons, ih, Nat.cast_add, Nat.cast_one,
        Int.add_assoc, Int.add_comm 1]

/-- The number of scripts is at most what the cast makes of it. -/
lemma countOf_le (size : ℕ) : countOf size ≤ size := by
  unfold countOf
  rw [Int.bmod_def]
  split <;> omega

/-- The scripts of an upgrade are numbered from the one above the version on.

**Proof sketch.** What is dropped of the list are the scripts up to the version, and what is left
begins with the one above it. There is one at least, since the version to be reached is greater. -/
lemma scriptsFrom_numbered {start version startIndex toVersion : ℤ} {ps : List String}
    (h : upgradeRange start version ps.length = .ok (some (startIndex, toVersion))) :
    ∃ text qs, scriptsFrom start startIndex ps = numbered (version + 1) (text :: qs) ∧
      toVersion = version + (text :: qs).length ∧ toVersion < 2 ^ 31 ∧
      ps[(version + 1 - start).toNat]? = some text := by
  obtain ⟨hfirst, rfl, rfl, hto, hint⟩ := upgradeRange_some h
  have hle := countOf_le ps.length
  have hlen : ((ps.take (countOf ps.length).toNat).drop (version - start + 1).toNat).length =
      (countOf ps.length).toNat - (version - start + 1).toNat := by
    rw [List.length_drop, List.length_take]
    omega
  have hhead : ((ps.take (countOf ps.length).toNat).drop (version - start + 1).toNat)[0]? =
      ps[(version + 1 - start).toNat]? := by
    rw [List.getElem?_drop, Nat.add_zero, List.getElem?_take_of_lt (by omega)]
    congr 1
    omega
  rw [scriptsFrom, drop_numbered, show start + ((version - start + 1).toNat : ℤ) = version + 1
    by omega]
  cases hqs : (ps.take (countOf ps.length).toNat).drop (version - start + 1).toNat with
  | nil =>
    rw [hqs] at hlen
    simp only [List.length_nil] at hlen
    omega
  | cons text qs =>
    rw [hqs] at hlen hhead
    refine ⟨text, qs, rfl, ?_, hint, hhead.symm⟩
    rw [hlen]
    omega

/-- No two scripts have the same number. -/
lemma nodup_numbered (number : ℤ) (ps : List String) : (numbered number ps).Nodup := by
  induction ps generalizing number with
  | nil => exact List.nodup_nil
  | cons p ps ih =>
    refine List.nodup_cons.mpr ⟨fun hmem => ?_, ih (number + 1)⟩
    have := (number_of_mem hmem).1
    simp only [Script.number] at this
    omega

/-- The number of the last script. -/
lemma last_numbered (number : ℤ) (p : String) (ps : List String) :
    (numbered number (p :: ps)).getLast?.map Script.number = some (number + ps.length) := by
  induction ps generalizing number p with
  | nil => simp [numbered, Script.number]
  | cons q ps ih =>
    have := ih (number + 1) q
    rw [numbered, numbered, List.getLast?_cons_cons, ← numbered, this, List.length_cons,
      Nat.cast_add, Nat.cast_one, Int.add_assoc, Int.add_comm 1]

/-- The first scripts of a list. -/
lemma take_numbered (number : ℤ) (k : ℕ) (ps : List String) :
    (numbered number ps).take k = numbered number (ps.take k) := by
  induction k generalizing number ps with
  | zero => simp [numbered]
  | succ k ih =>
    cases ps with
    | nil => simp [numbered]
    | cons p ps => rw [numbered, List.take_succ_cons, List.take_succ_cons, ih, numbered]

/-- A script of a part of the list. -/
lemma getElem?_of_take {texts : List String} {n i : ℕ} {text : String}
    (h : (texts.take n)[i]? = some text) : texts[i]? = some text := by
  rw [List.getElem?_take] at h
  split at h
  · exact h
  · cases h

/-! ## How far the scripts are recorded -/

section Progress

variable {D : Driver} {m : Module} {texts : List String} {db : Db} {v : ℤ}

/-- The module has the version `v`. -/
structure HasVersion (m : Module) (db : Db) (v : ℤ) : Prop where
  pos : 1 ≤ v
  /-- It is an `int`, so that the query gives it back. -/
  lt : v < 2 ^ 31
  recorded : db.recorded m.name = some v
  last : db.last = some v
  nodup : db.executed.Nodup
  le : ∀ s ∈ db.executed, s.number ≤ v
  create : ∀ text, m.create = some text → .create text ∈ db.executed

/-- All scripts that were executed are recorded. -/
inductive InStep (m : Module) (db : Db) : Prop where
  | fresh (hrecorded : db.recorded m.name = none) (hexecuted : db.executed = [])
  | recorded (v : ℤ) (h : HasVersion m db v)

/-- Some scripts were executed and are not recorded. -/
inductive Behind (m : Module) (texts : List String) (db : Db) : Prop where
  | created (text : String) (hcreate : m.create = some text)
    (hrecorded : db.recorded m.name = none) (hexecuted : db.executed = [.create text])
  | upgraded (v : ℤ) (text : String) (hpos : 1 ≤ v) (hint : v < 2 ^ 31)
    (hrecorded : db.recorded m.name = some v) (hlast : db.last ≠ some v)
    (hnodup : db.executed.Nodup)
    (hcreate : ∀ text, m.create = some text → .create text ∈ db.executed)
    (htext : texts[(v + 1 - m.start).toNat]? = some text)
    (hmem : .upgrade (v + 1) text ∈ db.executed)

/-- Then the last script is the recorded one. -/
lemma InStep.upToDate (h : InStep m db) : db.UpToDate m := by
  cases h with
  | fresh hrecorded hexecuted =>
    rw [Db.UpToDate, hrecorded, Db.last, hexecuted]
    rfl
  | recorded v h => exact h.recorded.trans h.last.symm

/-- No script was executed twice. -/
lemma InStep.nodup (h : InStep m db) : db.executed.Nodup := by
  cases h with
  | fresh hrecorded hexecuted =>
    rw [hexecuted]
    exact List.nodup_nil
  | recorded v h => exact h.nodup

/-- The last script is not the recorded one. -/
lemma Behind.not_upToDate (h : Behind m texts db) : ¬ db.UpToDate m := by
  cases h with
  | created text hcreate hrecorded hexecuted =>
    rw [Db.UpToDate, hrecorded, Db.last, hexecuted]
    simp
  | upgraded v text hpos hint hrecorded hlast =>
    rw [Db.UpToDate, hrecorded]
    exact Ne.symm hlast

/-- Still no script was executed twice. -/
lemma Behind.nodup (h : Behind m texts db) : db.executed.Nodup := by
  cases h with
  | created text hcreate hrecorded hexecuted =>
    rw [hexecuted]
    simp
  | upgraded v text hpos hint hrecorded hlast hnodup => exact hnodup

/-- What is known of a database depends on the recorded version and the executed scripts. -/
lemma InStep.congr {db' : Db} (h : InStep m db)
    (hrecorded : db'.recorded m.name = db.recorded m.name)
    (hexecuted : db'.executed = db.executed) : InStep m db' := by
  cases h with
  | fresh hr he => exact .fresh (hrecorded.trans hr) (hexecuted.trans he)
  | recorded v h =>
    exact .recorded v ⟨h.pos, h.lt, hrecorded.trans h.recorded,
      by rw [Db.last, hexecuted]; exact h.last, hexecuted ▸ h.nodup, hexecuted ▸ h.le,
      hexecuted ▸ h.create⟩

/-- The same for a database that is behind. -/
lemma Behind.congr {db' : Db} (h : Behind m texts db)
    (hrecorded : db'.recorded m.name = db.recorded m.name)
    (hexecuted : db'.executed = db.executed) : Behind m texts db' := by
  cases h with
  | created text hcreate hr he =>
    exact .created text hcreate (hrecorded.trans hr) (hexecuted.trans he)
  | upgraded v text hpos hint hr hlast hnodup hcreate htext hmem =>
    exact .upgraded v text hpos hint (hrecorded.trans hr) (by rw [Db.last, hexecuted]; exact hlast)
      (hexecuted ▸ hnodup) (hexecuted ▸ hcreate) htext (hexecuted ▸ hmem)

/-- The scripts above the version can be executed once more. -/
lemma HasVersion.nodup_append (h : HasVersion m db v) (ps : List String) :
    (db.executed ++ numbered (v + 1) ps).Nodup := by
  refine List.nodup_append.mpr ⟨h.nodup, nodup_numbered _ _, fun a ha b hb heq => ?_⟩
  have hle := h.le a ha
  have hlt := (number_of_mem hb).1
  rw [heq] at hle
  omega

/-- The scripts of an upgrade are executed up to the one that fails. -/
lemma behind_of_some (h : HasVersion m db v) {p : String} {ps : List String}
    (htext : texts[(v + 1 - m.start).toNat]? = some p) :
    Behind m texts { db with executed := db.executed ++ numbered (v + 1) (p :: ps) } := by
  refine .upgraded v p h.pos h.lt h.recorded ?_ (h.nodup_append _)
    (fun text htext => List.mem_append_left _ (h.create text htext)) htext
    (List.mem_append_right _ (by rw [numbered]; exact List.mem_cons_self))
  rw [Db.last, List.getLast?_append_of_ne_nil _ (by simp [numbered]), last_numbered]
  simp only [ne_eq, Option.some.injEq]
  omega

/-- The first commands of an upgrade are scripts. -/
lemma take_of_append {ss : List Script} {last c : Command} {done rest : List Command}
    (h : ss.map Command.script ++ [last] = done ++ c :: rest) :
    done = (ss.take done.length).map .script := by
  have hlen : done.length ≤ ss.length := by
    have := congrArg List.length h
    simp only [List.length_append, List.length_map, List.length_cons, List.length_nil] at this
    omega
  have htake := congrArg (List.take done.length) h
  rw [List.take_left, List.take_append_of_le_length (by rw [List.length_map]; exact hlen),
    ← List.map_take] at htake
  exact htake.symm

/-- After an upgrade the database has the new version.

**Proof sketch.** The new scripts have the numbers above the version, so none occurs twice and the
last one is the new version, which is what the update records. -/
lemma HasVersion.upgraded (hname : D.quoted m.name = .text) (h : HasVersion m db v) (p : String)
    (ps : List String) (hint : v + (p :: ps).length < 2 ^ 31) :
    HasVersion m (D.apply { db with executed := db.executed ++ numbered (v + 1) (p :: ps) }
      (.updateVersion m.name (v + (p :: ps).length))) (v + (p :: ps).length) := by
  have hlen : (1 : ℤ) ≤ (p :: ps).length := by
    rw [List.length_cons]
    omega
  have hpos := h.pos
  refine ⟨by omega, hint, ?_, ?_, h.nodup_append _, fun x hx => ?_, fun text htext => ?_⟩
  · rw [recorded_update hname, if_pos rfl]
    show Option.map _ (db.recorded m.name) = _
    rw [h.recorded]
    rfl
  · show Option.map Script.number (List.getLast? (db.executed ++ _)) = _
    rw [List.getLast?_append_of_ne_nil _ (by simp [numbered]), last_numbered, List.length_cons,
      Nat.cast_add, Nat.cast_one, Int.add_assoc, Int.add_comm 1]
  · rcases List.mem_append.mp hx with hx | hx
    · have := h.le x hx
      omega
    · have := (number_of_mem hx).2
      omega
  · exact List.mem_append_left _ (h.create text htext)

/-- How a call ends that executes some commands: it returns with all scripts recorded, or it throws
and they are recorded or not, or it overflows. -/
inductive Ends (D : Driver) (m : Module) (texts : List String) (cmds : List Command × Bool)
    (s : Session Db) (r : Except Error Unit × Session Db) : Prop where
  | returns (hr : r.1 = .ok ()) (h : InStep m r.2.data)
  | throws (e : Error) (he : e ≠ .overflow) (hr : r.1 = .error e)
    (h : InStep m r.2.data ∨ Behind m texts r.2.data)
  | overflows (hcmds : cmds.2 = true) (haccepts : AcceptsAll D s cmds.1)
    (hr : r.1 = .error .overflow)

/-- **How far an upgrade gets.**

**Proof sketch.** By cases on the arithmetic. If there are scripts to execute, the first of them is
one above the version; each that is executed makes the next one the first, and the record is
updated behind the last. -/
lemma upgrade_ends (hname : D.quoted m.name = .text) {n : ℕ} {s : Session Db}
    (h : HasVersion m s.data v) :
    Ends D m texts (upgradeCommands m (texts.take n) v) s
      (finish D (upgradeCommands m (texts.take n) v) s) := by
  cases hrange : upgradeRange m.start v (texts.take n).length with
  | error e =>
    have hcmds : upgradeCommands m (texts.take n) v = ([], true) := by
      rw [upgradeCommands, hrange]
    rw [hcmds]
    exact .overflows rfl trivial rfl
  | ok range =>
    cases range with
    | none =>
      have hcmds : upgradeCommands m (texts.take n) v = ([], false) := by
        rw [upgradeCommands, hrange]
      rw [hcmds]
      exact .returns rfl (.recorded v h)
    | some range =>
      obtain ⟨startIndex, toVersion⟩ := range
      obtain ⟨p, ps, hscripts, hto, hint, hhead⟩ := scriptsFrom_numbered hrange
      have htext := getElem?_of_take hhead
      have hcmds : upgradeCommands m (texts.take n) v =
          ((numbered (v + 1) (p :: ps)).map .script ++ [.updateVersion m.name toVersion],
            false) := by
        rw [upgradeCommands, hrange, ← hscripts]
      rw [hcmds]
      set cs : List Command :=
        (numbered (v + 1) (p :: ps)).map .script ++ [.updateVersion m.name toVersion] with hcs
      by_cases haccepts : AcceptsAll D s cs
      · have hrun : finish D (cs, false) s = (.ok (), afterAll D s cs) := by
          rw [finish, bind_ok (execAll_ok haccepts)]
          rfl
        have hdata : (afterAll D s cs).data =
            D.apply { s.data with executed := s.data.executed ++ numbered (v + 1) (p :: ps) }
              (.updateVersion m.name toVersion) := by
          rw [afterAll_data, hcs, List.foldl_append, foldl_scripts]
          rfl
        refine .returns (by rw [hrun]) (.recorded toVersion ?_)
        rw [hrun, hdata, hto]
        exact h.upgraded hname p ps (hto ▸ hint)
      · obtain ⟨done, c, rest, e, hsplit, _, _, he, hrun⟩ := execAll_error haccepts
        have hrun : finish D (cs, false) s = (.error e, (afterAll D s done).tick) := by
          rw [finish, bind_error hrun]
        refine .throws e he (by rw [hrun]) ?_
        rw [hrun, tick_data, afterAll_data, take_of_append hsplit, foldl_scripts, take_numbered]
        cases done with
        | nil =>
          left
          exact InStep.congr (.recorded v h) rfl (by simp [numbered])
        | cons d done => exact Or.inr (behind_of_some h htext)

/-- The first command is executed. -/
lemma finish_cons_ok {s : Session Db} {c : Command} (h : Accepts D s c) (cs : List Command)
    (b : Bool) : finish D (c :: cs, b) s = finish D (cs, b) (after D s c) := by
  simp only [finish, execAll, bind_assoc]
  exact bind_ok (exec_ok h) _

/-- The first command is not executed. -/
lemma finish_cons_error {s : Session Db} {c : Command} (h : ¬ Accepts D s c) (cs : List Command)
    (b : Bool) : ∃ e, e ≠ .overflow ∧ finish D (c :: cs, b) s = (.error e, s.tick) := by
  obtain ⟨e, he, hrun⟩ := exec_error h
  refine ⟨e, he, ?_⟩
  simp only [finish, execAll, bind_assoc]
  exact bind_error hrun _

/-- Without a version, a module that has no create script executes nothing. -/
lemma commands_none (hcreate : m.create = none) (ps : List String) :
    commands m ps 0 = ([], false) := by
  rw [commands, if_pos rfl, hcreate]

/-- Without a version, a module that has a create script is created, and then upgraded. -/
lemma commands_some {text : String} (hcreate : m.create = some text) (ps : List String) :
    commands m ps 0 =
      (.script (.create text) :: .insertVersion m.name 1 :: (upgradeCommands m ps 1).1,
        (upgradeCommands m ps 1).2) := by
  rw [commands, if_pos rfl, hcreate]

/-- The version of a module that was just created.

**Proof sketch.** The table has a row for the module now and had none before, and the only script
that was executed is the one that created it. -/
lemma hasVersion_create {s : Session Db} {text : String} (hcreate : m.create = some text)
    (hrecorded : s.data.recorded m.name = none) (hexecuted : s.data.executed = [.create text])
    (hname : D.quoted m.name = .text) (hsecond : Accepts D s (.insertVersion m.name 1)) :
    HasVersion m (after D s (.insertVersion m.name 1)).data 1 := by
  refine ⟨le_rfl, by decide, ?_, ?_, ?_, fun x hx => ?_, fun text' htext' => ?_⟩
  · have htable : s.data.table.isSome = true := by
      have hexecutes := hsecond.2
      rwa [Driver.executes, hname] at hexecutes
    obtain ⟨rows, hrows⟩ := Option.isSome_iff_exists.mp htable
    have hnone : rows.lookup m.name = none := by rwa [Db.recorded, hrows] at hrecorded
    show List.lookup m.name ((s.data.table.map (· ++ [(m.name, 1)])).getD []) = _
    rw [hrows, Option.map_some, Option.getD_some, List.lookup_append, hnone]
    simp
  · show Option.map Script.number (List.getLast? s.data.executed) = _
    rw [hexecuted]
    rfl
  · show s.data.executed.Nodup
    rw [hexecuted]
    simp
  · have hx : x ∈ s.data.executed := hx
    rw [hexecuted, List.mem_singleton] at hx
    rw [hx]
    exact le_rfl
  · show Script.create text' ∈ s.data.executed
    rw [hcreate] at htext'
    rw [hexecuted, Option.some.inj htext']
    exact List.mem_singleton_self _

/-- How far the creation of a module gets.

**Proof sketch.** There are two commands, the script and the row for it. A failure of the first
leaves everything, and one of the second leaves the module behind; if both succeed, it has the
version one. -/
lemma create_ends (hname : D.quoted m.name = .text) {n : ℕ} {s : Session Db}
    (hrecorded : s.data.recorded m.name = none)
    (hexecuted : s.data.executed = []) :
    Ends D m texts (commands m (texts.take n) 0) s
      (finish D (commands m (texts.take n) 0) s) := by
  cases hcreate : m.create with
  | none =>
    rw [commands_none hcreate]
    exact .returns rfl (.fresh hrecorded hexecuted)
  | some text =>
    rw [commands_some hcreate]
    by_cases hfirst : Accepts D s (.script (.create text))
    swap
    · obtain ⟨e, he, hrun⟩ := finish_cons_error hfirst _ _
      exact .throws e he (by rw [hrun]) (Or.inl (by rw [hrun]; exact .fresh hrecorded hexecuted))
    rw [finish_cons_ok hfirst]
    set t := after D s (.script (.create text)) with ht
    have hexecuted' : t.data.executed = [.create text] := by
      show s.data.executed ++ [.create text] = _
      rw [hexecuted]
      rfl
    by_cases hsecond : Accepts D t (.insertVersion m.name 1)
    swap
    · obtain ⟨e, he, hrun⟩ := finish_cons_error hsecond _ _
      exact .throws e he (by rw [hrun])
        (Or.inr (by rw [hrun]; exact .created text hcreate hrecorded hexecuted'))
    rw [finish_cons_ok hsecond]
    have hversion : HasVersion m (after D t (.insertVersion m.name 1)).data 1 :=
      hasVersion_create hcreate hrecorded hexecuted' hname hsecond
    have hends : Ends D m texts (upgradeCommands m (texts.take n) _) _ _ :=
      upgrade_ends hname hversion
    cases hends with
    | returns hr h => exact .returns hr h
    | throws e he hr h => exact .throws e he hr h
    | overflows hcmds haccepts hr => exact .overflows hcmds ⟨hfirst, hsecond, haccepts⟩ hr

/-! ## A script once more -/

/-- Scripts that were executed stay executed. -/
lemma executed_isPrefix_foldl (db : Db) (cs : List Command) :
    db.executed <+: (cs.foldl D.apply db).executed := by
  induction cs generalizing db with
  | nil => exact List.prefix_refl _
  | cons c cs ih =>
    refine List.IsPrefix.trans ?_ (ih (D.apply db c))
    cases c with
    | script x => exact List.prefix_append _ _
    | createTable | insertVersion | updateVersion => exact List.prefix_refl _

/-- A call adds to the executed scripts. -/
lemma executed_isPrefix_finish (cmds : List Command × Bool) (s : Session Db) :
    s.data.executed <+: (finish D cmds s).2.data.executed := by
  obtain ⟨cs, b⟩ := cmds
  by_cases h : AcceptsAll D s cs
  · have hrun : (finish D (cs, b) s).2 = afterAll D s cs := by
      rw [finish, bind_ok (execAll_ok h)]
      cases b <;> rfl
    rw [hrun, afterAll_data]
    exact executed_isPrefix_foldl _ _
  · obtain ⟨done, c, rest, e, _, _, _, _, hrun⟩ := execAll_error h
    rw [finish, bind_error hrun, tick_data, afterAll_data]
    exact executed_isPrefix_foldl _ _

/-- A script that was executed is executed once more. -/
lemma not_nodup_of_again {s : Session Db} {x : Script} (hx : x ∈ s.data.executed)
    (h : Accepts D s (.script x)) (cs : List Command) (b : Bool) :
    ¬ (finish D (.script x :: cs, b) s).2.data.executed.Nodup := by
  intro hnodup
  rw [finish_cons_ok h] at hnodup
  have hsub := (executed_isPrefix_finish (D := D) (cs, b) (after D s (.script x))).sublist
  have hnodup' : (s.data.executed ++ [x]).Nodup := hsub.nodup hnodup
  exact (List.nodup_append.mp hnodup').2.2 x hx x (List.mem_singleton_self x) rfl

/-- The first script of a call that finds the module behind was executed before.

**Proof sketch.** With version zero the first command is the script that creates the module, and
otherwise the first script above the version. In a module that is behind both have been executed. -/
lemma Behind.first_mem (h : Behind m texts db) {n : ℕ} {version : ℤ}
    (hversion : version = 0 ∨ db.recorded m.name = some version) {c : Command}
    {cs : List Command} (hcmds : (commands m (texts.take n) version).1 = c :: cs) :
    ∃ x ∈ db.executed, c = .script x := by
  by_cases hzero : version = 0
  · cases hcreate : m.create with
    | none => simp [commands, hzero, hcreate] at hcmds
    | some text =>
      simp only [commands, hzero, if_true, hcreate, List.cons.injEq] at hcmds
      refine ⟨.create text, ?_, hcmds.1.symm⟩
      cases h with
      | created text' hcreate' hrecorded hexecuted =>
        rw [hcreate] at hcreate'
        rw [hexecuted, Option.some.inj hcreate']
        exact List.mem_singleton_self _
      | upgraded v text' hpos hint hrecorded hlast hnodup hmem => exact hmem text hcreate
  · replace hversion := hversion.resolve_left hzero
    cases h with
    | created text hcreate hrecorded hexecuted =>
      rw [hrecorded] at hversion
      cases hversion
    | upgraded v text hpos hint hrecorded hlast hnodup hcreate htext hmem =>
      rw [hrecorded] at hversion
      obtain rfl := Option.some.inj hversion
      rw [commands_of_pos hpos, upgradeCommands] at hcmds
      cases hrange : upgradeRange m.start v (texts.take n).length with
      | error e =>
        rw [hrange] at hcmds
        cases hcmds
      | ok range =>
        cases range with
        | none =>
          rw [hrange] at hcmds
          cases hcmds
        | some range =>
          obtain ⟨startIndex, toVersion⟩ := range
          obtain ⟨p, ps, hscripts, _, _, hhead⟩ := scriptsFrom_numbered hrange
          have hp : p = text := Option.some.inj ((getElem?_of_take hhead).symm.trans htext)
          rw [hrange] at hcmds
          simp only [hscripts, numbered, List.map_cons, List.cons_append, List.cons.injEq] at hcmds
          exact ⟨.upgrade (v + 1) text, hmem, by rw [← hcmds.1, hp]⟩

/-! ## One call -/

/-- The preparation of the table leaves the recorded version as it is. -/
lemma prepared_data (D : Driver) (s : Session Db) (name : String) :
    (prepared D s).data.recorded name = s.data.recorded name ∧
      (prepared D s).data.executed = s.data.executed := by
  unfold prepared
  split
  · exact ⟨by simp [Db.recorded, Driver.apply], rfl⟩
  · exact ⟨rfl, rfl⟩

/-- The version that a call takes for that of its module is the recorded one, or none. -/
lemma readVersion_cases (hname : D.quoted m.name = .text) (s : Session Db) :
    (Reads D m s ∧ readVersion D m s = ((s.data.recorded m.name).map castInt).getD 0) ∨
      (¬ Reads D m s ∧ readVersion D m s = 0) := by
  unfold readVersion
  by_cases h : Reads D m s
  · have hfind := find_eq hname s.data
    have htable : s.data.hasTable = true := by
      by_contra hnot
      rw [if_neg hnot] at hfind
      have hsome := h.2
      rw [hfind] at hsome
      cases hsome
    rw [if_pos htable] at hfind
    exact Or.inl ⟨h, by rw [if_pos h, hfind]; rfl⟩
  · exact Or.inr ⟨h, if_neg h⟩

/-- The states of runs in which no script is executed twice. -/
def Kept (m : Module) (texts : List String) (s : Calls) : Prop :=
  s.ended ≠ .error .overflow ∧
    (InStep m s.session.data ∨ (Behind m texts s.session.data ∧ s.ended ≠ .ok ()))

/-- In them no script was executed twice. -/
lemma Kept.once {s : Calls} (h : Kept m texts s) : Once m s := by
  obtain ⟨hdefined, h | ⟨h, hended⟩⟩ := h
  · exact ⟨h.nodup, fun _ => h.upToDate, hdefined⟩
  · exact ⟨h.nodup, fun hok => absurd hok hended, hdefined⟩

/-- How a call ends that finds all scripts recorded and gets to the version.

**Proof sketch.** A module that is in step is new or has a version. If the query fails, the version
counts as zero, and the condition makes the creation of a module that exists fail at once. -/
lemma commands_ends (hname : D.quoted m.name = .text) {s : Session Db} {n : ℕ}
    (h : InStep m s.data)
    (hread : ¬ Reads D m s → (s.data.recorded m.name).isSome = true → m.create.isSome = true →
      D.fault s.tick.clock ≠ none) :
    Ends D m texts (commands m (texts.take n) (readVersion D m s)) s.tick
      (finish D (commands m (texts.take n) (readVersion D m s)) s.tick) := by
  cases h with
  | fresh hrecorded hexecuted =>
    have hzero : readVersion D m s = 0 := by
      rcases readVersion_cases hname s with ⟨_, hv⟩ | ⟨_, hv⟩
      · rw [hv, hrecorded]
        rfl
      · exact hv
    rw [hzero]
    exact create_ends hname hrecorded hexecuted
  | recorded v hversion =>
    rcases readVersion_cases hname s with ⟨_, hv⟩ | ⟨hnot, hv⟩
    · rw [hv, hversion.recorded, Option.map_some, Option.getD_some,
        castInt_eq hversion.pos hversion.lt, commands_of_pos hversion.pos]
      exact upgrade_ends hname hversion
    · rw [hv]
      cases hcreate : m.create with
      | none =>
        rw [commands_none hcreate]
        exact .returns rfl (.recorded v hversion)
      | some text =>
        have hfault := hread hnot (by rw [hversion.recorded]; rfl) (by rw [hcreate]; rfl)
        obtain ⟨e, he, hrun⟩ := finish_cons_error (D := D) (s := s.tick)
          (c := .script (.create text)) (fun haccept => hfault haccept.1)
          (.insertVersion m.name 1 :: (upgradeCommands m (texts.take n) 1).1)
          (upgradeCommands m (texts.take n) 1).2
        rw [commands_some hcreate]
        exact .throws e he (by rw [hrun]) (Or.inl (by rw [hrun]; exact .recorded v hversion))

/-- A call whose first command fails. -/
lemma finish_of_failsFirst {s : Session Db} {cmds : List Command × Bool}
    (h : FailsFirst D s cmds.1) :
    ∃ e, e ≠ .overflow ∧ finish D cmds s = (.error e, s.tick) := by
  obtain ⟨_ | ⟨c, cs⟩, b⟩ := cmds
  · exact h.elim
  · exact finish_cons_error h cs b

/-- **A safe call** executes no script twice.

**Proof sketch.** By cases on whether the call gets to the scripts at all, and where its commands
end. A module that is in step stays so or falls behind; one that is behind throws at its first
command by the condition. -/
lemma kept_of_safe (hname : D.quoted m.name = .text) {s : Calls} {n : ℕ} (h : Kept m texts s)
    (hsafe : Safe D m texts s.session n) :
    Kept m texts (call D m texts s n) := by
  obtain ⟨hrecorded, hexecuted⟩ := prepared_data D s.session m.name
  unfold call
  by_cases hprepares : Prepares D s.session
  swap
  · obtain ⟨e, t, he, ht, hrun⟩ := dbUpgrade_unprepared hprepares m (texts.take n)
    rw [hrun]
    refine ⟨by simpa using he, h.2.imp (fun hstep => ?_) fun hbehind => ⟨?_, nofun⟩⟩
    · show InStep m t.data
      rw [ht]
      exact hstep
    · show Behind m texts t.data
      rw [ht]
      exact hbehind.1
  replace hsafe := hsafe hprepares
  cases hidle : (texts.take n).isEmpty && m.create.isNone with
  | true =>
    rw [if_pos hidle] at hsafe
    have hstep := h.2.resolve_right fun hbehind => hbehind.1.not_upToDate hsafe
    rw [dbUpgrade_idle hprepares hidle]
    exact ⟨nofun, Or.inl (hstep.congr hrecorded hexecuted)⟩
  | false =>
    rw [if_neg (by rw [hidle]; decide)] at hsafe
    rw [dbUpgrade_eq hprepares hidle]
    by_cases hupToDate : s.session.data.UpToDate m
    · rw [if_pos hupToDate] at hsafe
      have hstep := h.2.resolve_right fun hbehind => hbehind.1.not_upToDate hupToDate
      have hends : Ends D m texts (commands m (texts.take n) _) _ _ :=
        commands_ends hname (hstep.congr hrecorded hexecuted) (by rw [hrecorded]; exact hsafe.1)
      cases hends with
      | returns hr hstep' => exact ⟨by rw [hr]; exact nofun, Or.inl hstep'⟩
      | throws e he hr hends' =>
        refine ⟨by rw [hr]; simpa using he, hends'.imp_right fun hbehind => ⟨hbehind, ?_⟩⟩
        rw [hr]
        exact nofun
      | overflows hcmds haccepts => exact absurd ⟨hcmds, haccepts⟩ hsafe.2
    · rw [if_neg hupToDate] at hsafe
      have hbehind := h.2.resolve_left fun hstep => hupToDate hstep.upToDate
      obtain ⟨e, he, hrun⟩ := finish_of_failsFirst hsafe
      rw [hrun]
      exact ⟨by simpa using he, Or.inr ⟨hbehind.1.congr hrecorded hexecuted, nofun⟩⟩

/-- **A call that executes no script twice** is safe.

**Proof sketch.** If the condition failed, then the call would get to its first command though it
has been executed before, and execute it once more, or return though not everything is recorded. -/
lemma safe_of_once (hname : D.quoted m.name = .text) {s : Calls} {n : ℕ} (h : Kept m texts s)
    (honce : Once m (call D m texts s n)) : Safe D m texts s.session n := by
  intro hprepares
  obtain ⟨hrecorded, hexecuted⟩ := prepared_data D s.session m.name
  unfold call at honce
  set ps := texts.take n with hps
  set t := prepared D s.session
  cases hidle : ps.isEmpty && m.create.isNone with
  | true =>
    rw [if_pos rfl]
    rw [dbUpgrade_idle hprepares hidle] at honce
    have hupToDate : (prepared D s.session).data.UpToDate m := honce.recorded rfl
    rwa [Db.UpToDate, Db.last, hrecorded, hexecuted] at hupToDate
  | false =>
    rw [if_neg (by decide)]
    rw [dbUpgrade_eq hprepares hidle] at honce
    by_cases hupToDate : s.session.data.UpToDate m
    · rw [if_pos hupToDate]
      have hstep := h.2.resolve_right fun hbehind => hbehind.1.not_upToDate hupToDate
      refine ⟨fun hnot hsome hcreate hfault => ?_, fun ⟨hoverflow, haccepts⟩ => ?_⟩
      · -- the create script is executed once more
        obtain ⟨text, htext⟩ := Option.isSome_iff_exists.mp hcreate
        have hmem : Script.create text ∈ t.tick.data.executed := by
          rw [tick_data, hexecuted]
          cases hstep with
          | fresh hnone =>
            rw [hnone] at hsome
            cases hsome
          | recorded v hversion => exact hversion.create text htext
        have hzero : readVersion D m t = 0 := if_neg hnot
        have hnodup := honce.nodup
        rw [hzero, commands_some htext] at hnodup
        exact not_nodup_of_again hmem ⟨hfault, rfl⟩ _ _ hnodup
      · refine honce.defined ?_
        rw [finish, bind_ok (execAll_ok haccepts), if_pos hoverflow]
        rfl
    · rw [if_neg hupToDate]
      have hbehind := (h.2.resolve_left fun hstep => hupToDate hstep.upToDate).1
      have hversion : readVersion D m t = 0 ∨
          s.session.data.recorded m.name = some (readVersion D m t) := by
        rcases readVersion_cases hname t with ⟨_, hv⟩ | ⟨_, hv⟩
        · rw [hv, hrecorded]
          cases hbehind with
          | created text hcreate hnone =>
            rw [hnone]
            exact Or.inl rfl
          | upgraded v text hpos hint hsome =>
            rw [hsome, Option.map_some, Option.getD_some, castInt_eq hpos hint]
            exact Or.inr rfl
        · exact Or.inl hv
      by_contra hfails
      rcases hcmds : commands m ps (readVersion D m t) with ⟨_ | ⟨c, cs⟩, b⟩
      · -- there is nothing to execute, and the last script stays unrecorded
        rw [hcmds] at honce
        cases b with
        | true => exact honce.defined rfl
        | false =>
          have hupToDate' : t.data.UpToDate m := honce.recorded rfl
          exact (hbehind.congr hrecorded hexecuted).not_upToDate hupToDate'
      · -- the first script was executed before
        rw [hcmds] at honce hfails
        have haccepts : Accepts D t.tick c := not_not.mp hfails
        have hfirst : (commands m (texts.take n) (readVersion D m t)).1 = c :: cs := by
          rw [← hps, hcmds]
        obtain ⟨x, hx, rfl⟩ := hbehind.first_mem hversion hfirst
        exact not_nodup_of_again (by rw [tick_data, hexecuted]; exact hx) haccepts _ _ honce.nodup

end Progress

/-! ## All calls -/

/-- **Each script at most once**: for every driver, module whose name its engine takes for a text,
list of scripts and plan of failures, and every sequence of calls with parts of the list, no script
is executed twice and the recorded version is that of the last script whenever a call has returned,
if and only if each call is safe.

**Proof sketch.** The invariant is that the executed scripts are all recorded, or that some are not
and the last call has failed. A safe call that finds them recorded executes scripts above the
recorded version, up to the record or up to a failure; one that does not fails before its first
script. A call that is not safe executes a script that was executed, returns without a record, or
overflows. -/
theorem scripts_once (D : Driver) (m : Module) (hname : D.quoted m.name = .text)
    (texts : List String) (db : Db) (hdb : InStep m db) (calls : List ℕ) :
    (system D m texts db).Always (Once m) calls ↔
      (system D m texts db).Along (fun s n => Safe D m texts s.session n) calls := by
  obtain ⟨s, hrun⟩ := (system D m texts db).exists_run (fun s n => ⟨_, rfl⟩) calls
  have hinit : Kept m texts (system D m texts db).init :=
    ⟨by simp [system], Or.inl hdb⟩
  refine System.always_iff_along_of_imp (J := fun _ => True) (I := Kept m texts) trivial hinit
    (fun s h => h.once) (fun _ _ _ _ _ => trivial) ?_ ?_ hrun
  · intro s n t _ hkept hsafe hstep
    obtain rfl := Option.some.inj hstep
    exact kept_of_safe hname hkept hsafe
  · intro s n t _ hkept hstep honce
    obtain rfl := Option.some.inj hstep
    exact safe_of_once hname hkept honce

/-- Two calls, where the create script fails the first time and the second script the second
time. -/
theorem scripts_once_refused :
    (system ⟨fun n => if n = 3 ∨ n = 10 then some "failed" else none, true, fun _ => .text⟩
      ⟨"test", 2, some "create"⟩ ["a", "b"] ⟨none, []⟩).Always (Once ⟨"test", 2, some "create"⟩)
      [2, 2] :=
  (scripts_once _ _ rfl _ _ (.fresh rfl rfl) _).mpr (by decide)

/-- A script is executed twice: once because a later one fails before the version is recorded, once
because the query of the version fails, and once without any failure, because SQLite takes the name
of the module for the column `version` and compares it with the number of the row.

**Proof sketch.** Each run is computed, and a script is in it twice. -/
theorem script_twice :
    (¬ (system ⟨fun n => if n = 6 then some "failed" else none, true, fun _ => .text⟩
      ⟨"test", 2, some "create"⟩ ["a", "b"] ⟨none, []⟩).Always (Once ⟨"test", 2, some "create"⟩)
      [2, 2]) ∧
    (¬ (system ⟨fun n => if n = 9 then some "failed" else none, true, fun _ => .text⟩
      ⟨"test", 2, some "create"⟩ ["a", "b"] ⟨none, []⟩).Always (Once ⟨"test", 2, some "create"⟩)
      [2, 2]) ∧
    ¬ (system ⟨fun _ => none, true, fun name =>
        if name = "version" then .condition fun row => row.1 == toString row.2 else .text⟩
      ⟨"version", 2, some "create"⟩ ["a", "b"] ⟨none, []⟩).Always
        (Once ⟨"version", 2, some "create"⟩) [2, 2] := by
  refine ⟨fun h => ?script, fun h => ?query, fun h => ?column⟩
  case script =>
    have hnodup := ((h.2 _ rfl).2 _ rfl).nodup
    revert hnodup
    decide
  case query =>
    have hnodup := ((h.2 _ rfl).2 _ rfl).nodup
    revert hnodup
    decide
  case column =>
    have hnodup := ((h.2 _ rfl).2 _ rfl).nodup
    revert hnodup
    decide

end HkuUtils.DBUpgrade
