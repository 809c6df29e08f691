import Mathlib.Data.Nat.Notation
import Mathlib.Logic.Function.Basic

set_option relaxedAutoImplicit false
set_option autoImplicit false

/-!
# Recovery of a database from its backup

`SQLiteUtil::recoverFromBackup` puts the old database and its journal aside, under names with the
suffix `.bad`, and copies the backup to the place of the database. Every step can fail. The journal
is put aside first: when the database cannot follow, the two are separated.

## Main definitions

* `HkuUtils.SQLite.Files`, `Outcome` — the files, and which steps fail.
* `HkuUtils.SQLite.renameFile`, `removeDBFile`, `onlineBackup`, `recoverFromBackup` — the functions.
* `HkuUtils.SQLite.Kept` — what should be left of the old files.
* `HkuUtils.SQLite.Safe` — the condition.

## Main results

* `HkuUtils.SQLite.aside_of_putAside` — what it means to put a file aside.
* `HkuUtils.SQLite.recover_eq` — the function in terms of it.
* `HkuUtils.SQLite.recover_keeps`, `recover_separates` — when the old files are kept, and when they
  are not.

## Design

A file system is the contents under each name, without directories. Each step of the function is
made at most once, so that the failures are a function of the step. SQLite is given by what can
happen: a connection fails or creates a database that does not exist, the connection answers to a
ping or not, and a backup copies the contents or leaves anything at its destination.
-/

namespace HkuUtils.SQLite

variable {C : Type}

/-! ## Files -/

/-- The contents of the files. -/
abbrev Files (C : Type) : Type := String → Option C

/-- A step that can fail. -/
inductive Step where
  | remove (name : String)
  | rename (old new : String)
  deriving DecidableEq

/-- Which steps fail, and what SQLite does. The files themselves are in `Files`. -/
structure Outcome (C : Type) where
  fails : Step → Bool
  /-- The constructor of the connection does not throw. -/
  connects : Bool
  /-- What is in a database that is created because it does not exist. -/
  created : C
  pings : Bool
  /-- `SQLiteConnect::backup` returns `true`. -/
  backsUp : Bool
  /-- What a backup that fails leaves at its destination. -/
  leaves : Option C

/-- `existFile`. -/
def existFile (fs : Files C) (name : String) : Bool := (fs name).isSome

/-- `removeFile`. -/
def removeFile (o : Outcome C) (fs : Files C) (name : String) : Bool × Files C :=
  if existFile fs name && !o.fails (.remove name) then (true, Function.update fs name none)
  else (false, fs)

/-- `std::rename`. -/
def rename (o : Outcome C) (fs : Files C) (old new : String) : Bool × Files C :=
  if existFile fs old && !o.fails (.rename old new) then
    (true, Function.update (Function.update fs old none) new (fs old))
  else (false, fs)

/-- `renameFile`. -/
def renameFile (o : Outcome C) (fs : Files C) (old new : String) (overlay : Bool) :
    Bool × Files C :=
  if existFile fs new then
    if overlay then
      let r := removeFile o fs new
      if r.1 then rename o r.2 old new else (false, r.2)
    else (false, fs)
  else rename o fs old new

/-! ## The recovery -/

/-- `RecoverResult`. -/
inductive RecoverResult where
  | success
  | failedBackupNotExist
  | failedBackupInvalid
  | failedInvalidDst
  | failedExecute
  | failedOther
  deriving DecidableEq, Repr

/-- `BackupResult`. -/
inductive BackupResult where
  | success
  | failedInvalidSrc
  | failedExecute
  | failedOther
  deriving DecidableEq, Repr

/-- The name of the journal of a database. -/
def journal (dst : String) : String := dst ++ "-journal"

/-- The name under which a file is put aside. -/
def bad (name : String) : String := name ++ ".bad"

/-- `removeDBFile`. -/
def removeDBFile (o : Outcome C) (fs : Files C) (dbfilename : String) : Bool × Files C :=
  let r := if existFile fs (journal dbfilename) then removeFile o fs (journal dbfilename)
    else (true, fs)
  let r' := if existFile r.2 dbfilename then removeFile o r.2 dbfilename else (true, r.2)
  (r.1 && r'.1, r'.2)

/-- The constructor of `SQLiteConnect`. -/
def connect (o : Outcome C) (fs : Files C) (db : String) : Option (Files C) :=
  if o.connects then
    some (if existFile fs db then fs else Function.update fs db (some o.created))
  else none

/-- `onlineBackup` with a connection to `src`. -/
def onlineBackup (o : Outcome C) (fs : Files C) (src dst : String) : BackupResult × Files C :=
  if o.pings then
    if o.backsUp then (.success, Function.update fs dst (fs src))
    else (.failedExecute, Function.update fs dst o.leaves)
  else (.failedInvalidSrc, fs)

/-- The `switch` in `recoverFromBackup`. -/
def BackupResult.toRecover : BackupResult → RecoverResult
  | .success => .success
  | .failedInvalidSrc => .failedBackupInvalid
  | .failedExecute => .failedExecute
  | .failedOther => .failedOther

/-- What follows `existFile(name) &&` in `recoverFromBackup`, or `true` if the file does not
exist. -/
def putAside (o : Outcome C) (fs : Files C) (name : String) : Bool × Files C :=
  if existFile fs name then renameFile o fs name (bad name) true else (true, fs)

/-- The last part of `recoverFromBackup`. -/
def restore (o : Outcome C) (fs : Files C) (backup dst : String) : RecoverResult × Files C :=
  let r := removeDBFile o fs dst
  if r.1 then
    match connect o r.2 backup with
    | none => (.failedOther, r.2)
    | some fs' =>
      let b := onlineBackup o fs' backup dst
      (b.1.toRecover, b.2)
  else (.failedInvalidDst, r.2)

/-- `recoverFromBackup`: the journal and the database are put aside, if that is asked for, and the
backup is copied to the place of the database. -/
def recoverFromBackup (o : Outcome C) (fs : Files C) (backup dst : String) (saveBad : Bool) :
    RecoverResult × Files C :=
  if existFile fs backup then
    if saveBad then
      let r := putAside o fs (journal dst)
      if r.1 then
        let r' := putAside o r.2 dst
        if r'.1 then restore o r'.2 backup dst else (.failedInvalidDst, r'.2)
      else (.failedInvalidDst, r.2)
    else restore o fs backup dst
  else (.failedBackupNotExist, fs)

/-! ## What should be left -/

/-- The old database and its journal are under these names, as far as they existed. -/
def HeldAt (fs fs' : Files C) (dst : String) (name : String → String) : Prop :=
  (∀ c, fs dst = some c → fs' (name dst) = some c) ∧
    ∀ c, fs (journal dst) = some c → fs' (name (journal dst)) = some c

/-- The backup is unchanged, the old database and its journal are together, and at their place if
the function refuses it. -/
structure Kept (fs : Files C) (backup dst : String) (r : RecoverResult × Files C) : Prop where
  backup : r.2 backup = fs backup
  together : HeldAt fs r.2 dst id ∨ HeldAt fs r.2 dst bad
  place : r.1 = .failedInvalidDst → r.2 dst = fs dst ∧ r.2 (journal dst) = fs (journal dst)

/-- No step fails that is needed to put the file aside. -/
def CanMove (o : Outcome C) (fs : Files C) (name : String) : Prop :=
  (existFile fs (bad name) = true → o.fails (.remove (bad name)) = false) ∧
    o.fails (.rename name (bad name)) = false

/-- The file exists and is put aside. -/
def Moves (o : Outcome C) (fs : Files C) (name : String) : Prop :=
  existFile fs name = true ∧ CanMove o fs name

/-- The file exists and cannot be put aside. -/
def Stuck (o : Outcome C) (fs : Files C) (name : String) : Prop :=
  existFile fs name = true ∧ ¬ CanMove o fs name

/-- If the backup is where the file is put aside, then it is not removed, or what takes its place is
the same. -/
def Spares (o : Outcome C) (fs : Files C) (backup name : String) : Prop :=
  backup = bad name → existFile fs name = true → o.fails (.remove backup) = false →
    o.fails (.rename name backup) = false ∧ fs name = fs backup

/-- The condition on the files, the names and the failures. -/
structure Safe (o : Outcome C) (fs : Files C) (backup dst : String) : Prop where
  /-- It is not so that the journal is put aside and the database is not. -/
  together : ¬ (Moves o fs (journal dst) ∧ Stuck o fs dst)
  /-- The backup is not the journal that is put aside, unless an empty database is created there and
  it was one. -/
  own : backup = journal dst → Moves o fs (journal dst) →
    o.connects = true ∧ fs backup = some o.created
  sparesJournal : Spares o fs backup (journal dst)
  sparesDst : ¬ Stuck o fs (journal dst) → Spares o fs backup dst

section Decidable

variable (o : Outcome C) (fs : Files C)

instance (name : String) : Decidable (CanMove o fs name) :=
  inferInstanceAs (Decidable ((_ = true → _ = false) ∧ _ = false))

instance (name : String) : Decidable (Moves o fs name) :=
  inferInstanceAs (Decidable (_ = true ∧ CanMove o fs name))

instance (name : String) : Decidable (Stuck o fs name) :=
  inferInstanceAs (Decidable (_ = true ∧ ¬ CanMove o fs name))

instance [DecidableEq C] (backup name : String) : Decidable (Spares o fs backup name) :=
  inferInstanceAs (Decidable (_ = _ → _ = true → _ = false → _ = false ∧ _ = _))

end Decidable

/-! ## The names -/

/-- Names of different lengths. -/
lemma ne_of_length {a b : String} (h : a.length ≠ b.length) : a ≠ b := fun heq => h (heq ▸ rfl)

variable (dst : String)

/-- The name of a journal is longer by eight characters. -/
lemma length_journal : (journal dst).length = dst.length + 8 := String.length_append ..

/-- The name of a file put aside is longer by four characters. -/
lemma length_bad : (bad dst).length = dst.length + 4 := String.length_append ..

/-- A journal is not its database. -/
lemma journal_ne : journal dst ≠ dst := ne_of_length (by rw [length_journal]; omega)

/-- A file put aside has another name. -/
lemma bad_ne : bad dst ≠ dst := ne_of_length (by rw [length_bad]; omega)

/-- A database put aside is not the journal. -/
lemma bad_ne_journal : bad dst ≠ journal dst :=
  ne_of_length (by rw [length_bad, length_journal]; omega)

/-- A journal put aside is not the database. -/
lemma bad_journal_ne : bad (journal dst) ≠ dst :=
  ne_of_length (by rw [length_bad, length_journal]; omega)

/-- A journal put aside is not the database put aside. -/
lemma bad_journal_ne_bad : bad (journal dst) ≠ bad dst :=
  ne_of_length (by rw [length_bad, length_bad, length_journal]; omega)

/-! ## One file that is put aside -/

section PutAside

variable {o : Outcome C} {fs : Files C} {name : String}

/-- What it means to put a file aside. -/
inductive Aside (o : Outcome C) (fs : Files C) (name : String) : Bool × Files C → Prop where
  | absent (h : fs name = none) : Aside o fs name (true, fs)
  | moved {c : C} (h : fs name = some c) (hmove : CanMove o fs name) :
    Aside o fs name (true, Function.update (Function.update fs name none) (bad name) (some c))
  /-- The file stays, and what was under the other name may be lost. -/
  | stuck {fs' : Files C} {c : C} (h : fs name = some c) (hmove : ¬ CanMove o fs name)
    (hsame : ∀ k, k ≠ bad name → fs' k = fs k)
    (hbad : fs' (bad name) = if o.fails (.remove (bad name)) then fs (bad name) else none) :
    Aside o fs name (false, fs')

/-- A file that was put aside is not there under its name. -/
lemma moved_name (x : Option C) :
    Function.update (Function.update fs name none) (bad name) x name = none := by
  rw [Function.update_of_ne (bad_ne name).symm, Function.update_self]

/-- Putting a file aside leaves all others. -/
lemma moved_other (x : Option C) {k : String} (hk : k ≠ name) (hkb : k ≠ bad name) :
    Function.update (Function.update fs name none) (bad name) x k = fs k := by
  rw [Function.update_of_ne hkb, Function.update_of_ne hk]

/-- A rename to a name that is free. -/
lemma rename_of_exists {old new : String} {c : C} (h : fs old = some c) :
    rename o fs old new = if o.fails (.rename old new) then (false, fs)
      else (true, Function.update (Function.update fs old none) new (some c)) := by
  rw [rename, existFile, h]
  cases o.fails (.rename old new) <;> rfl

/-- Inversion of the step of the function.

**Proof sketch.** One case for each outcome of the calls in their order: the file is there, an
older one put aside is there and can be removed, and the renaming succeeds. -/
theorem aside_of_putAside (o : Outcome C) (fs : Files C) (name : String) :
    Aside o fs name (putAside o fs name) := by
  cases h : fs name with
  | none =>
    rw [putAside, existFile, h]
    exact .absent h
  | some c =>
    have hne : name ≠ bad name := (bad_ne name).symm
    rw [putAside, existFile, h, Option.isSome_some, if_pos rfl, renameFile]
    cases hbad : fs (bad name) with
    | none =>
      rw [existFile, hbad, Option.isSome_none, if_neg Bool.false_ne_true, rename_of_exists h]
      cases hrename : o.fails (.rename name (bad name)) with
      | false => exact .moved h ⟨fun hex => by simp [existFile, hbad] at hex, hrename⟩
      | true =>
        refine .stuck h (fun hmove => ?_) (fun _ _ => rfl) (by simp [hbad])
        rw [hmove.2] at hrename
        cases hrename
    | some d =>
      rw [existFile, hbad, Option.isSome_some, if_pos rfl, if_pos rfl, removeFile, existFile, hbad]
      cases hremove : o.fails (.remove (bad name)) with
      | true =>
        refine .stuck h (fun hmove => ?_) (fun _ _ => rfl) (by simp [hremove])
        have hfree := hmove.1 (by simp [existFile, hbad])
        rw [hremove] at hfree
        cases hfree
      | false =>
        have hc : Function.update fs (bad name) none name = some c := by
          rw [Function.update_of_ne hne, h]
        show Aside o fs name (rename o (Function.update fs (bad name) none) name (bad name))
        rw [rename_of_exists hc]
        cases hrename : o.fails (.rename name (bad name)) with
        | false =>
          have hfiles : Function.update (Function.update (Function.update fs (bad name) none) name
              none) (bad name) (some c) =
              Function.update (Function.update fs name none) (bad name) (some c) := by
            rw [Function.update_comm hne.symm, Function.update_idem]
          rw [if_neg Bool.false_ne_true, hfiles]
          exact .moved h ⟨fun _ => hremove, hrename⟩
        | true =>
          refine .stuck h (fun hmove => ?_) (fun k hk => ?_) (by simp [hremove])
          · rw [hmove.2] at hrename
            cases hrename
          · exact Function.update_of_ne hk ..

end PutAside

/-! ## The last part -/

/-- What the last part leaves when the database and its journal are not there.

**Proof sketch.** There is nothing to remove. Opening the backup creates it if it is missing and
the connection succeeds; the copy then writes to the database only, and its errors are not the one
of a destination that cannot be replaced. -/
lemma restore_of_absent (o : Outcome C) {fs : Files C} {backup dst : String} (hne : backup ≠ dst)
    (hdst : fs dst = none) (hjournal : fs (journal dst) = none) :
    (restore o fs backup dst).1 ≠ .failedInvalidDst ∧
    (∀ k, k ≠ dst → k ≠ backup → (restore o fs backup dst).2 k = fs k) ∧
    (restore o fs backup dst).2 backup =
      if (fs backup).isNone && o.connects then some o.created else fs backup := by
  have hremove : removeDBFile o fs dst = (true, fs) := by
    simp [removeDBFile, existFile, hdst, hjournal]
  have hbackup : ∀ fs' : Files C, (onlineBackup o fs' backup dst).1.toRecover ≠ .failedInvalidDst ∧
      ∀ k, k ≠ dst → (onlineBackup o fs' backup dst).2 k = fs' k := by
    intro fs'
    rw [onlineBackup]
    split
    · split
      · exact ⟨nofun, fun k hk => Function.update_of_ne hk ..⟩
      · exact ⟨nofun, fun k hk => Function.update_of_ne hk ..⟩
    · exact ⟨nofun, fun _ _ => rfl⟩
  rw [restore, hremove, connect]
  cases hconnects : o.connects with
  | false => simp
  | true =>
    obtain ⟨hresult, hfiles⟩ :=
      hbackup (if existFile fs backup then fs else Function.update fs backup (some o.created))
    refine ⟨hresult, fun k hk hkb => ?_, ?_⟩
    · refine (hfiles k hk).trans ?_
      split
      · rfl
      · exact Function.update_of_ne hkb ..
    · refine (hfiles backup hne).trans ?_
      cases hb : fs backup <;> simp [existFile, hb]

/-! ## When the old files are kept -/

section Kept

variable {o : Outcome C} {fs fs' : Files C} {backup dst name : String} {b c : C}

/-- When a file is stuck, all is as before except for what is lost under its other name.

**Proof sketch.** The database and its journal are where they were. The backup is lost only if it
has the name of the file put aside, and then the older one was removed though the file could not be
moved. -/
lemma kept_iff_of_stuck (hb : fs backup = some b) (h : fs name = some c)
    (hmove : ¬ CanMove o fs name) (hdst : bad name ≠ dst) (hjournal : bad name ≠ journal dst)
    (hsame : ∀ k, k ≠ bad name → fs' k = fs k)
    (hbad : fs' (bad name) = if o.fails (.remove (bad name)) then fs (bad name) else none) :
    Kept fs backup dst (.failedInvalidDst, fs') ↔ Spares o fs backup name := by
  have hd : fs' dst = fs dst := hsame _ hdst.symm
  have hj : fs' (journal dst) = fs (journal dst) := hsame _ hjournal.symm
  have hkept : Kept fs backup dst (.failedInvalidDst, fs') ↔ fs' backup = fs backup := by
    refine ⟨fun hk => hk.backup, fun heq => ⟨heq, .inl ⟨?_, ?_⟩, fun _ => ⟨hd, hj⟩⟩⟩
    · exact fun _ hc => hd.trans hc
    · exact fun _ hc => hj.trans hc
  rw [hkept]
  constructor
  · rintro heq rfl _ hremove
    rw [hbad, hremove, if_neg Bool.false_ne_true, hb] at heq
    cases heq
  · intro hspares
    by_cases heq : backup = bad name
    · subst heq
      rw [hbad]
      cases hremove : o.fails (.remove (bad name)) with
      | true => rfl
      | false =>
        have hexists : existFile fs name = true := by simp [existFile, h]
        exact absurd ⟨fun _ => hremove, (hspares rfl hexists hremove).1⟩ hmove
    · exact hsame _ heq

/-- A backup that is in the way of a file that is put aside. -/
lemma spares_iff_of_canMove (hb : fs backup = some b) (h : fs name = some c)
    (hmove : CanMove o fs name) : Spares o fs backup name ↔ (backup = bad name → c = b) := by
  constructor
  · rintro hspares rfl
    have hexists : existFile fs name = true := by simp [existFile, h]
    have hremove := hmove.1 (by simp [existFile, hb])
    have heq := (hspares rfl hexists hremove).2
    rw [h, hb] at heq
    exact Option.some.inj heq
  · rintro hsame rfl _ _
    exact ⟨hmove.2, by rw [h, hb, hsame rfl]⟩

/-- A file that does not exist is in nobody's way. -/
lemma spares_of_absent (h : fs name = none) : Spares o fs backup name := by
  intro _ hexists
  simp [existFile, h] at hexists

/-- When the old files are put aside, it is the backup that matters. -/
lemma kept_restore_iff (hne : backup ≠ dst) (hdst : fs' dst = none)
    (hjournal : fs' (journal dst) = none) (hbad : ∀ c, fs dst = some c → fs' (bad dst) = some c)
    (hbadj : ∀ c, fs (journal dst) = some c → fs' (bad (journal dst)) = some c) :
    Kept fs backup dst (restore o fs' backup dst) ↔
      (if (fs' backup).isNone && o.connects then some o.created else fs' backup) = fs backup := by
  obtain ⟨hresult, hsame, hbackup⟩ := restore_of_absent o hne hdst hjournal
  have hheld : ∀ k c, k ≠ dst → fs' k = some c → (restore o fs' backup dst).2 k = some c := by
    intro k c hk hc
    by_cases hkb : k = backup
    · subst hkb
      rw [hbackup, hc]
      rfl
    · rw [hsame k hk hkb, hc]
  rw [← hbackup]
  refine ⟨fun hk => hk.backup, fun heq => ⟨heq, .inr ⟨fun c hc => ?_, fun c hc => ?_⟩, ?_⟩⟩
  · exact hheld _ c (bad_ne dst) (hbad c hc)
  · exact hheld _ c (bad_journal_ne dst) (hbadj c hc)
  · exact fun hinvalid => absurd hinvalid hresult

/-- The journal does not exist.

**Proof sketch.** One case for what putting the database aside does: it is not there, it is moved,
or it is stuck. In the first two the restoration runs with nothing in its way, and it keeps the
files unless it creates the backup anew where one was. -/
lemma keeps_of_no_journal (hne : backup ≠ dst) (hb : fs backup = some b)
    (hj : fs (journal dst) = none) {r : Bool × Files C} (h : Aside o fs dst r) :
    Kept fs backup dst
      (if r.1 then restore o r.2 backup dst else (.failedInvalidDst, r.2)) ↔
      Safe o fs backup dst := by
  have hexists : ¬ existFile fs (journal dst) = true := by simp [existFile, hj]
  have hsafe : Safe o fs backup dst ↔ Spares o fs backup dst :=
    ⟨fun hs => hs.sparesDst fun hstuck => hexists hstuck.1, fun hs =>
      ⟨fun hboth => hexists hboth.1.1, fun _ hmoves => absurd hmoves.1 hexists,
        spares_of_absent hj, fun _ => hs⟩⟩
  rw [hsafe]
  cases h with
  | absent hd =>
    refine (kept_restore_iff hne hd hj (by simp [hd]) (by simp [hj])).trans ?_
    simp [hb, spares_of_absent hd]
  | @moved d hd hmove =>
    have hjournal : Function.update (Function.update fs dst none) (bad dst) (some d) (journal dst) =
        none := by
      rw [moved_other _ (journal_ne dst) (bad_ne_journal dst).symm, hj]
    refine (kept_restore_iff hne (moved_name _) hjournal ?_ (by simp [hj])).trans ?_
    · intro c hc
      rw [Function.update_self, ← hd, hc]
    · rw [spares_iff_of_canMove hb hd hmove]
      by_cases heq : backup = bad dst
      · subst heq
        simp [hb]
      · rw [moved_other _ hne heq, hb]
        simp [heq]
  | stuck hd hmove hsame hbad =>
    exact kept_iff_of_stuck hb hd hmove (bad_ne dst) (bad_ne_journal dst) hsame hbad

/-- The backup that is in the way of the journal, or is the journal.

**Proof sketch.** By cases on whether the backup is the journal, or the name that the journal is
moved to, or another file. -/
lemma own_iff {j : C} (hb : fs backup = some b) (hj : fs (journal dst) = some j)
    (hjmove : CanMove o fs (journal dst)) {fs₁ : Files C}
    (hfs₁ : Function.update (Function.update fs (journal dst) none) (bad (journal dst)) (some j) =
      fs₁) :
    ((backup = journal dst → Moves o fs (journal dst) →
      o.connects = true ∧ fs backup = some o.created) ∧ Spares o fs backup (journal dst)) ↔
      (if (fs₁ backup).isNone && o.connects then some o.created else fs₁ backup) = some b := by
  have hmoves : Moves o fs (journal dst) := ⟨by simp [existFile, hj], hjmove⟩
  rw [spares_iff_of_canMove hb hj hjmove, ← hfs₁]
  by_cases h₁ : backup = journal dst
  · subst h₁
    have hne : journal dst ≠ bad (journal dst) := (bad_ne _).symm
    rw [moved_name, hb]
    cases hc : o.connects <;> simp [hmoves, hne, eq_comm]
  · by_cases h₂ : backup = bad (journal dst)
    · subst h₂
      rw [Function.update_self]
      simp [h₁]
    · rw [moved_other _ h₁ h₂, hb]
      simp [h₁, h₂]

/-- The journal is put aside.

**Proof sketch.** The same three cases on the disk where the journal has been moved. If the
database is then stuck, the journal is not at its place any more, which the condition excludes. -/
lemma keeps_of_journal_moved {j : C} (hne : backup ≠ dst) (hb : fs backup = some b)
    (hj : fs (journal dst) = some j) (hjmove : CanMove o fs (journal dst)) {r : Bool × Files C}
    (h : Aside o (Function.update (Function.update fs (journal dst) none) (bad (journal dst))
      (some j)) dst r) :
    Kept fs backup dst
      (if r.1 then restore o r.2 backup dst else (.failedInvalidDst, r.2)) ↔
      Safe o fs backup dst := by
  generalize hfs₁ : Function.update (Function.update fs (journal dst) none) (bad (journal dst))
    (some j) = fs₁ at h
  have hmoves : Moves o fs (journal dst) := ⟨by simp [existFile, hj], hjmove⟩
  have hnot : ¬ Stuck o fs (journal dst) := fun hstuck => hstuck.2 hjmove
  have hfree : fs₁ (journal dst) = none := by
    rw [← hfs₁, moved_name]
  have haside : fs₁ (bad (journal dst)) = some j := by
    rw [← hfs₁, Function.update_self]
  have hd₁ : fs₁ dst = fs dst := by
    rw [← hfs₁, moved_other _ (journal_ne dst).symm (bad_journal_ne dst).symm]
  have hbad₁ : fs₁ (bad dst) = fs (bad dst) := by
    rw [← hfs₁, moved_other _ (bad_ne_journal dst) (bad_journal_ne_bad dst).symm]
  have hcan : CanMove o fs₁ dst ↔ CanMove o fs dst := by
    rw [CanMove, CanMove, existFile, existFile, hbad₁]
  have hown := own_iff hb hj hjmove hfs₁
  cases h with
  | absent hd =>
    rw [hd₁] at hd
    refine (kept_restore_iff hne (hd₁.trans hd) hfree (by simp [hd]) ?_).trans ?_
    · intro c hc
      rw [haside, ← hj, hc]
    · rw [hb, ← hown]
      refine ⟨fun hs => ⟨fun hboth => ?_, hs.1, hs.2, fun _ => spares_of_absent hd⟩,
        fun hs => ⟨hs.own, hs.sparesJournal⟩⟩
      have hexists := hboth.2.1
      simp [existFile, hd] at hexists
  | @moved d hd hmove =>
    rw [hd₁] at hd
    rw [hcan] at hmove
    have hjournal : Function.update (Function.update fs₁ dst none) (bad dst) (some d)
        (journal dst) = none := by
      rw [moved_other _ (journal_ne dst) (bad_ne_journal dst).symm, hfree]
    refine (kept_restore_iff hne (moved_name _) hjournal ?_ ?_).trans ?_
    · intro c hc
      rw [Function.update_self, ← hd, hc]
    · intro c hc
      rw [moved_other _ (bad_journal_ne dst) (bad_journal_ne_bad dst), haside, ← hj, hc]
    · have hsafe : Safe o fs backup dst ↔ ((backup = journal dst → Moves o fs (journal dst) →
          o.connects = true ∧ fs backup = some o.created) ∧ Spares o fs backup (journal dst)) ∧
          Spares o fs backup dst :=
        ⟨fun hs => ⟨⟨hs.own, hs.sparesJournal⟩, hs.sparesDst hnot⟩,
          fun hs => ⟨fun hboth => hboth.2.2 hmove, hs.1.1, hs.1.2, fun _ => hs.2⟩⟩
      rw [hsafe, hown, spares_iff_of_canMove hb hd hmove, hb]
      by_cases heq : backup = bad dst
      · subst heq
        rw [hbad₁, hb]
        simp
      · rw [moved_other _ hne heq]
        simp [heq]
  | stuck hd hmove hsame hbad =>
    rw [hd₁] at hd
    rw [hcan] at hmove
    constructor
    · intro hkept
      have hplace := (hkept.place rfl).2
      have hgone := (hsame _ (bad_ne_journal dst).symm).trans hfree
      simp [hgone, hj] at hplace
    · intro hs
      exact absurd ⟨hmoves, by simp [existFile, hd], hmove⟩ hs.together

end Kept

/-- **When the recovery keeps the old files.** For all files, every backup other than the database
and all failures, the backup is unchanged and the old database and its journal are together, at
their place if the function refuses the database, if and only if the backup does not exist or all
of this holds: it is not so that the journal is put aside and then the database cannot be; and the
backup is not under one of the names that the function takes for the old files, unless nothing
happens to it there or the same contents come back.

**Proof sketch.** Each file is absent, is put aside or is stuck (`Aside`). If one is stuck the
function ends, and the other one is at its place exactly if it was not put aside before. Otherwise
both are under their other names, which the last part of the function does not touch. -/
theorem recover_keeps (o : Outcome C) (fs : Files C) {backup dst : String} (hne : backup ≠ dst) :
    Kept fs backup dst (recoverFromBackup o fs backup dst true) ↔
      fs backup = none ∨ Safe o fs backup dst := by
  cases hb : fs backup with
  | none =>
    rw [recoverFromBackup, existFile, hb]
    refine ⟨fun _ => .inl rfl, fun _ => ⟨rfl, .inl ⟨fun _ => id, fun _ => id⟩, nofun⟩⟩
  | some b =>
    have hrecover : recoverFromBackup o fs backup dst true =
        if (putAside o fs (journal dst)).1 then
          if (putAside o (putAside o fs (journal dst)).2 dst).1 then
            restore o (putAside o (putAside o fs (journal dst)).2 dst).2 backup dst
          else (.failedInvalidDst, (putAside o (putAside o fs (journal dst)).2 dst).2)
        else (.failedInvalidDst, (putAside o fs (journal dst)).2) := by
      rw [recoverFromBackup, existFile, hb]
      rfl
    have hjournal := aside_of_putAside o fs (journal dst)
    have hdst := aside_of_putAside o (putAside o fs (journal dst)).2 dst
    have hor : (some b = none ∨ Safe o fs backup dst) ↔ Safe o fs backup dst := by simp
    rw [hrecover, hor]
    generalize putAside o fs (journal dst) = r at hjournal hdst ⊢
    cases hjournal with
    | absent hj => exact keeps_of_no_journal hne hb hj hdst
    | moved hj hmove => exact keeps_of_journal_moved hne hb hj hmove hdst
    | stuck hj hmove hsame hbad =>
      have hexists : existFile fs (journal dst) = true := by simp [existFile, hj]
      refine (kept_iff_of_stuck hb hj hmove (bad_journal_ne dst) (bad_ne _) hsame hbad).trans ?_
      exact ⟨fun hs => ⟨fun hboth => hmove hboth.1.2, fun _ hmoves => absurd hmoves.2 hmove, hs,
        fun hnot => absurd ⟨hexists, hmove⟩ hnot⟩, fun hs => hs.sparesJournal⟩

/-- A database with its journal and a backup. -/
def threeFiles : Files ℕ := fun name =>
  if name = "a.db" then some 1 else if name = "a.db-journal" then some 2
  else if name = "b.db" then some 3 else none

/-- Only these steps fail. -/
def failing (steps : List Step) : Outcome ℕ where
  fails step := steps.contains step
  connects := true
  created := 0
  pings := true
  backsUp := true
  leaves := none

/-- If no step fails, the old files are kept. -/
theorem recover_keeps_three : Kept threeFiles "b.db" "a.db"
    (recoverFromBackup (failing []) threeFiles "b.db" "a.db" true) := by
  refine (recover_keeps _ _ (by decide)).2 (.inr ⟨by decide, fun heq => ?_, by decide, by decide⟩)
  exact absurd heq (by decide)

/-- **The journal is separated from its database** if the database cannot be renamed: the recovery
is refused, the database is at its place and the journal is not. -/
theorem recover_separates :
    let r := recoverFromBackup (failing [.rename "a.db" "a.db.bad"]) threeFiles "b.db" "a.db" true
    r.1 = .failedInvalidDst ∧ r.2 "a.db" = some 1 ∧ r.2 "a.db.bad" = none ∧
      r.2 "a.db-journal" = none ∧ r.2 "a.db-journal.bad" = some 2 ∧
      ¬ Kept threeFiles "b.db" "a.db" r := by
  intro r
  refine ⟨rfl, rfl, rfl, rfl, rfl, fun h => ?_⟩
  have hplace := (h.place rfl).2
  exact absurd hplace (by decide)

end HkuUtils.SQLite
