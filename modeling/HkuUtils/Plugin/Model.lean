import HkuUtils.Threads

set_option relaxedAutoImplicit false
set_option autoImplicit false

/-!
# The plugins of a process

`PluginManager` keeps a loader for each plugin in a map under a `shared_mutex`. `getPlugin` looks
into the map under the shared lock, loads the plugin without a lock if it is not there, and looks
once more under the exclusive lock: it inserts its own loader, or takes the instance of the one that
was inserted in the meantime and throws its own away. Any number of threads do this at once.

## Main definitions

* `HkuUtils.Plugin.PluginLoader` — a loader: the library that it has opened and its plugin.
* `HkuUtils.Plugin.Shared` — the members of the manager, and what has been done to libraries and
  plugins.
* `HkuUtils.Plugin.Stage`, `act` — where a call of `getPlugin` is, and its actions.
* `HkuUtils.Plugin.system` — their interleavings with `clear` and the setter `pluginPath`.

## Main results

* `HkuUtils.Plugin.acts_of_act`, `changes_of_change` — what a step can do.

## Design

A section under a lock is one step. The setter of the path takes no lock, so that its test and its
assignment are two steps; the assignment itself, and the copy of the path in `getPlugin`, are one
step each. The system library is given by what happens at each call: a
file is there or not, `dlopen` gives a handle or not, `dlsym` finds the function or not, and the
function gives a plugin with some interfaces or none. `dlsym` of a null handle looks at the process
itself, so it may find a function as well. A call through a null pointer ends the process. What a
call returns is recorded where it is determined, and the deletion of a loader on the way out is a
step of its own.
-/

namespace HkuUtils.Plugin

open Transition

/-- A plugin: which object it is, and the interfaces to which `dynamic_cast` converts it. -/
structure PluginBase where
  id : ℕ
  interfaces : List ℕ
  deriving DecidableEq, Repr

/-- `getFileName` of a loader for a path, on Linux. -/
def getFileName (path pluginname : String) : String := path ++ "/lib" ++ pluginname ++ ".so"

/-- `PluginLoader`. -/
structure PluginLoader where
  /-- The file that `m_handle` is of, or `none` for a null handle. -/
  handle : Option String
  /-- `m_plugin`. -/
  plugin : Option PluginBase
  deriving DecidableEq, Repr

namespace PluginLoader

/-- `instance`. -/
def «instance» (l : PluginLoader) (interface : ℕ) : Option PluginBase :=
  l.plugin.filter fun p => interface ∈ p.interfaces

/-- The plugin that belongs to a loader. -/
def objects (l : PluginLoader) : List ℕ := l.plugin.toList.map PluginBase.id

/-- The handle that belongs to a loader. -/
def handles (l : PluginLoader) : List String := l.handle.toList

end PluginLoader

/-- The arguments of `getPlugin`; the interface is its template argument. -/
structure Request where
  pluginname : String
  print : Bool
  interface : ℕ
  deriving DecidableEq, Repr

/-- The members of the manager, and what the calls have done. -/
structure Shared where
  /-- `m_plugin_path`. -/
  pluginPath : String
  /-- The paths of the calls of the setter that have found the map empty. -/
  setting : List String
  /-- `m_plugins`. -/
  plugins : List (String × PluginLoader)
  /-- How many plugins were created. -/
  created : ℕ
  /-- The plugins that were deleted. -/
  deleted : List ℕ
  /-- The files of the calls of `dlopen` that gave a handle. -/
  opened : List String
  /-- The files of the calls of `dlclose`. -/
  closed : List String
  /-- The files of the handles whose `createPlugin` gave no plugin. -/
  refused : List String
  /-- What the calls of `getPlugin` returned other than null. -/
  returned : List (String × PluginBase)
  /-- There was a call through a null pointer. -/
  crashed : Bool
  deriving DecidableEq, Repr

namespace Shared

/-- `unload` of a loader: the plugin is deleted and the library closed, if there are any. The
handle is not set to null. -/
def unload (m : Shared) (l : PluginLoader) : Shared :=
  { m with deleted := l.objects ++ m.deleted, closed := l.handles ++ m.closed }

/-- A result of `getPlugin`. -/
def give (m : Shared) (r : Request) (result : Option PluginBase) : Shared :=
  { m with returned := (result.toList.map fun p => (r.pluginname, p)) ++ m.returned }

/-- `clear`. -/
def clear (m : Shared) : Shared :=
  { m with
    plugins := []
    deleted := m.plugins.flatMap (fun e => e.2.objects) ++ m.deleted
    closed := m.plugins.flatMap (fun e => e.2.handles) ++ m.closed }

/-- The first step of the setter `pluginPath`: it goes on if the map is empty. -/
def checkEmpty (m : Shared) (path : String) : Shared :=
  if m.plugins = [] then { m with setting := path :: m.setting } else m

/-- The second step of the setter, which may come when the map is no longer empty. -/
def setPluginPath (m : Shared) (path : String) : Shared :=
  { m with pluginPath := path, setting := m.setting.erase path }

end Shared

/-- Where a thread is in `getPlugin`. Between two stages other threads may find, load, insert, and
change the path. -/
inductive Stage where
  /-- Between two calls. -/
  | idle
  /-- Before the section under the shared lock. -/
  | finding (r : Request)
  /-- The name is not in the map; before `make_unique`. -/
  | making (r : Request)
  /-- In `load` of a new loader for the path, before `existFile` and `dlopen`. -/
  | opening (r : Request) (path : String)
  /-- Before `dlsym`. -/
  | resolving (r : Request) (loader : PluginLoader)
  /-- Before the call of `createPlugin`. -/
  | creating (r : Request) (loader : PluginLoader)
  /-- `load` has returned true; before the section under the exclusive lock. -/
  | loaded (r : Request) (loader : PluginLoader)
  /-- Before the loader is deleted at the end of `getPlugin`. -/
  | leaving (loader : PluginLoader)
  deriving DecidableEq, Repr

/-- How `existFile` and `dlopen` end. -/
inductive Opening where
  | noFile | refused | opened
  deriving DecidableEq, Repr

/-- The choices that are not made by the manager: what the library functions do, and which of the
calls throw. -/
inductive Action where
  /-- A call of `getPlugin`. -/
  | call (r : Request)
  /-- The call goes on. -/
  | next
  /-- `make_unique` or `insert` throws. -/
  | throw
  | «open» (how : Opening)
  /-- `dlsym` ends. -/
  | resolve (found : Bool)
  /-- `createPlugin` ends, with the interfaces of the plugin. -/
  | create (interfaces : Option (List ℕ))
  deriving DecidableEq, Repr

/-- An action of a thread. The two sections under a lock are one step each, and loading a library
is done without one. -/
def act (m : Shared) (stage : Stage) (a : Action) : Option (Shared × Stage) :=
  if m.crashed then none
  else
    match stage, a with
    | .idle, .call r => some (m, .finding r)
    | .finding r, .next =>
      match m.plugins.lookup r.pluginname with
      | some l => some (m.give r (l.instance r.interface), .idle)
      | none => some (m, .making r)
    | .making r, .next => some (m, .opening r m.pluginPath)
    | .making _, .throw => some (m, .idle)
    | .opening _ _, .open .noFile => some (m, .leaving ⟨none, none⟩)
    | .opening r _, .open .refused =>
      if r.print then some (m, .leaving ⟨none, none⟩) else some (m, .resolving r ⟨none, none⟩)
    | .opening r path, .open .opened =>
      let file := getFileName path r.pluginname
      some ({ m with opened := file :: m.opened }, .resolving r ⟨some file, none⟩)
    | .resolving r l, .resolve true => some (m, .creating r l)
    | .resolving r l, .resolve false =>
      if r.print then some (m, .leaving l) else some ({ m with crashed := true }, .leaving l)
    | .creating r l, .create (some interfaces) =>
      some ({ m with created := m.created + 1, deleted := l.objects ++ m.deleted },
        .loaded r { l with plugin := some ⟨m.created, interfaces⟩ })
    | .creating _ l, .create none =>
      some ({ m.unload l with refused := l.handles ++ m.refused },
        .leaving { l with plugin := none })
    | .loaded r l, .next =>
      match m.plugins.lookup r.pluginname with
      | some l' => some (m.give r (l'.instance r.interface), .leaving l)
      | none =>
        some ({ m with plugins := (r.pluginname, l) :: m.plugins }.give r
          (l.instance r.interface), .idle)
    | .loaded r l, .throw =>
      match m.plugins.lookup r.pluginname with
      | some _ => none
      | none => some (m, .leaving l)
    | .leaving l, .next => some (m.unload l, .idle)
    | _, _ => none

/-- **The ways in which a thread takes an action**: one constructor for each branch of `act`, with
its guard. -/
inductive Acts (m : Shared) : Stage → Action → Shared → Stage → Prop where
  | call (r : Request) : Acts m .idle (.call r) m (.finding r)
  | found {r : Request} {l : PluginLoader} (hl : m.plugins.lookup r.pluginname = some l) :
    Acts m (.finding r) .next (m.give r (l.instance r.interface)) .idle
  | missing {r : Request} (hl : m.plugins.lookup r.pluginname = none) :
    Acts m (.finding r) .next m (.making r)
  | make (r : Request) : Acts m (.making r) .next m (.opening r m.pluginPath)
  | makeThrows (r : Request) : Acts m (.making r) .throw m .idle
  | noFile (r : Request) (path : String) :
    Acts m (.opening r path) (.open .noFile) m (.leaving ⟨none, none⟩)
  | reported {r : Request} (hr : r.print = true) (path : String) :
    Acts m (.opening r path) (.open .refused) m (.leaving ⟨none, none⟩)
  | unreported {r : Request} (hr : r.print = false) (path : String) :
    Acts m (.opening r path) (.open .refused) m (.resolving r ⟨none, none⟩)
  | «open» (r : Request) (path : String) :
    Acts m (.opening r path) (.open .opened)
      { m with opened := getFileName path r.pluginname :: m.opened }
      (.resolving r ⟨some (getFileName path r.pluginname), none⟩)
  | resolve (r : Request) (l : PluginLoader) :
    Acts m (.resolving r l) (.resolve true) m (.creating r l)
  | noFunction {r : Request} (hr : r.print = true) (l : PluginLoader) :
    Acts m (.resolving r l) (.resolve false) m (.leaving l)
  | crash {r : Request} (hr : r.print = false) (l : PluginLoader) :
    Acts m (.resolving r l) (.resolve false) { m with crashed := true } (.leaving l)
  | create (r : Request) (l : PluginLoader) (interfaces : List ℕ) :
    Acts m (.creating r l) (.create (some interfaces))
      { m with created := m.created + 1, deleted := l.objects ++ m.deleted }
      (.loaded r { l with plugin := some ⟨m.created, interfaces⟩ })
  | refuse (r : Request) (l : PluginLoader) :
    Acts m (.creating r l) (.create none)
      { m.unload l with refused := l.handles ++ m.refused } (.leaving { l with plugin := none })
  | reuse {r : Request} {l' : PluginLoader} (hl : m.plugins.lookup r.pluginname = some l')
    (l : PluginLoader) :
    Acts m (.loaded r l) .next (m.give r (l'.instance r.interface)) (.leaving l)
  | insert {r : Request} (hl : m.plugins.lookup r.pluginname = none) (l : PluginLoader) :
    Acts m (.loaded r l) .next
      (Shared.give { m with plugins := (r.pluginname, l) :: m.plugins } r
        (l.instance r.interface)) .idle
  | insertThrows {r : Request} (hl : m.plugins.lookup r.pluginname = none) (l : PluginLoader) :
    Acts m (.loaded r l) .throw m (.leaving l)
  | leave (l : PluginLoader) : Acts m (.leaving l) .next (m.unload l) .idle

/-- **Inversion of an action.**

**Proof sketch.** One case for each stage and each outcome of what it asks the library or the
table. -/
theorem acts_of_act {m m' : Shared} {l l' : Stage} {a : Action} (h : act m l a = some (m', l')) :
    Acts m l a m' l' := by
  unfold act at h
  split at h
  · simp at h
  split at h <;> try split at h
  all_goals simp only [Option.some.injEq, Prod.mk.injEq, reduceCtorEq] at h
  all_goals obtain ⟨rfl, rfl⟩ := h
  · exact .call _
  · exact .found ‹_›
  · exact .missing ‹_›
  · exact .make _
  · exact .makeThrows _
  · exact .noFile _ _
  · exact .reported ‹_› _
  · exact .unreported (Bool.eq_false_of_not_eq_true ‹_›) _
  · exact .open _ _
  · exact .resolve _ _
  · exact .noFunction ‹_› _
  · exact .crash (Bool.eq_false_of_not_eq_true ‹_›) _
  · exact .create _ _ _
  · exact .refuse _ _
  · exact .reuse ‹_› _
  · exact .insert ‹_› _
  · exact .insertThrows ‹_› _
  · exact .leave _

/-- What is done to the manager outside of `getPlugin`. -/
inductive Change where
  | clear
  | checkEmpty (path : String)
  | setPluginPath (path : String)
  deriving DecidableEq, Repr

/-- The step of a change. -/
def change (m : Shared) : Change → Option Shared
  | .clear => if m.crashed then none else some m.clear
  | .checkEmpty path => if m.crashed then none else some (m.checkEmpty path)
  | .setPluginPath path =>
    if m.crashed ∨ path ∉ m.setting then none else some (m.setPluginPath path)

/-- The ways in which the manager is changed. -/
inductive Changes (m : Shared) : Change → Shared → Prop where
  | clear : Changes m .clear m.clear
  | checkEmpty (path : String) : Changes m (.checkEmpty path) (m.checkEmpty path)
  | setPluginPath (path : String) : Changes m (.setPluginPath path) (m.setPluginPath path)

/-- Inversion of a change. -/
theorem changes_of_change {m m' : Shared} {e : Change} (h : change m e = some m') :
    Changes m e m' := by
  cases e with
  | clear =>
    simp only [change] at h
    split at h
    · simp at h
    · exact Option.some.inj h ▸ .clear
  | checkEmpty path =>
    simp only [change] at h
    split at h
    · simp at h
    · exact Option.some.inj h ▸ .checkEmpty path
  | setPluginPath path =>
    simp only [change] at h
    split at h
    · simp at h
    · exact Option.some.inj h ▸ .setPluginPath path

/-- A thread that calls `getPlugin` any number of times. -/
def program : Threads.Program Shared Stage Action Change where
  start := .idle
  act := act
  env := change

/-- A manager after its constructor. -/
def Shared.init (path : String) : Shared where
  pluginPath := path
  setting := []
  plugins := []
  created := 0
  deleted := []
  opened := []
  closed := []
  refused := []
  returned := []
  crashed := false

/-- The interleavings of any number of threads. -/
def system (path : String) : System (Threads.State Shared Stage) (Threads.Event Action Change) :=
  program.system (.init path)

end HkuUtils.Plugin
