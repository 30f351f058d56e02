import RevBox.Support.Threads

/-!
# Desktop — PluginService

What the threads of `services/plugin_service.rs` and `plugins/loader.rs` do with the two locks
and with the libraries of plugins: each function is a program that takes locks, calls functions
of a plugin, and takes and gives away references to a loaded plugin.  What the database, the
files and the manifests say is left to the surroundings.

A library that is opened gets a handle; `image` says which image in memory it stands for, which
is the same for two handles of one file.
-/

namespace RevBox.Plugins

open Threads

/-- `PluginService::loaded`'s mutex, and `LOADED_CALL_LOCK`. -/
inductive Lock where
  | loaded
  | call
  deriving DecidableEq

/-- The functions a plugin exports. -/
inductive Function where
  | info
  | init
  | call
  | free
  | shutdown
  deriving DecidableEq

/-- `LoadedKind`: the handle of a library, or a plugin that is a process of its own. -/
inductive LoadedKind where
  | inProcess (h : Nat)
  | process
  deriving DecidableEq

/-- What happens to an image: a thread enters one of its functions, leaves it, or a handle is
closed. -/
inductive Event where
  | entered (image : Nat) (f : Function)
  | left (image : Nat) (f : Function) (code : Int)
  | closed (image : Nat)
  deriving DecidableEq

/-- A thread inside a plugin; a function may be one that never returns. -/
structure Visit where
  handle : Nat
  function : Function
  returns : Bool
  deriving DecidableEq

/-- The fields of `PluginService`, the strong count of each `Arc<LoadedPlugin>`, the threads
inside plugins, the workers that have sent their answer, and what has happened, newest first. -/
structure Host where
  loaded : List (String × LoadedKind)
  quarantined : List Nat
  opened : Nat
  image : Nat → Nat
  refs : Nat → Nat
  inside : Nat → Option Visit
  answered : Nat → Bool
  events : List Event

/-- What a thread is started for: a command, or the worker of a call. -/
inductive Request where
  | scan
  | list
  | manifestOf (id : String)
  | call (id : String)
  | install (id : String)
  | rollback (id : String)
  | uninstall (id : String)
  | setEnabled (id : String) (enabled : Bool)
  | unloadAll
  | worker (h : Nat)
  deriving DecidableEq

/-- The operations. -/
inductive Op where
  /-- does it succeed, is it so? -/
  | ask
  /-- `list_candidate_dirs` and `inspect`: the ids of the manifests that can be read -/
  | candidates
  | openLibrary
  | closeLibrary (h : Nat)
  | enter (h : Nat) (f : Function)
  | leave (h : Nat) (f : Function)
  /-- one reference less: was it the last? -/
  | release (h : Nat)
  | find (id : String)
  | remove (id : String)
  | insert (id : String) (kind : LoadedKind)
  | swap (new : List (String × LoadedKind))
  | quarantine (h : Nat)
  | answer
  /-- `recv_timeout`: has the worker answered? -/
  | await (worker : Nat)

@[reducible] def Reply : Op → Type
  | .ask => Bool
  | .candidates => List (Option String)
  | .openLibrary => Option Nat
  | .leave _ _ => Int
  | .release _ => Bool
  | .find _ => Option LoadedKind
  | .remove _ => Option LoadedKind
  | .insert _ _ => Option LoadedKind
  | .swap _ => List (String × LoadedKind)
  | .await _ => Bool
  | _ => Unit

/-- What the surroundings decide. -/
inductive Choice where
  | flag (b : Bool)
  | dirs (ids : List (Option String))
  | library (image : Option Nat)
  | code (n : Int)

namespace Host

/-- `HashMap::get`. -/
def get (w : Host) (id : String) : Option LoadedKind := (w.loaded.find? (·.1 = id)).map (·.2)

/-- The entries but that of `id`. -/
def without (w : Host) (id : String) : List (String × LoadedKind) :=
  w.loaded.filter fun e => e.1 ≠ id

/-- `Arc::clone`. -/
def clone (w : Host) : Option LoadedKind → Host
  | some (.inProcess h) => { w with refs := Function.update w.refs h (w.refs h + 1) }
  | _ => w

end Host

/-- What an operation of thread `i` does. -/
def exec (w : Host) (i : Nat) : (o : Op) → Choice → Option (Reply o × Host)
  | .ask, .flag b => some (b, w)
  | .candidates, .dirs ids => some (ids, w)
  | .openLibrary, .library none => some (none, w)
  | .openLibrary, .library (some m) =>
      some (some w.opened, { w with
        opened := w.opened + 1
        image := Function.update w.image w.opened m
        refs := Function.update w.refs w.opened 1 })
  | .closeLibrary h, _ =>
      some ((), { w with
        refs := Function.update w.refs h 0
        events := .closed (w.image h) :: w.events })
  | .enter h f, .flag returns =>
      -- only a call may never come back
      if returns = true ∨ f = .call then
        some ((), { w with
          inside := Function.update w.inside i (some ⟨h, f, returns⟩)
          events := .entered (w.image h) f :: w.events })
      else none
  | .leave h f, .code n =>
      if w.inside i = some ⟨h, f, true⟩ then
        some (n, { w with
          inside := Function.update w.inside i none
          events := .left (w.image h) f n :: w.events })
      else none
  | .release h, _ =>
      some (w.refs h = 1, { w with refs := Function.update w.refs h (w.refs h - 1) })
  | .find id, _ => some (w.get id, w.clone (w.get id))
  | .remove id, _ => some (w.get id, { w with loaded := w.without id })
  | .insert id kind, _ => some (w.get id, { w with loaded := (id, kind) :: w.without id })
  | .swap new, _ => some (w.loaded, { w with loaded := new })
  | .quarantine h, _ => some ((), { w with quarantined := h :: w.quarantined })
  | .answer, _ => some ((), { w with answered := Function.update w.answered i true })
  | .await worker, .flag b => if b = true → w.answered worker = true then some (b, w) else none
  | _, _ => none

/-- What a thread runs. -/
abbrev Code (α : Type) : Type := Body Lock Request Op Reply α

/-- Perform one operation. -/
def perform (o : Op) : Code (Reply o) := op o

/-- Call a function of a plugin. -/
def visit (h : Nat) (f : Function) : Code Int := do
  perform (.enter h f)
  perform (.leave h f)

/-! ### `plugins/loader.rs` -/

/-- The end of a reference: with the last one, `Drop for LoadedPlugin` and then `dlclose`. -/
def dropHandle (h : Nat) : Code Unit := do
  if ← perform (.release h) then
    let _ ← visit h .shutdown
    perform (.closeLibrary h)

def dropKind : LoadedKind → Code Unit
  | .inProcess h => dropHandle h
  | .process => pure ()

def dropOption : Option LoadedKind → Code Unit
  | some kind => dropKind kind
  | none => pure ()

def dropAll : List (String × LoadedKind) → Code Unit
  | [] => pure ()
  | (_, kind) :: rest => do
      dropKind kind
      dropAll rest

/-- `load_one`, from `Library::new` on. -/
def loadOne : Code (Option Nat) := do
  match ← perform .openLibrary with
  | none => pure none
  | some h =>
      -- the five symbols
      if ← perform .ask then
        let _ ← visit h .info
        -- not null, of the host's version, and of the manifest's id
        if ← perform .ask then
          lock .call
          let code ← visit h .init
          unlock .call
          if code = 0 then
            pure (some h)
          else do
            perform (.closeLibrary h)
            pure none
        else do
          perform (.closeLibrary h)
          pure none
      else do
        perform (.closeLibrary h)
        pure none

/-- The thread `call_checked` starts. -/
def worker (h : Nat) : Code Unit := do
  lock .call
  let _ ← visit h .call
  -- is there output to be copied and given back?
  if ← perform .ask then
    let _ ← visit h .free
    perform .answer
  else
    perform .answer
  unlock .call

/-! ### `services/plugin_service.rs` -/

/-- `load_dir`. -/
def loadDir : Code (Option LoadedKind) := do
  -- the manifest, and its entry for this platform
  if ← perform .ask then
    if ← perform .ask then
      -- a process plugin: `ProcessPlugin::info`
      if ← perform .ask then pure (some .process) else pure none
    else
      return (← loadOne).map .inProcess
  else
    pure none

def unloadHandle (id : String) : Code Unit := do
  lock .loaded
  lock .call
  dropOption (← perform (.remove id))
  unlock .call
  unlock .loaded

def putLoaded (id : String) (kind : LoadedKind) : Code Unit := do
  lock .loaded
  lock .call
  dropOption (← perform (.insert id kind))
  unlock .call
  unlock .loaded

/-- `list`, `manifest_of` and `loaded_ids`: the map is read. -/
def readLoaded : Code Unit := do
  lock .loaded
  let _ ← perform .ask
  unlock .loaded

/-- The loop of `scan`; nothing if the database fails. -/
def scanEach : List (Option String) → List (String × LoadedKind) →
    Code (Option (List (String × LoadedKind)))
  | [], new => pure (some new)
  | none :: rest, new => scanEach rest new
  | some id :: rest, new => do
      if ← perform .ask then
        -- enabled?
        if ← perform .ask then
          match ← loadDir with
          | some kind => do
              dropOption ((new.find? (·.1 = id)).map (·.2))
              scanEach rest ((id, kind) :: new.filter fun e => e.1 ≠ id)
          | none => scanEach rest new
        else
          scanEach rest new
      else do
        dropAll new
        pure none

def scan : Code Unit := do
  match ← scanEach (← perform .candidates) [] with
  | none => pure ()
  | some new => do
      lock .loaded
      lock .call
      dropAll (← perform (.swap new))
      unlock .call
      unlock .loaded
      if ← perform .ask then
        readLoaded

def call (id : String) : Code Unit := do
  -- enabled, as far as the database knows
  if ← perform .ask then
    lock .loaded
    let kind ← perform (.find id)
    unlock .loaded
    match kind with
    | some (.inProcess h) =>
        -- the input is short enough, and the thread starts
        if ← perform .ask then
          let w ← fork (.worker h)
          if ← perform (.await w) then
            dropHandle h
          else do
            perform (.quarantine h)
            lock .loaded
            dropOption (← perform (.remove id))
            unlock .loaded
        else
          dropHandle h
    | some .process => pure ()
    | none => pure ()

/-- What `install`, `rollback` and `set_enabled` do with a plugin that is loaded again. -/
def register (id : String) (kind : LoadedKind) : Code Unit := do
  if ← perform .ask then
    putLoaded id kind
    if ← perform .ask then
      readLoaded
  else
    dropKind kind

def install (id : String) : Code Unit := do
  -- the source is valid and newer
  if ← perform .ask then
    unloadHandle id
    -- staged and swapped
    if ← perform .ask then
      match ← loadDir with
      | some kind => register id kind
      | none =>
          -- there is a backup, and it is back in place
          if ← perform .ask then
            match ← loadDir with
            | some kind => putLoaded id kind
            | none => pure ()

def rollback (id : String) : Code Unit := do
  unloadHandle id
  if ← perform .ask then
    match ← loadDir with
    | some kind => register id kind
    | none => pure ()

def uninstall (id : String) : Code Unit := do
  unloadHandle id

def setEnabled (id : String) (enabled : Bool) : Code Unit := do
  -- there is a row
  if ← perform .ask then
    if enabled then
      match ← loadDir with
      | some kind => register id kind
      | none => pure ()
    else do
      unloadHandle id
      if ← perform .ask then
        readLoaded

def unloadAll : Code Unit := do
  lock .loaded
  if ← tryLock .call then
    dropAll (← perform (.swap []))
    unlock .call
  unlock .loaded

def body : Request → Code Unit
  | .scan => scan
  | .list => readLoaded
  | .manifestOf _ => readLoaded
  | .call id => call id
  | .install id => install id
  | .rollback id => rollback id
  | .uninstall id => uninstall id
  | .setEnabled id enabled => setEnabled id enabled
  | .unloadAll => unloadAll
  | .worker h => worker h

/-- The threads of the service. -/
def service : System Lock Request Op Reply Unit Host Choice where
  body := body
  exec := exec

/-- The service's threads and locks. -/
abbrev Pool : Type := Threads.Pool Lock Request Op Reply Unit Host

/-- The service as it is made. -/
def boot : Host := ⟨[], [], 0, fun _ => 0, fun _ => 0, fun _ => none, fun _ => false, []⟩

/-- A service that has just been made, and the commands that come in. -/
def plugins : Machine Pool (Label Request Choice) := service.machine (· = boot)

end RevBox.Plugins
