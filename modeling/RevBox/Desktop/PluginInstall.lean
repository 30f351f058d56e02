import RevBox.Support.PathWalk
import RevBox.Support.Text
import RevBox.Support.Trace

/-!
# Desktop — PluginInstall

`plugins/manifest.rs`, `plugins/install.rs` and the commands of `services/plugin_service.rs` that
move plugins about: each function is a program over calls to the files, the registry and the
loader, which the surroundings answer.  A path is the list of its components, as
`Path::components` gives them.
-/

namespace RevBox.PluginInstall

open FileTree

/-- The components of a path. -/
abbrev Dir := List Name

/-- The components of a text. -/
def components (text : List Char) : Dir := (text.splitOn '/').filter fun n => ¬ Stay n

/-- `Path::join`. -/
def join (p : Dir) (text : List Char) : Dir :=
  if text.head? = some '/' then components text else p ++ components text

/-! ### `plugins/manifest.rs` -/

/-- `HOST_ABI_VERSION`. -/
def hostAbiVersion : Nat := 1

/-- `PLUGIN_TYPES`. -/
def pluginTypes : List (List Char) :=
  ["device".toList, "tool".toList, "crypto".toList, "parser".toList, "workflow".toList]

def transportInProcess : List Char := "in-process".toList

def transportProcess : List Char := "process".toList

structure PluginManifest where
  id : List Char
  name : List Char
  version : List Char
  abi : Nat
  pluginType : List Char
  entry : List (List Char × List Char)
  transport : Option (List Char)

inductive ManifestError where
  | emptyField (field : String)
  | badId (id : List Char)
  | abiMismatch (got want : Nat)
  | unknownType (t : List Char)
  | unknownTransport (t : List Char)
  | missingPlatformEntry (p : List Char)
  | pathEscape

/-- `is_valid_id`. -/
def isValidId (id : List Char) : Bool :=
  !id.isEmpty && id.all fun c =>
    c.isLower || c.isDigit || c = '.' || c = '_' || c = '-'

namespace PluginManifest

variable (m : PluginManifest)

/-- `entry_for`. -/
def entryFor (platformKey : List Char) : Option (List Char) :=
  (m.entry.find? fun e => e.1 = platformKey).map (·.2)

def validate (platformKey : List Char) : Except ManifestError Unit :=
  if (Text.trim m.id).isEmpty then .error (.emptyField "id")
  else if !isValidId m.id then .error (.badId m.id)
  else if (Text.trim m.name).isEmpty then .error (.emptyField "name")
  else if (Text.trim m.version).isEmpty then .error (.emptyField "version")
  else if m.abi ≠ hostAbiVersion then .error (.abiMismatch m.abi hostAbiVersion)
  else if m.pluginType ∉ pluginTypes then .error (.unknownType m.pluginType)
  else if m.transport.any fun t => t ≠ transportInProcess ∧ t ≠ transportProcess then
    .error (.unknownTransport (m.transport.getD []))
  else
    match m.entryFor platformKey with
    | none => .error (.missingPlatformEntry platformKey)
    | some entry =>
        if entry.head? = some '/' ∨ parentName ∈ components entry then .error .pathEscape
        else .ok ()

end PluginManifest

/-! ### The operations -/

/-- A loaded plugin, by its manifest. -/
structure Handle where
  id : List Char
  version : List Char
  deriving DecidableEq

/-- `PluginRow`, as far as it is looked at. -/
structure PluginRow where
  id : List Char
  version : List Char
  path : Dir
  enabled : Bool
  deriving DecidableEq

/-- What the functions ask of the files, the clock, the loader, the registry, and the map of
handles. -/
inductive Op where
  /-- `is_dir`, and the manifest of a source directory, if it parses -/
  | source (dir : Dir)
  /-- the artifact is there, may be executed where it must, and has the digest that is declared -/
  | artifact (dir : Dir)
  | present (p : Dir)
  /-- `read_manifest_of` -/
  | manifest (dir : Dir)
  | createDirAll (p : Dir)
  | rename (p q : Dir)
  | removeDirAll (p : Dir)
  | copy (p q : Dir)
  /-- `read_dir`: the names, and whether they are directories -/
  | readDir (p : Dir)
  | secs
  | millis
  | loadDir (dir : Dir)
  | unloadHandle (id : List Char)
  | putLoaded (id : List Char) (kind : Handle)
  | replaceLoaded (new : List (List Char × Handle))
  /-- `list_candidate_dirs` -/
  | candidates
  | inspect (dir : Dir)
  | dbEnabled (id : List Char)
  | getRow (id : List Char)
  | upsert (row : PluginRow)
  | setEnabledRow (id : List Char) (enabled : Bool)
  | removeRow (id : List Char)
  | removeExcept (ids : List (List Char))
  /-- `list`, and the row of the plugin in it -/
  | listed (id : List Char)

@[reducible] def Reply : Op → Type
  | .source _ | .manifest _ | .inspect _ => Option PluginManifest
  | .readDir _ => Option (List (Name × Bool))
  | .secs | .millis => Nat
  | .loadDir _ => Option Handle
  | .candidates => List Dir
  | .dbEnabled _ => Option Bool
  | .getRow _ => Option PluginRow
  | .unloadHandle _ | .putLoaded _ _ | .replaceLoaded _ => Unit
  | _ => Bool

abbrev Code (α : Type) : Type := Prog Op Reply α

def perform (o : Op) : Code (Reply o) := Prog.perform o

/-- `InstallError`, and the service's own errors. -/
inductive Failure where
  | noSource
  | invalid (e : ManifestError)
  | artifact
  | unreadable
  | notHigher (current next : List Char)
  | noBackup (id : List Char)
  | io
  | loading (version : List Char)
  | database
  | notRegistered (id : List Char)

/-- Where plugins are kept, this process, and its platform. -/
structure Home where
  root : Dir
  pid : Nat
  platform : List Char

/-- `BACKUPS_DIR`. -/
def backupsDir : Name := ".backups".toList

/-- `STAGING_DIR`. -/
def stagingDir : Name := ".staging".toList

/-! ### `plugins/install.rs` -/

section Install

variable (h : Home)

/-- `target_dir`. -/
def targetDir (id : List Char) : Dir := join h.root id

/-- `root.join(BACKUPS_DIR).join(id)`. -/
def backupsOf (id : List Char) : Dir := join (h.root ++ [backupsDir]) id

def stagingRoot : Dir := h.root ++ [stagingDir]

/-- `{pid}-{millis}`. -/
def stagedName (millis : Nat) : Name := Text.decimal h.pid ++ '-' :: Text.decimal millis

/-- `rollback-trash-{id}-{pid}`. -/
def trashName (id : List Char) : Name :=
  "rollback-trash-".toList ++ id ++ '-' :: Text.decimal h.pid

/-- `validate_source`. -/
def validateSource (src : Dir) : Code (Except Failure PluginManifest) := do
  match ← perform (.source src) with
  | none => pure (.error .noSource)
  | some m =>
      match m.validate h.platform with
      | .error e => pure (.error (.invalid e))
      | .ok () =>
          if ← perform (.artifact src) then pure (.ok m) else pure (.error .artifact)

/-- The loop of `copy_dir_recursive`. -/
def copyEach (sub : Dir → Dir → Code Bool) (src dst : Dir) : List (Name × Bool) → Code Bool
  | [] => pure true
  | (name, isDir) :: rest => do
      let done ← if isDir then sub (src ++ [name]) (dst ++ [name])
        else perform (.copy (src ++ [name]) (dst ++ [name]))
      if done then copyEach sub src dst rest else pure false

/-- `copy_dir_recursive`; the length of a path bounds how deep it goes. -/
def copyDirRecursive : Nat → Dir → Dir → Code Bool
  | 0, _, _ => pure false
  | depth + 1, src, dst => do
      if ← perform (.createDirAll dst) then
        match ← perform (.readDir src) with
        | none => pure false
        | some entries => copyEach (copyDirRecursive depth) src dst entries
      else pure false

/-- The longest path there is. -/
def pathMax : Nat := 4096

def stage (src : Dir) : Code (Except Failure Dir) := do
  if ← perform (.createDirAll (stagingRoot h)) then
    let dst := stagingRoot h ++ [stagedName h (← perform .millis)]
    if ← copyDirRecursive pathMax src dst then pure (.ok dst) else pure (.error .io)
  else pure (.error .io)

/-- `commit_swap` from the second rename on. -/
def settle (target staging : Dir) (backup : Option Dir) : Code (Except Failure (Option Dir)) := do
  if ← perform (.createDirAll target.dropLast) then
    if ← perform (.rename staging target) then pure (.ok backup)
    else
      match backup with
      | some b => do
          let _ ← perform (.rename b target)
          pure (.error .io)
      | none => pure (.error .io)
  else pure (.error .io)

/-- The place of a backup: `{ts}-{version}`. -/
def backupDir (id : List Char) (ts : Nat) (version : List Char) : Dir :=
  join (backupsOf h id) (Text.decimal ts ++ '-' :: version)

/-- `commit_swap`. -/
def commitSwap (m : PluginManifest) (staging : Dir) : Code (Except Failure (Option Dir)) := do
  let target := targetDir h m.id
  if ← perform (.present target) then
    match ← perform (.manifest target) with
    | none => pure (.error .unreadable)
    | some old =>
        let dst := backupDir h m.id (← perform .secs) old.version
        if ← perform (.createDirAll dst.dropLast) then
          if ← perform (.rename target dst) then settle target staging (some dst)
          else pure (.error .io)
        else pure (.error .io)
  else settle target staging none

/-- The loop of `prune_backups`. -/
def pruneEach (keep : Option Dir) (dir : Dir) : List (Name × Bool) → Code Unit
  | [] => pure ()
  | (name, _) :: rest => do
      if keep = some (dir ++ [name]) then pruneEach keep dir rest
      else do
        let _ ← perform (.removeDirAll (dir ++ [name]))
        pruneEach keep dir rest

/-- `prune_backups`, which never fails. -/
def pruneBackups (id : List Char) (keep : Option Dir) : Code Unit := do
  match ← perform (.readDir (backupsOf h id)) with
  | none => pure ()
  | some entries => pruneEach keep (backupsOf h id) entries

/-- The last of the names that are sorted. -/
def lastOf : List Name → Option Name
  | [] => none
  | n :: ns =>
      match lastOf ns with
      | none => some n
      | some m => if m < n then some n else some m

/-- `latest_backup`. -/
def latestBackup (id : List Char) : Code (Option Dir) := do
  match ← perform (.readDir (backupsOf h id)) with
  | none => pure none
  | some entries =>
      pure ((lastOf ((entries.filter (·.2)).map (·.1))).map fun n => backupsOf h id ++ [n])

/-- `install::rollback`, when the backup does not take its place: what was there goes back. -/
def undoRollback (target trash : Dir) : Code Unit := do
  if ← perform (.present target) then
    let _ ← perform (.removeDirAll target)
  if ← perform (.present trash) then
    let _ ← perform (.rename trash target)

/-- `install::rollback` from the second rename on. -/
def swapBack (id : List Char) (backup target trash : Dir) :
    Code (Except Failure PluginManifest) := do
  if ← perform (.rename backup target) then
    match ← perform (.manifest target) with
    | none => pure (.error .unreadable)
    | some m => do
        let _ ← perform (.removeDirAll trash)
        let _ ← perform (.removeDirAll (backupsOf h id))
        pure (.ok m)
  else do
    undoRollback target trash
    pure (.error .io)

/-- `install::rollback`. -/
def rollbackFiles (id : List Char) : Code (Except Failure PluginManifest) := do
  match ← latestBackup h id with
  | none => pure (.error (.noBackup id))
  | some backup =>
      let target := targetDir h id
      let trash := join (stagingRoot h) (trashName h id)
      if ← perform (.createDirAll (stagingRoot h)) then
        if ← perform (.present target) then
          if ← perform (.rename target trash) then swapBack h id backup target trash
          else pure (.error .io)
        else swapBack h id backup target trash
      else pure (.error .io)

/-- `install::uninstall`. -/
def uninstallFiles (id : List Char) : Code (Except Failure Unit) := do
  let gone ← if ← perform (.present (targetDir h id)) then
    perform (.removeDirAll (targetDir h id)) else pure true
  if gone then
    if ← perform (.present (backupsOf h id)) then
      if ← perform (.removeDirAll (backupsOf h id)) then pure (.ok ()) else pure (.error .io)
    else pure (.ok ())
  else pure (.error .io)

/-- A part of a version: its number, and its text. -/
def parts (v : List Char) : List (Nat × List Char) :=
  (((Text.trim v).dropWhile (· = 'v')).splitOnP fun c => c = '.' || c = '-').map fun s =>
    ((Text.parseUnsigned (2 ^ 64) s).getD 0, s)

/-- One part before another. -/
def partLt (a b : Nat × List Char) : Bool := a.1 < b.1 || (a.1 = b.1 && decide (a.2 < b.2))

def partsGt : List (Nat × List Char) → List (Nat × List Char) → Bool
  | [], [] => false
  | a :: as, [] =>
      if partLt (0, []) a then true else if partLt a (0, []) then false else partsGt as []
  | [], b :: bs =>
      if partLt b (0, []) then true else if partLt (0, []) b then false else partsGt [] bs
  | a :: as, b :: bs => if partLt b a then true else if partLt a b then false else partsGt as bs

/-- `version_gt`. -/
def versionGt (next current : List Char) : Bool := partsGt (parts next) (parts current)

/-! ### `services/plugin_service.rs` -/

/-- `list`, and the plugin's row in it. -/
def answer (id : List Char) : Code (Except Failure Unit) := do
  if ← perform (.listed id) then pure (.ok ()) else pure (.error .database)

/-- `install` once the new version has been loaded. -/
def register (m : PluginManifest) (kind : Handle) (backup : Option Dir) :
    Code (Except Failure Unit) := do
  let enabled := (← perform (.dbEnabled m.id)).getD true
  if ← perform (.upsert ⟨m.id, m.version, targetDir h m.id, enabled⟩) then
    perform (.putLoaded m.id kind)
    pruneBackups h m.id backup
    answer m.id
  else pure (.error .database)

/-- `install` when the new version does not load. -/
def restore (m : PluginManifest) (backup : Option Dir) : Code (Except Failure Unit) := do
  let target := targetDir h m.id
  let _ ← perform (.removeDirAll target)
  match backup with
  | some b => do
      if ← perform (.rename b target) then
        match ← perform (.loadDir target) with
        | some kind => do
            perform (.putLoaded m.id kind)
            pruneBackups h m.id none
        | none => pure ()
      pure (.error (.loading m.version))
  | none => pure (.error (.loading m.version))

/-- `install` from the moment the old handle is dropped. -/
def replace (m : PluginManifest) (src : Dir) : Code (Except Failure Unit) := do
  perform (.unloadHandle m.id)
  match ← stage h src with
  | .error e => pure (.error e)
  | .ok staged =>
      match ← commitSwap h m staged with
      | .error e => do
          let _ ← perform (.removeDirAll staged)
          pure (.error e)
      | .ok backup =>
          match ← perform (.loadDir (targetDir h m.id)) with
          | some kind => register h m kind backup
          | none => restore h m backup

def install (src : Dir) : Code (Except Failure Unit) := do
  match ← validateSource h src with
  | .error e => pure (.error e)
  | .ok m =>
      if ← perform (.present (targetDir h m.id)) then
        match ← perform (.manifest (targetDir h m.id)) with
        | none => pure (.error .unreadable)
        | some old =>
            if versionGt m.version old.version then replace h m src
            else pure (.error (.notHigher old.version m.version))
      else replace h m src

def rollback (id : List Char) : Code (Except Failure Unit) := do
  perform (.unloadHandle id)
  match ← rollbackFiles h id with
  | .error e => pure (.error e)
  | .ok m =>
      match ← perform (.loadDir (targetDir h id)) with
      | none => pure (.error (.loading m.version))
      | some kind =>
          let enabled := (← perform (.dbEnabled id)).getD true
          if ← perform (.upsert ⟨id, m.version, targetDir h id, enabled⟩) then
            perform (.putLoaded id kind)
            answer id
          else pure (.error .database)

def uninstall (id : List Char) : Code (Except Failure Unit) := do
  perform (.unloadHandle id)
  match ← uninstallFiles h id with
  | .error e => pure (.error e)
  | .ok () => if ← perform (.removeRow id) then pure (.ok ()) else pure (.error .database)

def setEnabled (id : List Char) (enabled : Bool) : Code (Except Failure Unit) := do
  match ← perform (.getRow id) with
  | none => pure (.error (.notRegistered id))
  | some row =>
      if enabled then
        match ← perform (.loadDir row.path) with
        | some kind =>
            if ← perform (.setEnabledRow id true) then
              perform (.putLoaded id kind)
              answer id
            else pure (.error .database)
        | none =>
            if ← perform (.setEnabledRow id false) then pure (.error (.loading row.version))
            else pure (.error .database)
      else do
        perform (.unloadHandle id)
        if ← perform (.setEnabledRow id false) then answer id else pure (.error .database)

/-- The loop of `scan`: the ids that are registered, and the handles; nothing if the registry
fails. -/
def scanEach : List Dir → List (List Char) → List (List Char × Handle) →
    Code (Option (List (List Char) × List (List Char × Handle)))
  | [], ids, new => pure (some (ids, new))
  | dir :: rest, ids, new => do
      match ← perform (.inspect dir) with
      | none => scanEach rest ids new
      | some m =>
          let enabled := (← perform (.dbEnabled m.id)).getD true
          if ← perform (.upsert ⟨m.id, m.version, dir, enabled⟩) then
            if enabled then
              match ← perform (.loadDir dir) with
              | some kind => scanEach rest (ids ++ [m.id]) ((m.id, kind) :: new)
              | none => scanEach rest (ids ++ [m.id]) new
            else scanEach rest (ids ++ [m.id]) new
          else pure none

def scan : Code (Except Failure Unit) := do
  match ← scanEach (← perform .candidates) [] [] with
  | none => pure (.error .database)
  | some (ids, new) => do
      perform (.replaceLoaded new)
      if ← perform (.removeExcept ids) then pure (.ok ()) else pure (.error .database)

/-- The commands. -/
inductive Command where
  | scan
  | install (src : Dir)
  | rollback (id : List Char)
  | setEnabled (id : List Char) (enabled : Bool)
  | uninstall (id : List Char)

def Command.program : Command → Code (Except Failure Unit)
  | .scan => PluginInstall.scan
  | .install src => PluginInstall.install h src
  | .rollback id => PluginInstall.rollback h id
  | .setEnabled id enabled => PluginInstall.setEnabled id enabled
  | .uninstall id => PluginInstall.uninstall h id

end Install

end RevBox.PluginInstall
