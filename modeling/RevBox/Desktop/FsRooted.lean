import RevBox.Desktop.CoreError
import RevBox.Desktop.FsPolicy

/-!
# Desktop — FsRooted

The root leg of the file page in `services/device_service.rs`: the probe made of one composed
command (`stat_rooted`, `parse_rooted_stat`, `file_stat_rooted`, `fs_probe`), and `fs_mkdir_rooted`,
`fs_rename_rooted`, `fs_remove_rooted` and `fs_chmod_rooted`, each a command run as root between
probes.  `adb` itself is taken to work.
-/

namespace RevBox

open FileTree RootShell

namespace FsRooted

/-! ### The probe -/

/-- `StatFields`. -/
structure StatFields where
  mode : Nat
  size : Nat
  uid : Nat
  gid : Nat
  mtimeUnix : Nat
  kindText : List Char
  deriving DecidableEq

/-- `StatFields::kind`. -/
def StatFields.kind (f : StatFields) : FileKind :=
  let text := f.kindText.map Char.toLower
  if Text.contains "directory".toList text then .dir
  else if Text.contains "symbolic link".toList text then .symlink
  else if Text.contains "socket".toList text then .socket
  else if Text.contains "fifo".toList text then .fifo
  else if Text.startsWith "block".toList text then .block
  else if Text.startsWith "character".toList text then .char
  else if Text.contains "file".toList text then .file
  else .other

/-- `parse_stat_fields`. -/
def parseStatFields (line : List Char) : Option StatFields :=
  match Text.splitn '|' 6 (Text.trim (Text.trimEndMatches '\r' line)) with
  | mode :: size :: uid :: gid :: mtime :: kindText :: _ => do
      let mode ← Text.fromStrRadix 8 (2 ^ 32) mode
      let size ← Text.parseUnsigned (2 ^ 64) size
      let uid ← Text.parseUnsigned (2 ^ 32) uid
      let gid ← Text.parseUnsigned (2 ^ 32) gid
      let mtimeUnix ← Text.parseUnsigned (2 ^ 64) mtime
      pure { mode, size, uid, gid, mtimeUnix, kindText }
  | _ => none

/-- `RootedStat`, but for `fields`, while it is read line by line. -/
structure Marks where
  readable : Bool := false
  symlinkTarget : Option (List Char) := none
  resolvedPath : Option (List Char) := none
  pending : Option Char := none

/-- One line of the loop of `parse_rooted_stat`. -/
def Marks.read (m : Marks) (line : List Char) : Marks :=
  let value := Text.trim line
  if value.head? = some '@' then
    if value = "@R".toList then { m with readable := true }
    else if value = "@N".toList then { m with readable := false }
    else if value = "@L".toList then { m with pending := some 'L' }
    else if value = "@P".toList then { m with pending := some 'P' }
    -- not one of the marks
    else { m with pending := none }
  else if m.pending = some 'L' ∧ m.symlinkTarget = none then
    { m with symlinkTarget := some value, pending := none }
  else if m.pending = some 'P' then { m with resolvedPath := some value, pending := none }
  else { m with pending := none }

/-- `RootedStat`. -/
structure RootedStat where
  fields : StatFields
  readable : Bool
  symlinkTarget : Option (List Char)
  resolvedPath : Option (List Char)

/-- `parse_rooted_stat`. -/
def parseRootedStat (text : List Char) : Option RootedStat :=
  match (Text.lines text).map (Text.trimEndMatches '\r') with
  | [] => none
  | first :: rest =>
      (parseStatFields first).map fun fields =>
        let m := rest.foldl Marks.read {}
        { fields
          readable := m.readable
          symlinkTarget := m.symlinkTarget.filter fun value => value ≠ []
          resolvedPath := m.resolvedPath.filter fun value => value ≠ [] }

/-- The first line of what a command says of its failure. -/
def firstLine (stderr : List Char) : String :=
  String.ofList (Text.trim ((Text.lines (Text.trim stderr)).head?.getD []))

/-- `fs_read_rooted`. -/
def fsReadRooted (out : AdbRunOutput) : Except CoreError (List Char) :=
  if out.exitCode = some 0 then .ok out.stdout
  else .error (.internal s!"root 读取失败（退出码 {showExit out.exitCode}）：{firstLine out.stderr}")

/-- `stat_rooted`. -/
def statRooted (t : Disk) (path : List Char) (followSymlink : Bool) :
    Except CoreError RootedStat :=
  match fsReadRooted (statScript t path followSymlink) with
  | .error e => .error e
  | .ok text =>
      match parseRootedStat text with
      | some stat => .ok stat
      | none => .error (.internal (s!"设备上的 stat 输出解不出来，无法确认 {String.ofList path} 是什么：" ++
          String.ofList text))

/-- `FilesystemStatResult`. -/
structure StatResult where
  requestedPath : List Char
  path : List Char
  stat : FileStat
  deriving DecidableEq

/-- `file_stat_rooted`. -/
def fileStatRooted (t : Disk) (path : List Char) (followSymlink : Bool) :
    Except CoreError StatResult :=
  match statRooted t path followSymlink with
  | .error e => .error e
  | .ok stat => .ok
      { requestedPath := path
        path := stat.resolvedPath.getD path
        stat :=
          { kind := stat.fields.kind
            mode := stat.fields.mode
            modeText := renderModeText stat.fields.kind stat.fields.mode
            uid := stat.fields.uid
            gid := stat.fields.gid
            size := stat.fields.size
            mtimeUnix := stat.fields.mtimeUnix
            symlinkTarget := stat.symlinkTarget
            readable := stat.readable } }

/-- `fs_probe`, on the root leg. -/
def fsProbe (t : Disk) (path : List Char) : Except CoreError (Option StatResult) :=
  match fileStatRooted t path false with
  | .ok result => .ok (some result)
  | .error e => if e.code = "NOT_FOUND" then .ok none else .error e

/-! ### The commands between probes -/

/-- What the page does to the phone, until the first error. -/
abbrev Rooted := EStateM CoreError Disk

/-- `fs_probe`. -/
def probe (path : List Char) : Rooted (Option StatResult) := fun t =>
  match fsProbe t path with
  | .ok found => .ok found t
  | .error e => .error e t

/-- `fs_run_rooted`. -/
def fsRunRooted (newDir : Attr) (command : Command) : Rooted (List Char) := fun t =>
  let (out, t') := run newDir t command
  if out.exitCode = some 0 then .ok (Text.trim out.stdout) t'
  else .error (.internal s!"root 执行失败（退出码 {showExit out.exitCode}）：{firstLine out.stderr}") t'

/-- A probe whose path must be there. -/
def found (e : CoreError) : Option StatResult → Rooted StatResult
  | some result => pure result
  | none => throw e

/-- `fs_mkdir_rooted`. -/
def fsMkdirRooted (newDir : Attr) (target : List Char) : Rooted FilesystemMkdirResult := do
  let before ← probe target
  let _ ← fsRunRooted newDir (.mkdir target)
  let after ← found (.internal s!"root 说建好了，设备上却查不到这个目录：{String.ofList target}")
    (← probe target)
  pure
    { path := target
      created := before.isNone
      mode := after.stat.mode
      modeText := after.stat.modeText }

/-- `fs_rename_rooted`. -/
def fsRenameRooted (newDir : Attr) (source target : List Char) : Rooted FilesystemRenameResult := do
  let before ← found (.notFound s!"要改名的东西不在设备上：{String.ofList source}") (← probe source)
  if source = target then
    pure
      { source, target
        kind := before.stat.kind
        mode := before.stat.mode
        modeText := before.stat.modeText
        noOp := true }
  else do
    let there ← probe target
    if there.isSome then throw (.conflict s!"目标已经存在，不会覆盖：{String.ofList target}")
    else do
      let _ ← fsRunRooted newDir (.mv source target)
      let after ← found (.internal s!"root 说改好了，目标却查不到：{String.ofList target}")
        (← probe target)
      let left ← probe source
      if left.isSome then
        throw (.internal (s!"目标已出现但原路径还在设备上（移动没走完）：{String.ofList source} -> " ++
          String.ofList target))
      else
        pure
          { source, target
            kind := after.stat.kind
            mode := after.stat.mode
            modeText := after.stat.modeText
            noOp := false }

/-- What `fs_remove_rooted` does once it has made out the entry and may take it. -/
def removeFound (newDir : Attr) (target : List Char) (recursive : Bool) (before : StatResult) :
    Rooted FilesystemRemoveResult := do
  let wasDir : Bool := before.stat.kind = .dir
  let _ ← fsRunRooted newDir (.rmRf target)
  let left ← probe target
  if left.isSome then
    throw (.internal s!"已发信号但设备上还在：{String.ofList target}（复核没通过，不算删除成功）")
  else
    pure
      { path := target
        removed := true
        wasDir
        wasRecursive := recursive
        freedBytes := if wasDir then 0 else before.stat.size }

/-- `fs_remove_rooted`. -/
def fsRemoveRooted (newDir : Attr) (target : List Char) (recursive : Bool) :
    Rooted FilesystemRemoveResult := do
  match ← probe target with
  | none =>
      pure
        { path := target
          removed := true
          wasDir := false
          wasRecursive := recursive
          freedBytes := 0 }
  | some before =>
      if before.stat.kind = .dir ∧ recursive = false then do
        let listing ← fsRunRooted newDir (.lsA target)
        if listing ≠ [] then
          throw (.conflict s!"{String.ofList target} 是目录且非空：删除要显式选择递归")
        else removeFound newDir target recursive before
      else removeFound newDir target recursive before

/-- `fs_chmod_rooted`. -/
def fsChmodRooted (newDir : Attr) (target : List Char) (mode : UInt32) :
    Rooted FilesystemChmodResult := do
  let before ← found (.notFound s!"要改权限的东西不在设备上：{String.ofList target}")
    (← probe target)
  let _ ← fsRunRooted newDir (.chmod mode.toNat target)
  let after ← found (.internal s!"改完之后再查就没有了：{String.ofList target}") (← probe target)
  pure
    { path := target
      mode := after.stat.mode
      modeText := after.stat.modeText
      previousMode := before.stat.mode
      previousModeText := before.stat.modeText
      verified := after.stat.mode = mode.toNat }

/-! ### The leg -/

/-- A request whose path the guard has let through. -/
def checked {α : Type} (path : List Char) (k : List Char → Rooted α) : Rooted α :=
  match FsPolicy.checkWritable path with
  | .error denied => throw (.invalidInput (denied.message path))
  | .ok target => k target

/-- `fs_mkdir`, on the root leg. -/
def fsMkdir (newDir : Attr) (path : List Char) : Rooted FilesystemMkdirResult :=
  checked path (fsMkdirRooted newDir)

/-- `fs_rename`, on the root leg. -/
def fsRename (newDir : Attr) (source target : List Char) : Rooted FilesystemRenameResult :=
  checked source fun source => checked target fun target => fsRenameRooted newDir source target

/-- `fs_remove`, on the root leg. -/
def fsRemove (newDir : Attr) (path : List Char) (recursive : Bool) :
    Rooted FilesystemRemoveResult :=
  checked path fun target => fsRemoveRooted newDir target recursive

/-- `fs_chmod`, on the root leg. -/
def fsChmod (newDir : Attr) (path : List Char) (mode : UInt32) : Rooted FilesystemChmodResult :=
  checked path fun target => fsChmodRooted newDir target mode

/-- What a call comes to: a verdict or a refusal, and the files it leaves. -/
def outcome {ε α : Type} (verdict : α → Verdict) :
    EStateM.Result ε Disk α → Option Verdict × Disk
  | .ok a t => (some (verdict a), t)
  | .error _ t => (none, t)

/-- A request on the root leg. -/
def rootLeg (newDir : Attr) (t : Disk) : WriteRequest → Option Verdict × Disk
  | .mkdir path => outcome (fun r => .created r.created) (fsMkdir newDir path t)
  | .rename source target => outcome (fun r => .renamed r.noOp) (fsRename newDir source target t)
  | .remove path recursive =>
      outcome (fun r => .removed r.wasDir) (fsRemove newDir path recursive t)
  | .chmod path mode => outcome (fun r => .changed r.verified) (fsChmod newDir path mode t)

end FsRooted

end RevBox
