import RevBox.Device.Disk
import RevBox.Protocol.Envelope

/-!
# Agent — FilesystemWrite

`provider/filesystem_write.rs`: `filesystem.mkdir`, `rename`, `remove` and `chmod` of the Agent,
with the path resolution that keeps them below the configured write roots.  The calls are made
one after the other on the files of the phone, and nothing else changes them meanwhile.
-/

namespace RevBox

open FileTree

namespace FilesystemWrite

/-- What the Agent runs with: the configured write roots, and what the kernel gives a directory
that it makes. -/
structure Env where
  /-- `APP_REVERSE_TOOLS_AGENT_FS_WRITE_ROOTS` -/
  writeRoots : Option (List Char)
  newDir : Attr

/-- `DEFAULT_WRITE_ROOTS`. -/
def defaultWriteRoots : List Char := "/sdcard,/data/local/tmp".toList

/-- `MAX_REMOVE_ENTRIES`. -/
def maxRemoveEntries : Nat := 20000

/-! ### Errors -/

/-- The number and the text of an `errno`, and the `io::ErrorKind` made of it. -/
def describe : Errno → Nat × String × String
  | .enoent => (2, "No such file or directory", "NotFound")
  | .eexist => (17, "File exists", "AlreadyExists")
  | .ebusy => (16, "Device or resource busy", "ResourceBusy")
  | .enotdir => (20, "Not a directory", "NotADirectory")
  | .eisdir => (21, "Is a directory", "IsADirectory")
  | .einval => (22, "Invalid argument", "InvalidInput")
  | .eloop => (40, "Too many symbolic links encountered", "FilesystemLoop")
  | .enotempty => (39, "Directory not empty", "DirectoryNotEmpty")

/-- `display`. -/
def display (path : Path) : String := String.ofList (render path)

/-- `io_error`. -/
def ioError (op : String) (path : Path) (error : Errno) : AgentError :=
  let (code, reason) : ErrorCode × String := match error with
    | .enoent => (.notFound, "not_found")
    | .enotdir => (.notFound, "not_a_directory")
    | .eloop => (.invalidRequest, "symlink_loop")
    | _ => (.internal, "io_error")
  let (number, text, kind) := describe error
  (AgentError.new code s!"{op} 失败 {display path}: {text} (os error {number})").withDetails
    (.ofFields [("reason", .string reason), ("op", .string op), ("path", .string (display path)),
      ("errno", .nat number), ("io_kind", .string kind)])

/-- The result of a call as the Agent reports it. -/
def io {α : Type} (op : String) (path : Path) (result : Except Errno α) : Except AgentError α :=
  result.mapError (ioError op path)

/-- `bad_request`, which is always given a reason. -/
def badRequest (message reason path : String) : AgentError :=
  (AgentError.new .invalidRequest message).withDetails
    (.ofFields [("reason", .string reason), ("path", .string path)])

/-- `internal`. -/
def internal (message : String) : AgentError := AgentError.new .internal message

/-! ### Where a write may go -/

/-- `normalize_lexically`: `..` at the root stays there. -/
def normalizeLexically (path : List Char) : Path :=
  (components path).foldl
    (fun parts n => if n = parentName then parts.dropLast else parts ++ [n]) []

/-- `parse_write_roots`: what names no root falls back to the default. -/
def parseWriteRoots (raw : List Char) : List (List Char) :=
  let roots := ((raw.splitOn ',').map Text.trim).filter fun value =>
    value.head? = some '/' ∧ 1 < value.length
  if roots = [] then defaultWriteRoots.splitOn ',' else roots

/-- The roots as they are configured. -/
def configured (env : Env) : List (List Char) :=
  parseWriteRoots (env.writeRoots.getD defaultWriteRoots)

/-- `write_roots`: the roots where their links lead, or as configured where they lead nowhere. -/
def writeRoots (env : Env) (t : Disk) : List Path :=
  (configured env).map fun root =>
    match t.resolve (root.splitOn '/') with
    | .ok p => p
    | .error _ => components root

/-- Whether `check_writable` accepts a path. -/
def accepts (env : Env) (t : Disk) (path : Path) : Bool :=
  ((configured env).any fun root => (components root).isPrefixOf path) ||
    (writeRoots env t).any fun root => root.isPrefixOf path

/-- `check_writable`. -/
def checkWritable (env : Env) (path : Path) (t : Disk) : Except AgentError Unit :=
  if accepts env t path then .ok ()
  else .error ((AgentError.new .permissionDenied
    s!"写操作不在允许的目录范围内: {display path}").withDetails
      (.ofFields [("reason", .string "write_path_not_allowed"), ("path", .string (display path)),
        ("allowed_write_roots",
          .array ((configured env).map fun root => .string (String.ofList root)))]))

/-- `is_protected_root`. -/
def isProtectedRoot (env : Env) (t : Disk) (path : Path) : Bool :=
  match t.resolve path with
  | .error _ => false
  | .ok canonical => decide (canonical ∈ writeRoots env t)

/-- `resolve_for_write`: the parent where its links lead, and the last name as it is. -/
def resolveForWrite (env : Env) (raw : List Char) (t : Disk) : Except AgentError Path :=
  if raw.head? ≠ some '/' then
    .error (badRequest "必须是设备上的绝对路径" "path_not_absolute" (String.ofList raw))
  else
    let lexical := normalizeLexically raw
    match checkWritable env lexical t with
    | .error e => .error e
    | .ok () =>
        match t.resolve lexical.dropLast with
        | .error e => .error (ioError "canonicalize" lexical.dropLast e)
        | .ok parent =>
            let resolved := parent ++ lexical.getLast?.toList
            match checkWritable env resolved t with
            | .error e => .error e
            | .ok () => .ok resolved

/-- `metadata_of`, of the entry itself. -/
def metadataOf (path : Path) (t : Disk) : Except AgentError (Entry Attr) :=
  io "lstat" path (t.lstat path)

/-- `count_entries`, which stops above the limit. -/
def countEntries (path : Path) (t : Disk) : Nat := min (t.names path).length (maxRemoveEntries + 1)

/-- `measure`: the bytes and the number of what is at and below a path.  The walk stops above the
limit, where its bytes are not read. -/
def measure (path : Path) (t : Disk) : Nat × Nat :=
  let below := t.below path
  (below.foldl (fun bytes x => min (bytes + x.2.attr.size.toNat) (2 ^ 64 - 1)) 0, below.length)

/-! ### The methods -/

/-- What the Agent does to the phone, until the first error. -/
abbrev Writing := EStateM AgentError Disk

/-- What is read of the files. -/
def reading {α : Type} (f : Disk → Except AgentError α) : Writing α := fun t =>
  match f t with
  | .ok a => .ok a t
  | .error e => .error e t

/-- A call that changes the files. -/
def writing (op : String) (path : Path) (call : Disk → Except Errno Disk) : Writing Unit := fun t =>
  match call t with
  | .ok t' => .ok () t'
  | .error e => .error (ioError op path e) t

/-- Whether `symlink_metadata` finds something. -/
def exists_ (path : Path) : Writing Bool := fun t => .ok (t.lstat path).isOk t

/-- What `mkdir` does where it has found nothing. -/
def makeDir (env : Env) (target : Path) : Writing FilesystemMkdirResult := do
  writing "mkdir" target fun t => t.mkdir target env.newDir
  let metadata ← reading fun t => io "stat" target (t.lstat target)
  if metadata.node.isDir then
    pure
      { path := render target
        created := true
        mode := mode metadata
        modeText := renderModeText .dir (mode metadata) }
  else throw (internal s!"mkdir 之后读回来不是目录: {display target}")

/-- `mkdir`. -/
def mkdir (env : Env) (path : List Char) : Writing FilesystemMkdirResult := do
  let target ← reading (resolveForWrite env path)
  match (← get).lstat target with
  | .ok metadata =>
      if metadata.node.isDir then
        pure
          { path := render target
            created := false
            mode := mode metadata
            modeText := renderModeText .dir (mode metadata) }
      else throw (badRequest "同路径上已经有一个不是目录的东西" "path_exists_not_dir" (display target))
  | .error _ => makeDir env target

/-- What `rename` does once both ends are resolved and nothing is at the target. -/
def moveEntry (env : Env) (source target : Path) : Writing FilesystemRenameResult := do
  reading (checkWritable env target)
  writing "rename" source fun t => t.rename source target
  let moved ← reading fun t => io "stat" target (t.lstat target)
  if ← exists_ source then throw (internal s!"rename 之后旧路径仍然存在: {display source}")
  else
    pure
      { source := render source
        target := render target
        kind := kindOf moved
        mode := mode moved
        modeText := renderModeText (kindOf moved) (mode moved)
        noOp := false }

/-- `rename`. -/
def rename (env : Env) (source target : List Char) : Writing FilesystemRenameResult := do
  let source ← reading (resolveForWrite env source)
  let metadata ← reading (metadataOf source)
  let target ← reading (resolveForWrite env target)
  if source = target then
    pure
      { source := render source
        target := render target
        kind := kindOf metadata
        mode := mode metadata
        modeText := renderModeText (kindOf metadata) (mode metadata)
        noOp := true }
  else do
    let there ← exists_ target
    if there then
      throw (badRequest "目标位置已经有东西，不会被覆盖" "target_exists" (display target))
    else moveEntry env source target

/-- What `remove` does once the target may be taken. -/
def takeEntry (target : Path) (recursive : Bool) (kind : FileKind) :
    Writing FilesystemRemoveResult := do
  let (freed, entries) ← reading fun t => .ok (measure target t)
  if maxRemoveEntries < entries then
    throw (badRequest s!"条目超过 {maxRemoveEntries} 个，不敢递归删除" "too_many_entries"
      (display target))
  else do
    writing "remove" target fun t =>
      if kind = .dir then if recursive then t.removeAll target else t.rmdir target
      else t.unlink target
    if ← exists_ target then throw (internal s!"删除后仍能在设备上看到该路径: {display target}")
    else
      pure
        { path := render target
          removed := true
          wasDir := kind = .dir
          wasRecursive := recursive
          freedBytes := freed }

/-- `remove`. -/
def remove (env : Env) (path : List Char) (recursive : Bool) : Writing FilesystemRemoveResult := do
  let target ← reading (resolveForWrite env path)
  let metadata ← reading (metadataOf target)
  let t ← get
  if isProtectedRoot env t target then
    throw ((AgentError.new .permissionDenied
      s!"这是允许的根目录本身，不能删除: {display target}").withDetails
        (.ofFields [("reason", .string "protected_root"), ("path", .string (display target))]))
  else if recursive = false ∧ kindOf metadata = .dir ∧ 0 < countEntries target t then
    throw ((AgentError.new .invalidRequest
      s!"目录非空（里面有 {countEntries target t} 项），需要显式选择递归删除").withDetails
        (.ofFields [("reason", .string "directory_not_empty"), ("path", .string (display target)),
          ("entries", .nat (countEntries target t))]))
  else takeEntry target recursive (kindOf metadata)

/-- What `chmod` does once the target is known to be no link. -/
def setBits (target : Path) (bits : Nat) (previous : Entry Attr) :
    Writing FilesystemChmodResult := do
  if mode previous &&& 0o777 ≠ bits then
    writing "chmod" target fun t => t.change target (setMode bits)
  let after ← reading fun t => io "stat" target (t.lstat target)
  pure
    { path := render target
      mode := mode after
      modeText :=
        renderModeText (if after.node.isDir then .dir else kindOf previous) (mode after)
      previousMode := mode previous
      previousModeText := renderModeText (kindOf previous) (mode previous)
      verified := mode after &&& 0o777 = bits }

/-- `chmod`. -/
def chmod (env : Env) (path : List Char) (bits : UInt32) : Writing FilesystemChmodResult :=
  if bits &&& ~~~0o777 ≠ 0 then
    throw (badRequest "权限位只支持 0o000-0o777，特殊位不在本能力范围内" "mode_bits_not_allowed"
      (String.ofList path))
  else do
    let target ← reading (resolveForWrite env path)
    let previous ← reading (metadataOf target)
    if kindOf previous = .symlink then
      throw (badRequest "符号链接不支持改权限，请对它的目标操作" "chmod_on_symlink" (display target))
    else setBits target bits.toNat previous

end FilesystemWrite

end RevBox
