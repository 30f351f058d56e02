import RevBox.Support.FileCalls
import RevBox.Protocol.Filesystem
import RevBox.Support.Text

/-!
# Device — Disk

The tree of files of a phone, and the commands that `su` runs on it: `stat` and its companions,
`ls`, `mkdir`, `mv`, `rm` and `chmod` of toybox.  Whoever runs them may do what they ask for; what
the kernel would refuse to the shell user, for its owner or its label, is not modelled.
-/

namespace RevBox

open FileTree

/-- What `lstat` tells of an entry beside its type. -/
structure Attr where
  perm : BitVec 12
  size : UInt64
  uid : UInt32
  gid : UInt32
  mtime : Int64
  deriving DecidableEq

/-- The files of a phone. -/
abbrev Disk := FileTree.Tree Attr

/-- The permission bits, with the special ones. -/
def mode (e : Entry Attr) : Nat := e.attr.perm.toNat

/-- The attributes with other permission bits. -/
def setMode (mode : Nat) (a : Attr) : Attr := { a with perm := BitVec.ofNat 12 mode }

/-- `FileKind::from_mode` of the type an entry has. -/
def kindOf (e : Entry Attr) : FileKind :=
  match e.node with
  | .dir _ => .dir
  | .file => .file
  | .link _ => .symlink

/-- `%F`. -/
def typeName (e : Entry Attr) : List Char :=
  match e.node with
  | .dir _ => "directory".toList
  | .file => "regular file".toList
  | .link _ => "symbolic link".toList

/-- A path as text. -/
def render (p : Path) : List Char := '/' :: Text.join '/' p

/-- The components of a path, as `Path::components` gives them, without the root. -/
def components (path : List Char) : List Name := (path.splitOn '/').filter fun n => ¬ Stay n

theorem components_append (p q : List Char) :
    components (p ++ '/' :: q) = components p ++ components q := by
  rw [components, List.splitOn_append_cons_self, List.filter_append]
  rfl

/-- A proper name is a path of one component. -/
theorem components_name {n : Name} (h : '/' ∉ n) (hn : ¬ Stay n) : components n = [n] := by
  rw [components, List.splitOn_eq_singleton h]
  exact List.filter_cons_of_pos (decide_eq_true hn)

/-! ### What runs on the files, until the first error -/

section Steps

variable {ε α β : Type} {x : EStateM ε Disk α} {f : α → EStateM ε Disk β} {a : α} {err : ε}
  {t t' : Disk}

theorem bind_ok (h : x t = .ok a t') : (x >>= f) t = f a t' := by
  simp only [bind, EStateM.bind, h]

theorem bind_error (h : x t = .error err t') : (x >>= f) t = .error err t' := by
  simp only [bind, EStateM.bind, h]

end Steps

namespace RootShell

/-- What `adb` brings back of a command. -/
structure AdbRunOutput where
  exitCode : Option Int
  stdout : List Char
  stderr : List Char

/-- `{:?}` of an exit code. -/
def showExit : Option Int → String
  | none => "None"
  | some n => s!"Some({n})"

/-- A line of a command's output. -/
def line (s : List Char) : List Char := s ++ ['\n']

/-- A number as `%Y` prints it. -/
def signed (n : Int) : List Char :=
  if n < 0 then '-' :: Text.decimal n.natAbs else Text.decimal n.natAbs

/-- `stat -c '%a|%s|%u|%g|%Y|%F'`. -/
def statLine (e : Entry Attr) : List Char :=
  Nat.toDigits 8 (mode e) ++ '|' :: (Text.decimal e.attr.size.toNat ++ '|' ::
    (Text.decimal e.attr.uid.toNat ++ '|' :: (Text.decimal e.attr.gid.toNat ++ '|' ::
      (signed e.attr.mtime.toInt ++ '|' :: typeName e))))

/-- `readlink -f`, with the path itself where that fails. -/
def readlinkF (t : Disk) (path : List Char) : List Char :=
  match t.resolve (components path) with
  | .ok p => render p
  | .error _ =>
      match t.locate (components path) with
      | .ok q => if t.get q = none then render q else path
      | .error _ => path

/-- The output of `stat …; if test -r …; if test -L …; echo @P; readlink -f … || echo …`, whose
last command succeeds.  What `stat` has to say of a path where nothing is goes to `stderr`. -/
def statScript (t : Disk) (path : List Char) (followSymlink : Bool) : AdbRunOutput :=
  let c := components path
  let entry := t.lstat c
  let there := t.resolve c
  let stat := if followSymlink then there.bind t.lstat else entry
  { exitCode := some 0
    stdout :=
      (match stat with
        | .ok e => line (statLine e)
        | .error _ => []) ++
      line (match there with
        | .ok _ => "@R".toList
        | .error _ => "@N".toList) ++
      (match entry with
        | .ok ⟨.link target, _⟩ => line "@L".toList ++ line target
        | _ => []) ++
      line "@P".toList ++ line (readlinkF t path)
    stderr :=
      match stat with
      | .ok _ => []
      | .error _ => line ("stat: '".toList ++ path ++ "'".toList) }

/-- The commands that write, and `ls`. -/
inductive Command where
  | mkdir (path : List Char)
  | mv (source target : List Char)
  | rmRf (path : List Char)
  | chmod (mode : Nat) (path : List Char)
  | lsA (path : List Char)

/-- A command that succeeds without a word. -/
def done (t : Disk) : AdbRunOutput × Disk := (⟨some 0, [], []⟩, t)

/-- A command that fails and changes nothing. -/
def failed (t : Disk) (name : String) (path : List Char) : AdbRunOutput × Disk :=
  (⟨some 1, [], line (name.toList ++ ": '".toList ++ path ++ "'".toList)⟩, t)

/-- The end of a command that makes one call. -/
def ofCall (t : Disk) (name : String) (path : List Char) :
    Except Errno Disk → AdbRunOutput × Disk
  | .ok t' => done t'
  | .error _ => failed t name path

/-- Where `mv` moves to: into a directory that is there. -/
def mvTarget (t : Disk) (source target : List Char) : List Name :=
  match t.resolve (components target) with
  | .ok p => if t.isDir p then p ++ (components source).getLast?.toList else components target
  | .error _ => components target

/-- A command run as root; `newDir` is what the kernel gives a directory that root makes. -/
def run (newDir : Attr) (t : Disk) : Command → AdbRunOutput × Disk
  | .mkdir path => ofCall t "mkdir" path (t.mkdir (components path) newDir)
  | .mv source target =>
      ofCall t "mv" source (t.rename (components source) (mvTarget t source target))
  | .rmRf path =>
      match t.removeAll (components path) with
      | .ok t' => done t'
      -- `-f`: nothing there is no failure
      | .error .enoent => done t
      | .error _ => failed t "rm" path
  | .chmod mode path =>
      if 0o7777 < mode then failed t "chmod" path
      else ofCall t "chmod" path (t.change (components path) (setMode mode))
  | .lsA path =>
      -- asked only of what `lstat` calls a directory
      match t.locate (components path) with
      | .error _ => failed t "ls" path
      | .ok q =>
          match t.get q with
          | none => failed t "ls" path
          | some e =>
              if e.node.isDir then (⟨some 0, (t.names q).flatMap line, []⟩, t)
              else (⟨some 0, line path, []⟩, t)

end RootShell

end RevBox
