import Mathlib.Data.List.Basic

/-!
# Protocol — Filesystem

The `filesystem.*` methods of `agent-protocol/src/methods.rs` that write: their results, and the
kinds and permission texts that both sides render the same way.
-/

namespace RevBox

/-- `FileKind`. -/
inductive FileKind where
  | dir
  | file
  | symlink
  | socket
  | fifo
  | block
  | char
  | other
  deriving DecidableEq, Repr

/-- `FileKind::type_char`. -/
def FileKind.typeChar : FileKind → Char
  | .dir => 'd'
  | .file => '-'
  | .symlink => 'l'
  | .socket => 's'
  | .fifo => 'p'
  | .block => 'b'
  | .char => 'c'
  | .other => '?'

/-- One triplet of `render_mode_text`; `marker` stands for the special bit of the triplet. -/
def renderTriplet (triplet : Nat) (special : Bool) (marker : Char) : List Char :=
  [ if triplet &&& 0o4 ≠ 0 then 'r' else '-'
  , if triplet &&& 0o2 ≠ 0 then 'w' else '-'
  , match decide (triplet &&& 0o1 ≠ 0), special with
    | true, true => marker
    | true, false => 'x'
    | false, true => marker.toUpper
    | false, false => '-' ]

/-- `render_mode_text`. -/
def renderModeText (kind : FileKind) (mode : Nat) : List Char :=
  kind.typeChar ::
    (renderTriplet (mode >>> 6 &&& 0o7) (decide (mode &&& 0o4000 ≠ 0)) 's' ++
      renderTriplet (mode >>> 3 &&& 0o7) (decide (mode &&& 0o2000 ≠ 0)) 's' ++
      renderTriplet (mode &&& 0o7) (decide (mode &&& 0o1000 ≠ 0)) 't')

/-- `FilesystemMkdirResult`. -/
structure FilesystemMkdirResult where
  path : List Char
  created : Bool
  mode : Nat
  modeText : List Char
  deriving DecidableEq

/-- `FilesystemRenameResult`. -/
structure FilesystemRenameResult where
  source : List Char
  target : List Char
  kind : FileKind
  mode : Nat
  modeText : List Char
  noOp : Bool
  deriving DecidableEq

/-- `FilesystemRemoveResult`. -/
structure FilesystemRemoveResult where
  path : List Char
  removed : Bool
  wasDir : Bool
  wasRecursive : Bool
  freedBytes : Nat
  deriving DecidableEq

/-- `FilesystemChmodResult`. -/
structure FilesystemChmodResult where
  path : List Char
  mode : Nat
  modeText : List Char
  previousMode : Nat
  previousModeText : List Char
  verified : Bool
  deriving DecidableEq

/-- `FileStat`, but for `name`. -/
structure FileStat where
  kind : FileKind
  mode : Nat
  modeText : List Char
  uid : Nat
  gid : Nat
  size : Nat
  mtimeUnix : Nat
  symlinkTarget : Option (List Char)
  readable : Bool
  deriving DecidableEq

/-- The parameters of a request that writes: `FilesystemMkdirParams`, `FilesystemRenameParams`,
`FilesystemRemoveParams`, `FilesystemChmodParams`. -/
inductive WriteRequest where
  | mkdir (path : List Char)
  | rename (source target : List Char)
  | remove (path : List Char) (recursive : Bool)
  | chmod (path : List Char) (mode : UInt32)
  deriving DecidableEq

/-- `DEFAULT_PREVIEW_BYTES`. -/
def defaultPreviewBytes : Nat := 64 * 1024

/-- `MAX_PREVIEW_BYTES`. -/
def maxPreviewBytes : Nat := 256 * 1024

/-- `PreviewEncoding`. -/
inductive PreviewEncoding where
  | utf8
  | hex
  deriving DecidableEq, Repr

/-- `FilesystemPreviewResult`. -/
structure FilesystemPreviewResult where
  path : List Char
  size : Nat
  offset : Nat
  returnedBytes : Nat
  encoding : PreviewEncoding
  text : Option (List Char)
  hex : Option (List Char)
  truncated : Bool
  detail : Option String
  deriving DecidableEq

/-- What the page shows of a write that succeeded. -/
inductive Verdict where
  | created (created : Bool)
  | renamed (noOp : Bool)
  | removed (wasDir : Bool)
  | changed (verified : Bool)
  deriving DecidableEq

end RevBox
