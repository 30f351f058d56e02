import RevBox.Zygisk.Frames

/-!
# Zygisk — Export

`E`: the files of a package as the helper names them, sent one behind the other in bare mode
(`cmd_export`, `stream_file`).  A file that cannot be opened, or is shorter than it was, ends the
session in the middle of its bytes.
-/

namespace RevBox.Zygisk

open CText

/-- What an answer in bare mode is made of: a line, or bytes of a file. -/
inductive Part where
  | line (text : Bytes)
  | data (bytes : Bytes)
  deriving DecidableEq

/-- A file: its size as `stat` gives it, and the bytes that are read, if it opens. -/
structure Stored where
  size : Nat
  bytes : Option Bytes
  size_lt : size < 2 ^ 63

/-- The files of the device.  What exists has a name of at most `NAME_MAX` bytes. -/
structure Storage where
  stat : Bytes → Option Stored
  name_le : ∀ {path file}, stat path = some file →
    (path.reverse.takeWhile fun b => b ≠ 47).length ≤ 255

/-- `MAX_EXPORT_BYTES`. -/
def maxExportBytes : Nat := 512 * 1024 * 1024

/-- What is behind the last slash. -/
def baseName (path : Bytes) : Bytes := (path.reverse.takeWhile fun b => b ≠ 47).reverse

/-- `%lld`, of a size. -/
def sizeText (n : Nat) : Bytes := lit (toString n)

/-- `T`, the header of a file that is passed over. -/
def largeHeader (beyond package path : Bytes) (size : Nat) : Bytes :=
  sentBy (4096 + 64) beyond
    (lit "T " ++ (sizeText size ++ 32 :: (package ++ 32 :: (baseName path ++ lit " too_large\n"))))

/-- `F`, the header of a file that is sent. -/
def fileHeader (beyond package path : Bytes) (size : Nat) : Bytes :=
  sentBy (4096 * 2 + 64) beyond
    (lit "F " ++ (sizeText size ++ 32 :: (package ++ 32 :: (baseName path ++ [10]))))

/-- The path that a line of the helper names for the package. -/
def pathOf (package line : Bytes) : Option Bytes :=
  if 9 ∈ line ∧ line.takeWhile (fun b => b ≠ 9) = package then
    some ((line.dropWhile fun b => b ≠ 9).drop 1)
  else none

/-- The paths of an output. -/
def paths (package payload : Bytes) : List Bytes :=
  ((cString payload).splitOn 10).filterMap (pathOf package)

/-- The file is above the limit, after `total` bytes. -/
def tooLarge (total size : Nat) : Prop := maxExportBytes < size ∨ maxExportBytes < total + size

instance (total size : Nat) : Decidable (tooLarge total size) := inferInstanceAs (Decidable (_ ∨ _))

/-- The loop of `cmd_export`, after `total` bytes: what it sends, and the bytes of all files, if it
comes to its end. -/
def exportFiles (beyond : Bytes) (disk : Storage) (package : Bytes) :
    Nat → List Bytes → List Part × Option Nat
  | total, [] => ([], some total)
  | total, path :: paths =>
      match disk.stat path with
      | none => exportFiles beyond disk package total paths
      | some file =>
          if file.size = 0 then exportFiles beyond disk package total paths
          else if tooLarge total file.size then
            let r := exportFiles beyond disk package total paths
            (.line (largeHeader beyond package path file.size) :: r.1, r.2)
          else
            let header := .line (fileHeader beyond package path file.size)
            match file.bytes with
            | none => ([header], none)
            | some bytes =>
                if bytes.length < file.size then ([header, .data bytes], none)
                else
                  let r := exportFiles beyond disk package (total + file.size) paths
                  (header :: .data (bytes.take file.size) :: r.1, r.2)

/-- `cmd_export`: what it sends, if the session goes on after it, and the state of the method. -/
def runExport (beyond : Bytes) (now : Nat) (disk : Storage) (package : Bytes) (helper : Helper)
    (st : HandlerState) : Option (List Part × Bool × HandlerState) :=
  match runHelper Command.e.maxResponse helper with
  | none => none
  | some (none, result) =>
      some ([.line (sent beyond (errText (if result = .timeout then lit "helper_timeout" else
        lit "helper_failed") []))], true, if result ≠ .ok then noteInternalFailure now st else st)
  | some (some payload, _) =>
      match exportFiles beyond disk package 0 (paths package payload) with
      | (parts, none) => some (parts, false, noteSuccess st)
      | (parts, some 0) =>
          some (parts ++ [.line (sent beyond (errText (lit "no_files") package))], true,
            noteSuccess st)
      | (parts, some (_ + 1)) => some (parts ++ [.line (lit "DONE\n")], true, noteSuccess st)

end RevBox.Zygisk
