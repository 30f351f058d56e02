import RevBox.Desktop.CoreError
import RevBox.Support.Checksum
import RevBox.Support.Hex
import RevBox.Support.Records
import RevBox.Support.Utf8

/-!
# Desktop — ApkBundle

`services/apk_bundle.rs`: the `.apks` container, written from pulled parts (`write_bundle`), read
back by its central directory (`read_bundle`) and unpacked for an installation (`extract_bundle`).
An index outside its slice is a panic (`Stop.panicked`).  The checksum is a parameter: it is
`crc32fast`'s.  The host's files are read and written without faults of their own, and the container
does not lie in the directory it is unpacked to.
-/

namespace RevBox.ApkBundle

open Checksum Records

def maxPartNameBytes : Nat := 200
def saiMetaV2 : List Char := "meta.sai_v2.json".toList
def saiMetaV1 : List Char := "meta.sai_v1.json".toList
def readChunk : Nat := 64 * 1024
def flagUtf8Names : Nat := 0x0800
def methodStore : Nat := 0
def versionZip20 : Nat := 20
def localHeaderLen : Nat := 30
def centralHeaderLen : Nat := 46
def eocdLen : Nat := 22
def tailBytes : Nat := 8 * 1024

/-- `PK\x03\x04`, `PK\x01\x02` and `PK\x05\x06`, as numbers. -/
def localMagic : Nat := 0x04034B50
def centralMagic : Nat := 0x02014B50
def endMagic : Nat := 0x06054B50

/-- How a call stops: with an error, or by a panic. -/
inductive Stop where
  | failed (error : CoreError)
  | panicked

/-- `Err(CoreError::Internal(..))`. -/
def internal {α : Type} (message : String) : Except Stop α := .error (.failed (.internal message))

/-! ### Names -/

/-- `char::is_control`. -/
def isControl (c : Char) : Bool := c.toNat < 0x20 || (0x7F ≤ c.toNat && c.toNat ≤ 0x9F)

/-- `ILLEGAL`. -/
def illegal : List Char := ['<', '>', ':', '"', '/', '\\', '|', '?', '*']

/-- The characters of `sanitize`: `lastWasSpace` says whether a blank would be the second. -/
def cleaned : Bool → List Char → List Char
  | _, [] => []
  | lastWasSpace, ch :: rest =>
      if isControl ch || illegal.contains ch then '_' :: cleaned false rest
      else if Text.isWhitespace ch then
        if lastWasSpace then cleaned true rest else ' ' :: cleaned true rest
      else ch :: cleaned false rest

/-- The characters that fit whole into so many bytes. -/
def fitting : Nat → List Char → List Char
  | _, [] => []
  | room, c :: rest => if c.utf8Size ≤ room then c :: fitting (room - c.utf8Size) rest else []

/-- `truncate_bytes`. -/
def truncateBytes (value : List Char) (maxBytes : Nat) : List Char :=
  if (Utf8.encode value).length ≤ maxBytes then value else Text.trimEnd (fitting maxBytes value)

/-- `is_reserved_windows_name`. -/
def isReservedWindowsName (name : List Char) : Bool :=
  let head := (name.takeWhile (· ≠ '.')).map Char.toUpper
  ["CON", "PRN", "AUX", "NUL", "COM1", "COM2", "COM3", "COM4", "COM5", "COM6", "COM7", "COM8",
    "COM9", "LPT1", "LPT2", "LPT3", "LPT4", "LPT5", "LPT6", "LPT7", "LPT8", "LPT9"].any
    fun reserved => reserved.toList = head

/-- `sanitize`. -/
def sanitize (raw : List Char) (maxBytes : Nat) : List Char :=
  let out := (cleaned true raw).rdropWhile fun c => c = ' ' || c = '.'
  let out := truncateBytes (out.dropWhile (· = '.')) maxBytes
  if isReservedWindowsName out then truncateBytes ('_' :: out) maxBytes else out

/-- `name.rsplit('.').next()`. -/
def lastField (name : List Char) : List Char := (name.reverse.takeWhile (· ≠ '.')).reverse

/-- The entry counts as an APK. -/
def isApk (name : List Char) : Bool := (lastField name).map Char.toLower = "apk".toList

/-- A character that `safe_entry_name` lets through. -/
def isSafeChar (c : Char) : Bool :=
  Text.isAsciiAlphanumeric c || c = '.' || c = '_' || c = '-' || c = '+' || c = ' '

/-- The check of `safe_entry_name`. -/
def isSafeName (name : List Char) : Bool :=
  !name.isEmpty && (Utf8.encode name).length ≤ maxPartNameBytes &&
    !name.contains '/' && !name.contains '\\' && name.head? ≠ some '.' && name.all isSafeChar

/-- `safe_entry_name`. -/
def safeEntryName (name : List Char) : Except Stop (List Char) :=
  let shown := Text.debugStr (String.ofList name)
  if isSafeName name then .ok name else internal s!"容器里有不安全的条目名，拒绝解包: {shown}"

/-! ### Writing -/

/-- `PulledPart`. -/
structure PulledPart where
  name : List Char
  path : List Char
  size : Nat

/-- `ZipEntry`. -/
structure ZipEntry where
  name : List Char
  crc : UInt32
  size : Nat
  offset : Nat
  dosTime : UInt16
  dosDate : UInt16

/-- What was written so far: the bytes and the entries. -/
structure Writer where
  out : List UInt8
  entries : List ZipEntry

/-- The files of the host: the content, or the error of opening the file. -/
abbrev Files := List Char → Except String (List UInt8)

/-- `u32_field`. -/
def u32Field (value : Nat) (what : String) : Except Stop Nat :=
  if value < 2 ^ 32 then .ok value else internal s!"{what} 超过 4 GiB，zip 记不下"

/-- `u16_field`. -/
def u16Field (value : Nat) (what : String) : Except Stop Nat :=
  if value < 2 ^ 16 then .ok value else internal s!"{what} 超出 16 位上限"

/-- The fields of a local header. -/
def localFields (size : Nat) (crc : UInt32) (nameLen : Nat) (now : UInt16 × UInt16) :
    List (Nat × Nat) :=
  [(4, localMagic), (2, versionZip20), (2, flagUtf8Names), (2, methodStore), (2, now.1.toNat),
    (2, now.2.toNat), (4, crc.toNat), (4, size), (4, size), (2, nameLen), (2, 0)]

/-- `write_local_header`. -/
def writeLocalHeader (name : List Char) (size : Nat) (crc : UInt32) (now : UInt16 × UInt16) :
    Except Stop (List UInt8) := do
  let nameBytes := Utf8.encode name
  let size ← u32Field size "分包体积"
  let nameLen ← u16Field nameBytes.length "分包名长度"
  .ok (fields (localFields size crc nameLen now) ++ nameBytes)

/-- `put_bytes`. -/
def putBytes (H : Hasher) (w : Writer) (offset : Nat) (name : List Char) (data : List UInt8)
    (now : UInt16 × UInt16) : Except Stop (Writer × Nat) := do
  let crc := H.sum data
  let header ← writeLocalHeader name data.length crc now
  .ok (⟨w.out ++ header ++ data, w.entries ++ [⟨name, crc, data.length, offset, now.1, now.2⟩]⟩,
    offset + localHeaderLen + (Utf8.encode name).length + data.length)

/-- `PartMeta`. -/
structure PartMeta where
  crc : UInt32
  size : Nat

/-- `File::open` of a part. -/
def openPart (files : Files) (part : PulledPart) : Except Stop (List UInt8) :=
  match files part.path with
  | .ok content => .ok content
  | .error error => internal s!"打开 {String.ofList part.name} 失败: {error}"

/-- `scan_file`. -/
def scanFile (H : Hasher) (files : Files) (part : PulledPart) : Except Stop PartMeta := do
  let content ← openPart files part
  let (hasher, size) := (readAll readChunk content).foldl
    (fun (hasher, size) read => (H.update hasher read, size + read.length)) (H.new, 0)
  if size ≠ part.size then
    internal s!"{String.ofList part.name} 大小不符：设备侧 {part.size}，本地 {size}"
  else .ok ⟨H.finalize hasher, size⟩

/-- `put_file`. -/
def putFile (files : Files) (w : Writer) (offset : Nat) (name : List Char) (part : PulledPart)
    (scanned : PartMeta) (now : UInt16 × UInt16) : Except Stop (Writer × Nat) := do
  let header ← writeLocalHeader name scanned.size scanned.crc now
  let content ← openPart files part
  let (out, written) := (readAll readChunk content).foldl
    (fun (out, written) read => (out ++ read, written + read.length)) (w.out ++ header, 0)
  if written ≠ scanned.size then
    internal s!"{String.ofList name} 写入中途变小：计划 {scanned.size}，实际 {written}"
  else
    .ok (⟨out, w.entries ++ [⟨name, scanned.crc, written, offset, now.1, now.2⟩]⟩,
      offset + localHeaderLen + (Utf8.encode name).length + written)

/-- The fields of a directory record. -/
def centralFields (entry : ZipEntry) (size nameLen offset : Nat) : List (Nat × Nat) :=
  [(4, centralMagic), (2, versionZip20), (2, versionZip20), (2, flagUtf8Names), (2, methodStore),
    (2, entry.dosTime.toNat), (2, entry.dosDate.toNat), (4, entry.crc.toNat), (4, size), (4, size),
    (2, nameLen), (2, 0), (2, 0), (2, 0), (2, 0), (4, 0o644 * 2 ^ 16), (4, offset)]

/-- The directory record of an entry. -/
def centralHeader (entry : ZipEntry) : Except Stop (List UInt8) := do
  let nameBytes := Utf8.encode entry.name
  let size ← u32Field entry.size "分包体积"
  let nameLen ← u16Field nameBytes.length "分包名长度"
  let offset ← u32Field entry.offset "分包偏移"
  .ok (fields (centralFields entry size nameLen offset) ++ nameBytes)

/-- The records of the directory, in order. -/
def writeCentral : List ZipEntry → Except Stop (List UInt8)
  | [] => .ok []
  | entry :: rest => do
      let header ← centralHeader entry
      let more ← writeCentral rest
      .ok (header ++ more)

/-- The end record after its magic. -/
def endFields (count cdSize cdOffset : Nat) : List UInt8 :=
  fields [(2, 0), (2, 0), (2, count), (2, count), (4, cdSize), (4, cdOffset), (2, 0)]

/-- `finish_zip`: the bytes it adds. -/
def finishZip (entries : List ZipEntry) (endOfData : Nat) : Except Stop (List UInt8) := do
  let central ← writeCentral entries
  let cdSize := entries.length * centralHeaderLen +
    (entries.map fun entry => (Utf8.encode entry.name).length).sum
  let count ← u16Field entries.length "分包数量"
  let cdSize ← u32Field cdSize "中央目录长度"
  let cdOffset ← u32Field endOfData "中央目录偏移"
  .ok (central ++ (toLeBytes 4 endMagic ++ endFields count cdSize cdOffset))

/-! ### Reading -/

/-- `BundleEntry`. -/
structure BundleEntry where
  name : List Char
  size : Nat
  crc : UInt32
  offset : Nat

/-- `read_u16` and `read_u32`: a byte beyond the slice is a panic. -/
def readNumber (w : Nat) (bytes : List UInt8) (pos : Nat) : Except Stop Nat :=
  match numberAt w pos bytes with
  | some n => .ok n
  | none => .error .panicked

/-- `cd[from..to]`: a range that ends beyond the slice is a panic. -/
def slice (bytes : List UInt8) (start stop : Nat) : Except Stop (List UInt8) :=
  if stop ≤ bytes.length then .ok ((bytes.take stop).drop start) else .error .panicked

/-- One record of the directory: the entry and where the next record begins. -/
def readEntry (cd : List UInt8) (cursor : Nat) : Except Stop (BundleEntry × Nat) := do
  if numberAt 4 cursor cd ≠ some centralMagic then
    internal "中央目录条目魔数不对"
  else
    let method ← readNumber 2 cd (cursor + 10)
    if method ≠ methodStore then
      internal "apks 条目应当是 store 打包"
    else
      let crc ← readNumber 4 cd (cursor + 16)
      let size ← readNumber 4 cd (cursor + 24)
      let nameLen ← readNumber 2 cd (cursor + 28)
      let offset ← readNumber 4 cd (cursor + 42)
      let nameBytes ← slice cd (cursor + 46) (cursor + 46 + nameLen)
      match Utf8.fromUtf8 nameBytes with
      | none => internal "条目名不是合法 UTF-8"
      | some name =>
          .ok (⟨name, size, .ofNat crc, offset⟩, cursor + (centralHeaderLen + nameLen))

/-- The loop of `read_bundle` over the directory. -/
def readEntries (cd : List UInt8) : Nat → Nat → Except Stop (List BundleEntry × Nat)
  | 0, cursor => .ok ([], cursor)
  | count + 1, cursor => do
      let (entry, next) ← readEntry cd cursor
      let (rest, stop) ← readEntries cd count next
      .ok (entry :: rest, stop)

/-- The last bytes of a file, as many as `read_bundle` looks at. -/
def tailOf (file : List UInt8) : List UInt8 := file.drop (file.length - min file.length tailBytes)

/-- `read_bundle`. -/
def readBundle (file : List UInt8) : Except Stop (List BundleEntry) := do
  if file.length < eocdLen then
    internal "产物太小，不是有效的 zip 容器"
  else
    let tail := tailOf file
    match rposition (toLeBytes 4 endMagic) tail with
    | none => internal "产物缺少 zip 结尾记录"
    | some eocdAt =>
        let count ← readNumber 2 tail (eocdAt + 10)
        let cdSize ← readNumber 4 tail (eocdAt + 12)
        let cdOffset ← readNumber 4 tail (eocdAt + 16)
        if cdOffset + cdSize + eocdLen ≠ file.length then
          internal "容器尾部长度与中央目录不一致"
        else
          let cd := (file.drop cdOffset).take cdSize
          let (entries, cursor) ← readEntries cd count 0
          if cursor ≠ cdSize then internal "中央目录条目长度不符" else .ok entries

/-! ### The container -/

/-- The parts of the loop of `write_bundle`. -/
def putParts (H : Hasher) (files : Files) (now : UInt16 × UInt16) :
    List PulledPart → Writer → Nat → Except Stop (Writer × Nat)
  | [], w, offset => .ok (w, offset)
  | part :: rest, w, offset => do
      let name := sanitize part.name maxPartNameBytes
      if name = [] then
        internal "分包名为空"
      else
        let scanned ← scanFile H files part
        let (w, offset) ← putFile files w offset name part scanned now
        putParts H files now rest w offset

/-- The order of file names. -/
def nameLe (left right : List Char) : Bool := Utf8.encode left ≤ Utf8.encode right

/-- An entry is read back as it was written. -/
def sameEntry (written : ZipEntry) (readBack : BundleEntry) : Bool :=
  written.name = readBack.name ∧ written.size = readBack.size ∧ written.crc = readBack.crc ∧
    written.offset = readBack.offset

/-- `{:?}` of what the check compares. -/
def showEntry (name : List Char) (size : Nat) (crc : UInt32) (offset : Nat) : String :=
  let name := Text.debugStr (String.ofList name)
  s!"({name}, {size}, {crc.toNat}, {offset})"

/-- `write_bundle`: the bytes of the container.  The texts of the two metadata files and the time
of the export are given. -/
def writeBundle (H : Hasher) (files : Files) (metaV2 metaV1 : List Char) (now : UInt16 × UInt16)
    (parts : List PulledPart) : Except Stop (List UInt8) := do
  let (w, offset) ← putBytes H ⟨[], []⟩ 0 saiMetaV2 (Utf8.encode metaV2) now
  let (w, offset) ← putBytes H w offset saiMetaV1 (Utf8.encode metaV1) now
  let ordered := parts.mergeSort fun left right => nameLe left.name right.name
  let (w, offset) ← putParts H files now ordered w offset
  let finish ← finishZip w.entries offset
  let container := w.out ++ finish
  let readBack ← readBundle container
  if readBack.length ≠ w.entries.length then
    internal s!"容器自检条目数不符：写入 {w.entries.length}，读回 {readBack.length}"
  else
    match (w.entries.zip readBack).find? fun (written, readBack) => !sameEntry written readBack with
    | some (written, readBack) =>
        let one := showEntry written.name written.size written.crc written.offset
        let other := showEntry readBack.name readBack.size readBack.crc readBack.offset
        internal s!"容器自检不一致：写入 {one}，读回 {other}"
    | none => .ok container

/-- The files and directories of the host, by path; `created` keeps the paths that were opened for
writing. -/
structure Host where
  files : List Char → Option (List UInt8)
  dirs : List Char → Bool
  created : List (List Char)

/-- `Path::join`. -/
def join (dir name : List Char) : List Char :=
  if name.head? = some '/' then name
  else if dir = [] ∨ dir.getLast? = some '/' then dir ++ name
  else dir ++ '/' :: name

/-- A file is created and filled. -/
def Host.write (host : Host) (path : List Char) (content : List UInt8) : Host where
  files p := if p = path then some content else host.files p
  dirs := host.dirs
  created := host.created ++ [path]

/-- The path is the directory or lies in it. -/
def within (dir path : List Char) : Bool := path = dir || (join dir []).isPrefixOf path

/-- `remove_dir_all`. -/
def Host.removeDirAll (host : Host) (dir : List Char) : Host where
  files p := if within dir p then none else host.files p
  dirs p := !within dir p && host.dirs p
  created := host.created

/-- Eight hexadecimal digits. -/
def hex8 (n : Nat) : String := String.ofList (Hex.fixed false 8 n)

/-- `stream_entry_to_file`: the file at `target` is what was read when the call stopped. -/
def streamEntryToFile (H : Hasher) (source : List UInt8) (entry : BundleEntry)
    (target : List Char) (host : Host) : Except CoreError Unit × Host :=
  let name := String.ofList entry.name
  let header := (source.drop entry.offset).take localHeaderLen
  if header.length < localHeaderLen then
    (.error (.internal "读条目头失败: early eof"), host)
  else if (header.take 4) ≠ toLeBytes 4 localMagic then
    (.error (.internal s!"{name} 的本地头不对"), host)
  else
    let nameLen := fromLeBytes ((header.drop 26).take 2)
    let storedCrc := fromLeBytes ((header.drop 14).take 4)
    let storedSize := fromLeBytes ((header.drop 18).take 4)
    if storedCrc ≠ entry.crc.toNat ∨ storedSize ≠ entry.size then
      let here := hex8 storedCrc
      let there := hex8 entry.crc.toNat
      (.error (.internal (s!"{name} 的两处头部不一致（本地 {here}/{storedSize}，中央 " ++
        s!"{there}/{entry.size})")), host)
    else
      let data := source.drop (entry.offset + localHeaderLen + nameLen)
      let (hasher, out, left) := (readUpTo readChunk entry.size data).foldl
        (fun (hasher, out, left) read => (H.update hasher read, out ++ read, left - read.length))
        (H.new, ([] : List UInt8), entry.size)
      let host := host.write target out
      if left ≠ 0 then
        (.error (.internal (s!"{name} 只有 {entry.size - left} 字节可读，" ++
          s!"容器声明 {entry.size} 字节")), host)
      else if H.finalize hasher ≠ entry.crc then
        (.error (.internal s!"{name} 的 CRC 与容器声明不一致，包已被改动或损坏"), host)
      else (.ok (), host)

/-- The loop of `extract_bundle`: the first failure removes the directory. -/
def extractEach (H : Hasher) (source : List UInt8) (workdir : List Char) :
    List BundleEntry → List (List Char) → Host → Except Stop (List (List Char)) × Host
  | [], out, host => (.ok out, host)
  | entry :: rest, out, host =>
      let target := join workdir entry.name
      match streamEntryToFile H source entry target host with
      | (.error error, host) => (.error (.failed error), host.removeDirAll workdir)
      | (.ok _, host) => extractEach H source workdir rest (out ++ [target]) host

/-- The checks of an entry before anything is unpacked. -/
def checkEntry (entry : BundleEntry) : Except Stop Unit := do
  let _ ← safeEntryName entry.name
  if entry.size = 0 then internal s!"{String.ofList entry.name} 是空文件" else .ok ()

/-- The entries that `extract_bundle` unpacks, in order. -/
def installable (sourcePath : List Char) (entries : List BundleEntry) :
    Except Stop (List BundleEntry) := do
  let apks := entries.filter fun entry => isApk entry.name
  if apks = [] then
    internal s!"{String.ofList sourcePath} 里没有任何 .apk 条目，不是可安装的容器"
  else
    apks.forM checkEntry
    .ok (apks.mergeSort fun left right => nameLe left.name right.name)

/-- `extract_bundle` of the container `source`. -/
def extractBundle (H : Hasher) (sourcePath : List Char) (source : List UInt8)
    (workdir : List Char) (host : Host) : Except Stop (List (List Char)) × Host :=
  match readBundle source >>= installable sourcePath with
  | .error stop => (.error stop, host)
  | .ok apks => extractEach H source workdir apks [] host

end RevBox.ApkBundle
