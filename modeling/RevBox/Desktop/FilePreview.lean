import RevBox.Desktop.FsProbe
import RevBox.Support.Chaining
import RevBox.Support.Hex
import RevBox.Support.Utf8
import RevBox.Protocol.Envelope

/-!
# Desktop — FilePreview

The bounded preview of a file on both legs: `preview` of the Agent (`provider/filesystem.rs`), which
seeks and reads, and `file_preview_rooted` (`services/device_service.rs`), which reads a window of
the size that `stat` reports and has it written out by `od`.

* `parseHexDump_od`: the bytes are read back as they were.
* `previews_alike_iff`: when both legs show the same.
-/

namespace RevBox

open RootShell FsRooted

namespace FilePreview

/-- What a path leads to, every link followed, which both legs may read. -/
structure Pointed where
  kind : FileKind
  attr : Attr
  content : List UInt8
  /-- the path of it, links resolved -/
  real : List Char
  /-- the text of the link, where the path itself is one -/
  link : Option (List Char)
  followed : kind ≠ .symlink ∧ kind ≠ .other
  /-- what is neither a file nor a directory has no size -/
  sized : kind ≠ .file → kind ≠ .dir → attr.size = 0

/-! ### Both legs -/

/-- `max_bytes`, with the default and the bound on it. -/
def limitOf (maxBytes : Option UInt32) : Nat :=
  min ((maxBytes.map UInt32.toNat).getD defaultPreviewBytes) maxPreviewBytes

/-- `u32::try_from(bytes.len()).unwrap_or(MAX_PREVIEW_BYTES)`. -/
def returnedBytes (bytes : List UInt8) : Nat :=
  if bytes.length < 2 ^ 32 then bytes.length else maxPreviewBytes

/-- Text where the bytes are valid UTF-8 without a NUL, and digits otherwise; `hexEncode` is how
the leg writes them. -/
def encodingOf (hexEncode : List UInt8 → List Char) (bytes : List UInt8) :
    PreviewEncoding × Option (List Char) × Option (List Char) :=
  match Utf8.fromUtf8 bytes with
  | some text =>
      if bytes.contains 0 then (.hex, none, some (hexEncode bytes)) else (.utf8, some text, none)
  | none => (.hex, none, some (hexEncode bytes))

/-! ### The Agent -/

/-- `kind_name`. -/
def kindName : FileKind → String
  | .dir => "dir"
  | .file => "file"
  | .symlink => "symlink"
  | .socket => "socket"
  | .fifo => "fifo"
  | .block => "block"
  | .char => "char"
  | .other => "other"

/-- `read_slice`. -/
def readSlice (content : List UInt8) (offset limit : Nat) : List UInt8 :=
  (content.drop offset).take limit

/-- `hex_encode`. -/
def hexEncode (bytes : List UInt8) : List Char :=
  bytes.flatMap fun b : UInt8 => [Hex.digit false (b >>> 4).toNat, Hex.digit false (b &&& 0x0f).toNat]

/-- `preview`. -/
def preview (file : Pointed) (maxBytes : Option UInt32) (fromEnd : Bool) :
    Except AgentError FilesystemPreviewResult :=
  let shown := String.ofList file.real
  if file.kind ≠ .file then
    .error ((AgentError.new .invalidRequest s!"预览只支持普通文件: {shown}").withDetails
      (.ofFields [("reason", .string "not_a_regular_file"),
        ("kind", .string (kindName file.kind)), ("path", .string shown)]))
  else
    let clamped := maxBytes.any fun value => maxPreviewBytes < value.toNat
    let limit := limitOf maxBytes
    let size := file.attr.size.toNat
    let offset := if fromEnd then size - limit else 0
    let bytes := readSlice file.content offset limit
    let returned := returnedBytes bytes
    let (encoding, text, hex) := encodingOf hexEncode bytes
    .ok
      { path := file.real
        size
        offset
        returnedBytes := returned
        encoding
        text
        hex
        truncated := returned < size
        detail := if clamped then some s!"max_bytes_clamped_to_{maxPreviewBytes}" else none }

/-! ### The root leg -/

/-- `%F`. -/
def kindText (file : Pointed) : List Char :=
  match file.kind with
  | .dir => "directory".toList
  | .file => if file.attr.size = 0 then "regular empty file".toList else "regular file".toList
  | .socket => "socket".toList
  | .fifo => "FIFO (named pipe)".toList
  | .block => "block device".toList
  | .char => "character device".toList
  | .symlink | .other => []

/-- The output of the composed `stat -L`, whose last command succeeds. -/
def statScriptOf (file : Pointed) : AdbRunOutput where
  exitCode := some 0
  stdout := line (statText file.attr (kindText file)) ++ (line "@R".toList ++
    ((match file.link with
      | some target => line "@L".toList ++ line target
      | none => []) ++
    (line "@P".toList ++ line file.real)))
  stderr := []

/-- A row of `od -An -tx1 -v`. -/
def odRow (row : List UInt8) : List Char :=
  (row.flatMap fun b => ' ' :: Hex.fixed false 2 b.toNat) ++ ['\n']

/-- `od -An -tx1 -v`. -/
def od (bytes : List UInt8) : List Char := (Chaining.chunks 16 bytes).flatMap odRow

/-- `test -r … && tail -c +{offset + 1} -- … | head -c {count} | od -An -tx1 -v`. -/
def windowScript (file : Pointed) (offset count : Nat) : AdbRunOutput where
  exitCode := some 0
  stdout := od ((file.content.drop offset).take count)
  stderr := []

/-- `parse_hex_dump`. -/
def parseHexDump (text : List Char) : List UInt8 :=
  (Text.splitWhitespace text).filterMap fun token =>
    if (Utf8.encode token).length ≠ 2 then none else (Hex.fromStr 256 token).map UInt8.ofNat

/-- `format!("{byte:02x}")` of each byte. -/
def hexText (bytes : List UInt8) : List Char := bytes.flatMap fun b => Hex.fixed false 2 b.toNat

/-- `stat_rooted`, on what the composed command says. -/
def statOf (path : List Char) (out : AdbRunOutput) : Except CoreError RootedStat :=
  match fsReadRooted out with
  | .error e => .error e
  | .ok text =>
      match parseRootedStat text with
      | some stat => .ok stat
      | none => .error (.internal (s!"设备上的 stat 输出解不出来，无法确认 {String.ofList path} 是什么：" ++
          String.ofList text))

/-- The bytes of the window that `file_preview_rooted` reads. -/
def windowOf (file : Pointed) (offset count : Nat) : Except CoreError (List UInt8) :=
  if count = 0 then .ok []
  else (fsReadRooted (windowScript file offset count)).map parseHexDump

/-- `file_preview_rooted`. -/
def filePreviewRooted (file : Pointed) (path : List Char) (maxBytes : Option UInt32)
    (fromEnd : Bool) : Except CoreError FilesystemPreviewResult :=
  match statOf path (statScriptOf file) with
  | .error e => .error e
  | .ok stat =>
      if stat.fields.kind = .dir then .error (.invalidInput s!"目录没有预览：{String.ofList path}")
      else
        let limit := limitOf maxBytes
        let size := stat.fields.size
        let offset := if fromEnd then size - limit else 0
        let count := min (size - offset) limit
        match windowOf file offset count with
        | .error e => .error e
        | .ok bytes =>
            let returned := returnedBytes bytes
            let (encoding, text, hex) := encodingOf hexText bytes
            .ok
              { path
                size
                offset
                returnedBytes := returned
                encoding
                text
                hex
                truncated := returned < size
                detail := some "root-branch" }

/-! ### The bytes through `od` -/

theorem mem_hex_two {b : UInt8} {c : Char} (h : c ∈ Hex.fixed false 2 b.toNat) :
    Text.isWhitespace c = false :=
  Hex.not_whitespace_of_isDigit (Hex.isDigit_of_mem_fixed h)

theorem fromStr_byte (b : UInt8) : Hex.fromStr 256 (Hex.fixed false 2 b.toNat) = some b.toNat :=
  Hex.fromStr_fixed (by decide) b.toNat_lt b.toNat_lt

theorem odRow_eq (row : List UInt8) : odRow row =
    ((row.map fun b => Hex.fixed false 2 b.toNat).flatMap fun w => ' ' :: w) ++ ['\n'] := by
  rw [List.flatMap_map]
  rfl

theorem words_rows (rows : List (List UInt8)) : Text.splitWhitespace (rows.flatMap odRow) =
    rows.flatten.map fun b => Hex.fixed false 2 b.toNat := by
  unfold Text.splitWhitespace
  induction rows with
  | nil => rfl
  | cons row rows ih =>
      have hwords : ∀ w ∈ row.map (fun b => Hex.fixed false 2 b.toNat), w ≠ [] ∧
          ∀ c ∈ w, Text.isWhitespace c = false := by
        intro w hw
        obtain ⟨b, -, rfl⟩ := List.mem_map.mp hw
        refine ⟨?_, fun c => mem_hex_two⟩
        rw [← List.length_pos_iff, Hex.length_fixed]
        decide
      rw [List.flatMap_cons, odRow_eq, List.append_assoc, List.singleton_append,
        Text.wordsFrom_flatMap rfl rfl hwords, ih, List.flatten_cons, List.map_append]

theorem utf8_length_hex (b : UInt8) : (Utf8.encode (Hex.fixed false 2 b.toNat)).length = 2 := by
  have hascii : (Hex.fixed false 2 b.toNat).all Utf8.isAscii = true := by
    refine List.all_eq_true.mpr fun c hc => ?_
    have := Hex.toNat_of_isDigit (Hex.isDigit_of_mem_fixed hc)
    refine decide_eq_true ?_
    omega
  rw [Utf8.length_encode_ascii hascii, Hex.length_fixed]

/-- **The bytes come back from `od` as they were.** -/
theorem parseHexDump_od (bytes : List UInt8) : parseHexDump (od bytes) = bytes := by
  unfold parseHexDump od
  rw [words_rows, Chaining.flatten_chunks (by decide), List.filterMap_map]
  have hbyte : ((fun token => if (Utf8.encode token).length ≠ 2 then none
      else (Hex.fromStr 256 token).map UInt8.ofNat) ∘ fun b : UInt8 => Hex.fixed false 2 b.toNat) =
      some := by
    funext b
    simp only [Function.comp_apply, utf8_length_hex, ne_eq, not_true_eq_false, if_false,
      fromStr_byte, Option.map_some, UInt8.ofNat_toNat]
  rw [hbyte, List.filterMap_some]

/-! ### The legs side by side -/

/-- What the page shows of a preview: where it begins, the bytes and whether there are more. -/
structure Shown where
  offset : Nat
  encoding : PreviewEncoding
  text : Option (List Char)
  hex : Option (List Char)
  truncated : Bool
  deriving DecidableEq

def shown (r : FilesystemPreviewResult) : Shown where
  offset := r.offset
  encoding := r.encoding
  text := r.text
  hex := r.hex
  truncated := r.truncated

/-- Both legs show the same of a file, and both refuse everything else. -/
def Alike (file : Pointed) (path : List Char) (maxBytes : Option UInt32) (fromEnd : Bool) : Prop :=
  if file.kind = .file then
    ∃ a b, preview file maxBytes fromEnd = .ok a ∧
      filePreviewRooted file path maxBytes fromEnd = .ok b ∧ shown a = shown b
  else
    (∃ e, preview file maxBytes fromEnd = .error e) ∧
      ∃ e, filePreviewRooted file path maxBytes fromEnd = .error e

/-- The clock of the entry does not stand before 1970. -/
def Dated (file : Pointed) : Prop := 0 ≤ file.attr.mtime.toInt

/-- The window that the size allows holds what the limit allows. -/
def SizeTells (file : Pointed) (limit : Nat) : Prop :=
  limit ≤ file.attr.size.toNat ∨ file.content.length ≤ file.attr.size.toNat

/-- When the legs show the same. -/
def Meet (file : Pointed) (maxBytes : Option UInt32) : Prop :=
  match file.kind with
  | .file => Dated file ∧ SizeTells file (limitOf maxBytes)
  | .dir => True
  | _ => ¬ Dated file

variable {file : Pointed}

theorem spelled_kindText (file : Pointed) : Spelled (kindText file) := by
  obtain ⟨hlink, hother⟩ := file.followed
  unfold kindText
  split
  · exact ⟨by decide, "director".toList, 'y', by decide, by decide⟩
  · split
    · exact ⟨by decide, "regular empty fil".toList, 'e', by decide, by decide⟩
    · exact ⟨by decide, "regular fil".toList, 'e', by decide, by decide⟩
  · exact ⟨by decide, "socke".toList, 't', by decide, by decide⟩
  · exact ⟨by decide, "FIFO (named pipe".toList, ')', by decide, by decide⟩
  · exact ⟨by decide, "block devic".toList, 'e', by decide, by decide⟩
  · exact ⟨by decide, "character devic".toList, 'e', by decide, by decide⟩
  · rename_i h
    exact absurd h hlink
  · rename_i h
    exact absurd h hother

theorem kind_kindText (file : Pointed) {f : StatFields} (hf : f.kindText = kindText file) :
    f.kind = file.kind := by
  obtain ⟨hlink, hother⟩ := file.followed
  unfold StatFields.kind
  rw [hf, kindText]
  cases hkind : file.kind with
  | file =>
      simp only
      split <;> decide
  | symlink => exact absurd hkind hlink
  | other => exact absurd hkind hother
  | dir | socket | fifo | block | char => rfl

/-- What the composed command says of a file is made out, unless its clock stands before 1970. -/
theorem statOf_script (file : Pointed) (path : List Char) :
    (Dated file ∧ ∃ stat, statOf path (statScriptOf file) = .ok stat ∧
      stat.fields.kind = file.kind ∧ stat.fields.size = file.attr.size.toNat) ∨
    (¬ Dated file ∧ ∃ e, statOf path (statScriptOf file) = .error e) := by
  have hspelled := spelled_kindText file
  obtain ⟨hn, hr⟩ := statText_one_line file.attr hspelled
  obtain ⟨rest, hout⟩ : ∃ rest, (statScriptOf file).stdout =
      line (statText file.attr (kindText file)) ++ rest := ⟨_, rfl⟩
  have hparse := parseRootedStat_line hn hr rest
  rw [parseStatFields_statText file.attr hspelled] at hparse
  have hcode : (statScriptOf file).exitCode = some 0 := rfl
  by_cases hd : 0 ≤ file.attr.mtime.toInt
  · rw [if_pos hd] at hparse
    obtain ⟨stat, hstat, hfields⟩ := Option.map_eq_some_iff.mp hparse
    refine .inl ⟨hd, stat, ?_, ?_, ?_⟩
    · simp only [statOf, fsReadRooted, hcode, if_true, hout, hstat]
    · exact kind_kindText file (by rw [hfields]; rfl)
    · rw [hfields]
      rfl
  · rw [if_neg hd] at hparse
    have hnone := Option.map_eq_none_iff.mp hparse
    refine .inr ⟨hd, ?_⟩
    simp only [statOf, fsReadRooted, hcode, if_true, hout, hnone]
    exact ⟨_, rfl⟩

theorem windowOf_eq (file : Pointed) (offset count : Nat) :
    windowOf file offset count = .ok ((file.content.drop offset).take count) := by
  unfold windowOf
  split
  · rename_i hcount
    rw [hcount, List.take_zero]
  · have hread : fsReadRooted (windowScript file offset count) =
        .ok (od ((file.content.drop offset).take count)) := rfl
    rw [hread, Except.map, parseHexDump_od]

theorem hexEncode_eq (bytes : List UInt8) : hexEncode bytes = hexText bytes := by
  have hbyte : ∀ n < 256, (UInt8.ofNat n >>> 4).toNat = n / 16 % 16 ∧
      (UInt8.ofNat n &&& 0x0f).toNat = n % 16 := by decide +kernel
  unfold hexEncode hexText
  congr 1
  funext b
  obtain ⟨hhigh, hlow⟩ := hbyte b.toNat b.toNat_lt
  rw [UInt8.ofNat_toNat] at hhigh hlow
  rw [hhigh, hlow]
  rfl

/-- What shows the same is as long. -/
theorem length_of_encodingOf {bs bs' : List UInt8}
    (h : encodingOf hexText bs = encodingOf hexText bs') : bs.length = bs'.length := by
  have hlength : ∀ bs : List UInt8, (hexText bs).length = 2 * bs.length := by
    intro bs
    induction bs with
    | nil => rfl
    | cons b bs ih =>
        rw [hexText, List.flatMap_cons, List.length_append, Hex.length_fixed, ← hexText, ih,
          List.length_cons]
        omega
  -- the digits tell the length, the text tells the bytes
  have key : ∀ bs : List UInt8, (∃ s, encodingOf hexText bs = (.utf8, some s, none) ∧
      bs = Utf8.encode s) ∨ encodingOf hexText bs = (.hex, none, some (hexText bs)) := fun bs => by
    unfold encodingOf
    split
    · rename_i s hs
      split
      · exact .inr rfl
      · exact .inl ⟨s, rfl, Utf8.fromUtf8_eq_some_iff.mp hs⟩
    · exact .inr rfl
  rcases key bs with ⟨s, hs, rfl⟩ | hs
  · rcases key bs' with ⟨s', hs', rfl⟩ | hs'
    · rw [hs, hs'] at h
      cases h
      rfl
    · rw [hs, hs'] at h
      cases h
  · rcases key bs' with ⟨s', hs', rfl⟩ | hs'
    · rw [hs, hs'] at h
      cases h
    · rw [hs, hs'] at h
      have hhex : hexText bs = hexText bs' := by
        injection h with _ h
        injection h with _ h
        exact Option.some.inj h
      have hlen := congrArg List.length hhex
      rw [hlength, hlength] at hlen
      omega

/-- The two windows hold the same bytes exactly if they are as long, which is told by the sizes. -/
theorem windows (content : List UInt8) (limit size : Nat) (fromEnd : Bool) :
    ((content.drop (if fromEnd then size - limit else 0)).take limit).length =
      ((content.drop (if fromEnd then size - limit else 0)).take
        (min (size - if fromEnd then size - limit else 0) limit)).length ↔
      limit ≤ size ∨ content.length ≤ size := by
  simp only [List.length_take, List.length_drop]
  cases fromEnd <;> simp only [Bool.false_eq_true, if_false, if_true] <;> omega

theorem window_eq {content : List UInt8} {limit size : Nat} {fromEnd : Bool}
    (h : limit ≤ size ∨ content.length ≤ size) :
    (content.drop (if fromEnd then size - limit else 0)).take
        (min (size - if fromEnd then size - limit else 0) limit) =
      (content.drop (if fromEnd then size - limit else 0)).take limit := by
  have hlen := (windows content limit size fromEnd).mpr h
  exact (List.take_prefix_take_left (Nat.min_le_right _ limit)).eq_of_length hlen.symm

/-- What is shown of these bytes of a file of this size. -/
def shownOf (size offset : Nat) (bytes : List UInt8) : Shown where
  offset := offset
  encoding := (encodingOf hexText bytes).1
  text := (encodingOf hexText bytes).2.1
  hex := (encodingOf hexText bytes).2.2
  truncated := returnedBytes bytes < size

theorem length_of_shownOf {size offset : Nat} {bs bs' : List UInt8}
    (h : shownOf size offset bs = shownOf size offset bs') : bs.length = bs'.length := by
  have h₁ := congrArg Shown.encoding h
  have h₂ := congrArg Shown.text h
  have h₃ := congrArg Shown.hex h
  exact length_of_encodingOf (Prod.ext h₁ (Prod.ext h₂ h₃))

section Preview

variable (path : List Char) (maxBytes : Option UInt32) (fromEnd : Bool)

/-- Where the window of a preview begins. -/
def offsetOf (file : Pointed) (maxBytes : Option UInt32) (fromEnd : Bool) : Nat :=
  if fromEnd then file.attr.size.toNat - limitOf maxBytes else 0

theorem preview_file (hfile : file.kind = .file) : ∃ a, preview file maxBytes fromEnd = .ok a ∧
    shown a = shownOf file.attr.size.toNat (offsetOf file maxBytes fromEnd)
      ((file.content.drop (offsetOf file maxBytes fromEnd)).take (limitOf maxBytes)) := by
  have hhex : hexEncode = hexText := funext hexEncode_eq
  unfold preview
  rw [if_neg (not_not_intro hfile), hhex]
  exact ⟨_, rfl, rfl⟩

theorem preview_other (hfile : file.kind ≠ .file) :
    ∃ e, preview file maxBytes fromEnd = .error e := by
  unfold preview
  rw [if_pos hfile]
  exact ⟨_, rfl⟩

/-- What the root leg shows of what is no directory. -/
theorem rooted_shows (hdated : Dated file) (hdir : file.kind ≠ .dir) :
    ∃ b, filePreviewRooted file path maxBytes fromEnd = .ok b ∧
      shown b = shownOf file.attr.size.toNat (offsetOf file maxBytes fromEnd)
        ((file.content.drop (offsetOf file maxBytes fromEnd)).take
          (min (file.attr.size.toNat - offsetOf file maxBytes fromEnd) (limitOf maxBytes))) := by
  rcases statOf_script file path with ⟨-, stat, hstat, hkind, hsize⟩ | ⟨hnot, -⟩
  · unfold filePreviewRooted
    simp only [hstat, hkind, hsize, if_neg hdir, windowOf_eq]
    exact ⟨_, rfl, rfl⟩
  · exact absurd hdated hnot

theorem rooted_refuses (h : ¬ Dated file ∨ file.kind = .dir) :
    ∃ e, filePreviewRooted file path maxBytes fromEnd = .error e := by
  unfold filePreviewRooted
  rcases statOf_script file path with ⟨hdated, stat, hstat, hkind, -⟩ | ⟨-, e, he⟩
  · have hdir := h.resolve_left (not_not_intro hdated)
    simp only [hstat, hkind, hdir, if_true]
    exact ⟨_, rfl⟩
  · simp only [he]
    exact ⟨_, rfl⟩

theorem alike_other (hfile : file.kind ≠ .file) :
    Alike file path maxBytes fromEnd ↔ ¬ Dated file ∨ file.kind = .dir := by
  rw [Alike, if_neg hfile]
  constructor
  · rintro ⟨-, e, he⟩
    by_contra hnot
    obtain ⟨hdated, hdir⟩ := not_or.mp hnot
    obtain ⟨b, hb, -⟩ := rooted_shows path maxBytes fromEnd (not_not.mp hdated) hdir
    cases he.symm.trans hb
  · exact fun h => ⟨preview_other maxBytes fromEnd hfile,
      rooted_refuses path maxBytes fromEnd h⟩

theorem alike_file (hfile : file.kind = .file) :
    Alike file path maxBytes fromEnd ↔ Dated file ∧ SizeTells file (limitOf maxBytes) := by
  rw [Alike, if_pos hfile]
  have hdir : file.kind ≠ .dir := by
    rw [hfile]
    decide
  obtain ⟨a, ha, hashown⟩ := preview_file maxBytes fromEnd hfile
  constructor
  · rintro ⟨a', b, ha', hb, hshown⟩
    have hdated : Dated file := by
      by_contra hnot
      obtain ⟨e, he⟩ := rooted_refuses path maxBytes fromEnd (.inl hnot)
      cases he.symm.trans hb
    obtain ⟨b', hb', hbshown⟩ := rooted_shows path maxBytes fromEnd hdated hdir
    cases ha.symm.trans ha'
    cases hb.symm.trans hb'
    rw [hashown, hbshown] at hshown
    exact ⟨hdated, (windows _ _ _ fromEnd).mp (length_of_shownOf hshown)⟩
  · rintro ⟨hdated, htells⟩
    obtain ⟨b, hb, hbshown⟩ := rooted_shows path maxBytes fromEnd hdated hdir
    refine ⟨a, b, ha, hb, ?_⟩
    rw [hashown, hbshown, offsetOf, window_eq htells]

end Preview

/-- **The legs show the same of a file exactly if its size tells how much there is to show**, and
both refuse a directory; the root leg refuses nothing else. -/
theorem previews_alike_iff (file : Pointed) (path : List Char) (maxBytes : Option UInt32)
    (fromEnd : Bool) : Alike file path maxBytes fromEnd ↔ Meet file maxBytes := by
  unfold Meet
  cases hkind : file.kind with
  | file => exact alike_file path maxBytes fromEnd hkind
  | dir => exact (alike_other path maxBytes fromEnd (by rw [hkind]; decide)).trans (iff_of_true (.inr hkind) trivial)
  | symlink => exact absurd hkind file.followed.1
  | other => exact absurd hkind file.followed.2
  | socket | fifo | block | char =>
      refine (alike_other path maxBytes fromEnd (by rw [hkind]; decide)).trans (or_iff_left ?_)
      rw [hkind]
      decide

/-! ### A file of `/proc` -/

/-- `/proc/version`, as `stat` reports it. -/
def procVersion : Pointed where
  kind := .file
  attr := ⟨0o444, 0, 0, 0, 1700000000⟩
  content := Utf8.encode "Linux version 5.10.101\n".toList
  real := "/proc/version".toList
  link := none
  followed := by decide
  sized := fun h => absurd rfl h

/-- **The root leg shows nothing of a file of `/proc`**, whose size is reported as 0. -/
theorem procVersion_differs : ¬ ∀ (file : Pointed) (path : List Char) (maxBytes : Option UInt32)
    (fromEnd : Bool), Alike file path maxBytes fromEnd := by
  intro h
  obtain ⟨a, b, ha, hb, hshown⟩ := h procVersion procVersion.real none false
  have hagent : (preview procVersion none false).toOption.map shown =
      some ⟨0, .utf8, some "Linux version 5.10.101\n".toList, none, false⟩ := rfl
  have hroot : (filePreviewRooted procVersion procVersion.real none false).toOption.map shown =
      some ⟨0, .utf8, some [], none, false⟩ := rfl
  rw [ha, Except.toOption, Option.map_some] at hagent
  rw [hb, Except.toOption, Option.map_some] at hroot
  have heq := hagent.symm.trans ((congrArg some hshown).trans hroot)
  exact absurd heq (by decide)

end FilePreview

end RevBox
