import RevBox.Desktop.ApkBundle
import RevBox.Desktop.FsRooted
import RevBox.Support.Spaced
import RevBox.Support.Split

/-!
# Desktop — RootListing

The listing of the root leg: `parse_ls_long` of `adapters/adb.rs` and `list_files_rooted` of
`services/device_service.rs`, on what `ls -lA` prints. A row is cut into words at its blanks, and
the name is what is joined of the last of them.

* `listsFaithfully_iff`: when every entry of a directory is listed as it is.
-/

namespace RevBox

open RootShell FsRooted

namespace RootListing

/-! ### The code -/

/-- `FileEntry`. -/
structure FileEntry where
  name : List Char
  isDir : Bool
  size : Int
  symlink : Option (List Char)
  perms : List Char
  deriving DecidableEq

/-- The text between a link and its target. -/
def arrow : List Char := " -> ".toList

/-- The name and the target of a row, of which the text is joined. -/
def nameAndTarget (isLink : Bool) (text : List Char) : List Char × Option (List Char) :=
  if isLink then
    match Split.splitOnce arrow text with
    | some (name, target) => (name, some target)
    | none => (text, none)
  else (text, none)

/-- `name_from`: a device takes one more column. -/
def nameFrom (sizeCol : List Char) : Nat := if sizeCol.getLast? = some ',' then 8 else 7

/-- `parse_ls_long`. -/
def parseLsLong (line : List Char) : Option FileEntry :=
  let line := Text.trim (Text.trimEndMatches '\r' line)
  if line = [] ∨ Text.startsWith "total ".toList line then none
  else
    let cols := Text.splitWhitespace line
    if cols.length < 8 then none
    else
      let perms := cols.getD 0 []
      let sizeCol := cols.getD 4 []
      match Text.parseI64 (Text.trimEndMatches ',' sizeCol) with
      | .error _ => none
      | .ok size =>
          if sizeCol.getLast? = some ',' ∧ cols.length < 9 then none
          else
            let text := Text.join ' ' (cols.drop (nameFrom sizeCol))
            let (name, symlink) := nameAndTarget (perms.head? = some 'l') text
            if name = [] then none
            else some { name, isDir := perms.head? = some 'd', size, symlink, perms }

/-- `list_files_rooted`, on what its command comes to. -/
def listFilesRooted (path : List Char) (out : AdbRunOutput) : Except CoreError (List FileEntry) :=
  match fsReadRooted out with
  | .error e => .error e
  | .ok text =>
      let shown := String.ofList path
      if Text.trim text = "@NOTDIR".toList then
        .error (.invalidInput s!"这不是一个目录（普通文件，或指向文件的链接）：{shown}")
      else if Text.trim text = "@NOENT".toList then
        .error (.notFound s!"设备上已经没有这个路径（链接可能已失效）：{shown}")
      else
        let entries := ((Text.lines text).filterMap parseLsLong).filter fun entry =>
          entry.name ≠ ['.'] && entry.name ≠ ['.', '.']
        .ok (entries.mergeSort fun a b => ApkBundle.nameLe a.name b.name)

/-! ### What `ls -lA` prints -/

/-- The kinds of what a directory holds. -/
inductive EntryKind where
  | file
  | dir
  | socket
  | fifo
  | link (target : List Char)
  | char (major minor : UInt32)
  | block (major minor : UInt32)

/-- The letter of a kind. -/
def EntryKind.letter : EntryKind → Char
  | .file => '-'
  | .dir => 'd'
  | .socket => 's'
  | .fifo => 'p'
  | .link _ => 'l'
  | .char _ _ => 'c'
  | .block _ _ => 'b'

/-- The numbers of a device. -/
def EntryKind.device : EntryKind → Option (UInt32 × UInt32)
  | .char major minor | .block major minor => some (major, minor)
  | _ => none

/-- The major number of a device. -/
def EntryKind.major (kind : EntryKind) : Nat :=
  match kind.device with
  | some (major, _) => major.toNat
  | none => 0

/-- The target of a link. -/
def EntryKind.target : EntryKind → Option (List Char)
  | .link target => some target
  | _ => none

/-- A word of a row. -/
def Word (w : List Char) : Prop := w ≠ [] ∧ ∀ c ∈ w, Text.isWhitespace c = false

instance (w : List Char) : Decidable (Word w) :=
  decidable_of_iff (w ≠ [] ∧ (w.all fun c => !Text.isWhitespace c) = true) <| by
    rw [Word, List.all_eq_true]
    simp only [Bool.not_eq_true']

/-- An entry of a directory. -/
structure DirEntry where
  name : List Char
  kind : EntryKind
  /-- `st_size`, an `off_t` -/
  size : Nat
  /-- the nine letters of the mode -/
  bits : List Char
  links : List Char
  user : List Char
  group : List Char
  date : List Char
  time : List Char
  named : name ≠ [] ∧ name ≠ ['.'] ∧ name ≠ ['.', '.'] ∧ '\n' ∉ name ∧ '/' ∉ name
  sized : size < 2 ^ 63
  /-- a device has no size -/
  deviceSize : kind.device.isSome → size = 0
  words : Word bits ∧ Word links ∧ Word user ∧ Word group ∧ Word date ∧ Word time

namespace DirEntry

variable (e : DirEntry)

/-- The columns before the name; those of a device are one more. -/
def columns : List (List Char) :=
  [e.kind.letter :: e.bits, e.links, e.user, e.group] ++
    ((match e.kind.device with
      | some (major, minor) =>
          [Text.decimal major.toNat ++ [','], Text.decimal minor.toNat]
      | none => [Text.decimal e.size]) ++ [e.date, e.time])

/-- The name, and the target of a link behind it. -/
def shown : List Char :=
  match e.kind.target with
  | some target => e.name ++ (arrow ++ target)
  | none => e.name

/-- The row, its columns padded as wide as the listing has them. -/
def row (pad : Nat → Nat) : List Char :=
  (e.columns.zipIdx.flatMap fun w => w.1 ++ (List.replicate (pad w.2) ' ' ++ [' '])) ++ e.shown

/-- The entry, as it should be listed. -/
def expected : FileEntry where
  name := e.name
  isDir := e.kind.letter = 'd'
  size := e.size
  symlink := e.kind.target
  perms := e.kind.letter :: e.bits

end DirEntry

/-- What the command prints of a directory. -/
def outputOf (blocks : Nat) (rows : List (DirEntry × (Nat → Nat))) : AdbRunOutput where
  exitCode := some 0
  stdout := line ("total ".toList ++ Text.decimal blocks) ++
    rows.flatMap fun r => line (r.1.row r.2)
  stderr := []

/-- There is exactly one entry for each of the directory, as it is. -/
def ListsFaithfully (path : List Char) (blocks : Nat) (rows : List (DirEntry × (Nat → Nat))) :
    Prop :=
  ∃ entries, listFilesRooted path (outputOf blocks rows) = .ok entries ∧
    entries.Perm (rows.map fun r => r.1.expected)

/-- **The name and the target are of words with single spaces between them**, and there is no arrow
within the name of a link or at its end. -/
structure Readable (e : DirEntry) : Prop where
  name : Text.Spaced true e.name
  target : ∀ target ∈ e.kind.target, Text.Spaced true target ∧
    ¬ arrow <:+: e.name ++ " ->".toList

/-- The entry is readable, and has no major number. -/
structure Tidy (e : DirEntry) : Prop extends Readable e where
  major : e.kind.major = 0

/-! ### What is read of any row -/

variable {text name target l : List Char} {entry : FileEntry}

/-- No arrow stands before the one that a row is cut at. -/
theorem splitOnce_arrow (h : ¬ arrow <:+: name ++ " ->".toList) (target : List Char) :
    Split.splitOnce arrow (name ++ (arrow ++ target)) = some (name, target) := by
  refine (Split.splitOnce_eq_some_iff (by decide)).mpr ⟨rfl, fun x y hxy => ?_⟩
  by_contra hlt
  refine h ?_
  have hfront : name ++ " ->".toList <+: name ++ (arrow ++ target) := by
    refine ⟨' ' :: target, ?_⟩
    rw [List.append_assoc]
    rfl
  have hcut : x ++ arrow <+: name ++ (arrow ++ target) := by
    rw [hxy, ← List.append_assoc]
    exact List.prefix_append _ y
  have hshort : (x ++ arrow).length ≤ (name ++ " ->".toList).length := by
    simp only [List.length_append, arrow, String.length_toList]
    have h4 : " -> ".length = 4 := rfl
    have h3 : " ->".length = 3 := rfl
    omega
  exact (List.infix_append x arrow []).trans
    (by simpa using (List.prefix_of_prefix_length_le hcut hfront hshort).isInfix)

/-- What a row is cut into at its arrow. -/
theorem nameAndTarget_sound (isLink : Bool) (h : Text.Spaced true text) :
    Text.Spaced true (nameAndTarget isLink text).1 ∧
      ∀ target ∈ (nameAndTarget isLink text).2, Text.Spaced true target ∧
        ¬ arrow <:+: (nameAndTarget isLink text).1 ++ " ->".toList := by
  unfold nameAndTarget
  split_ifs
  · cases hcut : Split.splitOnce arrow text with
    | none => exact ⟨h, nofun⟩
    | some r =>
        obtain ⟨name, target⟩ := r
        obtain ⟨rfl, hfirst⟩ := (Split.splitOnce_eq_some_iff (by decide)).mp hcut
        have hparts : Text.Spaced true (name ++ ' ' :: (['-', '>'] ++ ' ' :: target)) := h
        rw [Text.spaced_append_space, Text.spaced_append_space] at hparts
        refine ⟨hparts.1, fun t ht => ?_⟩
        cases ht
        refine ⟨hparts.2.2, ?_⟩
        rintro ⟨x, y, hxy⟩
        have hle := hfirst x (y ++ ' ' :: target) (by
          rw [← List.append_assoc arrow y, ← List.append_assoc x, ← List.append_assoc x, hxy,
            List.append_assoc]
          rfl)
        have hlength := congrArg List.length hxy
        simp only [List.length_append, arrow, String.length_toList] at hlength
        have h4 : " -> ".length = 4 := rfl
        have h3 : " ->".length = 3 := rfl
        omega
  · exact ⟨h, nofun⟩

theorem spaced_cols {k : Nat} (hk : k < (Text.splitWhitespace l).length) :
    Text.Spaced true (Text.join ' ' ((Text.splitWhitespace l).drop k)) := by
  refine Text.spaced_join (fun hnil => ?_) fun w hw => ?_
  · exact Nat.not_le_of_lt hk (List.drop_eq_nil_iff.mp hnil)
  · have hmem := List.mem_of_mem_drop hw
    exact ⟨Text.splitWhitespace_ne_nil hmem, Text.splitWhitespace_no_blank hmem⟩

/-- **What is read of a row is tidy**, whatever the row. -/
theorem parseLsLong_sound (h : parseLsLong l = some entry) :
    Text.Spaced true entry.name ∧ ∀ target ∈ entry.symlink, Text.Spaced true target ∧
      ¬ arrow <:+: entry.name ++ " ->".toList := by
  unfold parseLsLong at h
  dsimp only at h
  generalize Text.trim (Text.trimEndMatches '\r' l) = l' at h
  split_ifs at h with htotal hshort hnine hempty
  · split at h <;> cases h
  · split at h <;> cases h
  · split at h
    · cases h
    · cases h
      refine nameAndTarget_sound _ (spaced_cols ?_)
      unfold nameFrom
      split_ifs with hdevice
      · exact Nat.not_lt.mp fun hlt => hnine ⟨hdevice, hlt⟩
      · exact Nat.not_lt.mp hshort

/-- What is listed is tidy, but for the numbers of devices. -/
theorem listed_sound {path : List Char} {out : AdbRunOutput} {entries : List FileEntry}
    (h : listFilesRooted path out = .ok entries) (hmem : entry ∈ entries) :
    Text.Spaced true entry.name ∧ ∀ target ∈ entry.symlink, Text.Spaced true target ∧
      ¬ arrow <:+: entry.name ++ " ->".toList := by
  unfold listFilesRooted at h
  split at h
  · cases h
  · dsimp only at h
    split_ifs at h
    cases h
    rw [List.mem_mergeSort] at hmem
    obtain ⟨l, -, hl⟩ := List.mem_filterMap.mp (List.mem_of_mem_filter hmem)
    exact parseLsLong_sound hl

/-! ### What is read of a tidy row -/

variable {e : DirEntry} {pad : Nat → Nat}

namespace DirEntry

/-- What is read of a row: the major number is added to the size of a device, which has none. -/
def read (e : DirEntry) : FileEntry where
  name := e.name
  isDir := e.kind.letter = 'd'
  size := (e.size + e.kind.major : Nat)
  symlink := e.kind.target
  perms := e.kind.letter :: e.bits

end DirEntry

theorem word_decimal (n : Nat) : Word (Text.decimal n) :=
  ⟨Text.decimal_ne_nil n, fun _ h =>
    Text.not_whitespace_of_isAsciiDigit (Text.isAsciiDigit_of_mem_decimal h)⟩

theorem decimal_no_comma (n : Nat) : ',' ∉ Text.decimal n := fun hmem => by
  cases Text.isAsciiDigit_of_mem_decimal hmem

theorem word_columns (e : DirEntry) : ∀ w ∈ e.columns, Word w := by
  obtain ⟨hbits, hlinks, huser, hgroup, hdate, htime⟩ := e.words
  have hmode : Word (e.kind.letter :: e.bits) :=
    ⟨nofun, List.forall_mem_cons.mpr ⟨by cases e.kind <;> rfl, hbits.2⟩⟩
  have hmajor : ∀ n, Word (Text.decimal n ++ [',']) := fun n =>
    ⟨List.append_ne_nil_of_right_ne_nil _ nofun, List.forall_mem_append.mpr
      ⟨(word_decimal n).2, List.forall_mem_singleton.mpr rfl⟩⟩
  unfold DirEntry.columns
  refine List.forall_mem_append.mpr ⟨?_, List.forall_mem_append.mpr ⟨?_, ?_⟩⟩
  · simp only [List.forall_mem_cons]
    exact ⟨hmode, hlinks, huser, hgroup, nofun⟩
  · cases e.kind.device with
    | none => exact List.forall_mem_singleton.mpr (word_decimal _)
    | some d =>
        simp only [List.forall_mem_cons]
        exact ⟨hmajor _, word_decimal _, nofun⟩
  · simp only [List.forall_mem_cons]
    exact ⟨hdate, htime, nofun⟩

theorem Readable.shown (h : Readable e) : Text.Spaced true e.shown := by
  unfold DirEntry.shown
  cases htarget : e.kind.target with
  | none => exact h.name
  | some target =>
      have hparts : Text.Spaced true (e.name ++ ' ' :: (['-', '>'] ++ ' ' :: target)) := by
        rw [Text.spaced_append_space, Text.spaced_append_space]
        exact ⟨h.name, rfl, (h.target target htarget).1⟩
      exact hparts

/-- The words of a row. -/
theorem words_row (e : DirEntry) (pad : Nat → Nat) :
    Text.splitWhitespace (e.row pad) = e.columns ++ Text.splitWhitespace e.shown := by
  have hcolumns := word_columns e
  unfold DirEntry.row
  generalize e.columns = columns at hcolumns
  generalize 0 = k
  induction columns generalizing k with
  | nil => rfl
  | cons w ws ih =>
      obtain ⟨⟨hne, hw⟩, hws⟩ := List.forall_mem_cons.mp hcolumns
      rw [List.zipIdx_cons, List.flatMap_cons, List.append_assoc, List.append_assoc,
        List.append_assoc, List.singleton_append, Text.splitWhitespace_padded hne hw, ih hws,
        List.cons_append]

theorem row_last (h : Readable e) : ∀ c, (e.row pad).getLast? = some c →
    Text.isWhitespace c = false := by
  intro c hlast
  refine h.shown.last c ?_
  rwa [DirEntry.row, List.getLast?_append_of_ne_nil _ h.shown.ne_nil] at hlast

theorem row_trimmed (h : Readable e) :
    Text.trim (Text.trimEndMatches '\r' (e.row pad)) = e.row pad := by
  refine Text.trim_trimEndMatches_iff.mpr ⟨Text.trim_eq_self (fun _ => ?_) (fun hne => ?_),
    fun hlast => ?_⟩
  · have hletter : Text.isWhitespace e.kind.letter = false := by cases e.kind <;> rfl
    exact hletter
  · exact row_last h _ (List.getLast?_eq_some_getLast hne)
  · cases row_last h _ hlast

theorem row_no_newline (h : Readable e) : '\n' ∉ e.row pad := by
  intro hmem
  rcases List.mem_append.mp hmem with hmem | hmem
  · obtain ⟨w, hw, hmem⟩ := List.mem_flatMap.mp hmem
    rcases List.mem_append.mp hmem with hmem | hmem
    · have hblank := (word_columns e w.1 (List.fst_mem_of_mem_zipIdx hw)).2 '\n' hmem
      cases hblank
    · rcases List.mem_append.mp hmem with hmem | hmem
      · cases List.eq_of_mem_replicate hmem
      · cases List.mem_singleton.mp hmem
  · exact h.shown.no_newline hmem

/-- **A readable row is read**, its name and its target as they are. -/
theorem parseLsLong_row (h : Readable e) : parseLsLong (e.row pad) = some e.read := by
  have hblank : ¬ (e.row pad = [] ∨ Text.startsWith "total ".toList (e.row pad) = true) := by
    have hstart : Text.startsWith "total ".toList (e.row pad) = false := by
      unfold DirEntry.row DirEntry.columns
      cases e.kind <;> rfl
    rw [hstart]
    rintro (hnil | hfalse)
    · cases hnil
    · cases hfalse
  obtain ⟨w, ws, hws⟩ := List.exists_cons_of_ne_nil h.shown.words_ne_nil
  have hjoin : Text.join ' ' (w :: ws) = e.shown := hws ▸ Text.join_words h.shown
  have hname : nameAndTarget (decide (e.kind.letter = 'l')) e.shown =
      (e.name, e.kind.target) := by
    unfold DirEntry.shown
    cases hkind : e.kind with
    | link target =>
        have harrow := (h.target target (congrArg EntryKind.target hkind)).2
        simp [nameAndTarget, EntryKind.letter, EntryKind.target, splitOnce_arrow harrow]
    | _ => rfl
  unfold parseLsLong
  dsimp only
  rw [row_trimmed h, if_neg hblank, words_row, hws]
  unfold DirEntry.columns DirEntry.read
  unfold EntryKind.major
  cases hdevice : e.kind.device with
  | none =>
      have hend : (Text.decimal e.size).getLast? ≠ some ',' := fun hlast =>
        decimal_no_comma _ (List.mem_of_getLast? hlast)
      have hsize : Text.parseI64 (Text.trimEndMatches ',' (Text.decimal e.size)) =
          .ok (e.size : Int) := by
        rw [Text.trimEndMatches_of_not_mem (decimal_no_comma _), Text.parseI64_decimal,
          if_pos e.sized]
      simp [nameFrom, hend, hsize, hjoin, hname, e.named.1]
  | some d =>
      have hsize : Text.parseI64 (Text.trimEndMatches ',' (Text.decimal d.1.toNat ++ [','])) =
          .ok (d.1.toNat : Int) := by
        rw [Text.trimEndMatches_concat, Text.trimEndMatches_of_not_mem (decimal_no_comma _),
          Text.parseI64_decimal, if_pos (Nat.lt_trans d.1.toNat_lt (by decide))]
      have hnone : e.size = 0 := e.deviceSize (hdevice ▸ rfl)
      simp [nameFrom, hsize, hjoin, hname, e.named.1, hnone]

/-! ### The listing -/

variable {rows : List (DirEntry × (Nat → Nat))}

theorem lines_rows (h : ∀ r ∈ rows, Readable r.1) :
    Text.lines (rows.flatMap fun r => line (r.1.row r.2)) = rows.map fun r => r.1.row r.2 := by
  induction rows with
  | nil => rfl
  | cons r rows ih =>
      obtain ⟨hr, hrows⟩ := List.forall_mem_cons.mp h
      have hchomp : Text.chomp (r.1.row r.2).reverse = r.1.row r.2 :=
        Text.chomp_reverse fun hlast => by cases row_last hr _ hlast
      rw [List.flatMap_cons, line, List.append_assoc, List.singleton_append,
        Text.lines_append _ (row_no_newline hr), hchomp, ih hrows, List.map_cons]

theorem total_last (n : Nat) : ∀ c, ("total ".toList ++ Text.decimal n).getLast? = some c →
    Text.isWhitespace c = false := by
  intro c hc
  rw [List.getLast?_append_of_ne_nil _ (Text.decimal_ne_nil n)] at hc
  exact (word_decimal n).2 c (List.mem_of_getLast? hc)

/-- The first line is of no entry. -/
theorem parseLsLong_total (n : Nat) : parseLsLong ("total ".toList ++ Text.decimal n) = none := by
  have htrim : Text.trim (Text.trimEndMatches '\r' ("total ".toList ++ Text.decimal n)) =
      "total ".toList ++ Text.decimal n := by
    refine Text.trim_trimEndMatches_iff.mpr ⟨Text.trim_eq_self (fun _ => rfl) fun hne => ?_,
      fun hr => ?_⟩
    · exact total_last n _ (List.getLast?_eq_some_getLast hne)
    · cases total_last n _ hr
  unfold parseLsLong
  dsimp only
  rw [htrim, if_pos (.inr rfl)]

/-- The entries that are read of what the command prints, with the dots left out. -/
def entriesOf (blocks : Nat) (rows : List (DirEntry × (Nat → Nat))) : List FileEntry :=
  ((Text.lines (outputOf blocks rows).stdout).filterMap parseLsLong).filter fun entry =>
    entry.name ≠ ['.'] && entry.name ≠ ['.', '.']

theorem entriesOf_readable (blocks : Nat) (h : ∀ r ∈ rows, Readable r.1) :
    entriesOf blocks rows = rows.map fun r => r.1.read := by
  have hline : '\n' ∉ "total ".toList ++ Text.decimal blocks := fun hmem => by
    rcases List.mem_append.mp hmem with hmem | hmem
    · exact absurd hmem (by decide)
    · cases (word_decimal blocks).2 _ hmem
  have hchomp : Text.chomp ("total ".toList ++ Text.decimal blocks).reverse =
      "total ".toList ++ Text.decimal blocks :=
    Text.chomp_reverse fun hlast => by cases total_last blocks _ hlast
  have hread : ∀ r ∈ rows, parseLsLong (r.1.row r.2) = some r.1.read := fun r hr =>
    parseLsLong_row (h r hr)
  have hlines : Text.lines (outputOf blocks rows).stdout =
      ("total ".toList ++ Text.decimal blocks) :: rows.map fun r => r.1.row r.2 := by
    rw [outputOf, line, List.append_assoc, List.singleton_append, Text.lines_append _ hline,
      hchomp, lines_rows h]
  have hentries : (rows.map fun r => r.1.row r.2).filterMap parseLsLong =
      rows.map fun r => r.1.read := by
    rw [List.filterMap_map, List.filterMap_eq_map_iff_forall_eq_some]
    intro r hr
    rw [Function.comp_apply, hread r hr]
  have hfirst := parseLsLong_total blocks
  rw [entriesOf, hlines]
  generalize "total ".toList ++ Text.decimal blocks = first at hfirst
  rw [List.filterMap_cons_none hfirst, hentries, List.filter_eq_self]
  intro entry hentry
  obtain ⟨r, -, rfl⟩ := List.mem_map.mp hentry
  simp [DirEntry.read, r.1.named]

/-- What the leg lists of a directory. -/
theorem listFilesRooted_outputOf (path : List Char) (blocks : Nat) :
    listFilesRooted path (outputOf blocks rows) = .ok
      ((entriesOf blocks rows).mergeSort fun a b => ApkBundle.nameLe a.name b.name) := by
  have hfirst : ∀ c s, Text.trim (outputOf blocks rows).stdout = c :: s → c = 't' := by
    intro c s heq
    have hprefix : Text.trim (outputOf blocks rows).stdout <+: (outputOf blocks rows).stdout :=
      Text.trimEnd_isPrefix _
    rw [heq] at hprefix
    exact (List.cons_prefix_cons.mp hprefix).1
  have hdir : Text.trim (outputOf blocks rows).stdout ≠ "@NOTDIR".toList := fun heq =>
    absurd (hfirst _ _ heq) (by decide)
  have hentry : Text.trim (outputOf blocks rows).stdout ≠ "@NOENT".toList := fun heq =>
    absurd (hfirst _ _ heq) (by decide)
  have hread : fsReadRooted (outputOf blocks rows) = .ok (outputOf blocks rows).stdout := if_pos rfl
  unfold listFilesRooted
  rw [hread]
  dsimp only
  rw [if_neg hdir, if_neg hentry]
  rfl

/-- **When every entry of a directory is listed as it is.** -/
theorem listsFaithfully_iff (path : List Char) (blocks : Nat)
    (rows : List (DirEntry × (Nat → Nat))) :
    ListsFaithfully path blocks rows ↔ ∀ r ∈ rows, Tidy r.1 := by
  unfold ListsFaithfully
  rw [listFilesRooted_outputOf]
  constructor
  · rintro ⟨entries, hlisted, hperm⟩
    cases hlisted
    have hreadable : ∀ r ∈ rows, Readable r.1 := fun r hr => by
      have hmem := hperm.mem_iff.mpr (List.mem_map_of_mem hr)
      obtain ⟨hname, htarget⟩ := listed_sound (listFilesRooted_outputOf path blocks) hmem
      exact ⟨hname, htarget⟩
    -- the sizes come to as much with the major numbers as without
    rw [entriesOf_readable blocks hreadable] at hperm
    have hsizes := (((List.mergeSort_perm _ _).symm.trans hperm).map fun entry =>
      entry.size.toNat).sum_eq
    simp only [List.map_map, Function.comp_def, DirEntry.read, DirEntry.expected,
      Int.toNat_natCast, List.sum_map_add] at hsizes
    have hmajors := List.sum_eq_zero_iff.mp (Nat.add_eq_left.mp hsizes)
    exact fun r hr => ⟨hreadable r hr, hmajors _ (List.mem_map_of_mem hr)⟩
  · intro h
    refine ⟨_, rfl, (List.mergeSort_perm _ _).trans ?_⟩
    rw [entriesOf_readable blocks fun r hr => (h r hr).toReadable]
    refine .of_eq (List.map_congr_left fun r hr => ?_)
    rw [DirEntry.read, (h r hr).major]
    rfl

/-- A file whose name has two spaces in a row. -/
def spacedFile : DirEntry where
  name := "a  b".toList
  kind := .file
  size := 5
  bits := "rw-r--r--".toList
  links := ['1']
  user := "root".toList
  group := "root".toList
  date := "2024-01-01".toList
  time := "08:00".toList
  named := by decide
  sized := by decide
  deviceSize := by decide
  words := by decide

/-- It is listed under another name. -/
theorem listsFaithfully_spaces :
    ¬ ListsFaithfully "/sdcard".toList 8 [(spacedFile, fun _ => 0)] := by
  rintro ⟨entries, hlisted, hperm⟩
  have hmem : spacedFile.expected ∈ entries := hperm.mem_iff.mpr List.mem_cons_self
  have hspaced : Text.Spaced true (['a'] ++ ' ' :: ' ' :: ['b']) := (listed_sound hlisted hmem).1
  obtain ⟨-, hrest⟩ := (Text.spaced_append_space _ _).mp hspaced
  rw [Text.Spaced, if_pos (show Text.isWhitespace ' ' = true from rfl)] at hrest
  cases hrest.2.1

end RootListing

end RevBox
