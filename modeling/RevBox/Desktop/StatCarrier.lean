import RevBox.Desktop.FilePreview
import RevBox.Support.Trim

/-!
# Desktop — StatCarrier

What `stat_rooted` carries over of a path, for whatever may be there: `parse_rooted_stat` and
`fs_probe` of `services/device_service.rs`, on the lines that the composed command prints.

* `carries_iff`: when the facts come over as they are, and what is not there is told.
-/

namespace RevBox

open RootShell FsRooted FilePreview

namespace StatCarrier

/-! ### The code -/

/-- `file_stat_rooted`, on what the composed command says. -/
def fileStatOf (path : List Char) (out : AdbRunOutput) : Except CoreError StatResult :=
  match statOf path out with
  | .error e => .error e
  | .ok stat => .ok
      { requestedPath := path
        path := stat.resolvedPath.getD path
        stat :=
          { kind := stat.fields.kind
            mode := stat.fields.mode
            modeText := renderModeText stat.fields.kind stat.fields.mode
            uid := stat.fields.uid
            gid := stat.fields.gid
            size := stat.fields.size
            mtimeUnix := stat.fields.mtimeUnix
            symlinkTarget := stat.symlinkTarget
            readable := stat.readable } }

/-- `fs_probe` on the root leg, on what the composed command says. -/
def probeOf (path : List Char) (out : AdbRunOutput) : Except CoreError (Option StatResult) :=
  match fileStatOf path out with
  | .ok result => .ok (some result)
  | .error e => if e.code = "NOT_FOUND" then .ok none else .error e

/-! ### What is at a path -/

/-- What is at a path that is not followed. -/
structure Held where
  kind : FileKind
  attr : Attr
  readable : Bool
  /-- the text of a link -/
  target : Option (List Char)
  /-- what `readlink -f` prints, or else `echo` -/
  real : List Char
  /-- `stat` has a name for the kind -/
  known : kind ≠ .other

/-- `%F`. -/
def kindWords (kind : FileKind) (size : UInt64) : List Char :=
  match kind with
  | .dir => "directory".toList
  | .file => if size = 0 then "regular empty file".toList else "regular file".toList
  | .symlink => "symbolic link".toList
  | .socket => "socket".toList
  | .fifo => "FIFO (named pipe)".toList
  | .block => "block device".toList
  | .char => "character device".toList
  | .other => []

/-- The lines behind that of `stat`. -/
def markLines (readable : Bool) (target : Option (List Char)) (real : List Char) : List Char :=
  line (if readable then "@R".toList else "@N".toList) ++
    ((match target with
      | some target => line "@L".toList ++ line target
      | none => []) ++ (line "@P".toList ++ line real))

/-- The output of the composed command, whose last command succeeds. -/
def Held.output (h : Held) : AdbRunOutput where
  exitCode := some 0
  stdout := line (statText h.attr (kindWords h.kind h.attr.size)) ++
    markLines h.readable h.target h.real
  stderr := []

/-- What may be at a path. -/
inductive PathState where
  /-- nothing; what is printed last is the path, resolved as far as it can be -/
  | missing (real : List Char) (stderr : List Char)
  | held (h : Held)

/-- The output of the composed command. -/
def PathState.output : PathState → AdbRunOutput
  | .missing real stderr => ⟨some 0, markLines false none real, stderr⟩
  | .held h => h.output

/-- The facts are those of what is at the path. -/
structure Facts (h : Held) (stat : RootedStat) : Prop where
  kind : stat.fields.kind = h.kind
  mode : stat.fields.mode = h.attr.perm.toNat
  size : stat.fields.size = h.attr.size.toNat
  uid : stat.fields.uid = h.attr.uid.toNat
  gid : stat.fields.gid = h.attr.gid.toNat
  mtime : (stat.fields.mtimeUnix : Int) = h.attr.mtime.toInt
  readable : stat.readable = h.readable
  target : stat.symlinkTarget = h.target
  real : stat.resolvedPath = some h.real

/-- The facts come over, and the probe says of a path that nothing is there exactly if so. -/
def Carries (path : List Char) : PathState → Prop
  | .missing real stderr => probeOf path (PathState.missing real stderr).output = .ok none
  | .held h => (∃ stat, parseRootedStat h.output.stdout = some stat ∧ Facts h stat) ∧
      probeOf path h.output ≠ .ok none

/-- A text that a line can carry: it is one line without blanks around it, and it does not begin
as a mark does. -/
structure Lone (value : List Char) : Prop where
  nonempty : value ≠ []
  oneLine : '\n' ∉ value
  trimmed : Text.trim value = value
  unmarked : value.head? ≠ some '@'

/-- **Something is there**, its clock does not stand before 1970, and the lines can carry its
texts. -/
def Carriable : PathState → Prop
  | .missing _ _ => False
  | .held h => 0 ≤ h.attr.mtime.toInt ∧ Lone h.real ∧ ∀ target ∈ h.target, Lone target

/-! ### The line of `stat` -/

variable {h : Held} {m : Marks} {value : List Char} {ls : List (List Char)}

theorem spelled_kindWords {kind : FileKind} (size : UInt64) (hkind : kind ≠ .other) :
    Spelled (kindWords kind size) := by
  cases kind with
  | file =>
      by_cases hs : size = 0
      · have hwords : kindWords .file size = "regular empty file".toList := if_pos hs
        exact hwords ▸ ⟨by decide, "regular empty fil".toList, 'e', by decide, by decide⟩
      · have hwords : kindWords .file size = "regular file".toList := if_neg hs
        exact hwords ▸ ⟨by decide, "regular fil".toList, 'e', by decide, by decide⟩
  | other => exact absurd rfl hkind
  | dir =>
      exact (⟨by decide, "director".toList, 'y', by decide, by decide⟩ :
        Spelled "directory".toList)
  | symlink =>
      exact (⟨by decide, "symbolic lin".toList, 'k', by decide, by decide⟩ :
        Spelled "symbolic link".toList)
  | socket =>
      exact (⟨by decide, "socke".toList, 't', by decide, by decide⟩ :
        Spelled "socket".toList)
  | fifo =>
      exact (⟨by decide, "FIFO (named pipe".toList, ')', by decide, by decide⟩ :
        Spelled "FIFO (named pipe)".toList)
  | block =>
      exact (⟨by decide, "block devic".toList, 'e', by decide, by decide⟩ :
        Spelled "block device".toList)
  | char =>
      exact (⟨by decide, "character devic".toList, 'e', by decide, by decide⟩ :
        Spelled "character device".toList)

/-- The kind is told by the text alone. -/
theorem kind_eq {f : StatFields} {text : List Char} (hf : f.kindText = text) :
    f.kind = StatFields.kind ⟨0, 0, 0, 0, 0, text⟩ := by
  rw [StatFields.kind, StatFields.kind, hf]

theorem kind_kindWords {kind : FileKind} {size : UInt64} (hkind : kind ≠ .other) {f : StatFields}
    (hf : f.kindText = kindWords kind size) : f.kind = kind := by
  cases kind with
  | file =>
      by_cases hs : size = 0
      · have hwords : f.kindText = "regular empty file".toList := hf.trans (if_pos hs)
        exact (kind_eq hwords).trans (by decide)
      · have hwords : f.kindText = "regular file".toList := hf.trans (if_neg hs)
        exact (kind_eq hwords).trans (by decide)
  | other => exact absurd rfl hkind
  | dir => exact (kind_eq (show f.kindText = "directory".toList from hf)).trans (by decide)
  | symlink => exact (kind_eq (show f.kindText = "symbolic link".toList from hf)).trans (by decide)
  | socket => exact (kind_eq (show f.kindText = "socket".toList from hf)).trans (by decide)
  | fifo => exact (kind_eq (show f.kindText = "FIFO (named pipe)".toList from hf)).trans (by decide)
  | block => exact (kind_eq (show f.kindText = "block device".toList from hf)).trans (by decide)
  | char => exact (kind_eq (show f.kindText = "character device".toList from hf)).trans (by decide)

/-- The output is parsed by its first line and its marks. -/
theorem parseRootedStat_lines {l : List Char} (hn : '\n' ∉ l) (hr : '\r' ∉ l) (rest : List Char) :
    parseRootedStat (line l ++ rest) = (parseStatFields l).map fun fields =>
      let m := ((Text.lines rest).map (Text.trimEndMatches '\r')).foldl Marks.read {}
      { fields
        readable := m.readable
        symlinkTarget := m.symlinkTarget.filter fun value => value ≠ []
        resolvedPath := m.resolvedPath.filter fun value => value ≠ [] } := by
  have hlines : Text.lines (line l ++ rest) = l :: Text.lines rest := by
    have hrev : '\r' ∉ l.reverse := fun h => hr (List.mem_reverse.mp h)
    rw [line, List.append_assoc, List.cons_append, List.nil_append, Text.lines_append rest hn,
      Text.chomp_of_not_mem hrev, List.reverse_reverse]
  unfold parseRootedStat
  simp only [hlines, List.map_cons, Text.trimEndMatches_of_not_mem hr]

/-! ### The marks -/

/-- A text that has been trimmed of a line, and is no mark. -/
structure Taken (value : List Char) : Prop where
  oneLine : '\n' ∉ value
  trimmed : Text.trim value = value
  unmarked : value.head? ≠ some '@'

/-- The texts that the marks hold have been lines. -/
structure Sound (m : Marks) : Prop where
  target : ∀ value ∈ m.symlinkTarget, Taken value
  real : ∀ value ∈ m.resolvedPath, Taken value

theorem Sound.read (hm : Sound m) {l : List Char} (hl : '\n' ∉ l) : Sound (m.read l) := by
  unfold Marks.read
  dsimp only
  split_ifs with hmark
  · exact ⟨hm.target, hm.real⟩
  · exact ⟨hm.target, hm.real⟩
  · exact ⟨hm.target, hm.real⟩
  · exact ⟨hm.target, hm.real⟩
  · exact ⟨hm.target, hm.real⟩
  all_goals
    have htaken : Taken (Text.trim l) :=
      ⟨fun hn => hl (Text.trim_subset l hn), Text.trim_trim l, hmark⟩
  · exact ⟨fun value hv => Option.mem_some.mp hv ▸ htaken, hm.real⟩
  · exact ⟨hm.target, fun value hv => Option.mem_some.mp hv ▸ htaken⟩
  · exact ⟨hm.target, hm.real⟩

/-- **What the marks hold has been a line**, whatever is printed. -/
theorem sound_lines (rest : List Char) :
    Sound (((Text.lines rest).map (Text.trimEndMatches '\r')).foldl Marks.read {}) := by
  refine List.foldlRecOn _ _ ⟨nofun, nofun⟩ fun m hm l hl => hm.read ?_
  obtain ⟨l', hl', rfl⟩ := List.mem_map.mp hl
  have hpart := Text.trimEndMatches_isPrefix '\r' l'
  exact fun hn => Text.lines_no_newline rest l' hl' (hpart.subset hn)

theorem Taken.lone (hv : Taken value) (hne : value ≠ []) : Lone value :=
  ⟨hne, hv.oneLine, hv.trimmed, hv.unmarked⟩

/-! ### Lines that are carried -/

theorem Lone.last (hv : Lone value) : value.getLast? ≠ some '\r' := fun hlast =>
  absurd (Text.last_of_trim hv.trimmed '\r' hlast) (by decide)

theorem Lone.lines (hv : Lone value) (rest : List Char) :
    Text.lines (line value ++ rest) = value :: Text.lines rest := by
  rw [line, List.append_assoc, List.singleton_append, Text.lines_append rest hv.oneLine,
    Text.chomp_reverse hv.last]

theorem Lone.trimEndMatches (hv : Lone value) : Text.trimEndMatches '\r' value = value :=
  Text.trimEndMatches_eq_self_iff.mpr hv.last

theorem Lone.read_target (hv : Lone value) (hm : m.pending = some 'L' ∧ m.symlinkTarget = none) :
    m.read value = { m with symlinkTarget := some value, pending := none } := by
  unfold Marks.read
  rw [hv.trimmed]
  exact (if_neg hv.unmarked).trans (if_pos hm)

theorem Lone.read_real (hv : Lone value) (hm : m.pending = some 'P') :
    m.read value = { m with resolvedPath := some value, pending := none } := by
  unfold Marks.read
  rw [hv.trimmed]
  have hnot : ¬ (m.pending = some 'L' ∧ m.symlinkTarget = none) := fun hboth => by
    rw [hm] at hboth
    exact absurd hboth.1 (by decide)
  exact (if_neg hv.unmarked).trans ((if_neg hnot).trans (if_pos hm))

/-- A mark is a line of its own. -/
theorem lines_mark {mark : List Char} (hn : '\n' ∉ mark) (hr : '\r' ∉ mark) (rest : List Char) :
    Text.lines (line mark ++ rest) = mark :: Text.lines rest := by
  have hrev : '\r' ∉ mark.reverse := fun h => hr (List.mem_reverse.mp h)
  rw [line, List.append_assoc, List.singleton_append, Text.lines_append rest hn,
    Text.chomp_of_not_mem hrev, List.reverse_reverse]

/-- **The marks hold the texts** that the lines can carry. -/
theorem marks_read {real : List Char} {target : Option (List Char)} (readable : Bool)
    (hreal : Lone real) (htarget : ∀ value ∈ target, Lone value) :
    ((Text.lines (markLines readable target real)).map (Text.trimEndMatches '\r')).foldl
      Marks.read {} = ⟨readable, target, some real, none⟩ := by
  have hflag (rest : List Char) :
      Text.lines (line (if readable then "@R".toList else "@N".toList) ++ rest) =
        (if readable then "@R".toList else "@N".toList) :: Text.lines rest := by
    cases readable
    · exact lines_mark (by decide) (by decide) rest
    · exact lines_mark (by decide) (by decide) rest
  have hread : Marks.read {} (Text.trimEndMatches '\r'
      (if readable then "@R".toList else "@N".toList)) = ⟨readable, none, none, none⟩ := by
    cases readable <;> rfl
  have hend : Text.lines (line "@P".toList ++ line real) = ["@P".toList, real] := by
    rw [lines_mark (by decide) (by decide), ← List.append_nil (line real), hreal.lines]
    rfl
  unfold markLines
  rw [hflag, List.map_cons, List.foldl_cons, hread]
  cases target with
  | none =>
      dsimp only
      rw [List.nil_append, hend, List.map_cons, List.map_cons, List.map_nil, hreal.trimEndMatches,
        List.foldl_cons, List.foldl_cons, List.foldl_nil]
      exact hreal.read_real rfl
  | some target =>
      have ht := htarget target rfl
      dsimp only
      rw [List.append_assoc, lines_mark (by decide) (by decide), ht.lines, hend]
      simp only [List.map_cons, List.map_nil, List.foldl_cons, List.foldl_nil, ht.trimEndMatches,
        hreal.trimEndMatches]
      have hL : Marks.read ⟨readable, none, none, none⟩ (Text.trimEndMatches '\r' "@L".toList) =
          ⟨readable, none, none, some 'L'⟩ := rfl
      rw [hL, ht.read_target ⟨rfl, rfl⟩]
      exact hreal.read_real rfl

/-! ### What is carried -/

/-- What is parsed of something that is there. -/
theorem parseRootedStat_held (h : Held) : parseRootedStat h.output.stdout =
    if 0 ≤ h.attr.mtime.toInt then
      let m := ((Text.lines (markLines h.readable h.target h.real)).map
        (Text.trimEndMatches '\r')).foldl Marks.read {}
      some
        { fields := fieldsFrom h.attr (kindWords h.kind h.attr.size)
          readable := m.readable
          symlinkTarget := m.symlinkTarget.filter fun value => value ≠ []
          resolvedPath := m.resolvedPath.filter fun value => value ≠ [] }
    else none := by
  have hspelled := spelled_kindWords h.attr.size h.known
  obtain ⟨hn, hr⟩ := statText_one_line h.attr hspelled
  have hout : h.output.stdout = line (statText h.attr (kindWords h.kind h.attr.size)) ++
      markLines h.readable h.target h.real := rfl
  rw [hout, parseRootedStat_lines hn hr, parseStatFields_statText h.attr hspelled]
  split_ifs <;> rfl

/-- **Of what is there, the facts come over exactly if the lines can carry them.** -/
theorem facts_iff (h : Held) :
    (∃ stat, parseRootedStat h.output.stdout = some stat ∧ Facts h stat) ↔
      0 ≤ h.attr.mtime.toInt ∧ Lone h.real ∧ ∀ target ∈ h.target, Lone target := by
  have hsound := sound_lines (markLines h.readable h.target h.real)
  rw [parseRootedStat_held]
  constructor
  · rintro ⟨stat, hstat, hfacts⟩
    split_ifs at hstat with hm
    cases hstat
    refine ⟨hm, ?_, fun target ht => ?_⟩
    · obtain ⟨hreal, hne⟩ := Option.filter_eq_some_iff.mp hfacts.real
      exact (hsound.real _ hreal).lone (of_decide_eq_true hne)
    · obtain ⟨htarget, hne⟩ := Option.filter_eq_some_iff.mp (hfacts.target.trans ht)
      exact (hsound.target _ htarget).lone (of_decide_eq_true hne)
  · rintro ⟨hm, hreal, htarget⟩
    rw [if_pos hm, marks_read h.readable hreal htarget]
    refine ⟨_, rfl, ?_⟩
    have hmtime : (h.attr.mtime.toInt.natAbs : Int) = h.attr.mtime.toInt :=
      Int.natAbs_of_nonneg hm
    have htaken : h.target.filter (fun value => decide (value ≠ [])) = h.target := by
      cases ht : h.target with
      | none => rfl
      | some target => exact if_pos (decide_eq_true (htarget target ht).nonempty)
    exact ⟨kind_kindWords h.known rfl, rfl, rfl, rfl, rfl, hmtime, rfl, htaken,
      if_pos (decide_eq_true hreal.nonempty)⟩

/-- **Nothing is told of a path where nothing is**: the command succeeds, and what it prints
first is no line of `stat`. -/
theorem probeOf_missing (path real stderr : List Char) :
    probeOf path (PathState.missing real stderr).output ≠ .ok none := by
  have hout : (PathState.missing real stderr).output.stdout =
      line "@N".toList ++ (line "@P".toList ++ line real) := rfl
  have hnone : parseRootedStat (PathState.missing real stderr).output.stdout = none := by
    rw [hout, parseRootedStat_lines (by decide) (by decide)]
    rfl
  have hcode : (PathState.missing real stderr).output.exitCode = some 0 := rfl
  simp only [probeOf, fileStatOf, statOf, fsReadRooted, hcode, if_true, hnone]
  rw [if_neg]
  · intro h
    cases h
  · rw [CoreError.code]
    decide

theorem probeOf_held (path : List Char) (h : Held) : probeOf path h.output ≠ .ok none := by
  have hcode : h.output.exitCode = some 0 := rfl
  unfold probeOf fileStatOf statOf
  simp only [fsReadRooted, hcode, if_true]
  cases parseRootedStat h.output.stdout with
  | some stat =>
      intro h
      cases h
  | none =>
      dsimp only
      rw [if_neg]
      · intro h
        cases h
      · rw [CoreError.code]
        decide

/-- **The facts of a path come over exactly if something is there and the lines can carry it.** -/
theorem carries_iff (path : List Char) (state : PathState) :
    Carries path state ↔ Carriable state := by
  cases state with
  | missing real stderr => exact iff_of_false (probeOf_missing path real stderr) not_false
  | held h => exact (and_iff_left (probeOf_held path h)).trans (facts_iff h)

/-- **A path where nothing is** is answered with an error. -/
theorem carries_missing : ¬ ∀ (path : List Char) (state : PathState), Carries path state :=
  fun h => probeOf_missing _ _ _ (h "/sdcard/x".toList (.missing "/sdcard/x".toList []))

end StatCarrier

end RevBox
