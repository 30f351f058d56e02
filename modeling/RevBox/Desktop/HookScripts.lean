import RevBox.Desktop.CoreError
import RevBox.Support.FileContents
import RevBox.Support.Machine
import RevBox.Support.Text
import RevBox.Support.Utf8
import Mathlib.Data.List.Sort

/-!
# Desktop — HookScripts

The scripts in the working directory of `HookService` (`services/hook_service.rs`): what is listed,
read, written and deleted by name.  Saving opens the file, which empties it, and then writes.

* `writeScript_cases`, `resolveScript_ok_iff`: what each request does, in any tree.
* `workspace_safe_iff`: over any run of requests, each keeps to what is promised exactly when no
  saving over a script stops where what is written is not what was there.
-/

namespace RevBox.HookScripts

open FileTree Text

/-- `MAX_SCRIPT_BYTES`. -/
def maxScriptBytes : Nat := 4 * 1024 * 1024

/-- `JS_LIST_CAP`. -/
def jsListCap : Nat := 500

/-! ### The files -/

/-- What a file holds, and when it was last changed, in seconds. -/
structure Stored where
  bytes : List UInt8
  modified : Int
  deriving DecidableEq

abbrev Files := FileTree.Tree Stored

/-- An error of the system's. -/
inductive IoError where
  | os (e : Errno)
  | invalidUtf8
  | writeFault

/-- `Path::display`. -/
def display (p : Path) : String := "/" ++ "/".intercalate (p.map String.ofList)

/-- `Path::parent`. -/
def parent (p : Path) : Option Path := if p = [] then none else some p.dropLast

/-- What comes of a write: it is done, it stops after some bytes, or the file is not opened. -/
inductive Fate where
  | done
  | after (k : Nat)
  | refused

/-- `fs::write`: the file is opened, and emptied, before it is written. -/
def fsWrite (t : Files) (path : Path) (bytes : List UInt8) (now : Int) :
    Fate → Except IoError Unit × Files
  | .refused => (.error .writeFault, t)
  | .done =>
      match t.store path ⟨bytes, now⟩ with
      | .error e => (.error (.os e), t)
      | .ok t => (.ok (), t)
  | .after k =>
      match t.store path ⟨bytes.take k, now⟩ with
      | .error e => (.error (.os e), t)
      | .ok t => (.error .writeFault, t)

/-! ### The names -/

/-- `is_safe_hosted_name`. -/
def isSafeHostedName (name : List Char) : Bool :=
  name ≠ [] && !startsWith ['.'] name &&
    name.all fun c => isAsciiAlphanumeric c || ['_', '.', '-'].contains c

/-- `is_safe_js_script_name`. -/
def isSafeJsScriptName (name : List Char) : Bool :=
  isSafeHostedName name && !startsWith ['-'] name && ".js".toList.isSuffixOf name &&
    3 < (Utf8.encode name).length

/-! ### The requests -/

section Code

variable (say : IoError → String)

def badName (name : List Char) : CoreError :=
  .invalidInput s!"脚本文件名非法（仅字母数字与 _.-、不以 . 或 - 开头、.js 结尾）：{String.ofList name}"

def noScript (path : Path) : CoreError := .invalidInput s!"脚本不存在: {display path}"

def notOrdinary : CoreError :=
  .invalidInput "脚本必须是所选工作目录下的普通 .js 文件（符号链接已拒绝）"

/-- `resolve_script_path_in`. -/
def resolveScriptPathIn (t : Files) (workdirAbs : Path) (name : List Char) :
    Except CoreError Path :=
  let name := trim name
  if !isSafeJsScriptName name then .error (badName name)
  else
    let path := workdirAbs ++ [name]
    match t.lstat path with
    | .error _ => .error (noScript path)
    | .ok entry =>
        if entry.node.isLink then .error notOrdinary
        else
          match t.resolve path with
          | .error _ => .error (noScript path)
          | .ok path =>
              if parent path ≠ some workdirAbs ∨ !t.isFile path then .error notOrdinary
              else .ok path

/-- `read_script_in`. -/
def readScriptIn (t : Files) (workdirAbs : Path) (name : List Char) :
    Except CoreError (List Char) :=
  match resolveScriptPathIn t workdirAbs name with
  | .error e => .error e
  | .ok path =>
      match t.stat path with
      | .error e => .error (.invalidInput s!"读不到脚本 {display path}: {say (.os e)}")
      | .ok entry =>
          let len := entry.attr.bytes.length
          if maxScriptBytes < len then
            .error (.invalidInput
              s!"脚本有 {len} 字节，超过单次读取上限 {maxScriptBytes} 字节（这不像 hook 脚本，读不了）")
          else
            match Utf8.fromUtf8 entry.attr.bytes with
            | some text => .ok text
            | none => .error (.internal s!"读取 {display path} 失败：{say .invalidUtf8}")

/-- The end of `write_script_in`: what was written is looked at. -/
def confirmWritten (path : Path) (len : Nat) :
    Except IoError Unit × Files → Except CoreError Nat × Files
  | (.error e, t) => (.error (.internal s!"写入 {display path} 失败：{say e}"), t)
  | (.ok _, t) =>
      match t.stat path with
      | .error e =>
          (.error (.internal
            s!"写完读不回来，不能确认文件真的在（{display path}）：{say (.os e)}"), t)
      | .ok entry =>
          let written := entry.attr.bytes.length
          if written ≠ len then
            (.error (.internal
              s!"文件大小对不上：界面交给我的是 {len} 字节，磁盘上是 {written} 字节"), t)
          else (.ok written, t)

/-- `write_script_in`. -/
def writeScriptIn (t : Files) (workdirAbs : Path) (name content : List Char) (createOnly : Bool)
    (now : Int) (fate : Fate) : Except CoreError Nat × Files :=
  let bytes := Utf8.encode content
  if maxScriptBytes < bytes.length then
    (.error (.invalidInput
      s!"内容 {bytes.length} 字节，超过单次写入上限 {maxScriptBytes} 字节；hook 脚本不该这么大"), t)
  else
    let name := trim name
    if !isSafeJsScriptName name then (.error (badName name), t)
    else
      let path := workdirAbs ++ [name]
      match t.lstat path with
      | .ok entry =>
          if entry.node.isLink then
            (.error (.invalidInput "目标是符号链接，拒绝写入（工作目录里只写普通文件）"), t)
          else if createOnly then
            (.error (.invalidInput
              s!"已经有一个叫 {String.ofList name} 的脚本了；换个名字，别把它盖了"), t)
          else confirmWritten say path bytes.length (fsWrite t path bytes now fate)
      | .error _ => confirmWritten say path bytes.length (fsWrite t path bytes now fate)

/-- `delete_script_in`. -/
def deleteScriptIn (t : Files) (workdirAbs : Path) (name : List Char) :
    Except CoreError Unit × Files :=
  match resolveScriptPathIn t workdirAbs name with
  | .error e => (.error e, t)
  | .ok path =>
      match t.unlink path with
      | .error e => (.error (.internal s!"删除 {display path} 失败：{say (.os e)}"), t)
      | .ok t => (.ok (), t)

/-- `JsFileDto`. -/
structure JsFileDto where
  name : List Char
  path : List Char
  size : Nat
  mtime : Nat

/-- The components of a path that is configured. -/
def components (dir : List Char) : List Name := dir.splitOn '/'

/-- `canonicalize` of a path that is configured; an empty one leads nowhere. -/
def canonicalize (t : Files) (dir : List Char) : Except Errno Path :=
  if dir = [] then .error .enoent else t.resolve (components dir)

/-- `Path::join`, with a name. -/
def joined (dir name : List Char) : List Char :=
  if dir.getLast? = some '/' then dir ++ name else dir ++ '/' :: name

/-- What is listed of an entry. -/
def listed (t : Files) (dir : List Char) (at_ : Path) (name : Name) : Option JsFileDto :=
  match t.get (at_ ++ [name]) with
  | none => none
  | some entry =>
      if entry.node ≠ .file then none
      else if !isSafeJsScriptName name then none
      else some ⟨name, joined dir name, entry.attr.bytes.length, entry.attr.modified.toNat⟩

/-- `scan_js_dir`. -/
def scanJsDir (t : Files) (dir : List Char) : Except CoreError (List JsFileDto) :=
  let missing : CoreError := .internal s!"工作目录不存在或不是目录: {String.ofList dir}"
  match canonicalize t dir with
  | .error _ => .error missing
  | .ok at_ =>
      if !t.isDir at_ then .error missing
      else
        .ok ((((t.names at_).filterMap (listed t dir at_)).mergeSort fun a b =>
          (compare ((Utf8.encode a.name).map UInt8.toNat)
            ((Utf8.encode b.name).map UInt8.toNat)).isLE).take jsListCap)

/-- `workdir_abs`. -/
def workdirAbs (t : Files) (workdir : List Char) : Except CoreError Path :=
  let workdir := trim workdir
  if workdir = [] then .error (.invalidInput "还没选择脚本工作目录（设置 → Hook → 工作目录）")
  else
    match canonicalize t workdir with
    | .error _ => .error (.invalidInput s!"工作目录不可访问: {String.ofList workdir}")
    | .ok path => .ok path

/-- A request of the editor's. -/
inductive Request where
  | list
  | read (name : List Char)
  | write (name content : List Char) (createOnly : Bool)
  | delete (name : List Char)

inductive Answer where
  | listed (files : List JsFileDto)
  | text (content : List Char)
  | written (bytes : Nat)
  | deleted

/-- A request at work in the working directory. -/
def inWorkdir (t : Files) (workdir : List Char)
    (k : Path → Except CoreError Answer × Files) : Except CoreError Answer × Files :=
  match workdirAbs t workdir with
  | .error e => (.error e, t)
  | .ok dir => k dir

/-- `list_js`, `read_script`, `write_script` and `delete_script`. -/
def handle (t : Files) (workdir : List Char) (now : Int) (fate : Fate) :
    Request → Except CoreError Answer × Files
  | .list => ((scanJsDir t (trim workdir)).map .listed, t)
  | .read name => inWorkdir t workdir fun dir => ((readScriptIn say t dir name).map .text, t)
  | .write name content createOnly => inWorkdir t workdir fun dir =>
      (writeScriptIn say t dir name content createOnly now fate).map (Except.map .written) id
  | .delete name => inWorkdir t workdir fun dir =>
      (deleteScriptIn say t dir name).map (Except.map fun _ => .deleted) id

/-- A request that has been answered. -/
structure Event where
  before : Files
  request : Request
  fate : Fate
  answer : Except CoreError Answer
  after : Files

/-- The files, and what has been asked. -/
structure Workspace where
  files : Files
  log : List Event

/-- One request after the other, at some time, with what comes of a write. -/
def workspace (workdir : List Char) : Machine Workspace (Request × Int × Fate) where
  init w := w.log = []
  step w l :=
    let (answer, files) := handle say w.files workdir l.2.1 l.2.2 l.1
    some ⟨files, w.log ++ [⟨w.files, l.1, l.2.2, answer, files⟩]⟩

end Code

/-! ### What is promised -/

section Promises

variable (say : IoError → String) (workdir : List Char) (e : Event)

/-- Nothing is there, or a file. -/
def Regular (t : Files) (p : Path) : Prop := ∀ entry, t.get p = some entry → entry.node = .file

/-- At most one file is changed, which is a child of the working directory. -/
def Confined : Prop :=
  (∀ p, e.after.get p = e.before.get p) ∨
    ∃ dir name, workdirAbs e.before workdir = .ok dir ∧
      Regular e.before (dir ++ [name]) ∧ Regular e.after (dir ++ [name]) ∧
      ∀ p, p ≠ dir ++ [name] → e.after.get p = e.before.get p

/-- Creating changes nothing that is there. -/
def CreatesOnly : Prop :=
  ∀ name content, e.request = .write name content true →
    ∀ p entry, e.before.get p = some entry → e.after.get p = some entry

/-- What has been written is read. -/
def ReadsBack : Prop :=
  ∀ name content createOnly n, e.request = .write name content createOnly →
    e.answer = .ok (.written n) → ∀ now fate,
      handle say e.after workdir now fate (.read name) = (.ok (.text content), e.after)

/-- What is listed can be read, if it is a text within the limit, and deleted. -/
def Serves : Prop :=
  ∀ files, e.request = .list → e.answer = .ok (.listed files) → ∀ file ∈ files,
    ∃ dir entry, workdirAbs e.after workdir = .ok dir ∧
      e.after.get (dir ++ [file.name]) = some entry ∧ ∀ now fate,
        (∀ text, Utf8.fromUtf8 entry.attr.bytes = some text →
          entry.attr.bytes.length ≤ maxScriptBytes →
          handle say e.after workdir now fate (.read file.name) = (.ok (.text text), e.after)) ∧
        ∃ t, handle say e.after workdir now fate (.delete file.name) = (.ok .deleted, t)

/-- A request that fails leaves what every file held. -/
def FailsClean : Prop :=
  ∀ err, e.answer = .error err → ∀ p entry, e.before.get p = some entry →
    ∃ entry', e.after.get p = some entry' ∧ entry'.node = entry.node ∧
      entry'.attr.bytes = entry.attr.bytes

/-- **A request is safe.** -/
structure Safe : Prop where
  confined : Confined workdir e
  createsOnly : CreatesOnly e
  readsBack : ReadsBack say workdir e
  serves : Serves say workdir e
  failsClean : FailsClean e

/-- The condition: a write over a script does not stop where what has been written is other than
what was there. -/
def Spared : Prop :=
  ∀ name content k, e.request = .write name content false → e.fate = .after k →
    (Utf8.encode content).length ≤ maxScriptBytes → isSafeJsScriptName (trim name) = true →
    ∀ dir entry, workdirAbs e.before workdir = .ok dir →
      e.before.get (dir ++ [trim name]) = some entry → entry.node = .file →
      (Utf8.encode content).take k = entry.attr.bytes

end Promises

/-! ### Names -/

section Scripts

variable {say : IoError → String} {t t' : Files} {dir path p : Path}
  {workdir name content : List Char} {createOnly : Bool} {now : Int} {fate : Fate} {e : Event}

theorem safe_char {c : Char} (h : isSafeJsScriptName name = true) (hc : c ∈ name) :
    isAsciiAlphanumeric c = true ∨ c = '_' ∨ c = '.' ∨ c = '-' := by
  simp only [isSafeJsScriptName, isSafeHostedName, Bool.and_eq_true, List.all_eq_true] at h
  have := h.1.1.1.2 c hc
  simpa using this

theorem safe_valid (h : isSafeJsScriptName name = true) : ValidName name := by
  have hstart : startsWith ['.'] name = false ∧ name ≠ [] := by
    simp only [isSafeJsScriptName, isSafeHostedName, Bool.and_eq_true] at h
    exact ⟨by simpa using h.1.1.1.1.2, by simpa using h.1.1.1.1.1⟩
  have hno : ∀ c, c ∈ name → c ≠ '/' ∧ c ≠ '\x00' := by
    intro c hc
    rcases safe_char h hc with hc | rfl | rfl | rfl
    · constructor <;> rintro rfl <;> exact absurd hc (by decide)
    all_goals decide
  refine ⟨hstart.2, ?_, ?_, fun hc => (hno _ hc).1 rfl, fun hc => (hno _ hc).2 rfl⟩
  · rintro rfl
    exact absurd hstart.1 (by decide)
  · rintro rfl
    exact absurd hstart.1 (by decide)

theorem safe_trim (h : isSafeJsScriptName name = true) : trim name = name := by
  refine trim_of_no_blank fun c hc => ?_
  rcases safe_char h hc with hc | rfl | rfl | rfl
  · simp only [isAsciiAlphanumeric, isAsciiDigit, Bool.or_eq_true, Bool.and_eq_true,
      decide_eq_true_eq] at hc
    have hbounds : 48 ≤ c.toNat ∧ c.toNat ≤ 122 := by omega
    unfold isWhitespace
    generalize c.toNat = n at hbounds
    simp only [Bool.or_eq_false_iff, Bool.and_eq_false_iff, decide_eq_false_iff_not]
    omega
  all_goals decide

theorem real_of_workdirAbs (h : workdirAbs t workdir = .ok dir) : t.Real dir := by
  simp only [workdirAbs] at h
  split_ifs at h
  split at h
  · cases h
  · rename_i path hpath
    cases h
    unfold canonicalize at hpath
    split_ifs at hpath
    exact Tree.real_of_resolve hpath

/-! ### The requests -/

/-- **A script by its name**: a file of that name in the working directory. -/
theorem resolveScript_ok_iff (hd : t.Real dir) : resolveScriptPathIn t dir name = .ok path ↔
    isSafeJsScriptName (trim name) = true ∧ path = dir ++ [trim name] ∧
      ∃ entry, t.get path = some entry ∧ entry.node = .file := by
  unfold resolveScriptPathIn
  by_cases hsafe : isSafeJsScriptName (trim name) = true
  · simp only [hsafe, Bool.not_true, Bool.false_eq_true, if_false, true_and]
    constructor
    · intro h
      split at h
      · cases h
      rename_i entry hentry
      have hget := (Tree.lstat_child_iff hd).mp hentry
      split_ifs at h with hlink
      have hreal : t.Real (dir ++ [trim name]) :=
        ⟨entry.node, by rw [Tree.node?, hget]; rfl, by simpa using hlink⟩
      rw [Tree.resolve_of_real hreal] at h
      dsimp only at h
      split_ifs at h with hfile
      cases h
      refine ⟨rfl, entry, hget, ?_⟩
      have hfile := (not_or.mp hfile).2
      rw [Tree.isFile, Tree.stat_of_get hget (by simpa using hlink)] at hfile
      simpa using hfile
    · rintro ⟨rfl, entry, hget, hfile⟩
      have hlink : entry.node.isLink = false := by rw [hfile]; rfl
      have hreal : t.Real (dir ++ [trim name]) := ⟨entry.node, by rw [Tree.node?, hget]; rfl, hlink⟩
      have hparent : parent (dir ++ [trim name]) = some dir := by simp [parent]
      have hisFile : t.isFile (dir ++ [trim name]) = true := by
        rw [Tree.isFile, Tree.stat_of_get hget hlink]
        simpa using hfile
      rw [(Tree.lstat_child_iff hd).mpr hget]
      simp [hlink, Tree.resolve_of_real hreal, hparent, hisFile]
  · simp [hsafe]

/-- A script is read: its content, where it is a text within the limit. -/
theorem readScript_text (hd : t.Real dir) (hsafe : isSafeJsScriptName (trim name) = true)
    {entry : Entry Stored} (hget : t.get (dir ++ [trim name]) = some entry)
    (hfile : entry.node = .file) {text : List Char}
    (htext : Utf8.fromUtf8 entry.attr.bytes = some text)
    (hlen : entry.attr.bytes.length ≤ maxScriptBytes) : readScriptIn say t dir name = .ok text := by
  have hpath := (resolveScript_ok_iff hd).mpr ⟨hsafe, rfl, entry, hget, hfile⟩
  have hstat := Tree.stat_of_get hget (by rw [hfile]; rfl)
  simp only [readScriptIn, hpath, hstat, Nat.not_lt.mpr hlen, if_false, htext]

/-- A script is deleted, and nothing else; or nothing is. -/
theorem deleteScript_cases (hd : t.Real dir) :
    (∃ err, deleteScriptIn say t dir name = (.error err, t)) ∨
    ∃ t', deleteScriptIn say t dir name = (.ok (), t') ∧ Regular t (dir ++ [trim name]) ∧
      t'.get (dir ++ [trim name]) = none ∧
      ∀ p, p ≠ dir ++ [trim name] → t'.get p = t.get p := by
  unfold deleteScriptIn
  cases hpath : resolveScriptPathIn t dir name with
  | error err => exact .inl ⟨err, rfl⟩
  | ok path =>
      obtain ⟨-, rfl, entry, hget, hfile⟩ := (resolveScript_ok_iff hd).mp hpath
      obtain ⟨t', hunlink, hgone, hkeep⟩ := Tree.unlink_file hget hfile
      refine .inr ⟨t', by simp only [hunlink], fun entry' hget' => ?_, hgone, hkeep⟩
      rw [hget] at hget'
      cases hget'
      exact hfile

/-- What a write leaves under a name that is no link. -/
theorem written_cases (hd : t.Real dir) (hvalid : ValidName name)
    (hl : ∀ entry, t.get (dir ++ [name]) = some entry → entry.node.isLink = false)
    (bytes : List UInt8) :
    (∃ err, confirmWritten say (dir ++ [name]) bytes.length
        (fsWrite t (dir ++ [name]) bytes now fate) = (.error err, t)) ∨
    ∃ t' stored, t'.get (dir ++ [name]) = some ⟨.file, stored⟩ ∧
      (∀ p, p ≠ dir ++ [name] → t'.get p = t.get p) ∧ t.isDir (dir ++ [name]) = false ∧
      ((fate = .done ∧ stored.bytes = bytes ∧
          confirmWritten say (dir ++ [name]) bytes.length
            (fsWrite t (dir ++ [name]) bytes now fate) = (.ok bytes.length, t')) ∨
        ∃ k err, fate = .after k ∧ stored.bytes = bytes.take k ∧
          confirmWritten say (dir ++ [name]) bytes.length
            (fsWrite t (dir ++ [name]) bytes now fate) = (.error err, t')) := by
  cases fate with
  | refused => exact .inl ⟨_, rfl⟩
  | done =>
      rcases Tree.store_cases hd hvalid hl ⟨bytes, now⟩ with
          ⟨err, herr, -⟩ | ⟨-, hnot, t', hstore, hget, hkeep⟩
      · exact .inl ⟨_, by rw [fsWrite, herr]; rfl⟩
      · refine .inr ⟨t', ⟨bytes, now⟩, hget, hkeep, hnot, .inl ⟨rfl, rfl, ?_⟩⟩
        have hstat := Tree.stat_of_get hget rfl
        simp only [fsWrite, hstore, confirmWritten, hstat, ne_eq, not_true, if_false]
  | after k =>
      rcases Tree.store_cases hd hvalid hl ⟨bytes.take k, now⟩ with
          ⟨err, herr, -⟩ | ⟨-, hnot, t', hstore, hget, hkeep⟩
      · exact .inl ⟨_, by rw [fsWrite, herr]; rfl⟩
      · have hshort : confirmWritten say (dir ++ [name]) bytes.length
            (fsWrite t (dir ++ [name]) bytes now (.after k)) =
              (.error (.internal
                s!"写入 {display (dir ++ [name])} 失败：{say .writeFault}"), t') := by
          simp only [fsWrite, hstore]
          rfl
        exact .inr ⟨t', ⟨bytes.take k, now⟩, hget, hkeep, hnot, .inr ⟨k, _, rfl, rfl, hshort⟩⟩

/-- What `write_script_in` asks before it writes. -/
def Admitted (t : Files) (dir : Path) (name content : List Char) (createOnly : Bool) : Prop :=
  (Utf8.encode content).length ≤ maxScriptBytes ∧ isSafeJsScriptName (trim name) = true ∧
    ∀ entry, t.get (dir ++ [trim name]) = some entry →
      entry.node.isLink = false ∧ createOnly = false

theorem writeScript_eq (hd : t.Real dir) :
    (Admitted t dir name content createOnly →
      writeScriptIn say t dir name content createOnly now fate =
        confirmWritten say (dir ++ [trim name]) (Utf8.encode content).length
          (fsWrite t (dir ++ [trim name]) (Utf8.encode content) now fate)) ∧
    (¬ Admitted t dir name content createOnly →
      ∃ err, writeScriptIn say t dir name content createOnly now fate = (.error err, t)) := by
  unfold writeScriptIn Admitted
  by_cases hlen : maxScriptBytes < (Utf8.encode content).length
  · exact ⟨fun h => absurd h.1 (Nat.not_le.mpr hlen), fun _ => ⟨_, if_pos hlen⟩⟩
  by_cases hsafe : isSafeJsScriptName (trim name) = true
  · simp only [hlen, hsafe, Bool.not_true, Bool.false_eq_true, if_false,
      Nat.le_of_not_lt hlen, true_and]
    cases hentry : t.lstat (dir ++ [trim name]) with
    | error err =>
        refine ⟨fun _ => rfl, fun h => absurd (fun entry hget => ?_) h⟩
        rw [(Tree.lstat_child_iff hd).mpr hget] at hentry
        cases hentry
    | ok entry =>
        have hget := (Tree.lstat_child_iff hd).mp hentry
        dsimp only
        constructor
        · intro h
          obtain ⟨hlink, hcreate⟩ := h entry hget
          rw [hlink, hcreate]
          rfl
        · intro h
          split_ifs with hlink hcreate
          · exact ⟨_, rfl⟩
          · exact ⟨_, rfl⟩
          · refine absurd (fun entry' hget' => ?_) h
            cases hget.symm.trans hget'
            exact ⟨Bool.eq_false_iff.mpr hlink, Bool.eq_false_iff.mpr hcreate⟩
  · simp only [hlen, hsafe, if_false, Bool.not_false, if_true]
    exact ⟨fun h => absurd h.2.1 (by simp), fun _ => ⟨_, rfl⟩⟩

/-- **What a write does**: it is refused, or the name is the file it was given, or the beginning
of it. -/
theorem writeScript_cases (hd : t.Real dir) :
    (∃ err, writeScriptIn say t dir name content createOnly now fate = (.error err, t)) ∨
    Admitted t dir name content createOnly ∧ Regular t (dir ++ [trim name]) ∧
      ∃ t' stored, t'.get (dir ++ [trim name]) = some ⟨.file, stored⟩ ∧
        (∀ p, p ≠ dir ++ [trim name] → t'.get p = t.get p) ∧
        ((fate = .done ∧ stored.bytes = Utf8.encode content ∧
            writeScriptIn say t dir name content createOnly now fate =
              (.ok (Utf8.encode content).length, t')) ∨
          ∃ k err, fate = .after k ∧ stored.bytes = (Utf8.encode content).take k ∧
            writeScriptIn say t dir name content createOnly now fate = (.error err, t')) := by
  by_cases hadmitted : Admitted t dir name content createOnly
  · rw [(writeScript_eq hd).1 hadmitted]
    have hfree := hadmitted.2.2
    rcases written_cases hd (safe_valid hadmitted.2.1) (fun entry hget => (hfree entry hget).1)
        (Utf8.encode content) with herr | ⟨t', stored, hget, hkeep, hnot, hend⟩
    · exact .inl herr
    · refine .inr ⟨hadmitted, fun entry hentry => ?_, t', stored, hget, hkeep, hend⟩
      have hlink := (hfree entry hentry).1
      rw [Tree.isDir_eq, Tree.node?, hentry, Option.map_some] at hnot
      cases hnode : entry.node with
      | file => rfl
      | dir id => rw [hnode] at hnot; cases hnot
      | link target => rw [hnode] at hlink; cases hlink
  · exact .inl ((writeScript_eq hd).2 hadmitted)

/-- A write over a script that stops leaves the beginning of what was to be written. -/
theorem writeScript_short (hd : t.Real dir) {k : Nat}
    (hlen : (Utf8.encode content).length ≤ maxScriptBytes)
    (hsafe : isSafeJsScriptName (trim name) = true) {entry : Entry Stored}
    (hget : t.get (dir ++ [trim name]) = some entry) (hfile : entry.node = .file) :
    ∃ err t', writeScriptIn say t dir name content false now (.after k) = (.error err, t') ∧
      t'.get (dir ++ [trim name]) = some ⟨.file, ⟨(Utf8.encode content).take k, now⟩⟩ := by
  have hlink : ∀ entry', t.get (dir ++ [trim name]) = some entry' → entry'.node.isLink = false := by
    intro entry' hget'
    cases hget.symm.trans hget'
    rw [hfile]
    rfl
  have hadmitted : Admitted t dir name content false :=
    ⟨hlen, hsafe, fun entry' hget' => ⟨hlink entry' hget', rfl⟩⟩
  rw [(writeScript_eq hd).1 hadmitted]
  rcases Tree.store_cases hd (safe_valid hsafe) hlink ⟨(Utf8.encode content).take k, now⟩ with
      ⟨-, -, hnot | hisdir⟩ | ⟨-, -, t', hstore, hget', -⟩
  · have hdir := Tree.isDir_parent (by rw [hget]; nofun)
    rw [hnot] at hdir
    cases hdir
  · rw [Tree.isDir_eq, Tree.node?, hget, Option.map_some, hfile] at hisdir
    cases hisdir
  · refine ⟨.internal s!"写入 {display (dir ++ [trim name])} 失败：{say .writeFault}", t', ?_, hget'⟩
    simp only [fsWrite, hstore]
    rfl

/-! ### What each request keeps -/

/-- The request has been performed. -/
def Performed (say : IoError → String) (workdir : List Char) (e : Event) : Prop :=
  ∃ now, handle say e.before workdir now e.fate e.request = (e.answer, e.after)

/-- A write or a deletion at work: the files are as they were, or the working directory is one. -/
theorem inWorkdir_cases {k : Path → Except CoreError Answer × Files}
    {answer : Except CoreError Answer} (h : inWorkdir t workdir k = (answer, t')) :
    (t' = t ∧ ∃ err, answer = .error err) ∨
      ∃ dir, workdirAbs t workdir = .ok dir ∧ t.Real dir ∧ k dir = (answer, t') := by
  unfold inWorkdir at h
  cases hdir : workdirAbs t workdir with
  | error err =>
      rw [hdir] at h
      cases h
      exact .inl ⟨rfl, err, rfl⟩
  | ok dir =>
      rw [hdir] at h
      exact .inr ⟨dir, rfl, real_of_workdirAbs hdir, h⟩

/-- **What a request changes**: nothing; or it is a deletion, or a write that was let in. -/
theorem performed_cases (h : Performed say workdir e) :
    ((∀ p, e.after.get p = e.before.get p) ∧ ∀ n, e.answer ≠ .ok (.written n)) ∨
    ∃ dir name, workdirAbs e.before workdir = .ok dir ∧ Regular e.before (dir ++ [trim name]) ∧
      (∀ p, p ≠ dir ++ [trim name] → e.after.get p = e.before.get p) ∧
      ((e.request = .delete name ∧ e.answer = .ok .deleted ∧
          e.after.get (dir ++ [trim name]) = none) ∨
        ∃ content createOnly stored, e.request = .write name content createOnly ∧
          Admitted e.before dir name content createOnly ∧
          e.after.get (dir ++ [trim name]) = some ⟨.file, stored⟩ ∧
          ((stored.bytes = Utf8.encode content ∧
              e.answer = .ok (.written (Utf8.encode content).length)) ∨
            ∃ k err, e.fate = .after k ∧ stored.bytes = (Utf8.encode content).take k ∧
              e.answer = .error err)) := by
  obtain ⟨before, request, fate, answer, after⟩ := e
  obtain ⟨now, h⟩ := h
  dsimp only at h ⊢
  cases request with
  | list =>
      obtain ⟨rfl, rfl⟩ := Prod.mk.inj h
      refine .inl ⟨fun p => rfl, fun n hn => ?_⟩
      cases hscan : scanJsDir before (trim workdir) <;> rw [hscan] at hn <;> cases hn
  | read name =>
      rcases inWorkdir_cases h with ⟨rfl, err, rfl⟩ | ⟨dir, -, -, hk⟩
      · exact .inl ⟨fun p => rfl, nofun⟩
      · obtain ⟨rfl, rfl⟩ := Prod.mk.inj hk
        refine .inl ⟨fun p => rfl, fun n hn => ?_⟩
        cases hread : readScriptIn say before dir name <;> rw [hread] at hn <;> cases hn
  | delete name =>
      rcases inWorkdir_cases h with ⟨rfl, err, rfl⟩ | ⟨dir, hdir, hd, hk⟩
      · exact .inl ⟨fun p => rfl, nofun⟩
      rcases deleteScript_cases hd with ⟨err, herr⟩ | ⟨t', ht', hregular, hgone, hkeep⟩
      · rw [herr] at hk
        cases hk
        exact .inl ⟨fun p => rfl, nofun⟩
      · rw [ht'] at hk
        cases hk
        exact .inr ⟨dir, name, hdir, hregular, hkeep, .inl ⟨rfl, rfl, hgone⟩⟩
  | write name content createOnly =>
      rcases inWorkdir_cases h with ⟨rfl, err, rfl⟩ | ⟨dir, hdir, hd, hk⟩
      · exact .inl ⟨fun p => rfl, nofun⟩
      rcases writeScript_cases hd with
          ⟨err, herr⟩ | ⟨hadmitted, hregular, t', stored, hget, hkeep, hend⟩
      · rw [herr] at hk
        cases hk
        exact .inl ⟨fun p => rfl, nofun⟩
      · rcases hend with ⟨-, hbytes, hwrite⟩ | ⟨k, err, hfate, hbytes, hwrite⟩
        · rw [hwrite] at hk
          cases hk
          exact .inr ⟨dir, name, hdir, hregular, hkeep,
            .inr ⟨content, createOnly, stored, rfl, hadmitted, hget, .inl ⟨hbytes, rfl⟩⟩⟩
        · rw [hwrite] at hk
          cases hk
          exact .inr ⟨dir, name, hdir, hregular, hkeep,
            .inr ⟨content, createOnly, stored, rfl, hadmitted, hget,
              .inr ⟨k, _, hfate, hbytes, rfl⟩⟩⟩

theorem confined_of_performed (h : Performed say workdir e) : Confined workdir e := by
  rcases performed_cases h with ⟨hsame, -⟩ | ⟨dir, name, hdir, hregular, hkeep, hend⟩
  · exact .inl hsame
  refine .inr ⟨dir, trim name, hdir, hregular, fun entry hentry => ?_, hkeep⟩
  rcases hend with ⟨-, -, hgone⟩ | ⟨-, -, stored, -, -, hget, -⟩
  · rw [hgone] at hentry
    cases hentry
  · rw [hget] at hentry
    cases hentry
    rfl

theorem createsOnly_of_performed (h : Performed say workdir e) : CreatesOnly e := by
  intro name content hrequest p entry hentry
  rcases performed_cases h with ⟨hsame, -⟩ | ⟨dir, name', hdir, -, hkeep, ⟨hdelete, -⟩ |
      ⟨content', createOnly, stored, hwrite, hadmitted, -⟩⟩
  · rw [hsame, hentry]
  · rw [hrequest] at hdelete
    cases hdelete
  · rw [hrequest] at hwrite
    cases hwrite
    by_cases hp : p = dir ++ [trim name]
    · subst hp
      exact absurd (hadmitted.2.2 entry hentry).2 (by decide)
    · rw [hkeep p hp, hentry]

/-- The working directory is where it was, where no entry on the way to it has been changed. -/
theorem workdirAbs_kept {q : Path} (hdir : workdirAbs t workdir = .ok dir) (hq : q ≠ [])
    (hkeep : ∀ p, p ≠ q → t'.get p = t.get p)
    (hsame : t.node? q ≠ none → t'.node? q = t.node? q) : workdirAbs t' workdir = .ok dir := by
  have hnode : ∀ p, p ≠ q → t'.node? p = t.node? p := fun p hp => by
    rw [Tree.node?, Tree.node?, hkeep p hp]
  have hresolve : ∀ {c : List Name}, t.resolve c = .ok dir → t'.resolve c = .ok dir := by
    intro c hc
    have hwalk : Walks t Tree.maxLinks [] c _ := walk_walks _ _ _
    have hseen := (hwalk.real (Tree.real_of_isDir Tree.isDir_root) hc).2
    have hwalk' : Walks t' Tree.maxLinks [] c _ := hwalk.congr
      (fun p hp => by
        rw [List.prefix_nil.mp hp]
        exact hnode [] (Ne.symm hq))
      fun p hp => by
        by_cases h : p = q
        · subst h
          exact hsame (hseen p hp)
        · exact hnode p h
    rw [Tree.resolve, hwalk'.walk_eq]
    exact hc
  simp only [workdirAbs] at hdir ⊢
  split_ifs at hdir ⊢ with hempty
  unfold canonicalize at hdir ⊢
  rw [if_neg hempty] at hdir ⊢
  cases hc : t.resolve (components (trim workdir)) with
  | error err =>
      rw [hc] at hdir
      cases hdir
  | ok path =>
      rw [hc] at hdir
      cases hdir
      rw [hresolve hc]

theorem readsBack_of_performed (h : Performed say workdir e) : ReadsBack say workdir e := by
  intro name content createOnly n hrequest hanswer now fate
  rcases performed_cases h with ⟨-, hnot⟩ | ⟨dir, name', hdir, hregular, hkeep, ⟨hdelete, -⟩ |
      ⟨content', createOnly', stored, hwrite, hadmitted, hget, hend⟩⟩
  · exact absurd hanswer (hnot n)
  · rw [hrequest] at hdelete
    cases hdelete
  · rw [hrequest] at hwrite
    cases hwrite
    rcases hend with ⟨hbytes, -⟩ | ⟨k, err, -, -, herr⟩
    · have hdir' : workdirAbs e.after workdir = .ok dir := by
        refine workdirAbs_kept hdir (by simp) hkeep fun hsome => ?_
        obtain ⟨d, hd⟩ := Option.ne_none_iff_exists'.mp hsome
        obtain ⟨entry, hentry, rfl⟩ := Tree.node?_eq_some.mp hd
        rw [hd, Tree.node?, hget, hregular entry hentry]
        rfl
      have htext : Utf8.fromUtf8 stored.bytes = some content := by
        rw [hbytes, Utf8.fromUtf8_encode]
      have hread : readScriptIn say e.after dir name = .ok content :=
        readScript_text (real_of_workdirAbs hdir') hadmitted.2.1 hget rfl htext
          (by rw [hbytes]; exact hadmitted.1)
      simp only [handle, inWorkdir, hdir', hread]
      rfl
    · rw [hanswer] at herr
      cases herr

/-- What is listed is a script in the working directory. -/
theorem scanJsDir_ok {files : List JsFileDto} (h : scanJsDir t (trim workdir) = .ok files) :
    ∃ dir, workdirAbs t workdir = .ok dir ∧ ∀ file ∈ files, ∃ entry,
      t.get (dir ++ [file.name]) = some entry ∧ entry.node = .file ∧
        isSafeJsScriptName file.name = true := by
  simp only [scanJsDir] at h
  cases hdir : canonicalize t (trim workdir) with
  | error err =>
      rw [hdir] at h
      cases h
  | ok dir =>
      rw [hdir] at h
      dsimp only at h
      split_ifs at h
      cases h
      have hne : ¬ trim workdir = [] := by
        intro hnil
        rw [hnil, canonicalize, if_pos rfl] at hdir
        cases hdir
      refine ⟨dir, by simp only [workdirAbs, hne, if_false, hdir], fun file hfile => ?_⟩
      obtain ⟨name, -, hname⟩ :=
        List.mem_filterMap.mp (List.mem_mergeSort.mp (List.mem_of_mem_take hfile))
      unfold listed at hname
      cases hget : t.get (dir ++ [name]) with
      | none =>
          rw [hget] at hname
          cases hname
      | some entry =>
          rw [hget] at hname
          dsimp only at hname
          split_ifs at hname with hnode hsafe
          cases hname
          exact ⟨entry, hget, not_not.mp hnode, by simpa using hsafe⟩

theorem serves_of_performed (h : Performed say workdir e) : Serves say workdir e := by
  intro files hrequest hanswer file hfile
  obtain ⟨now₀, h⟩ := h
  rw [hrequest, hanswer] at h
  obtain ⟨hscan, hafter⟩ := Prod.mk.inj h
  cases hfiles : scanJsDir e.before (trim workdir) with
  | error err =>
      rw [hfiles] at hscan
      cases hscan
  | ok found =>
      rw [hfiles] at hscan
      cases hscan
      obtain ⟨dir, hdir, hall⟩ := scanJsDir_ok hfiles
      obtain ⟨entry, hget, hnode, hsafe⟩ := hall file hfile
      have hd := real_of_workdirAbs hdir
      rw [← hafter]
      refine ⟨dir, entry, hdir, hget, fun now fate => ⟨fun text htext hlen => ?_, ?_⟩⟩
      · have hread : readScriptIn say e.before dir file.name = .ok text :=
          readScript_text hd (by rwa [safe_trim hsafe]) (by rwa [safe_trim hsafe]) hnode htext hlen
        simp only [handle, inWorkdir, hdir, hread]
        rfl
      · have hpath : resolveScriptPathIn e.before dir file.name = .ok (dir ++ [file.name]) :=
          (resolveScript_ok_iff hd).mpr ⟨by rwa [safe_trim hsafe], by rw [safe_trim hsafe],
            entry, hget, hnode⟩
        obtain ⟨t, hunlink, -⟩ := Tree.unlink_file hget hnode
        refine ⟨t, ?_⟩
        simp only [handle, inWorkdir, hdir, deleteScriptIn, hpath, hunlink]
        rfl

/-- **A request fails cleanly exactly when it spares** what a write over it would have cut. -/
theorem failsClean_iff (h : Performed say workdir e) : FailsClean e ↔ Spared workdir e := by
  constructor
  · intro hclean name content k hrequest hfate hlen hsafe dir entry hdir hget hnode
    obtain ⟨now, h⟩ := h
    rw [hrequest, hfate] at h
    obtain ⟨err, t', hwrite, hget'⟩ : ∃ err t',
        writeScriptIn say e.before dir name content false now (.after k) = (.error err, t') ∧ _ :=
      writeScript_short (real_of_workdirAbs hdir) hlen hsafe hget hnode
    simp only [handle, inWorkdir, hdir, hwrite] at h
    obtain ⟨hanswer, hafter⟩ := Prod.mk.inj h
    obtain ⟨entry', hentry', -, hbytes⟩ := hclean err hanswer.symm _ entry hget
    rw [← hafter] at hentry'
    rw [← hbytes]
    cases hget'.symm.trans hentry'
    rfl
  · intro hspared err hanswer p entry hentry
    rcases performed_cases h with ⟨hsame, -⟩ | ⟨dir, name, hdir, hregular, hkeep,
        ⟨-, hok, -⟩ | ⟨content, createOnly, stored, hwrite, hadmitted, hget, hend⟩⟩
    · exact ⟨entry, by rw [hsame, hentry], rfl, rfl⟩
    · rw [hanswer] at hok
      cases hok
    · rcases hend with ⟨-, hok⟩ | ⟨k, -, hfate, hbytes, -⟩
      · rw [hanswer] at hok
        cases hok
      · by_cases hp : p = dir ++ [trim name]
        · subst hp
          have hnode := hregular entry hentry
          have hcreate := (hadmitted.2.2 entry hentry).2
          subst hcreate
          have hsame := hspared name content k hwrite hfate hadmitted.1 hadmitted.2.1 dir entry
            hdir hentry hnode
          exact ⟨_, hget, hnode.symm, hbytes.trans hsame⟩
        · exact ⟨entry, by rw [hkeep p hp, hentry], rfl, rfl⟩

theorem safe_iff (h : Performed say workdir e) : Safe say workdir e ↔ Spared workdir e := by
  constructor
  · exact fun hsafe => (failsClean_iff h).mp hsafe.failsClean
  · exact fun hspared => ⟨confined_of_performed h, createsOnly_of_performed h,
      readsBack_of_performed h, serves_of_performed h, (failsClean_iff h).mpr hspared⟩

/-! ### Runs -/

/-- Every request that has been answered has been performed. -/
theorem performed_step {w w' : Workspace} {l : Request × Int × Fate}
    (hw : ∀ e ∈ w.log, Performed say workdir e) (hs : (workspace say workdir).step w l = some w') :
    ∀ e ∈ w'.log, Performed say workdir e := by
  cases hs
  intro e he
  rcases List.mem_append.mp he with he | he
  · exact hw e he
  · rw [List.mem_singleton.mp he]
    exact ⟨l.2.1, rfl⟩

end Scripts

/-- **The workspace is safe**, over any run of requests in any tree of files, exactly when no write
over a script in it stops where what has been written is other than what was there. -/
theorem workspace_safe_iff {say : IoError → String} {workdir : List Char} {w₀ w : Workspace}
    {ls : List (Request × Int × Fate)} (h₀ : (workspace say workdir).init w₀)
    (hr : (workspace say workdir).Run Machine.Any w₀ ls w) :
    (∀ e ∈ w.log, Safe say workdir e) ↔ ∀ e ∈ w.log, Spared workdir e := by
  have hnone : ∀ e ∈ w₀.log, Performed say workdir e := by
    rw [show w₀.log = [] from h₀]
    nofun
  have hall := hr.invariant (fun _ _ _ hw _ hs => performed_step hw hs) hnone
  exact forall₂_congr fun e he => safe_iff (hall e he)

/-- A script in a directory. -/
def sampleFiles : Files where
  entries := [([], ⟨.dir 0, ⟨[], 0⟩⟩), ([['w']], ⟨.dir 1, ⟨[], 0⟩⟩),
    ([['w'], "a.js".toList], ⟨.file, ⟨[120], 0⟩⟩)]
  unique := by decide
  rooted := by decide
  closed := by decide
  named := by decide
  ids := by decide

/-- A script is created and the scripts are listed. -/
theorem created_safe : ∃ w, (workspace (fun _ => "") "/w".toList).Run Machine.Any ⟨sampleFiles, []⟩
    [(.write "b.js".toList "hi".toList true, 5, .done), (.list, 6, .done)] w ∧
      w.log.length = 2 ∧ ∀ e ∈ w.log, Safe (fun _ => "") "/w".toList e := by
  obtain ⟨w, hexec⟩ : ∃ w, (workspace (fun _ => "") "/w".toList).exec ⟨sampleFiles, []⟩
      [(.write "b.js".toList "hi".toList true, 5, .done), (.list, 6, .done)] = some w := ⟨_, rfl⟩
  have h₀ : (workspace (fun _ => "") "/w".toList).init ⟨sampleFiles, []⟩ := rfl
  have hr := Machine.run_of_exec Machine.guarded_any hexec
  cases hexec
  refine ⟨_, hr, rfl, (workspace_safe_iff h₀ hr).mpr fun e he => ?_⟩
  rcases List.mem_append.mp he with he | he
  · rw [List.mem_singleton.mp he]
    exact fun _ _ _ h => nomatch h
  · rw [List.mem_singleton.mp he]
    exact fun _ _ _ h => nomatch h

/-- A write over a script that fails at once leaves it empty. -/
theorem failed_save_empties : ¬ ∀ w, (workspace (fun _ => "") "/w".toList).Reach w →
    ∀ e ∈ w.log, Safe (fun _ => "") "/w".toList e := by
  intro hall
  have h₀ : (workspace (fun _ => "") "/w".toList).init ⟨sampleFiles, []⟩ := rfl
  have hr : (workspace (fun _ => "") "/w".toList).Run Machine.Any ⟨sampleFiles, []⟩
      [(.write "a.js".toList "y".toList false, 5, .after 0)] _ := .one trivial rfl
  have hsafe := hall _ ⟨_, _, h₀, hr⟩ _ (List.mem_singleton_self _)
  have hspared := (safe_iff ⟨5, rfl⟩).mp hsafe
  have hcut := hspared _ _ 0 rfl rfl (by decide) (by decide) [['w']]
    ⟨.file, ⟨[120], 0⟩⟩ rfl rfl rfl
  cases hcut

end RevBox.HookScripts
