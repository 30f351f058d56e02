import RevBox.Agent.SystemProvider
import RevBox.Support.Text

/-!
# Agent — ProcRead

`process.proc_read` of `provider/process.rs`: the head of a file of `/proc/<pid>`, read as the
shell user, or through `su` where that fails.
-/

namespace RevBox.ProcRead

/-- `DEFAULT_PROC_LINES`. -/
def defaultProcLines : Nat := 20000

/-- `MAX_PROC_LINES`. -/
def maxProcLines : Nat := 100000

/-- `MAX_PROC_BYTES`. -/
def maxProcBytes : Nat := 32 * 1024 * 1024

/-- `ProcFile`. -/
inductive ProcFile where
  | maps
  | cmdline
  | status
  deriving DecidableEq

/-- `ProcFile::as_str`, also its name in JSON. -/
def ProcFile.asStr : ProcFile → String
  | .maps => "maps"
  | .cmdline => "cmdline"
  | .status => "status"

/-- The name of a unit variant, as a string or as an object with one `null` field. -/
def variantName : Value → Option String
  | .string s => some s
  | .object [(k, .null)] => some k
  | _ => none

/-- `ProcFile` from a value. -/
def ProcFile.ofValue (v : Value) : Option ProcFile := do
  match ← variantName v with
  | "maps" => some .maps
  | "cmdline" => some .cmdline
  | "status" => some .status
  | _ => none

/-- `ProcessProcReadParams`. -/
structure Params where
  pid : Nat
  file : ProcFile
  maxLines : Option Nat

/-- `Option<u32>` from a field that may be absent. -/
def maxLinesOfValue : Option Value → Option (Option Nat)
  | none | some .null => some none
  | some v => (Routing.u32OfValue v).map some

/-- `serde_json::from_value` into `ProcessProcReadParams`. -/
def Params.ofValue : Value → Option Params
  | .object fields => do
      let pid ← (Value.object fields).get? "pid"
      let file ← (Value.object fields).get? "file"
      some ⟨← Routing.u32OfValue pid, ← ProcFile.ofValue file,
        ← maxLinesOfValue ((Value.object fields).get? "max_lines")⟩
  | .array [pid, file] => do
      some ⟨← Routing.u32OfValue pid, ← ProcFile.ofValue file, none⟩
  | .array [pid, file, maxLines] => do
      some ⟨← Routing.u32OfValue pid, ← ProcFile.ofValue file, ← maxLinesOfValue (some maxLines)⟩
  | _ => none

/-- What the call finds outside: the bytes of the file, unless opening or reading it fails; the
output of the `su` script, or why there is none; and the text `serde_json` refuses parameters
with. -/
structure Env where
  content : Option (List UInt8)
  privileged : Except AgentError (List Char)
  parseError : Value → String

/-- `proc_path`. -/
def procPath (pid : Nat) (file : ProcFile) : Except AgentError String :=
  if pid = 0 then
    .error (.new .invalidRequest "pid 不能是 0（0 在 /proc 里是 swapper，没有可读的 maps）")
  else .ok s!"/proc/{pid}/{file.asStr}"

/-- `decode_proc_bytes`. -/
def decodeProcBytes (file : ProcFile) (raw : List UInt8) : List Char :=
  let text := Utf8.fromUtf8Lossy raw
  match file with
  | .cmdline => Text.trim (text.map fun c => if c.toNat = 0 then ' ' else c)
  | .maps | .status => text

/-- `take_lines`. -/
def takeLines (body : List Char) (maxLines : Nat) : Nat × List Char × Bool :=
  let total := (Text.lines body).length
  let kept := (Text.lines body).take maxLines
  (total, Text.join '\n' kept, total > kept.length)

/-- `ProcHeadRead`. -/
structure ProcHeadRead where
  totalLines : Nat
  returnedLines : Nat
  truncated : Bool
  text : List Char

/-- `ShellRead`. -/
inductive ShellRead where
  | readable (read : ProcHeadRead)
  | empty (read : ProcHeadRead)
  | unreadable

/-- The lines a text is said to return. -/
def returnedLines (text : List Char) : Nat :=
  if text = [] then 0 else (Text.lines text).length % 2 ^ 32

/-- `read_proc_head`. -/
def readProcHead (content : Option (List UInt8)) (file : ProcFile) (maxLines : Nat) : ShellRead :=
  match content with
  | none => .unreadable
  | some bytes =>
      let raw := bytes.take (maxProcBytes + 1)
      let capped := raw.length > maxProcBytes
      let raw := raw.take maxProcBytes
      let body := decodeProcBytes file raw
      let (total, text, truncatedByLines) := takeLines body maxLines
      let read : ProcHeadRead := ⟨total, returnedLines text, truncatedByLines || capped, text⟩
      if raw = [] then .empty read else .readable read

/-- `ProcReadOutput`. -/
structure ProcReadOutput where
  totalLines : Nat
  body : List Char
  bodyTruncated : Bool

/-- The last place of a line. -/
def rposition (line : List Char) (lines : List (List Char)) : Option Nat :=
  (lines.reverse.findIdx? fun l => l = line).map fun i => lines.length - 1 - i

/-- `parse_proc_read_output`. -/
def parseProcReadOutput (output : List Char) : Except AgentError ProcReadOutput := do
  let lines := (Text.lines output).map Text.trimEnd
  let position := fun line : String => lines.findIdx? fun l => l = line.toList
  let totalIndex ← match position "ARTPROC_TOTAL" with
    | some i => pure i
    | none => .error (.new .internal s!"提权读取的应答形状不对: {String.ofList output}")
  if lines[totalIndex + 1]? = some "ARTPROC_GONE".toList then
    .error ((AgentError.new .notFound "进程已经不在了（/proc 下没有这个 pid），请刷新后重试").withDetails
      (reasonDetails "proc_gone"))
  else if lines[totalIndex + 1]? = some "ARTPROC_MISSING".toList then
    .error ((AgentError.new .notFound
      "进程在，但 /proc 下没有这个文件（可能是该进程类型没有这项内容）").withDetails
      (reasonDetails "proc_file_missing"))
  else
    let rawTotal := Text.trim (lines[totalIndex + 1]?.getD [])
    let totalLines ← match Text.parseI64 rawTotal with
      | .ok n => pure n
      | .error error => .error (.new .internal
          s!"行数无法解析 {Text.debugStr (String.ofList rawTotal)}: {error}")
    let bodyIndex ← match position "ARTPROC_BODY" with
      | some i => pure i
      | none => .error (.new .internal "提权读取没有正文标记")
    let endIndex ← match rposition "ARTPROC_END".toList lines with
      | some i => pure i
      | none => .error (.new .internal "提权读取没有结束标记（可能被截断）")
    if endIndex < bodyIndex then .error (.new .internal "提权读取的标记顺序不对")
    else
      let rawBody := Text.join '\n' ((lines.take endIndex).drop (bodyIndex + 1))
      let body := Text.trimEndMatches '\n' rawBody
      pure ⟨totalLines.toNat, body, body = [] && rawBody.length ≠ body.length⟩

/-- `ProcessProcReadResult` as JSON. -/
def resultValue (path : String) (file : ProcFile) (read : ProcHeadRead) (readVia : String) :
    Value :=
  .ofFields [("path", .string path), ("file", .string file.asStr),
    ("total_lines", .nat read.totalLines), ("returned_lines", .nat read.returnedLines),
    ("truncated", .bool read.truncated), ("text", .string (String.ofList read.text)),
    ("read_via", .string readVia)]

/-- The `su` leg of `proc_read`. -/
def readPrivileged (env : Env) (path : String) (file : ProcFile) (maxLines : Nat) :
    Except AgentError Value := do
  let read ← parseProcReadOutput (← env.privileged)
  pure (resultValue path file ⟨read.totalLines, returnedLines read.body,
    read.totalLines > maxLines || read.bodyTruncated, read.body⟩ "root")

/-- `ProcessesProvider::proc_read`. -/
def procRead (env : Env) (params : Value) : Except AgentError Value := do
  let p ← match Params.ofValue params with
    | some p => pure p
    | none => .error ((AgentError.new .invalidRequest "invalid process parameters").withDetails
        (reasonDetails (env.parseError params)))
  let path ← procPath p.pid p.file
  let maxLines := min (max (p.maxLines.getD defaultProcLines) 1) maxProcLines
  match readProcHead env.content p.file maxLines with
  | .readable read => pure (resultValue path p.file read "shell")
  | .empty read =>
      -- a live process has mappings: an empty `maps` is one that could not be read
      if p.file ≠ .maps then pure (resultValue path p.file read "shell")
      else readPrivileged env path p.file maxLines
  | .unreadable => readPrivileged env path p.file maxLines

/-! ### A file within the limits -/

theorem resultValue_text (path : String) (file : ProcFile) (read : ProcHeadRead)
    (readVia : String) : ∃ fields, resultValue path file read readVia = .object fields ∧
      ("text", .string (String.ofList read.text)) ∈ fields := by
  have hne : "text" ≠ "read_via" := by decide
  exact ⟨_, rfl, Value.mem_insertField_of_ne _ hne (Value.mem_insertField ..)⟩

/-- Lines of printable ASCII text, each with its end. -/
def ended (ls : List (List Char)) : List Char := ls.flatMap fun l => l ++ ['\n']

theorem length_ended (ls : List (List Char)) :
    (ended ls).length = (ls.map List.length).sum + ls.length := by
  induction ls with
  | nil => rfl
  | cons l ls ih =>
      simp only [ended, List.flatMap_cons, List.length_append, List.map_cons, List.sum_cons] at *
      simp only [List.length_cons, List.length_nil]
      omega

/-- A line that stands as it is in a file. -/
def IsLine (l : List Char) : Prop := l.all Utf8.isAscii ∧ '\n' ∉ l ∧ '\r' ∉ l

theorem ended_ascii {ls : List (List Char)} (h : ∀ l ∈ ls, IsLine l) :
    (ended ls).all Utf8.isAscii := by
  apply List.all_eq_true.mpr
  intro c hc
  obtain ⟨l, hl, hc⟩ := List.mem_flatMap.mp hc
  rcases List.mem_append.mp hc with hc | hc
  · exact List.all_eq_true.mp (h l hl).1 c hc
  · obtain rfl := List.mem_singleton.mp hc
    decide

/-- **A `maps` file within the limits is returned whole**, by the shell leg. -/
theorem procRead_maps {env : Env} {params : Value} {p : Params} {ls : List (List Char)}
    (hp : Params.ofValue params = some p) (hfile : p.file = .maps) (hpid : p.pid ≠ 0)
    (hc : env.content = some (Utf8.encode (ended ls))) (hls : ∀ l ∈ ls, IsLine l)
    (hne : ls ≠ []) (hlines : ls.length ≤ min (max (p.maxLines.getD defaultProcLines) 1) maxProcLines)
    (hbytes : (ended ls).length ≤ maxProcBytes) :
    ∃ path total returned truncated, procRead env params = .ok (resultValue path .maps
      ⟨total, returned, truncated, Text.join '\n' ls⟩ "shell") := by
  have hlen : (Utf8.encode (ended ls)).length ≤ maxProcBytes := by
    rwa [Utf8.length_encode_ascii (ended_ascii hls)]
  have hlines' : Text.lines (ended ls) = ls := Text.lines_flatMap fun l hl => (hls l hl).2
  have hraw : Utf8.encode (ended ls) ≠ [] := by
    intro h
    have := Utf8.length_le_encode (ended ls)
    rw [h] at this
    obtain ⟨l, ls', rfl⟩ := List.exists_cons_of_ne_nil hne
    simp [ended] at this
  have hread : readProcHead env.content .maps
      (min (max (p.maxLines.getD defaultProcLines) 1) maxProcLines) =
        .readable ⟨ls.length, returnedLines (Text.join '\n' ls), false, Text.join '\n' ls⟩ := by
    rw [hc, readProcHead]
    simp only [List.take_of_length_le (Nat.le_succ_of_le hlen), List.take_of_length_le hlen,
      decodeProcBytes, Utf8.fromUtf8Lossy_encode, takeLines, hlines',
      List.take_of_length_le hlines, if_neg hraw]
    simp [Nat.not_lt.mpr hlen]
  refine ⟨s!"/proc/{p.pid}/{ProcFile.maps.asStr}", ls.length, returnedLines (Text.join '\n' ls),
    false, ?_⟩
  simp only [procRead, hp, procPath, if_neg hpid, hfile, bind, Except.bind, pure, Except.pure, hread]

end RevBox.ProcRead
