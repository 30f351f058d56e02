import RevBox.Agent.HostedTable
import RevBox.Support.Prog

/-!
# Agent — Hosted

The methods of `HostedProvider` in `provider/hosted.rs` that work on the run table: `start`,
`adopt`, `status`, `list`, `stop` and `write`.

Each is a program over what it asks of the phone.  What a method does with the table is done
under one lock, so the parts between two locks are programs of their own: `startLaunch` and
`startInsert`, `adoptMeasure` and `adoptCommit`, `writeCheck` and `writeFinish`.
-/

namespace RevBox.Hosted

open Proc Prog

/-! ### What the methods ask of the phone -/

/-- `std::fs::Metadata`, as far as the checks look at it. -/
structure Metadata where
  isFile : Bool
  mode : Nat

/-- `Child::try_wait`: an exit status as its code and its signal, nothing yet, or an error. -/
inductive WaitReply where
  | exited (code signal : Option Int)
  | running
  | failed (text : String)
  deriving DecidableEq, Repr

/-- A spawned child, its pid, and the write end of its stdin where one was asked for. -/
structure Spawned where
  id : Option Nat
  child : Child
  stdin : Option Pipe

/-- A record file as `ensure_loaded` finds it. -/
inductive RecordFile where
  | unreadable
  | garbled
  | stored (record : RunRecord)

/-- What the methods ask.  `pollStat` is the read of `/proc/<pid>/stat` in `poll_dead`, `readStat`
every other; `firstOf n` is which of `n` values a `HashMap` comes to first. -/
inductive Op where
  | readStat (pid : Nat)
  | pollStat (pid : Nat)
  | procExists (pid : Nat)
  | readCmdline (pid : Nat)
  | readExe (pid : Nat)
  | readStatus (pid : Nat)
  | readProcStat
  | kill (pid : Nat) (signal : KillSignal)
  | tryWait (child : Child)
  | confirmTimedOut
  | metadata (path : String)
  | isElf (path : String)
  | openLog (path : String)
  | dupLog
  | spawn (path : String) (args : List String) (piped : Bool)
  | feed (pipe : Pipe) (text : Option String) (close : Bool)
  | listStateDir
  | readRecord (stem : String)
  | removeRecord (stem : String)
  | persist (record : RunRecord)
  | urandom
  | unixNow
  | effectiveUid
  | firstOf (n : Nat)

/-- The replies.  A failed read of `/proc/<pid>/stat` gives the text of its error, a failed spawn
its text and error number, a failed draw the operation that failed. -/
@[reducible] def Reply : Op → Type
  | .readStat _ | .pollStat _ => Except String (List Char)
  | .procExists _ => Bool
  | .readCmdline _ => Option (List UInt8)
  | .readExe _ => Option String
  | .readStatus _ | .readProcStat => Option (List Char)
  | .kill _ _ => Option Int
  | .tryWait _ => WaitReply
  | .confirmTimedOut => Bool
  | .metadata _ => Except IoError Metadata
  | .isElf _ => Except IoError Bool
  | .openLog _ => Except IoError Unit
  | .dupLog => Except String Unit
  | .spawn _ _ _ => Except (String × Option Int) Spawned
  | .feed _ _ _ => Unit
  | .listStateDir => Except IoError (List String)
  | .readRecord _ => RecordFile
  | .removeRecord _ | .persist _ => Unit
  | .urandom => Except (String × IoError) (List UInt8)
  | .unixNow | .effectiveUid | .firstOf _ => Nat

/-- What a part of a method computes. -/
abbrev Call := Prog Op Reply

/-! ### Constants and paths -/

/-- `HOSTED_DIR`. -/
def hostedDir : String := "/data/local/tmp"

/-- `STATE_DIR`. -/
def stateDir : String := "/data/local/tmp/app-reverse-tools-hosted"

/-- `MAX_HOSTED_STDIN_BYTES`. -/
def maxStdinBytes : Nat := 64 * 1024

/-- `MAX_HOSTED_WRITE_BYTES`. -/
def maxWriteBytes : Nat := 64 * 1024

/-- `ADOPT_WINDOW_SECS`. -/
def adoptWindowSecs : Nat := 120

/-- The path of a hosted file. -/
def pathOf (name : String) : String := hostedDir ++ "/" ++ name

/-- The log of a hosted file. -/
def logPathOf (name : String) : String := s!"{hostedDir}/.{name}.run.log"

/-- `hosted_path`. -/
def hostedPath (name : String) : Except AgentError String :=
  let valid := name ≠ "" && name.toList.head? ≠ some '.' && decide (name.utf8ByteSize ≤ 128) &&
    name.toList.all fun c => Text.isAsciiAlphanumeric c || c = '_' || c = '.' || c = '-'
  if valid then .ok (pathOf name)
  else .error (invalid "invalid_name" "托管文件名只允许字母数字与 _ . -，且不得以 . 开头")

/-! ### Reading `/proc` -/

/-- `read_start_time_ticks`. -/
def readStartTimeTicks (pid : Nat) : Call (Option Nat) := do
  match ← perform (Op.readStat pid) with
  | .ok text => pure (parseStartTimeTicks text)
  | .error _ => pure none

/-- `reconcile`. -/
def reconcile (recordedTicks pid : Nat) : Call (RunState × Option String) := do
  if pid = 0 then pure (.unknown, some "pid_zero")
  else
    match ← readStartTimeTicks pid with
    | some ticks =>
        if ticks = recordedTicks then pure (.running, none)
        else pure (.exited, some s!"pid_reused_new_start_ticks={ticks}")
    | none =>
        if ← perform (Op.procExists pid) then pure (.unknown, some "start_time_unreadable")
        else pure (.exited, some "process_gone")

/-- One round of `poll_dead`. -/
def deadNow (pid : Nat) : Call Bool := do
  match ← perform (Op.pollStat pid) with
  | .error _ => pure true
  | .ok status => pure (decide (stateLetter status = some 'Z'))

/-- The loop of `poll_dead`.  Each round sleeps 50 ms, so after 30 of them `STOP_CONFIRM_TIMEOUT`
is over. -/
def pollRounds (pid : Nat) : Nat → Call Bool
  | 0 => deadNow pid
  | rounds + 1 => do
      if ← deadNow pid then pure true
      else if ← perform Op.confirmTimedOut then pure false
      else pollRounds pid rounds

/-- `poll_dead`: 1500 ms in rounds of 50 ms. -/
def pollDead (pid : Nat) : Call Bool := pollRounds pid 30

/-- `send_signal`. -/
def sendSignal (pid : Nat) (signal : KillSignal) : Call SignalResult := do
  if rawPid pid = 0 then pure (.failed einval)
  else
    let errno ← perform (Op.kill (rawPid pid) signal)
    pure (.ofErrno errno)

/-! ### Children -/

/-- The record of a run whose child was waited for. -/
def RunRecord.withExit (record : RunRecord) (code signal : Option Int) : RunRecord :=
  { record with
    exitCode := code
    detail := some (match signal with
      | some signal => s!"exited_signal_{signal}"
      | none => "exited") }

/-- `reap`. -/
def reap (run : ManagedRun) : Call ManagedRun :=
  match run.child with
  | none => pure run
  | some child => do
      match ← perform (Op.tryWait child) with
      | .exited code signal =>
          pure { run with record := run.record.withExit code signal, child := none }
      | .running =>
          pure { run with
            record := { run.record with detail := some "still_running" }, child := none }
      | .failed text =>
          pure { run with
            record := { run.record with detail := some s!"wait_failed: {text}" }, child := none }

/-- One round of the loop of `refresh`. -/
def refreshRun (run : ManagedRun) : Call ManagedRun :=
  match run.child with
  | some child => do
      match ← perform (Op.tryWait child) with
      | .exited code signal =>
          pure { run with
            record := { run.record.withExit code signal with state := .exited }, child := none }
      | .running => pure { run with record := { run.record with state := .running } }
      | .failed text =>
          pure { run with record :=
            { run.record with state := .unknown, detail := some s!"wait_failed: {text}" } }
  | none => do
      let (state, detail) ← reconcile run.record.startTimeTicks run.record.pid
      pure { run with record :=
        { run.record with state := state, detail := detail.orElse fun _ => run.record.detail } }

/-- The loop of `refresh` over the runs not yet seen. -/
def refreshRuns : List ManagedRun → Table → Call Table
  | [], t => pure t
  | run :: rest, t => do
      let run' ← refreshRun run
      refreshRuns rest (t.put run')

/-- `refresh`. -/
def refresh (t : Table) : Call Table := refreshRuns t.runs t

/-- What `refresh` returns: the records by the time they were started. -/
def sortedRuns (t : Table) : List (RunSource × RunRecord) :=
  (t.runs.map fun run => (run.source, run.record)).mergeSort fun a b =>
    decide (a.2.startedAtUnix ≤ b.2.startedAtUnix)

/-! ### `ensure_loaded` -/

/-- The run a record file comes back as. -/
def loadRun (record : RunRecord) : Call ManagedRun := do
  let stdinMode := if record.stdinMode = some .opened then some .lost else record.stdinMode
  let (state, detail) ← reconcile record.startTimeTicks record.pid
  pure {
    record := { record with
      stdinMode := stdinMode, state := state, exitCode := none,
      detail := detail.orElse fun _ => record.detail }
    child := none
    stdin := none
    source := .reconciled }

/-- The loop of `ensure_loaded` over the record files. -/
def loadRuns : List String → Table → Call Table
  | [], t => pure t
  | stem :: rest, t => do
      match ← perform (Op.readRecord stem) with
      | .unreadable => loadRuns rest t
      | .garbled =>
          perform (Op.removeRecord stem)
          loadRuns rest t
      | .stored record =>
          let run ← loadRun record
          loadRuns rest (t.insert run)

/-- `ensure_loaded`. -/
def ensureLoaded (t : Table) : Call (Except AgentError Table) := do
  if t.loaded then pure (.ok t)
  else
    match ← perform Op.listStateDir with
    | .ok stems =>
        let loaded ← loadRuns stems .empty
        pure (.ok loaded.markLoaded)
    | .error error =>
        if error.kind = .notFound then pure (.ok Table.empty.markLoaded)
        else pure (.error (ioError "read_state_dir" stateDir error))

/-- `random_handle`. -/
def randomHandle : Call (Except AgentError String) := do
  match ← perform Op.urandom with
  | .ok bytes =>
      pure (.ok (String.ofList (bytes.flatMap fun b =>
        [Json.hexDigit (b.toNat / 16), Json.hexDigit (b.toNat % 16)])))
  | .error (what, error) => pure (.error (ioError what "/dev/urandom" error))

/-! ### `start` -/

/-- `check_executable_target`. -/
def checkExecutableTarget (path : String) : Call (Except AgentError Unit) := do
  match ← perform (Op.metadata path) with
  | .error error => pure (.error (ioError "stat" path error))
  | .ok metadata =>
      if !metadata.isFile then
        pure (.error (invalid "not_a_regular_file" s!"托管目标不是普通文件: {path}"))
      else
        match ← perform (Op.isElf path) with
        | .ok true =>
            if metadata.mode &&& 0o100 = 0 then
              pure (.error (invalid "not_executable" s!"缺少 owner 执行位，请先调 hosted.chmod: {path}"))
            else pure (.ok ())
        | _ => pure (.error (invalid "not_an_elf" s!"托管目标不是 ELF 可执行文件: {path}"))

/-- `validated_executable`. -/
def validatedExecutable (name : String) : Call (Except AgentError String) :=
  match hostedPath name with
  | .error e => pure (.error e)
  | .ok path => do
      match ← checkExecutableTarget path with
      | .error e => pure (.error e)
      | .ok () => pure (.ok path)

/-- `take_one_shot_stdin`. -/
def takeOneShotStdin (text : Option String) : Except AgentError (Option String) :=
  match text with
  | none => .ok none
  | some text =>
      if text = "" then .ok none
      else if text.utf8ByteSize > maxStdinBytes then
        .error (invalid "stdin_too_large"
          (s!"启动输入 {text.utf8ByteSize} 字节，超过上限 {maxStdinBytes} 字节；" ++
            "这里不截断，请改小，或改用运行中持续输入"))
      else .ok (some text)

/-- The refusal to start as root. -/
def rootRequired (uid : Nat) : AgentError :=
  (AgentError.new .permissionDenied "以 root 启动需要 root 通道，Agent 当前以 shell 身份运行").withDetails
    (.ofFields [("reason", .string "root_required"), ("agent_uid", .number (.int uid))])

/-- The error of a failed spawn. -/
def spawnFailed (name text : String) (errno : Option Int) : AgentError :=
  (AgentError.new .internal s!"启动 {name} 失败: {text}").withDetails
    (.ofFields [("reason", .string "spawn_failed"),
      ("errno", (errno.map fun n => Value.number (.int n)).getD .null)])

/-- The mode a started run is recorded with: by the pipe it got, not by the one it asked for. -/
def startStdinMode (pipe : Option Pipe) (interactive : Bool) : StdinMode :=
  match pipe, interactive with
  | some _, true => .opened
  | some _, false => .once
  | none, _ => .none

/-- `start` of a child that runs, from its handle to its second lock. -/
def recordLaunch (p : StartParams) (child : Child) (pid startTimeTicks : Nat) (pipe : Option Pipe) :
    Call (Except AgentError ManagedRun) := do
  match ← randomHandle with
  | .error e => pure (.error e)
  | .ok handle =>
      let startedAtUnix ← perform Op.unixNow
      let record : RunRecord := {
        handle := handle
        name := p.name
        pid := pid
        startTimeTicks := startTimeTicks
        startedAtUnix := startedAtUnix
        logPath := logPathOf p.name
        args := p.args
        stdinMode := some (startStdinMode pipe p.interactiveStdin)
        root := false
        state := .running
        exitCode := none
        detail := if startTimeTicks = 0 then some "start_time_unreadable" else none }
      perform (Op.persist record)
      pure (.ok {
        record := record
        child := some child
        stdin := if p.interactiveStdin then pipe else none
        source := .spawned })

/-- `start` once its file is found fit: the child is spawned, its identity is read, and its stdin
is fed by a task of its own, which closes the pipe unless it is kept. -/
def launch (p : StartParams) (path : String) (stdinData : Option String) :
    Call (Except AgentError ManagedRun) := do
  let piped := stdinData.isSome || p.interactiveStdin
  match ← perform (Op.spawn path p.args piped) with
  | .error (text, errno) => pure (.error (spawnFailed p.name text errno))
  | .ok spawned =>
      let pid := spawned.id.getD 0
      let startTimeTicks := (← readStartTimeTicks pid).getD 0
      match if piped then spawned.stdin else none with
      | some pipe =>
          perform (Op.feed pipe stdinData (!p.interactiveStdin))
          recordLaunch p spawned.child pid startTimeTicks (some pipe)
      | none => recordLaunch p spawned.child pid startTimeTicks none

/-- `start` once the table is loaded, up to its second lock. -/
def startLoaded (p : StartParams) : Call (Except AgentError ManagedRun) := do
  if p.root then
    pure (.error (rootRequired (← perform Op.effectiveUid)))
  else
    match ← validatedExecutable p.name with
    | .error e => pure (.error e)
    | .ok path =>
        match ← perform (Op.openLog (logPathOf p.name)) with
        | .error error => pure (.error (ioError "open_log" (logPathOf p.name) error))
        | .ok () =>
            match ← perform Op.dupLog with
            | .error text => pure (.error (.new .internal s!"dup 日志句柄失败: {text}"))
            | .ok () =>
                match takeOneShotStdin p.stdinData with
                | .error e => pure (.error e)
                | .ok stdinData => launch p path stdinData

/-- `start`, up to its second lock. -/
def startLaunch (t : Table) (p : StartParams) : Call (Table × Except AgentError ManagedRun) := do
  match ← ensureLoaded t with
  | .error e => pure (t, .error e)
  | .ok t => pure (t, ← startLoaded p)

/-- `start`, from its second lock. -/
def startInsert (t : Table) (run : ManagedRun) : Table := t.insert run

/-! ### `stop` -/

/-- The refusal of a pid the caller does not expect. -/
def pidMismatch (handle : String) (expected actual : Nat) : AgentError :=
  (AgentError.new .preconditionFailed
    s!"句柄 {handle} 的 PID 与调用方看到的不一致，已拒绝终止").withDetails
    (.ofFields [("reason", .string "pid_mismatch"), ("expected_pid", .number (.int expected)),
      ("actual_pid", .number (.int actual))])

/-- The refusal to signal a process that cannot be told. -/
def identityUnverifiable (pid : Nat) : AgentError :=
  (AgentError.new .preconditionFailed s!"无法核对 pid={pid} 的身份，已拒绝终止").withDetails
    (.ofFields [("reason", .string "identity_unverifiable"),
      ("hint", .string "该进程可能属于其它 uid；root 支路请走 Legacy su -c kill")])

/-- The refusal of `kill` for want of permission. -/
def notOwner (handle : String) (pid uid : Nat) : AgentError :=
  (AgentError.new .permissionDenied s!"无权限终止 pid={pid}").withDetails
    (.ofFields [("reason", .string "not_owner"), ("handle", .string handle),
      ("agent_uid", .number (.int uid))])

/-- The answer of `stop` that finds the process gone: the record is put down as exited, for a
reason, and its file is deleted. -/
def alreadyGone (t : Table) (run : ManagedRun) (detail : String) (verified : Bool) :
    Call (Table × Except AgentError StopResult) := do
  let run := { run with
    record := { run.record with state := .exited, detail := some detail }, child := none }
  perform (Op.removeRecord run.handle)
  pure (t.put run, .ok ⟨run.record, .alreadyGone, verified, true⟩)

/-- `stop` from its signal on. -/
def stopSignal (t : Table) (p : StopParams) (run : ManagedRun) (verified : Bool) :
    Call (Table × Except AgentError StopResult) := do
  let pid := run.record.pid
  match ← sendSignal pid p.signal with
  | .gone => alreadyGone t run "process_gone" verified
  | .denied => pure (t, .error (notOwner p.handle pid (← perform Op.effectiveUid)))
  | .failed errno => pure (t, .error (.new .internal s!"kill 失败 pid={pid} errno={errno}"))
  | .sent =>
      if ← pollDead pid then
        let run ← reap run
        let run := { run with record := { run.record with
          state := .exited, detail := run.record.detail.orElse fun _ => some "stopped" } }
        perform (Op.removeRecord run.handle)
        pure (t.put run, .ok ⟨run.record, .signaled, verified, true⟩)
      else
        let run := { run with
          record := { run.record with detail := some "signal_sent_not_confirmed" } }
        pure (t.put run, .ok ⟨run.record, .signaled, verified, false⟩)

/-- `stop` of a run whose pid is the one the caller expects. -/
def stopRun (t : Table) (p : StopParams) (run : ManagedRun) :
    Call (Table × Except AgentError StopResult) := do
  let pid := run.record.pid
  match ← readStartTimeTicks pid with
  | some ticks =>
      if ticks = run.record.startTimeTicks then stopSignal t p run true
      else alreadyGone t run s!"pid_reused_new_start_ticks={ticks}" false
  | none =>
      if run.child.isSome then stopSignal t p run false
      else if ← perform (Op.procExists pid) then pure (t, .error (identityUnverifiable pid))
      else alreadyGone t run "process_gone" false

/-- `stop` once the table is loaded. -/
def stopLoaded (t : Table) (p : StopParams) : Call (Table × Except AgentError StopResult) :=
  match t.get? p.handle with
  | none => pure (t, .error (noSuchRun p.handle))
  | some run =>
      match p.expectedPid with
      | some expected =>
          if expected ≠ run.record.pid then
            pure (t, .error (pidMismatch p.handle expected run.record.pid))
          else stopRun t p run
      | none => stopRun t p run

/-- `stop`. -/
def stop (t : Table) (p : StopParams) : Call (Table × Except AgentError StopResult) := do
  match ← ensureLoaded t with
  | .error e => pure (t, .error e)
  | .ok t => stopLoaded t p

/-! ### `status` and `list` -/

/-- `status`. -/
def status (t : Table) (handle : String) : Call (Table × Except AgentError StatusResult) := do
  match ← ensureLoaded t with
  | .error e => pure (t, .error e)
  | .ok t =>
      let t ← refresh t
      match (sortedRuns t).find? fun r => r.2.handle = handle with
      | none => pure (t, .error (noSuchRun handle))
      | some (source, record) => pure (t, .ok ⟨record, source ≠ .spawned⟩)

/-- The runs `list` returns, from its second lock. -/
def listRuns (t : Table) : Call (Table × List RunRecord) := do
  let t ← refresh t
  pure (t, (sortedRuns t).map Prod.snd)

/-! ### `adopt` -/

/-- `comm_matches`. -/
def commMatches (name comm : String) : Bool :=
  name = comm || (decide (name.utf8ByteSize > 15) && comm.toList.isPrefixOf name.toList &&
    decide (comm.utf8ByteSize = 15))

/-- What `adopt` measures of a process. -/
structure Evidence where
  comm : String
  state : Char
  argv0 : Option String
  exe : Option String
  uid : Option Nat
  startedUnix : Option Nat

/-- `rsplit('/').next()`. -/
def baseName (path : String) : String := String.ofList (path.toList.reverse.takeWhile (· ≠ '/')).reverse

/-- `strip_suffix(" (deleted)")`, where it is there. -/
def trimDeleted (exe : String) : String :=
  let suffix := " (deleted)".toList
  if suffix.isSuffixOf exe.toList then
    String.ofList (exe.toList.take (exe.toList.length - suffix.length))
  else exe

/-- `adopt_refusal` of the launch command and the executable. -/
def imageRefusal (name path : String) (e : Evidence) : Option (String × String) :=
  match e.argv0 with
  | none => some ("argv0_unreadable", s!"读不到 pid 的 cmdline，无法确认它跑的是 {name}，拒绝认领")
  | some value =>
      if baseName value ≠ name ∧ value ≠ path then
        some ("argv0_mismatch", s!"启动命令行是 {value}，不是托管文件 {name}，拒绝认领")
      else
        match e.exe with
        | some value =>
            if trimDeleted value ≠ path then
              some ("exe_mismatch", s!"pid 实际运行的可执行文件是 {value}，不是 {name}，拒绝认领")
            else none
        | none => none

/-- `adopt_refusal` of the start time. -/
def windowRefusal (startedUnix : Option Nat) (now : Nat) : Option (String × String) :=
  match startedUnix with
  | none => some ("start_time_unreadable", "算不出进程的启动时刻，无法判断它是不是刚才那次启动，拒绝认领")
  | some started =>
      if started > min (now + 5) (2 ^ 64 - 1) then
        some ("start_time_in_future",
          s!"进程启动时刻 {started} 晚于当前时间 {now}，设备时钟不可信，拒绝认领")
      else if now - started > adoptWindowSecs then
        some ("out_of_window",
          s!"这个进程已经跑了 {now - started}s，超过认领窗口 {adoptWindowSecs}s，不能算成本次启动的产物")
      else none

/-- `adopt_refusal`. -/
def adoptRefusal (name path : String) (e : Evidence) (now : Nat) : Option (String × String) :=
  if e.state = 'Z' ∨ e.state = 'X' ∨ e.state = 'x' then
    some ("zombie", s!"pid 的进程状态是 {e.state}（已死待回收），不能认领成在跑")
  else if !commMatches name e.comm then
    some ("comm_mismatch", s!"设备上的进程名是 {e.comm}，与托管文件 {name} 对不上，拒绝认领")
  else
    match imageRefusal name path e with
    | some refusal => some refusal
    | none =>
        if e.uid = none then
          some ("uid_unreadable", "读不到进程属主，界面上就定不了该走哪条终止链路，拒绝认领")
        else windowRefusal e.startedUnix now

/-- A refusal of `adopt` about a pid. -/
def adoptRefused (reason message : String) (pid : Nat) : AgentError :=
  (AgentError.new .preconditionFailed message).withDetails
    (.ofFields [("reason", .string reason), ("pid", .number (.int pid))])

/-- A process `adopt` has found fit, before its second lock. -/
structure Measured where
  params : AdoptParams
  ticks : Nat
  uid : Option Nat
  startedUnix : Option Nat
  proofs : List String

/-- What an adoption is founded on. -/
def proofsOf (p : AdoptParams) (e : Evidence) : List String :=
  [ s!"comm={e.comm}"
  , "argv0=" ++ e.argv0.getD ""
  , match e.uid with
    | some uid => s!"uid={uid}"
    | none => "uid_unreadable"
  , match e.exe with
    | some exe => s!"exe={exe}"
    | none => "exe_unreadable(跨 uid)"
  , match e.startedUnix with
    | some started => s!"started_at={started}"
    | none => "start_time_unreadable" ] ++
  (if p.root ≠ decide (e.uid = some 0) then
    [s!"root_claim_discrepant(claimed={p.root},measured={decide (e.uid = some 0)})"]
  else [])

/-- `adopt` of a process whose `stat` was read, up to its second lock. -/
def measure (p : AdoptParams) (path : String) (stat : List Char) :
    Call (Except AgentError Measured) := do
  match parseCommPpidState stat with
  | none =>
      pure (.error (adoptRefused "stat_unparsable"
        s!"/proc/{p.pid}/stat 解析不出 comm/state，拒绝认领" p.pid))
  | some (comm, _, state) =>
      match parseStartTimeTicks stat with
      | none =>
          pure (.error (adoptRefused "start_time_unreadable"
            s!"/proc/{p.pid}/stat 读不到启动时刻，拒绝认领" p.pid))
      | some ticks =>
          let argv0 := (← perform (Op.readCmdline p.pid)).bind cmdlineArgv0
          let exe ← perform (Op.readExe p.pid)
          let uid := (← perform (Op.readStatus p.pid)).bind realUid
          let startedUnix := processStartUnix ((← perform Op.readProcStat).bind bootTimeUnix) ticks
          let evidence : Evidence :=
            ⟨String.ofList comm, state, argv0.map String.ofList, exe, uid, startedUnix⟩
          match adoptRefusal p.name path evidence (← perform Op.unixNow) with
          | some (reason, message) => pure (.error (adoptRefused reason message p.pid))
          | none => pure (.ok ⟨p, ticks, uid, startedUnix, proofsOf p evidence⟩)

/-- `adopt` once the table is loaded, up to its second lock. -/
def adoptLoaded (p : AdoptParams) : Call (Except AgentError Measured) :=
  match hostedPath p.name with
  | .error e => pure (.error e)
  | .ok path =>
      if p.pid = 0 then pure (.error (invalid "pid_zero" "pid 为 0 不能认领为运行记录"))
      else do
        match ← perform (Op.metadata path) with
        | .error error => pure (.error (ioError "stat" path error))
        | .ok metadata =>
            if !metadata.isFile then
              pure (.error (invalid "not_a_regular_file" s!"托管目标不是普通文件: {path}"))
            else
              match ← perform (Op.readStat p.pid) with
              | .error text =>
                  pure (.error (adoptRefused "stat_unreadable"
                    s!"pid={p.pid} 读不到 /proc/{p.pid}/stat，拒绝认领: {text}" p.pid))
              | .ok stat => measure p path stat

/-- `adopt`, up to its second lock. -/
def adoptMeasure (t : Table) (p : AdoptParams) : Call (Table × Except AgentError Measured) := do
  match ← ensureLoaded t with
  | .error e => pure (t, .error e)
  | .ok t => pure (t, ← adoptLoaded p)

/-- The runs `adopt` takes for its process. -/
def sameRunning (t : Table) (pid : Nat) : List ManagedRun :=
  t.runs.filter fun run => run.record.pid = pid && run.record.state = .running

/-- The record of an adopted process. -/
def adoptedRecord (handle : String) (m : Measured) (startedAtUnix : Nat) : RunRecord where
  handle := handle
  name := m.params.name
  pid := m.params.pid
  startTimeTicks := m.ticks
  startedAtUnix := startedAtUnix
  logPath := logPathOf m.params.name
  args := m.params.args
  stdinMode := some .none
  root := decide (m.uid = some 0)
  state := .running
  exitCode := none
  detail := some "adopted"

/-- `adopt` of a process no running record has the pid of. -/
def adoptInsert (t : Table) (m : Measured) : Call (Table × Except AgentError AdoptResult) := do
  match ← randomHandle with
  | .error e => pure (t, .error e)
  | .ok handle =>
      let startedAtUnix ← match m.startedUnix with
        | some started => pure started
        | none => perform Op.unixNow
      let record := adoptedRecord handle m startedAtUnix
      perform (Op.persist record)
      pure (t.insert ⟨record, none, none, .adopted⟩, .ok ⟨record, m.proofs, false⟩)

/-- `adopt`, from its second lock. -/
def adoptCommit (t : Table) (m : Measured) : Call (Table × Except AgentError AdoptResult) := do
  match sameRunning t m.params.pid with
  | [] => adoptInsert t m
  | run :: rest =>
      let i ← perform (Op.firstOf (rest.length + 1))
      pure (t, .ok ⟨((run :: rest).getD i run).record, m.proofs, true⟩)

/-! ### `write` -/

/-- The refusal of input nobody would read. -/
def processExited (exitCode : Option Int) : AgentError :=
  invalid "process_exited"
    (s!"进程已退出，这句输入没人收（" ++
      (match exitCode with
        | some code => s!"Some({code})"
        | none => "None") ++ "）")

/-- The refusal of input no channel is open for. -/
def stdinUnavailable (mode : Option StdinMode) : AgentError :=
  let reason := if mode = some .opened then "stdin_handle_gone" else "stdin_closed"
  (invalid "stdin_unavailable"
    (s!"这条记录现在没有可用的输入通道（设备侧状态：" ++
      (mode.map StdinMode.asStr).getD "老版本 Agent 未告知" ++ "）")).withDetails
    (.ofFields [("reason", .string reason),
      ("stdin_mode", (mode.map fun m => Value.string m.asStr).getD .null)])

/-- `write`'s look at whether the process has exited: a child is asked, and reaped if it has;
without a child the record is believed. -/
def exitedNow (run : ManagedRun) : Call (ManagedRun × Bool) :=
  match run.child with
  | some child => do
      match ← perform (Op.tryWait child) with
      | .exited _ _ =>
          let run ← reap run
          pure (run, true)
      | _ => pure (run, false)
  | none => pure (run, decide (run.record.state = .exited))

/-- `write` once the table is loaded, up to its await: the write end it takes. -/
def writeCheckLoaded (t : Table) (p : WriteParams) : Call (Table × Except AgentError Pipe) :=
  match t.get? p.handle with
  | none => pure (t, .error (noSuchRun p.handle))
  | some run => do
      let (run, gone) ← exitedNow run
      if gone then pure (t.put run, .error (processExited run.record.exitCode))
      else
        match run.stdin, run.record.stdinMode with
        | some pipe, some .opened => pure (t.put run, .ok pipe)
        | _, mode => pure (t.put run, .error (stdinUnavailable mode))

/-- `write`, up to its await. -/
def writeCheck (t : Table) (p : WriteParams) : Call (Table × Except AgentError Pipe) :=
  if p.text.utf8ByteSize > maxWriteBytes then
    pure (t, .error (invalid "write_too_large"
      s!"单次输入 {p.text.utf8ByteSize} 字节，超过上限 {maxWriteBytes} 字节"))
  else do
    match ← ensureLoaded t with
    | .error e => pure (t, .error e)
    | .ok t => writeCheckLoaded t p

/-- `drop_stdin`. -/
def dropStdin (t : Table) (handle : String) (mode : StdinMode) : Call Table :=
  match t.get? handle with
  | none => pure t
  | some run => do
      let run := { run with
        stdin := none, record := { run.record with stdinMode := some mode } }
      perform (Op.persist run.record)
      pure (t.put run)

/-- `write` after the pipe took the text, `failure` being its error if it did not. -/
def writeFinish (t : Table) (p : WriteParams) (failure : Option String) :
    Call (Table × Except AgentError WriteResult) :=
  match failure with
  | some text => do
      let t ← dropStdin t p.handle .lost
      pure (t, .error ((AgentError.new .internal s!"写入失败: {text}").withDetails
        (reasonDetails "stdin_broken")))
  | none =>
      match t.get? p.handle with
      | none => pure (t, .error (unknownHandle s!"写入期间运行记录 {p.handle} 消失了"))
      | some run => do
          let run := if p.close then
              { run with stdin := none, record := { run.record with stdinMode := some .once } }
            else run
          perform (Op.persist run.record)
          pure (t.put run, .ok ⟨run.record, p.text.utf8ByteSize, run.record.stdinMode.getD .none⟩)

end RevBox.Hosted
