import RevBox.Agent.Operations
import RevBox.Protocol.Envelope
import RevBox.Support.Tasks
import RevBox.Support.Text

/-!
# Agent — Activity

The write methods that share the idempotency ledger: `activity.launch` and
`activity.force_stop` of `provider/activity.rs` and `package.uninstall` of
`provider/package.rs`, as programs over the operations their awaits and ledger calls stand for.
`package.replace_native_library`, `frida.server.start` and `frida.server.stop` go through the
ledger in the same way; what they do between the lookup and the `finish_write` is one operation,
begun and then awaited, with an arbitrary outcome.

Requests start at their parsed parameters.  `finish_write` is `remember` and an audit line on
stderr; the line is left out.
-/

namespace RevBox.Activity

open Operations Prog

/-! ### Results -/

/-- `PackageWriteAction`. -/
inductive PackageWriteAction where
  | launch
  | forceStop
  | uninstall

/-- `PackageWriteAction` as it is serialised. -/
def PackageWriteAction.asStr : PackageWriteAction → String
  | launch => "launch"
  | forceStop => "force_stop"
  | uninstall => "uninstall"

/-- `WriteOutcome`. -/
inductive WriteOutcome where
  | executed
  | replayed
  | noOp

/-- `WriteOutcome` as it is serialised. -/
def WriteOutcome.asStr : WriteOutcome → String
  | executed => "executed"
  | replayed => "replayed"
  | noOp => "no_op"

/-- A field under `skip_serializing_if = "Option::is_none"`. -/
def optField (key : String) : Option Value → List (String × Value)
  | none => []
  | some v => [(key, v)]

/-- `PackageWriteResult`. -/
structure PackageWriteResult where
  action : PackageWriteAction
  package : String
  operationId : String
  outcome : WriteOutcome
  verified : Bool
  pid : Option Nat
  detail : Option String
  ranAsRoot : Bool

/-- `serialize_value` of a `PackageWriteResult`. -/
def PackageWriteResult.toValue (r : PackageWriteResult) : Value :=
  .ofFields ([("action", .string r.action.asStr), ("package", .string r.package),
      ("operation_id", .string r.operationId), ("outcome", .string r.outcome.asStr),
      ("verified", .bool r.verified)] ++ optField "pid" (r.pid.map .nat) ++
    optField "detail" (r.detail.map .string) ++ [("ran_as_root", .bool r.ranAsRoot)])

/-- `OperationStep`. -/
structure OperationStep where
  name : String
  ok : Bool
  detail : Option String

/-- `OperationStep` as it is serialised. -/
def OperationStep.toValue (s : OperationStep) : Value :=
  .ofFields ([("name", .string s.name), ("ok", .bool s.ok)] ++
    optField "detail" (s.detail.map .string))

/-- `PackageUninstallResult`. -/
structure PackageUninstallResult where
  package : String
  operationId : String
  outcome : WriteOutcome
  verified : Bool
  keepData : Bool
  steps : List OperationStep
  detail : Option String

/-- `serialize` of a `PackageUninstallResult`. -/
def PackageUninstallResult.toValue (r : PackageUninstallResult) : Value :=
  .ofFields ([("package", .string r.package), ("operation_id", .string r.operationId),
      ("outcome", .string r.outcome.asStr), ("verified", .bool r.verified),
      ("keep_data", .bool r.keepData), ("steps", .array (r.steps.map OperationStep.toValue))] ++
    optField "detail" (r.detail.map .string))

/-- `with_steps`. -/
def withSteps (error : AgentError) (steps : List OperationStep) : AgentError :=
  let details := error.details.getD (.object [])
  { error with details := some <|
      match details with
      | .object fields =>
          .object (Value.insertField "steps" (.array (steps.map OperationStep.toValue)) fields)
      | other => other }

/-- What a write outside `activity.rs` and `package.uninstall` finishes with: the result it
records, and the error it answers with when its own check failed. -/
structure SharedResult where
  noOp : Bool
  fields : List (String × Value)
  unverified : Option AgentError

/-- The serialised result of such a write. -/
def SharedResult.toValue (operationId : String) (r : SharedResult) : Value :=
  .ofFields (r.fields ++ [("operation_id", .string operationId),
    ("outcome", .string (if r.noOp then WriteOutcome.noOp else WriteOutcome.executed).asStr)])

/-! ### Operations -/

/-- The outcome of `Command::output` under `COMMAND_TIMEOUT`. -/
inductive CommandOutcome where
  | unavailable (reason : String)
  | timedOut
  | exited (code : Option Int) (stdout stderr : String)

/-- What a write does at its awaits and on the ledger.  A command is spawned at once and its
output awaited: a write dropped in between leaves the command running. -/
inductive Effect where
  | lookup (operationId : String)
  | remember (operationId : String) (value : Value)
  | spawn (program : String) (args : List String)
  | output
  | windowOver
  | sleep
  | prepare
  | body
  | bodyDone

/-- The replies: a spawn that fails says why. -/
@[reducible] def Reply : Effect → Type
  | .lookup _ => Option Value
  | .remember .. => Unit
  | .spawn .. => Option String
  | .output => CommandOutcome
  | .windowOver => Bool
  | .sleep => Unit
  | .prepare => Option AgentError
  | .body => Unit
  | .bodyDone => Except AgentError SharedResult

/-- What a write computes. -/
abbrev Write := Prog Effect Reply

/-- `Command::new(program).args(args).output()`, under `COMMAND_TIMEOUT`. -/
def command (program : String) (args : List String) : Write CommandOutcome := do
  match ← perform (Effect.spawn program args) with
  | some reason => pure (.unavailable reason)
  | none => perform Effect.output

/-- `operations::lookup`. -/
def lookup (operationId : String) : Write (Option Value) := perform (Effect.lookup operationId)

/-- `operations::remember`. -/
def remember (operationId : String) (value : Value) : Write Unit :=
  perform (Effect.remember operationId value)

/-- `started.elapsed() >= WRITE_VERIFY`. -/
def windowOver : Write Bool := perform Effect.windowOver

/-- `tokio::time::sleep(WRITE_VERIFY_POLL)`. -/
def sleep : Write Unit := perform Effect.sleep

/-- `MONKEY`. -/
def monkey : String := "/system/bin/monkey"

/-- `AM`. -/
def am : String := "/system/bin/am"

/-- `PIDOF`. -/
def pidof : String := "/system/bin/pidof"

/-- `PM`. -/
def pm : String := "/system/bin/pm"

/-- `LAUNCHER_CATEGORY`. -/
def launcherCategory : String := "android.intent.category.LAUNCHER"

/-- The operations that move the device. -/
def isDeviceCommand : Effect → Bool
  | .spawn program args =>
      program == monkey || program == am || (program == pm && args.head? == some "uninstall")
  | .body => true
  | _ => false

/-- The operation moved the device: it is a device command, and it was spawned. -/
def moves : (e : Effect) → Reply e → Bool
  | .spawn program args, failure =>
      isDeviceCommand (.spawn program args) && (failure : Option String).isNone
  | e, _ => isDeviceCommand e

/-- `command_unavailable`. -/
def commandUnavailable (command reason : String) : AgentError :=
  (AgentError.new .providerUnavailable s!"activity command unavailable: {command}").withDetails
    (reasonDetails reason)

/-- `run`. -/
def run (program : String) (args : List String) : Write (Except AgentError String) := do
  match ← command program args with
  | .timedOut => pure (.error (.new .deadlineExceeded "activity command timeout"))
  | .unavailable reason => pure (.error (commandUnavailable program reason))
  | .exited (some 0) stdout _ => pure (.ok stdout)
  | .exited _ _ _ =>
      pure (.error (.new .providerUnavailable s!"activity command failed: {program}"))

/-- `run_ok`. -/
def runOk (program : String) (args : List String) : Write (Except AgentError String) := do
  match ← command program args with
  | .timedOut => pure (.error (.new .deadlineExceeded "命令超时"))
  | .unavailable reason => pure (.error (commandUnavailable program reason))
  | .exited (some 0) stdout stderr => pure (.ok (stdout ++ stderr))
  | .exited code _ _ =>
      pure (.error (.new .providerUnavailable s!"{program} 退出码 {code.getD 0}"))

/-! ### Guards -/

/-- `is_safe_package_name`. -/
def isSafePackageName (package : String) : Bool :=
  package ≠ "" && decide (package.utf8ByteSize ≤ 256) &&
    package.toList.all fun c => Text.isAsciiAlphanumeric c || c = '.' || c = '_' || c = '-'

/-- `begin_write`. -/
def beginWrite (method package operationId : String) : Except AgentError Unit :=
  if !isSafePackageName package then
    .error ((AgentError.new .invalidRequest s!"包名非法: {package}").withDetails
      (reasonDetails "invalid_package_name"))
  else if !isValidOperationId operationId then
    .error ((AgentError.new .invalidRequest
      s!"{method} 需要合法且唯一的 operation_id，收到 {Text.debugStr operationId}").withDetails
        (reasonDetails "invalid_operation_id"))
  else .ok ()

/-- `pm_path_present`. -/
def pmPathPresent (package : String) : Write Bool := do
  match ← run pm ["path", package] with
  | .ok paths =>
      pure ((Text.lines paths.toList).any fun line =>
        Text.startsWith "package:".toList (Text.trimStart (Text.trimEndMatches '\r' line)))
  | .error _ => pure false

/-- `PackageKind`, as far as `classify_package_kind` tells it. -/
inductive PackageKind where
  | thirdParty
  | system
  deriving DecidableEq

/-- `classify_package_kind`. -/
def classifyPackageKind (stdout package : String) : PackageKind :=
  let wanted := "package:".toList ++ package.toList
  if (Text.lines stdout.toList).any fun line =>
      decide (Text.trim (Text.trimEndMatches '\r' line) = wanted) then .thirdParty
  else .system

/-- `guard_writable_package`. -/
def guardWritablePackage (package : String) : Write (Except AgentError Unit) := do
  if ← pmPathPresent package then
    match ← run pm ["list", "packages", "-3", package] with
    | .error e => pure (.error e)
    | .ok listing =>
        if classifyPackageKind listing package ≠ .thirdParty then
          pure (.error ((AgentError.new .preconditionFailed
            s!"{package} 不是第三方应用，Agent 拒绝对系统包执行写操作").withDetails
              (reasonDetails "system_package_protected")))
        else pure (.ok ())
  else
    pure (.error ((AgentError.new .notFound s!"{package} 未安装").withDetails
      (reasonDetails "package_not_installed")))

/-- `current_pid`. -/
def currentPid (package : String) : Write (Option Nat) := do
  match ← run pidof [package] with
  | .ok out => pure ((Text.splitWhitespace out.toList).head?.bind (Text.parseUnsigned (2 ^ 32)))
  | .error _ => pure none

/-- The loop of `wait_for_pid`.  Each round sleeps `WRITE_VERIFY_POLL`, so after
`WRITE_VERIFY / WRITE_VERIFY_POLL` rounds the window is over. -/
def pollPid (package : String) (wantSome : Bool) : Nat → Write (Option Nat)
  | 0 => currentPid package
  | rounds + 1 => do
      let observed ← currentPid package
      if wantSome = true ∧ observed.isSome = true then pure observed
      else if wantSome = false ∧ observed.isNone = true then pure none
      else
        if ← windowOver then pure observed
        else
          sleep
          pollPid package wantSome rounds

/-- `wait_for_pid`: 2000 ms in polls of 100 ms. -/
def waitForPid (package : String) (wantSome : Bool) : Write (Option Nat) :=
  pollPid package wantSome 20

/-! ### Write methods -/

/-- A write request: `ActivityLaunchParams`, `ActivityForceStopParams` or
`PackageUninstallParams`, or the part of another write's parameters its ledger use depends on.
For the frida methods `package` is the name of the server binary. -/
inductive WriteRequest where
  | launch (package operationId : String)
  | forceStop (package operationId : String)
  | uninstall (package operationId : String) (keepData : Bool) (user : Option Nat)
  | replaceNativeLibrary (package operationId : String)
  | fridaServerStart (package operationId : String)
  | fridaServerStop (package operationId : String)
  deriving DecidableEq

namespace WriteRequest

/-- The method name the request begins its write with. -/
def method : WriteRequest → String
  | launch .. => "activity.launch"
  | forceStop .. => "activity.force_stop"
  | uninstall .. => "package.uninstall"
  | replaceNativeLibrary .. => "package.replace_native_library"
  | fridaServerStart .. => "frida.server.start"
  | fridaServerStop .. => "frida.server.stop"

def package : WriteRequest → String
  | launch p _ | forceStop p _ | uninstall p _ _ _ | replaceNativeLibrary p _
  | fridaServerStart p _ | fridaServerStop p _ => p

def operationId : WriteRequest → String
  | launch _ o | forceStop _ o | uninstall _ o _ _ | replaceNativeLibrary _ o
  | fridaServerStart _ o | fridaServerStop _ o => o

end WriteRequest

/-- How every write opens: `begin_write`, then the ledger. -/
def withLedger (method package operationId : String) (write : Write (Except AgentError Value)) :
    Write (Except AgentError Value) :=
  match beginWrite method package operationId with
  | .error e => pure (.error e)
  | .ok () => do
      match ← lookup operationId with
      | some cached => pure (.ok (markReplayed cached))
      | none => write

/-- `finish_write`, and the value it leaves to answer with. -/
def finishWrite (operationId : String) (value : Value) : Write Value := do
  remember operationId value
  pure value

/-- The answer when `monkey` finds nothing to start. -/
def noLauncherActivity (package : String) : AgentError :=
  (AgentError.new .notFound s!"{package} 没有可启动的 LAUNCHER 入口").withDetails
    (reasonDetails "no_launcher_activity")

/-- `ActivityProvider::launch`. -/
def launch (package operationId : String) : Write (Except AgentError Value) :=
  withLedger "activity.launch" package operationId do
    match ← guardWritablePackage package with
    | .error e => pure (.error e)
    | .ok () =>
        match ← runOk monkey ["-p", package, "-c", launcherCategory, "1"] with
        | .error e =>
            pure (.error (if e.code = .providerUnavailable then noLauncherActivity package else e))
        | .ok output =>
            if Text.contains "No activities found to run".toList output.toList ||
                Text.contains "** Error".toList output.toList then
              pure (.error (noLauncherActivity package))
            else do
              let found ← waitForPid package true
              let pid := found.filter fun value => value ≠ 0
              let value ← finishWrite operationId (PackageWriteResult.toValue
                { action := .launch, package, operationId, outcome := .executed,
                  verified := pid.isSome, pid,
                  detail := some (if pid.isSome then "pid_seen" else "pid_not_seen"),
                  ranAsRoot := false })
              pure (.ok value)

/-- `ActivityProvider::force_stop`. -/
def forceStop (package operationId : String) : Write (Except AgentError Value) :=
  withLedger "activity.force_stop" package operationId do
    match ← guardWritablePackage package with
    | .error e => pure (.error e)
    | .ok () =>
        let before ← waitForPid package false
        if before.isNone then do
          let value ← finishWrite operationId (PackageWriteResult.toValue
            { action := .forceStop, package, operationId, outcome := .noOp, verified := true,
              pid := none, detail := some "not_running", ranAsRoot := false })
          pure (.ok value)
        else
          match ← runOk am ["force-stop", package] with
          | .error e => pure (.error e)
          | .ok _ => do
              let gone := (← waitForPid package false).isNone
              let value ← finishWrite operationId (PackageWriteResult.toValue
                { action := .forceStop, package, operationId, outcome := .executed,
                  verified := gone, pid := before,
                  detail := some (if gone then "pid_gone" else "pid_still_present"),
                  ranAsRoot := false })
              pure (.ok value)

/-- The arguments of `pm uninstall`. -/
def uninstallArgs (package : String) (keepData : Bool) (user : Option Nat) : List String :=
  ["uninstall"] ++ (if keepData then ["-k"] else []) ++
    (user.map fun u => ["--user", toString u]).getD [] ++ [package]

/-- `uninstall` of `PackageProvider`. -/
def uninstall (package operationId : String) (keepData : Bool) (user : Option Nat) :
    Write (Except AgentError Value) :=
  withLedger "package.uninstall" package operationId do
    let steps : List OperationStep := [⟨"guard_target", true, none⟩]
    match ← guardWritablePackage package with
    | .error e => pure (.error (withSteps e steps))
    | .ok () =>
        match ← run pm (uninstallArgs package keepData user) with
        | .error e => pure (.error (withSteps e (steps ++ [⟨"pm_uninstall", false, some e.message⟩])))
        | .ok output =>
            let rejected := Text.contains "Failure".toList output.toList ||
              Text.contains "DELETE_FAILED".toList output.toList
            let trimmed := Text.trim output.toList
            let steps := steps ++ [⟨"pm_uninstall", !rejected, some (.ofList (trimmed.take 160))⟩]
            if rejected then
              pure (.error (withSteps ((AgentError.new .preconditionFailed
                s!"pm 拒绝卸载 {package}: {String.ofList trimmed}").withDetails
                  (reasonDetails "pm_rejected")) steps))
            else do
              let gone := !(← pmPathPresent package)
              let steps := steps ++ [⟨"verify_removed", gone, none⟩]
              let value ← finishWrite operationId (PackageUninstallResult.toValue
                { package, operationId, outcome := .executed, verified := gone, keepData, steps,
                  detail := some (if gone then "path_gone" else "path_still_present") })
              -- the result stands in the ledger even when the check failed
              if !gone then
                pure (.error (withSteps ((AgentError.new .internal
                  s!"卸载后 {package} 的 pm path 仍在").withDetails
                    (reasonDetails "verify_failed")) steps))
              else pure (.ok value)

/-- The writes whose bodies are not embedded.  `prepare` is what the frida methods check before
`begin_write`. -/
def sharedWrite (method package operationId : String) : Write (Except AgentError Value) := do
  match ← perform Effect.prepare with
  | some e => pure (.error e)
  | none =>
      withLedger method package operationId do
        perform Effect.body
        match ← perform Effect.bodyDone with
        | .error e => pure (.error e)
        | .ok r => do
            let value ← finishWrite operationId (r.toValue operationId)
            match r.unverified with
            | some e => pure (.error e)
            | none => pure (.ok value)

/-- The method of a request. -/
def handler : WriteRequest → Write (Except AgentError Value)
  | .launch package operationId => launch package operationId
  | .forceStop package operationId => forceStop package operationId
  | .uninstall package operationId keepData user => uninstall package operationId keepData user
  | .replaceNativeLibrary package operationId =>
      sharedWrite "package.replace_native_library" package operationId
  | .fridaServerStart package operationId => sharedWrite "frida.server.start" package operationId
  | .fridaServerStop package operationId => sharedWrite "frida.server.stop" package operationId

/-! ### The process -/

/-- What the writes share: the clock, in nanoseconds, and the ledger. -/
structure Shared where
  now : Nat
  ledger : Ledger

/-- What the surroundings answer an operation with. -/
structure Turn where
  /-- how long the operation takes before it reads the clock -/
  elapsed : Nat := 0
  /-- how long `lookup` takes between its two readings -/
  pruned : Nat := 0
  hash : String → Nat := fun _ => 0
  failure : Option String := none
  outcome : CommandOutcome := .timedOut
  isOver : Bool := true
  refusal : Option AgentError := none
  result : Except AgentError SharedResult := .ok ⟨true, [], none⟩

/-- One operation. -/
def exec (sh : Shared) : (e : Effect) → Turn → Option (Reply e × Shared)
  | .lookup operationId, x =>
      let now := sh.now + x.elapsed
      let pruneNow := now + x.pruned
      let (value, ledger) := Operations.lookup x.hash sh.ledger now pruneNow operationId
      some (value, ⟨pruneNow, ledger⟩)
  | .remember operationId value, x =>
      let now := sh.now + x.elapsed
      some ((), ⟨now, Operations.remember x.hash sh.ledger now operationId value⟩)
  | .spawn .., x => some (x.failure, { sh with now := sh.now + x.elapsed })
  | .output, x => some (x.outcome, { sh with now := sh.now + x.elapsed })
  | .windowOver, x => some (x.isOver, { sh with now := sh.now + x.elapsed })
  | .sleep, x => some ((), { sh with now := sh.now + 100000000 + x.elapsed })
  | .prepare, x => some (x.refusal, { sh with now := sh.now + x.elapsed })
  | .body, x => some ((), { sh with now := sh.now + x.elapsed })
  | .bodyDone, x => some (x.result, { sh with now := sh.now + x.elapsed })

/-- The Agent process: its write handlers over one ledger, and time that passes. -/
def system : Tasks.System Effect Reply WriteRequest (Except AgentError Value) Shared Turn Nat where
  handler := handler
  exec := exec
  env sh elapsed := some { sh with now := sh.now + elapsed }

/-- The pools of the Agent process. -/
abbrev Pool := Tasks.Pool Effect Reply WriteRequest (Except AgentError Value) Shared

/-- The moves of the Agent process. -/
abbrev Label := Tasks.Label WriteRequest Turn Nat

end RevBox.Activity
