import RevBox.Agent.SystemProvider
import RevBox.Desktop.AgentClient
import RevBox.Device.Disk
import RevBox.Support.Sections

/-!
# Desktop — AgentBootstrap

`adapters/agent_bootstrap.rs`: the adb commands that install, start, stop and reach the Agent on a
device, and what is made of their output.  Every method is a program over the operations of `Op`,
which also holds what `services/agent_manager.rs` does with its sessions; deadlines of the commands
are not modelled.
-/

namespace RevBox.AgentManager

open AgentClient Prog RootShell Routing

/-! ### Names on the device -/

/-- `AGENT_ABSTRACT_SOCKET`. -/
def agentAbstractSocket : String := "app_reverse_tools_agent_v1"

/-- `AGENT_REMOTE_BINARY`. -/
def agentRemoteBinary : String := "/data/local/tmp/app_reverse_tools_agent"

/-- `AGENT_PROCESS_NAME`. -/
def agentProcessName : String := "app_reverse_tools_agent"

/-- `AGENT_REMOTE_PID`. -/
def agentRemotePid : String := "/data/local/tmp/app_reverse_tools_agent.pid"

/-- `AGENT_REMOTE_LOG`. -/
def agentRemoteLog : String := "/data/local/tmp/app_reverse_tools_agent.log"

/-- `AGENT_REMOTE_ROLLBACK`. -/
def agentRemoteRollback : String := "/data/local/tmp/app_reverse_tools_agent.rollback"

/-- `AGENT_REMOTE_SESSION_PREFIX`. -/
def agentRemoteSessionPrefix : String := "/data/local/tmp/.app_reverse_tools_agent"

/-- `AGENT_IDLE_EXIT_SECS`. -/
def agentIdleExitSecs : Nat := 30

/-- `DeviceAbi`. -/
inductive DeviceAbi where
  | arm64V8a
  | armeabiV7a
  | x86_64
  | x86
  deriving DecidableEq

/-- `DeviceAbi::parse`. -/
def DeviceAbi.parse (value : List Char) : Option DeviceAbi :=
  let value := Text.trim value
  if value = "arm64-v8a".toList then some .arm64V8a
  else if value = "armeabi-v7a".toList then some .armeabiV7a
  else if value = "x86_64".toList then some .x86_64
  else if value = "x86".toList then some .x86
  else none

/-- `DeviceAbi::as_str`. -/
def DeviceAbi.asStr : DeviceAbi → String
  | .arm64V8a => "arm64-v8a"
  | .armeabiV7a => "armeabi-v7a"
  | .x86_64 => "x86_64"
  | .x86 => "x86"

/-! ### Errors -/

/-- `AgentBootstrapError`. -/
inductive AgentBootstrapError where
  | adbUnavailable (detail : String)
  | deviceOffline (serial detail : String)
  | unsupportedAbi (serial abi : String)
  | binaryUnavailable (detail : String)
  | commandFailed (step detail : String)
  | credential (detail : String)
  | invalidForwardPort (detail : String)
  | integrity (expected actual : String)

/-- `AgentBootstrapError` as it is shown. -/
def AgentBootstrapError.text : AgentBootstrapError → String
  | .adbUnavailable detail => s!"adb is unavailable: {detail}"
  | .deviceOffline serial detail => s!"device {serial} is not online: {detail}"
  | .unsupportedAbi serial abi => s!"device {serial} reported unsupported ABI: {abi}"
  | .binaryUnavailable detail => s!"agent binary is unavailable: {detail}"
  | .commandFailed step detail => s!"agent bootstrap step {step} failed: {detail}"
  | .credential detail => s!"failed to generate session credentials: {detail}"
  | .invalidForwardPort detail => s!"adb returned an invalid dynamic forward port: {detail}"
  | .integrity expected actual =>
      s!"Agent artifact integrity check failed: expected {expected}, got {actual}"

/-! ### Commands -/

/-- The adb commands of the bootstrap, after `-s <serial>`. -/
inductive Command where
  | getState
  | readAbi
  | stopAgent
  | sha256 (path : String)
  | isRunning
  | push (source target : String)
  | chmod (mode path : String)
  | promote (staging : String)
  | removeFile (path : String)
  | rollback
  | makeSession (dir : String)
  | startAgent (tokenPath : String)
  | removeSession (tokenPath dir : String)
  | forward
  | forwardList
  | forwardRemove (rule : String)
  deriving DecidableEq

/-- The identity check of the scripts that look for the Agent among the processes of its name. -/
def isAgentTest : String :=
  s!"[ \"$(readlink /proc/$p/exe 2>/dev/null)\" = \"{agentRemoteBinary}\" ]"

/-- The head of the loops over the processes of that name. -/
def forAgentPids : String := s!"for p in $(pidof {agentProcessName} 2>/dev/null); do "

/-- `stop_agent_script`. -/
def stopAgentScript : String :=
  s!"if [ -f {agentRemotePid} ]; then pid=$(cat {agentRemotePid}); " ++
  "case \"$pid\" in ''|*[!0-9]*) ;; *) kill \"$pid\" 2>/dev/null || true; attempt=0; " ++
  "while kill -0 \"$pid\" 2>/dev/null && [ \"$attempt\" -lt 20 ]; " ++
  "do sleep 0.05; attempt=$((attempt + 1)); done; " ++
  "if kill -0 \"$pid\" 2>/dev/null; then kill -9 \"$pid\" 2>/dev/null || true; sleep 0.05; fi ;; " ++
  "esac; fi;              " ++
  forAgentPids ++ "if " ++ isAgentTest ++ "; then kill \"$p\" 2>/dev/null || true; fi; done;" ++
  "              attempt=0; while true; do left=; " ++
  forAgentPids ++ "if " ++ isAgentTest ++ "; then left=\"$left $p\"; fi; done; " ++
  "[ -z \"$left\" ] && break; [ \"$attempt\" -ge 20 ] && break; " ++
  "sleep 0.05; attempt=$((attempt + 1)); done;              " ++
  forAgentPids ++ "if " ++ isAgentTest ++ "; then kill -9 \"$p\" 2>/dev/null || true; fi; done; " ++
  s!"sleep 0.05; rm -f {agentRemotePid}"

/-- The script of `is_running`. -/
def isRunningScript : String :=
  forAgentPids ++ "if " ++ isAgentTest ++ "; then echo running; fi; done; exit 0"

/-- The script of `remote_sha256`. -/
def sha256Script (path : String) : String :=
  s!"if [ -f {path} ]; then if command -v sha256sum >/dev/null 2>&1; " ++
  s!"then sha256sum {path}; else toybox sha256sum {path}; fi; fi"

/-- The script that puts the staged binary in place. -/
def promoteScript (staging : String) : String :=
  s!"rm -f {agentRemoteRollback}; had_old=0; if [ -f {agentRemoteBinary} ]; " ++
  s!"then mv {agentRemoteBinary} {agentRemoteRollback} || exit 1; had_old=1; fi; " ++
  s!"if mv {staging} {agentRemoteBinary} && chmod 700 {agentRemoteBinary}; then :; " ++
  s!"else rm -f {agentRemoteBinary}; if [ \"$had_old\" = 1 ]; " ++
  s!"then mv {agentRemoteRollback} {agentRemoteBinary}; fi; exit 1; fi"

/-- The script of `rollback_install`. -/
def rollbackScript : String :=
  s!"if [ -f {agentRemoteRollback} ]; then rm -f {agentRemoteBinary}; " ++
  s!"mv {agentRemoteRollback} {agentRemoteBinary} && chmod 700 {agentRemoteBinary}; " ++
  "echo restored; fi"

/-- The script of `start`. -/
def startScript (tokenPath : String) : String :=
  s!"nohup {agentRemoteBinary} --localabstract {agentAbstractSocket} " ++
  s!"--auth-token-file {tokenPath} --idle-exit-secs {agentIdleExitSecs} " ++
  s!">{agentRemoteLog} 2>&1 </dev/null & echo $! >{agentRemotePid}; " ++
  s!"chmod 600 {agentRemoteLog} {agentRemotePid}"

/-- The arguments of a command: `cmd_get_state`, `cmd_shell` and the others of `adb.rs`. -/
def Command.args : Command → List String
  | .getState => ["get-state"]
  | .readAbi => ["shell", "getprop ro.product.cpu.abi"]
  | .stopAgent => ["shell", stopAgentScript]
  | .sha256 path => ["shell", sha256Script path]
  | .isRunning => ["shell", isRunningScript]
  | .push source target => ["push", source, target]
  | .chmod mode path => ["shell", s!"chmod {mode} {path}"]
  | .promote staging => ["shell", promoteScript staging]
  | .removeFile path => ["shell", s!"rm -f {path}"]
  | .rollback => ["shell", rollbackScript]
  | .makeSession dir => ["shell", s!"umask 077; mkdir {dir} && chmod 700 {dir}"]
  | .startAgent tokenPath => ["shell", startScript tokenPath]
  | .removeSession tokenPath dir => ["shell", s!"rm -f {tokenPath}; rmdir {dir} 2>/dev/null || true"]
  | .forward => ["forward", "tcp:0", s!"localabstract:{agentAbstractSocket}"]
  | .forwardList => ["forward", "--list"]
  | .forwardRemove rule => ["forward", "--remove", rule]

/-- What comes of a command: adb is not there, it cannot be run, or it ran. -/
inductive AdbReply where
  | unavailable (detail : String)
  | failed (detail : String)
  | ran (output : AdbRunOutput)

/-! ### Sessions -/

/-- `AgentSessionState`. -/
inductive AgentSessionState where
  | disconnected
  | adbOnline
  | installing
  | starting
  | handshaking
  | ready
  | degraded
  | incompatible
  deriving DecidableEq

/-- `AgentSessionStatus`. -/
structure AgentSessionStatus where
  serial : String
  state : AgentSessionState
  agentVersion : Option String
  protocolVersion : Option Nat
  permissions : Option PermissionInfo
  providers : List ProviderInfo
  capabilities : List CapabilityInfo
  localPort : Option Nat
  lastError : Option String

namespace AgentSessionStatus

/-- `AgentSessionStatus::disconnected`. -/
def disconnected (serial : String) : AgentSessionStatus :=
  ⟨serial, .disconnected, none, none, none, [], [], none, none⟩

/-- `AgentSessionStatus::transition`. -/
def transition (s : AgentSessionStatus) (state : AgentSessionState) : AgentSessionStatus :=
  { s with state := state, lastError := none }

/-- `AgentSessionStatus::fail`. -/
def fail (s : AgentSessionStatus) (state : AgentSessionState) (error : String) :
    AgentSessionStatus :=
  { s with state := state, localPort := none, lastError := some error }

end AgentSessionStatus

/-- `HelloResult`. -/
structure HelloResult where
  protocolVersion : Nat
  agentVersion : String
  permissions : PermissionInfo
  providers : List ProviderInfo
  capabilities : List CapabilityInfo

/-- `SessionPlan`. -/
structure SessionPlan where
  authToken : String
  expectedAgentVersion : String

/-! ### Operations -/

/-- What the methods do at their awaits, under the session's inner locks and outside the process.
A client is known by its number. -/
inductive Op where
  | adb (serial : Option String) (command : Command)
  | isFile (path : String)
  | randomHex (count : Nat)
  | tokenFile (token : String)
  | connectForwarded (port : Nat)
  | hello (token : String)
  | beforeDeadline
  | health (client : Nat)
  | disconnectClient (client : Nat) (reason : String)
  | sessionFor (serial : String)
  | known (serial : String)
  | status (serial : String)
  | setStatus (serial : String) (f : AgentSessionStatus → AgentSessionStatus)
  | client (serial : String)
  | setClient (serial : String) (client : Option Nat)
  | takeClient (serial : String)
  | takeForward (serial : String)
  | forgetForward (serial : String)
  | setForward (serial : String) (rule : String)
  | plan (serial : String)
  | setPlan (serial : String) (plan : Option SessionPlan)
  | countRecovery (serial : String)
  | ownedForwards

/-- The replies. -/
@[reducible] def Reply : Op → Type
  | .adb .. => AdbReply
  | .isFile _ => Bool
  | .randomHex _ => Except String String
  | .tokenFile _ => Except String String
  | .connectForwarded _ => Except String Unit
  | .hello _ => Except AgentClientError (Nat × HelloResult)
  | .beforeDeadline => Bool
  | .health _ => Except AgentClientError Value
  | .disconnectClient .. => Unit
  | .sessionFor _ => Unit
  | .known _ => Bool
  | .status _ => AgentSessionStatus
  | .setStatus .. => Unit
  | .client _ => Option Nat
  | .setClient .. => Unit
  | .takeClient _ => Option Nat
  | .takeForward _ => Option String
  | .forgetForward _ => Unit
  | .setForward .. => Unit
  | .plan _ => Option SessionPlan
  | .setPlan .. => Unit
  | .countRecovery _ => Unit
  | .ownedForwards => List (String × Nat)

/-- What the methods compute. -/
abbrev Call (α : Type) : Type := Sections.Call String Op Reply α

/-! ### Running commands -/

/-- What is shown of a command that came to nothing. -/
def commandDetail (output : AdbRunOutput) : String :=
  let detail := if Text.trim output.stderr = [] then Text.trim output.stdout
    else Text.trim output.stderr
  s!"exit {showExit output.exitCode}: {String.ofList detail}"

/-- `command_error`. -/
def commandError (step : String) (output : AdbRunOutput) : AgentBootstrapError :=
  .commandFailed step (commandDetail output)

/-- `AgentBootstrap::run`. -/
def run (serial : String) (command : Command) : Call (Except AgentBootstrapError AdbRunOutput) := do
  match ← Sections.op (Op.adb (some serial) command) with
  | .unavailable detail => pure (.error (.adbUnavailable detail))
  | .failed detail => pure (.error (.commandFailed "run_adb" detail))
  | .ran output => pure (.ok output)

/-- `run_checked`. -/
def runChecked (serial : String) (command : Command) (step : String) :
    Call (Except AgentBootstrapError AdbRunOutput) := do
  match ← run serial command with
  | .error e => pure (.error e)
  | .ok output =>
      if output.exitCode ≠ some 0 then pure (.error (commandError step output))
      else pure (.ok output)

/-- A checked command whose output nobody reads. -/
def runDone (serial : String) (command : Command) (step : String) :
    Call (Except AgentBootstrapError Unit) := do
  match ← runChecked serial command step with
  | .error e => pure (.error e)
  | .ok _ => pure (.ok ())

/-- `ensure_online`. -/
def ensureOnline (serial : String) : Call (Except AgentBootstrapError Unit) := do
  match ← run serial .getState with
  | .error e => pure (.error e)
  | .ok output =>
      if output.exitCode = some 0 ∧ Text.trim output.stdout = "device".toList then pure (.ok ())
      else pure (.error (.deviceOffline serial (commandDetail output)))

/-- `device_abi`. -/
def deviceAbi (serial : String) : Call (Except AgentBootstrapError DeviceAbi) := do
  match ← run serial .readAbi with
  | .error e => pure (.error e)
  | .ok output =>
      if output.exitCode ≠ some 0 then pure (.error (commandError "read_abi" output))
      else
        match DeviceAbi.parse output.stdout with
        | some abi => pure (.ok abi)
        | none => pure (.error (.unsupportedAbi serial (String.ofList (Text.trim output.stdout))))

/-- `char::is_ascii_hexdigit`. -/
def isAsciiHexdigit (c : Char) : Bool :=
  Text.isAsciiDigit c || (0x41 ≤ c.toNat && c.toNat ≤ 0x46) || (0x61 ≤ c.toNat && c.toNat ≤ 0x66)

/-- `parse_sha256`. -/
def parseSha256 (stdout : List Char) : Option String :=
  ((Text.splitWhitespace stdout).head?.filter fun digest =>
    digest.length = 64 && digest.all isAsciiHexdigit).map fun digest =>
      String.ofList (digest.map Char.toLower)

/-- `remote_sha256`. -/
def remoteSha256 (serial path : String) : Call (Except AgentBootstrapError (Option String)) := do
  match ← runChecked serial (.sha256 path) "sha256_binary" with
  | .error e => pure (.error e)
  | .ok output =>
      if Text.trim output.stdout = [] then pure (.ok none)
      else
        match parseSha256 output.stdout with
        | some digest => pure (.ok (some digest))
        | none => pure (.error (commandError "parse_sha256_binary" output))

/-- `installed_sha256`. -/
def installedSha256 (serial : String) : Call (Except AgentBootstrapError (Option String)) :=
  remoteSha256 serial agentRemoteBinary

/-- `is_running`. -/
def isRunning (serial : String) : Call (Except AgentBootstrapError Bool) := do
  match ← runChecked serial .isRunning "probe_agent_running" with
  | .error e => pure (.error e)
  | .ok output =>
      pure (.ok ((Text.lines output.stdout).any fun line => Text.trim line = "running".toList))

/-- `invalidate_remote_artifact`. -/
def invalidateRemoteArtifact (serial : String) : Call (Except AgentBootstrapError Unit) :=
  runDone serial (.removeFile agentRemoteBinary) "invalidate_artifact"

/-- `remove_remote_file`. -/
def removeRemoteFile (serial path : String) : Call (Except AgentBootstrapError Unit) :=
  runDone serial (.removeFile path) "remove_remote_file"

/-- `random_hex`. -/
def randomHex (count : Nat) : Call (Except AgentBootstrapError String) := do
  match ← Sections.op (Op.randomHex count) with
  | .error detail => pure (.error (.credential detail))
  | .ok text => pure (.ok text)

/-! ### Installing -/

/-- `AgentArtifact`, as far as it is read here. -/
structure AgentArtifact where
  path : String
  abi : DeviceAbi
  sha256 : String
  expectedAgentVersion : String

/-- `AgentInstallOutcome`. -/
structure AgentInstallOutcome where
  changed : Bool
  rollbackAvailable : Bool
  previousSha256 : Option String
  installedSha256 : String

/-- An installation that stops takes its staged file away, whether that succeeds or not. -/
def dropStaging {α : Type} (serial staging : String) (e : AgentBootstrapError) :
    Call (Except AgentBootstrapError α) := do
  let _ ← removeRemoteFile serial staging
  pure (.error e)

/-- `install_artifact`, from the push on. -/
def pushArtifact (serial binary expected : String) (previous : Option String) :
    Call (Except AgentBootstrapError AgentInstallOutcome) := do
  match ← randomHex 12 with
  | .error e => pure (.error e)
  | .ok suffix =>
      let staging := s!"{agentRemoteBinary}.new.{suffix}"
      match ← runChecked serial (.push binary staging) "push_binary" with
      | .error e => dropStaging serial staging e
      | .ok _ =>
          match ← runChecked serial (.chmod "700" staging) "chmod_binary" with
          | .error e => dropStaging serial staging e
          | .ok _ =>
              match ← remoteSha256 serial staging with
              | .error e => dropStaging serial staging e
              | .ok staged =>
                  if staged ≠ some expected then
                    dropStaging serial staging (.integrity expected (staged.getD "missing"))
                  else
                    match ← runChecked serial (.promote staging) "promote_binary" with
                    | .error e => dropStaging serial staging e
                    | .ok _ => pure (.ok ⟨true, previous.isSome, previous, expected⟩)

/-- `install_artifact`. -/
def installArtifact (serial binary expectedSha256 : String) :
    Call (Except AgentBootstrapError AgentInstallOutcome) := do
  if !(← Sections.op (Op.isFile binary)) then pure (.error (.binaryUnavailable binary))
  else
    let expected := String.ofList (expectedSha256.toList.map Char.toLower)
    match ← remoteSha256 serial agentRemoteBinary with
    | .error e => pure (.error e)
    | .ok previous =>
        if previous = some expected then
          match ← remoteSha256 serial agentRemoteRollback with
          | .error e => pure (.error e)
          | .ok rollback =>
              pure (.ok ⟨false, rollback.isSome, rollback.or previous, expected⟩)
        else pushArtifact serial binary expected previous

/-- `commit_install`. -/
def commitInstall (serial : String) : Call (Except AgentBootstrapError Unit) :=
  removeRemoteFile serial agentRemoteRollback

/-- `rollback_install`. -/
def rollbackInstall (serial : String) : Call (Except AgentBootstrapError Bool) := do
  match ← runChecked serial .rollback "rollback_binary" with
  | .error e => pure (.error e)
  | .ok output =>
      pure (.ok ((Text.lines output.stdout).any fun line => Text.trim line = "restored".toList))

/-! ### Starting and stopping -/

/-- `AgentLaunch`. -/
structure AgentLaunch where
  authToken : String
  remoteSessionDir : String
  remoteTokenPath : String

/-- `cleanup_launch`. -/
def cleanupLaunch (serial : String) (launch : AgentLaunch) : Call Unit := do
  let _ ← runDone serial (.removeSession launch.remoteTokenPath launch.remoteSessionDir)
    "remove_token_directory"
  pure ()

/-- `start`, from the directory of the token on. -/
def startWith (serial tokenFile : String) (launch : AgentLaunch) :
    Call (Except AgentBootstrapError AgentLaunch) := do
  match ← runChecked serial (.makeSession launch.remoteSessionDir) "create_token_directory" with
  | .error e => pure (.error e)
  | .ok _ =>
      match ← runChecked serial (.push tokenFile launch.remoteTokenPath) "push_token" with
      | .error e =>
          cleanupLaunch serial launch
          pure (.error e)
      | .ok _ =>
          match ← runChecked serial (.chmod "600" launch.remoteTokenPath) "chmod_token" with
          | .error e =>
              cleanupLaunch serial launch
              pure (.error e)
          | .ok _ =>
              match ← runChecked serial (.startAgent launch.remoteTokenPath) "start_agent" with
              | .error e =>
                  cleanupLaunch serial launch
                  pure (.error e)
              | .ok _ => pure (.ok launch)

/-- `start`. -/
def start (serial : String) : Call (Except AgentBootstrapError AgentLaunch) := do
  match ← randomHex 32 with
  | .error e => pure (.error e)
  | .ok authToken =>
      match ← randomHex 16 with
      | .error e => pure (.error e)
      | .ok suffix =>
          let dir := s!"{agentRemoteSessionPrefix}.{suffix}"
          match ← Sections.op (Op.tokenFile authToken) with
          | .error detail => pure (.error (.credential detail))
          | .ok path => startWith serial path ⟨authToken, dir, s!"{dir}/token"⟩

/-- `stop`. -/
def stop (serial : String) : Call (Except AgentBootstrapError Unit) :=
  runDone serial .stopAgent "stop_agent"

/-! ### Forwarding -/

/-- The host side of a rule. -/
def tcp (port : Nat) : String := "tcp:" ++ String.ofList (Text.decimal port)

/-- `parse_dynamic_forward_port`. -/
def parseDynamicForwardPort (stdout : List Char) : Option Nat :=
  (Text.parseUnsigned (2 ^ 16) (Text.trim stdout)).filter fun port => 0 < port

/-- What `forward` makes of its output. -/
def forwardPort (output : AdbRunOutput) : Except AgentBootstrapError Nat :=
  if output.exitCode ≠ some 0 then .error (commandError "forward" output)
  else
    match parseDynamicForwardPort output.stdout with
    | none => .error (.invalidForwardPort (String.ofList (Text.trim output.stdout)))
    | some port => .ok port

/-- `AgentBootstrap::forward`. -/
def forward (serial : String) : Call (Except AgentBootstrapError (String × Nat)) := do
  match ← run serial .forward with
  | .error e => pure (.error e)
  | .ok output =>
      match forwardPort output with
      | .error e => pure (.error e)
      | .ok port => pure (.ok (tcp port, port))

/-- `remove_forward`. -/
def removeForward (serial rule : String) : Call (Except AgentBootstrapError Unit) :=
  runDone serial (.forwardRemove rule) "remove_forward"

/-- `parse_forward_list`. -/
def parseForwardList (stdout : List Char) : List (String × String × String) :=
  (Text.lines stdout).filterMap fun line =>
    match Text.splitWhitespace (Text.trim (Text.trimEndMatches '\r' line)) with
    | serial :: host :: remote :: _ =>
        some (String.ofList serial, String.ofList host, String.ofList remote)
    | _ => none

/-- The port of a rule's host side. -/
def portOf (rule : String) : Option Nat :=
  if Text.startsWith "tcp:".toList rule.toList then
    Text.parseUnsigned (2 ^ 16) (rule.toList.drop 4)
  else none

/-- The loop of `sweep_agent_forwards`. -/
def sweepRules (keep : List (String × Nat)) : List (String × String × String) → Call (List String)
  | [] => pure []
  | (serial, rule, remote) :: rest => do
      if remote ≠ s!"localabstract:{agentAbstractSocket}" then sweepRules keep rest
      else if (portOf rule).any fun port => keep.contains (serial, port) then sweepRules keep rest
      else
        match ← Sections.op (Op.adb (some serial) (.forwardRemove rule)) with
        | .ran _ => do
            let removed ← sweepRules keep rest
            pure (s!"{serial} {rule}" :: removed)
        | _ => sweepRules keep rest

/-- `sweep_agent_forwards`. -/
def sweepAgentForwards (keep : List (String × Nat)) : Call (List String) := do
  match ← Sections.op (Op.adb none .forwardList) with
  | .ran output => sweepRules keep (parseForwardList output.stdout)
  | _ => pure []

end RevBox.AgentManager
