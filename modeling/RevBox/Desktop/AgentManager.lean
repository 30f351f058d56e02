import RevBox.Desktop.AgentBootstrap

/-!
# Desktop — AgentManager

`services/agent_manager.rs`: the methods that connect and disconnect the Agent of a device, each
under the lock of its session, and the sweep of forward rules, which takes no lock.  A method that
returns gives its lock back.
-/

namespace RevBox.AgentManager

open AgentClient Prog RootShell Routing Sections

/-! ### Errors -/

/-- `AgentManagerError`. -/
inductive AgentManagerError where
  | invalidSerial
  | bootstrap (e : AgentBootstrapError)
  | unsupportedAbi (abi : String)
  | connect (port : Nat) (detail : String)
  | client (e : AgentClientError)
  | incompatibleProtocol (actual expected : Nat)
  | incompatibleAgentVersion (actual expected : String)
  | startupFailed (cause : AgentManagerError) (rollback : String)
  | staleArtifactNeedsReinstall (cause : AgentManagerError)

/-- `AgentClientError` as it is shown. -/
def clientErrorText : AgentClientError → String
  | .transportLost reason => s!"agent transport lost: {reason}"
  | .deadlineExceeded => "agent request deadline exceeded"
  | .cancelled => "agent request cancelled"
  | .protocol reason => s!"agent protocol error: {reason}"
  | .remote e => s!"agent returned {e.code.asStr}: {e.message}"

/-- `AgentManagerError` as it is shown. -/
def AgentManagerError.text : AgentManagerError → String
  | .invalidSerial => "invalid device serial"
  | .bootstrap e => e.text
  | .unsupportedAbi abi => s!"Agent artifact discovery only supports arm64-v8a, got {abi}"
  | .connect port detail => s!"failed to connect to forwarded Agent port {port}: {detail}"
  | .client e => clientErrorText e
  | .incompatibleProtocol actual expected =>
      s!"Agent protocol {actual} is incompatible with Desktop protocol {expected}"
  | .incompatibleAgentVersion actual expected =>
      s!"Agent version {actual} does not match selected artifact version {expected}"
  | .startupFailed cause rollback => s!"Agent startup failed: {cause.text}; rollback: {rollback}"
  | .staleArtifactNeedsReinstall cause => cause.text

/-- What a connection comes to. -/
abbrev Connected : Type := Except AgentManagerError AgentSessionStatus

/-- `validate_serial`. -/
def validSerial (serial : String) : Bool :=
  Text.trim serial.toList ≠ [] && !serial.toList.contains '\x00'

/-! ### Steps on a session -/

/-- `DeviceSession::transition`. -/
def transition (serial : String) (state : AgentSessionState) : Call Unit :=
  op (Op.setStatus serial fun s => s.transition state)

/-- `DeviceSession::fail`. -/
def fail (serial : String) (state : AgentSessionState) (error : String) : Call Unit :=
  op (Op.setStatus serial fun s => s.fail state error)

/-- A method that fails in `state`. -/
def failWith (serial : String) (state : AgentSessionState) (e : AgentManagerError) :
    Call Connected := do
  fail serial state e.text
  pure (.error e)

/-- The rule on record is taken out and removed, whether that succeeds or not. -/
def dropForward (serial : String) : Call Unit := do
  match ← op (Op.takeForward serial) with
  | none => pure ()
  | some rule => do
      let _ ← removeForward serial rule
      pure ()

/-- `session_state_from_hello`. -/
def sessionStateFromHello (hello : HelloResult) : AgentSessionState :=
  if (hello.providers.any fun p => match p.health with | .ready => false | _ => true) ||
      hello.capabilities.any fun c => !c.available then .degraded
  else .ready

/-- The status `handshake` leaves of an accepted greeting. -/
def AgentSessionStatus.accept (s : AgentSessionStatus) (port : Nat) (hello : HelloResult) :
    AgentSessionStatus where
  serial := s.serial
  state := sessionStateFromHello hello
  agentVersion := some hello.agentVersion
  protocolVersion := some hello.protocolVersion
  permissions := some hello.permissions
  providers := hello.providers
  capabilities := hello.capabilities
  localPort := some port
  lastError := none

/-- The state a failed greeting leaves the session in. -/
def helloFailureState : AgentClientError → AgentSessionState
  | .remote e => if e.code = .incompatibleVersion then .incompatible else .disconnected
  | _ => .disconnected

/-- The reason a failed greeting leaves. -/
def helloFailureReason (e : AgentClientError) : String :=
  match e with
  | .remote remote =>
      if remote.code = .permissionDenied then
        clientErrorText e ++
          "；多半是设备上还留着上一个 Agent 实例占着通信口                              " ++
          "（另一个会话窗口或上次没退净的连接）。关掉其它会话后重试，                             " ++
          "或拔插一次 USB"
      else clientErrorText e
  | _ => clientErrorText e

/-- `handshake`, once the Agent has answered. -/
def greeted (serial : String) (port : Nat) (expected : String) (client : Nat)
    (hello : HelloResult) : Call Connected := do
  if hello.protocolVersion ≠ protocolVersion then
    failWith serial .incompatible (.incompatibleProtocol hello.protocolVersion protocolVersion)
  else if hello.agentVersion ≠ expected then
    failWith serial .incompatible (.incompatibleAgentVersion hello.agentVersion expected)
  else
    op (Op.setStatus serial fun s => s.accept port hello)
    op (Op.setClient serial (some client))
    let status ← op (Op.status serial)
    pure (.ok status)

/-- The loop of `handshake`.  Each round waits `CONNECT_RETRY_DELAY`, so after
`CONNECT_TIMEOUT / CONNECT_RETRY_DELAY` rounds the deadline is over. -/
def handshakeRounds (serial : String) (port : Nat) (token expected : String) : Nat → Call Connected
  | 0 => failWith serial .disconnected (.connect port "Agent startup deadline exceeded")
  | rounds + 1 => do
      match ← op (Op.connectForwarded port) with
      | .error detail => failWith serial .disconnected (.connect port detail)
      | .ok () =>
          match ← op (Op.hello token) with
          | .ok (client, hello) => greeted serial port expected client hello
          | .error e => do
              let lost := match e with
                | .transportLost _ => true
                | _ => false
              if ← (if lost then op Op.beforeDeadline else pure false) then
                handshakeRounds serial port token expected rounds
              else
                fail serial (helloFailureState e) (helloFailureReason e)
                pure (.error (.client e))

/-- `handshake`: 5 s in rounds of 50 ms. -/
def handshake (serial : String) (port : Nat) (token expected : String) : Call Connected :=
  handshakeRounds serial port token expected 100

/-! ### Connecting -/

/-- What `recover_failed_start` says of the way back. -/
def rollbackText (serial : String) (install : AgentInstallOutcome) : Call String := do
  if install.rollbackAvailable then
    match ← rollbackInstall serial with
    | .ok true =>
        let sha256 := install.previousSha256.getD "unknown SHA-256"
        pure s!"restored previous binary {sha256}"
    | .ok false => pure "previous binary was no longer available"
    | .error e => pure s!"failed: {e.text}"
  else if install.changed then pure "not available (first install)"
  else pure "not required (binary was unchanged)"

/-- `recover_failed_start`. -/
def recoverFailedStart (serial : String) (install : AgentInstallOutcome)
    (launch : Option AgentLaunch) (cause : AgentManagerError) (failureState : AgentSessionState) :
    Call AgentManagerError := do
  op (Op.setClient serial none)
  dropForward serial
  match launch with
  | some launch => cleanupLaunch serial launch
  | none => pure ()
  let _ ← stop serial
  let rollback ← rollbackText serial install
  let error := AgentManagerError.startupFailed cause rollback
  fail serial failureState error.text
  pure error

/-- A connection that failed once the binary was in place. -/
def recovered (serial : String) (install : AgentInstallOutcome) (launch : Option AgentLaunch)
    (cause : AgentManagerError) (failureState : AgentSessionState) : Call Connected := do
  let e ← recoverFailedStart serial install launch cause failureState
  pure (.error e)

/-- `connect_artifact_inner`, once the handshake has accepted the Agent. -/
def acceptArtifact (serial : String) (artifact : AgentArtifact) (install : AgentInstallOutcome)
    (launch : AgentLaunch) (status : AgentSessionStatus) : Call Connected := do
  cleanupLaunch serial launch
  match ← (if install.changed || install.rollbackAvailable then commitInstall serial
    else pure (.ok ())) with
  | .error e => recovered serial install none (.bootstrap e) .disconnected
  | .ok () =>
      op (Op.setPlan serial (some ⟨launch.authToken, artifact.expectedAgentVersion⟩))
      pure (.ok status)

/-- The answer to a handshake that failed. -/
def rejectArtifact (serial : String) (install : AgentInstallOutcome) (launch : AgentLaunch)
    (allowVersionRetry : Bool) (e : AgentManagerError) : Call Connected := do
  let failureState := (← op (Op.status serial)).state
  let error ← recoverFailedStart serial install (some launch) e failureState
  match e with
  | .incompatibleAgentVersion _ _ =>
      if allowVersionRetry then pure (.error (.staleArtifactNeedsReinstall error))
      else pure (.error error)
  | _ => pure (.error error)

/-- `connect_artifact_inner`, once the binary is in place. -/
def startArtifact (serial : String) (artifact : AgentArtifact) (allowVersionRetry : Bool)
    (install : AgentInstallOutcome) : Call Connected := do
  transition serial .starting
  match ← start serial with
  | .error e => recovered serial install none (.bootstrap e) .disconnected
  | .ok launch =>
      match ← forward serial with
      | .error e => recovered serial install (some launch) (.bootstrap e) .disconnected
      | .ok (rule, port) =>
          op (Op.setForward serial rule)
          op (Op.setStatus serial fun s =>
            { s with localPort := some port }.transition .handshaking)
          match ← handshake serial port launch.authToken artifact.expectedAgentVersion with
          | .ok status => acceptArtifact serial artifact install launch status
          | .error e => rejectArtifact serial install launch allowVersionRetry e

/-- `connect_artifact_inner`, once it is known that the session is not in use. -/
def connectFresh (serial : String) (artifact : AgentArtifact) (allowVersionRetry : Bool) :
    Call Connected := do
  op (Op.setClient serial none)
  op (Op.setPlan serial none)
  op (Op.setStatus serial fun _ => .disconnected serial)
  match ← ensureOnline serial with
  | .error e => failWith serial .disconnected (.bootstrap e)
  | .ok () =>
      transition serial .adbOnline
      dropForward serial
      match ← deviceAbi serial with
      | .error e => failWith serial .disconnected (.bootstrap e)
      | .ok abi =>
          if abi ≠ artifact.abi then
            failWith serial .disconnected (.unsupportedAbi abi.asStr)
          else
            transition serial .installing
            match ← stop serial with
            | .error e => failWith serial .disconnected (.bootstrap e)
            | .ok () =>
                match ← installArtifact serial artifact.path artifact.sha256 with
                | .error e => failWith serial .disconnected (.bootstrap e)
                | .ok install => startArtifact serial artifact allowVersionRetry install

/-- The client of the session answers. -/
def isHealthy (client : Option Nat) : Call Bool := do
  match client with
  | none => pure false
  | some client =>
      match ← op (Op.health client) with
      | .ok _ => pure true
      | .error _ => pure false

/-- `connect_artifact_inner`, under the lock. -/
def connectLocked (serial : String) (artifact : AgentArtifact) (allowVersionRetry : Bool) :
    Call Connected := do
  let current ← op (Op.status serial)
  let client ← op (Op.client serial)
  if ← (if current.state = .ready ∨ current.state = .degraded then isHealthy client
    else pure false) then pure (.ok current)
  else connectFresh serial artifact allowVersionRetry

/-- A method under the lock of its session. -/
def withSession {α : Type} (serial : String) (body : Call α) : Call α := do
  op (Op.sessionFor serial)
  lock serial
  let a ← body
  unlock serial
  pure a

/-- `connect_artifact_inner`. -/
def connectArtifactInner (serial : String) (artifact : AgentArtifact)
    (allowVersionRetry : Bool) : Call Connected :=
  if !validSerial serial then pure (.error .invalidSerial)
  else withSession serial (connectLocked serial artifact allowVersionRetry)

/-- `connect_artifact`. -/
def connectArtifact (serial : String) (artifact : AgentArtifact) : Call Connected := do
  match ← connectArtifactInner serial artifact true with
  | .error (.staleArtifactNeedsReinstall _) =>
      match ← invalidateRemoteArtifact serial with
      | .error e => pure (.error (.bootstrap e))
      | .ok () => connectArtifactInner serial artifact false
  | other => pure other

/-! ### Reconnecting -/

/-- The loop of `wait_device_online`.  Each round waits 400 ms, so after 20 of them `DEADLINE` is
over. -/
def waitRounds (serial : String) : Nat → Call (Except AgentManagerError Unit)
  | 0 => do
      match ← ensureOnline serial with
      | .ok () => pure (.ok ())
      | .error e =>
          fail serial .disconnected e.text
          pure (.error (.bootstrap e))
  | rounds + 1 => do
      match ← ensureOnline serial with
      | .ok () => pure (.ok ())
      | .error e =>
          if ← op Op.beforeDeadline then waitRounds serial rounds
          else
            fail serial .disconnected e.text
            pure (.error (.bootstrap e))

/-- `wait_device_online`: 8 s in rounds of 400 ms. -/
def waitDeviceOnline (serial : String) : Call (Except AgentManagerError Unit) :=
  waitRounds serial 20

/-- `reconnect_after_transport_loss`, with the plan of the session. -/
def reconnectWith (serial : String) (plan : SessionPlan) : Call Connected := do
  op (Op.setClient serial none)
  dropForward serial
  match ← waitDeviceOnline serial with
  | .error e => pure (.error e)
  | .ok () =>
      transition serial .starting
      match ← forward serial with
      | .error e => failWith serial .disconnected (.bootstrap e)
      | .ok (rule, port) =>
          op (Op.setForward serial rule)
          match ← handshake serial port plan.authToken plan.expectedAgentVersion with
          | .ok status =>
              op (Op.countRecovery serial)
              pure (.ok status)
          | .error e =>
              -- the rule is taken off the record, but not removed
              op (Op.forgetForward serial)
              failWith serial .disconnected e

/-- The answer of a reconnection without a plan. -/
def noPlan : AgentManagerError :=
  .client (.transportLost "没有可复用的会话凭据（这个会话从没完整连上过）")

/-- `reconnect_after_transport_loss`, under the lock. -/
def reconnectLocked (serial : String) : Call Connected := do
  let client ← op (Op.client serial)
  if ← isHealthy client then
    let status ← op (Op.status serial)
    pure (.ok status)
  else
    match ← op (Op.plan serial) with
    | none => failWith serial .disconnected noPlan
    | some plan => reconnectWith serial plan

/-- `reconnect_after_transport_loss`. -/
def reconnectAfterTransportLoss (serial : String) : Call Connected :=
  if !validSerial serial then pure (.error .invalidSerial)
  else withSession serial (reconnectLocked serial)

/-! ### The other methods -/

/-- `AgentDiagnostics`, as far as the session tells it. -/
structure AgentDiagnostics where
  status : AgentSessionStatus
  health : Option Value
  healthError : Option String

/-- `diagnostics`, under the lock. -/
def diagnosticsLocked (serial : String) : Call AgentDiagnostics := do
  match ← op (Op.client serial) with
  | none => do
      let status ← op (Op.status serial)
      pure ⟨status, none, status.lastError.or (some "Agent session is not connected")⟩
  | some client =>
      match ← op (Op.health client) with
      | .ok health => do
          let status ← op (Op.status serial)
          pure ⟨status, some health, none⟩
      | .error e => do
          op (Op.setClient serial none)
          fail serial .disconnected (clientErrorText e)
          let status ← op (Op.status serial)
          pure ⟨status, none, some (clientErrorText e)⟩

/-- `diagnostics`. -/
def diagnostics (serial : String) : Call AgentDiagnostics :=
  if !validSerial serial then
    pure ⟨.disconnected serial, none, some "invalid device serial"⟩
  else withSession serial (diagnosticsLocked serial)

/-- `disconnect`, under the lock. -/
def disconnectLocked (serial : String) : Call (Except AgentManagerError Unit) := do
  op (Op.setClient serial none)
  let forwardResult ← (do
    match ← op (Op.takeForward serial) with
    | some rule => removeForward serial rule
    | none => pure (.ok ()))
  let stopResult ← stop serial
  op (Op.setStatus serial fun _ => .disconnected serial)
  match forwardResult, stopResult with
  | .error e, _ => pure (.error (.bootstrap e))
  | .ok (), .error e => pure (.error (.bootstrap e))
  | .ok (), .ok () => pure (.ok ())

/-- `disconnect`. -/
def disconnect (serial : String) : Call (Except AgentManagerError Unit) :=
  if !validSerial serial then pure (.error .invalidSerial)
  else withSession serial (disconnectLocked serial)

/-- `device_disconnected`, under the lock. -/
def deviceDisconnectedLocked (serial : String) : Call Unit := do
  match ← op (Op.takeClient serial) with
  | some client => op (Op.disconnectClient client "ADB device disconnected")
  | none => pure ()
  dropForward serial
  op (Op.setPlan serial none)
  fail serial .disconnected "ADB device disconnected"

/-- `device_disconnected`. -/
def deviceDisconnected (serial : String) : Call Unit := do
  if ← op (Op.known serial) then
    lock serial
    deviceDisconnectedLocked serial
    unlock serial
  else pure ()

/-- `sweep_stale_forwards`. -/
def sweepStaleForwards : Call (List String) := do
  let keep ← op Op.ownedForwards
  sweepAgentForwards keep

/-! ### The process -/

/-- A call of one of the methods. -/
inductive Request where
  | connect (serial : String) (artifact : AgentArtifact)
  | reconnect (serial : String)
  | disconnect (serial : String)
  | deviceDisconnected (serial : String)
  | diagnostics (serial : String)
  | sweep

/-- What a call answers. -/
inductive Answer where
  | connected (r : Connected)
  | disconnected (r : Except AgentManagerError Unit)
  | diagnosed (d : AgentDiagnostics)
  | swept (rules : List String)
  | gone

/-- The method of a call. -/
def handler : Request → Call Answer
  | .connect serial artifact => do pure (.connected (← connectArtifact serial artifact))
  | .reconnect serial => do pure (.connected (← reconnectAfterTransportLoss serial))
  | .disconnect serial => do pure (.disconnected (← AgentManager.disconnect serial))
  | .deviceDisconnected serial => do
      AgentManager.deviceDisconnected serial
      pure .gone
  | .diagnostics serial => do pure (.diagnosed (← AgentManager.diagnostics serial))
  | .sweep => do pure (.swept (← sweepStaleForwards))

end RevBox.AgentManager
