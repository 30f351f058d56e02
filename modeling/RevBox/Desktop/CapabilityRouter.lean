import RevBox.Desktop.AgentClient
import RevBox.Desktop.AgentBootstrap
import RevBox.Support.Tasks

/-!
# Desktop — CapabilityRouter

Which implementation answers a call of the desktop (`services/android_backend.rs`): the Agent, or
the commands over adb that it replaced.  The callers, in `device_service.rs` and `env_service.rs`,
all go one of a few ways; any number of calls are under way, and the sessions change between any two
of their steps.

* `Trace`: what a call has done so far, and what it may do next.
* `follows_handler`: each way of calling keeps to it.
* `fallbacks_counted`: the totals count the calls that fell back, each once.
* `never_twice`: no call asks the Agent twice, and one that may change something asks nobody else.
-/

namespace RevBox.CapabilityRouter

open AgentClient AgentManager Machine Prog Tasks

/-! ### Decisions -/

/-- `OperationKind`. -/
inductive OperationKind where
  | readOnlyIdempotent
  | mutating
  deriving DecidableEq

/-- `BackendAvailability`. -/
inductive BackendAvailability where
  | available
  | agentUnavailable (reason : String)
  | unsupportedMethod
  | providerUnavailable (reason : String)
  | incompatible (reason : String)
  deriving DecidableEq

/-- `AndroidBackendSource`. -/
inductive AndroidBackendSource where
  | agent
  | legacyAdb
  deriving DecidableEq

/-- `FallbackReason`. -/
inductive FallbackReason where
  | agentUnavailable
  | unsupportedMethod
  deriving DecidableEq

/-- `RouteDecision`. -/
structure RouteDecision where
  backend : AndroidBackendSource
  fallbackReason : Option FallbackReason
  agentVersion : Option String
  protocolVersion : Option Nat

/-- `LegacyCapability`. -/
structure LegacyCapability where
  method : String
  removalStage : String

/-- `default_legacy_capabilities`. -/
def defaultLegacyCapabilities : List LegacyCapability :=
  [⟨"device.root_check", "AR12.1 after AR9.1 and two stable phase regressions"⟩,
    ⟨"device.info", "AR12.1 after AR5.2 and two stable phase regressions"⟩,
    ⟨"activity.foreground", "AR12.1 after AR6.1 and two stable phase regressions"⟩,
    ⟨"process.ports", "AR12.1 after AR6.2 and two stable phase regressions"⟩,
    ⟨"process.by_port", "AR12.1 after AR6.2 and two stable phase regressions"⟩,
    ⟨"hosted.list", "AR12.1 after AR7.2 and two stable phase regressions"⟩]

/-- `AgentBackendError`. -/
inductive AgentBackendError where
  | unavailable (reason : String)
  | unsupportedMethod (method : String)
  | providerUnavailable (reason : String)
  | incompatible (reason : String)
  | transportLost (reason : String)
  | deadlineExceeded
  | cancelled
  | protocol (reason : String)
  | business (error : AgentError)

/-- `RouteError`. -/
inductive RouteError where
  | agentUnavailable (method reason : String)
  | unsupportedMethod (method : String)
  | providerUnavailable (method reason : String)
  | incompatible (reason : String)
  | mutatingFallbackForbidden (method : String)
  | legacyFallbackNotRegistered (method : String)
  | agentFailure (error : AgentBackendError)

/-- `CoreError`, as far as a call that is routed meets it. -/
inductive CoreError where
  | agentUnavailable (reason : String)
  | agentIncompatible (reason : String)
  | agentTransportLost (reason : String)
  | notFound (message : String)
  | internal (message : String)

/-- `map_client_error`. -/
def mapClientError (method : String) : AgentClientError → AgentBackendError
  | .transportLost reason => .transportLost reason
  | .deadlineExceeded => .deadlineExceeded
  | .cancelled => .cancelled
  | .protocol reason => .protocol reason
  | .remote error =>
      match error.code with
      | .unsupportedMethod => .unsupportedMethod method
      | .providerUnavailable => .providerUnavailable error.message
      | .incompatibleVersion => .incompatible error.message
      | _ => .business error

/-- `agent_backend_core_error`. -/
def agentBackendCoreError : AgentBackendError → CoreError
  | .unavailable reason | .unsupportedMethod reason | .providerUnavailable reason =>
      .agentUnavailable reason
  | .incompatible reason => .agentIncompatible reason
  | .transportLost reason => .agentTransportLost reason
  | .deadlineExceeded => .internal "Agent request deadline exceeded"
  | .cancelled => .internal "Agent request was cancelled"
  | .protocol reason => .internal reason
  | .business error =>
      if error.code = .notFound then .notFound error.message
      else .internal s!"Agent returned {error.code.asStr}: {error.message}"

/-- `CapabilityRouter::core_error`. -/
def coreError : RouteError → CoreError
  | .agentUnavailable _ reason | .providerUnavailable _ reason => .agentUnavailable reason
  | .unsupportedMethod method | .legacyFallbackNotRegistered method =>
      .agentUnavailable s!"method is unavailable: {method}"
  | .incompatible reason => .agentIncompatible reason
  | .mutatingFallbackForbidden method =>
      .internal s!"automatic fallback is forbidden for mutating method {method}"
  | .agentFailure error => agentBackendCoreError error

/-- `session_state_name`. -/
def sessionStateName : AgentSessionState → String
  | .disconnected => "disconnected"
  | .adbOnline => "adb_online"
  | .installing => "installing"
  | .starting => "starting"
  | .handshaking => "handshaking"
  | .ready => "ready"
  | .degraded => "degraded"
  | .incompatible => "incompatible"

/-- `availability_from_status`. -/
def availabilityFromStatus (status : AgentSessionStatus) (method : String) : BackendAvailability :=
  match status.state with
  | .incompatible =>
      .incompatible (status.lastError.getD "protocol or Agent version mismatch")
  | .ready | .degraded =>
      match status.capabilities.find? fun c => c.method = method with
      | some c =>
          if c.available then .available
          -- what is not known yet is left to the Agent
          else if c.probePending then .available
          else .providerUnavailable
            (c.unavailableReason.getD s!"provider {c.provider} is unavailable")
      | none => .unsupportedMethod
  | state => .agentUnavailable s!"session state is {sessionStateName state}"

/-! ### Calls -/

/-- What the totals are kept by: the device, the method and the reason. -/
abbrev Key := String × String × FallbackReason

/-- What a call does at its awaits and under the router's locks.  `shadowed` reads the variable that
has both implementations asked at once, and `first` tells which of the two has ended first. -/
inductive Op where
  | status (serial : String)
  | count (key : Key)
  | record (serial method : String) (decision : RouteDecision)
  | request (serial method : String)
  | reconnect (serial : String)
  | shadowed (method : String)
  | first
  | legacy (serial method : String)

abbrev Reply : Op → Type
  | .status _ => AgentSessionStatus
  | .count _ => Unit
  | .record .. => Unit
  -- nothing when there is no client
  | .request .. => Option (Except AgentClientError Value)
  | .reconnect _ => Except String Unit
  | .shadowed _ => Bool
  | .first => Bool
  | .legacy .. => Except CoreError Value

abbrev Run := Prog Op Reply

/-- `LegacyAdbBackend::availability`, for the capabilities that are registered. -/
abbrev Registered (registered : List LegacyCapability) (method : String) : Prop :=
  ∃ c ∈ registered, c.method = method

variable (registered : List LegacyCapability)

/-- `select_legacy`. -/
def selectLegacy (serial method : String) (operation : OperationKind) (reason : FallbackReason) :
    Run (Except RouteError RouteDecision) :=
  if operation = .mutating then pure (.error (.mutatingFallbackForbidden method))
  else if ¬ Registered registered method then
    pure (.error (.legacyFallbackNotRegistered method))
  else do
    let status ← perform (Op.status serial)
    let decision : RouteDecision :=
      ⟨.legacyAdb, some reason, status.agentVersion, status.protocolVersion⟩
    perform (Op.count (serial, method, reason))
    perform (Op.record serial method decision)
    pure (.ok decision)

/-- `agent_decision`. -/
def agentDecision (serial : String) : Run RouteDecision := do
  let status ← perform (Op.status serial)
  pure ⟨.agent, none, status.agentVersion, status.protocolVersion⟩

/-- `select_from_agent_availability`. -/
def selectFromAgentAvailability (serial method : String) (operation : OperationKind) :
    BackendAvailability → Run (Except RouteError RouteDecision)
  | .available => do
      let decision ← agentDecision serial
      perform (Op.record serial method decision)
      pure (.ok decision)
  | .agentUnavailable reason => do
      match ← selectLegacy registered serial method operation .agentUnavailable with
      | .error (.legacyFallbackNotRegistered _) => pure (.error (.agentUnavailable method reason))
      | r => pure r
  | .unsupportedMethod => selectLegacy registered serial method operation .unsupportedMethod
  | .providerUnavailable reason => pure (.error (.providerUnavailable method reason))
  | .incompatible reason => pure (.error (.incompatible reason))

/-- `select`. -/
def select (serial method : String) (operation : OperationKind) :
    Run (Except RouteError RouteDecision) := do
  let status ← perform (Op.status serial)
  selectFromAgentAvailability registered serial method operation
    (availabilityFromStatus status method)

/-- `fallback_after_agent_error`. -/
def fallbackAfterAgentError (serial method : String) (operation : OperationKind) :
    AgentBackendError → Run (Except RouteError RouteDecision)
  | .unavailable _ => selectLegacy registered serial method operation .agentUnavailable
  | .unsupportedMethod _ => selectLegacy registered serial method operation .unsupportedMethod
  | error => pure (.error (.agentFailure error))

/-- `recover_transport`: the session is brought back, and the call fails all the same. -/
def recoverTransport (serial method reason : String) : Run (Except AgentBackendError Value) := do
  match ← perform (Op.reconnect serial) with
  | .ok () =>
      pure (.error (.transportLost (s!"与设备的连接被中断（{reason}）。已自动重连，这一步可以直接重试；" ++
        s!"{method} 这一次没有被重放（无法确认设备侧当时是否已执行）")))
  | .error e =>
      pure (.error (.transportLost
        s!"与设备的连接被中断（{reason}），自动重连也没成功：{e}。请在设备页重新连接 Agent"))

/-- `AgentBackend::request`. -/
def request (serial method : String) : Run (Except AgentBackendError Value) := do
  match ← perform (Op.request serial method) with
  | none => pure (.error (.unavailable "Agent session is not connected"))
  | some (.ok value) => pure (.ok value)
  | some (.error (.transportLost reason)) => recoverTransport serial method reason
  | some (.error error) => pure (.error (mapClientError method error))

/-- An answer, and who gave it; or the error of a call that nobody answered. -/
inductive Answer where
  | agent (value : Value)
  | legacy (result : Except CoreError Value)
  | refused (error : CoreError)

/-- The Agent's answer, and that of the commands if both were asked. -/
def asked (serial method : String) :
    Run (Except AgentBackendError Value × Option (Except CoreError Value)) := do
  if ← perform (Op.shadowed method) then
    if ← perform Op.first then
      let agent ← request serial method
      let legacy ← perform (Op.legacy serial method)
      pure (agent, some legacy)
    else
      let legacy ← perform (Op.legacy serial method)
      let agent ← request serial method
      pure (agent, some legacy)
  else
    let agent ← request serial method
    pure (agent, none)

/-- The commands answer: those that both were asked gave already, else they run now. -/
def fellBack (serial method : String) : Option (Except CoreError Value) → Run Answer
  | some result => pure (.legacy result)
  | none => do
      let result ← perform (Op.legacy serial method)
      pure (.legacy result)

/-- `device_info`, `su_available`, `hosted_binaries`, `process_ports` and `pids_by_port`, each for
its method. -/
def read (serial method : String) : Run Answer := do
  match ← select registered serial method .readOnlyIdempotent with
  | .error e => pure (.refused (coreError e))
  | .ok route =>
      if route.backend = .legacyAdb then
        let result ← perform (Op.legacy serial method)
        pure (.legacy result)
      else
        match ← asked serial method with
        | (.ok value, _) => pure (.agent value)
        | (.error error, legacy) =>
            match ← fallbackAfterAgentError registered serial method .readOnlyIdempotent error with
            | .error e => pure (.refused (coreError e))
            | .ok _ => fellBack serial method legacy

/-- `ACTIVITY_FOREGROUND`. -/
def activityForeground : String := "activity.foreground"

/-- `foreground_inner`, with adb there, and `foreground_via_agent`: whatever the decision is, other
than for the Agent, the commands run. -/
def foreground (serial : String) : Run Answer := do
  let decision ← select registered serial activityForeground .readOnlyIdempotent
  if decision.toOption.any fun d => d.backend = .agent then
    match ← asked serial activityForeground with
    | (.ok value, _) => pure (.agent value)
    | (.error error, legacy) =>
        match ← fallbackAfterAgentError registered serial activityForeground .readOnlyIdempotent
          error with
        | .error _ => pure (.refused (agentBackendCoreError error))
        | .ok _ => fellBack serial activityForeground legacy
  else
    let result ← perform (Op.legacy serial activityForeground)
    pure (.legacy result)

/-- The answer of a call that only the Agent can answer. -/
def agentOnly (serial method : String) : Run Answer := do
  match ← request serial method with
  | .ok value => pure (.agent value)
  | .error error => pure (.refused (coreError (.agentFailure error)))

/-- `HOSTED_LIST`. -/
def hostedList : String := "hosted.list"

/-- `hosted_runs`: the method has a fallback, and the call refuses it. -/
def hostedRuns (serial : String) : Run Answer := do
  match ← select registered serial hostedList .readOnlyIdempotent with
  | .error e => pure (.refused (coreError e))
  | .ok route =>
      if route.backend ≠ .agent then
        pure (.refused (.agentUnavailable "托管运行表只能由 Agent 提供，请先在设备页连接 Agent"))
      else agentOnly serial hostedList

/-- `require_agent_write_route`, and the request it lets through. -/
def write (serial method : String) : Run Answer := do
  let status ← perform (Op.status serial)
  if status.state ≠ .ready ∧ status.state ≠ .degraded then
    pure (.refused (.agentUnavailable (s!"{method} 需要 Agent 在线（设备页 Android Agent → 安装并连接）；" ++
      "写操作不自动回退 adb shell")))
  else
    match ← select registered serial method .mutating with
    | .error e => pure (.refused (coreError e))
    | .ok route =>
        if route.backend ≠ .agent then
          pure (.refused (.internal s!"{method} 只允许 Agent 通道，拒绝在非 Agent 后端执行写操作"))
        else agentOnly serial method

/-- A call of the desktop. -/
inductive Call where
  | read (serial method : String)
  | foreground (serial : String)
  | hostedRuns (serial : String)
  | write (serial method : String)

def handler : Call → Run Answer
  | .read serial method => read registered serial method
  | .foreground serial => foreground registered serial
  | .hostedRuns serial => hostedRuns registered serial
  | .write serial method => write registered serial method

/-! ### The router and what surrounds it -/

/-- `AgentRouteDiagnostics`, under the router's key. -/
structure AgentRouteDiagnostics where
  decision : RouteDecision
  recordedAt : Int

/-- The sessions, the routes and the totals. -/
structure World where
  sessions : String → AgentSessionStatus
  routes : String × String → Option AgentRouteDiagnostics
  totals : Key → Nat

/-- What the surroundings answer. -/
structure Turn where
  response : Option (Except AgentClientError Value) := none
  reconnected : Except String Unit := .ok ()
  yes : Bool := false
  legacy : Except CoreError Value := .ok .null
  now : Int := 0

/-- One operation. -/
def exec (w : World) : (o : Op) → Turn → Option (Reply o × World)
  | .status serial, _ => some (w.sessions serial, w)
  | .count key, _ =>
      some ((), { w with totals := Function.update w.totals key (w.totals key + 1) })
  | .record serial method decision, x =>
      some ((), { w with
        routes := Function.update w.routes (serial, method) (some ⟨decision, x.now⟩) })
  | .request .., x => some (x.response, w)
  | .reconnect _, x => some (x.reconnected, w)
  | .shadowed _, x => some (x.yes, w)
  | .first, x => some (x.yes, w)
  | .legacy .., x => some (x.legacy, w)

/-- The session of a device changes. -/
def changed (w : World) (e : String × AgentSessionStatus) : Option World :=
  some { w with sessions := Function.update w.sessions e.1 e.2 }

/-- The router, with any number of calls. -/
def system : System Op Reply Call Answer World Turn (String × AgentSessionStatus) where
  handler := handler registered
  exec := exec
  env := changed

/-- The router when it is new. -/
def process : Machine (Pool Op Reply Call Answer World)
    (Label Call Turn (String × AgentSessionStatus)) :=
  (system registered).machine fun w => w.routes = (fun _ => none) ∧ w.totals = fun _ => 0

/-! ### What a call does -/

namespace Call

def serial : Call → String
  | .read serial _ | .foreground serial | .hostedRuns serial | .write serial _ => serial

def method : Call → String
  | .read _ method | .write _ method => method
  | .foreground _ => activityForeground
  | .hostedRuns _ => hostedList

/-- The call runs commands in the Agent's place. -/
def Falls : Call → Prop
  | .read .. | .foreground _ => True
  | .hostedRuns _ | .write .. => False

instance : ∀ q : Call, Decidable q.Falls
  | .read .. | .foreground _ => .isTrue trivial
  | .hostedRuns _ | .write .. => .isFalse id

/-- The call may change something. -/
def Mutates : Call → Prop
  | .write .. => True
  | _ => False

end Call

/-- What a call has done so far: how often it asked the Agent, whether the connection was lost then,
the fallbacks it has counted, how often it ran the commands, and what it first saw of the session. -/
structure Trace where
  requests : Nat := 0
  lost : Bool := false
  counted : List Key := []
  legacy : Nat := 0
  seen : Option BackendAvailability := none

/-- The connection was lost. -/
def isLost : Option (Except AgentClientError Value) → Bool
  | some (.error (.transportLost _)) => true
  | _ => false

/-- What a call may do next, and what it has done then. -/
def keeping (q : Call) : Discipline Op Reply Trace where
  allowed t
    | .count key => t.counted = [] ∧ t.lost = false ∧ ¬ q.Mutates ∧ key.1 = q.serial ∧
        key.2.1 = q.method ∧ Registered registered q.method
    | .record serial method decision => serial = q.serial ∧ method = q.method ∧
        t.counted = decision.fallbackReason.toList.map fun reason => (serial, method, reason)
    | .request serial method => t.requests = 0 ∧ t.counted = [] ∧ serial = q.serial ∧
        method = q.method
    | .reconnect serial => t.lost = true ∧ serial = q.serial
    | .legacy serial method => t.legacy = 0 ∧ q.Falls ∧ serial = q.serial ∧ method = q.method
    | _ => True
  next t
    | .status _, status =>
        { t with seen := t.seen.or (some (availabilityFromStatus status q.method)) }
    | .count key, _ => { t with counted := t.counted ++ [key] }
    | .request .., r => { t with requests := t.requests + 1, lost := isLost r }
    | .legacy .., _ => { t with legacy := t.legacy + 1 }
    | _, _ => t

/-- The session answers, and not for this method. -/
def BackendAvailability.Refuses : BackendAvailability → Prop
  | .providerUnavailable _ | .incompatible _ => True
  | _ => False

/-- What a call has done when it returns, by its answer. -/
def Ends (q : Call) (t : Trace) : Answer → Prop
  | .agent _ => t.requests = 1 ∧ t.lost = false ∧ t.counted = []
  | .legacy _ => q.Falls ∧ t.lost = false ∧ t.legacy = 1 ∧ (t.counted.length = 1 ∨
      -- the foreground probe counts nothing where the session refuses
      q = .foreground q.serial ∧ t.counted = [] ∧ t.requests = 0 ∧
        (¬ Registered registered q.method ∨ ∃ a, t.seen = some a ∧ a.Refuses))
  | .refused _ => q.Falls → t.counted = []

variable {registered} {q : Call} {t : Trace} {serial method : String}

theorem follows_selectLegacy {operation : OperationKind} {reason : FallbackReason}
    (hcounted : t.counted = []) (hlost : t.lost = false) (hseen : t.seen.isSome = true)
    (hop : ¬ q.Mutates ∨ operation = .mutating) :
    Follows (keeping registered q) (fun t' r => match r with
      | .ok d => d.backend = .legacyAdb ∧ operation ≠ .mutating ∧
          t' = { t with counted := [(q.serial, q.method, reason)] }
      | .error e => t' = t ∧ (operation = .mutating ∨
          e = .legacyFallbackNotRegistered q.method ∧ ¬ Registered registered q.method))
      t (selectLegacy registered q.serial q.method operation reason) := by
  unfold selectLegacy
  split
  · exact ⟨rfl, .inl ‹_›⟩
  · split
    · exact ⟨rfl, .inr ⟨rfl, ‹_›⟩⟩
    · rename_i hnot hreg
      refine follows_perform_bind.mpr ⟨trivial, fun status => ?_⟩
      have hstay : (keeping registered q).next t (.status q.serial) status = t := by
        obtain ⟨a, ha⟩ := Option.isSome_iff_exists.mp hseen
        obtain ⟨requests, lost, counted, legacy, seen⟩ := t
        cases ha
        rfl
      rw [hstay]
      refine follows_perform_bind.mpr
        ⟨⟨hcounted, hlost, hop.resolve_right hnot, rfl, rfl, not_not.mp hreg⟩, fun _ => ?_⟩
      have hadd : (keeping registered q).next t (.count (q.serial, q.method, reason)) () =
          { t with counted := [(q.serial, q.method, reason)] } := by
        simp [keeping, hcounted]
      rw [hadd]
      exact follows_perform_bind.mpr ⟨⟨rfl, rfl, rfl⟩, fun _ => ⟨rfl, hnot, rfl⟩⟩

theorem follows_select {operation : OperationKind} (hcounted : t.counted = [])
    (hlost : t.lost = false) (hop : ¬ q.Mutates ∨ operation = .mutating) :
    Follows (keeping registered q) (fun t' r => ∃ a,
      match r with
      | .ok d => d.backend = .agent ∧ t' = { t with seen := t.seen.or (some a) } ∨
          d.backend = .legacyAdb ∧ operation ≠ .mutating ∧ ∃ reason,
            t' = { t with
              seen := t.seen.or (some a)
              counted := [(q.serial, q.method, reason)] }
      | .error _ => t' = { t with seen := t.seen.or (some a) } ∧ (operation = .mutating ∨
          ¬ Registered registered q.method ∨ a.Refuses))
      t (select registered q.serial q.method operation) := by
  refine follows_perform_bind.mpr ⟨trivial, fun status => ?_⟩
  change Follows _ _ { t with seen := t.seen.or (some (availabilityFromStatus status q.method)) } _
  generalize availabilityFromStatus status q.method = a
  have hseen : (t.seen.or (some a)).isSome = true := by cases t.seen <;> rfl
  have hlegacy := fun reason => @follows_selectLegacy registered q
    { t with seen := t.seen.or (some a) } operation reason hcounted hlost hseen hop
  cases a with
  | available =>
      refine (follows_bind _ _).mpr ?_
      refine follows_perform_bind.mpr ⟨trivial, fun status' => ?_⟩
      have hstay : (keeping registered q).next { t with seen := t.seen.or (some .available) }
          (.status q.serial) status' = { t with seen := t.seen.or (some .available) } := by
        cases t.seen <;> simp [keeping]
      rw [hstay]
      exact follows_perform_bind.mpr ⟨⟨rfl, rfl, hcounted⟩, fun _ => ⟨.available, .inl ⟨rfl, rfl⟩⟩⟩
  | agentUnavailable reason =>
      refine (hlegacy .agentUnavailable).andThen fun t' r hr => ?_
      cases r with
      | ok d => exact ⟨_, .inr ⟨hr.1, hr.2.1, _, hr.2.2⟩⟩
      | error e =>
          cases e <;> exact ⟨_, hr.1, hr.2.imp_right fun h => .inl h.2⟩
  | unsupportedMethod =>
      refine (hlegacy .unsupportedMethod).mono fun t' r hr => ?_
      cases r with
      | ok d => exact ⟨_, .inr ⟨hr.1, hr.2.1, _, hr.2.2⟩⟩
      | error e => exact ⟨_, hr.1, hr.2.imp_right fun h => .inl h.2⟩
  | providerUnavailable reason => exact ⟨_, rfl, .inr (.inr trivial)⟩
  | incompatible reason => exact ⟨_, rfl, .inr (.inr trivial)⟩

/-- An error after which the commands may be asked. -/
def AgentBackendError.Passes : AgentBackendError → Prop
  | .unavailable _ | .unsupportedMethod _ => True
  | _ => False

theorem follows_request (hrequests : t.requests = 0) (hcounted : t.counted = []) :
    Follows (keeping registered q) (fun t' r => ∃ lost, t' = { t with requests := 1, lost := lost } ∧
      (lost = true → ∃ reason, r = .error (.transportLost reason)))
      t (request q.serial q.method) := by
  refine follows_perform_bind.mpr ⟨⟨hrequests, hcounted, rfl, rfl⟩, fun r => ?_⟩
  have hnext : (keeping registered q).next t (.request q.serial q.method) r =
      { t with requests := 1, lost := isLost r } := by simp [keeping, hrequests]
  rw [hnext]
  match r with
  | none => exact ⟨false, rfl, nofun⟩
  | some (.ok value) => exact ⟨false, rfl, nofun⟩
  | some (.error (.transportLost reason)) =>
      refine follows_perform_bind.mpr ⟨⟨rfl, rfl⟩, fun r => ?_⟩
      cases r <;> exact ⟨true, rfl, fun _ => ⟨_, rfl⟩⟩
  | some (.error .deadlineExceeded) => exact ⟨false, rfl, nofun⟩
  | some (.error .cancelled) => exact ⟨false, rfl, nofun⟩
  | some (.error (.protocol reason)) => exact ⟨false, rfl, nofun⟩
  | some (.error (.remote error)) => exact ⟨false, rfl, nofun⟩

theorem follows_asked (hrequests : t.requests = 0) (hcounted : t.counted = []) (hlegacy : t.legacy = 0)
    (hfalls : q.Falls) :
    Follows (keeping registered q) (fun t' r => ∃ lost,
      t' = { t with requests := 1, lost := lost, legacy := if r.2.isSome then 1 else 0 } ∧
      (lost = true → ∃ reason, r.1 = .error (.transportLost reason)))
      t (asked q.serial q.method) := by
  refine follows_perform_bind.mpr ⟨trivial, fun both => ?_⟩
  change Follows _ _ t _
  split
  · refine follows_perform_bind.mpr ⟨trivial, fun first => ?_⟩
    change Follows _ _ t _
    split
    · refine (follows_request hrequests hcounted).andThen ?_
      rintro _ r ⟨lost, rfl, hlost⟩
      refine follows_perform_bind.mpr ⟨⟨hlegacy, hfalls, rfl, rfl⟩, fun _ => ?_⟩
      exact ⟨lost, by simp [keeping, hlegacy], hlost⟩
    · refine follows_perform_bind.mpr ⟨⟨hlegacy, hfalls, rfl, rfl⟩, fun _ => ?_⟩
      have hran := @follows_request registered q { t with legacy := t.legacy + 1 } hrequests
        hcounted
      refine hran.andThen ?_
      rintro _ r ⟨lost, rfl, hlost⟩
      exact ⟨lost, by simp [hlegacy], hlost⟩
  · refine (follows_request hrequests hcounted).andThen ?_
    rintro _ r ⟨lost, rfl, hlost⟩
    exact ⟨lost, by simp [hlegacy], hlost⟩

theorem follows_fallbackAfterAgentError {error : AgentBackendError} (hcounted : t.counted = [])
    (hlost : t.lost = true → ∃ reason, error = .transportLost reason)
    (hseen : t.seen.isSome = true) (hmutates : ¬ q.Mutates) :
    Follows (keeping registered q) (fun t' r => match r with
      | .ok _ => t.lost = false ∧ ∃ reason, t' = { t with counted := [(q.serial, q.method, reason)] }
      | .error _ => t' = t)
      t (fallbackAfterAgentError registered q.serial q.method .readOnlyIdempotent error) := by
  have hlegacy : ∀ reason, t.lost = false → Follows (keeping registered q) (fun t' r => match r with
      | .ok _ => t.lost = false ∧ ∃ reason, t' = { t with counted := [(q.serial, q.method, reason)] }
      | .error _ => t' = t)
      t (selectLegacy registered q.serial q.method .readOnlyIdempotent reason) := by
    intro reason hno
    refine (follows_selectLegacy hcounted hno hseen (.inl hmutates)).mono fun t' r hr => ?_
    cases r with
    | ok d => exact ⟨hno, reason, hr.2.2⟩
    | error e => exact hr.1
  have hkept : (∀ reason, error ≠ .transportLost reason) → t.lost = false := fun hne =>
    eq_false_of_ne_true fun h => (hlost h).elim fun reason he => hne reason he
  cases error with
  | unavailable _ => exact hlegacy _ (hkept nofun)
  | unsupportedMethod _ => exact hlegacy _ (hkept nofun)
  | _ => exact rfl

theorem follows_fellBack {legacy : Option (Except CoreError Value)}
    (hlegacy : t.legacy = if legacy.isSome then 1 else 0) (hfalls : q.Falls) :
    Follows (keeping registered q)
      (fun t' r => t' = { t with legacy := 1 } ∧ ∃ result, r = .legacy result)
      t (fellBack q.serial q.method legacy) := by
  obtain ⟨requests, lost, counted, ran, seen⟩ := t
  cases legacy with
  | some result => exact ⟨by simpa using hlegacy, _, rfl⟩
  | none =>
      obtain rfl : ran = 0 := hlegacy
      exact follows_perform_bind.mpr ⟨⟨rfl, hfalls, rfl, rfl⟩, fun _ => ⟨rfl, _, rfl⟩⟩

/-- What follows an answer of the Agent, when the commands may take its place. -/
theorem follows_answered {legacy : Option (Except CoreError Value)}
    {r : Except AgentBackendError Value} {seen : Option BackendAvailability} {lost : Bool}
    {f : AgentBackendError → Except RouteError RouteDecision → Run Answer}
    (hlost : lost = true → ∃ reason, r = .error (.transportLost reason))
    (hseen : seen.isSome = true) (hfalls : q.Falls) (hmutates : ¬ q.Mutates)
    (hf : ∀ error e, ∃ c, f error (.error e) = pure (.refused c))
    (hf' : ∀ error d, f error (.ok d) = fellBack q.serial q.method legacy) :
    Follows (keeping registered q) (Ends registered q)
      { requests := 1, lost := lost, legacy := if legacy.isSome then 1 else 0, seen := seen }
      (match r with
        | .ok value => pure (.agent value)
        | .error error =>
            fallbackAfterAgentError registered q.serial q.method .readOnlyIdempotent error >>=
              f error) := by
  cases r with
  | ok value => exact ⟨rfl, eq_false_of_ne_true fun h => by simpa using hlost h, rfl⟩
  | error error =>
      refine (follows_fallbackAfterAgentError rfl (fun h => by simpa using hlost h) hseen
        hmutates).andThen fun t' d hd => ?_
      cases d with
      | error e =>
          obtain ⟨c, hc⟩ := hf error e
          rw [hc, hd]
          exact fun _ => rfl
      | ok d =>
          obtain ⟨hno, reason, rfl⟩ := hd
          rw [hf']
          refine (follows_fellBack rfl hfalls).mono ?_
          rintro _ _ ⟨rfl, result, rfl⟩
          exact ⟨hfalls, hno, rfl, .inl rfl⟩

theorem follows_read (serial method : String) :
    Follows (keeping registered (.read serial method)) (Ends registered (.read serial method)) {}
      (read registered serial method) := by
  refine (follows_select (q := .read serial method) rfl rfl (.inl id)).andThen ?_
  rintro t' (e | route) ⟨a, hr⟩
  · rw [hr.1]
    exact fun _ => rfl
  · dsimp only at hr ⊢
    obtain ⟨hagent, rfl⟩ | ⟨hlegacy, -, reason, rfl⟩ := hr
    · rw [if_neg (by rw [hagent]; nofun)]
      refine (follows_asked (q := .read serial method) rfl rfl rfl trivial).andThen ?_
      rintro _ ⟨r, legacy⟩ ⟨lost, rfl, hlost⟩
      have hrest := @follows_answered registered (.read serial method) legacy r (some a) lost
        (fun _ d => match d with
          | .error e => pure (.refused (coreError e))
          | .ok _ => fellBack serial method legacy)
        hlost rfl trivial id (fun _ _ => ⟨_, rfl⟩) fun _ _ => rfl
      cases r <;> exact hrest
    · rw [if_pos hlegacy]
      exact follows_perform_bind.mpr ⟨⟨rfl, trivial, rfl, rfl⟩, fun _ =>
        ⟨trivial, rfl, rfl, .inl rfl⟩⟩

theorem follows_foreground (serial : String) :
    Follows (keeping registered (.foreground serial)) (Ends registered (.foreground serial)) {}
      (foreground registered serial) := by
  refine (follows_select (q := .foreground serial) rfl rfl (.inl id)).andThen ?_
  rintro t' (e | route) ⟨a, hr⟩
  · obtain ⟨rfl, hwhy⟩ := hr
    refine follows_perform_bind.mpr ⟨⟨rfl, trivial, rfl, rfl⟩, fun _ => ?_⟩
    refine ⟨trivial, rfl, rfl, .inr ⟨rfl, rfl, rfl, ?_⟩⟩
    exact (hwhy.resolve_left nofun).imp_right fun h => ⟨a, rfl, h⟩
  · dsimp only at hr ⊢
    obtain ⟨hagent, rfl⟩ | ⟨hlegacy, -, reason, rfl⟩ := hr
    · rw [if_pos (by simp [Except.toOption, hagent])]
      refine (follows_asked (q := .foreground serial) rfl rfl rfl trivial).andThen ?_
      rintro _ ⟨r, legacy⟩ ⟨lost, rfl, hlost⟩
      have hrest := @follows_answered registered (.foreground serial) legacy r (some a) lost
        (fun error d => match d with
          | .error _ => pure (.refused (agentBackendCoreError error))
          | .ok _ => fellBack serial activityForeground legacy)
        hlost rfl trivial id (fun _ _ => ⟨_, rfl⟩) fun _ _ => rfl
      cases r <;> exact hrest
    · rw [if_neg (by simp [Except.toOption, hlegacy])]
      exact follows_perform_bind.mpr ⟨⟨rfl, trivial, rfl, rfl⟩, fun _ =>
        ⟨trivial, rfl, rfl, .inl rfl⟩⟩

/-- What only the Agent answers. -/
theorem follows_agentOnly (hrequests : t.requests = 0) (hcounted : t.counted = [])
    (hfalls : ¬ q.Falls) :
    Follows (keeping registered q) (Ends registered q) t (agentOnly q.serial q.method) := by
  refine (follows_request hrequests hcounted).andThen ?_
  rintro _ r ⟨lost, rfl, hlost⟩
  cases r with
  | ok value => exact ⟨rfl, eq_false_of_ne_true fun h => by simpa using hlost h, hcounted⟩
  | error error => exact fun h => absurd h hfalls

theorem follows_hostedRuns (serial : String) :
    Follows (keeping registered (.hostedRuns serial)) (Ends registered (.hostedRuns serial)) {}
      (hostedRuns registered serial) := by
  refine (follows_select (q := .hostedRuns serial) rfl rfl (.inl id)).andThen ?_
  rintro t' (e | route) ⟨a, hr⟩
  · exact fun h => h.elim
  · dsimp only at hr ⊢
    obtain ⟨hagent, rfl⟩ | ⟨hlegacy, -, reason, rfl⟩ := hr
    · rw [if_neg (not_not.mpr hagent)]
      exact follows_agentOnly (q := .hostedRuns serial) rfl rfl id
    · rw [if_pos (by rw [hlegacy]; nofun)]
      exact fun h => h.elim

theorem follows_write (serial method : String) :
    Follows (keeping registered (.write serial method)) (Ends registered (.write serial method)) {}
      (write registered serial method) := by
  refine follows_perform_bind.mpr ⟨trivial, fun status => ?_⟩
  split
  · exact fun h => h.elim
  · refine (follows_select (q := .write serial method) rfl rfl (.inr rfl)).andThen ?_
    rintro t' (e | route) ⟨a, hr⟩
    · exact fun h => h.elim
    · dsimp only at hr ⊢
      obtain ⟨hagent, rfl⟩ | ⟨-, hno, -⟩ := hr
      · rw [if_neg (not_not.mpr hagent)]
        exact follows_agentOnly (q := .write serial method) rfl rfl id
      · exact absurd rfl hno

/-- **Every way of calling keeps to what a call may do.** -/
theorem follows_handler (q : Call) :
    Follows (keeping registered q) (Ends registered q) {} (handler registered q) := by
  cases q with
  | read serial method => exact follows_read serial method
  | foreground serial => exact follows_foreground serial
  | hostedRuns serial => exact follows_hostedRuns serial
  | write serial method => exact follows_write serial method

/-! ### Over whole runs -/

variable (registered) in
/-- What every trace satisfies. -/
structure Good (q : Call) (t : Trace) : Prop where
  requests : t.requests ≤ 1
  legacy : t.legacy ≤ 1
  counted : t.counted.length ≤ 1
  keys : ∀ k ∈ t.counted, k.1 = q.serial ∧ k.2.1 = q.method ∧ Registered registered q.method ∧
    ¬ q.Mutates ∧ t.lost = false
  falls : ¬ q.Falls → t.legacy = 0

theorem good_start (q : Call) : Good registered q {} :=
  ⟨Nat.zero_le 1, Nat.zero_le 1, Nat.zero_le 1, fun _ hk => (by cases hk), fun _ => rfl⟩

theorem good_next (q : Call) (t : Trace) (o : Op) (r : Reply o) (h : Good registered q t)
    (ha : (keeping registered q).allowed t o) :
    Good registered q ((keeping registered q).next t o r) := by
  cases o with
  | count key =>
      obtain ⟨hcounted, hlost, hmutates, hserial, hmethod, hreg⟩ := ha
      refine ⟨h.requests, h.legacy, ?_, fun k hk => ?_, h.falls⟩
      · simp [keeping, hcounted]
      · obtain rfl : k = key := by simpa [keeping, hcounted] using hk
        exact ⟨hserial, hmethod, hreg, hmutates, hlost⟩
  | request serial method =>
      obtain ⟨hrequests, hcounted, -⟩ := ha
      refine ⟨?_, h.legacy, h.counted, fun k hk => ?_, h.falls⟩
      · simp [keeping, hrequests]
      · have hk : k ∈ t.counted := hk
        rw [hcounted] at hk
        cases hk
  | legacy serial method =>
      obtain ⟨hlegacy, hfalls, -⟩ := ha
      exact ⟨h.requests, by simp [keeping, hlegacy], h.counted, h.keys, fun hn => absurd hfalls hn⟩
  | status serial => exact ⟨h.requests, h.legacy, h.counted, h.keys, h.falls⟩
  | record | reconnect | shadowed | first => exact h

section Runs

/-- The fallback an operation counts. -/
def counts : (o : Op) × Reply o → Option Key
  | ⟨.count key, _⟩ => some key
  | _ => none

/-- The calls that counted this fallback. -/
def counters (log : List (Event Op Reply)) (key : Key) : List Nat :=
  log.filterMap fun e => if counts e.2 = some key then some e.1 else none

/-- The decisions recorded for a device and a method. -/
def records (log : List (Event Op Reply)) (k : String × String) : List RouteDecision :=
  log.filterMap fun e => match e.2 with
    | ⟨.record serial method decision, _⟩ => if (serial, method) = k then some decision else none
    | _ => none

variable (registered) in
/-- What call `i` has done so far. -/
def trace (p : Pool Op Reply Call Answer World) (i : Nat) (q : Call) : Trace :=
  stage (keeping registered q).next {} p.log i

theorem counted_foldl (q : Call) : ∀ (l : List ((o : Op) × Reply o)) (t : Trace),
    (l.foldl (fun s e => (keeping registered q).next s e.1 e.2) t).counted =
      t.counted ++ l.filterMap counts
  | [], t => by simp
  | e :: l, t => by
      rw [List.foldl_cons, counted_foldl q l, List.filterMap_cons]
      obtain ⟨o, r⟩ := e
      cases o <;> simp [keeping, counts]

theorem requests_foldl (q : Call) : ∀ (l : List ((o : Op) × Reply o)) (t : Trace),
    (l.foldl (fun s e => (keeping registered q).next s e.1 e.2) t).requests =
      t.requests + l.countP fun e => match e.1 with | .request .. => true | _ => false
  | [], t => by simp
  | e :: l, t => by
      rw [List.foldl_cons, requests_foldl q l, List.countP_cons]
      obtain ⟨o, r⟩ := e
      cases o <;> simp [keeping]
      omega

theorem legacy_foldl (q : Call) : ∀ (l : List ((o : Op) × Reply o)) (t : Trace),
    (l.foldl (fun s e => (keeping registered q).next s e.1 e.2) t).legacy =
      t.legacy + l.countP fun e => match e.1 with | .legacy .. => true | _ => false
  | [], t => by simp
  | e :: l, t => by
      rw [List.foldl_cons, legacy_foldl q l, List.countP_cons]
      obtain ⟨o, r⟩ := e
      cases o <;> simp [keeping]
      omega

/-- A call that counted the fallback is one of its counters, once. -/
theorem count_counters (log : List (Event Op Reply)) (key : Key) (i : Nat) :
    (counters log key).count i = ((performed log i).filterMap counts).count key := by
  induction log with
  | nil => rfl
  | cons e log ih =>
      obtain ⟨j, e⟩ := e
      have hcons : counters ((j, e) :: log) key =
          (if counts e = some key then [j] else []) ++ counters log key := by
        unfold counters
        rw [List.filterMap_cons]
        by_cases h : counts e = some key <;> simp [h]
      have hperformed : performed ((j, e) :: log) i =
          (if j = i then [e] else []) ++ performed log i := by
        unfold performed
        rw [List.filterMap_cons]
        by_cases h : j = i <;> simp [h]
      rw [hcons, hperformed, List.count_append, List.filterMap_append, List.count_append, ih]
      congr 1
      by_cases hj : j = i <;> by_cases hc : counts e = some key
      · simp [hj, hc]
      · cases h : counts e with
        | none => simp [hj, h]
        | some k =>
            have hk : k ≠ key := fun hk => hc (hk ▸ h)
            simp [hj, h, hk]
      · simp [hj, hc]
      · simp [hj, hc]

variable (registered) in
/-- **What holds of the router whatever happens**: its totals and its routes are what the calls have
counted and recorded, and who recorded a fallback has counted it. -/
structure Kept (p : Pool Op Reply Call Answer World) : Prop where
  conforms : Conforms (keeping registered) {} (Ends registered) p
  good : ∀ i t, p.tasks i = some t → Good registered t.request
    (stage (keeping registered t.request).next {} p.log i)
  totals : ∀ key, p.shared.totals key = (counters p.log key).length
  routes : ∀ k, (p.shared.routes k).map AgentRouteDiagnostics.decision = (records p.log k).getLast?
  covered : ∀ k d reason, d ∈ records p.log k → d.fallbackReason = some reason →
    counters p.log (k.1, k.2, reason) ≠ []

variable {p p' : Pool Op Reply Call Answer World} {l : Label Call Turn (String × AgentSessionStatus)}

theorem Kept.tables {i : Nat} {x : Turn} {o : Op} {r : Reply o} {w : World} {q : Call}
    (h : Kept registered p) (hx : exec p.shared o x = some (r, w))
    (ha : (keeping registered q).allowed
      (stage (keeping registered q).next {} p.log i) o) :
    (∀ key, w.totals key = (counters (p.log ++ [(i, ⟨o, r⟩)]) key).length) ∧
    (∀ k, (w.routes k).map AgentRouteDiagnostics.decision =
      (records (p.log ++ [(i, ⟨o, r⟩)]) k).getLast?) ∧
    ∀ k d reason, d ∈ records (p.log ++ [(i, ⟨o, r⟩)]) k → d.fallbackReason = some reason →
      counters (p.log ++ [(i, ⟨o, r⟩)]) (k.1, k.2, reason) ≠ [] := by
  have hcounters : ∀ key, counters (p.log ++ [(i, ⟨o, r⟩)]) key =
      counters p.log key ++ if counts ⟨o, r⟩ = some key then [i] else [] := by
    intro key
    unfold counters
    rw [List.filterMap_append]
    congr 1
    by_cases hc : counts ⟨o, r⟩ = some key <;> simp [hc]
  have hcovered : ∀ k d reason, d ∈ records p.log k → d.fallbackReason = some reason →
      counters (p.log ++ [(i, ⟨o, r⟩)]) (k.1, k.2, reason) ≠ [] := fun k d reason hd hr hnil => by
    rw [hcounters] at hnil
    exact h.covered k d reason hd hr (List.append_eq_nil_iff.mp hnil).1
  by_cases hrec : ∃ serial method decision, o = .record serial method decision
  · obtain ⟨serial, method, decision, rfl⟩ := hrec
    have hrecords : ∀ k, records (p.log ++ [(i, ⟨.record serial method decision, r⟩)]) k =
        records p.log k ++ if (serial, method) = k then [decision] else [] := by
      intro k
      unfold records
      rw [List.filterMap_append]
      congr 1
      by_cases hk : (serial, method) = k <;> simp [hk]
    obtain ⟨hserial, hmethod, hcounted⟩ := ha
    cases hx
    refine ⟨fun key => ?_, fun k => ?_, fun k d reason hd hr => ?_⟩
    · rw [hcounters]
      simpa [counts] using h.totals key
    · rw [hrecords]
      by_cases hk : (serial, method) = k
      · subst hk
        simp
      · simp only [if_neg hk, List.append_nil, Function.update_of_ne (Ne.symm hk)]
        exact h.routes k
    · rw [hrecords] at hd
      rcases List.mem_append.mp hd with hold | hnew
      · exact hcovered k d reason hold hr
      · split at hnew
        · rename_i hk
          subst hk
          obtain rfl := List.mem_singleton.mp hnew
          rw [hr] at hcounted
          -- the fallback that is recorded is the one that was counted
          have hmem : (serial, method, reason) ∈ (performed p.log i).filterMap counts := by
            have hall := @counted_foldl registered q (performed p.log i) {}
            rw [stage] at hcounted
            rw [hcounted] at hall
            rw [← List.nil_append ((performed p.log i).filterMap counts)]
            rw [← hall]
            exact List.mem_singleton_self _
          have hpos : 0 < (counters p.log (serial, method, reason)).count i := by
            rw [count_counters]
            exact List.count_pos_iff.mpr hmem
          rw [hcounters]
          exact List.append_ne_nil_of_left_ne_nil
            (List.ne_nil_of_mem (List.count_pos_iff.mp hpos)) _
        · cases hnew
  · have hrecords : ∀ k, records (p.log ++ [(i, ⟨o, r⟩)]) k = records p.log k := by
      intro k
      unfold records
      rw [List.filterMap_append]
      cases o with
      | record serial method decision => exact absurd ⟨_, _, _, rfl⟩ hrec
      | _ => simp
    refine ⟨fun key => ?_, fun k => ?_, fun k d reason hd hr => ?_⟩
    · rw [hcounters]
      cases o with
      | count k =>
          cases hx
          by_cases hk : k = key
          · subst hk
            simp [counts, h.totals]
          · simpa [counts, hk, Function.update_of_ne (Ne.symm hk)] using h.totals key
      | record serial method decision => exact absurd ⟨_, _, _, rfl⟩ hrec
      | _ =>
          cases hx
          simpa [counts] using h.totals key
    · rw [hrecords]
      cases o with
      | record serial method decision => exact absurd ⟨_, _, _, rfl⟩ hrec
      | _ =>
          cases hx
          exact h.routes k
    · rw [hrecords] at hd
      exact hcovered k d reason hd hr

/-- **One step keeps it.** -/
theorem kept_step (h : Kept registered p) (hs : (system registered).step p l = some p') :
    Kept registered p' := by
  have hconforms := conforms_step follows_handler h.conforms hs
  have hgood := staged_step good_start good_next h.conforms h.good hs
  obtain ⟨i, q, -, hi, rfl⟩ | ⟨i, x, q, o, k, r, sh, -, hi, hx, rfl⟩ | ⟨i, q, o, k, -, hi, rfl⟩ |
    ⟨e, sh, -, he, rfl⟩ := System.step_cases hs
  · exact ⟨hconforms, hgood, h.totals, h.routes, h.covered⟩
  · obtain ⟨htotals, hroutes, hcovered⟩ := h.tables hx (h.conforms.1 i _ hi).1
    exact ⟨hconforms, hgood, htotals, hroutes, hcovered⟩
  · exact ⟨hconforms, hgood, h.totals, h.routes, h.covered⟩
  · cases he
    exact ⟨hconforms, hgood, h.totals, h.routes, h.covered⟩

theorem kept_init (h : (process registered).init p) : Kept registered p := by
  obtain ⟨⟨hroutes, htotals⟩, htasks, hlog⟩ := h
  have hnone : ∀ i, p.tasks i = none := fun i => by rw [htasks]
  refine ⟨⟨fun i t ht => ?_, fun e he => ?_⟩, fun i t ht => ?_, fun key => ?_, fun k => ?_,
    fun k d reason hd => ?_⟩
  · rw [hnone] at ht; cases ht
  · rw [hlog] at he; cases he
  · rw [hnone] at ht; cases ht
  · rw [htotals, hlog]; rfl
  · rw [hroutes, hlog]; rfl
  · rw [hlog] at hd; cases hd

theorem kept_run {p₀ : Pool Op Reply Call Answer World}
    {ls : List (Label Call Turn (String × AgentSessionStatus))} (h₀ : (process registered).init p₀)
    (h : (process registered).Run Any p₀ ls p) : Kept registered p :=
  h.invariant (fun _ _ _ hp _ hs => kept_step hp hs) (kept_init h₀)

/-- How a call that has returned has ended. -/
theorem Kept.ends (h : Kept registered p) {i : Nat} {a : Answer} (ha : p.answer i = some a) :
    ∃ t, p.tasks i = some t ∧ Ends registered t.request
      (stage (keeping registered t.request).next {} p.log i) a := by
  obtain ⟨⟨q, prog, live⟩, ht, hans⟩ := Option.bind_eq_some_iff.mp ha
  refine ⟨_, ht, ?_⟩
  have hfollows := h.conforms.1 i _ ht
  cases prog with
  | op o k => cases hans
  | ret a' =>
      simp only [Task.answer] at hans
      split at hans
      · cases hans
        exact hfollows
      · cases hans

/-- **What the router shows of a device and a method is the last decision**, and a fallback it shows
is one that the totals count. -/
theorem last_route {p₀ : Pool Op Reply Call Answer World}
    {ls : List (Label Call Turn (String × AgentSessionStatus))} (h₀ : (process registered).init p₀)
    (h : (process registered).Run Any p₀ ls p) (serial method : String) :
    (p.shared.routes (serial, method)).map AgentRouteDiagnostics.decision =
      (records p.log (serial, method)).getLast? ∧
    ∀ d reason, p.shared.routes (serial, method) = some d →
      d.decision.fallbackReason = some reason → 0 < p.shared.totals (serial, method, reason) := by
  have hkept := kept_run h₀ h
  refine ⟨hkept.routes _, fun d reason hd hr => ?_⟩
  have hlast := hkept.routes (serial, method)
  rw [hd, Option.map_some] at hlast
  rw [hkept.totals]
  exact List.length_pos_iff.mpr (hkept.covered (serial, method) d.decision reason
    (List.mem_of_getLast? hlast.symm) hr)

/-- A desktop that has just started, with no session. -/
def new : Pool Op Reply Call Answer World :=
  ⟨⟨AgentSessionStatus.disconnected, fun _ => none, fun _ => 0⟩, fun _ => none, []⟩

theorem init_new : (process registered).init new := ⟨⟨rfl, rfl⟩, rfl, rfl⟩

/-- The information on a device is asked for, and the commands answer. -/
def falling : List (Label Call Turn (String × AgentSessionStatus)) :=
  .begin 0 (.read "d" "device.info") :: List.replicate 5 (.act 0 {})

/-- Its decision is the one that is shown. -/
theorem fallback_shown : ∃ p, (process defaultLegacyCapabilities).Run Any new falling p ∧
    (records p.log ("d", "device.info")).getLast?.map RouteDecision.backend = some .legacyAdb := by
  obtain ⟨p, hrun, hp⟩ : ∃ p, (process defaultLegacyCapabilities).Run Any new falling p ∧
      decide ((p.shared.routes ("d", "device.info")).map (fun d => d.decision.backend) =
        some .legacyAdb) = true := run_of_exec_any guarded_any (by rfl)
  refine ⟨p, hrun, ?_⟩
  rw [← (last_route init_new hrun "d" "device.info").1, Option.map_map]
  exact of_decide_eq_true hp

end Runs

end RevBox.CapabilityRouter
