import RevBox.Protocol.Envelope
import RevBox.Support.Utf8

/-!
# Agent — SystemProvider

`provider/system.rs`: the provider of `system.hello`, `system.health` and `capability.list`, with
the parameters of the handshake.

* `constantTimeEq_iff`: the comparison that does not stop early is equality.
* `SystemProvider.hello_ok`: the handshake succeeds for the exact token and a list with version 1 only.
-/

namespace RevBox.Routing

/-- `CARGO_PKG_VERSION`. -/
def agentVersion : String := "0.2.3"

/-- `SYSTEM_HELLO`. -/
def systemHello : String := "system.hello"

/-- `SYSTEM_HEALTH`. -/
def systemHealth : String := "system.health"

/-- `CAPABILITY_LIST`. -/
def capabilityList : String := "capability.list"

/-! ### What the handshake exchanges -/

/-- `HelloParams`. -/
structure HelloParams where
  authToken : String
  desktopVersion : String
  supportedProtocolVersions : List Nat

/-- `u32` from a value. -/
def u32OfValue : Value → Option Nat
  | .number (.int n) => if 0 ≤ n ∧ n < 2 ^ 32 then some n.toNat else none
  | _ => none

/-- `Vec<u32>` from a value. -/
def u32sOfValue : Value → Option (List Nat)
  | .array xs => xs.mapM u32OfValue
  | _ => none

/-- `serde_json::from_value` into `HelloParams`: an object with the three fields, whatever else it
has, or their sequence. -/
def HelloParams.ofValue : Value → Option HelloParams
  | .object fields => do
      let authToken ← (Value.object fields).get? "auth_token"
      let desktopVersion ← (Value.object fields).get? "desktop_version"
      let versions ← (Value.object fields).get? "supported_protocol_versions"
      some ⟨← authToken.asStr, ← desktopVersion.asStr, ← u32sOfValue versions⟩
  | .array [authToken, desktopVersion, versions] => do
      some ⟨← authToken.asStr, ← desktopVersion.asStr, ← u32sOfValue versions⟩
  | _ => none

/-- `negotiate_protocol`. -/
def negotiateProtocol (peerSupported : List Nat) : Option Nat :=
  if peerSupported.contains protocolVersion then some protocolVersion else none

/-- `PermissionInfo`. -/
structure PermissionInfo where
  shell : Bool
  root : Bool
  selinuxEnforcing : Bool

/-- `ProviderHealth`, as `serde` names it. -/
inductive ProviderHealth where
  | ready
  | degraded
  | unavailable
  | incompatible
  | faulted

/-- The name of a health. -/
def ProviderHealth.asStr : ProviderHealth → String
  | .ready => "ready"
  | .degraded => "degraded"
  | .unavailable => "unavailable"
  | .incompatible => "incompatible"
  | .faulted => "faulted"

/-- `ProviderInfo`. -/
structure ProviderInfo where
  name : String
  version : String
  health : ProviderHealth
  requiredPermissions : List String
  lastError : Option String

/-- `CapabilityInfo`. -/
structure CapabilityInfo where
  method : String
  version : Nat
  provider : String
  available : Bool
  unavailableReason : Option String
  probePending : Bool

/-- `RequestContext`. -/
structure RequestContext where
  providers : List ProviderInfo
  capabilities : List CapabilityInfo

/-- `skip_serializing_if = "Option::is_none"`. -/
def optField (key : String) : Option String → List (String × Value)
  | some s => [(key, .string s)]
  | none => []

/-- `PermissionInfo` as JSON. -/
def PermissionInfo.toValue (p : PermissionInfo) : Value :=
  .ofFields [("shell", .bool p.shell), ("root", .bool p.root),
    ("selinux_enforcing", .bool p.selinuxEnforcing)]

/-- `ProviderInfo` as JSON. -/
def ProviderInfo.toValue (p : ProviderInfo) : Value :=
  .ofFields ([("name", .string p.name), ("version", .string p.version),
    ("health", .string p.health.asStr)] ++
    (if p.requiredPermissions = [] then []
      else [("required_permissions", .array (p.requiredPermissions.map .string))]) ++
    optField "last_error" p.lastError)

/-- `CapabilityInfo` as JSON. -/
def CapabilityInfo.toValue (c : CapabilityInfo) : Value :=
  .ofFields ([("method", .string c.method), ("version", .nat c.version),
    ("provider", .string c.provider), ("available", .bool c.available)] ++
    optField "unavailable_reason" c.unavailableReason ++
    [("probe_pending", .bool c.probePending)])

/-! ### The provider -/

/-- `SystemProvider`.  `parseError` is the text of the error `serde_json` refuses a value with. -/
structure SystemProvider where
  authToken : String
  permissions : PermissionInfo
  parseError : Value → String

/-- `parse_params` has failed. -/
def SystemProvider.invalidParams (p : SystemProvider) (params : Value) : AgentError :=
  (AgentError.new .invalidRequest "invalid method parameters").withDetails
    (reasonDetails (p.parseError params))

/-- `constant_time_eq`. -/
def constantTimeEq (left right : List UInt8) : Bool :=
  (List.range (max left.length right.length)).foldl (fun difference index =>
    difference ||| ((left[index]?.getD 0) ^^^ (right[index]?.getD 0)).toNat)
    (left.length ^^^ right.length) = 0

/-- `SystemProvider::hello`. -/
def SystemProvider.hello (p : SystemProvider) (context : RequestContext) (params : Value) :
    Except AgentError Value :=
  match HelloParams.ofValue params with
  | none => .error (p.invalidParams params)
  | some hello =>
      if constantTimeEq (Utf8.encode hello.authToken.toList)
          (Utf8.encode p.authToken.toList) = false then
        .error (.new .permissionDenied "agent authentication failed")
      else match negotiateProtocol hello.supportedProtocolVersions with
        | none => .error (.new .incompatibleVersion "no mutually supported protocol version")
        | some version => .ok (.ofFields [("protocol_version", .nat version),
            ("agent_version", .string agentVersion),
            ("permissions", p.permissions.toValue),
            ("providers", .array (context.providers.map ProviderInfo.toValue)),
            ("capabilities", .array (context.capabilities.map CapabilityInfo.toValue))])

/-- `EmptyParams` from a value. -/
def emptyParams : Value → Bool
  | .object _ | .array [] => true
  | _ => false

/-- `SystemProvider::health`. -/
def SystemProvider.health (p : SystemProvider) (uptimeMs : Nat) (params : Value) :
    Except AgentError Value :=
  if emptyParams params then
    .ok (.ofFields [("status", .string "ready"), ("agent_version", .string agentVersion),
      ("protocol_version", .nat protocolVersion), ("uptime_ms", .nat uptimeMs)])
  else .error (p.invalidParams params)

/-- `SystemProvider::capabilities`. -/
def SystemProvider.capabilities (p : SystemProvider) (context : RequestContext) (params : Value) :
    Except AgentError Value :=
  if emptyParams params then
    .ok (.ofFields [("capabilities", .array (context.capabilities.map CapabilityInfo.toValue))])
  else .error (p.invalidParams params)

/-- `SystemProvider::handle`: all three methods answer at once. -/
def SystemProvider.handle (p : SystemProvider) (context : RequestContext) (uptimeMs : Nat)
    (method : String) (params : Value) : Except AgentError Value :=
  if method = systemHello then p.hello context params
  else if method = systemHealth then p.health uptimeMs params
  else if method = capabilityList then p.capabilities context params
  else .error (.new .unsupportedMethod s!"unsupported system method: {method}")

/-! ### The handshake -/

theorem foldl_or_eq_zero (f : Nat → Nat) : ∀ (is : List Nat) (n : Nat),
    is.foldl (fun d i => d ||| f i) n = 0 ↔ n = 0 ∧ ∀ i ∈ is, f i = 0
  | [], n => by simp
  | i :: is, n => by
      rw [List.foldl_cons, foldl_or_eq_zero f is, Nat.or_eq_zero_iff, List.forall_mem_cons, and_assoc]

theorem xor_eq_zero {m n : Nat} (h : m ^^^ n = 0) : m = n := by
  apply Nat.eq_of_testBit_eq
  intro i
  have hi : (m.testBit i ^^ n.testBit i) = false := by rw [← Nat.testBit_xor, h, Nat.zero_testBit]
  simpa using hi

/-- The comparison that looks at every byte is equality. -/
theorem constantTimeEq_iff {left right : List UInt8} :
    constantTimeEq left right = true ↔ left = right := by
  rw [constantTimeEq, decide_eq_true_iff,
    foldl_or_eq_zero fun i => ((left[i]?.getD 0) ^^^ (right[i]?.getD 0)).toNat]
  constructor
  · rintro ⟨hlen, hbytes⟩
    have hlen : left.length = right.length := xor_eq_zero hlen
    apply List.ext_getElem hlen
    intro i hl hr
    have hi := hbytes i (by simp [hlen, hr])
    rw [List.getElem?_eq_getElem hl, List.getElem?_eq_getElem hr] at hi
    exact UInt8.xor_eq_zero_iff.mp (UInt8.toNat_inj.mp hi)
  · rintro rfl
    simp

theorem negotiateProtocol_eq_some {versions : List Nat} {v : Nat} :
    negotiateProtocol versions = some v ↔ protocolVersion ∈ versions ∧ v = protocolVersion := by
  simp [negotiateProtocol, eq_comm]

/-- **The handshake succeeds for the exact token and a list with this protocol version only.** -/
theorem SystemProvider.hello_ok {p : SystemProvider} {context : RequestContext} {params v : Value}
    (h : p.hello context params = .ok v) :
    ∃ hello, HelloParams.ofValue params = some hello ∧ hello.authToken = p.authToken ∧
      protocolVersion ∈ hello.supportedProtocolVersions := by
  unfold hello at h
  cases hp : HelloParams.ofValue params with
  | none =>
      rw [hp] at h
      cases h
  | some hello =>
      rw [hp] at h
      refine ⟨hello, rfl, ?_⟩
      by_cases ht : constantTimeEq (Utf8.encode hello.authToken.toList)
          (Utf8.encode p.authToken.toList) = true
      · have hc : protocolVersion ∈ hello.supportedProtocolVersions := by
          by_contra hc
          simp [ht, negotiateProtocol, hc] at h
        exact ⟨Utf8.encode_inj (constantTimeEq_iff.mp ht), hc⟩
      · simp [ht] at h

end RevBox.Routing
