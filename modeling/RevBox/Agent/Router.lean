import RevBox.Agent.SystemProvider
import Mathlib.Data.List.Sort

/-!
# Agent — Router

`router.rs` and `system_router`: which provider a method goes to.  A provider's future may answer
at its first poll or await something first; what it then answers is not the router's to say.
`AgentRouter.lookup_hello`: in the Agent's router `system.hello` is the system provider's.
-/

namespace RevBox.Routing

/-- A provider; `handle` answers at once, or not yet. -/
structure Provider where
  name : String
  methods : List String
  handle : RequestContext → Nat → String → Value → Option (Except AgentError Value)

/-- What a provider reports of itself when it is asked. -/
structure Report where
  info : ProviderInfo
  unavailableReason : String → Option String
  probePending : Bool

/-- What is read of the Agent when a request is dispatched: its providers' reports, by name, and
the time since its start. -/
structure World where
  report : String → Report
  uptimeMs : Nat

/-- The system provider among the providers. -/
def SystemProvider.provider (p : SystemProvider) : Provider where
  name := "system"
  methods := [systemHello, systemHealth, capabilityList]
  handle context uptimeMs method params := some (p.handle context uptimeMs method params)

/-- `Router`. -/
structure Router where
  providers : List Provider
  methods : List (String × Provider)

namespace Router

/-- `Router::new`. -/
def new : Router := ⟨[], []⟩

/-- `HashMap::get` of a method. -/
def lookup (r : Router) (method : String) : Option Provider :=
  (r.methods.find? fun e => e.1 = method).map Prod.snd

/-- `Router::register`. -/
def register (r : Router) (p : Provider) : Except AgentError Router :=
  match p.methods.find? fun method => (r.lookup method).isSome with
  | some method =>
      .error (.new .internal s!"duplicate provider method registration: {method}")
  | none => .ok ⟨r.providers ++ [p], r.methods ++ p.methods.map fun method => (method, p)⟩

/-- `Router::provider_info`. -/
def providerInfo (r : Router) (world : World) : List ProviderInfo :=
  r.providers.map fun p => (world.report p.name).info

/-- One entry of `Router::capabilities`. -/
def capability (report : Report) (method : String) : CapabilityInfo where
  method := method
  version := 1
  provider := report.info.name
  available := (report.unavailableReason method).isNone
  unavailableReason := report.unavailableReason method
  probePending := report.probePending

/-- `Router::capabilities`. -/
def capabilities (r : Router) (world : World) : List CapabilityInfo :=
  (r.providers.flatMap fun p => p.methods.map (capability (world.report p.name))).insertionSort
    fun left right => left.method ≤ right.method

/-- `Router::context`. -/
def context (r : Router) (world : World) : RequestContext :=
  ⟨r.providerInfo world, r.capabilities world⟩

/-- `Router::dispatch`, up to the first await of the provider. -/
def dispatch (r : Router) (world : World) (method : String) (params : Value) :
    Option (Except AgentError Value) :=
  match r.lookup method with
  | none => some (.error (.new .unsupportedMethod s!"unsupported method: {method}"))
  | some p => p.handle (r.context world) world.uptimeMs method params

/-- A router built as the Agent builds its own: the system provider first, then others. -/
inductive Built (system : SystemProvider) : Router → Prop where
  | system {r : Router} (h : register new system.provider = .ok r) : Built system r
  | more {r r' : Router} {p : Provider} (b : Built system r) (h : register r p = .ok r') :
      Built system r'

/-- What is registered stays registered. -/
theorem lookup_register {r r' : Router} {p q : Provider} {method : String}
    (h : r.register p = .ok r') (hq : r.lookup method = some q) : r'.lookup method = some q := by
  obtain ⟨e, he, rfl⟩ := Option.map_eq_some_iff.mp hq
  unfold register at h
  split at h
  · cases h
  · cases h
    exact Option.map_eq_some_iff.mpr ⟨e, by simp [List.find?_append, he], rfl⟩

end Router

/-- The Agent's router. -/
structure AgentRouter (system : SystemProvider) where
  router : Router
  built : Router.Built system router

/-- `system.hello` is the system provider's. -/
theorem AgentRouter.lookup_hello {system : SystemProvider} (r : AgentRouter system) :
    r.router.lookup systemHello = some system.provider := by
  obtain ⟨r, b⟩ := r
  induction b with
  | system h =>
      cases h
      rfl
  | more _ h ih => exact Router.lookup_register h ih

end RevBox.Routing
