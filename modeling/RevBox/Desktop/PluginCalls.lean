import Mathlib.Logic.Function.Basic
import RevBox.Protocol.Value
import RevBox.Support.Machine
import RevBox.Support.Text
import RevBox.Support.Utf8

/-!
# Desktop — PluginCalls

`PluginService::call` over its two transports: the worker thread and the channel that
`call_checked` makes for one call, and the one child process of a `ProcessPlugin`, whose lines are
matched to requests by `wait_response`.  What plugins do is left to the surroundings: a worker
returns anything at any time, a child prints any line at any time.

* `Contract`: what one call may do.
* `calls_keep_contract`: every call of a run keeps it, as long as no plugin is put under an id that
  is not its own, and a child reports its id, is given no long input, gives no long answer, and
  answers nothing it has not been asked.
-/

namespace RevBox.PluginCalls

/-- `DEFAULT_MAX_PAYLOAD_KB`. -/
def defaultMaxPayloadKb : Nat := 8192

/-- The sizes of `CallLimits`; `0` is no limit. -/
structure CallLimits where
  maxInput : Nat
  maxOutput : Nat

/-- The sizes of `call_limits`, from what the configuration holds. -/
def callLimits (config : Option (List Char)) : CallLimits :=
  let payloadKb := ((config.bind (Text.parseUnsigned (2 ^ 64))).filter
    fun n => 1 ≤ n ∧ n ≤ 65536).getD defaultMaxPayloadKb
  ⟨payloadKb * 1024, payloadKb * 1024⟩

/-- How a call fails: the service's own refusals, `CallError`, and `ProcessError`. -/
inductive Refusal where
  | disabled
  | notLoaded
  | inputTooLarge (max : Nat)
  | outputTooLarge (max : Nat)
  | timeout
  | workerGone
  | spawn
  | handshake
  | crashed
  | badProtocol

/-- `LoadedPlugin`: `load_one` makes none unless the library reports the manifest's id. -/
structure LoadedPlugin where
  manifest : String
  info : String
  same : info = manifest

/-- An `Arc` of one of the two kinds of plugin. -/
inductive Handle where
  | inProcess (p : LoadedPlugin)
  | process (manifest : String)

def Handle.manifest : Handle → String
  | .inProcess p => p.manifest
  | .process m => m

/-- Where a `ProcessPlugin` is: its slot is empty, or its lock is held for the handshake (of
`info`, or of a call), or a child is in the slot, or the lock is held by a call that has been
asked under an id. -/
inductive Stage where
  | stopped
  | handshaking (call : Option Nat)
  | running (reported : String) (nextId : Nat)
  | waiting (reported : String) (nextId : Nat) (call : Nat) (id : Nat)

/-- A line of the child, as `serde_json` reads it if it can, and the call that was being waited
for when it was printed. -/
structure Printed where
  line : Option Value
  during : Option Nat

/-- A child, the lines not received yet, whether more may come, and whether `info` has ever
succeeded. -/
structure Child where
  stage : Stage
  rx : List Printed
  printing : Bool
  known : Bool

/-- `kill_and_clear`. -/
def Child.killed (k : Child) : Child := { k with stage := .stopped, rx := [], printing := false }

/-! ### `wait_response` -/

/-- `Value::as_u64`. -/
def asU64 : Value → Option Nat
  | .number (.int n) => if 0 ≤ n ∧ n < 2 ^ 64 then some n.toNat else none
  | _ => none

/-- `Value::as_i64`. -/
def asI64 : Value → Option Int
  | .number (.int n) => if -2 ^ 63 ≤ n ∧ n < 2 ^ 63 then some n else none
  | _ => none

/-- The id a line answers: a number, or its text. -/
def respId (v : Value) : Option Nat :=
  (v.get? "id").bind fun id =>
    (asU64 id).or (id.asStr.bind fun s => Text.parseUnsigned (2 ^ 64) s.toList)

/-- The `result` of an answer. -/
def resultOf (v : Value) : Value := (v.get? "result").getD .null

/-- What `wait_response` does next. -/
inductive Heard where
  | nothing
  | skip (rest : List Printed)
  | fail (e : Refusal)
  | result (v : Value) (during : Option Nat) (rest : List Printed)

/-- One turn of the loop of `wait_response`. -/
def waitResponse (id : Nat) (k : Child) : Heard :=
  match k.rx with
  | [] => if k.printing then .nothing else .fail .crashed
  | ⟨none, _⟩ :: _ => .fail .badProtocol
  | ⟨some v, during⟩ :: rest =>
      -- a notification has no id at all
      if respId v = some id then
        if (v.get? "error").isSome then .fail .badProtocol else .result (resultOf v) during rest
      else .skip rest

/-- The id a child reports. -/
def reportedId (result : Value) : String := ((result.get? "id").bind Value.asStr).getD ""

/-- The code of a result, `as i32`. -/
def codeOf (result : Value) : Int := (((result.get? "code").bind asI64).getD (-2)).bmod (2 ^ 32)

/-- The output of a result. -/
def outputOf (result : Value) : List UInt8 :=
  Utf8.encode (((result.get? "output").bind Value.asStr).getD "").toList

/-! ### The service -/

/-- An output, and the call that was being made when the plugin produced it. -/
structure Answer where
  code : Int
  output : List UInt8
  during : Option Nat

/-- A call: the id, the input, the limits it was made under, and the handle it found. -/
structure Request where
  key : String
  input : List UInt8
  limits : CallLimits
  plugin : Option Nat

/-- The id in a plugin's manifest, and the one the plugin reports. -/
structure Identity where
  manifest : String
  reported : String

/-- Whom the input was given to, what the worker has sent, and what the call has returned. -/
structure Progress where
  reached : Option Identity
  rx : Option Answer
  result : Option (Except Refusal Answer)

structure Service where
  config : Option (List Char)
  handles : List Handle
  children : Nat → Child
  loaded : List (String × Nat)
  requests : List Request
  progress : Nat → Progress

/-- What happens: the steps of the service, and those of its plugins. -/
inductive Label where
  | configure (value : Option (List Char))
  | loadOne (manifest info : String)
  | newProcess (manifest : String)
  | info (p : Nat)
  /-- `install`, `rollback` and `set_enabled`: what `load_dir` has made goes under the id -/
  | putLoaded (key : String) (p : Nat)
  | scanned (ps : List Nat)
  | remove (key : String)
  | stop (p : Nat)
  | call (key : String) (input : List UInt8) (enabled : Bool)
  | start (c : Nat) (works : Bool)
  | returns (c : Nat) (code : Int) (output : List UInt8)
  | receive (c : Nat)
  | expire (c : Nat)
  | prints (p : Nat) (line : Option Value)
  | closes (p : Nat)
  | wait (p : Nat) (works : Bool)
  | late (p : Nat)

namespace Service

variable (s : Service)

def setChild (p : Nat) (k : Child) : Service :=
  { s with children := Function.update s.children p k }

def setProgress (c : Nat) (g : Progress) : Service :=
  { s with progress := Function.update s.progress c g }

/-- The input goes to the plugin. -/
def reach (c : Nat) (who : Identity) : Service :=
  s.setProgress c { s.progress c with reached := some who }

/-- The call returns. -/
def finish (c : Nat) (r : Except Refusal Answer) : Service :=
  s.setProgress c { s.progress c with result := some r }

/-- The call the lock is held for, if it is a call, returns an error. -/
def abort (call : Option Nat) (e : Refusal) : Service :=
  match call with
  | some c => s.finish c (.error e)
  | none => s

/-- `HashMap::insert`. -/
def insert (loaded : List (String × Nat)) (key : String) (p : Nat) : List (String × Nat) :=
  (key, p) :: loaded.filter fun e => e.1 ≠ key

/-- `HashMap::get`. -/
def get (key : String) : Option Nat := (s.loaded.find? (·.1 = key)).map (·.2)

/-- `load_dir` has returned this handle. -/
def ready (p : Nat) : Bool :=
  match s.handles[p]? with
  | some (.inProcess _) => true
  | some (.process _) => (s.children p).known
  | none => false

/-- The request of a call to a plugin in process. -/
def checked (c : Nat) : Option Request := do
  let r ← s.requests[c]?
  let p ← r.plugin
  match s.handles[p]? with
  | some (.inProcess _) => some r
  | _ => none

/-- The map of `scan`, each handle under the id of its manifest. -/
def scanMap : List Nat → List (String × Nat)
  | [] => []
  | p :: ps =>
      match s.handles[p]? with
      | some h => if s.ready p then insert (scanMap ps) h.manifest p else scanMap ps
      | none => scanMap ps

/-- `ProcessPlugin::call` from the id on: the request is written. -/
def ask (p c : Nat) (who : Identity) (id : Nat) (works : Bool) : Service :=
  let s := s.reach c who
  if works then
    s.setChild p { s.children p with stage := .waiting who.reported (id + 1) c id }
  else (s.setChild p (s.children p).killed).finish c (.error .crashed)

/-- `call` for a handle: `call_checked` up to its thread, or `ProcessPlugin::call` up to the
first wait, once the lock is free. -/
def start (r : Request) (c p : Nat) (works : Bool) : Handle → Option Service
  | .inProcess lp =>
      if 0 < r.limits.maxInput ∧ r.limits.maxInput < r.input.length then
        some (s.finish c (.error (.inputTooLarge r.limits.maxInput)))
      else if works then some (s.reach c ⟨lp.manifest, lp.info⟩)
      else some (s.finish c (.error .workerGone))
  | .process m =>
      match (s.children p).stage with
      | .running reported nextId => some (s.ask p c ⟨m, reported⟩ nextId works)
      | .stopped =>
          if works then
            some (s.setChild p
              { s.children p with stage := .handshaking (some c), rx := [], printing := true })
          else some (s.finish c (.error .spawn))
      | _ => none

/-- `recv_timeout` of `call_checked`. -/
def receive (r : Request) (c : Nat) (a : Answer) : Service :=
  if 0 < r.limits.maxOutput ∧ r.limits.maxOutput < a.output.length then
    s.finish c (.error (.outputTooLarge r.limits.maxOutput))
  else s.finish c (.ok a)

/-- The end of the handshake. -/
def initialized (p : Nat) (m : String) (call : Option Nat) (result : Value)
    (rest : List Printed) (works : Bool) : Service :=
  if reportedId result = "" then
    (s.setChild p (s.children p).killed).abort call .handshake
  else
    match call with
    | none =>
        s.setChild p { s.children p with
          stage := .running (reportedId result) 1, rx := rest, known := true }
    | some c =>
        (s.setChild p { s.children p with stage := .running (reportedId result) 1, rx := rest }).ask
          p c ⟨m, reportedId result⟩ 1 works

/-- A turn of `wait_response`, for whoever holds the lock. -/
def wait (p : Nat) (m : String) (works : Bool) : Option Service :=
  match (s.children p).stage with
  | .handshaking call =>
      match waitResponse 0 (s.children p) with
      | .nothing => none
      | .skip rest => some (s.setChild p { s.children p with rx := rest })
      | .fail e => some ((s.setChild p (s.children p).killed).abort call e)
      | .result v _ rest => some (s.initialized p m call v rest works)
  | .waiting reported nextId c id =>
      match waitResponse id (s.children p) with
      | .nothing => none
      | .skip rest => some (s.setChild p { s.children p with rx := rest })
      | .fail e => some ((s.setChild p (s.children p).killed).finish c (.error e))
      | .result v during rest =>
          some ((s.setChild p { s.children p with stage := .running reported nextId, rx := rest
            }).finish c (.ok ⟨codeOf v, outputOf v, during⟩))
  | _ => none

end Service

/-- The call a line is printed during. -/
def Stage.call : Stage → Option Nat
  | .waiting _ _ c _ => some c
  | _ => none

def step (s : Service) : Label → Option Service
  | .configure value => some { s with config := value }
  | .loadOne manifest info =>
      if h : info = manifest then
        some { s with handles := s.handles ++ [.inProcess ⟨manifest, info, h⟩] }
      else none
  | .newProcess manifest =>
      some { s with
        handles := s.handles ++ [.process manifest]
        children := Function.update s.children s.handles.length ⟨.stopped, [], false, false⟩ }
  | .info p =>
      match s.handles[p]?, (s.children p).stage with
      | some (.process _), .stopped =>
          some (s.setChild p
            { s.children p with stage := .handshaking none, rx := [], printing := true })
      | some (.process _), .running .. => some (s.setChild p { s.children p with known := true })
      | _, _ => none
  | .putLoaded key p =>
      if s.ready p then some { s with loaded := Service.insert s.loaded key p } else none
  | .scanned ps => some { s with loaded := s.scanMap ps }
  | .remove key => some { s with loaded := s.loaded.filter fun e => e.1 ≠ key }
  | .stop p =>
      match (s.children p).stage with
      | .running .. => some (s.setChild p (s.children p).killed)
      | _ => none
  | .call key input enabled =>
      let plugin := if enabled then s.get key else none
      let refused := if enabled then Refusal.notLoaded else .disabled
      some { s with
        requests := s.requests ++ [⟨key, input, callLimits s.config, plugin⟩]
        progress := Function.update s.progress s.requests.length
          ⟨none, none, if plugin.isNone then some (.error refused) else none⟩ }
  | .start c works => do
      let r ← s.requests[c]?
      let p ← r.plugin
      let h ← s.handles[p]?
      if (s.progress c).reached.isNone ∧ (s.progress c).result.isNone then
        s.start r c p works h
      else none
  | .returns c code output => do
      let _ ← s.checked c
      if (s.progress c).reached.isSome ∧ (s.progress c).rx.isNone then
        some (s.setProgress c { s.progress c with rx := some ⟨code, output, some c⟩ })
      else none
  | .receive c => do
      let r ← s.checked c
      let a ← (s.progress c).rx
      if (s.progress c).result.isNone then some (s.receive r c a) else none
  | .expire c => do
      let r ← s.checked c
      if (s.progress c).reached.isSome ∧ (s.progress c).result.isNone then
        some ({ s with loaded := s.loaded.filter fun e => e.1 ≠ r.key }.finish c (.error .timeout))
      else none
  | .prints p line =>
      let k := s.children p
      if k.printing then some (s.setChild p { k with rx := k.rx ++ [⟨line, k.stage.call⟩] })
      else none
  | .closes p => some (s.setChild p { s.children p with printing := false })
  | .wait p works =>
      match s.handles[p]? with
      | some (.process m) => s.wait p m works
      | _ => none
  | .late p =>
      match (s.children p).stage with
      | .handshaking call => some ((s.setChild p (s.children p).killed).abort call .timeout)
      | .waiting _ _ c _ =>
          some ((s.setChild p (s.children p).killed).finish c (.error .timeout))
      | _ => none

def start : Service :=
  ⟨none, [], fun _ => ⟨.stopped, [], false, false⟩, [], [], fun _ => ⟨none, none, none⟩⟩

def service : Machine Service Label where
  init s := s = start
  step := step

/-- **The contract of a call.** -/
structure Contract (c : Nat) (r : Request) (g : Progress) : Prop where
  accepts : g.reached.isSome = true → r.input.length ≤ r.limits.maxInput
  rejects : r.limits.maxInput < r.input.length → ∀ a, g.result ≠ some (.ok a)
  short : ∀ a, g.result = some (.ok a) → a.output.length ≤ r.limits.maxOutput
  own : ∀ a, g.result = some (.ok a) → a.during = some c
  identity : ∀ who, g.reached = some who → who.manifest = r.key ∧ who.reported = who.manifest

/-- An answer to `id` is in order: it has been asked, a handshake brings the manifest's id or
none, and what is awaited is no longer than the call allows. -/
def InOrder (s : Service) (m : String) (v : Value) (id : Nat) : Stage → Prop
  | .stopped => True
  | .handshaking _ => id = 0 ∧ (reportedId (resultOf v) = m ∨ reportedId (resultOf v) = "")
  | .running _ nextId => id < nextId
  | .waiting _ nextId c awaited =>
      id < nextId ∧ (id = awaited → ∀ r, s.requests[c]? = some r →
        (outputOf (resultOf v)).length ≤ r.limits.maxOutput)

/-- A plugin goes under the id of its own manifest; a child is given no long input, and what it
prints is in order. -/
def Sound (s : Service) : Label → Prop
  | .putLoaded key p => ∀ h, s.handles[p]? = some h → h.manifest = key
  | .start c _ => ∀ r p m, s.requests[c]? = some r → r.plugin = some p →
      s.handles[p]? = some (.process m) → r.input.length ≤ r.limits.maxInput
  | .prints p (some v) => ∀ m id, s.handles[p]? = some (.process m) → respId v = some id →
      InOrder s m v id (s.children p).stage
  | _ => True

/-! ### What a run keeps -/

section Kept

variable {s t : Service}

theorem callLimits_pos (config : Option (List Char)) :
    0 < (callLimits config).maxInput ∧ 0 < (callLimits config).maxOutput := by
  have hpos : 1 ≤ ((config.bind (Text.parseUnsigned (2 ^ 64))).filter
      fun n => 1 ≤ n ∧ n ≤ 65536).getD defaultMaxPayloadKb := by
    cases h : (config.bind (Text.parseUnsigned (2 ^ 64))).filter fun n => 1 ≤ n ∧ n ≤ 65536 with
    | none => exact (by decide : 1 ≤ defaultMaxPayloadKb)
    | some n =>
        have := (Option.filter_eq_some_iff.mp h).2
        exact (of_decide_eq_true this).1
  exact ⟨Nat.mul_pos hpos (by decide), Nat.mul_pos hpos (by decide)⟩

/-- What holds of a call on its way. -/
structure ProgressOk (c : Nat) (r : Request) (g : Progress) : Prop where
  reached : ∀ who, g.reached = some who → who.manifest = r.key ∧ who.reported = who.manifest ∧
    r.input.length ≤ r.limits.maxInput
  sent : ∀ a, g.rx = some a → a.during = some c ∧ r.input.length ≤ r.limits.maxInput
  answered : ∀ a, g.result = some (.ok a) → a.output.length ≤ r.limits.maxOutput ∧
    a.during = some c ∧ r.input.length ≤ r.limits.maxInput

theorem ProgressOk.contract {c : Nat} {r : Request} {g : Progress} (h : ProgressOk c r g) :
    Contract c r g where
  accepts hg := by
    obtain ⟨who, hwho⟩ := Option.isSome_iff_exists.mp hg
    exact (h.reached who hwho).2.2
  rejects hlong a ha := Nat.not_le_of_lt hlong (h.answered a ha).2.2
  short a ha := (h.answered a ha).1
  own a ha := (h.answered a ha).2.1
  identity who hwho := ⟨(h.reached who hwho).1, (h.reached who hwho).2.1⟩

/-- A call with this number is asked of this plugin, under limits it meets. -/
def Asks (requests : List Request) (p c : Nat) (r : Request) : Prop :=
  requests[c]? = some r ∧ r.plugin = some p ∧ r.input.length ≤ r.limits.maxInput

/-- The answers among the lines of a child. -/
def Answers (rx : List Printed) (P : Nat → Value → Option Nat → Prop) : Prop :=
  ∀ l ∈ rx, ∀ v id, l.line = some v → respId v = some id → P id v l.during

/-- What holds of a child of the plugin `m`: it reports `m`, its lines answer what has been
asked, and the awaited answer was printed during the call and is not too long. -/
def ChildOk (requests : List Request) (p : Nat) (m : String) (k : Child) : Prop :=
  match k.stage with
  | .stopped => k.rx = [] ∧ k.printing = false
  | .handshaking call =>
      Answers k.rx (fun id v _ =>
        id = 0 ∧ (reportedId (resultOf v) = m ∨ reportedId (resultOf v) = "")) ∧
      ∀ c, call = some c → ∃ r, Asks requests p c r
  | .running reported nextId => reported = m ∧ Answers k.rx fun id _ _ => id < nextId
  | .waiting reported nextId c awaited =>
      reported = m ∧ nextId = awaited + 1 ∧ ∃ r, Asks requests p c r ∧
        Answers k.rx fun id v during => id < nextId ∧ (id = awaited → during = some c ∧
          (outputOf (resultOf v)).length ≤ r.limits.maxOutput)

structure Kept (s : Service) : Prop where
  loaded : ∀ e ∈ s.loaded, ∃ h, s.handles[e.2]? = some h ∧ h.manifest = e.1
  found : ∀ (c : Nat) r p, s.requests[c]? = some r → r.plugin = some p →
    ∃ h, s.handles[p]? = some h ∧ h.manifest = r.key
  limited : ∀ (c : Nat) r, s.requests[c]? = some r → 0 < r.limits.maxInput ∧ 0 < r.limits.maxOutput
  child : ∀ (p : Nat) m, s.handles[p]? = some (.process m) →
    ChildOk s.requests p m (s.children p)
  progress : ∀ (c : Nat) r, s.requests[c]? = some r → ProgressOk c r (s.progress c)

theorem Kept.setChild (h : Kept s) {p : Nat} {k : Child}
    (hk : ∀ m, s.handles[p]? = some (.process m) → ChildOk s.requests p m k) :
    Kept (s.setChild p k) where
  loaded := h.loaded
  found := h.found
  limited := h.limited
  child q m hq := by
    by_cases hqp : q = p
    · subst hqp
      simpa only [Service.setChild, Function.update_self] using hk m hq
    · simpa only [Service.setChild, Function.update_of_ne hqp] using h.child q m hq
  progress := h.progress

theorem Kept.setProgress (h : Kept s) {c : Nat} {g : Progress}
    (hg : ∀ r, s.requests[c]? = some r → ProgressOk c r g) : Kept (s.setProgress c g) where
  loaded := h.loaded
  found := h.found
  limited := h.limited
  child := h.child
  progress d r hd := by
    by_cases hdc : d = c
    · subst hdc
      simpa only [Service.setProgress, Function.update_self] using hg r hd
    · simpa only [Service.setProgress, Function.update_of_ne hdc] using h.progress d r hd

theorem Kept.setLoaded (h : Kept s) {loaded : List (String × Nat)}
    (hl : ∀ e ∈ loaded, ∃ k, s.handles[e.2]? = some k ∧ k.manifest = e.1) :
    Kept { s with loaded := loaded } :=
  ⟨hl, h.found, h.limited, h.child, h.progress⟩

theorem Kept.refuse (h : Kept s) (c : Nat) (e : Refusal) : Kept (s.finish c (.error e)) :=
  h.setProgress fun r hr =>
    ⟨(h.progress c r hr).reached, (h.progress c r hr).sent, fun _ ha => nomatch ha⟩

theorem Kept.abort (h : Kept s) (call : Option Nat) (e : Refusal) : Kept (s.abort call e) := by
  cases call with
  | none => exact h
  | some c => exact h.refuse c e

theorem Kept.answer (h : Kept s) {c : Nat} {a : Answer}
    (ha : ∀ r, s.requests[c]? = some r → a.output.length ≤ r.limits.maxOutput ∧
      a.during = some c ∧ r.input.length ≤ r.limits.maxInput) : Kept (s.finish c (.ok a)) :=
  h.setProgress fun r hr => by
    refine ⟨(h.progress c r hr).reached, (h.progress c r hr).sent, fun b hb => ?_⟩
    cases hb
    exact ha r hr

theorem Kept.reach (h : Kept s) {c : Nat} {who : Identity}
    (hw : ∀ r, s.requests[c]? = some r → who.manifest = r.key ∧ who.reported = who.manifest ∧
      r.input.length ≤ r.limits.maxInput) : Kept (s.reach c who) :=
  h.setProgress fun r hr => by
    refine ⟨fun w hwho => ?_, (h.progress c r hr).sent, (h.progress c r hr).answered⟩
    cases hwho
    exact hw r hr

theorem Kept.kill (h : Kept s) (p : Nat) : Kept (s.setChild p (s.children p).killed) :=
  h.setChild fun _ _ => ⟨rfl, rfl⟩

theorem Answers.mono {rx : List Printed} {P Q : Nat → Value → Option Nat → Prop}
    (h : Answers rx P) (hPQ : ∀ id v d, P id v d → Q id v d) : Answers rx Q :=
  fun l hl v id hv hid => hPQ _ _ _ (h l hl v id hv hid)

theorem Answers.tail {l : Printed} {rest : List Printed} {P : Nat → Value → Option Nat → Prop}
    (h : Answers (l :: rest) P) : Answers rest P :=
  fun _ hl => h _ (List.mem_cons_of_mem _ hl)

theorem Answers.concat {l : Printed} {rx : List Printed} {P : Nat → Value → Option Nat → Prop}
    (h : Answers rx P) (hl : ∀ v id, l.line = some v → respId v = some id → P id v l.during) :
    Answers (rx ++ [l]) P := by
  intro k hk
  rcases List.mem_append.mp hk with hk | hk
  · exact h k hk
  · rw [List.mem_singleton.mp hk]
    exact hl

/-! ### `wait_response` and the calls of a child -/

/-- What a turn of `wait_response` has taken from the lines. -/
theorem waitResponse_skip {id : Nat} {k : Child} {rest : List Printed}
    (h : waitResponse id k = .skip rest) : ∃ l, k.rx = l :: rest := by
  unfold waitResponse at h
  split at h
  · split at h <;> cases h
  · cases h
  · rename_i heq
    split at h
    · split at h <;> cases h
    · cases h
      exact ⟨_, heq⟩

theorem waitResponse_result {id : Nat} {k : Child} {v : Value} {during : Option Nat}
    {rest : List Printed} (h : waitResponse id k = .result v during rest) :
    ∃ line, k.rx = ⟨some line, during⟩ :: rest ∧ respId line = some id ∧ v = resultOf line := by
  unfold waitResponse at h
  split at h
  · split at h <;> cases h
  · cases h
  · rename_i heq
    split at h
    · split at h
      · cases h
      · cases h
        exact ⟨_, heq, ‹_›, rfl⟩
    · cases h

/-- The manifest of the plugin a call was made for. -/
theorem Kept.manifest_of (h : Kept s) {p c : Nat} {r : Request} {k : Handle}
    (ha : s.requests[c]? = some r) (hp : r.plugin = some p) (hk : s.handles[p]? = some k) :
    k.manifest = r.key := by
  obtain ⟨k', hk', hm⟩ := h.found c r p ha hp
  rw [hk] at hk'
  cases hk'
  exact hm

theorem Kept.ask (h : Kept s) {p c n : Nat} {r : Request} {m reported : String} (works : Bool)
    (hp : s.handles[p]? = some (.process m)) (ha : Asks s.requests p c r) (hrep : reported = m)
    (hrx : Answers (s.children p).rx fun id _ _ => id < n) :
    Kept (s.ask p c ⟨m, reported⟩ n works) := by
  have hkey : m = r.key := h.manifest_of ha.1 ha.2.1 hp
  have hreach : Kept (s.reach c ⟨m, reported⟩) := by
    refine h.reach fun r' hr' => ?_
    rw [ha.1] at hr'
    cases hr'
    exact ⟨hkey, hrep, ha.2.2⟩
  unfold Service.ask
  split
  · refine hreach.setChild fun m' hm' => ?_
    rw [show (s.reach c ⟨m, reported⟩).handles[p]? = some (.process m) from hp] at hm'
    cases hm'
    refine ⟨hrep, rfl, r, ha, hrx.mono fun id _ _ hlt => ⟨Nat.lt_succ_of_lt hlt, fun heq => ?_⟩⟩
    exact absurd (heq ▸ hlt) (Nat.lt_irrefl _)
  · exact (hreach.kill p).refuse c .crashed

theorem Kept.start (h : Kept s) {c p : Nat} {r : Request} {k : Handle} {works : Bool}
    (hr : s.requests[c]? = some r) (hp : r.plugin = some p) (hk : s.handles[p]? = some k)
    (hlong : ∀ m, k = .process m → r.input.length ≤ r.limits.maxInput)
    (ht : s.start r c p works k = some t) : Kept t := by
  cases k with
  | inProcess lp =>
      simp only [Service.start] at ht
      split at ht
      · cases ht
        exact h.refuse c _
      · rename_i hfits
        split at ht
        · cases ht
          refine h.reach fun r' hr' => ?_
          rw [hr] at hr'
          cases hr'
          have hle : r.input.length ≤ r.limits.maxInput := by
            by_contra hgt
            exact hfits ⟨(h.limited c r hr).1, Nat.lt_of_not_le hgt⟩
          exact ⟨h.manifest_of hr hp hk, lp.same, hle⟩
        · cases ht
          exact h.refuse c _
  | process m =>
      have ha : Asks s.requests p c r := ⟨hr, hp, hlong m rfl⟩
      have hchild := h.child p m hk
      unfold ChildOk at hchild
      simp only [Service.start] at ht
      split at ht
      · rename_i reported n hstage
        rw [hstage] at hchild
        cases ht
        exact h.ask works hk ha hchild.1 hchild.2
      · split at ht
        · cases ht
          refine h.setChild fun m' _ => ⟨fun _ hl => (nomatch hl), fun c' hc' => ?_⟩
          cases hc'
          exact ⟨r, ha⟩
        · cases ht
          exact h.refuse c _
      · cases ht

theorem Kept.receive (h : Kept s) {c : Nat} {r : Request} {a : Answer}
    (hr : s.requests[c]? = some r) (ha : (s.progress c).rx = some a) : Kept (s.receive r c a) := by
  unfold Service.receive
  split
  · exact h.refuse c _
  · rename_i hfits
    refine h.answer fun r' hr' => ?_
    rw [hr] at hr'
    cases hr'
    have hle : a.output.length ≤ r.limits.maxOutput := by
      by_contra hgt
      exact hfits ⟨(h.limited c r hr).2, Nat.lt_of_not_le hgt⟩
    exact ⟨hle, (h.progress c r hr).sent a ha⟩

/-- The end of a handshake that brought the manifest's id, or none. -/
theorem Kept.initialized (h : Kept s) {p : Nat} {m : String} {call : Option Nat} {v : Value}
    {rest : List Printed} (works : Bool) (hp : s.handles[p]? = some (.process m))
    (hid : reportedId v = m ∨ reportedId v = "")
    (hrx : Answers rest fun id _ _ => id = 0)
    (hcall : ∀ c, call = some c → ∃ r, Asks s.requests p c r) :
    Kept (s.initialized p m call v rest works) := by
  unfold Service.initialized
  split
  · exact (h.kill p).abort _ _
  · rename_i hne
    have hrep := hid.resolve_right hne
    have hrx : Answers rest fun id _ _ => id < 1 := hrx.mono fun _ _ _ h0 => h0 ▸ Nat.one_pos
    have hchild : ∀ k : Child, k.stage = .running (reportedId v) 1 → k.rx = rest →
        Kept (s.setChild p k) := fun k hstage hrest => h.setChild fun m' hm' => by
      rw [hp] at hm'
      cases hm'
      unfold ChildOk
      rw [hstage, hrest]
      exact ⟨hrep, hrx⟩
    cases call with
    | none => exact hchild _ rfl rfl
    | some c =>
        obtain ⟨r, ha⟩ := hcall c rfl
        refine (hchild _ rfl rfl).ask works hp ha hrep ?_
        simpa only [Service.setChild, Function.update_self] using hrx

theorem Kept.wait (h : Kept s) {p : Nat} {m : String} {works : Bool}
    (hp : s.handles[p]? = some (.process m)) (ht : s.wait p m works = some t) : Kept t := by
  have hchild := h.child p m hp
  unfold ChildOk at hchild
  unfold Service.wait at ht
  split at ht
  · rename_i call hstage
    rw [hstage] at hchild
    obtain ⟨hrx, hcall⟩ := hchild
    split at ht
    · cases ht
    · rename_i rest hskip
      obtain ⟨l, hl⟩ := waitResponse_skip hskip
      cases ht
      refine h.setChild fun m' hm' => ?_
      rw [hp] at hm'
      cases hm'
      unfold ChildOk
      rw [hstage]
      exact ⟨(hl ▸ hrx).tail, hcall⟩
    · cases ht
      exact (h.kill p).abort _ _
    · rename_i v during rest hres
      obtain ⟨line, hl, hid, rfl⟩ := waitResponse_result hres
      cases ht
      have hrx' := hl ▸ hrx
      have hrep := (hrx' _ List.mem_cons_self line 0 rfl hid).2
      exact h.initialized works hp hrep (hrx'.tail.mono fun _ _ _ hq => hq.1) hcall
  · rename_i reported n c awaited hstage
    rw [hstage] at hchild
    obtain ⟨hrep, hn, r, ha, hrx⟩ := hchild
    split at ht
    · cases ht
    · rename_i rest hskip
      obtain ⟨l, hl⟩ := waitResponse_skip hskip
      cases ht
      refine h.setChild fun m' hm' => ?_
      rw [hp] at hm'
      cases hm'
      unfold ChildOk
      rw [hstage]
      exact ⟨hrep, hn, r, ha, (hl ▸ hrx).tail⟩
    · cases ht
      exact (h.kill p).refuse c _
    · rename_i v during rest hres
      obtain ⟨line, hl, hid, rfl⟩ := waitResponse_result hres
      cases ht
      have hrx' := hl ▸ hrx
      obtain ⟨hduring, hlen⟩ := (hrx' _ List.mem_cons_self line awaited rfl hid).2 rfl
      have hset : Kept (s.setChild p
          { s.children p with stage := .running reported n, rx := rest }) :=
        h.setChild fun m' hm' => by
          rw [hp] at hm'
          cases hm'
          exact ⟨hrep, hrx'.tail.mono fun _ _ _ hq => hq.1⟩
      refine hset.answer fun r' hr' => ?_
      rw [show (s.setChild p _).requests[c]? = some r from ha.1] at hr'
      cases hr'
      exact ⟨hlen, hduring, ha.2.2⟩
  · cases ht

/-! ### The other steps -/

theorem getElem?_concat_of_some {α : Type} {xs : List α} {i : Nat} {a : α} (x : α)
    (h : xs[i]? = some a) : (xs ++ [x])[i]? = some a := by
  rw [List.getElem?_append_left (List.getElem?_eq_some_iff.mp h).1, h]

/-- An element of a list with one more is an old one, or the one at the end. -/
theorem getElem?_concat_cases {α : Type} {xs : List α} {i : Nat} {a x : α}
    (h : (xs ++ [x])[i]? = some a) : xs[i]? = some a ∨ i = xs.length ∧ a = x := by
  rcases Nat.lt_or_ge i xs.length with hi | hi
  · exact .inl (by rwa [List.getElem?_append_left hi] at h)
  · right
    rw [List.getElem?_append_right hi, List.getElem?_singleton] at h
    split at h
    · cases h
      exact ⟨by omega, rfl⟩
    · cases h

theorem Asks.concat {requests : List Request} {p c : Nat} {r : Request} (q : Request)
    (h : Asks requests p c r) : Asks (requests ++ [q]) p c r :=
  ⟨getElem?_concat_of_some q h.1, h.2⟩

theorem ChildOk.concat {requests : List Request} {p : Nat} {m : String} {k : Child} (q : Request)
    (h : ChildOk requests p m k) : ChildOk (requests ++ [q]) p m k := by
  unfold ChildOk at h ⊢
  split at h
  · exact h
  · exact ⟨h.1, fun c hc => (h.2 c hc).imp fun _ ha => ha.concat q⟩
  · exact h
  · obtain ⟨hrep, hn, r, ha, hrx⟩ := h
    exact ⟨hrep, hn, r, ha.concat q, hrx⟩

theorem mem_insert {loaded : List (String × Nat)} {key : String} {p : Nat} {e : String × Nat}
    (h : e ∈ Service.insert loaded key p) : e = (key, p) ∨ e ∈ loaded :=
  (List.mem_cons.mp h).imp_right fun h => (List.mem_filter.mp h).1

theorem scanMap_manifest : ∀ {ps : List Nat}, ∀ e ∈ s.scanMap ps,
    ∃ h, s.handles[e.2]? = some h ∧ h.manifest = e.1
  | [], _, he => nomatch he
  | p :: ps, e, he => by
      simp only [Service.scanMap] at he
      split at he
      · rename_i h hp
        split at he
        · rcases mem_insert he with rfl | he
          · exact ⟨h, hp, rfl⟩
          · exact scanMap_manifest e he
        · exact scanMap_manifest e he
      · exact scanMap_manifest e he

theorem Kept.addHandle (h : Kept s) (k : Handle) (children : Nat → Child)
    (hold : ∀ p < s.handles.length, children p = s.children p)
    (hnew : ∀ m, k = .process m → children s.handles.length = ⟨.stopped, [], false, false⟩) :
    Kept { s with handles := s.handles ++ [k], children := children } where
  loaded e he := (h.loaded e he).imp fun _ hk => ⟨getElem?_concat_of_some k hk.1, hk.2⟩
  found c r p hr hp := (h.found c r p hr hp).imp fun _ hk =>
    ⟨getElem?_concat_of_some k hk.1, hk.2⟩
  limited := h.limited
  child p m hp := by
    rcases getElem?_concat_cases hp with hp | ⟨rfl, hk⟩
    · have := h.child p m hp
      rwa [← hold p (List.getElem?_eq_some_iff.mp hp).1] at this
    · change ChildOk s.requests _ m (children s.handles.length)
      rw [hnew m hk.symm]
      exact ⟨rfl, rfl⟩
  progress := h.progress

theorem Kept.call (h : Kept s) (key : String) (input : List UInt8) {plugin : Option Nat}
    (hp : plugin = none ∨ plugin = s.get key) (refused : Option Refusal) :
    Kept { s with
      requests := s.requests ++ [⟨key, input, callLimits s.config, plugin⟩]
      progress := Function.update s.progress s.requests.length
        ⟨none, none, refused.map .error⟩ } where
  loaded := h.loaded
  found c r p hr hrp := by
    rcases getElem?_concat_cases hr with hr | ⟨-, rfl⟩
    · exact h.found c r p hr hrp
    · rcases hp with rfl | rfl
      · cases hrp
      · obtain ⟨e, he, rfl⟩ := Option.map_eq_some_iff.mp hrp
        obtain ⟨k, hk, hm⟩ := h.loaded e (List.mem_of_find?_eq_some he)
        have hkey := List.find?_some he
        exact ⟨k, hk, hm.trans (of_decide_eq_true hkey)⟩
  limited c r hr := by
    rcases getElem?_concat_cases hr with hr | ⟨-, rfl⟩
    · exact h.limited c r hr
    · exact callLimits_pos _
  child p m hm := (h.child p m hm).concat _
  progress c r hr := by
    rcases getElem?_concat_cases hr with hr | ⟨rfl, rfl⟩
    · have hne : c ≠ s.requests.length := Nat.ne_of_lt (List.getElem?_eq_some_iff.mp hr).1
      simpa only [Function.update_of_ne hne] using h.progress c r hr
    · simp only [Function.update_self]
      refine ⟨nofun, nofun, fun a ha => ?_⟩
      cases refused <;> cases ha

theorem checked_eq_some {c : Nat} {r : Request} (h : s.checked c = some r) :
    s.requests[c]? = some r := by
  obtain ⟨r', hr', h⟩ := Option.bind_eq_some_iff.mp h
  obtain ⟨p, -, h⟩ := Option.bind_eq_some_iff.mp h
  split at h
  · cases h
    exact hr'
  · cases h

/-- A line is printed, and its answer is in order. -/
theorem Kept.prints (h : Kept s) {p : Nat} {line : Option Value} (hs : Sound s (.prints p line))
    (hprint : (s.children p).printing = true) :
    Kept (s.setChild p { s.children p with
      rx := (s.children p).rx ++ [⟨line, (s.children p).stage.call⟩] }) := by
  refine h.setChild fun m hm => ?_
  have hchild := h.child p m hm
  have hline : ∀ v id, line = some v → respId v = some id →
      InOrder s m v id (s.children p).stage := fun v id hv hid => by
    subst hv
    exact hs m id hm hid
  unfold ChildOk at hchild ⊢
  cases hstage : (s.children p).stage with
  | stopped =>
      simp only [hstage, hprint] at hchild
      cases hchild.2
  | handshaking call =>
      simp only [hstage] at hchild hline ⊢
      exact ⟨hchild.1.concat hline, hchild.2⟩
  | running reported n =>
      simp only [hstage] at hchild hline ⊢
      exact ⟨hchild.1, hchild.2.concat hline⟩
  | waiting reported n c awaited =>
      simp only [hstage] at hchild hline ⊢
      obtain ⟨hrep, hn, r, ha, hrx⟩ := hchild
      exact ⟨hrep, hn, r, ha, hrx.concat fun v id hv hid =>
        ⟨(hline v id hv hid).1, fun heq => ⟨rfl, (hline v id hv hid).2 heq r ha.1⟩⟩⟩

theorem Kept.closes (h : Kept s) (p : Nat) :
    Kept (s.setChild p { s.children p with printing := false }) := by
  refine h.setChild fun m hm => ?_
  have hchild := h.child p m hm
  unfold ChildOk at hchild ⊢
  cases hstage : (s.children p).stage with
  | stopped =>
      simp only [hstage] at hchild ⊢
      exact ⟨hchild.1, trivial⟩
  | handshaking call => simpa only [hstage] using hchild
  | running reported n => simpa only [hstage] using hchild
  | waiting reported n c awaited => simpa only [hstage] using hchild

theorem Kept.info (h : Kept s) {p : Nat} (ht : step s (.info p) = some t) : Kept t := by
  simp only [step] at ht
  split at ht
  · cases ht
    exact h.setChild fun _ _ => ⟨fun _ hl => (nomatch hl), fun _ hc => nomatch hc⟩
  · rename_i reported n hp hstage
    cases ht
    refine h.setChild fun m hm => ?_
    have hchild := h.child p m hm
    unfold ChildOk at hchild ⊢
    simpa only [hstage] using hchild
  · cases ht

/-- **What a step preserves.** -/
theorem Kept.step (h : Kept s) {l : Label} (hs : Sound s l) (ht : step s l = some t) :
    Kept t := by
  cases l with
  | configure value => cases ht; exact ⟨h.loaded, h.found, h.limited, h.child, h.progress⟩
  | loadOne manifest info =>
      simp only [PluginCalls.step] at ht
      split at ht
      · cases ht
        exact h.addHandle _ s.children (fun _ _ => rfl) fun _ hk => nomatch hk
      · cases ht
  | newProcess manifest =>
      cases ht
      exact h.addHandle _ _ (fun p hp => Function.update_of_ne (Nat.ne_of_lt hp) _ _)
        fun _ _ => Function.update_self ..
  | info p => exact h.info ht
  | putLoaded key p =>
      simp only [PluginCalls.step] at ht
      split at ht
      · rename_i hready
        cases ht
        refine h.setLoaded fun e he => ?_
        rcases mem_insert he with rfl | he
        · unfold Service.ready at hready
          cases hp : s.handles[p]? with
          | none => rw [hp] at hready; cases hready
          | some k => exact ⟨k, rfl, hs k hp⟩
        · exact h.loaded e he
      · cases ht
  | scanned ps => cases ht; exact h.setLoaded scanMap_manifest
  | remove key => cases ht; exact h.setLoaded fun e he => h.loaded e (List.mem_filter.mp he).1
  | stop p =>
      simp only [PluginCalls.step] at ht
      split at ht
      · cases ht; exact h.kill p
      · cases ht
  | call key input enabled =>
      cases ht
      cases enabled with
      | false => exact h.call key input (.inl rfl) (some .disabled)
      | true =>
          cases hget : s.get key with
          | none => exact h.call key input (.inl rfl) (some .notLoaded)
          | some p => exact h.call key input (.inr hget.symm) none
  | start c works =>
      obtain ⟨r, hr, ht⟩ := Option.bind_eq_some_iff.mp ht
      obtain ⟨p, hp, ht⟩ := Option.bind_eq_some_iff.mp ht
      obtain ⟨k, hk, ht⟩ := Option.bind_eq_some_iff.mp ht
      split at ht
      · exact h.start hr hp hk (fun m hm => hs r p m hr hp (hm ▸ hk)) ht
      · cases ht
  | returns c code output =>
      obtain ⟨r, hr, ht⟩ := Option.bind_eq_some_iff.mp ht
      split at ht
      · rename_i hcond
        cases ht
        refine h.setProgress fun r hr => ?_
        have hg := h.progress c r hr
        refine ⟨hg.reached, fun a ha => ?_, hg.answered⟩
        cases ha
        exact ⟨rfl, hg.contract.accepts hcond.1⟩
      · cases ht
  | receive c =>
      obtain ⟨r, hr, ht⟩ := Option.bind_eq_some_iff.mp ht
      obtain ⟨a, ha, ht⟩ := Option.bind_eq_some_iff.mp ht
      split at ht
      · cases ht; exact h.receive (checked_eq_some hr) ha
      · cases ht
  | expire c =>
      obtain ⟨r, hr, ht⟩ := Option.bind_eq_some_iff.mp ht
      split at ht
      · cases ht
        exact (h.setLoaded fun e he => h.loaded e (List.mem_filter.mp he).1).refuse c _
      · cases ht
  | prints p line =>
      simp only [PluginCalls.step] at ht
      split at ht
      · cases ht; exact h.prints hs ‹_›
      · cases ht
  | closes p => cases ht; exact h.closes p
  | wait p works =>
      simp only [PluginCalls.step] at ht
      split at ht
      · exact h.wait ‹_› ht
      · cases ht
  | late p =>
      simp only [PluginCalls.step] at ht
      split at ht
      · cases ht; exact (h.kill p).abort _ _
      · cases ht; exact (h.kill p).refuse _ _
      · cases ht

theorem kept_start : Kept start :=
  ⟨nofun, nofun, nofun, nofun, nofun⟩

end Kept

/-- **The two transports keep one contract**, in every run whose registrations and children are
in order. -/
theorem calls_keep_contract {s₀ s : Service} {ls : List Label} (h₀ : service.init s₀)
    (hr : service.Run Sound s₀ ls s) (c : Nat) (r : Request) (hc : s.requests[c]? = some r) :
    Contract c r (s.progress c) := by
  obtain rfl := h₀
  have hstep : ∀ s l t, Kept s → Sound s l → service.step s l = some t → Kept t :=
    fun s l t h hs ht => h.step hs ht
  exact ((hr.invariant hstep kept_start).progress c r hc).contract

/-- A process that reports the id of its manifest and answers with the text of the request's id. -/
def answering : List Label :=
  [.newProcess "a", .info 0,
    .prints 0 (some (.object [("id", .nat 0), ("result", .object [("id", .string "a")])])),
    .wait 0 true, .putLoaded "a" 0, .call "a" [0x7b] true, .start 0 true,
    .prints 0 (some (.object [("id", .string "1"), ("result", .object [("output", .string "x")])])),
    .wait 0 true]

/-- What the process prints is in order, and its answer is that of the call. -/
theorem answering_keeps : ∃ s r, service.Run Sound start answering s ∧ s.requests[0]? = some r ∧
    (s.progress 0).result = some (.ok ⟨-2, [0x78], some 0⟩) ∧ Contract 0 r (s.progress 0) := by
  have hshake : ∀ id, respId (.object [("id", .nat 0), ("result", .object [("id", .string "a")])]) =
      some id → id = 0 := fun id h => (Option.some.inj h).symm
  have hanswer : ∀ id, respId (.object [("id", .string "1"),
      ("result", .object [("output", .string "x")])]) = some id → id = 1 :=
    fun id h => (Option.some.inj h).symm
  have hr : service.Run Sound start answering _ :=
    .more trivial rfl <| .more trivial rfl <|
    .more (fun m id hm hid => by
      cases hm
      exact ⟨hshake id hid, .inl (rfl)⟩) rfl <|
    .more trivial rfl <|
    .more (fun h hh => by cases hh; rfl) rfl <|
    .more trivial rfl <|
    .more (fun r p m hr hp hm => by cases hr; decide) rfl <|
    .more (fun m id hm hid => by
      cases hm
      obtain rfl := hanswer id hid
      exact ⟨by decide, fun _ r hr => by cases hr; decide⟩) rfl <|
    .more trivial rfl <| .refl _
  exact ⟨_, _, hr, rfl, rfl, calls_keep_contract rfl hr 0 _ rfl⟩

/-- A process that reports another id than that of its manifest. -/
def mismatched : List Label :=
  [.newProcess "a", .info 0,
    .prints 0 (some (.object [("id", .nat 0), ("result", .object [("id", .string "b")])])),
    .wait 0 true, .putLoaded "a" 0, .call "a" [0x7b] true, .start 0 true]

/-- A process whose manifest says one id is called under it, whatever id it reports. -/
theorem reported_id_unchecked : ¬ ∀ s, service.Reach s → ∀ (c : Nat) r, s.requests[c]? = some r →
    Contract c r (s.progress c) := by
  intro hall
  have hexec : (service.exec start mismatched).any (fun s => (s.requests[0]?).isSome &&
      (s.progress 0).reached.any fun who => who.reported = "b" && who.manifest = "a") = true := by
    rfl
  obtain ⟨s, hr, hs⟩ := Machine.run_of_exec_any Machine.guarded_any hexec
  obtain ⟨hreq, hwho⟩ := Bool.and_eq_true_iff.mp hs
  obtain ⟨r, hr0⟩ := Option.isSome_iff_exists.mp hreq
  obtain ⟨who, hreached, hids⟩ := (Option.any_eq_true _ _).mp hwho
  have hsame := ((hall s ⟨start, _, rfl, hr⟩ 0 r hr0).identity who hreached).2
  simp only [Bool.and_eq_true, decide_eq_true_eq] at hids
  rw [hids.1, hids.2] at hsame
  exact absurd hsame (by decide)

end RevBox.PluginCalls
