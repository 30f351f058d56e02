import RevBox.Desktop.AgentManager

/-!
# Desktop — AgentSessions

The sessions of the process and the forward rules of the adb server, and what the operations of
`AgentManager` do to them, with every command, connection and greeting answered in any way.

* `session_exec`: what an operation changes of a session.
* `tells_exec`: what its reply tells of it.
-/

namespace RevBox.AgentManager

open AgentClient Prog RootShell Sections

/-! ### The world -/

/-- `DeviceSession`, without its lock. -/
structure Session where
  status : AgentSessionStatus
  client : Option Nat
  forward : Option String
  plan : Option SessionPlan
  transportRecoveries : Nat

/-- `DeviceSession::new`. -/
def Session.new (serial : String) : Session := ⟨.disconnected serial, none, none, none, 0⟩

/-- A forward rule of the adb server for the Agent's socket.  Of a rule this process has made it is
known whether its session counts on it, and whether its removal has been tried. -/
structure Rule where
  serial : String
  port : Nat
  own : Bool
  held : Bool
  tried : Bool

/-- The sessions, and the rules of the adb server. -/
structure World where
  sessions : List (String × Session)
  rules : List Rule

/-- The session of a device; one that is not there yet is new. -/
def World.session (w : World) (serial : String) : Session :=
  ((w.sessions.find? fun e => e.1 = serial).map Prod.snd).getD (.new serial)

/-- The world with one session changed. -/
def World.update (w : World) (serial : String) (f : Session → Session) : World :=
  { w with sessions :=
      (serial, f (w.session serial)) :: w.sessions.filter fun e => e.1 ≠ serial }

/-- The rule has this host side. -/
def Rule.Is (r : Rule) (serial rule : String) : Prop := r.serial = serial ∧ tcp r.port = rule

instance (r : Rule) (serial rule : String) : Decidable (r.Is serial rule) :=
  inferInstanceAs (Decidable (_ ∧ _))

/-- The world with the rules of one host side changed. -/
def World.mark (w : World) (serial rule : String) (f : Rule → Rule) : World :=
  { w with rules := w.rules.map fun r => if r.Is serial rule then f r else r }

/-- The record of a session is taken out: it no longer counts on its rule. -/
def World.dropRecord (w : World) (serial : String) : World :=
  (match (w.session serial).forward with
    | some rule => w.mark serial rule fun r => { r with held := false }
    | none => w).update serial fun s => { s with forward := none }

/-- How the surroundings answer an operation. -/
structure Turn where
  adb : AdbReply := .failed ""
  /-- the port of a rule that a command made although its answer does not tell it -/
  port : Option Nat := none
  /-- a removal took effect although its answer does not say so -/
  gone : Bool := false
  isFile : Bool := true
  text : Except String String := .ok ""
  connected : Except String Unit := .ok ()
  hello : Except AgentClientError (Nat × HelloResult) := .error .deadlineExceeded
  inTime : Bool := false
  health : Except AgentClientError Value := .error .deadlineExceeded

/-- The rule `adb forward` makes. -/
def Turn.created (x : Turn) : Option Nat :=
  match x.adb with
  | .ran output =>
      match forwardPort output with
      | .ok port => some port
      | .error _ => x.port
  | _ => x.port

/-- The removal has taken effect. -/
def Turn.removed (x : Turn) : Bool :=
  match x.adb with
  | .ran output => decide (output.exitCode = some 0) || x.gone
  | _ => x.gone

/-- The rules that `owned_forwards` reports. -/
def World.owned (w : World) : List (String × Nat) :=
  w.sessions.filterMap fun (serial, s) => (s.forward.bind portOf).map fun port => (serial, port)

/-- One operation. -/
def exec (w : World) : (o : Op) → Turn → Option (Reply o × World)
  | .adb (some serial) .forward, x =>
      match x.created with
      | none => some (x.adb, w)
      | some port =>
          -- the host port is one that no rule has
          if w.rules.any fun r => r.port = port then none
          else some (x.adb, { w with rules := ⟨serial, port, true, true, false⟩ :: w.rules })
  | .adb (some serial) (.forwardRemove rule), x =>
      let w := w.mark serial rule fun r => { r with tried := true }
      some (x.adb, if x.removed then
        { w with rules := w.rules.filter fun r => ¬ r.Is serial rule } else w)
  | .adb .., x => some (x.adb, w)
  | .isFile _, x => some (x.isFile, w)
  | .randomHex _, x => some (x.text, w)
  | .tokenFile _, x => some (x.text, w)
  | .connectForwarded _, x => some (x.connected, w)
  | .hello _, x => some (x.hello, w)
  | .beforeDeadline, x => some (x.inTime, w)
  | .health _, x => some (x.health, w)
  | .disconnectClient .., _ => some ((), w)
  | .sessionFor serial, _ => some ((), w.update serial id)
  | .known serial, _ => some (w.sessions.any fun e => e.1 = serial, w)
  | .status serial, _ => some ((w.session serial).status, w)
  | .setStatus serial f, _ => some ((), w.update serial fun s => { s with status := f s.status })
  | .client serial, _ => some ((w.session serial).client, w)
  | .setClient serial client, _ => some ((), w.update serial fun s => { s with client := client })
  | .takeClient serial, _ =>
      some ((w.session serial).client, w.update serial fun s => { s with client := none })
  | .takeForward serial, _ => some ((w.session serial).forward, w.dropRecord serial)
  | .forgetForward serial, _ => some ((), w.dropRecord serial)
  | .setForward serial rule, _ =>
      some ((), w.update serial fun s => { s with forward := some rule })
  | .plan serial, _ => some ((w.session serial).plan, w)
  | .setPlan serial plan, _ => some ((), w.update serial fun s => { s with plan := plan })
  | .countRecovery serial, _ =>
      some ((), w.update serial fun s =>
        { s with transportRecoveries := s.transportRecoveries + 1 })
  | .ownedForwards, _ => some (w.owned, w)

/-- What others do to the rules: another process makes one, or one goes away. -/
inductive Elsewhere where
  | made (serial : String) (port : Nat)
  | lost (serial rule : String)

/-- A move of others. -/
def elsewhere (w : World) : Elsewhere → Option World
  | .made serial port =>
      if w.rules.any fun r => r.port = port then none
      else some { w with rules := ⟨serial, port, false, false, false⟩ :: w.rules }
  | .lost serial rule => some { w with rules := w.rules.filter fun r => ¬ r.Is serial rule }

/-- The process. -/
def system : System String Op Reply Request Answer World Turn Elsewhere where
  handler := handler
  exec := exec
  env := elsewhere

/-- The process from its start: no session, and whatever rules others have left. -/
def process : Machine (Pool String Op Reply Request Answer World) (Label Request Turn Elsewhere) :=
  system.machine fun w => w.sessions = [] ∧ ∀ r ∈ w.rules, r.own = false

/-! ### What an operation changes of a session -/

variable {w w' : World} {serial s : String}

theorem session_update_self (w : World) (serial : String) (f : Session → Session) :
    (w.update serial f).session serial = f (w.session serial) := by
  simp [World.session, World.update]

theorem session_update_ne (w : World) {serial s : String} (h : s ≠ serial)
    (f : Session → Session) : (w.update serial f).session s = w.session s := by
  have hfind : ∀ l : List (String × Session),
      (l.filter fun e => e.1 ≠ serial).find? (fun e => e.1 = s) = l.find? fun e => e.1 = s := by
    intro l
    rw [List.find?_filter]
    congr 1
    funext e
    by_cases he : e.1 = s
    · simp [he, h]
    · simp [he]
  simp only [World.session, World.update]
  rw [List.find?_cons_of_neg (by simpa using Ne.symm h), hfind]

@[simp] theorem session_mark (w : World) (serial rule : String) (f : Rule → Rule) (s : String) :
    (w.mark serial rule f).session s = w.session s := rfl

/-- What an operation makes of the session of its device. -/
def Op.after : Op → Session → Session
  | .setStatus _ f, s => { s with status := f s.status }
  | .setClient _ c, s => { s with client := c }
  | .takeClient _, s => { s with client := none }
  | .takeForward _, s => { s with forward := none }
  | .forgetForward _, s => { s with forward := none }
  | .setForward _ rule, s => { s with forward := some rule }
  | .setPlan _ p, s => { s with plan := p }
  | .countRecovery _, s => { s with transportRecoveries := s.transportRecoveries + 1 }
  | _, s => s

/-- What the reply to an operation tells of the session of its device. -/
def Op.Tells : (o : Op) → Session → Reply o → Prop
  | .status _, s, r => r = s.status
  | .client _, s, r => r = s.client
  | .takeClient _, s, r => r = s.client
  | .takeForward _, s, r => r = s.forward
  | .plan _, s, r => r = s.plan
  | _, _, _ => True

/-- The device whose session an operation reads or changes. -/
def Op.device : Op → Option String
  | .status serial | .setStatus serial _ | .client serial | .setClient serial _
  | .takeClient serial | .takeForward serial | .forgetForward serial | .setForward serial _
  | .plan serial | .setPlan serial _ | .countRecovery serial => some serial
  | _ => none

theorem session_dropRecord (w : World) (serial : String) :
    (w.dropRecord serial).session serial = { w.session serial with forward := none } := by
  rw [World.dropRecord, session_update_self]
  split <;> rfl

theorem session_dropRecord_ne (w : World) (h : s ≠ serial) :
    (w.dropRecord serial).session s = w.session s := by
  rw [World.dropRecord, session_update_ne _ h]
  split <;> rfl

theorem session_update (w : World) (serial : String) (f : Session → Session) (s : String) :
    (w.update serial f).session s =
      if some serial = some s then f (w.session s) else w.session s := by
  by_cases h : serial = s
  · subst h
    simp [session_update_self]
  · simp [session_update_ne w (Ne.symm h), h]

theorem session_drop (w : World) (serial s : String) :
    (w.dropRecord serial).session s =
      if some serial = some s then { w.session s with forward := none } else w.session s := by
  by_cases h : serial = s
  · subst h
    simp [session_dropRecord]
  · simp [session_dropRecord_ne w (Ne.symm h), h]

/-- **What an operation changes of a session.** -/
theorem session_exec {o : Op} {x : Turn} {r : Reply o} (h : exec w o x = some (r, w'))
    (s : String) :
    w'.session s = if o.device = some s then o.after (w.session s) else w.session s := by
  cases o with
  | adb serial c =>
      have hsame : w'.session s = w.session s := by
        rcases serial with _ | serial
        · cases h; rfl
        · cases c <;> try (cases h; rfl)
          · simp only [exec] at h
            split at h
            · cases h; rfl
            · split at h
              · cases h
              · cases h; rfl
          · simp only [exec] at h
            cases h
            split <;> rfl
      rw [hsame]; rfl
  | sessionFor serial =>
      cases h
      rw [session_update]
      split <;> rfl
  | setStatus serial f => cases h; exact session_update ..
  | setClient serial c => cases h; exact session_update ..
  | takeClient serial => cases h; exact session_update ..
  | setForward serial rule => cases h; exact session_update ..
  | setPlan serial p => cases h; exact session_update ..
  | countRecovery serial => cases h; exact session_update ..
  | takeForward serial => cases h; exact session_drop ..
  | forgetForward serial => cases h; exact session_drop ..
  | status serial => cases h; simp [Op.device, Op.after]
  | client serial => cases h; simp [Op.device, Op.after]
  | plan serial => cases h; simp [Op.device, Op.after]
  | _ => cases h; rfl

/-- What a reply tells is so. -/
theorem tells_exec {o : Op} {x : Turn} {r : Reply o} (h : exec w o x = some (r, w'))
    (hs : o.device = some s) : o.Tells (w.session s) r := by
  cases o <;> first | trivial | (cases hs; cases h; rfl)

end RevBox.AgentManager
