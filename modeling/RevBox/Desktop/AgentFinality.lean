import RevBox.Desktop.AgentSessions

/-!
# Desktop — AgentFinality

What is true of a session's record while nobody holds its lock, over every interleaving of the
methods: its four fields agree, and a session that was disconnected stays so until somebody
connects.  The second fails: `disconnect` leaves the plan behind, and a reconnection decides from
the plan alone.

* `Spec`: what a method under the lock makes of its session.
* `sound_handler`: every method keeps the terms, alone.
* `consistent_and_final`: the first part in every run, the second where nothing revives a session.
* `revived_after_disconnect`: a reconnection that waited for the lock of a disconnection does.
-/

namespace RevBox.AgentManager

open AgentClient Machine Prog RootShell Sections

/-! ### Errands -/

/-- The operation has nothing to do with any session. -/
def Errand (o : Op) : Prop := o.device = none

theorem errand_op {o : Op} (h : o.device = none) : Performs Errand (op o : Call (Reply o)) :=
  performs_op h

theorem errand_run (serial : String) (c : Command) : Performs Errand (run serial c) :=
  (errand_op (o := Op.adb (some serial) c) rfl).bind fun r => by cases r <;> exact only_pure

theorem errand_runChecked (serial : String) (c : Command) (step : String) :
    Performs Errand (runChecked serial c step) :=
  (errand_run serial c).bind fun r => by
    cases r with
    | error e => exact only_pure
    | ok output => dsimp only; split <;> exact only_pure

theorem errand_runDone (serial : String) (c : Command) (step : String) :
    Performs Errand (runDone serial c step) :=
  (errand_runChecked serial c step).bind fun r => by cases r <;> exact only_pure

theorem errand_ensureOnline (serial : String) : Performs Errand (ensureOnline serial) :=
  (errand_run serial .getState).bind fun r => by
    cases r with
    | error e => exact only_pure
    | ok output => dsimp only; split <;> exact only_pure

theorem errand_deviceAbi (serial : String) : Performs Errand (deviceAbi serial) :=
  (errand_run serial .readAbi).bind fun r => by
    cases r with
    | error e => exact only_pure
    | ok output =>
        dsimp only
        split
        · exact only_pure
        · split <;> exact only_pure

theorem errand_remoteSha256 (serial path : String) : Performs Errand (remoteSha256 serial path) :=
  (errand_runChecked serial (.sha256 path) "sha256_binary").bind fun r => by
    cases r with
    | error e => exact only_pure
    | ok output =>
        dsimp only
        split
        · exact only_pure
        · split <;> exact only_pure

theorem errand_randomHex (count : Nat) : Performs Errand (randomHex count) :=
  (errand_op (o := Op.randomHex count) rfl).bind fun r => by
    cases (r : Except String String) <;> exact only_pure

theorem errand_dropStaging {α : Type} (serial staging : String) (e : AgentBootstrapError) :
    Performs Errand (dropStaging (α := α) serial staging e) :=
  (errand_runDone serial _ _).bind fun _ => only_pure

theorem errand_pushArtifact (serial binary expected : String) (previous : Option String) :
    Performs Errand (pushArtifact serial binary expected previous) :=
  (errand_randomHex 12).bind fun r => by
    cases r with
    | error e => exact only_pure
    | ok suffix =>
        refine (errand_runChecked serial _ "push_binary").bind fun r => ?_
        cases r with
        | error e => exact errand_dropStaging ..
        | ok _ =>
            refine (errand_runChecked serial _ "chmod_binary").bind fun r => ?_
            cases r with
            | error e => exact errand_dropStaging ..
            | ok _ =>
                refine (errand_remoteSha256 serial _).bind fun r => ?_
                cases r with
                | error e => exact errand_dropStaging ..
                | ok staged =>
                    dsimp only
                    split
                    · exact errand_dropStaging ..
                    · refine (errand_runChecked serial _ "promote_binary").bind fun r => ?_
                      cases r with
                      | error e => exact errand_dropStaging ..
                      | ok _ => exact only_pure

theorem errand_installArtifact (serial binary sha256 : String) :
    Performs Errand (installArtifact serial binary sha256) :=
  (errand_op (o := Op.isFile binary) rfl).bind fun there => by
    split
    · exact only_pure
    · refine (errand_remoteSha256 serial _).bind fun r => ?_
      cases r with
      | error e => exact only_pure
      | ok previous =>
          dsimp only
          split
          · refine (errand_remoteSha256 serial _).bind fun r => ?_
            cases r <;> exact only_pure
          · exact errand_pushArtifact ..

theorem errand_rollbackInstall (serial : String) : Performs Errand (rollbackInstall serial) :=
  (errand_runChecked serial _ _).bind fun r => by cases r <;> exact only_pure

theorem errand_cleanupLaunch (serial : String) (launch : AgentLaunch) :
    Performs Errand (cleanupLaunch serial launch) :=
  (errand_runDone serial _ _).bind fun _ => only_pure

theorem errand_cleanup {α : Type} (serial : String) (launch : AgentLaunch) (a : α) :
    Performs Errand (do cleanupLaunch serial launch; pure a : Call α) :=
  (errand_cleanupLaunch serial launch).bind fun _ => only_pure

theorem errand_startWith (serial file : String) (launch : AgentLaunch) :
    Performs Errand (startWith serial file launch) :=
  (errand_runChecked serial _ "create_token_directory").bind fun r => by
    cases r with
    | error e => exact only_pure
    | ok _ =>
        refine (errand_runChecked serial _ "push_token").bind fun r => ?_
        cases r with
        | error e => exact errand_cleanup ..
        | ok _ =>
            refine (errand_runChecked serial _ "chmod_token").bind fun r => ?_
            cases r with
            | error e => exact errand_cleanup ..
            | ok _ =>
                refine (errand_runChecked serial _ "start_agent").bind fun r => ?_
                cases r with
                | error e => exact errand_cleanup ..
                | ok _ => exact only_pure

theorem errand_start (serial : String) : Performs Errand (start serial) :=
  (errand_randomHex 32).bind fun r => by
    cases r with
    | error e => exact only_pure
    | ok token =>
        refine (errand_randomHex 16).bind fun r => ?_
        cases r with
        | error e => exact only_pure
        | ok suffix =>
            refine (errand_op (o := Op.tokenFile token) rfl).bind fun r => ?_
            cases (r : Except String String) with
            | error detail => exact only_pure
            | ok path => exact errand_startWith ..

theorem errand_forward (serial : String) : Performs Errand (forward serial) :=
  (errand_run serial .forward).bind fun r => by
    cases r with
    | error e => exact only_pure
    | ok output => dsimp only; split <;> exact only_pure

theorem errand_rollbackText (serial : String) (install : AgentInstallOutcome) :
    Performs Errand (rollbackText serial install) := by
  unfold rollbackText
  split
  · refine (errand_rollbackInstall serial).bind fun r => ?_
    split <;> exact only_pure
  · split <;> exact only_pure

theorem errand_isHealthy (client : Option Nat) : Performs Errand (isHealthy client) := by
  cases client with
  | none => exact only_pure
  | some c =>
      exact (errand_op (o := Op.health c) rfl).bind fun r => by
        cases (r : Except AgentClientError Value) <;> exact only_pure

theorem errand_sweepRules (keep : List (String × Nat)) :
    ∀ rules, Performs Errand (sweepRules keep rules)
  | [] => only_pure
  | (serial, rule, remote) :: rest => by
      unfold sweepRules
      split
      · exact errand_sweepRules keep rest
      · split
        · exact errand_sweepRules keep rest
        · refine (errand_op (o := Op.adb (some serial) (.forwardRemove rule)) rfl).bind
            fun r => ?_
          cases (r : AdbReply) with
          | ran output => exact (errand_sweepRules keep rest).bind fun _ => only_pure
          | _ => exact errand_sweepRules keep rest

theorem errand_sweepStaleForwards : Performs Errand sweepStaleForwards :=
  (errand_op (o := Op.ownedForwards) rfl).bind fun keep =>
    (errand_op (o := Op.adb none .forwardList) rfl).bind fun r => by
      cases (r : AdbReply) with
      | ran output => exact errand_sweepRules ..
      | _ => exact only_pure

/-! ### The terms of a session -/

namespace Session

/-- The state says that the Agent answers. -/
def Up (s : Session) : Prop := s.status.state = .ready ∨ s.status.state = .degraded

/-- The four fields agree. -/
structure Consistent (s : Session) : Prop where
  up_iff : s.Up ↔ s.client ≠ none
  backed : s.client ≠ none → s.forward ≠ none ∧ s.plan ≠ none

/-- No client, and the state says so. -/
structure Gone (s : Session) : Prop where
  client : s.client = none
  state : s.status.state = .disconnected

/-- No client, and the state does not claim one. -/
structure Idle (s : Session) : Prop where
  client : s.client = none
  down : ¬ s.Up

theorem Idle.consistent {s : Session} (h : s.Idle) : s.Consistent :=
  ⟨⟨fun hu => (h.down hu).elim, fun hc => (hc h.client).elim⟩, fun hc => (hc h.client).elim⟩

theorem Gone.idle {s : Session} (h : s.Gone) : s.Idle :=
  ⟨h.client, by simp [Up, h.state]⟩

end Session

/-- Call `i` has been in before. -/
def Entered (i : Nat) (h : List (Mark Request)) : Bool :=
  h.any fun m => match m with
    | .entered j _ => j = i
    | .left .. => false

/-- Nobody has connected since the last disconnection, or at all.  A connection begins when it gets
the lock for the first time; its second try is not another one. -/
def Closed : List (Mark Request) → Prop
  | [] => True
  | .left _ (.disconnect _) :: _ | .left _ (.deviceDisconnected _) :: _ => True
  | .entered i (.connect ..) :: h => Entered i h ∧ Closed h
  | _ :: h => Closed h

instance decidableClosed : ∀ h : List (Mark Request), Decidable (Closed h)
  | [] => .isTrue trivial
  | .left _ (.disconnect _) :: _ | .left _ (.deviceDisconnected _) :: _ => .isTrue trivial
  | .entered _ (.connect ..) :: h =>
      have := decidableClosed h
      inferInstanceAs (Decidable (_ ∧ _))
  | .entered _ (.reconnect _) :: h | .entered _ (.disconnect _) :: h
  | .entered _ (.deviceDisconnected _) :: h | .entered _ (.diagnostics _) :: h
  | .entered _ .sweep :: h | .left _ (.connect ..) :: h | .left _ (.reconnect _) :: h
  | .left _ (.diagnostics _) :: h | .left _ .sweep :: h => decidableClosed h

/-- The request is an explicit connection. -/
def Request.Connects : Request → Prop
  | .connect .. => True
  | _ => False

/-- The request is a disconnection. -/
def Request.Disconnects : Request → Prop
  | .disconnect _ | .deviceDisconnected _ => True
  | _ => False

/-- `C` counts a session as closed only from a disconnection on, and not once a connection has
begun. -/
structure Counts (C : List (Mark Request) → Prop) : Prop where
  entered : ∀ {i q h}, C (.entered i q :: h) → C h ∧ (q.Connects → Entered i h)
  left : ∀ {i q h}, C (.left i q :: h) → q.Disconnects ∨ C h

theorem counts_closed : Counts Closed where
  entered {i q h} hc := by
    cases q with
    | connect serial artifact => exact ⟨hc.2, fun _ => hc.1⟩
    | _ => exact ⟨hc, False.elim⟩
  left {i q h} hc := by
    cases q with
    | disconnect serial => exact .inl trivial
    | deviceDisconnected serial => exact .inl trivial
    | _ => exact .inr hc

theorem counts_never : Counts fun _ => False := ⟨False.elim, False.elim⟩

/-- Nothing is about to revive a session that counts as closed: no plan that a reconnection finds,
and no second try of a connection. -/
def Unrevived (C : List (Mark Request) → Prop) (i : Nat) (q : Request) (h : List (Mark Request))
    (s : Session) : Prop :=
  C h →
    match q with
    | .reconnect _ => s.plan = none
    | .connect .. => ¬ Entered i h
    | _ => True

/-- The terms: the record agrees while nobody holds the lock, and a session that counts as closed is
gone. -/
def finality (C : List (Mark Request) → Prop) : Terms String Op Request World Turn where
  keeps s w w' := w'.session s = w.session s
  between s h w := (w.session s).Consistent ∧ (C h → (w.session s).Gone)
  during s h w := C h → (w.session s).Gone
  enter i q s h w := Unrevived C i q h (w.session s)
  grants _ _ _ _ := True
  refl _ _ := rfl
  trans _ _ _ _ h₁ h₂ := h₂.trans h₁
  between_keeps _ _ _ _ hk := by rw [hk]; exact id
  during_keeps _ _ _ _ hk := by rw [hk]; exact id
  during_between _ _ _ h := h.2

/-! ### What a method makes of its session -/

section Specs

variable {C : List (Mark Request) → Prop} {i : Nat} {q : Request} {s : String}
  {h : List (Mark Request)} {α β : Type} {P : Session → Prop} {Q : α → Session → Prop}
  {R : β → Session → Prop}

/-- Call `i`, under the lock of `s`: from `P` of its session to `Q`. -/
abbrev Spec (C : List (Mark Request) → Prop) (i : Nat) (q : Request) (s : String)
    (h : List (Mark Request)) (P : Session → Prop) (p : Call α) (Q : α → Session → Prop) : Prop :=
  Triple (finality C) system i q s h (fun w => P (w.session s)) p fun b w => Q b (w.session s)

theorem stable_session : Stable (finality C) s fun w => P (w.session s) := fun w w' hk hp => by
  have hk : w'.session s = w.session s := hk
  dsimp only
  rwa [hk]

theorem Spec.seq {p : Call α} {f : α → Call β} (Q : α → Session → Prop)
    (hp : Spec C i q s h P p Q) (hf : ∀ a, Spec C i q s h (Q a) (f a) R) :
    Spec C i q s h P (p >>= f) R := Triple.bind hp hf

theorem spec_pure {a : α} (hQ : ∀ S, P S → Q a S) : Spec C i q s h P (pure a) Q :=
  triple_pure.mono (fun _ hw => hQ _ hw) fun _ _ => id

/-- An operation on the session of the lock. -/
theorem spec_op {o : Op} {Q : Reply o → Session → Prop} (hd : o.device = some s)
    (hgone : ∀ S, P S → C h → (o.after S).Gone)
    (ho : ∀ S r, P S → o.Tells S r → Q r (o.after S)) : Spec C i q s h P (op o) Q :=
  triple_op stable_session fun w x r w' hw _ hx => by
    have hself : w'.session s = o.after (w.session s) := by rw [session_exec hx, if_pos hd]
    refine ⟨fun k' hk' => ?_, fun hc => ?_, ?_⟩
    · exact (session_exec hx k').trans (if_neg (by simpa [hd] using hk'.symm))
    · rw [hself]
      exact hgone _ hw hc
    · rw [hself]
      exact ho _ _ hw (tells_exec hx hd)

/-- Errands leave every session as it is. -/
theorem spec_errand {p : Call α} (hp : Performs Errand p) (hgone : ∀ S, P S → C h → S.Gone) :
    Spec C i q s h P p fun _ => P :=
  triple_of_performs stable_session (fun o ho w x r w' hw _ hx => by
    have hsame : ∀ k, w'.session k = w.session k := fun k => by
      rw [session_exec hx, if_neg (by rw [show o.device = none from ho]; simp)]
    refine ⟨fun k _ => hsame k, fun hc => ?_, ?_⟩
    · rw [hsame]
      exact hgone _ hw hc
    · rw [hsame]
      exact hw) hp

/-- The last step of a method that fails. -/
theorem spec_failWith {state : AgentSessionState} {e : AgentManagerError}
    {Q : Connected → Session → Prop}
    (hgone : ∀ S, P S → C h → S.client = none ∧ state = .disconnected)
    (hQ : ∀ S, P S → Q (.error e) { S with status := S.status.fail state e.text }) :
    Spec C i q s h P (failWith s state e) Q :=
  Spec.seq (fun _ S => Q (.error e) S)
    (spec_op rfl (fun S hS hc => ⟨(hgone S hS hc).1, (hgone S hS hc).2⟩) fun S _ hS _ => hQ S hS)
    fun _ => spec_pure fun _ => id

/-- Taking the rule off the record and removing it. -/
theorem spec_dropForward (hgone : ∀ S, P S → C h → S.Gone)
    (hP : ∀ S, P S → P { S with forward := none }) :
    Spec C i q s h P (dropForward s) fun _ => P :=
  Spec.seq (fun _ => P)
    (spec_op rfl (fun S hS hc => ⟨(hgone S hS hc).client, (hgone S hS hc).state⟩)
      fun S _ hS _ => hP S hS)
    fun rule => by
      cases (rule : Option String) with
      | none => exact spec_pure fun _ => id
      | some rule =>
          exact Spec.seq (fun _ => P) (spec_errand (errand_runDone s _ _) hgone) fun _ =>
            spec_pure fun _ => id

/-! ### Connecting -/

theorem down_fail {S : Session} {state : AgentSessionState} {error : String}
    (hs : state ≠ .ready ∧ state ≠ .degraded) :
    ¬ ({ S with status := S.status.fail state error } : Session).Up := by
  simp [Session.Up, AgentSessionStatus.fail, hs]

/-- A method that fails once no client is stored. -/
theorem spec_failIdle {state : AgentSessionState} {e : AgentManagerError}
    (hs : state ≠ .ready ∧ state ≠ .degraded)
    (hgone : C h → state = .disconnected) :
    Spec C i q s h (fun S => S.client = none) (failWith s state e)
      fun r S => (∃ e, r = .error e) ∧ S.Idle :=
  spec_failWith (fun _ hS hc => ⟨hS, hgone hc⟩) fun _ hS => ⟨⟨e, rfl⟩, hS, down_fail hs⟩

/-- The session is idle, with a rule on record and, where `b`, a plan. -/
def Prepared (b : Prop) (S : Session) : Prop := S.Idle ∧ S.forward ≠ none ∧ (b → S.plan ≠ none)

/-- The Agent has answered: the state and the client are set, on a rule that is on record. -/
def Answered (b : Prop) (S : Session) : Prop :=
  S.Up ∧ S.client ≠ none ∧ S.forward ≠ none ∧ (b → S.plan ≠ none)

theorem Answered.consistent {S : Session} (hS : Answered True S) : S.Consistent :=
  ⟨⟨fun _ => hS.2.1, fun _ => hS.1⟩, fun _ => ⟨hS.2.2.1, hS.2.2.2 trivial⟩⟩

/-- How a handshake leaves the session. -/
def Greeted (b : Prop) (r : Connected) (S : Session) : Prop :=
  match r with
  | .ok _ => Answered b S
  | .error _ => S.Idle

section Open

variable (hopen : ¬ C h)

include hopen

theorem spec_greeted (b : Prop) (port : Nat) (expected : String) (client : Nat)
    (hello : HelloResult) :
    Spec C i q s h (Prepared b) (greeted s port expected client hello) (Greeted b) := by
  have hfail : ∀ e, Spec C i q s h (Prepared b) (failWith s .incompatible e) (Greeted b) := fun e =>
    (spec_failIdle (by decide) (fun hc => (hopen hc).elim)).mono (fun _ hw => hw.1.client)
      fun r w hr => by
        obtain ⟨⟨e, rfl⟩, hidle⟩ := hr
        exact hidle
  unfold greeted
  split
  · exact hfail _
  · split
    · exact hfail _
    · refine Spec.seq (fun _ S => S.Up ∧ S.forward ≠ none ∧ (b → S.plan ≠ none))
        (spec_op rfl (fun _ _ hc => (hopen hc).elim) fun S _ hS _ => ⟨?_, hS.2⟩) fun _ => ?_
      · have : sessionStateFromHello hello = .ready ∨ sessionStateFromHello hello = .degraded := by
          unfold sessionStateFromHello
          split
          · exact .inr rfl
          · exact .inl rfl
        exact this
      · refine Spec.seq (fun _ => Answered b)
          (spec_op rfl (fun _ _ hc => (hopen hc).elim) fun S _ hS _ =>
            ⟨hS.1, by simp [Op.after], hS.2⟩) fun _ => ?_
        exact Spec.seq (fun _ => Answered b)
          (spec_op rfl (fun _ _ hc => (hopen hc).elim) fun S _ hS _ => hS) fun _ =>
            spec_pure fun _ hS => hS

theorem hopen_gone {P : Session → Prop} : ∀ S, P S → C h → S.Gone :=
  fun _ _ hc => (hopen hc).elim

theorem spec_handshakeRounds (b : Prop) (port : Nat) (token expected : String) :
    ∀ rounds, Spec C i q s h (Prepared b) (handshakeRounds s port token expected rounds) (Greeted b)
  | 0 =>
      (spec_failIdle (by decide) (fun hc => (hopen hc).elim)).mono (fun _ hw => hw.1.client)
        fun r w ⟨⟨e, hr⟩, hidle⟩ => by
          subst hr
          exact hidle
  | rounds + 1 => by
      have hfail : ∀ {state : AgentSessionState} {e : AgentManagerError},
          state ≠ .ready ∧ state ≠ .degraded →
            Spec C i q s h (Prepared b) (failWith s state e) (Greeted b) := fun hs =>
        (spec_failIdle hs (fun hc => (hopen hc).elim)).mono (fun _ hw => hw.1.client)
          fun r w ⟨⟨e, hr⟩, hidle⟩ => by
            subst hr
            exact hidle
      refine Spec.seq (fun _ => Prepared b)
        (spec_errand (errand_op rfl) (hopen_gone hopen)) fun r => ?_
      cases (r : Except String Unit) with
      | error detail => exact hfail (by decide)
      | ok _ =>
          refine Spec.seq (fun _ => Prepared b)
            (spec_errand (errand_op rfl) (hopen_gone hopen)) fun r => ?_
          cases (r : Except AgentClientError (Nat × HelloResult)) with
          | ok hello => exact spec_greeted hopen b port expected hello.1 hello.2
          | error e =>
              refine Spec.seq (fun _ => Prepared b) ?_ fun again => ?_
              · exact spec_errand (by split <;> first | exact errand_op rfl | exact only_pure)
                  (hopen_gone hopen)
              · cases again with
                | true => exact spec_handshakeRounds b port token expected rounds
                | false =>
                    refine Spec.seq (fun _ => Session.Idle)
                      (spec_op rfl (fun _ _ hc => (hopen hc).elim) fun S _ hS _ =>
                        ⟨hS.1.client, down_fail ?_⟩) fun _ => spec_pure fun _ hS => hS
                    unfold helloFailureState
                    split
                    · split <;> decide
                    · decide

theorem spec_recoverFailedStart (install : AgentInstallOutcome) (launch : Option AgentLaunch)
    (cause : AgentManagerError) {state : AgentSessionState}
    (hs : state ≠ .ready ∧ state ≠ .degraded) :
    Spec C i q s h (fun _ => True) (recoverFailedStart s install launch cause state)
      fun _ => Session.Idle := by
  have herrand : ∀ {γ : Type} {p : Call γ}, Performs Errand p →
      Spec C i q s h (fun S => S.client = none) p fun _ S => S.client = none := fun hp =>
    spec_errand hp (hopen_gone hopen)
  refine Spec.seq (fun _ S => S.client = none)
    (spec_op rfl (fun _ _ hc => (hopen hc).elim) fun _ _ _ _ => rfl) fun _ => ?_
  refine Spec.seq (fun _ S => S.client = none)
    (spec_dropForward (hopen_gone hopen) fun _ hS => hS) fun _ => ?_
  have hrest : Spec C i q s h (fun S => S.client = none) (do
      let _ ← stop s
      let rollback ← rollbackText s install
      let error := AgentManagerError.startupFailed cause rollback
      fail s state error.text
      pure error) fun _ => Session.Idle := by
    refine Spec.seq (fun _ S => S.client = none) (herrand (errand_runDone ..)) fun _ => ?_
    refine Spec.seq (fun _ S => S.client = none) (herrand (errand_rollbackText ..)) fun _ => ?_
    exact Spec.seq (fun _ => Session.Idle)
      (spec_op rfl (fun _ _ hc => (hopen hc).elim) fun S _ hS _ => ⟨hS, down_fail hs⟩) fun _ =>
        spec_pure fun _ hS => hS
  cases launch with
  | none => exact hrest
  | some launch =>
      exact Spec.seq (fun _ S => S.client = none) (herrand (errand_cleanupLaunch ..)) fun _ =>
        hrest

/-- A connection ends with a record that agrees. -/
abbrev Connects (C : List (Mark Request) → Prop) (i : Nat) (q : Request) (s : String)
    (h : List (Mark Request)) (P : Session → Prop) (p : Call Connected) : Prop :=
  Spec C i q s h P p fun _ => Session.Consistent

theorem spec_recovered (install : AgentInstallOutcome) (launch : Option AgentLaunch)
    (cause : AgentManagerError) {state : AgentSessionState}
    (hs : state ≠ .ready ∧ state ≠ .degraded) :
    Connects C i q s h (fun _ => True) (recovered s install launch cause state) :=
  Spec.seq (fun _ => Session.Idle) (spec_recoverFailedStart hopen install launch cause hs)
    fun _ => spec_pure fun _ hS => hS.consistent

theorem spec_acceptArtifact (artifact : AgentArtifact) (install : AgentInstallOutcome)
    (launch : AgentLaunch) (status : AgentSessionStatus) :
    Connects C i q s h (Answered False) (acceptArtifact s artifact install launch status) := by
  refine Spec.seq (fun _ => Answered False)
    (spec_errand (errand_cleanupLaunch ..) (hopen_gone hopen)) fun _ => ?_
  refine Spec.seq (fun _ => Answered False) (spec_errand ?_ (hopen_gone hopen)) fun r => ?_
  · split
    · exact errand_runDone ..
    · exact only_pure
  · cases r with
    | error e =>
        exact (spec_recovered hopen install none _ (by decide)).mono (fun _ _ => trivial)
          fun _ _ => id
    | ok _ =>
        refine Spec.seq (fun _ => Answered True)
          (spec_op rfl (fun _ _ hc => (hopen hc).elim) fun S _ hS _ =>
            ⟨hS.1, hS.2.1, hS.2.2.1, fun _ => by simp [Op.after]⟩) fun _ => ?_
        exact spec_pure fun _ hS => hS.consistent

theorem spec_rejectArtifact (install : AgentInstallOutcome) (launch : AgentLaunch)
    (allowVersionRetry : Bool) (e : AgentManagerError) :
    Connects C i q s h Session.Idle (rejectArtifact s install launch allowVersionRetry e) := by
  refine Spec.seq (fun status S => S.Idle ∧ status.state ≠ .ready ∧ status.state ≠ .degraded)
    (spec_op rfl (fun _ _ hc => (hopen hc).elim) fun S r hS hr => ⟨hS, ?_⟩) fun status => ?_
  · obtain rfl : r = S.status := hr
    exact not_or.mp hS.down
  · intro w hw
    refine (?_ : Spec C i q s h (fun _ => True) _ _) w trivial
    refine Spec.seq (fun _ => Session.Idle)
      (spec_recoverFailedStart hopen install (some launch) e hw.2) fun error => ?_
    cases e with
    | incompatibleAgentVersion actual expected =>
        dsimp only
        split <;> exact spec_pure fun _ hS => hS.consistent
    | _ => exact spec_pure fun _ hS => hS.consistent

theorem spec_startArtifact (artifact : AgentArtifact) (allowVersionRetry : Bool)
    (install : AgentInstallOutcome) :
    Connects C i q s h Session.Idle (startArtifact s artifact allowVersionRetry install) := by
  have hidle : ∀ {γ : Type} {p : Call γ}, Performs Errand p →
      Spec C i q s h Session.Idle p fun _ => Session.Idle := fun hp =>
    spec_errand hp (hopen_gone hopen)
  refine Spec.seq (fun _ => Session.Idle)
    (spec_op rfl (fun _ _ hc => (hopen hc).elim) fun S _ hS _ => ⟨hS.client, ?_⟩) fun _ => ?_
  · simp [Session.Up, Op.after, AgentSessionStatus.transition]
  refine Spec.seq (fun _ => Session.Idle) (hidle (errand_start s)) fun r => ?_
  cases r with
  | error e =>
      exact (spec_recovered hopen install none _ (by decide)).mono (fun _ _ => trivial)
        fun _ _ => id
  | ok launch =>
      refine Spec.seq (fun _ => Session.Idle) (hidle (errand_forward s)) fun r => ?_
      cases r with
      | error e =>
          exact (spec_recovered hopen install (some launch) _ (by decide)).mono
            (fun _ _ => trivial) fun _ _ => id
      | ok rule =>
          refine Spec.seq (fun _ => Prepared False)
            (spec_op rfl (fun _ _ hc => (hopen hc).elim) fun S _ hS _ =>
              ⟨⟨hS.client, hS.down⟩, by simp [Op.after], False.elim⟩) fun _ => ?_
          refine Spec.seq (fun _ => Prepared False)
            (spec_op rfl (fun _ _ hc => (hopen hc).elim) fun S _ hS _ =>
              ⟨⟨hS.1.client, ?_⟩, hS.2⟩) fun _ => ?_
          · simp [Session.Up, Op.after, AgentSessionStatus.transition]
          refine Spec.seq (Greeted False) (spec_handshakeRounds hopen False _ _ _ 100)
            fun r => ?_
          cases r with
          | ok status => exact spec_acceptArtifact hopen artifact install launch status
          | error e => exact spec_rejectArtifact hopen install launch allowVersionRetry e

theorem spec_failConsistent {state : AgentSessionState} {e : AgentManagerError}
    (hs : state ≠ .ready ∧ state ≠ .degraded) :
    Connects C i q s h Session.Idle (failWith s state e) :=
  (spec_failIdle hs (fun hc => (hopen hc).elim)).mono (fun _ hw => hw.client)
    fun _ _ hr => hr.2.consistent

theorem spec_connectFresh (artifact : AgentArtifact) (allowVersionRetry : Bool) :
    Connects C i q s h (fun _ => True) (connectFresh s artifact allowVersionRetry) := by
  have hidle : ∀ {γ : Type} {p : Call γ}, Performs Errand p →
      Spec C i q s h Session.Idle p fun _ => Session.Idle := fun hp =>
    spec_errand hp (hopen_gone hopen)
  have hop : ∀ {o : Op}, o.device = some s → (∀ S, S.Idle → (o.after S).Idle) →
      Spec C i q s h Session.Idle (op o) fun _ => Session.Idle := fun hd hS =>
    spec_op hd (fun _ _ hc => (hopen hc).elim) fun S _ hi _ => hS S hi
  refine Spec.seq (fun _ S => S.client = none)
    (spec_op rfl (fun _ _ hc => (hopen hc).elim) fun _ _ _ _ => rfl) fun _ => ?_
  refine Spec.seq (fun _ S => S.client = none)
    (spec_op rfl (fun _ _ hc => (hopen hc).elim) fun _ _ hS _ => hS) fun _ => ?_
  refine Spec.seq (fun _ => Session.Idle)
    (spec_op rfl (fun _ _ hc => (hopen hc).elim) fun S _ hS _ => ⟨hS, ?_⟩) fun _ => ?_
  · simp [Session.Up, Op.after, AgentSessionStatus.disconnected]
  refine Spec.seq (fun _ => Session.Idle) (hidle (errand_ensureOnline s)) fun r => ?_
  cases r with
  | error e => exact spec_failConsistent hopen (by decide)
  | ok _ =>
      refine Spec.seq (fun _ => Session.Idle) (hop rfl fun S hi => ⟨hi.client, ?_⟩) fun _ => ?_
      · simp [Session.Up, Op.after, AgentSessionStatus.transition]
      refine Spec.seq (fun _ => Session.Idle)
        (spec_dropForward (hopen_gone hopen) fun _ hi => ⟨hi.client, hi.down⟩) fun _ => ?_
      refine Spec.seq (fun _ => Session.Idle) (hidle (errand_deviceAbi s)) fun r => ?_
      cases r with
      | error e => exact spec_failConsistent hopen (by decide)
      | ok abi =>
          dsimp only
          split
          · exact spec_failConsistent hopen (by decide)
          · refine Spec.seq (fun _ => Session.Idle) (hop rfl fun S hi => ⟨hi.client, ?_⟩)
              fun _ => ?_
            · simp [Session.Up, Op.after, AgentSessionStatus.transition]
            refine Spec.seq (fun _ => Session.Idle) (hidle (errand_runDone ..)) fun r => ?_
            cases r with
            | error e => exact spec_failConsistent hopen (by decide)
            | ok _ =>
                refine Spec.seq (fun _ => Session.Idle) (hidle (errand_installArtifact ..))
                  fun r => ?_
                cases r with
                | error e => exact spec_failConsistent hopen (by decide)
                | ok install => exact spec_startArtifact hopen artifact allowVersionRetry install

theorem spec_connectLocked (artifact : AgentArtifact) (allowVersionRetry : Bool) :
    Connects C i q s h Session.Consistent (connectLocked s artifact allowVersionRetry) := by
  have hread : ∀ {o : Op}, o.device = some s → (∀ S, S.Consistent → (o.after S).Consistent) →
      Spec C i q s h Session.Consistent (op o) fun _ => Session.Consistent := fun hd hS =>
    spec_op hd (fun _ _ hc => (hopen hc).elim) fun S _ hi _ => hS S hi
  refine Spec.seq (fun _ => Session.Consistent) (hread rfl fun _ => id) fun current => ?_
  refine Spec.seq (fun _ => Session.Consistent) (hread rfl fun _ => id) fun client => ?_
  refine Spec.seq (fun _ => Session.Consistent) (spec_errand ?_ (hopen_gone hopen)) fun b => ?_
  · split
    · exact errand_isHealthy client
    · exact only_pure
  · cases b with
    | true => exact spec_pure fun _ => id
    | false =>
        exact (spec_connectFresh hopen artifact allowVersionRetry).mono (fun _ _ => trivial)
          fun _ _ => id

/-- No client, and a plan to connect with. -/
def Planned (S : Session) : Prop := S.client = none ∧ S.plan ≠ none

theorem spec_waitFailed (e : AgentBootstrapError) :
    Spec C i q s h Planned
      (do
        fail s .disconnected e.text
        pure (.error (.bootstrap e)) : Call (Except AgentManagerError Unit))
      fun r S => match r with
        | .ok _ => Planned S
        | .error _ => S.Idle :=
  Spec.seq (fun _ => Session.Idle)
    (spec_op rfl (fun _ _ hc => (hopen hc).elim) fun _ _ hS _ =>
      ⟨hS.1, down_fail (by decide)⟩) fun _ => spec_pure fun _ hS => hS

theorem spec_waitRounds : ∀ rounds, Spec C i q s h Planned (waitRounds s rounds) fun r S =>
    match r with
    | .ok _ => Planned S
    | .error _ => S.Idle
  | 0 => by
      refine Spec.seq (fun _ => Planned)
        (spec_errand (errand_ensureOnline s) (hopen_gone hopen)) fun r => ?_
      cases r with
      | ok _ => exact spec_pure fun _ hS => hS
      | error e => exact spec_waitFailed hopen e
  | rounds + 1 => by
      refine Spec.seq (fun _ => Planned)
        (spec_errand (errand_ensureOnline s) (hopen_gone hopen)) fun r => ?_
      cases r with
      | ok _ => exact spec_pure fun _ hS => hS
      | error e =>
          refine Spec.seq (fun _ => Planned)
            (spec_errand (errand_op rfl) (hopen_gone hopen)) fun again => ?_
          cases (again : Bool) with
          | true => exact spec_waitRounds rounds
          | false => exact spec_waitFailed hopen e

theorem spec_reconnectWith (plan : SessionPlan) :
    Connects C i q s h (fun S => S.plan ≠ none) (reconnectWith s plan) := by
  refine Spec.seq (fun _ => Planned)
    (spec_op rfl (fun _ _ hc => (hopen hc).elim) fun _ _ hS _ => ⟨rfl, hS⟩) fun _ => ?_
  refine Spec.seq (fun _ => Planned)
    (spec_dropForward (hopen_gone hopen) fun _ hS => hS) fun _ => ?_
  refine Spec.seq _ (spec_waitRounds hopen 20) fun r => ?_
  cases r with
  | error e => exact spec_pure fun _ hS => hS.consistent
  | ok _ =>
      refine Spec.seq (fun _ S => S.Idle ∧ S.plan ≠ none)
        (spec_op rfl (fun _ _ hc => (hopen hc).elim) fun S _ hS _ => ⟨⟨hS.1, ?_⟩, hS.2⟩)
        fun _ => ?_
      · simp [Session.Up, Op.after, AgentSessionStatus.transition]
      refine Spec.seq (fun _ S => S.Idle ∧ S.plan ≠ none)
        (spec_errand (errand_forward s) (hopen_gone hopen)) fun r => ?_
      cases r with
      | error e =>
          exact (spec_failConsistent hopen (by decide)).mono (fun _ hw => hw.1) fun _ _ => id
      | ok rule =>
          refine Spec.seq (fun _ => Prepared True)
            (spec_op rfl (fun _ _ hc => (hopen hc).elim) fun S _ hS _ =>
              ⟨⟨hS.1.client, hS.1.down⟩, by simp [Op.after], fun _ => hS.2⟩) fun _ => ?_
          refine Spec.seq (Greeted True) (spec_handshakeRounds hopen True _ _ _ 100)
            fun r => ?_
          cases r with
          | ok status =>
              exact Spec.seq (fun _ => Answered True)
                (spec_op rfl (fun _ _ hc => (hopen hc).elim) fun _ _ hS _ => hS) fun _ =>
                  spec_pure fun _ hS => hS.consistent
          | error e =>
              exact Spec.seq (fun _ => Session.Idle)
                (spec_op rfl (fun _ _ hc => (hopen hc).elim) fun _ _ hS _ =>
                  ⟨hS.client, hS.down⟩) fun _ => spec_failConsistent hopen (by decide)

end Open

/-! ### The methods -/

/-- What a method finds when it gets the lock. -/
def Found (C : List (Mark Request) → Prop) (h : List (Mark Request)) (S : Session) : Prop :=
  S.Consistent ∧ (C h → S.Gone)

/-- A reconnection without a plan. -/
theorem spec_noPlan :
    Spec C i q s h (fun S => Found C h S ∧ S.client = none) (failWith s .disconnected noPlan)
      fun _ => Found C h :=
  spec_failWith (fun _ hS _ => ⟨hS.2, rfl⟩) fun _ hS =>
    ⟨Session.Idle.consistent ⟨hS.2, down_fail (by decide)⟩, fun _ => ⟨hS.2, rfl⟩⟩

theorem spec_reconnectLocked :
    Spec C i q s h (fun S => Found C h S ∧ (C h → S.plan = none)) (reconnectLocked s)
      fun _ => Found C h := by
  have hgone : ∀ S, Found C h S ∧ (C h → S.plan = none) → C h → S.Gone :=
    fun _ hS hc => hS.1.2 hc
  refine Spec.seq (fun client S => (Found C h S ∧ (C h → S.plan = none)) ∧ client = S.client)
    (spec_op rfl hgone fun _ _ hS hr => ⟨hS, hr⟩) fun client => ?_
  -- a closed session has no client to ask
  refine Spec.seq (fun healthy S => (Found C h S ∧ (C h → S.plan = none)) ∧
      client = S.client ∧ (healthy = true → client ≠ none)) ?_ fun healthy => ?_
  · cases client with
    | none => exact spec_pure fun _ hS => ⟨hS.1, hS.2, by simp⟩
    | some c =>
        have hkeep : Spec C i q s h
            (fun S => (Found C h S ∧ (C h → S.plan = none)) ∧ some c = S.client)
            (isHealthy (some c))
            fun _ S => (Found C h S ∧ (C h → S.plan = none)) ∧ some c = S.client :=
          spec_errand (errand_isHealthy (some c)) fun S hS => hgone S hS.1
        exact hkeep.mono (fun _ => id) fun b w hw => ⟨hw.1, hw.2, by simp⟩
  · cases healthy with
    | true =>
        exact Spec.seq (fun _ => Found C h)
          (spec_op rfl (fun _ hS hc => hS.1.1.2 hc) fun _ _ hS _ => hS.1.1) fun _ =>
            spec_pure fun _ hS => hS
    | false =>
        refine Spec.seq (fun plan S => (Found C h S ∧ (C h → S.plan = none)) ∧ plan = S.plan)
          (spec_op rfl (fun _ hS => hgone _ hS.1) fun _ _ hS hr => ⟨hS.1, hr⟩) fun plan => ?_
        cases (plan : Option SessionPlan) with
        | none =>
            refine spec_noPlan.mono (fun w hw => ⟨hw.1.1, ?_⟩) fun _ _ => id
            by_contra hclient
            exact (hw.1.1.1.backed hclient).2 hw.2.symm
        | some plan =>
            intro w hw
            have hopen : ¬ C h := fun hc => by
              have hplan := hw.1.2 hc
              rw [← hw.2] at hplan
              cases hplan
            refine ((spec_reconnectWith hopen plan).mono (fun w hw => ?_) fun _ _ hS =>
              ⟨hS, fun hc => (hopen hc).elim⟩ :
              Spec C i q s h (fun S => some plan = S.plan) _ fun _ => Found C h) w hw.2
            have hplan : some plan = (w.session s).plan := hw
            exact fun hnone => by rw [hnone] at hplan; cases hplan

theorem spec_diagnosticsLocked :
    Spec C i q s h (Found C h) (diagnosticsLocked s) fun _ => Found C h := by
  have hstatus : ∀ {γ : Type} {f : AgentSessionStatus → γ},
      Spec C i q s h (Found C h) (do let status ← op (Op.status s); pure (f status) : Call γ)
        fun _ => Found C h := fun {γ f} =>
    Spec.seq (fun _ => Found C h) (spec_op rfl (fun _ hS hc => hS.2 hc) fun _ _ hS _ => hS)
      fun _ => spec_pure fun _ hS => hS
  refine Spec.seq (fun client S => Found C h S ∧ client = S.client)
    (spec_op rfl (fun _ hS hc => hS.2 hc) fun _ _ hS hr => ⟨hS, hr⟩) fun client => ?_
  cases (client : Option Nat) with
  | none => exact hstatus.mono (fun _ hw => hw.1) fun _ _ => id
  | some c =>
      refine Spec.seq (fun _ S => Found C h S ∧ some c = S.client)
        (spec_errand (errand_op rfl) fun _ hS hc => hS.1.2 hc) fun r => ?_
      cases (r : Except AgentClientError Value) with
      | ok health => exact hstatus.mono (fun _ hw => hw.1) fun _ _ => id
      | error e =>
          intro w hw
          -- a closed session has no client to lose
          have hopen : ¬ C h := fun hc => by
            have hclient := (hw.1.2 hc).client
            rw [← hw.2] at hclient
            cases hclient
          refine (?_ : Spec C i q s h (fun _ => True) _ _) w trivial
          refine Spec.seq (fun _ S => S.client = none)
            (spec_op rfl (fun _ _ hc => (hopen hc).elim) fun _ _ _ _ => rfl) fun _ => ?_
          refine Spec.seq (fun _ => Found C h)
            (spec_op rfl (fun _ _ hc => (hopen hc).elim) fun S _ hS _ => ?_) fun _ => hstatus
          exact ⟨Session.Idle.consistent ⟨hS, down_fail (by decide)⟩,
            fun hc => (hopen hc).elim⟩

theorem spec_disconnectLocked :
    Spec C i q s h (Found C h) (disconnectLocked s) fun _ => Session.Gone := by
  have hgone : ∀ S : Session, S.client = none ∧ (C h → S.Gone) → C h → S.Gone :=
    fun _ hS => hS.2
  refine Spec.seq (fun _ S => S.client = none ∧ (C h → S.Gone))
    (spec_op rfl (fun _ hS hc => ⟨rfl, (hS.2 hc).state⟩) fun _ _ hS _ =>
      ⟨rfl, fun hc => ⟨rfl, (hS.2 hc).state⟩⟩) fun _ => ?_
  refine Spec.seq (fun _ S => S.client = none ∧ (C h → S.Gone)) ?_ fun forwardResult => ?_
  · refine Spec.seq (fun _ S => S.client = none ∧ (C h → S.Gone))
      (spec_op rfl (fun _ hS hc => ⟨hS.1, (hS.2 hc).state⟩) fun _ _ hS _ =>
        ⟨hS.1, fun hc => ⟨hS.1, (hS.2 hc).state⟩⟩) fun rule => ?_
    cases (rule : Option String) with
    | none => exact spec_pure fun _ => id
    | some rule => exact spec_errand (errand_runDone ..) hgone
  · refine Spec.seq (fun _ S => S.client = none ∧ (C h → S.Gone))
      (spec_errand (errand_runDone ..) hgone) fun stopResult => ?_
    refine Spec.seq (fun _ => Session.Gone)
      (spec_op rfl (fun _ hS _ => ⟨hS.1, rfl⟩) fun _ _ hS _ => ⟨hS.1, rfl⟩) fun _ => ?_
    cases forwardResult with
    | error e => exact spec_pure fun _ => id
    | ok _ => cases stopResult <;> exact spec_pure fun _ => id

theorem spec_deviceDisconnectedLocked :
    Spec C i q s h (Found C h) (deviceDisconnectedLocked s) fun _ => Session.Gone := by
  have hgone : ∀ S : Session, S.client = none ∧ (C h → S.Gone) → C h → S.Gone :=
    fun _ hS => hS.2
  have hrest : Spec C i q s h (fun S => S.client = none ∧ (C h → S.Gone)) (do
      dropForward s
      op (Op.setPlan s none)
      fail s .disconnected "ADB device disconnected") fun _ => Session.Gone := by
    refine Spec.seq (fun _ S => S.client = none ∧ (C h → S.Gone))
      (spec_dropForward hgone fun _ hS => ⟨hS.1, fun hc => ⟨hS.1, (hS.2 hc).state⟩⟩) fun _ => ?_
    refine Spec.seq (fun _ S => S.client = none)
      (spec_op rfl (fun _ hS hc => ⟨hS.1, (hS.2 hc).state⟩) fun _ _ hS _ => hS.1) fun _ => ?_
    exact spec_op rfl (fun _ hS _ => ⟨hS, rfl⟩) fun _ _ hS _ => ⟨hS, rfl⟩
  refine Spec.seq (fun _ S => S.client = none ∧ (C h → S.Gone))
    (spec_op rfl (fun _ hS hc => ⟨rfl, (hS.2 hc).state⟩) fun _ _ hS _ =>
      ⟨rfl, fun hc => ⟨rfl, (hS.2 hc).state⟩⟩) fun client => ?_
  cases (client : Option Nat) with
  | none => exact hrest
  | some c =>
      exact Spec.seq (fun _ S => S.client = none ∧ (C h → S.Gone))
        (spec_errand (errand_op rfl) hgone) fun _ => hrest

end Specs

/-! ### Every method keeps the terms -/

section Methods

variable {C : List (Mark Request) → Prop} {i : Nat} {q : Request} {w : World} {s : String}
  {α β : Type}

theorem errand_keeps {o : Op} (ho : Errand o) {w w' : World} {x : Turn} {r : Reply o}
    (hx : exec w o x = some (r, w')) (k : String) : w'.session k = w.session k := by
  rw [session_exec hx, if_neg (by rw [show o.device = none from ho]; simp)]

/-- Errands between the locks. -/
theorem sound_errands {p : Call α} {f : α → Call β} {Q : Held String Request → World → β → Prop}
    (hp : Performs Errand p) (hf : ∀ a w, Sound (finality C) system i q Q none w (f a)) :
    Sound (finality C) system i q Q none w (p >>= f) :=
  (sound_bind f p).mpr (sound_of_performs (fun _ ho _ _ _ _ _ hx => errand_keeps ho hx)
    (fun w a => hf a w) hp)

/-- A method under the lock of its session. -/
theorem sound_withSession {body : Call α}
    (hin : ∀ h (w : World), Found C h (w.session s) → Unrevived C i q h (w.session s) →
      C (.entered i q :: h) → (w.session s).Gone)
    (hb : ∀ h, Triple (finality C) system i q s (.entered i q :: h)
      (fun w => Found C h (w.session s) ∧ Unrevived C i q h (w.session s)) body
      fun _ w => Found C (.left i q :: .entered i q :: h) (w.session s)) :
    Sound (finality C) system i q Done none w (withSession s body) :=
  sound_errands (errand_op (o := Op.sessionFor s) rfl) fun _ _ =>
    sound_section hin hb fun _ _ => rfl

variable (hC : Counts C)

include hC

theorem sound_connectArtifactInner (artifact stored : AgentArtifact) (allowVersionRetry : Bool) :
    Sound (finality C) system i (.connect s stored) Done none w
      (connectArtifactInner s artifact allowVersionRetry) := by
  unfold connectArtifactInner
  split
  · exact rfl
  · have hopen : ∀ {h S}, Unrevived C i (.connect s stored) h S →
        ¬ C (.entered i (.connect s stored) :: h) := fun hu hc =>
      hu (hC.entered hc).1 ((hC.entered hc).2 trivial)
    refine sound_withSession (fun h w _ hu hc => (hopen hu hc).elim) fun _ w hw => ?_
    exact ((spec_connectLocked (hopen hw.2) artifact allowVersionRetry).mono
      (fun v (hv : (v.session s).Consistent) => hv)
      fun _ _ hS => ⟨hS, fun hc => (hopen hw.2 ((hC.left hc).resolve_left id)).elim⟩) w hw.1.1

theorem sound_connectArtifact (artifact : AgentArtifact) :
    Sound (finality C) system i (.connect s artifact) Done none w (connectArtifact s artifact) := by
  refine (sound_bind _ _).mpr ((sound_connectArtifactInner hC artifact artifact true).mono
    fun held w r hr => ?_)
  obtain rfl : held = none := hr
  split
  · refine sound_errands (errand_runDone ..) fun r w => ?_
    cases r with
    | error e => exact rfl
    | ok _ => exact sound_connectArtifactInner hC artifact artifact false
  · exact rfl

theorem sound_reconnect :
    Sound (finality C) system i (.reconnect s) Done none w (reconnectAfterTransportLoss s) := by
  unfold reconnectAfterTransportLoss
  split
  · exact rfl
  · exact sound_withSession (fun h w hS _ hc => hS.2 (hC.entered hc).1) fun h =>
      (spec_reconnectLocked (i := i) (q := .reconnect s)
        (h := .entered i (.reconnect s) :: h)).mono
        (fun w hw => ⟨⟨hw.1.1, fun hc => hw.1.2 (hC.entered hc).1⟩,
          fun hc => hw.2 (hC.entered hc).1⟩)
        fun _ _ hS => ⟨hS.1, fun hc => hS.2 ((hC.left hc).resolve_left id)⟩

theorem sound_disconnect :
    Sound (finality C) system i (.disconnect s) Done none w (disconnect s) := by
  unfold disconnect
  split
  · exact rfl
  · exact sound_withSession (fun h w hS _ hc => hS.2 (hC.entered hc).1) fun h =>
      (spec_disconnectLocked (i := i) (q := .disconnect s)
        (h := .entered i (.disconnect s) :: h)).mono
        (fun w hw => ⟨hw.1.1, fun hc => hw.1.2 (hC.entered hc).1⟩)
        fun _ _ hS => ⟨hS.idle.consistent, fun _ => hS⟩

theorem sound_diagnostics :
    Sound (finality C) system i (.diagnostics s) Done none w (diagnostics s) := by
  unfold diagnostics
  split
  · exact rfl
  · exact sound_withSession (fun h w hS _ hc => hS.2 (hC.entered hc).1) fun h =>
      (spec_diagnosticsLocked (i := i) (q := .diagnostics s)
        (h := .entered i (.diagnostics s) :: h)).mono
        (fun w hw => ⟨hw.1.1, fun hc => hw.1.2 (hC.entered hc).1⟩)
        fun _ _ hS => ⟨hS.1, fun hc => hS.2 ((hC.left hc).resolve_left id)⟩

theorem sound_deviceDisconnected :
    Sound (finality C) system i (.deviceDisconnected s) Done none w (deviceDisconnected s) := by
  refine sound_errands (errand_op (o := Op.known s) rfl) fun known w => ?_
  cases (known : Bool) with
  | false => exact rfl
  | true =>
      exact sound_section (fun h w hS _ hc => hS.2 (hC.entered hc).1)
        (fun h => (spec_deviceDisconnectedLocked (i := i) (q := .deviceDisconnected s)
          (h := .entered i (.deviceDisconnected s) :: h)).mono
          (fun w hw => ⟨hw.1.1, fun hc => hw.1.2 (hC.entered hc).1⟩)
          fun _ _ hS => ⟨hS.idle.consistent, fun _ => hS⟩) fun _ _ => rfl

/-- **Every method keeps the terms.** -/
theorem sound_handler (i : Nat) (q : Request) (w : World) :
    Sound (finality C) system i q Done none w (handler q) := by
  have hret : ∀ {γ : Type} {p : Call γ} {f : γ → Answer},
      Sound (finality C) system i q Done none w p →
        Sound (finality C) system i q Done none w (do pure (f (← p))) := fun hp =>
    (sound_bind _ _).mpr (hp.mono fun _ _ _ h => h)
  cases q with
  | connect serial artifact => exact hret (sound_connectArtifact hC artifact)
  | reconnect serial => exact hret (sound_reconnect hC)
  | disconnect serial => exact hret (sound_disconnect hC)
  | diagnostics serial => exact hret (sound_diagnostics hC)
  | deviceDisconnected serial =>
      exact (sound_bind _ _).mpr ((sound_deviceDisconnected hC).mono fun _ _ _ h => h)
  | sweep => exact sound_errands errand_sweepStaleForwards fun _ _ => rfl

theorem kept_run {p₀ p : Pool String Op Reply Request Answer World}
    {ls : List (Label Request Turn Elsewhere)} (h₀ : process.init p₀)
    (h : process.Run (Admits (finality C)) p₀ ls p) : Kept (finality C) system p := by
  refine h.invariant (fun p l p' hk ha hs => kept_step (sound_handler hC) ?_ hk ha hs) ?_
  · intro w e w' he k
    cases e with
    | made serial port =>
        simp only [system, elsewhere] at he
        split at he
        · cases he
        · cases he; rfl
    | lost serial rule => cases he; rfl
  · refine kept_init (fun w hw k => ?_) h₀
    have hnew : w.session k = .new k := by simp [World.session, hw.1]
    have hgone : (w.session k).Gone := by
      rw [hnew]
      exact ⟨rfl, rfl⟩
    exact ⟨hgone.idle.consistent, fun _ => hgone⟩

end Methods

/-! ### Runs -/

/-- No reconnection gets the lock of a closed session that still has a plan, and no connection gets
it for its second try. -/
def Final (p : Pool String Op Reply Request Answer World) :
    Label Request Turn Elsewhere → Prop
  | .act i _ =>
      match p.tasks[i]? with
      | some ⟨q, .op (.lock s) _⟩ => Unrevived Closed i q (p.past s) (p.shared.session s)
      | _ => True
  | _ => True

instance (i : Nat) (q : Request) (h : List (Mark Request)) (s : Session) :
    Decidable (Unrevived Closed i q h s) := by
  unfold Unrevived
  cases q <;> infer_instance

instance (p : Pool String Op Reply Request Answer World) (l : Label Request Turn Elsewhere) :
    Decidable (Final p l) := by
  unfold Final
  split
  · split <;> infer_instance
  · exact .isTrue trivial

theorem admits_of_final {p : Pool String Op Reply Request Answer World}
    {l : Label Request Turn Elsewhere} (h : Final p l) : Admits (finality Closed) p l := by
  cases l with
  | act i x =>
      simp only [Final, Admits] at h ⊢
      split at h
      · simp_all [finality]
      · split <;> first | trivial | simp_all
  | _ => trivial

/-- In a session that never counts as closed nothing can be revived. -/
theorem admits_never (p : Pool String Op Reply Request Answer World)
    (l : Label Request Turn Elsewhere) : Admits (finality fun _ => False) p l := by
  cases l with
  | act i x =>
      simp only [Admits]
      split
      · exact fun hc => hc.elim
      · trivial
      · trivial
  | _ => trivial

/-- **While nobody holds the lock of a session its record agrees, and a session that was
disconnected stays without a client, and says so, until somebody connects**, if nothing revives
it. -/
theorem consistent_and_final {p₀ p : Pool String Op Reply Request Answer World}
    {ls : List (Label Request Turn Elsewhere)} (h₀ : process.init p₀) (s : String) :
    (process.Run Any p₀ ls p → p.holder s = none → (p.shared.session s).Consistent) ∧
      (process.Run Final p₀ ls p → Closed (p.past s) → (p.shared.session s).Gone) := by
  refine ⟨fun h hfree => ?_, fun h hclosed => ?_⟩
  · have hkept := kept_run counts_never h₀ (h.mono fun p l _ => admits_never p l)
    exact (hkept.free s hfree).1
  · have hkept := kept_run counts_closed h₀ (h.mono fun _ _ => admits_of_final)
    exact hkept.always s hclosed

/-! ### A session revived -/

/-- A command that succeeds and prints `stdout`; whatever else is asked goes well too. -/
def printing (stdout : List Char) : Turn where
  adb := .ran ⟨some 0, stdout, []⟩
  hello := .ok (7, ⟨1, "1.0", ⟨true, false, true⟩, [], []⟩)

/-- The digest of the Agent that is on the device. -/
def someDigest : List Char := List.replicate 64 'a'

/-- The artifact on the desktop, the same. -/
def someArtifact : AgentArtifact := ⟨"agent", .arm64V8a, String.ofList someDigest, "1.0"⟩

/-- Call `i` takes as many steps as there are texts, which the commands print. -/
def steps (i : Nat) (texts : List (List Char)) : List (Label Request Turn Elsewhere) :=
  texts.map fun text => .act i (printing text)

/-- A call that connects, up to the end of its section. -/
def connecting : List (Label Request Turn Elsewhere) :=
  .begin (.connect "d" someArtifact) ::
    steps 0 ([[], [], [], [], [], [], [], "device".toList, [], [], "arm64-v8a".toList, [], [],
      [], someDigest, [], [], [], [], [], [], [], [], [], "5000".toList] ++
      List.replicate 10 [])

/-- A call that disconnects, and one that reconnects, both waiting for the lock. -/
def racing : List (Label Request Turn Elsewhere) :=
  [.begin (.disconnect "d"), .begin (.reconnect "d")] ++ steps 2 [[]] ++
    steps 1 (List.replicate 8 [])

/-- The reconnection gets the lock and stores a client. -/
def reviving : List (Label Request Turn Elsewhere) :=
  steps 2 ([[], [], [], [], [], "device".toList, [], "5001".toList] ++ List.replicate 5 [])

/-- The start of the process. -/
def started : Pool String Op Reply Request Answer World :=
  ⟨⟨[], []⟩, [], fun _ => none, fun _ => [], []⟩

theorem init_started : process.init started := ⟨⟨rfl, nofun⟩, rfl, rfl, rfl, rfl⟩

/-- **A reconnection that waited for the lock of a disconnection brings the session back.** -/
theorem revived_after_disconnect :
    ¬ ∀ p₀ ls p, process.init p₀ → process.Run Any p₀ ls p → ∀ s,
      (p.holder s = none → (p.shared.session s).Consistent) ∧
        (Closed (p.past s) → (p.shared.session s).Gone) := by
  intro hall
  have hexec : (process.exec started (connecting ++ racing ++ reviving)).any (fun p =>
      decide (Closed (p.past "d")) && (p.shared.session "d").client.isSome) = true := by
    rfl
  obtain ⟨p, hrun, hp⟩ := run_of_exec_any guarded_any hexec
  rw [Bool.and_eq_true, decide_eq_true_iff] at hp
  have hgone := (hall _ _ _ init_started hrun "d").2 hp.1
  rw [hgone.client] at hp
  cases hp.2

/-- A call that disconnects, alone. -/
def disconnecting : List (Label Request Turn Elsewhere) :=
  .begin (.disconnect "d") :: steps 1 (List.replicate 8 [])

/-- A session that was connected and disconnected. -/
theorem gone_after_disconnect :
    ∃ p, process.Run Final started (connecting ++ disconnecting) p ∧ p.holder "d" = none ∧
      (p.shared.session "d").Consistent ∧ Closed (p.past "d") ∧ (p.shared.session "d").Gone := by
  obtain ⟨p, hrun, hp⟩ : ∃ p, process.Run Final started (connecting ++ disconnecting) p ∧
      (decide (p.holder "d" = none) && decide (Closed (p.past "d"))) = true :=
    run_of_exec_any (by decide) (by decide)
  rw [Bool.and_eq_true, decide_eq_true_iff, decide_eq_true_iff] at hp
  have hboth := @consistent_and_final started p (connecting ++ disconnecting) init_started "d"
  exact ⟨p, hrun, hp.1, hboth.1 (hrun.mono fun _ _ _ => trivial) hp.1, hp.2,
    hboth.2 hrun hp.2⟩

end RevBox.AgentManager
