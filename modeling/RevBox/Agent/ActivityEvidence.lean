import RevBox.Agent.ActivityTruth
import RevBox.Support.Trace

/-!
# Agent — Activity, evidence

What the verdict of a write rests on.  `activity.launch` and `activity.force_stop` run `pidof`
until they see what they wait for, and `package.uninstall` runs `pm path` once.  A check that fails
to start, times out or exits with a failure is read like one that found nothing, which is what the
two removals wait for.

* `Observed`: what a write has seen, told from its commands.
* `verified_iff_attested`: a write answers with evidence iff its last check is not taken for a
  removal that it does not show.
* `unchecked_removal`: a `pidof` that times out excuses a `force_stop`.
-/

namespace RevBox.Activity

open Operations Prog

/-! ### Checks -/

/-- What a write has seen of the device. -/
structure Observed where
  /-- the answer is one the ledger kept -/
  replayed : Bool := false
  /-- a device command was spawned -/
  moved : Bool := false
  /-- the next output is that of a check -/
  awaiting : Bool := false
  /-- the outcomes of the checks since then, the last one first -/
  checks : List CommandOutcome := []

/-- `pidof` of the package, and `pm path` of it once the device was moved. -/
def isCheck (package : String) (moved : Bool) (program : String) (args : List String) : Bool :=
  (program == pidof && args == [package]) || (moved && program == pm && args == ["path", package])

/-- What an operation adds. -/
def Observed.next (package : String) (s : Observed) : (e : Effect) → Reply e → Observed
  | .lookup _, cached => { s with replayed := (cached : Option Value).isSome }
  | .spawn program args, failure =>
      match (failure : Option String) with
      | some reason =>
          if isCheck package s.moved program args then
            { s with awaiting := false, checks := .unavailable reason :: s.checks }
          else { s with awaiting := false }
      | none =>
          -- what was seen before tells nothing of what comes after
          if isDeviceCommand (.spawn program args) then
            { s with moved := true, awaiting := false, checks := [] }
          else { s with awaiting := isCheck package s.moved program args }
  | .output, x => if s.awaiting then { s with awaiting := false, checks := x :: s.checks } else s
  | _, _ => s

/-- Any operation, and what it adds. -/
def observer (package : String) : Discipline Effect Reply Observed where
  allowed _ _ := True
  next := Observed.next package

/-- What a write has seen when it answers. -/
def observe (package : String) (es : List ((e : Effect) × Reply e)) : Observed :=
  es.foldl (fun s e => s.next package e.1 e.2) {}

/-- What `current_pid` makes of `pidof`. -/
def pidOf : CommandOutcome → Option Nat
  | .exited (some 0) stdout _ =>
      (Text.splitWhitespace stdout.toList).head?.bind (Text.parseUnsigned (2 ^ 32))
  | _ => none

/-- The command ran to its end, whatever its exit status, and printed such a text. -/
def Printed (P : List Char → Prop) (x : CommandOutcome) : Prop :=
  ∃ code stdout stderr, x = .exited code stdout stderr ∧ P stdout.toList

/-- No line of `pm path` names an installed file. -/
def NoPath (stdout : List Char) : Prop :=
  (Text.lines stdout).all (fun line =>
    !Text.startsWith "package:".toList (Text.trimStart (Text.trimEndMatches '\r' line))) = true

/-- The check shows the state that the write claims: a process, no process, or no file for the
user that was named.  `pm path` without `--user` asks for user 0. -/
def Shows : WriteRequest → CommandOutcome → Prop
  | .launch .., x => ∃ pid, pidOf x = some pid ∧ pid ≠ 0
  | .forceStop .., x => Printed (fun stdout => Text.splitWhitespace stdout = []) x
  | .uninstall _ _ _ user, x => (user = none ∨ user = some 0) ∧ Printed NoPath x
  | _, _ => False

/-- The write takes the check for the state it claims. -/
def Takes : WriteRequest → CommandOutcome → Prop
  | .launch .., x => ∃ pid, pidOf x = some pid ∧ pid ≠ 0
  | .forceStop .., x => pidOf x = none
  | .uninstall .., x => showsPath x = false
  | _, _ => False

/-- The writes that check what they did with commands of their own. -/
def OwnCheck : WriteRequest → Prop
  | .launch .. | .forceStop .. | .uninstall .. => True
  | _ => False

/-- **Positive evidence**: an answer that is no replay and says `verified` was given after a check
that shows what it says.  The `no_op` of `force_stop` says `verified` too. -/
def Positive (q : WriteRequest) (s : Observed) (a : Except AgentError Value) : Prop :=
  s.replayed = false → ∀ v, a = .ok v → v.get? "verified" = some (.bool true) →
    ∃ x ∈ s.checks, Shows q x

/-- The last check, if the write takes it for the state it claims, shows that state. -/
def Attested (q : WriteRequest) (s : Observed) : Prop :=
  ∀ x, s.checks.head? = some x → Takes q x → Shows q x

/-! ### Commands -/

variable {α : Type} {package program operationId : String} {args : List String} {s : Observed}
  {q : WriteRequest}

/-- A command that neither checks nor moves the device. -/
theorem observe_other {Q : Observed → CommandOutcome → Prop}
    (hc : isCheck package s.moved program args = false)
    (hd : isDeviceCommand (.spawn program args) = false)
    (hQ : ∀ x, Q { s with awaiting := false } x) :
    Follows (observer package) Q s (command program args) := by
  refine ⟨trivial, fun failure => ?_⟩
  cases (failure : Option String) with
  | some reason =>
      change Q (Observed.next package s (.spawn program args) (some reason)) _
      simpa [Observed.next, hc] using hQ _
  | none => exact ⟨trivial, fun x => by simpa [observer, Observed.next, hc, hd] using hQ x⟩

/-- A check adds its outcome. -/
theorem observe_check {Q : Observed → CommandOutcome → Prop}
    (hc : isCheck package s.moved program args = true)
    (hd : isDeviceCommand (.spawn program args) = false)
    (hQ : ∀ x, Q { s with awaiting := false, checks := x :: s.checks } x) :
    Follows (observer package) Q s (command program args) := by
  refine ⟨trivial, fun failure => ?_⟩
  cases (failure : Option String) with
  | some reason =>
      change Q (Observed.next package s (.spawn program args) (some reason)) _
      simpa [Observed.next, hc] using hQ _
  | none => exact ⟨trivial, fun x => by simpa [observer, Observed.next, hc, hd] using hQ x⟩

/-- A device command, once it is spawned, leaves nothing that was seen. -/
theorem observe_device {Q : Observed → CommandOutcome → Prop}
    (hc : isCheck package s.moved program args = false)
    (hd : isDeviceCommand (.spawn program args) = true)
    (hfail : ∀ reason, Q { s with awaiting := false } (.unavailable reason))
    (hQ : ∀ x, Q { s with moved := true, awaiting := false, checks := [] } x) :
    Follows (observer package) Q s (command program args) := by
  refine ⟨trivial, fun failure => ?_⟩
  cases (failure : Option String) with
  | some reason =>
      change Q (Observed.next package s (.spawn program args) (some reason)) _
      simpa [Observed.next, hc] using hfail _
  | none => exact ⟨trivial, fun x => by simpa [observer, Observed.next, hd] using hQ x⟩

/-- What `run` makes of an outcome. -/
theorem observe_run {Q : Observed → Except AgentError String → Prop}
    (h : Follows (observer package) (fun s x =>
      (∀ stdout stderr, x = .exited (some 0) stdout stderr → Q s (.ok stdout)) ∧
        ∀ e, (∀ stdout stderr, x ≠ .exited (some 0) stdout stderr) → Q s (.error e)) s
      (command program args)) :
    Follows (observer package) Q s (run program args) := by
  rw [run, follows_bind]
  refine h.mono fun s x hx => ?_
  split
  · exact hx.2 _ nofun
  · exact hx.2 _ nofun
  · exact hx.1 _ _ rfl
  · next hne =>
      refine hx.2 _ fun stdout stderr he => ?_
      cases he
      exact hne rfl

/-- What `run_ok` makes of an outcome. -/
theorem observe_runOk {Q : Observed → Except AgentError String → Prop}
    (h : Follows (observer package) (fun s x =>
      (∀ stdout stderr, x = .exited (some 0) stdout stderr → Q s (.ok (stdout ++ stderr))) ∧
        ∀ e, Q s (.error e)) s (command program args)) :
    Follows (observer package) Q s (runOk program args) := by
  rw [runOk, follows_bind]
  refine h.mono fun s x hx => ?_
  split
  · exact hx.2 _
  · exact hx.2 _
  · exact hx.1 _ _ rfl
  · exact hx.2 _

theorem observe_currentPid {Q : Observed → Option Nat → Prop}
    (hQ : ∀ x, Q { s with awaiting := false, checks := x :: s.checks } (pidOf x)) :
    Follows (observer package) Q s (currentPid package) := by
  rw [currentPid, follows_bind]
  refine observe_run (observe_check (by simp [isCheck])
    (by simp [isDeviceCommand, pidof, pm, monkey, am]) fun x => ⟨?_, ?_⟩)
  · rintro stdout stderr rfl
    exact hQ (.exited (some 0) stdout stderr)
  · intro e hx
    have hnone : pidOf x = none := by
      unfold pidOf
      split
      · next h => exact absurd rfl (hx _ _)
      · rfl
    exact hnone ▸ hQ x

theorem observe_pmPath (hm : s.moved = true) {Q : Observed → Bool → Prop}
    (hQ : ∀ x, Q { s with awaiting := false, checks := x :: s.checks } (showsPath x)) :
    Follows (observer package) Q s (pmPathPresent package) := by
  rw [pmPathPresent, follows_bind]
  refine observe_run (observe_check (by simp [isCheck, hm])
    (by simp [isDeviceCommand, pm, monkey, am]) fun x => ⟨?_, ?_⟩)
  · rintro stdout stderr rfl
    exact hQ (.exited (some 0) stdout stderr)
  · intro e hx
    have hnone : showsPath x = false := by
      unfold showsPath
      split
      · next h => exact absurd rfl (hx _ _)
      · rfl
    exact hnone ▸ hQ x

/-- The checks before the last one of `wait_for_pid` went the other way. -/
theorem observe_pollPid (wantSome : Bool) : ∀ (rounds : Nat) {s : Observed}
    {Q : Observed → Option Nat → Prop},
    (∀ x before, (∀ y ∈ before, (pidOf y).isSome = !wantSome) →
      Q { s with awaiting := false, checks := x :: (before ++ s.checks) } (pidOf x)) →
    Follows (observer package) Q s (pollPid package wantSome rounds)
  | 0, s, Q, hQ => observe_currentPid fun x => hQ x [] nofun
  | rounds + 1, s, Q, hQ => by
      rw [pollPid, follows_bind]
      refine observe_currentPid fun x => ?_
      have hlast := hQ x [] nofun
      split
      · exact hlast
      split
      · next hnone =>
          have : pidOf x = none := Option.isNone_iff_eq_none.mp hnone.2
          exact this ▸ hlast
      · next hsome hnone =>
          have hother : (pidOf x).isSome = !wantSome := by
            cases wantSome <;> cases hp : pidOf x <;> simp_all
          refine ⟨trivial, fun late => ?_⟩
          cases (late : Bool) with
          | true => exact hlast
          | false =>
              refine ⟨trivial, fun _ => observe_pollPid wantSome rounds fun z before hb => ?_⟩
              have hz := hQ z (before ++ [x]) fun y hy => by
                rcases List.mem_append.mp hy with hy | hy
                · exact hb y hy
                · exact List.mem_singleton.mp hy ▸ hother
              rwa [List.append_assoc] at hz

/-- The guard moves nothing and checks nothing. -/
theorem observe_guard (hm : s.moved = false) {Q : Observed → Except AgentError Unit → Prop}
    (hQ : ∀ r, Q { s with awaiting := false } r) :
    Follows (observer package) Q s (guardWritablePackage package) := by
  have hother : ∀ (args : List String) (s : Observed), s.moved = false →
      isCheck package s.moved pm args = false := fun args s hm => by
    simp [isCheck, hm, pm, pidof]
  rw [guardWritablePackage, follows_bind, pmPathPresent, follows_bind]
  refine observe_run (observe_other (hother _ s hm) (by simp [isDeviceCommand, pm, monkey, am])
    fun x => ?_)
  refine ⟨fun stdout stderr _ => ?_, fun e _ => hQ _⟩
  dsimp only
  rw [follows_pure]
  split
  · rw [follows_bind]
    refine observe_run (observe_other (hother _ _ hm)
      (by simp [isDeviceCommand, pm, monkey, am]) fun x => ⟨?_, ?_⟩)
    · intro stdout stderr _
      dsimp only
      split <;> exact hQ _
    · exact fun e _ => hQ _
  · exact hQ _

/-! ### Writes -/

theorem verified_toValue (r : PackageWriteResult) :
    r.toValue.get? "verified" = some (.bool r.verified) := by
  obtain ⟨action, package, operationId, outcome, verified, pid, detail, ranAsRoot⟩ := r
  rw [PackageWriteResult.toValue, Value.get?_ofFields]
  cases pid <;> cases detail <;> simp [optField]

theorem verified_uninstall (r : PackageUninstallResult) :
    r.toValue.get? "verified" = some (.bool r.verified) := by
  obtain ⟨package, operationId, outcome, verified, keepData, steps, detail⟩ := r
  rw [PackageUninstallResult.toValue, Value.get?_ofFields]
  cases detail <;> simp [optField]

theorem attested_nil (h : s.checks = []) : Attested q s := fun x hx => by simp [h] at hx

theorem positive_error (e : AgentError) : Positive q s (.error e) := fun _ v hv => by cases hv

/-- What the ledger answers needs no check. -/
theorem observe_withLedger {Q : Observed → Except AgentError Value → Prop} {method : String}
    {write : Write (Except AgentError Value)} (herror : ∀ e, Q s (.error e))
    (hcached : ∀ v, Q { s with replayed := true } (.ok v))
    (hwrite : Follows (observer package) Q { s with replayed := false } write) :
    Follows (observer package) Q s (withLedger method package operationId write) := by
  unfold withLedger
  split
  · exact herror _
  · refine ⟨trivial, fun cached => ?_⟩
    cases (cached : Option Value) with
    | none => exact hwrite
    | some v => exact hcached _

/-- What `wait_for_pid` sees when it waits for the end: processes, until the last check. -/
theorem positive_stopped {r : PackageWriteResult} {x : CommandOutcome}
    {before : List CommandOutcome} (hs : s.checks = x :: before)
    (hb : ∀ y ∈ before, (pidOf y).isSome = true) (hr : r.verified = (pidOf x).isNone)
    (hf : s.replayed = false) :
    Positive (.forceStop package operationId) s (.ok r.toValue) ↔
      Attested (.forceStop package operationId) s := by
  constructor
  · intro hpos y hy hnone
    rw [hs] at hy
    obtain rfl := Option.some.inj hy
    have hverified : r.toValue.get? "verified" = some (.bool true) := by
      rw [verified_toValue, hr, show pidOf x = none from hnone]
      rfl
    obtain ⟨y, hy, code, stdout, stderr, hprinted, hblank⟩ := hpos hf _ rfl hverified
    rw [hs] at hy
    rcases List.mem_cons.mp hy with rfl | hy
    · exact ⟨code, stdout, stderr, hprinted, hblank⟩
    · -- a check that read a process printed it
      have hsome := hb y hy
      rw [hprinted] at hsome
      unfold pidOf at hsome
      split at hsome
      · next he =>
          cases he
          rw [hblank] at hsome
          cases hsome
      · cases hsome
  · intro hatt _ v hv hverified
    cases hv
    rw [verified_toValue, hr] at hverified
    have hnone : pidOf x = none := by
      cases hp : pidOf x with
      | none => rfl
      | some pid => simp [hp] at hverified
    exact ⟨x, by rw [hs]; exact List.mem_cons_self, hatt x (by rw [hs]; rfl) hnone⟩

theorem launch_positive (package operationId : String) : Follows (observer package)
    (fun s a => Positive (.launch package operationId) s a ↔
      Attested (.launch package operationId) s) {} (launch package operationId) := by
  suffices h : Follows (observer package) (Positive (.launch package operationId)) {}
      (launch package operationId) from h.mono fun s a ha => ⟨fun _ _ _ h => h, fun _ => ha⟩
  refine observe_withLedger (fun e => positive_error e) (fun _ => nofun) ?_
  rw [follows_bind]
  refine observe_guard rfl fun r => ?_
  cases r with
  | error e => exact positive_error e
  | ok =>
      rw [follows_bind]
      refine observe_runOk (observe_device (by simp [isCheck, monkey, pidof, pm])
        (by simp [isDeviceCommand]) (fun reason => ⟨nofun, fun e => positive_error _⟩)
        fun x => ⟨fun stdout stderr _ => ?_, fun e => positive_error _⟩)
      dsimp only
      split
      · exact positive_error _
      · rw [follows_bind]
        refine observe_pollPid true 20 fun x before _ => ⟨trivial, fun _ _ v hv hverified => ?_⟩
        cases hv
        rw [verified_toValue] at hverified
        obtain ⟨pid, hp⟩ := Option.isSome_iff_exists.mp (Value.bool.inj (Option.some.inj hverified))
        obtain ⟨hpid, hne⟩ := Option.filter_eq_some_iff.mp hp
        exact ⟨x, List.mem_cons_self, pid, hpid, of_decide_eq_true hne⟩

theorem forceStop_positive (package operationId : String) : Follows (observer package)
    (fun s a => Positive (.forceStop package operationId) s a ↔
      Attested (.forceStop package operationId) s) {} (forceStop package operationId) := by
  have hnil : ∀ {s : Observed}, s.checks = [] → ∀ e,
      Positive (.forceStop package operationId) s (.error e) ↔
        Attested (.forceStop package operationId) s :=
    fun hs e => ⟨fun _ => attested_nil hs, fun _ => positive_error e⟩
  refine observe_withLedger (hnil rfl) (fun _ => ⟨fun _ => attested_nil rfl, fun _ => nofun⟩) ?_
  rw [follows_bind]
  refine observe_guard rfl fun r => ?_
  cases r with
  | error e => exact hnil rfl e
  | ok =>
      rw [follows_bind]
      refine observe_pollPid false 20 fun x before hb => ?_
      rw [List.append_nil]
      split
      · next hnone => exact ⟨trivial, fun _ => positive_stopped rfl hb hnone.symm rfl⟩
      · next hsome =>
          rw [follows_bind]
          refine observe_runOk (observe_device (by simp [isCheck, am, pidof, pm])
            (by simp [isDeviceCommand]) (fun reason => ⟨nofun, fun e => ?_⟩)
            fun _ => ⟨fun stdout stderr _ => ?_, hnil rfl⟩)
          · -- the process was seen, and nothing was done
            refine ⟨fun _ y hy hnone => ?_, fun _ => positive_error e⟩
            obtain rfl := Option.some.inj hy
            exact absurd (by rw [show pidOf x = none from hnone]; rfl) hsome
          · rw [follows_bind]
            refine observe_pollPid false 20 fun x before hb => ⟨trivial, fun _ => ?_⟩
            rw [List.append_nil]
            exact positive_stopped rfl hb rfl rfl

theorem uninstall_positive (package operationId : String) (keepData : Bool) (user : Option Nat) :
    Follows (observer package)
      (fun s a => Positive (.uninstall package operationId keepData user) s a ↔
        Attested (.uninstall package operationId keepData user) s) {}
      (uninstall package operationId keepData user) := by
  have hnil : ∀ {s : Observed}, s.checks = [] → ∀ e,
      Positive (.uninstall package operationId keepData user) s (.error e) ↔
        Attested (.uninstall package operationId keepData user) s :=
    fun hs e => ⟨fun _ => attested_nil hs, fun _ => positive_error e⟩
  refine observe_withLedger (hnil rfl) (fun _ => ⟨fun _ => attested_nil rfl, fun _ => nofun⟩) ?_
  rw [follows_bind]
  refine observe_guard rfl fun r => ?_
  cases r with
  | error e => exact hnil rfl _
  | ok =>
      rw [follows_bind]
      refine observe_run (observe_device (by simp [isCheck, pm, pidof])
        (by simp [isDeviceCommand, uninstallArgs])
        (fun reason => ⟨nofun, fun e _ => hnil rfl _⟩)
        fun _ => ⟨fun stdout stderr _ => ?_, fun e _ => hnil rfl _⟩)
      dsimp only
      split
      · exact hnil rfl _
      · rw [follows_bind]
        refine observe_pmPath rfl fun x => ?_
        generalize hx : showsPath x = there
        cases there with
        | true =>
            refine ⟨trivial, fun _ => ⟨fun _ y hy htaken => ?_, fun _ => positive_error _⟩⟩
            obtain rfl := Option.some.inj hy
            rw [show showsPath x = false from htaken] at hx
            cases hx
        | false =>
            refine ⟨trivial, fun _ => ⟨?_, ?_⟩⟩
            · intro hpos y hy _
              obtain rfl := Option.some.inj hy
              obtain ⟨z, hz, hshows⟩ := hpos rfl _ rfl (verified_uninstall _)
              rwa [List.mem_singleton.mp hz] at hshows
            · exact fun hatt _ _ _ _ => ⟨x, List.mem_singleton_self x, hatt x rfl hx⟩

/-- **The verdict of a write rests on evidence iff its last check does.** -/
theorem verified_iff_attested {q : WriteRequest} (hq : OwnCheck q)
    {es : List ((e : Effect) × Reply e)} {a : Except AgentError Value}
    (h : Trace (handler q) es a) :
    Positive q (observe q.package es) a ↔ Attested q (observe q.package es) := by
  cases q with
  | launch package operationId => exact (launch_positive package operationId).trace h
  | forceStop package operationId => exact (forceStop_positive package operationId).trace h
  | uninstall package operationId keepData user =>
      exact (uninstall_positive package operationId keepData user).trace h
  | replaceNativeLibrary | fridaServerStart | fridaServerStop => exact hq.elim

/-- A `force_stop` whose guard lets the package `a` pass, and whose `pidof` ends like this. -/
def stopping (x : CommandOutcome) (value : Value) : List ((e : Effect) × Reply e) :=
  [⟨.lookup "op-00000001", none⟩, ⟨.spawn pm ["path", "a"], none⟩,
    ⟨.output, .exited (some 0) "package:/a" ""⟩, ⟨.spawn pm ["list", "packages", "-3", "a"], none⟩,
    ⟨.output, .exited (some 0) "package:a" ""⟩, ⟨.spawn pidof ["a"], none⟩, ⟨.output, x⟩,
    ⟨.remember "op-00000001" value, ()⟩]

/-- The answer that nothing was running. -/
def notRunning : Value := PackageWriteResult.toValue
  { action := .forceStop, package := "a", operationId := "op-00000001", outcome := .noOp,
    verified := true, pid := none, detail := some "not_running", ranAsRoot := false }

theorem trace_not_running : Trace (handler (.forceStop "a" "op-00000001"))
    (stopping (.exited (some 1) "" "") notRunning) (.ok notRunning) :=
  ⟨none, rfl, none, rfl, _, rfl, none, rfl, _, rfl, none, rfl, _, rfl, (), rfl, rfl⟩

theorem trace_timed_out : Trace (handler (.forceStop "a" "op-00000001"))
    (stopping .timedOut notRunning) (.ok notRunning) :=
  ⟨none, rfl, none, rfl, _, rfl, none, rfl, _, rfl, none, rfl, _, rfl, (), rfl, rfl⟩

/-- A `pidof` that exits with 1 and prints nothing is evidence. -/
theorem not_running_attested :
    Positive (.forceStop "a" "op-00000001")
      (observe "a" (stopping (.exited (some 1) "" "") notRunning)) (.ok notRunning) := by
  refine (verified_iff_attested (q := .forceStop "a" "op-00000001") trivial
    trace_not_running).mpr fun x hx _ => ?_
  exact ⟨some 1, "", "", (Option.some.inj hx).symm, rfl⟩

/-- **Without evidence**: a `pidof` that times out tells `force_stop` that nothing is running. -/
theorem unchecked_removal : ¬ ∀ q es a, OwnCheck q → Trace (handler q) es a →
    Positive q (observe q.package es) a := by
  intro hall
  have hpos := hall (.forceStop "a" "op-00000001") _ _ trivial trace_timed_out
  obtain ⟨x, hx, code, stdout, stderr, hprinted, -⟩ := hpos rfl _ rfl (verified_toValue _)
  rw [List.mem_singleton.mp hx] at hprinted
  cases hprinted

end RevBox.Activity
