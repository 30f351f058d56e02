import RevBox.Agent.HostedTable
import RevBox.Agent.Privileged
import RevBox.Support.Trace

/-!
# Agent — Kill

`process.kill` of `provider/process.rs`: the identity of the process is read, compared with the name
the caller expects, and the signal is sent, or a script under `su` does the same.  The process
table is free to change between any two of the operations.

* `identity_guard`: on the shell path a signal reaches only a process whose identity was read and
  fits, exactly if the pid of an absent process is not taken before the signal, and the name
  expected has no blank around it.
-/

namespace RevBox.Kill

open Proc Prog Privileged
open Hosted (KillOutcome)

/-- What `kill` asks.  `pollStatus` is the read of `/proc/<pid>/status` in `confirm_dead`,
`selfStatus` that of `/proc/self/status`. -/
inductive Op where
  | selfPid
  | selfStatus
  | readComm (pid : Nat)
  | readCmdline (pid : Nat)
  | readStatus (pid : Nat)
  | kill (pid : Nat) (signal : KillSignal)
  | procExists (pid : Nat)
  | pollStatus (pid : Nat)
  | verifyTimedOut
  | su (script : String)

/-- The replies: of `kill` the error number, unless the signal was delivered. -/
@[reducible] def Reply : Op → Type
  | .selfPid => Nat
  | .selfStatus | .readComm _ | .readStatus _ | .pollStatus _ => Option (List Char)
  | .readCmdline _ => Option (List UInt8)
  | .kill _ _ => Option Int
  | .procExists _ | .verifyTimedOut => Bool
  | .su _ => SuReply

/-- What `kill` computes. -/
abbrev Call := Prog Op Reply

/-- `ProcessKillParams`. -/
structure Params where
  pid : Nat
  expectedComm : Option String := none
  signal : KillSignal := .term
  requireRoot : Bool := false

/-- `ProcessKillResult`. -/
structure Result where
  pid : Nat
  signal : KillSignal
  outcome : KillOutcome
  comm : Option (List Char)
  cmdline : Option (List Char)
  uid : Option Nat
  ranAsRoot : Bool
  verifiedDead : Bool
  detail : Option String

/-! ### The identity -/

/-- `ProcessIdentity`. -/
structure Identity where
  comm : Option (List Char)
  cmdline : Option (List Char)
  uid : Option Nat
  deriving DecidableEq

/-- `read_trimmed`. -/
def readTrimmed (text : Option (List Char)) : Option (List Char) :=
  (text.map Text.trim).filter fun text => text ≠ []

/-- `read_cmdline`. -/
def cmdlineOf (bytes : Option (List UInt8)) : Option (List Char) :=
  (bytes.map fun bytes => Text.join ' '
    (((bytes.splitOn 0).filter fun part => part ≠ []).map Utf8.fromUtf8Lossy)).filter
      fun text => text ≠ []

/-- `parse_status_uid`. -/
def statusUid (status : List Char) : Option Nat :=
  (Text.lines status).findSome? fun line =>
    if Text.startsWith "Uid:".toList line then do
      Text.parseUnsigned (2 ^ 32) (Text.trim (← (Text.splitWhitespace (line.drop 4)).head?))
    else none

/-- What `read_process_identity` makes of its three reads. -/
def identityOf (comm : Option (List Char)) (cmdline : Option (List UInt8))
    (status : Option (List Char)) : Option Identity :=
  let comm := readTrimmed comm
  let cmdline := cmdlineOf cmdline
  let uid := status.bind statusUid
  if comm = none ∧ cmdline = none ∧ uid = none then none else some ⟨comm, cmdline, uid⟩

/-- `read_process_identity`. -/
def readProcessIdentity (pid : Nat) : Call (Option Identity) := do
  let comm ← perform (Op.readComm pid)
  let cmdline ← perform (Op.readCmdline pid)
  let status ← perform (Op.readStatus pid)
  pure (identityOf comm cmdline status)

/-- The name of the program: the last part of the first word of the command line. -/
def Identity.program (i : Identity) : List Char :=
  (((i.cmdline.bind fun line => (Text.splitWhitespace line).head?).map fun path =>
    (path.reverse.takeWhile fun c => c ≠ '/').reverse)).getD []

/-- The refusal to signal another process. -/
def identityMismatch (pid : Nat) (expected : List Char) (i : Identity) : AgentError :=
  (AgentError.new .preconditionFailed s!"pid={pid} 的身份与预期不符，已拒绝终止").withDetails
    (.ofFields [("reason", .string "identity_mismatch"),
      ("expected", .string (String.ofList expected)),
      ("actual_comm", .string (String.ofList (i.comm.getD []))),
      ("actual_program", .string (String.ofList i.program))])

/-- `guard_identity`. -/
def guardIdentity (p : Params) (identity : Option Identity) : Except AgentError Unit :=
  match p.expectedComm with
  | none => .ok ()
  | some raw =>
      let expected := Text.trim raw.toList
      if expected = [] then .ok ()
      else
        match identity with
        | none => .ok ()
        | some i =>
            if i.comm.getD [] = expected ∨ i.program = expected then .ok ()
            else .error (identityMismatch p.pid expected i)

/-! ### The shell leg -/

/-- `effective_uid`. -/
def effectiveUid : Call (Option Nat) := do
  let status ← perform Op.selfStatus
  pure (status.bind statusUid)

/-- `send_signal`. -/
def sendSignal (pid : Nat) (signal : KillSignal) : Call SignalResult := do
  if rawPid pid = 0 then pure (.failed einval)
  else
    let errno ← perform (Op.kill (rawPid pid) signal)
    pure (.ofErrno errno)

/-- One round of `confirm_dead`. -/
def deadNow (pid : Nat) : Call Bool := do
  if !(← perform (Op.procExists pid)) then pure true
  else
    match ← perform (Op.pollStatus pid) with
    | some status => pure ((Text.lines status).any (Text.startsWith "State:\tZ".toList))
    | none => pure false

/-- The loop of `confirm_dead`.  Each round sleeps 50 ms, so after 30 of them
`KILL_VERIFY_TIMEOUT` is over. -/
def confirmRounds (pid : Nat) : Nat → Call Bool
  | 0 => deadNow pid
  | rounds + 1 => do
      if ← deadNow pid then pure true
      else if ← perform Op.verifyTimedOut then pure false
      else confirmRounds pid rounds

/-- `confirm_dead`: 1500 ms in rounds of 50 ms. -/
def confirmDead (pid : Nat) : Call Bool := confirmRounds pid 30

/-- The answer of the shell leg. -/
def shellResult (p : Params) (ranAsRoot : Bool) (identity : Option Identity)
    (outcome : KillOutcome) (verifiedDead : Bool) : Result where
  pid := p.pid
  signal := p.signal
  outcome := outcome
  comm := identity.bind Identity.comm
  cmdline := identity.bind Identity.cmdline
  uid := identity.bind Identity.uid
  ranAsRoot := ranAsRoot
  verifiedDead := verifiedDead
  detail := match outcome, verifiedDead with
    | .signaled, false => some "signal_sent_not_confirmed"
    | .signaled, true => some "signal_sent_confirmed"
    | .alreadyGone, _ => some "process_not_running"

/-- A number, or `null`. -/
def numberOrNull (n : Option Nat) : Value := (n.map fun n => Value.number (.int n)).getD .null

/-- The refusal of `kill` for want of permission. -/
def notOwner (pid : Nat) (targetUid agentUid : Option Nat) : AgentError :=
  (AgentError.new .permissionDenied s!"无权限终止 pid={pid}").withDetails
    (.ofFields [("reason", .string "not_owner"), ("target_uid", numberOrNull targetUid),
      ("agent_uid", .number (.int (agentUid.getD (2 ^ 32 - 1))))])

/-- The failure of `kill` for another reason. -/
def killFailed (pid : Nat) (errno : Int) (comm : List Char) (uid : Option Nat) : AgentError :=
  (AgentError.new .internal s!"kill 失败 pid={pid} errno={errno}").withDetails
    (.ofFields [("comm", .string (String.ofList comm)), ("uid", numberOrNull uid)])

/-- `kill` on the shell path, from its comparison on. -/
def killShell (p : Params) (ranAsRoot : Bool) (identity : Option Identity) :
    Call (Except AgentError Result) :=
  match guardIdentity p identity with
  | .error e => pure (.error e)
  | .ok () => do
      match ← sendSignal p.pid p.signal with
      | .gone => pure (.ok (shellResult p ranAsRoot identity .alreadyGone true))
      | .denied =>
          pure (.error (notOwner p.pid (identity.bind Identity.uid) (← effectiveUid)))
      | .failed errno =>
          pure (.error (killFailed p.pid errno ((identity.bind Identity.comm).getD [])
            (identity.bind Identity.uid)))
      | .sent =>
          pure (.ok (shellResult p ranAsRoot identity .signaled (← confirmDead p.pid)))

/-! ### The `su` leg -/

/-- The line of the output that tells how the script went. -/
def verdictOf (output : List Char) : List Char :=
  (((Text.lines output).map Text.trim).find? fun line =>
    ["KILLED", "STILL_ALIVE", "KILL_GONE", "KILL_MISMATCH"].any fun v =>
      Text.startsWith v.toList line).getD []

/-- The answer of the `su` leg. -/
def suResult (p : Params) (i : Identity) (comm verdict : List Char) (outcome : KillOutcome)
    (verifiedDead : Bool) : Result where
  pid := p.pid
  signal := p.signal
  outcome := outcome
  comm := some comm
  cmdline := i.cmdline
  uid := i.uid
  ranAsRoot := true
  verifiedDead := verifiedDead
  detail := some s!"su_script:{String.ofList verdict}"

/-- What `kill_via_su` makes of the output of its script. -/
def suVerdict (p : Params) (i : Identity) (comm output : List Char) : Except AgentError Result :=
  let verdict := verdictOf output
  if verdict = "KILL_GONE".toList then .ok (suResult p i comm verdict .alreadyGone true)
  else if verdict = "KILLED".toList then .ok (suResult p i comm verdict .signaled true)
  else if verdict = "STILL_ALIVE".toList then .ok (suResult p i comm verdict .signaled false)
  else if Text.startsWith "KILL_MISMATCH".toList verdict then
    let actual := String.ofList (Text.trim (verdict.drop "KILL_MISMATCH".length))
    let comm := String.ofList comm
    .error ((AgentError.new .preconditionFailed
      (s!"pid={p.pid} 现在的进程名是 {Text.debugStr actual}，与期望的 {Text.debugStr comm} " ++
        "不一致（PID 可能已被复用）；没有发送任何信号")).withDetails
      (.ofFields [("reason", .string "identity_mismatch"), ("expected_comm", .string comm),
        ("actual_comm", .string actual)]))
  else .error (.new .internal s!"提权终止没有回有效结论: {String.ofList output}")

/-- `kill_via_su`. -/
def killViaSu (p : Params) (identity : Option Identity) : Call (Except AgentError Result) :=
  match identity with
  | none => pure (.ok ⟨p.pid, p.signal, .alreadyGone, none, none, none, true, true,
      some "process_not_running"⟩)
  | some i =>
      match guardIdentity p identity with
      | .error e => pure (.error e)
      | .ok () =>
          let comm := i.comm.getD []
          match validateComm comm with
          | .error e => pure (.error e)
          | .ok () => do
              let reply ← perform (Op.su (killVerifiedScript p.pid (String.ofList comm)))
              match runPrivileged "终止进程" killSentinel reply with
              | .error e => pure (.error e)
              | .ok output => pure (suVerdict p i comm output)

/-! ### The method -/

/-- `ProcessesProvider::kill`. -/
def kill (p : Params) : Call (Except AgentError Result) := do
  if p.pid = 0 then
    pure (.error (.new .invalidRequest "pid=0 会命中整个进程组，禁止通过 Agent 终止"))
  else if p.pid = 1 then pure (.error (.new .invalidRequest "禁止终止 init（pid=1）"))
  else if p.pid = (← perform Op.selfPid) then
    pure (.error (.new .invalidRequest "禁止终止 Agent 自身，请使用 Agent 管理入口停止会话"))
  else
    let ranAsRoot := decide ((← effectiveUid) = some 0)
    let identity ← readProcessIdentity p.pid
    if p.requireRoot && !ranAsRoot then killViaSu p identity
    else killShell p ranAsRoot identity

/-! ### What a call has done -/

/-- An operation and its reply. -/
abbrev Event := (o : Op) × Reply o

/-- What the identity read found, if it was made. -/
def identityRead : List Event → Option (Option Identity)
  | ⟨.readComm _, comm⟩ :: ⟨.readCmdline _, cmdline⟩ :: ⟨.readStatus _, status⟩ :: _ =>
      some (identityOf comm cmdline status)
  | _ :: es => identityRead es
  | [] => none

/-- The Agent found itself to be root. -/
def ranAsRoot : List Event → Bool
  | ⟨.selfStatus, status⟩ :: _ => decide (status.bind statusUid = some 0)
  | _ :: es => ranAsRoot es
  | [] => false

/-- The calls of `kill(2)`, with the error number of each, unless it delivered its signal. -/
def kills : List Event → List (Nat × KillSignal × Option Int)
  | ⟨.kill pid signal, errno⟩ :: es => (pid, signal, errno) :: kills es
  | _ :: es => kills es
  | [] => []

/-- A signal was delivered. -/
def Sent (es : List Event) : Prop := ∃ pid signal, (pid, signal, none) ∈ kills es

/-- The call answers that the process is gone. -/
def AnswersGone (r : Except AgentError Result) : Prop :=
  ∃ result, r = .ok result ∧ result.outcome = .alreadyGone

/-- The process goes by this name. -/
def Identity.Is (i : Identity) (name : String) : Prop :=
  i.comm = some name.toList ∨ i.program = name.toList

/-- The call took the `su` leg. -/
def OnSuLeg (p : Params) (es : List Event) : Prop := p.requireRoot = true ∧ ranAsRoot es = false

/-- **The guard against reused pids**: a signal is delivered only if the identity read found a
process of this name; where it found none, none is, and the answer is that the process is gone. -/
def Guarded (name : String) (es : List Event) (r : Except AgentError Result) : Prop :=
  (Sent es → ∃ i, identityRead es = some (some i) ∧ i.Is name) ∧
    (identityRead es = some none → ¬ Sent es ∧ AnswersGone r)

/-- The pid of a process that was not there is not taken before the signal, and the name has no
blank around it where a signal is delivered. -/
def Undisturbed (p : Params) (name : String) (es : List Event) : Prop :=
  (identityRead es = some none → OnSuLeg p es ∨ (p.pid, p.signal, some esrch) ∈ kills es) ∧
    (Sent es → Text.trim name.toList = name.toList)

/-! ### The shape of a call -/

variable {p : Params} {es : List Event} {r : Except AgentError Result} {identity : Option Identity}

/-- An operation other than `kill(2)`. -/
def Harmless : Op → Prop
  | .kill _ _ => False
  | _ => True

theorem kills_append (es₁ es₂ : List Event) : kills (es₁ ++ es₂) = kills es₁ ++ kills es₂ := by
  induction es₁ with
  | nil => rfl
  | cons e es ih =>
      obtain ⟨o, reply⟩ := e
      cases o <;> simp [kills, ih]

theorem kills_of_harmless {α : Type} {c : Call α} {a : α} (hc : c.Only Harmless)
    (h : Trace c es a) : kills es = [] := by
  have hes := hc.trace h
  clear h
  induction es with
  | nil => rfl
  | cons e es ih =>
      obtain ⟨o, reply⟩ := e
      have ho := hes _ List.mem_cons_self
      have ih := ih fun e he => hes e (List.mem_cons_of_mem _ he)
      cases o <;> first | exact ho.elim | exact ih

theorem effectiveUid_harmless : effectiveUid.Only Harmless :=
  (only_perform trivial).bind fun _ => trivial

theorem deadNow_harmless (pid : Nat) : (deadNow pid).Only Harmless := by
  refine (only_perform trivial).bind fun there => ?_
  cases there with
  | false => exact trivial
  | true =>
      refine (only_perform trivial).bind fun status => ?_
      cases status <;> exact trivial

theorem confirmRounds_harmless (pid : Nat) : ∀ rounds, (confirmRounds pid rounds).Only Harmless
  | 0 => deadNow_harmless pid
  | rounds + 1 => by
      refine (deadNow_harmless pid).bind fun dead => ?_
      cases dead with
      | true => exact trivial
      | false =>
          refine (only_perform trivial).bind fun late => ?_
          cases late with
          | true => exact trivial
          | false => exact confirmRounds_harmless pid rounds

theorem killViaSu_harmless (p : Params) (identity : Option Identity) :
    (killViaSu p identity).Only Harmless := by
  cases identity with
  | none => exact trivial
  | some i =>
      unfold killViaSu
      dsimp only
      split
      · exact trivial
      · split
        · exact trivial
        · refine (only_perform trivial).bind fun reply => ?_
          split <;> exact trivial

/-- `send_signal` makes one call of `kill(2)`, if the pid can be one. -/
theorem sendSignal_trace {pid : Nat} {signal : KillSignal} {result : SignalResult}
    (h : Trace (sendSignal pid signal) es result) :
    (kills es = [] ∧ result = .failed einval) ∨
      ∃ errno, kills es = [(pid, signal, errno)] ∧ result = .ofErrno errno := by
  unfold sendSignal at h
  split at h
  · obtain ⟨rfl, rfl⟩ := trace_pure.mp h
    exact .inl ⟨rfl, rfl⟩
  · rename_i hraw
    obtain ⟨errno, es', rfl, hend⟩ := trace_perform_bind.mp h
    obtain ⟨rfl, rfl⟩ := trace_pure.mp hend
    have hpid := rawPid_of_ne_zero hraw
    exact .inr ⟨errno, by simp [kills, hpid], rfl⟩

/-- **What the shell leg does**: the guard refuses, or the pid cannot be one, or there is one call
of `kill(2)`, and the answer is that the process is gone if and only if it found none. -/
inductive Shell (p : Params) (identity : Option Identity) :
    List (Nat × KillSignal × Option Int) → Except AgentError Result → Prop where
  | refused (e : AgentError) (hguard : guardIdentity p identity = .error e) :
      Shell p identity [] (.error e)
  | noPid (e : AgentError) (hguard : guardIdentity p identity = .ok ()) :
      Shell p identity [] (.error e)
  | signalled {r : Except AgentError Result} (errno : Option Int)
      (hguard : guardIdentity p identity = .ok ()) (hgone : AnswersGone r ↔ errno = some esrch) :
      Shell p identity [(p.pid, p.signal, errno)] r

theorem not_gone_error (e : AgentError) : ¬ AnswersGone (.error e) := by
  rintro ⟨result, h, -⟩
  cases h

theorem ofErrno_eq_gone {errno : Option Int} :
    SignalResult.ofErrno errno = .gone ↔ errno = some esrch := by
  unfold SignalResult.ofErrno
  cases errno with
  | none => simp
  | some e =>
      dsimp only
      split
      · simp [*]
      · split <;> simp [*]

theorem killShell_trace {root : Bool} (h : Trace (killShell p root identity) es r) :
    Shell p identity (kills es) r := by
  unfold killShell at h
  cases hguard : guardIdentity p identity with
  | error e =>
      rw [hguard] at h
      obtain ⟨rfl, rfl⟩ := trace_pure.mp h
      exact .refused e hguard
  | ok u =>
      rw [hguard] at h
      obtain ⟨es₁, result, es₂, rfl, h₁, h₂⟩ := trace_bind.mp h
      -- what follows the signal makes no call of `kill(2)`
      have hrest : kills es₂ = [] ∧ (AnswersGone r ↔ result = .gone) ∧
          (result = .failed einval → ∃ e, r = .error e) := by
        cases result with
        | gone =>
            obtain ⟨rfl, rfl⟩ := trace_pure.mp h₂
            exact ⟨rfl, ⟨fun _ => rfl, fun _ => ⟨_, rfl, rfl⟩⟩, fun h => by cases h⟩
        | denied =>
            obtain ⟨es₃, uid, es₄, rfl, h₃, h₄⟩ := trace_bind.mp h₂
            obtain ⟨rfl, rfl⟩ := trace_pure.mp h₄
            refine ⟨?_, ⟨fun h => (not_gone_error _ h).elim, fun h => by cases h⟩, fun h => by cases h⟩
            rw [List.append_nil]
            exact kills_of_harmless effectiveUid_harmless h₃
        | failed errno =>
            obtain ⟨rfl, rfl⟩ := trace_pure.mp h₂
            exact ⟨rfl, ⟨fun h => (not_gone_error _ h).elim, fun h => by cases h⟩, fun _ => ⟨_, rfl⟩⟩
        | sent =>
            obtain ⟨es₃, dead, es₄, rfl, h₃, h₄⟩ := trace_bind.mp h₂
            obtain ⟨rfl, rfl⟩ := trace_pure.mp h₄
            refine ⟨?_, ⟨fun h => ?_, fun h => by cases h⟩, fun h => by cases h⟩
            · rw [List.append_nil]
              exact kills_of_harmless (confirmRounds_harmless _ _) h₃
            · obtain ⟨result, h, hgone⟩ := h
              cases h
              cases hgone
      obtain ⟨hnone, hgone, hfailed⟩ := hrest
      rw [kills_append, hnone, List.append_nil]
      rcases sendSignal_trace h₁ with ⟨hk, rfl⟩ | ⟨errno, hk, rfl⟩
      · obtain ⟨e, rfl⟩ := hfailed rfl
        rw [hk]
        exact .noPid e hguard
      · rw [hk]
        exact .signalled errno hguard (hgone.trans ofErrno_eq_gone)

/-- **What a call does**: it refuses before it reads the identity; or takes the `su` leg, which
makes no call of `kill(2)`; or the shell leg. -/
theorem kill_trace (h : Trace (kill p) es r) : (identityRead es = none ∧ kills es = []) ∨
    ∃ identity, identityRead es = some identity ∧
      ((OnSuLeg p es ∧ kills es = [] ∧ (identity = none → AnswersGone r)) ∨
        (¬ OnSuLeg p es ∧ Shell p identity (kills es) r)) := by
  unfold kill at h
  split at h
  · obtain ⟨rfl, rfl⟩ := trace_pure.mp h
    exact .inl ⟨rfl, rfl⟩
  · split at h
    · obtain ⟨rfl, rfl⟩ := trace_pure.mp h
      exact .inl ⟨rfl, rfl⟩
    · obtain ⟨self, es₁, rfl, h₁⟩ := trace_perform_bind.mp h
      split at h₁
      · obtain ⟨rfl, rfl⟩ := trace_pure.mp h₁
        exact .inl ⟨rfl, rfl⟩
      · obtain ⟨esu, uid, es₂, rfl, hu, h₂⟩ := trace_bind.mp h₁
        obtain ⟨status, esu', rfl, hu'⟩ := trace_perform_bind.mp hu
        obtain ⟨rfl, rfl⟩ := trace_pure.mp hu'
        obtain ⟨esi, identity, es₃, rfl, hi, h₃⟩ := trace_bind.mp h₂
        obtain ⟨comm, es₄, rfl, hi₁⟩ := trace_perform_bind.mp hi
        obtain ⟨cmdline, es₅, rfl, hi₂⟩ := trace_perform_bind.mp hi₁
        obtain ⟨pstatus, es₆, rfl, hi₃⟩ := trace_perform_bind.mp hi₂
        obtain ⟨rfl, rfl⟩ := trace_pure.mp hi₃
        refine .inr ⟨identityOf comm cmdline pstatus, rfl, ?_⟩
        split at h₃
        · rename_i hsu
          have hkills : kills es₃ = [] := kills_of_harmless (killViaSu_harmless _ _) h₃
          refine .inl ⟨by simpa [OnSuLeg, ranAsRoot] using hsu, hkills, fun hnone => ?_⟩
          rw [hnone] at h₃
          obtain ⟨-, rfl⟩ := trace_pure.mp h₃
          exact ⟨_, rfl, rfl⟩
        · rename_i hsu
          have hshell := killShell_trace h₃
          exact .inr ⟨by simpa [OnSuLeg, ranAsRoot] using hsu, hshell⟩

/-! ### The guard -/

theorem identityRead_eq {x : Option Identity} (h : identityRead es = some x) :
    ∃ comm cmdline status, x = identityOf comm cmdline status := by
  fun_induction identityRead es with
  | case1 pid comm pid' cmdline pid'' status es =>
      cases h
      exact ⟨comm, cmdline, status, rfl⟩
  | case2 e es hne ih => exact ih h
  | case3 => cases h

/-- A name that was read has no blank around it. -/
theorem trim_of_is {i : Identity} {name : String} (h : identityRead es = some (some i))
    (his : i.Is name) : Text.trim name.toList = name.toList := by
  obtain ⟨comm, cmdline, status, hi⟩ := identityRead_eq h
  simp only [identityOf] at hi
  split at hi
  · cases hi
  · cases hi
    rcases his with hcomm | hprogram
    · obtain ⟨⟨text, rfl, htext⟩, -⟩ : (∃ text, comm = some text ∧ Text.trim text = name.toList) ∧ _ := by
        simpa [readTrimmed, Option.filter_eq_some_iff] using hcomm
      rw [← htext, Text.trim_trim]
    · refine Text.trim_of_no_blank fun c hc => ?_
      rw [← hprogram] at hc
      unfold Identity.program at hc
      dsimp only at hc
      cases hline : cmdlineOf cmdline with
      | none => simp [hline] at hc
      | some line =>
          cases hword : (Text.splitWhitespace line).head? with
          | none => simp [hline, hword] at hc
          | some word =>
              have hmem : c ∈ word := by
                have hc' : c ∈ (word.reverse.takeWhile fun c => c ≠ '/').reverse := by
                  simpa [hline, hword] using hc
                have := (List.takeWhile_sublist _).subset (List.mem_reverse.mp hc')
                exact List.mem_reverse.mp this
              exact Text.splitWhitespace_no_blank (List.mem_of_head? hword) c hmem

/-- Who passes the guard goes by the name. -/
theorem is_of_guard {i : Identity} {name : String} (he : p.expectedComm = some name)
    (hne : name ≠ "") (htrim : Text.trim name.toList = name.toList)
    (h : guardIdentity p (some i) = .ok ()) : i.Is name := by
  have hlist : name.toList ≠ [] := fun h => hne (String.toList_eq_nil_iff.mp h)
  simp only [guardIdentity, he, htrim, if_neg hlist] at h
  split at h
  · rename_i hname
    rcases hname with hcomm | hprogram
    · left
      cases hc : i.comm with
      | none =>
          rw [hc] at hcomm
          exact absurd hcomm.symm hlist
      | some comm =>
          rw [hc] at hcomm
          exact congrArg some hcomm
    · exact .inr hprogram
  · cases h

/-- **The guard against reused pids holds of a call exactly if it is not disturbed**: if no process
takes the pid of one that was not there before the signal, and a name with a blank around it, which
the code trims, brings no signal about. -/
theorem identity_guard {name : String} (he : p.expectedComm = some name) (hne : name ≠ "")
    (h : Trace (kill p) es r) : Guarded name es r ↔ Undisturbed p name es := by
  rcases kill_trace h with ⟨hnone, hk⟩ | ⟨identity, hid, ⟨hsu, hk, hgone⟩ | ⟨hshell, hs⟩⟩
  · simp [Guarded, Undisturbed, Sent, hnone, hk]
  · -- the `su` leg makes no call of `kill(2)`
    have hsent : ¬ Sent es := by simp [Sent, hk]
    refine ⟨fun _ => ⟨fun _ => .inl hsu, fun h => (hsent h).elim⟩, fun _ =>
      ⟨fun h => (hsent h).elim, fun hnone => ⟨hsent, hgone ?_⟩⟩⟩
    exact Option.some.inj (hid.symm.trans hnone)
  · generalize hks : kills es = ks at hs
    cases hs with
    | refused e hguard | noPid e hguard =>
        have hsent : ¬ Sent es := by simp [Sent, hks]
        refine ⟨fun hg => ⟨fun hnone => ?_, fun h => (hsent h).elim⟩, fun hu =>
          ⟨fun h => (hsent h).elim, fun hnone => ?_⟩⟩
        · exact absurd (hg.2 hnone).2 (not_gone_error e)
        · rcases hu.1 hnone with hsu | hin
          · exact absurd hsu hshell
          · rw [hks] at hin
            cases hin
    | signalled errno hguard hgone =>
        have hsent : Sent es ↔ errno = none := by simp [Sent, hks, eq_comm]
        have hin : (p.pid, p.signal, some esrch) ∈ kills es ↔ errno = some esrch := by
          simp [hks, eq_comm]
        cases identity with
        | none =>
            refine ⟨fun hg => ⟨fun hnone => .inr (hin.mpr (hgone.mp (hg.2 hnone).2)), fun h => ?_⟩,
              fun hu => ?_⟩
            · exact absurd h (hg.2 hid).1
            · have herrno := hin.mp ((hu.1 hid).resolve_left hshell)
              have hnot : ¬ Sent es := by simp [hsent, herrno]
              exact ⟨fun h => (hnot h).elim, fun _ => ⟨hnot, hgone.mpr herrno⟩⟩
        | some i =>
            refine ⟨fun hg => ⟨fun hnone => ?_, fun h => ?_⟩, fun hu => ⟨fun h => ?_, fun hnone => ?_⟩⟩
            · rw [hid] at hnone
              cases hnone
            · obtain ⟨i', hi', his⟩ := hg.1 h
              exact trim_of_is hi' his
            · exact ⟨i, hid, is_of_guard he hne (hu.2 h) hguard⟩
            · rw [hid] at hnone
              cases hnone

/-! ### Two calls -/

/-- A call to kill process 4321, which should be called `server`. -/
def killServer : Params := { pid := 4321, expectedComm := some "server", signal := .kill }

/-- The status of a process of the shell user. -/
def shellStatus : List Char := "Uid:\t2000\t2000\t2000\t2000\n".toList

/-- There is no process 4321; by the time of the signal there is one, and it is killed. -/
def takenPid : List Event :=
  [⟨.selfPid, (1000 : Nat)⟩, ⟨.selfStatus, some shellStatus⟩, ⟨.readComm 4321, none⟩,
    ⟨.readCmdline 4321, none⟩, ⟨.readStatus 4321, none⟩, ⟨.kill 4321 .kill, none⟩,
    ⟨.procExists 4321, false⟩]

/-- Process 4321 is `server`, and is killed. -/
def serverKilled : List Event :=
  [⟨.selfPid, (1000 : Nat)⟩, ⟨.selfStatus, some shellStatus⟩,
    ⟨.readComm 4321, some "server\n".toList⟩, ⟨.readCmdline 4321, none⟩,
    ⟨.readStatus 4321, some shellStatus⟩, ⟨.kill 4321 .kill, none⟩, ⟨.procExists 4321, false⟩]

theorem takenPid_trace : Trace (kill killServer) takenPid
    (.ok (shellResult killServer false none .signaled true)) :=
  ⟨_, rfl, _, rfl, _, rfl, _, rfl, _, rfl, _, rfl, _, rfl, rfl⟩

theorem serverKilled_trace : Trace (kill killServer) serverKilled
    (.ok (shellResult killServer false (some ⟨some "server".toList, none, some 2000⟩) .signaled
      true)) :=
  ⟨_, rfl, _, rfl, _, rfl, _, rfl, _, rfl, _, rfl, _, rfl, rfl⟩

/-- The process that has taken the pid is signalled, although none was there to compare. -/
theorem takenPid_signalled : ¬ ∀ (p : Params) (name : String) (es : List Event)
    (r : Except AgentError Result), p.expectedComm = some name → name ≠ "" →
      Trace (kill p) es r → Guarded name es r := by
  intro h
  have hg := h killServer "server" takenPid _ rfl (by decide) takenPid_trace
  exact (hg.2 rfl).1 ⟨4321, .kill, List.mem_cons_self⟩

/-- A process of the name expected is signalled, within the guard. -/
theorem serverKilled_guarded : Sent serverKilled ∧ Guarded "server" serverKilled
    (.ok (shellResult killServer false (some ⟨some "server".toList, none, some 2000⟩) .signaled
      true)) := by
  have hsent : Sent serverKilled := ⟨4321, .kill, List.mem_cons_self⟩
  refine ⟨hsent, (identity_guard rfl (by decide) serverKilled_trace).mpr ⟨fun h => ?_, fun _ => ?_⟩⟩
  · cases h
  · decide

end RevBox.Kill
