import RevBox.Agent.Activity

/-!
# Agent — Activity stages

Where a write stands: before its lookup, after a hit, after a miss, after its device command,
after its `finish_write`.  `discipline q` says what a write for `q` may do at each stage, and
`handler_follows` that every write method keeps to it, whatever the device answers:

* it looks the ledger up once, under its own id, and a hit is answered at once, replayed;
* after a miss it runs at most one device command and records at most one result, under its own
  id and never marked `replayed`, and a success is the result it recorded.
-/

namespace RevBox.Activity

open Operations Prog Tasks

/-- The stages of a write. -/
inductive Stage where
  | fresh
  | hit (value : Value)
  | missed
  | commanded
  | recorded (commanded : Bool) (value : Value)

/-- The stage an operation leads to. -/
def Stage.next : Stage → (e : Effect) → Reply e → Stage
  | fresh, .lookup _, r =>
      match (r : Option Value) with
      | some v => hit v
      | none => missed
  | missed, .remember _ v, _ => recorded false v
  | missed, e, r => if moves e r then commanded else missed
  | commanded, .remember _ v, _ => recorded true v
  | s, _, _ => s

/-- The result is not a replayed one. -/
def Original (v : Value) : Prop := v.get? "outcome" ≠ some (.string "replayed")

/-- What a write may do once its lookup has found nothing. -/
def Writes (q : WriteRequest) : Effect → Prop
  | .lookup _ => False
  | .remember o v => o = q.operationId ∧ Original v
  | _ => True

/-- What a write may do at a stage. -/
def Allowed (q : WriteRequest) : Stage → Effect → Prop
  | .fresh, .lookup o => o = q.operationId
  | .fresh, .prepare => True
  | .missed, e => Writes q e
  | .commanded, e => Writes q e ∧ isDeviceCommand e = false
  | _, _ => False

/-- The stages of a write for `q`. -/
def discipline (q : WriteRequest) : Discipline Effect Reply Stage := ⟨Allowed q, Stage.next⟩

/-- What a write answers at the stage it ends in. -/
def Final : Stage → Except AgentError Value → Prop
  | .hit v, a => a = .ok (markReplayed v)
  | .recorded _ v, .ok w => w = v
  | _, .ok _ => False
  | _, .error _ => True

/-! ### Results are original -/

theorem original_of_outcome {v : Value} {o : WriteOutcome} (ho : o ≠ .replayed)
    (h : v.get? "outcome" = some (.string o.asStr)) : Original v := by
  rw [Original, h]
  cases o <;> simp_all [WriteOutcome.asStr]

theorem PackageWriteResult.outcome_toValue (r : PackageWriteResult) :
    r.toValue.get? "outcome" = some (.string r.outcome.asStr) := by
  obtain ⟨_, _, _, _, _, pid, detail, _⟩ := r
  cases pid <;> cases detail <;>
    simp [toValue, Value.ofFields, optField, Value.get?_insertField]

theorem PackageUninstallResult.outcome_toValue (r : PackageUninstallResult) :
    r.toValue.get? "outcome" = some (.string r.outcome.asStr) := by
  obtain ⟨_, _, _, _, _, _, detail⟩ := r
  cases detail <;> simp [toValue, Value.ofFields, optField, Value.get?_insertField]

theorem SharedResult.original_toValue (operationId : String) (r : SharedResult) :
    Original (r.toValue operationId) := by
  refine original_of_outcome (o := if r.noOp then .noOp else .executed)
    (by split <;> simp) ?_
  simp [toValue, Value.ofFields, List.foldl_append, Value.get?_insertField]

/-! ### Reading the device -/

variable {q : WriteRequest} {α β : Type}

/-- The operations that neither touch the ledger nor move the device. -/
def Reads : Effect → Prop
  | .spawn program args => isDeviceCommand (.spawn program args) = false
  | .output | .windowOver | .sleep => True
  | _ => False

theorem reads_command {program : String} {args : List String}
    (hd : isDeviceCommand (.spawn program args) = false) : Only Reads (command program args) :=
  (only_perform (A := Reads) (o := .spawn program args) hd).bind fun failure => by
    cases (failure : Option String) with
    | some reason => exact only_pure
    | none => exact only_perform (o := Effect.output) trivial

theorem reads_run {program : String} {args : List String}
    (hd : isDeviceCommand (.spawn program args) = false) : Only Reads (run program args) :=
  (reads_command hd).bind fun r => by split <;> exact only_pure

theorem reads_pmPathPresent (package : String) : Only Reads (pmPathPresent package) :=
  (reads_run (by simp [isDeviceCommand, pm, monkey, am])).bind fun r => by
    cases r <;> exact only_pure

theorem reads_guardWritablePackage (package : String) :
    Only Reads (guardWritablePackage package) :=
  (reads_pmPathPresent package).bind fun present => by
    split
    · refine (reads_run (by simp [isDeviceCommand, pm, monkey, am])).bind fun r => ?_
      cases r with
      | error e => exact only_pure
      | ok listing => dsimp only; split <;> exact only_pure
    · exact only_pure

theorem reads_currentPid (package : String) : Only Reads (currentPid package) :=
  (reads_run (by simp [isDeviceCommand, pidof, pm, monkey, am])).bind fun r => by
    cases r <;> exact only_pure

theorem reads_pollPid (package : String) (wantSome : Bool) :
    ∀ rounds, Only Reads (pollPid package wantSome rounds)
  | 0 => reads_currentPid package
  | rounds + 1 => by
      refine (reads_currentPid package).bind fun observed => ?_
      split
      · exact only_pure
      · split
        · exact only_pure
        · refine (only_perform (o := Effect.windowOver) trivial).bind fun late => ?_
          split
          · exact only_pure
          · exact (only_perform (o := Effect.sleep) trivial).bind fun _ =>
              reads_pollPid package wantSome rounds

theorem reads_waitForPid (package : String) (wantSome : Bool) :
    Only Reads (waitForPid package wantSome) := reads_pollPid package wantSome 20

/-- A program that only reads, wherever a write that missed runs it. -/
def Quiet (p : Write α) : Prop :=
  ∀ q s, s = .missed ∨ s = .commanded → Follows (discipline q) (fun s' _ => s' = s) s p

theorem moves_of_not_deviceCommand {e : Effect} (h : isDeviceCommand e = false) (r : Reply e) :
    moves e r = false := by
  cases e <;> simp_all [moves]

/-- An operation that is neither a ledger call nor a device command. -/
theorem stays_of_quiet {e : Effect} (hw : ∀ q, Writes q e) (hd : isDeviceCommand e = false)
    (hn : ∀ o v, e ≠ .remember o v) {s : Stage} (hs : s = .missed ∨ s = .commanded) :
    (discipline q).allowed s e ∧ ∀ r, (discipline q).next s e r = s := by
  have hm := moves_of_not_deviceCommand hd
  rcases hs with rfl | rfl
  · refine ⟨hw q, fun r => ?_⟩
    have hm := hm r
    cases e <;> simp_all [discipline, Stage.next]
  · refine ⟨⟨hw q, hd⟩, fun r => ?_⟩
    cases e <;> simp_all [discipline, Stage.next]

theorem quiet_perform {e : Effect} (hw : ∀ q, Writes q e) (hd : isDeviceCommand e = false)
    (hn : ∀ o v, e ≠ .remember o v) : Quiet (perform e : Write (Reply e)) := fun _ _ hs =>
  Only.follows (A := (· = e)) (fun _ ho => ho ▸ stays_of_quiet hw hd hn hs) (only_perform rfl)

theorem quiet_of_reads {p : Write α} (h : Only Reads p) : Quiet p := fun q s hs =>
  h.follows fun e he => by
    cases e with
    | spawn program args =>
        exact stays_of_quiet (e := .spawn program args) (fun _ => trivial) he (by simp) hs
    | output => exact stays_of_quiet (e := .output) (fun _ => trivial) rfl (by simp) hs
    | windowOver => exact stays_of_quiet (e := .windowOver) (fun _ => trivial) rfl (by simp) hs
    | sleep => exact stays_of_quiet (e := .sleep) (fun _ => trivial) rfl (by simp) hs
    | lookup | remember | prepare | body | bodyDone => exact he.elim

/-- What follows a program that only reads. -/
theorem Quiet.then {p : Write α} {f : α → Write β} {Q : Stage → β → Prop} {s : Stage}
    (hp : Quiet p) (hs : s = .missed ∨ s = .commanded)
    (hf : ∀ a, Follows (discipline q) Q s (f a)) : Follows (discipline q) Q s (p >>= f) := by
  rw [follows_bind]
  exact (hp q s hs).mono fun s' a (h : s' = s) => h ▸ hf a

/-! ### The writes -/

/-- `begin_write` and the lookup. -/
theorem withLedger_follows {method package : String} {write : Write (Except AgentError Value)}
    (h : Follows (discipline q) Final .missed write) :
    Follows (discipline q) Final .fresh (withLedger method package q.operationId write) := by
  unfold withLedger
  split
  · exact trivial
  · refine ⟨rfl, fun r => ?_⟩
    cases (r : Option Value) with
    | none => exact h
    | some cached => exact (rfl : Except.ok _ = Except.ok _)

/-- `finish_write`, and a success with the value it recorded. -/
theorem finishWrite_follows {s : Stage} (hs : s = .missed ∨ s = .commanded) {value : Value}
    (hv : Original value) {f : Value → Write (Except AgentError Value)}
    (hf : ∀ b, Follows (discipline q) Final (.recorded b value) (f value)) :
    Follows (discipline q) Final s (finishWrite q.operationId value >>= f) := by
  rcases hs with rfl | rfl
  · exact ⟨⟨rfl, hv⟩, fun _ => hf false⟩
  · exact ⟨⟨⟨rfl, hv⟩, rfl⟩, fun _ => hf true⟩

/-- A device command after a miss, spawned and awaited. -/
theorem command_follows {program : String} {args : List String}
    (hd : isDeviceCommand (.spawn program args) = true) {Q : Stage → β → Prop}
    {f : CommandOutcome → Write β} (hf : ∀ r, Follows (discipline q) Q .commanded (f r))
    (hfail : ∀ reason, Follows (discipline q) Q .missed (f (.unavailable reason))) :
    Follows (discipline q) Q .missed (command program args >>= f) := by
  refine ⟨trivial, fun failure => ?_⟩
  cases (failure : Option String) with
  | some reason =>
      have : (discipline q).next .missed (.spawn program args) (some reason) = .missed := by
        simp [discipline, Stage.next, moves]
      rw [this]
      exact hfail reason
  | none =>
      have : (discipline q).next .missed (.spawn program args) none = .commanded := by
        simp [discipline, Stage.next, moves, hd]
      rw [this]
      exact (quiet_of_reads (only_perform (o := Effect.output) trivial)).then (.inr rfl) hf

theorem runOk_follows {program : String} {args : List String}
    (hd : isDeviceCommand (.spawn program args) = true) {Q : Stage → β → Prop}
    {f : Except AgentError String → Write β}
    (hf : ∀ r, Follows (discipline q) Q .commanded (f r))
    (hfail : ∀ e, Follows (discipline q) Q .missed (f (.error e))) :
    Follows (discipline q) Q .missed (runOk program args >>= f) := by
  rw [follows_bind]
  refine command_follows hd (fun r => ?_) fun reason => hfail _
  split <;> exact hf _

theorem run_follows {program : String} {args : List String}
    (hd : isDeviceCommand (.spawn program args) = true) {Q : Stage → β → Prop}
    {f : Except AgentError String → Write β}
    (hf : ∀ r, Follows (discipline q) Q .commanded (f r))
    (hfail : ∀ e, Follows (discipline q) Q .missed (f (.error e))) :
    Follows (discipline q) Q .missed (run program args >>= f) := by
  rw [follows_bind]
  refine command_follows hd (fun r => ?_) fun reason => hfail _
  split <;> exact hf _

theorem launch_follows (package operationId : String) :
    Follows (discipline (.launch package operationId)) Final .fresh
      (launch package operationId) := by
  refine withLedger_follows (q := .launch package operationId) ?_
  refine (quiet_of_reads (reads_guardWritablePackage package)).then (.inl rfl) fun g => ?_
  cases g with
  | error e => exact trivial
  | ok =>
      refine runOk_follows rfl (fun r => ?_) fun e => trivial
      cases r with
      | error e => exact trivial
      | ok output =>
          dsimp only
          split
          · exact trivial
          · refine (quiet_of_reads (reads_waitForPid package true)).then (.inr rfl) fun found => ?_
            exact finishWrite_follows (q := .launch package operationId) (.inr rfl)
              (original_of_outcome (by simp) (PackageWriteResult.outcome_toValue _)) fun _ => rfl

theorem forceStop_follows (package operationId : String) :
    Follows (discipline (.forceStop package operationId)) Final .fresh
      (forceStop package operationId) := by
  refine withLedger_follows (q := .forceStop package operationId) ?_
  refine (quiet_of_reads (reads_guardWritablePackage package)).then (.inl rfl) fun g => ?_
  cases g with
  | error e => exact trivial
  | ok =>
      refine (quiet_of_reads (reads_waitForPid package false)).then (.inl rfl) fun before => ?_
      split
      · exact finishWrite_follows (q := .forceStop package operationId) (.inl rfl)
          (original_of_outcome (by simp) (PackageWriteResult.outcome_toValue _)) fun _ => rfl
      · refine runOk_follows rfl (fun r => ?_) fun e => trivial
        cases r with
        | error e => exact trivial
        | ok output =>
            refine (quiet_of_reads (reads_waitForPid package false)).then (.inr rfl) fun after => ?_
            exact finishWrite_follows (q := .forceStop package operationId) (.inr rfl)
              (original_of_outcome (by simp) (PackageWriteResult.outcome_toValue _)) fun _ => rfl

theorem uninstall_follows (package operationId : String) (keepData : Bool) (user : Option Nat) :
    Follows (discipline (.uninstall package operationId keepData user)) Final .fresh
      (uninstall package operationId keepData user) := by
  refine withLedger_follows (q := .uninstall package operationId keepData user) ?_
  refine (quiet_of_reads (reads_guardWritablePackage package)).then (.inl rfl) fun g => ?_
  cases g with
  | error e => exact trivial
  | ok =>
      refine run_follows (by simp [isDeviceCommand, uninstallArgs]) (fun r => ?_) fun e => trivial
      cases r with
      | error e => exact trivial
      | ok output =>
          dsimp only
          split
          · exact trivial
          · refine (quiet_of_reads (reads_pmPathPresent package)).then (.inr rfl) fun present => ?_
            refine finishWrite_follows (q := .uninstall package operationId keepData user)
              (.inr rfl) (original_of_outcome (by simp) (PackageUninstallResult.outcome_toValue _))
              fun _ => ?_
            cases present with
            | true => exact trivial
            | false => exact rfl

theorem sharedWrite_follows (q : WriteRequest) (method package : String) :
    Follows (discipline q) Final .fresh (sharedWrite method package q.operationId) := by
  refine ⟨trivial, fun refusal => ?_⟩
  cases (refusal : Option AgentError) with
  | some e => exact trivial
  | none =>
      refine withLedger_follows ⟨trivial, fun _ => ?_⟩
      change Follows (discipline q) Final .commanded (perform Effect.bodyDone >>= _)
      refine Quiet.then (quiet_perform (e := .bodyDone) (fun _ => trivial) rfl (by simp))
        (.inr rfl) fun r => ?_
      cases (r : Except AgentError SharedResult) with
      | error e => exact trivial
      | ok r =>
          refine finishWrite_follows (.inr rfl) (r.original_toValue _) fun _ => ?_
          cases r.unverified with
          | some e => exact trivial
          | none => exact rfl

/-- **Every write keeps its discipline.** -/
theorem handler_follows (q : WriteRequest) :
    Follows (discipline q) Final .fresh (handler q) := by
  cases q with
  | launch package operationId => exact launch_follows package operationId
  | forceStop package operationId => exact forceStop_follows package operationId
  | uninstall package operationId keepData user =>
      exact uninstall_follows package operationId keepData user
  | replaceNativeLibrary package operationId =>
      exact sharedWrite_follows (.replaceNativeLibrary ..) _ _
  | fridaServerStart package operationId => exact sharedWrite_follows (.fridaServerStart ..) _ _
  | fridaServerStop package operationId => exact sharedWrite_follows (.fridaServerStop ..) _ _

/-! ### What the log tells -/

/-- The entries of a log. -/
abbrev Event := Tasks.Event Effect Reply

/-- The stage write `i` has reached. -/
def progress (log : List Event) (i : Nat) : Stage := stage Stage.next .fresh log i

/-- Request `i` carries the id `o`. -/
def Carries (o : String) (p : Pool) (i : Nat) : Prop :=
  ∃ t, p.tasks i = some t ∧ t.request.operationId = o

/-- What an operation remembers. -/
def Effect.remembers : Effect → Option (String × Value)
  | .remember o v => some (o, v)
  | _ => none

/-- The pool after `i` performed `e`. -/
def after (p : Pool) (i : Nat) (q : WriteRequest) (e : Effect) (r : Reply e)
    (k : Reply e → Write (Except AgentError Value)) (sh : Shared) : Pool :=
  { (p.set i ⟨q, k r, true⟩) with shared := sh, log := p.log ++ [(i, ⟨e, r⟩)] }

section After

variable {o : String} {p : Pool} {i j : Nat} {q : WriteRequest} {e : Effect} {r : Reply e}
  {k : Reply e → Write (Except AgentError Value)} {sh : Shared}

theorem progress_after_same : progress (after p i q e r k sh).log i = (progress p.log i).next e r :=
  stage_snoc_same ..

theorem progress_after_ne (h : j ≠ i) :
    progress (after p i q e r k sh).log j = progress p.log j :=
  stage_snoc_ne _ _ _ h _

theorem tasks_after_ne (h : j ≠ i) : (after p i q e r k sh).tasks j = p.tasks j :=
  Pool.set_tasks_ne _ h _

theorem carries_after (hi : p.tasks i = some ⟨q, .op e k, true⟩) :
    Carries o (after p i q e r k sh) j ↔ Carries o p j := by
  by_cases hj : j = i
  · subst hj
    simp [Carries, after, hi]
  · simp [Carries, tasks_after_ne hj]

/-- What a write that performs an operation is allowed. -/
theorem allowed_of_conforms (hp : Conforms discipline .fresh (fun _ => Final) p)
    (hi : p.tasks i = some ⟨q, .op e k, true⟩) : Allowed q (progress p.log i) e :=
  (hp.1 i _ hi).1

/-- What a write that has answered ended in. -/
theorem final_of_answer (hp : Conforms discipline .fresh (fun _ => Final) p)
    {a : Except AgentError Value} (h : p.answer i = some a) : Final (progress p.log i) a := by
  obtain ⟨t, ht, ha⟩ := Option.bind_eq_some_iff.mp h
  obtain ⟨q, prog, live⟩ := t
  cases prog with
  | op e k => cases ha
  | ret b =>
      obtain rfl : b = a := by cases live <;> simp_all [Task.answer]
      exact hp.1 i _ ht

end After

end RevBox.Activity
