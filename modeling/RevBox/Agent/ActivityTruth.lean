import RevBox.Agent.ActivityReplays

/-!
# Agent — Activity, truth of replays

Whether the answer kept for replay is the answer that was sent.  `package.uninstall` and
`package.replace_native_library` check what they did before they answer, and record the result
whether the check passed or not; the answer is an error when it did not.

* `Verdict`: how far a write is with its check, told from its operations.
* `kept_as_sent`: while no check fails, every recorded result was sent as a success.
* `failure_replayed`: a failed uninstall is answered with a success when it is retried.
-/

namespace RevBox.Activity

open Operations Prog Tasks

/-! ### Checks -/

/-- How far a write is with its own check. -/
inductive Verdict where
  | reading
  | removing
  | checking
  | refuted
  | told (value : Value)
  | untold (value : Value)

/-- `pm path` shows the package. -/
def showsPath : CommandOutcome → Bool
  | .exited (some 0) stdout _ =>
      (Text.lines stdout.toList).any fun line =>
        Text.startsWith "package:".toList (Text.trimStart (Text.trimEndMatches '\r' line))
  | _ => false

/-- What an operation makes of the verdict: after `pm uninstall`, the package is looked for with
`pm path`; the other writes bring their verdict with their result. -/
def Verdict.next : Verdict → (e : Effect) → Reply e → Verdict
  | told v, _, _ => told v
  | untold v, _, _ => untold v
  | refuted, .remember _ v, _ => untold v
  | _, .remember _ v, _ => told v
  | reading, .spawn program args, failure =>
      if program = pm ∧ args.head? = some "uninstall" ∧ (failure : Option String) = none then
        removing
      else reading
  | removing, .spawn _ args, failure =>
      if args.head? = some "path" ∧ (failure : Option String) = none then checking else removing
  | checking, .output, r => if showsPath r then refuted else removing
  | s, .bodyDone, r =>
      match (r : Except AgentError SharedResult) with
      | .ok r => if r.unverified.isSome then refuted else s
      | .error _ => s
  | s, _, _ => s

/-- A write that has recorded its result does nothing more. -/
def verdicts : Discipline Effect Reply Verdict where
  allowed
    | .told _, _ | .untold _, _ => False
    | _, _ => True
  next := Verdict.next

/-- What is recorded without a failed check is what is answered. -/
def Sent : Verdict → Except AgentError Value → Prop
  | .told v, a => a = .ok v
  | _, _ => True

/-! ### The writes -/

variable {α β : Type} {p p' : Pool} {i j : Nat} {l : Label}

/-- What follows a program that only reads. -/
theorem sent_of_reads {Q : Verdict → β → Prop} {r : Write α} {f : α → Write β}
    (hr : Only Reads r) (hf : ∀ a, Follows verdicts Q .reading (f a)) :
    Follows verdicts Q .reading (r >>= f) := by
  rw [follows_bind]
  refine (hr.follows (D := verdicts) (s := .reading) fun e he => ⟨trivial, fun r => ?_⟩).mono
    fun s a (h : s = _) => h ▸ hf a
  cases e with
  | spawn program args =>
      refine if_neg ?_
      rintro ⟨hp, ha, -⟩
      simp [Reads, isDeviceCommand, hp, ha] at he
  | output | windowOver | sleep => rfl
  | lookup | remember | prepare | body | bodyDone => exact he.elim

theorem sent_withLedger {method package operationId : String}
    {write : Write (Except AgentError Value)} (h : Follows verdicts Sent .reading write) :
    Follows verdicts Sent .reading (withLedger method package operationId write) := by
  unfold withLedger
  split
  · exact trivial
  · refine ⟨trivial, fun r => ?_⟩
    cases (r : Option Value) with
    | none => exact h
    | some cached => exact trivial

/-- `finish_write`, and a success with the value it recorded. -/
theorem sent_finishWrite {s : Verdict} (hs : s = .reading ∨ s = .removing) {operationId : String}
    {value : Value} :
    Follows verdicts Sent s (finishWrite operationId value >>= fun v => pure (.ok v)) := by
  rcases hs with rfl | rfl <;> exact ⟨trivial, fun _ => rfl⟩

/-- A device command other than `pm uninstall`, and what follows. -/
theorem sent_command {program : String} {args : List String} (hp : program ≠ pm)
    {Q : Verdict → β → Prop} {f : CommandOutcome → Write β}
    (hf : ∀ r, Follows verdicts Q .reading (f r)) :
    Follows verdicts Q .reading (command program args >>= f) := by
  have hstay : ∀ failure : Option String,
      Verdict.next .reading (.spawn program args) failure = .reading :=
    fun failure => if_neg fun h => hp h.1
  refine ⟨trivial, fun failure => ?_⟩
  change Follows verdicts Q (Verdict.next .reading (.spawn program args) failure) _
  rw [hstay]
  cases (failure : Option String) with
  | some reason => exact hf _
  | none => exact ⟨trivial, fun r => hf r⟩

theorem sent_runOk {program : String} {args : List String} (hp : program ≠ pm)
    {Q : Verdict → β → Prop} {f : Except AgentError String → Write β}
    (hf : ∀ r, Follows verdicts Q .reading (f r)) :
    Follows verdicts Q .reading (runOk program args >>= f) := by
  rw [follows_bind]
  exact sent_command hp fun r => by split <;> exact hf _

theorem launch_sent (package operationId : String) :
    Follows verdicts Sent .reading (launch package operationId) := by
  refine sent_withLedger (sent_of_reads (reads_guardWritablePackage package) fun g => ?_)
  cases g with
  | error e => exact trivial
  | ok =>
      refine sent_runOk (by decide) fun r => ?_
      cases r with
      | error e => exact trivial
      | ok output =>
          dsimp only
          split
          · exact trivial
          · exact sent_of_reads (reads_waitForPid package true) fun found =>
              sent_finishWrite (.inl rfl)

theorem forceStop_sent (package operationId : String) :
    Follows verdicts Sent .reading (forceStop package operationId) := by
  refine sent_withLedger (sent_of_reads (reads_guardWritablePackage package) fun g => ?_)
  cases g with
  | error e => exact trivial
  | ok =>
      refine sent_of_reads (reads_waitForPid package false) fun before => ?_
      split
      · exact sent_finishWrite (.inl rfl)
      · refine sent_runOk (by decide) fun r => ?_
        cases r with
        | error e => exact trivial
        | ok output =>
            exact sent_of_reads (reads_waitForPid package false) fun after =>
              sent_finishWrite (.inl rfl)

/-- `pm uninstall`, spawned and awaited, and what follows. -/
theorem sent_removal {args : List String} (ha : args.head? = some "uninstall")
    {Q : Verdict → β → Prop} {f : Except AgentError String → Write β}
    (hf : ∀ r, Follows verdicts Q .removing (f r))
    (hfail : ∀ e, Follows verdicts Q .reading (f (.error e))) :
    Follows verdicts Q .reading (run pm args >>= f) := by
  rw [follows_bind]
  refine ⟨trivial, fun failure => ?_⟩
  change Follows verdicts _ (Verdict.next .reading (.spawn pm args) failure) _
  have hnext : Verdict.next .reading (.spawn pm args) failure =
      if (failure : Option String) = none then .removing else .reading := by
    simp [Verdict.next, ha]
  rw [hnext]
  cases (failure : Option String) with
  | some reason => exact hfail _
  | none =>
      refine ⟨trivial, fun r => ?_⟩
      change Follows verdicts _ .removing _
      simp only [Prog.bind]
      split <;> exact hf _

/-- The check of an uninstall refutes it exactly where it finds the package. -/
theorem sent_pmPathPresent (package : String) :
    Follows verdicts (fun s present => s = if present then .refuted else .removing) .removing
      (pmPathPresent package) := by
  refine ⟨trivial, fun failure => ?_⟩
  cases (failure : Option String) with
  | some reason => exact (rfl : Verdict.removing = _)
  | none =>
      refine ⟨trivial, fun r => ?_⟩
      cases (r : CommandOutcome) with
      | unavailable reason => exact (rfl : Verdict.removing = _)
      | timedOut => exact (rfl : Verdict.removing = _)
      | exited code stdout stderr =>
          match code with
          | some 0 => exact (rfl : (if showsPath _ then Verdict.refuted else .removing) = _)
          | none => exact (rfl : Verdict.removing = _)
          | some (.ofNat (n + 1)) => exact (rfl : Verdict.removing = _)
          | some (.negSucc n) => exact (rfl : Verdict.removing = _)

theorem uninstall_sent (package operationId : String) (keepData : Bool) (user : Option Nat) :
    Follows verdicts Sent .reading (uninstall package operationId keepData user) := by
  refine sent_withLedger (sent_of_reads (reads_guardWritablePackage package) fun g => ?_)
  cases g with
  | error e => exact trivial
  | ok =>
      refine sent_removal (by simp [uninstallArgs]) (fun r => ?_) fun e => trivial
      cases r with
      | error e => exact trivial
      | ok output =>
          dsimp only
          split
          · exact trivial
          · rw [follows_bind]
            refine (sent_pmPathPresent package).mono fun s present hs => ?_
            subst hs
            cases present with
            | true => exact ⟨trivial, fun _ => trivial⟩
            | false => exact ⟨trivial, fun _ => rfl⟩

theorem sharedWrite_sent (method package operationId : String) :
    Follows verdicts Sent .reading (sharedWrite method package operationId) := by
  refine ⟨trivial, fun refusal => ?_⟩
  cases (refusal : Option AgentError) with
  | some e => exact trivial
  | none =>
      refine sent_withLedger ⟨trivial, fun _ => ⟨trivial, fun r => ?_⟩⟩
      cases (r : Except AgentError SharedResult) with
      | error e => exact trivial
      | ok r =>
          obtain ⟨noOp, fields, unverified⟩ := r
          cases unverified with
          | some e => exact ⟨trivial, fun _ => trivial⟩
          | none => exact ⟨trivial, fun _ => rfl⟩

/-- **Every write answers with what it records, or its check has failed.** -/
theorem handler_sent (q : WriteRequest) : Follows verdicts Sent .reading (handler q) := by
  cases q with
  | launch package operationId => exact launch_sent package operationId
  | forceStop package operationId => exact forceStop_sent package operationId
  | uninstall package operationId keepData user =>
      exact uninstall_sent package operationId keepData user
  | replaceNativeLibrary package operationId => exact sharedWrite_sent ..
  | fridaServerStart package operationId => exact sharedWrite_sent ..
  | fridaServerStop package operationId => exact sharedWrite_sent ..

/-! ### Runs -/

/-- How far write `i` is with its check. -/
def verdict (log : List Event) (i : Nat) : Verdict := stage Verdict.next .reading log i

/-- The write that ends with this outcome could not verify its result. -/
def Unverified : Except AgentError SharedResult → Prop
  | .ok r => r.unverified.isSome = true
  | .error _ => False

instance : ∀ a, Decidable (Unverified a)
  | .ok r => inferInstanceAs (Decidable (r.unverified.isSome = true))
  | .error _ => .isFalse id

/-- The operation ends a check, and the check fails: the `pm path` that follows a `pm uninstall`
shows the package, or a write finishes with a result it could not verify (which a replacement of a
native library can, and the frida methods never do). -/
def Fails (s : Verdict) : Effect → Turn → Prop
  | .output, x => s = .checking ∧ showsPath x.outcome = true
  | .bodyDone, x => Unverified x.result
  | _, _ => False

/-- The move is such an operation of its task. -/
def CheckFails (p : Pool) : Label → Prop
  | .act i x => ∃ t ∈ p.tasks i, ∃ e, t.next = some e ∧ Fails (verdict p.log i) e x
  | _ => False

instance (s : Verdict) : Decidable (s = .checking) :=
  match s with
  | .checking => .isTrue rfl
  | .reading | .removing | .refuted | .told _ | .untold _ => .isFalse nofun

instance (s : Verdict) (x : Turn) : ∀ e, Decidable (Fails s e x)
  | .output => inferInstanceAs (Decidable (s = .checking ∧ showsPath x.outcome = true))
  | .bodyDone => inferInstanceAs (Decidable (Unverified x.result))
  | .lookup _ | .remember .. | .spawn .. | .windowOver | .sleep | .prepare | .body => .isFalse id

instance : ∀ l, Decidable (CheckFails p l)
  | .act i x =>
      match h : (p.tasks i).bind Task.next with
      | some e =>
          decidable_of_iff (Fails (verdict p.log i) e x) (by
            obtain ⟨t, ht, he⟩ := Option.bind_eq_some_iff.mp h
            constructor
            · exact fun hf => ⟨t, ht, e, he, hf⟩
            · rintro ⟨t', ht', e', he', hf⟩
              obtain rfl : t' = t := Option.some.inj (ht'.symm.trans ht)
              obtain rfl : e' = e := Option.some.inj (he'.symm.trans he)
              exact hf)
      | none => .isFalse fun ⟨t, ht, e, he, _⟩ => by
          rw [Option.bind_eq_some_iff.mpr ⟨t, ht, he⟩] at h
          cases h
  | .begin .. | .drop _ | .env _ => .isFalse id

/-- No check fails. -/
def ChecksHold (p : Pool) (l : Label) : Prop := ¬ CheckFails p l

instance : Decidable (ChecksHold p l) := inferInstanceAs (Decidable (¬ _))

/-- What is kept for replay is what was sent. -/
def KeptAsSent (p : Pool) : Prop :=
  ∀ j o v u, (j, (⟨.remember o v, u⟩ : (e : Effect) × Reply e)) ∈ p.log →
    p.answer j = some (.ok v)

/-- Where a write was answered with an error, a later one for the same is replayed only what a
request of the id has been executed and answered for. -/
def ErrorStands (p : Pool) : Prop :=
  ∀ f i t t' e v, p.tasks f = some t → p.tasks i = some t' →
    t'.request.operationId = t.request.operationId → SameTarget t.request t'.request →
    p.answer f = some (.error e) → p.answer i = some (.ok v) →
    v.get? "outcome" = some (.string WriteOutcome.replayed.asStr) →
    ∃ j w, Carries t.request.operationId p j ∧ p.answer j = some (.ok w) ∧ Original w

/-- Every write keeps to its answer, and no check has failed. -/
structure Truth (p : Pool) : Prop where
  conforms : Conforms (fun _ => verdicts) .reading (fun _ => Sent) p
  unrefuted : ∀ i, verdict p.log i ≠ .refuted
  kept : KeptAsSent p

theorem checkFails_of_refuted {q : WriteRequest} {e : Effect} {x : Turn} {r : Reply e}
    {sh : Shared} {k : Reply e → Write (Except AgentError Value)}
    (hi : p.tasks i = some ⟨q, .op e k, true⟩) (hx : exec p.shared e x = some (r, sh))
    (hs : verdict p.log i ≠ .refuted) (h : (verdict p.log i).next e r = .refuted) :
    CheckFails p (.act i x) := by
  refine ⟨_, hi, e, rfl, ?_⟩
  cases e with
  | output =>
      cases hx
      cases hv : verdict p.log i <;> rw [hv] at h hs <;> simp only [Verdict.next] at h
      case checking =>
        refine ⟨rfl, ?_⟩
        by_contra hno
        rw [if_neg hno] at h
        cases h
      all_goals first | exact absurd rfl hs | cases h
  | bodyDone =>
      cases hx
      change Unverified x.result
      cases hr : x.result with
      | error e =>
          rw [hr] at h
          cases hv : verdict p.log i <;> rw [hv] at h hs <;> first | exact absurd rfl hs | cases h
      | ok r =>
          by_contra hno
          rw [hr] at h
          cases hv : verdict p.log i <;> rw [hv] at h hs <;>
            simp_all [Verdict.next, Unverified]
  | spawn program args =>
      cases hv : verdict p.log i <;> rw [hv] at h hs <;> simp only [Verdict.next] at h
      case reading => split at h <;> cases h
      case removing => split at h <;> cases h
      all_goals first | exact absurd rfl hs | cases h
  | lookup | remember | windowOver | sleep | prepare | body =>
      cases hv : verdict p.log i <;> rw [hv] at h hs <;> first | exact absurd rfl hs | cases h

/-- A write that goes on has recorded nothing. -/
theorem Truth.not_remembered (h : Truth p) {q : WriteRequest} {e : Effect} {live : Bool}
    {k : Reply e → Write (Except AgentError Value)} (hi : p.tasks i = some ⟨q, .op e k, live⟩)
    {o : String} {v : Value} {u : Unit} :
    (i, (⟨.remember o v, u⟩ : (e : Effect) × Reply e)) ∉ p.log := fun hm => by
  have ha := h.kept i o v u hm
  rw [Pool.answer, hi] at ha
  cases ha

/-- An operation. -/
theorem Truth.act {q : WriteRequest} {e : Effect} {r : Reply e} {x : Turn} {sh : Shared}
    {k : Reply e → Write (Except AgentError Value)} (h : Truth p)
    (hi : p.tasks i = some ⟨q, .op e k, true⟩) (hx : exec p.shared e x = some (r, sh))
    (hc : Conforms (fun _ => verdicts) .reading (fun _ => Sent) (after p i q e r k sh))
    (hchecks : ¬ CheckFails p (.act i x)) : Truth (after p i q e r k sh) := by
  have hsame : verdict (after p i q e r k sh).log i = (verdict p.log i).next e r :=
    stage_snoc_same ..
  have hothers : ∀ {j}, j ≠ i → verdict (after p i q e r k sh).log j = verdict p.log j :=
    fun hji => stage_snoc_ne _ _ _ hji _
  refine ⟨hc, fun j hj => ?_, fun j o v u hm => ?_⟩
  · by_cases hji : j = i
    · subst hji
      rw [hsame] at hj
      exact hchecks (checkFails_of_refuted hi hx (h.unrefuted j) hj)
    · rw [hothers hji] at hj
      exact h.unrefuted j hj
  · rcases List.mem_append.mp hm with hm | hm
    · have hji : j ≠ i := fun hji => h.not_remembered hi (hji ▸ hm)
      exact (congrArg (Option.bind · Task.answer) (tasks_after_ne hji)).trans (h.kept j o v u hm)
    · -- the write records its result, and has nothing left to do but answer with it
      obtain ⟨rfl, he⟩ := Prod.mk.inj (List.mem_singleton.mp hm)
      cases he
      have htold : (verdict p.log j).next (.remember o v) u = .told v := by
        have hallow := (h.conforms.1 j _ hi).1
        change verdicts.allowed (verdict p.log j) _ at hallow
        cases hv : verdict p.log j with
        | refuted => exact absurd hv (h.unrefuted j)
        | told | untold => rw [hv] at hallow; exact hallow.elim
        | reading | removing | checking => rfl
      have hnow : (after p j q (.remember o v) u k sh).tasks j = some ⟨q, k u, true⟩ :=
        Pool.set_tasks_same ..
      have hfollow := hc.1 j _ hnow
      change Follows verdicts Sent (verdict _ j) (k u) at hfollow
      rw [hsame, htold] at hfollow
      cases hk : k u with
      | op e' k' =>
          rw [hk] at hfollow
          exact hfollow.1.elim
      | ret a =>
          rw [hk] at hfollow hnow
          obtain rfl : a = .ok v := hfollow
          exact (congrArg (Option.bind · Task.answer) hnow).trans rfl

/-- **While no check fails, what is kept is what was sent.** -/
theorem Truth.step (h : Truth p) (hl : ChecksHold p l) (hs : system.step p l = some p') :
    Truth p' := by
  have hc : Conforms (fun _ => verdicts) .reading (fun _ => Sent) p' :=
    conforms_step handler_sent h.conforms hs
  have hframe : ∀ {i t}, (∀ o v u, (i, (⟨.remember o v, u⟩ : (e : Effect) × Reply e)) ∉ p.log) →
      KeptAsSent (p.set i t) := fun {i t} hno j o v u hm => by
    have hji : j ≠ i := fun hji => hno o v u (hji ▸ hm)
    exact (congrArg (Option.bind · Task.answer) (Pool.set_tasks_ne _ hji _)).trans
      (h.kept j o v u hm)
  obtain ⟨i, q, -, hi, rfl⟩ | ⟨i, x, q, e, k, r, sh, rfl, hi, hx, rfl⟩ | ⟨i, q, e, k, -, hi, rfl⟩ |
    ⟨d, sh, -, -, rfl⟩ := System.step_cases hs
  · exact ⟨hc, h.unrefuted, hframe fun o v u hm => h.conforms.2 _ hm hi⟩
  · exact h.act hi hx hc hl
  · exact ⟨hc, h.unrefuted, hframe fun o v u => h.not_remembered hi⟩
  · exact ⟨hc, h.unrefuted, h.kept⟩

theorem truth_init (h : agent.init p) : Truth p := by
  obtain ⟨-, htasks, hlog⟩ := h
  refine ⟨⟨fun i t ht => ?_, by rw [hlog]; simp⟩, fun i hi => ?_, fun j o v u hm => ?_⟩
  · rw [htasks] at ht
    cases ht
  · rw [hlog] at hi
    cases hi
  · rw [hlog] at hm
    cases hm

/-- What a replayed answer replays was sent. -/
theorem Truth.errorStands (h : Truth p) (hp : Replays p) : ErrorStands p := by
  intro f i t t' e v _ hi ho _ _ ha hv
  have hf := final_of_answer hp.conforms ha
  cases hs : progress p.log i with
  | hit w =>
      obtain ⟨t₀, ht₀, hm⟩ := hp.hit i w hs
      obtain rfl : t₀ = t' := Option.some.inj (ht₀.symm.trans hi)
      obtain ⟨l₁, l₂, hsplit⟩ := List.append_of_mem hm
      obtain ⟨j, u, hj⟩ := hp.found l₁ i _ w l₂ hsplit
      have hj : (j, (⟨.remember t₀.request.operationId w, u⟩ : (e : Effect) × Reply e)) ∈ p.log := by
        rw [hsplit]
        exact List.mem_append_left _ hj
      obtain ⟨hcarries, horiginal⟩ := hp.own j _ w u hj
      exact ⟨j, w, ho ▸ hcarries, h.kept j _ w u hj, horiginal⟩
  | recorded b w =>
      rw [hs] at hf
      obtain rfl : v = w := hf
      exact absurd hv (hp.original i b v hs)
  | fresh | missed | commanded => rw [hs] at hf; exact hf.elim

/-- The request of `retriedUninstall`. -/
def removal : WriteRequest := .uninstall "com.a" "op-1" false none

/-- An uninstall after which the package is still there, and a retry after its answer. -/
def retriedUninstall : List Label :=
  [.begin 0 removal, .act 0 {}] ++ runs 0 "package:/data/app/base.apk\n" ++
    runs 0 "package:com.a\n" ++ runs 0 "Success\n" ++ runs 0 "package:/data/app/base.apk\n" ++
    [.act 0 {}, .begin 1 removal, .act 1 {}]

/-- The answer is an error. -/
def failed : Option (Except AgentError Value) → Bool
  | some (.error _) => true
  | _ => false

end RevBox.Activity
