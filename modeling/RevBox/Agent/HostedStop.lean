import RevBox.Agent.Hosted
import RevBox.Support.Trace

/-!
# Agent — HostedStop

What `hosted.stop` does to the phone, told from its traces: whatever table it is called with and
whatever `/proc` answers, it signals the process of its record or nobody.

* `stop_identity_safety`: a signal goes out once at most, to the recorded pid, and only after the
  start time read for that pid was the recorded one, or could not be read while the Agent still
  holds the child; a refusal touches neither the table nor a record on disk.
-/

namespace RevBox.Hosted

open Proc Prog

/-- An operation performed, with its reply. -/
abbrev Event := (o : Op) × Reply o

/-- The signals a trace sends, oldest first. -/
def signals (es : List Event) : List (Nat × KillSignal) :=
  es.filterMap fun e =>
    match e.1 with
    | .kill pid signal => some (pid, signal)
    | _ => none

/-- The operation sends no signal. -/
def Silent : Op → Prop
  | .kill _ _ => False
  | _ => True

/-- The operation leaves the records on disk alone. -/
def Spares : Op → Prop
  | .removeRecord _ | .persist _ => False
  | _ => True

/-- The operation does neither. -/
def Looks (o : Op) : Prop := Silent o ∧ Spares o

/-- The start time a read of `/proc/<pid>/stat` gives. -/
def ticksRead : Except String (List Char) → Option Nat
  | .ok text => parseStartTimeTicks text
  | .error _ => none

theorem signals_append (es es' : List Event) : signals (es ++ es') = signals es ++ signals es' :=
  List.filterMap_append ..

/-- A silent trace sends nothing. -/
theorem signals_eq_nil {es : List Event} (h : ∀ e ∈ es, Silent e.1) : signals es = [] := by
  refine List.filterMap_eq_nil_iff.mpr fun e he => ?_
  have hs := h e he
  obtain ⟨o, r⟩ := e
  cases o <;> first | rfl | exact hs.elim

/-! ### The parts -/

theorem readStartTimeTicks_looks (pid : Nat) : Only Looks (readStartTimeTicks pid) := by
  refine ⟨⟨trivial, trivial⟩, fun r => ?_⟩
  cases r <;> exact trivial

theorem reconcile_looks (ticks pid : Nat) : Only Looks (reconcile ticks pid) := by
  unfold reconcile
  split
  · exact trivial
  · refine (readStartTimeTicks_looks pid).bind fun observed => ?_
    cases observed with
    | some t =>
        dsimp only
        split <;> exact trivial
    | none =>
        refine ⟨⟨trivial, trivial⟩, fun r => ?_⟩
        cases r <;> exact trivial

theorem deadNow_looks (pid : Nat) : Only Looks (deadNow pid) := by
  refine ⟨⟨trivial, trivial⟩, fun r => ?_⟩
  cases r <;> exact trivial

theorem pollRounds_looks (pid : Nat) : ∀ rounds, Only Looks (pollRounds pid rounds)
  | 0 => deadNow_looks pid
  | rounds + 1 => by
      refine (deadNow_looks pid).bind fun dead => ?_
      cases dead with
      | true => exact trivial
      | false =>
          refine ⟨⟨trivial, trivial⟩, fun r => ?_⟩
          cases r with
          | true => exact trivial
          | false => exact pollRounds_looks pid rounds

theorem reap_looks (run : ManagedRun) : Only Looks (reap run) := by
  unfold reap
  split
  · exact trivial
  · refine ⟨⟨trivial, trivial⟩, fun r => ?_⟩
    cases r <;> exact trivial

theorem loadRuns_silent : ∀ (stems : List String) (t : Table), Only Silent (loadRuns stems t)
  | [], _ => trivial
  | stem :: rest, t => by
      refine ⟨trivial, fun r => ?_⟩
      cases r with
      | unreadable => exact loadRuns_silent rest t
      | garbled => exact ⟨trivial, fun _ => loadRuns_silent rest t⟩
      | stored record =>
          refine Only.bind (p := loadRun record) ?_ fun run => loadRuns_silent rest _
          exact ((reconcile_looks _ _).mono fun _ h => h.1).bind fun _ => trivial

/-- Loading sends no signal. -/
theorem ensureLoaded_silent (t : Table) : Only Silent (ensureLoaded t) := by
  unfold ensureLoaded
  split
  · exact trivial
  · refine (only_perform trivial).bind fun r => ?_
    cases r with
    | ok stems => exact (loadRuns_silent stems _).bind fun _ => trivial
    | error error =>
        dsimp only
        split <;> exact trivial

/-- Loading deletes no record it could read. -/
def SparesRecords (es : List Event) : Prop :=
  (∀ record u, (⟨.persist record, u⟩ : Event) ∉ es) ∧
    ∀ stem u, (⟨.removeRecord stem, u⟩ : Event) ∈ es →
      (⟨.readRecord stem, .garbled⟩ : Event) ∈ es

theorem sparesRecords_of_spares {es : List Event} (h : ∀ e ∈ es, Spares e.1) :
    SparesRecords es :=
  ⟨fun _ _ he => h _ he, fun _ _ he => (h _ he).elim⟩

theorem SparesRecords.append {es es' : List Event} (h : SparesRecords es)
    (h' : SparesRecords es') : SparesRecords (es ++ es') := by
  refine ⟨fun record u he => ?_, fun stem u he => ?_⟩
  · rcases List.mem_append.mp he with he | he
    · exact h.1 record u he
    · exact h'.1 record u he
  · rcases List.mem_append.mp he with he | he
    · exact List.mem_append_left _ (h.2 stem u he)
    · exact List.mem_append_right _ (h'.2 stem u he)

theorem loadRuns_spares : ∀ {stems : List String} {t t' : Table} {es : List Event},
    Trace (loadRuns stems t) es t' → SparesRecords es
  | [], _, _, es, h => by
      rw [(trace_pure.mp h).1]
      exact sparesRecords_of_spares (by simp)
  | stem :: rest, t, t', es, h => by
      replace h := trace_perform_bind.mp h
      obtain ⟨r, es', rfl, h⟩ := h
      have one : SparesRecords [(⟨.readRecord stem, r⟩ : Event)] :=
        sparesRecords_of_spares (by simp [Spares])
      cases r with
      | unreadable => exact one.append (loadRuns_spares h)
      | garbled =>
          replace h := trace_perform_bind.mp h
          obtain ⟨u, es'', rfl, h⟩ := h
          have two : SparesRecords [(⟨.readRecord stem, .garbled⟩ : Event),
              ⟨.removeRecord stem, u⟩] := by
            refine ⟨fun record u' he => by simp at he, fun stem' u' he => ?_⟩
            have hs : stem' = stem := by
              rcases List.mem_cons.mp he with he | he
              · cases he
              · cases List.mem_singleton.mp he
                rfl
            simp [hs]
          exact two.append (loadRuns_spares h)
      | stored record =>
          obtain ⟨es₁, run, es₂, rfl, h₁, h₂⟩ := trace_bind.mp h
          have hlook : Only Looks (loadRun record) := (reconcile_looks _ _).bind fun _ => trivial
          exact one.append ((sparesRecords_of_spares fun e he => (hlook.trace h₁ e he).2).append
            (loadRuns_spares h₂))

theorem ensureLoaded_spares {t : Table} {r : Except AgentError Table} {es : List Event}
    (h : Trace (ensureLoaded t) es r) : SparesRecords es := by
  unfold ensureLoaded at h
  split at h
  · rw [(trace_pure.mp h).1]
    exact sparesRecords_of_spares (by simp)
  · replace h := trace_perform_bind.mp h
    obtain ⟨reply, es', rfl, h⟩ := h
    have one : SparesRecords [(⟨.listStateDir, reply⟩ : Event)] :=
      sparesRecords_of_spares (by simp [Spares])
    suffices hrest : SparesRecords es' from one.append hrest
    cases reply with
    | ok stems =>
        obtain ⟨es₁, t₁, es₂, rfl, h₁, h₂⟩ := trace_bind.mp h
        rw [(trace_pure.mp h₂).1, List.append_nil]
        exact loadRuns_spares h₁
    | error error =>
        have hes : es' = [] := by
          dsimp only at h
          split at h <;> exact (trace_pure.mp h).1
        rw [hes]
        exact sparesRecords_of_spares (by simp)

/-- A loaded table is left as it is. -/
theorem ensureLoaded_loaded {t : Table} {r : Except AgentError Table} {es : List Event}
    (ht : t.loaded = true) (h : Trace (ensureLoaded t) es r) : es = [] ∧ r = .ok t := by
  rw [ensureLoaded, if_pos ht] at h
  obtain ⟨hes, hr⟩ := trace_pure.mp h
  exact ⟨hes, hr.symm⟩

/-! ### `stop` -/

variable {t t' : Table} {p : StopParams} {run : ManagedRun} {es : List Event}
  {r : Except AgentError StopResult}

/-- The answer changes nothing: the table is `t`, and no record on disk was touched. -/
def Unchanged (t t' : Table) (es : List Event) : Prop := t' = t ∧ ∀ e ∈ es, Spares e.1

theorem alreadyGone_trace {detail : String} {verified : Bool}
    (h : Trace (alreadyGone t run detail verified) es (t', r)) :
    signals es = [] ∧ ∀ e, r ≠ .error e := by
  replace h := trace_perform_bind.mp h
  obtain ⟨u, es', rfl, h⟩ := h
  replace h := trace_pure.mp h
  obtain ⟨rfl, h⟩ := h
  cases h
  exact ⟨rfl, fun e => by simp⟩

/-- `send_signal` signals the pid it is given, once at most. -/
theorem sendSignal_trace {pid : Nat} {signal : KillSignal} {result : SignalResult}
    (h : Trace (sendSignal pid signal) es result) :
    (signals es = [] ∨ signals es = [(pid, signal)]) ∧ ∀ e ∈ es, Spares e.1 := by
  unfold sendSignal at h
  split at h
  · rw [(trace_pure.mp h).1]
    exact ⟨.inl rfl, by simp⟩
  · rename_i hraw
    have hpid := rawPid_of_ne_zero hraw
    replace h := trace_perform_bind.mp h
    obtain ⟨errno, es', rfl, h⟩ := h
    rw [(trace_pure.mp h).1]
    refine ⟨.inr ?_, by simp [Spares]⟩
    simp [signals, hpid]

/-- From its signal on, `stop` signals the recorded pid, once at most. -/
theorem stopSignal_trace {verified : Bool} (h : Trace (stopSignal t p run verified) es (t', r)) :
    (signals es = [] ∨ signals es = [(run.record.pid, p.signal)]) ∧
      ∀ e, r = .error e → Unchanged t t' es := by
  replace h := trace_bind.mp h
  obtain ⟨es₁, result, es₂, rfl, h₁, h⟩ := h
  obtain ⟨hsig, hspare⟩ := sendSignal_trace h₁
  -- nothing after `send_signal` sends a signal
  suffices hrest : signals es₂ = [] ∧ ∀ e, r = .error e → Unchanged t t' es₂ by
    obtain ⟨hnil, hrest⟩ := hrest
    refine ⟨by rw [signals_append, hnil, List.append_nil]; exact hsig, fun e he => ?_⟩
    obtain ⟨ht, hes⟩ := hrest e he
    exact ⟨ht, fun ev hev => (List.mem_append.mp hev).elim (hspare ev) (hes ev)⟩
  cases result with
  | gone =>
      obtain ⟨hnil, hok⟩ := alreadyGone_trace h
      exact ⟨hnil, fun e he => (hok e he).elim⟩
  | denied =>
      replace h := trace_perform_bind.mp h
      obtain ⟨uid, es', rfl, h⟩ := h
      replace h := trace_pure.mp h
      obtain ⟨rfl, h⟩ := h
      cases h
      exact ⟨rfl, fun _ _ => ⟨rfl, by simp [Spares]⟩⟩
  | failed errno =>
      replace h := trace_pure.mp h
      obtain ⟨rfl, h⟩ := h
      cases h
      exact ⟨rfl, fun _ _ => ⟨rfl, by simp⟩⟩
  | sent =>
      replace h := trace_bind.mp h
      obtain ⟨es₁', dead, es₂', rfl, hpoll, h⟩ := h
      have hquiet := signals_eq_nil fun e he => ((pollRounds_looks _ 30).trace hpoll e he).1
      cases dead with
      | true =>
          replace h := trace_bind.mp h
          obtain ⟨es₃, run', es₄, rfl, hreap, h⟩ := h
          have hquiet' := signals_eq_nil fun e he => ((reap_looks run).trace hreap e he).1
          replace h := trace_perform_bind.mp h
          obtain ⟨u, es₅, rfl, h⟩ := h
          replace h := trace_pure.mp h
          obtain ⟨rfl, h⟩ := h
          cases h
          refine ⟨?_, fun e he => by cases he⟩
          rw [signals_append, signals_append, hquiet, hquiet']
          rfl
      | false =>
          replace h := trace_pure.mp h
          obtain ⟨rfl, h⟩ := h
          cases h
          refine ⟨?_, fun e he => by cases he⟩
          rw [List.append_nil, hquiet]

/-- The trace reads the start time of the process of the record under `p.handle`, the one the
caller expects, and tells from it that the process is the recorded one, or cannot tell while the
Agent holds the child; then it signals that process. -/
def Identified (t : Table) (p : StopParams) (es : List Event) : Prop :=
  ∃ run reply rest, t.get? p.handle = some run ∧
    (∀ expected, p.expectedPid = some expected → expected = run.record.pid) ∧
    es = ⟨.readStat run.record.pid, reply⟩ :: rest ∧
    signals rest = [(run.record.pid, p.signal)] ∧
    (ticksRead reply = some run.record.startTimeTicks ∨
      ticksRead reply = none ∧ run.child.isSome = true)

/-- What `stop` of a run does. -/
theorem stopRun_trace (hget : t.get? p.handle = some run)
    (hexp : ∀ expected, p.expectedPid = some expected → expected = run.record.pid)
    (h : Trace (stopRun t p run) es (t', r)) :
    (signals es = [] ∨ Identified t p es) ∧ ∀ e, r = .error e → Unchanged t t' es := by
  replace h := trace_bind.mp h
  obtain ⟨es₁, observed, es₂, rfl, h₁, h⟩ := h
  obtain ⟨reply, rfl, hread⟩ : ∃ reply, es₁ = [⟨.readStat run.record.pid, reply⟩] ∧
      ticksRead reply = observed := by
    replace h₁ := trace_perform_bind.mp h₁
    obtain ⟨reply, es', rfl, h₁⟩ := h₁
    cases reply with
    | ok text =>
        replace h₁ := trace_pure.mp h₁
        obtain ⟨rfl, h₁⟩ := h₁
        exact ⟨_, rfl, h₁⟩
    | error text =>
        replace h₁ := trace_pure.mp h₁
        obtain ⟨rfl, h₁⟩ := h₁
        exact ⟨_, rfl, h₁⟩
  -- a signal sent after the read is one `stop` may send, if the read allowed it
  have key : ∀ {verified}, Trace (stopSignal t p run verified) es₂ (t', r) →
      (observed = some run.record.startTimeTicks ∨ observed = none ∧ run.child.isSome = true) →
      (signals ([⟨.readStat run.record.pid, reply⟩] ++ es₂) = [] ∨
        Identified t p ([⟨.readStat run.record.pid, reply⟩] ++ es₂)) ∧
        ∀ e, r = .error e → Unchanged t t' ([⟨.readStat run.record.pid, reply⟩] ++ es₂) := by
    intro verified h hid
    obtain ⟨hsig, herr⟩ := stopSignal_trace h
    refine ⟨?_, fun e he => ⟨(herr e he).1, fun ev hev => ?_⟩⟩
    · rcases hsig with hsig | hsig
      · exact .inl hsig
      · exact .inr ⟨run, reply, es₂, hget, hexp, rfl, hsig, hread ▸ hid⟩
    · rcases List.mem_cons.mp hev with rfl | hev
      · exact trivial
      · exact (herr e he).2 ev hev
  cases observed with
  | some ticks =>
      by_cases heq : ticks = run.record.startTimeTicks
      · simp only [heq, if_pos] at h
        exact key h (.inl (by rw [heq]))
      · simp only [if_neg heq] at h
        obtain ⟨hnil, hok⟩ := alreadyGone_trace h
        exact ⟨.inl hnil, fun e he => (hok e he).elim⟩
  | none =>
      by_cases hchild : run.child.isSome = true
      · simp only [hchild, if_pos] at h
        exact key h (.inr ⟨rfl, hchild⟩)
      · simp only [if_neg hchild] at h
        replace h := trace_perform_bind.mp h
        obtain ⟨there, es₃, rfl, h⟩ := h
        cases there with
        | true =>
            replace h := trace_pure.mp h
            obtain ⟨rfl, h⟩ := h
            cases h
            exact ⟨.inl rfl, fun _ _ => ⟨rfl, by simp [Spares]⟩⟩
        | false =>
            obtain ⟨hnil, hok⟩ := alreadyGone_trace h
            exact ⟨.inl hnil, fun e he => (hok e he).elim⟩

/-- What `stop` does with a loaded table. -/
theorem stopLoaded_trace (h : Trace (stopLoaded t p) es (t', r)) :
    (signals es = [] ∨ Identified t p es) ∧ ∀ e, r = .error e → Unchanged t t' es := by
  unfold stopLoaded at h
  split at h
  · obtain ⟨rfl, h⟩ := trace_pure.mp h
    cases h
    exact ⟨.inl rfl, fun _ _ => ⟨rfl, by simp⟩⟩
  · rename_i run hget
    split at h
    · rename_i expected hexp
      split at h
      · obtain ⟨rfl, h⟩ := trace_pure.mp h
        cases h
        exact ⟨.inl rfl, fun _ _ => ⟨rfl, by simp⟩⟩
      · rename_i heq
        refine stopRun_trace hget (fun e he => ?_) h
        rw [hexp] at he
        cases he
        exact not_not.mp heq
    · rename_i hexp
      exact stopRun_trace hget (fun e he => by rw [hexp] at he; cases he) h

/-- The trace of a `stop` that answers `r` and leaves the table `t'`: that of loading the table,
which does nothing to a table that is loaded, and that of stopping the run in the table `t₁`
loading left.  Loading sends no signal and touches no record it can read; after it a signal goes
out at most once, to the recorded pid, after the read that identifies the process; and an error
leaves `t₁` and the records on disk as they are. -/
def SafeStop (t : Table) (p : StopParams) (es : List Event) (t' : Table)
    (r : Except AgentError StopResult) : Prop :=
  ∃ es₁ loaded es₂, es = es₁ ++ es₂ ∧ Trace (ensureLoaded t) es₁ loaded ∧
    (t.loaded = true → es₁ = [] ∧ loaded = .ok t) ∧ signals es₁ = [] ∧ SparesRecords es₁ ∧
    match loaded with
    | .error e => es₂ = [] ∧ t' = t ∧ r = .error e
    | .ok t₁ => (signals es₂ = [] ∨ Identified t₁ p es₂) ∧
        ∀ e, r = .error e → Unchanged t₁ t' es₂

/-- **`hosted.stop` signals the recorded process or nobody**, whatever its table, its parameters
and the answers of `/proc`. -/
theorem stop_identity_safety (h : Trace (stop t p) es (t', r)) : SafeStop t p es t' r := by
  obtain ⟨es₁, loaded, es₂, rfl, h₁, h₂⟩ := trace_bind.mp h
  refine ⟨es₁, loaded, es₂, rfl, h₁, fun ht => ensureLoaded_loaded ht h₁,
    signals_eq_nil ((ensureLoaded_silent t).trace h₁), ensureLoaded_spares h₁, ?_⟩
  cases loaded with
  | error e =>
      obtain ⟨hes, heq⟩ := trace_pure.mp h₂
      cases heq
      exact ⟨hes, rfl, rfl⟩
  | ok t₁ => exact stopLoaded_trace h₂

/-- A run of the Agent's own, its start time recorded as 4200 ticks. -/
def serverRun : ManagedRun where
  record := ⟨"a1", "server", 321, 4200, 1700000000, "/data/local/tmp/.server.run.log", [],
    some .none, false, .running, none, none⟩
  child := some 7
  stdin := none
  source := .spawned

/-- The start time cannot be read, but the child is held: it is signalled, and found dead. -/
theorem heldChild_signalled :
    SafeStop ((Table.empty.insert serverRun).markLoaded) ⟨"a1", some 321, .kill⟩
      [⟨.readStat 321, .error "Too many open files"⟩, ⟨.kill 321 .kill, none⟩,
        ⟨.pollStat 321, .error "No such file"⟩, ⟨.tryWait 7, .exited none (some 9)⟩,
        ⟨.removeRecord "a1", ()⟩]
      (((Table.empty.insert serverRun).markLoaded).put { serverRun with
        record := { serverRun.record.withExit none (some 9) with state := .exited }, child := none })
      (.ok ⟨{ serverRun.record.withExit none (some 9) with state := .exited }, .signaled, false,
        true⟩) :=
  stop_identity_safety ⟨_, rfl, _, rfl, _, rfl, _, rfl, _, rfl, rfl⟩

end RevBox.Hosted
