import RevBox.Agent.HostedWorld
import RevBox.Support.Trace

/-!
# Agent — HostedSpecs

One statement for each method of `HostedProvider`, and for each part of one, about everything it
can do to the run table and to the phone, whatever happens on the phone meanwhile.

* `reconcile_safe`, `refresh_safe`, `stopLoaded_safe`: a record is put down as exited for a
  reason; `Honest` says which.
* `ensureLoaded_safe`, `startLaunch_safe`, `adoptCommit_safe`: where the runs of a table come from.
-/

namespace RevBox.Hosted

open Proc Prog Device Surroundings

variable {ok : Choice → Prop} {w : World}

/-- The program, begun in `w`, ends with `Q`. -/
abbrev Ends (ok : Choice → Prop) (w : World) {α : Type} (p : Call α) (Q : α → World → Prop) : Prop :=
  phone.Safe Waited ok Q w p

/-- The rule of one operation. -/
theorem ends_op {α : Type} {o : Op} {k : Reply o → Call α} {Q : α → World → Prop}
    (h : ∀ w₁, Waited w w₁ → ∀ x, ok x → ∀ r w₂, w₁.perform o x = some (r, w₂) →
      Ends ok w₂ (k r) Q) : Ends ok w (perform o >>= k) Q := h

/-- The rule of sequencing. -/
theorem ends_bind {α β : Type} {p : Call α} {f : α → Call β} {Q : β → World → Prop}
    {R : α → World → Prop} (hp : Ends ok w p R) (hf : ∀ a w', R a w' → Ends ok w' (f a) Q) :
    Ends ok w (p >>= f) Q :=
  (safe_bind f p).mpr (hp.mono hf)

theorem ends_pure {α : Type} {a : α} {Q : α → World → Prop} (h : Q a w) :
    Ends ok w (pure a : Call α) Q := h

/-! ### Telling whether a process is gone -/

variable {pid ticks : Nat}

/-- Of a process that runs on, the start time is read right, or the read fails. -/
theorem readStartTimeTicks_safe : Ends ok w (readStartTimeTicks pid) fun observed w' =>
    Waited w w' ∧ ∀ b t, Known w.kernel b pid t → w'.kernel.Alive b →
      observed = some t ∨ observed = none ∧ ∃ text, ok (.unreadable text) := by
  refine ends_op fun w₁ hw x hx r w₂ hr => ?_
  obtain ⟨rfl, hread⟩ := readStat_spec hr
  rcases hread with ⟨p, f, hf, rfl⟩ | ⟨text, rfl, hwhy⟩
  · refine ends_pure ⟨hw, fun b t hk ha => .inl ?_⟩
    obtain ⟨q, hq, -, ht, -⟩ := (hk.later hw.1).find ha
    rw [hf] at hq
    cases hq
    rw [Process.startTime_read f (w₂.kernel.ticks p (Kernel.find_mem hf).1), ht]
  · refine ends_pure ⟨hw, fun b t hk ha => .inr ⟨rfl, text, ?_⟩⟩
    obtain ⟨q, hq, -⟩ := (hk.later hw.1).find ha
    rcases hwhy with hnone | rfl
    · rw [hnone] at hq
      cases hq
    · exact hx

/-- `reconcile` says exited of a process that is gone. -/
theorem reconcile_safe : Ends ok w (reconcile ticks pid) fun (state, _) w' =>
    Waited w w' ∧ (state = .exited → ∀ b, Known w.kernel b pid ticks → ¬ w'.kernel.Alive b) := by
  unfold reconcile
  split
  · exact ends_pure ⟨.refl w, fun h => by cases h⟩
  · refine ends_bind readStartTimeTicks_safe fun observed w₁ hread => ?_
    obtain ⟨hw, hread⟩ := hread
    cases observed with
    | some t =>
        dsimp only
        split
        · exact ends_pure ⟨hw, fun h => by cases h⟩
        · rename_i hne
          refine ends_pure ⟨hw, fun _ b hk ha => ?_⟩
          rcases hread b ticks hk ha with h | ⟨h, -⟩
          · exact hne (Option.some.inj h)
          · cases h
    | none =>
        refine ends_op fun w₂ hw₂ x hx r w₃ hr => ?_
        cases hr
        cases hf : w₂.kernel.find pid with
        | some p => exact ends_pure ⟨hw.trans hw₂, fun h => by cases h⟩
        | none =>
            refine ends_pure ⟨hw.trans hw₂, fun _ b hk ha => ?_⟩
            obtain ⟨q, hq, -⟩ := (hk.later (hw.trans hw₂).1).find ha
            rw [hf] at hq
            cases hq

/-- The poll for a process reads its state whenever the process is there. -/
def PollsRead (ok : Choice → Prop) : Prop := ∀ text, ¬ ok (.pollUnreadable text)

/-- One round of the poll says gone of a process that is gone. -/
theorem deadNow_safe : Ends ok w (deadNow pid) fun dead w' => Waited w w' ∧
    (PollsRead ok → dead = true → ∀ b t, Known w.kernel b pid t → ¬ w'.kernel.Alive b) := by
  refine ends_op fun w₁ hw x hx r w₂ hr => ?_
  obtain ⟨rfl, hread⟩ := pollStat_spec hr
  rcases hread with ⟨p, f, hf, rfl⟩ | ⟨text, rfl, hwhy⟩
  · refine ends_pure ⟨hw, fun _ hdead b t hk ha => ?_⟩
    obtain ⟨q, hq, -, -, hz⟩ := (hk.later hw.1).find ha
    rw [hf] at hq
    cases hq
    rw [decide_eq_true_eq, Process.state_read, Option.some.injEq, Process.letter_eq_zombie, hz]
      at hdead
    cases hdead
  · refine ends_pure ⟨hw, fun hpoll _ b t hk ha => ?_⟩
    obtain ⟨q, hq, -⟩ := (hk.later hw.1).find ha
    rcases hwhy with hnone | rfl
    · rw [hnone] at hq
      cases hq
    · exact hpoll text hx

/-- The poll says gone of a process that is gone. -/
theorem pollRounds_safe : ∀ (rounds : Nat) {w : World}, Ends ok w (pollRounds pid rounds)
    fun dead w' => Waited w w' ∧
      (PollsRead ok → dead = true → ∀ b t, Known w.kernel b pid t → ¬ w'.kernel.Alive b)
  | 0, _ => deadNow_safe
  | rounds + 1, w => by
      refine ends_bind deadNow_safe fun dead w₁ hdead => ?_
      obtain ⟨hw, hdead⟩ := hdead
      cases dead with
      | true => exact ends_pure ⟨hw, hdead⟩
      | false =>
          refine ends_op fun w₂ hw₂ x hx r w₃ hr => ?_
          obtain rfl : w₃ = w₂ := by
            cases x <;> cases hr
            rfl
          cases r with
          | true => exact ends_pure ⟨hw.trans hw₂, fun _ h => by cases h⟩
          | false =>
              refine (pollRounds_safe rounds).mono fun dead w₄ h => ?_
              obtain ⟨hw₄, h⟩ := h
              exact ⟨(hw.trans hw₂).trans hw₄, fun hp hd b t hk =>
                h hp hd b t (hk.later (hw.trans hw₂).1)⟩

/-- `send_signal` says gone of a process that is gone. -/
theorem sendSignal_safe {signal : KillSignal} : Ends ok w (sendSignal pid signal)
    fun result w' => Waited w w' ∧
      (result = .gone → ∀ b t, Known w.kernel b pid t → ¬ w'.kernel.Alive b) := by
  unfold sendSignal
  split
  · exact ends_pure ⟨.refl w, fun h => by cases h⟩
  · rename_i hraw
    have hpid := rawPid_of_ne_zero hraw
    refine ends_op fun w₁ hw x hx errno w₂ hr => ?_
    obtain ⟨rfl, hesrch⟩ := kill_spec hr
    refine ends_pure ⟨hw, fun hgone b t hk ha => ?_⟩
    have he : errno = some esrch := by
      unfold SignalResult.ofErrno at hgone
      split at hgone
      · cases hgone
      · split at hgone
        · rename_i e he
          rw [he]
        · split at hgone <;> cases hgone
    obtain ⟨q, hq, -⟩ := (hk.later hw.1).find ha
    rw [← hpid, hesrch he] at hq
    cases hq

/-! ### What becomes of a run -/

/-- What the methods do to a run besides its stdin: its state, its exit code and its detail are
told anew, and its child may be gone. -/
def Refreshed (run run' : ManagedRun) : Prop :=
  ∃ state code detail child, (child = run.child ∨ child = none) ∧
    run' = { run with
      record := { run.record with state := state, exitCode := code, detail := detail }
      child := child }

theorem Refreshed.refl (run : ManagedRun) : Refreshed run run := ⟨_, _, _, _, .inl rfl, rfl⟩

theorem Refreshed.handle {run run' : ManagedRun} (h : Refreshed run run') :
    run'.handle = run.handle := by
  obtain ⟨_, _, _, _, _, rfl⟩ := h
  rfl

/-- If the run was put down as exited, then for a reason: no process its record or its child
handle may be about is running. -/
def Honest (w w' : World) (run run' : ManagedRun) : Prop :=
  run'.record.state = .exited → run.record.state = .exited ∨
    ∀ b, Known w.kernel b run.record.pid run.record.startTimeTicks →
      (∀ c, run.child = some c → c = b) → ¬ w'.kernel.Alive b

theorem Honest.refl (w w' : World) (run : ManagedRun) : Honest w w' run run := fun h => .inl h

theorem Honest.later {w₀ w₁ w' w'' : World} {run run' : ManagedRun} (h₀ : Waited w₀ w₁)
    (h : Honest w₁ w' run run') (h' : Waited w' w'') (hw : Waited w₁ w') :
    Honest w₀ w'' run run' := by
  intro hex
  refine (h hex).imp id fun h b hk hc ha => ?_
  have hk' := hk.later h₀.1
  exact Kernel.dead_later h'.1 (Nat.lt_of_lt_of_le hk'.1 hw.1.1) (h b hk' hc) ha

/-- `reap` lets the child go and tells how it ended. -/
theorem reap_safe {run : ManagedRun} : Ends ok w (reap run) fun run' w' => Waited w w' ∧
    ∃ code detail, run' = { run with
      record := { run.record with exitCode := code, detail := detail }, child := none } := by
  unfold reap
  split
  · rename_i hc
    refine ends_pure ⟨.refl w, run.record.exitCode, run.record.detail, ?_⟩
    rw [← hc]
  · refine ends_op fun w₁ hw x hx r w₂ hr => ?_
    obtain ⟨hw₂, -⟩ := tryWait_spec hr
    cases r <;> exact ends_pure ⟨hw.trans hw₂, _, _, rfl⟩

/-- **A round of `refresh`** tells the state of the run anew, and truly. -/
theorem refreshRun_safe {run : ManagedRun} : Ends ok w (refreshRun run) fun run' w' =>
    Waited w w' ∧ Refreshed run run' ∧ Honest w w' run run' := by
  unfold refreshRun
  split
  · rename_i c hc
    refine ends_op fun w₁ hw x hx r w₂ hr => ?_
    obtain ⟨hw₂, hr⟩ := tryWait_spec hr
    rcases hr with ⟨code, signal, rfl, hdead⟩ | rfl | ⟨text, rfl⟩
    · refine ends_pure ⟨hw.trans hw₂, ⟨_, _, _, _, .inr rfl, rfl⟩, fun _ => .inr fun b hk hb ha => ?_⟩
      obtain rfl := hb c hc
      exact Kernel.dead_later hw₂.1 (hk.later hw.1).1 hdead ha
    · exact ends_pure ⟨hw.trans hw₂, ⟨_, _, _, _, .inl rfl, rfl⟩, fun h => by cases h⟩
    · exact ends_pure ⟨hw.trans hw₂, ⟨_, _, _, _, .inl rfl, rfl⟩, fun h => by cases h⟩
  · refine ends_bind reconcile_safe fun sd w₁ h => ?_
    obtain ⟨hw, h⟩ := h
    exact ends_pure ⟨hw, ⟨_, _, _, _, .inl rfl, rfl⟩, fun hex => .inr fun b hk _ => h hex b hk⟩

/-- Every run of `t'` is a run of `t`, told anew, and truly. -/
def TableRefreshed (w w' : World) (t t' : Table) : Prop :=
  t'.loaded = t.loaded ∧ ∀ run' ∈ t'.runs, ∃ run ∈ t.runs, Refreshed run run' ∧ Honest w w' run run'

theorem TableRefreshed.refl (w w' : World) (t : Table) : TableRefreshed w w' t t :=
  ⟨rfl, fun run hrun => ⟨run, hrun, .refl run, .refl w w' run⟩⟩

/-- One run written back. -/
theorem tableRefreshed_put {w' : World} {t : Table} {run run' : ManagedRun} (hrun : run ∈ t.runs)
    (h : Refreshed run run') (hh : Honest w w' run run') :
    TableRefreshed w w' t (t.put run') := by
  refine ⟨rfl, fun r hr => ?_⟩
  rcases Table.mem_put hr with rfl | ⟨hr, -⟩
  · exact ⟨run, hrun, h, hh⟩
  · exact ⟨r, hr, .refl r, .refl w w' r⟩

theorem Refreshed.trans {run run' run'' : ManagedRun} (h : Refreshed run run')
    (h' : Refreshed run' run'') : Refreshed run run'' := by
  obtain ⟨_, _, _, _, hc, rfl⟩ := h
  obtain ⟨state, code, detail, child, hc', rfl⟩ := h'
  refine ⟨state, code, detail, child, ?_, rfl⟩
  rcases hc' with rfl | rfl
  · exact hc
  · exact .inr rfl

theorem Honest.trans {w₁ w₂ : World} {run run' run'' : ManagedRun} (hr : Refreshed run run')
    (h : Honest w w₁ run run') (h' : Honest w₁ w₂ run' run'') (hw : Waited w w₁)
    (hw' : Waited w₁ w₂) : Honest w w₂ run run'' := by
  intro hex
  obtain ⟨_, _, _, _, hc, rfl⟩ := hr
  rcases h' hex with hex' | hdead
  · exact (h hex').imp id fun h b hk hb => Kernel.dead_later hw'.1 (hk.later hw.1).1 (h b hk hb)
  · refine .inr fun b hk hb => hdead b (hk.later hw.1) fun c hc' => ?_
    rcases hc with hc | hc
    · exact hb c (hc ▸ hc')
    · exact absurd (hc.symm.trans hc') (by simp)

theorem TableRefreshed.trans {w₁ w₂ : World} {t t₁ t₂ : Table} (h : TableRefreshed w w₁ t t₁)
    (h' : TableRefreshed w₁ w₂ t₁ t₂) (hw : Waited w w₁) (hw' : Waited w₁ w₂) :
    TableRefreshed w w₂ t t₂ := by
  refine ⟨h'.1.trans h.1, fun run'' hrun'' => ?_⟩
  obtain ⟨run', hrun', hr', hh'⟩ := h'.2 run'' hrun''
  obtain ⟨run, hrun, hr, hh⟩ := h.2 run' hrun'
  exact ⟨run, hrun, hr.trans hr', hh.trans hr hh' hw hw'⟩

theorem refreshRuns_safe : ∀ {rest : List ManagedRun} {t : Table} {w : World},
    (∀ run ∈ rest, run ∈ t.runs) → (rest.map ManagedRun.handle).Nodup →
    Ends ok w (refreshRuns rest t) fun t' w' => Waited w w' ∧ TableRefreshed w w' t t'
  | [], t, w, _, _ => ends_pure ⟨.refl w, .refl w w t⟩
  | run :: rest, t, w, hmem, hnd => by
      refine ends_bind refreshRun_safe fun run' w₁ h => ?_
      obtain ⟨hw, hr, hh⟩ := h
      have hput := tableRefreshed_put (hmem run List.mem_cons_self) hr hh
      obtain ⟨hnot, hnd⟩ := List.nodup_cons.mp hnd
      -- the runs still to come are not the one just written back
      have hmem' : ∀ r ∈ rest, r ∈ (t.put run').runs := by
        intro r hin
        have hne : r.handle ≠ run'.handle := fun he =>
          hnot (List.mem_map.mpr ⟨r, hin, he.trans hr.handle⟩)
        exact List.mem_map.mpr ⟨r, hmem r (List.mem_cons_of_mem _ hin), if_neg hne⟩
      refine (refreshRuns_safe hmem' hnd).mono fun t' w₂ h => ?_
      exact ⟨hw.trans h.1, hput.trans h.2 hw h.1⟩

/-- **`refresh`** tells the state of every run anew, and truly. -/
theorem refresh_safe {t : Table} : Ends ok w (refresh t) fun t' w' =>
    Waited w w' ∧ TableRefreshed w w' t t' :=
  refreshRuns_safe (fun _ h => h) t.keys

/-! ### `ensure_loaded` -/

/-- Time has passed, and record files may be gone. -/
def Kept (w w' : World) : Prop :=
  Kernel.Later w.kernel w'.kernel ∧ w'.files ⊆ w.files ∧ w'.drawn = w.drawn

theorem Waited.kept {w' : World} (h : Waited w w') : Kept w w' := ⟨h.1, h.2.1 ▸ fun _ h => h, h.2.2⟩

theorem Kept.trans {w' w'' : World} (h : Kept w w') (h' : Kept w' w'') : Kept w w'' :=
  ⟨h.1.trans h'.1, fun _ hf => h.2.1 (h'.2.1 hf), h'.2.2.trans h.2.2⟩

/-- The run is a record of the disk, its state told anew, and truly. -/
def FromDisk (w w' : World) (run : ManagedRun) : Prop :=
  ∃ stem record state detail, (stem, Stored.record record) ∈ w.files ∧
    run = ⟨{ record with
        stdinMode := if record.stdinMode = some .opened then some .lost else record.stdinMode
        state := state, exitCode := none, detail := detail }, none, none, .reconciled⟩ ∧
    (state = .exited → ∀ b, Known w.kernel b record.pid record.startTimeTicks →
      ¬ w'.kernel.Alive b)

theorem FromDisk.later {w₀ w₁ w' w'' : World} {run : ManagedRun} (h₀ : Kept w₀ w₁)
    (h : FromDisk w₁ w' run) (hw : Kept w₁ w') (h' : Kept w' w'') : FromDisk w₀ w'' run := by
  obtain ⟨stem, record, state, detail, hf, rfl, hh⟩ := h
  refine ⟨stem, record, state, detail, h₀.2.1 hf, rfl, fun hex b hk => ?_⟩
  have hk' := hk.later h₀.1
  exact Kernel.dead_later h'.1 (Nat.lt_of_lt_of_le hk'.1 hw.1.1) (hh hex b hk')

theorem loadRun_safe {record : RunRecord} {stem : String}
    (hf : (stem, Stored.record record) ∈ w.files) : Ends ok w (loadRun record) fun run w' =>
      Waited w w' ∧ FromDisk w w' run := by
  refine ends_bind reconcile_safe fun sd w₁ h => ?_
  exact ends_pure ⟨h.1, stem, record, sd.1, _, hf, rfl, h.2⟩

theorem file_mem {stem : String} {content : Stored} (h : w.file stem = some content) :
    (stem, content) ∈ w.files := by
  obtain ⟨⟨s, c⟩, hf, rfl⟩ := Option.map_eq_some_iff.mp h
  obtain rfl : s = stem := by simpa using List.find?_some hf
  exact List.mem_of_find?_eq_some hf

theorem loadRuns_safe : ∀ {stems : List String} {t : Table} {w : World},
    Ends ok w (loadRuns stems t) fun t' w' =>
      Kept w w' ∧ t'.loaded = t.loaded ∧ ∀ run ∈ t'.runs, run ∈ t.runs ∨ FromDisk w w' run
  | [], t, w => ends_pure ⟨(Waited.refl w).kept, rfl, fun _ h => .inl h⟩
  | stem :: rest, t, w => by
      refine ends_op fun w₁ hw x hx r w₂ hr => ?_
      obtain ⟨r, hread, he⟩ := Option.map_eq_some_iff.mp hr
      cases he
      -- what the rest loads, it loads from no more files than there were
      have key : ∀ {t₁ : Table} {w₃ : World}, Kept w w₃ → t₁.loaded = t.loaded →
          (∀ run ∈ t₁.runs, run ∈ t.runs ∨ FromDisk w w₃ run) →
          Ends ok w₃ (loadRuns rest t₁) fun t' w' =>
            Kept w w' ∧ t'.loaded = t.loaded ∧ ∀ run ∈ t'.runs, run ∈ t.runs ∨ FromDisk w w' run := by
        intro t₁ w₃ hk hl hruns
        refine loadRuns_safe.mono fun t' w' h => ?_
        obtain ⟨hk', hl', h⟩ := h
        refine ⟨hk.trans hk', hl'.trans hl, fun run hrun => ?_⟩
        rcases h run hrun with h | h
        · exact (hruns run h).imp id fun h => h.later (Waited.refl w).kept hk hk'
        · exact .inr (h.later hk hk' (Waited.refl w').kept)
      unfold World.readRecord at hread
      cases x <;> simp at hread
      rename_i readable
      subst hread
      split
      · exact key hw.kept rfl fun _ h => .inl h
      · refine ends_op fun w₃ hw₃ x hx r w₄ hr => ?_
        have hk : Kept w₃ w₄ := by
          cases x <;> cases hr
          · exact ⟨.refl _, List.filter_sublist.subset, rfl⟩
          · exact (Waited.refl _).kept
        exact key ((hw.trans hw₃).kept.trans hk) rfl fun _ h => .inl h
      · rename_i record hrec
        have hfile : (stem, Stored.record record) ∈ w₁.files := by
          split at hrec
          · cases hrec
            exact file_mem ‹_›
          · cases hrec
          · cases hrec
        refine ends_bind (loadRun_safe hfile) fun run w₃ h => ?_
        have hfrom := h.2.later hw.kept h.1.kept (Waited.refl w₃).kept
        refine key (hw.trans h.1).kept rfl fun r hin => ?_
        rcases Table.mem_insert.mp hin with rfl | ⟨hin, -⟩
        · exact .inr hfrom
        · exact .inl hin

theorem ensureLoaded_of_loaded {t : Table} (h : t.loaded = true) :
    ensureLoaded t = pure (.ok t) := if_pos h

/-- **`ensure_loaded`** of a table not yet loaded brings what the disk holds. -/
theorem ensureLoaded_safe {t : Table} (ht : t.loaded = false) :
    Ends ok w (ensureLoaded t) fun r w' => Kept w w' ∧ ∀ t', r = .ok t' →
      t'.loaded = true ∧ ∀ run ∈ t'.runs, FromDisk w w' run := by
  rw [ensureLoaded, if_neg (by simp [ht])]
  refine ends_op fun w₁ hw x hx r w₂ hr => ?_
  cases x with
  | listed failure =>
      cases failure with
      | none =>
          cases hr
          refine ends_bind loadRuns_safe fun t₁ w₂ h => ?_
          obtain ⟨hk, -, hruns⟩ := h
          refine ends_pure ⟨hw.kept.trans hk, fun t' he => ?_⟩
          cases he
          refine ⟨rfl, fun run hrun => ?_⟩
          rcases hruns run hrun with h | h
          · cases h
          · exact h.later hw.kept hk (Waited.refl w₂).kept
      | some error =>
          cases hr
          dsimp only
          split
          · refine ends_pure ⟨hw.kept, fun t' he => ?_⟩
            cases he
            exact ⟨rfl, fun run hrun => by cases hrun⟩
          · exact ends_pure ⟨hw.kept, fun t' he => by cases he⟩
  | _ => cases hr

/-! ### New records -/

/-- Time has passed, and the record files of other handles are what they were, or gone. -/
def Written (w w' : World) (handle : String) (record : RunRecord) : Prop :=
  Kernel.Later w.kernel w'.kernel ∧ ∀ f ∈ w'.files, f ∈ w.files ∨
    f.1 = handle ∧ (f.2 = .record record ∨ f.2 = .garbled)

theorem persist_spec {w' : World} {record : RunRecord} {x : Choice} {u : Unit}
    (h : w.perform (.persist record) x = some (u, w')) :
    Written w w' record.handle record ∧ w'.drawn = w.drawn := by
  obtain ⟨w₁, hp, he⟩ := Option.map_eq_some_iff.mp h
  cases he
  have hwrite : ∀ content, ∀ f ∈ (w.write record.handle content).files, f ∈ w.files ∨
      f.1 = record.handle ∧ f.2 = content := by
    intro content f hf
    rcases List.mem_cons.mp hf with rfl | hf
    · exact .inr ⟨rfl, rfl⟩
    · exact .inl (List.mem_of_mem_filter hf)
  cases x with
  | notStored =>
      cases hp
      exact ⟨⟨.refl _, fun f hf => .inl hf⟩, rfl⟩
  | torn =>
      cases hp
      exact ⟨⟨.refl _, fun f hf => (hwrite _ f hf).imp id fun h => ⟨h.1, .inr h.2⟩⟩, rfl⟩
  | stored pruned =>
      simp only [World.persist] at hp
      split at hp
      · cases hp
        refine ⟨⟨.refl _, fun f hf => ?_⟩, rfl⟩
        exact (hwrite _ f (List.mem_filter.mp hf).1).imp id fun h => ⟨h.1, .inl h.2⟩
      · cases hp
  | _ => cases hp

theorem randomHandle_safe : Ends ok w randomHandle fun r w' =>
    Kernel.Later w.kernel w'.kernel ∧ w'.files = w.files ∧ match r with
      | .error _ => w'.drawn = w.drawn
      | .ok handle => handle ∉ w.drawn ∧ w'.drawn = handle :: w.drawn := by
  refine ends_op fun w₁ hw x hx r w₂ hr => ?_
  change w₁.random x = some (r, w₂) at hr
  unfold World.random at hr
  split at hr
  · split at hr
    · rename_i hfresh
      cases hr
      exact ends_pure ⟨hw.1, hw.2.1, hw.2.2 ▸ hfresh.2, by rw [← hw.2.2]; rfl⟩
    · cases hr
  · cases hr
    exact ends_pure ⟨hw.1, hw.2.1, hw.2.2⟩
  · cases hr

/-- A run `start` has begun and not yet put into the table. -/
structure Launched (ok : Choice → Prop) (p : StartParams) (w w' : World) (run : ManagedRun) :
    Prop where
  fresh : run.handle ∉ w.drawn
  drawn : w'.drawn = run.handle :: w.drawn
  written : Written w w' run.handle run.record
  child : ∃ c, run.child = some c ∧ c < w'.kernel.next ∧
    ((∀ text, ¬ ok (.unreadable text)) →
      Known w'.kernel c run.record.pid run.record.startTimeTicks)
  name : run.record.name = p.name
  running : run.record.state = .running
  stdin : run.record.stdinMode = some .opened ↔ run.stdin.isSome = true
  source : run.source = .spawned

/-- What `start` leaves up to its second lock: an error, or a run to be put into the table. -/
def Begun (ok : Choice → Prop) (p : StartParams) (w w' : World) :
    Except AgentError ManagedRun → Prop
  | .error _ => Waited w w'
  | .ok run => Launched ok p w w' run

theorem recordLaunch_safe {p : StartParams} {child : Child} {pipe : Option Pipe}
    (hchild : child < w.kernel.next)
    (hknown : (∀ text, ¬ ok (.unreadable text)) → Known w.kernel child pid ticks) :
    Ends ok w (recordLaunch p child pid ticks pipe) fun r w' => Begun ok p w w' r := by
  refine ends_bind randomHandle_safe fun r w₁ h => ?_
  obtain ⟨hl, hf, h⟩ := h
  cases r with
  | error e => exact ends_pure ⟨hl, hf, h⟩
  | ok handle =>
      refine ends_op fun w₂ hw₂ x hx now w₃ hr => ?_
      obtain rfl : w₃ = w₂ := by
        cases x <;> cases hr
        rfl
      refine ends_op fun w₄ hw₄ x hx u w₅ hr => ?_
      obtain ⟨hwritten, hdrawn⟩ := persist_spec hr
      have hw := hw₂.trans hw₄
      have hlater : Kernel.Later w.kernel w₅.kernel := (hl.trans hw.1).trans hwritten.1
      refine ends_pure ⟨h.1, ?_, ⟨hlater, fun f hin => ?_⟩,
        ⟨child, rfl, Nat.lt_of_lt_of_le hchild hlater.1, fun hok => (hknown hok).later hlater⟩,
        rfl, rfl, ?_, rfl⟩
      · rw [hdrawn, hw.2.2, h.2]
        rfl
      · rcases hwritten.2 f hin with hin | hin
        · exact .inl (hf ▸ hw.2.1 ▸ hin)
        · exact .inr hin
      · cases pipe <;> cases p.interactiveStdin <;> simp [startStdinMode]

/-- What is launched after some time is launched. -/
theorem Launched.of_waited {p : StartParams} {w₁ w' : World} {run : ManagedRun}
    (h : Launched ok p w₁ w' run) (hw : Waited w w₁) : Launched ok p w w' run where
  fresh := hw.2.2 ▸ h.fresh
  drawn := hw.2.2 ▸ h.drawn
  written := ⟨hw.1.trans h.written.1, fun f hf => hw.2.1 ▸ h.written.2 f hf⟩
  child := h.child
  name := h.name
  running := h.running
  stdin := h.stdin
  source := h.source

theorem Begun.of_waited {p : StartParams} {w₁ w' : World} {r : Except AgentError ManagedRun}
    (h : Begun ok p w₁ w' r) (hw : Waited w w₁) : Begun ok p w w' r := by
  cases r with
  | error e => exact hw.trans h
  | ok run => exact Launched.of_waited h hw

theorem launch_safe {p : StartParams} {path : String} {stdinData : Option String} :
    Ends ok w (launch p path stdinData) fun r w' => Begun ok p w w' r := by
  refine ends_op fun w₁ hw x hx r w₂ hr => ?_
  change w₁.spawn _ x = some (r, w₂) at hr
  unfold World.spawn at hr
  split at hr
  · rename_i pid ticks
    obtain ⟨k, hk, he⟩ := Option.map_eq_some_iff.mp hr
    cases he
    -- the child is the process the kernel has just made
    have hspawn : Waited w₁ { w₁ with kernel := k } := ⟨Kernel.later_spawn hk, rfl, rfl⟩
    have hknown : Known k w₁.kernel.next pid ticks := by
      unfold Kernel.spawn at hk
      split at hk
      · cases hk
        refine ⟨Nat.lt_succ_self _, fun q hq hid _ => ?_⟩
        rcases List.mem_cons.mp hq with rfl | hq
        · exact ⟨rfl, rfl⟩
        · exact absurd hid (Nat.ne_of_lt (w₁.kernel.fresh q hq))
      · cases hk
    refine ends_bind readStartTimeTicks_safe fun observed w₃ h => ?_
    obtain ⟨hw₃, hread⟩ := h
    have hchild : w₁.kernel.next < w₃.kernel.next := Nat.lt_of_lt_of_le hknown.1 hw₃.1.1
    have hknown' : (∀ text, ¬ ok (.unreadable text)) →
        Known w₃.kernel w₁.kernel.next pid (observed.getD 0) := by
      intro hok
      by_cases ha : w₃.kernel.Alive w₁.kernel.next
      · rcases hread _ _ hknown ha with h | ⟨-, text, h⟩
        · rw [h]
          exact hknown.later hw₃.1
        · exact (hok text h).elim
      · exact .of_dead hchild ha _ _
    have hsofar : Waited w w₃ := (hw.trans hspawn).trans hw₃
    have tail : ∀ {w₄ : World} (pipe : Option Pipe), Waited w₃ w₄ →
        Ends ok w₄ (recordLaunch p w₁.kernel.next pid (observed.getD 0) pipe) fun r w' =>
          Begun ok p w w' r := by
      intro w₄ pipe hw₄
      refine (recordLaunch_safe (Nat.lt_of_lt_of_le hchild hw₄.1.1)
        fun hok => (hknown' hok).later hw₄.1).mono fun r w' h => ?_
      exact h.of_waited (hsofar.trans hw₄)
    dsimp only
    split
    · refine ends_op fun w₄ hw₄ x hx u w₅ hr => ?_
      obtain rfl : w₅ = w₄ := by
        cases x <;> cases hr
        rfl
      exact tail _ hw₄
    · exact tail _ (.refl w₃)
  · cases hr
    exact ends_pure hw
  · cases hr

/-- An operation that only asks. -/
def Asks : Op → Prop
  | .tryWait _ | .spawn _ _ _ | .removeRecord _ | .persist _ | .urandom => False
  | _ => True

/-- Asking changes nothing. -/
theorem asks_spec {o : Op} (ho : Asks o) {w' : World} {x : Choice} {r : Reply o}
    (h : w.perform o x = some (r, w')) : w' = w := by
  cases o <;> first | exact ho.elim | skip
  case readStat => exact (readStat_spec h).1
  case pollStat => exact (pollStat_spec h).1
  case kill => exact (kill_spec h).1
  case procExists =>
    cases h
    rfl
  case readRecord =>
    obtain ⟨_, -, he⟩ := Option.map_eq_some_iff.mp h
    cases he
    rfl
  case firstOf n =>
    cases x with
    | number i =>
        simp only [World.perform] at h
        split at h
        · cases h
          rfl
        · cases h
    | _ => cases h
  case listStateDir =>
    cases x with
    | listed failure => cases failure <;> cases h <;> rfl
    | _ => cases h
  all_goals (cases x <;> cases h; rfl)

/-- A program that only asks leaves the phone to itself. -/
theorem asks_safe {α : Type} : ∀ {p : Call α} {w : World}, p.Only Asks →
    Ends ok w p fun _ w' => Waited w w'
  | .ret _, w, _ => Waited.refl w
  | .op o k, w, hp => fun w₁ hw x hx r w₂ hr => by
      obtain rfl := asks_spec hp.1 hr
      exact (asks_safe (hp.2 r)).mono fun _ _ h => hw.trans h

theorem validatedExecutable_asks (name : String) : (validatedExecutable name).Only Asks := by
  unfold validatedExecutable
  split
  · exact trivial
  · refine Only.bind ?_ fun r => ?_
    · refine (only_perform trivial).bind fun r => ?_
      cases r with
      | error _ => exact trivial
      | ok metadata =>
          dsimp only
          split
          · exact trivial
          · refine (only_perform trivial).bind fun r => ?_
            split
            · split <;> exact trivial
            · exact trivial
    · cases r <;> exact trivial

/-- **`start`**, up to its second lock. -/
theorem startLoaded_safe {p : StartParams} :
    Ends ok w (startLoaded p) fun r w' => Begun ok p w w' r := by
  unfold startLoaded
  split
  · refine ends_op fun w₁ hw x hx r w₂ hr => ?_
    obtain rfl := asks_spec (o := .effectiveUid) trivial hr
    exact ends_pure hw
  · refine ends_bind (asks_safe (validatedExecutable_asks p.name)) fun r w₁ hw => ?_
    cases r with
    | error e => exact ends_pure hw
    | ok path =>
        refine ends_op fun w₂ hw₂ x hx r w₃ hr => ?_
        obtain rfl := asks_spec (o := .openLog _) trivial hr
        cases r with
        | error e => exact ends_pure (hw.trans hw₂)
        | ok u =>
            refine ends_op fun w₄ hw₄ x hx r w₅ hr => ?_
            obtain rfl := asks_spec (o := .dupLog) trivial hr
            have hsofar := (hw.trans hw₂).trans hw₄
            cases r with
            | error e => exact ends_pure hsofar
            | ok u =>
                dsimp only
                split
                · exact ends_pure hsofar
                · exact launch_safe.mono fun r w' h => h.of_waited hsofar

/-! ### `adopt` -/

theorem measure_asks (p : AdoptParams) (path : String) (stat : List Char) :
    Only Asks (measure p path stat) := by
  unfold measure
  split
  · exact trivial
  · split
    · exact trivial
    · refine (only_perform trivial).bind fun _ => (only_perform trivial).bind fun _ =>
        (only_perform trivial).bind fun _ => (only_perform trivial).bind fun _ =>
        (only_perform trivial).bind fun _ => ?_
      split <;> exact trivial

theorem adoptLoaded_asks (p : AdoptParams) : Only Asks (adoptLoaded p) := by
  unfold adoptLoaded
  split
  · exact trivial
  · split
    · exact trivial
    · refine (only_perform trivial).bind fun r => ?_
      cases r with
      | error _ => exact trivial
      | ok metadata =>
          dsimp only
          split
          · exact trivial
          · refine (only_perform trivial).bind fun r => ?_
            cases r with
            | error _ => exact trivial
            | ok stat => exact measure_asks p _ stat

/-- **`adopt`**, from its second lock: an error, a running record of the pid, or a new one. -/
inductive Committed (w w' : World) (t : Table) (m : Measured) :
    Table × Except AgentError AdoptResult → Prop where
  | refused (e : AgentError) (hw : Waited w w') : Committed w w' t m (t, .error e)
  | already {run : ManagedRun} (hrun : run ∈ sameRunning t m.params.pid) (hw : Waited w w') :
      Committed w w' t m (t, .ok ⟨run.record, m.proofs, true⟩)
  | inserted {handle : String} (startedAtUnix : Nat) (hnone : sameRunning t m.params.pid = [])
      (fresh : handle ∉ w.drawn) (drawn : w'.drawn = handle :: w.drawn)
      (written : Written w w' handle (adoptedRecord handle m startedAtUnix)) :
      Committed w w' t m (t.insert ⟨adoptedRecord handle m startedAtUnix, none, none, .adopted⟩,
        .ok ⟨adoptedRecord handle m startedAtUnix, m.proofs, false⟩)

theorem adoptInsert_safe {t : Table} {m : Measured} (hnone : sameRunning t m.params.pid = []) :
    Ends ok w (adoptInsert t m) fun r w' => Committed w w' t m r := by
  refine ends_bind randomHandle_safe fun r w₁ h => ?_
  obtain ⟨hl, hf, h⟩ := h
  cases r with
  | error e => exact ends_pure (.refused e ⟨hl, hf, h⟩)
  | ok handle =>
      -- from the time of the start on
      have tail : ∀ {w₂ : World} (startedAtUnix : Nat), Waited w₁ w₂ →
          Ends ok w₂ (do
            perform (Op.persist (adoptedRecord handle m startedAtUnix))
            pure (t.insert ⟨adoptedRecord handle m startedAtUnix, none, none, .adopted⟩,
              Except.ok ⟨adoptedRecord handle m startedAtUnix, m.proofs, false⟩)) fun r w' =>
                Committed w w' t m r := by
        intro w₂ startedAtUnix hw₂
        refine ends_op fun w₃ hw₃ x hx u w₄ hr => ?_
        obtain ⟨hwritten, hdrawn⟩ := persist_spec hr
        have hw := hw₂.trans hw₃
        refine ends_pure (.inserted startedAtUnix hnone h.1 ?_
          ⟨(hl.trans hw.1).trans hwritten.1, fun f hin => ?_⟩)
        · rw [hdrawn, hw.2.2, h.2]
        · rcases hwritten.2 f hin with hin | hin
          · exact .inl (hf ▸ hw.2.1 ▸ hin)
          · exact .inr hin
      cases m.startedUnix with
      | some started => exact tail started (.refl w₁)
      | none =>
          refine ends_op fun w₂ hw₂ x hx now w₃ hr => ?_
          obtain rfl := asks_spec (o := .unixNow) trivial hr
          exact tail now hw₂

theorem adoptCommit_safe {t : Table} {m : Measured} :
    Ends ok w (adoptCommit t m) fun r w' => Committed w w' t m r := by
  unfold adoptCommit
  cases hs : sameRunning t m.params.pid with
  | nil => exact adoptInsert_safe hs
  | cons run rest =>
      refine ends_op fun w₁ hw x hx i w₂ hr => ?_
      obtain rfl := asks_spec (o := .firstOf _) trivial hr
      refine ends_pure (.already ?_ hw)
      rw [hs]
      unfold List.getD
      cases hi : (run :: rest)[i]? with
      | none => exact List.mem_cons_self
      | some r => exact List.mem_of_getElem? hi

/-! ### `stop`, `status` and `list` -/

/-- **`stop`** of a loaded table: an error that changes nothing; a run put down as exited and its
file deleted, if the deletion succeeds; or a signal not seen to work. -/
inductive Stopped (ok : Choice → Prop) (w w' : World) (t : Table) (p : StopParams) :
    Table × Except AgentError StopResult → Prop where
  | refused (e : AgentError) (hw : Waited w w') : Stopped ok w w' t p (t, .error e)
  | dropped {run run' : ManagedRun} (outcome : KillOutcome) (verified : Bool)
      (hget : t.get? p.handle = some run) (hr : Refreshed run run')
      (hstate : run'.record.state = .exited) (hchild : run'.child = none)
      (hfiles : ok .removed ∧ w'.files = (w.without p.handle).files ∨
        ok .notRemoved ∧ w'.files = w.files)
      (hlater : Kernel.Later w.kernel w'.kernel) (hdrawn : w'.drawn = w.drawn)
      (hdead : PollsRead ok → ∀ b, Known w.kernel b run.record.pid run.record.startTimeTicks →
        ¬ w'.kernel.Alive b) :
      Stopped ok w w' t p (t.put run', .ok ⟨run'.record, outcome, verified, true⟩)
  | signaled {run run' : ManagedRun} (verified : Bool) (hget : t.get? p.handle = some run)
      (hr : Refreshed run run') (hstate : run'.record.state = run.record.state)
      (hchild : run'.child = run.child) (hw : Waited w w') :
      Stopped ok w w' t p (t.put run', .ok ⟨run'.record, .signaled, verified, false⟩)

variable {t : Table} {p : StopParams} {run : ManagedRun}

/-- The deletion of a record file, at the end of a `stop` that finds the process gone. -/
theorem removeRecord_spec {w' : World} {stem : String} {x : Choice} {u : Unit} (hx : ok x)
    (h : w.perform (.removeRecord stem) x = some (u, w')) : w'.kernel = w.kernel ∧
      w'.drawn = w.drawn ∧ (ok .removed ∧ w'.files = (w.without stem).files ∨
        ok .notRemoved ∧ w'.files = w.files) := by
  cases x <;> cases h
  · exact ⟨rfl, rfl, .inl ⟨hx, rfl⟩⟩
  · exact ⟨rfl, rfl, .inr ⟨hx, rfl⟩⟩

/-- A record put down as exited and its file deleted. -/
theorem dropped_safe {w₀ : World} (run' : ManagedRun) (outcome : KillOutcome) (verified : Bool)
    (hget : t.get? p.handle = some run) (hr : Refreshed run run')
    (hstate : run'.record.state = .exited) (hchild : run'.child = none) (hw : Waited w₀ w)
    (hdead : PollsRead ok → ∀ b, Known w₀.kernel b run.record.pid run.record.startTimeTicks →
      ¬ w.kernel.Alive b) :
    Ends ok w (do
      perform (Op.removeRecord run'.handle)
      pure (t.put run', Except.ok ⟨run'.record, outcome, verified, true⟩)) fun r w' =>
        Stopped ok w₀ w' t p r := by
  refine ends_op fun w₁ hw₁ x hx u w₂ hr' => ?_
  obtain ⟨hk, hd, hfiles⟩ := removeRecord_spec hx hr'
  have hhandle : run'.handle = p.handle := hr.handle.trans (Table.get?_mem hget).2
  have hwaited := hw.trans hw₁
  refine ends_pure (.dropped outcome verified hget hr hstate hchild ?_ (hk ▸ hwaited.1)
    (hd.trans hwaited.2.2) fun hp b hb => ?_)
  · rw [hhandle, World.without, hwaited.2.1] at hfiles
    exact hfiles
  · rw [hk]
    exact Kernel.dead_later hw₁.1 (hb.later hw.1).1 (hdead hp b hb)

theorem alreadyGone_safe {w₀ : World} {detail : String} {verified : Bool}
    (hget : t.get? p.handle = some run) (hw : Waited w₀ w)
    (hdead : ∀ b, Known w₀.kernel b run.record.pid run.record.startTimeTicks →
      ¬ w.kernel.Alive b) :
    Ends ok w (alreadyGone t run detail verified) fun r w' => Stopped ok w₀ w' t p r :=
  dropped_safe { run with
      record := { run.record with state := .exited, detail := some detail }, child := none }
    .alreadyGone verified hget ⟨_, _, _, _, .inr rfl, rfl⟩ rfl rfl hw fun _ => hdead

theorem stopSignal_safe {w₀ : World} {verified : Bool} (hget : t.get? p.handle = some run)
    (hw : Waited w₀ w) :
    Ends ok w (stopSignal t p run verified) fun r w' => Stopped ok w₀ w' t p r := by
  refine ends_bind sendSignal_safe fun result w₁ h => ?_
  obtain ⟨hw₁, hgone⟩ := h
  have hsofar := hw.trans hw₁
  cases result with
  | gone => exact alreadyGone_safe hget hsofar fun b hb => hgone rfl b _ (hb.later hw.1)
  | denied =>
      refine ends_op fun w₂ hw₂ x hx uid w₃ hr => ?_
      obtain rfl := asks_spec (o := .effectiveUid) trivial hr
      exact ends_pure (.refused _ (hsofar.trans hw₂))
  | failed errno => exact ends_pure (.refused _ hsofar)
  | sent =>
      refine ends_bind (pollRounds_safe 30) fun dead w₂ h => ?_
      obtain ⟨hw₂, hdead⟩ := h
      cases dead with
      | false =>
          exact ends_pure (.signaled verified hget ⟨_, _, _, _, .inl rfl, rfl⟩ rfl rfl
            (hsofar.trans hw₂))
      | true =>
          refine ends_bind reap_safe fun run' w₃ h => ?_
          obtain ⟨hw₃, code, detail, rfl⟩ := h
          refine dropped_safe _ .signaled verified hget ⟨_, _, _, _, .inr rfl, rfl⟩ rfl rfl
            ((hsofar.trans hw₂).trans hw₃) fun hp b hb => ?_
          have hb₁ := hb.later hsofar.1
          exact Kernel.dead_later hw₃.1 (hb₁.later hw₂.1).1 (hdead hp rfl b _ hb₁)

theorem stopRun_safe (hget : t.get? p.handle = some run) :
    Ends ok w (stopRun t p run) fun r w' => Stopped ok w w' t p r := by
  refine ends_bind readStartTimeTicks_safe fun observed w₁ h => ?_
  obtain ⟨hw, hread⟩ := h
  cases observed with
  | some ticks =>
      dsimp only
      split
      · exact stopSignal_safe hget hw
      · rename_i hne
        refine alreadyGone_safe hget hw fun b hb ha => ?_
        rcases hread b _ hb ha with h | ⟨h, -⟩
        · exact hne (Option.some.inj h)
        · cases h
  | none =>
      dsimp only
      split
      · exact stopSignal_safe hget hw
      · refine ends_op fun w₂ hw₂ x hx there w₃ hr => ?_
        cases hr
        have hsofar := hw.trans hw₂
        cases hf : w₂.kernel.find run.record.pid with
        | some q => exact ends_pure (.refused _ hsofar)
        | none =>
            refine alreadyGone_safe hget hsofar fun b hb ha => ?_
            obtain ⟨q, hq, -⟩ := (hb.later hsofar.1).find ha
            rw [hf] at hq
            cases hq

theorem stopLoaded_safe : Ends ok w (stopLoaded t p) fun r w' => Stopped ok w w' t p r := by
  unfold stopLoaded
  cases hget : t.get? p.handle with
  | none => exact ends_pure (.refused _ (.refl w))
  | some run =>
      dsimp only
      split
      · split
        · exact ends_pure (.refused _ (.refl w))
        · exact stopRun_safe hget
      · exact stopRun_safe hget

/-- **`status`** of a loaded table refreshes it. -/
theorem status_safe {handle : String} (ht : t.loaded = true) :
    Ends ok w (status t handle) fun r w' => Waited w w' ∧ TableRefreshed w w' t r.1 := by
  rw [status, ensureLoaded_of_loaded ht]
  change Ends ok w (refresh t >>= _) _
  refine ends_bind refresh_safe fun t' w' h => ?_
  split <;> exact ends_pure h

/-- **`list`** refreshes the table. -/
theorem listRuns_safe : Ends ok w (listRuns t) fun r w' =>
    Waited w w' ∧ TableRefreshed w w' t r.1 :=
  ends_bind refresh_safe fun _ _ h => ends_pure h

/-! ### `write` -/

/-- **`write`**, up to its await: the run is looked at, and its write end taken if the record says
open and there is one. -/
inductive Checked (w w' : World) (t : Table) (p : WriteParams) :
    Table × Except AgentError Pipe → Prop where
  | unknown (e : AgentError) (hw : Waited w w') : Checked w w' t p (t, .error e)
  | refused {run run' : ManagedRun} (e : AgentError) (hget : t.get? p.handle = some run)
      (hr : Refreshed run run') (hstate : run'.record.state = run.record.state)
      (hw : Waited w w') : Checked w w' t p (t.put run', .error e)
  | taken {run : ManagedRun} {pipe : Pipe} (hget : t.get? p.handle = some run)
      (hstdin : run.stdin = some pipe) (hmode : run.record.stdinMode = some .opened)
      (hstate : run.child = none → run.record.state ≠ .exited) (hw : Waited w w') :
      Checked w w' t p (t.put run, .ok pipe)

theorem exitedNow_safe : Ends ok w (exitedNow run) fun r w' => Waited w w' ∧
    Refreshed run r.1 ∧ r.1.record.state = run.record.state ∧
    (r.2 = false → r.1 = run ∧ (run.child = none → run.record.state ≠ .exited)) := by
  unfold exitedNow
  split
  · rename_i c hc
    refine ends_op fun w₁ hw x hx r w₂ hr => ?_
    have hw₂ := hw.trans (tryWait_spec hr).1
    cases r with
    | exited code signal =>
        refine ends_bind reap_safe fun run' w₃ h => ?_
        obtain ⟨hw₃, code, detail, rfl⟩ := h
        exact ends_pure ⟨hw₂.trans hw₃, ⟨_, _, _, _, .inr rfl, rfl⟩, rfl, fun h => by cases h⟩
    | running =>
        exact ends_pure ⟨hw₂, .refl run, rfl, fun _ => ⟨rfl, fun h => by rw [hc] at h; cases h⟩⟩
    | failed text =>
        exact ends_pure ⟨hw₂, .refl run, rfl, fun _ => ⟨rfl, fun h => by rw [hc] at h; cases h⟩⟩
  · exact ends_pure ⟨.refl w, .refl run, rfl, fun h => ⟨rfl, fun _ => of_decide_eq_false h⟩⟩

theorem writeCheckLoaded_safe {p : WriteParams} :
    Ends ok w (writeCheckLoaded t p) fun r w' => Checked w w' t p r := by
  unfold writeCheckLoaded
  cases hget : t.get? p.handle with
  | none => exact ends_pure (.unknown _ (.refl w))
  | some run =>
      refine ends_bind exitedNow_safe fun r w' h => ?_
      obtain ⟨run', gone⟩ := r
      obtain ⟨hw, hr, hstate, hstays⟩ := h
      cases gone with
      | true => exact ends_pure (.refused _ hget hr hstate hw)
      | false =>
          obtain ⟨rfl, hexited⟩ := hstays rfl
          dsimp only
          split
          · rename_i h
            cases h
          · split
            · exact ends_pure (.taken hget ‹_› ‹_› hexited hw)
            · exact ends_pure (.refused _ hget hr hstate hw)

theorem writeCheck_safe {p : WriteParams} (ht : t.loaded = true) :
    Ends ok w (writeCheck t p) fun r w' => Checked w w' t p r := by
  unfold writeCheck
  split
  · exact ends_pure (.unknown _ (.refl w))
  · rw [ensureLoaded_of_loaded ht]
    exact writeCheckLoaded_safe

/-- The run with its stdin given up. -/
def ManagedRun.closeStdin (run : ManagedRun) (mode : StdinMode) : ManagedRun :=
  { run with stdin := none, record := { run.record with stdinMode := some mode } }

/-- **`write`**, after its await: the run is given a closed stdin where the text was the last or
the pipe is broken, and its record is written to disk. -/
inductive Finished (w w' : World) (t : Table) (p : WriteParams) :
    Table × Except AgentError WriteResult → Prop where
  | vanished (r : Except AgentError WriteResult) (hget : t.get? p.handle = none)
      (hw : Waited w w') : Finished w w' t p (t, r)
  | recorded {run run' : ManagedRun} (r : Except AgentError WriteResult)
      (hget : t.get? p.handle = some run)
      (hrun : run' = run ∨ run' = run.closeStdin .once ∨ run' = run.closeStdin .lost)
      (written : Written w w' p.handle run'.record) (drawn : w'.drawn = w.drawn) :
      Finished w w' t p (t.put run', r)

theorem writeFinish_safe {p : WriteParams} {failure : Option String} :
    Ends ok w (writeFinish t p failure) fun r w' => Finished w w' t p r := by
  -- the record written to disk is that of the run written back
  have persisted : ∀ {run : ManagedRun} (run' : ManagedRun)
      {r : Except AgentError WriteResult}, t.get? p.handle = some run →
      (run' = run ∨ run' = run.closeStdin .once ∨ run' = run.closeStdin .lost) →
      Ends ok w (do
        perform (Op.persist run'.record)
        pure (t.put run', r)) fun r w' => Finished w w' t p r := by
    intro run run' r hget hrun
    refine ends_op fun w₁ hw x hx u w₂ hr => ?_
    obtain ⟨hwritten, hdrawn⟩ := persist_spec hr
    have hhandle : run'.record.handle = p.handle := by
      refine Eq.trans ?_ (Table.get?_mem hget).2
      rcases hrun with rfl | rfl | rfl <;> rfl
    refine ends_pure (.recorded r hget hrun ⟨hw.1.trans hwritten.1, fun f hf => ?_⟩
      (hdrawn.trans hw.2.2))
    rcases hwritten.2 f hf with hf | hf
    · exact .inl (hw.2.1 ▸ hf)
    · exact .inr (hhandle ▸ hf)
  unfold writeFinish
  cases failure with
  | some text =>
      dsimp only [dropStdin]
      cases hget : t.get? p.handle with
      | none => exact ends_pure (.vanished _ hget (.refl w))
      | some run => exact persisted (run.closeStdin .lost) hget (.inr (.inr rfl))
  | none =>
      cases hget : t.get? p.handle with
      | none => exact ends_pure (.vanished _ hget (.refl w))
      | some run =>
          refine persisted (if p.close then run.closeStdin .once else run) hget ?_
          split
          · exact .inr (.inl rfl)
          · exact .inl rfl

end RevBox.Hosted
