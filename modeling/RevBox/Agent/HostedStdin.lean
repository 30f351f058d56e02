import RevBox.Agent.HostedWrites

/-!
# Agent — HostedStdin

The stdin of a hosted process.  A record says `Open` exactly while the Agent holds the write end of
the pipe; a record that has left `Open` stays so, restarts of the Agent included; and a `write`
writes to a pipe it took from a record that was `Open`.

* `stdin_truthful`: all of this, of every reachable state and every run from it.
-/

namespace RevBox.Hosted

/-- The record says `Open` exactly if the write end is there. -/
def ManagedRun.Truthful (run : ManagedRun) : Prop :=
  run.record.stdinMode = some .opened ↔ run.stdin.isSome = true

/-- The write end was taken from a record that was `Open`. -/
def Writing.FromOpen (wr : Writing) : Prop :=
  ∃ run, wr.entry = some run ∧ run.handle = wr.params.handle ∧
    run.record.stdinMode = some .opened ∧ run.stdin = some wr.pipe

/-- The `write` an answer belongs to. -/
def Answer.writing? : Answer → Option Writing
  | .wrote wr _ => some wr
  | _ => none

/-- What every run keeps of the write ends. -/
structure StdinTruthful (s : State) : Prop where
  table : ∀ run ∈ s.table.runs, run.Truthful
  starting : ∀ run ∈ s.starting, run.Truthful
  writing : ∀ wr ∈ s.writing, wr.FromOpen
  answers : ∀ a ∈ s.answers, ∀ wr, a.writing? = some wr → wr.FromOpen

variable {s s' : State} {l : Label} {ok : Choice → Prop} {w : World} {t : Table}
  {run run' : ManagedRun}

theorem ManagedRun.Truthful.refreshed (h : run.Truthful) (hr : Refreshed run run') :
    run'.Truthful := by
  obtain ⟨_, _, _, _, _, rfl⟩ := hr
  exact h

theorem truthful_closeStdin {mode : StdinMode} (h : mode ≠ .opened) :
    (run.closeStdin mode).Truthful := by
  simp [ManagedRun.Truthful, ManagedRun.closeStdin, h]

/-- A run read back from the disk has no write end, and does not say it has. -/
theorem FromDisk.closed {w' : World} (h : FromDisk w w' run) :
    run.record.stdinMode ≠ some .opened ∧ run.stdin = none := by
  obtain ⟨stem, record, state, detail, -, rfl, -⟩ := h
  refine ⟨?_, rfl⟩
  dsimp only
  split
  · simp
  · assumption

theorem FromDisk.truthful {w' : World} (h : FromDisk w w' run) : run.Truthful := by
  obtain ⟨hmode, hnone⟩ := h.closed
  simp [ManagedRun.Truthful, hmode, hnone]

/-- A run written back. -/
theorem truthful_put (ht : ∀ r ∈ t.runs, r.Truthful) (h : run.Truthful) :
    ∀ r ∈ (t.put run).runs, r.Truthful := by
  intro r hr
  rcases Table.mem_put hr with rfl | ⟨hr, -⟩
  · exact h
  · exact ht r hr

/-- An answer that is not of a `write`, or of one that took its pipe from an open record. -/
theorem StdinTruthful.append (hs : StdinTruthful s) {a : Answer}
    (ha : ∀ wr, a.writing? = some wr → wr.FromOpen) :
    ∀ b ∈ s.answers ++ [a], ∀ wr, b.writing? = some wr → wr.FromOpen := by
  intro b hb
  rcases List.mem_append.mp hb with hb | hb
  · exact hs.answers b hb
  · rw [List.mem_singleton.mp hb]
    exact ha

/-- A run finished by a `write` tells the truth. -/
theorem truthful_finished {p : WriteParams} {r : Table × Except AgentError WriteResult}
    (ht : ∀ r ∈ t.runs, r.Truthful) (hf : Finished s.world w t p r) :
    ∀ run ∈ r.1.runs, run.Truthful := by
  cases hf with
  | vanished r hget hw => exact ht
  | recorded r hget hrun written drawn =>
      refine truthful_put ht ?_
      rcases hrun with rfl | rfl | rfl
      · exact ht _ (Table.get?_mem hget).1
      · exact truthful_closeStdin (by simp)
      · exact truthful_closeStdin (by simp)

/-- **One move keeps the records truthful.** -/
theorem stdinTruthful_step (hs : StdinTruthful s) (h : machine.step s l = some s') :
    StdinTruthful s' := by
  have hm : Moves (fun _ => True) _ _ _ := step_spec (fun _ _ => trivial) h
  cases hm with
  | time hw => exact ⟨hs.table, hs.starting, hs.writing, hs.answers⟩
  | loaded hk ht =>
      refine ⟨fun run hrun => ?_, hs.starting, hs.writing, hs.answers⟩
      rcases ht with rfl | ⟨-, -, hfrom⟩
      · exact hs.table run hrun
      · exact (hfrom run hrun).truthful
  | launched ht hl =>
      refine ⟨hs.table, fun run hrun => ?_, hs.writing, hs.answers⟩
      rcases List.mem_append.mp hrun with hrun | hrun
      · exact hs.starting run hrun
      · rw [List.mem_singleton.mp hrun]
        exact hl.stdin
  | inserted hi =>
      refine ⟨fun r hr => ?_, fun r hr => hs.starting r (List.mem_of_mem_eraseIdx hr), hs.writing,
        hs.answers⟩
      rcases Table.mem_insert.mp hr with rfl | ⟨hr, -⟩
      · exact hs.starting _ (List.mem_of_getElem? hi)
      · exact hs.table r hr
  | measured ht hw => exact ⟨hs.table, hs.starting, hs.writing, hs.answers⟩
  | committed hi hc =>
      cases hc with
      | refused e hw | already hrun hw =>
          exact ⟨hs.table, hs.starting, hs.writing, hs.append fun _ h => by cases h⟩
      | inserted startedAtUnix hnone fresh drawn written =>
          refine ⟨fun r hr => ?_, hs.starting, hs.writing, hs.append fun _ h => by cases h⟩
          rcases Table.mem_insert.mp hr with rfl | ⟨hr, -⟩
          · simp [ManagedRun.Truthful, adoptedRecord]
          · exact hs.table r hr
  | refreshed hw ht =>
      refine ⟨fun run' hrun' => ?_, hs.starting, hs.writing, hs.answers⟩
      obtain ⟨run, hrun, hr, -⟩ := ht.2 run' hrun'
      exact (hs.table run hrun).refreshed hr
  | stopped ht hst =>
      refine ⟨?_, hs.starting, hs.writing, hs.append fun _ h => by cases h⟩
      cases hst with
      | refused e hw => exact hs.table
      | dropped outcome verified hget hr hstate hchild hfiles hlater hdrawn hdead =>
          exact truthful_put hs.table ((hs.table _ (Table.get?_mem hget).1).refreshed hr)
      | signaled verified hget hr hstate hchild hw =>
          exact truthful_put hs.table ((hs.table _ (Table.get?_mem hget).1).refreshed hr)
  | unchecked hc =>
      refine ⟨?_, hs.starting, hs.writing, hs.answers⟩
      cases hc with
      | unknown e hw => exact hs.table
      | refused e hget hr hstate hw =>
          exact truthful_put hs.table ((hs.table _ (Table.get?_mem hget).1).refreshed hr)
  | checked ht hc =>
      cases hc with
      | taken hget hstdin hmode hstate hw =>
          obtain ⟨hrun, hhandle⟩ := Table.get?_mem hget
          refine ⟨truthful_put hs.table (hs.table _ hrun), hs.starting, fun wr hwr => ?_, hs.answers⟩
          rcases List.mem_append.mp hwr with hwr | hwr
          · exact hs.writing wr hwr
          · rw [List.mem_singleton.mp hwr]
            exact ⟨_, hget, hhandle, hmode, hstdin⟩
  | @finished i failure script wr w r hi hf =>
      refine ⟨truthful_finished hs.table hf, hs.starting,
        fun wr hwr => hs.writing wr (List.mem_of_mem_eraseIdx hwr), hs.append fun wr' h => ?_⟩
      cases h
      exact hs.writing wr (List.mem_of_getElem? hi)
  | abandoned =>
      exact ⟨hs.table, hs.starting, fun wr hwr => hs.writing wr (List.mem_of_mem_eraseIdx hwr),
        hs.answers⟩
  | restarted => exact ⟨by simp [Table.empty], by simp, by simp, by simp⟩

theorem stdinTruthful_init (h : machine.init s) : StdinTruthful s := by
  obtain ⟨ht, -, -, hst, -, hwr, ha, -⟩ := h
  exact ⟨by simp [ht, Table.empty], by simp [hst], by simp [hwr], by simp [ha]⟩

/-! ### Closed for good -/

/-- The handle was given, and no record of it says `Open`, in the table or on the way there. -/
def ClosedFor (handle : String) (s : State) : Prop :=
  handle ∈ s.world.drawn ∧
    (∀ run ∈ s.table.runs, run.handle = handle → run.record.stdinMode ≠ some .opened) ∧
      ∀ run ∈ s.starting, run.handle ≠ handle

/-- A table whose runs are those of the one before, none of them opened. -/
theorem ClosedFor.told {handle : String} (hs : ClosedFor handle s) {adopting : List Measured}
    {writing : List Writing} {answers : List Answer} {origins : String → Option Nat}
    (hd : s.world.drawn ⊆ w.drawn)
    (ht : ∀ run' ∈ t.runs, run'.record.stdinMode = some .opened → ∃ run ∈ s.table.runs,
      run.handle = run'.handle ∧ run.record.stdinMode = some .opened) :
    ClosedFor handle ⟨t, w, s.starting, adopting, writing, answers, origins⟩ := by
  refine ⟨hd hs.1, fun run' hrun' hh hopen => ?_, hs.2.2⟩
  obtain ⟨run, hrun, hh', hopen'⟩ := ht run' hrun' hopen
  exact hs.2.1 run hrun (hh'.trans hh) hopen'

/-- A run written back that was not opened meanwhile. -/
theorem put_opened (hrun : run ∈ t.runs) (hh : run'.handle = run.handle)
    (hmode : run'.record.stdinMode = some .opened → run.record.stdinMode = some .opened) :
    ∀ r' ∈ (t.put run').runs, r'.record.stdinMode = some .opened →
      ∃ r ∈ t.runs, r.handle = r'.handle ∧ r.record.stdinMode = some .opened := by
  intro r' hr' hopen
  rcases Table.mem_put hr' with rfl | ⟨hr', -⟩
  · exact ⟨run, hrun, hh.symm, hmode hopen⟩
  · exact ⟨r', hr', rfl, hopen⟩

theorem Refreshed.mode (h : Refreshed run run') :
    run'.record.stdinMode = run.record.stdinMode := by
  obtain ⟨_, _, _, _, _, rfl⟩ := h
  rfl

theorem same_opened (t : Table) : ∀ run' ∈ t.runs, run'.record.stdinMode = some .opened →
    ∃ run ∈ t.runs, run.handle = run'.handle ∧ run.record.stdinMode = some .opened :=
  fun run hrun hopen => ⟨run, hrun, rfl, hopen⟩

/-- **One move opens no stdin again.** -/
theorem closedFor_step {handle : String} (hs : ClosedFor handle s)
    (h : machine.step s l = some s') : ClosedFor handle s' := by
  have hm : Moves (fun _ => True) _ _ _ := step_spec (fun _ _ => trivial) h
  cases hm with
  | time hw => exact hs.told (hw.2.2 ▸ fun _ h => h) (same_opened _)
  | loaded hkept ht =>
      refine hs.told (hkept.2.2 ▸ fun _ h => h) fun run hrun hopen => ?_
      rcases ht with rfl | ⟨-, -, hfrom⟩
      · exact ⟨run, hrun, rfl, hopen⟩
      · exact absurd hopen (hfrom run hrun).closed.1
  | launched ht hl =>
      refine ⟨hl.drawn ▸ List.mem_cons_of_mem _ hs.1, hs.2.1, fun run hrun => ?_⟩
      rcases List.mem_append.mp hrun with hrun | hrun
      · exact hs.2.2 run hrun
      · rw [List.mem_singleton.mp hrun]
        rintro rfl
        exact hl.fresh hs.1
  | inserted hi =>
      refine ⟨hs.1, fun run hrun hh => ?_, fun run hrun => hs.2.2 run (List.mem_of_mem_eraseIdx hrun)⟩
      rcases Table.mem_insert.mp hrun with rfl | ⟨hrun, -⟩
      · exact absurd hh (hs.2.2 _ (List.mem_of_getElem? hi))
      · exact hs.2.1 run hrun hh
  | measured ht hw => exact hs.told (hw.2.2 ▸ fun _ h => h) (same_opened _)
  | committed hi hc =>
      cases hc with
      | refused e hw | already hrun hw => exact hs.told (hw.2.2 ▸ fun _ h => h) (same_opened _)
      | inserted startedAtUnix hnone fresh drawn written =>
          refine ⟨drawn ▸ List.mem_cons_of_mem _ hs.1, fun run hrun hh => ?_, hs.2.2⟩
          rcases Table.mem_insert.mp hrun with rfl | ⟨hrun, -⟩
          · simp [adoptedRecord]
          · exact hs.2.1 run hrun hh
  | refreshed hw ht =>
      refine hs.told (hw.2.2 ▸ fun _ h => h) fun run' hrun' hopen => ?_
      obtain ⟨run, hrun, hr, -⟩ := ht.2 run' hrun'
      exact ⟨run, hrun, hr.handle.symm, hr.mode ▸ hopen⟩
  | stopped ht hst =>
      cases hst with
      | refused e hw => exact hs.told (hw.2.2 ▸ fun _ h => h) (same_opened _)
      | dropped outcome verified hget hr hstate hchild hfiles hlater hdrawn hdead =>
          exact hs.told (hdrawn ▸ fun _ h => h)
            (put_opened (Table.get?_mem hget).1 hr.handle fun h => hr.mode ▸ h)
      | signaled verified hget hr hstate hchild hw =>
          exact hs.told (hw.2.2 ▸ fun _ h => h)
            (put_opened (Table.get?_mem hget).1 hr.handle fun h => hr.mode ▸ h)
  | unchecked hc =>
      cases hc with
      | unknown e hw => exact hs.told (hw.2.2 ▸ fun _ h => h) (same_opened _)
      | refused e hget hr hstate hw =>
          exact hs.told (hw.2.2 ▸ fun _ h => h)
            (put_opened (Table.get?_mem hget).1 hr.handle fun h => hr.mode ▸ h)
  | checked ht hc =>
      cases hc with
      | taken hget hstdin hmode hstate hw =>
          exact hs.told (hw.2.2 ▸ fun _ h => h) (put_opened (Table.get?_mem hget).1 rfl id)
  | finished hi hf =>
      cases hf with
      | vanished r hget hw => exact hs.told (hw.2.2 ▸ fun _ h => h) (same_opened _)
      | recorded r hget hrun written drawn =>
          refine hs.told (drawn ▸ fun _ h => h) (put_opened (Table.get?_mem hget).1 ?_ ?_)
          · rcases hrun with rfl | rfl | rfl <;> rfl
          · rcases hrun with rfl | rfl | rfl <;> simp [ManagedRun.closeStdin]
  | abandoned => exact hs
  | restarted => exact ⟨hs.1, by simp [Table.empty], by simp⟩

/-! ### The main result -/

/-- What a move of a `write` up to its await may do to the writes under way. -/
def TakesOpen (s s' : State) (p : WriteParams) : Prop :=
  s'.writing = s.writing ∨ ∃ run pipe, s.table.get? p.handle = some run ∧
    run.record.stdinMode = some .opened ∧ run.stdin = some pipe ∧
      s'.writing = s.writing ++ [⟨p, pipe, some run⟩]

theorem takesOpen_step {p : WriteParams} {script : Script}
    (h : machine.step s (.write p script) = some s') : TakesOpen s s' p := by
  have hm : Moves (fun _ => True) _ _ _ := step_spec (fun _ _ => trivial) h
  cases hm with
  | time hw => exact .inl rfl
  | refreshed hw ht => exact .inl rfl
  | unchecked hc => exact .inl rfl
  | @checked _ _ w t pipe ht hc =>
      cases hc with
      | @taken run _ hget hstdin hmode hstate hw =>
          exact .inr ⟨run, pipe, hget, hmode, hstdin, by rw [hget]⟩

/-- **The stdin channel tells the truth.**  In every reachable state a record says `Open` exactly
if its entry holds the write end, and every `write` that waits for its pipe, or has been answered
after it, took it from a record that was `Open`; the move that takes it finds the record so; and a
record that is not `Open` is not in any later state. -/
theorem stdin_truthful (hr : machine.Reach s) :
    (∀ run ∈ s.table.runs, run.record.stdinMode = some .opened ↔ run.stdin.isSome = true) ∧
    (∀ wr ∈ s.writing, wr.FromOpen) ∧
    (∀ wr r, Answer.wrote wr r ∈ s.answers → wr.FromOpen) ∧
    (∀ p script s', machine.step s (.write p script) = some s' → TakesOpen s s' p) ∧
    ∀ ls s', machine.Run Machine.Any s ls s' → ∀ run ∈ s.table.runs,
      run.record.stdinMode ≠ some .opened → ∀ run' ∈ s'.table.runs, run'.handle = run.handle →
        run'.record.stdinMode ≠ some .opened := by
  have hs : StdinTruthful s :=
    hr.invariant (fun _ => stdinTruthful_init) fun _ _ _ hs h => stdinTruthful_step hs h
  have hk : Keyed s := hr.invariant (fun _ => keyed_init) fun _ _ _ hk h => keyed_step hk h
  refine ⟨hs.table, hs.writing, fun wr r ha => hs.answers _ ha wr rfl,
    fun p script s' => takesOpen_step, fun ls s' hrun run hmem hmode => ?_⟩
  have hclosed : ClosedFor run.handle s := by
    refine ⟨hk.table run hmem, fun r hr hh => ?_, fun r hr => (hk.apart r hr run hmem).symm⟩
    rw [Table.handle_unique hr hmem hh]
    exact hmode
  have hend := hrun.invariant (fun _ _ _ hs _ h => closedFor_step hs h) hclosed
  exact hend.2.1

/-- An interactive run with its write end there, and another of a `write` that waits for it. -/
def openZero (s : State) : Bool :=
  s.table.runs.any (fun run => run.record.stdinMode = some .opened) && !s.writing.isEmpty

/-- A `write` that waits has its pipe from an open record. -/
theorem writeWaits_truthful : ∃ s, machine.Reach s ∧ openZero s = true ∧
    (∀ run ∈ s.table.runs, run.record.stdinMode = some .opened ↔ run.stdin.isSome = true) ∧
    (∀ wr ∈ s.writing, wr.FromOpen) := by
  obtain ⟨s, hr, hb⟩ := Machine.run_of_exec_any (M := machine) (C := Machine.Any)
    Machine.guarded_any (show (machine.exec phoneStart writeWaits).any openZero = true by
      rfl)
  have hreach : machine.Reach s := ⟨_, _, init_phoneStart, hr⟩
  have h := stdin_truthful hreach
  exact ⟨s, hreach, hb, h.1, h.2.1⟩

end RevBox.Hosted
