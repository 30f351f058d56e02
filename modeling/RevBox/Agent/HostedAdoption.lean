import RevBox.Agent.HostedHandles
import RevBox.Agent.HostedLiveness

/-!
# Agent — HostedAdoption

What an `adopt` hands out.  A record says which process it is about by its pid and start time; the
second lock of `adopt` looks for a record of the process by the pid alone, and among the records
last seen running.

* `adoption_identity`: `adopt` hands out a record of the process it measured, and no process has
  two, in every run in which the pid alone does not mislead it and no start puts down an identity
  that is taken.
* `stale_record_adopted`, `adopted_twice`: neither part of the condition can be left out.
-/

namespace RevBox.Hosted

open Proc Device

/-! ### What a record is about -/

/-- The handle of a record, and the process it is about. -/
def RunRecord.key (r : RunRecord) : String × Nat × Nat := (r.handle, r.pid, r.startTimeTicks)

/-- The record a file holds. -/
def Stored.record? : Stored → Option RunRecord
  | .record r => some r
  | .garbled => none

/-- The keys of all records: of the table, of the starts under way, and of the disk. -/
def State.keys (s : State) : List (String × Nat × Nat) :=
  s.table.runs.map (fun run => run.record.key) ++ (s.starting.map fun run => run.record.key) ++
    s.world.files.filterMap fun f => f.2.record?.map RunRecord.key

/-- No record is about this process. -/
def State.Vacant (s : State) (pid ticks : Nat) : Prop := ∀ k ∈ s.keys, k.2 ≠ (pid, ticks)

instance (s : State) (pid ticks : Nat) : Decidable (s.Vacant pid ticks) :=
  inferInstanceAs (Decidable (∀ k ∈ s.keys, k.2 ≠ (pid, ticks)))

/-- The record is of the process measured, under the name it was asked for. -/
def RunRecord.Of (r : RunRecord) (m : Measured) : Prop :=
  r.name = m.params.name ∧ r.pid = m.params.pid ∧ r.startTimeTicks = m.ticks

instance (r : RunRecord) (m : Measured) : Decidable (r.Of m) :=
  inferInstanceAs (Decidable (_ ∧ _))

/-! ### The condition -/

/-- Where records of the pid were last seen running, they are of the process measured; where none
was, no record is about it. -/
def Unmistakable (s : State) (m : Measured) : Prop :=
  (∀ run ∈ sameRunning s.table m.params.pid, run.record.Of m) ∧
    (sameRunning s.table m.params.pid = [] → s.Vacant m.params.pid m.ticks)

instance (s : State) (m : Measured) : Decidable (Unmistakable s m) :=
  inferInstanceAs (Decidable (_ ∧ (_ → _)))

/-- The condition, of a move. -/
def Tellable (s : State) : Label → Prop
  | .commit i _ => ∀ m ∈ s.adopting[i]?, Unmistakable s m
  | .start p script => ∀ s' ∈ s.step (.start p script), ∀ run ∈ s'.starting,
      run ∈ s.starting ∨ s.Vacant run.record.pid run.record.startTimeTicks
  | _ => True

instance (s : State) : (l : Label) → Decidable (Tellable s l)
  | .commit i _ => inferInstanceAs (Decidable (∀ m ∈ s.adopting[i]?, _))
  | .start p script => inferInstanceAs (Decidable (∀ s' ∈ s.step (.start p script), _))
  | .kernel _ | .load _ | .insert _ | .adopt _ _ | .status _ _ | .list _ | .stop _ _ | .write _ _
  | .finish _ _ _ | .abandon _ | .restart => .isTrue trivial

/-! ### What an `adopt` may do -/

/-- The table and the records on disk are as they were. -/
def SameRecords (s s' : State) : Prop := s'.table = s.table ∧ s'.world.files = s.world.files

/-- **The ways an `adopt` of the process measured may end**: refused; answered with a record of
that process that is there; or one new record of it, running. -/
inductive Adopts (s s' : State) (m : Measured) : Prop where
  | refused (e : AgentError) (hsame : SameRecords s s')
      (hanswer : s'.answers = s.answers ++ [.adopted m (.error e)])
  | already (run : ManagedRun) (hrun : run ∈ s.table.runs) (hrunning : run.record.state = .running)
      (hof : run.record.Of m) (hsame : SameRecords s s')
      (hanswer : s'.answers = s.answers ++ [.adopted m (.ok ⟨run.record, m.proofs, true⟩)])
  | inserted (run : ManagedRun) (hnew : ∀ k ∈ s.keys, k.1 ≠ run.handle)
      (hrunning : run.record.state = .running) (hof : run.record.Of m)
      (hroot : run.record.root = decide (m.uid = some 0)) (htable : s'.table = s.table.insert run)
      (hanswer : s'.answers = s.answers ++ [.adopted m (.ok ⟨run.record, m.proofs, false⟩)])

/-- The process was measured: it had the pid asked for and the start time put down. -/
def Seen (w : World) (p : AdoptParams) (m : Measured) : Prop :=
  m.params = p ∧ ∃ w₁, Waited w w₁ ∧ ∃ q ∈ w₁.kernel.processes, q.pid = p.pid ∧ q.ticks = m.ticks

/-- **What a move of an `adopt` may do**: up to its second lock it changes nothing, and brings
along what it measured of the process; from its second lock on it ends as `Adopts` says. -/
def AdoptsRightly (s s' : State) : Label → Prop
  | .adopt p _ => SameRecords s s' ∧ s'.answers = s.answers ∧
      (s'.adopting = s.adopting ∨ ∃ m, Seen s.world p m ∧ s'.adopting = s.adopting ++ [m])
  | .commit i _ => ∃ m, s.adopting[i]? = some m ∧ Adopts s s' m
  | _ => True

/-- No two running records are about one process. -/
def OneEach (s : State) : Prop :=
  ∀ run₁ ∈ s.table.runs, ∀ run₂ ∈ s.table.runs, run₁.record.state = .running →
    run₂.record.state = .running → run₁.record.pid = run₂.record.pid →
      run₁.record.startTimeTicks = run₂.record.startTimeTicks → run₁ = run₂

/-! ### The invariant -/

/-- Records about one process are of one handle. -/
def Distinct (s : State) : Prop := ∀ k ∈ s.keys, ∀ k' ∈ s.keys, k.2 = k'.2 → k.1 = k'.1

variable {s s' : State} {l : Label} {ok : Choice → Prop} {w : World} {t : Table}
  {run run' : ManagedRun} {record : RunRecord} {m : Measured}

theorem mem_keys {k : String × Nat × Nat} : k ∈ s.keys ↔
    (∃ run ∈ s.table.runs, run.record.key = k) ∨ (∃ run ∈ s.starting, run.record.key = k) ∨
      ∃ f ∈ s.world.files, ∃ record, f.2 = .record record ∧ record.key = k := by
  have hrec : ∀ c : Stored, c.record?.map RunRecord.key = some k ↔
      ∃ record, c = .record record ∧ record.key = k := by
    intro c
    cases c <;> simp [Stored.record?]
  simp only [State.keys, List.mem_append, List.mem_map, List.mem_filterMap, hrec, or_assoc]

/-- Nothing new is on record. -/
theorem Distinct.mono (hs : Distinct s) (h : s'.keys ⊆ s.keys) : Distinct s' :=
  fun k hk k' hk' => hs k (h hk) k' (h hk')

/-- One key is new, and its process was on no record. -/
theorem Distinct.cons (hs : Distinct s) (handle : String) {pid ticks : Nat}
    (hv : s.Vacant pid ticks) (h : s'.keys ⊆ (handle, pid, ticks) :: s.keys) : Distinct s' := by
  intro k hk k' hk' heq
  rcases List.mem_cons.mp (h hk) with rfl | hk
  · rcases List.mem_cons.mp (h hk') with rfl | hk'
    · rfl
    · exact absurd heq.symm (hv k' hk')
  · rcases List.mem_cons.mp (h hk') with rfl | hk'
    · exact absurd heq (hv k hk)
    · exact hs k hk k' hk' heq

/-- What a record written to disk leaves there is on record, or is the record. -/
theorem keys_written {handle : String} (hw : Written s.world w handle record)
    {starting : List ManagedRun} {adopting : List Measured} {writing : List Writing}
    {answers : List Answer} {origins : String → Option Nat} {ks : List (String × Nat × Nat)}
    (hks : s.keys ⊆ ks) (hrecord : record.key ∈ ks)
    (ht : ∀ run ∈ t.runs, run.record.key ∈ ks) (hst : ∀ run ∈ starting, run.record.key ∈ ks) :
    State.keys ⟨t, w, starting, adopting, writing, answers, origins⟩ ⊆ ks := by
  intro k hk
  rcases mem_keys.mp hk with ⟨run, hrun, rfl⟩ | ⟨run, hrun, rfl⟩ | ⟨f, hf, r, hr, rfl⟩
  · exact ht run hrun
  · exact hst run hrun
  · rcases hw.2 f hf with hf | ⟨-, hf | hf⟩
    · exact hks (mem_keys.mpr (.inr (.inr ⟨f, hf, r, hr, rfl⟩)))
    · rw [hf] at hr
      cases hr
      exact hrecord
    · rw [hf] at hr
      cases hr

/-- Time has passed, files may be gone, and the runs have the keys of runs there were. -/
theorem keys_kept (hf : w.files ⊆ s.world.files) {starting : List ManagedRun}
    {adopting : List Measured} {writing : List Writing} {answers : List Answer}
    {origins : String → Option Nat} (ht : ∀ run ∈ t.runs, run.record.key ∈ s.keys)
    (hst : ∀ run ∈ starting, run.record.key ∈ s.keys) :
    State.keys ⟨t, w, starting, adopting, writing, answers, origins⟩ ⊆ s.keys := by
  intro k hk
  rcases mem_keys.mp hk with ⟨run, hrun, rfl⟩ | ⟨run, hrun, rfl⟩ | ⟨f, hin, r, hr, rfl⟩
  · exact ht run hrun
  · exact hst run hrun
  · exact mem_keys.mpr (.inr (.inr ⟨f, hf hin, r, hr, rfl⟩))

theorem table_keys (run : ManagedRun) (h : run ∈ s.table.runs) : run.record.key ∈ s.keys :=
  mem_keys.mpr (.inl ⟨run, h, rfl⟩)

theorem starting_keys (run : ManagedRun) (h : run ∈ s.starting) : run.record.key ∈ s.keys :=
  mem_keys.mpr (.inr (.inl ⟨run, h, rfl⟩))

theorem Refreshed.key (h : Refreshed run run') : run'.record.key = run.record.key := by
  obtain ⟨_, _, _, _, _, rfl⟩ := h
  rfl

/-- A run written back under its key. -/
theorem put_keys (hrun : run ∈ s.table.runs) (hk : run'.record.key = run.record.key) :
    ∀ r ∈ (s.table.put run').runs, r.record.key ∈ s.keys := by
  intro r hr
  rcases Table.mem_put hr with rfl | ⟨hr, -⟩
  · exact hk ▸ table_keys run hrun
  · exact table_keys r hr

section

variable {adopting : List Measured} {writing : List Writing} {answers : List Answer}
  {origins : String → Option Nat}

/-- Time has passed, and files may be gone. -/
theorem Distinct.kept (hs : Distinct s) (hf : w.files ⊆ s.world.files) :
    Distinct ⟨s.table, w, s.starting, adopting, writing, answers, origins⟩ :=
  hs.mono (keys_kept hf table_keys starting_keys)

/-- So has it where a run is written back under its key. -/
theorem Distinct.put (hs : Distinct s) (hf : w.files ⊆ s.world.files) (hrun : run ∈ s.table.runs)
    (hk : run'.record.key = run.record.key) :
    Distinct ⟨s.table.put run', w, s.starting, adopting, writing, answers, origins⟩ :=
  hs.mono (keys_kept hf (put_keys hrun hk) starting_keys)

end

/-- The files of a phone on which nothing but time has passed. -/
theorem Waited.files_subset {w' : World} (hw : Waited w w') : w'.files ⊆ w.files :=
  hw.kept.2.1

theorem distinct_committed {i : Nat} {r : Table × Except AgentError AdoptResult}
    (hs : Distinct s) (hu : Unmistakable s m) (hc : Committed s.world w s.table m r) :
    Distinct (State.committed { s with world := w } i m r) := by
  cases hc with
  | refused e hw | already hrun hw =>
      exact hs.kept hw.files_subset
  | @inserted handle startedAtUnix hnone fresh drawn written =>
      refine hs.cons handle (hu.2 hnone)
        (keys_written written (List.subset_cons_self _ _) List.mem_cons_self (fun r hr => ?_)
          fun r hr => List.mem_cons_of_mem _ (starting_keys r hr))
      rcases Table.mem_insert.mp hr with rfl | ⟨hr, -⟩
      · exact List.mem_cons_self
      · exact List.mem_cons_of_mem _ (table_keys r hr)

theorem distinct_stopped {p : StopParams} {r : Table × Except AgentError StopResult}
    (hs : Distinct s) (h : Stopped ok s.world w s.table p r) :
    Distinct { s with world := w, table := r.1, answers := s.answers ++ [.stopped p r.2] } := by
  cases h with
  | refused e hw =>
      exact hs.kept hw.files_subset
  | dropped outcome verified hget hr hstate hchild hfiles hlater hdrawn hdead =>
      refine hs.put ?_ (Table.get?_mem hget).1 hr.key
      rcases hfiles with ⟨-, hf⟩ | ⟨-, hf⟩
      · rw [hf]
        exact List.filter_sublist.subset
      · rw [hf]
        exact fun _ h => h
  | signaled verified hget hr hstate hchild hw =>
      exact hs.put hw.files_subset (Table.get?_mem hget).1 hr.key

theorem distinct_finished {i : Nat} {wr : Writing} {r : Table × Except AgentError WriteResult}
    (hs : Distinct s) (hf : Finished s.world w s.table wr.params r) :
    Distinct { s with
      world := w, table := r.1, writing := s.writing.eraseIdx i
      answers := s.answers ++ [.wrote wr r.2] } := by
  cases hf with
  | vanished r hget hw =>
      exact hs.kept hw.files_subset
  | @recorded run run' r hget hrun written drawn =>
      have hkey : run'.record.key = run.record.key := by
        rcases hrun with rfl | rfl | rfl <;> rfl
      have hmem := (Table.get?_mem hget).1
      exact hs.mono (keys_written written (fun _ h => h) (hkey ▸ table_keys run hmem)
        (put_keys hmem hkey) starting_keys)

/-- **One move keeps the records apart**, where the pid alone does not mislead an `adopt`. -/
theorem distinct_step (hk : Keyed s) (hs : Distinct s) (hg : Tellable s l)
    (h : machine.step s l = some s') : Distinct s' := by
  have hm : Moves (fun _ => True) _ _ _ := step_spec (fun _ _ => trivial) h
  cases hm with
  | time hw => exact hs.kept hw.files_subset
  | loaded hkept ht =>
      refine hs.mono (keys_kept hkept.2.1 (fun run hrun => ?_) starting_keys)
      rcases ht with rfl | ⟨-, -, hfrom⟩
      · exact table_keys run hrun
      · obtain ⟨stem, record, state, detail, hf, rfl, -⟩ := hfrom run hrun
        exact mem_keys.mpr (.inr (.inr ⟨_, hf, record, rfl, rfl⟩))
  | @launched p script w run ht hl =>
      have hv : s.Vacant run.record.pid run.record.startTimeTicks := by
        rcases hg _ h run (List.mem_append_right _ List.mem_cons_self) with hin | hv
        · exact absurd (hk.starting run hin) hl.fresh
        · exact hv
      refine hs.cons run.handle hv
        (keys_written hl.written (List.subset_cons_self _ _) List.mem_cons_self
          (fun r hr => List.mem_cons_of_mem _ (table_keys r hr)) fun r hr => ?_)
      rcases List.mem_append.mp hr with hr | hr
      · exact List.mem_cons_of_mem _ (starting_keys r hr)
      · rw [List.mem_singleton.mp hr]
        exact List.mem_cons_self
  | inserted hi =>
      refine hs.mono (keys_kept (fun _ h => h) (fun r hr => ?_)
        fun r hr => starting_keys r (List.mem_of_mem_eraseIdx hr))
      rcases Table.mem_insert.mp hr with rfl | ⟨hr, -⟩
      · exact starting_keys _ (List.mem_of_getElem? hi)
      · exact table_keys r hr
  | measured ht hw =>
      exact hs.kept hw.files_subset
  | committed hi hc => exact distinct_committed hs (hg _ hi) hc
  | refreshed hw ht =>
      refine hs.mono (keys_kept hw.files_subset (fun run' hrun' => ?_) starting_keys)
      obtain ⟨run, hrun, hr, -⟩ := ht.2 run' hrun'
      exact hr.key ▸ table_keys run hrun
  | stopped ht hst => exact distinct_stopped hs hst
  | unchecked hc =>
      cases hc with
      | unknown e hw =>
          exact hs.kept hw.files_subset
      | refused e hget hr hstate hw =>
          exact hs.put hw.files_subset (Table.get?_mem hget).1 hr.key
  | checked ht hc =>
      cases hc with
      | taken hget hstdin hmode hstate hw =>
          exact hs.put hw.files_subset (Table.get?_mem hget).1 rfl
  | finished hi hf => exact distinct_finished hs hf
  | abandoned => exact hs
  | restarted =>
      exact hs.mono (keys_kept (fun _ h => h) (by simp [Table.empty]) (by simp))

/-! ### What an `adopt` measures -/

/-- A process found fit is the one asked for, with the start time its `stat` shows. -/
theorem measure_safe {p : AdoptParams} {path : String} {stat : List Char} {w : World} :
    Ends ok w (measure p path stat) fun r w' => Waited w w' ∧
      ∀ m, r = .ok m → m.params = p ∧ parseStartTimeTicks stat = some m.ticks := by
  unfold measure
  split
  · exact ends_pure ⟨.refl w, fun _ h => by cases h⟩
  · split
    · exact ends_pure ⟨.refl w, fun _ h => by cases h⟩
    · rename_i ticks hticks
      refine ends_op fun w₁ hw₁ x₁ _ cmdline w₁' h₁ => ?_
      obtain rfl := asks_spec (o := .readCmdline _) trivial h₁
      refine ends_op fun w₂ hw₂ x₂ _ exe w₂' h₂ => ?_
      obtain rfl := asks_spec (o := .readExe _) trivial h₂
      refine ends_op fun w₃ hw₃ x₃ _ status w₃' h₃ => ?_
      obtain rfl := asks_spec (o := .readStatus _) trivial h₃
      refine ends_op fun w₄ hw₄ x₄ _ procStat w₄' h₄ => ?_
      obtain rfl := asks_spec (o := .readProcStat) trivial h₄
      refine ends_op fun w₅ hw₅ x₅ _ now w₅' h₅ => ?_
      obtain rfl := asks_spec (o := .unixNow) trivial h₅
      have hw := (((hw₁.trans hw₂).trans hw₃).trans hw₄).trans hw₅
      split
      · exact ends_pure ⟨hw, fun _ h => by cases h⟩
      · refine ends_pure ⟨hw, fun m h => ?_⟩
        cases h
        exact ⟨rfl, hticks⟩

/-- **What `adopt` has measured when it comes to its second lock.** -/
theorem adoptLoaded_safe {p : AdoptParams} {w : World} :
    Ends ok w (adoptLoaded p) fun r w' => Waited w w' ∧ ∀ m, r = .ok m → Seen w p m := by
  unfold adoptLoaded
  split
  · exact ends_pure ⟨.refl w, fun _ h => by cases h⟩
  · split
    · exact ends_pure ⟨.refl w, fun _ h => by cases h⟩
    · refine ends_op fun w₁ hw₁ x₁ _ r₁ w₁' h₁ => ?_
      obtain rfl := asks_spec (o := .metadata _) trivial h₁
      cases r₁ with
      | error e => exact ends_pure ⟨hw₁, fun _ h => by cases h⟩
      | ok metadata =>
          dsimp only
          split
          · exact ends_pure ⟨hw₁, fun _ h => by cases h⟩
          · refine ends_op fun w₂ hw₂ x₂ _ r₂ w₂' h₂ => ?_
            obtain ⟨rfl, hstat⟩ := readStat_spec h₂
            have hw := hw₁.trans hw₂
            rcases hstat with ⟨q, f, hf, rfl⟩ | ⟨text, rfl, -⟩
            · refine measure_safe.mono fun r w' h => ?_
              obtain ⟨hw', hm⟩ := h
              refine ⟨hw.trans hw', fun m hr => ?_⟩
              obtain ⟨hmem, hpid⟩ := Kernel.find_mem hf
              obtain ⟨hp, hticks⟩ := hm m hr
              rw [Process.startTime_read f (w₂'.kernel.ticks q hmem)] at hticks
              exact ⟨hp, w₂', hw, q, hmem, hpid, Option.some.inj hticks⟩
            · exact ends_pure ⟨hw, fun _ h => by cases h⟩

/-! ### The main result -/

theorem adopts_committed (hk : Keyed s) {i : Nat} {r : Table × Except AgentError AdoptResult}
    (hu : Unmistakable s m) (hc : Committed s.world w s.table m r) :
    Adopts s (State.committed { s with world := w } i m r) m := by
  cases hc with
  | refused e hw => exact .refused e ⟨rfl, hw.2.1⟩ rfl
  | @already run hrun hw =>
      obtain ⟨hmem, hsame⟩ := List.mem_filter.mp hrun
      have hrunning : run.record.state = .running := by
        simp only [Bool.and_eq_true, decide_eq_true_eq] at hsame
        exact hsame.2
      exact .already run hmem hrunning (hu.1 run hrun) ⟨rfl, hw.2.1⟩ rfl
  | @inserted handle startedAtUnix hnone fresh drawn written =>
      refine .inserted ⟨adoptedRecord handle m startedAtUnix, none, none, .adopted⟩
        (fun k hk' hh => ?_) rfl ⟨rfl, rfl, rfl⟩ rfl rfl rfl
      -- a handle on record was drawn before
      rcases mem_keys.mp hk' with ⟨run, hrun, rfl⟩ | ⟨run, hrun, rfl⟩ | ⟨f, hf, r, hr, rfl⟩
      · have hh : run.handle = handle := hh
        exact fresh (hh ▸ hk.table run hrun)
      · have hh : run.handle = handle := hh
        exact fresh (hh ▸ hk.starting run hrun)
      · obtain ⟨hin, hrec⟩ := hk.files f hf
        have hh : r.handle = handle := hh
        exact fresh (hh ▸ (hrec r hr) ▸ hin)

/-- A move of an `adopt` does what it may. -/
theorem adoptsRightly_step (hk : Keyed s) (hg : Tellable s l) (h : machine.step s l = some s') :
    AdoptsRightly s s' l := by
  change s.step l = some s' at h
  cases l with
  | adopt p script =>
      simp only [State.step] at h
      split at h
      · rename_i ht
        have hc : Ends (fun _ => True) s.world (adoptMeasure s.table p) fun r w =>
            r.1 = s.table ∧ Waited s.world w ∧ ∀ m, r.2 = .ok m → Seen s.world p m :=
          ends_loaded ht (ends_bind adoptLoaded_safe fun r w h => ends_pure ⟨rfl, h⟩)
        obtain ⟨⟨t, r⟩, w, ⟨rfl, hw, hm⟩, rfl⟩ := call_spec hc (fun _ _ => trivial) h
        cases r with
        | ok m => exact ⟨⟨rfl, hw.2.1⟩, rfl, .inr ⟨m, hm m rfl, rfl⟩⟩
        | error e => exact ⟨⟨rfl, hw.2.1⟩, rfl, .inl rfl⟩
      · cases h
  | commit i script =>
      simp only [State.step] at h
      split at h
      · rename_i m hi
        obtain ⟨r, w, hr, rfl⟩ := @call_spec (fun _ => True) _ _ _ _ _ _ _ adoptCommit_safe
          (fun _ _ => trivial) h
        exact ⟨m, hi, adopts_committed hk (hg m hi) hr⟩
      · cases h
  | _ => trivial

theorem distinct_init (h : machine.init s) : Distinct s := by
  obtain ⟨ht, hf, -, hst, -⟩ := h
  intro k hk
  rcases mem_keys.mp hk with ⟨run, hrun, -⟩ | ⟨run, hrun, -⟩ | ⟨f, hin, -⟩
  · simp [ht, Table.empty] at hrun
  · simp [hst] at hrun
  · simp [hf] at hin

/-- **`adopt` hands out a record of the process it measured, and no process has two records
last seen running**, in every run in which the pid alone does not mislead an `adopt`, and no start
puts down an identity that is on record. -/
theorem adoption_identity {s₀ : State} {ls : List Label} (h₀ : machine.init s₀)
    (hr : machine.Run Tellable s₀ ls s) : OneEach s ∧
      ∀ l s', Tellable s l → machine.step s l = some s' → AdoptsRightly s s' l := by
  have hs := hr.invariant (I := fun s => Keyed s ∧ Distinct s)
    (fun _ _ _ hs hg h => ⟨keyed_step hs.1 h, distinct_step hs.1 hs.2 hg h⟩)
    ⟨keyed_init h₀, distinct_init h₀⟩
  refine ⟨fun run₁ h₁ run₂ h₂ _ _ hpid hticks => ?_, fun l s' hg h =>
    adoptsRightly_step hs.1 hg h⟩
  refine Table.handle_unique h₁ h₂ (hs.2 _ (table_keys run₁ h₁) _ (table_keys run₂ h₂) ?_)
  exact Prod.ext hpid hticks

/-! ### Runs -/

/-- `/data/local/tmp/server` as `/proc/<pid>/cmdline` has it. -/
def serverCmdline : List UInt8 :=
  "/data/local/tmp/server".toList.map (fun c => UInt8.ofNat c.toNat) ++ [0]

/-- An `adopt` of `server` under this pid, up to its second lock, after these moves of the phone. -/
def adoptServer (before : List Kernel.Move) (pid : Nat) : Label :=
  .adopt { name := "server", pid := pid, root := true }
    [(before, .metadata (.ok ⟨true, 0o755⟩)), ([], .stat statFields),
      ([], .bytes (some serverCmdline)), ([], .exe (some "/data/local/tmp/server")),
      ([], .text (some "Uid:\t0\t0\t0\t0\n".toList)),
      ([], .text (some "btime 1700000000\n".toList)), ([], .number 1700000060)]

/-- The second lock of an `adopt` that finds no record of the pid; its handle is these bytes. -/
def commitNew (byte : UInt8) : Label :=
  .commit 0 [([], .random (List.replicate 8 byte)), ([], .stored [])]

/-- The second lock of an `adopt` that finds a record of the pid. -/
def commitKnown : Label := .commit 0 [([], .number 0)]

/-- Process 500 is adopted and ends; another `server` gets its pid and is measured. -/
def reusedPid : List Label :=
  [.load [([], .listed none)], adoptServer [.spawn 500 4200] 500, commitNew 0,
    adoptServer [.exit 1, .reap 1, .spawn 500 5100] 500]

/-- A child is adopted between the two locks of its start. -/
def adoptedChild : List Label :=
  [.load [([], .listed none)], startServer false 321 4200 (.stat statFields) 0,
    adoptServer [] 321, commitNew 1, .insert 0]

/-- A start, and a process adopted two times. -/
def adoptedAgain : List Label :=
  [.load [([], .listed none)], startServer false 321 4200 (.stat statFields) 0, .insert 0,
    adoptServer [.spawn 500 4300] 500, commitNew 1, adoptServer [] 500, commitKnown]

/-- The next `adopt` to come to its second lock is answered with a record of another process. -/
def handsOutOther (s : State) : Bool :=
  (s.step commitKnown).any fun s' =>
    match s'.answers.getLast? with
    | some (.adopted m (.ok result)) => !decide (result.record.Of m)
    | _ => false

/-- Two running records are about one process. -/
def recordedTwice (s : State) : Bool :=
  s.table.runs.any fun run₁ => s.table.runs.any fun run₂ =>
    run₁.record.state = .running && run₂.record.state = .running && run₁ ≠ run₂ &&
      run₁.record.pid = run₂.record.pid && run₁.record.startTimeTicks = run₂.record.startTimeTicks

theorem not_rightly_of_handsOutOther (h : handsOutOther s = true) :
    ∃ s', machine.step s commitKnown = some s' ∧ ¬ AdoptsRightly s s' commitKnown := by
  obtain ⟨s', hstep, h⟩ := (Option.any_eq_true _ _).mp h
  refine ⟨s', hstep, ?_⟩
  rintro ⟨m, -, ha⟩
  cases ha with
  | refused e hsame hanswer => simp [hanswer] at h
  | already run hrun hrunning hof hsame hanswer => simp [hanswer, hof] at h
  | inserted run hnew hrunning hof hroot htable hanswer => simp [hanswer, hof] at h

theorem not_oneEach_of_recordedTwice (h : recordedTwice s = true) : ¬ OneEach s := by
  simp only [recordedTwice, List.any_eq_true, Bool.and_eq_true, decide_eq_true_eq] at h
  obtain ⟨run₁, h₁, run₂, h₂, ⟨⟨⟨hr₁, hr₂⟩, hne⟩, hpid⟩, hticks⟩ := h
  exact fun hs => hne (hs run₁ h₁ run₂ h₂ hr₁ hr₂ hpid hticks)

/-- The record of a process that died is handed out for the one that has got its pid. -/
theorem stale_record_adopted : ¬ ∀ s₀ ls s, machine.init s₀ → machine.Run Machine.Any s₀ ls s →
    OneEach s ∧ ∀ l s', machine.step s l = some s' → AdoptsRightly s s' l := by
  intro h
  obtain ⟨s, hr, hb⟩ := Machine.run_of_exec_any (M := machine) (C := Machine.Any)
    Machine.guarded_any (show (machine.exec phoneStart reusedPid).any handsOutOther = true by
      decide +kernel)
  obtain ⟨s', hstep, hnot⟩ := not_rightly_of_handsOutOther hb
  exact hnot ((h _ _ s init_phoneStart hr).2 _ s' hstep)

/-- A process whose start is under way is put on record a second time. -/
theorem adopted_twice : ∃ s, machine.Run Machine.Any phoneStart adoptedChild s ∧ ¬ OneEach s := by
  obtain ⟨s, hr, hb⟩ := Machine.run_of_exec_any (M := machine) (C := Machine.Any)
    Machine.guarded_any (show (machine.exec phoneStart adoptedChild).any recordedTwice = true by
      decide +kernel)
  exact ⟨s, hr, not_oneEach_of_recordedTwice hb⟩

/-- The process adopted two times is handed out under its one record. -/
def handedOutTwice (s : State) : Bool :=
  match s.answers with
  | [.adopted _ (.ok r₁), .adopted _ (.ok r₂)] => !r₁.already && r₂.already && r₁.record = r₂.record
  | _ => false

theorem adoptedAgain_identity : ∃ s, machine.Run Tellable phoneStart adoptedAgain s ∧
    handedOutTwice s = true ∧ OneEach s ∧
      ∀ l s', Tellable s l → machine.step s l = some s' → AdoptsRightly s s' l := by
  obtain ⟨s, hr, hb⟩ := Machine.run_of_exec_any (M := machine) (C := Tellable)
    (by decide +kernel) (show (machine.exec phoneStart adoptedAgain).any handedOutTwice = true by
      decide +kernel)
  exact ⟨s, hr, hb, adoption_identity init_phoneStart hr⟩

end RevBox.Hosted
