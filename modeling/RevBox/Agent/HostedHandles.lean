import RevBox.Agent.HostedRuns

/-!
# Agent — HostedHandles

Handles of runs.  A handle in use was drawn from `/dev/urandom`, a start under way has one of its
own, and a record file is kept under the handle of its record.

* `keyed_step`: every move keeps it, whatever happens on the phone.
-/

namespace RevBox.Hosted

open Device

/-- A record file is that of a handle that was drawn, and of its record. -/
def FileKeyed (w : World) (f : String × Stored) : Prop :=
  f.1 ∈ w.drawn ∧ ∀ record, f.2 = .record record → record.handle = f.1

/-- **What every run keeps of the handles.** -/
structure Keyed (s : State) : Prop where
  table : ∀ run ∈ s.table.runs, run.handle ∈ s.world.drawn
  starting : ∀ run ∈ s.starting, run.handle ∈ s.world.drawn
  apart : ∀ run ∈ s.starting, ∀ r ∈ s.table.runs, r.handle ≠ run.handle
  distinct : (s.starting.map ManagedRun.handle).Nodup
  files : ∀ f ∈ s.world.files, FileKeyed s.world f
  unloaded : s.table.loaded = false →
    s.table.runs = [] ∧ s.starting = [] ∧ s.adopting = [] ∧ s.writing = [] ∧ s.answers = []

variable {s s' : State} {l : Label} {ok : Choice → Prop} {w : World} {t : Table}
  {run run' : ManagedRun} {record : RunRecord}

theorem FileKeyed.mono {f : String × Stored} (h : FileKeyed s.world f)
    (hd : s.world.drawn ⊆ w.drawn) : FileKeyed w f :=
  ⟨hd h.1, h.2⟩

/-- What a record written under its handle leaves on the disk. -/
theorem Keyed.written (hs : Keyed s) {handle : String} (hd : s.world.drawn ⊆ w.drawn)
    (hw : Written s.world w handle record) (hdrawn : handle ∈ w.drawn)
    (hrec : record.handle = handle) : ∀ f ∈ w.files, FileKeyed w f := by
  intro f hf
  rcases hw.2 f hf with hf | ⟨rfl, hf⟩
  · exact (hs.files f hf).mono hd
  · refine ⟨hdrawn, fun record' hr => ?_⟩
    rcases hf with hf | hf
    · rw [hf] at hr
      cases hr
      exact hrec
    · rw [hf] at hr
      cases hr

/-- Time has passed, and record files may be gone. -/
theorem Keyed.kept (hs : Keyed s) (hk : Kept s.world w) : Keyed { s with world := w } where
  table run hrun := hk.2.2 ▸ hs.table run hrun
  starting run hrun := hk.2.2 ▸ hs.starting run hrun
  apart := hs.apart
  distinct := hs.distinct
  files f hf := (hs.files f (hk.2.1 hf)).mono (hk.2.2 ▸ fun _ h => h)
  unloaded := hs.unloaded

/-- The runs are those of the table before, whatever else is said of them. -/
theorem Keyed.told (hs : Keyed s) {adopting : List Measured} {writing : List Writing}
    {answers : List Answer} (hd : w.drawn = s.world.drawn)
    (ht : ∀ run' ∈ t.runs, ∃ run ∈ s.table.runs, run.handle = run'.handle)
    (hfiles : ∀ f ∈ w.files, FileKeyed w f)
    (hu : t.loaded = false → t.runs = [] ∧ s.starting = [] ∧ adopting = [] ∧ writing = [] ∧
      answers = []) :
    Keyed { s with
      world := w, table := t, adopting := adopting, writing := writing, answers := answers } where
  table run hrun := by
    obtain ⟨r, hr, hh⟩ := ht run hrun
    exact hd ▸ hh ▸ hs.table r hr
  starting run hrun := hd ▸ hs.starting run hrun
  apart run hrun r hr := by
    obtain ⟨q, hq, hh⟩ := ht r hr
    exact hh ▸ hs.apart run hrun q hq
  distinct := hs.distinct
  files := hfiles
  unloaded := hu

/-- The files of a phone on which nothing but time has passed. -/
theorem Keyed.files_waited (hs : Keyed s) (hw : Waited s.world w) : ∀ f ∈ w.files, FileKeyed w f :=
  (hs.kept hw.kept).files

/-- A run written back under its handle. -/
theorem put_told (hrun : run ∈ t.runs) (hh : run'.handle = run.handle) :
    ∀ r' ∈ (t.put run').runs, ∃ r ∈ t.runs, r.handle = r'.handle := by
  intro r hr
  rcases Table.mem_put hr with rfl | ⟨hr, -⟩
  · exact ⟨run, hrun, hh.symm⟩
  · exact ⟨r, hr, rfl⟩

/-- What a list comes from that cannot be empty is a loaded table. -/
theorem Keyed.loaded (hs : Keyed s)
    (h : s.starting ≠ [] ∨ s.adopting ≠ [] ∨ s.writing ≠ []) : s.table.loaded = true := by
  cases hl : s.table.loaded with
  | true => rfl
  | false =>
      obtain ⟨-, h₁, h₂, h₃, -⟩ := hs.unloaded hl
      rcases h with h | h | h
      · exact absurd h₁ h
      · exact absurd h₂ h
      · exact absurd h₃ h

theorem ne_nil_of_getElem? {α : Type} {xs : List α} {i : Nat} {x : α} (h : xs[i]? = some x) :
    xs ≠ [] := by
  rintro rfl
  cases h

/-! ### The step lemma -/

theorem keyed_inserted (hs : Keyed s) {i : Nat} (hi : s.starting[i]? = some run) :
    Keyed { s with table := s.table.insert run, starting := s.starting.eraseIdx i } where
  table r hr := by
    rcases Table.mem_insert.mp hr with rfl | ⟨hr, -⟩
    · exact hs.starting r (List.mem_of_getElem? hi)
    · exact hs.table r hr
  starting r hr := hs.starting r (List.mem_of_mem_eraseIdx hr)
  apart r hr q hq := by
    obtain ⟨j, hne, hj⟩ := List.mem_eraseIdx_iff_getElem?.mp hr
    rcases Table.mem_insert.mp hq with rfl | ⟨hq, -⟩
    · intro hh
      -- two starts under way have different handles
      have hlt : i < s.starting.length := (List.getElem?_eq_some_iff.mp hi).1
      refine hne ((List.getElem?_inj (i := i) (j := j) (by simpa using hlt) hs.distinct).mp ?_).symm
      rw [List.getElem?_map, List.getElem?_map, hi, hj]
      exact congrArg some hh
    · exact hs.apart r (List.mem_of_getElem? hj) q hq
  distinct := hs.distinct.sublist ((List.eraseIdx_sublist _ _).map _)
  files := hs.files
  unloaded h := by
    rw [Table.loaded_insert, hs.loaded (.inl (ne_nil_of_getElem? hi))] at h
    cases h

/-- A table told anew. -/
theorem keyed_refreshed (hs : Keyed s) (hw : Waited s.world w)
    (ht : TableRefreshed s.world w s.table t) : Keyed { s with world := w, table := t } := by
  have hfrom : ∀ run' ∈ t.runs, ∃ run ∈ s.table.runs, run.handle = run'.handle := by
    intro run' hrun'
    obtain ⟨run, hrun, hr, -⟩ := ht.2 run' hrun'
    exact ⟨run, hrun, hr.handle.symm⟩
  refine hs.told hw.2.2 hfrom (hs.files_waited hw) fun hl => ?_
  obtain ⟨h₁, h₂, h₃, h₄, h₅⟩ := hs.unloaded (ht.1 ▸ hl)
  refine ⟨List.eq_nil_iff_forall_not_mem.mpr fun run' hrun' => ?_, h₂, h₃, h₄, h₅⟩
  obtain ⟨run, hrun, -⟩ := hfrom run' hrun'
  rw [h₁] at hrun
  cases hrun

theorem keyed_committed {i : Nat} {m : Measured} {r : Table × Except AgentError AdoptResult}
    (hs : Keyed s) (hi : s.adopting[i]? = some m) (hc : Committed s.world w s.table m r) :
    Keyed (State.committed { s with world := w } i m r) := by
  have hl := hs.loaded (.inr (.inl (ne_nil_of_getElem? hi)))
  cases hc with
  | refused e hw | already hrun hw =>
      have hk := hs.kept hw.kept
      exact ⟨hk.table, hk.starting, hk.apart, hk.distinct, hk.files, by simp [State.committed, hl]⟩
  | @inserted handle startedAtUnix hnone fresh drawn written =>
      have hd : s.world.drawn ⊆ w.drawn := drawn ▸ List.subset_cons_self _ _
      have hdrawn : handle ∈ w.drawn := drawn ▸ List.mem_cons_self
      refine ⟨fun r hr => ?_, fun r hr => hd (hs.starting r hr), fun r hr q hq => ?_, hs.distinct,
        hs.written hd written hdrawn rfl, by simp [State.committed, hl]⟩
      · rcases Table.mem_insert.mp hr with rfl | ⟨hr, -⟩
        · exact hdrawn
        · exact hd (hs.table r hr)
      · rcases Table.mem_insert.mp hq with rfl | ⟨hq, -⟩
        · intro hh
          have hh : handle = r.handle := hh
          exact fresh (hh ▸ hs.starting r hr)
        · exact hs.apart r hr q hq

theorem keyed_stopped {p : StopParams} {r : Table × Except AgentError StopResult} (hs : Keyed s)
    (hl : s.table.loaded = true) (h : Stopped ok s.world w s.table p r) :
    Keyed { s with world := w, table := r.1, answers := s.answers ++ [.stopped p r.2] } := by
  cases h with
  | refused e hw =>
      exact hs.told hw.2.2 (fun r hr => ⟨r, hr, rfl⟩) (hs.files_waited hw) (by simp [hl])
  | dropped outcome verified hget hr hstate hchild hfiles hlater hdrawn hdead =>
      refine hs.told hdrawn (put_told (Table.get?_mem hget).1 hr.handle) ?_ (by simp [hl])
      refine (hs.kept ⟨hlater, ?_, hdrawn⟩).files
      rcases hfiles with ⟨-, hf⟩ | ⟨-, hf⟩
      · rw [hf]
        exact List.filter_sublist.subset
      · rw [hf]
        exact fun _ h => h
  | signaled verified hget hr hstate hchild hw =>
      exact hs.told hw.2.2 (put_told (Table.get?_mem hget).1 hr.handle) (hs.files_waited hw)
        (by simp [hl])

theorem keyed_finished {i : Nat} {wr : Writing} {r : Table × Except AgentError WriteResult}
    (hs : Keyed s) (hi : s.writing[i]? = some wr) (hf : Finished s.world w s.table wr.params r) :
    Keyed { s with
      world := w, table := r.1, writing := s.writing.eraseIdx i
      answers := s.answers ++ [.wrote wr r.2] } := by
  have hl := hs.loaded (.inr (.inr (ne_nil_of_getElem? hi)))
  cases hf with
  | vanished r hget hw =>
      exact hs.told hw.2.2 (fun r hr => ⟨r, hr, rfl⟩) (hs.files_waited hw) (by simp [hl])
  | @recorded run run' r hget hrun written drawn =>
      obtain ⟨hmem, hhandle⟩ := Table.get?_mem hget
      have hrec : run'.handle = run.handle := by
        rcases hrun with rfl | rfl | rfl <;> rfl
      refine hs.told drawn (put_told hmem hrec) ?_ (by simp [hl])
      exact hs.written (drawn ▸ fun _ h => h) written (drawn ▸ hhandle ▸ hs.table run hmem)
        (hrec.trans hhandle)

/-- **One move keeps the handles apart.** -/
theorem keyed_step (hs : Keyed s) (h : machine.step s l = some s') : Keyed s' := by
  have hm : Moves (fun _ => True) _ _ _ := step_spec (fun _ _ => trivial) h
  cases hm with
  | time hw => exact hs.kept hw.kept
  | loaded hk ht =>
      rcases ht with rfl | ⟨hl, ht, hfrom⟩
      · exact hs.kept hk
      · obtain ⟨-, hstarting, -⟩ := hs.unloaded hl
        have hkept := hs.kept hk
        refine ⟨fun run hrun => ?_, hkept.starting, ?_, hkept.distinct, hkept.files, by simp [ht]⟩
        · obtain ⟨stem, record, state, detail, hf, rfl, -⟩ := hfrom run hrun
          obtain ⟨hdrawn, hrec⟩ := hs.files _ hf
          change record.handle ∈ _
          rw [hk.2.2, hrec record rfl]
          exact hdrawn
        · simp [hstarting]
  | @launched p script w run ht hl =>
      have hd : s.world.drawn ⊆ w.drawn := hl.drawn ▸ List.subset_cons_self _ _
      have hdrawn : run.handle ∈ w.drawn := hl.drawn ▸ List.mem_cons_self
      refine ⟨fun r hr => hd (hs.table r hr), fun r hr => ?_, fun r hr q hq => ?_, ?_,
        hs.written hd hl.written hdrawn rfl, by simp [ht]⟩
      · rcases List.mem_append.mp hr with hr | hr
        · exact hd (hs.starting r hr)
        · rw [List.mem_singleton.mp hr]
          exact hdrawn
      · rcases List.mem_append.mp hr with hr | hr
        · exact hs.apart r hr q hq
        · rw [List.mem_singleton.mp hr]
          intro hh
          exact hl.fresh (hh ▸ hs.table q hq)
      · rw [List.map_append, List.nodup_append]
        refine ⟨hs.distinct, List.nodup_singleton _, fun h₁ hin h₂ hin₂ he => ?_⟩
        obtain ⟨r, hr, rfl⟩ := List.mem_map.mp hin
        rw [List.map_singleton, List.mem_singleton] at hin₂
        exact hl.fresh (hin₂ ▸ he ▸ hs.starting r hr)
  | inserted hi => exact keyed_inserted hs hi
  | measured ht hw =>
      exact hs.told hw.2.2 (fun r hr => ⟨r, hr, rfl⟩) (hs.files_waited hw) (by simp [ht])
  | committed hi hc => exact keyed_committed hs hi hc
  | refreshed hw ht => exact keyed_refreshed hs hw ht
  | stopped ht hst => exact keyed_stopped hs ht hst
  | unchecked hc =>
      cases hc with
      | unknown e hw => exact hs.kept hw.kept
      | refused e hget hr hstate hw =>
          exact keyed_refreshed hs hw (tableRefreshed_put (Table.get?_mem hget).1 hr
            fun hex => .inl (hstate ▸ hex))
  | checked ht hc =>
      cases hc with
      | taken hget hstdin hmode hstate hw =>
          exact hs.told hw.2.2 (put_told (Table.get?_mem hget).1 rfl) (hs.files_waited hw)
            (by simp [ht])
  | finished hi hf => exact keyed_finished hs hi hf
  | @abandoned i =>
      refine ⟨hs.table, hs.starting, hs.apart, hs.distinct, hs.files, fun hl => ?_⟩
      obtain ⟨h₁, h₂, h₃, h₄, h₅⟩ := hs.unloaded hl
      exact ⟨h₁, h₂, h₃, by simp [h₄], h₅⟩
  | restarted =>
      exact ⟨by simp [Table.empty], by simp, by simp, by simp, hs.files, by simp [Table.empty]⟩

theorem keyed_init (h : machine.init s) : Keyed s := by
  obtain ⟨ht, hf, -, hst, had, hwr, ha, -⟩ := h
  exact ⟨by simp [ht, Table.empty], by simp [hst], by simp [hst], by simp [hst], by simp [hf],
    by simp [ht, Table.empty, hst, had, hwr, ha]⟩

end RevBox.Hosted
