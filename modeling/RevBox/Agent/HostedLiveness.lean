import RevBox.Agent.HostedRuns

/-!
# Agent — HostedLiveness

When the Agent says of a run that it has exited, the process the record was made for is not
running.  It holds while every start could read the start time of its child, and no `stop` failed
to read the state of a process it waited for.

* `verdicts_honest`: the claim under that condition, in every run, restarts included.
* `liveChild_dropped`, `liveProcess_dropped`: neither part of the condition can be left out.
-/

namespace RevBox.Hosted

open Proc Device

/-- A start fails to read the start time of its child, or a `stop` the state of a process it waits
for, although the process is there. -/
def readsBadly : Label → Choice → Bool
  | .start _ _, .unreadable _ => true
  | .stop _ _, .pollUnreadable _ => true
  | _, _ => false

/-- The condition, of a move. -/
def Readable (_ : State) (l : Label) : Prop := l.Within fun x => readsBadly l x = false

instance (s : State) (l : Label) : Decidable (Readable s l) :=
  inferInstanceAs (Decidable (∀ e ∈ l.script, readsBadly l e.2 = false))

/-- The answer finds the process gone, or has its record dropped. -/
def Answer.saysGone : Answer → Option String
  | .stopped p (.ok result) =>
      if result.outcome = .alreadyGone ∨ result.recordDropped = true then some p.handle else none
  | _ => none

/-- **The verdicts are honest.**  Where the table says exited, and where a `stop` was answered
that the process is gone or its record dropped, the process the handle was given for is not
running. -/
def HonestVerdicts (s : State) : Prop :=
  (∀ run ∈ s.table.runs, run.record.state = .exited →
    ∀ id, s.origins run.handle = some id → ¬ s.world.kernel.Alive id) ∧
  ∀ a ∈ s.answers, ∀ handle, a.saysGone = some handle →
    ∀ id, s.origins handle = some id → ¬ s.world.kernel.Alive id

/-! ### The invariant -/

/-- A record is about the process its handle was given for. -/
def Describes (w : World) (origins : String → Option Nat) (record : RunRecord) : Prop :=
  record.handle ∈ w.drawn ∧ ∀ id, origins record.handle = some id →
    Known w.kernel id record.pid record.startTimeTicks

/-- So is the child handle of a run, and if the run says exited, it is true. -/
def About (w : World) (origins : String → Option Nat) (run : ManagedRun) : Prop :=
  Describes w origins run.record ∧ (∀ c, run.child = some c → origins run.handle = some c) ∧
    (run.record.state = .exited → ∀ id, origins run.handle = some id → ¬ w.kernel.Alive id)

/-- The process of a handle has begun, and is gone. -/
def GoneFor (w : World) (origins : String → Option Nat) (handle : String) : Prop :=
  handle ∈ w.drawn ∧ ∀ id, origins handle = some id →
    id < w.kernel.next ∧ ¬ w.kernel.Alive id

/-- What every run within `Readable` keeps. -/
structure Sound (s : State) : Prop where
  table : ∀ run ∈ s.table.runs, About s.world s.origins run
  starting : ∀ run ∈ s.starting, About s.world s.origins run
  files : ∀ f ∈ s.world.files, ∀ record, f.2 = .record record →
    Describes s.world s.origins record
  answers : ∀ a ∈ s.answers, ∀ handle, a.saysGone = some handle →
    GoneFor s.world s.origins handle

/-- Time has passed, and new handles may have been given. -/
def Extends (w w' : World) (origins origins' : String → Option Nat) : Prop :=
  Kernel.Later w.kernel w'.kernel ∧ ∀ h ∈ w.drawn, h ∈ w'.drawn ∧ origins' h = origins h

variable {w w' : World} {o o' : String → Option Nat} {run run' : ManagedRun} {record : RunRecord}

theorem Extends.of_later (hl : Kernel.Later w.kernel w'.kernel) (hd : w'.drawn = w.drawn) :
    Extends w w' o o :=
  ⟨hl, fun _ h => ⟨hd ▸ h, rfl⟩⟩

theorem Extends.of_fresh {handle : String} {id : Option Nat}
    (hl : Kernel.Later w.kernel w'.kernel) (hfresh : handle ∉ w.drawn)
    (hd : w'.drawn = handle :: w.drawn) : Extends w w' o (Function.update o handle id) := by
  refine ⟨hl, fun h hh => ⟨hd ▸ List.mem_cons_of_mem _ hh, Function.update_of_ne ?_ _ _⟩⟩
  rintro rfl
  exact hfresh hh

theorem Describes.mono (h : Describes w o record) (he : Extends w w' o o') :
    Describes w' o' record := by
  obtain ⟨hdrawn, horigin⟩ := he.2 _ h.1
  exact ⟨hdrawn, fun id hid => (h.2 id (horigin ▸ hid)).later he.1⟩

theorem About.mono (h : About w o run) (he : Extends w w' o o') : About w' o' run := by
  obtain ⟨-, horigin⟩ := he.2 _ h.1.1
  refine ⟨h.1.mono he, fun c hc => horigin.trans (h.2.1 c hc), fun hex id hid => ?_⟩
  have hid' : o run.handle = some id := horigin.symm.trans hid
  exact Kernel.dead_later he.1 (h.1.2 id hid').1 (h.2.2 hex id hid')

theorem GoneFor.mono {handle : String} (h : GoneFor w o handle) (he : Extends w w' o o') :
    GoneFor w' o' handle := by
  obtain ⟨hdrawn, horigin⟩ := he.2 _ h.1
  refine ⟨hdrawn, fun id hid => ?_⟩
  obtain ⟨hlt, hdead⟩ := h.2 id (horigin ▸ hid)
  exact ⟨Nat.lt_of_lt_of_le hlt he.1.1, Kernel.dead_later he.1 hlt hdead⟩

/-- **A run told anew, and truly, is still about its process.** -/
theorem About.refreshed (h : About w o run) (hr : Refreshed run run') (hh : Honest w w' run run')
    (he : Extends w w' o o') : About w' o' run' := by
  have hm := h.mono he
  obtain ⟨-, horigin⟩ := he.2 _ h.1.1
  obtain ⟨state, code, detail, child, hchild, rfl⟩ := hr
  refine ⟨hm.1, fun c hc => ?_, fun hex id hid => ?_⟩
  · rcases hchild with rfl | rfl
    · exact hm.2.1 c hc
    · cases hc
  · rcases hh hex with hex' | hdead
    · exact hm.2.2 hex' id hid
    · have hid' : o run.handle = some id := horigin.symm.trans hid
      refine hdead id (h.1.2 id hid') fun c hc => ?_
      exact Option.some.inj ((h.2.1 c hc).symm.trans hid')

/-- A record read back from the disk, its state told anew, and truly, is about its process. -/
theorem About.of_disk (hfiles : ∀ f ∈ w.files, ∀ record, f.2 = .record record →
    Describes w o record) (h : FromDisk w w' run) (he : Extends w w' o o') : About w' o' run := by
  obtain ⟨stem, record, state, detail, hf, rfl, hdead⟩ := h
  have hd := hfiles _ hf record rfl
  obtain ⟨-, horigin⟩ := he.2 _ hd.1
  refine ⟨hd.mono he, fun c hc => (by cases hc), fun hex id hid => hdead hex id (hd.2 id ?_)⟩
  exact horigin.symm.trans hid

/-! ### The step lemma -/

variable {s s' : State} {l : Label} {ok : Choice → Prop}

/-- What is known stays known while time passes and handles are given. -/
theorem Sound.mono (hs : Sound s) {w : World} {origins : String → Option Nat}
    (he : Extends s.world w s.origins origins) (hfiles : w.files ⊆ s.world.files) :
    Sound { s with world := w, origins := origins } where
  table run hrun := (hs.table run hrun).mono he
  starting run hrun := (hs.starting run hrun).mono he
  files f hf record hrec := (hs.files f (hfiles hf) record hrec).mono he
  answers a ha handle hg := (hs.answers a ha handle hg).mono he

/-- A record written to disk is about its process if its run is. -/
theorem sound_written (hs : Sound s) {w : World} {origins : String → Option Nat} {handle : String}
    (he : Extends s.world w s.origins origins) (hw : Written s.world w handle record)
    (hd : Describes w origins record) :
    ∀ f ∈ w.files, ∀ record', f.2 = .record record' → Describes w origins record' := by
  intro f hf record' hrec
  rcases hw.2 f hf with hf | ⟨-, hf | hf⟩
  · exact (hs.files f hf record' hrec).mono he
  · rw [hf] at hrec
    cases hrec
    exact hd
  · rw [hf] at hrec
    cases hrec

/-- A table told anew, and truly. -/
theorem Sound.refreshed (hs : Sound s) {w : World} {t : Table} (hw : Waited s.world w)
    (ht : TableRefreshed s.world w s.table t) : Sound { s with world := w, table := t } := by
  have he : Extends s.world w s.origins s.origins := .of_later hw.1 hw.2.2
  have hm := hs.mono he (hw.2.1 ▸ fun _ h => h)
  refine ⟨fun run' hrun' => ?_, hm.starting, hm.files, hm.answers⟩
  obtain ⟨run, hrun, hr, hh⟩ := ht.2 run' hrun'
  exact (hs.table run hrun).refreshed hr hh he

/-- A run written back, told anew, and truly. -/
theorem Sound.put (hs : Sound s) {w : World} (he : Extends s.world w s.origins s.origins)
    (hrun : run ∈ s.table.runs) (hr : Refreshed run run') (hh : Honest s.world w run run') :
    ∀ r ∈ (s.table.put run').runs, About w s.origins r := by
  intro r hin
  rcases Table.mem_put hin with rfl | ⟨hin, -⟩
  · exact (hs.table run hrun).refreshed hr hh he
  · exact (hs.table r hin).mono he

/-- A run that has lost its stdin is about the process it was about. -/
theorem About.closeStdin (h : About w o run) (mode : StdinMode) :
    About w o (run.closeStdin mode) := h

/-- The process `adopt` gives its handle to is the one it measured. -/
theorem adoptee_known {m : Measured} {id : Nat} (h : s.adoptee m = some id) :
    Known s.world.kernel id m.params.pid m.ticks := by
  obtain ⟨p, hp, h⟩ := Option.bind_eq_some_iff.mp h
  split at h
  · cases h
    obtain ⟨hmem, hpid⟩ := Kernel.find_mem hp
    refine ⟨s.world.kernel.fresh p hmem, fun q hq hid _ => ?_⟩
    obtain rfl := Kernel.id_unique hq hmem hid
    exact ⟨hpid, ‹_›⟩
  · cases h

theorem sound_committed {i : Nat} {m : Measured} {w : World}
    {r : Table × Except AgentError AdoptResult} (hs : Sound s)
    (hc : Committed s.world w s.table m r) :
    Sound (State.committed { s with world := w } i m r) := by
  cases hc with
  | refused e hw =>
      have hm := hs.mono (.of_later hw.1 hw.2.2) (hw.2.1 ▸ fun _ h => h)
      refine ⟨hm.table, hm.starting, hm.files, fun a ha handle hg => ?_⟩
      rcases List.mem_append.mp ha with ha | ha
      · exact hm.answers a ha handle hg
      · rw [List.mem_singleton.mp ha] at hg
        cases hg
  | already hrun hw =>
      have hm := hs.mono (.of_later hw.1 hw.2.2) (hw.2.1 ▸ fun _ h => h)
      refine ⟨hm.table, hm.starting, hm.files, fun a ha handle hg => ?_⟩
      rcases List.mem_append.mp ha with ha | ha
      · exact hm.answers a ha handle hg
      · rw [List.mem_singleton.mp ha] at hg
        cases hg
  | @inserted handle startedAtUnix hnone fresh drawn written =>
      have he : Extends s.world w s.origins
          (Function.update s.origins handle (State.adoptee { s with world := w } m)) :=
        .of_fresh written.1 fresh drawn
      have hd : Describes w (Function.update s.origins handle
          (State.adoptee { s with world := w } m)) (adoptedRecord handle m startedAtUnix) := by
        refine ⟨drawn ▸ List.mem_cons_self, fun id hid => ?_⟩
        have hid' : State.adoptee { s with world := w } m = some id := by
          simpa [adoptedRecord] using hid
        exact adoptee_known hid'
      refine ⟨fun run hrun => ?_, fun run hrun => (hs.starting run hrun).mono he,
        sound_written hs he written hd, fun a ha handle hg => ?_⟩
      · rcases Table.mem_insert.mp hrun with rfl | ⟨hrun, -⟩
        · exact ⟨hd, fun c hc => (by cases hc), fun hex => by cases hex⟩
        · exact (hs.table run hrun).mono he
      · rcases List.mem_append.mp ha with ha | ha
        · exact (hs.answers a ha handle hg).mono he
        · rw [List.mem_singleton.mp ha] at hg
          cases hg

theorem sound_stopped {p : StopParams} {w : World} {r : Table × Except AgentError StopResult}
    (hs : Sound s) (hpoll : PollsRead ok) (h : Stopped ok s.world w s.table p r) :
    Sound { s with world := w, table := r.1, answers := s.answers ++ [.stopped p r.2] } := by
  cases h with
  | refused e hw =>
      have hm := hs.mono (.of_later hw.1 hw.2.2) (hw.2.1 ▸ fun _ h => h)
      refine ⟨hm.table, hm.starting, hm.files, fun a ha handle hg => ?_⟩
      rcases List.mem_append.mp ha with ha | ha
      · exact hm.answers a ha handle hg
      · rw [List.mem_singleton.mp ha] at hg
        cases hg
  | @dropped run run' outcome verified hget hr hstate hchild hfiles hlater hdrawn hdead =>
      obtain ⟨hrun, hhandle⟩ := Table.get?_mem hget
      have hhandle : run.record.handle = p.handle := hhandle
      have he : Extends s.world w s.origins s.origins := .of_later hlater hdrawn
      have hsub : w.files ⊆ s.world.files := by
        rcases hfiles with ⟨-, hf⟩ | ⟨-, hf⟩
        · rw [hf]
          exact List.filter_sublist.subset
        · rw [hf]
          exact fun _ h => h
      have hm := hs.mono he hsub
      have habout := hs.table run hrun
      have hgone : ∀ id, s.origins p.handle = some id → ¬ w.kernel.Alive id := fun id hid =>
        hdead hpoll id (habout.1.2 id (hhandle.symm ▸ hid))
      refine ⟨hs.put he hrun hr fun _ => .inr fun id hk hc => ?_, hm.starting, hm.files,
        fun a ha handle hg => ?_⟩
      · exact hdead hpoll id hk
      · rcases List.mem_append.mp ha with ha | ha
        · exact hm.answers a ha handle hg
        · rw [List.mem_singleton.mp ha] at hg
          obtain rfl : p.handle = handle := by simpa [Answer.saysGone] using hg
          obtain ⟨hdrawn', -⟩ := he.2 _ habout.1.1
          refine ⟨hhandle ▸ hdrawn', fun id hid => ⟨?_, hgone id hid⟩⟩
          exact Nat.lt_of_lt_of_le (habout.1.2 id (hhandle.symm ▸ hid)).1 hlater.1
  | @signaled run run' verified hget hr hstate hchild hw =>
      obtain ⟨hrun, -⟩ := Table.get?_mem hget
      have he : Extends s.world w s.origins s.origins := .of_later hw.1 hw.2.2
      have hm := hs.mono he (hw.2.1 ▸ fun _ h => h)
      refine ⟨hs.put he hrun hr fun hex => .inl (hstate ▸ hex), hm.starting, hm.files,
        fun a ha handle hg => ?_⟩
      rcases List.mem_append.mp ha with ha | ha
      · exact hm.answers a ha handle hg
      · rw [List.mem_singleton.mp ha] at hg
        cases hg

theorem sound_finished {i : Nat} {wr : Writing} {w : World}
    {r : Table × Except AgentError WriteResult} (hs : Sound s)
    (hf : Finished s.world w s.table wr.params r) : Sound { s with
      world := w, table := r.1, writing := s.writing.eraseIdx i
      answers := s.answers ++ [.wrote wr r.2] } := by
  have hanswers : ∀ {w : World}, Extends s.world w s.origins s.origins →
      ∀ a ∈ s.answers ++ [.wrote wr r.2], ∀ handle, a.saysGone = some handle →
        GoneFor w s.origins handle := by
    intro w he a ha handle hg
    rcases List.mem_append.mp ha with ha | ha
    · exact (hs.answers a ha handle hg).mono he
    · rw [List.mem_singleton.mp ha] at hg
      cases hg
  cases hf with
  | vanished r hget hw =>
      have he : Extends s.world w s.origins s.origins := .of_later hw.1 hw.2.2
      have hm := hs.mono he (hw.2.1 ▸ fun _ h => h)
      exact ⟨hm.table, hm.starting, hm.files, hanswers he⟩
  | @recorded run run' r hget hrun written drawn =>
      have he : Extends s.world w s.origins s.origins := .of_later written.1 drawn
      obtain ⟨hmem, -⟩ := Table.get?_mem hget
      have habout : About w s.origins run' := by
        have ha := (hs.table run hmem).mono he
        rcases hrun with rfl | rfl | rfl
        · exact ha
        · exact ha.closeStdin .once
        · exact ha.closeStdin .lost
      refine ⟨fun r hin => ?_, fun run hrun => (hs.starting run hrun).mono he,
        sound_written hs he written habout.1, hanswers he⟩
      rcases Table.mem_put hin with rfl | ⟨hin, -⟩
      · exact habout
      · exact (hs.table r hin).mono he

/-- **One move keeps the invariant**, where a start reads and a poll reads. -/
theorem sound_step (hs : Sound s) (hread : Readable s l) (h : machine.step s l = some s') :
    Sound s' := by
  have hm := step_spec hread h
  cases hm with
  | time hw => exact hs.mono (.of_later hw.1 hw.2.2) (hw.2.1 ▸ fun _ h => h)
  | loaded hk ht =>
      have he : Extends s.world _ s.origins s.origins := .of_later hk.1 hk.2.2
      have hm := hs.mono he hk.2.1
      refine ⟨fun run hrun => ?_, hm.starting, hm.files, hm.answers⟩
      rcases ht with rfl | ⟨-, -, ht⟩
      · exact hm.table run hrun
      · exact .of_disk hs.files (ht run hrun) he
  | @launched p script w run ht hl =>
      obtain ⟨c, hchild, hlt, hknown⟩ := hl.child
      have he : Extends s.world w s.origins (Function.update s.origins run.handle run.child) :=
        .of_fresh hl.written.1 hl.fresh hl.drawn
      have hd : Describes w (Function.update s.origins run.handle run.child) run.record := by
        refine ⟨?_, fun id hid => ?_⟩
        · rw [hl.drawn]
          exact List.mem_cons_self
        · have hid' : run.child = some id := by
            simpa [ManagedRun.handle] using hid
          obtain rfl : c = id := Option.some.inj (hchild.symm.trans hid')
          exact hknown fun _ h => by cases h
      refine ⟨fun r hr => (hs.table r hr).mono he, fun r hr => ?_,
        sound_written hs he hl.written hd, fun a ha handle hg => (hs.answers a ha handle hg).mono he⟩
      rcases List.mem_append.mp hr with hr | hr
      · exact (hs.starting r hr).mono he
      · rw [List.mem_singleton.mp hr]
        refine ⟨hd, fun c hc => ?_, fun hex => ?_⟩
        · exact (Function.update_self ..).trans hc
        · rw [hl.running] at hex
          cases hex
  | inserted hi =>
      refine ⟨fun r hr => ?_, fun r hr => hs.starting r (List.mem_of_mem_eraseIdx hr), hs.files,
        hs.answers⟩
      rcases Table.mem_insert.mp hr with rfl | ⟨hr, -⟩
      · exact hs.starting _ (List.mem_of_getElem? hi)
      · exact hs.table r hr
  | measured ht hw =>
      have hm := hs.mono (.of_later hw.1 hw.2.2) (hw.2.1 ▸ fun _ h => h)
      exact ⟨hm.table, hm.starting, hm.files, hm.answers⟩
  | committed hi hc => exact sound_committed hs hc
  | refreshed hw ht => exact hs.refreshed hw ht
  | stopped ht hst => exact sound_stopped hs (fun _ h => by cases h) hst
  | unchecked hc =>
      cases hc with
      | unknown e hw =>
          have hm := hs.mono (.of_later hw.1 hw.2.2) (hw.2.1 ▸ fun _ h => h)
          exact ⟨hm.table, hm.starting, hm.files, hm.answers⟩
      | refused e hget hr hstate hw =>
          exact hs.refreshed hw (tableRefreshed_put (Table.get?_mem hget).1 hr
            fun hex => .inl (hstate ▸ hex))
  | checked ht hc =>
      cases hc with
      | taken hget hstdin hmode hstate hw =>
          have hm := hs.refreshed hw (tableRefreshed_put (Table.get?_mem hget).1 (.refl _)
            (.refl _ _ _))
          exact ⟨hm.table, hm.starting, hm.files, hm.answers⟩
  | finished hi hf => exact sound_finished hs hf
  | abandoned => exact ⟨hs.table, hs.starting, hs.files, hs.answers⟩
  | restarted =>
      exact ⟨fun run hrun => (by cases hrun), fun run hrun => (by cases hrun), hs.files,
        fun a ha => by cases ha⟩

theorem sound_init (h : machine.init s) : Sound s := by
  obtain ⟨ht, hf, -, hst, -, -, ha, -⟩ := h
  exact ⟨by simp [ht, Table.empty], by simp [hst], by simp [hf], by simp [ha]⟩

/-- **The verdicts of the Agent are honest** in every run, restarts included, in which every start
reads the start time of its child and every poll of a `stop` the state of the process it is for,
whenever that process is there. -/
theorem verdicts_honest {s₀ : State} {ls : List Label} (h₀ : machine.init s₀)
    (hr : machine.Run Readable s₀ ls s) : HonestVerdicts s := by
  have hs : Sound s := hr.invariant (fun _ _ _ hs hread h => sound_step hs hread h) (sound_init h₀)
  exact ⟨fun run hrun => (hs.table run hrun).2.2,
    fun a ha handle hg id hid => ((hs.answers a ha handle hg).2 id hid).2⟩

/-! ### Runs -/

/-- A phone just started, with one process. -/
def phoneStart : State where
  table := .empty
  world := ⟨(Kernel.empty.spawn 1 0).getD .empty, [], []⟩
  starting := []
  adopting := []
  writing := []
  answers := []
  origins := fun _ => none

/-- What `/proc/<pid>/stat` says of a sleeping child. -/
def statFields : StatFields := ⟨"server".toList, .sleeping, 1, fun _ => 0, []⟩

/-- A start of `server` as process 321 with these ticks, whose handle is eight zero bytes;
`reading` is what comes of the read of its start time. -/
def startServer (interactive : Bool) (pid ticks : Nat) (reading : Choice) (byte : UInt8) : Label :=
  .start { name := "server", interactiveStdin := interactive }
    ([([], .metadata (.ok ⟨true, 0o755⟩)), ([], .elf (.ok true)), ([], .opened (.ok ())),
      ([], .dup (.ok ())), ([], .spawned pid ticks), ([], reading)] ++
    (if interactive then [([], .fed)] else []) ++
    [([], .random (List.replicate 8 byte)), ([], .number 1700000000), ([], .stored [])])

/-- The handle of eight zero bytes. -/
def zeroHandle : String := "0000000000000000"

/-- A start whose child's start time cannot be read, and a `stop`. -/
def blindStart : List Label :=
  [.load [([], .listed none)], startServer false 321 4200 (.unreadable "Too many open files") 0,
    .insert 0, .stop { handle := zeroHandle } [([], .stat statFields), ([], .removed)]]

/-- A start, and a `stop` whose poll cannot read the state of the process, which lives on. -/
def blindPoll : List Label :=
  [.load [([], .listed none)], startServer false 321 4200 (.stat statFields) 0,
    .insert 0, .stop { handle := zeroHandle }
      [([], .stat statFields), ([], .errno none), ([], .pollUnreadable "Too many open files"),
        ([], .waited .running), ([], .removed)]]

/-- A start, the end of its process, and a `stop` that reaps it. -/
def cleanStop : List Label :=
  [.load [([], .listed none)], startServer false 321 4200 (.stat statFields) 0,
    .insert 0, .stop { handle := zeroHandle }
      [([], .stat statFields), ([], .errno none), ([.exit 1], .stat statFields),
        ([], .waited (.exited none (some 15))), ([], .removed)]]

/-- A `stop` was answered that process 1, which is running, is gone. -/
def buriesAlive (s : State) : Bool :=
  s.answers.any (fun a => a.saysGone = some zeroHandle) && s.origins zeroHandle = some 1 &&
    decide (s.world.kernel.Alive 1)

theorem init_phoneStart : machine.init phoneStart := ⟨rfl, rfl, rfl, rfl, rfl, rfl, rfl, rfl⟩

theorem not_honest_of_buriesAlive {s : State} (h : buriesAlive s = true) : ¬ HonestVerdicts s := by
  simp only [buriesAlive, Bool.and_eq_true, List.any_eq_true, decide_eq_true_eq] at h
  obtain ⟨⟨⟨a, ha, hg⟩, ho⟩, halive⟩ := h
  exact fun hh => hh.2 a ha zeroHandle hg 1 ho halive

/-- The start time that could not be read is taken for another process's: the child is alive, and
its record is dropped. -/
theorem liveChild_dropped : ¬ ∀ s₀ ls s, machine.init s₀ → machine.Run Machine.Any s₀ ls s →
    HonestVerdicts s := by
  intro h
  obtain ⟨s, hr, hb⟩ := Machine.run_of_exec_any (M := machine) (C := Machine.Any)
    Machine.guarded_any (show (machine.exec phoneStart blindStart).any buriesAlive = true by
      decide +kernel)
  exact not_honest_of_buriesAlive hb (h _ _ s init_phoneStart hr)

/-- Reading every start time is not enough: a poll that cannot read takes the process for dead. -/
theorem liveProcess_dropped : ∃ s, machine.Run Machine.Any phoneStart blindPoll s ∧
    ¬ HonestVerdicts s := by
  obtain ⟨s, hr, hb⟩ := Machine.run_of_exec_any (M := machine) (C := Machine.Any)
    Machine.guarded_any (show (machine.exec phoneStart blindPoll).any buriesAlive = true by
      decide +kernel)
  exact ⟨s, hr, not_honest_of_buriesAlive hb⟩

/-- A `stop` was answered that a process is gone. -/
def buries (s : State) : Bool := s.answers.any fun a => a.saysGone = some zeroHandle

/-- A clean `stop` says its process gone, and honestly. -/
theorem cleanStop_honest : ∃ s, machine.Run Readable phoneStart cleanStop s ∧
    buries s = true ∧ HonestVerdicts s := by
  obtain ⟨s, hr, hb⟩ := Machine.run_of_exec_any (M := machine) (C := Readable)
    (by decide +kernel) (show (machine.exec phoneStart cleanStop).any buries = true by
      decide +kernel)
  exact ⟨s, hr, hb, verdicts_honest init_phoneStart hr⟩

end RevBox.Hosted
