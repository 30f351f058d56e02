import RevBox.Agent.HostedHandles
import RevBox.Agent.HostedLiveness

/-!
# Agent — HostedWrites

The record file of a stopped run.  A `stop` that finds the process gone deletes the file; a `write`
that was waiting for its pipe meanwhile writes the file again when it goes on, whether the pipe
took the text or not.

* `dropped_stays_dropped`: no file comes back, in every run in which no `write` goes on after the
  record of its run was dropped, and every deletion succeeds.
* `dropped_file_returns`, `undeleted_file_stays`: neither part of the condition can be left out.
-/

namespace RevBox.Hosted

open Device

/-- The handle whose record the answer says was dropped. -/
def Answer.drops : Answer → Option String
  | .stopped p (.ok result) => if result.recordDropped = true then some p.handle else none
  | _ => none

/-- A `stop` of the handle has been answered that the record was dropped. -/
def State.Dropped (s : State) (handle : String) : Prop := ∃ a ∈ s.answers, a.drops = some handle

instance (s : State) (handle : String) : Decidable (s.Dropped handle) :=
  inferInstanceAs (Decidable (∃ a ∈ s.answers, a.drops = some handle))

/-- **No resurrection.**  Of a handle whose record was dropped there is no file. -/
def StaysDropped (s : State) : Prop :=
  ∀ handle, s.Dropped handle → ∀ f ∈ s.world.files, f.1 ≠ handle

/-- A `stop` fails to delete a file that is there. -/
def keepsFile (s : State) : Label → Choice → Bool
  | .stop p _, .notRemoved => (s.world.file p.handle).isSome
  | _, _ => false

/-- The `write` that goes on has its run still on record. -/
def GoesOnInTime (s : State) : Label → Prop
  | .finish i _ _ => ∀ wr ∈ s.writing[i]?, ¬ s.Dropped wr.params.handle
  | _ => True

/-- The condition, of a move. -/
def Orderly (s : State) (l : Label) : Prop :=
  l.Within (fun x => keepsFile s l x = false) ∧ GoesOnInTime s l

instance (s : State) : (l : Label) → Decidable (GoesOnInTime s l)
  | .finish i _ _ => inferInstanceAs (Decidable (∀ wr ∈ s.writing[i]?, _))
  | .kernel _ | .load _ | .start _ _ | .insert _ | .adopt _ _ | .commit _ _ | .status _ _
  | .list _ | .stop _ _ | .write _ _ | .abandon _ | .restart => .isTrue trivial

instance (s : State) (l : Label) : Decidable (Orderly s l) :=
  inferInstanceAs (Decidable ((∀ e ∈ l.script, keepsFile s l e.2 = false) ∧ GoesOnInTime s l))

/-! ### The invariant -/

/-- A dropped handle was drawn, so it is not given again, and has no file. -/
def NoneBack (s : State) : Prop :=
  ∀ handle, s.Dropped handle → handle ∈ s.world.drawn ∧ ∀ f ∈ s.world.files, f.1 ≠ handle

variable {s s' : State} {l : Label} {ok : Choice → Prop} {w : World}

/-- Nothing more is dropped, and what is written is not the file of a dropped handle. -/
theorem NoneBack.mono (hs : NoneBack s) (ha : ∀ handle, s'.Dropped handle → s.Dropped handle)
    (hd : s.world.drawn ⊆ s'.world.drawn)
    (hf : ∀ f ∈ s'.world.files, f ∈ s.world.files ∨ ¬ s.Dropped f.1) : NoneBack s' := by
  intro handle hh
  obtain ⟨hdrawn, hfiles⟩ := hs handle (ha handle hh)
  refine ⟨hd hdrawn, fun f hin => ?_⟩
  rcases hf f hin with hin | hnot
  · exact hfiles f hin
  · rintro rfl
    exact hnot (ha _ hh)

/-- Time has passed, and record files may be gone. -/
theorem NoneBack.kept (hs : NoneBack s) {t : Table} {starting : List ManagedRun}
    {adopting : List Measured} {writing : List Writing} (hk : Kept s.world w) :
    NoneBack { s with
      world := w, table := t, starting := starting, adopting := adopting, writing := writing } :=
  hs.mono (fun _ h => h) (hk.2.2 ▸ fun _ h => h) fun _ hf => .inl (hk.2.1 hf)

/-- An answer that drops nothing. -/
theorem dropped_append {a : Answer} (ha : a.drops = none) {handle : String}
    (h : ∃ b ∈ s.answers ++ [a], b.drops = some handle) : s.Dropped handle := by
  obtain ⟨b, hb, hdrops⟩ := h
  rcases List.mem_append.mp hb with hb | hb
  · exact ⟨b, hb, hdrops⟩
  · rw [List.mem_singleton.mp hb, ha] at hdrops
    cases hdrops

/-- A file written under a handle that was not drawn before is no dropped handle's. -/
theorem NoneBack.fresh (hs : NoneBack s) {handle : String} {record : RunRecord}
    (hfresh : handle ∉ s.world.drawn) (hw : Written s.world w handle record) :
    ∀ f ∈ w.files, f ∈ s.world.files ∨ ¬ s.Dropped f.1 := by
  intro f hf
  refine (hw.2 f hf).imp id ?_
  rintro ⟨rfl, -⟩ hdrop
  exact hfresh (hs _ hdrop).1

theorem noneBack_committed {i : Nat} {m : Measured} {r : Table × Except AgentError AdoptResult}
    (hs : NoneBack s) (hc : Committed s.world w s.table m r) :
    NoneBack (State.committed { s with world := w } i m r) := by
  cases hc with
  | refused e hw | already hrun hw =>
      exact hs.mono (fun _ => dropped_append rfl) (hw.2.2 ▸ fun _ h => h)
        fun _ hf => .inl (hw.2.1 ▸ hf)
  | inserted startedAtUnix hnone fresh drawn written =>
      exact hs.mono (fun _ => dropped_append rfl) (drawn ▸ List.subset_cons_self _ _)
        (hs.fresh fresh written)

theorem noneBack_stopped {p : StopParams} {r : Table × Except AgentError StopResult}
    (hk : Keyed s) (hs : NoneBack s)
    (hkeep : ok .notRemoved → s.world.file p.handle = none)
    (h : Stopped ok s.world w s.table p r) :
    NoneBack { s with world := w, table := r.1, answers := s.answers ++ [.stopped p r.2] } := by
  cases h with
  | refused e hw =>
      exact hs.mono (fun _ => dropped_append rfl) (hw.2.2 ▸ fun _ h => h)
        fun _ hf => .inl (hw.2.1 ▸ hf)
  | signaled verified hget hr hstate hchild hw =>
      exact hs.mono (fun _ => dropped_append (by simp [Answer.drops])) (hw.2.2 ▸ fun _ h => h)
        fun _ hf => .inl (hw.2.1 ▸ hf)
  | dropped outcome verified hget hr hstate hchild hfiles hlater hdrawn hdead =>
      have hsub : w.files ⊆ s.world.files := by
        rcases hfiles with ⟨-, hf⟩ | ⟨-, hf⟩
        · rw [hf]
          exact List.filter_sublist.subset
        · rw [hf]
          exact fun _ h => h
      rintro handle ⟨a, ha, hdrops⟩
      rcases List.mem_append.mp ha with ha | ha
      · obtain ⟨hin, hnone⟩ := hs handle ⟨a, ha, hdrops⟩
        exact ⟨hdrawn ▸ hin, fun f hf => hnone f (hsub hf)⟩
      · obtain rfl : p.handle = handle := by
          simpa [List.mem_singleton.mp ha, Answer.drops] using hdrops
        obtain ⟨hmem, hhandle⟩ := Table.get?_mem hget
        refine ⟨hdrawn ▸ hhandle ▸ hk.table _ hmem, fun f hf => ?_⟩
        rcases hfiles with ⟨-, hw⟩ | ⟨hok, hw⟩
        · rw [hw] at hf
          simpa using (List.mem_filter.mp hf).2
        · -- the deletion failed for want of a file
          have hnone : s.world.files.find? (fun f => f.1 = p.handle) = none := by
            simpa [World.file] using hkeep hok
          simpa using List.find?_eq_none.mp hnone f (hsub hf)

theorem noneBack_finished {i : Nat} {wr : Writing} {r : Table × Except AgentError WriteResult}
    (hs : NoneBack s) (hnot : ¬ s.Dropped wr.params.handle)
    (hf : Finished s.world w s.table wr.params r) : NoneBack { s with
      world := w, table := r.1, writing := s.writing.eraseIdx i
      answers := s.answers ++ [.wrote wr r.2] } := by
  cases hf with
  | vanished r hget hw =>
      exact hs.mono (fun _ => dropped_append rfl) (hw.2.2 ▸ fun _ h => h)
        fun _ hf => .inl (hw.2.1 ▸ hf)
  | recorded r hget hrun written drawn =>
      refine hs.mono (fun _ => dropped_append rfl) (drawn ▸ fun _ h => h) fun f hf => ?_
      refine (written.2 f hf).imp id ?_
      rintro ⟨hf, -⟩
      exact hf ▸ hnot

/-- **One move brings no file back**, where no `write` goes on too late. -/
theorem noneBack_step (hk : Keyed s) (hs : NoneBack s) (hord : Orderly s l)
    (h : machine.step s l = some s') : NoneBack s' := by
  have hm := step_spec hord.1 h
  cases hm with
  | time hw => exact hs.kept hw.kept
  | loaded hk' ht => exact hs.kept hk'
  | launched ht hl =>
      exact hs.mono (fun _ h => h) (hl.drawn ▸ List.subset_cons_self _ _)
        (hs.fresh hl.fresh hl.written)
  | inserted hi => exact hs
  | measured ht hw => exact hs.kept hw.kept
  | committed hi hc => exact noneBack_committed hs hc
  | refreshed hw ht => exact hs.kept hw.kept
  | stopped ht hst =>
      refine noneBack_stopped hk hs (fun hkeep => ?_) hst
      simpa [keepsFile] using hkeep
  | unchecked hc =>
      cases hc with
      | unknown e hw => exact hs.kept hw.kept
      | refused e hget hr hstate hw => exact hs.kept hw.kept
  | checked ht hc =>
      cases hc with
      | taken hget hstdin hmode hstate hw => exact hs.kept hw.kept
  | finished hi hf => exact noneBack_finished hs (hord.2 _ hi) hf
  | abandoned => exact hs
  | restarted =>
      rintro handle ⟨a, ha, -⟩
      cases ha

/-- **No record file comes back** after a `stop` has dropped the record, in every run in which no
`write` goes on after the record of its run was dropped, and every `stop` deletes the file it
finds. -/
theorem dropped_stays_dropped {s₀ : State} {ls : List Label} (h₀ : machine.init s₀)
    (hr : machine.Run Orderly s₀ ls s) : StaysDropped s := by
  have hstart : NoneBack s₀ := by
    obtain ⟨-, -, -, -, -, -, ha, -⟩ := h₀
    rintro handle ⟨a, hin, -⟩
    rw [ha] at hin
    cases hin
  have hs := hr.invariant (I := fun s => Keyed s ∧ NoneBack s)
    (fun _ _ _ hs hord h => ⟨keyed_step hs.1 h, noneBack_step hs.1 hs.2 hord h⟩)
    ⟨keyed_init h₀, hstart⟩
  exact fun handle hh => (hs.2 handle hh).2

/-! ### Runs -/

/-- A start with a pipe kept open, and a `write` that waits for the pipe to take its text. -/
def writeWaits : List Label :=
  [.load [([], .listed none)], startServer true 321 4200 (.stat statFields) 0, .insert 0,
    .write { handle := zeroHandle, text := "go\n" } [([], .waited .running)]]

/-- A `stop` that sees its process end; `deletion` is what comes of deleting the file. -/
def stopServer (deletion : Choice) : Label :=
  .stop { handle := zeroHandle }
    [([], .stat statFields), ([], .errno none), ([.exit 1], .stat statFields),
      ([], .waited (.exited none (some 15))), ([], deletion)]

/-- The pipe of the `write` breaks once the process has been stopped. -/
def brokenPipe : List Label :=
  writeWaits ++ [stopServer .removed, .finish 0 (some "Broken pipe") [([], .stored [])]]

/-- The pipe takes the text before the process is stopped. -/
def writtenThenStopped : List Label :=
  writeWaits ++ [.finish 0 none [([], .stored [])], stopServer .removed]

/-- The record of the handle was dropped. -/
def droppedZero (s : State) : Bool := s.Dropped zeroHandle

/-- The record of the handle was dropped, and its file is there. -/
def fileBack (s : State) : Bool :=
  droppedZero s && s.world.files.any fun f => f.1 = zeroHandle

theorem not_stays_of_fileBack (h : fileBack s = true) : ¬ StaysDropped s := by
  simp only [fileBack, droppedZero, Bool.and_eq_true, List.any_eq_true, decide_eq_true_eq] at h
  obtain ⟨hd, f, hf, he⟩ := h
  exact fun hs => hs _ hd f hf he

/-- The `write` whose pipe broke puts the file back. -/
theorem dropped_file_returns : ¬ ∀ s₀ ls s, machine.init s₀ → machine.Run Machine.Any s₀ ls s →
    StaysDropped s := by
  intro h
  obtain ⟨s, hr, hb⟩ := Machine.run_of_exec_any (M := machine) (C := Machine.Any)
    Machine.guarded_any (show (machine.exec phoneStart brokenPipe).any fileBack = true by
      decide +kernel)
  exact not_stays_of_fileBack hb (h _ _ s init_phoneStart hr)

/-- Without any `write`, a deletion that fails is answered as one that succeeded. -/
theorem undeleted_file_stays : ∃ ls s, machine.Run Machine.Any phoneStart ls s ∧
    ¬ StaysDropped s := by
  obtain ⟨s, hr, hb⟩ := Machine.run_of_exec_any (M := machine) (C := Machine.Any)
    Machine.guarded_any (show (machine.exec phoneStart
      [.load [([], .listed none)], startServer true 321 4200 (.stat statFields) 0, .insert 0,
        stopServer .notRemoved]).any fileBack = true by decide +kernel)
  exact ⟨_, s, hr, not_stays_of_fileBack hb⟩

/-- A `write` that ends before its run is stopped leaves no file behind. -/
theorem writtenThenStopped_stays : ∃ s, machine.Run Orderly phoneStart writtenThenStopped s ∧
    droppedZero s = true ∧ StaysDropped s := by
  obtain ⟨s, hr, hb⟩ := Machine.run_of_exec_any (M := machine) (C := Orderly)
    (by decide +kernel) (show (machine.exec phoneStart writtenThenStopped).any droppedZero = true by
      decide +kernel)
  exact ⟨s, hr, hb, dropped_stays_dropped init_phoneStart hr⟩

end RevBox.Hosted
