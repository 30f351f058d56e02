import RevBox.Desktop.ProcessService
import RevBox.Support.Text
import Mathlib.Logic.Function.Basic
import Mathlib.Data.List.Nodup

/-!
# Desktop — TaskService

The tasks of `services/task_service.rs` and their rows of `db/task_repo.rs`.  A task is a row, a
token in the registry, and a worker that runs the loop of `execute`; between any two of its steps
other tasks may be started, someone may cancel, any write of the database may fail, and the process
may end and start again.

* `Inv`: what the rows, the registry and the events have to do with the workers.
* `final_row_stays`: a row that has come to an end is never changed.
* `cancelled_by_someone`: what the rows say of their end is so.
* `told_as_written`: the events of a task are its row's two changes.
* `logs_in_order`: the log of a task is what its process printed, in order.
-/

namespace RevBox.TaskService

open Machine

abbrev Line := ProcessService.StreamKind × List Char

/-! ### The tables -/

/-- `TASK_STATUSES`. -/
inductive Status where
  | pending
  | running
  | success
  | failed
  | cancelled
  deriving DecidableEq

/-- The task has come to an end. -/
def Status.Final (s : Status) : Prop := s ≠ .pending ∧ s ≠ .running

instance (s : Status) : Decidable s.Final := inferInstanceAs (Decidable (_ ∧ _))

/-- `TaskRow`. -/
structure TaskRow where
  id : String
  taskType : String
  name : List Char
  status : Status
  exitCode : Option Int
  createdAt : Nat
  finishedAt : Option Nat
  deriving DecidableEq

/-- A row of `task_logs`. -/
structure TaskLog where
  taskId : String
  stream : ProcessService.StreamKind
  chunk : List Char
  ts : Nat

/-- `insert`: the id is the primary key. -/
def insert (rows : List TaskRow) (id taskType : String) (name : List Char) (status : Status)
    (now : Nat) : Option (List TaskRow) :=
  if rows.any fun r => r.id = id then none
  else some (rows ++ [⟨id, taskType, name, status, none, now, none⟩])

/-- The assignments of `update`. -/
def TaskRow.set (r : TaskRow) (status : Status) (exitCode : Option Int) (finished : Bool)
    (now : Nat) : TaskRow :=
  { r with
    status := status
    exitCode := exitCode.or r.exitCode
    finishedAt := if finished then some now else r.finishedAt }

/-- The rows of one id changed. -/
def change (rows : List TaskRow) (id : String) (f : TaskRow → TaskRow) : List TaskRow :=
  rows.map fun r => if r.id = id then f r else r

/-- `update`. -/
def update (rows : List TaskRow) (id : String) (status : Status) (exitCode : Option Int)
    (finished : Bool) (now : Nat) : Option (List TaskRow) :=
  if rows.any fun r => r.id = id then
    some (change rows id fun r => r.set status exitCode finished now)
  else none

/-- `append_log`, for the lines of one task. -/
def appendLog (logs : List TaskLog) (id : String) (lines : List Line) (now : Nat) : List TaskLog :=
  logs ++ lines.map fun l => ⟨id, l.1, l.2, now⟩

/-- `list`: the newest first. -/
def list (rows : List TaskRow) (limit : Int) : List TaskRow :=
  let limit := if limit ≤ 0 then 100 else min limit 500
  (rows.reverse.mergeSort fun r r' => r'.createdAt ≤ r.createdAt).take limit.toNat

/-- `logs`: in the order they were written. -/
def logs (all : List TaskLog) (id : String) (limit : Int) : List (Line × Nat) :=
  let limit := if limit ≤ 0 then 1000 else min limit 5000
  ((all.filter fun l => l.taskId = id).take limit.toNat).map fun l => ((l.stream, l.chunk), l.ts)

/-- `mark_orphans_failed`. -/
def markOrphansFailed (rows : List TaskRow) (now : Nat) : List TaskRow :=
  rows.map fun r =>
    if r.status.Final then r else { r with status := .failed, finishedAt := some now }

/-! ### The names of tasks -/

/-- `CommandSpec`, what a task makes use of. -/
structure CommandSpec where
  executable : List Char
  args : List (List Char)
  timeout : Option Nat
  cleanupPaths : List String

/-- `MAX_NAME_LEN`. -/
def maxNameLen : Nat := 200

/-- `truncate_name`: cut where a character ends. -/
def truncateName (name : List Char) : List Char := ProcessService.fitting name maxNameLen

/-- `Path::file_name`: the last component, unless it leads upwards. -/
def fileName (path : List Char) : Option (List Char) :=
  (((path.splitOn '/').filter fun c => c ≠ [] ∧ c ≠ ['.']).getLast?).filter fun c => c ≠ ['.', '.']

/-- `build_task_name`. -/
def buildTaskName (spec : CommandSpec) : List Char :=
  truncateName (((spec.args.take 3).map fun arg => ' ' :: arg).foldl (· ++ ·)
    ((fileName spec.executable).getD spec.executable))

/-- The name that a task is given. -/
def taskName (name : List Char) (spec : CommandSpec) : List Char :=
  if Text.trim name = [] then buildTaskName spec else truncateName name

/-! ### The workers -/

/-- Where the worker of a task stands. -/
inductive Stage where
  | inserted
  | spawned
  | announced
  | executing (run : ProcessService.Run)
  | returned (status : Status) (exitCode : Option Int)
  | written (status : Status) (exitCode : Option Int)
  | cleaned (status : Status) (exitCode : Option Int)
  | told (status : Status) (exitCode : Option Int)
  | finished (status : Status) (exitCode : Option Int)

/-- The worker of a task, its token, and the lines its sink has got. -/
structure Worker where
  spec : CommandSpec
  token : Bool
  stage : Stage
  lines : List Line

/-- A `task://status` event. -/
structure Event where
  taskId : String
  status : Status
  exitCode : Option Int
  deriving DecidableEq

/-- The tables, the registry of tokens, the workers, and what was done so far: the events emitted,
and the paths cleaned up, each with its task. -/
structure Service where
  rows : List TaskRow
  logs : List TaskLog
  running : List String
  workers : String → Option Worker
  events : List Event
  removed : List (String × String)

/-- What a worker makes of the outcome. -/
def verdict : ProcessService.Outcome → Status × Option Int
  | .exited code => (if code = some 0 then .success else .failed, code)
  | .cancelled => (.cancelled, none)
  | .timedOut => (.failed, none)

/-- The loop of `execute` at its start, with a token that may have been cancelled already. -/
def begun (timeout : Option Nat) (token : Bool) : ProcessService.Run :=
  { ProcessService.start timeout with cancelled := if token then some 0 else none }

/-- Where the worker stands when the loop is at `run`. -/
def stageOf (run : ProcessService.Run) : Stage :=
  match run.returned with
  | some o => .returned (verdict o).1 (verdict o).2
  | none => .executing run

/-- The token of a task is cancelled. -/
def Worker.cancel (w : Worker) : Worker :=
  { w with
    token := true
    stage := match w.stage with
      | .executing run => .executing { run with cancelled := run.cancelled.or (some run.now) }
      | s => s }

namespace Service

/-- The service with the worker of a task changed. -/
def put (p : Service) (id : String) (w : Worker) : Service :=
  { p with workers := Function.update p.workers id (some w) }

/-- `cancel`. -/
def cancel (p : Service) (id : String) : Except String Unit × Service :=
  if id ∈ p.running then
    (.ok (), match p.workers id with
      | some w => p.put id w.cancel
      | none => p)
  else (.error ("任务未在运行，无法取消: " ++ id), p)

end Service

/-- A write of the database, which succeeds or leaves the table as it is. -/
def attempt {α : Type} (ok : Bool) (new : Option α) (old : α) : α := if ok then new.getD old else old

/-- What happens: a task is started, in two steps; its worker takes a step; someone cancels; or the
process ends and starts again.  `ok` tells whether the database takes the write. -/
inductive Label where
  | insert (id taskType : String) (name : List Char) (spec : CommandSpec) (now : Nat) (ok : Bool)
  | register (id : String)
  | announce (id : String) (now : Nat) (ok : Bool)
  | spawn (id : String) (child : Except (List Char) Nat) (now : Nat) (ok : Bool)
  | loop (id : String) (l : ProcessService.Label) (now : Nat) (ok : Bool)
  | write (id : String) (now : Nat) (ok : Bool)
  | clean (id : String)
  | tell (id : String)
  | forget (id : String)
  | cancel (id : String)
  | restart (now : Nat) (ok : Bool)

/-- The line that tells the process id. -/
def pidLine (pid : Nat) : Line := (.system, "pid=".toList ++ Text.decimal pid)

def step (p : Service) : Label → Option Service
  | .insert id taskType name spec now ok =>
      -- a start whose row is not taken ends there
      match if ok then insert p.rows id taskType (taskName name spec) .pending now else none with
      | some rows => some { p.put id ⟨spec, false, .inserted, []⟩ with rows := rows }
      | none => some p
  | .register id =>
      match p.workers id with
      | some ⟨spec, token, .inserted, lines⟩ =>
          some { p.put id ⟨spec, token, .spawned, lines⟩ with running := id :: p.running }
      | _ => none
  | .announce id now ok =>
      match p.workers id with
      | some ⟨spec, token, .spawned, lines⟩ =>
          some { p.put id ⟨spec, token, .announced, lines⟩ with
            rows := attempt ok (update p.rows id .running none false now) p.rows
            events := p.events ++ [⟨id, .running, none⟩] }
      | _ => none
  | .spawn id child now ok =>
      match p.workers id, child with
      | some ⟨spec, token, .announced, lines⟩, .ok pid =>
          some { p.put id ⟨spec, token, .executing (begun spec.timeout token),
              lines ++ [pidLine pid]⟩ with
            logs := attempt ok (some (appendLog p.logs id [pidLine pid] now)) p.logs }
      | some ⟨spec, token, .announced, lines⟩, .error e =>
          some { p.put id ⟨spec, token, .returned .failed none, lines ++ [(.system, e)]⟩ with
            logs := attempt ok (some (appendLog p.logs id [(.system, e)] now)) p.logs }
      | _, _ => none
  | .loop id l now ok =>
      match p.workers id, l with
      -- who cancels does it through the registry
      | _, .cancel => none
      | some ⟨spec, token, .executing run, lines⟩, l =>
          (ProcessService.step run l).map fun run' =>
            let new := run'.sink.drop run.sink.length
            { p.put id ⟨spec, token, stageOf run', lines ++ new⟩ with
              logs := attempt ok (some (appendLog p.logs id new now)) p.logs }
      | _, _ => none
  | .write id now ok =>
      match p.workers id with
      | some ⟨spec, token, .returned s c, lines⟩ =>
          some { p.put id ⟨spec, token, .written s c, lines⟩ with
            rows := attempt ok (update p.rows id s c true now) p.rows }
      | _ => none
  | .clean id =>
      match p.workers id with
      | some ⟨spec, token, .written s c, lines⟩ =>
          some { p.put id ⟨spec, token, .cleaned s c, lines⟩ with
            removed := p.removed ++ spec.cleanupPaths.map fun path => (id, path) }
      | _ => none
  | .tell id =>
      match p.workers id with
      | some ⟨spec, token, .cleaned s c, lines⟩ =>
          some { p.put id ⟨spec, token, .told s c, lines⟩ with
            events := p.events ++ [⟨id, s, c⟩] }
      | _ => none
  | .forget id =>
      match p.workers id with
      | some ⟨spec, token, .told s c, lines⟩ =>
          some { p.put id ⟨spec, token, .finished s c, lines⟩ with
            running := p.running.filter fun r => r ≠ id }
      | _ => none
  | .cancel id => some (p.cancel id).2
  | .restart now ok =>
      some { p with
        rows := attempt ok (some (markOrphansFailed p.rows now)) p.rows
        running := []
        workers := fun _ => none
        events := []
        removed := [] }

/-! ### What the rows say -/

/-- The row is not at its end, and says nothing of one. -/
def TaskRow.Unended (r : TaskRow) : Prop :=
  ¬ r.status.Final ∧ r.exitCode = none ∧ r.finishedAt = none

/-- The row is at its end, as its status and its exit code say. -/
def TaskRow.Ended (r : TaskRow) : Prop :=
  r.status.Final ∧ r.finishedAt.isSome ∧ (r.status = .success ↔ r.exitCode = some 0) ∧
    (r.status = .cancelled → r.exitCode = none)

/-- The rows have distinct ids, and each is at its end or not. -/
structure SoundRows (rows : List TaskRow) : Prop where
  ids : (rows.map TaskRow.id).Nodup
  each : ∀ r ∈ rows, r.Unended ∨ r.Ended

/-- The database as an earlier process has left it: nothing of this one. -/
def machine : Machine Service Label where
  init p := SoundRows p.rows ∧ (∀ l ∈ p.logs, ∃ r ∈ p.rows, r.id = l.taskId) ∧ p.running = [] ∧
    p.workers = (fun _ => none) ∧ p.events = [] ∧ p.removed = []
  step := step

/-! ### What the tables keep -/

section Rows

variable {rows rows' : List TaskRow} {id : String} {f : TaskRow → TaskRow} {r : TaskRow}

theorem SoundRows.eq (h : SoundRows rows) {r r' : TaskRow} (hr : r ∈ rows) (hr' : r' ∈ rows)
    (hid : r.id = r'.id) : r = r' := List.inj_on_of_nodup_map h.ids hr hr' hid

theorem mem_change_self (hr : r ∈ rows) (hid : r.id = id) : f r ∈ change rows id f :=
  List.mem_map.mpr ⟨r, hr, if_pos hid⟩

theorem mem_change_ne (hr : r ∈ rows) (hid : r.id ≠ id) : r ∈ change rows id f :=
  List.mem_map.mpr ⟨r, hr, if_neg hid⟩

theorem mem_change (h : r ∈ change rows id f) :
    (r ∈ rows ∧ r.id ≠ id) ∨ ∃ r₀ ∈ rows, r₀.id = id ∧ f r₀ = r := by
  obtain ⟨r₀, hr₀, rfl⟩ := List.mem_map.mp h
  split
  · exact .inr ⟨r₀, hr₀, ‹_›, rfl⟩
  · exact .inl ⟨hr₀, ‹_›⟩

theorem SoundRows.change (h : SoundRows rows) (hid : ∀ r, (f r).id = r.id)
    (hf : ∀ r ∈ rows, r.id = id → (f r).Unended ∨ (f r).Ended) : SoundRows (change rows id f) where
  ids := by
    have hsame : (TaskService.change rows id f).map TaskRow.id = rows.map TaskRow.id := by
      rw [TaskService.change, List.map_map]
      refine List.map_congr_left fun r _ => ?_
      simp only [Function.comp_apply]
      split
      · exact hid r
      · rfl
    rw [hsame]
    exact h.ids
  each r hr := by
    obtain ⟨hr, -⟩ | ⟨r₀, hr₀, hid₀, rfl⟩ := mem_change hr
    · exact h.each r hr
    · exact hf r₀ hr₀ hid₀

theorem insert_cases {taskType : String} {name : List Char} {status : Status} {now : Nat}
    (h : insert rows id taskType name status now = some rows') :
    (∀ r ∈ rows, r.id ≠ id) ∧ rows' = rows ++ [⟨id, taskType, name, status, none, now, none⟩] := by
  unfold insert at h
  split at h
  · cases h
  · rename_i hany
    cases h
    simp only [List.any_eq_true, decide_eq_true_eq, not_exists, not_and] at hany
    exact ⟨hany, rfl⟩

theorem SoundRows.insert (h : SoundRows rows) (hid : ∀ r' ∈ rows, r'.id ≠ r.id) (hr : r.Unended) :
    SoundRows (rows ++ [r]) where
  ids := by
    rw [List.map_append, List.nodup_append]
    refine ⟨h.ids, List.nodup_singleton _, fun a ha b hb => ?_⟩
    obtain ⟨r', hr', rfl⟩ := List.mem_map.mp ha
    rw [List.mem_singleton.mp hb]
    exact hid r' hr'
  each r' hr' := by
    rcases List.mem_append.mp hr' with hr' | hr'
    · exact h.each r' hr'
    · rw [List.mem_singleton.mp hr']
      exact .inl hr

/-- The row of a task that is marked as an orphan. -/
theorem mem_markOrphansFailed {now : Nat} (h : r ∈ markOrphansFailed rows now) :
    (r ∈ rows ∧ r.status.Final) ∨ ∃ r₀ ∈ rows, ¬ r₀.status.Final ∧
      r = { r₀ with status := .failed, finishedAt := some now } := by
  obtain ⟨r₀, hr₀, rfl⟩ := List.mem_map.mp h
  split
  · exact .inl ⟨hr₀, ‹_›⟩
  · exact .inr ⟨r₀, hr₀, ‹_›, rfl⟩

theorem SoundRows.markOrphansFailed {now : Nat} (h : SoundRows rows) :
    SoundRows (markOrphansFailed rows now) where
  ids := by
    have hsame : (TaskService.markOrphansFailed rows now).map TaskRow.id = rows.map TaskRow.id := by
      rw [TaskService.markOrphansFailed, List.map_map]
      refine List.map_congr_left fun r _ => ?_
      simp only [Function.comp_apply]
      split <;> rfl
    rw [hsame]
    exact h.ids
  each r hr := by
    obtain ⟨hr, -⟩ | ⟨r₀, hr₀, hopen, rfl⟩ := mem_markOrphansFailed hr
    · exact h.each r hr
    · obtain hu | he := h.each r₀ hr₀
      · exact .inr ⟨show Status.failed.Final by decide, rfl, by simp [hu.2.1], by simp⟩
      · exact absurd he.1 hopen

theorem TaskRow.Unended.set_running {now : Nat} (h : r.Unended) :
    (r.set .running none false now).Unended := ⟨by simp [TaskRow.set, Status.Final], by
  simp [TaskRow.set, h.2.1], by simp [TaskRow.set, h.2.2]⟩

end Rows

/-! ### The loop of a task -/

/-- What is known of the loop of a worker: it has not returned, and says that it was cancelled only
if the token was. -/
structure Loops (token : Bool) (run : ProcessService.Run) : Prop where
  open_ : run.returned = none
  heard : run.cancelled.isSome = true → token = true
  reason : run.reason = some .cancelled → token = true

/-- What a branch makes of the sink and of the reason. -/
theorem fire_spec {run : ProcessService.Run} {b : ProcessService.Branch}
    (hb : run.branch = some b) :
    run.sink <+: (run.fire b).sink ∧ (run.fire b).cancelled = run.cancelled ∧
      ((run.fire b).reason = some .cancelled →
        run.reason = some .cancelled ∨ run.cancelled.isSome = true) := by
  have hterm : ∀ o text, run.sink <+: (run.terminate o text).sink ∧
      (run.terminate o text).cancelled = run.cancelled ∧
      (run.terminate o text).reason = some o := by
    intro o text
    unfold ProcessService.Run.terminate
    split <;> exact ⟨List.prefix_append _ _, rfl, rfl⟩
  obtain ⟨rfl, -⟩ | ⟨rfl, -⟩ | ⟨rfl, -, hc⟩ | ⟨rfl, -⟩ := ProcessService.branch_cases hb
  · cases hchannel : run.channel with
    | nil =>
        have hfire : run.fire .recv = { run with rxOpen := false } := by
          simp only [ProcessService.Run.fire, hchannel]
        rw [hfire]
        exact ⟨List.prefix_refl _, rfl, .inl⟩
    | cons line rest =>
        have hfire : run.fire .recv =
            { run with channel := rest, sink := run.sink ++ [line] } := by
          simp only [ProcessService.Run.fire, hchannel]
        rw [hfire]
        exact ⟨List.prefix_append _ _, rfl, .inl⟩
  · exact ⟨List.prefix_refl _, rfl, .inl⟩
  · exact ⟨(hterm _ _).1, (hterm _ _).2.1, fun _ => .inr hc⟩
  · refine ⟨(hterm _ _).1, (hterm _ _).2.1, fun h => ?_⟩
    rw [ProcessService.Run.fire, (hterm _ _).2.2] at h
    cases h

/-- The looks at the clock say nothing, and end the loop for its own reason. -/
theorem clock_spec (run : ProcessService.Run) :
    run.escalate.settle.sink = run.sink ∧ run.escalate.settle.cancelled = run.cancelled ∧
      run.escalate.settle.reason = run.reason ∧
      (run.escalate.settle.returned = some .cancelled → run.returned = none →
        run.reason = some .cancelled) := by
  have hsettle : ∀ q : ProcessService.Run, q.settle.returned = some .cancelled →
      q.returned = none → q.reason = some .cancelled := by
    intro q h hn
    unfold ProcessService.Run.settle at h
    split at h
    · cases hr : q.reason <;> simp_all
    · rw [hn] at h
      cases h
  have hsame : run.escalate.sink = run.sink ∧ run.escalate.cancelled = run.cancelled ∧
      run.escalate.reason = run.reason ∧ run.escalate.returned = run.returned := by
    unfold ProcessService.Run.escalate
    split <;> exact ⟨rfl, rfl, rfl, rfl⟩
  have hkeeps : ∀ q : ProcessService.Run, q.settle.sink = q.sink ∧
      q.settle.cancelled = q.cancelled ∧ q.settle.reason = q.reason := by
    intro q
    unfold ProcessService.Run.settle
    split <;> exact ⟨rfl, rfl, rfl⟩
  obtain ⟨h₁, h₂, h₃⟩ := hkeeps run.escalate
  rw [h₁, h₂, h₃, hsame.1, hsame.2.1, hsame.2.2.1]
  exact ⟨rfl, rfl, rfl, fun h hn => hsame.2.2.1 ▸ hsettle _ h (hsame.2.2.2.trans hn)⟩

/-- **What a step of the loop keeps.** -/
theorem Loops.step {token : Bool} {run run' : ProcessService.Run} {l : ProcessService.Label}
    (h : Loops token run) (hl : l ≠ .cancel) (hs : ProcessService.step run l = some run') :
    run.sink <+: run'.sink ∧ (run'.cancelled.isSome = true → token = true) ∧
      (run'.reason = some .cancelled → token = true) ∧
      (run'.returned = some .cancelled → token = true) := by
  have hsame : ∀ {q : ProcessService.Run}, q.sink = run.sink → q.cancelled = run.cancelled →
      q.reason = run.reason → q.returned = run.returned →
      run.sink <+: q.sink ∧ (q.cancelled.isSome = true → token = true) ∧
        (q.reason = some .cancelled → token = true) ∧
        (q.returned = some .cancelled → token = true) := by
    intro q h₁ h₂ h₃ h₄
    rw [h₁, h₂, h₃, h₄, h.open_]
    exact ⟨List.prefix_refl _, h.heard, h.reason, nofun⟩
  cases l with
  | cancel => exact absurd rfl hl
  | pass d => cases hs; exact hsame rfl rfl rfl rfl
  | line kind text =>
      simp only [ProcessService.step] at hs
      split at hs <;> cases hs
      exact hsame rfl rfl rfl rfl
  | eof =>
      simp only [ProcessService.step] at hs
      split at hs <;> cases hs
      exact hsame rfl rfl rfl rfl
  | exit code =>
      simp only [ProcessService.step] at hs
      split at hs <;> cases hs
      exact hsame rfl rfl rfl rfl
  | poll =>
      simp only [ProcessService.step, h.open_, if_true] at hs
      obtain ⟨b, hb, rfl⟩ := Option.map_eq_some_iff.mp hs
      obtain ⟨hsink, hcancelled, hreason⟩ := fire_spec hb
      obtain ⟨h₁, h₂, h₃, hreturned⟩ := clock_spec (run.fire b)
      rw [ProcessService.returned_fire] at hreturned
      have hheard : (run.fire b).reason = some .cancelled → token = true :=
        fun hr => (hreason hr).elim h.reason h.heard
      rw [h₁, h₂, h₃, hcancelled]
      exact ⟨hsink, h.heard, hheard, fun hr => hheard (hreturned hr h.open_)⟩

theorem loops_begun (timeout : Option Nat) (token : Bool) : Loops token (begun timeout token) where
  open_ := rfl
  heard := by cases token <;> simp [begun]
  reason := nofun

theorem Loops.cancel {token : Bool} {run : ProcessService.Run} (h : Loops token run) :
    Loops true { run with cancelled := run.cancelled.or (some run.now) } :=
  ⟨h.open_, fun _ => rfl, fun _ => rfl⟩

/-! ### The invariant -/

/-- The outcome of a task, from when it is known. -/
def Stage.verdict : Stage → Option (Status × Option Int)
  | .returned s c | .written s c | .cleaned s c | .told s c | .finished s c => some (s, c)
  | _ => none

/-- The last write of the row has been tried. -/
def Stage.settled : Stage → Bool
  | .written .. | .cleaned .. | .told .. | .finished .. => true
  | _ => false

/-- The paths of the task have been cleaned up. -/
def Stage.swept : Stage → Bool
  | .cleaned .. | .told .. | .finished .. => true
  | _ => false

/-- The token is in the registry. -/
def Stage.registered : Stage → Bool
  | .inserted | .finished .. => false
  | _ => true

/-- The events of the task. -/
def Stage.events (id : String) : Stage → List Event
  | .inserted | .spawned => []
  | .told s c | .finished s c => [⟨id, .running, none⟩, ⟨id, s, c⟩]
  | _ => [⟨id, .running, none⟩]

/-- What the row says, for a worker at this stage; `W` if every write was taken. -/
def Stage.Agrees (W : Prop) (stage : Stage) (r : TaskRow) : Prop :=
  if stage.settled then (¬ W ∧ r.Unended) ∨ (r.Ended ∧ stage.verdict = some (r.status, r.exitCode))
  else r.Unended

/-- What is known of a worker. -/
structure Worker.Sound (w : Worker) : Prop where
  loops : ∀ run, w.stage = .executing run → Loops w.token run
  verdict : ∀ s c, w.stage.verdict = some (s, c) →
    s.Final ∧ (s = .success ↔ c = some 0) ∧ (s = .cancelled → c = none ∧ w.token = true)

/-- The lines of the log of a task. -/
def Service.logged (p : Service) (id : String) : List Line :=
  (p.logs.filter fun l => l.taskId = id).map fun l => (l.stream, l.chunk)

/-- **What holds between any two steps**, from the rows of an earlier process: `T` tells whose token
was cancelled; `W` whether every write of a row was taken, and `L` whether every line was. -/
structure Inv (rows₀ : List TaskRow) (T : String → Prop) (W L : Prop) (p : Service) : Prop where
  rows : SoundRows p.rows
  owned : ∀ id w, p.workers id = some w → ∃ r ∈ p.rows, r.id = id ∧ w.stage.Agrees W r
  attended : W → ∀ r ∈ p.rows, r.Unended →
    r ∈ rows₀ ∨ ∃ w, p.workers r.id = some w ∧ w.stage.settled = false
  sound : ∀ id w, p.workers id = some w → w.Sound
  asked : ∀ id w, p.workers id = some w → w.token = true → T id
  cancelled : ∀ r ∈ p.rows, r.status = .cancelled → r ∈ rows₀ ∨ T r.id
  registry : ∀ id, id ∈ p.running ↔ ∃ w, p.workers id = some w ∧ w.stage.registered = true
  events : ∀ id, (p.events.filter fun e => e.taskId = id) =
    (p.workers id).elim [] fun w => w.stage.events id
  removed : ∀ id path, (id, path) ∈ p.removed → ∃ w, p.workers id = some w ∧ w.stage.swept = true
  referenced : ∀ l ∈ p.logs, ∃ r ∈ p.rows, r.id = l.taskId
  logged : ∀ id w, p.workers id = some w →
    (p.logged id).Sublist w.lines ∧ (L → p.logged id = w.lines)

section Moves

variable {rows₀ : List TaskRow} {T : String → Prop} {W L : Prop} {p p' : Service} {id : String}
  {w w' : Worker}

/-- **A worker moves**, and what is not its own stays. -/
theorem Inv.move (h : Inv rows₀ T W L p)
    (hworkers : p'.workers = Function.update p.workers id (some w'))
    (hrows : SoundRows p'.rows)
    (hothers : ∀ r, r.id ≠ id → (r ∈ p'.rows ↔ r ∈ p.rows))
    (howned : ∃ r ∈ p'.rows, r.id = id ∧ w'.stage.Agrees W r)
    (hsound : w'.Sound) (hasked : w'.token = true → T id)
    (hregistry : ∀ k, k ∈ p'.running ↔ if k = id then w'.stage.registered = true else k ∈ p.running)
    (hevents : ∀ k, (p'.events.filter fun e => e.taskId = k) =
      if k = id then w'.stage.events id else p.events.filter fun e => e.taskId = k)
    (hremoved : ∀ k path, (k, path) ∈ p'.removed →
      if k = id then w'.stage.swept = true else (k, path) ∈ p.removed)
    (hreferenced : ∀ l ∈ p'.logs, l ∈ p.logs ∨ l.taskId = id)
    (hlogged : ∀ k, k ≠ id → p'.logged k = p.logged k)
    (hown : (p'.logged id).Sublist w'.lines ∧ (L → p'.logged id = w'.lines)) :
    Inv rows₀ T W L p' := by
  obtain ⟨r, hr, hid, hagrees⟩ := howned
  have hself : p'.workers id = some w' := by rw [hworkers, Function.update_self]
  have hne : ∀ k, k ≠ id → p'.workers k = p.workers k := fun k hk => by
    rw [hworkers, Function.update_of_ne hk]
  refine ⟨hrows, fun k v hv => ?_, fun hW r' hr' hu => ?_, fun k v hv => ?_, fun k v hv htok => ?_,
    fun r' hr' hc => ?_, fun k => ?_, fun k => ?_, fun k path hm => ?_, fun l hl => ?_,
    fun k v hv => ?_⟩
  · by_cases hk : k = id
    · subst hk
      rw [hself] at hv
      cases hv
      exact ⟨r, hr, hid, hagrees⟩
    · rw [hne k hk] at hv
      obtain ⟨r', hr', hid', ha⟩ := h.owned k v hv
      exact ⟨r', (hothers r' (hid' ▸ hk)).mpr hr', hid', ha⟩
  · by_cases hk : r'.id = id
    · obtain rfl := hrows.eq hr' hr (hk.trans hid.symm)
      refine .inr ⟨w', hk ▸ hself, ?_⟩
      unfold Stage.Agrees at hagrees
      split at hagrees
      · exact absurd hu.1 (not_not.mpr (hagrees.resolve_left fun hn => hn.1 hW).1.1)
      · exact eq_false_of_ne_true ‹_›
    · rw [hne r'.id hk]
      exact h.attended hW r' ((hothers r' hk).mp hr') hu
  · by_cases hk : k = id
    · subst hk
      rw [hself] at hv
      cases hv
      exact hsound
    · exact h.sound k v (hne k hk ▸ hv)
  · by_cases hk : k = id
    · subst hk
      rw [hself] at hv
      cases hv
      exact hasked htok
    · exact h.asked k v (hne k hk ▸ hv) htok
  · by_cases hk : r'.id = id
    · obtain rfl := hrows.eq hr' hr (hk.trans hid.symm)
      unfold Stage.Agrees at hagrees
      split at hagrees
      · obtain ⟨-, hu⟩ | ⟨-, hverdict⟩ := hagrees
        · exact absurd hu.1 (by simp [hc, Status.Final])
        · exact .inr (hk ▸ hasked ((hsound.verdict _ _ hverdict).2.2 hc).2)
      · exact absurd hagrees.1 (by simp [hc, Status.Final])
    · exact h.cancelled r' ((hothers r' hk).mp hr') hc
  · rw [hregistry]
    by_cases hk : k = id
    · subst hk
      rw [if_pos rfl, hself]
      exact ⟨fun hreg => ⟨w', rfl, hreg⟩, fun ⟨v, hv, hreg⟩ => by cases hv; exact hreg⟩
    · rw [if_neg hk, hne k hk]
      exact h.registry k
  · rw [hevents]
    by_cases hk : k = id
    · subst hk
      rw [if_pos rfl, hself]
      rfl
    · rw [if_neg hk, hne k hk]
      exact h.events k
  · have hm := hremoved k path hm
    by_cases hk : k = id
    · subst hk
      rw [if_pos rfl] at hm
      exact ⟨w', hself, hm⟩
    · rw [if_neg hk] at hm
      rw [hne k hk]
      exact h.removed k path hm
  · by_cases hk : l.taskId = id
    · exact ⟨r, hr, hid.trans hk.symm⟩
    · obtain ⟨r', hr', hid'⟩ := h.referenced l ((hreferenced l hl).resolve_right hk)
      exact ⟨r', (hothers r' (hid' ▸ hk)).mpr hr', hid'⟩
  · by_cases hk : k = id
    · subst hk
      rw [hself] at hv
      cases hv
      exact hown
    · rw [hlogged k hk]
      exact h.logged k v (hne k hk ▸ hv)

/-- A worker moves, and leaves its row as it is. -/
theorem Inv.advance (h : Inv rows₀ T W L p) (hw : p.workers id = some w)
    (hworkers : p'.workers = Function.update p.workers id (some w'))
    (hrows : p'.rows = p.rows) (hagrees : ∀ r, w.stage.Agrees W r → w'.stage.Agrees W r)
    (hsound : w'.Sound) (htoken : w'.token = true → T id)
    (hregistry : ∀ k, k ∈ p'.running ↔ if k = id then w'.stage.registered = true else k ∈ p.running)
    (hevents : ∀ k, (p'.events.filter fun e => e.taskId = k) =
      if k = id then w'.stage.events id else p.events.filter fun e => e.taskId = k)
    (hremoved : ∀ k path, (k, path) ∈ p'.removed →
      if k = id then w'.stage.swept = true else (k, path) ∈ p.removed)
    (hreferenced : ∀ l ∈ p'.logs, l ∈ p.logs ∨ l.taskId = id)
    (hlogged : ∀ k, k ≠ id → p'.logged k = p.logged k)
    (hown : (p'.logged id).Sublist w'.lines ∧ (L → p'.logged id = w'.lines)) :
    Inv rows₀ T W L p' := by
  obtain ⟨r, hr, hid, ha⟩ := h.owned id w hw
  exact h.move hworkers (hrows ▸ h.rows) (fun r _ => by rw [hrows])
    ⟨r, hrows ▸ hr, hid, hagrees r ha⟩ hsound htoken hregistry hevents hremoved hreferenced hlogged
    hown

/-- Nothing changes in the registry. -/
theorem Inv.registry_same (h : Inv rows₀ T W L p) (hw : p.workers id = some w)
    (hreg : w'.stage.registered = w.stage.registered) (k : String) :
    k ∈ p.running ↔ if k = id then w'.stage.registered = true else k ∈ p.running := by
  split
  · rename_i hk
    rw [hk, h.registry, hw, hreg]
    exact ⟨fun ⟨v, hv, hr⟩ => by cases hv; exact hr, fun hr => ⟨w, rfl, hr⟩⟩
  · rfl

/-- No event is emitted. -/
theorem Inv.events_same (h : Inv rows₀ T W L p) (hw : p.workers id = some w)
    (hev : w'.stage.events id = w.stage.events id) (k : String) :
    (p.events.filter fun e => e.taskId = k) =
      if k = id then w'.stage.events id else p.events.filter fun e => e.taskId = k := by
  split
  · rename_i hk
    rw [hk, h.events, hw, hev]
    rfl
  · rfl

/-- One event of the task is emitted. -/
theorem Inv.events_snoc (h : Inv rows₀ T W L p) (hw : p.workers id = some w) {status : Status}
    {code : Option Int}
    (hev : w'.stage.events id = w.stage.events id ++ [⟨id, status, code⟩]) (k : String) :
    ((p.events ++ [(⟨id, status, code⟩ : Event)]).filter fun e => e.taskId = k) =
      if k = id then w'.stage.events id else p.events.filter fun e => e.taskId = k := by
  rw [List.filter_append, h.events k]
  split
  · rename_i hk
    subst hk
    simp [hw, hev]
  · rename_i hk
    simp [Ne.symm hk]

/-- No path is removed. -/
theorem Inv.removed_same (h : Inv rows₀ T W L p) (hw : p.workers id = some w)
    (hswept : w.stage.swept = true → w'.stage.swept = true) (k path : String)
    (hm : (k, path) ∈ p.removed) : if k = id then w'.stage.swept = true else (k, path) ∈ p.removed := by
  split
  · rename_i hk
    subst hk
    obtain ⟨v, hv, hs⟩ := h.removed k path hm
    rw [hw] at hv
    cases hv
    exact hswept hs
  · exact hm

theorem logged_append {q : Service} {k : String} {new : List Line} {now : Nat} {ok : Bool}
    (hlogs : q.logs = attempt ok (some (appendLog p.logs id new now)) p.logs) :
    q.logged k = if k = id ∧ ok = true then p.logged k ++ new else p.logged k := by
  unfold Service.logged
  rw [hlogs]
  cases ok with
  | false => simp [attempt]
  | true =>
      have hone : (new.map fun l => (⟨id, l.1, l.2, now⟩ : TaskLog)).filter
          (fun l => l.taskId = k) = if k = id then new.map fun l => ⟨id, l.1, l.2, now⟩ else [] := by
        split
        · rename_i hk
          exact List.filter_eq_self.mpr fun l hl => by
            obtain ⟨a, -, rfl⟩ := List.mem_map.mp hl
            simp [hk]
        · rename_i hk
          exact List.filter_eq_nil_iff.mpr fun l hl => by
            obtain ⟨a, -, rfl⟩ := List.mem_map.mp hl
            simpa using Ne.symm hk
      simp only [attempt, if_true, Option.getD_some, appendLog, List.filter_append, List.map_append,
        hone, and_true]
      split
      · simp [Function.comp_def]
      · simp

theorem mem_appendLog {new : List Line} {now : Nat} {ok : Bool} {l : TaskLog}
    (h : l ∈ attempt ok (some (appendLog p.logs id new now)) p.logs) :
    l ∈ p.logs ∨ l.taskId = id := by
  cases ok with
  | false => exact .inl h
  | true =>
      rcases List.mem_append.mp h with h | h
      · exact .inl h
      · obtain ⟨a, -, rfl⟩ := List.mem_map.mp h
        exact .inr rfl

/-- The lines of a worker, and its log, grow together. -/
theorem Inv.logged_snoc (h : Inv rows₀ T W L p) (hw : p.workers id = some w) {new : List Line}
    {now : Nat} {ok : Bool} {q : Service} (hL : L → ok = true)
    (hlogs : q.logs = attempt ok (some (appendLog p.logs id new now)) p.logs) :
    (q.logged id).Sublist (w.lines ++ new) ∧ (L → q.logged id = w.lines ++ new) := by
  obtain ⟨hsub, heq⟩ := h.logged id w hw
  rw [logged_append hlogs]
  cases ok with
  | false => exact ⟨by simpa using hsub.trans (List.sublist_append_left _ _), fun hl => nomatch hL hl⟩
  | true =>
      rw [if_pos ⟨rfl, rfl⟩]
      exact ⟨hsub.append (List.Sublist.refl _), fun hl => by rw [heq hl]⟩

/-- The writes of rows that count are taken. -/
def Label.Written : Label → Prop
  | .write _ _ ok | .restart _ ok => ok = true
  | _ => True

/-- The lines are taken. -/
def Label.Logged : Label → Prop
  | .spawn _ _ _ ok | .loop _ _ _ ok => ok = true
  | _ => True

theorem Inv.register {spec : CommandSpec} {token : Bool} {lines : List Line}
    (h : Inv rows₀ T W L p) (hw : p.workers id = some ⟨spec, token, .inserted, lines⟩) :
    Inv rows₀ T W L { p.put id ⟨spec, token, .spawned, lines⟩ with running := id :: p.running } := by
  have hlogged := h.logged id _ hw
  have hsound : Worker.Sound ⟨spec, token, .spawned, lines⟩ :=
    ⟨fun _ hs => (by cases hs), fun _ _ hv => (by cases hv)⟩
  refine h.advance hw rfl rfl (fun _ hr => hr) hsound (fun ht => h.asked id _ hw ht) (fun k => ?_)
    (h.events_same hw rfl) (h.removed_same hw fun hs => hs) (fun l hl => .inl hl) (fun _ _ => rfl)
    hlogged
  rw [List.mem_cons]
  split
  · exact iff_of_true (.inl ‹_›) rfl
  · exact or_iff_right ‹_›

theorem Inv.clean {spec : CommandSpec} {token : Bool} {lines : List Line} {s : Status}
    {c : Option Int} (h : Inv rows₀ T W L p)
    (hw : p.workers id = some ⟨spec, token, .written s c, lines⟩) :
    Inv rows₀ T W L { p.put id ⟨spec, token, .cleaned s c, lines⟩ with
      removed := p.removed ++ spec.cleanupPaths.map fun path => (id, path) } := by
  have hlogged := h.logged id _ hw
  have hsound : Worker.Sound ⟨spec, token, .cleaned s c, lines⟩ :=
    ⟨fun _ hs => (by cases hs), (h.sound id _ hw).verdict⟩
  refine h.advance hw rfl rfl (fun _ hr => hr) hsound (fun ht => h.asked id _ hw ht)
    (h.registry_same hw rfl) (h.events_same hw rfl) (fun k path hm => ?_) (fun l hl => .inl hl)
    (fun _ _ => rfl) hlogged
  rcases List.mem_append.mp hm with hm | hm
  · exact h.removed_same hw (fun _ => rfl) k path hm
  · obtain ⟨path', -, heq⟩ := List.mem_map.mp hm
    rw [if_pos (congrArg Prod.fst heq).symm]
    rfl

theorem Inv.tell {spec : CommandSpec} {token : Bool} {lines : List Line} {s : Status}
    {c : Option Int} (h : Inv rows₀ T W L p)
    (hw : p.workers id = some ⟨spec, token, .cleaned s c, lines⟩) :
    Inv rows₀ T W L { p.put id ⟨spec, token, .told s c, lines⟩ with
      events := p.events ++ [⟨id, s, c⟩] } :=
  have hlogged := h.logged id _ hw
  have hsound : Worker.Sound ⟨spec, token, .told s c, lines⟩ :=
    ⟨fun _ hs => (by cases hs), (h.sound id _ hw).verdict⟩
  h.advance hw rfl rfl (fun _ hr => hr) hsound (fun ht => h.asked id _ hw ht)
    (h.registry_same hw rfl) (h.events_snoc hw rfl) (h.removed_same hw fun hs => hs) (fun l hl => .inl hl)
    (fun _ _ => rfl) hlogged

theorem Inv.forget {spec : CommandSpec} {token : Bool} {lines : List Line} {s : Status}
    {c : Option Int} (h : Inv rows₀ T W L p)
    (hw : p.workers id = some ⟨spec, token, .told s c, lines⟩) :
    Inv rows₀ T W L { p.put id ⟨spec, token, .finished s c, lines⟩ with
      running := p.running.filter fun r => r ≠ id } := by
  have hlogged := h.logged id _ hw
  have hsound : Worker.Sound ⟨spec, token, .finished s c, lines⟩ :=
    ⟨fun _ hs => (by cases hs), (h.sound id _ hw).verdict⟩
  refine h.advance hw rfl rfl (fun _ hr => hr) hsound (fun ht => h.asked id _ hw ht)
    (fun k => ?_) (h.events_same hw rfl) (h.removed_same hw fun hs => hs) (fun l hl => .inl hl)
    (fun _ _ => rfl) hlogged
  rw [List.mem_filter, decide_eq_true_iff]
  split
  · exact iff_of_false (fun hm => hm.2 ‹_›) nofun
  · exact and_iff_left ‹_›

theorem Inv.spawn {spec : CommandSpec} {token : Bool} {lines new : List Line} {stage : Stage}
    {now : Nat} {ok : Bool} (h : Inv rows₀ T W L p)
    (hw : p.workers id = some ⟨spec, token, .announced, lines⟩) (hL : L → ok = true)
    (hstage : stage = .executing (begun spec.timeout token) ∨ stage = .returned .failed none) :
    Inv rows₀ T W L { p.put id ⟨spec, token, stage, lines ++ new⟩ with
      logs := attempt ok (some (appendLog p.logs id new now)) p.logs } := by
  refine h.advance hw rfl rfl (fun r hr => ?_) ⟨fun run hrun => ?_, fun s c hv => ?_⟩
    (fun ht => h.asked id _ hw ht) (h.registry_same hw ?_) (h.events_same hw ?_)
    (h.removed_same hw nofun) (fun l => mem_appendLog) (fun k hk => ?_)
    (h.logged_snoc hw hL rfl)
  · rcases hstage with rfl | rfl <;> exact hr
  · rcases hstage with rfl | rfl
    · cases hrun
      exact loops_begun _ _
    · cases hrun
  · rcases hstage with rfl | rfl
    · cases hv
    · cases hv
      exact ⟨by decide, by decide, nofun⟩
  · rcases hstage with rfl | rfl <;> rfl
  · rcases hstage with rfl | rfl <;> rfl
  · rw [logged_append rfl, if_neg fun hn => hk hn.1]

theorem verdict_spec (o : ProcessService.Outcome) :
    (verdict o).1.Final ∧ ((verdict o).1 = .success ↔ (verdict o).2 = some 0) ∧
      ((verdict o).1 = .cancelled → o = .cancelled ∧ (verdict o).2 = none) := by
  cases o with
  | exited code =>
      by_cases hc : code = some 0
      · simp [verdict, hc, Status.Final]
      · simp [verdict, hc, Status.Final]
  | cancelled => exact ⟨by decide, by decide, fun _ => ⟨rfl, rfl⟩⟩
  | timedOut => exact ⟨by decide, by decide, nofun⟩

theorem Inv.loop {spec : CommandSpec} {token : Bool} {lines : List Line}
    {run run' : ProcessService.Run} {l : ProcessService.Label} {now : Nat} {ok : Bool}
    (h : Inv rows₀ T W L p) (hw : p.workers id = some ⟨spec, token, .executing run, lines⟩)
    (hl : l ≠ .cancel) (hs : ProcessService.step run l = some run') (hL : L → ok = true) :
    Inv rows₀ T W L
      { p.put id ⟨spec, token, stageOf run', lines ++ run'.sink.drop run.sink.length⟩ with
        logs := attempt ok (some (appendLog p.logs id (run'.sink.drop run.sink.length) now))
          p.logs } := by
  obtain ⟨-, hheard, hreason, hreturned⟩ := ((h.sound id _ hw).loops run rfl).step hl hs
  have hstage : stageOf run' = .executing run' ∧ run'.returned = none ∨
      ∃ o, stageOf run' = .returned (verdict o).1 (verdict o).2 ∧ run'.returned = some o := by
    unfold stageOf
    cases hr : run'.returned with
    | none => exact .inl ⟨rfl, rfl⟩
    | some o => exact .inr ⟨o, rfl, rfl⟩
  refine h.advance hw rfl rfl (fun r hr => ?_) ⟨fun run'' hrun => ?_, fun s c hv => ?_⟩
    (fun ht => h.asked id _ hw ht) (h.registry_same hw ?_) (h.events_same hw ?_)
    (h.removed_same hw nofun) (fun l => mem_appendLog) (fun k hk => ?_)
    (h.logged_snoc hw hL rfl)
  · obtain ⟨hst, -⟩ | ⟨o, hst, -⟩ := hstage <;> rw [hst] <;> exact hr
  · obtain ⟨hst, hopen⟩ | ⟨o, hst, -⟩ := hstage
    · rw [hst] at hrun
      cases hrun
      exact ⟨hopen, hheard, hreason⟩
    · rw [hst] at hrun
      cases hrun
  · obtain ⟨hst, -⟩ | ⟨o, hst, ho⟩ := hstage
    · rw [hst] at hv
      cases hv
    · rw [hst] at hv
      cases hv
      obtain ⟨hfinal, hsuccess, hcancelled⟩ := verdict_spec o
      exact ⟨hfinal, hsuccess, fun hc => ⟨(hcancelled hc).2,
        hreturned ((hcancelled hc).1 ▸ ho)⟩⟩
  · obtain ⟨hst, -⟩ | ⟨o, hst, -⟩ := hstage <;> rw [hst] <;> rfl
  · obtain ⟨hst, -⟩ | ⟨o, hst, -⟩ := hstage <;> rw [hst] <;> rfl
  · rw [logged_append rfl, if_neg fun hn => hk hn.1]

/-- The row of a worker is changed, or the write fails. -/
theorem Inv.change {spec : CommandSpec} {token ok finished : Bool} {lines : List Line}
    {stage stage' : Stage} {status : Status} {code : Option Int} {now : Nat} {events : List Event}
    (h : Inv rows₀ T W L p) (hw : p.workers id = some ⟨spec, token, stage, lines⟩)
    (hopen : stage.settled = false)
    (hset : ∀ r : TaskRow, r.Unended → stage'.Agrees W (r.set status code finished now))
    (hkeep : ∀ r : TaskRow, r.Unended → ok = false → stage'.Agrees W r)
    (hsound : Worker.Sound ⟨spec, token, stage', lines⟩)
    (hregistered : stage'.registered = stage.registered)
    (hevents : ∀ k, (events.filter fun e => e.taskId = k) =
      if k = id then stage'.events id else p.events.filter fun e => e.taskId = k)
    (hswept : stage.swept = true → stage'.swept = true) :
    Inv rows₀ T W L { p.put id ⟨spec, token, stage', lines⟩ with
      rows := attempt ok (update p.rows id status code finished now) p.rows
      events := events } := by
  obtain ⟨r, hr, hid, ha⟩ := h.owned id _ hw
  have hu : r.Unended := by simpa [Stage.Agrees, hopen] using ha
  have hlogged := h.logged id _ hw
  have htable : (ok = false ∧ attempt ok (update p.rows id status code finished now) p.rows =
        p.rows) ∨
      attempt ok (update p.rows id status code finished now) p.rows =
        TaskService.change p.rows id fun r => r.set status code finished now := by
    cases ok with
    | false => exact .inl ⟨rfl, rfl⟩
    | true =>
        have hany : (p.rows.any fun r => r.id = id) = true :=
          List.any_eq_true.mpr ⟨r, hr, decide_eq_true hid⟩
        exact .inr (by simp [attempt, update, hany])
  have hunended : ∀ r : TaskRow, stage'.Agrees W r → r.Unended ∨ r.Ended := by
    intro r ha
    unfold Stage.Agrees at ha
    split at ha
    · exact ha.imp And.right And.left
    · exact .inl ha
  rcases htable with ⟨hno, htable⟩ | htable
  · refine h.move rfl (htable.symm ▸ h.rows) (fun r' _ => by simp only [htable]) ⟨r, ?_, hid, hkeep r hu hno⟩
      hsound (fun ht => h.asked id _ hw ht) (h.registry_same hw hregistered) hevents
      (h.removed_same hw hswept) (fun l hl => .inl hl) (fun _ _ => rfl) hlogged
    rw [htable]
    exact hr
  · have heach : ∀ r' ∈ p.rows, r'.id = id → r' = r := fun r' hr' hid' =>
      h.rows.eq hr' hr (hid'.trans hid.symm)
    refine h.move rfl ?_ (fun r' hne => ?_) ⟨r.set status code finished now, ?_, hid, hset r hu⟩
      hsound (fun ht => h.asked id _ hw ht) (h.registry_same hw hregistered) hevents
      (h.removed_same hw hswept) (fun l hl => .inl hl) (fun _ _ => rfl) hlogged
    · rw [htable]
      exact h.rows.change (fun _ => rfl) fun r' hr' hid' => by
        rw [heach r' hr' hid']
        exact hunended _ (hset r hu)
    · simp only [htable]
      refine ⟨fun hm => ?_, fun hm => mem_change_ne hm hne⟩
      obtain ⟨hm, -⟩ | ⟨r₀, -, hid₀, rfl⟩ := mem_change hm
      · exact hm
      · exact absurd hid₀ hne
    · rw [htable]
      exact mem_change_self hr hid

theorem Inv.announce {spec : CommandSpec} {token ok : Bool} {lines : List Line} {now : Nat}
    (h : Inv rows₀ T W L p) (hw : p.workers id = some ⟨spec, token, .spawned, lines⟩) :
    Inv rows₀ T W L { p.put id ⟨spec, token, .announced, lines⟩ with
      rows := attempt ok (update p.rows id .running none false now) p.rows
      events := p.events ++ [⟨id, .running, none⟩] } := by
  have hsound : Worker.Sound ⟨spec, token, .announced, lines⟩ :=
    ⟨fun _ hs => (by cases hs), fun _ _ hv => (by cases hv)⟩
  exact h.change hw rfl (fun r hr => hr.set_running) (fun r hr _ => hr) hsound rfl
    (h.events_snoc hw (show (Worker.mk spec token .announced lines).stage.events id = _ from rfl)) fun hs => hs

theorem Inv.write {spec : CommandSpec} {token ok : Bool} {lines : List Line} {now : Nat}
    {s : Status} {c : Option Int} (h : Inv rows₀ T W L p)
    (hw : p.workers id = some ⟨spec, token, .returned s c, lines⟩) (hW : W → ok = true) :
    Inv rows₀ T W L { p.put id ⟨spec, token, .written s c, lines⟩ with
      rows := attempt ok (update p.rows id s c true now) p.rows } := by
  have hsound : Worker.Sound ⟨spec, token, .written s c, lines⟩ :=
    ⟨fun _ hs => (by cases hs), (h.sound id _ hw).verdict⟩
  obtain ⟨hfinal, hsuccess, hcancelled⟩ := hsound.verdict s c rfl
  refine h.change hw rfl (fun r hr => ?_) (fun r hr hno => ?_) hsound rfl
    (h.events_same hw (show (Worker.mk spec token (.written s c) lines).stage.events id = _ from rfl)) fun hs => hs
  · have hcode : (r.set s c true now).exitCode = c := by simp [TaskRow.set, hr.2.1]
    refine .inr ⟨⟨hfinal, rfl, ?_, ?_⟩, ?_⟩
    · rw [hcode]
      exact hsuccess
    · rw [hcode]
      exact fun hc => (hcancelled hc).1
    · rw [hcode]
      rfl
  · exact .inl ⟨fun hw => (by rw [hW hw] at hno; cases hno), hr⟩

theorem Inv.insert {taskType : String} {name : List Char} {spec : CommandSpec} {now : Nat}
    {rows : List TaskRow} (h : Inv rows₀ T W L p)
    (hi : TaskService.insert p.rows id taskType name .pending now = some rows) :
    Inv rows₀ T W L { p.put id ⟨spec, false, .inserted, []⟩ with rows := rows } := by
  obtain ⟨hnew, rfl⟩ := insert_cases hi
  have hnone : p.workers id = none := by
    cases hw : p.workers id with
    | none => rfl
    | some w =>
        obtain ⟨r, hr, hid, -⟩ := h.owned id w hw
        exact absurd hid (hnew r hr)
  have hempty : p.logged id = [] := by
    refine List.map_eq_nil_iff.mpr (List.filter_eq_nil_iff.mpr fun l hl hid => ?_)
    obtain ⟨r, hr, hr'⟩ := h.referenced l hl
    exact hnew r hr (hr'.trans (of_decide_eq_true hid))
  have hu : TaskRow.Unended ⟨id, taskType, name, .pending, none, now, none⟩ :=
    ⟨fun hf => hf.1 rfl, rfl, rfl⟩
  have hsound : Worker.Sound ⟨spec, false, .inserted, []⟩ :=
    ⟨fun _ hs => (by cases hs), fun _ _ hv => (by cases hv)⟩
  refine h.move rfl (h.rows.insert hnew hu) (fun r hne => ?_)
    ⟨_, List.mem_append_right _ (List.mem_singleton_self _), rfl, hu⟩ hsound nofun (fun k => ?_)
    (fun k => ?_) (fun k path hm => ?_) (fun l hl => .inl hl) (fun _ _ => rfl) ?_
  · rw [List.mem_append, List.mem_singleton]
    exact or_iff_left fun hr => hne (hr ▸ rfl)
  · split
    · rename_i hk
      rw [hk]
      refine iff_of_false (fun hm => ?_) nofun
      obtain ⟨w, hw, -⟩ := (h.registry id).mp hm
      rw [hnone] at hw
      cases hw
    · rfl
  · split
    · rename_i hk
      have hev := h.events id
      rw [hnone] at hev
      rw [hk]
      exact hev
    · rfl
  · split
    · rename_i hk
      subst hk
      obtain ⟨w, hw, -⟩ := h.removed k path hm
      rw [hnone] at hw
      cases hw
    · exact hm
  · have hsame : Service.logged { p.put id ⟨spec, false, .inserted, []⟩ with
        rows := p.rows ++ [⟨id, taskType, name, .pending, none, now, none⟩] } id = [] := hempty
    rw [hsame]
    exact ⟨List.Sublist.refl _, fun _ => rfl⟩

theorem Worker.cancel_stage (w : Worker) :
    w.cancel.stage = w.stage ∨ ∃ run, w.stage = .executing run ∧
      w.cancel.stage = .executing { run with cancelled := run.cancelled.or (some run.now) } := by
  unfold Worker.cancel
  cases w.stage with
  | executing run => exact .inr ⟨run, rfl, rfl⟩
  | _ => exact .inl rfl

/-- Cancelling changes what is said of a stage in no way. -/
theorem Worker.cancel_same {β : Type} (w : Worker) (f : Stage → β)
    (hf : ∀ run run', f (.executing run) = f (.executing run')) :
    f w.cancel.stage = f w.stage := by
  rcases w.cancel_stage with h | ⟨run, h, h'⟩
  · rw [h]
  · rw [h, h']
    exact hf _ _

theorem Inv.cancel (h : Inv rows₀ T W L p) (hT : T id) : Inv rows₀ T W L (p.cancel id).2 := by
  unfold Service.cancel
  split
  · cases hw : p.workers id with
    | none => exact h
    | some w =>
        have hlogged := h.logged id w hw
        have hsound : w.cancel.Sound := by
          refine ⟨fun run hrun => ?_, fun s c hv => ?_⟩
          · rcases w.cancel_stage with hst | ⟨run', hst, hst'⟩
            · have hloops := (h.sound id w hw).loops run (hst ▸ hrun)
              exact ⟨hloops.open_, fun _ => rfl, fun _ => rfl⟩
            · rw [hst'] at hrun
              cases hrun
              exact ((h.sound id w hw).loops run' hst).cancel
          · rw [w.cancel_same Stage.verdict fun _ _ => rfl] at hv
            obtain ⟨hfinal, hsuccess, hcancelled⟩ := (h.sound id w hw).verdict s c hv
            exact ⟨hfinal, hsuccess, fun hc => ⟨(hcancelled hc).1, rfl⟩⟩
        refine h.advance hw rfl rfl (fun r hr => ?_) hsound (fun _ => hT)
          (h.registry_same hw (w.cancel_same _ fun _ _ => rfl))
          (h.events_same hw (w.cancel_same _ fun _ _ => rfl)) (h.removed_same hw fun hs => ?_)
          (fun l hl => .inl hl) (fun _ _ => rfl) hlogged
        · rwa [w.cancel_same (fun st => st.Agrees W r) fun _ _ => rfl]
        · rwa [w.cancel_same Stage.swept fun _ _ => rfl]
  · exact h

theorem Inv.restart {now : Nat} {ok : Bool} (h : Inv rows₀ T W L p) (hW : W → ok = true) :
    Inv rows₀ T W L { p with
      rows := attempt ok (some (markOrphansFailed p.rows now)) p.rows
      running := []
      workers := fun _ => none
      events := []
      removed := [] } := by
  have hrows : attempt ok (some (markOrphansFailed p.rows now)) p.rows =
      if ok then markOrphansFailed p.rows now else p.rows := by cases ok <;> rfl
  have hgone : ∀ (w : Worker), (none : Option Worker) ≠ some w := fun w hw => (by cases hw)
  rw [hrows]
  refine ⟨?_, fun _ w hw => (hgone w hw).elim, fun hw r hr hu => ?_,
    fun _ w hw => (hgone w hw).elim, fun _ w hw => (hgone w hw).elim, fun r hr hc => ?_,
    fun id => ⟨fun hm => (by cases hm), fun ⟨w, hw, _⟩ => (hgone w hw).elim⟩, fun id => rfl,
    fun _ _ hm => (by cases hm), fun l hl => ?_, fun _ w hw => (hgone w hw).elim⟩
  · cases ok
    · exact h.rows
    · exact h.rows.markOrphansFailed
  · rw [hW hw] at hr
    obtain ⟨-, hf⟩ | ⟨r₀, -, -, rfl⟩ := mem_markOrphansFailed hr
    · exact absurd hf hu.1
    · exact absurd (show Status.failed.Final by decide) hu.1
  · cases ok
    · exact h.cancelled r hr hc
    · obtain ⟨hr, -⟩ | ⟨r₀, -, -, rfl⟩ := mem_markOrphansFailed hr
      · exact h.cancelled r hr hc
      · cases hc
  · obtain ⟨r, hr, hid⟩ := h.referenced l hl
    cases ok
    · exact ⟨r, hr, hid⟩
    · refine ⟨_, List.mem_map_of_mem hr, ?_⟩
      split <;> exact hid

/-- **One step keeps the invariant.** -/
theorem Inv.step {l : Label} (h : Inv rows₀ T W L p) (hT : ∀ id, l = .cancel id → T id)
    (hW : W → l.Written) (hL : L → l.Logged) (hs : step p l = some p') : Inv rows₀ T W L p' := by
  cases l with
  | insert id taskType name spec now ok =>
      simp only [TaskService.step] at hs
      split at hs
      · rename_i rows hi
        cases hs
        cases ok with
        | false => cases hi
        | true => exact h.insert hi
      · cases hs
        exact h
  | register id =>
      simp only [TaskService.step] at hs
      split at hs
      · cases hs
        exact h.register ‹_›
      · cases hs
  | announce id now ok =>
      simp only [TaskService.step] at hs
      split at hs
      · cases hs
        exact h.announce ‹_›
      · cases hs
  | spawn id child now ok =>
      simp only [TaskService.step] at hs
      split at hs
      · cases hs
        exact h.spawn ‹_› hL (.inl rfl)
      · cases hs
        exact h.spawn ‹_› hL (.inr rfl)
      · cases hs
  | loop id l now ok =>
      simp only [TaskService.step] at hs
      split at hs
      · cases hs
      · rename_i hl
        obtain ⟨run', hrun, rfl⟩ := Option.map_eq_some_iff.mp hs
        exact h.loop ‹_› (fun hc => hl hc) hrun hL
      · cases hs
  | write id now ok =>
      simp only [TaskService.step] at hs
      split at hs
      · cases hs
        exact h.write ‹_› hW
      · cases hs
  | clean id =>
      simp only [TaskService.step] at hs
      split at hs
      · cases hs
        exact h.clean ‹_›
      · cases hs
  | tell id =>
      simp only [TaskService.step] at hs
      split at hs
      · cases hs
        exact h.tell ‹_›
      · cases hs
  | forget id =>
      simp only [TaskService.step] at hs
      split at hs
      · cases hs
        exact h.forget ‹_›
      · cases hs
  | cancel id =>
      cases hs
      exact h.cancel (hT id rfl)
  | restart now ok =>
      cases hs
      exact h.restart hW

theorem inv_init (h : machine.init p) : Inv p.rows T W L p := by
  obtain ⟨hrows, hlogs, hrunning, hworkers, hevents, hremoved⟩ := h
  have hnone : ∀ id, p.workers id = none := fun id => by rw [hworkers]
  refine ⟨hrows, fun id w hw => ?_, fun _ r hr _ => .inl hr, fun id w hw => ?_, fun id w hw => ?_,
    fun r hr _ => .inl hr, fun id => ?_, fun id => ?_, fun id path hm => ?_, hlogs, fun id w hw => ?_⟩
  · rw [hnone] at hw; cases hw
  · rw [hnone] at hw; cases hw
  · rw [hnone] at hw; cases hw
  · rw [hrunning, hnone]
    exact ⟨nofun, fun ⟨w, hw, _⟩ => nomatch hw⟩
  · rw [hevents, hnone]
    rfl
  · rw [hremoved] at hm; cases hm
  · rw [hnone] at hw; cases hw

end Moves

/-! ### Over whole runs -/

section Runs

variable {p₀ p p' : Service} {ls ls' : List Label} {C : Service → Label → Prop}

/-- **The invariant over a run**, for what its labels grant. -/
theorem inv_run {W L : Prop} (hW : ∀ p l, C p l → W → l.Written) (hL : ∀ p l, C p l → L → l.Logged)
    (h₀ : machine.init p₀) (h : machine.Run C p₀ ls p) :
    Inv p₀.rows (fun id => .cancel id ∈ ls) W L p := by
  refine h.history (P := fun ls p => Inv p₀.rows (fun id => .cancel id ∈ ls) W L p) ?_ (inv_init h₀)
  intro ls p l p' _ hp hc hs
  have hmore : Inv p₀.rows (fun id => .cancel id ∈ ls ++ [l]) W L p :=
    { hp with
      asked := fun id w hw ht => List.mem_append_left _ (hp.asked id w hw ht)
      cancelled := fun r hr hcan => (hp.cancelled r hr hcan).imp_right (List.mem_append_left _) }
  exact hmore.step (fun id hl => hl ▸ List.mem_append_right _ (List.mem_singleton_self _))
    (hW p l hc) (hL p l hc) hs

/-- The write of a row that is not at its end leaves the rows that are. -/
theorem kept_update {rows : List TaskRow} {id : String} {status : Status} {code : Option Int}
    {finished ok : Bool} {now : Nat} {r : TaskRow} (hr : r ∈ rows) (hid : r.id ≠ id) :
    r ∈ attempt ok (update rows id status code finished now) rows := by
  cases ok with
  | false => exact hr
  | true =>
      change r ∈ (update rows id status code finished now).getD rows
      unfold update
      split
      · exact mem_change_ne hr hid
      · exact hr

/-- **A step leaves the rows that are at their end.** -/
theorem final_step {rows₀ : List TaskRow} {T : String → Prop} {W L : Prop} {l : Label}
    (h : Inv rows₀ T W L p) (hs : step p l = some p') {r : TaskRow} (hr : r ∈ p.rows)
    (hf : r.status.Final) : r ∈ p'.rows := by
  -- the row of a worker that is yet to write it is not at its end
  have hother : ∀ {id w}, p.workers id = some w → w.stage.settled = false → r.id ≠ id := by
    intro id w hw hopen hid
    obtain ⟨r', hr', hid', ha⟩ := h.owned id w hw
    obtain rfl := h.rows.eq hr hr' (hid.trans hid'.symm)
    rw [Stage.Agrees, hopen] at ha
    exact ha.1 hf
  cases l with
  | insert id taskType name spec now ok =>
      simp only [step] at hs
      split at hs
      · rename_i rows hi
        cases hs
        cases ok with
        | false => cases hi
        | true =>
            obtain ⟨-, rfl⟩ := insert_cases hi
            exact List.mem_append_left _ hr
      · cases hs
        exact hr
  | announce id now ok =>
      simp only [step] at hs
      split at hs
      · cases hs
        exact kept_update hr (hother ‹_› rfl)
      · cases hs
  | write id now ok =>
      simp only [step] at hs
      split at hs
      · cases hs
        exact kept_update hr (hother ‹_› rfl)
      · cases hs
  | loop id l now ok =>
      simp only [step] at hs
      split at hs
      · cases hs
      · obtain ⟨run', -, rfl⟩ := Option.map_eq_some_iff.mp hs
        exact hr
      · cases hs
  | cancel id =>
      cases hs
      unfold Service.cancel
      split
      · cases p.workers id <;> exact hr
      · exact hr
  | restart now ok =>
      cases hs
      cases ok with
      | false => exact hr
      | true => exact List.mem_map.mpr ⟨r, hr, if_pos hf⟩
  | register id | spawn id | clean id | tell id | forget id =>
      simp only [step] at hs
      split at hs <;> cases hs <;> exact hr

/-- **A row that has come to an end is never changed**, whatever happens to the tasks and to the
process afterwards, and it stays the only one of its id. -/
theorem final_row_stays (h₀ : machine.init p₀) (h : machine.Run Any p₀ ls p)
    (h' : machine.Run Any p ls' p') {r : TaskRow} (hr : r ∈ p.rows) (hf : r.status.Final) :
    r ∈ p'.rows ∧ ∀ r' ∈ p'.rows, r'.id = r.id → r' = r := by
  have hinv : ∀ {ls p}, machine.Run Any p₀ ls p →
      Inv p₀.rows (fun id => .cancel id ∈ ls) False False p := fun hrun =>
    inv_run (fun _ _ _ => False.elim) (fun _ _ _ => False.elim) h₀ hrun
  have hstays : r ∈ p'.rows := by
    refine (h'.invariant (I := fun p => r ∈ p.rows ∧ ∃ T : String → Prop,
      Inv p₀.rows T False False p) ?_ ⟨hr, _, hinv h⟩).1
    intro q l q' ⟨hq, T, hT⟩ _ hs
    have hmore : Inv p₀.rows (fun _ => True) False False q :=
      { hT with
        asked := fun _ _ _ _ => trivial
        cancelled := fun _ _ _ => .inr trivial }
    exact ⟨final_step hT hs hq hf, _, hmore.step (fun _ _ => trivial) False.elim False.elim hs⟩
  exact ⟨hstays, fun r' hr' hid => (hinv (h.trans h')).rows.eq hr' hstays hid⟩

/-- **What a row says of its end is so**: it has ended with its exit code, and was cancelled only if
somebody did; and where every write is taken, a row that has not ended has its worker at work, and
the row of a worker that is done has the worker's outcome. -/
theorem rows_truthful (h₀ : machine.init p₀) :
    (machine.Run Any p₀ ls p → ∀ r ∈ p.rows, (r.Unended ∨ r.Ended) ∧
      (r.status = .cancelled → r ∈ p₀.rows ∨ .cancel r.id ∈ ls)) ∧
    (machine.Run (fun _ l => l.Written) p₀ ls p →
      (∀ r ∈ p.rows, r.Unended → r ∈ p₀.rows ∨
        ∃ w, p.workers r.id = some w ∧ w.stage.settled = false) ∧
      ∀ id w, p.workers id = some w → w.stage.settled = true →
        ∃ r ∈ p.rows, r.id = id ∧ w.stage.verdict = some (r.status, r.exitCode)) := by
  refine ⟨fun h r hr => ?_, fun h => ?_⟩
  · have hinv := inv_run (W := False) (L := False) (fun _ _ _ => False.elim)
      (fun _ _ _ => False.elim) h₀ h
    exact ⟨hinv.rows.each r hr, hinv.cancelled r hr⟩
  · have hinv := inv_run (W := True) (L := False) (fun _ _ hc _ => hc) (fun _ _ _ => False.elim) h₀ h
    refine ⟨hinv.attended trivial, fun id w hw hs => ?_⟩
    obtain ⟨r, hr, hid, ha⟩ := hinv.owned id w hw
    rw [Stage.Agrees, if_pos hs] at ha
    exact ⟨r, hr, hid, (ha.resolve_left fun hn => hn.1 trivial).2⟩

/-- **What is told of a task.**  Its events are that it runs, and then its outcome, once; it can be
cancelled from when it is registered until after that; its paths are cleaned up only when its row has
been written; and where every write is taken, what the last event tells is what its row says. -/
theorem told_as_written (h₀ : machine.init p₀) (id : String) :
    (machine.Run Any p₀ ls p →
      (p.events.filter fun e => e.taskId = id) =
        ((p.workers id).elim [] fun w => w.stage.events id) ∧
      ((p.cancel id).1 = .ok () ↔ ∃ w, p.workers id = some w ∧ w.stage.registered = true) ∧
      ∀ path, (id, path) ∈ p.removed → ∃ w, p.workers id = some w ∧ w.stage.swept = true) ∧
    (machine.Run (fun _ l => l.Written) p₀ ls p → ∀ e ∈ p.events, e.taskId = id →
      e.status.Final → ∃ r ∈ p.rows, r.id = id ∧ r.status = e.status ∧ r.exitCode = e.exitCode) := by
  refine ⟨fun h => ?_, fun h e he hid hf => ?_⟩
  · have hinv := inv_run (W := False) (L := False) (fun _ _ _ => False.elim)
      (fun _ _ _ => False.elim) h₀ h
    refine ⟨hinv.events id, ?_, hinv.removed id⟩
    rw [← hinv.registry id]
    unfold Service.cancel
    split
    · exact iff_of_true rfl ‹_›
    · exact iff_of_false (fun hn => (by cases hn)) ‹_›
  · have hinv := inv_run (W := True) (L := False) (fun _ _ hc _ => hc) (fun _ _ _ => False.elim) h₀ h
    have hmem : e ∈ (p.workers id).elim [] fun w => w.stage.events id :=
      hinv.events id ▸ List.mem_filter.mpr ⟨he, decide_eq_true hid⟩
    cases hw : p.workers id with
    | none =>
        rw [hw] at hmem
        cases hmem
    | some w =>
        rw [hw] at hmem
        obtain ⟨hsettled, hverdict⟩ : w.stage.settled = true ∧
            w.stage.verdict = some (e.status, e.exitCode) := by
          have hrunning : e ≠ ⟨id, .running, none⟩ := fun heq => (heq ▸ hf).2 rfl
          obtain ⟨spec, token, stage, lines⟩ := w
          cases stage <;> simp_all [Stage.events, Stage.settled, Stage.verdict]
        obtain ⟨r, hr, hid', ha⟩ := hinv.owned id w hw
        rw [Stage.Agrees, if_pos hsettled, hverdict] at ha
        have hpair := Option.some.inj (ha.resolve_left fun hn => hn.1 trivial).2
        exact ⟨r, hr, hid', (congrArg Prod.fst hpair).symm, (congrArg Prod.snd hpair).symm⟩

end Runs

/-! ### One task from its start to its end -/

/-- A database without tasks, and a process that has started none. -/
def fresh : Service := ⟨[], [], [], fun _ => none, [], []⟩

theorem init_fresh : machine.init fresh :=
  ⟨⟨List.nodup_nil, fun _ hr => (by cases hr)⟩, fun _ hl => (by cases hl), rfl, rfl, rfl, rfl⟩

/-- A command that prints one line. -/
def echo : CommandSpec := ⟨"/bin/echo".toList, ["a".toList], none, ["b"]⟩

/-- The task is started, and its process prints its line and exits. -/
def printed : List Label :=
  [.insert "t" "shell" [] echo 1 true, .register "t", .announce "t" 1 true,
    .spawn "t" (.ok 7) 1 true] ++
    ([.line .stdout "a".toList, .poll, .eof, .eof, .poll, .exit (some 0), .poll].map
      fun l => .loop "t" l 1 true)

/-- The worker writes the row, cleans up, tells, and is done. -/
def wound : List Label := [.write "t" 2 true, .clean "t", .tell "t", .forget "t"]

theorem guarded_labels {Q : Label → Prop} : ∀ {ls : List Label} {p : Service}, (∀ l ∈ ls, Q l) →
    machine.Guarded (fun _ l => Q l) p ls
  | [], _, _ => trivial
  | _ :: _, _, h => ⟨h _ List.mem_cons_self, fun _ _ =>
      guarded_labels fun l hl => h l (List.mem_cons_of_mem _ hl)⟩

/-- What is left when the task is done. -/
theorem printed_wound {Q : Label → Prop} (h : ∀ l ∈ printed ++ wound, Q l) :
    ∃ p w, machine.Run (fun _ l => Q l) fresh (printed ++ wound) p ∧ p.workers "t" = some w ∧
      w.lines = [pidLine 7, (.stdout, "a".toList)] ∧ w.stage = .finished .success (some 0) ∧
      p.rows = [⟨"t", "shell", "echo a".toList, .success, some 0, 1, some 2⟩] := by
  obtain ⟨p, hrun, hp⟩ : ∃ p, machine.Run (fun _ l => Q l) fresh (printed ++ wound) p ∧
      ((p.workers "t").any fun w => decide (w.lines = [pidLine 7, (.stdout, "a".toList)]) &&
        decide (w.stage.verdict = some (.success, some 0)) && !w.stage.registered &&
        decide (p.rows = [⟨"t", "shell", "echo a".toList, .success, some 0, 1, some 2⟩])) = true :=
    run_of_exec_any (guarded_labels h) (by rfl)
  obtain ⟨w, hw, hp⟩ := (Option.any_eq_true _ _).mp hp
  simp only [Bool.and_eq_true, decide_eq_true_iff] at hp
  obtain ⟨⟨⟨hlines, hverdict⟩, hreg⟩, hrows⟩ := hp
  refine ⟨p, w, hrun, hw, hlines, ?_, hrows⟩
  obtain ⟨spec, token, stage, lines⟩ := w
  cases stage with
  | finished s c =>
      cases hverdict
      rfl
  | inserted => cases hverdict
  | _ => cases hreg

/-- The row of a task that was successful stays, while another is started and cancelled and the
process starts again. -/
theorem success_stays : ∃ p p', machine.Run Any p
    [.insert "u" "shell" [] echo 3 true, .cancel "t", .restart 4 true] p' ∧
    ∃ r ∈ p.rows, r.status = .success ∧ r ∈ p'.rows := by
  obtain ⟨p, w, hrun, -, -, -, hrows⟩ := printed_wound (Q := fun _ => True) fun _ _ => trivial
  have hr : ⟨"t", "shell", "echo a".toList, .success, some 0, 1, some 2⟩ ∈ p.rows := by
    rw [hrows]
    exact List.mem_singleton_self _
  obtain ⟨p', hexec⟩ : ∃ p', machine.exec p
      [.insert "u" "shell" [] echo 3 true, .cancel "t", .restart 4 true] = some p' := by
    have hnew : insert p.rows "u" "shell" (taskName [] echo) .pending 3 =
        some (p.rows ++ [⟨"u", "shell", taskName [] echo, .pending, none, 3, none⟩]) := by
      rw [hrows]
      rfl
    simp [Machine.exec, machine, step, hnew]
  have hrun' := run_of_exec guarded_any hexec
  exact ⟨p, p', hrun', _, hr, rfl, (final_row_stays init_fresh hrun hrun' hr (by decide)).1⟩

/-- The row of a task that is done, and nothing cancelled. -/
theorem success_truthful : ∃ p, ∃ r ∈ p.rows, machine.Run Any fresh (printed ++ wound) p ∧
    r.status = .success ∧ (r.Unended ∨ r.Ended) := by
  obtain ⟨p, w, hrun, -, -, -, hrows⟩ := printed_wound (Q := fun _ => True) fun _ _ => trivial
  have hr : ⟨"t", "shell", "echo a".toList, .success, some 0, 1, some 2⟩ ∈ p.rows := by
    rw [hrows]
    exact List.mem_singleton_self _
  exact ⟨p, _, hr, hrun, rfl, (((rows_truthful init_fresh).1 hrun) _ hr).1⟩

/-- The two events of a task that is done. -/
theorem success_told : ∃ p, machine.Run Any fresh (printed ++ wound) p ∧
    (p.events.filter fun e => e.taskId = "t") =
      [⟨"t", .running, none⟩, ⟨"t", .success, some 0⟩] := by
  obtain ⟨p, w, hrun, hw, -, hstage, -⟩ := printed_wound (Q := fun _ => True) fun _ _ => trivial
  refine ⟨p, hrun, ?_⟩
  rw [((told_as_written init_fresh "t").1 hrun).1, hw]
  simp [hstage, Stage.events]

end RevBox.TaskService
