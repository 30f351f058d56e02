import RevBox.Agent.Proc
import RevBox.Protocol.Json
import Mathlib.Data.List.Nodup

/-!
# Agent — HostedTable

The run records of `provider/hosted.rs`, the table the Agent keeps them in while it lives, and
the parameters and results of the methods that work on it.

A `HashMap` is the list of its values, each under the handle of its record, no handle twice.
-/

namespace RevBox.Hosted

open Proc (KillSignal)

/-! ### Records -/

/-- `HostedRunState`. -/
inductive RunState where
  | running
  | exited
  | unknown
  deriving DecidableEq, Repr

/-- `HostedStdinMode`; `opened` is `Open`. -/
inductive StdinMode where
  | none
  | opened
  | once
  | lost
  deriving DecidableEq, Repr

/-- `HostedStdinMode::as_str`. -/
def StdinMode.asStr : StdinMode → String
  | .none => "none"
  | .opened => "open"
  | .once => "once"
  | .lost => "lost"

/-- `HostedRunRecord`. -/
structure RunRecord where
  handle : String
  name : String
  pid : Nat
  startTimeTicks : Nat
  startedAtUnix : Nat
  logPath : String
  args : List String
  stdinMode : Option StdinMode
  root : Bool
  state : RunState
  exitCode : Option Int
  detail : Option String
  deriving DecidableEq, Repr

/-- `tokio::process::Child`: the process it is the child handle of. -/
abbrev Child := Nat

/-- The write end of a pipe: the process that reads from it. -/
abbrev Pipe := Nat

/-- `RunSource`. -/
inductive RunSource where
  | spawned
  | reconciled
  | adopted
  deriving DecidableEq, Repr

/-- `ManagedRun`. -/
structure ManagedRun where
  record : RunRecord
  child : Option Child
  stdin : Option Pipe
  source : RunSource
  deriving DecidableEq, Repr

/-- The handle a run is kept under. -/
def ManagedRun.handle (run : ManagedRun) : String := run.record.handle

/-! ### The table -/

/-- `Table`. -/
structure Table where
  runs : List ManagedRun
  loaded : Bool
  keys : (runs.map ManagedRun.handle).Nodup

namespace Table

/-- `Table::default`. -/
def empty : Table := ⟨[], false, List.nodup_nil⟩

/-- `runs.get_mut`. -/
def get? (t : Table) (handle : String) : Option ManagedRun :=
  t.runs.find? fun run => run.handle = handle

/-- `runs.insert`. -/
def insert (t : Table) (run : ManagedRun) : Table where
  runs := run :: t.runs.filter fun r => r.handle ≠ run.handle
  loaded := t.loaded
  keys := by
    rw [List.map_cons, List.nodup_cons]
    refine ⟨fun h => ?_, t.keys.sublist (List.filter_sublist.map _)⟩
    obtain ⟨r, hr, hh⟩ := List.mem_map.mp h
    simpa [hh] using (List.mem_filter.mp hr).2

/-- A run written back through the reference `get_mut` gave. -/
def put (t : Table) (run : ManagedRun) : Table where
  runs := t.runs.map fun r => if r.handle = run.handle then run else r
  loaded := t.loaded
  keys := by
    have hmap : (t.runs.map fun r => if r.handle = run.handle then run else r).map
        ManagedRun.handle = t.runs.map ManagedRun.handle := by
      rw [List.map_map]
      refine List.map_congr_left fun r _ => ?_
      by_cases h : r.handle = run.handle <;> simp [h]
    rw [hmap]
    exact t.keys

/-- The table marked as reconciled with the disk. -/
def markLoaded (t : Table) : Table := { t with loaded := true }

variable {t : Table} {run r : ManagedRun} {h : String}

@[simp] theorem loaded_insert : (t.insert run).loaded = t.loaded := rfl

@[simp] theorem loaded_put : (t.put run).loaded = t.loaded := rfl

@[simp] theorem runs_markLoaded : t.markLoaded.runs = t.runs := rfl

@[simp] theorem loaded_markLoaded : t.markLoaded.loaded = true := rfl

theorem get?_mem (hg : t.get? h = some run) : run ∈ t.runs ∧ run.handle = h :=
  ⟨List.mem_of_find?_eq_some hg, by simpa using List.find?_some hg⟩

/-- One run a handle. -/
theorem handle_unique (hr : r ∈ t.runs) (hrun : run ∈ t.runs) (hh : r.handle = run.handle) :
    r = run :=
  List.inj_on_of_nodup_map t.keys hr hrun hh

/-- What an insertion leaves in the table. -/
theorem mem_insert : r ∈ (t.insert run).runs ↔ r = run ∨ r ∈ t.runs ∧ r.handle ≠ run.handle := by
  simp [insert]

/-- What writing back leaves in the table. -/
theorem mem_put (hr : r ∈ (t.put run).runs) : r = run ∨ r ∈ t.runs ∧ r.handle ≠ run.handle := by
  obtain ⟨q, hq, rfl⟩ := List.mem_map.mp hr
  by_cases hh : q.handle = run.handle
  · simp [hh]
  · rw [if_neg hh]
    exact .inr ⟨hq, hh⟩

end Table

/-! ### Parameters and results -/

/-- `HostedStartParams`. -/
structure StartParams where
  name : String
  args : List String := []
  stdinData : Option String := none
  interactiveStdin : Bool := false
  root : Bool := false

/-- `HostedAdoptParams`. -/
structure AdoptParams where
  name : String
  pid : Nat
  args : List String := []
  root : Bool := false

/-- `HostedAdoptResult`. -/
structure AdoptResult where
  record : RunRecord
  verifiedBy : List String
  already : Bool

/-- `HostedStopParams`. -/
structure StopParams where
  handle : String
  expectedPid : Option Nat := none
  signal : KillSignal := .term

/-- `KillOutcome`. -/
inductive KillOutcome where
  | signaled
  | alreadyGone
  deriving DecidableEq, Repr

/-- `HostedStopResult`. -/
structure StopResult where
  record : RunRecord
  outcome : KillOutcome
  identityVerified : Bool
  recordDropped : Bool
  deriving DecidableEq, Repr

/-- `HostedStatusResult`. -/
structure StatusResult where
  record : RunRecord
  reconciled : Bool

/-- `HostedWriteParams`. -/
structure WriteParams where
  handle : String
  text : String
  close : Bool := false

/-- `HostedWriteResult`. -/
structure WriteResult where
  record : RunRecord
  bytesWritten : Nat
  stdinMode : StdinMode

/-! ### Errors -/

/-- `std::io::ErrorKind`, as far as the code tells kinds apart. -/
inductive IoErrorKind where
  | notFound
  | permissionDenied
  | other
  deriving DecidableEq, Repr

/-- `std::io::Error`, with the text `Display` gives it. -/
structure IoError where
  kind : IoErrorKind
  text : String
  deriving DecidableEq, Repr

/-- `invalid`. -/
def invalid (reason message : String) : AgentError :=
  (AgentError.new .invalidRequest message).withDetails (reasonDetails reason)

/-- `io_error`. -/
def ioError (op path : String) (error : IoError) : AgentError :=
  let (code, reason) := match error.kind with
    | .notFound => (ErrorCode.notFound, "not_found")
    | .permissionDenied => (ErrorCode.permissionDenied, "permission_denied")
    | .other => (ErrorCode.internal, "io_error")
  (AgentError.new code s!"{op} 失败 {path}: {error.text}").withDetails
    (.ofFields [("reason", .string reason), ("op", .string op), ("path", .string path)])

/-- The answer to a handle the table does not hold. -/
def unknownHandle (message : String) : AgentError :=
  (AgentError.new .notFound message).withDetails (reasonDetails "unknown_handle")

/-- `没有句柄 … 的运行记录`. -/
def noSuchRun (handle : String) : AgentError := unknownHandle s!"没有句柄 {handle} 的运行记录"

end RevBox.Hosted
