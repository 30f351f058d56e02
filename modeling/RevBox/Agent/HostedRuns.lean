import RevBox.Agent.HostedSpecs
import RevBox.Support.Machine
import Mathlib.Logic.Function.Basic

/-!
# Agent — HostedRuns

The Agent's hosted methods in concert: any number of calls, interleaved wherever one of them lets
go of the table or awaits, on a phone whose processes come and go, and restarts of the Agent.

A move is what one call does under one lock of the table.  `load` is the `ensure_loaded` a method
begins with; the calls that have begun and still have a part to do are kept in `starting`,
`adopting` and `writing`.

* `step_spec`: everything one move can do.
-/

namespace RevBox.Hosted

open Proc Device

/-- The moves of the phone before each operation of a call, and how the operation turns out. -/
abbrev Script := List (List Kernel.Move × Choice)

/-- A `write` that has taken a write end; `entry` is what the table held for its handle then. -/
structure Writing where
  params : WriteParams
  pipe : Pipe
  entry : Option ManagedRun

/-- What the Agent has answered since it started. -/
inductive Answer where
  | stopped (params : StopParams) (result : Except AgentError StopResult)
  | adopted (measured : Measured) (result : Except AgentError AdoptResult)
  | wrote (writing : Writing) (result : Except AgentError WriteResult)

/-- The Agent and the phone.  `origins` is for the reader: the process each handle was given
for. -/
structure State where
  table : Table
  world : World
  starting : List ManagedRun
  adopting : List Measured
  writing : List Writing
  answers : List Answer
  origins : String → Option Nat

/-- A move: of the phone, of a call, or of the Agent as a whole.  `abandon` drops a `write` at its
await, `restart` ends the Agent and starts it again. -/
inductive Label where
  | kernel (e : Kernel.Move)
  | load (script : Script)
  | start (p : StartParams) (script : Script)
  | insert (i : Nat)
  | adopt (p : AdoptParams) (script : Script)
  | commit (i : Nat) (script : Script)
  | status (handle : String) (script : Script)
  | list (script : Script)
  | stop (p : StopParams) (script : Script)
  | write (p : WriteParams) (script : Script)
  | finish (i : Nat) (failure : Option String) (script : Script)
  | abandon (i : Nat)
  | restart

/-- The script of a move. -/
def Label.script : Label → Script
  | .load script | .start _ script | .adopt _ script | .commit _ script | .status _ script
  | .list script | .stop _ script | .write _ script | .finish _ _ script => script
  | .kernel _ | .insert _ | .abandon _ | .restart => []

/-- Every operation of the move turns out within `ok`. -/
def Label.Within (ok : Choice → Prop) (l : Label) : Prop := ∀ e ∈ l.script, ok e.2

namespace State

/-- A part of a call, run to its end; `k` is what its result does to the Agent. -/
def call {α : Type} (s : State) (c : Call α) (script : Script) (k : α → State → State) :
    Option State :=
  (phone.run c s.world script).map fun r => k r.1 { s with world := r.2 }

/-- The process a newly adopted record is about, if it is still there. -/
def adoptee (s : State) (m : Measured) : Option Nat :=
  (s.world.kernel.find m.params.pid).bind fun p => if p.ticks = m.ticks then some p.id else none

/-- What the end of an `adopt` does to the Agent. -/
def committed (s : State) (i : Nat) (m : Measured) (r : Table × Except AgentError AdoptResult) :
    State :=
  { s with
    table := r.1
    adopting := s.adopting.eraseIdx i
    answers := s.answers ++ [.adopted m r.2]
    origins := match r.2 with
      | .ok ⟨record, _, false⟩ => Function.update s.origins record.handle (s.adoptee m)
      | _ => s.origins }

/-- One move. -/
def step (s : State) : Label → Option State
  | .kernel e => (s.world.move e).map fun w => { s with world := w }
  | .load script =>
      s.call (ensureLoaded s.table) script fun r s =>
        match r with
        | .ok t => { s with table := t }
        | .error _ => s
  | .start p script =>
      if s.table.loaded then
        s.call (startLaunch s.table p) script fun r s =>
          match r.2 with
          | .ok run => { s with
              table := r.1
              starting := s.starting ++ [run]
              origins := Function.update s.origins run.handle run.child }
          | .error _ => { s with table := r.1 }
      else none
  | .insert i =>
      match s.starting[i]? with
      | some run => some { s with
          table := startInsert s.table run, starting := s.starting.eraseIdx i }
      | none => none
  | .adopt p script =>
      if s.table.loaded then
        s.call (adoptMeasure s.table p) script fun r s =>
          match r.2 with
          | .ok m => { s with table := r.1, adopting := s.adopting ++ [m] }
          | .error _ => { s with table := r.1 }
      else none
  | .commit i script =>
      match s.adopting[i]? with
      | some m => s.call (adoptCommit s.table m) script fun r s => s.committed i m r
      | none => none
  | .status handle script =>
      if s.table.loaded then
        s.call (status s.table handle) script fun r s => { s with table := r.1 }
      else none
  | .list script =>
      if s.table.loaded then
        s.call (listRuns s.table) script fun r s => { s with table := r.1 }
      else none
  | .stop p script =>
      if s.table.loaded then
        s.call (stop s.table p) script fun r s =>
          { s with table := r.1, answers := s.answers ++ [.stopped p r.2] }
      else none
  | .write p script =>
      if s.table.loaded then
        s.call (writeCheck s.table p) script fun r s' =>
          match r.2 with
          | .ok pipe => { s' with
              table := r.1, writing := s'.writing ++ [⟨p, pipe, s.table.get? p.handle⟩] }
          | .error _ => { s' with table := r.1 }
      else none
  | .finish i failure script =>
      match s.writing[i]? with
      | some wr => s.call (writeFinish s.table wr.params failure) script fun r s =>
          { s with
            table := r.1
            writing := s.writing.eraseIdx i
            answers := s.answers ++ [.wrote wr r.2] }
      | none => none
  | .abandon i =>
      match s.writing[i]? with
      | some _ => some { s with writing := s.writing.eraseIdx i }
      | none => none
  | .restart => some { s with
      table := .empty, starting := [], adopting := [], writing := [], answers := [] }

end State

/-- A phone without records, and an Agent just started on it. -/
def machine : Machine State Label where
  init s := s.table = .empty ∧ s.world.files = [] ∧ s.world.drawn = [] ∧ s.starting = [] ∧
    s.adopting = [] ∧ s.writing = [] ∧ s.answers = [] ∧ s.origins = fun _ => none
  step := State.step

/-! ### What a move can do -/

/-- Everything a move can do whose operations turn out within `ok`. -/
inductive Moves (ok : Choice → Prop) (s : State) : Label → State → Prop where
  | time {l : Label} {w : World} (hw : Waited s.world w) : Moves ok s l { s with world := w }
  | loaded {script : Script} {w : World} {t : Table} (hk : Kept s.world w)
      (ht : t = s.table ∨ s.table.loaded = false ∧ t.loaded = true ∧
        ∀ run ∈ t.runs, FromDisk s.world w run) :
      Moves ok s (.load script) { s with world := w, table := t }
  | launched {p : StartParams} {script : Script} {w : World} {run : ManagedRun}
      (ht : s.table.loaded = true) (hl : Launched ok p s.world w run) :
      Moves ok s (.start p script) { s with
        world := w
        starting := s.starting ++ [run]
        origins := Function.update s.origins run.handle run.child }
  | inserted {i : Nat} {run : ManagedRun} (hi : s.starting[i]? = some run) :
      Moves ok s (.insert i) { s with
        table := s.table.insert run, starting := s.starting.eraseIdx i }
  | measured {p : AdoptParams} {script : Script} {w : World} {m : Measured}
      (ht : s.table.loaded = true) (hw : Waited s.world w) :
      Moves ok s (.adopt p script) { s with world := w, adopting := s.adopting ++ [m] }
  | committed {i : Nat} {script : Script} {m : Measured} {w : World}
      {r : Table × Except AgentError AdoptResult} (hi : s.adopting[i]? = some m)
      (hc : Committed s.world w s.table m r) :
      Moves ok s (.commit i script) (State.committed { s with world := w } i m r)
  | refreshed {l : Label} {w : World} {t : Table} (hw : Waited s.world w)
      (ht : TableRefreshed s.world w s.table t) : Moves ok s l { s with world := w, table := t }
  | stopped {p : StopParams} {script : Script} {w : World}
      {r : Table × Except AgentError StopResult} (ht : s.table.loaded = true)
      (hs : Stopped ok s.world w s.table p r) :
      Moves ok s (.stop p script) { s with
        world := w, table := r.1, answers := s.answers ++ [.stopped p r.2] }
  | unchecked {p : WriteParams} {script : Script} {w : World} {t : Table} {e : AgentError}
      (hc : Checked s.world w s.table p (t, .error e)) :
      Moves ok s (.write p script) { s with world := w, table := t }
  | checked {p : WriteParams} {script : Script} {w : World} {t : Table} {pipe : Pipe}
      (ht : s.table.loaded = true) (hc : Checked s.world w s.table p (t, .ok pipe)) :
      Moves ok s (.write p script) { s with
        world := w, table := t, writing := s.writing ++ [⟨p, pipe, s.table.get? p.handle⟩] }
  | finished {i : Nat} {failure : Option String} {script : Script} {wr : Writing} {w : World}
      {r : Table × Except AgentError WriteResult} (hi : s.writing[i]? = some wr)
      (hf : Finished s.world w s.table wr.params r) :
      Moves ok s (.finish i failure script) { s with
        world := w, table := r.1, writing := s.writing.eraseIdx i,
        answers := s.answers ++ [.wrote wr r.2] }
  | abandoned {i : Nat} :
      Moves ok s (.abandon i) { s with writing := s.writing.eraseIdx i }
  | restarted : Moves ok s .restart { s with
      table := .empty, starting := [], adopting := [], writing := [], answers := [] }

variable {ok : Choice → Prop} {s s' : State} {l : Label}

/-- A part of a call ends as its specification says. -/
theorem call_spec {α : Type} {c : Call α} {script : Script} {k : α → State → State}
    {Q : α → World → Prop} (hc : Ends ok s.world c Q) (hok : ∀ e ∈ script, ok e.2)
    (h : s.call c script k = some s') : ∃ a w, Q a w ∧ s' = k a { s with world := w } := by
  obtain ⟨⟨a, w⟩, hr, rfl⟩ := Option.map_eq_some_iff.mp h
  exact ⟨a, w, hc.run waited_moves hok hr, rfl⟩

theorem ends_loaded {α : Type} {t : Table} (ht : t.loaded = true)
    {f : Except AgentError Table → Call α} {w : World} {Q : α → World → Prop}
    (h : Ends ok w (f (.ok t)) Q) : Ends ok w (ensureLoaded t >>= f) Q := by
  rw [ensureLoaded_of_loaded ht]
  exact h

/-- **Everything one move can do.** -/
theorem step_spec (hok : l.Within ok) (h : machine.step s l = some s') : Moves ok s l s' := by
  change s.step l = some s' at h
  cases l with
  | kernel e =>
      obtain ⟨w, hw, rfl⟩ := Option.map_eq_some_iff.mp h
      exact .time (waited_move hw)
  | load script =>
      simp only [State.step] at h
      cases ht : s.table.loaded with
      | true =>
          have hc : Ends ok s.world (ensureLoaded s.table) fun r w =>
              r = .ok s.table ∧ Waited s.world w := by
            rw [ensureLoaded_of_loaded ht]
            exact ends_pure ⟨rfl, .refl _⟩
          obtain ⟨r, w, ⟨rfl, hw⟩, rfl⟩ := call_spec hc hok h
          exact .loaded hw.kept (.inl rfl)
      | false =>
          obtain ⟨r, w, ⟨hk, hr⟩, rfl⟩ := call_spec (ensureLoaded_safe ht) hok h
          cases r with
          | ok t => exact .loaded hk (.inr ⟨ht, hr t rfl⟩)
          | error e => exact .loaded hk (.inl rfl)
  | start p script =>
      simp only [State.step] at h
      split at h
      · rename_i ht
        have hc : Ends ok s.world (startLaunch s.table p) fun r w =>
            r.1 = s.table ∧ Begun ok p s.world w r.2 :=
          ends_loaded ht (ends_bind startLoaded_safe fun r w h => ends_pure ⟨rfl, h⟩)
        obtain ⟨⟨t, r⟩, w, ⟨rfl, hr⟩, rfl⟩ := call_spec hc hok h
        cases r with
        | ok run => exact .launched ht hr
        | error e => exact .time hr
      · cases h
  | insert i =>
      simp only [State.step] at h
      split at h
      · cases h
        exact .inserted ‹_›
      · cases h
  | adopt p script =>
      simp only [State.step] at h
      split at h
      · rename_i ht
        have hc : Ends ok s.world (adoptMeasure s.table p) fun r w => r.1 = s.table ∧
            Waited s.world w :=
          ends_loaded ht (ends_bind (asks_safe (adoptLoaded_asks p)) fun r w h => ends_pure ⟨rfl, h⟩)
        obtain ⟨⟨t, r⟩, w, ⟨rfl, hw⟩, rfl⟩ := call_spec hc hok h
        cases r with
        | ok m => exact .measured ht hw
        | error e => exact .time hw
      · cases h
  | commit i script =>
      simp only [State.step] at h
      split at h
      · obtain ⟨r, w, hr, rfl⟩ := call_spec adoptCommit_safe hok h
        exact .committed ‹_› hr
      · cases h
  | status handle script =>
      simp only [State.step] at h
      split at h
      · obtain ⟨r, w, ⟨hw, ht⟩, rfl⟩ := call_spec (status_safe ‹_›) hok h
        exact .refreshed hw ht
      · cases h
  | list script =>
      simp only [State.step] at h
      split at h
      · obtain ⟨r, w, ⟨hw, ht⟩, rfl⟩ := call_spec listRuns_safe hok h
        exact .refreshed hw ht
      · cases h
  | stop p script =>
      simp only [State.step] at h
      split at h
      · obtain ⟨r, w, hr, rfl⟩ := call_spec (ends_loaded ‹_› stopLoaded_safe) hok h
        exact .stopped ‹_› hr
      · cases h
  | write p script =>
      simp only [State.step] at h
      split at h
      · obtain ⟨⟨t, r⟩, w, hr, rfl⟩ := call_spec (writeCheck_safe ‹_›) hok h
        cases r with
        | ok pipe => exact .checked ‹_› hr
        | error e => exact .unchecked hr
      · cases h
  | finish i failure script =>
      simp only [State.step] at h
      split at h
      · obtain ⟨r, w, hr, rfl⟩ := call_spec writeFinish_safe hok h
        exact .finished ‹_› hr
      · cases h
  | abandon i =>
      simp only [State.step] at h
      split at h
      · cases h
        exact .abandoned
      · cases h
  | restart =>
      cases h
      exact .restarted

end RevBox.Hosted
