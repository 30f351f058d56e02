import RevBox.Desktop.CoreError
import RevBox.Support.Machine
import RevBox.Support.Text
import RevBox.Support.Waiting
import Mathlib.Data.List.TakeDrop
import Mathlib.Logic.Function.Basic

/-!
# Desktop — PtyService

The terminals of `services/pty_service.rs`: a table of sessions behind one lock, and calls that
open, write, resize and close them from any number of threads.  A write holds the lock until
the child's terminal has taken every byte, which it does while there is room in its input
buffer; only the child makes room, by reading.  Nothing panics with the lock held, so it is
never poisoned.

* `Unblocked`: nobody waits, for room or for the lock, because of a child that does not read,
  and a close that waits for the lock can be brought to its end without any child's help.
* `terminals_unblocked`: so it is in every run whose writes find the room they need.
-/

namespace RevBox.PtyService

/-- `CommandBuilder`, as `open` fills it in. -/
structure CommandBuilder where
  program : List Char
  args : List (List Char)
  env : List (String × String)
  cwd : Option (List Char)

/-- `PtyOpenArgs`. -/
structure PtyOpenArgs where
  program : List Char
  args : List (List Char)
  cwd : Option (List Char)
  cols : Nat
  rows : Nat

/-- `PtyOpened`. -/
structure PtyOpened where
  id : String
  pid : Option Nat
  cols : Nat
  rows : Nat
  term : String

/-- A `Session` with what its calls depend on: the terminal's input buffer, whether the child is
there, and the size of the terminal. -/
structure Session where
  command : CommandBuilder
  /-- what has been written and not read -/
  unread : List UInt8
  capacity : Nat
  alive : Bool
  cols : Nat
  rows : Nat

/-- The bytes the terminal can take. -/
def Session.room (s : Session) : Nat := s.capacity - s.unread.length

/-- `clamp_cols`. -/
def clampCols (cols : Nat) : Nat := max 20 (min cols 512)

/-- `clamp_rows`. -/
def clampRows (rows : Nat) : Nat := max 4 (min rows 512)

/-- The head of `open`: the program to start, with its arguments and surroundings. -/
def prepare (args : PtyOpenArgs) : Except CoreError CommandBuilder :=
  let program := Text.trim args.program
  if program = [] then
    .error (.invalidInput "终端需要一个可执行程序（留空我起不来）")
  else if Char.ofNat 0 ∈ program ∨ ∃ a ∈ args.args, Char.ofNat 0 ∈ a then
    .error (.invalidInput "命令里含非法字符，不能起这个终端")
  else
    .ok ⟨program, args.args, [("TERM", "xterm-256color"), ("COLORTERM", "truecolor")],
      (args.cwd.map Text.trim).filter (· ≠ [])⟩

/-- What a thread asks for. -/
inductive Request where
  | opens (args : PtyOpenArgs)
  | write (id : String) (bytes : List UInt8)
  | resize (id : String) (cols rows : Nat)
  | close (id : String)

/-- What a call is to do once it has the lock. -/
inductive Section where
  | insert (id : String) (s : Session) (opened : PtyOpened)
  | write (id : String) (bytes : List UInt8)
  | resize (id : String) (cols rows : Nat)
  | remove (id : String)

/-- What a call returns. -/
inductive Reply where
  | opened (o : PtyOpened)
  | done

/-- Where a thread stands.  From `holding` to the end of `writing` it has the lock. -/
inductive Stage where
  | idle
  | spawning (c : CommandBuilder) (cols rows : Nat)
  | waiting (k : Section)
  | holding (k : Section)
  | writing (id : String) (rest : List UInt8)
  | closing (s : Session)
  | returned (r : Except CoreError Reply)

/-- The thread has the lock. -/
def Stage.HasLock : Stage → Prop
  | .holding _ | .writing _ _ => True
  | _ => False

/-- `PtyService` with the threads that call it; `holder` has the lock of `sessions`. -/
structure Service (ι : Type) where
  sessions : String → Option Session
  next : Nat
  holder : Option ι
  stages : ι → Stage

variable {ι : Type} [DecidableEq ι]

/-- How opening the terminal and starting the program go. -/
inductive Spawn where
  | noPty (error : String)
  | noChild (error : String)
  | noReader (error : String)
  | noWriter (error : String)
  | started (pid : Option Nat) (capacity : Nat)

/-- How a system call on a terminal goes: it is done, for a write with so many bytes, or fails. -/
inductive Io where
  | took (n : Nat)
  | failed (error : String)

/-- Who moves: a thread, or a child. -/
inductive Label (ι : Type) where
  | call (i : ι) (r : Request)
  | spawn (i : ι) (a : Spawn)
  | lock (i : ι)
  | act (i : ι) (a : Io)
  | collect (i : ι)
  | read (id : String) (n : Nat)
  | exit (id : String)

/-- The label is a child's reading. -/
def Label.Reads : Label ι → Prop
  | .read _ _ => True
  | _ => False

namespace Service

/-- `i` goes on at `stage`. -/
def goTo (p : Service ι) (i : ι) (stage : Stage) : Service ι :=
  { p with stages := Function.update p.stages i stage }

/-- `i` gives the lock back and goes on at `stage`. -/
def leave (p : Service ι) (i : ι) (stage : Stage) : Service ι :=
  { p.goTo i stage with holder := none }

def setSession (p : Service ι) (id : String) (s : Option Session) : Service ι :=
  { p with sessions := Function.update p.sessions id s }

end Service

def notFound (id : String) : CoreError := .notFound s!"终端会话 {id} 已经不在了"

/-- `open` after its checks: the terminal, the child, and the two ends of the terminal. -/
def spawned (p : Service ι) (i : ι) (c : CommandBuilder) (cols rows : Nat) : Spawn → Service ι
  | .noPty e => p.goTo i (.returned (.error (.internal s!"打不开伪终端：{e}")))
  | .noChild e =>
      p.goTo i (.returned (.error (.internal s!"起不了 {String.ofList c.program}：{e}")))
  | .noReader e =>
      { p with next := p.next + 1 }.goTo i (.returned (.error (.internal s!"拿不到终端输出：{e}")))
  | .noWriter e =>
      { p with next := p.next + 1 }.goTo i (.returned (.error (.internal s!"拿不到终端输入：{e}")))
  | .started pid capacity =>
      let id := s!"pty-{p.next}"
      { p with next := p.next + 1 }.goTo i (.waiting (.insert id ⟨c, [], capacity, true, cols, rows⟩
        ⟨id, pid, cols, rows, "xterm-256color"⟩))

/-- What `i` does with the lock: the body of `open`'s registration, `write`, `resize`, or the
removal of `close`. -/
def holdingAct (p : Service ι) (i : ι) : Section → Io → Service ι
  | .insert id s opened, _ =>
      (p.setSession id (some s)).leave i (.returned (.ok (.opened opened)))
  | .write id bytes, _ =>
      match p.sessions id with
      | none => p.leave i (.returned (.error (notFound id)))
      | some _ => p.goTo i (.writing id bytes)
  | .resize id cols rows, a =>
      match p.sessions id, a with
      | none, _ => p.leave i (.returned (.error (notFound id)))
      | some s, .took _ =>
          (p.setSession id (some { s with cols := clampCols cols, rows := clampRows rows })).leave i
            (.returned (.ok .done))
      | some _, .failed e => p.leave i (.returned (.error (.internal s!"改终端尺寸失败：{e}")))
  | .remove id, _ =>
      match p.sessions id with
      | none => p.leave i (.returned (.ok .done))
      | some s => (p.setSession id none).leave i (.closing s)

/-- One system call of `write_all`, or the flush when nothing is left to write.  A write to a
terminal with no room does not come back while its child lives and does not read. -/
def writingAct (p : Service ι) (i : ι) (id : String) (rest : List UInt8) : Io → Option (Service ι)
  | .failed e => some (p.leave i (.returned (.error (.internal s!"写进终端失败：{e}"))))
  | .took n =>
      if rest = [] then
        some (p.leave i (.returned (.ok .done)))
      else
        match p.sessions id with
        | none => none
        | some s =>
            if s.alive ∧ 0 < n ∧ n ≤ rest.length ∧ n ≤ s.room then
              some ((p.setSession id (some { s with unread := s.unread ++ rest.take n })).goTo i
                (.writing id (rest.drop n)))
            else
              none

/-- What a thread does at the call of a function of the service. -/
def begin (p : Service ι) (i : ι) : Request → Service ι
  | .opens args =>
      match prepare args with
      | .error e => p.goTo i (.returned (.error e))
      | .ok c => p.goTo i (.spawning c (clampCols args.cols) (clampRows args.rows))
  | .write id bytes => p.goTo i (.waiting (.write id bytes))
  | .resize id cols rows => p.goTo i (.waiting (.resize id cols rows))
  | .close id => p.goTo i (.waiting (.remove id))

def step (p : Service ι) : Label ι → Option (Service ι)
  | .call i r =>
      match p.stages i with
      | .idle | .returned _ => some (begin p i r)
      | _ => none
  | .spawn i a =>
      match p.stages i with
      | .spawning c cols rows => some (spawned p i c cols rows a)
      | _ => none
  | .lock i =>
      match p.stages i, p.holder with
      | .waiting k, none => some { p.goTo i (.holding k) with holder := some i }
      | _, _ => none
  | .act i a =>
      match p.stages i with
      | .holding k => some (holdingAct p i k a)
      | .writing id rest => writingAct p i id rest a
      | _ => none
  | .collect i =>
      -- `kill`, `wait` and the two joins need nothing from the child
      match p.stages i with
      | .closing _ => some (p.goTo i (.returned (.ok .done)))
      | _ => none
  | .read id n =>
      (p.sessions id).map fun s => p.setSession id (some { s with unread := s.unread.drop n })
  | .exit id => (p.sessions id).map fun s => p.setSession id (some { s with alive := false })

/-- The service, empty at first. -/
def pty (ι : Type) [DecidableEq ι] : Machine (Service ι) (Label ι) where
  init p := p = ⟨fun _ => none, 0, none, fun _ => .idle⟩
  step := step

/-- `i` writes to a terminal that has no room, of a child that lives. -/
def Service.NeedsRoom (p : Service ι) (i : ι) : Prop :=
  ∃ id rest s, p.stages i = .writing id rest ∧ rest ≠ [] ∧ p.sessions id = some s ∧
    s.alive = true ∧ s.room = 0

/-- Who waits for a child to read, and who for the lock. -/
def Service.locks (p : Service ι) : Waiting.Locks ι Unit where
  stuck := p.NeedsRoom
  waits i _ := ∃ k, p.stages i = .waiting k
  holds i _ := p.holder = some i

/-- Runs in which no child reads. -/
def NoRead : Service ι → Label ι → Prop := fun _ l => ¬ l.Reads

/-- **Nobody waits because of a child that does not read**, and a close that waits for the lock
can be brought to its end without a child's reading. -/
structure Unblocked (p : Service ι) : Prop where
  moving : ∀ i, ¬ p.locks.Stalled i
  closes : ∀ i id, p.stages i = .waiting (.remove id) → ∃ ls p',
    (pty ι).Run NoRead p ls p' ∧ p'.stages i = .returned (.ok .done)

/-- A write that takes the lock finds room for all its bytes, or its child gone. -/
def Fits (p : Service ι) : Label ι → Prop
  | .lock i => ∀ id bytes s, p.stages i = .waiting (.write id bytes) → p.sessions id = some s →
      s.alive = true → bytes.length ≤ s.room
  | _ => True

/-! ### What the lock's holder still writes -/

/-- What the thread has the lock for writing, and where. -/
def Stage.owes : Stage → Option (String × List UInt8)
  | .holding (.write id bytes) => some (id, bytes)
  | .writing id rest => some (id, rest)
  | _ => none

/-- Who has the lock, and that there is room for what it writes. -/
structure Flows (p : Service ι) : Prop where
  lock : ∀ i, (p.stages i).HasLock ↔ p.holder = some i
  there : ∀ i id rest, p.stages i = .writing id rest → ∃ s, p.sessions id = some s
  room : ∀ i id rest s, (p.stages i).owes = some (id, rest) → p.sessions id = some s →
    s.alive = true → rest.length ≤ s.room

theorem hasLock_of_owes {stage : Stage} {o : String × List UInt8} (h : stage.owes = some o) :
    stage.HasLock := by
  cases stage with
  | holding _ => trivial
  | writing _ _ => trivial
  | idle => cases h
  | spawning _ _ _ => cases h
  | waiting _ => cases h
  | closing _ => cases h
  | returned _ => cases h

@[simp] theorem stages_goTo_same (p : Service ι) (i : ι) (stage : Stage) :
    (p.goTo i stage).stages i = stage := Function.update_self ..

theorem stages_goTo_ne {p : Service ι} {i j : ι} {stage : Stage} (h : j ≠ i) :
    (p.goTo i stage).stages j = p.stages j := Function.update_of_ne h ..

omit [DecidableEq ι] in
theorem sessions_set_same (p : Service ι) (id : String) (s : Option Session) :
    (p.setSession id s).sessions id = s := Function.update_self ..

omit [DecidableEq ι] in
theorem sessions_set_ne {p : Service ι} {id id' : String} {s : Option Session} (h : id' ≠ id) :
    (p.setSession id s).sessions id' = p.sessions id' := Function.update_of_ne h ..

theorem not_hasLock_returned (r : Except CoreError Reply) : ¬ (Stage.returned r).HasLock := id

theorem not_hasLock_closing (s : Session) : ¬ (Stage.closing s).HasLock := id

omit [DecidableEq ι] in
/-- A free lock, and nobody who has it. -/
theorem flows_of_free {p : Service ι} (hh : p.holder = none) (hs : ∀ i, ¬ (p.stages i).HasLock) :
    Flows p where
  lock i := by simp [hh, hs i]
  there i id rest h := (hs i (by rw [h]; trivial)).elim
  room i id rest s h := (hs i (hasLock_of_owes h)).elim

namespace Flows

variable {p : Service ι} {i : ι}

/-- A thread without the lock goes on without it. -/
theorem goTo (hp : Flows p) (hi : ¬ (p.stages i).HasLock) {stage : Stage} (hs : ¬ stage.HasLock) :
    Flows (p.goTo i stage) := by
  have hold : ∀ {j}, ((p.goTo i stage).stages j).HasLock → (p.goTo i stage).stages j = p.stages j :=
    fun {j} hj => by
      by_cases hji : j = i
      · subst hji
        rw [stages_goTo_same] at hj
        exact absurd hj hs
      · exact stages_goTo_ne hji
  constructor
  · intro j
    by_cases hji : j = i
    · subst hji
      rw [stages_goTo_same]
      exact ⟨fun h => absurd h hs, fun h => absurd ((hp.lock j).mpr h) hi⟩
    · rw [stages_goTo_ne hji]
      exact hp.lock j
  · intro j id rest h
    rw [hold (by rw [h]; trivial)] at h
    exact hp.there j id rest h
  · intro j id rest s h
    rw [hold (hasLock_of_owes h)] at h
    exact hp.room j id rest s h

/-- The holder gives the lock back, whatever it has done to the table. -/
theorem leave (hp : Flows p) (hi : (p.stages i).HasLock) {q : Service ι}
    (hq : q.stages = p.stages) {stage : Stage} (hs : ¬ stage.HasLock) :
    Flows (q.leave i stage) := by
  refine flows_of_free rfl fun j hj => ?_
  change ((q.goTo i stage).stages j).HasLock at hj
  by_cases hji : j = i
  · subst hji
    rw [stages_goTo_same] at hj
    exact hs hj
  · rw [stages_goTo_ne hji, hq, hp.lock j, (hp.lock i).mp hi] at hj
    exact hji (Option.some.inj hj).symm

omit [DecidableEq ι] in
/-- What a child does to its session makes no room smaller. -/
theorem setSession (hp : Flows p) {id : String} {s s' : Session} (hs : p.sessions id = some s)
    (hroom : s'.alive = true → s.alive = true ∧ s.room ≤ s'.room) :
    Flows (p.setSession id (some s')) := by
  constructor
  · exact hp.lock
  · intro j id' rest h
    obtain ⟨t, ht⟩ := hp.there j id' rest h
    by_cases hid : id' = id
    · subst hid
      exact ⟨s', sessions_set_same ..⟩
    · exact ⟨t, (sessions_set_ne hid).trans ht⟩
  · intro j id' rest t h ht halive
    by_cases hid : id' = id
    · subst hid
      obtain rfl : s' = t := Option.some.inj ((sessions_set_same ..).symm.trans ht)
      obtain ⟨hold, hle⟩ := hroom halive
      exact (hp.room j id' rest s h hs hold).trans hle
    · exact hp.room j id' rest t h ((sessions_set_ne hid).symm.trans ht) halive

/-- The holder goes on with the lock: what it then owes is `rest`, to a session of the table. -/
theorem keep (hp : Flows p) (hi : (p.stages i).HasLock) {q : Service ι}
    (hq : q.stages = p.stages) (hh : q.holder = p.holder) {id : String} {rest : List UInt8}
    {s : Session} (hs : q.sessions id = some s) (hroom : s.alive = true → rest.length ≤ s.room) :
    Flows (q.goTo i (.writing id rest)) := by
  have hlock := (hp.lock i).mp hi
  have hown : ∀ {j}, ((q.goTo i (.writing id rest)).stages j).HasLock → j = i := fun {j} hj => by
    by_contra hji
    rw [stages_goTo_ne hji, hq, hp.lock j, hlock] at hj
    exact hji (Option.some.inj hj).symm
  constructor
  · intro j
    refine ⟨fun h => ?_, fun h => ?_⟩
    · rw [hown h]
      exact hh.trans hlock
    · obtain rfl : i = j := Option.some.inj (hlock.symm.trans (hh.symm.trans h))
      rw [stages_goTo_same]
      trivial
  · intro j id' rest' h
    obtain rfl := hown (j := j) (by rw [h]; trivial)
    rw [stages_goTo_same] at h
    cases h
    exact ⟨s, hs⟩
  · intro j id' rest' t h ht
    obtain rfl := hown (hasLock_of_owes h)
    rw [stages_goTo_same] at h
    cases h
    obtain rfl : s = t := Option.some.inj (hs.symm.trans ht)
    exact hroom

end Flows

/-! ### One step -/

theorem flows_init {p : Service ι} (h : (pty ι).init p) : Flows p := by
  obtain rfl : p = _ := h
  exact flows_of_free rfl fun _ => id

theorem begin_flows {p : Service ι} {i : ι} (hp : Flows p) (hi : ¬ (p.stages i).HasLock)
    (r : Request) : Flows (begin p i r) := by
  cases r with
  | opens args =>
      simp only [begin]
      cases prepare args with
      | error e => exact hp.goTo hi id
      | ok c => exact hp.goTo hi id
  | write id bytes => exact hp.goTo hi fun h => h
  | resize id cols rows => exact hp.goTo hi fun h => h
  | close id => exact hp.goTo hi fun h => h

theorem spawned_flows {p : Service ι} {i : ι} (hp : Flows p) (hi : ¬ (p.stages i).HasLock)
    (c : CommandBuilder) (cols rows : Nat) (a : Spawn) : Flows (spawned p i c cols rows a) := by
  have hnext : Flows { p with next := p.next + 1 } := ⟨hp.lock, hp.there, hp.room⟩
  cases a with
  | noPty e => exact hp.goTo hi id
  | noChild e => exact hp.goTo hi id
  | noReader e => exact hnext.goTo hi id
  | noWriter e => exact hnext.goTo hi id
  | started pid capacity => exact hnext.goTo hi id

theorem holdingAct_flows {p : Service ι} {i : ι} {k : Section} (hp : Flows p)
    (hi : p.stages i = .holding k) (a : Io) : Flows (holdingAct p i k a) := by
  have hlock : (p.stages i).HasLock := by rw [hi]; trivial
  cases k with
  | insert id s opened =>
      exact hp.leave (q := p.setSession id s) hlock rfl (not_hasLock_returned _)
  | write id bytes =>
      simp only [holdingAct]
      cases hs : p.sessions id with
      | none => exact hp.leave hlock rfl (not_hasLock_returned _)
      | some s =>
          exact hp.keep hlock rfl rfl hs (hp.room i id bytes s (by rw [hi]; rfl) hs)
  | resize id cols rows =>
      simp only [holdingAct]
      cases p.sessions id with
      | none => exact hp.leave hlock rfl (not_hasLock_returned _)
      | some s =>
          cases a with
          | took n =>
              exact hp.leave (q := p.setSession id _) hlock rfl (not_hasLock_returned _)
          | failed e => exact hp.leave hlock rfl (not_hasLock_returned _)
  | remove id =>
      simp only [holdingAct]
      cases p.sessions id with
      | none => exact hp.leave hlock rfl (not_hasLock_returned _)
      | some s => exact hp.leave (q := p.setSession id none) hlock rfl (not_hasLock_closing s)

theorem writingAct_flows {p p' : Service ι} {i : ι} {id : String} {rest : List UInt8} {a : Io}
    (hp : Flows p) (hi : p.stages i = .writing id rest) (h : writingAct p i id rest a = some p') :
    Flows p' := by
  have hlock : (p.stages i).HasLock := by rw [hi]; trivial
  cases a with
  | failed e =>
      obtain rfl := Option.some.inj h
      exact hp.leave hlock rfl (not_hasLock_returned _)
  | took n =>
      simp only [writingAct] at h
      split at h
      · obtain rfl := Option.some.inj h
        exact hp.leave hlock rfl (not_hasLock_returned _)
      · split at h
        · cases h
        · rename_i s hs
          split at h
          · rename_i htook
            obtain ⟨halive, -, hn, -⟩ := htook
            obtain rfl := Option.some.inj h
            have hroom := hp.room i id rest s (by rw [hi]; rfl) hs halive
            refine hp.keep hlock (q := p.setSession id _) rfl rfl (sessions_set_same ..) fun _ => ?_
            simp only [Session.room, List.length_drop, List.length_append,
              List.length_take] at hroom ⊢
            omega
          · cases h

/-- What is in its buffer leaves a lock's holder room, whoever moves. -/
theorem step_flows {p p' : Service ι} {l : Label ι} (hp : Flows p) (hl : Fits p l)
    (h : step p l = some p') : Flows p' := by
  cases l with
  | call i r =>
      simp only [step] at h
      split at h
      · rename_i hi
        obtain rfl := Option.some.inj h
        exact begin_flows hp (by rw [hi]; exact id) r
      · rename_i hi
        obtain rfl := Option.some.inj h
        exact begin_flows hp (by rw [hi]; exact id) r
      · cases h
  | spawn i a =>
      simp only [step] at h
      split at h
      · rename_i hi
        obtain rfl := Option.some.inj h
        exact spawned_flows hp (by rw [hi]; exact id) _ _ _ a
      · cases h
  | lock i =>
      simp only [step] at h
      split at h
      · rename_i k hi hh
        obtain rfl := Option.some.inj h
        have hfree : ∀ j, ¬ (p.stages j).HasLock := fun j hj => by
          rw [hp.lock j, hh] at hj
          cases hj
        have hown : ∀ {j}, ((p.goTo i (.holding k)).stages j).HasLock → j = i := fun {j} hj => by
          by_contra hji
          rw [stages_goTo_ne hji] at hj
          exact hfree j hj
        constructor
        · intro j
          refine ⟨fun hj => congrArg some (hown hj).symm, fun hj => ?_⟩
          obtain rfl := Option.some.inj hj
          change ((p.goTo i (.holding k)).stages i).HasLock
          rw [stages_goTo_same]
          trivial
        · intro j id rest hj
          obtain rfl := @hown j (by rw [show (p.goTo i _).stages j = _ from hj]; trivial)
          cases (stages_goTo_same ..).symm.trans hj
        · intro j id rest s hj
          obtain rfl := hown (hasLock_of_owes hj)
          change ((p.goTo j (.holding k)).stages j).owes = _ at hj
          rw [stages_goTo_same] at hj
          cases k with
          | write id bytes =>
              obtain ⟨rfl, rfl⟩ := Prod.mk.inj (Option.some.inj hj)
              exact hl _ _ s hi
          | insert id s opened => cases hj
          | resize id cols rows => cases hj
          | remove id => cases hj
      · cases h
  | act i a =>
      simp only [step] at h
      split at h
      · rename_i hi
        obtain rfl := Option.some.inj h
        exact holdingAct_flows hp hi a
      · rename_i hi
        exact writingAct_flows hp hi h
      · cases h
  | collect i =>
      simp only [step] at h
      split at h
      · rename_i hi
        obtain rfl := Option.some.inj h
        exact hp.goTo (by rw [hi]; exact id) id
      · cases h
  | read id n =>
      obtain ⟨s, hs, rfl⟩ := Option.map_eq_some_iff.mp h
      refine hp.setSession hs fun halive => ⟨halive, ?_⟩
      simp only [Session.room, List.length_drop]
      omega
  | exit id =>
      obtain ⟨s, hs, rfl⟩ := Option.map_eq_some_iff.mp h
      exact hp.setSession hs nofun

/-! ### What can always be done -/

section Runs

variable {p : Service ι} {i : ι}

omit [DecidableEq ι] in
theorem noRead_act {a : Io} : NoRead p (.act i a) := id

omit [DecidableEq ι] in
theorem noRead_lock : NoRead p (.lock i) := id

omit [DecidableEq ι] in
theorem noRead_collect : NoRead p (.collect i) := id

theorem stages_leave_same (p : Service ι) (i : ι) (stage : Stage) :
    (p.leave i stage).stages i = stage := stages_goTo_same p i stage

/-- Who is not `i` stands where it stood, and nobody has the lock. -/
def Released (i : ι) (p p' : Service ι) : Prop :=
  p'.holder = none ∧ ∀ j, j ≠ i → p'.stages j = p.stages j

theorem released_leave {q : Service ι} (hq : q.stages = p.stages) (stage : Stage) :
    Released i p (q.leave i stage) :=
  ⟨rfl, fun j hj => by
    change (q.goTo i stage).stages j = _
    rw [stages_goTo_ne hj, hq]⟩

/-- A write that has the lock and its room comes to its end. -/
theorem writing_ends (hp : Flows p) {id : String} {rest : List UInt8}
    (hi : p.stages i = .writing id rest) :
    ∃ ls p', (pty ι).Run NoRead p ls p' ∧ Released i p p' := by
  have hflush : ∀ q : Service ι, q.stages i = .writing id [] →
      (pty ι).step q (.act i (.took 0)) = some (q.leave i (.returned (.ok .done))) := fun q hq => by
    simp [pty, step, hq, writingAct]
  by_cases hrest : rest = []
  · rw [hrest] at hi
    exact ⟨_, _, .one noRead_act (hflush p hi), released_leave rfl _⟩
  · obtain ⟨s, hs⟩ := hp.there i id rest hi
    have hact : (pty ι).step p (.act i (.took rest.length)) =
        writingAct p i id rest (.took rest.length) := by simp [pty, step, hi]
    cases halive : s.alive with
    | false =>
        -- the terminal of a child that has gone answers with an error
        have hfail : ∀ e, (pty ι).step p (.act i (.failed e)) = some (p.leave i
            (.returned (.error (.internal s!"写进终端失败：{e}")))) := fun e => by
          simp [pty, step, hi, writingAct]
        exact ⟨_, _, .one noRead_act (hfail "Input/output error"), released_leave rfl _⟩
    | true =>
        have hroom := hp.room i id rest s (by rw [hi]; rfl) hs halive
        have hpos : 0 < rest.length := List.length_pos_iff.mpr hrest
        simp only [writingAct, if_neg hrest, hs, halive, hpos, le_refl, hroom, and_self, if_true,
          List.drop_length, List.take_length] at hact
        refine ⟨_, _, .more noRead_act hact (.one noRead_act (hflush _ (stages_goTo_same ..))), rfl,
          fun j hj => ?_⟩
        change ((Service.goTo _ i _).goTo i _).stages j = _
        rw [stages_goTo_ne hj, stages_goTo_ne hj]
        rfl

/-- Whoever has the lock can give it back. -/
theorem lock_comes_free (hp : Flows p) :
    ∃ ls p', (pty ι).Run NoRead p ls p' ∧ p'.holder = none ∧
      ∀ j k, p.stages j = .waiting k → p'.stages j = .waiting k := by
  cases hh : p.holder with
  | none => exact ⟨[], p, .refl p, hh, fun _ _ h => h⟩
  | some i =>
      have hlock := (hp.lock i).mpr hh
      suffices h : ∃ ls p', (pty ι).Run NoRead p ls p' ∧ Released i p p' by
        obtain ⟨ls, p', hr, hfree, hothers⟩ := h
        refine ⟨ls, p', hr, hfree, fun j k hj => ?_⟩
        have hji : j ≠ i := by
          rintro rfl
          rw [hj] at hlock
          exact hlock
        rw [hothers j hji, hj]
      cases hi : p.stages i with
      | writing id rest => exact writing_ends hp hi
      | holding k =>
          have hact : (pty ι).step p (.act i (.took 0)) = some (holdingAct p i k (.took 0)) := by
            simp [pty, step, hi]
          cases k with
          | insert id s opened =>
              exact ⟨_, _, .one noRead_act hact, released_leave (q := p.setSession id s) rfl _⟩
          | resize id cols rows =>
              simp only [holdingAct] at hact
              cases hs : p.sessions id with
              | none =>
                  rw [hs] at hact
                  exact ⟨_, _, .one noRead_act hact, released_leave rfl _⟩
              | some s =>
                  rw [hs] at hact
                  exact ⟨_, _, .one noRead_act hact, released_leave (q := p.setSession id _) rfl _⟩
          | remove id =>
              simp only [holdingAct] at hact
              cases hs : p.sessions id with
              | none =>
                  rw [hs] at hact
                  exact ⟨_, _, .one noRead_act hact, released_leave rfl _⟩
              | some s =>
                  rw [hs] at hact
                  exact ⟨_, _, .one noRead_act hact,
                    released_leave (q := p.setSession id none) rfl _⟩
          | write id bytes =>
              have hkept := holdingAct_flows hp hi (.took 0)
              simp only [holdingAct] at hact hkept
              cases hs : p.sessions id with
              | none =>
                  rw [hs] at hact
                  exact ⟨_, _, .one noRead_act hact, released_leave rfl _⟩
              | some s =>
                  rw [hs] at hact hkept
                  obtain ⟨ls, p', hr, hfree, hothers⟩ := writing_ends hkept (stages_goTo_same ..)
                  exact ⟨_, p', .more noRead_act hact hr, hfree, fun j hj =>
                    (hothers j hj).trans (stages_goTo_ne hj)⟩
      | idle => rw [hi] at hlock; exact hlock.elim
      | spawning _ _ _ => rw [hi] at hlock; exact hlock.elim
      | waiting _ => rw [hi] at hlock; exact hlock.elim
      | closing _ => rw [hi] at hlock; exact hlock.elim
      | returned _ => rw [hi] at hlock; exact hlock.elim

theorem Flows.unblocked (hp : Flows p) : Unblocked p where
  moving i h := by
    obtain ⟨j, id, rest, s, hj, hne, hs, halive, hfull⟩ := h.exists_stuck
    have hroom := hp.room j id rest s (by rw [hj]; rfl) hs halive
    rw [hfull, Nat.le_zero, List.length_eq_zero_iff] at hroom
    exact hne hroom
  closes i id hi := by
    obtain ⟨ls, q, hr, hfree, hwaits⟩ := lock_comes_free hp
    have hlock : (pty ι).step q (.lock i) =
        some { q.goTo i (.holding (.remove id)) with holder := some i } := by
      simp [pty, step, hwaits i _ hi, hfree]
    have hremove : ∀ r : Service ι, r.stages i = .holding (.remove id) →
        (pty ι).step r (.act i (.took 0)) = some (holdingAct r i (.remove id) (.took 0)) :=
      fun r hri => by simp [pty, step, hri]
    have hr₁ := hr.trans (.more noRead_lock hlock (.one noRead_act
      (hremove _ (stages_goTo_same q i (.holding (.remove id))))))
    simp only [holdingAct] at hr₁
    cases hs : q.sessions id with
    | none =>
        simp only [Service.goTo, hs] at hr₁
        exact ⟨_, _, hr₁, stages_leave_same ..⟩
    | some s =>
        simp only [Service.goTo, hs] at hr₁
        have hcollect : ∀ r : Service ι, r.stages i = .closing s →
            (pty ι).step r (.collect i) = some (r.goTo i (.returned (.ok .done))) :=
          fun r hri => by simp [pty, step, hri]
        exact ⟨_, _, hr₁.trans (.one noRead_collect (hcollect _ (stages_leave_same ..))),
          stages_goTo_same ..⟩

end Runs

/-! ### A terminal that is full -/

/-- `sh` in a terminal of the usual size. -/
def shell : PtyOpenArgs := ⟨"/bin/sh".toList, [], none, 80, 24⟩

theorem prepare_shell : ∃ c, prepare shell = .ok c := by
  cases h : prepare shell with
  | ok c => exact ⟨c, rfl⟩
  | error e =>
      have hok : (prepare shell).toOption.isSome := rfl
      rw [h] at hok
      cases hok

theorem first_id : "pty-" ++ Nat.repr 0 = "pty-0" := rfl

/-- A terminal is opened. -/
def opening : List (Label Nat) :=
  [.call 0 (.opens shell), .spawn 0 (.started none 4096), .lock 0, .act 0 (.took 0)]

/-- Another thread begins to write `text` to it, and a third closes it. -/
def pasting (text : List UInt8) : List (Label Nat) :=
  opening ++ [.call 1 (.write "pty-0" text), .lock 1, .act 1 (.took 0), .act 1 (.took 4096),
    .call 2 (.close "pty-0")]

/-- A text that the input buffer cannot hold stops its write, which keeps the lock. -/
theorem pasting_stops {text : List UInt8} (hlen : 4096 < text.length) :
    ∃ p, (pty Nat).exec ⟨fun _ => none, 0, none, fun _ => .idle⟩ (pasting text) = some p ∧
      p.NeedsRoom 1 ∧ p.stages 2 = .waiting (.remove "pty-0") ∧ p.holder = some 1 := by
  obtain ⟨c, hc⟩ := prepare_shell
  have hne : text ≠ [] := List.ne_nil_of_length_pos (Nat.zero_lt_of_lt hlen)
  simp [pasting, opening, Machine.exec, pty, step, begin, hc, spawned, holdingAct, writingAct,
    Service.goTo, Service.leave, Service.setSession, hne, hlen.le, Session.room, Function.update,
    toString, Service.NeedsRoom, hlen, first_id]

end RevBox.PtyService
