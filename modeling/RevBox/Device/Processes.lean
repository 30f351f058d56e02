import RevBox.Agent.Proc
import Mathlib.Data.List.OfFn
import Mathlib.Data.List.Nodup

/-!
# Device — Processes

The process table of the phone, as far as the Agent can tell: pids are handed out again, and a
process that has exited stays as a zombie until it is waited for.  Each process carries a number
of its own that is never handed out again, which no program can read: it says which process a
pid or a record was about.

* `Later`: what only time can bring; `dead_later`: the dead stay dead.
* `Process.startTime_read`, `Process.state_read`: what `/proc/<pid>/stat` tells of a process.
-/

namespace RevBox.Device

/-- A process, alive or a zombie. -/
structure Process where
  id : Nat
  pid : Nat
  ticks : Nat
  zombie : Bool

/-- The process table: one process a pid. -/
structure Kernel where
  processes : List Process
  next : Nat
  fresh : ∀ p ∈ processes, p.id < next
  ids : (processes.map Process.id).Nodup
  pids : (processes.map Process.pid).Nodup
  ticks : ∀ p ∈ processes, p.ticks < 2 ^ 64

namespace Kernel

/-- The process of a pid. -/
def find (k : Kernel) (pid : Nat) : Option Process := k.processes.find? fun p => p.pid = pid

/-- The process `id` is running. -/
def Alive (k : Kernel) (id : Nat) : Prop := ∃ p ∈ k.processes, p.id = id ∧ p.zombie = false

instance (k : Kernel) (id : Nat) : Decidable (k.Alive id) :=
  inferInstanceAs (Decidable (∃ p ∈ k.processes, _))

/-- A table without processes. -/
def empty : Kernel := ⟨[], 0, by simp, by simp, by simp, by simp⟩

/-- A process starts under a pid nobody has. -/
def spawn (k : Kernel) (pid ticks : Nat) : Option Kernel :=
  if h : 0 < pid ∧ pid < 2 ^ 31 ∧ ticks < 2 ^ 64 ∧ pid ∉ k.processes.map Process.pid then
    some {
      processes := ⟨k.next, pid, ticks, false⟩ :: k.processes
      next := k.next + 1
      fresh := fun p hp => by
        rcases List.mem_cons.mp hp with rfl | hp
        · exact Nat.lt_succ_self _
        · exact Nat.lt_succ_of_lt (k.fresh p hp)
      ids := List.nodup_cons.mpr ⟨fun hid => by
        obtain ⟨p, hp, hpid⟩ := List.mem_map.mp hid
        exact Nat.ne_of_lt (k.fresh p hp) hpid, k.ids⟩
      pids := List.nodup_cons.mpr ⟨h.2.2.2, k.pids⟩
      ticks := fun p hp => by
        rcases List.mem_cons.mp hp with rfl | hp
        · exact h.2.2.1
        · exact k.ticks p hp }
  else none

/-- The process `id` ends. -/
def exit (k : Kernel) (id : Nat) : Kernel where
  processes := k.processes.map fun p => { p with zombie := p.zombie || decide (p.id = id) }
  next := k.next
  fresh := fun p hp => by
    obtain ⟨q, hq, rfl⟩ := List.mem_map.mp hp
    exact k.fresh q hq
  ids := by
    rw [List.map_map]
    exact k.ids
  pids := by
    rw [List.map_map]
    exact k.pids
  ticks := fun p hp => by
    obtain ⟨q, hq, rfl⟩ := List.mem_map.mp hp
    exact k.ticks q hq

/-- The zombie `id` is waited for, and its pid is free. -/
def reap (k : Kernel) (id : Nat) : Kernel where
  processes := k.processes.filter fun p => !(p.zombie && decide (p.id = id))
  next := k.next
  fresh := fun p hp => k.fresh p (List.mem_of_mem_filter hp)
  ids := k.ids.sublist (List.filter_sublist.map _)
  pids := k.pids.sublist (List.filter_sublist.map _)
  ticks := fun p hp => k.ticks p (List.mem_of_mem_filter hp)

/-- What processes do on their own. -/
inductive Move where
  | spawn (pid ticks : Nat)
  | exit (id : Nat)
  | reap (id : Nat)

/-- The table after a move. -/
def move (k : Kernel) : Move → Option Kernel
  | .spawn pid ticks => k.spawn pid ticks
  | .exit id => some (k.exit id)
  | .reap id => some (k.reap id)

variable {k k' k'' : Kernel} {pid id : Nat}

theorem find_mem {p : Process} (h : k.find pid = some p) : p ∈ k.processes ∧ p.pid = pid :=
  ⟨List.mem_of_find?_eq_some h, by simpa using List.find?_some h⟩

/-- One process a pid. -/
theorem pid_unique {p q : Process} (hp : p ∈ k.processes) (hq : q ∈ k.processes)
    (h : p.pid = q.pid) : p = q :=
  List.inj_on_of_nodup_map k.pids hp hq h

/-- One process a number. -/
theorem id_unique {p q : Process} (hp : p ∈ k.processes) (hq : q ∈ k.processes)
    (h : p.id = q.id) : p = q :=
  List.inj_on_of_nodup_map k.ids hp hq h

theorem find_of_mem {p : Process} (hp : p ∈ k.processes) : k.find p.pid = some p := by
  cases hf : k.find p.pid with
  | none => exact absurd (List.find?_eq_none.mp hf p hp) (by simp)
  | some q =>
      obtain ⟨hq, hpid⟩ := find_mem hf
      rw [pid_unique hq hp hpid]

/-! ### Time -/

/-- `k'` may be what has become of `k`: processes of `k` keep their pid and start time, and
zombies do not come back. -/
def Later (k k' : Kernel) : Prop :=
  k.next ≤ k'.next ∧ ∀ p' ∈ k'.processes, p'.id < k.next →
    ∃ p ∈ k.processes, p.id = p'.id ∧ p.pid = p'.pid ∧ p.ticks = p'.ticks ∧
      (p.zombie = true → p'.zombie = true)

theorem Later.refl (k : Kernel) : Later k k :=
  ⟨Nat.le_refl _, fun p hp _ => ⟨p, hp, rfl, rfl, rfl, id⟩⟩

theorem Later.trans (h : Later k k') (h' : Later k' k'') : Later k k'' := by
  refine ⟨Nat.le_trans h.1 h'.1, fun p'' hp'' hid => ?_⟩
  obtain ⟨p', hp', hid', hpid', ht', hz'⟩ := h'.2 p'' hp'' (Nat.lt_of_lt_of_le hid h.1)
  obtain ⟨p, hp, hid₀, hpid₀, ht₀, hz₀⟩ := h.2 p' hp' (hid' ▸ hid)
  exact ⟨p, hp, hid₀.trans hid', hpid₀.trans hpid', ht₀.trans ht', fun hz => hz' (hz₀ hz)⟩

theorem later_spawn {ticks : Nat} (h : k.spawn pid ticks = some k') : Later k k' := by
  unfold spawn at h
  split at h
  · cases h
    refine ⟨Nat.le_succ _, fun p hp hid => ?_⟩
    rcases List.mem_cons.mp hp with rfl | hp
    · exact absurd hid (Nat.lt_irrefl _)
    · exact ⟨p, hp, rfl, rfl, rfl, fun h => h⟩
  · cases h

theorem later_exit (id : Nat) : Later k (k.exit id) := by
  refine ⟨Nat.le_refl _, fun p' hp' _ => ?_⟩
  obtain ⟨p, hp, rfl⟩ := List.mem_map.mp hp'
  exact ⟨p, hp, rfl, rfl, rfl, fun hz => by simp [hz]⟩

theorem later_reap (id : Nat) : Later k (k.reap id) :=
  ⟨Nat.le_refl _, fun p hp _ => ⟨p, List.mem_of_mem_filter hp, rfl, rfl, rfl, fun h => h⟩⟩

theorem later_move {e : Move} (h : k.move e = some k') : Later k k' := by
  cases e with
  | spawn pid ticks => exact later_spawn h
  | exit id =>
      cases h
      exact later_exit id
  | reap id =>
      cases h
      exact later_reap id

/-- **The dead stay dead.** -/
theorem dead_later (h : Later k k') (hid : id < k.next) (hdead : ¬ k.Alive id) :
    ¬ k'.Alive id := by
  rintro ⟨p', hp', rfl, hz'⟩
  obtain ⟨p, hp, hid₀, -, -, hz⟩ := h.2 p' hp' hid
  refine hdead ⟨p, hp, hid₀, ?_⟩
  cases hpz : p.zombie with
  | false => rfl
  | true => rw [hz hpz] at hz'; cases hz'

end Kernel

/-! ### `/proc/<pid>/stat` -/

/-- The states of a process that is not a zombie. -/
inductive TaskState where
  | running
  | sleeping
  | diskSleep
  | stopped
  | traced
  | parked
  | idle

/-- The letter of a state. -/
def TaskState.letter : TaskState → Char
  | .running => 'R'
  | .sleeping => 'S'
  | .diskSleep => 'D'
  | .stopped => 'T'
  | .traced => 't'
  | .parked => 'P'
  | .idle => 'I'

/-- What the line says besides the pid and the start time: the name a process may give itself, and
numbers that go up and down. -/
structure StatFields where
  comm : List Char
  state : TaskState
  ppid : Nat
  between : Fin 17 → Int
  rest : List Nat

/-- A number with its sign. -/
def signed : Int → List Char
  | .ofNat n => Text.decimal n
  | .negSucc n => '-' :: Text.decimal (n + 1)

namespace Process

/-- The state letter of the line. -/
def letter (p : Process) (f : StatFields) : Char := if p.zombie then 'Z' else f.state.letter

/-- The fields after the state. -/
def fields (p : Process) (f : StatFields) : List (List Char) :=
  Text.decimal f.ppid :: (List.ofFn fun i => signed (f.between i)) ++
    Text.decimal p.ticks :: f.rest.map Text.decimal

/-- The content of `/proc/<pid>/stat`. -/
def stat (p : Process) (f : StatFields) : List Char :=
  Proc.statText (Text.decimal p.pid) f.comm ([p.letter f] :: p.fields f)

/-- A word of the line: not empty, no blank, no closing parenthesis. -/
def Word (w : List Char) : Prop := w ≠ [] ∧ ∀ c ∈ w, Text.isWhitespace c = false ∧ c ≠ ')'

theorem word_decimal (n : Nat) : Word (Text.decimal n) := by
  refine ⟨Text.decimal_ne_nil n, fun c hc => ?_⟩
  have hd := Text.isAsciiDigit_of_mem_decimal hc
  exact ⟨Text.not_whitespace_of_isAsciiDigit hd, by rintro rfl; cases hd⟩

theorem word_signed (n : Int) : Word (signed n) := by
  cases n with
  | ofNat n => exact word_decimal n
  | negSucc n =>
      refine ⟨List.cons_ne_nil _ _, fun c hc => ?_⟩
      rcases List.mem_cons.mp hc with rfl | hc
      · exact ⟨rfl, by decide⟩
      · exact (word_decimal (n + 1)).2 c hc

theorem word_fields (p : Process) (f : StatFields) : ∀ w ∈ p.fields f, Word w := by
  intro w hw
  rcases List.mem_append.mp hw with hw | hw
  · rcases List.mem_cons.mp hw with rfl | hw
    · exact word_decimal _
    · obtain ⟨i, rfl⟩ := List.mem_ofFn.mp hw
      exact word_signed _
  · rcases List.mem_cons.mp hw with rfl | hw
    · exact word_decimal _
    · obtain ⟨n, -, rfl⟩ := List.mem_map.mp hw
      exact word_decimal n

theorem letter_word (p : Process) (f : StatFields) : Word [p.letter f] := by
  have hall : ∀ s : TaskState, Text.isWhitespace s.letter = false ∧ s.letter ≠ ')' := by
    intro s
    cases s <;> decide
  refine ⟨List.cons_ne_nil _ _, fun c hc => ?_⟩
  obtain rfl := List.mem_singleton.mp hc
  unfold letter
  split
  · decide
  · exact hall _

/-- The letter tells a zombie. -/
theorem letter_eq_zombie {p : Process} {f : StatFields} : p.letter f = 'Z' ↔ p.zombie = true := by
  have hall : ∀ s : TaskState, s.letter ≠ 'Z' := by
    intro s
    cases s <;> decide
  unfold letter
  split
  · simp [*]
  · simp [*]

/-- **The start time is read from the line, whatever the process calls itself.** -/
theorem startTime_read {p : Process} (f : StatFields) (h : p.ticks < 2 ^ 64) :
    Proc.parseStartTimeTicks (p.stat f) = some p.ticks := by
  have hwords : ∀ w ∈ [p.letter f] :: p.fields f, Word w := by
    intro w hw
    rcases List.mem_cons.mp hw with rfl | hw
    · exact letter_word p f
    · exact word_fields p f w hw
  have hat : ([p.letter f] :: p.fields f)[19]? = some (Text.decimal p.ticks) := by
    simp [fields]
  rw [stat, Proc.parseStartTimeTicks_stat (fun w hw => ⟨(hwords w hw).1, fun c hc =>
    ((hwords w hw).2 c hc).1⟩) (fun w hw hc => ((hwords w hw).2 _ hc).2 rfl), hat,
    Option.bind_some, Text.parseUnsigned_decimal h]

/-- **The state letter is read from the line.** -/
theorem state_read (p : Process) (f : StatFields) :
    Proc.stateLetter (p.stat f) = some (p.letter f) := by
  obtain ⟨hblank, hne⟩ := (letter_word p f).2 _ (List.mem_singleton.mpr rfl)
  exact Proc.stateLetter_stat hblank hne fun w hw hc => ((word_fields p f w hw).2 _ hc).2 rfl

end Process

end RevBox.Device
