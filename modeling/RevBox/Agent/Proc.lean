import RevBox.Protocol.Envelope
import RevBox.Support.Text
import RevBox.Support.Utf8

/-!
# Agent — Proc

How `provider/hosted.rs` and `provider/process.rs` read the files of `/proc` and signal a process.

* `parseStartTimeTicks_stat`: the start time is read right whatever the process is called.
-/

namespace RevBox.Proc

/-! ### `/proc/<pid>/stat` -/

/-- `parse_start_time_ticks`. -/
def parseStartTimeTicks (stat : List Char) : Option Nat := do
  let closer ← Text.rfind ')' stat
  let tail := stat.drop (closer + 1)
  Text.parseUnsigned (2 ^ 64) (← (Text.splitWhitespace tail)[19]?)

/-- `parse_comm_ppid_state`. -/
def parseCommPpidState (stat : List Char) : Option (List Char × Nat × Char) := do
  let openAt ← Text.find '(' stat
  let close ← Text.rfind ')' stat
  if close < openAt then none
  let comm := (stat.take close).drop (openAt + 1)
  let fields := Text.splitWhitespace (stat.drop (close + 1))
  let state ← (← fields[0]?).head?
  let ppid := (Text.parseUnsigned (2 ^ 32) (← fields[1]?)).getD 0
  some (comm, ppid, state)

/-- The state letter as `poll_dead` reads it: the first character after the last `)` that is not
a blank. -/
def stateLetter (stat : List Char) : Option Char :=
  (Text.rfind ')' stat).bind fun closer => (Text.trimStart (stat.drop (closer + 1))).head?

/-- A line of `/proc/<pid>/stat`: the pid, the name in parentheses, and the other fields. -/
def statText (pid comm : List Char) (fields : List (List Char)) : List Char :=
  (pid ++ " (".toList ++ comm) ++ ')' :: ((fields.flatMap fun f => ' ' :: f) ++ ['\n'])

section
variable {pid comm : List Char} {fields : List (List Char)}

/-- Whatever the name holds, the other fields are what follows the last `)`. -/
theorem rfind_statText (h : ∀ f ∈ fields, ')' ∉ f) :
    Text.rfind ')' (statText pid comm fields) = some (pid ++ " (".toList ++ comm).length := by
  refine Text.rfind_append _ fun hmem => ?_
  rcases List.mem_append.mp hmem with hmem | hmem
  · obtain ⟨f, hf, hc⟩ := List.mem_flatMap.mp hmem
    rcases List.mem_cons.mp hc with hc | hc
    · cases hc
    · exact h f hf hc
  · cases List.mem_singleton.mp hmem

theorem drop_statText : (statText pid comm fields).drop ((pid ++ " (".toList ++ comm).length + 1) =
    (fields.flatMap fun f => ' ' :: f) ++ ['\n'] := by
  rw [statText, List.drop_append, List.drop_eq_nil_of_le (Nat.le_succ _)]
  simp

/-- **The start time is the twenty-second field, whatever the process is called.** -/
theorem parseStartTimeTicks_stat (h : ∀ f ∈ fields, f ≠ [] ∧ ∀ c ∈ f, Text.isWhitespace c = false)
    (hp : ∀ f ∈ fields, ')' ∉ f) :
    parseStartTimeTicks (statText pid comm fields) =
      fields[19]?.bind (Text.parseUnsigned (2 ^ 64)) := by
  simp only [parseStartTimeTicks, rfind_statText hp, Option.bind_eq_bind, Option.bind_some,
    drop_statText]
  rw [Text.splitWhitespace_flatMap rfl rfl h]

/-- The state letter is the third field. -/
theorem stateLetter_stat {c : Char} (hc : Text.isWhitespace c = false) (hne : c ≠ ')')
    (hp : ∀ f ∈ fields, ')' ∉ f) : stateLetter (statText pid comm ([c] :: fields)) = some c := by
  have hp' : ∀ f ∈ [c] :: fields, ')' ∉ f := by
    intro f hf
    rcases List.mem_cons.mp hf with rfl | hf
    · simpa using hne.symm
    · exact hp f hf
  have hblank : Text.isWhitespace ' ' = true := rfl
  rw [stateLetter, rfind_statText hp', Option.bind_some, drop_statText]
  simp [Text.trimStart, hblank, hc]

end

/-! ### Other files -/

/-- `cmdline_argv0`: the first item of the file that is not empty. -/
def cmdlineArgv0 (raw : List UInt8) : Option (List Char) :=
  ((raw.splitOn 0).map Utf8.fromUtf8Lossy).find? fun part => part ≠ []

/-- The second word of the first line that begins with `key`, as an unsigned number. -/
def fieldOf (key : String) (bound : Nat) (text : List Char) : Option Nat := do
  let line ← (Text.lines text).find? (Text.startsWith key.toList)
  Text.parseUnsigned bound (← (Text.splitWhitespace line)[1]?)

/-- `real_uid`. -/
def realUid (status : List Char) : Option Nat := fieldOf "Uid:" (2 ^ 32) status

/-- `boot_time_unix`. -/
def bootTimeUnix (stat : List Char) : Option Nat := fieldOf "btime " (2 ^ 64) stat

/-- `USER_HZ`. -/
def userHz : Nat := 100

/-- `process_start_unix`. -/
def processStartUnix (btime : Option Nat) (ticks : Nat) : Option Nat := do
  let started := (← btime) + ticks / userHz
  if started < 2 ^ 64 then some started else none

/-! ### Signals -/

/-- `KillSignal`. -/
inductive KillSignal where
  | term
  | kill
  deriving DecidableEq, Repr

/-- `KillSignal::number`. -/
def KillSignal.number : KillSignal → Nat
  | .term => 15
  | .kill => 9

/-- `KillSignal::default`. -/
instance : Inhabited KillSignal := ⟨.term⟩

/-- `SignalResult`. -/
inductive SignalResult where
  | sent
  | gone
  | denied
  | failed (errno : Int)
  deriving DecidableEq, Repr

/-- `libc::EPERM`. -/
def eperm : Int := 1

/-- `libc::ESRCH`. -/
def esrch : Int := 3

/-- `libc::EACCES`. -/
def eacces : Int := 13

/-- `libc::EINVAL`. -/
def einval : Int := 22

/-- The pid as `kill` takes it: what does not fit an `i32` becomes 0. -/
def rawPid (pid : Nat) : Nat := if pid < 2 ^ 31 then pid else 0

theorem rawPid_of_ne_zero {pid : Nat} (h : rawPid pid ≠ 0) : rawPid pid = pid := by
  unfold rawPid at h ⊢
  split
  · rfl
  · rename_i hlt
    rw [if_neg hlt] at h
    exact absurd rfl h

/-- What `send_signal` makes of the answer of `kill`, an error number unless it succeeded. -/
def SignalResult.ofErrno : Option Int → SignalResult
  | none => .sent
  | some errno =>
      if errno = esrch then .gone
      else if errno = eperm ∨ errno = eacces then .denied
      else .failed errno

end RevBox.Proc
