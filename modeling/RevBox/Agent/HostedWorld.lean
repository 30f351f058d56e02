import RevBox.Agent.Hosted
import RevBox.Device.Processes
import RevBox.Support.Surroundings

/-!
# Agent — HostedWorld

What the methods of `HostedProvider` meet on the phone: the process table, whose processes come
and go between any two operations, and the directory of record files.  A `Choice` says how an
operation turns out where more than one way is open.

* `readStat_spec`, `pollStat_spec`, `kill_spec`, `tryWait_spec`: what each answer about a process
  allows one to conclude.
-/

namespace RevBox.Hosted

open Proc Prog Device

/-- What a record file holds. -/
inductive Stored where
  | record (record : RunRecord)
  | garbled

/-- The phone: its processes, the record files by their stems, and the handles drawn so far. -/
structure World where
  kernel : Kernel
  files : List (String × Stored)
  drawn : List String

/-- How an operation turns out.  `unreadable` is a failed read of the `stat` of a process that is
there, `pollUnreadable` the same while `stop` waits for it to go. -/
inductive Choice where
  | stat (fields : StatFields)
  | unreadable (text : String)
  | pollUnreadable (text : String)
  | absent (text : String)
  | bytes (content : Option (List UInt8))
  | exe (target : Option String)
  | text (content : Option (List Char))
  | errno (errno : Option Int)
  | waited (reply : WaitReply)
  | flag (value : Bool)
  | metadata (result : Except IoError Metadata)
  | elf (result : Except IoError Bool)
  | opened (result : Except IoError Unit)
  | dup (result : Except String Unit)
  | spawned (pid ticks : Nat)
  | spawnFailed (text : String) (errno : Option Int)
  | fed
  | listed (failure : Option IoError)
  | removed
  | notRemoved
  | notStored
  | torn
  | stored (pruned : List String)
  | random (bytes : List UInt8)
  | noRandom (what : String) (error : IoError)
  | number (n : Nat)

namespace World

/-- A read of `/proc/<pid>/stat`; `failed` is the choice that it fails although the process is
there. -/
def readStat (w : World) (pid : Nat) (failed : Choice → Option String) (x : Choice) :
    Option (Except String (List Char)) :=
  match w.kernel.find pid, x with
  | some p, .stat fields => some (.ok (p.stat fields))
  | some _, x => (failed x).map .error
  | none, .absent text => some (.error text)
  | none, _ => none

/-- `libc::kill`: no such process, and only then, gives `ESRCH`. -/
def kill (w : World) (pid : Nat) : Choice → Option (Option Int)
  | .errno errno =>
      if (w.kernel.find pid).isSome = (errno ≠ some esrch) then some errno else none
  | _ => none

/-- `try_wait`: an exit status if the process has ended, which frees its pid. -/
def tryWait (w : World) (child : Child) : Choice → Option (WaitReply × World)
  | .waited (.exited code signal) =>
      if w.kernel.Alive child then none
      else some (.exited code signal, { w with kernel := w.kernel.reap child })
  | .waited .running => if w.kernel.Alive child then some (.running, w) else none
  | .waited (.failed text) => some (.failed text, w)
  | _ => none

/-- `command.spawn()`. -/
def spawn (w : World) (piped : Bool) : Choice → Option (Except (String × Option Int) Spawned × World)
  | .spawned pid ticks =>
      (w.kernel.spawn pid ticks).map fun k =>
        (.ok ⟨some pid, w.kernel.next, if piped then some w.kernel.next else none⟩,
          { w with kernel := k })
  | .spawnFailed text errno => some (.error (text, errno), w)
  | _ => none

/-- The record file of a stem. -/
def file (w : World) (stem : String) : Option Stored :=
  (w.files.find? fun f => f.1 = stem).map Prod.snd

/-- `read_to_string` and `from_str` of a record file. -/
def readRecord (w : World) (stem : String) : Choice → Option RecordFile
  | .flag readable =>
      some (match readable, w.file stem with
        | true, some (.record record) => .stored record
        | true, some .garbled => .garbled
        | _, _ => .unreadable)
  | _ => none

/-- The record files without one. -/
def without (w : World) (stem : String) : World :=
  { w with files := w.files.filter fun f => f.1 ≠ stem }

/-- A record file written. -/
def write (w : World) (stem : String) (content : Stored) : World :=
  { w with files := (stem, content) :: w.files.filter fun f => f.1 ≠ stem }

/-- `persist`: nothing is written, or a torn file, or the record, after which files beyond the
`MAX_RUN_RECORDS` most recent are pruned. -/
def persist (w : World) (record : RunRecord) : Choice → Option World
  | .notStored => some w
  | .torn => some (w.write record.handle .garbled)
  | .stored pruned =>
      let w := w.write record.handle (.record record)
      if pruned = [] ∨ pruned.length + 200 ≤ w.files.length then
        some { w with files := w.files.filter fun f => f.1 ∉ pruned }
      else none
  | _ => none

/-- The handle of eight random bytes. -/
def handleOf (bytes : List UInt8) : String :=
  String.ofList (bytes.flatMap fun b =>
    [Json.hexDigit (b.toNat / 16), Json.hexDigit (b.toNat % 16)])

/-- `/dev/urandom`: eight bytes, and never the same handle twice. -/
def random (w : World) : Choice → Option (Except (String × IoError) (List UInt8) × World)
  | .random bytes =>
      if bytes.length = 8 ∧ handleOf bytes ∉ w.drawn then
        some (.ok bytes, { w with drawn := handleOf bytes :: w.drawn })
      else none
  | .noRandom what error => some (.error (what, error), w)
  | _ => none

/-- The answer to an operation. -/
def perform (w : World) : (o : Op) → Choice → Option (Reply o × World)
  | .readStat pid, x =>
      (w.readStat pid (fun | .unreadable text => some text | _ => none) x).map fun r => (r, w)
  | .pollStat pid, x =>
      (w.readStat pid (fun | .pollUnreadable text => some text | _ => none) x).map fun r => (r, w)
  | .procExists pid, _ => some ((w.kernel.find pid).isSome, w)
  | .readCmdline _, .bytes content => some (content, w)
  | .readExe _, .exe target => some (target, w)
  | .readStatus _, .text content => some (content, w)
  | .readProcStat, .text content => some (content, w)
  | .kill pid _, x => (w.kill pid x).map fun r => (r, w)
  | .tryWait child, x => w.tryWait child x
  | .confirmTimedOut, .flag value => some (value, w)
  | .metadata _, .metadata result => some (result, w)
  | .isElf _, .elf result => some (result, w)
  | .openLog _, .opened result => some (result, w)
  | .dupLog, .dup result => some (result, w)
  | .spawn _ _ piped, x => w.spawn piped x
  | .feed _ _ _, .fed => some ((), w)
  | .listStateDir, .listed none => some (.ok (w.files.map Prod.fst), w)
  | .listStateDir, .listed (some error) => some (.error error, w)
  | .readRecord stem, x => (w.readRecord stem x).map fun r => (r, w)
  | .removeRecord stem, .removed => some ((), w.without stem)
  | .removeRecord _, .notRemoved => some ((), w)
  | .persist record, x => (w.persist record x).map fun w => ((), w)
  | .urandom, x => w.random x
  | .unixNow, .number n => some (n, w)
  | .effectiveUid, .number n => some (n, w)
  | .firstOf n, .number i => if i < n then some (i, w) else none
  | _, _ => none

/-- The moves of the phone's own. -/
def move (w : World) (e : Kernel.Move) : Option World :=
  (w.kernel.move e).map fun k => { w with kernel := k }

end World

/-- The phone as the surroundings of the methods. -/
def phone : Surroundings Op Reply World Choice Kernel.Move where
  perform := World.perform
  move := World.move

/-- Time has passed, and nobody has touched the record files. -/
def Waited (w w' : World) : Prop :=
  Kernel.Later w.kernel w'.kernel ∧ w'.files = w.files ∧ w'.drawn = w.drawn

variable {w w' w'' : World}

theorem Waited.refl (w : World) : Waited w w := ⟨.refl _, rfl, rfl⟩

theorem Waited.trans (h : Waited w w') (h' : Waited w' w'') : Waited w w'' :=
  ⟨h.1.trans h'.1, h'.2.1.trans h.2.1, h'.2.2.trans h.2.2⟩

theorem waited_move {e : Kernel.Move} (h : w.move e = some w') : Waited w w' := by
  obtain ⟨k, hk, rfl⟩ := Option.map_eq_some_iff.mp h
  exact ⟨Kernel.later_move hk, rfl, rfl⟩

theorem waited_moves : ∀ (w : World) (es : List Kernel.Move) (w' : World),
    phone.moves w es = some w' → Waited w w'
  | w, [], w', h => by
      cases h
      exact .refl _
  | w, e :: es, w', h => by
      obtain ⟨w₁, h₁, h₂⟩ := Option.bind_eq_some_iff.mp h
      exact (waited_move h₁).trans (waited_moves w₁ es w' h₂)

/-! ### What an answer tells of a process -/

/-- Process `id` has begun, and as long as it runs it is the one of this pid and start time. -/
def Known (k : Kernel) (id pid ticks : Nat) : Prop :=
  id < k.next ∧ ∀ p ∈ k.processes, p.id = id → p.zombie = false → p.pid = pid ∧ p.ticks = ticks

theorem Known.later {k k' : Kernel} {id pid ticks : Nat} (h : Known k id pid ticks)
    (hl : Kernel.Later k k') : Known k' id pid ticks := by
  refine ⟨Nat.lt_of_lt_of_le h.1 hl.1, fun p' hp' hid hz' => ?_⟩
  obtain ⟨p, hp, hid', hpid, ht, hz⟩ := hl.2 p' hp' (hid ▸ h.1)
  have hz₀ : p.zombie = false := by
    cases hpz : p.zombie with
    | false => rfl
    | true => rw [hz hpz] at hz'; cases hz'
  obtain ⟨h₁, h₂⟩ := h.2 p hp (hid'.trans hid) hz₀
  exact ⟨hpid ▸ h₁, ht ▸ h₂⟩

/-- A running process is the one of its pid. -/
theorem Known.find {k : Kernel} {id pid ticks : Nat} (h : Known k id pid ticks)
    (ha : k.Alive id) : ∃ p, k.find pid = some p ∧ p.id = id ∧ p.ticks = ticks ∧
      p.zombie = false := by
  obtain ⟨p, hp, hid, hz⟩ := ha
  obtain ⟨rfl, ht⟩ := h.2 p hp hid hz
  exact ⟨p, Kernel.find_of_mem hp, hid, ht, hz⟩

/-- Nothing is known wrongly of what does not run. -/
theorem Known.of_dead {k : Kernel} {id : Nat} (hid : id < k.next) (h : ¬ k.Alive id)
    (pid ticks : Nat) : Known k id pid ticks :=
  ⟨hid, fun p hp hpid hz => (h ⟨p, hp, hpid, hz⟩).elim⟩

variable {pid : Nat} {x : Choice}

theorem readStat_spec {r : Except String (List Char)}
    (h : w.perform (.readStat pid) x = some (r, w')) : w' = w ∧
      ((∃ p f, w.kernel.find pid = some p ∧ r = .ok (p.stat f)) ∨
        ∃ text, r = .error text ∧ (w.kernel.find pid = none ∨ x = .unreadable text)) := by
  obtain ⟨r', hr, he⟩ := Option.map_eq_some_iff.mp h
  cases he
  refine ⟨rfl, ?_⟩
  unfold World.readStat at hr
  cases hf : w.kernel.find pid with
  | none =>
      rw [hf] at hr
      cases x <;> simp at hr
      exact .inr ⟨_, hr.symm, .inl rfl⟩
  | some p =>
      rw [hf] at hr
      cases x <;> simp at hr
      · exact .inl ⟨p, _, rfl, hr.symm⟩
      · exact .inr ⟨_, hr.symm, .inr rfl⟩

theorem pollStat_spec {r : Except String (List Char)}
    (h : w.perform (.pollStat pid) x = some (r, w')) : w' = w ∧
      ((∃ p f, w.kernel.find pid = some p ∧ r = .ok (p.stat f)) ∨
        ∃ text, r = .error text ∧ (w.kernel.find pid = none ∨ x = .pollUnreadable text)) := by
  obtain ⟨r', hr, he⟩ := Option.map_eq_some_iff.mp h
  cases he
  refine ⟨rfl, ?_⟩
  unfold World.readStat at hr
  cases hf : w.kernel.find pid with
  | none =>
      rw [hf] at hr
      cases x <;> simp at hr
      exact .inr ⟨_, hr.symm, .inl rfl⟩
  | some p =>
      rw [hf] at hr
      cases x <;> simp at hr
      · exact .inl ⟨p, _, rfl, hr.symm⟩
      · exact .inr ⟨_, hr.symm, .inr rfl⟩

theorem kill_spec {signal : KillSignal} {r : Option Int}
    (h : w.perform (.kill pid signal) x = some (r, w')) :
    w' = w ∧ (r = some esrch → w.kernel.find pid = none) := by
  obtain ⟨r', hr, he⟩ := Option.map_eq_some_iff.mp h
  cases he
  refine ⟨rfl, fun hesrch => ?_⟩
  unfold World.kill at hr
  cases x <;> simp at hr
  obtain ⟨hsome, rfl⟩ := hr
  simpa [hesrch] using hsome

theorem tryWait_spec {child : Child} {r : WaitReply}
    (h : w.perform (.tryWait child) x = some (r, w')) : Waited w w' ∧
      ((∃ code signal, r = .exited code signal ∧ ¬ w.kernel.Alive child) ∨
        r = .running ∨ ∃ text, r = .failed text) := by
  change w.tryWait child x = some (r, w') at h
  unfold World.tryWait at h
  split at h
  · split at h
    · cases h
    · cases h
      exact ⟨⟨Kernel.later_reap _, rfl, rfl⟩, .inl ⟨_, _, rfl, ‹_›⟩⟩
  · split at h
    · cases h
      exact ⟨.refl _, .inr (.inl rfl)⟩
    · cases h
  · cases h
    exact ⟨.refl _, .inr (.inr ⟨_, rfl⟩)⟩
  · cases h

end RevBox.Hosted
