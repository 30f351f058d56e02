import RevBox.Desktop.AgentBootstrap
import RevBox.Device.Processes
import RevBox.Support.Surroundings
import Mathlib.Data.Set.Insert

/-!
# Desktop — StopAgent

What `stop_agent_script` of `adapters/agent_bootstrap.rs` does to the processes of the phone, as
they come and go while it runs.  The script checks what a process runs before it signals it,
except for the process of the pid file, whatever that is by now.

* `stops_only_the_agent`: it signals nothing but the Agent, and leaves none, if the pid file does
  not name another process and no process takes the place of one found to be the Agent.
* `stale_pid_file_is_followed`: a pid file with the number of another process of the shell user.
-/

namespace RevBox.StopAgent

open AgentManager Prog Device Surroundings

/-! ### The phone -/

/-- What a process runs, and for whom: where `/proc/<pid>/exe` leads, the name it was called by,
whether the shell user may signal it and read its link, and whether it is of the script's own
process group. -/
structure Image where
  exe : String
  name : String
  mine : Bool
  group : Bool

/-- A signal that reached a process: which one, and what it ran. -/
structure Hit where
  id : Nat
  exe : String
  deriving DecidableEq

/-- The phone: its processes, what each runs, the pid file, and the signals that have reached a
process.  `taken` is the pid the script last took for the Agent's. -/
structure World where
  kernel : Kernel
  image : Nat → Image
  pidFile : Option (List Char)
  taken : Option Nat
  hits : List Hit

/-- What happens on the phone while the script runs. -/
inductive Move where
  | spawn (pid ticks : Nat) (image : Image)
  | exec (id : Nat) (image : Image)
  | exit (id : Nat)
  | reap (id : Nat)
  | pidFile (content : Option (List Char))

inductive Signal where
  | term
  | kill

/-- The commands of the script. -/
inductive Op where
  | hasPidFile
  | catPidFile
  | signal (signal : Signal) (pid : Nat)
  | isThere (pid : Nat)
  | sleep
  | pidof
  | readlink (pid : Nat)
  | removePidFile

/-- What they print, or whether they succeed, where the script asks. -/
abbrev Reply : Op → Type
  | .hasPidFile | .isThere _ => Bool
  | .catPidFile => List Char
  | .readlink _ => String
  | .pidof => List Nat
  | .signal _ _ | .sleep | .removePidFile => Unit

namespace World

/-- The processes `kill` is about: for 0, those of the script's own group. -/
def targets (w : World) (pid : Nat) : List Process :=
  w.kernel.processes.filter fun p => (w.image p.id).mine &&
    if pid = 0 then (w.image p.id).group else decide (pid < 2 ^ 31 ∧ p.pid = pid)

/-- A signal reaches those of them that have not exited. -/
def received (w : World) (pid : Nat) : List Hit :=
  ((w.targets pid).filter fun p => !p.zombie).map fun p => ⟨p.id, (w.image p.id).exe⟩

/-- `$(readlink /proc/<pid>/exe)`: empty for a zombie, for a process of another user and for
none. -/
def link (w : World) (pid : Nat) : String :=
  match w.kernel.find pid with
  | some p => if !p.zombie && (w.image p.id).mine then (w.image p.id).exe else ""
  | none => ""

/-- The process runs the Agent's binary. -/
def IsAgent (w : World) (p : Process) : Prop :=
  p.zombie = false ∧ (w.image p.id).exe = agentRemoteBinary

instance (w : World) (p : Process) : Decidable (w.IsAgent p) := inferInstanceAs (Decidable (_ ∧ _))

/-- The phone after a move of its own. -/
def move (w : World) : Move → Option World
  | .spawn pid ticks image => (w.kernel.spawn pid ticks).map fun k =>
      { w with kernel := k, image := Function.update w.image w.kernel.next image }
  | .exec id image => some { w with image := Function.update w.image id image }
  | .exit id => some { w with kernel := w.kernel.exit id }
  | .reap id => some { w with kernel := w.kernel.reap id }
  | .pidFile content => some { w with pidFile := content }

end World

/-- `$(cat …)`: without the line ends at its end. -/
def substituted (text : List Char) : List Char := (text.reverse.dropWhile (· = '\n')).reverse

/-- `case "$pid" in ''|*[!0-9]*) ;; *) …`: the number `kill` is then given. -/
def numberOf (text : List Char) : Option Nat :=
  if text = [] || !text.all Text.isAsciiDigit then none else some (Text.digits text)

/-- What the pid file says. -/
def World.pidText (w : World) : List Char := substituted (w.pidFile.getD [])

/-- A command of the script.  `pidof` lists the processes called by the Agent's name, and perhaps
others that were there a moment ago. -/
def World.perform (w : World) : (o : Op) → List Nat → Option (Reply o × World)
  | .hasPidFile, _ => some (w.pidFile.isSome, w)
  | .catPidFile, _ => some (w.pidText, { w with taken := numberOf w.pidText })
  | .signal _ pid, _ => some ((), { w with hits := w.hits ++ w.received pid })
  | .isThere pid, _ => some (!(w.targets pid).isEmpty, w)
  | .sleep, _ => some ((), w)
  | .pidof, pids =>
      if ∀ p ∈ w.kernel.processes, p.zombie = false → (w.image p.id).name = agentProcessName →
          p.pid ∈ pids
      then some (pids, w) else none
  | .readlink pid, _ => some (w.link pid,
      { w with taken := if w.link pid = agentRemoteBinary then some pid else none })
  | .removePidFile, _ => some ((), { w with pidFile := none })

def phone : Surroundings Op Reply World (List Nat) Move := ⟨World.perform, World.move⟩

/-! ### The script -/

/-- `kill "$pid" 2>/dev/null || true` and `kill -9 "$pid" 2>/dev/null || true`. -/
def send (signal : Signal) (pid : Nat) : Prog Op Reply Unit :=
  .op (.signal signal pid) .ret

/-- `sleep 0.05`. -/
def sleep : Prog Op Reply Unit := .op .sleep .ret

/-- `rm -f` of the pid file. -/
def removePidFile : Prog Op Reply Unit := .op .removePidFile .ret

/-- `while kill -0 "$pid" && [ "$attempt" -lt 20 ]; do sleep 0.05; …; done; if kill -0 "$pid"; …`,
with so many attempts left: whether the process is gone at the end. -/
def waitGone (pid : Nat) : Nat → Prog Op Reply Unit
  | 0 => do
      let _ ← perform (.isThere pid)
  | rest + 1 => do
      if ← perform (.isThere pid) then
        sleep
        waitGone pid rest

/-- The leg of the pid file. -/
def stopByPidFile : Prog Op Reply Unit := do
  if ← perform .hasPidFile then
    match numberOf (← perform .catPidFile) with
    | none => pure ()
    | some pid =>
        send .term pid
        waitGone pid 20
        if ← perform (.isThere pid) then
          send .kill pid
          sleep

/-- `for p in …; do if [ "$(readlink /proc/$p/exe)" = … ]; then kill "$p"; fi; done`. -/
def signalAgents (signal : Signal) : List Nat → Prog Op Reply Unit
  | [] => pure ()
  | p :: pids => do
      if (← perform (.readlink p)) = agentRemoteBinary then
        send signal p
      signalAgents signal pids

/-- `left=; for p in …; do if [ … ]; then left="$left $p"; fi; done`. -/
def agentsAmong : List Nat → Prog Op Reply (List Nat)
  | [] => pure []
  | p :: pids => do
      let link ← perform (.readlink p)
      let left ← agentsAmong pids
      pure (if link = agentRemoteBinary then p :: left else left)

/-- A loop over `$(pidof …)` that signals. -/
def sweep (signal : Signal) : Prog Op Reply Unit := do
  let pids ← perform .pidof
  signalAgents signal pids

/-- `while true; do left=; …; [ -z "$left" ] && break; [ "$attempt" -ge 20 ] && break; …; done`,
with so many attempts left: whether none was left. -/
def waitNoneLeft : Nat → Prog Op Reply Bool
  | 0 => do
      let left ← agentsAmong (← perform .pidof)
      pure left.isEmpty
  | rest + 1 => do
      let left ← agentsAmong (← perform .pidof)
      if left.isEmpty then
        pure true
      else
        sleep
        waitNoneLeft rest

/-- `stop_agent_script`; the result tells whether it ended within its attempts. -/
def stopAgent : Prog Op Reply Bool := do
  stopByPidFile
  sweep .term
  let noneLeft ← waitNoneLeft 20
  sweep .kill
  sleep
  removePidFile
  pure noneLeft

/-! ### The condition -/

/-- Whatever is signalled by mistake, it is not a process that runs this. -/
def fits (image : Image) : Bool := image.exe = agentRemoteBinary || !image.mine

/-- No other process takes the place of one the script has taken for the Agent. -/
def keepsPlace (w : World) : Move → Bool
  | .spawn pid _ image => w.taken ≠ some pid || fits image
  | .exec id image =>
      fits image || w.kernel.processes.all fun p => p.id ≠ id || w.taken ≠ some p.pid
  | .exit _ | .reap _ | .pidFile _ => true

/-- The pid file, as it is read, names the Agent or no process, nor the script's own group. -/
def pidFileFits (w : World) : Bool :=
  match numberOf w.pidText with
  | some pid => pid ≠ 0 && w.kernel.processes.all fun p =>
      p.pid ≠ pid || p.zombie || fits (w.image p.id)
  | none => true

/-- Whatever runs the Agent's binary goes by its name and is the shell user's. -/
def agentsKnown (w : World) : Bool :=
  w.kernel.processes.all fun p => !decide (w.IsAgent p) ||
    ((w.image p.id).mine && decide ((w.image p.id).name = agentProcessName))

/-- The condition, before a command. -/
def sound (w : World) : Op → Bool
  | .catPidFile => pidFileFits w && agentsKnown w
  | _ => agentsKnown w

/-- The phone, while the condition is met. -/
def calmPhone : Surroundings Op Reply World (List Nat) Move := phone.guard keepsPlace sound

/-- The script begins. -/
def Begins (w : World) : Prop :=
  w.taken = none ∧ w.hits = [] ∧ ∀ p ∈ w.kernel.processes, 0 < p.pid

/-- **Only the Agent has been signalled.** -/
def OnlyTheAgent (w : World) : Prop := ∀ h ∈ w.hits, h.exe = agentRemoteBinary

/-- **No Agent is left.** -/
def NoneLeft (w : World) : Prop := ∀ p ∈ w.kernel.processes, ¬ w.IsAgent p

/-- A new instance of the Agent starts. -/
def Move.startsAgent : Move → Bool
  | .spawn _ _ image | .exec _ image => image.exe = agentRemoteBinary
  | .exit _ | .reap _ | .pidFile _ => false

/-! ### What the script does by its answers -/

/-- A signal goes to the pid last taken for the Agent's: that of the pid file, or one whose link
has just been read. -/
def taking : Discipline Op Reply (Option Nat) where
  allowed
    | s, .signal _ pid => s = some pid
    | _, _ => True
  next
    | _, .catPidFile, text => numberOf text
    | _, .readlink pid, link => if link = agentRemoteBinary then some pid else none
    | s, _, _ => s

/-- The pids that may still be the Agent's: those `pidof` lists, without those whose link says
otherwise. -/
def suspecting : Discipline Op Reply (Set Nat) where
  allowed _ _ := True
  next
    | s, .pidof, pids => {n ∈ s | n ∈ pids}
    | s, .readlink pid, link => if link = agentRemoteBinary then s else {n ∈ s | n ≠ pid}
    | s, _, _ => s

theorem waitGone_taking {pid : Nat} : ∀ rest : Nat,
    Follows taking (fun s _ => s = some pid) (some pid) (waitGone pid rest)
  | 0 => ⟨trivial, fun _ => rfl⟩
  | rest + 1 => by
      refine ⟨trivial, fun there => ?_⟩
      cases there with
      | false => exact rfl
      | true => exact ⟨trivial, fun _ => waitGone_taking rest⟩

theorem stopByPidFile_taking (s : Option Nat) :
    Follows taking (fun _ _ => True) s stopByPidFile := by
  refine follows_perform_bind.mpr ⟨trivial, fun there => ?_⟩
  cases there with
  | false => exact trivial
  | true =>
      refine follows_perform_bind.mpr ⟨trivial, fun text => ?_⟩
      change Follows taking _ (numberOf text) _
      cases numberOf text with
      | none => exact trivial
      | some pid =>
          refine ⟨rfl, fun _ => ?_⟩
          change Follows taking _ (some pid) (waitGone pid 20 >>= fun _ => _)
          refine (waitGone_taking 20).andThen ?_
          rintro s _ rfl
          refine follows_perform_bind.mpr ⟨trivial, fun there => ?_⟩
          cases there with
          | false => exact trivial
          | true => exact ⟨rfl, fun _ => ⟨trivial, fun _ => trivial⟩⟩

theorem signalAgents_taking (signal : Signal) : ∀ (pids : List Nat) (s : Option Nat),
    Follows taking (fun _ _ => True) s (signalAgents signal pids)
  | [], _ => trivial
  | p :: pids, s => by
      refine follows_perform_bind.mpr ⟨trivial, fun link => ?_⟩
      change Follows taking _ (if link = agentRemoteBinary then some p else none) _
      split
      · exact ⟨rfl, fun _ => signalAgents_taking signal pids _⟩
      · exact signalAgents_taking signal pids _

theorem sweep_taking (signal : Signal) (s : Option Nat) :
    Follows taking (fun _ _ => True) s (sweep signal) :=
  ⟨trivial, fun pids => signalAgents_taking signal pids _⟩

theorem agentsAmong_taking : ∀ (pids : List Nat) (s : Option Nat),
    Follows taking (fun _ _ => True) s (agentsAmong pids)
  | [], _ => trivial
  | _ :: pids, _ => follows_perform_bind.mpr ⟨trivial, fun _ =>
      (agentsAmong_taking pids _).andThen fun _ _ _ => trivial⟩

theorem waitNoneLeft_taking : ∀ (rest : Nat) (s : Option Nat),
    Follows taking (fun _ _ => True) s (waitNoneLeft rest)
  | 0, _ => follows_perform_bind.mpr ⟨trivial, fun pids =>
      (agentsAmong_taking pids _).andThen fun _ _ _ => trivial⟩
  | rest + 1, _ => by
      refine follows_perform_bind.mpr ⟨trivial, fun pids =>
        (agentsAmong_taking pids _).andThen fun s left _ => ?_⟩
      split
      · exact trivial
      · exact ⟨trivial, fun _ => waitNoneLeft_taking rest _⟩

/-- Every signal of the script goes to the pid it took last. -/
theorem stopAgent_taking (s : Option Nat) : Follows taking (fun _ _ => True) s stopAgent := by
  refine (stopByPidFile_taking s).andThen fun s _ _ => ?_
  refine (sweep_taking .term s).andThen fun s _ _ => ?_
  refine (waitNoneLeft_taking 20 s).andThen fun s _ _ => ?_
  refine (sweep_taking .kill s).andThen fun s _ _ => ?_
  exact ⟨trivial, fun _ => ⟨trivial, fun _ => trivial⟩⟩

/-- No command makes a pid suspect again. -/
theorem suspecting_shrinks {α : Type} : ∀ (p : Prog Op Reply α) (s : Set Nat),
    Follows suspecting (fun s' _ => s' ⊆ s) s p
  | .ret _, s => Set.Subset.refl s
  | .op o k, s => by
      refine ⟨trivial, fun r => (suspecting_shrinks (k r) _).mono fun s' _ hs =>
        hs.trans ?_⟩
      cases o with
      | pidof => exact Set.sep_subset _ _
      | readlink pid =>
          change (if _ then s else _) ⊆ s
          split
          · exact Set.Subset.refl s
          · exact Set.sep_subset _ _
      | _ => exact Set.Subset.refl s

/-- A scan that finds none clears every pid it was given. -/
theorem agentsAmong_suspecting : ∀ (pids : List Nat) (s : Set Nat),
    Follows suspecting (fun s' left => s' ⊆ s ∧ (left = [] → ∀ n ∈ s', n ∉ pids)) s
      (agentsAmong pids)
  | [], s => ⟨Set.Subset.refl s, fun _ _ _ => List.not_mem_nil⟩
  | p :: pids, s => by
      refine follows_perform_bind.mpr ⟨trivial, fun link =>
        (agentsAmong_suspecting pids _).andThen fun s' left hs => ?_⟩
      change s' ⊆ (if link = agentRemoteBinary then s else {n ∈ s | n ≠ p}) ∧ _ at hs
      by_cases h : link = agentRemoteBinary
      · simp only [h, if_true] at hs ⊢
        exact ⟨hs.1, fun hnil => by cases hnil⟩
      · simp only [h, if_false] at hs ⊢
        refine ⟨hs.1.trans (Set.sep_subset _ _), fun hnil n hn => ?_⟩
        exact fun hmem => (List.mem_cons.mp hmem).elim (hs.1 hn).2 (hs.2 hnil n hn)

/-- So where it finds none of those `pidof` lists, no pid is suspect. -/
theorem scan_suspecting (pids : List Nat) (s : Set Nat) :
    Follows suspecting (fun s' left => left.isEmpty = true → s' = ∅) {n ∈ s | n ∈ pids}
      (agentsAmong pids) := by
  refine (agentsAmong_suspecting pids _).mono fun s' left hs hleft => ?_
  exact Set.eq_empty_of_forall_notMem fun n hn =>
    hs.2 (List.isEmpty_iff.mp hleft) n hn (hs.1 hn).2

theorem waitNoneLeft_suspecting : ∀ (rest : Nat) (s : Set Nat),
    Follows suspecting (fun s' noneLeft => noneLeft = true → s' = ∅) s (waitNoneLeft rest)
  | 0, s => follows_perform_bind.mpr ⟨trivial, fun pids =>
      (scan_suspecting pids s).andThen fun _ _ hs => hs⟩
  | rest + 1, s => by
      refine follows_perform_bind.mpr ⟨trivial, fun pids =>
        (scan_suspecting pids s).andThen fun s' left hs => ?_⟩
      split
      · exact fun _ => hs ‹_›
      · exact ⟨trivial, fun _ => waitNoneLeft_suspecting rest _⟩

/-- Within its attempts the script leaves no pid suspect. -/
theorem stopAgent_suspecting (s : Set Nat) :
    Follows suspecting (fun s' within => within = true → s' = ∅) s stopAgent := by
  refine (suspecting_shrinks stopByPidFile s).andThen fun s _ _ => ?_
  refine (suspecting_shrinks (sweep .term) s).andThen fun s _ _ => ?_
  refine (waitNoneLeft_suspecting 20 s).andThen fun s noneLeft hs => ?_
  refine (suspecting_shrinks (sweep .kill) s).andThen fun s' _ hs' => ?_
  refine ⟨trivial, fun _ => ⟨trivial, fun _ hwithin => ?_⟩⟩
  exact Set.subset_empty_iff.mp (hs hwithin ▸ hs')

/-! ### What the phone makes of it -/

variable {w w' : World}

/-- Where the processes after a move come from. -/
theorem move_mem {e : Move} (h : w.move e = some w') {p' : Process}
    (hp : p' ∈ w'.kernel.processes) :
    (∃ ticks image, e = .spawn p'.pid ticks image ∧ w'.image p'.id = image ∧ 0 < p'.pid) ∨
      ∃ p ∈ w.kernel.processes, p.id = p'.id ∧ p.pid = p'.pid ∧
        (p'.zombie = false → p.zombie = false) ∧
        (w'.image p'.id = w.image p.id ∨
          ∃ image, e = .exec p.id image ∧ w'.image p'.id = image) := by
  cases e with
  | spawn pid ticks image =>
      obtain ⟨k, hk, rfl⟩ := Option.map_eq_some_iff.mp h
      unfold Kernel.spawn at hk
      split at hk
      case isFalse => cases hk
      rename_i hpid
      cases hk
      rcases List.mem_cons.mp hp with rfl | hp
      · exact .inl ⟨ticks, image, rfl, Function.update_self .., hpid.1⟩
      · refine .inr ⟨p', hp, rfl, rfl, id, .inl ?_⟩
        exact Function.update_of_ne (Nat.ne_of_lt (w.kernel.fresh p' hp)) ..
  | exec id image =>
      cases h
      refine .inr ⟨p', hp, rfl, rfl, fun hz => hz, ?_⟩
      by_cases hid : p'.id = id
      · subst hid
        exact .inr ⟨image, rfl, Function.update_self ..⟩
      · exact .inl (Function.update_of_ne hid ..)
  | exit id =>
      cases h
      obtain ⟨p, hmem, rfl⟩ := List.mem_map.mp hp
      exact .inr ⟨p, hmem, rfl, rfl, fun hz => (Bool.or_eq_false_iff.mp hz).1, .inl rfl⟩
  | reap id =>
      cases h
      exact .inr ⟨p', List.mem_of_mem_filter hp, rfl, rfl, fun hz => hz, .inl rfl⟩
  | pidFile content =>
      cases h
      exact .inr ⟨p', hp, rfl, rfl, fun hz => hz, .inl rfl⟩

/-- A move leaves alone what the script remembers. -/
theorem move_taken {e : Move} (h : w.move e = some w') : w'.taken = w.taken ∧ w'.hits = w.hits := by
  cases e with
  | spawn pid ticks image =>
      obtain ⟨k, -, rfl⟩ := Option.map_eq_some_iff.mp h
      exact ⟨rfl, rfl⟩
  | _ =>
      cases h
      exact ⟨rfl, rfl⟩

theorem calm_move {e : Move} (h : calmPhone.move w e = some w') :
    keepsPlace w e = true ∧ w.move e = some w' := by
  change (if keepsPlace w e then w.move e else none) = some w' at h
  split at h
  · exact ⟨‹_›, h⟩
  · cases h

theorem calm_perform {o : Op} {x : List Nat} {r : Reply o}
    (h : calmPhone.perform w o x = some (r, w')) :
    sound w o = true ∧ w.perform o x = some (r, w') := by
  change (if sound w o then w.perform o x else none) = some (r, w') at h
  split at h
  · exact ⟨‹_›, h⟩
  · cases h

theorem sound_known {o : Op} (h : sound w o = true) : agentsKnown w = true := by
  cases o with
  | catPidFile => exact (Bool.and_eq_true_iff.mp h).2
  | _ => exact h

/-- A link that leads to the binary is that of a process of the pid. -/
theorem link_agent {pid : Nat} (h : w.link pid = agentRemoteBinary) :
    ∃ p ∈ w.kernel.processes, p.pid = pid ∧ (w.image p.id).exe = agentRemoteBinary := by
  unfold World.link at h
  split at h
  · rename_i p hp
    obtain ⟨hmem, hpid⟩ := Kernel.find_mem hp
    split at h
    · exact ⟨p, hmem, hpid, h⟩
    · exact absurd h (by decide)
  · exact absurd h (by decide)

/-- The link of an Agent that is known leads to the binary. -/
theorem link_of_agent {p : Process} (hp : p ∈ w.kernel.processes) (ha : w.IsAgent p)
    (hmine : (w.image p.id).mine = true) : w.link p.pid = agentRemoteBinary := by
  simp [World.link, Kernel.find_of_mem hp, ha.1, ha.2, hmine]

theorem known_agent (h : agentsKnown w = true) {p : Process} (hp : p ∈ w.kernel.processes)
    (ha : w.IsAgent p) :
    (w.image p.id).mine = true ∧ (w.image p.id).name = agentProcessName := by
  simpa [ha] using List.all_eq_true.mp h p hp

/-- A signal reaches only processes of its pid that are the shell user's and alive. -/
theorem received_mem {pid : Nat} (hpid : pid ≠ 0) {h : Hit} (hh : h ∈ w.received pid) :
    ∃ p ∈ w.kernel.processes, p.pid = pid ∧ p.zombie = false ∧ (w.image p.id).mine = true ∧
      h.exe = (w.image p.id).exe := by
  obtain ⟨p, hp, rfl⟩ := List.mem_map.mp hh
  obtain ⟨hp, hz⟩ := List.mem_filter.mp hp
  obtain ⟨hp, ht⟩ := List.mem_filter.mp hp
  rw [if_neg hpid] at ht
  obtain ⟨hmine, ht⟩ := Bool.and_eq_true_iff.mp ht
  exact ⟨p, hp, (of_decide_eq_true ht).2, by simpa using hz, hmine, rfl⟩

/-- What the script has taken for the Agent's is not another process of the shell user, and only
the Agent has been signalled. -/
structure Sure (taken : Option Nat) (w : World) : Prop where
  taken : taken = w.taken
  positive : ∀ p ∈ w.kernel.processes, 0 < p.pid
  nonzero : w.taken ≠ some 0
  fits : ∀ p ∈ w.kernel.processes, p.zombie = false → w.taken = some p.pid →
    fits (w.image p.id) = true
  hits : OnlyTheAgent w

theorem Sure.move {s : Option Nat} {e : Move} (hs : Sure s w) (hk : keepsPlace w e = true)
    (h : w.move e = some w') : Sure s w' := by
  obtain ⟨htaken, hhits⟩ := move_taken h
  refine ⟨hs.taken.trans htaken.symm, fun p' hp' => ?_, htaken ▸ hs.nonzero,
    fun p' hp' hz ht => ?_, fun hit hhit => hs.hits hit (hhits ▸ hhit)⟩
  · rcases move_mem h hp' with ⟨-, -, -, -, hpos⟩ | ⟨p, hp, -, hpid, -⟩
    · exact hpos
    · exact hpid ▸ hs.positive p hp
  · rw [htaken] at ht
    rcases move_mem h hp' with ⟨ticks, image, rfl, himage, -⟩ | ⟨p, hp, -, hpid, hz', himage⟩
    · rw [himage]
      simpa [keepsPlace, ht] using hk
    · rcases himage with himage | ⟨image, rfl, himage⟩
      · exact himage ▸ hs.fits p hp (hz' hz) (hpid ▸ ht)
      · rw [himage]
        rcases Bool.or_eq_true_iff.mp hk with hfits | hall
        · exact hfits
        · exact absurd (List.all_eq_true.mp hall p hp) (by simp [ht, hpid])

theorem Sure.perform {s : Option Nat} {o : Op} {x : List Nat} {r : Reply o} (hs : Sure s w)
    (ha : taking.allowed s o) (hsound : sound w o = true) (h : w.perform o x = some (r, w')) :
    Sure (taking.next s o r) w' := by
  cases o with
  | catPidFile =>
      cases h
      have hfile : pidFileFits w = true := (Bool.and_eq_true_iff.mp hsound).1
      unfold pidFileFits at hfile
      refine ⟨rfl, hs.positive, fun hzero => ?_, fun p hp hz ht => ?_, hs.hits⟩
      · rw [show numberOf w.pidText = some 0 from hzero] at hfile
        simp at hfile
      · rw [show numberOf w.pidText = some p.pid from ht] at hfile
        simpa [hz] using List.all_eq_true.mp (Bool.and_eq_true_iff.mp hfile).2 p hp
  | signal signal pid =>
      cases h
      have htaken : w.taken = some pid := hs.taken.symm.trans ha
      refine ⟨hs.taken, hs.positive, hs.nonzero, hs.fits, fun hit hhit => ?_⟩
      rcases List.mem_append.mp hhit with hhit | hhit
      · exact hs.hits hit hhit
      · have hpid : pid ≠ 0 := fun hzero => hs.nonzero (hzero ▸ htaken)
        obtain ⟨p, hp, rfl, hz, hmine, hexe⟩ := received_mem hpid hhit
        simpa [hexe, StopAgent.fits, hmine] using hs.fits p hp hz htaken
  | readlink pid =>
      cases h
      refine ⟨rfl, hs.positive, fun hzero => ?_, fun p hp hz ht => ?_, hs.hits⟩
      · change (if w.link pid = agentRemoteBinary then some pid else none) = some 0 at hzero
        split at hzero
        · rename_i hlink
          cases hzero
          obtain ⟨p, hp, hpid, -⟩ := link_agent hlink
          exact absurd hpid (Nat.ne_of_gt (hs.positive p hp))
        · cases hzero
      · change (if w.link pid = agentRemoteBinary then some pid else none) = some p.pid at ht
        split at ht
        · rename_i hlink
          cases ht
          obtain ⟨q, hq, hpid, hexe⟩ := link_agent hlink
          rw [← Kernel.pid_unique hq hp hpid]
          simp [StopAgent.fits, hexe]
        · cases ht
  | pidof =>
      change (if _ then some (x, w) else none) = some (r, w') at h
      split at h
      · cases h
        exact hs
      · cases h
  | removePidFile =>
      cases h
      exact ⟨hs.taken, hs.positive, hs.nonzero, hs.fits, hs.hits⟩
  | _ =>
      cases h
      exact hs

theorem sure_ties : Ties taking calmPhone (fun _ => True) Sure where
  move _ hs h := hs.move (calm_move h).1 (calm_move h).2
  perform hs ha h := hs.perform ha (calm_perform h).1 (calm_perform h).2

/-- Every Agent has a suspect pid. -/
def Covers (s : Set Nat) (w : World) : Prop :=
  ∀ p ∈ w.kernel.processes, w.IsAgent p → p.pid ∈ s

theorem Covers.move {s : Set Nat} {e : Move} (hs : Covers s w) (hstart : e.startsAgent = false)
    (h : w.move e = some w') : Covers s w' := by
  rintro p' hp' ⟨hz, hexe⟩
  rcases move_mem h hp' with ⟨ticks, image, rfl, himage, -⟩ | ⟨p, hp, -, hpid, hz', himage⟩
  · exact absurd (himage ▸ hexe) (by simpa [Move.startsAgent] using hstart)
  · rcases himage with himage | ⟨image, rfl, himage⟩
    · exact hpid ▸ hs p hp ⟨hz' hz, himage ▸ hexe⟩
    · exact absurd (himage ▸ hexe) (by simpa [Move.startsAgent] using hstart)

theorem Covers.perform {s : Set Nat} {o : Op} {x : List Nat} {r : Reply o} (hs : Covers s w)
    (hsound : sound w o = true) (h : w.perform o x = some (r, w')) :
    Covers (suspecting.next s o r) w' := by
  have hknown := sound_known hsound
  cases o with
  | pidof =>
      change (if _ then some (x, w) else none) = some (r, w') at h
      split at h
      · rename_i hlists
        cases h
        exact fun p hp ha => ⟨hs p hp ha, hlists p hp ha.1 (known_agent hknown hp ha).2⟩
      · cases h
  | readlink pid =>
      cases h
      intro p hp ha
      change p.pid ∈ if w.link pid = agentRemoteBinary then s else {n ∈ s | n ≠ pid}
      split
      · exact hs p hp ha
      · rename_i hlink
        refine ⟨hs p hp ha, fun hpid => hlink ?_⟩
        exact hpid ▸ link_of_agent hp ha (known_agent hknown hp ha).1
  | _ =>
      cases h
      exact hs

theorem covers_ties : Ties suspecting calmPhone (fun e => e.startsAgent = false) Covers where
  move hstart hs h := hs.move hstart (calm_move h).2
  perform hs _ h := hs.perform (calm_perform h).1 (calm_perform h).2

/-- **Stopping the Agent touches only the Agent.**  While the condition is met, no state the
script reaches has had another process signalled; and where the script ends within its attempts
and no new instance started, no Agent is left. -/
theorem stops_only_the_agent (hw : Begins w) (script : List (List Move × List Nat)) :
    (∀ w', calmPhone.during stopAgent w script = some w' → OnlyTheAgent w') ∧
      ∀ w', calmPhone.run stopAgent w script = some (true, w') →
        (∀ l ∈ script, ∀ e ∈ l.1, e.startsAgent = false) → NoneLeft w' := by
  obtain ⟨htaken, hhits, hpos⟩ := hw
  constructor
  · intro w' h
    have hsure : Sure none w := ⟨htaken.symm, hpos, by simp [htaken],
      fun p _ _ ht => by simp [htaken] at ht, fun hit hhit => by simp [hhits] at hhit⟩
    obtain ⟨s', hs'⟩ := sure_ties.during (stopAgent_taking none) (fun _ _ _ _ => trivial) hsure h
    exact hs'.hits
  · intro w' h hstart p hp ha
    obtain ⟨s', hnone, hcovers⟩ := covers_ties.run (stopAgent_suspecting Set.univ) hstart
      (fun _ _ _ => Set.mem_univ _) h
    exact Set.notMem_empty _ (hnone rfl ▸ hcovers p hp ha)

/-- A phone with one process, under the pid the pid file names. -/
def onePhone (image : Image) : World where
  kernel := ⟨[⟨0, 4321, 0, false⟩], 1, by simp, by simp, by simp, by simp⟩
  image _ := image
  pidFile := some "4321\n".toList
  taken := none
  hits := []

theorem onePhone_begins (image : Image) : Begins (onePhone image) :=
  ⟨rfl, rfl, fun p hp => by simp [List.mem_singleton.mp hp]⟩

/-- The Agent exits at the first signal. -/
def promptExit : List (List Move × List Nat) :=
  [([], []), ([], []), ([], []), ([.exit 0, .reap 0], []), ([], []), ([], []), ([], []), ([], []),
    ([], []), ([], [])]

/-- What the Agent runs. -/
def agentImage : Image := ⟨agentRemoteBinary, agentProcessName, true, false⟩

/-- What a shell of the shell user runs. -/
def shellImage : Image := ⟨"/system/bin/sh", "sh", true, false⟩

theorem agent_is_stopped :
    ∃ w', calmPhone.run stopAgent (onePhone agentImage) promptExit = some (true, w') ∧
      w'.hits = [⟨0, agentRemoteBinary⟩] ∧ NoneLeft w' := by
  refine ⟨_, rfl, rfl, ?_⟩
  exact (stops_only_the_agent (onePhone_begins agentImage) promptExit).2 _ rfl (by decide)

/-- **A pid file that outlived the Agent is followed.**  Its number is a shell's by now, and the
shell is signalled. -/
theorem stale_pid_file_is_followed :
    ∃ w', Begins (onePhone shellImage) ∧
      phone.during stopAgent (onePhone shellImage) [([], []), ([], []), ([], [])] = some w' ∧
      w'.hits = [⟨0, "/system/bin/sh"⟩] ∧ ¬ OnlyTheAgent w' := by
  refine ⟨_, onePhone_begins shellImage, rfl, rfl, fun h => ?_⟩
  exact absurd (h _ (List.mem_singleton.mpr rfl)) (by decide)

end RevBox.StopAgent
