import RevBox.Support.Machine

/-!
# Desktop — ProcessService

The loop of `execute` in `services/process_service.rs`, in time: a child writes lines and closes
its pipes, exits, or does nothing at all, someone may cancel, a deadline may pass, and `select!`
takes the first of its four branches that is ready.  What is to happen some time after the
SIGTERM is only looked at when a branch has been taken.

* `Bounded`: the loop ends within the hard cap, a child that outlives the grace period has been
  killed, and no signal goes to a child whose exit has been collected.
* `cancellation_bounded`: so it is in every run in which the loop keeps up with the child and
  something comes from the child at the end of the grace period and of the hard cap.
-/

namespace RevBox.ProcessService

/-- `GRACE_AFTER_TERM`, in milliseconds. -/
def graceAfterTerm : Nat := 2000

/-- `HARD_CAP_AFTER_TERM`, in milliseconds. -/
def hardCapAfterTerm : Nat := 5000

/-- `MAX_LINE_BYTES`. -/
def maxLineBytes : Nat := 8 * 1024

inductive StreamKind where
  | stdout
  | stderr
  | system
  deriving DecidableEq

/-- `Outcome`. -/
inductive Outcome where
  | exited (code : Option Int)
  | cancelled
  | timedOut
  deriving DecidableEq

inductive Signal where
  | term
  | kill
  deriving DecidableEq

/-- A signal, when it was sent, and whether the child's exit had been collected by then. -/
structure Sent where
  signal : Signal
  at_ : Nat
  collected : Bool
  deriving DecidableEq

/-- The longest beginning of at most `max` bytes. -/
def fitting : List Char → Nat → List Char
  | [], _ => []
  | c :: s, max => if c.utf8Size ≤ max then c :: fitting s (max - c.utf8Size) else []

/-- `truncate_bytes`. -/
def truncateBytes (s : List Char) (max : Nat) : List Char :=
  if fitting s max = s then s else fitting s max ++ "…[truncated]".toList

/-- The surroundings and the loop's variables.  `woken` is when the child last did something the
loop can see: wrote a line, closed the last of its pipes, or exited. -/
structure Run where
  now : Nat
  deadline : Option Nat
  cancelled : Option Nat
  channel : List (StreamKind × List Char)
  pumps : Nat
  exited : Option (Option Int)
  woken : Option Nat
  signals : List Sent
  exitCode : Option (Option Int)
  rxOpen : Bool
  terminateSentAt : Option Nat
  forceSent : Bool
  reason : Option Outcome
  sink : List (StreamKind × List Char)
  returned : Option Outcome

/-- The branches of `select!`. -/
inductive Branch where
  | recv
  | wait
  | cancel
  | timeout
  deriving DecidableEq

/-- What happens: time passes, the child does something, someone cancels, or the loop takes a
branch. -/
inductive Label where
  | pass (d : Nat)
  | line (kind : StreamKind) (text : List Char)
  | eof
  | exit (code : Option Int)
  | cancel
  | poll

namespace Run

variable (p : Run)

/-- `cancel.cancelled()` is ready. -/
def Cancelled : Prop := p.cancelled.isSome = true

/-- `timeout_fut` is ready. -/
def Overdue : Prop := p.deadline.any (fun t => decide (t ≤ p.now)) = true

/-- `rx.recv()` is ready: there is a line, or no sender is left. -/
def Receivable : Prop := p.channel ≠ [] ∨ p.pumps = 0

instance : Decidable p.Cancelled := inferInstanceAs (Decidable (_ = true))
instance : Decidable p.Overdue := inferInstanceAs (Decidable (_ = true))
instance : Decidable p.Receivable := inferInstanceAs (Decidable (_ ∨ _))

/-- The first branch that is enabled and ready. -/
def branch : Option Branch :=
  if p.rxOpen = true ∧ p.Receivable then some .recv
  else if p.exitCode.isNone = true ∧ p.exited.isSome = true then some .wait
  else if p.reason.isNone = true ∧ p.Cancelled then some .cancel
  else if p.reason.isNone = true ∧ p.Overdue then some .timeout
  else none

/-- Send the child a signal. -/
def send (signal : Signal) : Run :=
  { p with signals := p.signals ++ [⟨signal, p.now, p.exitCode.isSome⟩] }

/-- The bodies of the last two branches: SIGTERM, unless the exit has been collected. -/
def terminate (reason : Outcome) (text : String) : Run :=
  let p := if p.exitCode.isNone then { p.send .term with terminateSentAt := some p.now } else p
  { p with reason := some reason, sink := p.sink ++ [(.system, text.toList)] }

/-- The body of a branch. -/
def fire : Branch → Run
  | .recv =>
      match p.channel with
      | line :: rest => { p with channel := rest, sink := p.sink ++ [line] }
      | [] => { p with rxOpen := false }
  | .wait => { p with exitCode := p.exited }
  | .cancel => p.terminate .cancelled "任务被取消，正在终止进程…"
  | .timeout => p.terminate .timedOut "任务超时，正在终止进程…"

/-- So many milliseconds have passed since the SIGTERM. -/
def Since (d : Nat) : Prop := p.terminateSentAt.any (fun t => decide (t + d ≤ p.now)) = true

instance (d : Nat) : Decidable (p.Since d) := inferInstanceAs (Decidable (_ = true))

/-- `force_kill_handle` at the end of the grace period. -/
def escalate : Run :=
  if p.forceSent = false ∧ p.exitCode.isNone = true ∧ p.Since graceAfterTerm then
    { p.send .kill with forceSent := true }
  else p

/-- The two ends of the loop. -/
def settle : Run :=
  if (p.exitCode.isSome = true ∧ p.rxOpen = false) ∨ p.Since hardCapAfterTerm then
    { p with returned := some (p.reason.getD (.exited (p.exitCode.bind id))) }
  else p

end Run

def step (p : Run) : Label → Option Run
  | .pass d => some { p with now := p.now + d }
  | .line kind text =>
      if 0 < p.pumps then
        some { p with
          channel := p.channel ++ [(kind, truncateBytes text maxLineBytes)]
          woken := some p.now }
      else none
  | .eof =>
      if 0 < p.pumps then
        some { p with
          pumps := p.pumps - 1
          woken := if p.pumps = 1 then some p.now else p.woken }
      else none
  | .exit code =>
      if p.exited = none then some { p with exited := some code, woken := some p.now } else none
  | .cancel => some { p with cancelled := p.cancelled.or (some p.now) }
  | .poll =>
      if p.returned = none then (p.branch).map fun b => (p.fire b).escalate.settle else none

/-- The child has been started, with a pump on each of its two pipes. -/
def start (timeout : Option Nat) : Run :=
  ⟨0, timeout, none, [], 2, none, none, [], none, true, none, false, none, [], none⟩

def execute : Machine Run Label where
  init p := ∃ timeout, p = start timeout
  step := step

/-- When someone cancelled or the deadline passed, whichever came first. -/
def Run.occurred (p : Run) : Option Nat :=
  match p.cancelled, p.deadline.filter (· ≤ p.now) with
  | some c, some t => some (min c t)
  | some c, none => some c
  | none, t => t

/-- **Cancellation and timeout are bounded.** -/
structure Bounded (p : Run) : Prop where
  ends : ∀ t, p.occurred = some t → t + hardCapAfterTerm < p.now → p.returned.isSome = true
  kills : ∀ s ∈ p.signals, s.signal = .term → p.exited = none →
    s.at_ + graceAfterTerm < p.now → ∃ k ∈ p.signals, k.signal = .kill
  spares : ∀ s ∈ p.signals, s.collected = false

/-- The moment `t` is passed by `d` milliseconds that begin now. -/
def Run.Passes (p : Run) (d t : Nat) : Prop := p.now ≤ t ∧ t < p.now + d

/-- The loop keeps up: no time passes while a branch is ready, and it wakes at the deadline.
When the grace period and the hard cap end, something has just come from the child, unless it
has exited in the one case, and closed its pipes after an early exit in the other. -/
def Attended (p : Run) : Label → Prop
  | .pass d => p.returned = none →
      (0 < d → p.branch = none) ∧
      (p.reason = none → ∀ t, p.deadline = some t → p.now + d ≤ t) ∧
      (∀ t, p.terminateSentAt = some t →
        (p.exited = none → p.Passes d (t + graceAfterTerm) →
          p.woken = some (t + graceAfterTerm)) ∧
        (p.Passes d (t + hardCapAfterTerm) → p.woken = some (t + hardCapAfterTerm))) ∧
      (∀ t, p.occurred = some t → p.reason ≠ none → p.terminateSentAt = none →
        p.Passes d (t + hardCapAfterTerm) → p.pumps = 0)
  | _ => True

/-- What is asked of the moment an option holds, if it holds one, is looked up there. -/
instance decidableAtSome {P : Nat → Prop} [DecidablePred P] :
    ∀ o : Option Nat, Decidable (∀ t, o = some t → P t)
  | none => .isTrue (by simp)
  | some t => decidable_of_iff (P t) (by simp)

instance (p : Run) (d : Nat) (t : Nat) : Decidable (p.Passes d t) :=
  inferInstanceAs (Decidable (_ ∧ _))

instance (p : Run) : ∀ l, Decidable (Attended p l)
  | .pass _ => inferInstanceAs (Decidable (_ → _ ∧ _ ∧ _ ∧ _))
  | .line .. | .eof | .exit _ | .cancel | .poll => .isTrue trivial

/-! ### What a run keeps -/

section Kept

variable {p q : Run}

theorem branch_eq_none_iff : p.branch = none ↔
    ¬ (p.rxOpen = true ∧ p.Receivable) ∧ ¬ (p.exitCode.isNone = true ∧ p.exited.isSome = true) ∧
      ¬ (p.reason.isNone = true ∧ p.Cancelled) ∧ ¬ (p.reason.isNone = true ∧ p.Overdue) := by
  unfold Run.branch
  split
  · simp [*]
  · split
    · simp [*]
    · split
      · simp [*]
      · split
        · simp [*]
        · exact iff_of_true rfl ⟨‹_›, ‹_›, ‹_›, ‹_›⟩

theorem branch_cases {b : Branch} (h : p.branch = some b) :
    (b = .recv ∧ p.rxOpen = true ∧ p.Receivable) ∨
    (b = .wait ∧ p.exitCode = none ∧ p.exited.isSome = true) ∨
    (b = .cancel ∧ p.reason = none ∧ p.Cancelled) ∨
    (b = .timeout ∧ p.reason = none ∧ p.Overdue) := by
  unfold Run.branch at h
  split at h
  · cases h; exact .inl ⟨rfl, ‹_›⟩
  · split at h
    · cases h; exact .inr (.inl ⟨rfl, Option.isNone_iff_eq_none.mp (‹_ ∧ _›).1, (‹_ ∧ _›).2⟩)
    · split at h
      · cases h
        exact .inr (.inr (.inl ⟨rfl, Option.isNone_iff_eq_none.mp (‹_ ∧ _›).1, (‹_ ∧ _›).2⟩))
      · split at h
        · cases h
          exact .inr (.inr (.inr ⟨rfl, Option.isNone_iff_eq_none.mp (‹_ ∧ _›).1, (‹_ ∧ _›).2⟩))
        · cases h

/-- The moment of the cancellation or the deadline, from the two of them. -/
theorem occurred_eq_some_iff {t : Nat} : p.occurred = some t ↔
    (p.cancelled = some t ∧ ∀ u, p.deadline = some u → u ≤ p.now → t ≤ u) ∨
    (p.deadline = some t ∧ t ≤ p.now ∧ ∀ c, p.cancelled = some c → t ≤ c) := by
  unfold Run.occurred
  cases hc : p.cancelled with
  | none =>
      cases hd : p.deadline with
      | none => simp
      | some u => by_cases hu : u ≤ p.now <;> simp [hu]
  | some c =>
      cases hd : p.deadline with
      | none => simp
      | some u =>
          by_cases hu : u ≤ p.now
          · have hmin : some (min c u) = some t ↔ (c = t ∧ t ≤ u) ∨ (u = t ∧ t ≤ c) := by
              rw [Option.some.injEq]
              omega
            have hleft : (u = t ∧ t ≤ p.now ∧ t ≤ c) ↔ u = t ∧ t ≤ c :=
              and_congr_right fun h => and_iff_right (h ▸ hu)
            simpa [Option.filter, hu, hleft] using hmin
          · have hnot : ¬ (u = t ∧ t ≤ p.now ∧ t ≤ c) := fun h => hu (h.1 ▸ h.2.1)
            simp [Option.filter, hu, hnot]

/-- What holds after each branch. -/
structure Core (p : Run) : Prop where
  spared : ∀ s ∈ p.signals, s.collected = false
  term : ∀ s ∈ p.signals, s.signal = .term → p.terminateSentAt = some s.at_
  kill : p.forceSent = true → ∃ k ∈ p.signals, k.signal = .kill
  collected : p.exited = none → p.exitCode = none
  closed : p.rxOpen = false → p.pumps = 0
  past : ∀ c, p.cancelled = some c → c ≤ p.now
  heard : ∀ w, p.woken = some w → w ≤ p.now
  prompt : p.returned = none → p.reason = none → ∀ t, p.occurred = some t → t = p.now
  since : ∀ t, p.terminateSentAt = some t → p.occurred = some t ∧ p.reason ≠ none
  begun : p.reason ≠ none → ∃ t, p.occurred = some t
  early : p.reason ≠ none → p.terminateSentAt = none → p.exitCode ≠ none
  ends : p.returned = none → ∀ t, p.occurred = some t → p.now ≤ t + hardCapAfterTerm

/-- What holds between two branches. -/
structure Kept (p : Run) : Prop extends Core p where
  listening : p.returned = none → p.exitCode ≠ none → p.rxOpen = true
  grace : ∀ t, p.terminateSentAt = some t → p.exited = none → t + graceAfterTerm < p.now →
    p.forceSent = true
  roused : ∀ w t, p.woken = some w → p.terminateSentAt = some t → t + graceAfterTerm ≤ w →
    p.returned = none → p.exitCode = none → p.branch = none → p.forceSent = true
  capped : ∀ w t, p.woken = some w → p.terminateSentAt = some t → t + hardCapAfterTerm ≤ w →
    p.returned = none → p.branch ≠ none
  outlived : p.returned ≠ none → p.exited = none → p.forceSent = true

theorem Kept.bounded (h : Kept p) : Bounded p where
  ends t ht hlate := by
    cases hr : p.returned with
    | some r => rfl
    | none => exact absurd (h.ends hr t ht) (by omega)
  kills s hs hterm halive hlate := h.kill (h.grace s.at_ (h.term s hs hterm) halive hlate)
  spares := h.spared

theorem occurs_of_cancelled (h : p.Cancelled) : ∃ t, p.occurred = some t := by
  obtain ⟨c, hc⟩ := Option.isSome_iff_exists.mp h
  unfold Run.occurred
  rw [hc]
  cases p.deadline.filter (· ≤ p.now) with
  | none => exact ⟨c, rfl⟩
  | some t => exact ⟨min c t, rfl⟩

theorem occurs_of_overdue (h : p.Overdue) : ∃ t, p.occurred = some t := by
  obtain ⟨u, hu, hle⟩ := (Option.any_eq_true _ _).mp h
  have hle : u ≤ p.now := of_decide_eq_true hle
  cases hc : p.cancelled with
  | some c => exact occurs_of_cancelled (show p.cancelled.isSome = true by rw [hc]; rfl)
  | none =>
      exact ⟨u, occurred_eq_some_iff.mpr (.inr ⟨hu, hle, fun c h => by rw [hc] at h; cases h⟩)⟩

/-! ### One branch -/

/-- Signalling and remembering why, at the moment it has occurred. -/
theorem Core.terminate (h : Core p) (hr : p.returned = none) (hn : p.reason = none)
    (ho : ∃ t, p.occurred = some t) (r : Outcome) (text : String) : Core (p.terminate r text) := by
  obtain ⟨t, ht⟩ := ho
  obtain rfl := h.prompt hr hn t ht
  have hnever : p.terminateSentAt = none := by
    cases hs : p.terminateSentAt with
    | none => rfl
    | some u => exact absurd hn (h.since u hs).2
  unfold Run.terminate
  cases he : p.exitCode with
  | none =>
      refine ⟨fun s hs => ?_, fun s hs hterm => ?_, fun hf => ?_, fun _ => he, h.closed, h.past,
        h.heard, nofun, fun u hu => ?_, fun _ => ⟨_, ht⟩, fun _ hn => (by cases hn), h.ends⟩
      · rcases List.mem_append.mp hs with hs | hs
        · exact h.spared s hs
        · rw [List.mem_singleton.mp hs, he]
          rfl
      · rcases List.mem_append.mp hs with hs | hs
        · rw [h.term s hs hterm] at hnever
          cases hnever
        · rw [List.mem_singleton.mp hs]
          rfl
      · obtain ⟨k, hk, hkill⟩ := h.kill hf
        exact ⟨k, List.mem_append_left _ hk, hkill⟩
      · cases hu
        exact ⟨ht, nofun⟩
  | some code =>
      simp only [Option.isNone_some, Bool.false_eq_true, if_false]
      refine ⟨h.spared, h.term, h.kill, fun hx => ?_, h.closed, h.past, h.heard, nofun,
        fun u hu => ?_, fun _ => ⟨_, ht⟩, fun _ _ => ?_, h.ends⟩
      · rw [h.collected hx] at he
        cases he
      · rw [hnever] at hu
        cases hu
      · change p.exitCode ≠ none
        rw [he]
        exact nofun

theorem Core.fire (h : Core p) (hr : p.returned = none) {b : Branch} (hb : p.branch = some b) :
    Core (p.fire b) := by
  rcases branch_cases hb with ⟨rfl, hopen, hrecv⟩ | ⟨rfl, he, hx⟩ | ⟨rfl, hn, hc⟩ | ⟨rfl, hn, ho⟩
  · simp only [Run.fire]
    split
    · exact ⟨h.spared, h.term, h.kill, h.collected, h.closed, h.past, h.heard, h.prompt, h.since,
        h.begun, h.early, h.ends⟩
    · rename_i hnil
      exact ⟨h.spared, h.term, h.kill, h.collected, fun _ => hrecv.resolve_left (absurd hnil),
        h.past, h.heard, h.prompt, h.since, h.begun, h.early, h.ends⟩
  · refine ⟨h.spared, h.term, h.kill, fun hx => hx, h.closed, h.past, h.heard, h.prompt, h.since,
      h.begun, fun _ _ => ?_, h.ends⟩
    change p.exited ≠ none
    exact Option.isSome_iff_ne_none.mp hx
  · exact h.terminate hr hn (occurs_of_cancelled hc) _ _
  · exact h.terminate hr hn (occurs_of_overdue ho) _ _

theorem returned_fire (b : Branch) : (p.fire b).returned = p.returned := by
  cases b with
  | recv => simp only [Run.fire]; split <;> rfl
  | wait => rfl
  | cancel => simp only [Run.fire, Run.terminate]; split <;> rfl
  | timeout => simp only [Run.fire, Run.terminate]; split <;> rfl

theorem since_iff {d : Nat} : p.Since d ↔ ∃ t, p.terminateSentAt = some t ∧ t + d ≤ p.now := by
  simp only [Run.Since, Option.any_eq_true, decide_eq_true_eq]

theorem Core.escalate (h : Core p) : Core p.escalate ∧ p.escalate.returned = p.returned ∧
    ∀ t, p.escalate.terminateSentAt = some t → p.escalate.exitCode = none →
      t + graceAfterTerm ≤ p.escalate.now → p.escalate.forceSent = true := by
  unfold Run.escalate
  split
  · rename_i hcond
    obtain ⟨-, he, -⟩ := hcond
    have he : p.exitCode = none := Option.isNone_iff_eq_none.mp he
    refine ⟨⟨fun s hs => ?_, fun s hs hterm => ?_, fun _ => ⟨_, List.mem_append_right _
      (List.mem_singleton_self _), rfl⟩, h.collected, h.closed, h.past, h.heard, h.prompt, h.since,
      h.begun, h.early, h.ends⟩, rfl, fun _ _ _ _ => rfl⟩
    · rcases List.mem_append.mp hs with hs | hs
      · exact h.spared s hs
      · rw [List.mem_singleton.mp hs, he]
        rfl
    · rcases List.mem_append.mp hs with hs | hs
      · exact h.term s hs hterm
      · rw [List.mem_singleton.mp hs] at hterm
        cases hterm
  · rename_i hcond
    refine ⟨h, rfl, fun t ht he hle => ?_⟩
    by_contra hf
    exact hcond ⟨Bool.eq_false_iff.mpr hf, by rw [he]; rfl, since_iff.mpr ⟨t, ht, hle⟩⟩

/-- **What a branch preserves**, with the looks at the clock that come after it. -/
theorem Kept.poll (h : Kept p) (hr : p.returned = none) {b : Branch} (hb : p.branch = some b) :
    Kept (p.fire b).escalate.settle := by
  obtain ⟨hcore, hret, hforce⟩ := (h.toCore.fire hr hb).escalate
  rw [returned_fire, hr] at hret
  generalize (p.fire b).escalate = q at hcore hret hforce
  have hcap : ∀ t, q.terminateSentAt = some t → t + hardCapAfterTerm ≤ q.now →
      q.Since hardCapAfterTerm := fun t ht hle => since_iff.mpr ⟨t, ht, hle⟩
  unfold Run.settle
  split
  · rename_i hcond
    refine ⟨⟨hcore.spared, hcore.term, hcore.kill, hcore.collected, hcore.closed, hcore.past,
      hcore.heard, nofun, hcore.since, hcore.begun, hcore.early, nofun⟩, nofun,
      fun t ht hx hlt => hforce t ht (hcore.collected hx) (Nat.le_of_lt hlt), nofun, nofun,
      fun _ hx => ?_⟩
    have he := hcore.collected hx
    rcases hcond with ⟨hsome, -⟩ | hsince
    · rw [he] at hsome
      cases hsome
    · obtain ⟨t, ht, hle⟩ := since_iff.mp hsince
      exact hforce t ht he (Nat.le_trans (Nat.add_le_add_left (by decide) t) hle)
  · rename_i hcond
    have hlisten : q.exitCode ≠ none → q.rxOpen = true := fun he => by
      by_contra hclosed
      exact hcond (.inl ⟨Option.isSome_iff_ne_none.mpr he, Bool.eq_false_iff.mpr hclosed⟩)
    exact ⟨hcore, fun _ => hlisten,
      fun t ht hx hlt => hforce t ht (hcore.collected hx) (Nat.le_of_lt hlt),
      fun w t hw ht hle _ he _ => hforce t ht he (Nat.le_trans hle (hcore.heard w hw)),
      fun w t hw ht hle _ _ => hcond (.inr (hcap t ht (Nat.le_trans hle (hcore.heard w hw)))),
      fun hne => absurd hret hne⟩

/-! ### The other moves -/

theorem ready_of_receivable (ho : p.rxOpen = true) (hr : p.Receivable) : p.branch ≠ none :=
  fun h => (branch_eq_none_iff.mp h).1 ⟨ho, hr⟩

/-- The pumps are alive as long as the channel is. -/
theorem Core.open_of_pumps (h : Core p) (hp : 0 < p.pumps) : p.rxOpen = true := by
  by_contra hclosed
  have := h.closed (Bool.eq_false_iff.mpr hclosed)
  omega

theorem Kept.line (h : Kept p) (hp : 0 < p.pumps) (line : StreamKind × List Char) :
    Kept { p with channel := p.channel ++ [line], woken := some p.now } := by
  have hready : Run.branch { p with channel := p.channel ++ [line], woken := some p.now } ≠ none :=
    ready_of_receivable (h.open_of_pumps hp) (.inl (by simp))
  exact ⟨⟨h.spared, h.term, h.kill, h.collected, h.closed, h.past,
      fun w hw => Nat.le_of_eq (Option.some.inj hw).symm, h.prompt, h.since, h.begun, h.early,
      h.ends⟩,
    h.listening, h.grace, fun _ _ _ _ _ _ _ hb => absurd hb hready, fun _ _ _ _ _ _ => hready,
    h.outlived⟩

theorem Kept.eof (h : Kept p) (hp : 0 < p.pumps) :
    Kept { p with
      pumps := p.pumps - 1
      woken := if p.pumps = 1 then some p.now else p.woken } := by
  have hopen := h.open_of_pumps hp
  have hcore : Core { p with
      pumps := p.pumps - 1
      woken := if p.pumps = 1 then some p.now else p.woken } := by
    refine ⟨h.spared, h.term, h.kill, h.collected, fun hc => ?_, h.past, fun w hw => ?_, h.prompt,
      h.since, h.begun, h.early, h.ends⟩
    · rw [hopen] at hc
      cases hc
    · by_cases h1 : p.pumps = 1
      · rw [if_pos h1] at hw
        exact Nat.le_of_eq (Option.some.inj hw).symm
      · rw [if_neg h1] at hw
        exact h.heard w hw
  by_cases h1 : p.pumps = 1
  · have hready : Run.branch { p with
        pumps := p.pumps - 1
        woken := if p.pumps = 1 then some p.now else p.woken } ≠ none :=
      ready_of_receivable hopen (.inr (show p.pumps - 1 = 0 by omega))
    exact ⟨hcore, h.listening, h.grace, fun _ _ _ _ _ _ _ hb => absurd hb hready,
      fun _ _ _ _ _ _ => hready, h.outlived⟩
  · -- one pump less wakes nobody, and makes no branch unready
    have hmono : Run.branch { p with
        pumps := p.pumps - 1
        woken := if p.pumps = 1 then some p.now else p.woken } = none → p.branch = none :=
      fun hb => by
        obtain ⟨h₁, h₂, h₃, h₄⟩ := branch_eq_none_iff.mp hb
        refine branch_eq_none_iff.mpr ⟨fun hr => h₁ ⟨hr.1, hr.2.imp_right fun h0 => ?_⟩, h₂, h₃, h₄⟩
        omega
    rw [if_neg h1] at hmono hcore ⊢
    exact ⟨hcore, h.listening, h.grace,
      fun w t hw ht hle hr he hb => h.roused w t hw ht hle hr he (hmono hb),
      fun w t hw ht hle hr hb => h.capped w t hw ht hle hr (hmono hb), h.outlived⟩

theorem Kept.exit (h : Kept p) (hx : p.exited = none) (code : Option Int) :
    Kept { p with exited := some code, woken := some p.now } := by
  have hready : Run.branch { p with exited := some code, woken := some p.now } ≠ none := fun hb =>
    (branch_eq_none_iff.mp hb).2.1 ⟨by rw [show p.exitCode = none from h.collected hx]; rfl, rfl⟩
  exact ⟨⟨h.spared, h.term, h.kill, nofun, h.closed, h.past,
      fun w hw => Nat.le_of_eq (Option.some.inj hw).symm, h.prompt, h.since, h.begun, h.early,
      h.ends⟩,
    h.listening, nofun, fun _ _ _ _ _ _ _ hb => absurd hb hready, fun _ _ _ _ _ _ => hready, nofun⟩

/-- A moment that has come stays, whatever else comes. -/
theorem occurred_mono {t : Nat} (ht : p.occurred = some t) (hpast : ∀ c, p.cancelled = some c →
    c ≤ p.now) (hd : q.deadline = p.deadline) (hnow : p.now ≤ q.now)
    (hc : q.cancelled = p.cancelled ∨ p.cancelled = none ∧ ∀ c, q.cancelled = some c → p.now ≤ c) :
    q.occurred = some t := by
  rcases occurred_eq_some_iff.mp ht with ⟨hpc, hpd⟩ | ⟨hpd, hle, hpc⟩
  · have hqc : q.cancelled = some t := by
      rcases hc with hc | ⟨hc, -⟩
      · rw [hc, hpc]
      · rw [hc] at hpc
        cases hpc
    refine occurred_eq_some_iff.mpr (.inl ⟨hqc, fun u hu hle => ?_⟩)
    by_cases hu' : u ≤ p.now
    · exact hpd u (hd ▸ hu) hu'
    · have := hpast t hpc
      omega
  · refine occurred_eq_some_iff.mpr (.inr ⟨hd.trans hpd, by omega, fun c hqc => ?_⟩)
    rcases hc with hc | ⟨-, hc⟩
    · exact hpc c (hc ▸ hqc)
    · exact Nat.le_trans hle (hc c hqc)

theorem Kept.cancel (h : Kept p) : Kept { p with cancelled := p.cancelled.or (some p.now) } := by
  cases hc : p.cancelled with
  | some c =>
      have hsame : { p with cancelled := (some c).or (some p.now) } = p := by
        cases p
        cases hc
        rfl
      rw [hsame]
      exact h
  | none =>
      have hocc : ∀ t, p.occurred = some t →
          Run.occurred { p with cancelled := some p.now } = some t := fun t ht =>
        occurred_mono ht h.past rfl (Nat.le_refl _)
          (.inr ⟨hc, fun c hqc => Nat.le_of_eq (Option.some.inj hqc)⟩)
      have hprompt : p.returned = none → p.reason = none → ∀ t,
          Run.occurred { p with cancelled := some p.now } = some t → t = p.now := by
        intro hr hn t ht
        rcases occurred_eq_some_iff.mp ht with ⟨hqc, -⟩ | ⟨hd, hle, -⟩
        · exact (Option.some.inj hqc).symm
        · exact h.prompt hr hn t (occurred_eq_some_iff.mpr
            (.inr ⟨hd, hle, fun c h => by rw [hc] at h; cases h⟩))
      -- a branch that was ready still is
      have hmono : Run.branch { p with cancelled := some p.now } = none → p.branch = none :=
        fun hb => by
          obtain ⟨h₁, h₂, -, h₄⟩ := branch_eq_none_iff.mp hb
          refine branch_eq_none_iff.mpr ⟨h₁, h₂, fun hr => ?_, h₄⟩
          have := hr.2
          rw [Run.Cancelled, hc] at this
          cases this
      refine ⟨⟨h.spared, h.term, h.kill, h.collected, h.closed,
          fun c hqc => Nat.le_of_eq (Option.some.inj hqc).symm, h.heard, hprompt,
          fun t ht => ⟨hocc t (h.since t ht).1, (h.since t ht).2⟩,
          fun hn => (h.begun hn).imp hocc, h.early, fun hr t ht => ?_⟩,
        h.listening, h.grace, fun w t hw ht hle hr he hb => h.roused w t hw ht hle hr he (hmono hb),
        fun w t hw ht hle hr hb => h.capped w t hw ht hle hr (hmono hb), h.outlived⟩
      by_cases hn : p.reason = none
      · have := hprompt hr hn t ht
        change p.now ≤ _
        omega
      · obtain ⟨u, hu⟩ := h.begun hn
        obtain rfl : u = t := Option.some.inj ((hocc u hu).symm.trans ht)
        exact h.ends hr u hu

/-- Time passes: the guard is what keeps the two ends of the wait in sight. -/
theorem Kept.pass (h : Kept p) {d : Nat} (ha : Attended p (.pass d)) :
    Kept { p with now := p.now + d } := by
  rcases Nat.eq_zero_or_pos d with rfl | hd
  · exact h
  have hocc : ∀ t, p.occurred = some t → Run.occurred { p with now := p.now + d } = some t :=
    fun t ht => occurred_mono ht h.past rfl (Nat.le_add_right _ _) (.inl rfl)
  have hidle : p.returned = none → p.branch = none := fun hr => (ha hr).1 hd
  have hprompt : p.returned = none → p.reason = none → ∀ t,
      Run.occurred { p with now := p.now + d } = some t → t = p.now + d := by
    intro hr hn t ht
    rcases occurred_eq_some_iff.mp ht with ⟨hc, -⟩ | ⟨hdead, hle, -⟩
    · have hready := (branch_eq_none_iff.mp (hidle hr)).2.2.1
      exact absurd ⟨by rw [hn]; rfl, show p.cancelled.isSome = true by rw [hc]; rfl⟩ hready
    · exact Nat.le_antisymm hle ((ha hr).2.1 hn t hdead)
  have hends : p.returned = none → ∀ t, Run.occurred { p with now := p.now + d } = some t →
      p.now + d ≤ t + hardCapAfterTerm := by
    intro hr t ht
    by_cases hn : p.reason = none
    · rw [hprompt hr hn t ht]
      exact Nat.le_add_right _ _
    · obtain ⟨u, hu⟩ := h.begun hn
      obtain rfl : u = t := Option.some.inj ((hocc u hu).symm.trans ht)
      by_contra hlate
      have hpass : p.Passes d (u + hardCapAfterTerm) := ⟨h.ends hr u hu, Nat.lt_of_not_le hlate⟩
      cases hs : p.terminateSentAt with
      | some s =>
          obtain rfl : s = u := Option.some.inj ((h.since s hs).1.symm.trans hu)
          have hw := ((ha hr).2.2.1 s hs).2 hpass
          exact h.capped _ s hw hs (Nat.le_refl _) hr (hidle hr)
      | none =>
          have hpumps := (ha hr).2.2.2 u hu hn hs hpass
          exact ready_of_receivable (h.listening hr (h.early hn hs)) (.inr hpumps) (hidle hr)
  have hgrace : ∀ t, p.terminateSentAt = some t → p.exited = none →
      t + graceAfterTerm < p.now + d → p.forceSent = true := by
    intro t ht hx hlt
    by_cases hr : p.returned = none
    · by_cases hpast : t + graceAfterTerm < p.now
      · exact h.grace t ht hx hpast
      · have hw := ((ha hr).2.2.1 t ht).1 hx ⟨Nat.le_of_not_lt hpast, hlt⟩
        exact h.roused _ t hw ht (Nat.le_refl _) hr (h.collected hx) (hidle hr)
    · exact h.outlived hr hx
  exact ⟨⟨h.spared, h.term, h.kill, h.collected, h.closed,
      fun c hc => Nat.le_trans (h.past c hc) (Nat.le_add_right _ _),
      fun w hw => Nat.le_trans (h.heard w hw) (Nat.le_add_right _ _), hprompt,
      fun t ht => ⟨hocc t (h.since t ht).1, (h.since t ht).2⟩, fun hn => (h.begun hn).imp hocc,
      h.early, hends⟩,
    h.listening, hgrace, fun w t hw ht hle hr he _ => h.roused w t hw ht hle hr he (hidle hr),
    fun w t hw ht hle hr => absurd (hidle hr) (h.capped w t hw ht hle hr), h.outlived⟩

/-- **What a step preserves.** -/
theorem Kept.step (h : Kept p) {l : Label} (ha : Attended p l)
    (hs : step p l = some q) : Kept q := by
  cases l with
  | pass d => cases hs; exact h.pass ha
  | cancel => cases hs; exact h.cancel
  | line kind text =>
      simp only [ProcessService.step] at hs
      split at hs
      · cases hs; exact h.line ‹_› _
      · cases hs
  | eof =>
      simp only [ProcessService.step] at hs
      split at hs
      · cases hs; exact h.eof ‹_›
      · cases hs
  | exit code =>
      simp only [ProcessService.step] at hs
      split at hs
      · cases hs; exact h.exit ‹_› code
      · cases hs
  | poll =>
      simp only [ProcessService.step] at hs
      split at hs
      · obtain ⟨b, hb, rfl⟩ := Option.map_eq_some_iff.mp hs
        exact h.poll ‹_› hb
      · cases hs

theorem kept_start (timeout : Option Nat) : Kept (start timeout) := by
  have hocc : ∀ t, (start timeout).occurred = some t → t = 0 := fun t ht => by
    rcases occurred_eq_some_iff.mp ht with ⟨hc, -⟩ | ⟨-, hle, -⟩
    · cases hc
    · exact Nat.le_zero.mp hle
  exact ⟨⟨nofun, nofun, nofun, fun _ => rfl, nofun, nofun, nofun, fun _ _ => hocc, nofun,
      fun h => absurd rfl h, fun h => absurd rfl h, fun _ _ _ => Nat.zero_le _⟩,
    fun _ h => absurd rfl h, nofun, nofun, nofun, fun h => absurd rfl h⟩

end Kept

/-- **Cancellation and timeout are bounded** in every run in which the loop keeps up and the
child makes itself heard when the grace period and the hard cap end. -/
theorem cancellation_bounded {p₀ p : Run} {ls : List Label} (h₀ : execute.init p₀)
    (hr : execute.Run Attended p₀ ls p) : Bounded p := by
  obtain ⟨timeout, rfl⟩ := h₀
  have hstep : ∀ s l t, Kept s → Attended s l → execute.step s l = some t → Kept t :=
    fun s l t h ha hs => h.step ha hs
  exact (hr.invariant hstep (kept_start timeout)).bounded

/-- A child that prints at the end of the grace period is killed then, and its exit ends the
loop at the hard cap. -/
theorem killed_bounded : ∃ p, execute.Run Attended (start none)
    [.cancel, .poll, .pass 2000, .line .stdout ['a'], .poll, .pass 3000, .exit none, .poll,
      .pass 1] p ∧ Bounded p ∧ p.returned = some .cancelled := by
  obtain ⟨p, hr, hp⟩ : ∃ p, execute.Run Attended (start none)
      [.cancel, .poll, .pass 2000, .line .stdout ['a'], .poll, .pass 3000, .exit none, .poll,
        .pass 1] p ∧ decide (p.returned = some .cancelled) = true :=
    Machine.run_of_exec_any (by decide) (by decide)
  exact ⟨p, hr, cancellation_bounded ⟨none, rfl⟩ hr, of_decide_eq_true hp⟩

/-- A silent child that ignores the SIGTERM keeps the loop waiting past the hard cap. -/
theorem silent_child_waits : ¬ ∀ p, execute.Reach p → Bounded p := by
  intro hall
  have hexec : (execute.exec (start none) [.cancel, .poll, .pass 5001]).any (fun p =>
      decide (p.occurred = some 0 ∧ 5000 < p.now ∧ p.returned.isSome = false)) = true := by
    rfl
  obtain ⟨p, hr, hp⟩ := Machine.run_of_exec_any Machine.guarded_any hexec
  obtain ⟨ho, hnow, hret⟩ := of_decide_eq_true hp
  have := (hall p ⟨start none, _, ⟨none, rfl⟩, hr⟩).ends 0 ho (by rw [Nat.zero_add]; exact hnow)
  rw [hret] at this
  cases this

end RevBox.ProcessService
