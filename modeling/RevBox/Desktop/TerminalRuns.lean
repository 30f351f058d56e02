import RevBox.Desktop.TerminalStore

/-!
# Desktop — TerminalRuns

What holds of the terminals of a page between two steps, in every order of what the user does and
of what answers.

* `Truthful`: what a tab says of its process is so.
* `Kept`: the table, the entries that calls still refer to, and the terminals of the system.
* `Sane`, `sane_step`: both, with a page that is shown the table as it is, are kept by every step.
-/

namespace RevBox.Terminal

open Leases (Event)

variable {s s₁ s' : Store} {e : Nat} {en en' : Entry} {f g : Entry → Entry}

/-! ### The entries -/

@[simp] theorem entries_modify : (s.modify e f).entries = s.entries := rfl
@[simp] theorem disposed_modify : (s.modify e f).disposed = s.disposed := rfl
@[simp] theorem maxSessions_modify : (s.modify e f).maxSessions = s.maxSessions := rfl
@[simp] theorem idPrefix_modify : (s.modify e f).idPrefix = s.idPrefix := rfl
@[simp] theorem seq_modify : (s.modify e f).seq = s.seq := rfl
@[simp] theorem opens_modify : (s.modify e f).opens = s.opens := rfl
@[simp] theorem trace_modify : (s.modify e f).trace = s.trace := rfl
@[simp] theorem shown_modify : (s.modify e f).shown = s.shown := rfl

theorem heap_modify_self : (s.modify e f).heap e = (s.heap e).map f := Function.update_self ..

theorem heap_modify_ne {e' : Nat} (h : e' ≠ e) : (s.modify e f).heap e' = s.heap e' :=
  Function.update_of_ne h ..

theorem modify_modify : (s.modify e f).modify e g = s.modify e (g ∘ f) := by
  simp only [Store.modify, Function.update_self, Function.update_idem, Option.map_map]

/-- What an entry is after a change of one of them. -/
theorem heap_modify_cases {e' : Nat} (h : (s.modify e f).heap e' = some en') :
    e' = e ∧ (∃ en, s.heap e = some en ∧ f en = en') ∨ e' ≠ e ∧ s.heap e' = some en' := by
  by_cases he : e' = e
  · subst he
    rw [heap_modify_self] at h
    exact .inl ⟨rfl, Option.map_eq_some_iff.mp h⟩
  · rw [heap_modify_ne he] at h
    exact .inr ⟨he, h⟩

/-- A change that leaves the tab as it is leaves the tabs as they are. -/
theorem tabs_modify (h : ∀ en, (f en).tab = en.tab) : (s.modify e f).tabs = s.tabs := by
  unfold Store.tabs
  refine List.filterMap_congr fun e' _ => ?_
  by_cases he : e' = e
  · subst he
    rw [heap_modify_self, Option.map_map]
    exact congrArg (fun k => (s.heap e').map k) (funext h)
  · rw [heap_modify_ne he]

/-! ### What a tab says is so -/

/-- `start` is past the answer of `transport.open`. -/
def Begin.Answered : Begin → Prop
  | .listening _ _ | .returned | .finished => True
  | _ => False

/-- `start` has returned. -/
def Begin.Returned (b : Begin) : Prop := b = .returned ∨ b = .finished

theorem Begin.Returned.answered {b : Begin} (h : b.Returned) : b.Answered := by
  rcases h with rfl | rfl <;> trivial

/-- What holds of an entry also while a report of its session is on its way to the tab. -/
structure Nearly (en : Entry) : Prop where
  held : en.session.id.isSome = true → en.begun.Answered
  closing : 0 < en.closing → en.session.id = none ∧ en.begun.Answered
  started : en.session.everStarted = true → en.begun.Returned
  running : en.session.machineState.running = true → en.session.everStarted = true
  /-- of a process that has been started and runs no more nothing is held -/
  past : en.session.everStarted = true → en.session.machineState.running = false →
    en.session.id = none
  shown_started : en.tab.status = .running → en.session.everStarted = true
  shown_over : en.tab.status = .exited ∨ en.tab.status = .stopped →
    en.session.everStarted = true ∧ en.session.machineState.running = false
  /-- `stopped` is said of what the user has stopped -/
  shown_stopped : en.tab.status = .stopped → en.stopRequested = true ∧ en.tab.exitCode = none
  /-- the name of a signal is not told by anyone -/
  signal : en.session.signal = none ∧ en.tab.exitSignal = none

/-- What a tab says is so. -/
structure Truthful (en : Entry) : Prop extends Nearly en where
  shown_running : en.tab.status = .running → en.session.machineState.running = true

/-- What of an entry decides whether its tab says what is so. -/
def Entry.telling (en : Entry) :=
  (en.session.id, en.begun, en.closing, en.session.everStarted, en.session.machineState.running,
    en.tab.status, en.stopRequested, en.tab.exitCode, en.session.signal, en.tab.exitSignal)

theorem Truthful.of_telling (h : Truthful en) (heq : en'.telling = en.telling) : Truthful en' := by
  simp only [Entry.telling, Prod.mk.injEq] at heq
  obtain ⟨h₁, h₂, h₃, h₄, h₅, h₆, h₇, h₈, h₉, h₁₀⟩ := heq
  constructor
  · constructor <;> simp only [h₁, h₂, h₃, h₄, h₅, h₆, h₇, h₈, h₉, h₁₀]
    exacts [h.held, h.closing, h.started, h.running, h.past, h.shown_started, h.shown_over,
      h.shown_stopped, h.signal]
  · simp only [h₅, h₆]
    exact h.shown_running

/-- A report that has come is the truth. -/
theorem Nearly.sync (h : Nearly en) : Truthful (syncFromSession en) := by
  unfold syncFromSession
  dsimp only
  by_cases hrun : en.session.machineState.running = true
  · rw [if_pos hrun]
    exact ⟨⟨h.held, h.closing, h.started, h.running, h.past, fun _ => h.running hrun, nofun, nofun,
      h.signal⟩, fun _ => hrun⟩
  rw [if_neg hrun]
  by_cases hever : en.session.everStarted = true
  swap
  · -- no process has been started: nothing is said of it
    rw [if_pos hever]
    exact ⟨⟨h.held, h.closing, h.started, h.running, h.past, h.shown_started, h.shown_over,
      h.shown_stopped, h.signal⟩, fun hs => absurd (h.shown_started hs) hever⟩
  rw [if_neg (not_not.mpr hever)]
  have hover : en.session.everStarted = true ∧ en.session.machineState.running = false :=
    ⟨hever, eq_false_of_ne_true hrun⟩
  by_cases hstatus : en.synced.status ≠ .running ∧ en.synced.status ≠ .starting
  · rw [if_pos hstatus]
    exact ⟨⟨h.held, h.closing, h.started, h.running, h.past, h.shown_started, h.shown_over,
      h.shown_stopped, h.signal⟩, fun hs => absurd hs hstatus.1⟩
  rw [if_neg hstatus]
  by_cases hcode : en.session.machineState.exitCode.isSome = true
  · rw [if_pos hcode]
    exact ⟨⟨h.held, h.closing, h.started, h.running, h.past, nofun, fun _ => hover, nofun,
      h.signal.1, h.signal.1⟩, nofun⟩
  · rw [if_neg hcode]
    have hnone : en.session.machineState.exitCode = none := by simpa using hcode
    refine ⟨⟨h.held, h.closing, h.started, h.running, h.past, ?_, fun _ => hover, ?_,
      h.signal.1, h.signal.1⟩, ?_⟩
    all_goals dsimp only
    · intro hs
      split at hs <;> cases hs
    · intro hs
      by_cases hstop : en.stopRequested = true
      · exact ⟨hstop, hnone⟩
      · rw [if_neg hstop] at hs
        cases hs
    · intro hs
      split at hs <;> cases hs

/-! ### Steps that touch what is shown only -/

/-- What decides of an entry what it may do. -/
structure Core where
  id : Option String
  disposed : Bool
  beginning : Bool
  begun : Begin
  name : String
  index : Nat
  program : Text
  args : List Text

/-- The core of an entry. -/
def Entry.core (en : Entry) : Core :=
  ⟨en.session.id, en.session.disposed, en.beginning, en.begun, en.tab.id, en.tab.index,
    en.tab.program, en.tab.args⟩

/-- The page is shown the table as it is. -/
def Store.Shows (s : Store) : Prop := s.shown = s.tabs

/-- What every tab says is so. -/
def Store.Truthful (s : Store) : Prop := ∀ e en, s.heap e = some en → Terminal.Truthful en

/-- What a tab holds. -/
def Store.held (s : Store) (e : Nat) : Option String := (s.heap e).bind fun en => en.session.id

theorem held_eq_cores : s.held e = ((s.heap e).map Entry.core).bind Core.id := by
  unfold Store.held
  cases s.heap e <;> rfl

/-- The tabs hold the terminals that have been opened until they have ended. -/
def Store.Sound (s : Store) : Prop := Leases.Sound s.held s.trace

/-- A step that leaves the table and the cores of the entries as they are, lets the terminals of
the system be used only, by the tabs that hold them, and shows what it does to the tabs. -/
structure Quiet (s s' : Store) : Prop where
  entries : s'.entries = s.entries
  disposed : s'.disposed = s.disposed
  maxSessions : s'.maxSessions = s.maxSessions
  idPrefix : s'.idPrefix = s.idPrefix
  seq : s'.seq = s.seq
  opens : s'.opens = s.opens
  trace : ∀ a, (∀ p w, a ≠ .used p w) → (a ∈ s'.trace ↔ a ∈ s.trace)
  cores : ∀ e, (s'.heap e).map Entry.core = (s.heap e).map Entry.core
  sound : s.Sound → s'.Sound
  shows : s.Shows → s'.Shows
  truthful : s.Truthful → s'.Truthful

namespace Quiet

theorem refl (s : Store) : Quiet s s :=
  ⟨rfl, rfl, rfl, rfl, rfl, rfl, fun _ _ => Iff.rfl, fun _ => rfl, id, id, id⟩

theorem trans (h : Quiet s s₁) (h' : Quiet s₁ s') : Quiet s s' where
  entries := h'.entries.trans h.entries
  disposed := h'.disposed.trans h.disposed
  maxSessions := h'.maxSessions.trans h.maxSessions
  idPrefix := h'.idPrefix.trans h.idPrefix
  seq := h'.seq.trans h.seq
  opens := h'.opens.trans h.opens
  trace a ha := (h'.trace a ha).trans (h.trace a ha)
  cores e := (h'.cores e).trans (h.cores e)
  sound hs := h'.sound (h.sound hs)
  shows hs := h'.shows (h.shows hs)
  truthful hs := h'.truthful (h.truthful hs)

/-- An entry has the core it had. -/
theorem entry (h : Quiet s s') (he : s'.heap e = some en') :
    ∃ en, s.heap e = some en ∧ en'.core = en.core := by
  have hcore := h.cores e
  rw [he, Option.map_some] at hcore
  obtain ⟨en, hen, heq⟩ := Option.map_eq_some_iff.mp hcore.symm
  exact ⟨en, hen, heq.symm⟩

theorem entry' (h : Quiet s s') (he : s.heap e = some en) :
    ∃ en', s'.heap e = some en' ∧ en'.core = en.core := by
  have hcore := h.cores e
  rw [he, Option.map_some] at hcore
  exact Option.map_eq_some_iff.mp hcore

end Quiet

theorem cores_modify (hf : ∀ en, (f en).core = en.core) (e' : Nat) :
    ((s.modify e f).heap e').map Entry.core = (s.heap e').map Entry.core := by
  by_cases he : e' = e
  · subst he
    rw [heap_modify_self, Option.map_map]
    exact congrArg (fun k => (s.heap e').map k) (funext hf)
  · rw [heap_modify_ne he]

theorem held_modify_core (hf : ∀ en, (f en).core = en.core) : (s.modify e f).held = s.held := by
  funext e'
  rw [held_eq_cores, held_eq_cores, cores_modify hf]

theorem sound_modify (hf : ∀ en, (f en).core = en.core) : (s.modify e f).Sound ↔ s.Sound := by
  unfold Store.Sound
  rw [held_modify_core hf, trace_modify]

theorem truthful_modify (hf : ∀ en, Truthful en → Truthful (f en)) (hs : s.Truthful) :
    (s.modify e f).Truthful := by
  intro e' en' he
  rcases heap_modify_cases he with ⟨rfl, en, hen, rfl⟩ | ⟨-, hen⟩
  · exact hf en (hs _ en hen)
  · exact hs _ _ hen

/-- A change of an entry that the tab does not show. -/
theorem quiet_modify (hcore : ∀ en, (f en).core = en.core) (htab : ∀ en, (f en).tab = en.tab)
    (htrue : ∀ en, Truthful en → Truthful (f en)) : Quiet s (s.modify e f) where
  entries := rfl
  disposed := rfl
  maxSessions := rfl
  idPrefix := rfl
  seq := rfl
  opens := rfl
  trace _ _ := Iff.rfl
  cores := cores_modify hcore
  sound hs := (sound_modify hcore).mpr hs
  shows hs := hs.trans (tabs_modify htab).symm
  truthful := truthful_modify htrue

/-- A change of an entry of which the page is told. -/
theorem quiet_told_of (hcore : ∀ en, (f en).core = en.core)
    (htrue : ∀ en, s.heap e = some en → Truthful en → Truthful (f en)) :
    Quiet s (s.modify e f).onChange where
  entries := rfl
  disposed := rfl
  maxSessions := rfl
  idPrefix := rfl
  seq := rfl
  opens := rfl
  trace _ _ := Iff.rfl
  cores := cores_modify hcore
  sound hs := (sound_modify hcore).mpr hs
  shows _ := rfl
  truthful hs := by
    intro e' en' he
    rcases heap_modify_cases he with ⟨rfl, en, hen, rfl⟩ | ⟨-, hen⟩
    · exact htrue en hen (hs _ en hen)
    · exact hs _ _ hen

theorem quiet_told (hcore : ∀ en, (f en).core = en.core)
    (htrue : ∀ en, Truthful en → Truthful (f en)) : Quiet s (s.modify e f).onChange :=
  quiet_told_of hcore fun en _ h => htrue en h

theorem core_syncFromSession (en : Entry) : (syncFromSession en).core = en.core := by
  unfold syncFromSession
  dsimp only
  split_ifs <;> rfl

theorem Truthful.fail (m : Text) (h : Truthful en) : Truthful (en.fail m) where
  toNearly := ⟨h.held, h.closing, h.started, h.running, h.past, nofun, nofun, nofun, h.signal⟩
  shown_running := nofun

theorem Truthful.note (m : Text) (h : Truthful en) : Truthful (en.note m) :=
  h.of_telling rfl

theorem Truthful.resized (cols rows : Nat) (h : Truthful en) : Truthful (en.resized cols rows) :=
  h.of_telling rfl

/-- A patch of the size. -/
theorem Nearly.patch_size (cols rows : Nat) (h : Nearly en) :
    Nearly (en.patch { cols := some cols, rows := some rows }) := by
  have hever : (en.session.everStarted || (none : Option Bool) == some true) =
      en.session.everStarted := Bool.or_false _
  refine ⟨h.held, h.closing, ?_, ?_, ?_, ?_, ?_, h.shown_stopped, h.signal⟩
  all_goals simp only [Entry.patch, hever, Option.getD_none]
  · exact h.started
  · exact h.running
  · exact h.past
  · exact h.shown_started
  · exact h.shown_over

/-- A patch that says that the process has started, of which nothing had been said. -/
theorem Nearly.patch_running (cols rows : Nat) (h : Nearly en) (hb : en.begun.Returned)
    (hever : en.session.everStarted = false) : Nearly
      (en.patch ⟨some true, some none, some cols, some rows⟩) := by
  have hnever : ∀ {P : Prop}, en.session.everStarted = true → P := by
    intro P ht
    rw [hever] at ht
    cases ht
  refine ⟨h.held, h.closing, fun _ => hb, ?_, ?_, ?_, ?_, h.shown_stopped, h.signal⟩
  all_goals simp only [Entry.patch, hever, Option.getD_some, beq_self_eq_true, Bool.or_true]
  · exact fun _ => trivial
  · exact fun _ ht => absurd ht nofun
  · exact fun _ => trivial
  · exact fun hs => hnever (h.shown_over hs).1

/-- A patch that says that the process is no more, of which nothing is held. -/
theorem Nearly.patch_over (code : Option Int) (h : Nearly en) (hid : en.session.id = none) :
    Nearly (en.patch { running := some false, exitCode := some code }) := by
  have hever : (en.session.everStarted || some false == some true) = en.session.everStarted :=
    Bool.or_false _
  refine ⟨h.held, h.closing, ?_, ?_, ?_, ?_, ?_, h.shown_stopped, h.signal⟩
  all_goals simp only [Entry.patch, hever, Option.getD_some]
  · exact h.started
  · exact nofun
  · exact fun _ _ => hid
  · exact h.shown_started
  · exact fun hs => ⟨(h.shown_over hs).1, trivial⟩

/-- An `update` is a change of which the page is told. -/
theorem update_eq (p : Patch) : update s e p = (s.modify e (syncFromSession ∘ Entry.patch p)).onChange := by
  rw [update, onSessionState, modify_modify]

theorem quiet_onSessionError (m : Text) : Quiet s (onSessionError s e m) :=
  quiet_told (fun _ => rfl) fun _ h => h.fail m

theorem quiet_note (m : Text) : Quiet s (note s e m) :=
  quiet_modify (fun _ => rfl) (fun _ => rfl) fun _ h => h.note m

theorem quiet_reportFailure (m : Text) : Quiet s (reportFailure s e m) :=
  (quiet_note m).trans (quiet_onSessionError m)

theorem quiet_sync : Quiet s (s.modify e syncFromSession).onChange :=
  quiet_told core_syncFromSession fun _ h => h.toNearly.sync

/-- A terminal is used by the tab that holds it. -/
theorem quiet_use {p : String} (w : Use) (hheld : s.held e = some p) :
    Quiet s (s.happens (.used p w)) where
  entries := rfl
  disposed := rfl
  maxSessions := rfl
  idPrefix := rfl
  seq := rfl
  opens := rfl
  trace a ha := by
    refine ⟨fun hm => ?_, List.mem_append_left _⟩
    rcases List.mem_append.mp hm with hm | hm
    · exact hm
    · exact absurd (List.mem_singleton.mp hm) (ha p w)
  cores _ := rfl
  sound hs := hs.use hheld w
  shows := id
  truthful := id

/-- A count of calls that are under way. -/
theorem quiet_count (f : Entry → Entry) (hf : ∀ en, ∃ r w k, f en =
    { en with resizing := r, writing := w, stopping := k }) : Quiet s (s.modify e f) := by
  refine quiet_modify ?_ ?_ ?_ <;> intro en <;> obtain ⟨r, w, k, h⟩ := hf en <;> rw [h]
  · rfl
  · exact fun ht => ht.of_telling rfl

theorem quiet_fit (x : Screen) : Quiet s (fit s e x).1 := by
  unfold fit
  split
  · exact .refl s
  rename_i en hen
  split
  · exact .refl s
  · exact .refl s
  rename_i cols rows _
  split
  · exact .refl s
  split
  · exact .refl s
  have hup : Quiet s (update (s.modify e (Entry.resized cols rows)) e
      { cols := some cols, rows := some rows }) := by
    have hre : Quiet s (s.modify e (Entry.resized cols rows)) :=
      quiet_modify (fun _ => rfl) (fun _ => rfl) fun _ h => h.resized cols rows
    refine hre.trans ?_
    rw [update_eq]
    exact quiet_told (fun en => (core_syncFromSession _).trans rfl)
      fun _ h => (h.toNearly.patch_size cols rows).sync
  dsimp only
  split
  · exact hup
  · rename_i p hp
    refine hup.trans ((quiet_use (e := e) (.resize cols rows) ?_).trans (quiet_count _ fun en => ?_))
    · rw [held_eq_cores, hup.cores e, ← held_eq_cores, Store.held, hen]
      exact hp
    · exact ⟨en.resizing + 1, en.writing, en.stopping, rfl⟩

theorem quiet_fitSafely (x : Screen) : Quiet s (fitSafely s e x) := by
  have hfit : Quiet s (fit s e x).1 := quiet_fit x
  unfold fitSafely
  generalize fit s e x = r at hfit
  rcases r with ⟨s₁, m | b⟩
  · exact hfit.trans (quiet_reportFailure _)
  · exact hfit

theorem quiet_mountSession (host : Nat) (opens : Option Text) (x : Screen) :
    Quiet s (mountSession s e host opens x).1 := by
  have hfit : Quiet s (fit s e x).1 := quiet_fit x
  unfold mountSession
  split
  · exact .refl s
  split
  · generalize fit s e x = r at hfit
    rcases r with ⟨s₁, m | b⟩ <;> exact hfit
  split
  · exact .refl s
  · have hmod : Quiet s (s.modify e fun en =>
        { en with session := { en.session with hostElement := some host } }) :=
      quiet_modify (fun _ => rfl) (fun _ => rfl) fun _ h => h.of_telling rfl
    rcases opens with _ | m
    · exact hmod.trans (quiet_fitSafely x)
    · exact hmod.trans (quiet_reportFailure _)

/-! ### What every step keeps -/

/-- What holds of the entries, in the table and out of it, and of the terminals of the system. -/
structure Kept (s : Store) : Prop where
  present : ∀ e, (s.heap e).isSome = true ↔ 1 ≤ e ∧ e ≤ s.seq
  listed : s.entries.Pairwise (· < ·)
  among : ∀ e ∈ s.entries, (s.heap e).isSome = true
  bounded : s.entries.length ≤ s.maxSessions
  final : s.disposed = true → s.entries = []
  named : ∀ e en, s.heap e = some en →
    en.tab.index = e ∧ en.tab.id = s.idPrefix ++ "-" ++ Nat.repr e
  unbegun : ∀ e en, s.heap e = some en → en.beginning = false → en.begun = .idle
  asked : s.opens.Pairwise fun a b => a.entry ≠ b.entry
  asked_begun : ∀ o ∈ s.opens, ∃ en, s.heap o.entry = some en ∧ en.begun ≠ .idle
  answered : ∀ e p, .taken e p ∈ s.trace → ∃ en, s.heap e = some en ∧ en.begun.Answered
  sound : s.Sound
  truthful : s.Truthful

/-- The sessions of the table are those that are not disposed of. -/
def Store.Live (s : Store) : Prop :=
  ∀ e en, s.heap e = some en → (en.session.disposed = false ↔ e ∈ s.entries)

/-- What a quiet step leaves of an entry. -/
theorem Quiet.isSome (h : Quiet s s') (e : Nat) : (s'.heap e).isSome = (s.heap e).isSome := by
  have hcore := congrArg Option.isSome (h.cores e)
  rwa [Option.isSome_map, Option.isSome_map] at hcore

theorem Quiet.kept (h : Quiet s s') (hs : Kept s) : Kept s' where
  present e := by rw [h.isSome, h.seq]; exact hs.present e
  listed := by rw [h.entries]; exact hs.listed
  among e he := by
    rw [h.isSome]
    exact hs.among e (h.entries ▸ he)
  bounded := by rw [h.entries, h.maxSessions]; exact hs.bounded
  final hd := by
    rw [h.entries]
    exact hs.final (h.disposed ▸ hd)
  named e en' he := by
    obtain ⟨en, hen, hcore⟩ := h.entry he
    have hname : en'.tab.id = en.tab.id := congrArg Core.name hcore
    have hindex : en'.tab.index = en.tab.index := congrArg Core.index hcore
    rw [hname, hindex, h.idPrefix]
    exact hs.named e en hen
  unbegun e en' he hb := by
    obtain ⟨en, hen, hcore⟩ := h.entry he
    have hbegun : en'.begun = en.begun := congrArg Core.begun hcore
    have hbeginning : en'.beginning = en.beginning := congrArg Core.beginning hcore
    rw [hbegun]
    exact hs.unbegun e en hen (hbeginning ▸ hb)
  asked := by rw [h.opens]; exact hs.asked
  asked_begun o ho := by
    obtain ⟨en, hen, hb⟩ := hs.asked_begun o (h.opens ▸ ho)
    obtain ⟨en', hen', hcore⟩ := h.entry' hen
    have hbegun : en'.begun = en.begun := congrArg Core.begun hcore
    exact ⟨en', hen', hbegun ▸ hb⟩
  answered e p hp := by
    obtain ⟨en, hen, hb⟩ := hs.answered e p ((h.trace _ fun _ _ ht => (by cases ht)).mp hp)
    obtain ⟨en', hen', hcore⟩ := h.entry' hen
    have hbegun : en'.begun = en.begun := congrArg Core.begun hcore
    exact ⟨en', hen', hbegun ▸ hb⟩
  sound := h.sound hs.sound
  truthful := h.truthful hs.truthful

theorem Quiet.live (h : Quiet s s') (hs : s.Live) : s'.Live := by
  intro e en' he
  obtain ⟨en, hen, hcore⟩ := h.entry he
  have hdisposed : en'.session.disposed = en.session.disposed := congrArg Core.disposed hcore
  rw [hdisposed, h.entries]
  exact hs e en hen

/-- A change of one entry, and of what has happened to the terminals: what is to be shown of it. -/
theorem Kept.change (h : Kept s) (hen : s.heap e = some en)
    {trace : List (Event Nat String Use)}
    (hname : (f en).tab.id = en.tab.id) (hindex : (f en).tab.index = en.tab.index)
    (hunbegun : (f en).beginning = false → (f en).begun = .idle)
    (hbegun : en.begun ≠ .idle → (f en).begun ≠ .idle)
    (hans : en.begun.Answered → (f en).begun.Answered)
    (htaken : ∀ e' p, .taken e' p ∈ trace → .taken e' p ∈ s.trace ∨ e' = e ∧ (f en).begun.Answered)
    (hsound : Leases.Sound (Function.update s.held e (f en).session.id) trace)
    (htrue : Truthful (f en)) : Kept { s.modify e f with trace := trace } := by
  have hself : (s.modify e f).heap e = some (f en) := by rw [heap_modify_self, hen]; rfl
  have hcases : ∀ {e' en'}, (s.modify e f).heap e' = some en' →
      e' = e ∧ en' = f en ∨ e' ≠ e ∧ s.heap e' = some en' := by
    intro e' en' he
    rcases heap_modify_cases he with ⟨rfl, en₁, hen₁, rfl⟩ | hne
    · rw [hen] at hen₁
      cases hen₁
      exact .inl ⟨rfl, rfl⟩
    · exact .inr hne
  have hsome : ∀ e', ((s.modify e f).heap e').isSome = (s.heap e').isSome := by
    intro e'
    by_cases he : e' = e
    · subst he
      rw [heap_modify_self, Option.isSome_map]
    · rw [heap_modify_ne he]
  refine ⟨fun e' => ?_, h.listed, fun e' he => ?_, h.bounded, h.final, fun e' en' he => ?_,
    fun e' en' he hb => ?_, h.asked, fun o ho => ?_, fun e' p hp => ?_, ?_, fun e' en' he => ?_⟩
  · exact (hsome e').symm ▸ h.present e'
  · exact (hsome e').trans (h.among e' he)
  · rcases hcases he with ⟨rfl, rfl⟩ | ⟨-, hen'⟩
    · rw [hname, hindex]
      exact h.named e' en hen
    · exact h.named e' en' hen'
  · rcases hcases he with ⟨rfl, rfl⟩ | ⟨-, hen'⟩
    · exact hunbegun hb
    · exact h.unbegun e' en' hen' hb
  · obtain ⟨en₁, hen₁, hb⟩ := h.asked_begun o ho
    by_cases hoe : o.entry = e
    · rw [hoe, hen] at hen₁
      cases hen₁
      exact ⟨f en, hoe ▸ hself, hbegun hb⟩
    · exact ⟨en₁, (heap_modify_ne hoe).trans hen₁, hb⟩
  · rcases htaken e' p hp with hp | ⟨rfl, hb⟩
    · obtain ⟨en₁, hen₁, hb⟩ := h.answered e' p hp
      by_cases hee : e' = e
      · rw [hee, hen] at hen₁
        cases hen₁
        exact ⟨f en, hee ▸ hself, hans hb⟩
      · exact ⟨en₁, (heap_modify_ne hee).trans hen₁, hb⟩
    · exact ⟨f en, hself, hb⟩
  · have hheld : Store.held { s.modify e f with trace := trace } =
        Function.update s.held e (f en).session.id := by
      funext e'
      by_cases hee : e' = e
      · subst hee
        rw [Function.update_self]
        exact congrArg (fun o => o.bind fun en => en.session.id) hself
      · rw [Function.update_of_ne hee]
        exact congrArg (fun o => o.bind fun en => en.session.id) (heap_modify_ne hee)
    change Leases.Sound _ trace
    rw [hheld]
    exact hsound
  · rcases hcases he with ⟨-, rfl⟩ | ⟨-, hen'⟩
    · exact htrue
    · exact h.truthful e' en' hen'

theorem live_modify (hf : ∀ en, (f en).session.disposed = en.session.disposed) (h : s.Live) :
    (s.modify e f).Live := by
  intro e' en' he
  rcases heap_modify_cases he with ⟨rfl, en, hen, rfl⟩ | ⟨-, hen⟩
  · rw [hf]
    exact h _ _ hen
  · exact h _ _ hen

/-- What holds of the terminals of a page between two steps. -/
structure Sane (s : Store) : Prop where
  kept : Kept s
  live : s.Live
  shows : s.Shows

theorem Quiet.sane (h : Quiet s s') (hs : Sane s) : Sane s' :=
  ⟨h.kept hs.kept, h.live hs.live, h.shows hs.shows⟩

/-- A change of one entry that its tab does not show. -/
theorem Sane.change (h : Sane s) (hen : s.heap e = some en) {trace : List (Event Nat String Use)}
    (htab : ∀ en, (f en).tab = en.tab)
    (hdisposed : ∀ en, (f en).session.disposed = en.session.disposed)
    (hunbegun : (f en).beginning = false → (f en).begun = .idle)
    (hbegun : en.begun ≠ .idle → (f en).begun ≠ .idle)
    (hans : en.begun.Answered → (f en).begun.Answered)
    (htaken : ∀ e' p, .taken e' p ∈ trace → .taken e' p ∈ s.trace ∨ e' = e ∧ (f en).begun.Answered)
    (hsound : Leases.Sound (Function.update s.held e (f en).session.id) trace)
    (htrue : Truthful (f en)) : Sane { s.modify e f with trace := trace } :=
  ⟨h.kept.change hen (by rw [htab]) (by rw [htab]) hunbegun hbegun hans htaken hsound htrue,
    live_modify hdisposed h.live, h.shows.trans (tabs_modify htab).symm⟩

/-- An entry that goes on holding what it holds. -/
theorem Store.Sound.update_held (h : s.Sound) (hen : s.heap e = some en) {id : Option String}
    (hid : id = en.session.id) : Leases.Sound (Function.update s.held e id) s.trace := by
  have hself : s.held e = id := by rw [Store.held, hen, hid]; rfl
  rw [← hself, Function.update_eq_self]
  exact h

/-- How far `begin` is, is none of the tab's. -/
theorem Truthful.comesTo (h : Truthful en) {b : Begin} (hans : en.begun.Answered → b.Answered)
    (hret : en.begun.Returned → b.Returned) : Truthful { en with begun := b } where
  toNearly := ⟨fun hid => hans (h.held hid), fun hc => ⟨(h.closing hc).1, hans (h.closing hc).2⟩,
    fun hs => hret (h.started hs), h.running, h.past, h.shown_started, h.shown_over,
    h.shown_stopped, h.signal⟩
  shown_running := h.shown_running

/-- `begin` goes on. -/
theorem sane_comesTo (h : Sane s) (hen : s.heap e = some en) {b : Begin}
    (hbeginning : en.beginning = true) (hb : b ≠ .idle)
    (hans : en.begun.Answered → b.Answered) (hret : en.begun.Returned → b.Returned) :
    Sane (s.comesTo e b) :=
  h.change hen (f := fun en => { en with begun := b }) (fun _ => rfl) (fun _ => rfl)
    (fun hno => absurd (hbeginning.symm.trans hno) nofun) (fun _ => hb) hans
    (fun _ _ ht => .inl ht) (h.kept.sound.update_held hen rfl)
    ((h.kept.truthful e en hen).comesTo hans hret)

/-- Where `begin` is past its head, it has begun. -/
theorem Sane.beginning (h : Sane s) (hen : s.heap e = some en) (hb : en.begun ≠ .idle) :
    en.beginning = true := by
  by_contra hno
  exact hb (h.kept.unbegun e en hen (eq_false_of_ne_true hno))

/-- An open is asked for, by an entry that has asked for none. -/
theorem sane_ask (h : Sane s) {c : OpenCall} (hno : ∀ o ∈ s.opens, o.entry ≠ c.entry)
    (hb : ∃ en, s.heap c.entry = some en ∧ en.begun ≠ .idle) :
    Sane { s with opens := s.opens ++ [c] } where
  kept := { h.kept with
    asked := by
      refine List.pairwise_append.mpr ⟨h.kept.asked, List.pairwise_singleton _ _, ?_⟩
      intro o ho c' hc'
      rw [List.mem_singleton.mp hc']
      exact hno o ho
    asked_begun := by
      intro o ho
      rcases List.mem_append.mp ho with ho | ho
      · exact h.kept.asked_begun o ho
      · rw [List.mem_singleton.mp ho]
        exact hb
    sound := h.kept.sound
    truthful := h.kept.truthful }
  live := h.live
  shows := h.shows

/-- The terminal takes the size, and the system is asked. -/
theorem sane_asking (h : Sane s) {s₁ : Store} (hq : Quiet s s₁) (hen : s.heap e = some en)
    (hbeginning : en.beginning = true) (hidle : en.begun = .idle) (cols rows : Nat) :
    Sane (Store.comesTo { s₁.modify e fun en =>
        { en with session := { en.session with termCols := cols, termRows := rows } } with
      opens := s₁.opens ++ [⟨e, en.tab.program, en.args, en.cwd, cols, rows⟩] } e .opening) := by
  set f : Entry → Entry := fun en =>
    { en with session := { en.session with termCols := cols, termRows := rows } } with hf
  have hq' : Quiet s (s₁.modify e f) :=
    hq.trans (quiet_modify (fun _ => rfl) (fun _ => rfl) fun _ h => h.of_telling rfl)
  obtain ⟨en', hen', hcore⟩ := hq'.entry' hen
  have hb' : en'.begun = .idle := (congrArg Core.begun hcore).trans hidle
  have hopening : Sane ((s₁.modify e f).comesTo e .opening) := by
    refine sane_comesTo (hq'.sane h) hen' ((congrArg Core.beginning hcore).trans hbeginning)
      (by simp) ?_ ?_ <;> rw [hb']
    · intro hans
      cases hans
    · rintro (hret | hret) <;> cases hret
  refine sane_ask (c := ⟨e, en.tab.program, en.args, en.cwd, cols, rows⟩) hopening ?_ ?_
  · intro o ho hoe
    obtain ⟨en₁, hen₁, hne⟩ := (hq'.sane h).kept.asked_begun o ho
    rw [hoe, hen'] at hen₁
    cases hen₁
    exact hne hb'
  · exact ⟨{ en' with begun := .opening },
      by rw [Store.comesTo, heap_modify_self, hen']; rfl, by simp⟩

/-- The terminal does not take it. -/
theorem sane_unsized (h : Sane s) {s₁ : Store} (hq : Quiet s s₁) (hen : s.heap e = some en)
    (hbeginning : en.beginning = true) (hidle : en.begun = .idle) (m : Text) :
    Sane ((reportFailure s₁ e m).comesTo e .returned) := by
  have hq' : Quiet s (reportFailure s₁ e m) := hq.trans (quiet_reportFailure _)
  obtain ⟨en', hen', hcore⟩ := hq'.entry' hen
  have hb' : en'.begun = .idle := (congrArg Core.begun hcore).trans hidle
  refine sane_comesTo (hq'.sane h) hen' ((congrArg Core.beginning hcore).trans hbeginning)
    (by simp) ?_ ?_ <;> rw [hb']
  · intro hans
    cases hans
  · rintro (hret | hret) <;> cases hret

theorem sane_start (h : Sane s) (hen : s.heap e = some en) (hbeginning : en.beginning = true)
    (hidle : en.begun = .idle) (x : Screen) : Sane (start s e x) := by
  have hid : en.session.id.isSome = false := by
    by_contra hsome
    have hans := (h.kept.truthful e en hen).held (eq_true_of_ne_false hsome)
    rw [hidle] at hans
    exact hans
  unfold start
  rw [hen]
  dsimp only
  rw [hid, if_neg Bool.false_ne_true]
  have hnoted (m m' : Text) : Quiet s (reportFailure (note s e m) e m') :=
    (quiet_note _).trans (quiet_reportFailure _)
  rcases x.measure with ⟨cols, rows⟩ | _ | m <;> rcases x.resize with _ | m'
  · exact sane_asking h (quiet_note _) hen hbeginning hidle cols rows
  · exact sane_unsized h (quiet_note _) hen hbeginning hidle _
  · exact sane_asking h (quiet_note _) hen hbeginning hidle _ _
  · exact sane_unsized h (quiet_note _) hen hbeginning hidle _
  · exact sane_asking h (hnoted _ _) hen hbeginning hidle _ _
  · exact sane_unsized h (hnoted _ _) hen hbeginning hidle _

theorem sane_begin (h : Sane s) (x y : Screen) : Sane (begin s e x y) := by
  unfold begin
  split
  · exact h
  rename_i en hen
  split_ifs with hskip
  · exact h
  have hno : en.beginning = false := eq_false_of_ne_true fun ht => hskip (.inl ht)
  have hidle : en.begun = .idle := h.kept.unbegun e en hen hno
  set f : Entry → Entry := fun en => { en with beginning := true } with hf
  have hs₁ : Sane (s.modify e f) :=
    h.change hen (fun _ => rfl) (fun _ => rfl) nofun id id (fun _ _ ht => .inl ht)
      (h.kept.sound.update_held hen rfl)
      ((h.kept.truthful e en hen).of_telling rfl)
  have hen₁ : (s.modify e f).heap e = some (f en) := by rw [heap_modify_self, hen]; rfl
  have hfit : Quiet (s.modify e f) (fit (s.modify e f) e x).1 := quiet_fit x
  dsimp only
  generalize fit (s.modify e f) e x = r at hfit ⊢
  obtain ⟨en₂, hen₂, hcore⟩ := hfit.entry' hen₁
  have hbeginning : en₂.beginning = true := congrArg Core.beginning hcore
  have hb : en₂.begun = .idle := (congrArg Core.begun hcore).trans hidle
  rcases r with ⟨s₂, m | b⟩
  · refine sane_comesTo (hfit.sane hs₁) hen₂ hbeginning nofun ?_ ?_ <;> rw [hb]
    · exact nofun
    · rintro (hret | hret) <;> cases hret
  · exact sane_start (hfit.sane hs₁) hen₂ hbeginning hb y

theorem sane_mount (h : Sane s) (id : String) (host : Option Nat) (opens : Option Text)
    (x y z : Screen) : Sane (mount s id host opens x y z) := by
  unfold mount
  split
  · rename_i e host _
    have hmount : Quiet s (mountSession s e host opens x).1 := quiet_mountSession host opens x
    generalize mountSession s e host opens x = r at hmount ⊢
    rcases r with ⟨s₁, _ | m⟩ <;> dsimp only
    · split_ifs
      · exact sane_begin (hmount.sane h) y z
      · exact hmount.sane h
    · have hs₁ := (hmount.trans (quiet_onSessionError (e := e) ("挂载终端时异常：".toList ++ m))).sane h
      split_ifs
      · exact sane_begin hs₁ y z
      · exact hs₁
  · exact h

theorem sane_opened (h : Sane s) (hen : s.heap e = some en) (hb : en.begun = .opening)
    {r : Except Text (String × Nat × Nat)} (hnew : New s.trace r = true) : Sane (opened s e r) := by
  have hbeginning : en.beginning = true := h.beginning hen (by rw [hb]; nofun)
  rcases r with m | ⟨p, cols, rows⟩
  · have hq : Quiet s (reportFailure s e ("起会话失败：".toList ++ m)) := quiet_reportFailure _
    obtain ⟨en', hen', hcore⟩ := hq.entry' hen
    have hb' : en'.begun = .opening := (congrArg Core.begun hcore).trans hb
    refine sane_comesTo (hq.sane h) hen' ((congrArg Core.beginning hcore).trans hbeginning)
      nofun ?_ ?_ <;> rw [hb']
    · exact nofun
    · rintro (hret | hret) <;> cases hret
  · have ht := h.kept.truthful e en hen
    have hnans : ¬ en.begun.Answered := by rw [hb]; exact id
    have hnever : en.session.everStarted = false := by
      by_contra hever
      exact hnans (ht.started (eq_true_of_ne_false hever)).answered
    have hid : s.held e = none := by
      rw [Store.held, hen]
      by_contra hsome
      exact hnans (ht.held (Option.isSome_iff_ne_none.mpr hsome))
    have hfresh : ∀ a ∈ s.trace, a.handle ≠ p := fun a ha => by
      simpa using List.all_eq_true.mp hnew a ha
    refine h.change hen (f := fun en => { en with
        begun := .listening cols rows
        session := { en.session with id := some p, lastCols := cols, lastRows := rows } })
      (fun _ => rfl) (fun _ => rfl) (fun hno => absurd (hbeginning.symm.trans hno) nofun)
      (fun _ => nofun) (fun _ => trivial) ?_ (h.kept.sound.take hid hfresh) ?_
    · intro e' q hq
      rcases List.mem_append.mp hq with hq | hq
      · exact .inl hq
      · cases List.mem_singleton.mp hq
        exact .inr ⟨rfl, trivial⟩
    · refine ⟨⟨fun _ => trivial, fun hc => absurd (ht.closing hc).2 hnans, fun hs => ?_,
        ht.running, fun hs => ?_, ht.shown_started, ht.shown_over, ht.shown_stopped, ht.signal⟩,
        ht.shown_running⟩
      · exact absurd (hnever.symm.trans hs) nofun
      · exact absurd (hnever.symm.trans hs) nofun

theorem sane_subscribed (h : Sane s) (hen : s.heap e = some en) {cols rows : Nat}
    (hb : en.begun = .listening cols rows) (r : Except Text Unit) :
    Sane (subscribed s e cols rows r) := by
  have hbeginning : en.beginning = true := h.beginning hen (by rw [hb]; nofun)
  have hret : ¬ en.begun.Returned := by rw [hb]; rintro (hret | hret) <;> cases hret
  rcases r with m | ⟨⟩
  · have hq : Quiet s (reportFailure s e ("起会话失败：".toList ++ m)) := quiet_reportFailure _
    obtain ⟨en', hen', hcore⟩ := hq.entry' hen
    exact sane_comesTo (hq.sane h) hen' ((congrArg Core.beginning hcore).trans hbeginning)
      nofun (fun _ => trivial) fun _ => .inl rfl
  · have ht := h.kept.truthful e en hen
    have hnever : en.session.everStarted = false := by
      by_contra hever
      exact hret (ht.started (eq_true_of_ne_false hever))
    set f : Entry → Entry := fun en =>
      { en with begun := .returned, session := { en.session with detachExit := true } } with hf
    have htrue : Truthful (f en) :=
      ⟨⟨fun _ => trivial, fun hc => ⟨(ht.closing hc).1, trivial⟩, fun _ => .inl rfl, ht.running,
        ht.past, ht.shown_started, ht.shown_over, ht.shown_stopped, ht.signal⟩, ht.shown_running⟩
    have hs₁ : Sane (s.modify e f) :=
      h.change hen (fun _ => rfl) (fun _ => rfl)
        (fun hno => absurd (hbeginning.symm.trans hno) nofun) (fun _ => nofun) (fun _ => trivial)
        (fun _ _ ht => .inl ht) (h.kept.sound.update_held hen rfl) htrue
    refine Quiet.sane ?_ hs₁
    rw [subscribed, update_eq]
    refine quiet_told_of (fun en => (core_syncFromSession _).trans rfl) fun en' hen' ht' => ?_
    rw [heap_modify_self, hen] at hen'
    cases hen'
    exact (ht'.toNearly.patch_running cols rows (.inl rfl) hnever).sync

theorem sane_begun (h : Sane s) (hen : s.heap e = some en) (hb : en.begun = .returned) :
    Sane (begun s e) := by
  have hs₁ : Sane (s.comesTo e .finished) :=
    sane_comesTo h hen (h.beginning hen (by rw [hb]; nofun)) nofun (fun _ => trivial)
      fun _ => .inr rfl
  unfold begun
  dsimp only
  split_ifs
  · exact quiet_sync.sane hs₁
  · exact hs₁

theorem sane_caught (h : Sane s) (hen : s.heap e = some en) {m : Text}
    (hb : en.begun = .threw m) : Sane (caught s e m) :=
  (quiet_onSessionError _).sane <|
    sane_comesTo h hen (h.beginning hen (by rw [hb]; nofun)) nofun (fun _ => trivial)
      fun _ => .inr rfl

/-- An entry lets go of what it holds. -/
theorem sane_release (h : Sane s) (hen : s.heap e = some en) {p : String}
    (hid : en.session.id = some p) {a : Event Nat String Use} (ha : a.Ends p)
    (htab : ∀ en, (f en).tab = en.tab)
    (hdisposed : ∀ en, (f en).session.disposed = en.session.disposed)
    (hbeginning : (f en).beginning = en.beginning) (hbegun : (f en).begun = en.begun)
    (hnone : (f en).session.id = none) (htrue : Truthful (f en)) :
    Sane ((s.modify e f).happens a) := by
  have hheld : s.held e = some p := by rw [Store.held, hen]; exact hid
  refine h.change hen htab hdisposed ?_ ?_ ?_ ?_ ?_ htrue
  · rw [hbeginning, hbegun]
    exact h.kept.unbegun e en hen
  · rw [hbegun]
    exact id
  · rw [hbegun]
    exact id
  · intro e' q hq
    rcases List.mem_append.mp hq with hq | hq
    · exact .inl hq
    · rw [← List.mem_singleton.mp hq] at ha
      rcases ha with ha | ha <;> cases ha
  · rw [hnone]
    exact Leases.Sound.finish h.kept.sound hheld ha

theorem sane_exited (h : Sane s) (p : String) (code : Option Int) : Sane (exited s e p code) := by
  unfold exited
  split_ifs with hheld
  · obtain ⟨en, hen, hid⟩ := (Option.any_eq_true _ _).mp hheld
    have hid : en.session.id = some p := of_decide_eq_true hid
    have ht := h.kept.truthful e en hen
    set f : Entry → Entry := fun en => { en with session := { en.session with id := none } } with hf
    have hs₁ : Sane ((s.modify e f).happens (.gone p)) :=
      sane_release h hen hid (.inr rfl) (fun _ => rfl) (fun _ => rfl) rfl rfl rfl
        ⟨⟨nofun, fun hc => ⟨rfl, (ht.closing hc).2⟩, ht.started, ht.running, fun _ _ => rfl,
          ht.shown_started, ht.shown_over, ht.shown_stopped, ht.signal⟩, ht.shown_running⟩
    refine Quiet.sane ?_ hs₁
    rw [update_eq]
    refine quiet_told_of (fun en => (core_syncFromSession _).trans rfl) fun en' hen' ht' => ?_
    have hen₁ : (s.modify e f).heap e = some en' := hen'
    rw [heap_modify_self, hen] at hen₁
    cases hen₁
    exact (ht'.toNearly.patch_over code rfl).sync
  · exact h

/-- The close has been answered: the session is over. -/
theorem quiet_over {s₁ : Store} (hq : Quiet s s₁) (ht : s.Truthful) (hen : s.heap e = some en)
    (hc : 0 < en.closing) :
    Quiet s (update s₁ e { running := some false, exitCode := some none }) := by
  refine hq.trans ?_
  rw [update_eq]
  refine quiet_told_of (fun en => (core_syncFromSession _).trans rfl) fun en' hen' ht' => ?_
  obtain ⟨en₁, hen₁, hcore⟩ := hq.entry hen'
  rw [hen] at hen₁
  cases hen₁
  have hid : en'.session.id = none :=
    (congrArg Core.id hcore).trans ((ht e en hen).closing hc).1
  exact (ht'.toNearly.patch_over none hid).sync

/-- A stop that goes on says that the process is no more. -/
theorem quiet_closed (ht : s.Truthful) (hen : s.heap e = some en) (hc : 0 < en.closing)
    (r : Except Text Unit) : Quiet s (closed s e r) := by
  have hcount : Quiet s (s.modify e fun en =>
      { en with closing := en.closing - 1, stopping := en.stopping + 1 }) :=
    quiet_modify (fun _ => rfl) (fun _ => rfl) fun en h =>
      ⟨⟨h.held, fun hc => h.closing (Nat.lt_of_lt_of_le hc (Nat.sub_le _ _)), h.started, h.running,
        h.past, h.shown_started, h.shown_over, h.shown_stopped, h.signal⟩, h.shown_running⟩
  rcases r with m | ⟨⟩
  · exact quiet_over (hcount.trans (quiet_onSessionError _)) ht hen hc
  · exact quiet_over hcount ht hen hc

theorem quiet_stopped : Quiet s (stopped s e) :=
  (quiet_count _ fun en => ⟨en.resizing, en.writing, en.stopping - 1, rfl⟩).trans quiet_sync

theorem quiet_sized (r : Except Text Unit) : Quiet s (sized s e r) := by
  have hcount : Quiet s (s.modify e fun en => { en with resizing := en.resizing - 1 }) :=
    quiet_count _ fun en => ⟨en.resizing - 1, en.writing, en.stopping, rfl⟩
  rcases r with m | ⟨⟩
  · exact hcount.trans (quiet_onSessionError _)
  · exact hcount

theorem quiet_wrote (r : Except Text Unit) : Quiet s (wrote s e r) := by
  have hcount : Quiet s (s.modify e fun en => { en with writing := en.writing - 1 }) :=
    quiet_count _ fun en => ⟨en.resizing, en.writing - 1, en.stopping, rfl⟩
  rcases r with m | ⟨⟩
  · exact hcount.trans (quiet_reportFailure _)
  · exact hcount

theorem quiet_feed (bytes : List UInt8) : Quiet s (feed s e bytes) :=
  quiet_modify (fun _ => rfl) (fun _ => rfl) fun _ h => h.of_telling rfl

theorem quiet_writeText (data : Text) : Quiet s (writeText s e data) := by
  unfold writeText
  split
  · exact .refl s
  · rename_i p hp
    exact (quiet_use (.write data) hp).trans
      (quiet_count _ fun en => ⟨en.resizing, en.writing + 1, en.stopping, rfl⟩)

theorem quiet_fitTab (id : String) (x : Screen) : Quiet s (fitTab s id x) := by
  unfold fitTab
  split
  · exact .refl s
  · split_ifs
    · exact quiet_fit x
    · exact .refl s

theorem quiet_rename (id : String) (title : Text) : Quiet s (rename s id title) := by
  unfold rename
  split
  · exact .refl s
  · dsimp only
    split_ifs
    · exact .refl s
    · exact quiet_told (fun _ => rfl) fun _ h => h.of_telling rfl

/-- A stop that the user asks for is remembered. -/
theorem Truthful.stopRequested (h : Truthful en) (k : Nat) :
    Truthful { en with stopRequested := true, stopping := k } where
  toNearly := ⟨h.held, h.closing, h.started, h.running, h.past, h.shown_started, h.shown_over,
    fun hs => ⟨rfl, (h.shown_stopped hs).2⟩, h.signal⟩
  shown_running := h.shown_running

theorem sane_stop (h : Sane s) (id : String) : Sane (stop s id) := by
  unfold stop
  split
  · exact h
  split
  · exact h
  rename_i en hen
  split
  · exact (quiet_modify (f := fun en =>
      { en with stopRequested := true, stopping := en.stopping + 1 }) (fun _ => rfl) (fun _ => rfl)
      fun en h => h.stopRequested (en.stopping + 1)).sane h
  · rename_i p hp
    have ht := h.kept.truthful _ en hen
    have hans : en.begun.Answered := ht.held (by rw [hp]; rfl)
    exact sane_release h hen hp (.inl rfl) (fun _ => rfl) (fun _ => rfl) rfl rfl rfl
      ⟨⟨nofun, fun _ => ⟨rfl, hans⟩, ht.started, ht.running, fun _ _ => rfl, ht.shown_started,
        ht.shown_over, fun hs => ⟨rfl, (ht.shown_stopped hs).2⟩, ht.signal⟩, ht.shown_running⟩

theorem sane_create (h : Sane s) (input : CreateTabInput) (renderer : Renderer) :
    Sane (create s input renderer).1 := by
  unfold create
  split_ifs with hd hfull
  · exact h
  · exact h
  dsimp only
  split_ifs
  · exact h
  set en := newEntry s input renderer (Text.jsTrim input.program) with hen
  -- the number is a new one
  have hnew : s.heap (s.seq + 1) = none := by
    by_contra hsome
    have := ((h.kept.present _).mp (Option.isSome_iff_ne_none.mpr hsome)).2
    omega
  have hcases : ∀ {e' en'}, Function.update s.heap (s.seq + 1) (some en) e' = some en' →
      e' = s.seq + 1 ∧ en' = en ∨ e' ≠ s.seq + 1 ∧ s.heap e' = some en' := by
    intro e' en' he
    by_cases hee : e' = s.seq + 1
    · subst hee
      rw [Function.update_self] at he
      exact .inl ⟨rfl, (Option.some.inj he).symm⟩
    · rw [Function.update_of_ne hee] at he
      exact .inr ⟨hee, he⟩
  have hold : ∀ {e' en'}, s.heap e' = some en' →
      Function.update s.heap (s.seq + 1) (some en) e' = some en' := by
    intro e' en' he
    rw [Function.update_of_ne ?_]
    · exact he
    · rintro rfl
      rw [hnew] at he
      cases he
  have hle : ∀ e ∈ s.entries, e ≤ s.seq := fun e he => ((h.kept.present e).mp (h.kept.among e he)).2
  refine ⟨⟨fun e' => ?_, ?_, fun e' he => ?_, ?_, fun hdis => absurd hdis hd, fun e' en' he => ?_,
    fun e' en' he hb => ?_, h.kept.asked, fun o ho => ?_, fun e' p hp => ?_, ?_,
    fun e' en' he => ?_⟩, fun e' en' he => ?_, rfl⟩
  · change (Function.update s.heap (s.seq + 1) (some en) e').isSome = true ↔ 1 ≤ e' ∧ e' ≤ s.seq + 1
    by_cases hee : e' = s.seq + 1
    · subst hee
      simp
    · rw [Function.update_of_ne hee, h.kept.present e']
      omega
  · refine List.pairwise_append.mpr ⟨h.kept.listed, List.pairwise_singleton _ _, ?_⟩
    intro a ha b hb
    rw [List.mem_singleton.mp hb]
    exact Nat.lt_succ_of_le (hle a ha)
  · change (Function.update s.heap (s.seq + 1) (some en) e').isSome = true
    rcases List.mem_append.mp he with he | he
    · obtain ⟨en', hen'⟩ := Option.isSome_iff_exists.mp (h.kept.among e' he)
      rw [hold hen']
      rfl
    · rw [List.mem_singleton.mp he, Function.update_self]
      rfl
  · change (s.entries ++ [s.seq + 1]).length ≤ s.maxSessions
    rw [List.length_append, List.length_singleton]
    omega
  · rcases hcases he with ⟨rfl, rfl⟩ | ⟨-, he⟩
    · exact ⟨rfl, rfl⟩
    · exact h.kept.named e' en' he
  · rcases hcases he with ⟨rfl, rfl⟩ | ⟨-, he⟩
    · rfl
    · exact h.kept.unbegun e' en' he hb
  · obtain ⟨en', hen', hb⟩ := h.kept.asked_begun o ho
    exact ⟨en', hold hen', hb⟩
  · obtain ⟨en', hen', hb⟩ := h.kept.answered e' p hp
    exact ⟨en', hold hen', hb⟩
  · have hheld : (fun e' => (Function.update s.heap (s.seq + 1) (some en) e').bind
        fun en => en.session.id) = s.held := by
      funext e'
      by_cases hee : e' = s.seq + 1
      · subst hee
        rw [Function.update_self, Store.held, hnew]
        rfl
      · rw [Function.update_of_ne hee, Store.held]
    change Leases.Sound (fun e' => (Function.update s.heap (s.seq + 1) (some en) e').bind
      fun en => en.session.id) s.trace
    rw [hheld]
    exact h.kept.sound
  · rcases hcases he with ⟨rfl, rfl⟩ | ⟨-, he⟩
    · exact ⟨⟨nofun, nofun, nofun, nofun, nofun, nofun, (by rintro (hs | hs) <;> cases hs), nofun,
        rfl, rfl⟩, nofun⟩
    · exact h.kept.truthful e' en' he
  · change en'.session.disposed = false ↔ e' ∈ s.entries ++ [s.seq + 1]
    rcases hcases he with ⟨rfl, rfl⟩ | ⟨hne, he⟩
    · exact ⟨fun _ => List.mem_append_right _ (List.mem_singleton.mpr rfl), fun _ => rfl⟩
    · rw [h.live e' en' he, List.mem_append, List.mem_singleton]
      exact ⟨.inl, fun hm => hm.resolve_right hne⟩

/-! ### Tabs that go -/

/-- What is disposed of holds nothing, and what it held is closed. -/
theorem kept_dispose (h : Kept s) (e : Nat) : Kept (dispose s e) := by
  unfold dispose
  split
  · exact h
  rename_i en hen
  split_ifs
  · exact h
  have ht := h.truthful e en hen
  have htrue : Truthful en.dispose :=
    ⟨⟨nofun, fun hc => ⟨rfl, (ht.closing hc).2⟩, ht.started, ht.running, fun _ _ => rfl,
      ht.shown_started, ht.shown_over, ht.shown_stopped, ht.signal⟩, ht.shown_running⟩
  have hchange : ∀ {trace : List (Event Nat String Use)},
      (∀ e' p, .taken e' p ∈ trace → .taken e' p ∈ s.trace) →
      Leases.Sound (Function.update s.held e none) trace →
      Kept { s.modify e Entry.dispose with trace := trace } := fun htaken hsound =>
    h.change hen rfl rfl (h.unbegun e en hen) id id (fun e' p hp => .inl (htaken e' p hp)) hsound
      htrue
  split
  · rename_i hid
    exact hchange (fun _ _ hp => hp) (h.sound.update_held hen hid.symm)
  · rename_i p hid
    refine hchange (fun e' q hq => ?_) (Leases.Sound.finish h.sound (p := p) ?_ (.inl rfl))
    · rcases List.mem_append.mp hq with hq | hq
      · exact hq
      · cases List.mem_singleton.mp hq
    · rw [Store.held, hen]
      exact hid

/-- Of the entries, one is disposed of. -/
theorem heap_dispose (s : Store) (e e' : Nat) :
    ((dispose s e).heap e').map (fun en => (en.session.disposed, en.tab)) =
      (s.heap e').map fun en => (decide (e' = e) || en.session.disposed, en.tab) := by
  unfold dispose
  by_cases hee : e' = e
  · subst hee
    rcases hen : s.heap e' with _ | en
    · simp [hen]
    · dsimp only
      by_cases hd : en.session.disposed = true
      · rw [if_pos hd]
        simp [hen, hd]
      · rw [if_neg hd]
        rcases en.session.id with _ | p <;>
          simp [Store.happens, heap_modify_self, hen, Entry.dispose]
  · have hsame : ∀ s₁, s₁ = dispose s e → s₁.heap e' = s.heap e' := by
      intro s₁ hs₁
      rw [hs₁]
      unfold dispose
      rcases hen : s.heap e with _ | en
      · rfl
      · dsimp only
        split_ifs
        · rfl
        · rcases en.session.id with _ | p
          · exact heap_modify_ne hee
          · exact heap_modify_ne hee
    have heq := hsame _ rfl
    unfold dispose at heq
    rw [heq]
    simp [hee]

theorem frame_dispose (s : Store) (e : Nat) : (dispose s e).entries = s.entries ∧
    (dispose s e).disposed = s.disposed ∧ (dispose s e).maxSessions = s.maxSessions ∧
    (dispose s e).idPrefix = s.idPrefix := by
  unfold dispose
  split
  · exact ⟨rfl, rfl, rfl, rfl⟩
  · split_ifs
    · exact ⟨rfl, rfl, rfl, rfl⟩
    · split <;> exact ⟨rfl, rfl, rfl, rfl⟩

theorem kept_foldl (h : Kept s) (es : List Nat) : Kept (es.foldl dispose s) := by
  induction es generalizing s with
  | nil => exact h
  | cons e es ih => exact ih (kept_dispose h e)

theorem heap_foldl (s : Store) (es : List Nat) (e' : Nat) :
    ((es.foldl dispose s).heap e').map (fun en => (en.session.disposed, en.tab)) =
      (s.heap e').map fun en => (decide (e' ∈ es) || en.session.disposed, en.tab) := by
  induction es generalizing s with
  | nil => simp
  | cons e es ih =>
      rw [List.foldl_cons, ih]
      have hone := congrArg (Option.map fun q : Bool × TerminalTab =>
        (decide (e' ∈ es) || q.1, q.2)) (heap_dispose s e e')
      rw [Option.map_map, Option.map_map] at hone
      refine hone.trans (congrArg (fun k => (s.heap e').map k) (funext fun en => ?_))
      by_cases hes : e' ∈ es <;> by_cases hee : e' = e <;> simp [hes, hee]

theorem frame_foldl (s : Store) (es : List Nat) : (es.foldl dispose s).entries = s.entries ∧
    (es.foldl dispose s).disposed = s.disposed ∧
    (es.foldl dispose s).maxSessions = s.maxSessions ∧
    (es.foldl dispose s).idPrefix = s.idPrefix := by
  induction es generalizing s with
  | nil => exact ⟨rfl, rfl, rfl, rfl⟩
  | cons e es ih =>
      obtain ⟨h₁, h₂, h₃, h₄⟩ := ih (s := dispose s e)
      obtain ⟨g₁, g₂, g₃, g₄⟩ := frame_dispose s e
      exact ⟨h₁.trans g₁, h₂.trans g₂, h₃.trans g₃, h₄.trans g₄⟩

/-- Tabs are taken out of the table, and what they hold is closed. -/
theorem sane_remove (h : Sane s) {rest : List Nat} (hsub : rest.Sublist s.entries) (es : List Nat)
    (hrest : ∀ e, e ∈ rest ↔ e ∈ s.entries ∧ e ∉ es) {d : Bool} (hd : d = true → rest = []) :
    Sane (es.foldl dispose { s with disposed := d, entries := rest }).onChange := by
  have hk : Kept { s with disposed := d, entries := rest } :=
    { h.kept with
      listed := h.kept.listed.sublist hsub
      among := fun e he => h.kept.among e (hsub.subset he)
      bounded := hsub.length_le.trans h.kept.bounded
      final := hd
      sound := h.kept.sound
      truthful := h.kept.truthful }
  have hk' := kept_foldl hk es
  refine ⟨{ hk' with sound := hk'.sound, truthful := hk'.truthful }, fun e' en' he => ?_, rfl⟩
  have hheap := heap_foldl { s with disposed := d, entries := rest } es e'
  have he : (es.foldl dispose { s with disposed := d, entries := rest }).heap e' = some en' := he
  rw [he, Option.map_some] at hheap
  obtain ⟨en, hen, heq⟩ := Option.map_eq_some_iff.mp hheap.symm
  have hdis : en'.session.disposed = (decide (e' ∈ es) || en.session.disposed) :=
    (congrArg Prod.fst heq).symm
  have hlive := h.live e' en hen
  change en'.session.disposed = false ↔
    e' ∈ (es.foldl dispose { s with disposed := d, entries := rest }).entries
  rw [(frame_foldl _ es).1, hdis, Bool.or_eq_false_iff, decide_eq_false_iff_not, hlive]
  exact (hrest e').trans and_comm |>.symm

/-- What `find` finds is of the table, and has the name. -/
theorem find_spec {id : String} (h : s.find id = some e) :
    e ∈ s.entries ∧ ∃ en, s.heap e = some en ∧ en.tab.id = id := by
  unfold Store.find at h
  refine ⟨List.mem_of_find?_eq_some h, ?_⟩
  have hany : ((s.heap e).any fun en => decide (en.tab.id = id)) = true :=
    List.find?_some (p := fun e => (s.heap e).any fun en => decide (en.tab.id = id)) h
  obtain ⟨en, hen, hid⟩ := (Option.any_eq_true _ _).mp hany
  exact ⟨en, hen, of_decide_eq_true hid⟩

theorem sane_close (h : Sane s) (id : String) (force : Bool) : Sane (close s id force) := by
  unfold close
  split
  · exact h
  rename_i e _
  split_ifs
  · exact h
  · refine sane_remove (d := s.disposed) h (List.erase_sublist (a := e)) [e] (fun e' => ?_) fun hd => ?_
    · have hnodup : s.entries.Nodup := h.kept.listed.imp Nat.ne_of_lt
      rw [hnodup.mem_erase_iff, List.mem_singleton, and_comm]
    · rw [h.kept.final hd]
      rfl

theorem sane_disposeAll (h : Sane s) : Sane (disposeAll s) := by
  unfold disposeAll
  split_ifs
  · exact h
  · refine sane_remove h (List.nil_sublist _) s.entries (fun e' => ?_) fun _ => rfl
    exact ⟨nofun, fun hm => absurd hm.1 hm.2⟩

/-! ### Runs -/

theorem sane_fresh (maxSessions : Nat) (idPrefix : String) : Sane (fresh maxSessions idPrefix) where
  kept := {
    present := fun e => ⟨fun h => absurd h Bool.false_ne_true, fun h => by
      have hlt : (fresh maxSessions idPrefix).seq < e := h.1
      exact absurd h.2 (Nat.not_le_of_lt hlt)⟩
    listed := List.Pairwise.nil
    among := fun _ he => absurd he List.not_mem_nil
    bounded := Nat.zero_le _
    final := fun _ => rfl
    named := fun _ _ he => absurd he (Option.some_ne_none _).symm
    unbegun := fun _ _ he => absurd he (Option.some_ne_none _).symm
    asked := List.Pairwise.nil
    asked_begun := fun _ ho => absurd ho List.not_mem_nil
    answered := fun _ _ hp => absurd hp List.not_mem_nil
    sound := Leases.sound_nil
    truthful := fun _ _ he => absurd he (Option.some_ne_none _).symm }
  live := fun _ _ he => absurd he (Option.some_ne_none _).symm
  shows := rfl

/-- An answer to a call that an entry waits for. -/
theorem sane_answer (h : Sane s) (hen : s.heap e = some en) {l : Label}
    (hs : answer s e en l = some s') : Sane s' := by
  cases l with
  | key e' data =>
      simp only [answer, Option.ite_none_left_eq_some, Option.some.injEq] at hs
      exact hs.2 ▸ (quiet_writeText data).sane h
  | opened e' r =>
      simp only [answer, Option.ite_none_right_eq_some, Option.some.injEq] at hs
      exact hs.2 ▸ sane_opened h hen hs.1.1 hs.1.2
  | subscribed e' r =>
      simp only [answer] at hs
      split at hs
      · rename_i cols rows hb
        exact Option.some.inj hs ▸ sane_subscribed h hen hb r
      · cases hs
  | begun e' =>
      simp only [answer] at hs
      split at hs
      · rename_i hb
        exact Option.some.inj hs ▸ sane_begun h hen hb
      · rename_i m hb
        exact Option.some.inj hs ▸ sane_caught h hen hb
      · cases hs
  | exited e' p code =>
      simp only [answer, Option.ite_none_right_eq_some, Option.some.injEq] at hs
      exact hs.2 ▸ sane_exited h p code
  | closed e' r =>
      simp only [answer, Option.ite_none_right_eq_some, Option.some.injEq] at hs
      exact hs.2 ▸ (quiet_closed h.kept.truthful hen hs.1 r).sane h
  | stopped e' =>
      simp only [answer, Option.ite_none_right_eq_some, Option.some.injEq] at hs
      exact hs.2 ▸ quiet_stopped.sane h
  | sized e' r =>
      simp only [answer, Option.ite_none_right_eq_some, Option.some.injEq] at hs
      exact hs.2 ▸ (quiet_sized r).sane h
  | wrote e' r =>
      simp only [answer, Option.ite_none_right_eq_some, Option.some.injEq] at hs
      exact hs.2 ▸ (quiet_wrote r).sane h
  | feed e' bytes =>
      simp only [answer, Option.ite_none_left_eq_some, Option.some.injEq] at hs
      exact hs.2 ▸ (quiet_feed bytes).sane h
  | create | mount | fit | rename | close | stop | disposeAll => cases hs

theorem sane_step (h : Sane s) {l : Label} (hs : step s l = some s') : Sane s' := by
  cases l with
  | create input renderer => exact Option.some.inj hs ▸ sane_create h input renderer
  | mount id host opens x y z => exact Option.some.inj hs ▸ sane_mount h id host opens x y z
  | fit id x => exact Option.some.inj hs ▸ (quiet_fitTab id x).sane h
  | rename id title => exact Option.some.inj hs ▸ (quiet_rename id title).sane h
  | close id force => exact Option.some.inj hs ▸ sane_close h id force
  | stop id => exact Option.some.inj hs ▸ sane_stop h id
  | disposeAll => exact Option.some.inj hs ▸ sane_disposeAll h
  | key | opened | subscribed | begun | exited | closed | stopped | sized | wrote | feed =>
      obtain ⟨en, hen, ha⟩ := Option.bind_eq_some_iff.mp hs
      exact sane_answer h hen ha

theorem sane_of_reach (h : page.Reach s) : Sane s := by
  refine Machine.Reach.invariant (I := Sane) ?_ (fun _ _ _ hs hstep => sane_step hs hstep) h
  rintro s₀ ⟨maxSessions, idPrefix, rfl⟩
  exact sane_fresh maxSessions idPrefix

end RevBox.Terminal
