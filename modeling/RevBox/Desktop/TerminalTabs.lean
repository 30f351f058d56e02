import RevBox.Desktop.TerminalRuns

/-!
# Desktop — TerminalTabs

The tabs of a page and the terminals of the system that they open, over whole runs.

* `table_kept`: the table is within its bound, its tabs are numbered in their order under names
  of their own, and the page shows it as it is.
* `tab_stays`: a tab leaves the table by a `close` that names it, or by `disposeAll`.
* `terminals_let_go`: a tab asks for one terminal of the system at most, and each that is opened
  is held by its tab until it has ended, after which nothing is done with it.
* `left_behind`: what is still held once a tab is gone is what was opened after it was gone, and
  that is not closed any more.
* `unconfirmed_close`: a close that is not confirmed ends a process of a failed tab only.
-/

namespace RevBox.Terminal

open Leases (Event)

variable {s s₁ s' : Store} {e : Nat} {en en' : Entry} {f g : Entry → Entry}

/-! ### What becomes of an entry -/

/-- What a tab is from its making on. -/
def Entry.identity (en : Entry) : String × Nat × Text × List Text :=
  (en.tab.id, en.tab.index, en.tab.program, en.tab.args)

/-- What an entry may become where `transport.open` does not answer. -/
structure Becomes (en en' : Entry) : Prop where
  identity : en'.identity = en.identity
  disposed : en.session.disposed = true → en'.session.disposed = true
  id : en'.session.id = en.session.id ∨ en'.session.id = none
  emptied : en'.session.disposed = true → en.session.disposed = true ∨ en'.session.id = none

theorem Becomes.refl (en : Entry) : Becomes en en := ⟨rfl, fun h => h, .inl rfl, .inl⟩

theorem Becomes.trans {en₁ : Entry} (h : Becomes en en₁) (h' : Becomes en₁ en') :
    Becomes en en' where
  identity := h'.identity.trans h.identity
  disposed hd := h'.disposed (h.disposed hd)
  id := by
    rcases h'.id with h' | h'
    · rw [h']
      exact h.id
    · exact .inr h'
  emptied hd := by
    rcases h'.emptied hd with hd | hid
    · rcases h.emptied hd with hd | hid
      · exact .inl hd
      · rcases h'.id with h' | h'
        · exact .inr (h'.trans hid)
        · exact .inr h'
    · exact .inr hid

/-- A step in which no `transport.open` answers: what is closed is what was held by a tab. -/
structure Tame (s s' : Store) : Prop where
  taken : ∀ e p, .taken e p ∈ s.trace → .taken e p ∈ s'.trace
  becomes : ∀ e en, s.heap e = some en → ∃ en', s'.heap e = some en' ∧ Becomes en en'
  created : ∀ e en', s'.heap e = some en' → s.heap e = none → en'.session.id = none
  closes : ∀ q, .closed q ∈ s'.trace → .closed q ∈ s.trace ∨
    ∃ e en, s.heap e = some en ∧ en.session.id = some q ∧ en.session.disposed = false

namespace Tame

theorem refl (s : Store) : Tame s s :=
  ⟨fun _ _ hp => hp, fun _ en hen => ⟨en, hen, .refl en⟩,
    fun _ _ he hn => absurd (hn.symm.trans he) nofun, fun _ => .inl⟩

theorem trans (h : Tame s s₁) (h' : Tame s₁ s') : Tame s s' where
  taken e p hp := h'.taken e p (h.taken e p hp)
  becomes e en hen := by
    obtain ⟨en₁, hen₁, hb⟩ := h.becomes e en hen
    obtain ⟨en', hen', hb'⟩ := h'.becomes e en₁ hen₁
    exact ⟨en', hen', hb.trans hb'⟩
  created e en' he hn := by
    rcases hen₁ : s₁.heap e with _ | en₁
    · exact h'.created e en' he hen₁
    · have hnone := h.created e en₁ hen₁ hn
      obtain ⟨en₂, hen₂, hb⟩ := h'.becomes e en₁ hen₁
      cases he.symm.trans hen₂
      rcases hb.id with hid | hid
      · exact hid.trans hnone
      · exact hid
  closes q hq := by
    rcases h'.closes q hq with hq | ⟨e, en₁, hen₁, hid, hd⟩
    · exact h.closes q hq
    · -- what is held between the two was held before
      rcases hen : s.heap e with _ | en
      · exact absurd ((h.created e en₁ hen₁ hen).symm.trans hid) nofun
      · obtain ⟨en₂, hen₂, hb⟩ := h.becomes e en hen
        cases hen₁.symm.trans hen₂
        refine .inr ⟨e, en, hen, ?_, ?_⟩
        · rcases hb.id with h₁ | h₁
          · exact h₁.symm.trans hid
          · exact absurd (h₁.symm.trans hid) nofun
        · by_contra hdis
          rw [hb.disposed (eq_true_of_ne_false hdis)] at hd
          cases hd

end Tame

theorem Quiet.tame (h : Quiet s s') : Tame s s' where
  taken e p hp := (h.trace _ fun _ _ ht => (by cases ht)).mpr hp
  becomes e en hen := by
    obtain ⟨en', hen', hcore⟩ := h.entry' hen
    refine ⟨en', hen', ?_, fun hd => (congrArg Core.disposed hcore).trans hd,
      .inl (congrArg Core.id hcore), fun hd => .inl ((congrArg Core.disposed hcore).symm.trans hd)⟩
    exact congrArg (fun c : Core => (c.name, c.index, c.program, c.args)) hcore
  created e en' he hn := by
    have hsome := h.isSome e
    rw [he, hn] at hsome
    cases hsome
  closes q hq := .inl ((h.trace _ fun _ _ ht => (by cases ht)).mp hq)

/-- A change of one entry, with an end of what it held. -/
theorem tame_modify (hf : ∀ en, Becomes en (f en)) {trace : List (Event Nat String Use)}
    (htaken : ∀ e p, .taken e p ∈ s.trace → .taken e p ∈ trace)
    (hcloses : ∀ q, .closed q ∈ trace → .closed q ∈ s.trace ∨
      ∃ en, s.heap e = some en ∧ en.session.id = some q ∧ en.session.disposed = false) :
    Tame s { s.modify e f with trace := trace } where
  taken := htaken
  becomes e' en hen := by
    by_cases hee : e' = e
    · subst hee
      exact ⟨f en, by rw [← Option.map_some, ← hen]; exact heap_modify_self, hf en⟩
    · exact ⟨en, (heap_modify_ne hee).trans hen, .refl en⟩
  created e' en' he hn := by
    rcases heap_modify_cases he with ⟨rfl, en, hen, -⟩ | ⟨-, hen⟩
    · exact absurd (hn.symm.trans hen) nofun
    · exact absurd (hn.symm.trans hen) nofun
  closes q hq := (hcloses q hq).imp_right fun ⟨en, hen⟩ => ⟨e, en, hen⟩

/-- What is under a step that is not asked for by `create`, `close` and `disposeAll`. -/
structure Calm (s s' : Store) : Prop extends Tame s s' where
  entries : s'.entries = s.entries

theorem Calm.trans (h : Calm s s₁) (h' : Calm s₁ s') : Calm s s' :=
  ⟨h.toTame.trans h'.toTame, h'.entries.trans h.entries⟩

theorem Calm.refl (s : Store) : Calm s s := ⟨.refl s, rfl⟩

theorem Quiet.calm (h : Quiet s s') : Calm s s' := ⟨h.tame, h.entries⟩

theorem calm_modify (hf : ∀ en, Becomes en (f en)) : Calm s (s.modify e f) :=
  ⟨tame_modify hf (fun _ _ h => h) fun _ => .inl, rfl⟩

theorem calm_comesTo (b : Begin) : Calm s (s.comesTo e b) :=
  calm_modify fun _ => ⟨rfl, fun h => h, .inl rfl, .inl⟩

/-- The terminal takes the size, and the system is asked. -/
theorem calm_asking {s₁ : Store} (hq : Quiet s s₁) (en : Entry) (cols rows : Nat) :
    Calm s (Store.comesTo { s₁.modify e fun en =>
        { en with session := { en.session with termCols := cols, termRows := rows } } with
      opens := s₁.opens ++ [⟨e, en.tab.program, en.args, en.cwd, cols, rows⟩] } e .opening) := by
  have hmod : Calm s₁ (s₁.modify e fun en =>
      { en with session := { en.session with termCols := cols, termRows := rows } }) :=
    calm_modify fun _ => ⟨rfl, fun h => h, .inl rfl, .inl⟩
  have hask := (hq.calm.trans hmod).trans (calm_comesTo (e := e) .opening)
  exact ⟨⟨hask.taken, hask.becomes, hask.created, hask.closes⟩, hask.entries⟩

/-- The terminal does not take it. -/
theorem calm_unsized {s₁ : Store} (hq : Quiet s s₁) (m : Text) :
    Calm s ((reportFailure s₁ e m).comesTo e .returned) :=
  (hq.trans (quiet_reportFailure _)).calm.trans (calm_comesTo .returned)

theorem calm_start (x : Screen) : Calm s (start s e x) := by
  unfold start
  split
  · exact .refl s
  rename_i en _
  dsimp only
  split_ifs
  · exact calm_comesTo .returned
  have hnoted (m m' : Text) : Quiet s (reportFailure (note s e m) e m') :=
    (quiet_note _).trans (quiet_reportFailure _)
  rcases x.measure with ⟨cols, rows⟩ | _ | m <;> rcases x.resize with _ | m'
  · exact calm_asking (quiet_note _) en cols rows
  · exact calm_unsized (quiet_note _) _
  · exact calm_asking (quiet_note _) en _ _
  · exact calm_unsized (quiet_note _) _
  · exact calm_asking (hnoted _ _) en _ _
  · exact calm_unsized (hnoted _ _) _

theorem calm_begin (x y : Screen) : Calm s (begin s e x y) := by
  unfold begin
  split
  · exact .refl s
  split_ifs
  · exact .refl s
  have hmod : Calm s (s.modify e fun en => { en with beginning := true }) :=
    calm_modify fun _ => ⟨rfl, fun h => h, .inl rfl, .inl⟩
  dsimp only
  generalize (s.modify e fun en => { en with beginning := true }) = s₁ at hmod ⊢
  have hfit : Quiet s₁ (fit s₁ e x).1 := quiet_fit x
  generalize fit s₁ e x = r at hfit ⊢
  rcases r with ⟨s₂, m | b⟩
  · exact (hmod.trans hfit.calm).trans (calm_comesTo _)
  · exact (hmod.trans hfit.calm).trans (calm_start y)

theorem calm_mount (id : String) (host : Option Nat) (opens : Option Text) (x y z : Screen) :
    Calm s (mount s id host opens x y z) := by
  unfold mount
  split
  · rename_i e host _
    have hmount : Quiet s (mountSession s e host opens x).1 := quiet_mountSession host opens x
    generalize mountSession s e host opens x = r at hmount ⊢
    rcases r with ⟨s₁, _ | m⟩ <;> dsimp only
    · split_ifs
      · exact hmount.calm.trans (calm_begin y z)
      · exact hmount.calm
    · have hs₁ := hmount.trans (quiet_onSessionError (e := e) ("挂载终端时异常：".toList ++ m))
      split_ifs
      · exact hs₁.calm.trans (calm_begin y z)
      · exact hs₁.calm
  · exact .refl s

theorem calm_failed (m : Text) : Calm s ((reportFailure s e m).comesTo e .returned) :=
  (quiet_reportFailure m).calm.trans (calm_comesTo .returned)

theorem Calm.told (h : Calm s s') : Calm s s'.onChange :=
  ⟨⟨h.taken, h.becomes, h.created, h.closes⟩, h.entries⟩

theorem becomes_of_core (h : en'.core = en.core) : Becomes en en' where
  identity := congrArg (fun c : Core => (c.name, c.index, c.program, c.args)) h
  disposed hd := (congrArg Core.disposed h).trans hd
  id := .inl (congrArg Core.id h)
  emptied hd := .inl ((congrArg Core.disposed h).symm.trans hd)

theorem calm_update (p : Patch) : Calm s (update s e p) := by
  rw [update_eq]
  exact (calm_modify fun en => becomes_of_core (core_syncFromSession (en.patch p))).told

theorem calm_subscribed (cols rows : Nat) (r : Except Text Unit) :
    Calm s (subscribed s e cols rows r) := by
  rcases r with m | ⟨⟩
  · exact calm_failed _
  · refine Calm.trans (?_ : Calm s (s.modify e fun en =>
      { en with begun := .returned, session := { en.session with detachExit := true } }))
      (calm_update _)
    exact calm_modify fun _ => ⟨rfl, fun h => h, .inl rfl, .inl⟩

theorem calm_begun : Calm s (begun s e) := by
  unfold begun
  dsimp only
  split_ifs
  · exact (calm_comesTo .finished).trans quiet_sync.calm
  · exact calm_comesTo .finished

/-- An entry lets go of what it holds. -/
theorem calm_release (hf : ∀ en, Becomes en (f en)) {a : Event Nat String Use}
    (ha : ∀ q, a = .closed q →
      ∃ en, s.heap e = some en ∧ en.session.id = some q ∧ en.session.disposed = false) :
    Calm s ((s.modify e f).happens a) where
  toTame := tame_modify hf (fun _ _ h => List.mem_append_left _ h) fun q hq => by
    rcases List.mem_append.mp hq with hq | hq
    · exact .inl hq
    · exact .inr (ha q (List.mem_singleton.mp hq).symm)
  entries := rfl

theorem calm_exited (p : String) (code : Option Int) : Calm s (exited s e p code) := by
  unfold exited
  split_ifs
  · refine Calm.trans (calm_release ?_ ?_) (calm_update _)
    · exact fun _ => ⟨rfl, fun h => h, .inr rfl, .inl⟩
    · exact fun _ hq => absurd hq (by nofun)
  · exact .refl s

/-- What is found in the table is not disposed of. -/
theorem Sane.found (h : Sane s) {id : String} (hf : s.find id = some e) (hen : s.heap e = some en) :
    en.session.disposed = false :=
  (h.live e en hen).mpr (find_spec hf).1

theorem calm_stop (h : Sane s) (id : String) : Calm s (stop s id) := by
  unfold stop
  split
  · exact .refl s
  rename_i e hf
  split
  · exact .refl s
  rename_i en hen
  split
  · exact calm_modify fun _ => ⟨rfl, fun h => h, .inl rfl, .inl⟩
  · rename_i p hp
    refine calm_release ?_ fun q hq => ?_
    · exact fun _ => ⟨rfl, fun h => h, .inr rfl, .inl⟩
    · cases hq
      exact ⟨en, hen, hp, h.found hf hen⟩

theorem tame_dispose (s : Store) (e : Nat) : Tame s (dispose s e) := by
  unfold dispose
  split
  · exact .refl s
  rename_i en hen
  split_ifs with hd
  · exact .refl s
  have hb : ∀ en, Becomes en (Entry.dispose en) := fun _ => ⟨rfl, fun _ => rfl, .inr rfl, fun _ => .inr rfl⟩
  split
  · exact (calm_modify hb).toTame
  · rename_i p hp
    refine (calm_release hb fun q hq => ?_).toTame
    cases hq
    exact ⟨en, hen, hp, eq_false_of_ne_true hd⟩

theorem tame_foldl (s : Store) (es : List Nat) : Tame s (es.foldl dispose s) := by
  induction es generalizing s with
  | nil => exact .refl s
  | cons e es ih => exact (tame_dispose s e).trans (ih (dispose s e))

theorem tame_create (h : Sane s) (input : CreateTabInput) (renderer : Renderer) :
    Tame s (create s input renderer).1 := by
  unfold create
  split_ifs
  · exact .refl s
  · exact .refl s
  dsimp only
  split_ifs
  · exact .refl s
  set en := newEntry s input renderer (Text.jsTrim input.program) with hen
  refine ⟨fun _ _ h => h, fun e en₁ hen₁ => ⟨en₁, ?_, .refl en₁⟩, fun e en' he hn => ?_,
    fun _ => .inl⟩
  · change Function.update s.heap (s.seq + 1) (some en) e = some en₁
    rw [Function.update_of_ne ?_, hen₁]
    rintro rfl
    have := ((h.kept.present _).mp (Option.isSome_iff_exists.mpr ⟨en₁, hen₁⟩)).2
    omega
  · change Function.update s.heap (s.seq + 1) (some en) e = some en' at he
    by_cases hee : e = s.seq + 1
    · subst hee
      rw [Function.update_self] at he
      exact Option.some.inj he ▸ rfl
    · rw [Function.update_of_ne hee, hn] at he
      cases he

/-- The answer of `transport.open` with an id. -/
def Label.Opens (l : Label) (e : Nat) (p : String) : Prop :=
  ∃ cols rows, l = .opened e (.ok (p, cols, rows))

theorem calm_answer (h : Sane s) (hen : s.heap e = some en) {l : Label}
    (hl : ∀ e p, ¬ l.Opens e p) (hs : answer s e en l = some s') : Calm s s' := by
  cases l with
  | key e' data =>
      simp only [answer, Option.ite_none_left_eq_some, Option.some.injEq] at hs
      exact hs.2 ▸ (quiet_writeText data).calm
  | opened e' r =>
      simp only [answer, Option.ite_none_right_eq_some, Option.some.injEq] at hs
      rcases r with m | ⟨p, cols, rows⟩
      · exact hs.2 ▸ calm_failed _
      · exact absurd ⟨cols, rows, rfl⟩ (hl e' p)
  | subscribed e' r =>
      simp only [answer] at hs
      split at hs
      · exact Option.some.inj hs ▸ calm_subscribed _ _ r
      · cases hs
  | begun e' =>
      simp only [answer] at hs
      split at hs
      · exact Option.some.inj hs ▸ calm_begun
      · exact Option.some.inj hs ▸ (calm_comesTo .finished).trans (quiet_onSessionError _).calm
      · cases hs
  | exited e' p code =>
      simp only [answer, Option.ite_none_right_eq_some, Option.some.injEq] at hs
      exact hs.2 ▸ calm_exited p code
  | closed e' r =>
      simp only [answer, Option.ite_none_right_eq_some, Option.some.injEq] at hs
      exact hs.2 ▸ (quiet_closed h.kept.truthful hen hs.1 r).calm
  | stopped e' =>
      simp only [answer, Option.ite_none_right_eq_some, Option.some.injEq] at hs
      exact hs.2 ▸ quiet_stopped.calm
  | sized e' r =>
      simp only [answer, Option.ite_none_right_eq_some, Option.some.injEq] at hs
      exact hs.2 ▸ (quiet_sized r).calm
  | wrote e' r =>
      simp only [answer, Option.ite_none_right_eq_some, Option.some.injEq] at hs
      exact hs.2 ▸ (quiet_wrote r).calm
  | feed e' bytes =>
      simp only [answer, Option.ite_none_left_eq_some, Option.some.injEq] at hs
      exact hs.2 ▸ (quiet_feed bytes).calm
  | create | mount | fit | rename | close | stop | disposeAll => cases hs

/-- A step in which no `transport.open` answers. -/
theorem tame_step (h : Sane s) {l : Label} (hl : ∀ e p, ¬ l.Opens e p) (hs : step s l = some s') :
    Tame s s' := by
  cases l with
  | create input renderer => exact Option.some.inj hs ▸ tame_create h input renderer
  | mount id host opens x y z => exact Option.some.inj hs ▸ (calm_mount id host opens x y z).toTame
  | fit id x => exact Option.some.inj hs ▸ (quiet_fitTab id x).tame
  | rename id title => exact Option.some.inj hs ▸ (quiet_rename id title).tame
  | close id force =>
      rw [← Option.some.inj hs]
      unfold close
      split
      · exact .refl s
      rename_i e _
      split_ifs
      · exact .refl s
      · have ht := tame_dispose { s with entries := s.entries.erase e } e
        exact ⟨ht.taken, ht.becomes, ht.created, ht.closes⟩
  | stop id => exact Option.some.inj hs ▸ (calm_stop h id).toTame
  | disposeAll =>
      rw [← Option.some.inj hs]
      unfold disposeAll
      split_ifs
      · exact .refl s
      · have ht := tame_foldl { s with disposed := true, entries := [] } s.entries
        exact ⟨ht.taken, ht.becomes, ht.created, ht.closes⟩
  | key | opened | subscribed | begun | exited | closed | stopped | sized | wrote | feed =>
      obtain ⟨en, hen, ha⟩ := Option.bind_eq_some_iff.mp hs
      exact (calm_answer h hen hl ha).toTame

/-! ### A session of a tab -/

/-- A shell, as the page asks for it. -/
def shell : CreateTabInput := ⟨"/bin/zsh".toList, [], none, none⟩

/-- A container of so many columns and rows. -/
def room (cols rows : Nat) : Screen := ⟨.size cols rows, none⟩

/-- A tab is made and mounted, and the system is asked for a terminal. -/
def asking : List Label :=
  [.create shell .dom, .mount "term-1" (some 7) none (room 100 30) (room 100 30) (room 100 30)]

/-- The terminal comes up, and a key cannot be written to it. -/
def typed : List Label :=
  asking ++ [.opened 1 (.ok ("pty-0", 100, 30)), .subscribed 1 (.ok ()), .begun 1,
    .key 1 "l".toList, .wrote 1 (.error "gone".toList)]

/-- Where a run of a new table leads is reached. -/
theorem reach_of_exec {l : List Label} (h : page.exec (fresh 8 "term") l = some s) :
    page.Reach s :=
  ⟨_, l, ⟨8, "term", rfl⟩, Machine.run_of_exec Machine.guarded_any h⟩

/-! ### The table -/

theorem repr_injective {m n : Nat} (h : Nat.repr m = Nat.repr n) : m = n := by
  have hdigits : Nat.toDigits 10 m = Nat.toDigits 10 n := String.ofList_injective h
  calc
    m = Nat.ofDigitChars 10 (Nat.toDigits 10 m) 0 := Nat.ofDigitChars_ten_toDigits.symm
    _ = Nat.ofDigitChars 10 (Nat.toDigits 10 n) 0 := by rw [hdigits]
    _ = n := Nat.ofDigitChars_ten_toDigits

/-- The entries of the table, with their numbers. -/
theorem Sane.tabs_index (h : Sane s) : s.tabs.map (·.index) = s.entries := by
  have hall : ∀ es : List Nat, (∀ e ∈ es, (s.heap e).isSome = true) →
      (es.filterMap fun e => (s.heap e).map Entry.tab).map (·.index) = es := by
    intro es
    induction es with
    | nil => exact fun _ => rfl
    | cons e es ih =>
        intro hes
        obtain ⟨en, hen⟩ := Option.isSome_iff_exists.mp (hes e List.mem_cons_self)
        have hrest := ih fun e' he' => hes e' (List.mem_cons_of_mem _ he')
        rw [List.filterMap_cons_some (b := en.tab) (by rw [hen]; rfl), List.map_cons, hrest,
          (h.kept.named e en hen).1]
  exact hall s.entries h.kept.among

theorem Sane.of_mem_tabs (_ : Sane s) {t : TerminalTab} (ht : t ∈ s.tabs) :
    ∃ e en, e ∈ s.entries ∧ s.heap e = some en ∧ en.tab = t := by
  obtain ⟨e, he, het⟩ := List.mem_filterMap.mp ht
  obtain ⟨en, hen, rfl⟩ := Option.map_eq_some_iff.mp het
  exact ⟨e, en, he, hen, rfl⟩

/-- **The table.**  In every order of what the user does and of what answers, the table is within
its bound, its tabs stand in the order they were made in under names of their own, the page is
shown what the table is, and once all has been taken down the table stays empty. -/
theorem table_kept (h : page.Reach s) :
    s.tabs.length ≤ s.maxSessions ∧ (s.tabs.map (·.index)).Pairwise (· < ·) ∧
      (s.tabs.map (·.id)).Nodup ∧
      (∀ t ∈ s.tabs, t.id = s.idPrefix ++ "-" ++ Nat.repr t.index) ∧
      s.shown = s.tabs ∧ (s.disposed = true → s.tabs = []) := by
  have hs := sane_of_reach h
  have hindex := hs.tabs_index
  have hname : ∀ t ∈ s.tabs, t.id = s.idPrefix ++ "-" ++ Nat.repr t.index := by
    intro t ht
    obtain ⟨e, en, -, hen, rfl⟩ := hs.of_mem_tabs ht
    obtain ⟨hi, hid⟩ := hs.kept.named e en hen
    rw [hi, hid]
  refine ⟨?_, ?_, ?_, hname, hs.shows, fun hd => ?_⟩
  · rw [← List.length_map (f := (·.index)), hindex]
    exact hs.kept.bounded
  · rw [hindex]
    exact hs.kept.listed
  · -- two tabs of one name have one number
    have hnodup : (s.tabs.map (·.index)).Nodup := by
      rw [hindex]
      exact hs.kept.listed.imp Nat.ne_of_lt
    have htabs : s.tabs.Nodup := hnodup.of_map _
    refine htabs.map_on fun t ht t' ht' heq => ?_
    rw [hname t ht, hname t' ht'] at heq
    exact List.inj_on_of_nodup_map hnodup ht ht' (repr_injective (by simpa using heq))
  · rw [Store.tabs, hs.kept.final hd]
    rfl

theorem typed_table : ∃ s, page.exec (fresh 8 "term") typed = some s ∧
    s.tabs.map (·.id) = ["term-1"] ∧ s.shown = s.tabs ∧ s.tabs.length ≤ s.maxSessions := by
  refine ⟨_, rfl, rfl, ?_⟩
  have h := table_kept (reach_of_exec (l := typed) rfl)
  exact ⟨h.2.2.2.2.1, h.1⟩

/-- What the answer of `transport.open` makes of the entries. -/
theorem heap_opened {p : String} {m n : Nat} {e' : Nat}
    (h : s.heap e' = some en) : ∃ en', (opened s e (.ok (p, m, n))).heap e' = some en' ∧
      en'.identity = en.identity ∧ en'.session.disposed = en.session.disposed ∧
      (e' ≠ e → en' = en) ∧ (e' = e → en'.session.id = some p) := by
  by_cases hee : e' = e
  · subst hee
    refine ⟨{ en with
      begun := .listening m n
      session := { en.session with id := some p, lastCols := m, lastRows := n } }, ?_, rfl,
      rfl, fun hne => absurd rfl hne, fun _ => rfl⟩
    rw [opened, heap_modify_self]
    exact congrArg _ h
  · refine ⟨en, ?_, rfl, rfl, fun _ => rfl, fun he => absurd he hee⟩
    rw [opened, heap_modify_ne hee]
    exact h

/-- A step that takes no tab of the name out of the table leaves the tab there. -/
theorem step_stays (h : Sane s) {l : Label} (hs : step s l = some s') (he : e ∈ s.entries)
    (hen : s.heap e = some en) (hall : l ≠ .disposeAll)
    (hclose : ∀ force, l ≠ .close en.tab.id force) :
    e ∈ s'.entries ∧ ∃ en', s'.heap e = some en' ∧ en'.identity = en.identity := by
  have hcalm : ∀ {s'}, Calm s s' →
      e ∈ s'.entries ∧ ∃ en', s'.heap e = some en' ∧ en'.identity = en.identity := by
    intro s' hc
    obtain ⟨en', hen', hb⟩ := hc.becomes e en hen
    exact ⟨hc.entries ▸ he, en', hen', hb.identity⟩
  cases l with
  | create input renderer =>
      obtain ⟨en', hen', hb⟩ := (tame_create h input renderer).becomes e en hen
      refine ⟨?_, en', Option.some.inj hs ▸ hen', hb.identity⟩
      rw [← Option.some.inj hs, create]
      split_ifs
      · exact he
      · exact he
      dsimp only
      split_ifs
      · exact he
      · exact List.mem_append_left _ he
  | mount id host opens x y z =>
      exact Option.some.inj hs ▸ hcalm (calm_mount id host opens x y z)
  | fit id x => exact Option.some.inj hs ▸ hcalm (quiet_fitTab id x).calm
  | rename id title => exact Option.some.inj hs ▸ hcalm (quiet_rename id title).calm
  | close id force =>
      have ht := tame_step h (by rintro _ _ ⟨_, _, hl⟩; cases hl) hs
      obtain ⟨en', hen', hb⟩ := ht.becomes e en hen
      refine ⟨?_, en', hen', hb.identity⟩
      rw [← Option.some.inj hs, close]
      split
      · exact he
      rename_i e' hf
      split_ifs
      · exact he
      · -- the tab that is taken out has the name of another one
        have hne : e ≠ e' := by
          rintro rfl
          obtain ⟨-, en₁, hen₁, hid⟩ := find_spec hf
          rw [hen] at hen₁
          cases hen₁
          exact hclose force (by rw [hid])
        have hmem : e ∈ s.entries.erase e' := (List.mem_erase_of_ne hne).mpr he
        exact (frame_dispose { s with entries := s.entries.erase e' } e').1 ▸ hmem
  | stop id => exact Option.some.inj hs ▸ hcalm (calm_stop h id)
  | disposeAll => exact absurd rfl hall
  | opened e' r =>
      obtain ⟨en₁, hen₁, ha⟩ := Option.bind_eq_some_iff.mp hs
      rcases r with m | ⟨p, cols, rows⟩
      · exact hcalm (calm_answer h hen₁ (by rintro _ _ ⟨_, _, hl⟩; cases hl) ha)
      · simp only [answer, Option.ite_none_right_eq_some, Option.some.injEq] at ha
        obtain ⟨en', hen', hid, -⟩ := heap_opened (e := e') (p := p) (m := cols) (n := rows) hen
        exact ha.2 ▸ ⟨he, en', hen', hid⟩
  | key | subscribed | begun | exited | closed | stopped | sized | wrote | feed =>
      obtain ⟨en₁, hen₁, ha⟩ := Option.bind_eq_some_iff.mp hs
      exact hcalm (calm_answer h hen₁ (by rintro _ _ ⟨_, _, hl⟩; cases hl) ha)

/-- **A tab stays.**  Whatever is made, closed or stopped beside it, and however its own process
ends, a tab stays in the table as the tab it is until it is closed by its name, or all are. -/
theorem tab_stays {ls : List Label} (h : page.Reach s) (hr : page.Run Machine.Any s ls s')
    {t : TerminalTab} (ht : t ∈ s.tabs)
    (hstay : ∀ l ∈ ls, l ≠ .disposeAll ∧ ∀ force, l ≠ .close t.id force) :
    ∃ t' ∈ s'.tabs, t'.id = t.id ∧ t'.index = t.index ∧ t'.program = t.program ∧
      t'.args = t.args := by
  obtain ⟨e, en, he, hen, rfl⟩ := (sane_of_reach h).of_mem_tabs ht
  have key : ∃ en', e ∈ s'.entries ∧ s'.heap e = some en' ∧ en'.identity = en.identity := by
    clear ht
    induction hr generalizing en with
    | refl => exact ⟨en, he, hen, rfl⟩
    | more _ hs _ ih =>
        obtain ⟨hall, hclose⟩ := hstay _ List.mem_cons_self
        obtain ⟨he₁, en₁, hen₁, hid⟩ := step_stays (sane_of_reach h) hs he hen hall hclose
        have hname : en₁.tab.id = en.tab.id := congrArg Prod.fst hid
        obtain ⟨en', he', hen', hid'⟩ := ih (h.step hs) en₁ he₁ hen₁
          fun l hl => hname ▸ hstay l (List.mem_cons_of_mem _ hl)
        exact ⟨en', he', hen', hid'.trans hid⟩
  obtain ⟨en', he', hen', hid⟩ := key
  refine ⟨en'.tab, List.mem_filterMap.mpr ⟨e, he', by rw [hen']; rfl⟩, ?_⟩
  exact ⟨congrArg (·.1) hid, congrArg (·.2.1) hid, congrArg (·.2.2.1) hid, congrArg (·.2.2.2) hid⟩

/-- A tab is there while another one is made and closed. -/
theorem typed_stays : ∃ s s', page.exec (fresh 8 "term") typed = some s ∧
    page.exec s [.create shell .dom, .close "term-2" true] = some s' ∧
    ∃ t ∈ s.tabs, ∃ t' ∈ s'.tabs, t'.id = t.id := by
  refine ⟨_, _, rfl, rfl, _, List.mem_cons_self, ?_⟩
  obtain ⟨t', ht', hid', -⟩ := tab_stays (reach_of_exec (l := typed) rfl)
    (Machine.run_of_exec Machine.guarded_any
      (show page.exec _ [.create shell .dom, .close "term-2" true] = some _ from rfl))
    (List.mem_cons_self (l := [])) (by
      intro l hl
      rcases List.mem_pair.mp hl with rfl | rfl
      · exact ⟨nofun, nofun⟩
      · refine ⟨nofun, fun force hc => ?_⟩
        exact absurd (Label.close.inj hc).1 (show "term-2" ≠ "term-1" by decide))
  exact ⟨t', ht', hid'⟩

/-! ### The terminals of the system -/

/-- An open that answers a tab that is not in the table any more. -/
def Late (s : Store) (l : Label) : Prop := ∃ e p, l.Opens e p ∧ e ∉ s.entries

/-- What is out of the table holds nothing. -/
def Store.LeftNothing (s : Store) : Prop :=
  ∀ e en, s.heap e = some en → en.session.disposed = true → en.session.id = none

theorem Tame.leftNothing (h : Tame s s') (hs : s.LeftNothing) : s'.LeftNothing := by
  intro e en' he hd
  rcases hen : s.heap e with _ | en
  · exact h.created e en' he hen
  · obtain ⟨en₁, hen₁, hb⟩ := h.becomes e en hen
    cases he.symm.trans hen₁
    rcases hb.emptied hd with hd | hid
    · rcases hb.id with hid | hid
      · exact hid.trans (hs e en hen hd)
      · exact hid
    · exact hid

/-- A step that is no answer of `transport.open`, or one that opens a terminal. -/
theorem step_cases (h : Sane s) {l : Label} (hs : step s l = some s') :
    Tame s s' ∨ ∃ e p cols rows, l = .opened e (.ok (p, cols, rows)) ∧
      (∀ a ∈ s.trace, a.handle ≠ p) ∧ s' = opened s e (.ok (p, cols, rows)) := by
  by_cases hl : ∃ e p, l.Opens e p
  · obtain ⟨e, p, cols, rows, rfl⟩ := hl
    obtain ⟨en, hen, ha⟩ := Option.bind_eq_some_iff.mp hs
    simp only [answer, Option.ite_none_right_eq_some, Option.some.injEq] at ha
    refine .inr ⟨e, p, cols, rows, rfl, fun a hm => ?_, ha.2.symm⟩
    simpa using List.all_eq_true.mp ha.1.2 a hm
  · exact .inl (tame_step h (fun e p hop => hl ⟨e, p, hop⟩) hs)

theorem step_leftNothing (h : Sane s) (hs : s.LeftNothing) {l : Label} (hl : ¬ Late s l)
    (hstep : step s l = some s') : s'.LeftNothing := by
  rcases step_cases h hstep with ht | ⟨e, p, cols, rows, rfl, -, rfl⟩
  · exact ht.leftNothing hs
  · intro e' en' he hd
    rcases heap_modify_cases he with ⟨rfl, en, hen, rfl⟩ | ⟨-, hen⟩
    · -- the tab that is answered is in the table
      have hin : e' ∈ s.entries := not_not.mp fun hno => hl ⟨e', p, ⟨cols, rows, rfl⟩, hno⟩
      have hlive : en.session.disposed = false := (h.live e' en hen).mpr hin
      exact absurd (hlive.symm.trans hd) nofun
    · exact hs e' en' hen hd

/-- What was opened for a tab that was gone is not closed. -/
structure Astray (e : Nat) (p : String) (s : Store) : Prop where
  gone : ∃ en, s.heap e = some en ∧ en.session.disposed = true
  taken : .taken e p ∈ s.trace
  unclosed : .closed p ∉ s.trace

theorem step_astray {p : String} (h : Sane s) (hs : Astray e p s) {l : Label}
    (hstep : step s l = some s') : Astray e p s' := by
  obtain ⟨en, hen, hd⟩ := hs.gone
  rcases step_cases h hstep with ht | ⟨e', q, cols, rows, -, hnew, rfl⟩
  · obtain ⟨en', hen', hb⟩ := ht.becomes e en hen
    refine ⟨⟨en', hen', hb.disposed hd⟩, ht.taken e p hs.taken, fun hc => ?_⟩
    rcases ht.closes p hc with hc | ⟨e₁, en₁, hen₁, hid, hd₁⟩
    · exact hs.unclosed hc
    · -- it is held by the one who took it, who is gone
      have hheld : s.held e₁ = some p := by rw [Store.held, hen₁]; exact hid
      have hsound : Leases.Sound s.held s.trace := h.kept.sound
      have he : e₁ = e := hsound.owner e₁ e p (hsound.held_taken e₁ p hheld).1 hs.taken
      subst he
      rw [hen] at hen₁
      cases hen₁
      cases hd.symm.trans hd₁
  · obtain ⟨en', hen', -, hdis, -⟩ := heap_opened (e := e') (p := q) (m := cols) (n := rows) hen
    refine ⟨⟨en', hen', hdis.trans hd⟩, List.mem_append_left _ hs.taken, fun hc => ?_⟩
    rcases List.mem_append.mp hc with hc | hc
    · exact hs.unclosed hc
    · cases List.mem_singleton.mp hc

theorem run_astray {p : String} {ls : List Label} (h : page.Reach s) (hs : Astray e p s)
    (hr : page.Run Machine.Any s ls s') : Astray e p s' := by
  induction hr with
  | refl => exact hs
  | more _ hstep _ ih => exact ih (h.step hstep) (step_astray (sane_of_reach h) hs hstep)

/-- **What is left behind.**  While no `transport.open` answers a tab that has been closed, what
a tab that is gone had opened has ended, so that nothing is running any more once all has been
taken down; and what is opened for a tab that is gone is never closed: it runs until its process
goes by itself. -/
theorem left_behind {s₀ : Store} (h₀ : page.init s₀) :
    (∀ ls s, page.Run (fun s l => ¬ Late s l) s₀ ls s → ∀ e p, .taken e p ∈ s.trace →
      e ∈ s.entries ∨ ∃ a ∈ s.trace, a.Ends p) ∧
    ∀ ls s e p cols rows s₁ ls' s', page.Run Machine.Any s₀ ls s → e ∉ s.entries →
      page.step s (.opened e (.ok (p, cols, rows))) = some s₁ →
      page.Run Machine.Any s₁ ls' s' →
      .closed p ∉ s'.trace ∧ (s'.held e = some p ∨ .gone p ∈ s'.trace) := by
  refine ⟨fun ls s hr e p hp => ?_, fun ls s e p cols rows s₁ ls' s' hr he hstep hr' => ?_⟩
  · have key : s.LeftNothing ∧ page.Reach s := by
      refine hr.invariant (I := fun s => s.LeftNothing ∧ page.Reach s) ?_ ?_
      · intro s l s' hs hl hstep
        exact ⟨step_leftNothing (sane_of_reach hs.2) hs.1 hl hstep, hs.2.step hstep⟩
      · obtain ⟨maxSessions, idPrefix, rfl⟩ := h₀
        exact ⟨fun _ _ he => absurd he (Option.some_ne_none _).symm,
          _, [], ⟨maxSessions, idPrefix, rfl⟩, .refl _⟩
    have hs := sane_of_reach key.2
    refine (hs.kept.sound.taken_held e p hp).imp_left fun hheld => ?_
    -- a tab that holds a terminal is in the table
    obtain ⟨en, hen, hid⟩ := Option.bind_eq_some_iff.mp hheld
    refine (hs.live e en hen).mp ?_
    by_contra hd
    exact absurd ((key.1 e en hen (eq_true_of_ne_false hd)).symm.trans hid) nofun
  · have hreach : page.Reach s := ⟨s₀, ls, h₀, hr⟩
    have hs := sane_of_reach hreach
    obtain ⟨en, hen, ha⟩ := Option.bind_eq_some_iff.mp hstep
    simp only [answer, Option.ite_none_right_eq_some, Option.some.injEq] at ha
    have hdis : en.session.disposed = true := by
      by_contra hno
      exact he ((hs.live e en hen).mp (eq_false_of_ne_true hno))
    have hfresh : ∀ a ∈ s.trace, a.handle ≠ p := fun a hm => by
      simpa using List.all_eq_true.mp ha.1.2 a hm
    have hastray : Astray e p s₁ := by
      rw [← ha.2]
      obtain ⟨en', hen', -, hdis', -⟩ := heap_opened (e := e) (p := p) (m := cols) (n := rows) hen
      refine ⟨⟨en', hen', hdis'.trans hdis⟩,
        List.mem_append_right _ (List.mem_singleton.mpr rfl), fun hc => ?_⟩
      rcases List.mem_append.mp hc with hc | hc
      · exact hfresh _ hc rfl
      · cases List.mem_singleton.mp hc
    have hend := run_astray (hreach.step hstep) hastray hr'
    refine ⟨hend.unclosed, ?_⟩
    have hs' := sane_of_reach ((hreach.step hstep).run hr')
    rcases hs'.kept.sound.taken_held e p hend.taken with hheld | ⟨a, hm, rfl | rfl⟩
    · exact .inl hheld
    · exact absurd hm hend.unclosed
    · exact .inr hm

/-- The page is left while a terminal is on its way: it comes up, and nobody closes it. -/
theorem asked_left : ∃ s s', page.exec (fresh 8 "term") (asking ++ [.disposeAll]) = some s ∧
    page.exec s [.opened 1 (.ok ("pty-0", 100, 30))] = some s' ∧
    .closed "pty-0" ∉ s'.trace ∧ s'.held 1 = some "pty-0" := by
  refine ⟨_, _, rfl, rfl, ?_, rfl⟩
  exact ((left_behind ⟨8, "term", rfl⟩).2 (asking ++ [.disposeAll]) _ 1 "pty-0" 100 30 _ [] _
    (Machine.run_of_exec Machine.guarded_any rfl) (show 1 ∉ ([] : List Nat) from List.not_mem_nil)
    rfl (.refl _)).1

/-! ### What a tab says -/

/-- **What a tab says is so.**  A tab that is shown as running has a process that has been started
and has not been said to be over; of one that is shown as exited or stopped nothing is held and
nothing is asked for any more; it is shown as stopped only where the user has stopped it; and no
tab ever names a signal. -/
theorem tab_truthful (h : page.Reach s) (hen : s.heap e = some en) :
    (en.tab.status = .running → en.session.everStarted = true ∧
      en.session.machineState.running = true) ∧
    (en.tab.status = .exited ∨ en.tab.status = .stopped →
      en.session.id = none ∧ en.begun.Returned) ∧
    (en.tab.status = .stopped → en.stopRequested = true ∧ en.tab.exitCode = none) ∧
    en.tab.exitSignal = none := by
  have ht := (sane_of_reach h).kept.truthful e en hen
  refine ⟨fun hs => ⟨ht.shown_started hs, ht.shown_running hs⟩, fun hs => ?_, ht.shown_stopped,
    ht.signal.2⟩
  obtain ⟨hever, hrun⟩ := ht.shown_over hs
  exact ⟨ht.past hever hrun, ht.started hever⟩

/-- What a close closes of the system's: what the tab holds, unless it asks first. -/
theorem trace_close (h : Sane s) {id : String} (hf : s.find id = some e)
    (hen : s.heap e = some en) (force : Bool) : (close s id force).trace =
      if (en.tab.status = .running ∨ en.tab.status = .starting) ∧ ¬ force then s.trace
      else s.trace ++ (en.session.id.toList.map Event.closed) := by
  have hany : ((s.heap e).any fun en =>
      decide (en.tab.status = .running ∨ en.tab.status = .starting)) =
        decide (en.tab.status = .running ∨ en.tab.status = .starting) := by rw [hen]; rfl
  rw [close, hf]
  dsimp only
  rw [hany]
  by_cases hask : (en.tab.status = .running ∨ en.tab.status = .starting) ∧ ¬ force
  · rw [if_pos hask, if_pos ⟨decide_eq_true hask.1, hask.2⟩]
  · rw [if_neg hask, if_neg fun hb => hask ⟨of_decide_eq_true hb.1, hb.2⟩]
    change (dispose { s with entries := s.entries.erase e } e).trace = _
    rw [dispose, hen]
    dsimp only
    rw [if_neg (by rw [h.found hf hen]; exact Bool.false_ne_true)]
    rcases en.session.id with _ | p
    · exact (List.append_nil _).symm
    · rfl

/-- **A close that is not confirmed.**  It leaves a tab that is running or starting as it is, it
takes any other out of the table, and it ends a process just where the tab has failed and holds
one all the same. -/
theorem unconfirmed_close (h : page.Reach s) {id : String} (hf : s.find id = some e)
    (hen : s.heap e = some en) :
    (en.tab.status = .running ∨ en.tab.status = .starting → close s id false = s) ∧
    (¬ (en.tab.status = .running ∨ en.tab.status = .starting) →
      e ∉ (close s id false).entries) ∧
    ((close s id false).trace ≠ s.trace ↔
      en.tab.status = .failed ∧ en.session.id.isSome = true) := by
  have hs := sane_of_reach h
  have htrace := trace_close hs hf hen false
  simp only [Bool.false_eq_true, not_false_eq_true, and_true] at htrace
  have hclose : ∀ b, ((s.heap e).any fun en =>
      decide (en.tab.status = .running ∨ en.tab.status = .starting)) = b → close s id false =
        if b then s else (dispose { s with entries := s.entries.erase e } e).onChange := by
    intro b hb
    rw [close, hf]
    dsimp only
    rw [hb]
    cases b <;> simp
  refine ⟨fun hrun => ?_, fun hrun => ?_, ?_⟩
  · rw [hclose true (by rw [hen]; exact decide_eq_true hrun), if_pos rfl]
  · rw [hclose false (by rw [hen]; exact decide_eq_false hrun), if_neg Bool.false_ne_true]
    change e ∉ (dispose { s with entries := s.entries.erase e } e).entries
    rw [(frame_dispose _ e).1]
    have hnodup : s.entries.Nodup := hs.kept.listed.imp Nat.ne_of_lt
    exact fun hm => (hnodup.mem_erase_iff.mp hm).1 rfl
  · rw [htrace]
    have hover := (tab_truthful h hen).2.1
    cases hstatus : en.tab.status with
    | running | starting => simp
    | exited =>
        have hid := (hover (.inl hstatus)).1
        simp [hid]
    | stopped =>
        have hid := (hover (.inr hstatus)).1
        simp [hid]
    | failed => rcases hid : en.session.id with _ | p <;> simp

/-- A key could not be written, and the tab is closed without a question. -/
theorem typed_closes : ∃ s, page.exec (fresh 8 "term") typed = some s ∧
    (close s "term-1" false).trace ≠ s.trace := by
  refine ⟨_, rfl, ?_⟩
  exact (unconfirmed_close (reach_of_exec (l := typed) rfl) (e := 1) rfl rfl).2.2.mpr ⟨rfl, rfl⟩

end RevBox.Terminal
