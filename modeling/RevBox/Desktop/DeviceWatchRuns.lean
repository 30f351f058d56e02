import RevBox.Desktop.DeviceWatch

/-!
# Desktop — DeviceWatchRuns

What holds over whole runs of the device watch.  `said` is what has been emitted or is still to be
emitted by a poll under way; `calls` the same of `device_disconnected`.
-/

namespace RevBox.DeviceWatch

open Machine (Any)

/-- The events emitted, and those that the polls under way have still to emit. -/
def Watch.said (w : Watch) : List DeviceChangedPayload := w.emitted ++ w.polls.flatMap (·.events)

/-- The devices disconnected, and those that the polls under way have still to disconnect. -/
def Watch.calls (w : Watch) : List (List Char) := w.disconnected ++ w.polls.flatMap (·.disconnects)

/-- A poll that lists devices. -/
def Action.lists : Action → Bool
  | .listed _ _ => true
  | _ => false

/-- A poll begins to do something. -/
def Action.begins : Action → Bool
  | .listed _ _ | .missing => true
  | _ => false

/-- What is known is forgotten. -/
def Action.clears : Action → Bool
  | .missing | .reprobe => true
  | _ => false

/-- The action lists the device. -/
def Action.names (s : List Char) : Action → Bool
  | .listed devices _ => !(lines s devices).isEmpty
  | _ => false

/-- No poll begins to do something while another is under way. -/
def OneAtATime (w : Watch) (a : Action) : Prop := a.begins = true → w.polls = []

variable {w w' : Watch} {s : List Char} {now : Int}

/-! ### What one step does -/

theorem split_at {α : Type} {l : List α} {i : Nat} {a : α} (h : l[i]? = some a) :
    ∃ l₁ l₂, l = l₁ ++ a :: l₂ ∧ (∀ b, l.set i b = l₁ ++ b :: l₂) ∧ l.eraseIdx i = l₁ ++ l₂ := by
  obtain ⟨hi, rfl⟩ := List.getElem?_eq_some_iff.mp h
  refine ⟨l.take i, l.drop (i + 1), ?_, fun b => ?_, List.eraseIdx_eq_take_drop_succ l i⟩
  · rw [← List.drop_eq_getElem_cons hi, List.take_append_drop]
  · rw [List.set_eq_take_append_cons_drop, if_pos hi]

/-- **What a poll has to report, it moves from what it owes to what is done, one at a time.** -/
theorem go_perm {i : Nat} {p : Poll} (h : w.polls[i]? = some p) :
    (w.go i p).said.Perm w.said ∧ (w.go i p).calls.Perm w.calls := by
  obtain ⟨before, after, hpolls, hset, herase⟩ := split_at h
  have hmove {α : Type} (done front back : List α) (a : α) :
      ((done ++ [a]) ++ (front ++ back)).Perm (done ++ (front ++ a :: back)) := by
    rw [List.append_assoc, List.singleton_append]
    exact (List.perm_middle.symm).append_left done
  match p with
  | ⟨s :: rest, events, appeared⟩ =>
      simp only [Watch.said, Watch.calls, Watch.go, hset]
      simp only [hpolls, List.flatMap_append, List.flatMap_cons, List.cons_append]
      exact ⟨.refl _, hmove ..⟩
  | ⟨[], e :: rest, appeared⟩ =>
      simp only [Watch.said, Watch.calls, Watch.go, hset]
      simp only [hpolls, List.flatMap_append, List.flatMap_cons, List.cons_append]
      exact ⟨hmove .., .refl _⟩
  | ⟨[], [], appeared⟩ =>
      simp only [Watch.said, Watch.calls, Watch.go, herase]
      simp only [hpolls, List.flatMap_append, List.flatMap_cons, List.nil_append]
      exact ⟨.refl _, .refl _⟩

/-- Of one poll the order is kept too. -/
theorem go_alone {i : Nat} {p : Poll} (h : w.polls[i]? = some p) (hone : w.polls.length ≤ 1) :
    (w.go i p).said = w.said ∧ (w.go i p).calls = w.calls ∧ (w.go i p).polls.length ≤ 1 := by
  obtain ⟨hi, hp⟩ := List.getElem?_eq_some_iff.mp h
  obtain rfl : i = 0 := by omega
  obtain ⟨q, hq⟩ := List.length_eq_one_iff.mp (le_antisymm hone hi)
  obtain rfl : q = p := by simpa [hq] using h
  match q with
  | ⟨s :: rest, events, appeared⟩ =>
      simp [Watch.said, Watch.calls, Watch.go, hq]
  | ⟨[], e :: rest, appeared⟩ =>
      simp [Watch.said, Watch.calls, Watch.go, hq]
  | ⟨[], [], appeared⟩ =>
      simp [Watch.said, Watch.calls, Watch.go, hq]

theorem go_known (i : Nat) (p : Poll) : (w.go i p).known = w.known := by
  match p with
  | ⟨_ :: _, _, _⟩ | ⟨[], _ :: _, _⟩ | ⟨[], [], _⟩ => rfl

/-- **What a step that is no poll of devices does**: it neither adds to what is said nor takes from
it, and forgets what is known or leaves it. -/
theorem step_quiet {a : Action} (ha : a.lists = false) (h : watch.step w a = some w') :
    w'.said.Perm w.said ∧
      w'.known.lookup s = if a.clears = true then none else w.known.lookup s := by
  cases a with
  | listed devices now => cases ha
  | missing =>
      cases h
      simp [Watch.said, Action.clears]
  | failed =>
      cases h
      exact ⟨.refl _, rfl⟩
  | reprobe =>
      cases h
      exact ⟨.refl _, rfl⟩
  | go i =>
      obtain ⟨p, hp, rfl⟩ := Option.map_eq_some_iff.mp h
      refine ⟨(go_perm hp).1, ?_⟩
      rw [go_known]
      rfl

theorem run_quiet {ls : List Action}
    (h : watch.Run (fun _ a => a.lists = false) w ls w') :
    w'.said.Perm w.said ∧
      w'.known.lookup s = if ls.any Action.clears = true then none else w.known.lookup s := by
  induction h with
  | refl => exact ⟨.refl _, rfl⟩
  | more hc hs _ ih =>
      obtain ⟨hsaid, hknown⟩ := step_quiet (s := s) hc hs
      refine ⟨ih.1.trans hsaid, ih.2.trans ?_⟩
      rw [hknown, List.any_cons]
      simp only [Bool.or_eq_true]
      split
      · next hany => simp [hany]
      · next hany => simp [hany]

/-- **A poll that lists devices** says what is new, after all that was said. -/
theorem step_listed {devices : List DeviceEntry}
    (h : watch.step w (.listed devices now) = some w') :
    w'.known.lookup s = lastState s devices ∧ w'.emitted = w.emitted ∧
      w'.polls = w.polls ++ [(diff now w.known devices).poll] ∧
      w'.said = w.said ++ (diff now w.known devices).events := by
  cases h
  refine ⟨diff_known .., rfl, rfl, ?_⟩
  simp [Watch.said, Diff.poll]

/-! ### Polls one after another -/

/-- A device that was known has been forgotten, and not been listed since. -/
def Forgotten (s : List Char) (ls : List Action) : Prop :=
  ∃ before a after w₁, ls = before ++ a :: after ∧ watch.Run OneAtATime .new before w₁ ∧
    (w₁.known.lookup s).isSome = true ∧ a.clears = true ∧ ∀ l ∈ after, l.names s = false

theorem Forgotten.snoc {ls : List Action} {a : Action} (h : Forgotten s ls)
    (ha : a.names s = false) : Forgotten s (ls ++ [a]) := by
  obtain ⟨before, b, after, w₁, rfl, hrun, hknown, hb, hafter⟩ := h
  refine ⟨before, b, after ++ [a], w₁, ?_, hrun, hknown, hb, ?_⟩
  · rw [List.append_assoc, List.cons_append]
  · rw [List.forall_mem_append, List.forall_mem_singleton]
    exact ⟨hafter, ha⟩

/-- The last that is said of the device is that it is there. -/
def SaidThere (s : List Char) (events : List DeviceChangedPayload) : Prop :=
  (about s events).getLast?.any (·.present) = true

/-- **What is said to be there is known, or was forgotten.** -/
theorem said_there {ls : List Action} (h : watch.Run OneAtATime .new ls w) :
    w.polls.length ≤ 1 ∧
      (SaidThere s w.said → (w.known.lookup s).isSome = true ∨ Forgotten s ls) := by
  refine h.history (P := fun ls w => w.polls.length ≤ 1 ∧
    (SaidThere s w.said → (w.known.lookup s).isSome = true ∨ Forgotten s ls)) ?_
    ⟨Nat.zero_le 1, nofun⟩
  rintro ls w₁ a w₂ hrun ⟨hone, hthere⟩ hguard hstep
  cases a with
  | failed =>
      cases hstep
      exact ⟨hone, fun h => (hthere h).imp_right (·.snoc rfl)⟩
  | go i =>
      obtain ⟨p, hp, rfl⟩ := Option.map_eq_some_iff.mp hstep
      obtain ⟨hsaid, -, hone'⟩ := go_alone hp hone
      rw [hsaid, go_known]
      exact ⟨hone', fun h => (hthere h).imp_right (·.snoc rfl)⟩
  | missing | reprobe =>
      obtain ⟨hsaid, hknown⟩ : w₂.said = w₁.said ∧ w₂.polls.length ≤ 1 := by
        cases hstep
        first
          | exact ⟨rfl, hone⟩
          | simp [Watch.said, hguard rfl]
      refine ⟨hknown, fun h => .inr ?_⟩
      rw [hsaid] at h
      rcases hthere h with hsome | hforgotten
      · exact ⟨ls, _, [], w₁, rfl, hrun, hsome, rfl, nofun⟩
      · exact hforgotten.snoc rfl
  | listed devices now =>
      obtain ⟨hknown, -, hpolls, hsaid⟩ := step_listed (s := s) hstep
      rw [hpolls, hguard rfl, hsaid, hknown]
      refine ⟨le_refl 1, fun h => ?_⟩
      by_cases hlines : lines s devices = []
      · rw [SaidThere, about_append, diff_events, hlines] at h
        by_cases hsome : (w₁.known.lookup s).isSome = true
        · rw [if_pos ⟨rfl, hsome⟩, List.getLast?_append] at h
          cases h
        · rw [if_neg fun h => hsome h.2, reports, List.append_nil] at h
          exact .inr (((hthere h).resolve_left hsome).snoc (by rw [Action.names, hlines]; rfl))
      · exact .inl (Option.ne_none_iff_isSome.mp (mt lastState_eq_none.mp hlines))

/-- **A poll left to itself reports what it has to.** -/
theorem run_alone {ls : List Action} (h : watch.Run (fun _ a => a.begins = false) w ls w')
    (hone : w.polls.length ≤ 1) : w'.said = w.said ∧ w'.calls = w.calls := by
  induction h with
  | refl => exact ⟨rfl, rfl⟩
  | @more w w₁ w' a ls hc hs _ ih =>
      obtain ⟨hsaid, hcalls, hone'⟩ : w₁.said = w.said ∧ w₁.calls = w.calls ∧
          w₁.polls.length ≤ 1 := by
        cases a with
        | listed devices now => cases hc
        | missing => cases hc
        | failed | reprobe =>
            cases hs
            exact ⟨rfl, rfl, hone⟩
        | go i =>
            obtain ⟨p, hp, rfl⟩ := Option.map_eq_some_iff.mp hs
            exact go_alone hp hone
      obtain ⟨hsaid', hcalls'⟩ := ih hone'
      exact ⟨hsaid'.trans hsaid, hcalls'.trans hcalls⟩

/-- What a poll has still to do. -/
def Poll.left (p : Poll) : Nat := p.disconnects.length + p.events.length + 1

/-- **Every poll can come to its end.** -/
theorem polls_can_end (w : Watch) :
    ∃ ls w', watch.Run (fun _ a => a.begins = false) w ls w' ∧ w'.polls = [] := by
  induction hn : (w.polls.map Poll.left).sum using Nat.strong_induction_on generalizing w with
  | _ n ih =>
      match hpolls : w.polls with
      | [] => exact ⟨[], w, .refl w, hpolls⟩
      | p :: rest =>
          have hstep : watch.step w (.go 0) = some (w.go 0 p) := by
            show w.polls[0]?.map (w.go 0) = _
            rw [hpolls]
            rfl
          have hless : ((w.go 0 p).polls.map Poll.left).sum < n := by
            rw [← hn, hpolls]
            match p with
            | ⟨_ :: _, _, _⟩ | ⟨[], _ :: _, _⟩ | ⟨[], [], _⟩ =>
                simp [Watch.go, hpolls, Poll.left]
          obtain ⟨ls, w', hrun, hend⟩ := ih _ hless (w.go 0 p) rfl
          exact ⟨.go 0 :: ls, w', .more rfl hstep hrun, hend⟩

/-- What the watch forgot: by `reprobe`, or without `adb`, and then the device is disconnected. -/
def ForgottenBy (w : Watch) (s : List Char) (a : Action) : Prop :=
  a = .reprobe ∨ a = .missing ∧ ∃ w' p, watch.step w .missing = some w' ∧
    w'.polls = w.polls ++ [p] ∧ p.events = [] ∧ s ∈ p.disconnects

theorem forgottenBy {w : Watch} {a : Action} (ha : a.clears = true)
    (hknown : (w.known.lookup s).isSome = true) : ForgottenBy w s a := by
  cases a with
  | reprobe => exact .inl rfl
  | missing =>
      exact .inr ⟨rfl, _, _, rfl, rfl, rfl, AList.mem_keys.mp (AList.lookup_isSome.mp hknown)⟩
  | listed | failed | go => cases ha

/-- A poll that reports only that a device is gone disconnects it once. -/
theorem count_disconnects {d : Diff} (h : about s d.events = [goneEvent now s]) :
    d.poll.disconnects.count s = 1 := by
  have hfilter : about s (d.events.filter fun e => !e.present || e.state ≠ "device".toList) =
      [goneEvent now s] := by
    rw [about, List.filter_comm, ← about, h]
    rfl
  have hlength := congrArg List.length hfilter
  rw [about, ← List.countP_eq_length_filter] at hlength
  rw [Diff.poll, List.count_eq_countP, List.countP_map]
  refine (List.countP_congr fun e _ => ?_).trans hlength
  rw [Function.comp_apply, beq_iff_eq, decide_eq_true_iff]

/-- **What the watch reports.** -/
theorem watch_reports :
    -- after a poll that listed devices, known is what the last line about each says
    (∀ w devices now w', watch.step w (.listed devices now) = some w' →
      ∀ s, w'.known.lookup s = lastState s devices) ∧
    -- of a device the second of two such polls reports what changed since the first, or since what
    -- was known was forgotten, once
    (∀ w₀ devices₁ now₁ w₁ between w₂ devices₂ now₂ w₃ rest w₄,
      watch.step w₀ (.listed devices₁ now₁) = some w₁ →
      watch.Run (fun _ a => a.lists = false) w₁ between w₂ →
      watch.step w₂ (.listed devices₂ now₂) = some w₃ →
      watch.Run (fun _ a => a.lists = false) w₃ rest w₄ → w₄.polls = [] →
      ∀ s, (about s w₄.emitted).length = (about s w₁.said).length +
        changes (if between.any Action.clears then none else lastState s devices₁)
          (lines s devices₂)) ∧
    -- a device that was last said to be there and is not listed is reported gone and disconnected,
    -- unless it was forgotten
    (∀ ls w devices now w', watch.Run OneAtATime .new ls w → w.polls = [] →
      watch.step w (.listed devices now) = some w' →
      ∀ s, (about s w.emitted).getLast?.any (·.present) = true → lines s devices = [] →
        (∀ rest w'', watch.Run (fun _ a => a.begins = false) w' rest w'' → w''.polls = [] →
          about s w''.emitted = about s w.emitted ++ [goneEvent now s] ∧
            w''.disconnected.count s = w.disconnected.count s + 1) ∨
        ∃ before a after w₁, ls = before ++ a :: after ∧ watch.Run OneAtATime .new before w₁ ∧
          (w₁.known.lookup s).isSome = true ∧ ForgottenBy w₁ s a ∧
          ∀ l ∈ after, l.names s = false) := by
  refine ⟨fun w devices now w' h s => (step_listed h).1, ?_, ?_⟩
  · intro w₀ devices₁ now₁ w₁ between w₂ devices₂ now₂ w₃ rest w₄ h₁ hbetween h₂ hrest hend s
    obtain ⟨hknown₁, -⟩ := step_listed (s := s) h₁
    obtain ⟨hsaid₂, hknown₂⟩ := run_quiet (s := s) hbetween
    obtain ⟨-, -, -, hsaid₃⟩ := step_listed (s := s) h₂
    obtain ⟨hsaid₄, -⟩ := run_quiet (s := s) hrest
    have hemitted : w₄.emitted = w₄.said := by simp [Watch.said, hend]
    have hcount := (hsaid₄.filter (·.serial = s)).length_eq
    have hbefore := (hsaid₂.filter (·.serial = s)).length_eq
    rw [hsaid₃] at hcount
    have hnew : (about s (diff now₂ w₂.known devices₂).events).length = _ :=
      length_diff_events w₂.known devices₂
    rw [hemitted, ← hknown₁, ← hknown₂, ← hnew]
    simp only [about, List.filter_append, List.length_append] at *
    omega
  · intro ls w devices now w' hrun hidle hstep s hthere hlines
    obtain ⟨-, hcases⟩ := said_there (s := s) hrun
    have hemitted : w.said = w.emitted := by simp [Watch.said, hidle]
    rw [hemitted] at hcases
    rcases hcases hthere with hsome | ⟨before, a, after, w₁, hls, hbefore, hw₁, ha, hafter⟩
    · refine .inl fun rest w'' hrest hend => ?_
      obtain ⟨-, -, hpolls, hsaid⟩ := step_listed (s := s) hstep
      have hgone : about s (diff now w.known devices).events = _ := diff_events w.known devices
      rw [if_pos ⟨hlines, hsome⟩] at hgone
      have hone : w'.polls.length ≤ 1 := by simp [hpolls, hidle]
      obtain ⟨hsaid', hcalls'⟩ := run_alone hrest hone
      have hemitted' : w''.said = w''.emitted := by simp [Watch.said, hend]
      have hdone : w''.calls = w''.disconnected := by simp [Watch.calls, hend]
      have hcalls : w'.calls = w.disconnected ++ (diff now w.known devices).poll.disconnects := by
        cases hstep
        simp [Watch.calls, hidle]
      rw [← hemitted', ← hdone, hsaid', hcalls', hsaid, hemitted, hcalls, about_append, hgone,
        List.count_append, count_disconnects hgone]
      exact ⟨rfl, rfl⟩
    · exact .inr ⟨before, a, after, w₁, hls, hbefore, hw₁, forgottenBy ha hw₁, hafter⟩

/-! ### Where a departure is not reported -/

/-- The poll begun last reports that the device is gone. -/
def ReportsGone (s : List Char) (now : Int) (w : Watch) : Prop :=
  ∃ p ∈ w.polls.getLast?, goneEvent now s ∈ p.events

instance (w : Watch) (a : Action) : Decidable (OneAtATime w a) :=
  inferInstanceAs (Decidable (_ → _))

instance (s : List Char) (now : Int) (w : Watch) : Decidable (ReportsGone s now w) :=
  inferInstanceAs (Decidable (∃ p ∈ w.polls.getLast?, goneEvent now s ∈ p.events))

/-- A device comes, and goes while there is no `adb`. -/
def goneMeanwhile : List Action :=
  [.listed [⟨['p'], "device".toList, []⟩] 0, .go 0, .go 0, .missing, .go 0, .go 0]

/-- A device comes and goes, and of two polls the second is through first. -/
def overtaken : List Action :=
  [.listed [⟨['p'], "device".toList, []⟩] 0, .listed [] 1, .go 1, .go 1, .go 1, .go 0, .go 0]

/-- **A departure can go unreported**, when what was known is forgotten, and when two polls cross;
and a list with two lines about a device makes two events of one change. -/
theorem departure_unreported :
    (¬ ∀ ls w devices now w', watch.Run OneAtATime .new ls w →
      watch.step w (.listed devices now) = some w' →
      ∀ s, (about s w.emitted).getLast?.any (·.present) = true → lines s devices = [] →
        ReportsGone s now w') ∧
    (¬ ∀ ls w devices now w', watch.Run Any .new ls w → ls.any Action.clears = false →
      watch.step w (.listed devices now) = some w' →
      ∀ s, (about s w.emitted).getLast?.any (·.present) = true → lines s devices = [] →
        ReportsGone s now w') ∧
    ¬ ∀ now known devices s, (about s (diff now known devices).events).length =
      if known.lookup s = lastState s devices then 0 else 1 := by
  refine ⟨fun h => ?_, fun h => ?_, fun h => ?_⟩
  · have hguard : watch.Guarded OneAtATime .new goneMeanwhile := by decide
    obtain ⟨w, hrun, hw⟩ := Machine.run_of_exec_any hguard
      (P := fun w => (about ['p'] w.emitted).getLast?.any (·.present) &&
        decide (∃ w' ∈ watch.step w (.listed [] 2), ¬ ReportsGone ['p'] 2 w')) (rfl)
    rw [Bool.and_eq_true, decide_eq_true_iff] at hw
    obtain ⟨hthere, w', hstep, hnot⟩ := hw
    exact hnot (h _ w [] 2 w' hrun hstep ['p'] hthere rfl)
  · have hguard : watch.Guarded Any .new overtaken := Machine.guarded_any
    obtain ⟨w, hrun, hw⟩ := Machine.run_of_exec_any hguard
      (P := fun w => (about ['p'] w.emitted).getLast?.any (·.present) &&
        decide (∃ w' ∈ watch.step w (.listed [] 2), ¬ ReportsGone ['p'] 2 w')) (rfl)
    rw [Bool.and_eq_true, decide_eq_true_iff] at hw
    obtain ⟨hthere, w', hstep, hnot⟩ := hw
    exact hnot (h _ w [] 2 w' hrun rfl hstep ['p'] hthere rfl)
  · have htwo := h 0 ∅ [⟨['p'], "offline".toList, []⟩, ⟨['p'], "device".toList, []⟩] ['p']
    revert htwo
    decide

end RevBox.DeviceWatch
