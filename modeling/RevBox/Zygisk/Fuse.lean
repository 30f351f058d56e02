import RevBox.Support.Breaker
import RevBox.Zygisk.Replies

/-!
# Zygisk — Fuse

The fuse of each method over every sequence of lines: the module serves one session after the other
in one thread, so the lines of all sessions are in the order of time.  A method has failed where
`run_helper` has no payload, and has succeeded where it has one.

* `fuse_law`: a method is fused for a minute from each failure on that ended a run of three; nothing
  but its own runs counts; no helper is run for it; and a status line says which are not fused.
-/

namespace RevBox.Zygisk

open CText Breaker

/-! ### Requests -/

/-- A line, and what it finds: what `rest` held, what is behind the buffers, the clock, the helper
and the files. -/
structure Served where
  line : Bytes
  stale : Bytes
  beyond : Bytes
  round : Round

/-- The method whose helper a task runs. -/
def Task.runs : Task → Option Command
  | .status | .registry => none
  | .list _ _ _ => some .l
  | .one _ => some .p
  | .manifest => some .m
  | .files _ => some .e

/-- What a run of the helper is for the fuse: nothing, while the helper is there. -/
def noteOf (time : Nat) : Option (Option Bytes × HelperResult) → Option Note
  | none => none
  | some (none, _) => some (.failed time)
  | some (some _, _) => some .succeeded

/-- What a line is for the fuse of a method. -/
def Verdict.note (w : Round) (h : Command) : Verdict → Option Note
  | .close | .refuse _ _ _ => none
  | .run task =>
      if task.runs = some h then noteOf w.later (runHelper h.maxResponse w.helper) else none

/-- The fuse after a line. -/
def settle (fuse : Fuse) : Option Outcome → Fuse
  | some outcome => outcome.fuse
  | none => fuse

namespace Served

/-- What the line comes to. -/
def verdict (fuse : Fuse) (q : Served) : Verdict :=
  (judge (fusedAt fuse q.round.now) q.stale q.line).1

/-- The fuse after the line. -/
def after (m : ModuleMeta) (fuse : Fuse) (q : Served) : Fuse :=
  settle fuse (step m q.beyond q.round q.line q.stale fuse).1

end Served

/-- The fuse after a sequence of requests. -/
def fuseAfter (m : ModuleMeta) : Fuse → List Served → Fuse
  | fuse, [] => fuse
  | fuse, q :: qs => fuseAfter m (q.after m fuse) qs

/-- What a method was noted for, in turn. -/
def history (m : ModuleMeta) (h : Command) : Fuse → List Served → List Note
  | _, [] => []
  | fuse, q :: qs => ((q.verdict fuse).note q.round h).toList ++ history m h (q.after m fuse) qs

/-- The requests come one after the other, between two times. -/
def InTime : Nat → List Served → Nat → Prop
  | start, [], stop => start ≤ stop
  | start, q :: qs, stop =>
      start ≤ q.round.now ∧ q.round.now ≤ q.round.later ∧ InTime q.round.later qs stop

/-- The capabilities of the methods that are not fused, in the order of `HANDLERS`. -/
def capabilities (fused : Command → Bool) : List Bytes :=
  (handlers.filter fun h => !fused h).filterMap Command.capability

/-! ### A method is a breaker -/

/-- The state of a method, as that of a breaker. -/
def HandlerState.breaker (st : HandlerState) : Breaker.State := ⟨st.fails, st.fusedUntilMs⟩

variable {m : ModuleMeta} {fuse : Fuse} {h h' : Command} {beyond : Bytes} {helper : Helper}

/-- Without a payload, a run was no success. -/
theorem not_ok_of_runHelper {cap : Nat} {result : HelperResult}
    (hrun : runHelper cap helper = some (none, result)) : result ≠ .ok := by
  unfold runHelper at hrun
  grind

/-- What `runFramed` leaves of the state of a method. -/
theorem breaker_runFramed {now : Nat} {st st' : HandlerState} {frames : List Bytes}
    (hrun : runFramed beyond now h helper st = some (frames, st')) :
    st'.breaker = run 3 60000 st.breaker (noteOf now (runHelper h.maxResponse helper)).toList := by
  rw [runFramed] at hrun
  split at hrun
  · cases hrun
  · rename_i result hhelper
    rw [if_pos (not_ok_of_runHelper hhelper)] at hrun
    cases hrun
    rw [hhelper]
    rfl
  · rename_i payload result hhelper
    cases hrun
    rw [hhelper]
    rfl

/-- Nor does `runExport`, whatever becomes of the files. -/
theorem breaker_runExport {now : Nat} {disk : Storage} {package : Bytes} {st st' : HandlerState}
    {parts : List Part} {goesOn : Bool}
    (hrun : runExport beyond now disk package helper st = some (parts, goesOn, st')) :
    st'.breaker =
      run 3 60000 st.breaker (noteOf now (runHelper Command.e.maxResponse helper)).toList := by
  rw [runExport] at hrun
  split at hrun
  · cases hrun
  · rename_i result hhelper
    rw [if_pos (not_ok_of_runHelper hhelper)] at hrun
    cases hrun
    rw [hhelper]
    rfl
  · rename_i payload result hhelper
    rw [hhelper]
    have hst : st' = noteSuccess st := by
      split at hrun <;> cases hrun <;> rfl
    rw [hst]
    rfl

/-- A method whose helper does not come back is as it was. -/
theorem runFramed_eq_none {now : Nat} {st : HandlerState}
    (hrun : runFramed beyond now h helper st = none) : runHelper h.maxResponse helper = none := by
  rw [runFramed] at hrun
  split at hrun
  · assumption
  · cases hrun
  · cases hrun

theorem runExport_eq_none {now : Nat} {disk : Storage} {package : Bytes} {st : HandlerState}
    (hrun : runExport beyond now disk package helper st = none) :
    runHelper Command.e.maxResponse helper = none := by
  rw [runExport] at hrun
  split at hrun
  · assumption
  · cases hrun
  · split at hrun <;> cases hrun

/-- One method was run, or its helper does not come back; the others are as they were. -/
theorem breaker_settle (note : Command → Option Note) {outcome : Option Outcome}
    (hsome : ∀ o, outcome = some o → ∃ st, o.fuse = fuse.set h st ∧
      st.breaker = run 3 60000 (fuse h).breaker (note h).toList)
    (hnone : outcome = none → note h = none) :
    (settle fuse outcome h').breaker =
      run 3 60000 (fuse h').breaker (if some h = some h' then note h' else none).toList := by
  by_cases heq : h' = h
  · subst heq
    rw [if_pos rfl]
    cases outcome with
    | none =>
        rw [hnone rfl]
        rfl
    | some o =>
        obtain ⟨st, hfuse, hst⟩ := hsome o rfl
        rw [settle, hfuse, Fuse.set, if_pos rfl]
        exact hst
  · rw [if_neg fun hh => heq (Option.some.inj hh).symm]
    cases outcome with
    | none => rfl
    | some o =>
        obtain ⟨st, hfuse, -⟩ := hsome o rfl
        rw [settle, hfuse, Fuse.set, if_neg heq]
        rfl

variable {w : Round}

theorem breaker_respondFramed :
    (settle fuse (respondFramed beyond w fuse h) h').breaker = run 3 60000 (fuse h').breaker
      (if some h = some h' then noteOf w.later (runHelper h'.maxResponse w.helper)
        else none).toList := by
  refine breaker_settle (fun h => noteOf w.later (runHelper h.maxResponse w.helper))
    (fun o ho => ?_) fun hnone => ?_
  · obtain ⟨r, hrun, rfl⟩ := Option.map_eq_some_iff.mp ho
    exact ⟨r.2, rfl, breaker_runFramed hrun⟩
  · exact congrArg (noteOf w.later) (runFramed_eq_none (Option.map_eq_none_iff.mp hnone))

theorem breaker_respondExport {package : Bytes} :
    (settle fuse (respondExport beyond w fuse package) h').breaker = run 3 60000 (fuse h').breaker
      (if some .e = some h' then noteOf w.later (runHelper h'.maxResponse w.helper)
        else none).toList := by
  refine breaker_settle (fun h => noteOf w.later (runHelper h.maxResponse w.helper))
    (fun o ho => ?_) fun hnone => ?_
  · obtain ⟨r, hrun, rfl⟩ := Option.map_eq_some_iff.mp ho
    exact ⟨r.2.2, rfl, breaker_runExport hrun⟩
  · exact congrArg (noteOf w.later) (runExport_eq_none (Option.map_eq_none_iff.mp hnone))

/-- **What a line does to the fuse of a method** is what it is noted for. -/
theorem breaker_respond (v : Verdict) :
    (settle fuse (respond m beyond w fuse v) h').breaker =
      run 3 60000 (fuse h').breaker (v.note w h').toList := by
  match v with
  | .close | .refuse true _ _ | .refuse false _ _ | .run .status | .run .registry => rfl
  | .run (.list _ _ _) => exact breaker_respondFramed
  | .run (.one _) => exact breaker_respondFramed
  | .run .manifest => exact breaker_respondFramed
  | .run (.files _) => exact breaker_respondExport

theorem breaker_after (q : Served) :
    (q.after m fuse h).breaker =
      run 3 60000 (fuse h).breaker ((q.verdict fuse).note q.round h).toList :=
  breaker_respond _

/-- A sequence of requests does to a method what it is noted for. -/
theorem breaker_fuseAfter : ∀ {fuse : Fuse} (qs : List Served),
    (fuseAfter m fuse qs h).breaker = run 3 60000 (fuse h).breaker (history m h fuse qs)
  | _, [] => rfl
  | fuse, q :: qs => by
      rw [fuseAfter, history, run_append, breaker_fuseAfter qs, breaker_after]

/-! ### Time -/

theorem InTime.le : ∀ {start stop : Nat} {qs : List Served}, InTime start qs stop → start ≤ stop
  | _, _, [], h => h
  | _, _, _ :: _, ⟨hnow, hlater, h⟩ => hnow.trans (hlater.trans h.le)

/-- A note has the time of its request. -/
theorem time_note {v : Verdict} {t : Nat}
    (ht : t ∈ (v.note w h).toList.filterMap Note.time) : t = w.later := by
  match v with
  | .close | .refuse _ _ _ => cases ht
  | .run task =>
      simp only [Verdict.note] at ht
      split at ht
      · cases hrun : runHelper h.maxResponse w.helper with
        | none =>
            rw [hrun] at ht
            cases ht
        | some r =>
            obtain ⟨payload, result⟩ := r
            rw [hrun] at ht
            cases payload with
            | none => exact List.mem_singleton.mp ht
            | some payload => cases ht
      · cases ht

/-- The history of requests that are in time is ordered, and after their beginning. -/
theorem history_ordered : ∀ (fuse : Fuse) {start stop : Nat} (qs : List Served),
    InTime start qs stop → Ordered (history m h fuse qs) ∧
      ∀ t ∈ (history m h fuse qs).filterMap Note.time, start ≤ t
  | _, _, _, [], _ => ⟨List.Pairwise.nil, fun _ ht => nomatch ht⟩
  | fuse, start, stop, q :: qs, ⟨hnow, hlater, hin⟩ => by
      have htime : ∀ t ∈ ((q.verdict fuse).note q.round h).toList.filterMap Note.time,
          t = q.round.later := fun _ => time_note
      have hnote : Ordered ((q.verdict fuse).note q.round h).toList := by
        cases (q.verdict fuse).note q.round h with
        | none => exact List.Pairwise.nil
        | some n => cases n <;> first | exact List.Pairwise.nil | exact List.pairwise_singleton _ _
      obtain ⟨hordered, hafter⟩ := history_ordered (q.after m fuse) qs hin
      rw [history, Ordered, List.filterMap_append]
      refine ⟨List.pairwise_append.mpr ⟨hnote, hordered, fun t ht t' ht' => ?_⟩, fun t ht => ?_⟩
      · rw [htime t ht]
        exact hafter t' ht'
      · rcases List.mem_append.mp ht with ht | ht
        · rw [htime t ht]
          exact hnow.trans hlater
        · exact hnow.trans (hlater.trans (hafter t ht))

/-! ### What is run, and what is told -/

/-- A request that does not run the helper of a method leaves its state as it is. -/
theorem after_of_not_run (q : Served)
    (hq : ∀ task, q.verdict fuse = .run task → task.runs ≠ some h) :
    q.after m fuse h = fuse h := by
  have hnote : (q.verdict fuse).note q.round h = none := by
    cases hv : q.verdict fuse with
    | close => rfl
    | refuse framed code message => rfl
    | run task => exact if_neg (hq task hv)
  have hst : (q.after m fuse h).breaker = (fuse h).breaker := by
    rw [breaker_after, hnote]
    rfl
  obtain ⟨hfails, huntil⟩ := Breaker.State.mk.inj hst
  cases hafter : q.after m fuse h with
  | mk fails fusedUntilMs =>
      rw [hafter] at hfails huntil
      subst hfails huntil
      rfl

theorem runs_judgeCommand {rest : Bytes} {task : Task} (hv : judgeCommand rest h' = .run task)
    (hruns : task.runs = some h) : h' = h := by
  cases h' with
  | s | i =>
      cases hv
      cases hruns
  | m =>
      cases hv
      exact Option.some.inj hruns
  | l =>
      simp only [judgeCommand, judgeList] at hv
      grind [Task.runs]
  | p =>
      simp only [judgeCommand, judgeDescribe] at hv
      grind [Task.runs]
  | e =>
      simp only [judgeCommand, judgeExport] at hv
      grind [Task.runs]

/-- No helper is run for a method that is fused. -/
theorem not_fused_of_runs {fused : Command → Bool} {stale line : Bytes} {task : Task}
    (hv : (judge fused stale line).1 = .run task) (hruns : task.runs = some h) :
    fused h = false := by
  unfold judge at hv
  generalize cString _ = line at hv
  simp only at hv
  split at hv
  · cases hv
  split at hv
  · cases hv
  split at hv
  · cases hv
  rename_i h' _
  by_cases hfused : fused h' = true
  · rw [if_pos hfused] at hv
    cases hv
  · rw [if_neg hfused] at hv
    rw [← runs_judgeCommand hv hruns]
    exact Bool.eq_false_iff.mpr hfused

theorem flatMap_capabilityWord (fused : Command → Bool) (hs : List Command) :
    hs.flatMap (capabilityWord fused) =
      ((hs.filter fun h => !fused h).filterMap Command.capability).flatMap fun c => 32 :: c := by
  induction hs with
  | nil => rfl
  | cons h hs ih =>
      rw [List.flatMap_cons, ih, capabilityWord, List.filter_cons]
      cases hfused : fused h with
      | true =>
          cases h.capability <;> rfl
      | false =>
          simp only [Bool.not_false, if_true, List.filterMap_cons]
          cases h.capability <;> rfl

theorem length_capabilityWord (fused : Command → Bool) (h : Command) :
    (capabilityWord fused h).length ≤ 9 := by
  rw [capabilityWord]
  split
  · split
    · exact Nat.zero_le _
    · rename_i heq _
      cases h <;> cases heq <;> decide
  · exact Nat.zero_le _

theorem sizeText_eq (n : Nat) : sizeText n = (Text.decimal n).map fun c => c.val.toUInt8 := by
  have hdigits : (toString n).toList = Nat.toDigits 10 n := String.toList_ofList
  rw [sizeText, lit, hdigits]
  rfl

theorem length_sizeText {n k : Nat} (hk : 0 < k) (hn : n < 10 ^ k) : (sizeText n).length ≤ k := by
  rw [sizeText_eq, List.length_map]
  exact (Nat.length_toDigits_le_iff (by decide) hk).mpr hn

theorem length_intText {n : Int} (hn : -2 ^ 63 ≤ n ∧ n < 2 ^ 63) : (intText n).length ≤ 20 := by
  cases n with
  | ofNat n =>
      have hlt : (n : Int) < 2 ^ 63 := hn.2
      exact (length_sizeText (k := 19) (by decide) (by omega)).trans (by decide)
  | negSucc n =>
      have hlt : n + 1 < 10 ^ 19 := by omega
      have hdigits := length_sizeText (by decide) hlt
      exact Nat.succ_le_succ hdigits

theorem length_flatMap_capabilityWord (fused : Command → Bool) (hs : List Command) :
    (hs.flatMap (capabilityWord fused)).length ≤ 9 * hs.length := by
  induction hs with
  | nil => exact Nat.le_refl _
  | cons h hs ih =>
      have hword := length_capabilityWord fused h
      rw [List.flatMap_cons, List.length_append, List.length_cons]
      omega

/-- **The status line** has room for all it is to say, and ends with the capabilities of the
methods that are not fused. -/
theorem statusLine_eq (m : ModuleMeta) (fused : Command → Bool) {word : Bytes}
    (hword : word.length ≤ 6) : statusLine m fused word =
      word ++ 32 :: (lit "2" ++ 32 :: (m.version ++ 32 :: (intText m.versionCode ++ 32 ::
        (m.locale ++ ((capabilities fused).flatMap (fun c => 32 :: c) ++ [10]))))) := by
  have hcapabilities : (handlers.flatMap (capabilityWord fused)).length ≤ 54 :=
    length_flatMap_capabilityWord fused handlers
  have hcode := length_intText m.code_bounds
  have hversion := m.version_le
  have hlocale := m.locale_le
  rw [statusLine, List.take_of_length_le, statusText, flatMap_capabilityWord]
  · rfl
  · simp only [statusText, List.length_append, List.length_cons, List.length_nil]
    have htwo : (lit "2").length = 1 := rfl
    omega

/-! ### The law -/

/-- **The fuse of a method**, after any requests in the order of time: it is fused for a minute from
each failure on that ended a run of three; what is not a run of its own leaves its state as it is;
no helper is run for it while it is fused; and a status line ends with the capabilities of the
methods that are not. -/
theorem fuse_law (m : ModuleMeta) (qs : List Served) (t : Nat) (hin : InTime 0 qs t) :
    (∀ h, fusedAt (fuseAfter m .fresh qs) t h = true ↔
      ∃ time, Trips 3 (history m h .fresh qs) time ∧ t < time + 60000) ∧
    (∀ (q : Served) (h : Command),
      (∀ task, q.verdict (fuseAfter m .fresh qs) = .run task → task.runs ≠ some h) →
      q.after m (fuseAfter m .fresh qs) h = fuseAfter m .fresh qs h) ∧
    (∀ (q : Served) (h : Command), q.round.now = t →
      fusedAt (fuseAfter m .fresh qs) t h = true →
      ∀ task, q.verdict (fuseAfter m .fresh qs) = .run task → task.runs ≠ some h) ∧
    ∀ word ∈ [lit "OK", lit "STATUS"], statusLine m (fusedAt (fuseAfter m .fresh qs) t) word =
      word ++ 32 :: (lit "2" ++ 32 :: (m.version ++ 32 :: (intText m.versionCode ++ 32 ::
        (m.locale ++ ((capabilities (fusedAt (fuseAfter m .fresh qs) t)).flatMap
          (fun c => 32 :: c) ++ [10]))))) := by
  refine ⟨fun h => ?_, fun q h => after_of_not_run q, fun q h hnow hfused task hv hruns => ?_,
    fun word hword => ?_⟩
  · have hbreaker : (fuseAfter m .fresh qs h).breaker =
        run 3 60000 fresh (history m h .fresh qs) := breaker_fuseAfter qs
    have hordered := (history_ordered (m := m) (h := h) .fresh qs hin).1
    rw [fusedAt, decide_eq_true_eq, ← lt_openUntil_run hordered, ← hbreaker]
    rfl
  · subst hnow
    rw [not_fused_of_runs hv hruns] at hfused
    cases hfused
  · refine statusLine_eq m _ ?_
    rcases List.mem_pair.mp hword with rfl | rfl <;> decide

/-- A module without a `module.prop`. -/
def unnamed : ModuleMeta where
  version := []
  versionCode := 0
  locale := []
  version_le := Nat.zero_le _
  version_line := List.not_mem_nil
  code_bounds := by decide
  locale_le := Nat.zero_le _

/-- `M`, at a time, where the helper does not start. -/
def manifestAt (time : Nat) : Served :=
  ⟨lit "M", [], [], time, time, .absent, ⟨fun _ => none, nofun⟩, true⟩

/-- After three failures of `M` in a row it is fused. -/
theorem fuse_law_three :
    fusedAt (fuseAfter unnamed .fresh [manifestAt 1, manifestAt 2, manifestAt 3]) 30 .m = true := by
  have hin : InTime 0 [manifestAt 1, manifestAt 2, manifestAt 3] 30 := by
    simp only [InTime, manifestAt]
    decide
  have hhistory : history unnamed .m .fresh [manifestAt 1, manifestAt 2, manifestAt 3] =
      [.failed 1, .failed 2, .failed 3] := rfl
  refine ((fuse_law unnamed _ 30 hin).1 .m).mpr ⟨3, ?_, by decide⟩
  rw [hhistory]
  exact ⟨[.failed 1, .failed 2], List.prefix_rfl, Nat.le_refl 3⟩

end RevBox.Zygisk
