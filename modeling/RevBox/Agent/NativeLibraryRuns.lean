import RevBox.Agent.NativeLibrary
import RevBox.Support.Results

/-!
# Agent — NativeLibraryRuns

All or nothing: what a replacement of a native library leaves at its target, whatever its commands
come to.

* `install_ran`, `rollback_ran`: what the two scripts leave, and what is reported of them.
* `allOrNothing_iff`: the target is what it was, or holds what was staged, unless the way back is
  reported done and put something else there.
-/

namespace RevBox.NativeLibrary

open FileTree Privileged Activity

/-! ### What an error reports -/

/-- The error lists a rollback that failed among its steps. -/
def RollbackFailed (e : AgentError) : Prop :=
  ∃ items, (e.details.bind fun v => v.get? "steps") = some (.array items) ∧
    ∃ item ∈ items, item.get? "name" = some (.string "rollback") ∧
      item.get? "ok" = some (.bool false)

theorem toValue_name (s : OperationStep) : s.toValue.get? "name" = some (.string s.name) := by
  rw [OperationStep.toValue, Value.get?_ofFields]
  cases s.detail <;> rfl

theorem toValue_ok (s : OperationStep) : s.toValue.get? "ok" = some (.bool s.ok) := by
  rw [OperationStep.toValue, Value.get?_ofFields]
  cases s.detail <;> rfl

/-- The error says nothing beside its message, or gives fields. -/
def Fielded (e : AgentError) : Prop := ∀ v, e.details = some v → ∃ fields, v = .object fields

theorem rollbackFailed_withSteps {e : AgentError} (he : Fielded e) (steps : List OperationStep) :
    RollbackFailed (withSteps e steps) ↔ ∃ s ∈ steps, s.name = "rollback" ∧ s.ok = false := by
  obtain ⟨fields, hfields⟩ : ∃ fields, e.details.getD (.object []) = .object fields := by
    cases hd : e.details with
    | none => exact ⟨[], rfl⟩
    | some v => exact he v hd
  have hsteps : ((withSteps e steps).details.bind fun v => v.get? "steps") =
      some (.array (steps.map OperationStep.toValue)) := by
    rw [withSteps, hfields]
    exact (Value.get?_insertField _ _ _ _).trans (if_pos rfl)
  rw [RollbackFailed, hsteps]
  constructor
  · rintro ⟨items, hitems, item, hmem, hname, hok⟩
    cases hitems
    obtain ⟨s, hs, rfl⟩ := List.mem_map.mp hmem
    rw [toValue_name, Option.some.injEq, Value.string.injEq] at hname
    rw [toValue_ok, Option.some.injEq, Value.bool.injEq] at hok
    exact ⟨s, hs, hname, hok⟩
  · rintro ⟨s, hs, hname, hok⟩
    exact ⟨_, rfl, _, List.mem_map_of_mem hs, by rw [toValue_name, hname], by rw [toValue_ok, hok]⟩

/-- No step is called a rollback. -/
def NoRollback (steps : List OperationStep) : Prop := ∀ s ∈ steps, s.name ≠ "rollback"

theorem NoRollback.append {steps : List OperationStep} (h : NoRollback steps) {s : OperationStep}
    (hs : s.name ≠ "rollback") : NoRollback (steps ++ [s]) := fun s' hs' => by
  rcases List.mem_append.mp hs' with hs' | hs'
  · exact h s' hs'
  · rwa [List.mem_singleton.mp hs']

/-- The rollback of an error is the step it ends with. -/
theorem rollbackFailed_last {e : AgentError} (he : Fielded e) {steps : List OperationStep}
    (hsteps : NoRollback steps) (done : Bool) (detail : Option String) :
    RollbackFailed (withSteps e (steps ++ [⟨"rollback", done, detail⟩])) ↔ done = false := by
  rw [rollbackFailed_withSteps he]
  constructor
  · rintro ⟨s, hs, hname, hok⟩
    rcases List.mem_append.mp hs with hs | hs
    · exact absurd hname (hsteps s hs)
    · rwa [List.mem_singleton.mp hs] at hok
  · exact fun h => ⟨_, List.mem_append_right _ List.mem_cons_self, rfl, h⟩

theorem fielded_withDetails (e : AgentError) (reason : String) :
    Fielded (e.withDetails (reasonDetails reason)) := fun v hv => by
  cases hv
  exact ⟨_, rfl⟩

theorem fielded_runPrivileged {name expect : String} {reply : SuReply} {e : AgentError}
    (h : runPrivileged name expect reply = .error e) : Fielded e := by
  cases reply with
  | timeout =>
      cases h
      exact fun _ hv => nomatch hv
  | unavailable text =>
      cases h
      exact fielded_withDetails _ _
  | exited code stdout stderr =>
      rw [runPrivileged] at h
      split at h
      · cases h
        intro v hv
        cases hv
        exact ⟨_, rfl⟩
      split at h
      · cases h
        exact fielded_withDetails _ _
      · cases h

theorem fielded_privileged {u : Su} {name expect : String} {script : Script Command} {t : Files}
    {e : AgentError} (h : (u.privileged name script expect t).1 = .error e) : Fielded e :=
  fielded_runPrivileged h

/-! ### Sentinels -/

/-- The word is a line that comes back from `su` as it was printed. -/
def Sentinel (word : String) : Prop :=
  Text.trim (Utf8.fromUtf8Lossy (shown [word])) = word.toList ∧
    Text.lines word.toList = [word.toList] ∧ Text.trim word.toList = word.toList

instance (word : String) : Decidable (Sentinel word) :=
  inferInstanceAs (Decidable (_ ∧ _ ∧ _))

theorem runPrivileged_printed {word : String} (h : Sentinel word) (name expect : String)
    (stderr : List UInt8) :
    (runPrivileged name expect (.exited (some 0) (shown [word]) stderr)).isOk =
      decide (word = expect) := by
  obtain ⟨htrim, hlines, hword⟩ := h
  rw [runPrivileged]
  rw [if_neg (not_not_intro rfl), htrim, hlines]
  by_cases heq : word = expect
  · subst heq
    rw [if_neg (by simp [hword]), decide_eq_true rfl]
    rfl
  · have hne : word.toList ≠ expect.toList := fun h => heq (String.toList_injective h)
    rw [if_pos (by simp [hword, hne]), decide_eq_false heq]
    rfl

theorem runPrivileged_exit (name expect : String) (stdout stderr : List UInt8) :
    (runPrivileged name expect (.exited (some 1) stdout stderr)).isOk = false := by
  rw [runPrivileged]
  rw [if_pos (by decide)]
  rfl

theorem sentinels : Sentinel "BACKED_UP" ∧ Sentinel "INSTALLED" ∧ Sentinel "ROLLED_BACK" ∧
    Sentinel "NO_BACKUP" ∧ Sentinel "REMOVED" := by
  decide +kernel

/-! ### The scripts under `su` -/

section Runs

variable {digest : Content → List Char} {c : Around} {p : Params} {q : Prepared} {t : Files}
  {u : Su}

/-- `su` ran the script. -/
def Su.Ran (u : Su) : Prop := ∃ f err, u = .ran f err

theorem privileged_of_not_ran (h : ¬ u.Ran) (name : String) (script : Script Command)
    (expect : String) (t : Files) :
    (u.privileged name script expect t).1.isOk = false ∧
      (u.privileged name script expect t).2 = t := by
  cases u with
  | unanswered | unavailable => exact ⟨rfl, rfl⟩
  | ran f err => exact absurd ⟨f, err, rfl⟩ h

theorem backup_privileged (f : Command → Outcome) (err : List UInt8) (name : String)
    (target backup : String) (t : Files) :
    ((Su.ran f err).privileged name (backupScript target backup) "BACKED_UP" t).1.isOk = true ∧
      ((Su.ran f err).privileged name (backupScript target backup) "BACKED_UP" t).2 =
        (copy f target backup t).world := by
  obtain ⟨vars, h⟩ := run_backup f target backup t
  rw [Su.privileged, Su.run, h]
  exact ⟨runPrivileged_printed sentinels.1 name "BACKED_UP" err, rfl⟩

theorem install_privileged (f : Command → Outcome) (err : List UInt8) (name : String)
    (staged target tmp dir : String) (t : Files) :
    ((Su.ran f err).privileged name (installScript staged target tmp dir) "INSTALLED" t).1.isOk =
        (installed f staged target tmp t).2 ∧
      ((Su.ran f err).privileged name (installScript staged target tmp dir) "INSTALLED" t).2 =
        (installed f staged target tmp t).1 := by
  obtain ⟨vars, h⟩ := run_install f staged target tmp dir t
  rw [Su.privileged, Su.run, h]
  cases (installed f staged target tmp t).2 with
  | true => exact ⟨runPrivileged_printed sentinels.2.1 name "INSTALLED" err, rfl⟩
  | false => exact ⟨runPrivileged_exit name "INSTALLED" _ err, rfl⟩

theorem restore_privileged (f : Command → Outcome) (err : List UInt8) (name : String)
    (target backup : String) (t : Files) :
    ((Su.ran f err).privileged name (rollbackScript backup target true) "ROLLED_BACK" t).1.isOk =
        ((t (place backup)).isSome && (restored f backup target t).2) ∧
      ((Su.ran f err).privileged name (rollbackScript backup target true) "ROLLED_BACK" t).2 =
        if (t (place backup)).isSome then (restored f backup target t).1 else t := by
  cases hfile : (t (place backup)).isSome with
  | false =>
      rw [Su.privileged, Su.run, run_restore_missing hfile]
      exact ⟨runPrivileged_printed sentinels.2.2.2.1 name "ROLLED_BACK" err, rfl⟩
  | true =>
      obtain ⟨vars, h⟩ := run_restore f target hfile
      rw [Su.privileged, Su.run, h]
      cases (restored f backup target t).2 with
      | true => exact ⟨runPrivileged_printed sentinels.2.2.1 name "ROLLED_BACK" err, rfl⟩
      | false => exact ⟨runPrivileged_exit name "ROLLED_BACK" _ err, rfl⟩

theorem remove_privileged (f : Command → Outcome) (err : List UInt8) (name : String)
    (target backup : String) (t : Files) :
    ((Su.ran f err).privileged name (rollbackScript backup target false) "REMOVED" t).1.isOk =
        true ∧
      ((Su.ran f err).privileged name (rollbackScript backup target false) "REMOVED" t).2 =
        (step f (.rm target) (fun _ => "") t).world := by
  obtain ⟨vars, h⟩ := run_remove f target backup t
  rw [Su.privileged, Su.run, h]
  exact ⟨runPrivileged_printed sentinels.2.2.2.2 name "REMOVED" err, rfl⟩

end Runs

/-! ### What the commands come to -/

section Condition

variable (digest : Content → List Char) (c : Around) (p : Params) (q : Prepared) (t : Files)

/-- What the backup holds when it is done. -/
def backedUp : Option Content :=
  match c.backup with
  | .ran f _ => copied (f (.cp q.target q.backup)) (t (place q.target)) (t (place q.backup))
  | _ => t (place q.backup)

/-- What the staged file holds when it is installed: the backup may have been made over it. -/
def source : Option Content :=
  if q.replacedExisting = true ∧ place p.stagedPath = place q.backup then backedUp c q t
  else t (place p.stagedPath)

/-- The installation has the new file beside the target, with its mode. -/
def Lays (f : Command → Outcome) : Prop :=
  place p.stagedPath ≠ place (tmpPath q) ∧ (f (.cp p.stagedPath (tmpPath q))).isDone = true ∧
    (f (.chmod "$MODE" (tmpPath q))).isDone = true

/-- The installation has moved the new file to the target. -/
def Moves : Prop :=
  ∃ f err, c.install = .ran f err ∧ Lays p q f ∧ (f (.mv (tmpPath q) q.target)).isDone = true

/-- What the installation leaves beside the target. -/
def leftBeside : Option Content :=
  match c.install with
  | .ran f _ =>
      if place p.stagedPath = place (tmpPath q) then t (place (tmpPath q))
      else if (f (.cp p.stagedPath (tmpPath q))).isDone = true ∧
          (f (.chmod "$MODE" (tmpPath q))).isDone = true ∧
          (f (.mv (tmpPath q) q.target)).isDone = true then none
      else copied (f (.cp p.stagedPath (tmpPath q))) (source c p q t) (t (place (tmpPath q)))
  | _ => t (place (tmpPath q))

/-- The installation came to its end, and what it put in place has the digest of what was
staged. -/
def Finishes : Prop :=
  ∃ f err, c.install = .ran f err ∧ Lays p q f ∧ (f (.mv (tmpPath q) q.target)).isDone = true ∧
    (f .sync).isDone = true ∧
      fileSha256 digest c.targetSum q.target (source c p q t) = .ok q.stagedSha

/-- The commands of the way back, `f`, are reported done, and what they leave at the target is not
what was there: they move there something else than the original, or they do not remove the new
file. -/
def Spoils (f : Command → Outcome) : Prop :=
  if q.replacedExisting = true then
    backedUp c q t ≠ none ∧ (f .sync).isDone = true ∧
      (f (.mv (tmpPath q) q.target)).isDone = true ∧
      ∃ x, copied (f (.cp q.backup (tmpPath q))) (backedUp c q t) (leftBeside c p q t) = some x ∧
        some x ≠ t (place q.target)
  else Moves c p q ∧ (f (.rm q.target)).isDone = false

/-- The request is prepared and backed up, its installation does not come to a good end, and the
way back spoils the target. -/
def Spoilt : Prop :=
  ∃ q, prepare digest c p t = .ok q ∧ validateDir q.targetDir = .ok () ∧
    (q.replacedExisting = true → c.backup.Ran) ∧ ¬ Finishes digest c p q t ∧
      ∃ f err, c.rollback = .ran f err ∧ Spoils c p q t f

/-- The target holds what was staged: what the staged file holds, which is what it held unless the
backup was made over it, and the digests are one. -/
def HoldsStaged (target : Path) (backup : Path) (t' : Files) : Prop :=
  t' target = t' (place p.stagedPath) ∧ t' target ≠ none ∧
    (place p.stagedPath ≠ backup → t' target = t (place p.stagedPath)) ∧
      ∃ sum path, fileSha256 digest c.stagedSum p.stagedPath (t (place p.stagedPath)) = .ok sum ∧
        fileSha256 digest c.targetSum path (t' target) = .ok sum

/-- **All or nothing.**  A success has put the staged content at the target; after an error that
reports no failed rollback the target is what it was.  Without a target nothing has changed. -/
def AllOrNothing : Prop :=
  let r := replaceNativeLibrary digest c p t
  match c.native with
  | .error _ => (answer p.operationId r.1).isOk = false ∧ r.2 = t
  | .ok native =>
      match answer p.operationId r.1 with
      | .ok _ => HoldsStaged digest c p t (place (targetPath native p)) (place (backupPath p)) r.2
      | .error e => ¬ RollbackFailed e →
          r.2 (place (targetPath native p)) = t (place (targetPath native p))

end Condition

/-! ### The files after each script -/

section Files

variable {c : Around} {p : Params} {q : Prepared} {t : Files} {f : Command → Outcome}
  {err : List UInt8}

theorem copy_ok (a b : String) : (copy f a b t).ok =
    (decide (place a ≠ place b) && ((f (.cp a b)).isDone && (t (place a)).isSome)) := by
  rw [copy, step]
  by_cases h : place a = place b
  · rw [if_pos h, decide_eq_false (not_not_intro h), Bool.false_and]
  · rw [if_neg h, decide_eq_true h, Bool.true_and]

theorem copy_world (a b : String) : (copy f a b t).world =
    if place a = place b then t
    else Function.update t (place b) (copied (f (.cp a b)) (t (place a)) (t (place b))) := by
  rw [copy, step]
  split <;> rfl

theorem move_ok (a b : String) :
    (move f a b t).ok = ((f (.mv a b)).isDone && (t (place a)).isSome) := by
  rw [move, step]
  by_cases h : (f (.mv a b)).isDone = true ∧ (t (place a)).isSome = true
  · rw [if_pos h, h.1, h.2]
    rfl
  · rw [if_neg h]
    exact (eq_false_of_ne_true fun h' => h (Bool.and_eq_true_iff.mp h')).symm

theorem move_world (a b : String) : (move f a b t).world =
    if (move f a b t).ok then
      Function.update (Function.update t (place a) none) (place b) (t (place a))
    else t := by
  rw [move_ok, move, step]
  by_cases h : (f (.mv a b)).isDone = true ∧ (t (place a)).isSome = true
  · rw [if_pos h, if_pos (Bool.and_eq_true_iff.mpr h)]
  · rw [if_neg h, if_neg fun h' => h (Bool.and_eq_true_iff.mp h')]

/-- The three names of a replacement lead to three files. -/
structure Apart (q : Prepared) : Prop where
  target_tmp : place q.target ≠ place (tmpPath q)
  target_backup : place q.target ≠ place q.backup
  backup_tmp : place q.backup ≠ place (tmpPath q)

/-- The files once the backup is done. -/
def afterBackup (c : Around) (q : Prepared) (t : Files) : Files :=
  if q.replacedExisting then
    match c.backup with
    | .ran f _ => (copy f q.target q.backup t).world
    | _ => t
  else t

theorem afterBackup_eq (hq : Apart q) : afterBackup c q t =
    if q.replacedExisting then Function.update t (place q.backup) (backedUp c q t) else t := by
  rw [afterBackup, backedUp]
  split
  · cases c.backup with
    | unanswered | unavailable => exact (Function.update_eq_self _ _).symm
    | ran f err => exact (copy_world _ _).trans (if_neg hq.target_backup)
  · rfl

theorem afterBackup_of_ne (hq : Apart q) {x : Path} (h : x ≠ place q.backup) :
    afterBackup c q t x = t x := by
  rw [afterBackup_eq hq]
  split
  · exact Function.update_of_ne h _ _
  · rfl

theorem afterBackup_backup (hq : Apart q) (he : q.replacedExisting = true) :
    afterBackup c q t (place q.backup) = backedUp c q t := by
  rw [afterBackup_eq hq, if_pos he]
  exact Function.update_self ..

theorem afterBackup_staged (hq : Apart q) :
    afterBackup c q t (place p.stagedPath) = source c p q t := by
  rw [source]
  by_cases hs : place p.stagedPath = place q.backup
  · by_cases he : q.replacedExisting = true
    · rw [if_pos ⟨he, hs⟩, hs, afterBackup_backup hq he]
    · rw [if_neg fun h => he h.1, afterBackup_eq hq, if_neg he]
  · rw [if_neg fun h => hs h.2, afterBackup_of_ne hq hs]

/-- The files once the installation has ended, and whether it came to its end. -/
def afterInstall (c : Around) (p : Params) (q : Prepared) (t : Files) : Files × Bool :=
  match c.install with
  | .ran f _ => installed f p.stagedPath q.target (tmpPath q) t
  | _ => (t, false)

theorem installed_eq (hs : (source c p q t).isSome = true) (hq : Apart q) :
    installed f p.stagedPath q.target (tmpPath q) (afterBackup c q t) =
      if place p.stagedPath = place (tmpPath q) then (afterBackup c q t, false)
      else
        let laid := Function.update (afterBackup c q t) (place (tmpPath q))
          (copied (f (.cp p.stagedPath (tmpPath q))) (source c p q t) (t (place (tmpPath q))))
        if (f (.cp p.stagedPath (tmpPath q))).isDone = true ∧
            (f (.chmod "$MODE" (tmpPath q))).isDone = true ∧
            (f (.mv (tmpPath q) q.target)).isDone = true then
          (Function.update (Function.update laid (place (tmpPath q)) none) (place q.target)
            (source c p q t), (f .sync).isDone)
        else (laid, false) := by
  have htmp : afterBackup c q t (place (tmpPath q)) = t (place (tmpPath q)) :=
    afterBackup_of_ne hq hq.backup_tmp.symm
  simp only [installed, move_world, move_ok, copy_ok, copy_world, afterBackup_staged hq, htmp, hs]
  by_cases hstaged : place p.stagedPath = place (tmpPath q)
  · rw [if_pos hstaged, if_pos hstaged, decide_eq_false (not_not_intro hstaged)]
    rfl
  rw [if_neg hstaged, if_neg hstaged, decide_eq_true hstaged, Function.update_self]
  obtain ⟨x, hx⟩ := Option.isSome_iff_exists.mp hs
  cases hcp : f (.cp p.stagedPath (tmpPath q)) with
  | failed n => rfl
  | done line =>
      have hcopied : copied (.done line) (source c p q t) (t (place (tmpPath q))) =
          source c p q t := by
        rw [hx]
        rfl
      rw [hcopied, hs]
      cases (f (.chmod "$MODE" (tmpPath q))).isDone with
      | false => rfl
      | true =>
          cases (f (.mv (tmpPath q) q.target)).isDone with
          | false => rfl
          | true => rfl

/-- The three ways an installation can end. -/
theorem afterInstall_cases (hs : (source c p q t).isSome = true) (hq : Apart q) :
    let r := afterInstall c p q (afterBackup c q t)
    (¬ Moves c p q ∧ r.2 = false ∧ r.1 = Function.update (afterBackup c q t) (place (tmpPath q))
        (leftBeside c p q t)) ∨
      ∃ f err, c.install = .ran f err ∧ Lays p q f ∧ (f (.mv (tmpPath q) q.target)).isDone = true ∧
        leftBeside c p q t = none ∧ r.2 = (f .sync).isDone ∧
          r.1 = Function.update (Function.update (afterBackup c q t) (place (tmpPath q)) none)
            (place q.target) (source c p q t) := by
  have htmp : afterBackup c q t (place (tmpPath q)) = t (place (tmpPath q)) :=
    afterBackup_of_ne hq hq.backup_tmp.symm
  intro r
  cases hi : c.install with
  | unanswered | unavailable =>
      refine .inl ⟨fun ⟨f, err, h, _⟩ => ?_, ?_, ?_⟩
      · rw [hi] at h
        cases h
      · show (afterInstall c p q _).2 = false
        rw [afterInstall, hi]
      · show (afterInstall c p q _).1 = _
        rw [afterInstall, leftBeside, hi]
        exact (Function.update_eq_self_iff.mpr htmp.symm).symm
  | ran f err =>
      have hr : r = installed f p.stagedPath q.target (tmpPath q) (afterBackup c q t) := by
        show afterInstall c p q _ = _
        rw [afterInstall, hi]
      have hmoves : Moves c p q ↔ Lays p q f ∧ (f (.mv (tmpPath q) q.target)).isDone = true := by
        rw [Moves, hi]
        exact ⟨fun ⟨_, _, h, h'⟩ => by cases h; exact h', fun h => ⟨f, err, rfl, h⟩⟩
      rw [hr, installed_eq hs hq, hmoves, leftBeside, hi, Lays]
      dsimp only
      by_cases hstaged : place p.stagedPath = place (tmpPath q)
      · rw [if_pos hstaged, if_pos hstaged]
        exact .inl ⟨fun h => h.1.1 hstaged, rfl, (Function.update_eq_self_iff.mpr htmp.symm).symm⟩
      rw [if_neg hstaged, if_neg hstaged]
      by_cases hall : (f (.cp p.stagedPath (tmpPath q))).isDone = true ∧
          (f (.chmod "$MODE" (tmpPath q))).isDone = true ∧
          (f (.mv (tmpPath q) q.target)).isDone = true
      · rw [if_pos hall, if_pos hall, Function.update_idem]
        exact .inr ⟨f, err, rfl, ⟨hstaged, hall.1, hall.2.1⟩, hall.2.2, rfl, rfl, rfl⟩
      · rw [if_neg hall, if_neg hall]
        exact .inl ⟨fun h => hall ⟨h.1.2.1, h.1.2.2, h.2⟩, rfl, rfl⟩

theorem rollback_not_ran (h : ¬ c.rollback.Ran) (w : Files) : (rollback c q w).1 = false :=
  (privileged_of_not_ran h _ _ _ _).1

/-- The way back to a backup is reported done if it moved something to the target, and that is
what stands there. -/
theorem rollback_existing (hq : Apart q) (he : q.replacedExisting = true)
    (hr : c.rollback = .ran f err) (w : Files) :
    ((rollback c q w).1 = true ↔ w (place q.backup) ≠ none ∧ (f .sync).isDone = true ∧
      (f (.mv (tmpPath q) q.target)).isDone = true ∧
        copied (f (.cp q.backup (tmpPath q))) (w (place q.backup)) (w (place (tmpPath q))) ≠ none) ∧
      ((rollback c q w).1 = true → (rollback c q w).2 (place q.target) =
        copied (f (.cp q.backup (tmpPath q))) (w (place q.backup)) (w (place (tmpPath q)))) := by
  have hback := restore_privileged f err "rollback" q.target q.backup w
  have hone : (rollback c q w).1 =
      ((w (place q.backup)).isSome && (restored f q.backup q.target w).2) := by
    rw [rollback, he, hr, if_pos rfl]
    exact hback.1
  have htwo : (rollback c q w).2 =
      if (w (place q.backup)).isSome then (restored f q.backup q.target w).1 else w := by
    rw [rollback, he, hr, if_pos rfl]
    exact hback.2
  have hput : (copy f q.backup (tmpPath q) w).world (place (tmpPath q)) =
      copied (f (.cp q.backup (tmpPath q))) (w (place q.backup)) (w (place (tmpPath q))) := by
    rw [copy_world, if_neg hq.backup_tmp]
    exact Function.update_self ..
  have hrestored : restored f q.backup q.target w =
      if (f .sync).isDone then
        ((move f (tmpPath q) q.target (copy f q.backup (tmpPath q) w).world).world,
          (move f (tmpPath q) q.target (copy f q.backup (tmpPath q) w).world).ok)
      else ((copy f q.backup (tmpPath q) w).world, false) := rfl
  have hiff : (rollback c q w).1 = true ↔ w (place q.backup) ≠ none ∧ (f .sync).isDone = true ∧
      (move f (tmpPath q) q.target (copy f q.backup (tmpPath q) w).world).ok = true := by
    rw [hone, hrestored, Bool.and_eq_true, Option.isSome_iff_ne_none]
    cases (f .sync).isDone with
    | false => simp
    | true => simp
  constructor
  · rw [hiff, move_ok, hput, Bool.and_eq_true, Option.isSome_iff_ne_none]
  · intro h
    obtain ⟨hb, hsync, hmv⟩ := hiff.mp h
    rw [htwo, if_pos (Option.isSome_iff_ne_none.mpr hb), hrestored, if_pos hsync]
    show (move f (tmpPath q) q.target _).world _ = _
    rw [move_world, if_pos hmv, Function.update_self, hput]

/-- The way back to no file is always reported done. -/
theorem rollback_absent (he : q.replacedExisting = false) (hr : c.rollback = .ran f err)
    (w : Files) : (rollback c q w).1 = true ∧ (rollback c q w).2 (place q.target) =
      if (f (.rm q.target)).isDone then none else w (place q.target) := by
  have hback := remove_privileged f err "rollback" q.target q.backup w
  rw [rollback, he, hr, if_neg Bool.false_ne_true]
  refine ⟨hback.1, (congrFun hback.2 _).trans ?_⟩
  rw [step]
  split
  · exact Function.update_self ..
  · rfl

/-- **When the way back keeps its word**, if its commands are run. -/
theorem keeps_iff (hs : (source c p q t).isSome = true) (hq : Apart q)
    (he : q.replacedExisting = (t (place q.target)).isSome) (hr : c.rollback = .ran f err) :
    let w := (afterInstall c p q (afterBackup c q t)).1
    ((rollback c q w).1 = true → (rollback c q w).2 (place q.target) = t (place q.target)) ↔
      ¬ Spoils c p q t f := by
  intro w
  have hcases := afterInstall_cases (c := c) (p := p) (t := t) hs hq
  cases hex : q.replacedExisting with
  | true =>
      have hback : w (place q.backup) = backedUp c q t := by
        obtain ⟨-, -, hw⟩ | ⟨_, _, -, -, -, -, -, hw⟩ := hcases
        · rw [show w = _ from hw, Function.update_of_ne hq.backup_tmp, afterBackup_backup hq hex]
        · rw [show w = _ from hw, Function.update_of_ne hq.target_backup.symm,
            Function.update_of_ne hq.backup_tmp, afterBackup_backup hq hex]
      have htmp : w (place (tmpPath q)) = leftBeside c p q t := by
        obtain ⟨-, -, hw⟩ | ⟨_, _, -, -, -, hleft, -, hw⟩ := hcases
        · rw [show w = _ from hw, Function.update_self]
        · rw [show w = _ from hw, Function.update_of_ne hq.target_tmp.symm,
            Function.update_self, hleft]
      obtain ⟨hdone, hput⟩ := rollback_existing hq hex hr w
      rw [hback, htmp] at hdone hput
      rw [Spoils, if_pos hex]
      constructor
      · rintro hkeep ⟨hb, hsync, hmv, x, hx, hne⟩
        have h := hdone.mpr ⟨hb, hsync, hmv, by rw [hx]; exact Option.some_ne_none x⟩
        exact hne (hx.symm.trans ((hput h).symm.trans (hkeep h)))
      · intro hspoils h
        obtain ⟨hb, hsync, hmv, hc⟩ := hdone.mp h
        obtain ⟨x, hx⟩ := Option.ne_none_iff_exists'.mp hc
        rw [hput h, hx]
        by_contra hne
        exact hspoils ⟨hb, hsync, hmv, x, hx, hne⟩
  | false =>
      have hnone : t (place q.target) = none := by
        rw [hex] at he
        exact Option.isSome_eq_false_iff.mp he.symm |> Option.isNone_iff_eq_none.mp
      obtain ⟨hdone, hput⟩ := rollback_absent hex hr w
      rw [Spoils, if_neg (by rw [hex]; exact Bool.false_ne_true), hput, hdone, hnone]
      obtain ⟨hmoves, -, hw⟩ | ⟨f', err', hi, hlays, hmv, -, -, hw⟩ := hcases
      · have htarget : w (place q.target) = none := by
          rw [show w = _ from hw, Function.update_of_ne hq.target_tmp,
            afterBackup_of_ne hq hq.target_backup, hnone]
        rw [htarget, ite_self]
        exact iff_of_true (fun _ => rfl) fun h => hmoves h.1
      · have htarget : w (place q.target) = source c p q t := by
          rw [show w = _ from hw, Function.update_self]
        rw [htarget]
        obtain ⟨x, hx⟩ := Option.isSome_iff_exists.mp hs
        rw [hx]
        cases (f (.rm q.target)).isDone with
        | true => exact iff_of_true (fun _ => rfl) fun h => nomatch h.2
        | false =>
            exact iff_of_false (fun h => nomatch h rfl)
              (not_not_intro ⟨⟨f', err', hi, hlays, hmv⟩, rfl⟩)

end Files

/-! ### The checks -/

section Prepared

variable {digest : Content → List Char} {c : Around} {p : Params} {q : Prepared} {t : Files}

/-- What a request that is prepared has passed. -/
structure Passed (digest : Content → List Char) (c : Around) (p : Params) (t : Files)
    (q : Prepared) : Prop where
  native : ∃ native, c.native = .ok native ∧ q.target = targetPath native p ∧
    q.targetDir = targetDir native
  backup : q.backup = backupPath p
  existing : q.replacedExisting = (t (place q.target)).isSome
  sum : fileSha256 digest c.stagedSum p.stagedPath (t (place p.stagedPath)) = .ok q.stagedSha
  elf : isElfFile (t (place p.stagedPath)) = true
  name : isSafeSoName p.soName = true
  steps : NoRollback q.steps

theorem passed_of_prepare (h : prepare digest c p t = .ok q) : Passed digest c p t q := by
  rw [prepare, Results.guard_eq_ok_iff] at h
  obtain ⟨-, h⟩ := h
  rw [Results.guard_eq_ok_iff, not_not] at h
  obtain ⟨hname, h⟩ := h
  obtain ⟨-, -, h⟩ := Results.bind_eq_ok_iff.mp h
  rw [Results.guard_eq_ok_iff] at h
  obtain ⟨-, h⟩ := h
  cases hguard : c.guard with
  | error e =>
      rw [hguard] at h
      cases h
  | ok =>
  cases hnative : c.native with
  | error e =>
      rw [hguard, hnative] at h
      cases h
  | ok native =>
  cases hvalid : validatePath (targetPath native p) with
  | error e =>
      rw [hguard, hnative] at h
      dsimp only at h
      rw [hvalid] at h
      cases h
  | ok =>
  cases hsum : fileSha256 digest c.stagedSum p.stagedPath (t (place p.stagedPath)) with
  | error e =>
      rw [hguard, hnative] at h
      dsimp only at h
      rw [hvalid, hsum] at h
      cases h
  | ok sum =>
  rw [hguard, hnative] at h
  dsimp only at h
  rw [hvalid, hsum] at h
  dsimp only at h
  rw [Results.guard_eq_ok_iff, not_not] at h
  obtain ⟨helf, h⟩ := h
  obtain ⟨-, -, h⟩ := Results.bind_eq_ok_iff.mp h
  cases h
  exact ⟨⟨native, hnative, rfl, rfl⟩, rfl, rfl, hsum, helf, hname, by simp [NoRollback]⟩

theorem place_name (dir : String) {name : String} (h : '/' ∉ name.toList)
    (hlen : 2 ≤ name.toList.length) :
    place (dir ++ "/" ++ name) = place dir ++ [name.toList] := by
  have hstay : ¬ Stay name.toList := by
    rintro (h | h)
    all_goals
      rw [h] at hlen
      exact absurd hlen (by decide)
  rw [place, String.toList_append, String.toList_append, List.append_assoc]
  refine (components_append dir.toList name.toList).trans ?_
  rw [components_name h hstay, place]

theorem last_of_eq {d d' : Path} {n n' : Name} (h : d ++ [n] = d' ++ [n']) : n = n' :=
  List.singleton_inj.mp (List.append_inj' h rfl).2

theorem safeSoName_spec {name : String} (h : isSafeSoName name = true) :
    '/' ∉ name.toList ∧ 3 ≤ name.toList.length := by
  simp only [isSafeSoName, Bool.and_eq_true, List.all_eq_true] at h
  constructor
  · intro hmem
    exact absurd (h.2 '/' hmem) (by decide)
  · exact (List.isSuffixOf_iff_suffix.mp h.1.1.2).length_le

theorem Passed.apart (h : Passed digest c p t q) : Apart q := by
  obtain ⟨native, -, htarget, -⟩ := h.native
  obtain ⟨hslash, hlen⟩ := safeSoName_spec h.name
  have hname (dir suffix : String) (hs : '/' ∉ suffix.toList) :
      place (dir ++ "/" ++ p.soName ++ suffix) = place dir ++ [p.soName.toList ++ suffix.toList] := by
    rw [String.append_assoc, ← String.toList_append]
    refine place_name dir ?_ ?_
    · rw [String.toList_append, List.mem_append]
      exact fun h => h.elim hslash hs
    · rw [String.toList_append, List.length_append]
      omega
  have htmp : place (tmpPath q) =
      place (targetDir native) ++ [p.soName.toList ++ ".arttmp".toList] := by
    rw [tmpPath, htarget]
    exact hname _ _ (by decide)
  have hbackup : place q.backup =
      place ((parent p.stagedPath).getD stagedDir) ++ [p.soName.toList ++ ".artbak".toList] := by
    rw [h.backup]
    exact hname _ _ (by decide)
  have hplace : place q.target = place (targetDir native) ++ [p.soName.toList] := by
    rw [htarget]
    exact place_name _ hslash (by omega)
  refine ⟨fun he => ?_, fun he => ?_, fun he => ?_⟩
  · rw [hplace, htmp] at he
    exact absurd (List.self_eq_append_right.mp (last_of_eq he)) (by decide)
  · rw [hplace, hbackup] at he
    exact absurd (List.self_eq_append_right.mp (last_of_eq he)) (by decide)
  · rw [hbackup, htmp] at he
    exact absurd (List.append_cancel_left (last_of_eq he)) (by decide)

theorem Passed.source (h : Passed digest c p t q) : (source c p q t).isSome = true := by
  have hstaged : (t (place p.stagedPath)).isSome = true := by
    have helf := h.elf
    cases hc : t (place p.stagedPath) with
    | some x => rfl
    | none =>
        rw [hc] at helf
        cases helf
  rw [NativeLibrary.source]
  split
  next hs =>
      -- the backup has been made over the staged file, as far as it was made
      have htarget : (t (place q.target)).isSome = true := h.existing ▸ hs.1
      obtain ⟨x, hx⟩ := Option.isSome_iff_exists.mp htarget
      rw [hs.2] at hstaged
      rw [backedUp]
      cases c.backup with
      | unanswered | unavailable => exact hstaged
      | ran f err =>
          show (copied (f _) (t (place q.target)) _).isSome = true
          rw [hx]
          cases f (.cp q.target q.backup) with
          | done line => rfl
          | failed n =>
              cases n with
              | none => exact hstaged
              | some n => rfl
  next => exact hstaged

/-! ### The course of a replacement -/

theorem backUp_done (h : q.replacedExisting = true → c.backup.Ran) :
    ∃ s : OperationStep, s.name ≠ "rollback" ∧
      backUp c q t = (.ok (q.steps ++ [s]), afterBackup c q t) := by
  rw [backUp, afterBackup]
  cases he : q.replacedExisting with
  | false => exact ⟨_, by decide, rfl⟩
  | true =>
      obtain ⟨f, err, hran⟩ := h he
      rw [hran]
      obtain ⟨hok, ht⟩ := backup_privileged f err "backup_original" q.target q.backup t
      rw [if_pos rfl, if_pos rfl]
      generalize (Su.ran f err).privileged "backup_original" _ "BACKED_UP" t = r at hok ht
      obtain ⟨res, t'⟩ := r
      cases res with
      | error e => cases hok
      | ok out =>
          obtain rfl : t' = (copy f q.target q.backup t).world := ht
          exact ⟨⟨"backup_original", true, some q.backup⟩,
            show "backup_original" ≠ _ by decide, rfl⟩

theorem backUp_failed (he : q.replacedExisting = true) (h : ¬ c.backup.Ran) :
    ∃ e, backUp c q t = (.error e, t) := by
  obtain ⟨hok, ht⟩ := privileged_of_not_ran h "backup_original"
    (backupScript q.target q.backup) "BACKED_UP" t
  rw [backUp, if_pos he]
  generalize c.backup.privileged "backup_original" _ "BACKED_UP" t = r at hok ht
  obtain ⟨res, t'⟩ := r
  cases res with
  | error e => exact ⟨_, by rw [show t' = t from ht]⟩
  | ok out => cases hok

theorem install_ran (w : Files) :
    (c.install.privileged "install" (installScript p.stagedPath q.target (tmpPath q) q.targetDir)
        "INSTALLED" w).1.isOk = (afterInstall c p q w).2 ∧
      (c.install.privileged "install" (installScript p.stagedPath q.target (tmpPath q) q.targetDir)
        "INSTALLED" w).2 = (afterInstall c p q w).1 := by
  rw [afterInstall]
  cases hi : c.install with
  | unanswered | unavailable => exact ⟨rfl, rfl⟩
  | ran f err => exact install_privileged _ _ _ _ _ _ _ _

/-- What the check of the target comes to: a success, or the way back and an error. -/
theorem verify_spec (digest : Content → List Char) (c : Around) (p : Params)
    {steps : List OperationStep} (hsteps : NoRollback steps) (w : Files) :
    (fileSha256 digest c.targetSum q.target (w (place q.target)) = .ok q.stagedSha →
      ∃ x, verifyInstalled digest c p q steps w = (.ok x, w) ∧ x.unverified = none) ∧
    (fileSha256 digest c.targetSum q.target (w (place q.target)) ≠ .ok q.stagedSha →
      ∃ x e, verifyInstalled digest c p q steps w = (x, (rollback c q w).2) ∧
        answer p.operationId x = .error e ∧
          (RollbackFailed e ↔ (rollback c q w).1 = false)) := by
  have hlast (detail : Option String) (verified : Bool) (note : Option String) :
      RollbackFailed (withSteps ((AgentError.new .internal s!"SO 替换复核未通过: {q.target}").withDetails
          (reasonDetails "verify_failed")) (steps ++ [⟨"verify_installed", verified, detail⟩] ++
            [⟨"rollback", (rollback c q w).1, note⟩])) ↔ (rollback c q w).1 = false :=
    rollbackFailed_last (fielded_withDetails _ _)
      (hsteps.append (show "verify_installed" ≠ "rollback" by decide)) _ _
  rw [verifyInstalled]
  cases hsum : fileSha256 digest c.targetSum q.target (w (place q.target)) with
  | error e =>
      refine ⟨fun h => (nomatch h), fun _ => ⟨_, _, rfl, rfl, ?_⟩⟩
      exact hlast _ _ _
  | ok sum =>
      dsimp only
      by_cases heq : sum = q.stagedSha
      · rw [if_pos heq]
        exact ⟨fun _ => ⟨_, rfl, rfl⟩, fun h => absurd (congrArg _ heq) h⟩
      · rw [if_neg heq]
        refine ⟨fun h => absurd (Except.ok.inj h) heq, fun _ => ⟨_, _, rfl, rfl, ?_⟩⟩
        exact hlast _ _ _

/-- What follows a backup: a success, with the files of the installation; or an error, with those
of the way back, which says whether that failed. -/
theorem install_spec (digest : Content → List Char) (c : Around) (p : Params)
    (hdir : validateDir q.targetDir = .ok ()) {steps : List OperationStep} (hsteps : NoRollback steps) (w : Files) :
    let r := afterInstall c p q w
    (r.2 = true ∧ fileSha256 digest c.targetSum q.target (r.1 (place q.target)) = .ok q.stagedSha →
      ∃ x, install digest c p q steps w = (.ok x, r.1) ∧ x.unverified = none) ∧
    (¬ (r.2 = true ∧
        fileSha256 digest c.targetSum q.target (r.1 (place q.target)) = .ok q.stagedSha) →
      ∃ x e, install digest c p q steps w = (x, (rollback c q r.1).2) ∧
        answer p.operationId x = .error e ∧
          (RollbackFailed e ↔ (rollback c q r.1).1 = false)) := by
  intro r
  obtain ⟨hok, hw⟩ := install_ran (c := c) (p := p) (q := q) w
  rw [install, hdir]
  dsimp only
  cases hres : (c.install.privileged "install" (installScript p.stagedPath q.target (tmpPath q)
      q.targetDir) "INSTALLED" w) with
  | mk res w' =>
  rw [hres] at hok hw
  obtain rfl : w' = r.1 := hw
  cases res with
  | error e =>
      have hfail : r.2 = false := hok.symm
      have hfielded : Fielded e := fielded_privileged (congrArg Prod.fst hres)
      refine ⟨fun h => absurd h.1 (by rw [hfail]; exact Bool.false_ne_true), fun _ => ?_⟩
      refine ⟨_, _, rfl, rfl, ?_⟩
      rw [List.append_cons]
      exact rollbackFailed_last hfielded (hsteps.append (show "install" ≠ "rollback" by decide)) _ _
  | ok out =>
      have hdone : r.2 = true := hok.symm
      obtain ⟨hgood, hbad⟩ := verify_spec digest c p
        (hsteps.append (s := ⟨"install", true, some q.target⟩)
          (show "install" ≠ "rollback" by decide)) r.1
      exact ⟨fun h => hgood h.2, fun h => hbad fun hsum => h ⟨hdone, hsum⟩⟩

theorem finishes_iff (hs : (source c p q t).isSome = true) (hq : Apart q) :
    let r := afterInstall c p q (afterBackup c q t)
    Finishes digest c p q t ↔ r.2 = true ∧
      fileSha256 digest c.targetSum q.target (r.1 (place q.target)) = .ok q.stagedSha := by
  intro r
  obtain ⟨hmoves, hr, -⟩ | ⟨f, err, hi, hlays, hmv, -, hdone, hw⟩ :=
    afterInstall_cases (c := c) (p := p) (t := t) hs hq
  · refine iff_of_false (fun ⟨f, err, hi, hlays, hmv, _⟩ => hmoves ⟨f, err, hi, hlays, hmv⟩) ?_
    exact fun h => absurd (hr.symm.trans h.1) Bool.false_ne_true
  · have htarget : r.1 (place q.target) = source c p q t := by
      rw [show r.1 = _ from hw, Function.update_self]
    rw [htarget, show r.2 = _ from hdone]
    constructor
    · rintro ⟨f', err', hi', -, -, hsync, hsum⟩
      rw [hi] at hi'
      cases hi'
      exact ⟨hsync, hsum⟩
    · exact fun ⟨hsync, hsum⟩ => ⟨f, err, hi, hlays, hmv, hsync, hsum⟩

/-- After an installation that came to a good end the target holds what was staged. -/
theorem holdsStaged (h : Passed digest c p t q) (hfin : Finishes digest c p q t) :
    HoldsStaged digest c p t (place q.target) (place q.backup)
      (afterInstall c p q (afterBackup c q t)).1 := by
  obtain ⟨f, err, hi, hlays, hmv, hsync, hsum⟩ := hfin
  obtain ⟨hmoves, -, -⟩ | ⟨f', err', hi', hlays', hmv', -, -, hw⟩ :=
    afterInstall_cases (c := c) (p := p) (t := t) h.source h.apart
  · exact absurd ⟨f, err, hi, hlays, hmv⟩ hmoves
  rw [hw]
  have hstaged : Function.update (Function.update (afterBackup c q t) (place (tmpPath q)) none)
      (place q.target) (source c p q t) (place p.stagedPath) = source c p q t := by
    by_cases hs : place p.stagedPath = place q.target
    · rw [hs, Function.update_self]
    · rw [Function.update_of_ne hs, Function.update_of_ne hlays.1, afterBackup_staged h.apart]
  rw [HoldsStaged, hstaged, Function.update_self]
  refine ⟨rfl, Option.isSome_iff_ne_none.mp h.source, fun hs => ?_, _, _, h.sum, hsum⟩
  rw [source, if_neg fun h => hs h.2]

/-- What is spoilt is not as it was, and no failed rollback is reported. -/
theorem not_allOrNothing_of_spoilt (h : Spoilt digest c p t) : ¬ AllOrNothing digest c p t := by
  obtain ⟨q, hprep, hdir, hback, hfin, f, err, hr, hspoils⟩ := h
  have h := passed_of_prepare hprep
  obtain ⟨native, hnative, htarget, -⟩ := h.native
  obtain ⟨s, hs, hdone⟩ := backUp_done (c := c) (q := q) (t := t) hback
  obtain ⟨-, hbad⟩ := install_spec digest c p hdir
    (h.steps.append hs) (afterBackup c q t)
  obtain ⟨x, e, hx, hanswer, hfailed⟩ :=
    hbad fun h' => hfin ((finishes_iff h.source h.apart).mpr h')
  rw [AllOrNothing, replaceNativeLibrary, hprep, hnative]
  dsimp only
  rw [← htarget, ← h.backup, hdone]
  dsimp only
  rw [hx, hanswer]
  dsimp only
  rw [hfailed, Bool.not_eq_false]
  exact fun hkeep => (keeps_iff h.source h.apart h.existing hr).mp hkeep hspoils

theorem allOrNothing_of_not_spoilt (hspoilt : ¬ Spoilt digest c p t) :
    AllOrNothing digest c p t := by
  rw [AllOrNothing, replaceNativeLibrary]
  cases hprep : prepare digest c p t with
  | error e =>
      cases c.native with
      | error e' => exact ⟨rfl, rfl⟩
      | ok native => exact fun _ => rfl
  | ok q =>
      have h := passed_of_prepare hprep
      obtain ⟨native, hnative, htarget, -⟩ := h.native
      rw [hnative]
      dsimp only
      rw [← htarget, ← h.backup]
      by_cases hback : q.replacedExisting = true → c.backup.Ran
      swap
      · obtain ⟨he, hran⟩ := Classical.not_imp.mp hback
        obtain ⟨e, hfail⟩ := backUp_failed (t := t) he hran
        rw [hfail]
        exact fun _ => rfl
      obtain ⟨s, hs, hdone⟩ := backUp_done (c := c) (q := q) (t := t) hback
      rw [hdone]
      dsimp only
      cases hdir : validateDir q.targetDir with
      | error e =>
          rw [install, hdir]
          exact fun _ => afterBackup_of_ne h.apart h.apart.target_backup
      | ok u =>
          obtain ⟨hgood, hbad⟩ := install_spec digest c p hdir
            (h.steps.append hs) (afterBackup c q t)
          by_cases hfin : Finishes digest c p q t
          · obtain ⟨x, hx, hverified⟩ := hgood ((finishes_iff h.source h.apart).mp hfin)
            rw [hx, answer, hverified]
            exact holdsStaged h hfin
          · obtain ⟨x, e, hx, hanswer, hfailed⟩ :=
              hbad fun h' => hfin ((finishes_iff h.source h.apart).mpr h')
            rw [hx, hanswer]
            dsimp only
            rw [hfailed, Bool.not_eq_false]
            by_cases hran : c.rollback.Ran
            · obtain ⟨f, err, hr⟩ := hran
              exact (keeps_iff h.source h.apart h.existing hr).mpr fun hspoils =>
                hspoilt ⟨q, hprep, hdir, hback, hfin, f, err, hr, hspoils⟩
            · rw [rollback_not_ran hran]
              exact fun hd => nomatch hd

/-- **All or nothing, exactly.**  The target holds what was staged after a success, and what it
held after an error that reports no failed rollback, unless the way back put something else
there. -/
theorem replaced_all_or_nothing (digest : Content → List Char) (c : Around) (p : Params)
    (t : Files) : AllOrNothing digest c p t ↔ ¬ Spoilt digest c p t :=
  ⟨fun h hspoilt => not_allOrNothing_of_spoilt hspoilt h, allOrNothing_of_not_spoilt⟩

/-- A disk that is full for both copies, and free again for the way back: the backup was cut short
and is put in place of the library. -/
theorem cut_backup_is_restored :
    let target := "/data/app/x/lib/arm64/libfoo.so"
    let staged := "/data/local/tmp/app-reverse-tools-so/x-1/libfoo.so"
    let p : Params := ⟨"com.x", "arm64", "libfoo.so", staged, "op-1"⟩
    let full : Command → Outcome
      | .cp .. => .failed (some 1)
      | _ => .done ""
    let c : Around := ⟨.ok (), .ok ⟨"/data/app/x/lib", "arm64"⟩, (true, true), (true, true),
      .ran full [], .ran full [], .ran (fun _ => .done "") []⟩
    let t : Files := fun x =>
      if x = place target then some [1, 2, 3]
      else if x = place staged then some [0x7f, 0x45, 0x4c, 0x46, 2]
      else none
    ¬ AllOrNothing (fun _ =>
      "cbb24a434399ae70351cd1492fdd22eaea0760682b4458ec6eb7fe6be15df3bb".toList) c p t := by
  intro target staged p full c t
  apply not_allOrNothing_of_spoilt
  cases hprep : prepare (fun _ =>
      "cbb24a434399ae70351cd1492fdd22eaea0760682b4458ec6eb7fe6be15df3bb".toList) c p t with
  | error e =>
      have hok : (prepare (fun _ =>
          "cbb24a434399ae70351cd1492fdd22eaea0760682b4458ec6eb7fe6be15df3bb".toList) c p t).isOk =
            true := by
        decide +kernel
      rw [hprep] at hok
      cases hok
  | ok q =>
      have h := passed_of_prepare hprep
      obtain ⟨native, hnative, htarget, hdir⟩ := h.native
      cases hnative
      have hplace : place q.target = place target := by
        rw [htarget]
        decide +kernel
      have hbackup : place q.backup = place (staged ++ ".artbak") := by
        rw [h.backup]
        decide +kernel
      have hexisting : q.replacedExisting = true := by
        rw [h.existing, hplace]
        decide +kernel
      have hvalid : validateDir q.targetDir = .ok () := by
        cases hv : validateDir q.targetDir with
        | ok => rfl
        | error e =>
            have hok : (validateDir q.targetDir).isOk = true := by
              rw [hdir]
              decide +kernel
            rw [hv] at hok
            cases hok
      refine ⟨q, hprep, hvalid, fun _ => ⟨full, [], rfl⟩, ?_, fun _ => .done "", [], rfl, ?_⟩
      · rintro ⟨f, err, hi, hlays, -⟩
        cases hi
        exact nomatch hlays.2.1
      · have hcut : backedUp c q t = some [1] := by
          rw [backedUp]
          show copied (.failed (some 1)) (t (place q.target)) (t (place q.backup)) = _
          rw [hplace, hbackup]
          decide +kernel
        rw [Spoils, if_pos hexisting, hcut, hplace]
        exact ⟨nofun, rfl, rfl, [1], rfl, by decide +kernel⟩

end Prepared

end RevBox.NativeLibrary
