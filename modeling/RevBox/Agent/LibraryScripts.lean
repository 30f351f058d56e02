import RevBox.Agent.Privileged
import RevBox.Device.Disk
import RevBox.Support.Script

/-!
# Agent — LibraryScripts

The scripts of `provider/privileged.rs` that put a native library in place: the backup, the
installation and the way back, with the checks their paths have passed.  A file is what the
components of its path name, and only its content counts; of its mode, owner and context the
scripts carry the words they read.

* `backupScript_text`, `installScript_text`, `rollbackScript_text`: the scripts are the templates.
* `run_backup`, `run_install`, `run_restore`, `run_remove`: what each leaves of the files, and when
  its sentinel is printed.
-/

namespace RevBox.Privileged

open FileTree

/-! ### Paths -/

/-- `ALLOWED_PREFIXES`. -/
def allowedPrefixes : List String := ["/data/app/", "/data/local/tmp/", "/data/adb/modules/"]

/-- `FORBIDDEN_IN_PATH`. -/
def forbiddenInPath : List Char :=
  ['\'', '"', '`', '$', ';', '&', '|', '<', '>', '(', ')', '{', '}', '*', '?', ' ', '\t', '\n',
    '\\', '!', '#', '[', ']', '^', '\x00']

/-- `check_shape`. -/
def checkShape (path : String) : Except AgentError Unit :=
  if path = "" ∨ path.utf8ByteSize > 512 then .error (reject "path_length" "路径长度不合法")
  else if ¬ allowedPrefixes.any fun pre => Text.startsWith pre.toList path.toList then
    .error (reject "path_prefix_denied" ("特权脚本只允许操作 " ++
      "[\"/data/app/\", \"/data/local/tmp/\", \"/data/adb/modules/\"] 下的路径: " ++ path))
  else if Text.contains "..".toList path.toList then
    .error (reject "path_traversal" s!"路径不得包含 ..: {path}")
  else if path.toList.any fun c => forbiddenInPath.contains c then
    .error (reject "path_charset" s!"路径含会破坏 su 包裹的字符: {path}")
  else .ok ()

/-- `str::ends_with`. -/
def endsWith (path suffix : String) : Bool := suffix.toList.isSuffixOf path.toList

/-- `validate_path`. -/
def validatePath (path : String) : Except AgentError Unit := do
  checkShape path
  if ¬ endsWith path ".so" ∧ ¬ endsWith path ".artbak" ∧ ¬ endsWith path ".arttmp" then
    .error (reject "path_suffix" s!"只允许 .so/.artbak/.arttmp: {path}")
  else .ok ()

/-- `validate_dir`. -/
def validateDir (path : String) : Except AgentError Unit := do
  checkShape path
  if endsWith path "/" then .error (reject "path_dir_slash" s!"目录参数不应以 / 结尾: {path}")
  else .ok ()

/-! ### Files and commands -/

/-- What a file holds. -/
abbrev Content := List UInt8

/-- The files, by where they are. -/
abbrev Files := Path → Option Content

/-- Where the text of a path leads. -/
def place (path : String) : Path := components path.toList

/-- The simple commands of the scripts, with the words they are given. -/
inductive Command where
  | stat (format path : String)
  | cp (source target : String)
  | chmod (mode path : String)
  | chown (owner path : String)
  | nonEmpty (x : String)
  | isFile (path : String)
  | chcon (context path : String)
  | restorecon (path : String)
  | success
  | mv (source target : String)
  | sync
  | rm (path : String)
  deriving DecidableEq

/-- The command as it stands in a script. -/
def Command.word : Command → String
  | stat format path => "stat -c " ++ format ++ " " ++ path ++ " 2>/dev/null"
  | cp source target => "cp -f " ++ source ++ " " ++ target
  | chmod mode path => "chmod " ++ mode ++ " " ++ path
  | chown owner path => "chown " ++ owner ++ " " ++ path ++ " 2>/dev/null"
  | nonEmpty x => "[ -n \"$" ++ x ++ "\" ]"
  | isFile path => "[ -f " ++ path ++ " ]"
  | chcon context path => "chcon " ++ context ++ " " ++ path ++ " 2>/dev/null"
  | restorecon path => "restorecon " ++ path ++ " 2>/dev/null"
  | success => "true"
  | mv source target => "mv -f " ++ source ++ " " ++ target
  | sync => "sync"
  | rm path => "rm -f " ++ path

/-- How a command turns out: it does its work, printing a line if it is `stat`; or it fails, and if
it is `cp` it has put the first bytes of the source at its target, or not opened it. -/
inductive Outcome where
  | done (line : String)
  | failed (written : Option Nat)

/-- The command did its work. -/
def Outcome.isDone : Outcome → Bool
  | done _ => true
  | failed _ => false

/-- What stands at the target of a copy. -/
def copied (o : Outcome) (source target : Option Content) : Option Content :=
  match source, o with
  | none, _ => target
  | some x, .done _ => some x
  | some _, .failed none => target
  | some x, .failed (some n) => some (x.take n)

/-- A command on the files.  A file is not copied onto itself; what is not there is neither copied
nor moved; the attributes of a file do not count. -/
def step (f : Command → Outcome) (c : Command) (vars : String → String) (t : Files) : Came Files :=
  match c with
  | .stat .. =>
      match f c with
      | .done line => ⟨true, [line], t⟩
      | .failed _ => ⟨false, [], t⟩
  | .cp source target =>
      if place source = place target then ⟨false, [], t⟩
      else ⟨(f c).isDone && (t (place source)).isSome, [],
        Function.update t (place target) (copied (f c) (t (place source)) (t (place target)))⟩
  | .nonEmpty x => ⟨vars x ≠ "", [], t⟩
  | .isFile path => ⟨(t (place path)).isSome, [], t⟩
  | .success => ⟨true, [], t⟩
  | .mv source target =>
      if (f c).isDone ∧ (t (place source)).isSome then
        ⟨true, [], Function.update (Function.update t (place source) none) (place target)
          (t (place source))⟩
      else ⟨false, [], t⟩
  | .rm path =>
      if (f c).isDone then ⟨true, [], Function.update t (place path) none⟩ else ⟨false, [], t⟩
  | .chmod .. | .chown .. | .chcon .. | .restorecon .. | .sync => ⟨(f c).isDone, [], t⟩

/-! ### Scripts -/

/-- `$(stat … || echo …)`. -/
def statOr (x format path word : String) : Script Command :=
  .capture x ((Script.cmd (.stat format path)).or (.echo word))

/-- `backup_script`. -/
def backupScript (target backup : String) : Script Command :=
  (Script.cmd (.cp target backup)).seq <| (Script.cmd (.chmod "644" backup)).seq <|
    (Script.cmd .sync).seq (.echo "BACKED_UP")

/-- `install_script`. -/
def installScript (staged target tmp dir : String) : Script Command :=
  Script.setE.seq <| (statOr "MODE" "%a" target "644").seq <|
  (statOr "OWNER" "%U:%G" target "root:root").seq <|
  (Script.capture "CONTEXT" (((Script.cmd (.stat "%C" target)).or (.cmd (.stat "%C" dir))).or
    (.echo ""))).seq <|
  (Script.cmd (.cp staged tmp)).seq <| (Script.cmd (.chmod "$MODE" tmp)).seq <|
  ((Script.cmd (.chown "$OWNER" tmp)).or (.cmd .success)).seq <|
  (Script.ifThen (.cmd (.nonEmpty "CONTEXT")) (((Script.cmd (.chcon "\"$CONTEXT\"" tmp)).or
    (.cmd (.restorecon tmp))).or (.cmd .success))).seq <|
  (Script.cmd (.mv tmp target)).seq <| (Script.cmd .sync).seq (.echo "INSTALLED")

/-- `rollback_script`. -/
def rollbackScript (backup target : String) (restoreBackup : Bool) : Script Command :=
  let tmp := target ++ ".arttmp"
  if restoreBackup then
    Script.ifElse (.cmd (.isFile backup))
      ((statOr "MODE" "%a" target "644").seq <| (statOr "CONTEXT" "%C" target "").seq <|
        -- the list ends at `fi`: what follows runs whether or not the copy was made
        (((Script.cmd (.cp backup tmp)).and (.cmd (.chmod "$MODE" tmp))).and
          (.ifThen (.cmd (.nonEmpty "CONTEXT"))
            ((Script.cmd (.chcon "\"$CONTEXT\"" tmp)).or (.cmd .success)))).seq
        (((Script.cmd .sync).and (.cmd (.mv tmp target))).and (.echo "ROLLED_BACK")))
      (.echo "NO_BACKUP")
  else
    (Script.cmd (.rm target)).seq <| (Script.cmd .sync).seq (.echo "REMOVED")

/-! ### The scripts are the templates -/

theorem backupScript_text (target backup : String) : (backupScript target backup).text Command.word =
    s!"cp -f {target} {backup}; chmod 644 {backup}; sync; echo BACKED_UP" := by
  simp only [backupScript, Script.text, Command.word, toString, String.append_assoc]
  rfl

set_option maxRecDepth 20000 in
theorem installScript_text (staged target tmp dir : String) :
    (installScript staged target tmp dir).text Command.word =
      s!"set -e; MODE=$(stat -c %a {target} 2>/dev/null || echo 644); " ++
      s!"OWNER=$(stat -c %U:%G {target} 2>/dev/null || echo root:root); " ++
      s!"CONTEXT=$(stat -c %C {target} 2>/dev/null || stat -c %C {dir} 2>/dev/null || echo ''); " ++
      s!"cp -f {staged} {tmp}; chmod $MODE {tmp}; chown $OWNER {tmp} 2>/dev/null || true; " ++
      s!"if [ -n \"$CONTEXT\" ]; then chcon \"$CONTEXT\" {tmp} 2>/dev/null || " ++
      s!"restorecon {tmp} 2>/dev/null || true; fi; mv -f {tmp} {target}; sync; echo INSTALLED" := by
  simp only [installScript, statOr, Script.text, Command.word, toString, String.append_assoc]
  rfl

set_option maxRecDepth 20000 in
theorem rollbackScript_text (backup target : String) :
    (rollbackScript backup target true).text Command.word =
      s!"if [ -f {backup} ]; then MODE=$(stat -c %a {target} 2>/dev/null || echo 644); " ++
      s!"CONTEXT=$(stat -c %C {target} 2>/dev/null || echo ''); " ++
      s!"cp -f {backup} {target}.arttmp && chmod $MODE {target}.arttmp && " ++
      s!"if [ -n \"$CONTEXT\" ]; then chcon \"$CONTEXT\" {target}.arttmp 2>/dev/null || true; fi; " ++
      s!"sync && mv -f {target}.arttmp {target} && echo ROLLED_BACK; else echo NO_BACKUP; fi" := by
  simp only [rollbackScript, if_true, statOr, Script.text, Command.word, toString,
    String.append_assoc]
  rfl

theorem removeScript_text (backup target : String) :
    (rollbackScript backup target false).text Command.word =
      s!"rm -f {target}; sync; echo REMOVED" := by
  simp only [rollbackScript, Bool.false_eq_true, if_false, Script.text, Command.word, toString,
    String.append_assoc]
  rfl

/-! ### What the scripts do -/

section Runs

variable {f : Command → Outcome} {t : Files} {staged target tmp dir backup : String}

theorem keeps_stat (format path : String) (vars : String → String) (w : Files) :
    (step f (.stat format path) vars w).world = w := by
  rw [step]
  cases f (.stat format path) <;> rfl

theorem quiet_chmod (mode path : String) : Script.Quiet (step f) (.chmod mode path) :=
  fun _ _ => ⟨rfl, rfl⟩

theorem quiet_sync : Script.Quiet (step f) .sync := fun _ _ => ⟨rfl, rfl⟩

theorem quiet_isFile (path : String) : Script.Quiet (step f) (.isFile path) := fun _ _ => ⟨rfl, rfl⟩

theorem quiet_chown (owner path : String) : Script.Quiet (step f) (.chown owner path) :=
  fun _ _ => ⟨rfl, rfl⟩

theorem quiet_chcon (context path : String) : Script.Quiet (step f) (.chcon context path) :=
  fun _ _ => ⟨rfl, rfl⟩

theorem quiet_restorecon (path : String) : Script.Quiet (step f) (.restorecon path) :=
  fun _ _ => ⟨rfl, rfl⟩

theorem quiet_nonEmpty (x : String) : Script.Quiet (step f) (.nonEmpty x) := fun _ _ => ⟨rfl, rfl⟩

theorem harmless_success : Script.Harmless (step f) (.cmd .success) := fun _ s =>
  ⟨s.vars, by rw [Script.exec_cmd_quiet fun _ _ => ⟨rfl, rfl⟩]; exact Script.settle_ok⟩

theorem harmless_statOr (x format path word : String) :
    Script.Harmless (step f) (statOr x format path word) :=
  (Script.looks_cmd (keeps_stat format path)).harmless_capture

/-- A copy, which no variable matters to. -/
def copy (f : Command → Outcome) (source target : String) (t : Files) : Came Files :=
  step f (.cp source target) (fun _ => "") t

/-- A move, likewise. -/
def move (f : Command → Outcome) (source target : String) (t : Files) : Came Files :=
  step f (.mv source target) (fun _ => "") t

theorem step_cp (source target : String) (vars : String → String) :
    step f (.cp source target) vars t = copy f source target t := rfl

theorem step_mv (source target : String) (vars : String → String) :
    step f (.mv source target) vars t = move f source target t := rfl

theorem copy_out (source target : String) : (copy f source target t).out = [] := by
  rw [copy, step]
  split <;> rfl

theorem move_out (source target : String) : (move f source target t).out = [] := by
  rw [move, step]
  split <;> rfl

/-- What the installation leaves of the files, and whether it came to its end. -/
def installed (f : Command → Outcome) (staged target tmp : String) (t : Files) : Files × Bool :=
  let cp := copy f staged tmp t
  if cp.ok && (f (.chmod "$MODE" tmp)).isDone then
    let mv := move f tmp target cp.world
    (mv.world, mv.ok && (f .sync).isDone)
  else (cp.world, false)

/-- What the way back leaves of the files, and whether it came to its end. -/
def restored (f : Command → Outcome) (backup target : String) (t : Files) : Files × Bool :=
  let cp := copy f backup (target ++ ".arttmp") t
  if (f .sync).isDone then
    let mv := move f (target ++ ".arttmp") target cp.world
    (mv.world, mv.ok)
  else (cp.world, false)

/-- **The backup.**  It says that it is done whatever became of the copy. -/
theorem run_backup (f : Command → Outcome) (target backup : String) (t : Files) :
    ∃ vars, (backupScript target backup).run (step f) t = ⟨⟨(copy f target backup t).world, vars, ["BACKED_UP"], false⟩, true, false⟩ := by
  refine ⟨fun _ => "", ?_⟩
  rw [Script.run, backupScript, Script.exec_cmd_seq_plain rfl, Script.exec_cmd_seq_plain rfl,
    Script.exec_cmd_seq_plain rfl, Script.exec_echo, step_cp, copy_out]
  rfl

/-- **The installation.** -/
theorem run_install (f : Command → Outcome) (staged target tmp dir : String) (t : Files) :
    ∃ vars, (installScript staged target tmp dir).run (step f) t = ⟨⟨(installed f staged target tmp t).1, vars,
      if (installed f staged target tmp t).2 then ["INSTALLED"] else [], true⟩,
      (installed f staged target tmp t).2, !(installed f staged target tmp t).2⟩ := by
  have hcontext : Script.Harmless (step f) (.capture "CONTEXT"
      (((Script.cmd (.stat "%C" target)).or (.cmd (.stat "%C" dir))).or (.echo ""))) :=
    ((Script.looks_cmd (keeps_stat _ _)).or (Script.looks_cmd (keeps_stat _ _))).harmless_capture
  have hchown : Script.Harmless (step f) ((Script.cmd (.chown "$OWNER" tmp)).or (.cmd .success)) :=
    (Script.silent_cmd (quiet_chown _ _)).harmless_or harmless_success
  have hlabel : Script.Harmless (step f) (Script.ifThen (.cmd (.nonEmpty "CONTEXT"))
      (((Script.cmd (.chcon "\"$CONTEXT\"" tmp)).or (.cmd (.restorecon tmp))).or
        (.cmd .success))) := by
    exact .ifThen (quiet_nonEmpty _) (((Script.silent_cmd (quiet_chcon _ _)).or
      (Script.silent_cmd (quiet_restorecon _))).harmless_or harmless_success)
  rw [Script.run, installScript, Script.exec_setE_seq, (harmless_statOr _ _ _ _).seq,
    (harmless_statOr _ _ _ _).seq, hcontext.seq]
  cases hcp : (copy f staged tmp t).ok with
  | false =>
      rw [Script.exec_cmd_seq_stop rfl hcp, step_cp, copy_out, installed, hcp]
      exact ⟨_, rfl⟩
  | true =>
      rw [Script.exec_cmd_seq hcp, step_cp, copy_out]
      cases hmode : (f (.chmod "$MODE" tmp)).isDone with
      | false =>
          rw [(quiet_chmod _ _).seq_stop rfl hmode, installed, hcp, hmode]
          exact ⟨_, rfl⟩
      | true =>
          rw [(quiet_chmod _ _).seq hmode, hchown.seq, hlabel.seq]
          have hdone : installed f staged target tmp t =
              ((move f tmp target (copy f staged tmp t).world).world,
                (move f tmp target (copy f staged tmp t).world).ok && (f .sync).isDone) := by
            rw [installed, hcp, hmode]
            rfl
          cases hmv : (move f tmp target (copy f staged tmp t).world).ok with
          | false =>
              rw [Script.exec_cmd_seq_stop rfl hmv, step_mv, move_out, hdone, hmv]
              exact ⟨_, rfl⟩
          | true =>
              rw [Script.exec_cmd_seq hmv, step_mv, move_out, hdone, hmv]
              cases hsync : (f .sync).isDone with
              | false =>
                  rw [quiet_sync.seq_stop rfl hsync]
                  exact ⟨_, rfl⟩
              | true =>
                  rw [quiet_sync.seq hsync]
                  exact ⟨_, rfl⟩

/-- The first list of the way back ends, one way or the other, with the copy made as far as it
was. -/
theorem exec_putBack (f : Command → Outcome) (backup tmp : String) (s : ShellState Files) : ∃ ok vars,
    (((Script.cmd (.cp backup tmp)).and (.cmd (.chmod "$MODE" tmp))).and
      (.ifThen (.cmd (.nonEmpty "CONTEXT"))
        ((Script.cmd (.chcon "\"$CONTEXT\"" tmp)).or (.cmd .success)))).exec (step f) false s =
      ⟨{ s with world := (copy f backup tmp s.world).world, vars := vars }, ok, false⟩ := by
  have hlabel : Script.Harmless (step f) (Script.ifThen (.cmd (.nonEmpty "CONTEXT"))
      ((Script.cmd (.chcon "\"$CONTEXT\"" tmp)).or (.cmd .success))) :=
    .ifThen (quiet_nonEmpty _) ((Script.silent_cmd (quiet_chcon _ _)).harmless_or harmless_success)
  have hcopy : (Script.cmd (.cp backup tmp)).exec (step f) true s =
      ⟨{ s with world := (copy f backup tmp s.world).world }, (copy f backup tmp s.world).ok,
        false⟩ := by
    rw [Script.exec_cmd, step_cp, copy_out, List.append_nil, Script.settle_true]
  have hmade : ∃ ok, ((Script.cmd (.cp backup tmp)).and (.cmd (.chmod "$MODE" tmp))).exec (step f)
      true s = ⟨{ s with world := (copy f backup tmp s.world).world }, ok, false⟩ := by
    rw [Script.exec_and_of hcopy]
    cases (copy f backup tmp s.world).ok with
    | false => exact ⟨false, rfl⟩
    | true =>
        exact ⟨_, by rw [if_pos rfl, Script.exec_cmd_quiet (quiet_chmod _ _), Script.settle_true]⟩
  obtain ⟨ok, hmade⟩ := hmade
  rw [Script.exec_and_of hmade]
  cases ok with
  | false => exact ⟨false, s.vars, rfl⟩
  | true => exact ⟨true, _, by rw [if_pos rfl, hlabel.exec]⟩

/-- **The way back to the backup.**  Whether the copy was made does not count. -/
theorem run_restore (f : Command → Outcome) (target : String)
    (hfile : (t (place backup)).isSome = true) :
    ∃ vars, (rollbackScript backup target true).run (step f) t =
      ⟨⟨(restored f backup target t).1, vars,
        if (restored f backup target t).2 then ["ROLLED_BACK"] else [], false⟩,
        (restored f backup target t).2, false⟩ := by
  have hseen : (step f (.isFile backup) (fun _ => "") t).ok = true := hfile
  rw [Script.run, rollbackScript, if_pos rfl, (quiet_isFile _).ifElse, hseen, if_pos rfl,
    (harmless_statOr _ _ _ _).seq, (harmless_statOr _ _ _ _).seq]
  obtain ⟨ok, vars, h⟩ := exec_putBack f backup (target ++ ".arttmp") ⟨t, _, [], false⟩
  rw [Script.exec_seq_of h]
  refine ⟨vars, ?_⟩
  rw [Script.exec_and, quiet_sync.and]
  cases hsync : (f .sync).isDone with
  | false =>
      have hfail : (step f .sync vars (copy f backup (target ++ ".arttmp") t).world).ok = false :=
        hsync
      rw [hfail, restored, hsync]
      rfl
  | true =>
      have hdone : (step f .sync vars (copy f backup (target ++ ".arttmp") t).world).ok = true :=
        hsync
      let mv := move f (target ++ ".arttmp") target (copy f backup (target ++ ".arttmp") t).world
      have hend : restored f backup target t = (mv.world, mv.ok) := by
        rw [restored, hsync]
        rfl
      rw [hdone, if_pos rfl, Script.exec_cmd, step_mv, move_out, Script.settle_true, hend]
      show Ended.andThen ⟨⟨mv.world, vars, [], false⟩, mv.ok, false⟩ _ = _
      cases mv.ok with
      | false => rfl
      | true => rfl

/-- There is no backup to go back to. -/
theorem run_restore_missing (hfile : (t (place backup)).isSome = false) :
    (rollbackScript backup target true).run (step f) t =
      ⟨⟨t, fun _ => "", ["NO_BACKUP"], false⟩, true, false⟩ := by
  have hseen : (step f (.isFile backup) (fun _ => "") t).ok = false := hfile
  rw [Script.run, rollbackScript, if_pos rfl, (quiet_isFile _).ifElse, hseen]
  rfl

/-- **The way back to no file.** -/
theorem run_remove (f : Command → Outcome) (target backup : String) (t : Files) :
    ∃ vars, (rollbackScript backup target false).run (step f) t = ⟨⟨(step f (.rm target) (fun _ => "") t).world, vars, ["REMOVED"], false⟩, true, false⟩ := by
  refine ⟨fun _ => "", ?_⟩
  rw [Script.run, rollbackScript, if_neg Bool.false_ne_true, Script.exec_cmd_seq_plain rfl,
    Script.exec_cmd_seq_plain rfl, Script.exec_echo]
  rw [step]
  split <;> rfl

end Runs

end RevBox.Privileged
