import RevBox.Agent.LibraryScripts
import RevBox.Agent.ProcRead
import RevBox.Support.ShellTemplate

/-!
# Agent — ScriptShapes

What a shell reads of the scripts of `provider/privileged.rs`.  The words that a request gives stand
in them without quotes, or between double quotes; whatever the checks let through, a script is read
as the same commands, and each word given is a word of theirs, or in one, as it was given.

* `isLiteral_of_checkShape`, `isLiteral_of_validateComm`, `isLiteral_of_validateBinaryName`: what
  the checks let through means nothing to a shell.
* `under_of_checkShape`, `under_arttmp`: where the paths lie.
* `scripts_keep_shape`.
-/

namespace RevBox.Privileged

open ShellTemplate
open Shell (isLiteral isSpecial)

/-! ### The words of a script -/

/-- Text that is not quoted. -/
def word (s : String) : Word := s.toList.map .plain

/-- Text between double quotes. -/
def quotedText (s : String) : Word := s.toList.map .quoted

def param (x : String) : Piece := .param false x.toList

def quotedParam (x : String) : Word := [.quote, .param true x.toList]

def cmd (words : List Word) : Item := .command words []

/-- A command whose errors go to `/dev/null`. -/
def quiet (words : List Word) : Item :=
  .command words [⟨some (word "2"), ['>'], word "/dev/null"⟩]

def op (s : String) : Item := .control s.toList

def kw (s : String) : Item := .reserved s.toList

/-! ### What the scripts are read as -/

def backupRead (target backup : Word) : ShellTemplate.Script where
  bodies := []
  main :=
    [cmd [word "cp", word "-f", target, backup], op ";",
      cmd [word "chmod", word "644", backup], op ";", cmd [word "sync"], op ";",
      cmd [word "echo", word "BACKED_UP"]]

/-- `stat … || echo …`. -/
def statRead (format : String) (path instead : Word) : List Item :=
  [quiet [word "stat", word "-c", word format, path], op "||", cmd [word "echo", instead]]

def installRead (staged target tmp dir : Word) : ShellTemplate.Script where
  bodies :=
    [statRead "%a" target (word "644"), statRead "%U:%G" target (word "root:root"),
      quiet [word "stat", word "-c", word "%C", target] :: op "||" :: statRead "%C" dir [.quote]]
  main :=
    [cmd [word "set", word "-e"], op ";",
      cmd [word "MODE=" ++ [.subst false 0]], op ";",
      cmd [word "OWNER=" ++ [.subst false 1]], op ";",
      cmd [word "CONTEXT=" ++ [.subst false 2]], op ";",
      cmd [word "cp", word "-f", staged, tmp], op ";",
      cmd [word "chmod", [param "MODE"], tmp], op ";",
      quiet [word "chown", [param "OWNER"], tmp], op "||", cmd [word "true"], op ";",
      kw "if", cmd [word "[", word "-n", quotedParam "CONTEXT", word "]"], op ";",
      kw "then", quiet [word "chcon", quotedParam "CONTEXT", tmp], op "||",
      quiet [word "restorecon", tmp], op "||", cmd [word "true"], op ";", kw "fi", op ";",
      cmd [word "mv", word "-f", tmp, target], op ";", cmd [word "sync"], op ";",
      cmd [word "echo", word "INSTALLED"]]

def restoreRead (backup target tmp : Word) : ShellTemplate.Script where
  bodies := [statRead "%a" target (word "644"), statRead "%C" target [.quote]]
  main :=
    [kw "if", cmd [word "[", word "-f", backup, word "]"], op ";",
      kw "then", cmd [word "MODE=" ++ [.subst false 0]], op ";",
      cmd [word "CONTEXT=" ++ [.subst false 1]], op ";",
      cmd [word "cp", word "-f", backup, tmp], op "&&",
      cmd [word "chmod", [param "MODE"], tmp], op "&&",
      kw "if", cmd [word "[", word "-n", quotedParam "CONTEXT", word "]"], op ";",
      kw "then", quiet [word "chcon", quotedParam "CONTEXT", tmp], op "||", cmd [word "true"],
      op ";", kw "fi", op ";",
      cmd [word "sync"], op "&&", cmd [word "mv", word "-f", tmp, target], op "&&",
      cmd [word "echo", word "ROLLED_BACK"], op ";",
      kw "else", cmd [word "echo", word "NO_BACKUP"], op ";", kw "fi"]

def removeRead (target : Word) : ShellTemplate.Script where
  bodies := []
  main :=
    [cmd [word "rm", word "-f", target], op ";", cmd [word "sync"], op ";",
      cmd [word "echo", word "REMOVED"]]

/-- `while kill -0 … && [ "$attempt" -lt 20 ]; do …`. -/
def waitRead (pid : Word) : List Item :=
  [cmd [word "attempt=0"], op ";",
    kw "while", quiet [word "kill", word "-0", pid], op "&&",
    cmd [word "[", quotedParam "attempt", word "-lt", word "20", word "]"], op ";",
    kw "do", cmd [word "sleep", word "0.05"], op ";",
    cmd [word "attempt=" ++ [.sum false "attempt + 1".toList]], op ";", kw "done", op ";"]

/-- `echo …; echo ARTKILL_DONE; exit 0; fi;`. -/
def endRead (line : Word) : List Item :=
  [kw "then", cmd [word "echo", line], op ";", cmd [word "echo", word killSentinel], op ";",
    cmd [word "exit", word "0"], op ";", kw "fi", op ";"]

def killRead (pid comm : Word) : ShellTemplate.Script where
  bodies :=
    [[quiet [word "cut", word "-d", .quote :: quotedText " ", word "-f2",
        word "/proc/" ++ pid ++ word "/stat"], op "|",
      cmd [word "tr", word "-d", .quote :: quotedText "()"]]]
  main :=
    [kw "if", cmd [word "[", word "!", word "-d", word "/proc/" ++ pid, word "]"], op ";"] ++
    endRead (word "KILL_GONE") ++
    [cmd [word "C=" ++ [.subst false 0]], op ";",
      kw "if", cmd [word "[", quotedParam "C", word "!=", .quote :: comm, word "]"], op ";"] ++
    endRead (.quote :: quotedText "KILL_MISMATCH " ++ [.param true ['C']]) ++
    [quiet [word "kill", pid], op ";"] ++ waitRead pid ++
    [kw "if", quiet [word "kill", word "-0", pid], op ";",
      kw "then", quiet [word "kill", word "-9", pid], op ";", kw "fi", op ";"] ++
    waitRead pid ++
    [kw "if", quiet [word "kill", word "-0", pid], op ";",
      kw "then", cmd [word "echo", word "STILL_ALIVE"], op ";",
      kw "else", cmd [word "echo", word "KILLED"], op ";", kw "fi", op ";",
      cmd [word "echo", word killSentinel]]

def fridaStartRead (name addr port log : Word) : ShellTemplate.Script where
  bodies := []
  main :=
    [cmd [word "cd", word "/data/local/tmp"], op ";",
      .command [word ":"] [⟨none, ['>'], log⟩], op ";",
      cmd [word "chmod", word "666", log], op ";",
      cmd [word "test", word "-x", word "./" ++ name], op ";",
      .command [word "nohup", word "setsid", word "./" ++ name, word "-l",
          addr ++ word ":" ++ port]
        [⟨none, ['>'], log⟩, ⟨some (word "2"), ['>', '&'], word "1"⟩], op "&",
      cmd [word "sleep", word "1"], op ";", cmd [word "echo", word "FRIDA_STARTED"]]

def fridaStopRead (name quotedName : Word) : ShellTemplate.Script where
  bodies :=
    [[quiet [word "pidof", name]],
      [.command [word "tr", .quote :: quotedText "\\0", .quote :: quotedText " "]
          [⟨none, ['<'], word "/proc/" ++ param "P" :: word "/cmdline"⟩,
            ⟨some (word "2"), ['>'], word "/dev/null"⟩], op "|",
        cmd [word "cut", word "-d" ++ .quote :: quotedText " ", word "-f1"]]]
  main :=
    [cmd [word "FOUND=0"], op ";", cmd [word "DENIED=0"], op ";",
      kw "for", cmd [word "P", word "in", [.subst false 0]], op ";",
      kw "do", cmd [word "FOUND=1"], op ";", cmd [word "A=" ++ [.subst false 1]], op ";",
      cmd [word "A=" ++ [param "A##*/"]], op ";",
      kw "if", cmd [word "[", quotedParam "A", word "=", .quote :: quotedName, word "]"], op ";",
      kw "then", quiet [word "kill", [param "P"]], op "||", cmd [word "DENIED=1"], op ";",
      kw "else", cmd [word "DENIED=1"], op ";", kw "fi", op ";", kw "done", op ";",
      kw "if", cmd [word "[", [param "FOUND"], word "=", word "0", word "]"], op ";",
      kw "then", cmd [word "echo", word "FRIDA_NOT_RUNNING"], op ";",
      kw "elif", cmd [word "[", [param "DENIED"], word "=", word "1", word "]"], op ";",
      kw "then", cmd [word "echo", word "FRIDA_KILL_DENIED"], op ";",
      kw "else", cmd [word "echo", word "FRIDA_STOPPED"], op ";", kw "fi"]

/-- `then echo ARTPROC_TOTAL; echo …; echo ARTPROC_END; exit 0; fi;`. -/
def missingRead (line : String) : List Item :=
  [kw "then", cmd [word "echo", word "ARTPROC_TOTAL"], op ";", cmd [word "echo", word line], op ";",
    cmd [word "echo", word procReadSentinel], op ";", cmd [word "exit", word "0"], op ";", kw "fi",
    op ";"]

def procReadRead (pid file lines bytes : Word) : ShellTemplate.Script :=
  let path := word "/proc/" ++ pid ++ word "/" ++ file
  { bodies := []
    main :=
      [kw "if", cmd [word "[", word "!", word "-d", word "/proc/" ++ pid, word "]"], op ";"] ++
      missingRead "ARTPROC_GONE" ++
      [kw "if", cmd [word "[", word "!", word "-e", path, word "]"], op ";"] ++
      missingRead "ARTPROC_MISSING" ++
      [cmd [word "echo", word "ARTPROC_TOTAL"], op ";",
        quiet [word "awk", .quote :: quotedText "END\x7bprint NR\x7d", path], op "||",
        cmd [word "echo", word "-1"], op ";",
        cmd [word "echo", word "ARTPROC_BODY"], op ";",
        quiet [word "head", word "-c", bytes, path], op "|",
        cmd [word "sed", word "-n", .quote :: quotedText "1," ++ lines ++ quotedText "p"], op ";",
        cmd [word "printf", .quote :: quotedText "\n"], op ";",
        cmd [word "echo", word procReadSentinel]] }

/-! ### Templates -/

def backupParts : List Part :=
  [.text "cp -f ", .hole 0, .text " ", .hole 1, .text "; chmod 644 ", .hole 1,
    .text "; sync; echo BACKED_UP"]

def removeParts : List Part := [.text "rm -f ", .hole 0, .text "; sync; echo REMOVED"]

def installParts : List Part :=
  [.text "set -e; MODE=$(stat -c %a ", .hole 1, .text " 2>/dev/null || echo 644); ",
    .text "OWNER=$(stat -c %U:%G ", .hole 1, .text " 2>/dev/null || echo root:root); ",
    .text "CONTEXT=$(stat -c %C ", .hole 1, .text " 2>/dev/null || stat -c %C ", .hole 3,
    .text " 2>/dev/null || echo ''); ", .text "cp -f ", .hole 0, .text " ", .hole 2,
    .text "; chmod $MODE ", .hole 2, .text "; chown $OWNER ", .hole 2,
    .text " 2>/dev/null || true; ", .text "if [ -n \"$CONTEXT\" ]; then chcon \"$CONTEXT\" ",
    .hole 2, .text " 2>/dev/null || ", .text "restorecon ", .hole 2,
    .text " 2>/dev/null || true; fi; mv -f ", .hole 2, .text " ", .hole 1,
    .text "; sync; echo INSTALLED"]

def restoreParts : List Part :=
  [.text "if [ -f ", .hole 0, .text " ]; then MODE=$(stat -c %a ", .hole 1,
    .text " 2>/dev/null || echo 644); ", .text "CONTEXT=$(stat -c %C ", .hole 1,
    .text " 2>/dev/null || echo ''); ", .text "cp -f ", .hole 0, .text " ", .hole 1,
    .text ".arttmp && chmod $MODE ", .hole 1, .text ".arttmp && ",
    .text "if [ -n \"$CONTEXT\" ]; then chcon \"$CONTEXT\" ", .hole 1,
    .text ".arttmp 2>/dev/null || true; fi; ", .text "sync && mv -f ", .hole 1, .text ".arttmp ",
    .hole 1, .text " && echo ROLLED_BACK; else echo NO_BACKUP; fi"]

def killParts : List Part :=
  [.text "if [ ! -d /proc/", .hole 0, .text " ]; then echo KILL_GONE; echo ", .text killSentinel,
    .text "; exit 0; fi; ", .text "C=$(cut -d \" \" -f2 /proc/", .hole 0,
    .text "/stat 2>/dev/null | tr -d \"()\"); ", .text "if [ \"$C\" != \"", .hole 1,
    .text "\" ]; then echo \"KILL_MISMATCH $C\"; echo ", .text killSentinel,
    .text "; exit 0; fi; ", .text "kill ", .hole 0, .text " 2>/dev/null; attempt=0; ",
    .text "while kill -0 ", .hole 0, .text " 2>/dev/null && [ \"$attempt\" -lt 20 ]; ",
    .text "do sleep 0.05; attempt=$((attempt + 1)); done; ", .text "if kill -0 ", .hole 0,
    .text " 2>/dev/null; then kill -9 ", .hole 0, .text " 2>/dev/null; fi; ",
    .text "attempt=0; while kill -0 ", .hole 0,
    .text " 2>/dev/null && [ \"$attempt\" -lt 20 ]; ",
    .text "do sleep 0.05; attempt=$((attempt + 1)); done; ", .text "if kill -0 ", .hole 0,
    .text " 2>/dev/null; then echo STILL_ALIVE; else echo KILLED; fi; echo ", .text killSentinel]

def fridaStartParts : List Part :=
  [.text "cd /data/local/tmp; : > ", .hole 3, .text "; chmod 666 ", .hole 3, .text "; ",
    .text "test -x ./", .hole 0, .text "; nohup setsid ./", .hole 0, .text " -l ", .hole 1,
    .text ":", .hole 2, .text " > ", .hole 3, .text " 2>&1 & ",
    .text "sleep 1; echo FRIDA_STARTED"]

def fridaStopParts : List Part :=
  [.text "FOUND=0; DENIED=0; for P in $(pidof ", .hole 0, .text " 2>/dev/null); do FOUND=1; ",
    .text "A=$(tr '\\0' ' ' < /proc/$P/cmdline 2>/dev/null | cut -d' ' -f1); A=$\x7bA##*/\x7d; ",
    .text "if [ \"$A\" = \"", .hole 0,
    .text "\" ]; then kill $P 2>/dev/null || DENIED=1; else DENIED=1; fi; ",
    .text "done; if [ $FOUND = 0 ]; then echo FRIDA_NOT_RUNNING; ",
    .text "elif [ $DENIED = 1 ]; then echo FRIDA_KILL_DENIED; else echo FRIDA_STOPPED; fi"]

def procReadParts : List Part :=
  [.text "if [ ! -d /proc/", .hole 0,
    .text " ]; then echo ARTPROC_TOTAL; echo ARTPROC_GONE; echo ARTPROC_END; ",
    .text "exit 0; fi; ", .text "if [ ! -e ", .text "/proc/", .hole 0, .text "/", .hole 1,
    .text " ]; then echo ARTPROC_TOTAL; echo ARTPROC_MISSING; echo ARTPROC_END; ",
    .text "exit 0; fi; ", .text "echo ARTPROC_TOTAL; awk 'END\x7bprint NR\x7d' ",
    .text "/proc/", .hole 0, .text "/", .hole 1, .text " 2>/dev/null || echo -1; ",
    .text "echo ARTPROC_BODY; head -c ", .hole 3, .text " ", .text "/proc/", .hole 0, .text "/",
    .hole 1, .text " 2>/dev/null | sed -n '1,", .hole 2, .text "p'; ",
    .text "printf '\n'; echo ARTPROC_END"]

theorem read_backupTemplate :
    readTemplate (template backupParts) = some (backupRead [.hole 0] [.hole 1]) := by
  rfl

theorem read_removeTemplate :
    readTemplate (template removeParts) = some (removeRead [.hole 0]) := by
  rfl

theorem read_installTemplate : readTemplate (template installParts) =
    some (installRead [.hole 0] [.hole 1] [.hole 2] [.hole 3]) := by
  decide +kernel

theorem read_restoreTemplate : readTemplate (template restoreParts) =
    some (restoreRead [.hole 0] [.hole 1] ([.hole 1] ++ word ".arttmp")) := by
  decide +kernel

theorem read_killTemplate :
    readTemplate (template killParts) = some (killRead [.hole 0] [.quotedHole 1]) := by
  decide +kernel

theorem read_fridaStartTemplate : readTemplate (template fridaStartParts) =
    some (fridaStartRead [.hole 0] [.hole 1] [.hole 2] [.hole 3]) := by
  decide +kernel

theorem read_fridaStopTemplate :
    readTemplate (template fridaStopParts) = some (fridaStopRead [.hole 0] [.quotedHole 0]) := by
  decide +kernel

theorem read_procReadTemplate : readTemplate (template procReadParts) =
    some (procReadRead [.hole 0] [.hole 1] [.quotedHole 2] [.hole 3]) := by
  decide +kernel

/-! ### The scripts are the templates, filled -/

/-- What would stand in a hole that a template does not have. -/
def unused : List Char := ['-']

/-- The texts of the holes. -/
def filling (a b c d : List Char) : Nat → List Char
  | 0 => a
  | 1 => b
  | 2 => c
  | _ => d

section Fill

variable {σ : Nat → List Char}

@[simp] theorem fillWord_word (s : String) : fillWord σ (word s) = word s := by
  rw [word]
  induction s.toList with
  | nil => rfl
  | cons c s ih => exact congrArg (Piece.plain c :: ·) ih

@[simp] theorem fillWord_quotedText (s : String) :
    fillWord σ (quotedText s) = quotedText s := by
  rw [quotedText]
  induction s.toList with
  | nil => rfl
  | cons c s ih => exact congrArg (Piece.quoted c :: ·) ih

@[simp] theorem fillPiece_ofParam (x : String) : fillPiece σ (param x) = [param x] := rfl

@[simp] theorem fillWord_quotedParam (x : String) :
    fillWord σ (quotedParam x) = quotedParam x := rfl

@[simp] theorem fill_cmd (words : List Word) :
    (cmd words).fill σ = cmd (words.map (fillWord σ)) := rfl

@[simp] theorem fill_quiet (words : List Word) :
    (quiet words).fill σ = quiet (words.map (fillWord σ)) := rfl

@[simp] theorem fill_op (s : String) : (op s).fill σ = op s := rfl

@[simp] theorem fill_kw (s : String) : (kw s).fill σ = kw s := rfl

theorem fill_backupRead : (backupRead [.hole 0] [.hole 1]).fill σ =
    backupRead ((σ 0).map .plain) ((σ 1).map .plain) := by
  simp [backupRead, Script.fill]

theorem fill_installRead : (installRead [.hole 0] [.hole 1] [.hole 2] [.hole 3]).fill σ =
    installRead ((σ 0).map .plain) ((σ 1).map .plain) ((σ 2).map .plain) ((σ 3).map .plain) := by
  simp [installRead, statRead, Script.fill]

theorem fill_restoreRead :
    (restoreRead [.hole 0] [.hole 1] ([.hole 1] ++ word ".arttmp")).fill σ =
      restoreRead ((σ 0).map .plain) ((σ 1).map .plain)
        ((σ 1).map .plain ++ word ".arttmp") := by
  simp [restoreRead, statRead, Script.fill]

theorem fill_removeRead : (removeRead [.hole 0]).fill σ = removeRead ((σ 0).map .plain) := by
  simp [removeRead, Script.fill]

theorem fill_killRead : (killRead [.hole 0] [.quotedHole 1]).fill σ =
    killRead ((σ 0).map .plain) ((σ 1).map .quoted) := by
  simp [killRead, waitRead, endRead, Script.fill]

theorem fill_fridaStartRead : (fridaStartRead [.hole 0] [.hole 1] [.hole 2] [.hole 3]).fill σ =
    fridaStartRead ((σ 0).map .plain) ((σ 1).map .plain) ((σ 2).map .plain)
      ((σ 3).map .plain) := by
  simp [fridaStartRead, Script.fill, Redirect.fill]

theorem fill_fridaStopRead : (fridaStopRead [.hole 0] [.quotedHole 0]).fill σ =
    fridaStopRead ((σ 0).map .plain) ((σ 0).map .quoted) := by
  simp [fridaStopRead, Script.fill, Redirect.fill]

theorem fill_procReadRead :
    (procReadRead [.hole 0] [.hole 1] [.quotedHole 2] [.hole 3]).fill σ =
      procReadRead ((σ 0).map .plain) ((σ 1).map .plain) ((σ 2).map .quoted)
        ((σ 3).map .plain) := by
  simp [procReadRead, missingRead, Script.fill]

end Fill

theorem toString_string (s : String) : toString s = s := rfl

theorem toList_toString (n : Nat) : (toString n).toList = Text.decimal n := by
  rw [Nat.toString_eq_repr, Nat.repr_eq_ofList_toDigits, String.toList_ofList, Text.decimal]

theorem backup_fills (target backup : String) :
    ((backupScript target backup).text Command.word).toList =
      fillText (filling target.toList backup.toList unused unused) (template backupParts) := by
  rw [backupScript_text]
  simp only [fillText_template, backupParts, List.flatMap_cons, List.flatMap_nil,
    Part.fill, filling, List.append_nil, List.append_assoc, toString_string, String.toList_append]

theorem install_fills (staged target tmp dir : String) :
    ((installScript staged target tmp dir).text Command.word).toList =
      fillText (filling staged.toList target.toList tmp.toList dir.toList)
        (template installParts) := by
  rw [installScript_text]
  simp only [fillText_template, installParts, List.flatMap_cons, List.flatMap_nil,
    Part.fill, filling, List.append_nil, List.append_assoc, toString_string, String.toList_append]

theorem restore_fills (backup target : String) :
    ((rollbackScript backup target true).text Command.word).toList =
      fillText (filling backup.toList target.toList unused unused) (template restoreParts) := by
  rw [rollbackScript_text]
  simp only [fillText_template, restoreParts, List.flatMap_cons, List.flatMap_nil,
    Part.fill, filling, List.append_nil, List.append_assoc, toString_string, String.toList_append]

theorem remove_fills (backup target : String) :
    ((rollbackScript backup target false).text Command.word).toList =
      fillText (filling target.toList unused unused unused) (template removeParts) := by
  rw [removeScript_text]
  simp only [fillText_template, removeParts, List.flatMap_cons, List.flatMap_nil,
    Part.fill, filling, List.append_nil, List.append_assoc, toString_string, String.toList_append]

theorem kill_fills (pid : Nat) (comm : String) : (killVerifiedScript pid comm).toList =
    fillText (filling (Text.decimal pid) comm.toList unused unused) (template killParts) := by
  unfold killVerifiedScript
  simp only [fillText_template, killParts, List.flatMap_cons, List.flatMap_nil,
    Part.fill, filling, List.append_nil, List.append_assoc, toString_string, toList_toString,
    String.toList_append]

theorem fridaStart_fills (name addr : String) (port : UInt16) (log : String) :
    (fridaStartScript name addr port log).toList =
      fillText (filling name.toList addr.toList (Text.decimal port.toNat) log.toList)
        (template fridaStartParts) := by
  unfold fridaStartScript
  simp only [fillText_template, fridaStartParts, List.flatMap_cons, List.flatMap_nil,
    Part.fill, filling, List.append_nil, List.append_assoc, toString_string, toList_toString,
    String.toList_append]

theorem fridaStop_fills (name : String) : (fridaStopScript name).toList =
    fillText (filling name.toList unused unused unused) (template fridaStopParts) := by
  unfold fridaStopScript
  simp only [fillText_template, fridaStopParts, List.flatMap_cons, List.flatMap_nil,
    Part.fill, filling, List.append_nil, List.append_assoc, toString_string, String.toList_append]

theorem procRead_fills (pid : Nat) (file : String) (maxLines maxBytes : Nat) :
    (procReadScript pid file maxLines maxBytes).toList =
      fillText (filling (Text.decimal pid) file.toList (Text.decimal maxLines)
        (Text.decimal maxBytes)) (template procReadParts) := by
  unfold procReadScript
  simp only [fillText_template, procReadParts, List.flatMap_cons, List.flatMap_nil,
    Part.fill, filling, List.append_nil, List.append_assoc, toString_string, toList_toString,
    String.toList_append]

/-! ### What the checks let through -/

theorem reads_fill {parts : List Part} {r : ShellTemplate.Script} {σ : Nat → List Char}
    (h : readTemplate (template parts) = some r) (hσ : ∀ n, isLiteral (σ n) = true) :
    readScript (fillText σ (template parts)) = some (r.fill σ) := readScript_fill hσ h

theorem isLiteral_filling {a b c d : List Char} (ha : isLiteral a = true)
    (hb : isLiteral b = true) (hc : isLiteral c = true) (hd : isLiteral d = true) (n : Nat) :
    isLiteral (filling a b c d n) = true :=
  match n with
  | 0 => ha
  | 1 => hb
  | 2 => hc
  | _ + 3 => hd

theorem isLiteral_unused : isLiteral unused = true := rfl

/-- Text of characters that are not special, and that begins with no `#` and no `~`. -/
theorem isLiteral_of {s : List Char} (hne : s ≠ []) (hall : ∀ c ∈ s, isSpecial c = false)
    (hbegin : ∀ c ∈ s.head?, c ≠ '#' ∧ c ≠ '~') : isLiteral s = true := by
  have hhash : s.head? ≠ some '#' := fun h => (hbegin _ h).1 rfl
  have htilde : s.head? ≠ some '~' := fun h => (hbegin _ h).2 rfl
  have hspecial : s.all (fun c => !isSpecial c) = true :=
    List.all_eq_true.mpr fun c hc => by rw [hall c hc]; rfl
  simp [isLiteral, hne, hspecial, hhash, htilde]

theorem isSpecial_of_not_forbidden {c : Char} (h : forbiddenInPath.contains c = false) :
    isSpecial c = false := by
  have hmem : c ∉ forbiddenInPath := fun hc => by
    rw [List.contains_iff_mem.mpr hc] at h
    cases h
  simp only [forbiddenInPath, List.mem_cons, List.not_mem_nil, or_false, not_or] at hmem
  have hback : c.toNat ≠ 0x60 := fun h => hmem.2.2.1 (Char.toNat_inj.mp h)
  simp [isSpecial, Shell.beginsOp, Shell.isBlank, Shell.isPattern, hmem, hback]

/-- Where the path lies: below an allowed directory, with no way up. -/
def Under (path : List Char) : Prop :=
  (∃ pre ∈ allowedPrefixes, Text.startsWith pre.toList path = true) ∧
    Text.contains "..".toList path = false

theorem checkShape_ok {path : String} (h : checkShape path = .ok ()) :
    Under path.toList ∧ ∀ c ∈ path.toList, forbiddenInPath.contains c = false := by
  rw [checkShape] at h
  split_ifs at h with hlength hstarts hup hcharset
  refine ⟨⟨List.any_eq_true.mp (hstarts), Bool.eq_false_iff.mpr hup⟩, fun c hc => ?_⟩
  exact Bool.eq_false_iff.mpr fun hf => hcharset (List.any_eq_true.mpr ⟨c, hc, hf⟩)

theorem isLiteral_of_checkShape {path : String} (h : checkShape path = .ok ()) :
    isLiteral path.toList = true := by
  obtain ⟨⟨⟨pre, hpre, hstart⟩, -⟩, hall⟩ := checkShape_ok h
  have hslash : path.toList.head? = some '/' := by
    obtain ⟨rest, hrest⟩ := List.isPrefixOf_iff_prefix.mp hstart
    rw [← hrest]
    simp only [allowedPrefixes, List.mem_cons, List.not_mem_nil, or_false] at hpre
    rcases hpre with rfl | rfl | rfl <;> rfl
  refine isLiteral_of (fun hnil => ?_) (fun c hc => isSpecial_of_not_forbidden (hall c hc)) ?_
  · rw [hnil] at hslash
    cases hslash
  · rw [hslash]
    intro c hc
    cases hc
    decide

theorem checkShape_of_validatePath {path : String} (h : validatePath path = .ok ()) :
    checkShape path = .ok () := by
  rw [validatePath] at h
  cases hshape : checkShape path with
  | error e =>
      rw [hshape] at h
      cases h
  | ok u => rfl

theorem checkShape_of_validateDir {path : String} (h : validateDir path = .ok ()) :
    checkShape path = .ok () := by
  rw [validateDir] at h
  cases hshape : checkShape path with
  | error e =>
      rw [hshape] at h
      cases h
  | ok u => rfl

theorem isLiteral_append {s r : List Char} (hs : isLiteral s = true)
    (hr : r.all (fun c => !isSpecial c) = true) : isLiteral (s ++ r) = true := by
  simp only [isLiteral, Bool.and_eq_true, decide_eq_true_eq] at hs
  obtain ⟨⟨⟨hne, hall⟩, hhash⟩, htilde⟩ := hs
  cases s with
  | nil => exact absurd rfl hne
  | cons a s =>
      refine isLiteral_of (List.cons_ne_nil _ _) (fun c hc => ?_) fun c hc => ?_
      · rcases List.mem_append.mp hc with hc | hc
        · simpa using List.all_eq_true.mp hall c hc
        · simpa using List.all_eq_true.mp hr c hc
      · cases hc
        exact ⟨fun h => hhash (congrArg some h), fun h => htilde (congrArg some h)⟩

/-- Two texts without a pair of dots, put together, have none if the first does not end in a dot. -/
theorem contains_dots_append {s r : List Char} (hs : Text.contains ['.', '.'] s = false)
    (hr : Text.contains ['.', '.'] r = false) (hend : s.getLast? ≠ some '.') :
    Text.contains ['.', '.'] (s ++ r) = false := by
  induction s with
  | nil => exact hr
  | cons c s ih =>
      rw [Text.contains, Bool.or_eq_false_iff] at hs
      rw [List.cons_append, Text.contains, Bool.or_eq_false_iff]
      cases s with
      | nil =>
          have hc : c ≠ '.' := fun h => hend (congrArg some h)
          exact ⟨by simp [Text.startsWith, List.isPrefixOf, hc.symm], hr⟩
      | cons d s =>
          rw [List.getLast?_cons_cons] at hend
          exact ⟨hs.1, ih hs.2 hend⟩

theorem validatePath_ends {path : String} (h : validatePath path = .ok ()) :
    path.toList.getLast? ≠ some '.' := by
  have hends : endsWith path ".so" = true ∨ endsWith path ".artbak" = true ∨
      endsWith path ".arttmp" = true := by
    by_contra hno
    rw [not_or, not_or] at hno
    rw [validatePath, checkShape_of_validatePath h] at h
    exact nomatch h.symm.trans (if_pos hno)
  have hlast {suffix : List Char} (hs : suffix.isSuffixOf path.toList = true)
      (hdot : suffix.getLast? ≠ some '.') (hne : suffix ≠ []) :
      path.toList.getLast? ≠ some '.' := by
    obtain ⟨front, hfront⟩ := List.isSuffixOf_iff_suffix.mp hs
    rw [← hfront, List.getLast?_append_of_ne_nil _ hne]
    exact hdot
  rcases hends with h | h | h
  · exact hlast h (by decide) (by decide)
  · exact hlast h (by decide) (by decide)
  · exact hlast h (by decide) (by decide)

/-- The temporary name of an accepted path lies where the path does. -/
theorem under_arttmp {path : String} (h : validatePath path = .ok ()) :
    Under (path ++ ".arttmp").toList := by
  obtain ⟨⟨⟨pre, hpre, hstart⟩, hup⟩, -⟩ := checkShape_ok (checkShape_of_validatePath h)
  rw [String.toList_append]
  refine ⟨⟨pre, hpre, ?_⟩, contains_dots_append hup (by decide) (validatePath_ends h)⟩
  exact List.isPrefixOf_iff_prefix.mpr
    ((List.isPrefixOf_iff_prefix.mp hstart).trans (List.prefix_append _ _))

theorem isLiteral_arttmp {path : String} (h : checkShape path = .ok ()) :
    isLiteral (path ++ ".arttmp").toList = true := by
  rw [String.toList_append]
  exact isLiteral_append (isLiteral_of_checkShape h) rfl

/-- Letters and digits, and what else the checks of names let through. -/
def isNameChar (c : Char) : Bool :=
  Text.isAsciiAlphanumeric c || c = '_' || c = '.' || c = '-' || c = '+'

theorem isLiteral_of_name {s : List Char} (hne : s ≠ []) (h : ∀ c ∈ s, isNameChar c = true) :
    isLiteral s = true := by
  have hspecial (c : Char) (hc : isNameChar c = true) :
      isSpecial c = false ∧ c ≠ '#' ∧ c ≠ '~' := by
    have hnot (d : Char) (hd : isNameChar d = false) : c ≠ d := fun hcd => by
      rw [hcd, hd] at hc
      cases hc
    have hback : c.toNat ≠ 0x60 := fun h => hnot '`' (by decide) (Char.toNat_inj.mp h)
    simp [isSpecial, Shell.beginsOp, Shell.isBlank, Shell.isPattern, hback,
      hnot '\\' (by decide), hnot '\'' (by decide), hnot '"' (by decide), hnot '$' (by decide),
      hnot '&' (by decide), hnot '|' (by decide), hnot ';' (by decide), hnot '<' (by decide),
      hnot '>' (by decide), hnot '(' (by decide), hnot ')' (by decide), hnot '\n' (by decide),
      hnot ' ' (by decide), hnot '\t' (by decide), hnot '*' (by decide), hnot '?' (by decide),
      hnot '[' (by decide), hnot '#' (by decide), hnot '~' (by decide)]
  exact isLiteral_of hne (fun c hc => (hspecial c (h c hc)).1) fun c hc =>
    (hspecial c (h c (List.mem_of_mem_head? hc))).2

theorem isLiteral_of_validateComm {comm : List Char} (h : validateComm comm = .ok ()) :
    isLiteral comm = true := by
  rw [validateComm] at h
  split_ifs at h with hlength hcharset
  refine isLiteral_of_name (fun hnil => hlength (.inl hnil)) fun c hc => ?_
  rw [isNameChar, List.all_eq_true.mp hcharset c hc, Bool.true_or]

theorem isLiteral_of_validateBinaryName {name : String} (h : validateBinaryName name = .ok ()) :
    isLiteral name.toList = true := by
  rw [validateBinaryName] at h
  split_ifs at h with hok
  refine isLiteral_of_name (fun hnil => hok.1 (String.toList_eq_nil_iff.mp hnil)) fun c hc => ?_
  exact List.all_eq_true.mp hok.2.2.2.2 c hc

theorem isLiteral_of_validateListen {addr : String} {port : UInt16}
    (h : validateListen addr port = .ok ()) : isLiteral addr.toList = true := by
  rw [validateListen] at h
  split_ifs at h with haddr
  rw [not_and_or, not_not, not_not] at haddr
  rcases haddr with rfl | rfl <;> decide

theorem isLiteral_decimal (n : Nat) : isLiteral (Text.decimal n) = true :=
  isLiteral_of_name (Text.decimal_ne_nil n) fun c hc => by
    rw [isNameChar, Text.isAsciiAlphanumeric, Text.isAsciiDigit_of_mem_decimal hc]
    simp

/-! ### What is written -/

/-- The commands that write or remove files, with the number of their arguments that are none of
these. -/
def fileCommands : List (Word × Nat) :=
  [(word "cp", 2), (word "mv", 1), (word "rm", 1), (word "chmod", 1), (word "chown", 1),
    (word "chcon", 1), (word "restorecon", 0)]

/-- The files that a command writes or removes by its arguments. -/
def writtenBy : List Word → List Word
  | [] => []
  | c :: args =>
      match fileCommands.find? fun e => e.1 = c with
      | some (_, n) => args.drop n
      | none => []

/-- The file that a redirection writes, but for `/dev/null`, which keeps nothing. -/
def writtenTo (d : Redirect) : List Word :=
  if d.op ∈ [['>'], ['>', '>'], ['>', '|'], ['<', '>']] ∧ d.target ≠ word "/dev/null" then
    [d.target]
  else []

def writtenItem : Item → List Word
  | .command words redirects => writtenBy words ++ redirects.flatMap writtenTo
  | _ => []

/-- The files that a script writes or removes. -/
def written (r : ShellTemplate.Script) : List Word :=
  (r.bodies.flatten ++ r.main).flatMap writtenItem

theorem written_backupRead (target backup : Word) :
    written (backupRead target backup) = [backup, backup] := rfl

theorem written_installRead (staged target tmp dir : Word) :
    written (installRead staged target tmp dir) = [tmp, tmp, tmp, tmp, tmp, tmp, target] := rfl

theorem written_restoreRead (backup target tmp : Word) :
    written (restoreRead backup target tmp) = [tmp, tmp, tmp, tmp, target] := rfl

theorem written_removeRead (target : Word) : written (removeRead target) = [target] := rfl

set_option maxRecDepth 4000 in
theorem written_killRead (pid comm : Word) : written (killRead pid comm) = [] := rfl

theorem written_fridaStartRead (name addr port : Word) :
    written (fridaStartRead name addr port (word startLog)) =
      [word startLog, word startLog, word startLog] := rfl

set_option maxRecDepth 4000 in
theorem written_fridaStopRead (name quotedName : Word) :
    written (fridaStopRead name quotedName) = [] := rfl

set_option maxRecDepth 4000 in
theorem written_procReadRead (pid file lines bytes : Word) :
    written (procReadRead pid file lines bytes) = [] := rfl

/-! ### The shape of a script -/

/-- The word is a path under an allowed directory. -/
def Allowed (w : Word) : Prop := ∃ path : String, w = word path ∧ Under path.toList

/-- A shell reads the script as these commands, and what they write or remove is allowed. -/
structure Keeps (script : List Char) (read : ShellTemplate.Script) : Prop where
  reads : readScript script = some read
  allowed : ∀ w ∈ written read, Allowed w

section Shapes

variable {staged target backup dir comm name addr : String} {port : UInt16}

theorem isLiteral_of_validatePath {path : String} (h : validatePath path = .ok ()) :
    isLiteral path.toList = true := isLiteral_of_checkShape (checkShape_of_validatePath h)

theorem allowed_of_validatePath {path : String} (h : validatePath path = .ok ()) :
    Allowed (word path) := ⟨path, rfl, (checkShape_ok (checkShape_of_validatePath h)).1⟩

theorem allowed_arttmp {path : String} (h : validatePath path = .ok ()) :
    Allowed (word (path ++ ".arttmp")) := ⟨_, rfl, under_arttmp h⟩

theorem allowed_startLog : Allowed (word startLog) :=
  ⟨startLog, rfl, ⟨"/data/local/tmp/", by decide, by decide⟩, by decide⟩

theorem keeps_backup (htarget : validatePath target = .ok ())
    (hbackup : validatePath backup = .ok ()) :
    Keeps ((backupScript target backup).text Command.word).toList
      (backupRead (word target) (word backup)) where
  reads := by
    have hσ := isLiteral_filling (isLiteral_of_validatePath htarget)
      (isLiteral_of_validatePath hbackup) isLiteral_unused
      isLiteral_unused
    rw [backup_fills, reads_fill read_backupTemplate hσ, fill_backupRead]
    rfl
  allowed := by
    rw [written_backupRead]
    simp [allowed_of_validatePath hbackup]

theorem keeps_install (hstaged : validatePath staged = .ok ())
    (htarget : validatePath target = .ok ()) (hdir : validateDir dir = .ok ()) :
    Keeps ((installScript staged target (target ++ ".arttmp") dir).text Command.word).toList
      (installRead (word staged) (word target) (word (target ++ ".arttmp")) (word dir)) where
  reads := by
    have hσ := isLiteral_filling (isLiteral_of_validatePath hstaged)
      (isLiteral_of_validatePath htarget) (isLiteral_arttmp (checkShape_of_validatePath htarget))
      (isLiteral_of_checkShape (checkShape_of_validateDir hdir))
    rw [install_fills, reads_fill read_installTemplate hσ, fill_installRead]
    rfl
  allowed := by
    rw [written_installRead]
    simp [allowed_of_validatePath htarget, allowed_arttmp htarget]

theorem keeps_restore (hbackup : validatePath backup = .ok ())
    (htarget : validatePath target = .ok ()) :
    Keeps ((rollbackScript backup target true).text Command.word).toList
      (restoreRead (word backup) (word target) (word (target ++ ".arttmp"))) where
  reads := by
    have hσ := isLiteral_filling (isLiteral_of_validatePath hbackup)
      (isLiteral_of_validatePath htarget) isLiteral_unused isLiteral_unused
    have htmp : word (target ++ ".arttmp") = word target ++ word ".arttmp" := by
      rw [word, String.toList_append, List.map_append]
      rfl
    rw [restore_fills, reads_fill read_restoreTemplate hσ, fill_restoreRead, htmp]
    rfl
  allowed := by
    rw [written_restoreRead]
    simp [allowed_of_validatePath htarget, allowed_arttmp htarget]

theorem keeps_remove (htarget : validatePath target = .ok ()) :
    Keeps ((rollbackScript backup target false).text Command.word).toList
      (removeRead (word target)) where
  reads := by
    have hσ := isLiteral_filling (isLiteral_of_validatePath htarget) isLiteral_unused
      isLiteral_unused isLiteral_unused
    rw [remove_fills, reads_fill read_removeTemplate hσ, fill_removeRead]
    rfl
  allowed := by
    rw [written_removeRead]
    simp [allowed_of_validatePath htarget]

/-- A number as it stands in a script. -/
def numeral (n : Nat) : Word := (Text.decimal n).map .plain

theorem keeps_kill (pid : Nat) (hcomm : validateComm comm.toList = .ok ()) :
    Keeps (killVerifiedScript pid comm).toList (killRead (numeral pid) (quotedText comm)) where
  reads := by
    have hσ := isLiteral_filling (isLiteral_decimal pid) (isLiteral_of_validateComm hcomm)
      isLiteral_unused isLiteral_unused
    rw [kill_fills, reads_fill read_killTemplate hσ, fill_killRead]
    rfl
  allowed := by
    rw [written_killRead]
    nofun

theorem keeps_fridaStart (hname : validateBinaryName name = .ok ())
    (hlisten : validateListen addr port = .ok ()) :
    Keeps (fridaStartScript name addr port startLog).toList
      (fridaStartRead (word name) (word addr) (numeral port.toNat) (word startLog)) where
  reads := by
    have hσ := isLiteral_filling (isLiteral_of_validateBinaryName hname)
      (isLiteral_of_validateListen hlisten) (isLiteral_decimal port.toNat)
      (by decide : isLiteral startLog.toList = true)
    rw [fridaStart_fills, reads_fill read_fridaStartTemplate hσ, fill_fridaStartRead]
    rfl
  allowed := by
    rw [written_fridaStartRead]
    simp [allowed_startLog]

theorem keeps_fridaStop (hname : validateBinaryName name = .ok ()) :
    Keeps (fridaStopScript name).toList (fridaStopRead (word name) (quotedText name)) where
  reads := by
    have hσ := isLiteral_filling (isLiteral_of_validateBinaryName hname) isLiteral_unused
      isLiteral_unused isLiteral_unused
    rw [fridaStop_fills, reads_fill read_fridaStopTemplate hσ, fill_fridaStopRead]
    rfl
  allowed := by
    rw [written_fridaStopRead]
    nofun

theorem keeps_procRead (pid maxLines maxBytes : Nat) (file : ProcRead.ProcFile) :
    Keeps (procReadScript pid file.asStr maxLines maxBytes).toList
      (procReadRead (numeral pid) (word file.asStr) ((Text.decimal maxLines).map .quoted)
        (numeral maxBytes)) where
  reads := by
    have hfile : isLiteral file.asStr.toList = true := by cases file <;> decide
    have hσ := isLiteral_filling (isLiteral_decimal pid) hfile (isLiteral_decimal maxLines)
      (isLiteral_decimal maxBytes)
    rw [procRead_fills, reads_fill read_procReadTemplate hσ, fill_procReadRead]
    rfl
  allowed := by
    rw [written_procReadRead]
    nofun

/-- Whatever the checks let through, each script is read as the same commands, with every word given
as one word of theirs that means nothing else to the shell, and what they write or remove is under
an allowed directory. -/
theorem scripts_keep_shape (hstaged : validatePath staged = .ok ())
    (htarget : validatePath target = .ok ()) (hbackup : validatePath backup = .ok ())
    (hdir : validateDir dir = .ok ()) (hcomm : validateComm comm.toList = .ok ())
    (hname : validateBinaryName name = .ok ()) (hlisten : validateListen addr port = .ok ())
    (pid maxLines maxBytes : Nat) (file : ProcRead.ProcFile) :
    let tmp := target ++ ".arttmp"
    Keeps ((backupScript target backup).text Command.word).toList
      (backupRead (word target) (word backup)) ∧
    Keeps ((installScript staged target tmp dir).text Command.word).toList
      (installRead (word staged) (word target) (word tmp) (word dir)) ∧
    Keeps ((rollbackScript backup target true).text Command.word).toList
      (restoreRead (word backup) (word target) (word tmp)) ∧
    Keeps ((rollbackScript backup target false).text Command.word).toList
      (removeRead (word target)) ∧
    Keeps (killVerifiedScript pid comm).toList (killRead (numeral pid) (quotedText comm)) ∧
    Keeps (fridaStartScript name addr port startLog).toList
      (fridaStartRead (word name) (word addr) (numeral port.toNat) (word startLog)) ∧
    Keeps (fridaStopScript name).toList (fridaStopRead (word name) (quotedText name)) ∧
    Keeps (procReadScript pid file.asStr maxLines maxBytes).toList
      (procReadRead (numeral pid) (word file.asStr) ((Text.decimal maxLines).map .quoted)
        (numeral maxBytes)) ∧
    ∀ text ∈ [staged, target, backup, tmp, dir, comm, name, addr],
      isLiteral text.toList = true := by
  refine ⟨keeps_backup htarget hbackup, keeps_install hstaged htarget hdir,
    keeps_restore hbackup htarget, keeps_remove htarget, keeps_kill pid hcomm,
    keeps_fridaStart hname hlisten, keeps_fridaStop hname,
    keeps_procRead pid maxLines maxBytes file, ?_⟩
  simp only [List.forall_mem_cons, List.not_mem_nil, false_imp_iff, implies_true, and_true]
  exact ⟨isLiteral_of_validatePath hstaged, isLiteral_of_validatePath htarget,
    isLiteral_of_validatePath hbackup, isLiteral_arttmp (checkShape_of_validatePath htarget),
    isLiteral_of_checkShape (checkShape_of_validateDir hdir), isLiteral_of_validateComm hcomm,
    isLiteral_of_validateBinaryName hname, isLiteral_of_validateListen hlisten⟩

theorem scripts_keep_shape_example :
    Keeps ((installScript "/data/local/tmp/op/a.so" "/data/app/p/lib/arm64/a.so"
        "/data/app/p/lib/arm64/a.so.arttmp" "/data/app/p/lib/arm64").text Command.word).toList
      (installRead (word "/data/local/tmp/op/a.so") (word "/data/app/p/lib/arm64/a.so")
        (word "/data/app/p/lib/arm64/a.so.arttmp") (word "/data/app/p/lib/arm64")) :=
  (scripts_keep_shape (rfl : validatePath "/data/local/tmp/op/a.so" = .ok ())
    (rfl : validatePath "/data/app/p/lib/arm64/a.so" = .ok ())
    (rfl : validatePath "/data/local/tmp/op/a.so.artbak" = .ok ())
    (rfl : validateDir "/data/app/p/lib/arm64" = .ok ())
    (rfl : validateComm "sh".toList = .ok ())
    (rfl : validateBinaryName "frida-server" = .ok ())
    (rfl : validateListen "127.0.0.1" 27042 = .ok ()) 1 400 1024 .maps).2.1

end Shapes

end RevBox.Privileged
