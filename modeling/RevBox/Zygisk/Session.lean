import RevBox.Support.CText

/-!
# Zygisk — Session

The command loop of an authenticated session (`serve_session` of `main.cpp`): how a line is read,
split and checked, and what the module is made to do by it.

A buffer is what it holds as a string.  `rest` is declared in the loop and never cleared: a command
without an argument leaves in it what was there, which is what the line before left there.
-/

namespace RevBox.Zygisk

open CText

/-- The command words of `HANDLERS`. -/
inductive Command where
  | s | l | m | e | p | i
  deriving DecidableEq

namespace Command

/-- `Handler::cmd`. -/
def word : Command → Bytes
  | s => lit "S"
  | l => lit "L"
  | m => lit "M"
  | e => lit "E"
  | p => lit "P"
  | i => lit "I"

/-- `Handler::framed`. -/
def framed : Command → Bool
  | s | e => false
  | l | m | p | i => true

end Command

/-- `HANDLERS`, by its commands. -/
def handlers : List Command := [.s, .l, .m, .e, .p, .i]

/-- `find_handler`. -/
def findHandler (cmd : Bytes) : Option Command := handlers.find? fun h => h.word = cmd

/-- What an accepted command has done: `STATUS`, the registry, or a run of the helper with these
arguments. -/
inductive Task where
  | status
  | registry
  | list (locale scope : Bytes) (disabled : Bool)
  | one (package : Bytes)
  | manifest
  | files (package : Bytes)
  deriving DecidableEq

/-- What a line comes to: the end of the session, an `ERR` in one of the two modes, or a task. -/
inductive Verdict where
  | close
  | refuse (framed : Bool) (code message : Bytes)
  | run (task : Task)
  deriving DecidableEq

/-- The characters of a locale. -/
def inLocale (b : UInt8) : Bool :=
  (0x41 ≤ b && b ≤ 0x5A) || (0x61 ≤ b && b ≤ 0x7A) || (0x30 ≤ b && b ≤ 0x39) ||
    b = 0x2D || b = 0x5F || b = 0x2E

/-- `L`: its arguments, and their checks. -/
def judgeList (rest : Bytes) : Verdict :=
  let usage := .refuse Command.l.framed (lit "bad_request")
    (lit "L <locale|-> <all|user|system> <0|1>")
  match CText.word 127 rest with
  | none => usage
  | some (locale, rest) =>
      match CText.word 15 rest with
      | none => usage
      | some (scope, rest) =>
          let includeDisabled := (int rest).getD 0
          if locale ≠ lit "-" ∧ ¬ (locale.length ≤ 35 ∧ locale.all inLocale) then
            .refuse Command.l.framed (lit "bad_locale") locale
          else if scope ≠ lit "all" ∧ scope ≠ lit "user" ∧ scope ≠ lit "system" then
            .refuse Command.l.framed (lit "bad_scope") scope
          else .run (.list locale scope (includeDisabled ≠ 0))

/-- The characters that no package has: `/\ "'` and those of a shell. -/
def shellSpecial : Bytes := lit "/\\ \"'`$;&|<>()"

/-- `P`. -/
def judgeDescribe (rest : Bytes) : Verdict :=
  if rest = [] ∨ rest.any (fun b => lit " \t\r\n" |>.contains b) ∨
      rest.any (fun b => shellSpecial.contains b) ∨ 256 < rest.length then
    .refuse Command.p.framed (lit "bad_package") rest
  else .run (.one rest)

/-- `E`. -/
def judgeExport (rest : Bytes) : Verdict :=
  if rest = [] ∨ rest.any (fun b => shellSpecial.contains b) ∨ 256 < rest.length then
    .refuse false (lit "bad_package") rest
  else .run (.files rest)

/-- A command that is not fused, with its argument. -/
def judgeCommand (rest : Bytes) : Command → Verdict
  | .s => .run .status
  | .i => .run .registry
  | .l => judgeList rest
  | .p => judgeDescribe rest
  | .m => .run .manifest
  | .e => judgeExport rest

/-- The second `%503[^\n]`: what it reads, or what `rest` held. -/
def argument (stale more : Bytes) : Bytes :=
  match upToNewline 503 (skip more) with
  | some (rest, _) => rest
  | none => stale

/-- One line: what it comes to, and what it leaves in `rest`. -/
def judge (fused : Command → Bool) (stale line : Bytes) : Verdict × Bytes :=
  -- a token is kept out of the log
  let line := cString (if (lit "H ").isPrefixOf line then line.take 4 else line)
  if line = lit "X" then (.close, stale)
  else
    match CText.word 7 line with
    | none => (.refuse false (lit "bad_request") line, stale)
    | some (cmd, more) =>
        let rest := argument stale more
        match findHandler cmd with
        | none => (.refuse false (lit "unknown_command") line, rest)
        | some h =>
            if fused h then (.refuse h.framed (lit "method_fused") h.word, rest)
            else (judgeCommand rest h, rest)

/-- The lines of a session, in turn, up to the one that ends it. -/
def serve (fused : Command → Bool) : Bytes → List Bytes → List Verdict
  | _, [] => []
  | stale, line :: lines =>
      if (judge fused stale line).1 = .close then [.close]
      else (judge fused stale line).1 :: serve fused (judge fused stale line).2 lines

/-- What a session is made to do by the bytes it is sent. -/
def session (fused : Command → Bool) (stale stream : Bytes) : List Verdict :=
  serve fused stale (lines 511 stream)

end RevBox.Zygisk
