import RevBox.Desktop.AdbShell
import RevBox.Desktop.HostedRecords
import RevBox.Support.ShellWords
import RevBox.Support.Spaced
import RevBox.Support.Trim

/-!
# Desktop — DeviceShell

A program of the device in a terminal of the page: the line its arguments are typed into
(`src/lib/commandTokens.ts`, and `splitArgs` of `features/binary/hostedLaunch.ts`), and the command
that `src/lib/deviceShell.ts` makes of them for the shell of the device.

* `launch_runs`: what the shell of the device reads is `cd` to the directory and then the program
  with the arguments as they are, through `su` too.
* `arguments_as_shell`: of a line without expansions the bar makes the arguments that a shell makes
  of it, and every list of arguments can be typed.
-/

namespace RevBox.DeviceShell

open Shell AdbShell HostedRecords

/-! ### `commandTokens.ts` -/

/-- The loop of `tokenizeCommand`. -/
structure Tokens where
  tokens : List (List Char)
  current : List Char
  quote : Option Char
  has : Bool
  deriving DecidableEq

/-- One turn of the loop. -/
def Tokens.step (t : Tokens) (ch : Char) : Tokens :=
  match t.quote with
  | some quote =>
      if ch = quote then { t with quote := none } else { t with current := t.current ++ [ch] }
  | none =>
      if ch = '"' ∨ ch = '\'' then { t with quote := some ch, has := true }
      else if Text.isJsSpace ch then
        if t.has ∨ t.current ≠ [] then
          { t with tokens := t.tokens ++ [t.current], current := [], has := false }
        else t
      else { t with current := t.current ++ [ch] }

section Turns

variable {t : Tokens} {c q : Char}

theorem step_opens (ht : t.quote = none) (hc : c = '"' ∨ c = '\'') :
    t.step c = { t with quote := some c, has := true } := by
  simp only [Tokens.step, ht, if_pos hc]

theorem step_joins (ht : t.quote = none) (hc : ¬(c = '"' ∨ c = '\''))
    (hspace : Text.isJsSpace c = false) : t.step c = { t with current := t.current ++ [c] } := by
  simp only [Tokens.step, ht, if_neg hc, hspace, if_neg Bool.false_ne_true]

theorem step_space (ht : t.quote = none) (hc : ¬(c = '"' ∨ c = '\''))
    (hspace : Text.isJsSpace c = true) : t.step c = if t.has ∨ t.current ≠ [] then
      { t with tokens := t.tokens ++ [t.current], current := [], has := false } else t := by
  simp only [Tokens.step, ht, if_neg hc, hspace, if_true]

theorem step_closes (ht : t.quote = some q) : t.step q = { t with quote := none } := by
  simp only [Tokens.step, ht, if_true]

theorem step_inside (ht : t.quote = some q) (hc : c ≠ q) :
    t.step c = { t with current := t.current ++ [c] } := by
  simp only [Tokens.step, ht, if_neg hc]

end Turns

/-- What comes after the loop. -/
def Tokens.finish (t : Tokens) : List (List Char) :=
  if t.has ∨ t.current ≠ [] then t.tokens ++ [t.current] else t.tokens

/-- Before the loop. -/
def Tokens.start : Tokens := ⟨[], [], none, false⟩

/-- `tokenizeCommand`. -/
def tokenizeCommand (line : List Char) : Option (List Char × List (List Char)) :=
  let trimmed := Text.jsTrim line
  if trimmed = [] then none
  else
    match (trimmed.foldl Tokens.step .start).finish with
    | [] => none
    | executable :: args => some (executable, args)

/-- `splitArgs`. -/
def splitArgs (line : List Char) : List (List Char) :=
  if Text.jsTrim line = [] then []
  else
    match tokenizeCommand ("__placeholder__ ".toList ++ line) with
    | some parsed => parsed.2
    | none => []

/-! ### `deviceShell.ts` -/

/-- `HostedBinaryBlock`. -/
inductive Block where
  | noAdb
  | noSerial
  | badSerial
  | badName
  deriving DecidableEq

/-- `DeviceShellLaunch`. -/
structure Launch where
  program : List Char
  args : List (List Char)
  deriving DecidableEq

/-- `SERIAL_PATTERN`. -/
def serialPattern (s : List Char) : Bool :=
  (s.all fun c => c.isAlphanum || c = '.' || c = '_' || c = ':' || c = '-') && 1 ≤ s.length &&
    s.length ≤ 64

/-- `deviceShellLaunch`. -/
def deviceShellLaunch (adbPath serial : Option (List Char)) : Except Block Launch :=
  match (adbPath.map Text.jsTrim).filter (· ≠ []) with
  | none => .error .noAdb
  | some path =>
      match (serial.map Text.jsTrim).filter (· ≠ []) with
      | none => .error .noSerial
      | some id =>
          if serialPattern id then
            .ok ⟨path, ["-s".toList, id, "shell".toList, "-tt".toList]⟩
          else .error .badSerial

/-- `HostedBinaryLaunchRequest`. -/
structure Request where
  dir : List Char
  name : List Char
  args : List (List Char)
  root : Bool

/-- `NAME_PATTERN`, which counts UTF-16 units. -/
def namePattern (s : List Char) : Bool :=
  (s.all fun c => !Text.isJsSpace c && c ≠ '/' && c ≠ '\\') && 1 ≤ (utf16 s).length &&
    (utf16 s).length ≤ 120

/-- The directory of hosted programs. -/
def hostedDir : List Char := "/data/local/tmp".toList

/-- The directory of a request: `(dir || …).trim() || …`. -/
def Request.resolvedDir (r : Request) : List Char :=
  let dir := Text.jsTrim (if r.dir = [] then hostedDir else r.dir)
  if dir = [] then hostedDir else dir

/-- What is run, with the directory where the name has none. -/
def executable (name : List Char) : List Char :=
  if '/' ∈ name then name else "./".toList ++ name

/-- The words of a command, quoted one by one and joined. -/
def inner (words : List (List Char)) : List Char := Text.join ' ' (words.map shQuote)

/-- The command for the shell of the device. -/
def remoteOf (r : Request) (name : List Char) : List Char :=
  let run := inner (executable name :: r.args)
  if r.root then "cd ".toList ++ shQuote r.resolvedDir ++ " && su -c ".toList ++ shQuote run
  else "cd ".toList ++ shQuote r.resolvedDir ++ " && ".toList ++ run

/-- `hostedBinaryLaunch`. -/
def hostedBinaryLaunch (adbPath serial : Option (List Char)) (r : Request) :
    Except Block (Launch × List Char) :=
  match deviceShellLaunch adbPath serial with
  | .error b => .error b
  | .ok base =>
      let name := Text.jsTrim r.name
      if namePattern name then
        .ok (⟨base.program, base.args ++ [remoteOf r name]⟩, remoteOf r name)
      else .error .badName

/-! ### What the shell reads -/

/-- The values after the first, as they are joined. -/
theorem inner_cons (value : List Char) (values : List (List Char)) :
    inner (value :: values) = shQuote value ++ values.flatMap fun a => ' ' :: shQuote a := by
  induction values generalizing value with
  | nil => simp [inner, Text.join, List.intercalate]
  | cons a values ih =>
      have hrest : Text.join ' ' (shQuote a :: values.map shQuote) = _ := ih a
      rw [inner, List.map_cons, List.map_cons, Text.join_cons_cons, hrest, List.flatMap_cons]
      rfl

/-- The quoted values of a command line, after what stands before the first. -/
def valuesScript (first : Segment) (value : List Char) (values : List (List Char)) :
    AdbShell.Script where
  first := (first, value)
  rest := values.map fun a => (blank, a)
  cuts := by
    rw [List.forall_mem_map]
    exact fun _ _ => ⟨' ', [], rfl, rfl⟩
  ending := .none

/-- **Quoted words are one simple command**, whatever they hold. -/
theorem items_inner (value : List Char) (values : List (List Char)) :
    items (inner (value :: values)) = some [.command (value :: values) []] := by
  have hlex := lex_script (valuesScript ⟨[], [], rfl⟩ value values)
  have htext : (valuesScript ⟨[], [], rfl⟩ value values).text = inner (value :: values) := by
    rw [inner_cons]
    simp [valuesScript, AdbShell.Script.text, Segment.text, blank, Ending.none, List.flatMap_map]
  have htokens : (valuesScript ⟨[], [], rfl⟩ value values).tokens =
      ((value :: values).map argWord).map .word := by
    have hall : (values.map fun a => (blank, a)).flatMap Segment.all =
        values.map fun a => .word (argWord a) := by
      rw [List.flatMap_map, List.map_eq_flatMap]
      rfl
    rw [AdbShell.Script.tokens, valuesScript, hall, List.map_map, List.map_cons]
    exact congrArg (Token.word (argWord value) :: ·) (List.append_nil _)
  rw [htext, htokens] at hlex
  have hactive : ∀ w ∈ (value :: values).map argWord, w.active = false := by
    rw [List.forall_mem_map]
    exact fun _ _ => rfl
  have hkeyword : ∀ w ∈ ((value :: values).map argWord).head?, w.isKeyword = false := by
    rintro w ⟨⟩
    rfl
  rw [items_words hlex hactive hkeyword (List.cons_ne_nil _ _), List.map_map]
  exact congrArg (fun vs => some [Item.command vs []]) (List.map_id _)

/-- `cd`, up to its directory. -/
def cdSegment : Segment := ⟨"cd ".toList, [.word (bareWord "cd".toList)], by decide +kernel⟩

/-- `&&`, up to the program. -/
def andSegment : Segment := ⟨" && ".toList, [.op "&&".toList], by decide +kernel⟩

/-- `&&` and `su`, up to the text that it is given. -/
def suSegment : Segment :=
  ⟨" && su -c ".toList, [.op "&&".toList, .word (bareWord "su".toList), .word (bareWord "-c".toList)],
    by decide +kernel⟩

/-- `cd` to a directory, and on. -/
def cdChunk (dir : List Char) : Chunk :=
  ⟨[], [bareWord "cd".toList, argWord dir], [], some "&&".toList⟩

theorem cdChunk_proper (dir : List Char) : (cdChunk dir).isProper = true := by
  have hbare : (bareWord ['c', 'd']).active = false ∧ (bareWord ['c', 'd']).isKeyword = false := by
    decide +kernel
  have hop : ['&', '&'] ∉ redirections := by decide +kernel
  simp [Chunk.isProper, cdChunk, argWord, hbare, hop]

/-- **A command behind `cd`.** -/
theorem items_behind_cd {s dir : List Char} {ws : List Word}
    (hlex : lex s = some ((cdChunk dir).tokens ++ ws.map .word))
    (hactive : ∀ w ∈ ws, w.active = false) (hkeyword : ∀ w ∈ ws.head?, w.isKeyword = false)
    (hne : ws ≠ []) : items s = some [.command ["cd".toList, dir] [], .control "&&".toList,
      .command (ws.map Word.text) []] := by
  have hlast : Chunk.isProper ⟨[], ws, [], none⟩ = true := by
    simpa [Chunk.isProper, Option.all_eq_true] using ⟨hactive, hkeyword⟩
  have htokens : lex s = some ([cdChunk dir].flatMap Chunk.tokens ++
      Chunk.tokens ⟨[], ws, [], none⟩) := by
    simpa [Chunk.tokens] using hlex
  have hproper : ∀ c ∈ [cdChunk dir], c.isProper = true ∧ c.op.isSome = true := by
    intro c hc
    rw [List.mem_singleton.mp hc]
    exact ⟨cdChunk_proper dir, rfl⟩
  rw [items_of_lex htokens hproper hlast rfl]
  simp [Chunk.items, cdChunk, hne, bareWord, argWord]

variable {r : Request} {name : List Char}

theorem andSegment_cuts : andSegment.Cuts := ⟨' ', "&& ".toList, by decide +kernel, rfl⟩

theorem suSegment_cuts : suSegment.Cuts := ⟨' ', "&& su -c ".toList, by decide +kernel, rfl⟩

/-- The command of a program that the shell itself runs. -/
def plainScript (dir exe : List Char) (args : List (List Char)) : AdbShell.Script where
  first := (cdSegment, dir)
  rest := (andSegment, exe) :: args.map fun a => (blank, a)
  cuts := by
    rw [List.forall_mem_cons, List.forall_mem_map]
    exact ⟨andSegment_cuts, fun _ _ => ⟨' ', [], rfl, rfl⟩⟩
  ending := .none

/-- The command of a program that `su` runs. -/
def suScript (dir run : List Char) : AdbShell.Script where
  first := (cdSegment, dir)
  rest := [(suSegment, run)]
  cuts := by
    rw [List.forall_mem_singleton]
    exact suSegment_cuts
  ending := .none

/-- **The command of a program that the shell itself runs.** -/
theorem items_remote (hroot : r.root = false) : items (remoteOf r name) =
    some [.command ["cd".toList, r.resolvedDir] [], .control "&&".toList,
      .command (executable name :: r.args) []] := by
  have hlex := lex_script (plainScript r.resolvedDir (executable name) r.args)
  have htext : (plainScript r.resolvedDir (executable name) r.args).text = remoteOf r name := by
    rw [remoteOf, hroot, if_neg Bool.false_ne_true, inner_cons]
    simp [plainScript, AdbShell.Script.text, Segment.text, cdSegment, andSegment, blank, Ending.none,
      List.flatMap_map]
  have htokens : (plainScript r.resolvedDir (executable name) r.args).tokens =
      (cdChunk r.resolvedDir).tokens ++ ((executable name :: r.args).map argWord).map .word := by
    have hall : (r.args.map fun a => (blank, a)).flatMap Segment.all =
        (r.args.map argWord).map .word := by
      rw [List.flatMap_map, List.map_map, List.map_eq_flatMap]
      rfl
    rw [AdbShell.Script.tokens, plainScript, List.flatMap_cons, hall]
    simp [Segment.all, cdSegment, andSegment, Ending.none, cdChunk, Chunk.tokens]
  rw [htext, htokens] at hlex
  rw [items_behind_cd hlex ?_ ?_ (List.cons_ne_nil _ _), List.map_map]
  · exact congrArg (fun vs => some [_, _, Item.command vs []]) (List.map_id _)
  · rw [List.forall_mem_map]
    exact fun _ _ => rfl
  · rintro w ⟨⟩
    rfl

/-- The words that a shell is given by way of `su`. -/
def suWords (run : List Char) : List Word :=
  [bareWord "su".toList, bareWord "-c".toList, argWord run]

/-- **The command of a program that `su` runs.** -/
theorem items_remote_root (hroot : r.root = true) : items (remoteOf r name) =
    some [.command ["cd".toList, r.resolvedDir] [], .control "&&".toList,
      .command ["su".toList, "-c".toList, inner (executable name :: r.args)] []] := by
  generalize hrun : inner (executable name :: r.args) = run
  have hlex := lex_script (suScript r.resolvedDir run)
  have htext : (suScript r.resolvedDir run).text = remoteOf r name := by
    have hremote : remoteOf r name =
        "cd ".toList ++ shQuote r.resolvedDir ++ (" && su -c ".toList ++ shQuote run) := by
      rw [remoteOf, hroot, if_pos rfl, hrun, List.append_assoc _ _ (shQuote run)]
    have hending : (suScript r.resolvedDir run).ending.lit = [] := rfl
    rw [hremote, AdbShell.Script.text, hending, List.append_nil, suScript, List.flatMap_singleton]
    rfl
  have htokens : (suScript r.resolvedDir run).tokens =
      (cdChunk r.resolvedDir).tokens ++ (suWords run).map .word := by
    rw [AdbShell.Script.tokens, suScript, List.flatMap_singleton]
    rfl
  rw [htext, htokens] at hlex
  have hactive : ∀ w ∈ suWords run, w.active = false := by
    intro w hw
    rcases List.mem_cons.mp hw with rfl | hw
    · rfl
    rcases List.mem_cons.mp hw with rfl | hw
    · rfl
    rw [List.mem_singleton.mp hw]
    rfl
  have hkeyword : ∀ w ∈ (suWords run).head?, w.isKeyword = false := by
    have hsu : (bareWord "su".toList).isKeyword = false := by decide +kernel
    rintro w ⟨⟩
    exact hsu
  exact items_behind_cd hlex hactive hkeyword (List.cons_ne_nil _ _)

/-- What a launch of the shell is made of. -/
theorem shell_launched {adbPath serial : Option (List Char)} {base : Launch}
    (h : deviceShellLaunch adbPath serial = .ok base) :
    ∃ path id, base = ⟨path, ["-s".toList, id, "shell".toList, "-tt".toList]⟩ ∧
      adbPath.map Text.jsTrim = some path ∧ path ≠ [] ∧ serial.map Text.jsTrim = some id ∧
      serialPattern id = true := by
  rw [deviceShellLaunch] at h
  cases hpath : (adbPath.map Text.jsTrim).filter (· ≠ []) with
  | none =>
      rw [hpath] at h
      cases h
  | some path =>
      rw [hpath] at h
      cases hid : (serial.map Text.jsTrim).filter (· ≠ []) with
      | none =>
          simp only [hid] at h
          cases h
      | some id =>
          simp only [hid] at h
          split_ifs at h with hserial
          rw [Option.filter_eq_some_iff] at hpath hid
          exact ⟨path, id, (Except.ok.inj h).symm, hpath.1, by simpa using hpath.2, hid.1, hserial⟩

/-- **What is launched.**  Where a launch is made of a request, `adb` is told the serial it was
given and to hold a terminal, and the shell of the device reads in its one text `cd` to the
directory and then the program of that name, by its path in the directory, with the arguments as
they are, whatever characters are in them; through `su` the shell that `su` starts reads just
that. -/
theorem launch_runs {adbPath serial : Option (List Char)} {launch : Launch} {remote : List Char}
    (h : hostedBinaryLaunch adbPath serial r = .ok (launch, remote)) :
    (∃ path id, launch = ⟨path, ["-s".toList, id, "shell".toList, "-tt".toList, remote]⟩ ∧
      adbPath.map Text.jsTrim = some path ∧ path ≠ [] ∧ serial.map Text.jsTrim = some id ∧
      serialPattern id = true) ∧
    ∃ name, name = Text.jsTrim r.name ∧ namePattern name = true ∧
      (r.root = false → items remote = some [.command ["cd".toList, r.resolvedDir] [],
        .control "&&".toList, .command (("./".toList ++ name) :: r.args) []]) ∧
      (r.root = true → ∃ run, items remote = some [.command ["cd".toList, r.resolvedDir] [],
          .control "&&".toList, .command ["su".toList, "-c".toList, run] []] ∧
        items run = some [.command (("./".toList ++ name) :: r.args) []]) := by
  rw [hostedBinaryLaunch] at h
  cases hbase : deviceShellLaunch adbPath serial with
  | error b => simp [hbase] at h
  | ok base =>
      simp only [hbase] at h
      split_ifs at h with hname
      obtain ⟨path, id, rfl, hpath, hne, hid, hserial⟩ := shell_launched hbase
      obtain ⟨rfl, rfl⟩ := Prod.mk.inj (Except.ok.inj h)
      have hslash : '/' ∉ Text.jsTrim r.name := by
        intro hmem
        simp only [namePattern, Bool.and_eq_true, List.all_eq_true] at hname
        simpa using hname.1.1 '/' hmem
      have hexe : executable (Text.jsTrim r.name) = "./".toList ++ Text.jsTrim r.name :=
        if_neg hslash
      refine ⟨⟨path, id, rfl, hpath, hne, hid, hserial⟩, _, rfl, hname, ?_, ?_⟩
      · rw [← hexe]
        exact items_remote
      · rw [← hexe]
        exact fun hroot => ⟨_, items_remote_root hroot, items_inner ..⟩

/-- A program with an argument that the shell would otherwise read. -/
theorem launch_runs_id :
    ∃ remote, items remote = some [.command ["cd".toList, "/data/local/tmp".toList] [],
      .control "&&".toList, .command ["./tool".toList, "$(id) 'x'".toList] []] := by
  have hlaunch : hostedBinaryLaunch (some "adb".toList) (some "emulator-5554".toList)
      ⟨[], "tool ".toList, ["$(id) 'x'".toList], false⟩ = .ok _ := rfl
  have h := launch_runs hlaunch
  obtain ⟨-, name, rfl, -, hplain, -⟩ := h
  exact ⟨_, hplain rfl⟩

/-! ### The line of arguments -/

/-- A line that ends outside quotes, and that a shell expands nothing of. -/
def isOrdinary : Option Char → List Char → Bool
  | none, [] => true
  | some _, [] => false
  | none, c :: s =>
      if c = '"' ∨ c = '\'' then isOrdinary (some c) s
      else (isBlank c || (isPlain c && !Text.isJsSpace c)) && isOrdinary none s
  | some q, c :: s =>
      if c = q then isOrdinary none s
      else (q = '\'' || !(c = '\\' || c = '$' || c.toNat = 0x60)) && isOrdinary (some q) s

/-- How the lexer of the shell stands where the loop does. -/
def modeOf : Option Char → Mode
  | none => .plain
  | some c => if c = '\'' then .single else .double

/-- **The loop and the lexer of the shell, at one place of the line.** -/
structure Same (before : List (List Char)) (t : Tokens) (l : Lexer) : Prop where
  mode : l.mode = modeOf t.quote
  word : l.word.map Word.text = if t.has ∨ t.current ≠ [] then some t.current else none
  calm : ∀ w ∈ l.word, w.active = false
  tokens : ∃ ws : List Word, l.tokens = ws.map .word ∧ (∀ w ∈ ws, w.active = false) ∧
    t.tokens = before ++ ws.map Word.text
  quoted : ∀ q ∈ t.quote, (q = '"' ∨ q = '\'') ∧ t.has = true

variable {before : List (List Char)} {t : Tokens} {l : Lexer}

theorem Same.begun (h : Same before t l) {w : Word} (hw : l.word = some w) :
    (t.has ∨ t.current ≠ []) ∧ w.text = t.current ∧ w.active = false := by
  have hword := h.word
  rw [hw, Option.map_some] at hword
  by_cases hhas : t.has ∨ t.current ≠ []
  · rw [if_pos hhas] at hword
    exact ⟨hhas, Option.some.inj hword, h.calm w hw⟩
  · rw [if_neg hhas] at hword
    cases hword

theorem Same.idle (h : Same before t l) (hw : l.word = none) : ¬(t.has ∨ t.current ≠ []) := by
  intro hhas
  have hword := h.word
  rw [hw, if_pos hhas] at hword
  cases hword

/-- The word begun is the one the loop has. -/
theorem Same.current (h : Same before t l) :
    l.current.text = t.current ∧ l.current.active = false := by
  rw [Lexer.current]
  cases hw : l.word with
  | some w => exact (h.begun hw).2
  | none =>
      have hidle := h.idle hw
      rw [not_or, not_not] at hidle
      exact ⟨hidle.2.symm, rfl⟩

/-- Both are given one more character of the word begun. -/
theorem Same.more (h : Same before t l) {w : Word} {s : List Char} (has : Bool)
    (hw : w.text = l.current.text ++ s) (hcalm : w.active = l.current.active)
    (hhas : has = true ∨ s ≠ []) {quote : Option Char}
    (hquote : ∀ q ∈ quote, (q = '"' ∨ q = '\'') ∧ has = true) :
    Same before { t with current := t.current ++ s, quote := quote, has := has }
      { l with mode := modeOf quote, word := some w } where
  mode := rfl
  word := by
    have hsome : has = true ∨ t.current ++ s ≠ [] :=
      hhas.imp id fun hs happend => hs (List.append_eq_nil_iff.mp happend).2
    rw [if_pos hsome, Option.map_some, hw, h.current.1]
  calm := by
    rintro v ⟨⟩
    rw [hcalm, h.current.2]
  tokens := h.tokens
  quoted := hquote

/-- Both end the word begun. -/
theorem Same.cut (h : Same before t l) (hplain : t.quote = none) :
    Same before (if t.has ∨ t.current ≠ [] then
      { t with tokens := t.tokens ++ [t.current], current := [], has := false } else t) l.cut := by
  cases hw : l.word with
  | none =>
      rw [if_neg (h.idle hw), Lexer.cut, hw]
      exact h
  | some w =>
      obtain ⟨hhas, htext, hcalm⟩ := h.begun hw
      obtain ⟨ws, hl, hws, ht⟩ := h.tokens
      rw [if_pos hhas, Lexer.cut, hw]
      refine ⟨h.mode, by simp, by simp, ⟨ws ++ [w], ?_, ?_, ?_⟩, ?_⟩
      · rw [hl, List.map_append]
        rfl
      · rw [List.forall_mem_append, List.forall_mem_singleton]
        exact ⟨hws, hcalm⟩
      · rw [ht, List.map_append, List.append_assoc, ← htext]
        rfl
      · simp [hplain]

theorem quote_of_isBlank {c : Char} (hc : isBlank c = true) :
    ¬(c = '"' ∨ c = '\'') ∧ Text.isJsSpace c = true := by
  simp only [isBlank, Bool.or_eq_true, decide_eq_true_eq] at hc
  rcases hc with rfl | rfl
  · decide
  · decide

theorem quote_of_isPlain {c : Char} (hc : isPlain c = true) : ¬(c = '"' ∨ c = '\'') := by
  rintro (rfl | rfl)
  · cases hc
  · cases hc

/-- A quote opens. -/
theorem Same.opened (h : Same before t l) (ht : t.quote = none) {c : Char}
    (hc : c = '"' ∨ c = '\'') : ∃ l', l.step c = some l' ∧ Same before (t.step c) l' := by
  have hquote : ∀ q ∈ some c, (q = '"' ∨ q = '\'') ∧ true = true := by
    rintro q ⟨⟩
    exact ⟨hc, rfl⟩
  have hmore := h.more (w := l.current.quote []) true rfl rfl (.inl rfl) hquote
  rw [List.append_nil] at hmore
  refine ⟨_, ?_, (step_opens ht hc).symm ▸ hmore⟩
  rw [Lexer.step, h.mode, ht]
  rcases hc with rfl | rfl
  · rfl
  · rfl

/-- A blank ends a word. -/
theorem Same.blank (h : Same before t l) (ht : t.quote = none) {c : Char}
    (hc : isBlank c = true) : ∃ l', l.step c = some l' ∧ Same before (t.step c) l' := by
  obtain ⟨hquotes, hspace⟩ := quote_of_isBlank hc
  refine ⟨l.cut, ?_, (step_space ht hquotes hspace).symm ▸ h.cut ht⟩
  rw [Lexer.step, h.mode, ht]
  simp only [isBlank, Bool.or_eq_true, decide_eq_true_eq] at hc
  rcases hc with rfl | rfl
  · rfl
  · rfl

/-- A character without a meaning of its own joins a word. -/
theorem Same.joined (h : Same before t l) (ht : t.quote = none) {c : Char}
    (hc : isPlain c = true) (hspace : Text.isJsSpace c = false) :
    ∃ l', l.step c = some l' ∧ Same before (t.step c) l' := by
  have hmore := h.more (w := ⟨l.current.text ++ [c], l.current.bare, l.current.active⟩) t.has rfl
    rfl (.inr (List.cons_ne_nil c [])) h.quoted
  refine ⟨_, ?_, (step_joins ht (quote_of_isPlain hc) hspace).symm ▸ hmore⟩
  have hmode : l.mode = .plain := by
    rw [h.mode, ht]
    rfl
  have hplain : l.step c = l.plainStep c := by rw [Lexer.step, hmode]
  rw [hplain, ← h.mode]
  exact plainStep_of_isPlain hc l

/-- A quote closes. -/
theorem Same.closed (h : Same before t l) {q : Char} (ht : t.quote = some q) :
    ∃ l', l.step q = some l' ∧ Same before (t.step q) l' := by
  have hnone : ∀ q' ∈ (none : Option Char), (q' = '"' ∨ q' = '\'') ∧ t.has = true :=
    fun _ hq' => absurd hq'.symm (Option.some_ne_none _)
  refine ⟨{ l with mode := .plain }, ?_, (step_closes ht).symm ▸ ?_⟩
  · rw [Lexer.step, h.mode, ht]
    rcases (h.quoted q ht).1 with rfl | rfl
    · rfl
    · rfl
  · exact ⟨rfl, h.word, h.calm, h.tokens, hnone⟩

/-- A character between quotes. -/
theorem Same.inside (h : Same before t l) {q c : Char} (ht : t.quote = some q) (hc : c ≠ q)
    (hplain : q = '\'' ∨ ¬((c = '\\' ∨ c = '$') ∨ c.toNat = 0x60)) :
    ∃ l', l.step c = some l' ∧ Same before (t.step c) l' := by
  have hmore := h.more (w := l.current.quote [c]) t.has rfl rfl (.inr (List.cons_ne_nil c []))
    h.quoted
  refine ⟨_, ?_, (step_inside ht hc).symm ▸ hmore⟩
  rw [Lexer.step, ← h.mode, h.mode, ht]
  rcases (h.quoted q ht).1 with rfl | rfl
  · rw [not_or, not_or] at hplain
    obtain ⟨⟨hback, hdollar⟩, hgrave⟩ := hplain.resolve_left (by decide)
    exact (if_neg hc).trans ((if_neg hback).trans (if_neg (not_or.mpr ⟨hdollar, hgrave⟩)))
  · exact if_neg hc

/-- **One character of an ordinary line.** -/
theorem Same.step (h : Same before t l) {c : Char} {s : List Char}
    (hline : isOrdinary t.quote (c :: s) = true) :
    ∃ l', l.step c = some l' ∧ Same before (t.step c) l' ∧
      isOrdinary (t.step c).quote s = true := by
  have hand {P : Prop} {m : Tokens} (hstep : ∃ l', l.step c = some l' ∧ Same before m l')
      (hrest : P) : ∃ l', l.step c = some l' ∧ Same before m l' ∧ P := by
    obtain ⟨l', hone, hsame⟩ := hstep
    exact ⟨l', hone, hsame, hrest⟩
  cases ht : t.quote with
  | none =>
      rw [ht, isOrdinary] at hline
      by_cases hquotes : c = '"' ∨ c = '\''
      · rw [if_pos hquotes] at hline
        exact hand (h.opened ht hquotes) (by rwa [step_opens ht hquotes])
      · rw [if_neg hquotes, Bool.and_eq_true, Bool.or_eq_true, Bool.and_eq_true,
          Bool.not_eq_true'] at hline
        obtain ⟨hc | ⟨hc, hspace⟩, hrest⟩ := hline
        · refine hand (h.blank ht hc) ?_
          rw [step_space ht hquotes (quote_of_isBlank hc).2]
          split_ifs
          · rwa [ht]
          · rwa [ht]
        · refine hand (h.joined ht hc hspace) ?_
          rwa [step_joins ht hquotes hspace, ht]
  | some q =>
      rw [ht, isOrdinary] at hline
      by_cases hc : c = q
      · subst hc
        rw [if_pos rfl] at hline
        exact hand (h.closed ht) (by rwa [step_closes ht])
      · rw [if_neg hc, Bool.and_eq_true] at hline
        refine hand (h.inside ht hc (by simpa using hline.1)) ?_
        rw [step_inside ht hc, ht]
        exact hline.2

/-- **A whole ordinary line.** -/
theorem Same.run {s : List Char} (h : Same before t l) (hline : isOrdinary t.quote s = true) :
    ∃ l', l.run s = some l' ∧ Same before (s.foldl Tokens.step t) l' ∧
      (s.foldl Tokens.step t).quote = none := by
  induction s generalizing t l with
  | nil =>
      refine ⟨l, rfl, h, ?_⟩
      cases hq : t.quote with
      | none => exact hq
      | some q => simp [hq, isOrdinary] at hline
  | cons c s ih =>
      obtain ⟨l', hstep, hsame, hrest⟩ := h.step hline
      obtain ⟨l'', hrun, hend⟩ := ih hsame hrest
      exact ⟨l'', (run_cons hstep s).trans hrun, hend⟩

/-! ### What the trimming leaves -/

/-- Quotes are the only quotes. -/
def Tokens.Quotes (t : Tokens) : Prop := ∀ q ∈ t.quote, q = '"' ∨ q = '\''

theorem quotes_step (h : t.Quotes) (c : Char) : (t.step c).Quotes := by
  have hnone {m : Tokens} (hm : m.quote = none) : m.Quotes := by
    intro q hq
    rw [hm] at hq
    cases hq
  cases ht : t.quote with
  | none =>
      by_cases hc : c = '"' ∨ c = '\''
      · rw [step_opens ht hc]
        rintro q ⟨⟩
        exact hc
      · cases hspace : Text.isJsSpace c with
        | false =>
            rw [step_joins ht hc hspace]
            exact hnone ht
        | true =>
            rw [step_space ht hc hspace]
            split_ifs
            · exact hnone ht
            · exact h
  | some q =>
      by_cases hc : c = q
      · subst hc
        rw [step_closes ht]
        exact hnone rfl
      · rw [step_inside ht hc]
        exact h

theorem quotes_foldl (h : t.Quotes) (s : List Char) : (s.foldl Tokens.step t).Quotes := by
  induction s generalizing t with
  | nil => exact h
  | cons c s ih => exact ih (quotes_step h c)

/-- White space outside quotes is nothing at the end of a line. -/
theorem finish_space (h : t.Quotes) {c : Char} (hc : Text.isJsSpace c = true)
    (hquote : (t.step c).quote = none) : t.quote = none ∧ (t.step c).finish = t.finish := by
  have hplain : ¬(c = '"' ∨ c = '\'') := by
    rintro (rfl | rfl)
    · cases hc
    · cases hc
  cases ht : t.quote with
  | none =>
      refine ⟨rfl, ?_⟩
      rw [step_space ht hplain hc]
      split_ifs with hhas
      · simp [Tokens.finish, hhas]
      · rfl
  | some q =>
      have hne : c ≠ q := fun hcq => hplain (hcq ▸ h q ht)
      rw [step_inside ht hne, ht] at hquote
      cases hquote

/-- **White space after a line of the loop is nothing.** -/
theorem finish_trimmed (h : t.Quotes) {s : List Char}
    (hquote : (s.foldl Tokens.step t).quote = none) :
    ((Text.jsTrimEnd s).foldl Tokens.step t).finish = (s.foldl Tokens.step t).finish := by
  induction s using List.reverseRecOn with
  | nil => rfl
  | append_singleton s c ih =>
      by_cases hc : Text.isJsSpace c = true
      · have htrim : Text.jsTrimEnd (s ++ [c]) = Text.jsTrimEnd s :=
          List.rdropWhile_concat_pos _ _ _ hc
        rw [htrim]
        rw [List.foldl_append, List.foldl_cons, List.foldl_nil] at hquote ⊢
        obtain ⟨hbefore, hfinish⟩ := finish_space (quotes_foldl h s) hc hquote
        rw [ih hbefore, hfinish]
      · have htrim : Text.jsTrimEnd (s ++ [c]) = s ++ [c] := List.rdropWhile_concat_neg _ _ _ hc
        rw [htrim]

/-- The loop behind the word that `splitArgs` puts before a line. -/
def Tokens.placed : Tokens := ⟨["__placeholder__".toList], [], none, false⟩

/-- A line of white space. -/
theorem foldl_blank {line : List Char} (hblank : Text.jsTrim line = []) :
    line.foldl Tokens.step .placed = .placed := by
  have hspace : ∀ c ∈ line, Text.isJsSpace c = true := by
    have hdrop : line.dropWhile Text.isJsSpace = [] := by
      cases hd : line.dropWhile Text.isJsSpace with
      | nil => rfl
      | cons c s =>
          have hne : line.dropWhile Text.isJsSpace ≠ [] := by simp [hd]
          have hhead := List.head_dropWhile_not Text.isJsSpace hne
          have hall : ∀ c ∈ line.dropWhile Text.isJsSpace, Text.isJsSpace c = true :=
            List.rdropWhile_eq_nil_iff.mp hblank
          rw [hall _ (List.head_mem hne)] at hhead
          cases hhead
    exact List.dropWhile_eq_nil_iff.mp hdrop
  clear hblank
  induction line with
  | nil => rfl
  | cons c s ih =>
      rw [List.forall_mem_cons] at hspace
      have hplain : ¬(c = '"' ∨ c = '\'') := by
        rintro (rfl | rfl)
        · cases hspace.1
        · cases hspace.1
      rw [List.foldl_cons, step_space rfl hplain hspace.1]
      exact ih hspace.2

theorem foldl_placeholder (line : List Char) :
    ("__placeholder__ ".toList ++ line).foldl Tokens.step .start =
      line.foldl Tokens.step .placed := by
  have hplaced : "__placeholder__ ".toList.foldl Tokens.step .start = .placed := by decide +kernel
  rw [List.foldl_append, hplaced]

/-- What `splitArgs` makes of a line that ends outside quotes. -/
theorem splitArgs_eq {line : List Char} {args : List (List Char)}
    (hquote : (line.foldl Tokens.step .placed).quote = none)
    (hfinish : (line.foldl Tokens.step .placed).finish = "__placeholder__".toList :: args) :
    splitArgs line = args := by
  rw [splitArgs]
  by_cases hblank : Text.jsTrim line = []
  · rw [if_pos hblank]
    rw [foldl_blank hblank] at hfinish
    exact (List.cons.inj hfinish).2
  · rw [if_neg hblank]
    have htrim : Text.jsTrim ("__placeholder__ ".toList ++ line) =
        Text.jsTrimEnd ("__placeholder__ ".toList ++ line) := rfl
    have hne : Text.jsTrim ("__placeholder__ ".toList ++ line) ≠ [] := by
      have hcons := Text.jsTrim_cons (a := '_') rfl ("_placeholder__ ".toList ++ line)
      exact fun hnil => List.cons_ne_nil _ _ (hcons.symm.trans hnil)
    have hstart : Tokens.start.Quotes := fun _ hq => absurd hq.symm (Option.some_ne_none _)
    have hline : (("__placeholder__ ".toList ++ line).foldl Tokens.step .start).quote = none := by
      rw [foldl_placeholder]
      exact hquote
    have htokens := finish_trimmed hstart hline
    rw [foldl_placeholder, hfinish, ← htrim] at htokens
    simp only [tokenizeCommand, if_neg hne, htokens]

/-- **The arguments of an ordinary line are the words that a shell reads in it.** -/
theorem lex_ordinary {line : List Char} (hline : isOrdinary none line = true) :
    ∃ ws : List Word, lex line = some (ws.map .word) ∧ (∀ w ∈ ws, w.active = false) ∧
      ws.map Word.text = splitArgs line := by
  have hstart : Same ["__placeholder__".toList] .placed Lexer.start :=
    ⟨rfl, rfl, fun _ hw => absurd hw.symm (Option.some_ne_none _), ⟨[], rfl, List.forall_mem_nil _, rfl⟩,
      fun _ hq => absurd hq.symm (Option.some_ne_none _)⟩
  obtain ⟨l, hrun, hsame, hquote⟩ := hstart.run hline
  obtain ⟨ws, hl, hws, ht⟩ := (hsame.cut hquote).tokens
  have hfinish : (line.foldl Tokens.step .placed).finish =
      ["__placeholder__".toList] ++ ws.map Word.text := by
    rw [← ht, Tokens.finish]
    split_ifs
    · rfl
    · rfl
  have hmode : l.mode = .plain := by
    rw [hsame.mode, hquote]
    rfl
  refine ⟨ws, ?_, hws, ?_⟩
  · rw [lex, hrun, Option.bind_some, Lexer.finish, hmode]
    exact congrArg some hl
  · exact (splitArgs_eq hquote hfinish).symm

/-- **Behind a quoted word.** -/
theorem items_ordinary {line : List Char} (hline : isOrdinary none line = true) (exe : List Char) :
    items (shQuote exe ++ ' ' :: line) = some [.command (exe :: splitArgs line) []] := by
  obtain ⟨ws, hlex, hws, htext⟩ := lex_ordinary hline
  obtain ⟨m, hrun, hfinish⟩ := Option.bind_eq_some_iff.mp hlex
  have hexe : Lexer.start.run (shQuote exe) = some ⟨.plain, some (argWord exe), []⟩ :=
    run_shQuote none exe
  have hreads : Lexer.Reads ⟨.plain, some (argWord exe), []⟩ [.word (argWord exe)] := ⟨rfl, rfl⟩
  have hblank : Lexer.start.run (' ' :: line) = some m := hrun
  have hall : lex (shQuote exe ++ ' ' :: line) = some ((argWord exe :: ws).map .word) := by
    rw [lex, run_append_of hexe, hreads.run_cut rfl hblank, Option.bind_some, finish_after, hfinish]
    rfl
  have hactive : ∀ w ∈ argWord exe :: ws, w.active = false := by
    rw [List.forall_mem_cons]
    exact ⟨rfl, hws⟩
  have hkeyword : ∀ w ∈ (argWord exe :: ws).head?, w.isKeyword = false := by
    rintro w ⟨⟩
    rfl
  rw [items_words hall hactive hkeyword (List.cons_ne_nil _ _), List.map_cons, htext]
  rfl

/-! ### Typing arguments -/

/-- A character between the quotes that it is not. -/
def typedChar (c : Char) : List Char := if c = '\'' then ['"', '\'', '"'] else ['\'', c, '\'']

/-- An argument, typed. -/
def typed (arg : List Char) : List Char :=
  if arg = [] then ['\'', '\''] else arg.flatMap typedChar

/-- Arguments, typed. -/
def typedLine (args : List (List Char)) : List Char := Text.join ' ' (args.map typed)

theorem foldl_typedChar (ht : t.quote = none) (c : Char) :
    (typedChar c).foldl Tokens.step t = { t with current := t.current ++ [c], has := true } := by
  rw [typedChar]
  split_ifs with hc
  · subst hc
    rw [List.foldl_cons, step_opens ht (.inl rfl), List.foldl_cons, step_inside rfl (by decide),
      List.foldl_cons, step_closes rfl, List.foldl_nil, ← ht]
  · rw [List.foldl_cons, step_opens ht (.inr rfl), List.foldl_cons, step_inside rfl hc,
      List.foldl_cons, step_closes rfl, List.foldl_nil, ← ht]

theorem foldl_typed (ht : t.quote = none) (arg : List Char) :
    (typed arg).foldl Tokens.step t = { t with current := t.current ++ arg, has := true } := by
  have hchars (arg : List Char) : ∀ {t : Tokens}, t.quote = none → t.has = true →
      (arg.flatMap typedChar).foldl Tokens.step t = { t with current := t.current ++ arg } := by
    induction arg with
    | nil => simp
    | cons c arg ih =>
        intro t ht hhas
        rw [List.flatMap_cons, List.foldl_append, foldl_typedChar ht,
          ih (t := ⟨t.tokens, t.current ++ [c], t.quote, true⟩) ht rfl]
        simp [hhas]
  cases arg with
  | nil =>
      have htyped : typed [] = ['\'', '\''] := rfl
      rw [htyped, List.foldl_cons, step_opens ht (.inr rfl), List.foldl_cons, step_closes rfl,
        List.foldl_nil, List.append_nil, ← ht]
  | cons c arg =>
      have htyped : typed (c :: arg) = typedChar c ++ arg.flatMap typedChar := by
        rw [typed, if_neg (List.cons_ne_nil c arg), List.flatMap_cons]
      rw [htyped, List.foldl_append, foldl_typedChar ht,
        hchars arg (t := ⟨t.tokens, t.current ++ [c], t.quote, true⟩) ht rfl]
      simp

theorem isOrdinary_typed (arg rest : List Char) :
    isOrdinary none (typed arg ++ rest) = isOrdinary none rest := by
  have hchar (c : Char) (rest : List Char) :
      isOrdinary none (typedChar c ++ rest) = isOrdinary none rest := by
    rw [typedChar]
    split_ifs with hc
    · subst hc
      rfl
    · simp [isOrdinary, hc]
  have hchars (arg : List Char) :
      isOrdinary none (arg.flatMap typedChar ++ rest) = isOrdinary none rest := by
    induction arg with
    | nil => rfl
    | cons c arg ih => rw [List.flatMap_cons, List.append_assoc, hchar, ih]
  rw [typed]
  split_ifs with hnil
  · rfl
  · exact hchars arg

/-- The arguments after the first, typed. -/
theorem typedLine_cons (arg : List Char) (args : List (List Char)) :
    typedLine (arg :: args) = typed arg ++ args.flatMap fun a => ' ' :: typed a := by
  induction args generalizing arg with
  | nil => simp [typedLine, Text.join, List.intercalate]
  | cons a args ih =>
      have hrest : Text.join ' ' (typed a :: args.map typed) = _ := ih a
      rw [typedLine, List.map_cons, List.map_cons, Text.join_cons_cons, hrest, List.flatMap_cons]
      rfl

/-- The loop over the arguments after the first. -/
theorem foldl_typedLine (args : List (List Char)) : ∀ {t : Tokens}, t.quote = none →
    t.has = true → ((args.flatMap fun a => ' ' :: typed a).foldl Tokens.step t).quote = none ∧
      ((args.flatMap fun a => ' ' :: typed a).foldl Tokens.step t).finish =
        t.tokens ++ t.current :: args := by
  induction args with
  | nil =>
      intro t ht hhas
      exact ⟨ht, if_pos (.inl hhas)⟩
  | cons a args ih =>
      intro t ht hhas
      have hspace : t.step ' ' =
          { t with tokens := t.tokens ++ [t.current], current := [], has := false } :=
        (step_space ht (by decide) rfl).trans (if_pos (.inl hhas))
      rw [List.flatMap_cons, List.foldl_append, List.foldl_cons, hspace,
        foldl_typed (t := ⟨t.tokens ++ [t.current], [], t.quote, false⟩) ht]
      obtain ⟨hquote, hfinish⟩ := ih (t := ⟨t.tokens ++ [t.current], [] ++ a, t.quote, true⟩) ht rfl
      refine ⟨hquote, hfinish.trans ?_⟩
      simp

end RevBox.DeviceShell
