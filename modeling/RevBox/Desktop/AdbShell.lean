import RevBox.Device.Disk
import RevBox.Support.Shell

/-!
# Desktop — AdbShell

The command texts of the root leg: `sh_quote` and `su_c` of `adapters/adb.rs`, and the texts that
`services/device_service.rs` builds with them from paths.  A text goes through two shells: the one
that `adb shell` starts reads `su -c …`, and the one that `su` starts reads the rest.
-/

namespace RevBox.AdbShell

open Shell

/-- `sh_quote`. -/
def shQuote (value : List Char) : List Char :=
  '\'' :: (value.flatMap fun c => if c = '\'' then "'\\''".toList else [c]) ++ ['\'']

/-- `su_c`. -/
def suC (inner : List Char) : List Char := "su -c ".toList ++ shQuote inner

/-- A part of a command text: as it stands, or quoted. -/
inductive Piece where
  | lit (text : List Char)
  | arg (value : List Char)

/-- The text of a part. -/
def Piece.render : Piece → List Char
  | .lit text => text
  | .arg value => shQuote value

/-- The text of a command. -/
def render (pieces : List Piece) : List Char := pieces.flatMap Piece.render

/-- The text of a command that writes, or of `ls`. -/
def commandText : RootShell.Command → List Char
  | .mkdir path => render [.lit "mkdir -- ".toList, .arg path]
  | .mv source target => render [.lit "mv -- ".toList, .arg source, .lit " ".toList, .arg target]
  | .rmRf path => render [.lit "rm -rf -- ".toList, .arg path]
  | .chmod mode path =>
      render [.lit "chmod ".toList, .lit (Nat.toDigits 8 mode), .lit " -- ".toList, .arg path]
  | .lsA path => render [.lit "ls -A -- ".toList, .arg path]

/-- What that command is. -/
def commandArgs : RootShell.Command → List (List Char)
  | .mkdir path => ["mkdir".toList, "--".toList, path]
  | .mv source target => ["mv".toList, "--".toList, source, target]
  | .rmRf path => ["rm".toList, "-rf".toList, "--".toList, path]
  | .chmod mode path => ["chmod".toList, Nat.toDigits 8 mode, "--".toList, path]
  | .lsA path => ["ls".toList, "-A".toList, "--".toList, path]

/-- `STAT_ROOT_FORMAT`. -/
def statRootFormat : List Char := "%a|%s|%u|%g|%Y|%F".toList

/-- The text of `stat_rooted`. -/
def statText (path : List Char) (followSymlink : Bool) : List Char :=
  render [.lit "stat ".toList, .lit (if followSymlink then "-L ".toList else []), .lit "-c '".toList,
    .lit statRootFormat, .lit "' ".toList, .arg path, .lit "; if test -r ".toList, .arg path,
    .lit "; then echo @R; else echo @N; fi; if test -L ".toList, .arg path,
    .lit "; then echo @L; readlink ".toList, .arg path,
    .lit "; fi; echo @P; readlink -f ".toList, .arg path, .lit " 2>/dev/null || echo ".toList,
    .arg path]

/-- How that of `list_files_rooted` ends. -/
def listTail : List Char := "; then echo @NOTDIR; else echo @NOENT; fi".toList

/-- The text of `list_files_rooted`. -/
def listText (path : List Char) : List Char :=
  render [.lit "if test -d ".toList, .arg path, .lit "; then cd -- ".toList, .arg path,
    .lit " && ls -lA -- .; elif test -e ".toList, .arg path, .lit listTail]

/-- What `stat_rooted` runs. -/
def statItems (path : List Char) (followSymlink : Bool) : List Item :=
  [.command (["stat".toList] ++ (if followSymlink then ["-L".toList] else []) ++
      ["-c".toList, statRootFormat, path]) [],
    .control [';'], .reserved "if".toList, .command ["test".toList, "-r".toList, path] [],
    .control [';'], .reserved "then".toList, .command ["echo".toList, "@R".toList] [],
    .control [';'], .reserved "else".toList, .command ["echo".toList, "@N".toList] [],
    .control [';'], .reserved "fi".toList, .control [';'], .reserved "if".toList,
    .command ["test".toList, "-L".toList, path] [], .control [';'], .reserved "then".toList,
    .command ["echo".toList, "@L".toList] [], .control [';'],
    .command ["readlink".toList, path] [], .control [';'], .reserved "fi".toList, .control [';'],
    .command ["echo".toList, "@P".toList] [], .control [';'],
    .command ["readlink".toList, "-f".toList, path] [⟨some ['2'], ['>'], "/dev/null".toList⟩],
    .control "||".toList, .command ["echo".toList, path] []]

/-- What `list_files_rooted` runs. -/
def listItems (path : List Char) : List Item :=
  [.reserved "if".toList, .command ["test".toList, "-d".toList, path] [], .control [';'],
    .reserved "then".toList, .command ["cd".toList, "--".toList, path] [], .control "&&".toList,
    .command ["ls".toList, "-lA".toList, "--".toList, ".".toList] [], .control [';'],
    .reserved "elif".toList, .command ["test".toList, "-e".toList, path] [], .control [';'],
    .reserved "then".toList, .command ["echo".toList, "@NOTDIR".toList] [], .control [';'],
    .reserved "else".toList, .command ["echo".toList, "@NOENT".toList] [], .control [';'],
    .reserved "fi".toList]

/-- What the shell that `su` starts runs of a text given to the first shell. -/
def innerItems (text : List Char) : Option (List Item) :=
  match words text with
  | some [su, flag, inner] => if su = "su".toList ∧ flag = "-c".toList then items inner else none
  | _ => none

/-! ### Quoting -/

section Quoting

variable {tokens : List Token}

/-- The inside of the quotes. -/
def escaped (value : List Char) : List Char :=
  value.flatMap fun c => if c = '\'' then "'\\''".toList else [c]

/-- **The quoted text gives back the value, with the quotes that the value holds.** -/
theorem run_escaped (tokens : List Token) : ∀ (value text : List Char) (active : Bool),
    Lexer.run ⟨.single, some ⟨text, false, active⟩, tokens⟩ (escaped value) =
      some ⟨.single, some ⟨text ++ value, false, active⟩, tokens⟩
  | [], text, active => by rw [List.append_nil]; rfl
  | c :: value, text, active => by
      have hone : Lexer.run ⟨.single, some ⟨text, false, active⟩, tokens⟩
          (if c = '\'' then "'\\''".toList else [c]) =
          some ⟨.single, some ⟨text ++ [c], false, active⟩, tokens⟩ := by
        by_cases hc : c = '\''
        · -- out of the quotes, an escaped quote, and back in
          subst hc
          show some (Lexer.mk .single (some ⟨text ++ ['\''] ++ [], false, active⟩) tokens) = _
          rw [List.append_nil]
        · rw [if_neg hc]
          exact run_single (by simpa using Ne.symm hc)
      rw [escaped, List.flatMap_cons, run_append_of hone, ← escaped, run_escaped tokens value,
        List.append_assoc, List.singleton_append]

/-- **A quoted value joins the word begun, whatever it holds.** -/
theorem run_shQuote (word : Option Word) (value : List Char) :
    Lexer.run ⟨.plain, word, tokens⟩ (shQuote value) =
      some ⟨.plain, some ((word.getD .empty).quote value), tokens⟩ := by
  have hopen : Lexer.step ⟨.plain, word, tokens⟩ '\'' =
      some ⟨.single, some ((word.getD .empty).quote []), tokens⟩ := rfl
  have hinside := run_escaped tokens value ((word.getD .empty).quote []).text
    (word.getD .empty).active
  rw [shQuote, List.cons_append, run_cons hopen]
  refine (run_append_of hinside _).trans ?_
  rw [Word.quote, Word.quote, List.append_nil]
  rfl

end Quoting

/-! ### Texts with quoted values between their parts -/

/-- A part of a text, as it stands up to a quoted value, with its tokens. -/
structure Segment where
  lit : List Char
  tokens : List Token
  reads : Lexer.start.run lit = some ⟨.plain, none, tokens⟩

/-- A segment and the value quoted after it. -/
def Segment.text (s : Segment × List Char) : List Char := s.1.lit ++ shQuote s.2

/-- Their tokens. -/
def Segment.all (s : Segment × List Char) : List Token := s.1.tokens ++ [.word (argWord s.2)]

/-- The segment ends a word before it. -/
def Segment.Cuts (s : Segment) : Prop := ∃ c rest, s.lit = c :: rest ∧ cuts c = true

theorem run_segment {l : Lexer} {ts : List Token} (s : Segment) (value : List Char)
    (hl : l.run s.lit = some ⟨.plain, none, ts⟩) :
    ∃ l', l.run (Segment.text (s, value)) = some l' ∧ l'.Reads (ts ++ [.word (argWord value)]) := by
  refine ⟨⟨.plain, some (argWord value), ts⟩, ?_, rfl, rfl⟩
  exact (run_append_of hl _).trans (run_shQuote none value)

/-- **Every quoted value is one word.** -/
theorem run_segments : ∀ {l : Lexer} {ts : List Token} {ss : List (Segment × List Char)},
    l.Reads ts → (∀ s ∈ ss, s.1.Cuts) →
    ∃ l', l.run (ss.flatMap Segment.text) = some l' ∧ l'.Reads (ts ++ ss.flatMap Segment.all)
  | l, ts, [], hl, _ => ⟨l, rfl, by rwa [List.flatMap_nil, List.append_nil]⟩
  | l, ts, (s, value) :: ss, hl, hcuts => by
      rw [List.forall_mem_cons] at hcuts
      obtain ⟨c, rest, hlit, hc⟩ := hcuts.1
      have hs := s.reads
      rw [hlit] at hs
      have hrun := hl.run_cut hc hs
      rw [← hlit] at hrun
      obtain ⟨m, hone, hm⟩ := run_segment s value hrun
      obtain ⟨l', hrest, hl'⟩ := run_segments hm hcuts.2
      refine ⟨l', ?_, ?_⟩
      · rw [List.flatMap_cons, run_append_of hone, hrest]
      · rw [List.flatMap_cons, Segment.all, ← List.append_assoc, ← List.append_assoc]
        exact hl'

/-- The end of a text, after its last quoted value. -/
structure Ending where
  lit : List Char
  tokens : List Token
  reads : lex lit = some tokens
  cuts : ∀ c ∈ lit.head?, cuts c = true

/-- No more text. -/
def Ending.none : Ending := ⟨[], [], rfl, nofun⟩

theorem finish_ending {l : Lexer} {ts : List Token} (hl : l.Reads ts) (e : Ending) :
    (l.run e.lit).bind Lexer.finish = some (ts ++ e.tokens) := by
  obtain ⟨_ | ⟨c, rest⟩, tokens, hreads, hcuts⟩ := e
  · obtain rfl : [] = tokens := Option.some.inj hreads
    rw [List.append_nil]
    exact hl.finish
  · obtain ⟨m, hm, hfinish⟩ := Option.bind_eq_some_iff.mp hreads
    rw [hl.run_cut (hcuts c rfl) hm, Option.bind_some, finish_after, hfinish, Option.map_some]

/-- A text with quoted values. -/
structure Script where
  first : Segment × List Char
  rest : List (Segment × List Char)
  cuts : ∀ s ∈ rest, s.1.Cuts
  ending : Ending

def Script.text (s : Script) : List Char :=
  Segment.text s.first ++ (s.rest.flatMap Segment.text ++ s.ending.lit)

def Script.tokens (s : Script) : List Token :=
  Segment.all s.first ++ (s.rest.flatMap Segment.all ++ s.ending.tokens)

/-- **A text has the tokens of its parts, and of each quoted value one word.** -/
theorem lex_script (s : Script) : lex s.text = some s.tokens := by
  obtain ⟨⟨first, value⟩, rest, hcuts, ending⟩ := s
  obtain ⟨l, hfirst, hl⟩ := run_segment first value first.reads
  obtain ⟨m, hrest, hm⟩ := run_segments hl hcuts
  rw [lex, Script.text, run_append_of hfirst, run_append_of hrest, finish_ending hm, Script.tokens,
    List.append_assoc]
  rfl

/-! ### The words of a command, and of `su` -/

/-- A word that needs no quotes, and does not begin a compound command. -/
structure PlainWord where
  text : List Char
  nonempty : text ≠ []
  plain : ∀ c ∈ text, isPlain c = true
  notKeyword : (bareWord text).isKeyword = false

/-- The word and the quoted values after it. -/
def argsText (word : PlainWord) (args : List (List Char)) : List Char :=
  word.text ++ args.flatMap fun a => ' ' :: shQuote a

/-- A blank. -/
def blank : Segment := ⟨[' '], [], rfl⟩

/-- **Values between blanks are one word each.** -/
theorem run_blanks {l : Lexer} {ts : List Token} (hl : l.Reads ts) (values : List (List Char)) :
    ∃ l', l.run (values.flatMap fun a => ' ' :: shQuote a) = some l' ∧
      l'.Reads (ts ++ values.map fun a => .word (argWord a)) := by
  have hcuts : ∀ s ∈ values.map (blank, ·), Segment.Cuts s.1 := by
    rw [List.forall_mem_map]
    exact fun _ _ => ⟨' ', [], rfl, rfl⟩
  obtain ⟨l', hrun, hl'⟩ := run_segments hl hcuts
  rw [List.flatMap_map] at hrun hl'
  rw [List.map_eq_flatMap]
  exact ⟨l', hrun, hl'⟩

theorem lex_argsText (word : PlainWord) (args : List (List Char)) :
    lex (argsText word args) =
      some (.word (bareWord word.text) :: args.map fun a => .word (argWord a)) := by
  obtain ⟨_ | ⟨c, text⟩, hne, hplain, -⟩ := word
  · exact absurd rfl hne
  have hword : Lexer.start.run (c :: text) = _ := run_plain_start hplain
  have hreads : Lexer.Reads ⟨.plain, some ⟨c :: text, true, false⟩, []⟩
      [.word (bareWord (c :: text))] := ⟨rfl, rfl⟩
  obtain ⟨l, hrest, hl⟩ := run_blanks hreads args
  rw [lex, argsText, run_append_of hword, hrest, Option.bind_some, hl.finish]
  rfl

/-- **A text of words alone is one simple command.** -/
theorem items_words {s : List Char} {ws : List Word} (hlex : lex s = some (ws.map .word))
    (hactive : ∀ w ∈ ws, w.active = false) (hkeyword : ∀ w ∈ ws.head?, w.isKeyword = false)
    (hne : ws ≠ []) : items s = some [.command (ws.map Word.text) []] := by
  have hlast : Chunk.isProper ⟨[], ws, [], none⟩ = true := by
    simpa [Chunk.isProper, Option.all_eq_true] using ⟨hactive, hkeyword⟩
  have htokens : lex s = some (List.flatMap Chunk.tokens [] ++ Chunk.tokens ⟨[], ws, [], none⟩) := by
    simpa [Chunk.tokens] using hlex
  have hchunks : ∀ k ∈ ([] : List Chunk), k.isProper = true ∧ k.op.isSome = true :=
    List.forall_mem_nil _
  simpa [Chunk.items, hne] using items_of_lex htokens hchunks hlast rfl

/-- **A word with quoted values is read as it and them.** -/
theorem words_argsText (word : PlainWord) (args : List (List Char)) :
    words (argsText word args) = some (word.text :: args) := by
  have hlex : lex (argsText word args) =
      some ((bareWord word.text :: args.map argWord).map .word) := by
    rw [lex_argsText, List.map_cons, List.map_map]
    rfl
  have hactive : ∀ w ∈ bareWord word.text :: args.map argWord, w.active = false := by
    rw [List.forall_mem_cons, List.forall_mem_map]
    exact ⟨rfl, fun _ _ => rfl⟩
  have hkeyword : ∀ w ∈ (bareWord word.text :: args.map argWord).head?, w.isKeyword = false := by
    rintro w ⟨⟩
    exact word.notKeyword
  rw [words, items_words hlex hactive hkeyword (List.cons_ne_nil _ _), List.map_cons,
    List.map_map]
  exact congrArg (some <| word.text :: ·) (List.map_id args)

/-- **Words and the quoted values after them are one simple command.** -/
theorem items_values (lit : List Char) (ws : List Word) (value : List Char)
    (values : List (List Char)) (hreads : Lexer.start.run lit = some ⟨.plain, none, ws.map .word⟩)
    (hactive : ∀ w ∈ ws, w.active = false) (hkeyword : ∀ w ∈ ws.head?, w.isKeyword = false)
    (hne : ws ≠ []) :
    items (lit ++ (shQuote value ++ values.flatMap fun a => ' ' :: shQuote a)) =
      some [.command (ws.map Word.text ++ value :: values) []] := by
  obtain ⟨l, hfirst, hl⟩ := run_segment ⟨lit, ws.map .word, hreads⟩ value hreads
  rw [Segment.text] at hfirst
  obtain ⟨l', hrest, hl'⟩ := run_blanks hl values
  have hlex : lex (lit ++ (shQuote value ++ values.flatMap fun a => ' ' :: shQuote a)) =
      some ((ws ++ argWord value :: values.map argWord).map .word) := by
    rw [← List.append_assoc, lex, run_append_of hfirst, hrest, Option.bind_some, hl'.finish,
      List.map_append, List.map_cons, List.map_map, List.append_assoc]
    rfl
  have hactive' : ∀ w ∈ ws ++ argWord value :: values.map argWord, w.active = false := by
    rw [List.forall_mem_append, List.forall_mem_cons, List.forall_mem_map]
    exact ⟨hactive, rfl, fun _ _ => rfl⟩
  have hkeyword' : ∀ w ∈ (ws ++ argWord value :: values.map argWord).head?, w.isKeyword = false := by
    rwa [List.head?_append_of_ne_nil ws hne]
  have hitems := items_words hlex hactive' hkeyword' (List.append_ne_nil_of_left_ne_nil hne _)
  rw [hitems, List.map_append, List.map_cons, List.map_map]
  exact congrArg (fun vs => some [Item.command (ws.map Word.text ++ value :: vs) []])
    (List.map_id values)

/-- **`su_c` gives the shell three words, the last of them its text.** -/
theorem words_suC (c : List Char) : words (suC c) = some ["su".toList, "-c".toList, c] := by
  have hitems := items_values "su -c ".toList [bareWord "su".toList, bareWord "-c".toList] c []
    (by decide +kernel) (by decide +kernel) (by decide +kernel)
    (List.cons_ne_nil _ _)
  rw [List.flatMap_nil, List.append_nil] at hitems
  delta suC
  rw [words, hitems]
  rfl

theorem innerItems_suC (c : List Char) : innerItems (suC c) = items c := by
  rw [innerItems, words_suC]
  exact if_pos ⟨rfl, rfl⟩

/-! ### The commands of the root leg -/

theorem chmod_reads (mode : Nat) :
    Lexer.start.run ("chmod ".toList ++ (Nat.toDigits 8 mode ++ " -- ".toList)) =
      some ⟨.plain, none, [.word (bareWord "chmod".toList),
        .word (bareWord (Nat.toDigits 8 mode)), .word (bareWord "--".toList)]⟩ := by
  have hname : Lexer.start.run "chmod ".toList =
      some ⟨.plain, none, [.word (bareWord "chmod".toList)]⟩ := by decide +kernel
  have hend : Lexer.start.run " -- ".toList =
      some ⟨.plain, none, [.word (bareWord "--".toList)]⟩ := by decide +kernel
  have hplain : ∀ c ∈ Nat.toDigits 8 mode, isPlain c = true := by
    intro c hc
    obtain ⟨hlow, hhigh⟩ := Text.digit_of_mem_toDigits (by decide) (by decide) hc
    have hall : ∀ n < 8, isPlain (Char.ofNat (0x30 + n)) = true := by decide +kernel
    have hc' := hall (c.toNat - 0x30) (by omega)
    rwa [Nat.add_sub_cancel' hlow, Char.ofNat_toNat] at hc'
  have hdigits : Lexer.run ⟨.plain, none, [.word (bareWord "chmod".toList)]⟩
      (Nat.toDigits 8 mode) = some ⟨.plain, some (bareWord (Nat.toDigits 8 mode)),
        [.word (bareWord "chmod".toList)]⟩ := by
    obtain ⟨c, digits, hdigits⟩ := List.exists_cons_of_ne_nil (Nat.toDigits_ne_nil (b := 8)
      (n := mode))
    rw [hdigits] at hplain ⊢
    exact run_plain_start hplain
  have hreads : Lexer.Reads ⟨.plain, some (bareWord (Nat.toDigits 8 mode)),
      [.word (bareWord "chmod".toList)]⟩ [.word (bareWord "chmod".toList),
        .word (bareWord (Nat.toDigits 8 mode))] := ⟨rfl, rfl⟩
  rw [run_append_of hname, run_append_of hdigits]
  exact hreads.run_cut rfl hend

/-- **A command that writes is one simple command, with each path one argument.** -/
theorem items_commandText (cmd : RootShell.Command) :
    items (commandText cmd) = some [.command (commandArgs cmd) []] := by
  cases cmd with
  | mkdir path =>
      exact items_values "mkdir -- ".toList [bareWord "mkdir".toList, bareWord "--".toList]
        path [] (by decide +kernel) (by decide +kernel) (by decide +kernel) (List.cons_ne_nil _ _)
  | mv source target =>
      exact items_values "mv -- ".toList [bareWord "mv".toList, bareWord "--".toList]
        source [target] (by decide +kernel) (by decide +kernel) (by decide +kernel)
        (List.cons_ne_nil _ _)
  | rmRf path =>
      exact items_values "rm -rf -- ".toList [bareWord "rm".toList, bareWord "-rf".toList,
        bareWord "--".toList] path [] (by decide +kernel) (by decide +kernel) (by decide +kernel)
        (List.cons_ne_nil _ _)
  | lsA path =>
      exact items_values "ls -A -- ".toList [bareWord "ls".toList, bareWord "-A".toList,
        bareWord "--".toList] path [] (by decide +kernel) (by decide +kernel) (by decide +kernel)
        (List.cons_ne_nil _ _)
  | chmod mode path =>
      have hitems := items_values _ [bareWord "chmod".toList, bareWord (Nat.toDigits 8 mode),
        bareWord "--".toList] path [] (chmod_reads mode)
        (by simp [bareWord]) (by rintro w ⟨⟩; decide +kernel) (List.cons_ne_nil _ _)
      rw [List.append_assoc, List.append_assoc] at hitems
      exact hitems

/-! ### What `stat_rooted` and `list_files_rooted` run -/

/-- A bare word of a literal. -/
def bare (s : String) : Token := .word (bareWord s.toList)

/-- The command of `stat`, up to the path. -/
def statHead (followSymlink : Bool) : List Char :=
  "stat ".toList ++ ((if followSymlink then "-L ".toList else []) ++
    ("-c '".toList ++ (statRootFormat ++ "' ".toList)))

def statHeadWords (followSymlink : Bool) : List Word :=
  [bareWord "stat".toList] ++ (if followSymlink then [bareWord "-L".toList] else []) ++
    [bareWord "-c".toList, argWord statRootFormat]

theorem statHead_reads (followSymlink : Bool) :
    Lexer.start.run (statHead followSymlink) =
      some ⟨.plain, none, (statHeadWords followSymlink).map .word⟩ := by
  cases followSymlink
  all_goals decide +kernel

/-- The parts of `stat_rooted`'s text after its first path. -/
def statParts : List Segment :=
  [⟨"; if test -r ".toList, [.op [';'], bare "if", bare "test", bare "-r"], by decide +kernel⟩,
    ⟨"; then echo @R; else echo @N; fi; if test -L ".toList,
      [.op [';'], bare "then", bare "echo", bare "@R", .op [';'], bare "else", bare "echo",
        bare "@N", .op [';'], bare "fi", .op [';'], bare "if", bare "test", bare "-L"],
      by decide +kernel⟩,
    ⟨"; then echo @L; readlink ".toList,
      [.op [';'], bare "then", bare "echo", bare "@L", .op [';'], bare "readlink"],
      by decide +kernel⟩,
    ⟨"; fi; echo @P; readlink -f ".toList,
      [.op [';'], bare "fi", .op [';'], bare "echo", bare "@P", .op [';'], bare "readlink",
        bare "-f"], by decide +kernel⟩,
    ⟨" 2>/dev/null || echo ".toList,
      [.number ['2'], .op ['>'], bare "/dev/null", .op "||".toList, bare "echo"],
      by decide +kernel⟩]

theorem statParts_cuts : ∀ s ∈ statParts, s.Cuts := by
  simp only [statParts, List.forall_mem_cons]
  refine ⟨⟨_, _, rfl, rfl⟩, ⟨_, _, rfl, rfl⟩, ⟨_, _, rfl, rfl⟩, ⟨_, _, rfl, rfl⟩,
    ⟨_, _, rfl, rfl⟩, nofun⟩

/-- `stat_rooted`'s text with its quoted values. -/
def statScript (path : List Char) (followSymlink : Bool) : Script where
  first := (⟨statHead followSymlink, _, statHead_reads followSymlink⟩, path)
  rest := statParts.map (·, path)
  cuts := List.forall_mem_map.mpr statParts_cuts
  ending := .none

theorem statScript_text (path : List Char) (followSymlink : Bool) :
    (statScript path followSymlink).text = statText path followSymlink := by
  delta statScript statHead statParts statText
  simp only [Script.text, Segment.text, render,
    Piece.render, Ending.none, List.map_cons, List.map_nil, List.flatMap_cons, List.flatMap_nil,
    List.append_assoc, List.append_nil]

/-- The simple commands of `stat_rooted`'s text but the last. -/
def statChunks (path : List Char) (followSymlink : Bool) : List Chunk :=
  let p := argWord path
  let w (s : String) := bareWord s.toList
  let semi := some [';']
  [⟨[], statHeadWords followSymlink ++ [p], [], semi⟩,
    ⟨["if".toList], [w "test", w "-r", p], [], semi⟩,
    ⟨["then".toList], [w "echo", w "@R"], [], semi⟩,
    ⟨["else".toList], [w "echo", w "@N"], [], semi⟩,
    ⟨["fi".toList], [], [], semi⟩,
    ⟨["if".toList], [w "test", w "-L", p], [], semi⟩,
    ⟨["then".toList], [w "echo", w "@L"], [], semi⟩,
    ⟨[], [w "readlink", p], [], semi⟩,
    ⟨["fi".toList], [], [], semi⟩,
    ⟨[], [w "echo", w "@P"], [], semi⟩,
    ⟨[], [w "readlink", w "-f", p], [⟨some ['2'], ['>'], "/dev/null".toList⟩], some "||".toList⟩]

def lastStatChunk (path : List Char) : Chunk :=
  ⟨[], [bareWord "echo".toList, argWord path], [], none⟩

theorem statScript_tokens (path : List Char) (followSymlink : Bool) :
    (statScript path followSymlink).tokens =
      (statChunks path followSymlink).flatMap Chunk.tokens ++ (lastStatChunk path).tokens := by
  cases followSymlink
  all_goals rfl

theorem statChunks_proper (path : List Char) (followSymlink : Bool) :
    ((statChunks path followSymlink).all fun c => c.isProper && c.op.isSome) = true := by
  cases followSymlink
  all_goals rfl

theorem items_statText (path : List Char) (followSymlink : Bool) :
    items (statText path followSymlink) = some (statItems path followSymlink) := by
  have hlex := lex_script (statScript path followSymlink)
  rw [statScript_text, statScript_tokens] at hlex
  have hproper : ∀ c ∈ statChunks path followSymlink, c.isProper = true ∧ c.op.isSome = true := by
    simpa only [List.all_eq_true, Bool.and_eq_true] using statChunks_proper path followSymlink
  rw [items_of_lex hlex hproper rfl rfl]
  cases followSymlink
  all_goals rfl

/-- The parts of `list_files_rooted`'s text after its first path. -/
def listParts : List Segment :=
  [⟨"; then cd -- ".toList, [.op [';'], bare "then", bare "cd", bare "--"], by decide +kernel⟩,
    ⟨" && ls -lA -- .; elif test -e ".toList,
      [.op "&&".toList, bare "ls", bare "-lA", bare "--", bare ".", .op [';'], bare "elif",
        bare "test", bare "-e"], by decide +kernel⟩]

theorem listParts_cuts : ∀ s ∈ listParts, s.Cuts := by
  simp only [listParts, List.forall_mem_cons]
  exact ⟨⟨_, _, rfl, rfl⟩, ⟨_, _, rfl, rfl⟩, nofun⟩

/-- `list_files_rooted`'s text with its quoted values. -/
def listScript (path : List Char) : Script where
  first := (⟨"if test -d ".toList, [bare "if", bare "test", bare "-d"], by decide +kernel⟩, path)
  rest := listParts.map (·, path)
  cuts := List.forall_mem_map.mpr listParts_cuts
  ending := ⟨listTail,
    [.op [';'], bare "then", bare "echo", bare "@NOTDIR", .op [';'], bare "else", bare "echo",
      bare "@NOENT", .op [';'], bare "fi"], by decide +kernel, by rintro c ⟨⟩; rfl⟩

theorem listScript_text (path : List Char) : (listScript path).text = listText path := by
  delta listScript listParts listText
  simp only [Script.text, Segment.text, render, Piece.render,
    List.map_cons, List.map_nil, List.flatMap_cons, List.flatMap_nil, List.append_assoc,
    List.append_nil]

/-- The simple commands of `list_files_rooted`'s text but the end. -/
def listChunks (path : List Char) : List Chunk :=
  let p := argWord path
  let w (s : String) := bareWord s.toList
  let semi := some [';']
  [⟨["if".toList], [w "test", w "-d", p], [], semi⟩,
    ⟨["then".toList], [w "cd", w "--", p], [], some "&&".toList⟩,
    ⟨[], [w "ls", w "-lA", w "--", w "."], [], semi⟩,
    ⟨["elif".toList], [w "test", w "-e", p], [], semi⟩,
    ⟨["then".toList], [w "echo", w "@NOTDIR"], [], semi⟩,
    ⟨["else".toList], [w "echo", w "@NOENT"], [], semi⟩]

def lastListChunk : Chunk := ⟨["fi".toList], [], [], none⟩

theorem listChunks_proper (path : List Char) :
    ((listChunks path).all fun c => c.isProper && c.op.isSome) = true := rfl

theorem items_listText (path : List Char) : items (listText path) = some (listItems path) := by
  have htokens : (listScript path).tokens =
      (listChunks path).flatMap Chunk.tokens ++ lastListChunk.tokens := rfl
  have hlex := lex_script (listScript path)
  rw [listScript_text, htokens] at hlex
  have hproper : ∀ c ∈ listChunks path, c.isProper = true ∧ c.op.isSome = true := by
    simpa only [List.all_eq_true, Bool.and_eq_true] using listChunks_proper path
  rw [items_of_lex hlex hproper rfl rfl]
  rfl

/-- **Two shells make of a text what was meant**: of a word with quoted values that word and these
values, of `su_c` the words `su`, `-c` and its text, and inside it of each command of the root leg
its simple commands, every path one argument. -/
theorem quoting_keeps_arguments :
    (∀ (word : PlainWord) (args : List (List Char)),
      words (argsText word args) = some (word.text :: args)) ∧
    (∀ c, words (suC c) = some ["su".toList, "-c".toList, c]) ∧
    (∀ cmd, innerItems (suC (commandText cmd)) = some [.command (commandArgs cmd) []]) ∧
    (∀ path followSymlink,
      innerItems (suC (statText path followSymlink)) = some (statItems path followSymlink)) ∧
    ∀ path, innerItems (suC (listText path)) = some (listItems path) := by
  refine ⟨words_argsText, words_suC, fun cmd => ?_, fun path followSymlink => ?_, fun path => ?_⟩
  · rw [innerItems_suC, items_commandText]
  · rw [innerItems_suC, items_statText]
  · rw [innerItems_suC, items_listText]

example : words (suC ("mkdir -- ".toList ++ shQuote "/sdcard/我的 目录/a'b;id.txt".toList)) =
    some ["su".toList, "-c".toList, "mkdir -- '/sdcard/我的 目录/a'\\''b;id.txt'".toList] := by
  decide +kernel

end RevBox.AdbShell
