import RevBox.Agent.Privileged
import RevBox.Agent.ProcRead
import RevBox.Device.Toybox

/-!
# Agent — ProcReadLegs

The two legs of `process.proc_read` on one file: what the shell leg reads by itself, and what the
`su` leg makes of the output of `proc_read_script`.

* `suRead_eq`: the `su` leg, told by the lines of the text.
* `legs_agree`: exactly on which files the two legs answer alike.
-/

namespace RevBox.ProcRead

open Toybox

/-- `echo`. -/
def echo (line : List Char) : List UInt8 := Utf8.encode line ++ [10]

/-- What `proc_read_script` prints of a file. -/
def procReadOutput (content : List UInt8) (maxLines : Nat) : List UInt8 :=
  echo "ARTPROC_TOTAL".toList ++ (echo (Text.decimal (awkRecords content)) ++
    (echo "ARTPROC_BODY".toList ++ (sedHead maxLines (headBytes maxProcBytes content) ++
      10 :: echo "ARTPROC_END".toList)))

/-- `max_lines` as `proc_read` takes it. -/
def clampLines (maxLines : Option Nat) : Nat :=
  min (max (maxLines.getD defaultProcLines) 1) maxProcLines

/-- The `su` leg of `proc_read` on a file that `su` can read. -/
def suRead (content : List UInt8) (maxLines : Nat) (stderr : List UInt8) :
    Except AgentError ProcHeadRead := do
  let read ← parseProcReadOutput (← Privileged.runPrivileged "读取 /proc 详情"
    Privileged.procReadSentinel (.exited (some 0) (procReadOutput content maxLines) stderr))
  pure ⟨read.totalLines, returnedLines read.body, read.totalLines > maxLines || read.bodyTruncated,
    read.body⟩

/-- What the shell leg read. -/
def ShellRead.read? : ShellRead → Option ProcHeadRead
  | .readable read | .empty read => some read
  | .unreadable => none

variable {file : ProcFile} {content stderr : List UInt8} {maxLines : Nat}

/-- `proc_read` answers with what the `su` leg read. -/
theorem readPrivileged_eq (path : String) (file : ProcFile) (parseError : Value → String)
    (shell : Option (List UInt8)) :
    readPrivileged ⟨shell, Privileged.runPrivileged "读取 /proc 详情" Privileged.procReadSentinel
        (.exited (some 0) (procReadOutput content maxLines) stderr), parseError⟩ path file maxLines =
      (suRead content maxLines stderr).map fun read => resultValue path file read "root" := by
  simp only [readPrivileged, suRead]
  cases Privileged.runPrivileged "读取 /proc 详情" Privileged.procReadSentinel
    (.exited (some 0) (procReadOutput content maxLines) stderr) with
  | error e => rfl
  | ok output =>
      simp only [bind, Except.bind]
      cases parseProcReadOutput output with
      | error e => rfl
      | ok read => rfl

/-! ### The output of the script -/

/-- The text of what the script prints of the file. -/
def shownText (content : List UInt8) (maxLines : Nat) : List Char :=
  Utf8.fromUtf8Lossy (sedHead maxLines (headBytes maxProcBytes content))

/-- The output of the script without the blanks at its ends. -/
def trimmedOutput (content : List UInt8) (maxLines : Nat) : List Char :=
  "ARTPROC_TOTAL".toList ++ '\n' :: (Text.decimal (awkRecords content) ++
    '\n' :: ("ARTPROC_BODY".toList ++
      '\n' :: (shownText content maxLines ++ '\n' :: "ARTPROC_END".toList)))

theorem fromUtf8Lossy_echo {line : List Char} (rest : List UInt8) :
    Utf8.fromUtf8Lossy (echo line ++ rest) = line ++ '\n' :: Utf8.fromUtf8Lossy rest := by
  rw [echo, List.append_assoc, List.singleton_append, Utf8.fromUtf8Lossy_append,
    Utf8.fromUtf8Lossy_encode]

theorem fromUtf8Lossy_procReadOutput : Utf8.fromUtf8Lossy (procReadOutput content maxLines) =
    trimmedOutput content maxLines ++ ['\n'] := by
  have hend : Utf8.fromUtf8Lossy (echo "ARTPROC_END".toList) = "ARTPROC_END".toList ++ ['\n'] := by
    decide
  rw [procReadOutput, fromUtf8Lossy_echo, fromUtf8Lossy_echo, fromUtf8Lossy_echo,
    Utf8.fromUtf8Lossy_append, hend]
  unfold trimmedOutput shownText
  simp only [List.append_assoc, List.cons_append]

theorem trim_output : Text.trim (Utf8.fromUtf8Lossy (procReadOutput content maxLines)) =
    trimmedOutput content maxLines := by
  have hstart : Text.trimStart (trimmedOutput content maxLines ++ ['\n']) =
      trimmedOutput content maxLines ++ ['\n'] := by
    have hhead : "ARTPROC_TOTAL".toList = 'A' :: "RTPROC_TOTAL".toList := by decide
    have hblank : ¬ Text.isWhitespace 'A' = true := by decide
    unfold trimmedOutput
    rw [hhead]
    exact List.dropWhile_cons_of_neg hblank
  rw [fromUtf8Lossy_procReadOutput, Text.trim, hstart, Text.trimEnd_append_blank _ rfl]
  have hend : ∀ s : List Char, Text.trimEnd (s ++ "ARTPROC_END".toList) =
      s ++ "ARTPROC_END".toList := fun s => Text.trimEnd_append s (by decide)
  have h := hend ("ARTPROC_TOTAL".toList ++ '\n' :: (Text.decimal (awkRecords content) ++
    '\n' :: ("ARTPROC_BODY".toList ++ '\n' :: (shownText content maxLines ++ ['\n']))))
  simp only [List.append_assoc, List.cons_append, List.nil_append] at h
  exact h

/-- The text of the part of a file that is read. -/
def readText (content : List UInt8) : List Char := Utf8.fromUtf8Lossy (content.take maxProcBytes)

/-- The lines of the file that the script prints, without the blanks at their ends. -/
def bodyLines (content : List UInt8) (maxLines : Nat) : List (List Char) :=
  ((Text.lines (readText content)).take maxLines).map Text.trimEnd

theorem trimmed_lines_output (content : List UInt8) (maxLines : Nat) :
    (Text.lines (trimmedOutput content maxLines)).map Text.trimEnd =
    "ARTPROC_TOTAL".toList :: Text.decimal (awkRecords content) :: "ARTPROC_BODY".toList ::
      ((bodyLines content maxLines ++ Text.endLine (shownText content maxLines)) ++
        ["ARTPROC_END".toList]) := by
  have hdigit : ∀ c ∈ Text.decimal (awkRecords content), Text.isWhitespace c = false := fun c hc =>
    Text.not_whitespace_of_isAsciiDigit (Text.isAsciiDigit_of_mem_decimal hc)
  have hnum : '\n' ∉ Text.decimal (awkRecords content) := fun h => by
    cases hdigit '\n' h
  have htrim : Text.trimEnd (Text.decimal (awkRecords content)) = Text.decimal (awkRecords content) :=
    List.rdropWhile_eq_self_iff.mpr fun hne => by simp [hdigit _ (List.getLast_mem hne)]
  have hbody : (Text.lines (shownText content maxLines)).map Text.trimEnd =
      bodyLines content maxLines := by
    rw [shownText, lines_sedHead, bodyLines, readText, headBytes]
  have hlast : (Text.lines "ARTPROC_END".toList).map Text.trimEnd = ["ARTPROC_END".toList] := by
    decide
  have htotal : '\n' ∉ "ARTPROC_TOTAL".toList := by decide
  have hmarker : '\n' ∉ "ARTPROC_BODY".toList := by decide
  have htrimTotal : Text.trimEnd "ARTPROC_TOTAL".toList = "ARTPROC_TOTAL".toList := by decide
  have htrimBody : Text.trimEnd "ARTPROC_BODY".toList = "ARTPROC_BODY".toList := by decide
  unfold trimmedOutput
  rw [Text.lines_append _ htotal, Text.lines_append _ hnum,
    Text.lines_append _ hmarker, List.map_cons, List.map_cons, List.map_cons,
    Text.trimmed_lines_append, Text.trimEnd_chomp, Text.trimEnd_chomp, Text.trimEnd_chomp, htrim,
    hbody, hlast, htrimTotal, htrimBody]

/-! ### The parser on the output -/

theorem decimal_ne {line : String} (h : ¬ line.toList.all Text.isAsciiDigit) (n : Nat) :
    Text.decimal n ≠ line.toList := by
  intro heq
  refine h (List.all_eq_true.mpr fun c hc => ?_)
  rw [← heq] at hc
  exact Text.isAsciiDigit_of_mem_decimal hc

theorem trim_decimal (n : Nat) : Text.trim (Text.decimal n) = Text.decimal n :=
  Text.trim_of_no_blank fun _ hc =>
    Text.not_whitespace_of_isAsciiDigit (Text.isAsciiDigit_of_mem_decimal hc)

/-- The body the parser takes from between the markers. -/
def bodyOf (total : Nat) (body : List (List Char)) : ProcReadOutput :=
  let text := Text.trimEndMatches '\n' (Text.join '\n' body)
  ⟨total, text, text = [] && (Text.join '\n' body).length ≠ text.length⟩

/-- The parser on an output with its three markers in place. -/
theorem parseProcReadOutput_of_lines {output : List Char} {total : Nat} {body : List (List Char)}
    (h : (Text.lines output).map Text.trimEnd = "ARTPROC_TOTAL".toList :: Text.decimal total ::
      "ARTPROC_BODY".toList :: (body ++ ["ARTPROC_END".toList])) :
    (total < 2 ^ 63 → parseProcReadOutput output = .ok (bodyOf total body)) ∧
      (2 ^ 63 ≤ total → ∃ e, parseProcReadOutput output = .error e) := by
  have hgone : ¬ Text.decimal total = "ARTPROC_GONE".toList := decimal_ne (by decide) total
  have hmissing : ¬ Text.decimal total = "ARTPROC_MISSING".toList := decimal_ne (by decide) total
  have hbody : ¬ Text.decimal total = "ARTPROC_BODY".toList := decimal_ne (by decide) total
  have htotal : ¬ "ARTPROC_TOTAL".toList = "ARTPROC_BODY".toList := by decide
  have hfirst : ((Text.lines output).map Text.trimEnd).findIdx?
      (fun l => l = "ARTPROC_TOTAL".toList) = some 0 := by
    rw [h, List.findIdx?_cons, if_pos (decide_eq_true rfl)]
  have hmarker : ((Text.lines output).map Text.trimEnd).findIdx?
      (fun l => l = "ARTPROC_BODY".toList) = some 2 := by
    rw [h, List.findIdx?_cons, if_neg (by rw [decide_eq_true_eq]; exact htotal),
      List.findIdx?_cons, if_neg (by rw [decide_eq_true_eq]; exact hbody), List.findIdx?_cons,
      if_pos (decide_eq_true rfl)]
    rfl
  have hlast : rposition "ARTPROC_END".toList ((Text.lines output).map Text.trimEnd) =
      some (body.length + 3) := by
    have hlen : ("ARTPROC_TOTAL".toList :: Text.decimal total :: "ARTPROC_BODY".toList ::
        (body ++ ["ARTPROC_END".toList])).length = body.length + 4 := by
      simp only [List.length_cons, List.length_append, List.length_nil]
    have hrev : ("ARTPROC_TOTAL".toList :: Text.decimal total :: "ARTPROC_BODY".toList ::
        (body ++ ["ARTPROC_END".toList])).reverse = "ARTPROC_END".toList ::
          ("ARTPROC_TOTAL".toList :: Text.decimal total :: "ARTPROC_BODY".toList :: body).reverse := by
      rw [← List.cons_append, ← List.cons_append, ← List.cons_append, List.reverse_append]
      rfl
    rw [rposition, h, hlen, hrev, List.findIdx?_cons, if_pos (decide_eq_true rfl)]
    rfl
  have hnext : ((Text.lines output).map Text.trimEnd)[1]? = some (Text.decimal total) := by
    rw [h]
    rfl
  have hbetween : (((Text.lines output).map Text.trimEnd).take (body.length + 3)).drop 3 = body := by
    rw [h, List.take_succ_cons, List.take_succ_cons, List.take_succ_cons, List.drop_succ_cons,
      List.drop_succ_cons, List.drop_succ_cons, List.take_left, List.drop_zero]
  have hparse := Text.parseI64_decimal total
  refine ⟨fun hlt => ?_, fun hge => ?_⟩
  · rw [if_pos hlt] at hparse
    unfold parseProcReadOutput
    simp only [hfirst, hmarker, hlast, hnext, hbetween, pure, Except.pure, bind, Except.bind,
      Nat.zero_add, Option.some.injEq, hgone, hmissing, if_false, Option.getD_some, trim_decimal,
      hparse, Nat.not_lt.mpr (Nat.le_add_left 2 _), bodyOf, Int.toNat_natCast]
  · rw [if_neg (Nat.not_lt.mpr hge)] at hparse
    unfold parseProcReadOutput
    simp only [hfirst, hnext, pure, Except.pure, bind, Except.bind,
      Nat.zero_add, Option.some.injEq, hgone, hmissing, if_false, Option.getD_some, trim_decimal,
      hparse]
    exact ⟨_, rfl⟩

theorem runPrivileged_output (step : String) :
    Privileged.runPrivileged step Privileged.procReadSentinel
        (.exited (some 0) (procReadOutput content maxLines) stderr) =
      .ok (trimmedOutput content maxLines) := by
  have hmem : "ARTPROC_END".toList ∈ Text.lines (trimmedOutput content maxLines) := by
    unfold trimmedOutput
    refine Text.mem_lines_append _ (Text.mem_lines_append _ (Text.mem_lines_append _
      (Text.mem_lines_append _ ?_)))
    decide
  have hsentinel : ¬ ((Text.lines (trimmedOutput content maxLines)).all fun line =>
      Text.trim line ≠ Privileged.procReadSentinel.toList) = true := by
    intro hall
    have hne := of_decide_eq_true (List.all_eq_true.mp hall _ hmem)
    exact hne (by decide)
  simp only [Privileged.runPrivileged, trim_output, ne_eq, not_true_eq_false, if_false]
  exact if_neg hsentinel

/-- What the `su` leg reads. -/
def suHead (content : List UInt8) (maxLines : Nat) : ProcHeadRead :=
  let read := bodyOf (awkRecords content)
    (bodyLines content maxLines ++ Text.endLine (shownText content maxLines))
  ⟨read.totalLines, returnedLines read.body, read.totalLines > maxLines || read.bodyTruncated,
    read.body⟩

/-- **The `su` leg**, told by the lines of the text. -/
theorem suRead_eq : (awkRecords content < 2 ^ 63 →
      suRead content maxLines stderr = .ok (suHead content maxLines)) ∧
    (2 ^ 63 ≤ awkRecords content → ∃ e, suRead content maxLines stderr = .error e) := by
  obtain ⟨hok, herror⟩ := parseProcReadOutput_of_lines (trimmed_lines_output content maxLines)
  refine ⟨fun h => ?_, fun h => ?_⟩
  · simp only [suRead, runPrivileged_output, bind, Except.bind, hok h, pure, Except.pure, suHead]
  · obtain ⟨e, he⟩ := herror h
    refine ⟨e, ?_⟩
    simp only [suRead, runPrivileged_output, bind, Except.bind, he]

/-! ### What the shell leg trims -/

/-- The character `decode_proc_bytes` puts for one of `cmdline`. -/
def blankNul (c : Char) : Char := if c.toNat = 0 then ' ' else c

/-- No character of the text is NUL. -/
def NoNul (s : List Char) : Prop := ∀ c ∈ s, c.toNat ≠ 0

theorem isWhitespace_nul {c : Char} (h : c.toNat = 0) : Text.isWhitespace c = false := by
  have hc : c = Char.ofNat 0 := by rw [← h, Char.ofNat_toNat]
  rw [hc]
  rfl

theorem noNul_map (s : List Char) : NoNul (s.map blankNul) := by
  intro c hc
  obtain ⟨d, -, rfl⟩ := List.mem_map.mp hc
  unfold blankNul
  split
  · decide
  · assumption

theorem map_blankNul {s : List Char} (h : NoNul s) : s.map blankNul = s := by
  have hid : ∀ c ∈ s, blankNul c = c := fun c hc => if_neg (h c hc)
  exact (List.map_congr_left hid).trans (List.map_id s)

theorem NoNul.subset {s t : List Char} (h : NoNul t) (hst : ∀ c ∈ s, c ∈ t) : NoNul s :=
  fun c hc => h c (hst c hc)

theorem noNul_of_map {s : List Char} (h : s.map blankNul = s) : NoNul s := by
  rw [← h]
  exact noNul_map s

theorem trimEnd_eq_nil {s : List Char} :
    Text.trimEnd s = [] ↔ ∀ c ∈ s, Text.isWhitespace c = true :=
  List.rdropWhile_eq_nil_iff

/-- A line is shown by both legs as it is. -/
theorem map_eq_trimEnd {l : List Char} :
    l.map blankNul = Text.trimEnd l ↔ NoNul l ∧ Text.trimEnd l = l := by
  refine ⟨fun h => ?_, fun ⟨hn, ht⟩ => by rw [map_blankNul hn, ht]⟩
  have hlen : (Text.trimEnd l).length = l.length := by
    rw [← h, List.length_map]
  have htrim : Text.trimEnd l = l := (Text.trimEnd_isPrefix l).eq_of_length hlen
  exact ⟨noNul_of_map (h.trans htrim), htrim⟩

/-- The last line is shown by both legs up to the blanks at its end. -/
theorem trimEnd_map_eq {l : List Char} :
    Text.trimEnd (l.map blankNul) = Text.trimEnd l ↔ NoNul l := by
  refine ⟨fun h => ?_, fun h => by rw [map_blankNul h]⟩
  intro c hc hnul
  rw [← List.rdropWhile_append_rtakeWhile (p := Text.isWhitespace) (l := l)] at hc
  rcases List.mem_append.mp hc with hc | hc
  · have hmem : c ∈ Text.trimEnd (l.map blankNul) := h ▸ hc
    exact noNul_map l c ((Text.trimEnd_isPrefix _).subset hmem) hnul
  · have hblank := List.mem_rtakeWhile_imp hc
    rw [isWhitespace_nul hnul] at hblank
    cases hblank

/-- The lines of `cmdline` as the shell leg has them. -/
def trimmedText (text : List Char) : List Char := Text.trim (text.map blankNul)

/-- `cmdline` as the two legs show it alike: it begins with no blank, none of the lines shown holds
a NUL, only the last line may end with blanks, and it is not all blank. -/
structure CleanCmdline (text : List Char) (maxLines : Nat) : Prop where
  starts : ∀ c, text.head? = some c → Text.isWhitespace c = false
  noNul : ∀ l ∈ (Text.lines text).take maxLines, NoNul l
  ends : ∀ l ∈ (Text.lines text).dropLast.take maxLines, Text.trimEnd l = l
  last : ∀ l, (Text.lines text).getLast? = some l →
    ∃ c ∈ l, c.toNat ≠ 0 ∧ Text.isWhitespace c = false

/-- A line that is not all blanks and NULs. -/
theorem exists_shown {l : List Char} : (∃ c ∈ l, c.toNat ≠ 0 ∧ Text.isWhitespace c = false) ↔
    Text.trimEnd (l.map blankNul) ≠ [] := by
  rw [Ne, trimEnd_eq_nil]
  constructor
  · rintro ⟨c, hc, hnul, hblank⟩ hall
    have := hall c (List.mem_map.mpr ⟨c, hc, if_neg hnul⟩)
    rw [hblank] at this
    cases this
  · intro hall
    obtain ⟨d, hd, hblank⟩ : ∃ d ∈ l.map blankNul, ¬ Text.isWhitespace d = true := by
      simpa only [not_forall, exists_prop] using hall
    obtain ⟨c, hc, rfl⟩ := List.mem_map.mp hd
    refine ⟨c, hc, ?_⟩
    unfold blankNul at hblank
    split at hblank
    · exact absurd rfl hblank
    · exact ⟨‹_›, eq_false_of_ne_true hblank⟩

theorem lines_map_blankNul (text : List Char) :
    Text.lines (text.map blankNul) = (Text.lines text).map (List.map blankNul) := by
  have hkeep : ∀ c d : Char, d ≠ ' ' → d.toNat ≠ 0 → (blankNul c = d ↔ c = d) := by
    intro c d hblank hd
    unfold blankNul
    split
    · rename_i hc
      exact ⟨fun h => absurd h.symm hblank, fun h => absurd (h ▸ hc) hd⟩
    · exact Iff.rfl
  exact Text.lines_map (fun c => hkeep c '\n' (by decide) (by decide))
    (fun c => hkeep c '\r' (by decide) (by decide)) text

/-- The lines of a text whose end is trimmed of blanks and NULs. -/
theorem lines_trimEnd_map {text last : List Char} {xs : List (List Char)}
    (h : Text.lines text = xs ++ [last]) :
    (Text.trimEnd (last.map blankNul) ≠ [] → Text.lines (Text.trimEnd (text.map blankNul)) =
        xs.map (List.map blankNul) ++ [Text.trimEnd (last.map blankNul)]) ∧
      (Text.trimEnd (last.map blankNul) = [] →
        (Text.lines (Text.trimEnd (text.map blankNul))).length ≤ xs.length) := by
  have hlines : Text.lines (text.map blankNul) =
      xs.map (List.map blankNul) ++ [last.map blankNul] := by
    rw [lines_map_blankNul, h, List.map_append]
    rfl
  have := Text.lines_trimEnd _ hlines
  rwa [List.length_map] at this

/-- A text that begins with neither a blank nor a NUL is trimmed at its end only. -/
theorem trimmedText_eq {text : List Char}
    (h : ∀ c, text.head? = some c → Text.isWhitespace c = false ∧ c.toNat ≠ 0) :
    trimmedText text = Text.trimEnd (text.map blankNul) := by
  cases text with
  | nil => rfl
  | cons c s =>
      obtain ⟨hblank, hnul⟩ := h c rfl
      have hc : blankNul c = c := if_neg hnul
      rw [trimmedText, Text.trim, Text.trimStart, List.map_cons, hc,
        List.dropWhile_cons_of_neg (by rw [hblank]; exact Bool.false_ne_true)]

/-- The lines shown begin as the text does. -/
theorem head_of_shown {text : List Char} {maxLines : Nat} (hmax : 0 < maxLines)
    (hshown : (Text.lines (trimmedText text)).take maxLines =
      ((Text.lines text).take maxLines).map Text.trimEnd)
    (hlen : (Text.lines (trimmedText text)).length = (Text.lines text).length) :
    ∀ c, text.head? = some c → Text.isWhitespace c = false ∧ c.toNat ≠ 0 := by
  intro c hc
  obtain ⟨max, rfl⟩ := Nat.exists_eq_succ_of_ne_zero (Nat.ne_of_gt hmax)
  cases hR : Text.lines text with
  | nil =>
      rw [Text.lines_eq_nil.mp hR] at hc
      cases hc
  | cons r R =>
      cases hL : Text.lines (trimmedText text) with
      | nil =>
          rw [hL, hR] at hlen
          cases hlen
      | cons l L =>
          rw [hL, hR, List.take_succ_cons, List.take_succ_cons, List.map_cons] at hshown
          have hl : l = Text.trimEnd r := (List.cons_eq_cons.mp hshown).1
          have hfirst : (Text.lines (trimmedText text)).head? = some l := by rw [hL]; rfl
          have hne : l ≠ [] := Text.head_lines_trim hfirst
          have hr : r ≠ [] := by
            rintro rfl
            exact hne hl
          -- the first characters of both texts are those of the line
          have hhead : l.head? = (trimmedText text).head? := Text.head_lines hfirst hne
          have hhead' : r.head? = text.head? := Text.head_lines (by rw [hR]; rfl) hr
          have heq : l.head? = r.head? := by
            obtain ⟨rest, hrest⟩ := Text.trimEnd_isPrefix r
            rw [← hrest, ← hl, List.head?_append_of_ne_nil _ hne]
          have hc' : (trimmedText text).head? = some c := by
            rw [← hhead, heq, hhead', hc]
          have hne' : trimmedText text ≠ [] := by
            intro h
            rw [h] at hc'
            cases hc'
          have hget : (trimmedText text).head hne' = c := by
            rw [List.head?_eq_some_head hne'] at hc'
            exact Option.some.inj hc'
          refine ⟨hget ▸ Text.head_trim hne', ?_⟩
          have hmem : c ∈ text.map blankNul := by
            have hsub := (Text.trimEnd_isPrefix _).subset (List.mem_of_head? hc')
            exact (List.dropWhile_suffix _).subset hsub
          exact noNul_map text c hmem

/-- The first of some parts and a last one, mapped one way and the other. -/
theorem take_concat_eq {α β : Type} {f g : α → β} {xs : List α} {last : α} {e : β} {n : Nat} :
    (xs.map f ++ [e]).take n = ((xs ++ [last]).take n).map g ↔
      (∀ x ∈ xs.take n, f x = g x) ∧ (xs.length < n → e = g last) := by
  have hlast : [e].take (n - xs.length) = ([last].take (n - xs.length)).map g ↔
      (xs.length < n → e = g last) := by
    by_cases hn : xs.length < n
    · have h1 : 1 ≤ n - xs.length := by omega
      rw [List.take_of_length_le h1, List.take_of_length_le h1]
      simp [hn]
    · have h0 : n - xs.length = 0 := by omega
      rw [h0]
      simp [hn]
  rw [List.take_append, List.take_append, List.map_append, List.length_map, ← List.map_take, ← hlast]
  constructor
  · intro h
    obtain ⟨hxs, he⟩ := List.append_inj h (by simp)
    exact ⟨fun x hx => List.map_inj_left.mp hxs x hx, he⟩
  · rintro ⟨hxs, he⟩
    rw [List.map_congr_left hxs, he]

/-- **The two legs show a `cmdline` alike** exactly when it is clean. -/
theorem cleanCmdline_iff {text : List Char} {maxLines : Nat} (hmax : 0 < maxLines) :
    CleanCmdline text maxLines ↔ (Text.lines (trimmedText text)).take maxLines =
        ((Text.lines text).take maxLines).map Text.trimEnd ∧
      (Text.lines (trimmedText text)).length = (Text.lines text).length := by
  rcases List.eq_nil_or_concat (Text.lines text) with hR | ⟨xs, last, hR⟩
  · rw [Text.lines_eq_nil.mp hR]
    have hnil : Text.lines (trimmedText []) = [] := rfl
    have hnil' : Text.lines [] = [] := rfl
    rw [hnil, hnil']
    exact ⟨fun _ => ⟨by simp, rfl⟩, fun _ => ⟨by simp, by simp [hnil'], by simp [hnil'],
      by simp [hnil']⟩⟩
  rw [List.concat_eq_append] at hR
  obtain ⟨hkept, hgone⟩ := lines_trimEnd_map hR
  constructor
  · rintro ⟨hstarts, hnul, hends, hlast⟩
    have hhead : ∀ c, text.head? = some c → Text.isWhitespace c = false ∧ c.toNat ≠ 0 := by
      intro c hc
      refine ⟨hstarts c hc, ?_⟩
      obtain ⟨r, hr⟩ : ∃ r, (Text.lines text).head? = some r := by
        rw [hR]
        cases xs <;> exact ⟨_, rfl⟩
      have hne : r ≠ [] := by
        rintro rfl
        obtain ⟨d, hd, hblank⟩ := Text.head_of_empty_line hr
        rw [hstarts d hd] at hblank
        cases hblank
      have hmem : r ∈ (Text.lines text).take maxLines := by
        refine List.mem_of_head? ?_
        rw [List.head?_take, if_neg (Nat.ne_of_gt hmax), hr]
      refine hnul r hmem c (List.mem_of_head? ?_)
      rw [Text.head_lines hr hne, hc]
    rw [hR] at hnul hends hlast ⊢
    have hne := exists_shown.mp (hlast last (by simp))
    rw [trimmedText_eq hhead, hkept hne]
    refine ⟨take_concat_eq.mpr ⟨fun l hl => ?_, fun hlt => ?_⟩, by simp⟩
    · refine map_eq_trimEnd.mpr ⟨hnul l ?_, hends l (by simpa using hl)⟩
      rw [List.take_append]
      exact List.mem_append_left _ hl
    · refine trimEnd_map_eq.mpr (hnul last ?_)
      rw [List.take_of_length_le (by rw [List.length_append]; exact hlt)]
      simp
  · rintro ⟨hshown, hlen⟩
    have hhead := head_of_shown hmax hshown hlen
    rw [trimmedText_eq hhead, hR] at hshown hlen
    have hne : Text.trimEnd (last.map blankNul) ≠ [] := by
      intro hnil
      have hle := hgone hnil
      rw [hlen, List.length_append] at hle
      exact Nat.not_succ_le_self _ hle
    rw [hkept hne] at hshown
    obtain ⟨hxs, hlast⟩ := take_concat_eq.mp hshown
    refine ⟨fun c hc => (hhead c hc).1, fun l hl => ?_, fun l hl => ?_, fun l hl => ?_⟩
    · rw [hR, List.take_append] at hl
      rcases List.mem_append.mp hl with hl | hl
      · exact (map_eq_trimEnd.mp (hxs l hl)).1
      · have hlt : xs.length < maxLines := by
          by_contra hge
          rw [Nat.sub_eq_zero_of_le (Nat.not_lt.mp hge)] at hl
          cases hl
        obtain rfl := List.mem_singleton.mp (List.mem_of_mem_take hl)
        exact trimEnd_map_eq.mp (hlast hlt)
    · rw [hR, List.dropLast_concat] at hl
      exact (map_eq_trimEnd.mp (hxs l hl)).2
    · rw [hR, List.getLast?_concat, Option.some.injEq] at hl
      exact exists_shown.mpr (hl ▸ hne)

/-! ### The two legs on one file -/

/-- The lines shown are shown by both legs as they are: none ends with blanks, and `cmdline` is
clean. -/
def Clean (file : ProcFile) (text : List Char) (maxLines : Nat) : Prop :=
  match file with
  | .cmdline => CleanCmdline text maxLines
  | .maps | .status => ∀ l ∈ (Text.lines text).take maxLines, Text.trimEnd l = l

/-- The files the two legs answer alike on. -/
structure Alike (file : ProcFile) (content : List UInt8) (maxLines : Nat) : Prop where
  /-- The lines shown are clean. -/
  clean : Clean file (readText content) maxLines
  /-- The last of them is not empty, unless it is the only one and others follow. -/
  lastLine : ((Text.lines (readText content)).take maxLines).getLast? = some [] →
    (Text.lines (readText content)).take maxLines = [[]] ∧ maxLines < awkRecords content
  /-- Every line begins within the byte cap. -/
  counted : (Text.lines (readText content)).length = awkRecords content
  /-- A file over the byte cap is also over the line cap. -/
  capped : maxProcBytes < content.length → maxLines < awkRecords content ∧
    (Text.lines (readText content)).take maxLines ≠ Text.lines (decodeProcBytes file content)

/-- What is asked of what the two legs return: the same text, the same number of lines and the same
flag, which says whether lines are missing, and no NUL of `cmdline`. -/
structure Agreed (file : ProcFile) (content : List UInt8) (shell su : ProcHeadRead) : Prop where
  text : shell.text = su.text
  totalLines : shell.totalLines = su.totalLines
  truncated : shell.truncated = su.truncated
  whole : shell.truncated = true ↔
    shell.text ≠ Text.join '\n' (Text.lines (decodeProcBytes file content))
  noNul : file = .cmdline → NoNul shell.text ∧ NoNul su.text

/-- The two legs agree on a file, if both read it. -/
def Agree (file : ProcFile) (content : List UInt8) (maxLines : Nat) (stderr : List UInt8) : Prop :=
  ∀ shell su, (readProcHead (some content) file maxLines).read? = some shell →
    suRead content maxLines stderr = .ok su → Agreed file content shell su

/-- What the shell leg reads. -/
def shellHead (file : ProcFile) (content : List UInt8) (maxLines : Nat) : ProcHeadRead :=
  let (total, text, truncatedByLines) :=
    takeLines (decodeProcBytes file (content.take maxProcBytes)) maxLines
  ⟨total, returnedLines text, truncatedByLines || decide (maxProcBytes < content.length), text⟩

theorem readProcHead_eq :
    (readProcHead (some content) file maxLines).read? = some (shellHead file content maxLines) := by
  have hcap : (content.take (maxProcBytes + 1)).length > maxProcBytes ↔
      maxProcBytes < content.length := by
    rw [List.length_take]
    omega
  have hraw : (content.take (maxProcBytes + 1)).take maxProcBytes = content.take maxProcBytes := by
    rw [List.take_take, Nat.min_eq_left (Nat.le_succ _)]
  simp only [readProcHead, hraw, hcap, shellHead]
  split <;> rfl

/-- The lines of the decoded file that are within the caps. -/
def decodedLines (file : ProcFile) (content : List UInt8) : List (List Char) :=
  Text.lines (decodeProcBytes file (content.take maxProcBytes))

theorem clean_iff (hmax : 0 < maxLines) : Clean file (readText content) maxLines ↔
    (decodedLines file content).take maxLines = bodyLines content maxLines ∧
      (decodedLines file content).length = (Text.lines (readText content)).length := by
  have hplain : (∀ l ∈ (Text.lines (readText content)).take maxLines, Text.trimEnd l = l) ↔
      (Text.lines (readText content)).take maxLines = bodyLines content maxLines ∧
        (Text.lines (readText content)).length = (Text.lines (readText content)).length := by
    refine ⟨fun h => ⟨?_, rfl⟩, fun ⟨h, _⟩ l hl => ?_⟩
    · exact ((List.map_congr_left h).trans (List.map_id _)).symm
    · unfold bodyLines at h
      have hid : ((Text.lines (readText content)).take maxLines).map Text.trimEnd =
          ((Text.lines (readText content)).take maxLines).map id := by
        rw [← h, List.map_id]
      exact List.map_inj_left.mp hid l hl
  cases file with
  | maps => exact hplain
  | cmdline => exact cleanCmdline_iff hmax
  | status => exact hplain

theorem length_decodedLines_le (file : ProcFile) (content : List UInt8) :
    (decodedLines file content).length ≤ (Text.lines (readText content)).length := by
  have hplain := Nat.le_refl (Text.lines (readText content)).length
  cases file with
  | maps => exact hplain
  | status => exact hplain
  | cmdline =>
      refine Nat.le_trans (Text.length_lines_trim _) ?_
      rw [show (fun c : Char => if c.toNat = 0 then ' ' else c) = blankNul from rfl,
        lines_map_blankNul, List.length_map]
      exact hplain

theorem length_readText_le (content : List UInt8) :
    (Text.lines (readText content)).length ≤ awkRecords content := by
  have hle := length_records_le (content.take maxProcBytes) (content.drop maxProcBytes)
  rw [List.take_append_drop] at hle
  rw [readText, ← awkRecords_eq]
  exact hle

/-- A file with one empty line within the byte cap is within it. -/
theorem short_of_empty_line (h : Text.lines (readText content) = [[]]) :
    content.length ≤ maxProcBytes := by
  have hle := Utf8.length_le_fromUtf8Lossy (content.take maxProcBytes)
  have htwo : (Utf8.fromUtf8Lossy (content.take maxProcBytes)).length ≤ 2 := by
    rcases Text.lines_eq_empty h with h | h <;> rw [readText] at h <;> rw [h] <;> decide
  rw [List.length_take] at hle
  have hcap : 8 < maxProcBytes := by decide
  omega

/-- A `cmdline` does not begin with an empty line, as the shell leg has it. -/
theorem decodedLines_cmdline (content : List UInt8) : (decodedLines .cmdline content).head? ≠ some [] := fun h =>
  Text.head_lines_trim h rfl

/-- An empty line that is the only one. -/
theorem readText_of_decoded (h : decodedLines file content = [[]]) :
    Text.lines (readText content) = [[]] := by
  cases file with
  | maps => exact h
  | status => exact h
  | cmdline => exact absurd (by rw [h]; rfl) (decodedLines_cmdline content)

/-! ### The body of the `su` leg -/

theorem endLine_eq (s : List Char) : Text.endLine s = [] ∨ Text.endLine s = [[]] := by
  unfold Text.endLine
  split
  · exact .inr rfl
  · exact .inl rfl

theorem bodyLines_no_newline : ∀ l ∈ bodyLines content maxLines, '\n' ∉ l := by
  intro l hl hn
  obtain ⟨k, hk, rfl⟩ := List.mem_map.mp hl
  exact Text.lines_no_newline _ k (List.mem_of_mem_take hk) ((Text.trimEnd_isPrefix k).subset hn)

/-- Lines without the empty ones at the end. -/
def dropEmpty (ls : List (List Char)) : List (List Char) := ls.rdropWhile fun l => l = []

theorem suHead_text : (suHead content maxLines).text =
    Text.join '\n' (dropEmpty (bodyLines content maxLines)) := by
  have hbody : (suHead content maxLines).text = Text.trimEndMatches '\n' (Text.join '\n'
      (bodyLines content maxLines ++ Text.endLine (shownText content maxLines))) := rfl
  have hno : ∀ l ∈ bodyLines content maxLines ++ Text.endLine (shownText content maxLines),
      '\n' ∉ l := by
    intro l hl
    rcases List.mem_append.mp hl with hl | hl
    · exact bodyLines_no_newline l hl
    · rcases endLine_eq (shownText content maxLines) with h | h
      · rw [h] at hl
        cases hl
      · rw [h, List.mem_singleton] at hl
        rw [hl]
        exact List.not_mem_nil
  rw [hbody, Text.trimEndMatches_join hno, dropEmpty]
  rcases endLine_eq (shownText content maxLines) with h | h
  · rw [h, List.append_nil]
  · rw [h, List.rdropWhile_concat_pos _ _ _ (by simp)]

theorem dropEmpty_eq_self {ls : List (List Char)} :
    dropEmpty ls = ls ↔ ls.getLast? ≠ some [] := by
  rw [dropEmpty, List.rdropWhile_eq_self_iff]
  constructor
  · intro h hlast
    have hne : ls ≠ [] := by
      rintro rfl
      cases hlast
    rw [List.getLast?_eq_some_getLast hne, Option.some.injEq] at hlast
    exact h hne (decide_eq_true hlast)
  · intro h hne hempty
    rw [decide_eq_true_eq] at hempty
    exact h (by rw [List.getLast?_eq_some_getLast hne, hempty])

/-- The body is said to be cut short only where it is empty and was not. -/
theorem bodyTruncated_iff : (bodyOf (awkRecords content) (bodyLines content maxLines ++
      Text.endLine (shownText content maxLines))).bodyTruncated = true ↔
    (suHead content maxLines).text = [] ∧ Text.join '\n' (bodyLines content maxLines ++
      Text.endLine (shownText content maxLines)) ≠ [] := by
  have hbody : (suHead content maxLines).text = Text.trimEndMatches '\n' (Text.join '\n'
      (bodyLines content maxLines ++ Text.endLine (shownText content maxLines))) := rfl
  rw [hbody, bodyOf, Bool.and_eq_true, decide_eq_true_eq, decide_eq_true_eq]
  refine and_congr_right fun h => ?_
  rw [h, List.length_nil, ne_eq, List.length_eq_zero_iff]

theorem suHead_truncated : (suHead content maxLines).truncated = true ↔
    maxLines < awkRecords content ∨ (suHead content maxLines).text = [] ∧
      Text.join '\n' (bodyLines content maxLines ++ Text.endLine (shownText content maxLines)) ≠ [] := by
  rw [← bodyTruncated_iff, ← decide_eq_true_iff (p := maxLines < awkRecords content),
    ← Bool.or_eq_true]
  rfl

theorem shellHead_truncated : (shellHead file content maxLines).truncated = true ↔
    maxLines < (decodedLines file content).length ∨ maxProcBytes < content.length := by
  have h : (shellHead file content maxLines).truncated =
      (decide ((decodedLines file content).length >
        ((decodedLines file content).take maxLines).length) ||
          decide (maxProcBytes < content.length)) := rfl
  rw [h, Bool.or_eq_true, decide_eq_true_eq, decide_eq_true_eq, List.length_take]
  omega

theorem shellHead_text : (shellHead file content maxLines).text =
    Text.join '\n' ((decodedLines file content).take maxLines) := rfl

/-- A body without an empty line at its end is not said to be cut short. -/
theorem body_whole (h : (bodyLines content maxLines).getLast? ≠ some []) :
    ¬ ((suHead content maxLines).text = [] ∧ Text.join '\n'
      (bodyLines content maxLines ++ Text.endLine (shownText content maxLines)) ≠ []) := by
  rintro ⟨htext, hraw⟩
  rw [suHead_text, dropEmpty_eq_self.mpr h] at htext
  rcases Text.join_eq_nil htext with hnil | hempty
  · rw [hnil, List.nil_append] at hraw
    rcases endLine_eq (shownText content maxLines) with hend | hend <;> rw [hend] at hraw <;>
      exact hraw rfl
  · exact h (by rw [hempty]; rfl)

/-- A body of one empty line is said to be cut short. -/
theorem body_empty (hmax : 0 < maxLines) (h : Text.lines (readText content) = [[]]) :
    (suHead content maxLines).text = [] ∧ Text.join '\n'
      (bodyLines content maxLines ++ Text.endLine (shownText content maxLines)) ≠ [] := by
  obtain ⟨max, rfl⟩ := Nat.exists_eq_succ_of_ne_zero (Nat.ne_of_gt hmax)
  have hbody : bodyLines content (max + 1) = [[]] := by
    rw [bodyLines, h, List.take_succ_cons, List.take_nil]
    rfl
  have hshown : Text.lines (shownText content (max + 1)) = [[]] := by
    rw [shownText, lines_sedHead, headBytes]
    exact (congrArg (List.take (max + 1)) h).trans (by rw [List.take_succ_cons, List.take_nil])
  have hend : Text.endLine (shownText content (max + 1)) = [[]] := by
    rcases Text.lines_eq_empty hshown with h | h <;> rw [h] <;> rfl
  rw [suHead_text, hbody, hend]
  exact ⟨rfl, List.cons_ne_nil _ _⟩

/-! ### Where the legs agree -/

/-- The two legs show the same lines of a file. -/
structure Shown (file : ProcFile) (content : List UInt8) (maxLines : Nat) : Prop where
  same : (decodedLines file content).take maxLines = bodyLines content maxLines
  counted : (decodedLines file content).length = awkRecords content
  lastLine : (bodyLines content maxLines).getLast? = some [] →
    bodyLines content maxLines = [[]] ∧ maxLines < awkRecords content
  capped : maxProcBytes < content.length → maxLines < awkRecords content ∧
    bodyLines content maxLines ≠ Text.lines (decodeProcBytes file content)

/-- The line shown of a clean text that is all blank is empty. -/
theorem Clean.eq_nil_of_blank {text : List Char} (h : Clean file text maxLines) :
    ∀ l ∈ (Text.lines text).take maxLines, Text.trimEnd l = [] → l = [] := by
  intro l hl hblank
  cases file with
  | maps => exact (h l hl).symm.trans hblank
  | status => exact (h l hl).symm.trans hblank
  | cmdline =>
      obtain ⟨-, hnul, hends, hlast⟩ := h
      rcases List.eq_nil_or_concat (Text.lines text) with hR | ⟨xs, last, hR⟩
      · rw [hR, List.take_nil] at hl
        cases hl
      · rw [List.concat_eq_append] at hR
        rw [hR, List.dropLast_concat] at hends
        rw [hR] at hlast hnul hl
        have hkeep : l ∈ xs.take maxLines ∨ l = last := by
          rw [List.take_append] at hl
          exact (List.mem_append.mp hl).imp_right fun hl =>
            List.mem_singleton.mp (List.mem_of_mem_take hl)
        rcases hkeep with hl' | rfl
        · exact (hends l hl').symm.trans hblank
        · have hshown := exists_shown.mp (hlast l List.getLast?_concat)
          rw [map_blankNul (hnul l hl)] at hshown
          exact absurd hblank hshown

/-- Where lines are left out, the lines of a clean text are shown as they are. -/
theorem Clean.bodyLines_eq (h : Clean file (readText content) maxLines)
    (hlt : maxLines < (Text.lines (readText content)).length) :
    bodyLines content maxLines = (Text.lines (readText content)).take maxLines := by
  have hends : ∀ l ∈ (Text.lines (readText content)).take maxLines, Text.trimEnd l = l := by
    cases file with
    | maps => exact h
    | status => exact h
    | cmdline =>
        intro l hl
        refine h.ends l ?_
        rw [List.dropLast_eq_take, List.take_take, Nat.min_eq_left (by omega)]
        exact hl
  exact (List.map_congr_left hends).trans (List.map_id _)

theorem alike_iff_shown (hmax : 0 < maxLines) :
    Alike file content maxLines ↔ Shown file content maxLines := by
  have hle := length_readText_le content
  constructor
  · rintro ⟨hclean, hlast, hcounted, hcapped⟩
    obtain ⟨hsame, hlen⟩ := (clean_iff hmax).mp hclean
    refine ⟨hsame, hlen.trans hcounted, fun h => ?_, fun h => ?_⟩
    · rw [bodyLines, List.getLast?_map, Option.map_eq_some_iff] at h
      obtain ⟨l, hl, hblank⟩ := h
      have hnil := hclean.eq_nil_of_blank l (List.mem_of_getLast? hl) hblank
      obtain ⟨hone, hlt⟩ := hlast (hnil ▸ hl)
      exact ⟨by rw [bodyLines, hone]; rfl, hlt⟩
    · obtain ⟨hlt, hne⟩ := hcapped h
      exact ⟨hlt, by rwa [hclean.bodyLines_eq (hcounted ▸ hlt)]⟩
  · rintro ⟨hsame, hcounted, hlast, hcapped⟩
    have hle' := length_decodedLines_le file content
    have hR : (Text.lines (readText content)).length = awkRecords content := by omega
    have hclean : Clean file (readText content) maxLines :=
      (clean_iff hmax).mpr ⟨hsame, hcounted.trans hR.symm⟩
    refine ⟨hclean, fun h => ?_, hR, fun h => ?_⟩
    · have hmap : (bodyLines content maxLines).getLast? = some [] := by
        rw [bodyLines, List.getLast?_map, h]
        rfl
      obtain ⟨hone, hlt⟩ := hlast hmap
      rw [hclean.bodyLines_eq (hR ▸ hlt)] at hone
      exact ⟨hone, hlt⟩
    · obtain ⟨hlt, hne⟩ := hcapped h
      rw [hclean.bodyLines_eq (hR ▸ hlt)] at hne
      exact ⟨hlt, hne⟩

theorem decodedLines_no_newline : ∀ l ∈ (decodedLines file content).take maxLines, '\n' ∉ l :=
  fun l hl => Text.lines_no_newline _ l (List.mem_of_mem_take hl)

/-- The lines of equal texts of the two legs. -/
theorem same_of_text
    (htext : (shellHead file content maxLines).text = (suHead content maxLines).text)
    (hlen : (decodedLines file content).length = awkRecords content) :
    (decodedLines file content).take maxLines = bodyLines content maxLines ∧
      ((bodyLines content maxLines).getLast? = some [] → bodyLines content maxLines = [[]]) := by
  have hle := length_readText_le content
  have hle' := length_decodedLines_le file content
  have hbody : (bodyLines content maxLines).length =
      min maxLines (Text.lines (readText content)).length := by
    rw [bodyLines, List.length_map, List.length_take]
  have htake : ((decodedLines file content).take maxLines).length =
      (bodyLines content maxLines).length := by
    rw [List.length_take, hbody]
    omega
  have hbegins : dropEmpty (bodyLines content maxLines) <+: bodyLines content maxLines :=
    List.rdropWhile_prefix _ _
  rw [shellHead_text, suHead_text] at htext
  rcases Text.join_inj decodedLines_no_newline
      (fun l hl => bodyLines_no_newline l (hbegins.subset hl)) htext with h | ⟨-, h⟩ | ⟨h, hnil⟩
  · have hself : dropEmpty (bodyLines content maxLines) = bodyLines content maxLines :=
      hbegins.eq_of_length (by rw [← h, htake])
    exact ⟨h.trans hself, fun hlast => absurd hlast (dropEmpty_eq_self.mp hself)⟩
  · -- what is left ends with no empty line
    have hne : dropEmpty (bodyLines content maxLines) ≠ [] := by
      rw [h]
      exact List.cons_ne_nil _ _
    have hlast := List.rdropWhile_last_not (fun l : List Char => decide (l = [])) _ hne
    refine absurd ?_ hlast
    have hget : ∀ hne, (dropEmpty (bodyLines content maxLines)).getLast hne = [] := by
      rw [h]
      exact fun _ => rfl
    exact decide_eq_true (hget hne)
  · rw [h] at htake ⊢
    obtain ⟨l, hl⟩ := List.length_eq_one_iff.mp htake.symm
    have hempty := List.rdropWhile_eq_nil_iff.mp hnil l (by rw [hl]; exact List.mem_singleton.mpr rfl)
    rw [decide_eq_true_eq] at hempty
    rw [hl, hempty]
    exact ⟨rfl, fun _ => rfl⟩

/-- The joined lines shown are those of the whole file only where no line is missing. -/
theorem join_ne_whole (hmax : 0 < maxLines) (hlt : maxLines < (decodedLines file content).length)
    (hne : (decodedLines file content).take maxLines ≠ Text.lines (decodeProcBytes file content)) :
    Text.join '\n' ((decodedLines file content).take maxLines) ≠
      Text.join '\n' (Text.lines (decodeProcBytes file content)) := by
  intro heq
  have hlen : ((decodedLines file content).take maxLines).length = maxLines := by
    rw [List.length_take]
    omega
  rcases Text.join_inj decodedLines_no_newline (Text.lines_no_newline _) heq with h | ⟨h, -⟩ | ⟨h, hw⟩
  · exact hne h
  · rw [h] at hlen
    exact Nat.ne_of_lt hmax hlen
  · -- one empty line is shown of a file that decodes to nothing
    cases file with
    | cmdline =>
        refine decodedLines_cmdline content ?_
        have hhead := congrArg List.head? h
        rwa [List.head?_take, if_neg (Nat.ne_of_gt hmax)] at hhead
    | maps | status =>
        have hnil : Utf8.fromUtf8Lossy content = [] := Text.lines_eq_nil.mp hw
        have hle := Utf8.length_le_fromUtf8Lossy content
        rw [hnil] at hle
        have hcontent : content = [] := List.length_eq_zero_iff.mp (Nat.le_zero.mp hle)
        rw [hcontent] at hlt
        exact absurd hlt (by simp [decodedLines, decodeProcBytes, Utf8.fromUtf8Lossy, Utf8.lossyFrom,
          Text.lines, Text.linesFrom])

theorem noNul_shellHead : NoNul (shellHead .cmdline content maxLines).text := by
  rw [shellHead_text]
  intro c hc
  rcases Text.mem_join hc with rfl | ⟨l, hl, hc⟩
  · decide
  · have hdecoded := Text.subset_of_mem_lines _ (List.mem_of_mem_take hl) hc
    have hmap := (List.dropWhile_suffix _).subset ((Text.trimEnd_isPrefix _).subset hdecoded)
    exact noNul_map _ c hmap

theorem agreed_iff_shown (hmax : 0 < maxLines) :
    Agreed file content (shellHead file content maxLines) (suHead content maxLines) ↔
      Shown file content maxLines := by
  constructor
  · rintro ⟨htext, htotal, htrunc, hwhole, -⟩
    have hcounted : (decodedLines file content).length = awkRecords content := htotal
    obtain ⟨hsame, hone⟩ := same_of_text htext hcounted
    have hflag : (maxLines < (decodedLines file content).length ∨ maxProcBytes < content.length) ↔
        (suHead content maxLines).truncated = true := by
      rw [← shellHead_truncated, htrunc]
    rw [suHead_truncated] at hflag
    have hlast : (bodyLines content maxLines).getLast? = some [] → maxLines < awkRecords content := by
      intro h
      by_contra hge
      -- one empty line is all there is: only the `su` leg takes it for missing text
      have hall : (decodedLines file content).take maxLines = decodedLines file content :=
        List.take_of_length_le (by omega)
      have hdecoded : decodedLines file content = [[]] := by
        rw [← hall, hsame, hone h]
      have hread := readText_of_decoded hdecoded
      rcases hflag.mpr (.inr (body_empty hmax hread)) with h | h
      · omega
      · exact absurd (short_of_empty_line hread) (Nat.not_le.mpr h)
    refine ⟨hsame, hcounted, fun h => ⟨hone h, hlast h⟩, fun hcap => ?_⟩
    have hlt : maxLines < awkRecords content := by
      by_cases h : (bodyLines content maxLines).getLast? = some []
      · exact hlast h
      · exact (hflag.mp (.inr hcap)).resolve_right (body_whole h)
    refine ⟨hlt, fun heq => ?_⟩
    refine hwhole.mp (shellHead_truncated.mpr (.inr hcap)) ?_
    rw [shellHead_text, hsame, heq]
  · rintro ⟨hsame, hcounted, hlast, hcapped⟩
    have htext : (shellHead file content maxLines).text = (suHead content maxLines).text := by
      rw [shellHead_text, suHead_text, hsame]
      by_cases h : (bodyLines content maxLines).getLast? = some []
      · rw [(hlast h).1]
        rfl
      · rw [dropEmpty_eq_self.mpr h]
    have hsu : (suHead content maxLines).truncated = true ↔ maxLines < awkRecords content := by
      rw [suHead_truncated, or_iff_left_iff_imp]
      intro hbody
      by_contra hge
      exact body_whole (fun h => hge (hlast h).2) hbody
    have hshell : (shellHead file content maxLines).truncated = true ↔
        maxLines < awkRecords content := by
      rw [shellHead_truncated, hcounted, or_iff_left_iff_imp]
      exact fun hcap => (hcapped hcap).1
    refine ⟨htext, hcounted, Bool.eq_iff_iff.mpr (hshell.trans hsu.symm), ?_, ?_⟩
    · rw [hshell, shellHead_text]
      constructor
      · intro hlt
        refine join_ne_whole hmax (hcounted ▸ hlt) fun heq => ?_
        by_cases hcap : maxProcBytes < content.length
        · exact (hcapped hcap).2 (hsame.symm.trans heq)
        · have hwhole : decodedLines file content = Text.lines (decodeProcBytes file content) := by
            rw [decodedLines, List.take_of_length_le (Nat.not_lt.mp hcap)]
          have hlen := congrArg List.length (heq.trans hwhole.symm)
          rw [List.length_take] at hlen
          omega
      · intro hne
        by_contra hge
        have hcap : ¬ maxProcBytes < content.length := fun hcap => hge (hcapped hcap).1
        refine hne ?_
        rw [List.take_of_length_le (by omega), decodedLines,
          List.take_of_length_le (Nat.not_lt.mp hcap)]
    · rintro rfl
      exact ⟨noNul_shellHead, htext ▸ noNul_shellHead⟩

/-- **The two legs of `proc_read` agree exactly on these files.** -/
theorem legs_agree (file : ProcFile) (content stderr : List UInt8) (maxLines : Option Nat) :
    Agree file content (clampLines maxLines) stderr ↔
      2 ^ 63 ≤ awkRecords content ∨ Alike file content (clampLines maxLines) := by
  have hmax : 0 < clampLines maxLines := by
    have : 1 ≤ maxProcLines := by decide
    unfold clampLines
    omega
  constructor
  · intro h
    by_cases hlt : awkRecords content < 2 ^ 63
    · have hagreed := h _ _ readProcHead_eq (suRead_eq.1 hlt)
      exact .inr ((alike_iff_shown hmax).mpr ((agreed_iff_shown hmax).mp hagreed))
    · exact .inl (Nat.not_lt.mp hlt)
  · intro h shell su hshell hsu
    by_cases hlt : awkRecords content < 2 ^ 63
    · have halike := h.resolve_left (Nat.not_le.mpr hlt)
      rw [readProcHead_eq, Option.some.injEq] at hshell
      rw [suRead_eq.1 hlt, Except.ok.injEq] at hsu
      rw [← hshell, ← hsu]
      exact (agreed_iff_shown hmax).mpr ((alike_iff_shown hmax).mp halike)
    · obtain ⟨e, he⟩ := suRead_eq.2 (Nat.not_lt.mp hlt)
      exact absurd (hsu.symm.trans he) (fun h => by cases h)

/-- A NUL of `cmdline` is a space on the shell leg only. -/
theorem nul_disagrees : ¬ Agree .cmdline [97, 0, 98] (clampLines none) [] := by
  intro h
  have hlt : awkRecords [97, 0, 98] < 2 ^ 63 := by decide
  have htext := (h _ _ readProcHead_eq (suRead_eq.1 hlt)).text
  revert htext
  decide

end RevBox.ProcRead
