import RevBox.Support.Shell

/-!
# Support — ShellWords

Text pasted into a command without quotes, as an argument: where the shell reads it as one literal
word.  In an argument braces and the sign of an assignment stand for themselves, and so does a
tilde that is not first.

* `lex_pasted`: literal text becomes the word it stands in, whatever stands around it.
* `literal_of_argument`: text that is read as it stands is literal.
-/

namespace Shell

/-- A character of a pattern. -/
def isPattern (c : Char) : Bool := c = '*' || c = '?' || c = '['

/-- A character that means something to the shell wherever it stands in a word. -/
def isSpecial (c : Char) : Bool :=
  c = '\\' || c = '\'' || c = '"' || c = '$' || c.toNat = 0x60 || beginsOp c || isBlank c || isPattern c

/-- The text stands for itself as an argument. -/
def isLiteral (s : List Char) : Bool :=
  s ≠ [] && s.all (fun c => !isSpecial c) && s.head? ≠ some '#' && s.head? ≠ some '~'

/-- An argument that is not quoted would be expanded. -/
def expands (text : List Char) : Bool :=
  text.any isPattern || text.head? = some '~'

/-- The word as an argument. -/
def Token.asArgument : Token → Token
  | .word w => .word { w with active := w.active && expands w.text }
  | t => t

/-- The items of a text whose commands begin with no assignment. -/
def argumentItems (s : List Char) : Option (List Item) :=
  (lex s).bind fun tokens =>
    ((tokens.map Token.asArgument).foldlM Reader.step .start).bind Reader.finish

/-! ### Literal text -/

section Literal

variable {tokens : List Token}

theorem plainStep_of_not_special {c : Char} (h : isSpecial c = false) {l : Lexer}
    (hhash : c = '#' → l.word ≠ none) :
    l.plainStep c = some { l with word := some (l.current.add c) } := by
  simp only [isSpecial, Bool.or_eq_false_iff, decide_eq_false_iff_not] at h
  obtain ⟨⟨⟨⟨⟨⟨⟨hback, hquote⟩, hdouble⟩, hdollar⟩, hgrave⟩, hop⟩, hblank⟩, -⟩ := h
  have hcomment : ¬ (c = '#' ∧ l.word = none) := fun hc => hhash hc.1 hc.2
  simp only [Lexer.plainStep, hback, hquote, hdouble, hdollar, hgrave, hop, hblank, hcomment,
    if_false, or_self, Bool.false_eq_true]

/-- Characters that mean nothing join the word that is begun. -/
theorem run_ordinary : ∀ {s : List Char} {w : Word}, (∀ c ∈ s, isSpecial c = false) →
    Lexer.run ⟨.plain, some w, tokens⟩ s =
      some ⟨.plain, some ⟨w.text ++ s, w.bare, w.active || s.any isActive⟩, tokens⟩
  | [], w, _ => by simp [run_nil]
  | c :: s, w, h => by
      rw [List.forall_mem_cons] at h
      have hstep : Lexer.step ⟨.plain, some w, tokens⟩ c = some ⟨.plain, some (w.add c), tokens⟩ :=
        plainStep_of_not_special h.1 fun _ hw => Option.some_ne_none w hw
      rw [run_cons hstep, run_ordinary h.2]
      simp [Word.add, Bool.or_assoc]

/-- They begin a word, unless a comment begins. -/
theorem run_ordinary_start {c : Char} {s : List Char} (h : ∀ d ∈ c :: s, isSpecial d = false)
    (hhash : c ≠ '#') :
    Lexer.run ⟨.plain, none, tokens⟩ (c :: s) =
      some ⟨.plain, some ⟨c :: s, true, (c :: s).any isActive⟩, tokens⟩ := by
  rw [List.forall_mem_cons] at h
  have hstep : Lexer.step ⟨.plain, none, tokens⟩ c =
      some ⟨.plain, some (Word.empty.add c), tokens⟩ :=
    plainStep_of_not_special h.1 fun hc => absurd hc hhash
  rw [run_cons hstep, run_ordinary h.2]
  simp [Word.add, Word.empty]

theorem literal_iff {s : List Char} : isLiteral s = true ↔
    s ≠ [] ∧ (∀ c ∈ s, isSpecial c = false) ∧ s.head? ≠ some '#' ∧ s.head? ≠ some '~' := by
  simp [isLiteral, and_assoc]

/-- Literal text behind a word begun, or where one may begin. -/
theorem run_literal {s : List Char} (h : isLiteral s = true) (word : Option Word) :
    Lexer.run ⟨.plain, word, tokens⟩ s =
      some ⟨.plain, some ⟨(word.getD .empty).text ++ s, (word.getD .empty).bare,
        (word.getD .empty).active || s.any isActive⟩, tokens⟩ := by
  obtain ⟨hne, hall, hhash, -⟩ := literal_iff.mp h
  cases word with
  | some w => exact run_ordinary hall
  | none =>
      cases s with
      | nil => exact absurd rfl hne
      | cons c s =>
          rw [run_ordinary_start hall fun hc => hhash (by rw [hc]; rfl)]
          rfl

/-- **Literal text becomes the word it stands in**, whatever stands around it. -/
theorem lex_pasted {head s tail : List Char} {word : Option Word} {before behind : List Token}
    (hhead : Lexer.start.run head = some ⟨.plain, word, before⟩) (hs : isLiteral s = true)
    (htail : lex tail = some behind) (hcut : ∀ c ∈ tail.head?, cuts c = true) :
    lex (head ++ (s ++ tail)) = some (before ++ .word ⟨(word.getD .empty).text ++ s,
      (word.getD .empty).bare, (word.getD .empty).active || s.any isActive⟩ :: behind) := by
  rw [lex, run_append_of hhead, run_append_of (run_literal hs word)]
  cases tail with
  | nil =>
      obtain rfl : behind = [] := by
        rw [lex, run_nil] at htail
        exact (Option.some.inj htail).symm
      rfl
  | cons c tail =>
      obtain ⟨m, hm, hfinish⟩ := Option.bind_eq_some_iff.mp htail
      rw [Lexer.Reads.run_cut ⟨rfl, rfl⟩ (hcut c rfl) hm, Option.bind_some, finish_after, hfinish]
      simp [Lexer.cut]

theorem any_pattern {s : List Char} (h : isLiteral s = true) : s.any isPattern = false := by
  rw [List.any_eq_false]
  intro c hc
  have hspecial := (literal_iff.mp h).2.1 c hc
  simp only [isSpecial, Bool.or_eq_false_iff] at hspecial
  simp [hspecial.2]

/-- An argument of literal text is not expanded. -/
theorem asArgument_literal {s : List Char} (h : isLiteral s = true) (bare active : Bool) :
    Token.asArgument (.word ⟨s, bare, active⟩) = .word ⟨s, bare, false⟩ := by
  have hexpands : expands s = false := by
    rw [expands, any_pattern h, Bool.false_or, decide_eq_false_iff_not]
    exact (literal_iff.mp h).2.2.2
  rw [Token.asArgument, hexpands, Bool.and_false]

/-- Nor is one with text before it that would not be. -/
theorem asArgument_behind {p s : List Char} (hp : expands p = false) (hne : p ≠ [])
    (h : isLiteral s = true) (bare active : Bool) :
    Token.asArgument (.word ⟨p ++ s, bare, active⟩) = .word ⟨p ++ s, bare, false⟩ := by
  have hhead : (p ++ s).head? = p.head? := by
    cases p with
    | nil => exact absurd rfl hne
    | cons c p => rfl
  have hexpands : expands (p ++ s) = false := by
    rw [expands, List.any_append, any_pattern h, Bool.or_false, hhead]
    exact hp
  rw [Token.asArgument, hexpands, Bool.and_false]

/-- **Literal text pasted into a command** is the argument it stands in, or the end of it. -/
theorem argumentItems_pasted {head s tail : List Char} {word : Option Word}
    {before behind : List Token} {cs : List Chunk} {last : Chunk}
    (hhead : Lexer.start.run head = some ⟨.plain, word, before⟩) (hs : isLiteral s = true)
    (htail : lex tail = some behind) (hcut : tail.head?.all cuts = true)
    (hword : expands (word.getD .empty).text = false)
    (htokens : before.map Token.asArgument ++
      .word ⟨(word.getD .empty).text ++ s, (word.getD .empty).bare, false⟩ ::
        behind.map Token.asArgument = cs.flatMap Chunk.tokens ++ last.tokens)
    (hcs : ∀ c ∈ cs, c.isProper = true ∧ c.op.isSome = true) (hlast : last.isProper = true)
    (hop : last.op = none) :
    argumentItems (head ++ (s ++ tail)) = some (cs.flatMap Chunk.items ++ last.items) := by
  have hjoined : ∀ bare active, Token.asArgument (.word ⟨(word.getD .empty).text ++ s, bare,
      active⟩) = .word ⟨(word.getD .empty).text ++ s, bare, false⟩ := by
    intro bare active
    by_cases hnil : (word.getD .empty).text = []
    · rw [hnil]
      exact asArgument_literal hs bare active
    · exact asArgument_behind hword hnil hs bare active
  rw [argumentItems, lex_pasted hhead hs htail (Option.all_eq_true _ _ |>.mp hcut), Option.bind_some, List.map_append,
    List.map_cons, hjoined, htokens]
  exact read_all hcs hlast hop

end Literal

/-! ### How much of a text its words can hold -/

/-- The characters of a token that stands for text. -/
def Token.size : Token → Nat
  | .word w => w.text.length
  | .number digits => digits.length
  | .op _ => 0

/-- A backslash between double quotes may still count. -/
def Mode.pending : Mode → Nat
  | .doubleEscaped => 1
  | _ => 0

/-- The characters of the word begun. -/
def openSize : Option Word → Nat
  | none => 0
  | some w => w.text.length

/-- The characters of all the words so far. -/
def Lexer.size (l : Lexer) : Nat :=
  (l.tokens.map Token.size).sum + openSize l.word + l.mode.pending

theorem size_cut (mode : Mode) (w : Option Word) (tokens : List Token) :
    (Lexer.cut ⟨mode, w, tokens⟩).size = Lexer.size ⟨mode, w, tokens⟩ := by
  cases w <;> simp [Lexer.cut, Lexer.size, Token.size, openSize]

theorem size_cutBefore (mode : Mode) (w : Option Word) (tokens : List Token) (c : Char) :
    (Lexer.cutBefore ⟨mode, w, tokens⟩ c).size = Lexer.size ⟨mode, w, tokens⟩ := by
  cases w with
  | none => rfl
  | some w =>
      simp only [Lexer.cutBefore]
      split
      · simp [Lexer.size, Token.size, openSize]
      · exact size_cut mode (some w) tokens

theorem openSize_current (w : Option Word) (tokens : List Token) (mode : Mode) :
    (Lexer.current ⟨mode, w, tokens⟩).text.length = openSize w := by
  cases w <;> rfl

/-- The size depends on what is read, not on the mode. -/
theorem size_mode (l : Lexer) (mode : Mode) :
    Lexer.size { l with mode := mode } + l.mode.pending = l.size + mode.pending := by
  simp only [Lexer.size]
  omega

/-- A character outside quotes that means something there adds nothing; another adds itself. -/
theorem size_plainStep {l l' : Lexer} {c : Char} (hl : l.mode = .plain)
    (h : l.plainStep c = some l') :
    l'.size ≤ l.size + 1 ∧
      (c = '\\' ∨ c = '\'' ∨ c = '"' ∨ beginsOp c = true ∨ isBlank c = true ∨
        (c = '#' ∧ l.word = none) → l'.size ≤ l.size) := by
  obtain ⟨mode, w, tokens⟩ := l
  obtain rfl : mode = .plain := hl
  have hquote : ∀ m : Mode, m.pending = 0 →
      Lexer.size ⟨m, some ((Lexer.current ⟨.plain, w, tokens⟩).quote []), tokens⟩ =
        Lexer.size ⟨.plain, w, tokens⟩ := fun m hm => by
    have hcurrent := openSize_current w tokens .plain
    have hplain : Mode.plain.pending = 0 := rfl
    simp [Lexer.size, openSize, Word.quote, hcurrent, hm, hplain]
  unfold Lexer.plainStep at h
  dsimp only at h
  split at h
  · cases h
    exact ⟨Nat.le_succ _, fun _ => Nat.le_refl _⟩
  · split at h
    · cases h
      have := hquote .single rfl
      exact ⟨by omega, fun _ => by omega⟩
    · split at h
      · cases h
        have := hquote .double rfl
        exact ⟨by omega, fun _ => by omega⟩
      · split at h
        · cases h
        · split at h
          · cases h
            have hmode := size_mode (Lexer.cutBefore ⟨.plain, w, tokens⟩ c) (.op [c])
            have hcut := size_cutBefore .plain w tokens c
            have hpending : (Lexer.cutBefore ⟨.plain, w, tokens⟩ c).mode.pending = 0 := by
              cases w with
              | none => rfl
              | some w => simp only [Lexer.cutBefore]; split <;> rfl
            simp only [Mode.pending] at hmode
            exact ⟨by omega, fun _ => by omega⟩
          · split at h
            · cases h
              have hcut := size_cut .plain w tokens
              exact ⟨by omega, fun _ => by omega⟩
            · split at h
              · cases h
                exact ⟨Nat.le_succ _, fun _ => Nat.le_refl _⟩
              · cases h
                have hcurrent := openSize_current w tokens .plain
                refine ⟨?_, fun hc => ?_⟩
                · simp [Lexer.size, openSize, Word.add, hcurrent, Mode.pending]
                  omega
                · simp_all

/-- **One character adds at most one.** -/
theorem size_step {l l' : Lexer} {c : Char} (h : l.step c = some l') : l'.size ≤ l.size + 1 := by
  obtain ⟨mode, w, tokens⟩ := l
  have hcurrent := openSize_current w tokens mode
  -- a character that joins the word, read in `mode` and left in `m`
  have hadd : ∀ (m : Mode) (s : List Char), Lexer.size ⟨m, some (Word.quote
      (Lexer.current ⟨mode, w, tokens⟩) s), tokens⟩ + mode.pending =
        Lexer.size ⟨mode, w, tokens⟩ + s.length + m.pending := fun m s => by
    simp only [Lexer.size, openSize, Word.quote, List.length_append, hcurrent]
    omega
  cases mode with
  | plain => exact (size_plainStep rfl h).1
  | escaped =>
      simp only [Lexer.step] at h
      split at h
      · cases h
        exact Nat.le_succ _
      · cases h
        have := hadd .plain [c]
        simp only [Mode.pending, List.length_singleton] at this
        exact Nat.le_of_eq this
  | single =>
      simp only [Lexer.step] at h
      split at h
      · cases h
        exact Nat.le_succ _
      · cases h
        have := hadd .single [c]
        simp only [Mode.pending, List.length_singleton] at this
        exact Nat.le_of_eq this
  | double =>
      simp only [Lexer.step] at h
      split at h
      · cases h
        exact Nat.le_succ _
      · split at h
        · cases h
          exact Nat.le_of_eq (size_mode ⟨.double, w, tokens⟩ .doubleEscaped)
        · split at h
          · cases h
          · cases h
            have := hadd .double [c]
            simp only [Mode.pending, List.length_singleton] at this
            exact Nat.le_of_eq this
  | doubleEscaped =>
      simp only [Lexer.step] at h
      split at h
      · cases h
        have := size_mode ⟨.doubleEscaped, w, tokens⟩ .double
        simp only [Mode.pending] at this
        omega
      · split at h
        · cases h
          have := hadd .double [c]
          simp only [Mode.pending, List.length_singleton] at this
          exact Nat.le_trans (Nat.le_add_right _ 1) (Nat.le_of_eq this)
        · cases h
          have := hadd .double ['\\', c]
          simp only [Mode.pending, List.length_cons, List.length_nil] at this
          exact Nat.le_of_succ_le_succ (Nat.le_of_eq this)
  | comment =>
      simp only [Lexer.step] at h
      split at h <;> (cases h; exact Nat.le_succ _)
  | op text =>
      simp only [Lexer.step] at h
      split at h
      · cases h
        exact Nat.le_succ _
      · have := (size_plainStep rfl h).1
        simpa [Lexer.size, Token.size, Mode.pending] using this

theorem size_run : ∀ {s : List Char} {l l' : Lexer}, l.run s = some l' →
    l'.size ≤ l.size + s.length
  | [], l, l', h => by
      cases h
      exact Nat.le_refl _
  | c :: s, l, l', h => by
      rw [Lexer.run, List.foldlM_cons] at h
      obtain ⟨m, hstep, hrest⟩ := Option.bind_eq_some_iff.mp h
      have hfirst := size_step hstep
      have hlast := size_run hrest
      rw [List.length_cons]
      omega

theorem size_finish {l : Lexer} {ts : List Token} (h : l.finish = some ts) :
    (ts.map Token.size).sum ≤ l.size := by
  obtain ⟨mode, w, tokens⟩ := l
  cases mode with
  | plain | comment =>
      cases h
      cases w <;> simp [Lexer.cut, Lexer.size, Token.size, openSize, Mode.pending]
  | op text =>
      cases h
      simp [Lexer.size, Token.size]
      omega
  | escaped | single | double | doubleEscaped => cases h

/-! ### What the items hold -/

def Redirect.size (d : Redirect) : Nat := (d.number.getD []).length + d.target.length

def Item.size : Item → Nat
  | .command args redirects => (args.map List.length).sum + (redirects.map Redirect.size).sum
  | .control _ => 0
  | .reserved word => word.length

def Pending.size : Pending → Nat
  | .nothing => 0
  | .number digits => digits.length
  | .target n _ => (n.getD []).length

def Reader.size (r : Reader) : Nat :=
  (r.items.map Item.size).sum + (r.args.map List.length).sum +
    (r.redirects.map Redirect.size).sum + r.pending.size

theorem size_flush (r : Reader) : r.flush.size = r.size := by
  unfold Reader.flush
  split
  · rfl
  · simp [Reader.size, Item.size]
    omega

/-- A token is held where it is read. -/
theorem size_readerStep {r r' : Reader} {t : Token} (h : r.step t = some r') :
    r'.size = r.size + t.size := by
  cases t with
  | word w =>
      simp only [Reader.step] at h
      split at h
      · cases h
      · split at h
        · cases h
        · next number op hp =>
            cases h
            simp [Reader.size, Redirect.size, Pending.size, Token.size, hp]
            omega
        · next hp =>
            split at h
            · cases h
            · split at h
              · cases h
                simp [Reader.size, Item.size, Token.size]
                omega
              · cases h
                simp [Reader.size, Token.size]
                omega
  | number digits =>
      simp only [Reader.step] at h
      split at h
      · next hp =>
          cases h
          simp [Reader.size, Pending.size, Token.size, hp]
      · cases h
  | op op =>
      simp only [Reader.step] at h
      split at h
      · cases h
      · next digits hp =>
          split at h
          · cases h
            simp [Reader.size, Pending.size, Token.size, hp]
          · cases h
      · next hp =>
          split at h
          · cases h
            simp [Reader.size, Pending.size, Token.size, hp]
          · split at h
            · cases h
            · cases h
              have hflush := size_flush r
              simp [Reader.size, Item.size, Token.size] at hflush ⊢
              omega

theorem size_readerRun : ∀ {ts : List Token} {r r' : Reader}, ts.foldlM Reader.step r = some r' →
    r'.size = r.size + (ts.map Token.size).sum
  | [], r, r', h => by
      cases h
      simp
  | t :: ts, r, r', h => by
      rw [List.foldlM_cons] at h
      obtain ⟨m, hstep, hrest⟩ := Option.bind_eq_some_iff.mp h
      rw [size_readerRun hrest, size_readerStep hstep, List.map_cons, List.sum_cons, Nat.add_assoc]

theorem size_readerFinish {r : Reader} {its : List Item} (h : r.finish = some its) :
    (its.map Item.size).sum = r.size := by
  unfold Reader.finish at h
  split at h
  · next hp =>
      cases h
      have hflush := size_flush r
      rw [← hflush]
      simp only [Reader.flush]
      split
      · next hempty => simp [Reader.size, hempty, hp, Pending.size]
      · simp [Reader.size, hp, Pending.size]
  · cases h

/-! ### Words that are expanded -/

/-- The word is expanded, whatever joins it. -/
def Word.Stuck (w : Word) : Prop := w.active = true ∧ expands w.text = true

theorem expands_append {t : List Char} (h : expands t = true) (s : List Char) :
    expands (t ++ s) = true := by
  simp only [expands, Bool.or_eq_true, decide_eq_true_iff, List.any_append] at h ⊢
  rcases h with h | h
  · exact .inl (.inl h)
  · cases t with
    | nil => cases h
    | cons c t => exact .inr h

theorem Word.Stuck.add {w : Word} (h : w.Stuck) (c : Char) : (w.add c).Stuck :=
  ⟨by simp [Word.add, h.1], expands_append h.2 [c]⟩

theorem Word.Stuck.quote {w : Word} (h : w.Stuck) (s : List Char) : (w.quote s).Stuck :=
  ⟨h.1, expands_append h.2 s⟩

/-- A word that is expanded is no number. -/
theorem Word.Stuck.not_digits {w : Word} (h : w.Stuck) : w.text.all Char.isDigit = false := by
  have hexpands := h.2
  simp only [expands, Bool.or_eq_true, decide_eq_true_iff, List.any_eq_true] at hexpands
  rw [List.all_eq_false]
  rcases hexpands with ⟨c, hc, hpattern⟩ | hhead
  · refine ⟨c, hc, ?_⟩
    simp only [isPattern, Bool.or_eq_true, decide_eq_true_iff] at hpattern
    rcases hpattern with (rfl | rfl) | rfl <;> decide
  · exact ⟨'~', List.mem_of_mem_head? hhead, by decide⟩

/-- A word may be begun in this mode. -/
def Mode.IsOpen : Mode → Prop
  | .comment | .op _ => False
  | _ => True

/-- The lexer has met a word that is expanded. -/
def Lexer.Stuck (l : Lexer) : Prop :=
  (∃ w, l.word = some w ∧ w.Stuck ∧ l.mode.IsOpen) ∨ ∃ w, .word w ∈ l.tokens ∧ w.Stuck

/-- It stays so if the word only grows or becomes a token. -/
theorem Lexer.Stuck.of_grows {l l' : Lexer} (h : l.Stuck) (ht : ∀ t ∈ l.tokens, t ∈ l'.tokens)
    (hw : ∀ w, l.word = some w → w.Stuck → l.mode.IsOpen →
      (∃ w', l'.word = some w' ∧ w'.Stuck ∧ l'.mode.IsOpen) ∨ .word w ∈ l'.tokens) :
    l'.Stuck := by
  rcases h with ⟨w, hl, hs, hm⟩ | ⟨w, hmem, hs⟩
  · exact (hw w hl hs hm).imp id fun hmem => ⟨w, hmem, hs⟩
  · exact .inr ⟨w, ht _ hmem, hs⟩

section Steps

variable {mode : Mode} {word : Option Word} {tokens : List Token} {c : Char} {l l' : Lexer}

theorem stuck_mode (h : Lexer.Stuck ⟨mode, word, tokens⟩) {m : Mode} (hm : m.IsOpen) :
    Lexer.Stuck ⟨m, word, tokens⟩ :=
  h.of_grows (fun _ => id) fun w hw hs _ => .inl ⟨w, hw, hs, hm⟩

theorem stuck_cut (h : Lexer.Stuck ⟨mode, word, tokens⟩) (m : Mode) :
    Lexer.Stuck { Lexer.cut ⟨mode, word, tokens⟩ with mode := m } := by
  cases word with
  | none => exact h.of_grows (fun _ => id) fun w hw => by cases hw
  | some w =>
      refine h.of_grows (fun t ht => ?_) fun w' hw' _ _ => ?_
      · simp [Lexer.cut, ht]
      · cases hw'
        simp [Lexer.cut]

theorem stuck_cutBefore (h : Lexer.Stuck ⟨mode, word, tokens⟩) (c : Char) (m : Mode) :
    Lexer.Stuck { Lexer.cutBefore ⟨mode, word, tokens⟩ c with mode := m } := by
  cases word with
  | none => exact h.of_grows (fun _ => id) fun w hw => by cases hw
  | some w =>
      simp only [Lexer.cutBefore]
      split
      · next hdigits =>
          refine h.of_grows (fun t ht => by simp [ht]) fun w' hw' hs _ => ?_
          cases hw'
          rw [hs.not_digits] at hdigits
          exact absurd hdigits.2.2 (by simp)
      · exact stuck_cut h m

theorem stuck_quote (h : Lexer.Stuck ⟨mode, word, tokens⟩) (s : List Char) {m : Mode}
    (hm : m.IsOpen) : Lexer.Stuck ⟨m, some (Word.quote (word.getD .empty) s), tokens⟩ :=
  h.of_grows (fun _ => id) fun w hw hs _ => by
    cases hw
    exact .inl ⟨_, rfl, hs.quote s, hm⟩

theorem stuck_plainStep (hs : Lexer.Stuck ⟨.plain, word, tokens⟩)
    (h : Lexer.plainStep ⟨.plain, word, tokens⟩ c = some l') : l'.Stuck := by
  unfold Lexer.plainStep at h
  dsimp only at h
  split at h
  · cases h
    exact stuck_mode hs trivial
  · split at h
    · cases h
      exact stuck_quote hs [] trivial
    · split at h
      · cases h
        exact stuck_quote hs [] trivial
      · split at h
        · cases h
        · split at h
          · cases h
            exact stuck_cutBefore hs c (.op [c])
          · split at h
            · cases h
              exact stuck_cut hs (Lexer.cut ⟨.plain, word, tokens⟩).mode
            · split at h
              · next hcomment =>
                  cases h
                  refine hs.of_grows (fun _ => id) fun w hw => ?_
                  rw [hcomment.2] at hw
                  cases hw
              · cases h
                refine hs.of_grows (fun _ => id) fun w hw hstuck hm => ?_
                cases hw
                exact .inl ⟨_, rfl, hstuck.add c, hm⟩

theorem stuck_step (hs : l.Stuck) (h : l.step c = some l') : l'.Stuck := by
  obtain ⟨mode, word, tokens⟩ := l
  -- outside words nothing has been begun
  have hclosed : ∀ (m m' : Mode), ¬ m.IsOpen → Lexer.Stuck ⟨m, word, tokens⟩ →
      Lexer.Stuck ⟨m', word, tokens⟩ := fun m m' hm hs =>
    hs.of_grows (fun _ => id) fun w _ _ hopen => absurd hopen hm
  cases mode with
  | plain => exact stuck_plainStep hs h
  | escaped =>
      simp only [Lexer.step] at h
      split at h
      · cases h
        exact stuck_mode hs trivial
      · cases h
        exact stuck_quote hs [c] trivial
  | single =>
      simp only [Lexer.step] at h
      split at h
      · cases h
        exact stuck_mode hs trivial
      · cases h
        exact stuck_quote hs [c] trivial
  | double =>
      simp only [Lexer.step] at h
      split at h
      · cases h
        exact stuck_mode hs trivial
      · split at h
        · cases h
          exact stuck_mode hs trivial
        · split at h
          · cases h
          · cases h
            exact stuck_quote hs [c] trivial
  | doubleEscaped =>
      simp only [Lexer.step] at h
      split at h
      · cases h
        exact stuck_mode hs trivial
      · split at h
        · cases h
          exact stuck_quote hs [c] trivial
        · cases h
          exact stuck_quote hs ['\\', c] trivial
  | comment =>
      simp only [Lexer.step] at h
      split at h <;> (cases h; exact hclosed .comment _ id hs)
  | op text =>
      simp only [Lexer.step] at h
      split at h
      · cases h
        exact hclosed (.op text) _ id hs
      · refine stuck_plainStep (hs.of_grows (fun t ht => ?_) fun w _ _ hopen => ?_) h
        · simp [ht]
        · exact hopen.elim

end Steps

theorem stuck_run : ∀ {s : List Char} {l l' : Lexer}, l.Stuck → l.run s = some l' → l'.Stuck
  | [], l, l', hs, h => by
      cases h
      exact hs
  | c :: s, l, l', hs, h => by
      rw [Lexer.run, List.foldlM_cons] at h
      obtain ⟨m, hstep, hrest⟩ := Option.bind_eq_some_iff.mp h
      exact stuck_run (stuck_step hs hstep) hrest

theorem stuck_finish {l : Lexer} {ts : List Token} (hs : l.Stuck) (h : l.finish = some ts) :
    ∃ w, .word w ∈ ts ∧ w.Stuck := by
  obtain ⟨mode, word, tokens⟩ := l
  cases mode with
  | plain | comment =>
      cases h
      rcases stuck_cut hs .plain with ⟨w, hw, -⟩ | hmem
      · cases word <;> cases hw
      · exact hmem
  | op text =>
      cases h
      rcases hs with ⟨w, -, -, hopen⟩ | ⟨w, hmem, hstuck⟩
      · exact hopen.elim
      · exact ⟨w, List.mem_append_left _ hmem, hstuck⟩
  | escaped | single | double | doubleEscaped => cases h

/-- A word that is expanded has no items. -/
theorem read_stuck {ts : List Token} {w : Word} (hw : .word w ∈ ts) (hs : w.Stuck) :
    ∀ r : Reader, (ts.map Token.asArgument).foldlM Reader.step r = none := by
  induction ts with
  | nil => cases hw
  | cons t ts ih =>
      intro r
      rw [List.map_cons, List.foldlM_cons]
      rcases List.mem_cons.mp hw with rfl | hmem
      · have hactive : (w.active && expands w.text) = true := by rw [hs.1, hs.2]; rfl
        simp [Token.asArgument, Reader.step, hactive]
      · cases Reader.step r t.asArgument with
        | none => rfl
        | some r' => exact ih hmem r'

theorem size_asArgument (ts : List Token) :
    ((ts.map Token.asArgument).map Token.size).sum = (ts.map Token.size).sum := by
  rw [List.map_map]
  congr 1
  refine List.map_congr_left fun t _ => ?_
  cases t <;> rfl

/-! ### Text that is read as it stands -/

/-- The first character of a text that keeps it from being literal. -/
theorem exists_first {s : List Char} (hne : s ≠ []) (h : isLiteral s = false) :
    ∃ p c r, s = p ++ c :: r ∧ (∀ d ∈ p, isSpecial d = false) ∧ p.head? ≠ some '#' ∧
      (isSpecial c = true ∨ p = [] ∧ (c = '#' ∨ c = '~')) := by
  cases s with
  | nil => exact absurd rfl hne
  | cons c₀ s =>
      by_cases hc₀ : c₀ = '#' ∨ c₀ = '~'
      · exact ⟨[], c₀, s, rfl, nofun, nofun, .inr ⟨rfl, hc₀⟩⟩
      · obtain ⟨hhash, htilde⟩ := not_or.mp hc₀
        have hspecial : ¬ ∀ d ∈ c₀ :: s, isSpecial d = false := fun hall => by
          have hlit := literal_iff.mpr ⟨hne, hall, by simpa using hhash, by simpa using htilde⟩
          rw [h] at hlit
          cases hlit
        obtain ⟨p, c, r, hsplit, hp, hc⟩ : ∃ p c r, c₀ :: s = p ++ c :: r ∧
            (∀ d ∈ p, isSpecial d = false) ∧ isSpecial c = true := by
          generalize c₀ :: s = t at hspecial
          induction t with
          | nil => exact absurd nofun hspecial
          | cons d t ih =>
              by_cases hd : isSpecial d = true
              · exact ⟨[], d, t, rfl, nofun, hd⟩
              · obtain ⟨p, c, r, rfl, hp, hc⟩ := ih fun hall => hspecial fun e he => by
                  rcases List.mem_cons.mp he with rfl | he
                  · simpa using hd
                  · exact hall e he
                refine ⟨d :: p, c, r, rfl, fun e he => ?_, hc⟩
                rcases List.mem_cons.mp he with rfl | he
                · simpa using hd
                · exact hp e he
        refine ⟨p, c, r, hsplit, hp, fun hhead => ?_, .inl hc⟩
        cases p with
        | nil => cases hhead
        | cons d p =>
            obtain ⟨rfl, -⟩ := List.cons.inj hsplit
            exact hhash (Option.some.inj hhead)

/-- **Text that is read as it stands is literal.** -/
theorem literal_of_argument {head s : List Char} {before : List Token} {args : List (List Char)}
    (hhead : Lexer.start.run head = some ⟨.plain, none, before⟩)
    (hsize : (before.map Token.size).sum = (args.map List.length).sum) (hne : s ≠ [])
    (h : argumentItems (head ++ s) = some [.command (args ++ [s]) []]) : isLiteral s = true := by
  by_contra hlit
  obtain ⟨p, c, r, rfl, hp, hhash, hc⟩ := exists_first hne (by simpa using hlit)
  obtain ⟨ts, hlex, hread⟩ := Option.bind_eq_some_iff.mp h
  obtain ⟨reader, hreader, hfinish⟩ := Option.bind_eq_some_iff.mp hread
  -- up to the character nothing has been lost
  obtain ⟨w, hw, hopen, hnone⟩ : ∃ w, Lexer.run ⟨.plain, none, before⟩ p =
      some ⟨.plain, w, before⟩ ∧ openSize w = p.length ∧ (p = [] → w = none) ∧
        (w.getD .empty).text = p := by
    cases p with
    | nil => exact ⟨none, rfl, rfl, fun _ => rfl, rfl⟩
    | cons d p => exact ⟨_, run_ordinary_start hp fun hd => hhash (by rw [hd]; rfl), rfl, nofun, rfl⟩
  obtain ⟨hnone, htext⟩ := hnone
  rw [lex, run_append_of hhead, run_append_of hw] at hlex
  obtain ⟨l₃, hrun, hl₃⟩ := Option.bind_eq_some_iff.mp hlex
  rw [Lexer.run, List.foldlM_cons] at hrun
  obtain ⟨l₂, hstep, hrest⟩ := Option.bind_eq_some_iff.mp hrun
  have hstep : Lexer.plainStep ⟨.plain, w, before⟩ c = some l₂ := hstep
  have hstuck : ¬ l₂.Stuck := fun hs => by
    obtain ⟨word, hword, hword'⟩ := stuck_finish (stuck_run hs hrest) hl₃
    rw [read_stuck hword hword'] at hreader
    cases hreader
  have hlost : ¬ l₂.size ≤ Lexer.size ⟨.plain, w, before⟩ := fun hle => by
    have h₁ := size_readerFinish hfinish
    have h₂ := size_readerRun hreader
    have h₃ := size_finish hl₃
    have h₄ := size_run hrest
    rw [size_asArgument] at h₂
    simp [Item.size, Reader.size, Reader.start, Pending.size] at h₁ h₂
    have hplain : Lexer.size ⟨.plain, w, before⟩ = (before.map Token.size).sum + p.length := by
      simp [Lexer.size, hopen, Mode.pending]
    omega
  have hexpanded : (isPattern c = true ∨ p = [] ∧ c = '~') →
      l₂ = ⟨.plain, some ((w.getD .empty).add c), before⟩ → False := fun hc hl => by
    refine hstuck (.inl ⟨_, by rw [hl], ⟨?_, ?_⟩, by rw [hl]; trivial⟩)
    · rcases hc with hc | ⟨-, rfl⟩
      · simp only [isPattern, Bool.or_eq_true, decide_eq_true_iff] at hc
        rcases hc with (rfl | rfl) | rfl <;> simp [Word.add, isActive]
      · simp [Word.add, isActive]
    · have hadd : ((w.getD .empty).add c).text = p ++ [c] := by rw [Word.add, htext]
      rw [hadd, expands]
      rcases hc with hc | ⟨rfl, rfl⟩
      · simp [List.any_append, hc]
      · rfl
  have hquiet := (size_plainStep rfl hstep).2
  have hadds : (c = '*' ∨ c = '?' ∨ c = '[' ∨ c = '~') →
      Lexer.plainStep ⟨.plain, w, before⟩ c =
        some ⟨.plain, some ((w.getD .empty).add c), before⟩ := by
    rintro (rfl | rfl | rfl | rfl) <;> rfl
  rcases hc with hc | ⟨hp, hc⟩
  · simp only [isSpecial, isPattern, Bool.or_eq_true, decide_eq_true_iff] at hc
    rcases hc with ((((((h | h) | h) | h) | h) | h) | h) | (h | h) | h
    · exact hlost (hquiet (.inl h))
    · exact hlost (hquiet (.inr (.inl h)))
    · exact hlost (hquiet (.inr (.inr (.inl h))))
    · subst h
      cases hstep
    · obtain rfl : c = Char.ofNat 0x60 := by rw [← h, Char.ofNat_toNat]
      cases hstep
    · exact hlost (hquiet (.inr (.inr (.inr (.inl h)))))
    · exact hlost (hquiet (.inr (.inr (.inr (.inr (.inl h))))))
    · rw [hadds (.inl h)] at hstep
      exact hexpanded (.inl (by rw [h]; rfl)) (Option.some.inj hstep).symm
    · rw [hadds (.inr (.inl h))] at hstep
      exact hexpanded (.inl (by rw [h]; rfl)) (Option.some.inj hstep).symm
    · rw [hadds (.inr (.inr (.inl h)))] at hstep
      exact hexpanded (.inl (by rw [h]; rfl)) (Option.some.inj hstep).symm
  · rcases hc with h | h
    · exact hlost (hquiet (.inr (.inr (.inr (.inr (.inr ⟨h, hnone hp⟩))))))
    · rw [hadds (.inr (.inr (.inr h)))] at hstep
      exact hexpanded (.inr ⟨hp, h⟩) (Option.some.inj hstep).symm

end Shell
