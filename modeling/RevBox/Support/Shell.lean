import RevBox.Support.Text

/-!
# Support — Shell

What a POSIX shell makes of a command text: tokens, quoted as its rules say, and from them the
simple commands with their arguments, between control operators and reserved words.

A text with an expansion has no meaning here (`none`): unquoted or in double quotes a `$` or a
backquote, and unquoted a pattern, a tilde, a brace or the sign of an assignment.  Nor has one with a
here-document, a loop, a `case` or a function.

* `run_append`: a text is read piece by piece.
* `run_single`: between single quotes every character stands for itself.
* `run_plain`: characters without a meaning of their own join the word they stand in.
-/

namespace Shell

/-- A word so far: its characters after quote removal, whether none of them was quoted, and whether
one that was not may be expanded. -/
structure Word where
  text : List Char
  bare : Bool
  active : Bool
  deriving DecidableEq

/-- A word before its first character. -/
def Word.empty : Word := ⟨[], true, false⟩

/-- An unquoted character that may be expanded, or make the word an assignment. -/
def isActive (c : Char) : Bool := c ∈ ['*', '?', '[', '~', '{', '}', '=']

/-- An unquoted character. -/
def Word.add (w : Word) (c : Char) : Word := ⟨w.text ++ [c], w.bare, w.active || isActive c⟩

/-- Quoted characters. -/
def Word.quote (w : Word) (s : List Char) : Word := ⟨w.text ++ s, false, w.active⟩

inductive Token where
  | word (w : Word)
  | number (digits : List Char)
  | op (text : List Char)
  deriving DecidableEq

/-- Where in the text the lexer stands. -/
inductive Mode where
  | plain
  | escaped
  | single
  | double
  | doubleEscaped
  | comment
  | op (text : List Char)
  deriving DecidableEq

/-- The lexer: its mode, the word begun, and the tokens before it. -/
structure Lexer where
  mode : Mode
  word : Option Word
  tokens : List Token
  deriving DecidableEq

def Lexer.start : Lexer := ⟨.plain, none, []⟩

def isBlank (c : Char) : Bool := c = ' ' || c = '\t'

/-- A character that an operator begins with. -/
def beginsOp (c : Char) : Bool := c ∈ ['&', '|', ';', '<', '>', '(', ')', '\n']

/-- The operators of more than one character. -/
def longOps : List (List Char) :=
  ["&&", "||", ";;", "<<", ">>", "<&", ">&", "<>", ">|", "<<-"].map String.toList

/-- The word that the next character joins. -/
def Lexer.current (l : Lexer) : Word := l.word.getD .empty

/-- The word ends. -/
def Lexer.cut (l : Lexer) : Lexer :=
  match l.word with
  | none => l
  | some w => { l with word := none, tokens := l.tokens ++ [.word w] }

/-- The word ends before an operator: digits before a redirection are its number. -/
def Lexer.cutBefore (l : Lexer) (c : Char) : Lexer :=
  match l.word with
  | none => l
  | some w =>
      if (c = '<' ∨ c = '>') ∧ w.bare = true ∧ w.text.all Char.isDigit = true then
        { l with word := none, tokens := l.tokens ++ [.number w.text] }
      else l.cut

/-- A character outside quotes. -/
def Lexer.plainStep (l : Lexer) (c : Char) : Option Lexer :=
  if c = '\\' then some { l with mode := .escaped }
  else if c = '\'' then some { l with mode := .single, word := some (l.current.quote []) }
  else if c = '"' then some { l with mode := .double, word := some (l.current.quote []) }
  else if c = '$' ∨ c.toNat = 0x60 then none
  else if beginsOp c then some { l.cutBefore c with mode := .op [c] }
  else if isBlank c then some l.cut
  else if c = '#' ∧ l.word = none then some { l with mode := .comment }
  else some { l with word := some (l.current.add c) }

/-- One character. -/
def Lexer.step (l : Lexer) (c : Char) : Option Lexer :=
  match l.mode with
  | .plain => l.plainStep c
  | .escaped =>
      -- a newline after a backslash is no character at all
      if c = '\n' then some { l with mode := .plain }
      else some { l with mode := .plain, word := some (l.current.quote [c]) }
  | .single =>
      if c = '\'' then some { l with mode := .plain }
      else some { l with word := some (l.current.quote [c]) }
  | .double =>
      if c = '"' then some { l with mode := .plain }
      else if c = '\\' then some { l with mode := .doubleEscaped }
      else if c = '$' ∨ c.toNat = 0x60 then none
      else some { l with word := some (l.current.quote [c]) }
  | .doubleEscaped =>
      let l := { l with mode := .double }
      if c = '\n' then some l
      else if c = '$' ∨ c.toNat = 0x60 ∨ c = '"' ∨ c = '\\' then
        some { l with word := some (l.current.quote [c]) }
      else some { l with word := some (l.current.quote ['\\', c]) }
  | .comment => if c = '\n' then some { l with mode := .op [c] } else some l
  | .op text =>
      if text ++ [c] ∈ longOps then some { l with mode := .op (text ++ [c]) }
      else Lexer.plainStep { l with mode := .plain, tokens := l.tokens ++ [.op text] } c

/-- The characters of a text. -/
def Lexer.run (l : Lexer) (s : List Char) : Option Lexer := s.foldlM Lexer.step l

/-- The end of the text: none inside quotes. -/
def Lexer.finish (l : Lexer) : Option (List Token) :=
  match l.mode with
  | .plain | .comment => some l.cut.tokens
  | .op text => some (l.tokens ++ [.op text])
  | _ => none

/-- The tokens of a text. -/
def lex (s : List Char) : Option (List Token) := (Lexer.start.run s).bind Lexer.finish

/-! ### Simple commands -/

/-- Reserved words that stand between commands. -/
def reserved : List (List Char) :=
  ["if", "then", "elif", "else", "fi", "!"].map String.toList

/-- Reserved words that begin or end what is not read here. -/
def unread : List (List Char) :=
  ["\x7b", "\x7d", "case", "do", "done", "esac", "for", "in", "until", "while", "function", "select",
    "time", "[["].map String.toList

/-- The redirections; a here-document is not read. -/
def redirections : List (List Char) := ["<", ">", ">>", "<&", ">&", "<>", ">|"].map String.toList

structure Redirect where
  number : Option (List Char)
  op : List Char
  target : List Char
  deriving DecidableEq

/-- What a text is made of. -/
inductive Item where
  | command (args : List (List Char)) (redirects : List Redirect)
  | control (op : List Char)
  | reserved (word : List Char)
  deriving DecidableEq

/-- What a redirection still lacks. -/
inductive Pending where
  | nothing
  | number (digits : List Char)
  | target (number : Option (List Char)) (op : List Char)
  deriving DecidableEq

/-- The items read, and the simple command begun. -/
structure Reader where
  items : List Item
  args : List (List Char)
  redirects : List Redirect
  pending : Pending
  deriving DecidableEq

def Reader.start : Reader := ⟨[], [], [], .nothing⟩

/-- The simple command ends. -/
def Reader.flush (r : Reader) : Reader :=
  if r.args = [] ∧ r.redirects = [] then r
  else { r with items := r.items ++ [.command r.args r.redirects], args := [], redirects := [] }

/-- One token. -/
def Reader.step (r : Reader) : Token → Option Reader
  | .word w =>
      if w.active then none
      else
        match r.pending with
        | .number _ => none
        | .target number op =>
            some { r with redirects := r.redirects ++ [⟨number, op, w.text⟩], pending := .nothing }
        | .nothing =>
            -- a reserved word is one only unquoted and where a command may begin
            if w.bare = true ∧ r.args = [] ∧ r.redirects = [] ∧ w.text ∈ unread then none
            else if w.bare = true ∧ r.args = [] ∧ r.redirects = [] ∧ w.text ∈ Shell.reserved then
              some { r with items := r.items ++ [.reserved w.text] }
            else some { r with args := r.args ++ [w.text] }
  | .number digits =>
      match r.pending with
      | .nothing => some { r with pending := .number digits }
      | _ => none
  | .op op =>
      match r.pending with
      | .target _ _ => none
      | .number digits =>
          if op ∈ redirections then some { r with pending := .target (some digits) op } else none
      | .nothing =>
          if op ∈ redirections then some { r with pending := .target none op }
          else if op = "<<".toList ∨ op = "<<-".toList then none
          else some { r.flush with items := r.flush.items ++ [.control op] }

/-- The end of the tokens: none inside a redirection. -/
def Reader.finish (r : Reader) : Option (List Item) :=
  match r.pending with
  | .nothing => some r.flush.items
  | _ => none

/-- The items of a text. -/
def items (s : List Char) : Option (List Item) :=
  (lex s).bind fun tokens => (tokens.foldlM Reader.step .start).bind Reader.finish

/-- The arguments of a text that is one simple command. -/
def words (s : List Char) : Option (List (List Char)) :=
  match items s with
  | some [.command args []] => some args
  | _ => none

/-! ### Reading piece by piece -/

theorem run_append (l : Lexer) (s t : List Char) : l.run (s ++ t) = (l.run s).bind (·.run t) :=
  List.foldlM_append

theorem run_append_of {l l' : Lexer} {s : List Char} (h : l.run s = some l') (t : List Char) :
    l.run (s ++ t) = l'.run t := by
  rw [run_append, h, Option.bind_some]

theorem run_cons {l l' : Lexer} {c : Char} (h : l.step c = some l') (s : List Char) :
    l.run (c :: s) = l'.run s := by
  rw [Lexer.run, List.foldlM_cons, h]
  rfl

theorem run_nil (l : Lexer) : l.run [] = some l := rfl

section Lexing

variable {text : List Char} {active : Bool} {tokens : List Token}

/-- **Between single quotes every character stands for itself.** -/
theorem run_single : ∀ {s text : List Char}, '\'' ∉ s →
    Lexer.run ⟨.single, some ⟨text, false, active⟩, tokens⟩ s =
      some ⟨.single, some ⟨text ++ s, false, active⟩, tokens⟩
  | [], text, _ => by rw [List.append_nil, run_nil]
  | c :: s, text, h => by
      rw [List.mem_cons, not_or] at h
      have hstep : Lexer.step ⟨.single, some ⟨text, false, active⟩, tokens⟩ c =
          some ⟨.single, some ⟨text ++ [c], false, active⟩, tokens⟩ := if_neg (Ne.symm h.1)
      rw [run_cons hstep, run_single h.2, List.append_assoc, List.singleton_append]

/-- A character without a meaning of its own. -/
def isPlain (c : Char) : Bool :=
  !(c = '\\' || c = '\'' || c = '"' || c = '$' || c.toNat = 0x60 || c = '#' || beginsOp c ||
    isBlank c || isActive c)

theorem plainStep_of_isPlain {c : Char} (h : isPlain c = true) (l : Lexer) :
    l.plainStep c = some { l with word := some ⟨l.current.text ++ [c], l.current.bare,
      l.current.active⟩ } := by
  simp only [isPlain, Bool.not_eq_true', Bool.or_eq_false_iff, decide_eq_false_iff_not] at h
  obtain ⟨⟨⟨⟨⟨⟨⟨⟨hback, hquote⟩, hdouble⟩, hdollar⟩, hgrave⟩, hhash⟩, hop⟩, hblank⟩, hactive⟩ := h
  simp only [Lexer.plainStep, hback, hquote, hdouble, hdollar, hgrave, hhash, hop, hblank, hactive,
    Word.add, if_false, or_self, false_and, Bool.false_eq_true, Bool.or_false]

/-- **Plain characters join the word that is begun.** -/
theorem run_plain : ∀ {s : List Char} {w : Word}, (∀ c ∈ s, isPlain c = true) →
    Lexer.run ⟨.plain, some w, tokens⟩ s =
      some ⟨.plain, some ⟨w.text ++ s, w.bare, w.active⟩, tokens⟩
  | [], w, _ => by rw [List.append_nil, run_nil]
  | c :: s, w, h => by
      rw [List.forall_mem_cons] at h
      have hstep : Lexer.step ⟨.plain, some w, tokens⟩ c =
          some ⟨.plain, some ⟨w.text ++ [c], w.bare, w.active⟩, tokens⟩ :=
        plainStep_of_isPlain h.1 _
      rw [run_cons hstep, run_plain h.2, List.append_assoc, List.singleton_append]

/-- Plain characters begin a word. -/
theorem run_plain_start {c : Char} {s : List Char} (h : ∀ c' ∈ c :: s, isPlain c' = true) :
    Lexer.run ⟨.plain, none, tokens⟩ (c :: s) =
      some ⟨.plain, some ⟨c :: s, true, false⟩, tokens⟩ := by
  rw [List.forall_mem_cons] at h
  have hstep : Lexer.step ⟨.plain, none, tokens⟩ c =
      some ⟨.plain, some ⟨[c], true, false⟩, tokens⟩ := plainStep_of_isPlain h.1 _
  rw [run_cons hstep, run_plain h.2]
  rfl

/-! ### Tokens read before -/

/-- The lexer with tokens before its own. -/
def Lexer.after (l : Lexer) (before : List Token) : Lexer := { l with tokens := before ++ l.tokens }

theorem cut_after (l : Lexer) (before : List Token) : (l.after before).cut = l.cut.after before := by
  obtain ⟨mode, _ | w, tokens⟩ := l
  · rfl
  · simp only [Lexer.cut, Lexer.after, List.append_assoc]

theorem cutBefore_after (l : Lexer) (before : List Token) (c : Char) :
    (l.after before).cutBefore c = (l.cutBefore c).after before := by
  obtain ⟨mode, _ | w, tokens⟩ := l
  · rfl
  · simp only [Lexer.cutBefore, Lexer.after]
    split
    · rw [List.append_assoc]
    · exact cut_after ⟨mode, some w, tokens⟩ before

theorem plainStep_after (l : Lexer) (before : List Token) (c : Char) :
    (l.after before).plainStep c = (l.plainStep c).map (Lexer.after · before) := by
  have hword : (l.after before).word = l.word := rfl
  simp only [Lexer.plainStep, cut_after, cutBefore_after, hword]
  repeat' split
  all_goals rfl

theorem step_after (l : Lexer) (before : List Token) (c : Char) :
    (l.after before).step c = (l.step c).map (Lexer.after · before) := by
  obtain ⟨mode, w, tokens⟩ := l
  cases mode with
  | plain => exact plainStep_after ⟨.plain, w, tokens⟩ before c
  | op text =>
      have hplain := plainStep_after ⟨.plain, w, tokens ++ [.op text]⟩ before c
      simp only [Lexer.step, Lexer.after, List.append_assoc] at hplain ⊢
      split
      · rfl
      · exact hplain
  | escaped | single | double | doubleEscaped | comment =>
      simp only [Lexer.step, Lexer.after]
      repeat' split
      all_goals rfl

/-- **The tokens read before do not matter.** -/
theorem run_after {l l' : Lexer} {s : List Char} (h : l.run s = some l') (before : List Token) :
    (l.after before).run s = some (l'.after before) := by
  induction s generalizing l with
  | nil =>
      cases h
      rfl
  | cons c s ih =>
      rw [Lexer.run, List.foldlM_cons] at h
      obtain ⟨m, hstep, hrest⟩ := Option.bind_eq_some_iff.mp h
      rw [run_cons (by rw [step_after, hstep]; rfl)]
      exact ih hrest

/-- A character that ends a word: a blank, or an operator that takes no number. -/
def cuts (c : Char) : Bool := isBlank c || (beginsOp c && c ≠ '<' && c ≠ '>')

/-- **A text that begins with a cut ends the word begun.** -/
theorem run_cut {w : Word} {c : Char} (hc : cuts c = true) (s : List Char) :
    Lexer.run ⟨.plain, some w, tokens⟩ (c :: s) =
      Lexer.run ⟨.plain, none, tokens ++ [.word w]⟩ (c :: s) := by
  have hstep : Lexer.plainStep ⟨.plain, some w, tokens⟩ c =
      Lexer.plainStep ⟨.plain, none, tokens ++ [.word w]⟩ c := by
    simp only [cuts, isBlank, Bool.or_eq_true, Bool.and_eq_true, decide_eq_true_iff, ne_eq] at hc
    rcases hc with (rfl | rfl) | ⟨⟨hop, hless⟩, hmore⟩
    · rfl
    · rfl
    · simp only [beginsOp, decide_eq_true_iff, List.mem_cons, List.not_mem_nil, or_false] at hop
      rcases hop with rfl | rfl | rfl | rfl | rfl | rfl | rfl | rfl
      all_goals first | rfl | contradiction
  rw [Lexer.run, Lexer.run, List.foldlM_cons, List.foldlM_cons]
  exact congrArg (· >>= fun l => List.foldlM Lexer.step l s) hstep

end Lexing

/-! ### Words and the text between them -/

/-- A word that was not quoted. -/
def bareWord (text : List Char) : Word := ⟨text, true, false⟩

/-- A word of one quoted value. -/
def argWord (value : List Char) : Word := ⟨value, false, false⟩

/-- Outside quotes, with these tokens when the word begun is counted. -/
def Lexer.Reads (l : Lexer) (ts : List Token) : Prop := l.mode = .plain ∧ l.cut.tokens = ts

/-- **After a word, a text that begins with a cut is read as it is alone.** -/
theorem Lexer.Reads.run_cut {l m : Lexer} {ts : List Token} (h : l.Reads ts) {c : Char}
    {s : List Char} (hc : cuts c = true) (hs : Lexer.start.run (c :: s) = some m) :
    l.run (c :: s) = some (m.after ts) := by
  have halone (before : List Token) :
      Lexer.run ⟨.plain, none, before⟩ (c :: s) = some (m.after before) := by
    have hafter := run_after hs before
    rwa [Lexer.after, Lexer.start, List.append_nil] at hafter
  obtain ⟨mode, word, tokens⟩ := l
  obtain ⟨rfl, rfl⟩ := h
  cases word with
  | none => exact halone tokens
  | some word =>
      rw [Shell.run_cut hc]
      exact halone (tokens ++ [.word word])

theorem finish_after (l : Lexer) (before : List Token) :
    (l.after before).finish = l.finish.map (before ++ ·) := by
  obtain ⟨mode, word, tokens⟩ := l
  cases mode with
  | plain | comment => exact congrArg (some <| Lexer.tokens ·) (cut_after ⟨_, word, tokens⟩ before)
  | op text => exact congrArg some (List.append_assoc ..)
  | escaped | single | double | doubleEscaped => rfl

theorem Lexer.Reads.finish {l : Lexer} {ts : List Token} (h : l.Reads ts) :
    l.finish = some ts := by
  rw [Lexer.finish, h.1, ← h.2]

/-! ### Reading simple commands -/

/-- The word has a meaning of its own where a command may begin. -/
def Word.isKeyword (w : Word) : Bool := w.bare && (w.text ∈ unread || w.text ∈ reserved)

/-- A simple command, with the reserved words before it and the operator after it. -/
structure Chunk where
  keywords : List (List Char)
  args : List Word
  redirects : List Redirect
  op : Option (List Char)

/-- The tokens of a redirection. -/
def Redirect.tokens (d : Redirect) : List Token :=
  d.number.toList.map .number ++ [.op d.op, .word (bareWord d.target)]

/-- The tokens of a chunk. -/
def Chunk.tokens (c : Chunk) : List Token :=
  c.keywords.map (fun k => .word (bareWord k)) ++ (c.args.map .word ++
    (c.redirects.flatMap Redirect.tokens ++ c.op.toList.map .op))

/-- What a chunk is read as. -/
def Chunk.items (c : Chunk) : List Item :=
  c.keywords.map .reserved ++ ((if c.args = [] ∧ c.redirects = [] then []
    else [.command (c.args.map Word.text) c.redirects]) ++ c.op.toList.map .control)

/-- The reserved words are reserved, no word is expanded, the first is no keyword, and the operators
are what they stand for. -/
def Chunk.isProper (c : Chunk) : Bool :=
  c.keywords.all (fun k => k ∈ reserved && !(k ∈ unread)) && c.args.all (fun w => !w.active) &&
    c.args.head?.all (fun w => !w.isKeyword) && (c.redirects.isEmpty || !c.args.isEmpty) &&
    c.redirects.all (fun d => d.op ∈ redirections) &&
    c.op.all fun o => !(o ∈ redirections) && o ≠ "<<".toList && o ≠ "<<-".toList

/-- The tokens of a text, read on. -/
def Reader.run (r : Reader) (ts : List Token) : Option Reader := ts.foldlM Reader.step r

theorem Reader.run_cons {r r' : Reader} {t : Token} (h : r.step t = some r') (ts : List Token) :
    r.run (t :: ts) = r'.run ts := by
  rw [Reader.run, List.foldlM_cons, h]
  rfl

theorem Reader.run_append_of {r r' : Reader} {ts : List Token} (h : r.run ts = some r')
    (us : List Token) : r.run (ts ++ us) = r'.run us := by
  rw [Reader.run, List.foldlM_append]
  exact (congrArg (· >>= _) h).trans rfl

section Chunks

variable {its : List Item} {args : List (List Char)} {rs : List Redirect}

theorem read_keywords : ∀ {ks : List (List Char)} {its : List Item},
    (∀ k ∈ ks, k ∈ reserved ∧ k ∉ unread) →
    Reader.run ⟨its, [], [], .nothing⟩ (ks.map fun k => .word (bareWord k)) =
      some ⟨its ++ ks.map .reserved, [], [], .nothing⟩
  | [], its, _ => by rw [List.map_nil, List.map_nil, List.append_nil]; rfl
  | k :: ks, its, h => by
      rw [List.forall_mem_cons] at h
      have hstep : Reader.step ⟨its, [], [], .nothing⟩ (.word (bareWord k)) =
          some ⟨its ++ [.reserved k], [], [], .nothing⟩ := by
        simp [Reader.step, bareWord, h.1.1, h.1.2]
      rw [List.map_cons, Reader.run_cons hstep, read_keywords h.2, List.map_cons,
        List.append_assoc, List.singleton_append]

theorem step_arg {w : Word} (hactive : w.active = false)
    (hplace : args ≠ [] ∨ w.isKeyword = false) :
    Reader.step ⟨its, args, [], .nothing⟩ (.word w) =
      some ⟨its, args ++ [w.text], [], .nothing⟩ := by
  have hnot : ∀ keywords : List (List Char), keywords = unread ∨ keywords = reserved →
      ¬ (w.bare = true ∧ args = [] ∧ w.text ∈ keywords) := by
    rintro keywords hk ⟨hbare, hargs, hmem⟩
    have hkeyword := hplace.resolve_left (not_not.mpr hargs)
    rw [Word.isKeyword, hbare] at hkeyword
    rcases hk with rfl | rfl
    · simp [hmem] at hkeyword
    · simp [hmem] at hkeyword
  simp only [Reader.step, hactive, Bool.false_eq_true, if_false]
  rw [if_neg fun h => hnot unread (.inl rfl) ⟨h.1, h.2.1, h.2.2.2⟩,
    if_neg fun h => hnot reserved (.inr rfl) ⟨h.1, h.2.1, h.2.2.2⟩]

theorem read_args : ∀ {ws : List Word} {args : List (List Char)},
    (∀ w ∈ ws, w.active = false) → (args ≠ [] ∨ ∀ w ∈ ws.head?, w.isKeyword = false) →
    Reader.run ⟨its, args, [], .nothing⟩ (ws.map .word) =
      some ⟨its, args ++ ws.map Word.text, [], .nothing⟩
  | [], args, _, _ => by rw [List.map_nil, List.map_nil, List.append_nil]; rfl
  | w :: ws, args, hactive, hplace => by
      rw [List.forall_mem_cons] at hactive
      have hplace' : args ≠ [] ∨ w.isKeyword = false := hplace.imp_right fun h => h w rfl
      have hmore : args ++ [w.text] ≠ [] := by simp
      rw [List.map_cons, Reader.run_cons (step_arg hactive.1 hplace'),
        read_args hactive.2 (.inl hmore), List.map_cons, List.append_assoc, List.singleton_append]

theorem read_redirects : ∀ {ds rs : List Redirect}, (∀ d ∈ ds, d.op ∈ redirections) →
    Reader.run ⟨its, args, rs, .nothing⟩ (ds.flatMap Redirect.tokens) =
      some ⟨its, args, rs ++ ds, .nothing⟩
  | [], rs, _ => by rw [List.flatMap_nil, List.append_nil]; rfl
  | d :: ds, rs, h => by
      rw [List.forall_mem_cons] at h
      have hone : Reader.run ⟨its, args, rs, .nothing⟩ d.tokens =
          some ⟨its, args, rs ++ [d], .nothing⟩ := by
        obtain ⟨_ | digits, op, target⟩ := d
        · simp [Redirect.tokens, Reader.run, Reader.step, bareWord, h.1]
        · simp [Redirect.tokens, Reader.run, Reader.step, bareWord, h.1]
      rw [List.flatMap_cons, Reader.run_append_of hone, read_redirects h.2, List.append_assoc,
        List.singleton_append]

/-- **A proper chunk is read up to its operator.** -/
theorem read_before_op {c : Chunk} (h : c.isProper = true) (its : List Item) (ts : List Token) :
    Reader.run ⟨its, [], [], .nothing⟩ (c.tokens ++ ts) =
      Reader.run ⟨its ++ c.keywords.map .reserved, c.args.map Word.text, c.redirects, .nothing⟩
        (c.op.toList.map .op ++ ts) := by
  simp only [Chunk.isProper, Bool.and_eq_true, List.all_eq_true, decide_eq_true_eq,
    Bool.not_eq_true', Option.all_eq_true, decide_eq_false_iff_not] at h
  obtain ⟨⟨⟨⟨⟨hkeywords, hactive⟩, hhead⟩, -⟩, hredirects⟩, -⟩ := h
  rw [Chunk.tokens, List.append_assoc, Reader.run_append_of (read_keywords hkeywords),
    List.append_assoc, Reader.run_append_of (read_args hactive (.inr hhead)), List.nil_append,
    List.append_assoc, Reader.run_append_of (read_redirects hredirects), List.nil_append]

/-- The simple command of a chunk, if there is one. -/
theorem flush_items (c : Chunk) (its : List Item) :
    (Reader.flush ⟨its, c.args.map Word.text, c.redirects, .nothing⟩).items =
      its ++ if c.args = [] ∧ c.redirects = [] then []
        else [.command (c.args.map Word.text) c.redirects] := by
  rw [Reader.flush]
  simp only [List.map_eq_nil_iff]
  split
  · rw [List.append_nil]
  · rfl

theorem flush_empties (r : Reader) : r.flush = ⟨r.flush.items, [], [], r.pending⟩ := by
  rw [Reader.flush]
  split
  · next h =>
      obtain ⟨its, args, rs, pending⟩ := r
      obtain ⟨rfl, rfl⟩ := h
      rfl
  · rfl

/-- **A proper chunk is read as its items.** -/
theorem read_chunk {c : Chunk} {o : List Char} (h : c.isProper = true) (hop : c.op = some o)
    (its : List Item) : Reader.run ⟨its, [], [], .nothing⟩ c.tokens =
      some ⟨its ++ c.items, [], [], .nothing⟩ := by
  have hbefore := read_before_op h its []
  simp only [Chunk.isProper, hop, Option.all_some, Bool.and_eq_true, Bool.not_eq_true',
    decide_eq_false_iff_not, decide_eq_true_eq] at h
  obtain ⟨-, ⟨hredirect, hhere⟩, hdash⟩ := h
  have hor : ¬ (o = "<<".toList ∨ o = "<<-".toList) := fun h => h.elim hhere hdash
  rw [List.append_nil, hop, List.append_nil] at hbefore
  rw [hbefore]
  have hstep : Reader.step ⟨its ++ c.keywords.map .reserved, c.args.map Word.text, c.redirects,
      .nothing⟩ (.op o) = some ⟨its ++ c.items, [], [], .nothing⟩ := by
    simp only [Reader.step, hredirect, hor, if_false, flush_items]
    rw [flush_empties]
    simp only [Chunk.items, hop, Option.toList_some, List.map_cons, List.map_nil,
      List.append_assoc]
  exact Reader.run_cons hstep []

/-- **The last chunk is read as its items.** -/
theorem read_last {c : Chunk} (h : c.isProper = true) (hop : c.op = none) (its : List Item) :
    (Reader.run ⟨its, [], [], .nothing⟩ c.tokens).bind Reader.finish = some (its ++ c.items) := by
  have hbefore := read_before_op h its []
  rw [List.append_nil, hop, List.append_nil] at hbefore
  rw [hbefore]
  show some (Reader.flush _).items = _
  rw [flush_items, Chunk.items, hop, Option.toList_none, List.map_nil, List.append_nil,
    List.append_assoc]

theorem read_chunks : ∀ {cs : List Chunk} (its : List Item),
    (∀ c ∈ cs, c.isProper = true ∧ c.op.isSome = true) →
    Reader.run ⟨its, [], [], .nothing⟩ (cs.flatMap Chunk.tokens) =
      some ⟨its ++ cs.flatMap Chunk.items, [], [], .nothing⟩
  | [], its, _ => by rw [List.flatMap_nil, List.flatMap_nil, List.append_nil]; rfl
  | c :: cs, its, h => by
      rw [List.forall_mem_cons] at h
      obtain ⟨o, hop⟩ := Option.isSome_iff_exists.mp h.1.2
      rw [List.flatMap_cons, Reader.run_append_of (read_chunk h.1.1 hop its), read_chunks _ h.2,
        List.flatMap_cons, List.append_assoc]

/-- **The tokens of proper chunks are read as their items.** -/
theorem read_all {cs : List Chunk} {last : Chunk}
    (hcs : ∀ c ∈ cs, c.isProper = true ∧ c.op.isSome = true) (hlast : last.isProper = true)
    (hop : last.op = none) :
    (Reader.start.run (cs.flatMap Chunk.tokens ++ last.tokens)).bind Reader.finish =
      some (cs.flatMap Chunk.items ++ last.items) := by
  have hchunks : Reader.start.run (cs.flatMap Chunk.tokens) = _ := read_chunks [] hcs
  rw [Reader.run_append_of hchunks last.tokens]
  exact read_last hlast hop ([] ++ cs.flatMap Chunk.items)

/-- **A text of proper chunks is read as their items.** -/
theorem items_of_lex {s : List Char} {cs : List Chunk} {last : Chunk}
    (hlex : lex s = some (cs.flatMap Chunk.tokens ++ last.tokens))
    (hcs : ∀ c ∈ cs, c.isProper = true ∧ c.op.isSome = true) (hlast : last.isProper = true)
    (hop : last.op = none) : items s = some (cs.flatMap Chunk.items ++ last.items) := by
  rw [items, hlex, Option.bind_some]
  exact read_all hcs hlast hop

end Chunks

example : words "rm -rf 'a b;id' \"c'd\" e\\ f".toList =
    some ["rm".toList, "-rf".toList, "a b;id".toList, "c'd".toList, "e f".toList] := by
  decide +kernel

example : words "rm -rf a;id".toList = none ∧ words "rm $HOME".toList = none := by decide +kernel

end Shell
