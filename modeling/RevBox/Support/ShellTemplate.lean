import RevBox.Support.ShellWords

/-!
# Support — ShellTemplate

Scripts with expansions: what a POSIX shell reads of a text with parameters, arithmetic and command
substitutions, and what it reads of a text with holes, before and after they are filled.

The commands of each substitution are read on their own, in the order in which they end.  A text
with a backquote, a parenthesis that opens no substitution, a here-document or a nested quote in an
expansion has no meaning here (`none`).

* `readScript_fill`: literal text in the holes of a template is read as what stands in the words
  that have the holes, and nothing else changes.
-/

namespace ShellTemplate

open Shell (isBlank beginsOp longOps isSpecial isLiteral redirections)

/-! ### Words -/

/-- What a word is made of: characters, quoted or not; the begin of a quotation; expansions, quoted
or not, of a command substitution by its number; and holes. -/
inductive Piece where
  | plain (c : Char)
  | quoted (c : Char)
  | quote
  | param (quoted : Bool) (text : List Char)
  | sum (quoted : Bool) (text : List Char)
  | subst (quoted : Bool) (n : Nat)
  | hole (n : Nat)
  | quotedHole (n : Nat)
  deriving DecidableEq

abbrev Word := List Piece

inductive Token where
  | word (w : Word)
  | number (digits : Word)
  | op (text : List Char)
  deriving DecidableEq

/-- A character of a template, or a hole. -/
inductive Sym where
  | char (c : Char)
  | hole (n : Nat)

/-- The word has a hole. -/
def hasHole (w : Word) : Bool :=
  w.any fun p => match p with
    | .hole _ | .quotedHole _ => true
    | _ => false

/-- The word is a number. -/
def isNumber (w : Word) : Bool :=
  w ≠ [] && w.all fun p => match p with
    | .plain c => c.isDigit
    | _ => false

/-! ### The lexer -/

/-- Where in the text the lexer stands; `quoted` is whether an expansion is between double
quotes. -/
inductive Mode where
  | plain
  | escaped
  | single
  | double
  | doubleEscaped
  | comment
  | op (text : List Char)
  | dollar (quoted : Bool)
  | paren (quoted : Bool)
  | name (quoted : Bool) (text : List Char)
  | brace (quoted : Bool) (text : List Char)
  | sum (quoted : Bool) (text : List Char)

/-- What is around a command substitution. -/
structure Frame where
  quoted : Bool
  word : Word
  tokens : List Token

/-- The lexer: its mode, the word begun and the tokens before it, what is around the substitution,
and the substitutions that have ended. -/
structure Lexer where
  mode : Mode
  word : Option Word
  tokens : List Token
  around : List Frame
  bodies : List (List Token)

namespace Lexer

def start : Lexer := ⟨.plain, none, [], [], []⟩

/-- The word that the next character joins. -/
def current (l : Lexer) : Word := l.word.getD []

/-- The word goes on with a piece. -/
def add (l : Lexer) (p : Piece) : Lexer := { l with word := some (l.current ++ [p]) }

/-- The word ends. -/
def cut (l : Lexer) : Lexer :=
  match l.word with
  | none => l
  | some w => { l with word := none, tokens := l.tokens ++ [.word w] }

/-- The word ends before an operator: digits before a redirection are its number. -/
def cutBefore (l : Lexer) (c : Char) : Option Lexer :=
  match l.word with
  | none => some l
  | some w =>
      if c = '<' ∨ c = '>' then
        if hasHole w then none
        else if isNumber w then some { l with word := none, tokens := l.tokens ++ [.number w] }
        else some l.cut
      else some l.cut

/-- The mode after an expansion. -/
def back (quoted : Bool) : Mode := if quoted then .double else .plain

/-- A command substitution begins. -/
def enter (l : Lexer) (quoted : Bool) : Lexer :=
  ⟨.plain, none, [], ⟨quoted, l.current, l.tokens⟩ :: l.around, l.bodies⟩

/-- A command substitution ends. -/
def leave (l : Lexer) : Option Lexer :=
  match l.around with
  | [] => none
  | f :: around =>
      some ⟨back f.quoted, some (f.word ++ [.subst f.quoted l.bodies.length]), f.tokens, around,
        l.bodies ++ [l.cut.tokens]⟩

/-- A character outside quotes. -/
def plainStep (l : Lexer) (c : Char) : Option Lexer :=
  if c.isAlphanum then some (l.add (.plain c))
  else if c = '\\' then some { l with mode := .escaped }
  else if c = '\'' then some { l.add .quote with mode := .single }
  else if c = '"' then some { l.add .quote with mode := .double }
  else if c.toNat = 0x60 ∨ c = '(' then none
  else if c = '$' then some { l with mode := .dollar false }
  else if c = ')' then l.leave
  else if beginsOp c then (l.cutBefore c).map fun l => { l with mode := .op [c] }
  else if isBlank c then some l.cut
  else if c = '#' ∧ l.word = none then some { l with mode := .comment }
  else some (l.add (.plain c))

/-- A character between double quotes. -/
def doubleStep (l : Lexer) (c : Char) : Option Lexer :=
  if c = '"' then some { l with mode := .plain }
  else if c = '\\' then some { l with mode := .doubleEscaped }
  else if c.toNat = 0x60 then none
  else if c = '$' then some { l with mode := .dollar true }
  else some (l.add (.quoted c))

/-- A character behind an expansion. -/
def resume (l : Lexer) (quoted : Bool) (c : Char) : Option Lexer :=
  if quoted then doubleStep { l with mode := .double } c else plainStep { l with mode := .plain } c

/-- A character of a name. -/
def isName (c : Char) : Bool := c.isAlphanum || c = '_'

/-- A parameter of one character. -/
def isParam (c : Char) : Bool := c.isDigit || c ∈ ['?', '$', '!', '#', '@', '*', '-']

/-- A character that is not read in an expansion. -/
def isNested (c : Char) : Bool := c ∈ ['\'', '"', '\\', '$', '('] || c.toNat = 0x60

/-- One character. -/
def charStep (l : Lexer) (c : Char) : Option Lexer :=
  match l.mode with
  | .plain => l.plainStep c
  | .double => l.doubleStep c
  | .escaped =>
      if c = '\n' then some { l with mode := .plain }
      else some { l.add (.quoted c) with mode := .plain }
  | .single =>
      if c = '\'' then some { l with mode := .plain } else some (l.add (.quoted c))
  | .doubleEscaped =>
      if c = '\n' then some { l with mode := .double }
      else if c = '$' ∨ c.toNat = 0x60 ∨ c = '"' ∨ c = '\\' then
        some { l.add (.quoted c) with mode := .double }
      else some { (l.add (.quoted '\\')).add (.quoted c) with mode := .double }
  | .comment => if c = '\n' then some { l with mode := .op [c] } else some l
  | .op text =>
      if text ++ [c] ∈ longOps then some { l with mode := .op (text ++ [c]) }
      else plainStep { l with mode := .plain, tokens := l.tokens ++ [.op text] } c
  | .dollar quoted =>
      if c = '(' then some { l with mode := .paren quoted }
      else if c = '\x7b' then some { l with mode := .brace quoted [] }
      else if isParam c then some { l.add (.param quoted [c]) with mode := back quoted }
      else if isName c then some { l with mode := .name quoted [c] }
      else none
  | .paren quoted =>
      if c = '(' then some { l with mode := .sum quoted [] } else (l.enter quoted).plainStep c
  | .name quoted text =>
      if isName c then some { l with mode := .name quoted (text ++ [c]) }
      else (l.add (.param quoted text)).resume quoted c
  | .brace quoted text =>
      if c = '\x7d' then some { l.add (.param quoted text) with mode := back quoted }
      else if isNested c then none
      else some { l with mode := .brace quoted (text ++ [c]) }
  | .sum quoted text =>
      if c = ')' ∧ text.getLast? = some ')' then
        some { l.add (.sum quoted text.dropLast) with mode := back quoted }
      else if isNested c then none
      else some { l with mode := .sum quoted (text ++ [c]) }

/-- A hole, outside quotes or inside. -/
def holeStep (l : Lexer) (n : Nat) : Option Lexer :=
  match l.mode with
  | .plain => some (l.add (.hole n))
  | .single | .double => some (l.add (.quotedHole n))
  | _ => none

/-- A character or a hole. -/
def step (l : Lexer) : Sym → Option Lexer
  | .char c => l.charStep c
  | .hole n => l.holeStep n

/-- The text of a template. -/
def run (l : Lexer) : List Sym → Option Lexer
  | [] => some l
  | a :: s => (l.step a).bind fun l' => run l' s

/-- The end of the text: none inside quotes or an expansion. -/
def finish (l : Lexer) : Option (List (List Token) × List Token) :=
  match l.around, l.mode with
  | [], .plain | [], .comment => some (l.bodies, l.cut.tokens)
  | [], .op text => some (l.bodies, l.tokens ++ [.op text])
  | [], .name false text => some (l.bodies, (l.add (.param false text)).cut.tokens)
  | _, _ => none

end Lexer

/-! ### Simple commands -/

/-- Reserved words that stand between commands; the head of a `for` is read as words. -/
def reserved : List (List Char) :=
  ["if", "then", "elif", "else", "fi", "while", "until", "do", "done", "for", "!"].map String.toList

structure Redirect where
  number : Option Word
  op : List Char
  target : Word
  deriving DecidableEq

/-- What a script is made of. -/
inductive Item where
  | command (words : List Word) (redirects : List Redirect)
  | control (op : List Char)
  | reserved (word : List Char)
  deriving DecidableEq

/-- What a redirection still lacks. -/
inductive Pending where
  | nothing
  | number (digits : Word)
  | target (number : Option Word) (op : List Char)

/-- The items read, and the simple command begun. -/
structure Reader where
  items : List Item
  words : List Word
  redirects : List Redirect
  pending : Pending

/-- The reserved word that a word is. -/
def reservedOf (w : Word) : Option (List Char) := reserved.find? fun r => r.map Piece.plain = w

namespace Reader

def start : Reader := ⟨[], [], [], .nothing⟩

/-- The simple command ends. -/
def flush (r : Reader) : Reader :=
  if r.words = [] ∧ r.redirects = [] then r
  else { r with items := r.items ++ [.command r.words r.redirects], words := [], redirects := [] }

/-- A word that is no target: a reserved word is one only where a command may begin. -/
def addWord (r : Reader) (w : Word) : Option Reader :=
  if r.words = [] ∧ r.redirects = [] then
    if hasHole w then none
    else
      match reservedOf w with
      | some word => some { r with items := r.items ++ [.reserved word] }
      | none => some { r with words := [w] }
  else some { r with words := r.words ++ [w] }

/-- One token. -/
def step (r : Reader) : Token → Option Reader
  | .word w =>
      match r.pending with
      | .number _ => none
      | .target number op =>
          some { r with redirects := r.redirects ++ [⟨number, op, w⟩], pending := .nothing }
      | .nothing => r.addWord w
  | .number digits =>
      match r.pending with
      | .nothing => some { r with pending := .number digits }
      | _ => none
  | .op op =>
      match r.pending with
      | .target _ _ => none
      | .number digits =>
          if op ∈ redirections then some { r with pending := .target (some digits) op } else none
      | .nothing =>
          if op ∈ redirections then some { r with pending := .target none op }
          else if op = "<<".toList ∨ op = "<<-".toList then none
          else some { r.flush with items := r.flush.items ++ [.control op] }

/-- The end of the tokens: none inside a redirection. -/
def finish (r : Reader) : Option (List Item) :=
  match r.pending with
  | .nothing => some r.flush.items
  | _ => none

end Reader

/-- The items of tokens. -/
def readTokens (tokens : List Token) : Option (List Item) :=
  (tokens.foldlM Reader.step .start).bind Reader.finish

/-- What is read of a script: its substitutions, in the order in which they end, and the script. -/
structure Script where
  bodies : List (List Item)
  main : List Item
  deriving DecidableEq

/-- What is read of a template. -/
def readTemplate (s : List Sym) : Option Script :=
  ((Lexer.start.run s).bind Lexer.finish).bind fun (bodies, tokens) =>
    (bodies.mapM readTokens).bind fun bodies => (readTokens tokens).map fun main => ⟨bodies, main⟩

/-- What is read of a text. -/
def readScript (s : List Char) : Option Script := readTemplate (s.map .char)

/-- A template is made of texts and holes. -/
inductive Part where
  | text (s : String)
  | hole (n : Nat)

def Part.syms : Part → List Sym
  | .text s => s.toList.map .char
  | .hole n => [.hole n]

/-- The text of a template. -/
def template (parts : List Part) : List Sym := parts.flatMap Part.syms

/-! ### Holes filled -/

section Fill

variable (σ : Nat → List Char)

/-- A piece with its hole filled. -/
def fillPiece : Piece → Word
  | .hole n => (σ n).map .plain
  | .quotedHole n => (σ n).map .quoted
  | p => [p]

/-- A word with its holes filled. -/
def fillWord (w : Word) : Word := w.flatMap (fillPiece σ)

/-- A template with its holes filled. -/
def fillText : List Sym → List Char
  | [] => []
  | .char c :: s => c :: fillText s
  | .hole n :: s => σ n ++ fillText s

def Token.fill : Token → Token
  | .word w => .word (fillWord σ w)
  | t => t

def Frame.fill (f : Frame) : Frame :=
  ⟨f.quoted, fillWord σ f.word, f.tokens.map (Token.fill σ)⟩

def Lexer.fill (l : Lexer) : Lexer :=
  ⟨l.mode, l.word.map (fillWord σ), l.tokens.map (Token.fill σ), l.around.map (Frame.fill σ),
    l.bodies.map fun b => b.map (Token.fill σ)⟩

def Redirect.fill (d : Redirect) : Redirect := { d with target := fillWord σ d.target }

def Item.fill : Item → Item
  | .command words redirects =>
      .command (words.map (fillWord σ)) (redirects.map (Redirect.fill σ))
  | item => item

def Script.fill (r : Script) : Script :=
  ⟨r.bodies.map fun b => b.map (Item.fill σ), r.main.map (Item.fill σ)⟩

variable {σ} {l l' : Lexer} {w : Word} {c : Char}

@[simp] theorem fillPiece_plain : fillPiece σ (.plain c) = [.plain c] := rfl

@[simp] theorem fillPiece_quote : fillPiece σ .quote = [.quote] := rfl

@[simp] theorem fillPiece_param (q : Bool) (text : List Char) :
    fillPiece σ (.param q text) = [.param q text] := rfl

@[simp] theorem fillPiece_sum (q : Bool) (text : List Char) :
    fillPiece σ (.sum q text) = [.sum q text] := rfl

@[simp] theorem fillPiece_subst (q : Bool) (n : Nat) :
    fillPiece σ (.subst q n) = [.subst q n] := rfl

@[simp] theorem fillPiece_hole (n : Nat) : fillPiece σ (.hole n) = (σ n).map .plain := rfl

@[simp] theorem fillPiece_quotedHole (n : Nat) :
    fillPiece σ (.quotedHole n) = (σ n).map .quoted := rfl

@[simp] theorem fillWord_nil : fillWord σ [] = [] := rfl

@[simp] theorem fillWord_cons (p : Piece) (w : Word) :
    fillWord σ (p :: w) = fillPiece σ p ++ fillWord σ w := List.flatMap_cons

@[simp] theorem fillWord_append (v w : Word) :
    fillWord σ (v ++ w) = fillWord σ v ++ fillWord σ w := List.flatMap_append

@[simp] theorem fill_command (words : List Word) (redirects : List Redirect) :
    (Item.command words redirects).fill σ =
      .command (words.map (fillWord σ)) (redirects.map (Redirect.fill σ)) := rfl

/-- A word without a hole is as it was. -/
theorem fillWord_of_not_hasHole (h : hasHole w = false) : fillWord σ w = w := by
  induction w with
  | nil => rfl
  | cons p w ih =>
      rw [hasHole, List.any_cons, Bool.or_eq_false_iff] at h
      have hp : fillPiece σ p = [p] := by
        cases p <;> first | rfl | cases h.1
      rw [fillWord, List.flatMap_cons, hp]
      exact congrArg (p :: ·) (ih h.2)

/-- A part with its hole filled. -/
def Part.fill (σ : Nat → List Char) : Part → List Char
  | .text s => s.toList
  | .hole n => σ n

theorem fillText_chars (s : List Char) (r : List Sym) :
    fillText σ (s.map .char ++ r) = s ++ fillText σ r := by
  induction s with
  | nil => rfl
  | cons c s ih => exact congrArg (c :: ·) ih

theorem fillText_template (parts : List Part) :
    fillText σ (template parts) = parts.flatMap (Part.fill σ) := by
  induction parts with
  | nil => rfl
  | cons a parts ih =>
      rw [template, List.flatMap_cons, List.flatMap_cons, ← ih]
      cases a with
      | text s => exact fillText_chars s.toList _
      | hole n => rfl

/-! #### The lexer -/

theorem current_fill (l : Lexer) : (l.fill σ).current = fillWord σ l.current := by
  cases l with
  | mk mode word tokens around bodies => cases word <;> rfl

theorem add_fill {p : Piece} (hp : fillPiece σ p = [p]) (l : Lexer) :
    (l.add p).fill σ = (l.fill σ).add p := by
  rw [Lexer.add, Lexer.add, current_fill, Lexer.fill]
  simp only [Option.map_some, fillWord_append]
  rw [fillWord, fillWord, List.flatMap_singleton, hp]
  rfl

theorem cut_fill (l : Lexer) : l.cut.fill σ = (l.fill σ).cut := by
  cases l with
  | mk mode word tokens around bodies =>
      cases word with
      | none => rfl
      | some w =>
          simp only [Lexer.cut, Lexer.fill, Option.map_some, List.map_append, List.map_cons,
            List.map_nil, Token.fill, Option.map_none]

/-- What comes of a step after the holes are filled is what comes of it before, filled. -/
def Fills (σ : Nat → List Char) (r r' : Option Lexer) : Prop :=
  ∀ l, r = some l → r' = some (l.fill σ)

namespace Fills

variable {a a' b b' : Option Lexer}

theorem none : Fills σ none a' := nofun

theorem some (h : l.fill σ = l') : Fills σ (some l) (some l') := fun _ hl => by
  cases hl
  rw [h]

theorem ite {p p' : Prop} [Decidable p] [Decidable p'] (hp : p ↔ p') (ha : Fills σ a a')
    (hb : Fills σ b b') : Fills σ (if p then a else b) (if p' then a' else b') := by
  by_cases h : p
  · rw [if_pos h, if_pos (hp.mp h)]
    exact ha
  · rw [if_neg h, if_neg (mt hp.mpr h)]
    exact hb

theorem map {f f' : Lexer → Lexer} (ha : Fills σ a a') (hf : ∀ l, (f l).fill σ = f' (l.fill σ)) :
    Fills σ (a.map f) (a'.map f') := fun l hl => by
  obtain ⟨m, hm, rfl⟩ := Option.map_eq_some_iff.mp hl
  rw [ha m hm, Option.map_some, hf]

end Fills

theorem cutBefore_fill (l : Lexer) (c : Char) :
    Fills σ (l.cutBefore c) ((l.fill σ).cutBefore c) := by
  have hcut : Fills σ (some l.cut) (some (l.fill σ).cut) := .some (cut_fill l)
  rw [Lexer.cutBefore, Lexer.cutBefore]
  cases hw : l.word with
  | none =>
      have hfill : (l.fill σ).word = none := by rw [Lexer.fill, hw]; rfl
      rw [hfill]
      exact .some rfl
  | some w =>
      have hfill : (l.fill σ).word = some (fillWord σ w) := by rw [Lexer.fill, hw]; rfl
      rw [hfill]
      refine .ite Iff.rfl ?_ hcut
      cases hhole : hasHole w with
      | true => exact .none
      | false =>
          rw [fillWord_of_not_hasHole hhole, hhole]
          refine .ite Iff.rfl .none (.ite Iff.rfl (.some ?_) hcut)
          simp only [Lexer.fill, List.map_append, List.map_cons, List.map_nil, Token.fill,
            Option.map_none]

theorem enter_fill (l : Lexer) (q : Bool) : (l.enter q).fill σ = (l.fill σ).enter q := by
  rw [Lexer.enter, Lexer.enter, current_fill]
  rfl

theorem leave_fill (l : Lexer) : Fills σ l.leave (l.fill σ).leave := by
  rw [Lexer.leave, Lexer.leave]
  cases haround : l.around with
  | nil => exact .none
  | cons f around =>
      have hfill : (l.fill σ).around = f.fill σ :: around.map (Frame.fill σ) := by
        rw [Lexer.fill, haround]
        rfl
      rw [hfill, ← cut_fill]
      refine .some ?_
      simp only [Lexer.fill, Frame.fill, List.length_map, List.map_append, List.map_cons,
        List.map_nil, Option.map_some, fillWord_append]
      rfl

theorem word_fill_none : l.word = none ↔ (l.fill σ).word = none := Option.map_eq_none_iff.symm

/-- A piece that is no hole joins the word, and the mode changes. -/
theorem add_fill_mode {p : Piece} (hp : fillPiece σ p = [p]) (l : Lexer) (m : Mode) :
    ({ l.add p with mode := m } : Lexer).fill σ = { (l.fill σ).add p with mode := m } :=
  congrArg (fun l : Lexer => { l with mode := m }) (add_fill hp l)

theorem plainStep_fill (l : Lexer) (c : Char) :
    Fills σ (l.plainStep c) ((l.fill σ).plainStep c) :=
  .ite Iff.rfl (.some (add_fill rfl l)) <|
  .ite Iff.rfl (.some rfl) <|
  .ite Iff.rfl (.some (add_fill_mode rfl l .single)) <|
  .ite Iff.rfl (.some (add_fill_mode rfl l .double)) <|
  .ite Iff.rfl .none <|
  .ite Iff.rfl (.some rfl) <|
  .ite Iff.rfl (leave_fill l) <|
  .ite Iff.rfl ((cutBefore_fill l c).map fun _ => rfl) <|
  .ite Iff.rfl (.some (cut_fill l)) <|
  .ite (and_congr_right' word_fill_none) (.some rfl) (.some (add_fill rfl l))

theorem doubleStep_fill (l : Lexer) (c : Char) :
    Fills σ (l.doubleStep c) ((l.fill σ).doubleStep c) :=
  .ite Iff.rfl (.some rfl) <| .ite Iff.rfl (.some rfl) <| .ite Iff.rfl .none <|
  .ite Iff.rfl (.some rfl) (.some (add_fill rfl l))

theorem resume_fill (l : Lexer) (q : Bool) (c : Char) :
    Fills σ (l.resume q c) ((l.fill σ).resume q c) := by
  cases q with
  | false => exact plainStep_fill { l with mode := .plain } c
  | true => exact doubleStep_fill { l with mode := .double } c

theorem charStep_fill (l : Lexer) (c : Char) :
    Fills σ (l.charStep c) ((l.fill σ).charStep c) := by
  have hmode : (l.fill σ).mode = l.mode := rfl
  rw [Lexer.charStep, Lexer.charStep, hmode]
  cases l.mode with
  | plain => exact plainStep_fill l c
  | double => exact doubleStep_fill l c
  | escaped => exact .ite Iff.rfl (.some rfl) (.some (add_fill_mode rfl l .plain))
  | single => exact .ite Iff.rfl (.some rfl) (.some (add_fill rfl l))
  | doubleEscaped =>
      refine .ite Iff.rfl (.some rfl) <|
        .ite Iff.rfl (.some (add_fill_mode rfl l .double)) (.some ?_)
      rw [add_fill_mode rfl, add_fill rfl]
  | comment => exact .ite Iff.rfl (.some rfl) (.some rfl)
  | op text =>
      have hop : ({ l with mode := .plain, tokens := l.tokens ++ [.op text] } : Lexer).fill σ =
          { l.fill σ with mode := .plain, tokens := (l.fill σ).tokens ++ [.op text] } := by
        simp only [Lexer.fill, List.map_append, List.map_cons, List.map_nil, Token.fill]
      refine .ite Iff.rfl (.some rfl) ?_
      rw [← hop]
      exact plainStep_fill _ c
  | dollar q =>
      exact .ite Iff.rfl (.some rfl) <| .ite Iff.rfl (.some rfl) <|
        .ite Iff.rfl (.some (add_fill_mode rfl l _)) <| .ite Iff.rfl (.some rfl) .none
  | paren q =>
      refine .ite Iff.rfl (.some rfl) ?_
      rw [← enter_fill]
      exact plainStep_fill _ c
  | name q text =>
      refine .ite Iff.rfl (.some rfl) ?_
      rw [← add_fill rfl]
      exact resume_fill _ q c
  | brace q text =>
      exact .ite Iff.rfl (.some (add_fill_mode rfl l _)) <| .ite Iff.rfl .none (.some rfl)
  | sum q text =>
      exact .ite Iff.rfl (.some (add_fill_mode rfl l _)) <| .ite Iff.rfl .none (.some rfl)

/-! #### The text of a hole -/

theorem Lexer.run_append (s r : List Sym) : l.run (s ++ r) = (l.run s).bind fun l => l.run r := by
  induction s generalizing l with
  | nil => rfl
  | cons a s ih =>
      rw [List.cons_append, Lexer.run, Lexer.run]
      cases l.step a with
      | none => rfl
      | some m => exact ih

/-- The word goes on with pieces. -/
def Lexer.addAll (l : Lexer) (w : Word) : Lexer := { l with word := some (l.current ++ w) }

theorem Lexer.addAll_cons (l : Lexer) (p : Piece) (w : Word) :
    l.addAll (p :: w) = (l.add p).addAll w := by
  simp [Lexer.addAll, Lexer.add, Lexer.current]

theorem add_hole_fill (n : Nat) (l : Lexer) :
    (l.add (.hole n)).fill σ = (l.fill σ).addAll ((σ n).map .plain) := by
  rw [Lexer.add, Lexer.addAll, current_fill, Lexer.fill]
  simp only [Option.map_some, fillWord_append]
  rw [fillWord, fillWord, List.flatMap_singleton]
  rfl

theorem add_quotedHole_fill (n : Nat) (l : Lexer) :
    (l.add (.quotedHole n)).fill σ = (l.fill σ).addAll ((σ n).map .quoted) := by
  rw [Lexer.add, Lexer.addAll, current_fill, Lexer.fill]
  simp only [Option.map_some, fillWord_append]
  rw [fillWord, fillWord, List.flatMap_singleton]
  rfl

/-- A character that is not special joins the word, but for a `#` that begins one. -/
theorem plainStep_literal (hc : isSpecial c = false) (hbegin : c ≠ '#' ∨ l.word ≠ none) :
    l.plainStep c = some (l.add (.plain c)) := by
  rw [isSpecial] at hc
  simp only [Bool.or_eq_false_iff, decide_eq_false_iff_not] at hc
  obtain ⟨⟨⟨⟨⟨⟨⟨hescape, hsingle⟩, hdouble⟩, hdollar⟩, hback⟩, hop⟩, hblank⟩, -⟩ := hc
  have hopen : c ≠ '(' := fun h => by rw [h] at hop; cases hop
  have hclose : c ≠ ')' := fun h => by rw [h] at hop; cases hop
  rw [Lexer.plainStep]
  by_cases hplain : c.isAlphanum = true
  · rw [if_pos hplain]
  · rw [if_neg hplain, if_neg hescape, if_neg hsingle, if_neg hdouble,
      if_neg (not_or.mpr ⟨hback, hopen⟩), if_neg hdollar, if_neg hclose,
      if_neg (Bool.eq_false_iff.mp hop),
      if_neg (Bool.eq_false_iff.mp hblank),
      if_neg (fun h => hbegin.elim (fun hc => hc h.1) fun hw => hw h.2)]

theorem run_plain (text : List Char) (hall : text.all (fun c => !isSpecial c) = true)
    (hne : text ≠ []) (hbegin : text.head? ≠ some '#' ∨ l.word ≠ none) (hmode : l.mode = .plain) :
    l.run (text.map .char) = some (l.addAll (text.map .plain)) := by
  induction text generalizing l with
  | nil => exact absurd rfl hne
  | cons c text ih =>
      rw [List.all_cons, Bool.and_eq_true, Bool.not_eq_true'] at hall
      have hstep : l.step (.char c) = some (l.add (.plain c)) := by
        rw [Lexer.step, Lexer.charStep, hmode]
        exact plainStep_literal hall.1
          (hbegin.imp_left fun h hc => h (by rw [List.head?_cons, hc]))
      rw [List.map_cons, Lexer.run, hstep, Option.bind_some, List.map_cons, Lexer.addAll_cons]
      cases text with
      | nil => simp [Lexer.run, Lexer.addAll, Lexer.add, Lexer.current]
      | cons d text => exact ih hall.2 (List.cons_ne_nil _ _) (.inr nofun) hmode

theorem run_quoted (text : List Char) (hall : text.all (fun c => !isSpecial c) = true)
    (hne : text ≠ []) (hmode : l.mode = .single ∨ l.mode = .double) :
    l.run (text.map .char) = some (l.addAll (text.map .quoted)) := by
  induction text generalizing l with
  | nil => exact absurd rfl hne
  | cons c text ih =>
      rw [List.all_cons, Bool.and_eq_true, Bool.not_eq_true'] at hall
      have hc := hall.1
      rw [isSpecial] at hc
      simp only [Bool.or_eq_false_iff, decide_eq_false_iff_not] at hc
      obtain ⟨⟨⟨⟨⟨⟨⟨hescape, hsingle⟩, hdouble⟩, hdollar⟩, hback⟩, -⟩, -⟩, -⟩ := hc
      have hstep : l.step (.char c) = some (l.add (.quoted c)) := by
        rw [Lexer.step, Lexer.charStep]
        rcases hmode with hm | hm
        · rw [hm]
          exact if_neg hsingle
        · rw [hm]
          simp only [Lexer.doubleStep, if_neg hdouble, if_neg hescape, if_neg hback, if_neg hdollar]
      rw [List.map_cons, Lexer.run, hstep, Option.bind_some, List.map_cons, Lexer.addAll_cons]
      cases text with
      | nil => simp [Lexer.run, Lexer.addAll, Lexer.add, Lexer.current]
      | cons d text => exact ih hall.2 (List.cons_ne_nil _ _) hmode

/-- The text of a hole is read as the hole, filled. -/
theorem holeStep_fill {n : Nat} (hσ : isLiteral (σ n) = true) (h : l.holeStep n = some l') :
    (l.fill σ).run ((σ n).map .char) = some (l'.fill σ) := by
  simp only [isLiteral, Bool.and_eq_true, decide_eq_true_eq] at hσ
  obtain ⟨⟨⟨hne, hall⟩, hbegin⟩, -⟩ := hσ
  have hmode : (l.fill σ).mode = l.mode := rfl
  rw [Lexer.holeStep] at h
  cases hm : l.mode with
  | plain =>
      rw [hm] at h
      cases h
      rw [add_hole_fill]
      exact run_plain _ hall hne (.inl hbegin) (hmode.trans hm)
  | single =>
      rw [hm] at h
      cases h
      rw [add_quotedHole_fill]
      exact run_quoted _ hall hne (.inl (hmode.trans hm))
  | double =>
      rw [hm] at h
      cases h
      rw [add_quotedHole_fill]
      exact run_quoted _ hall hne (.inr (hmode.trans hm))
  | _ =>
      rw [hm] at h
      cases h

/-- A template is read with its holes filled as it is read with its holes. -/
theorem run_fill (hσ : ∀ n, isLiteral (σ n) = true) (s : List Sym) (h : l.run s = some l') :
    (l.fill σ).run ((fillText σ s).map .char) = some (l'.fill σ) := by
  induction s generalizing l with
  | nil =>
      cases h
      rfl
  | cons a s ih =>
      obtain ⟨m, hstep, hrun⟩ := Option.bind_eq_some_iff.mp h
      cases a with
      | char c =>
          have hm : (l.fill σ).step (.char c) = some (m.fill σ) := charStep_fill l c m hstep
          rw [fillText, List.map_cons, Lexer.run, hm, Option.bind_some]
          exact ih hrun
      | hole n =>
          rw [fillText, List.map_append, Lexer.run_append, holeStep_fill (hσ n) hstep]
          exact ih hrun

theorem finish_fill {r : List (List Token) × List Token} (h : l.finish = some r) :
    (l.fill σ).finish =
      some (r.1.map fun b => b.map (Token.fill σ), r.2.map (Token.fill σ)) := by
  have hmode : (l.fill σ).mode = l.mode := rfl
  have hcut (l : Lexer) : (l.fill σ).cut.tokens = l.cut.tokens.map (Token.fill σ) := by
    rw [← cut_fill]
    rfl
  rw [Lexer.finish] at h ⊢
  rw [hmode]
  cases haround : l.around with
  | cons f around =>
      rw [haround] at h
      cases h
  | nil =>
      have hfill : (l.fill σ).around = [] := by
        rw [Lexer.fill, haround]
        rfl
      rw [haround] at h
      rw [hfill]
      cases hm : l.mode with
      | plain =>
          rw [hm] at h
          cases h
          dsimp only
          rw [hcut]
          rfl
      | comment =>
          rw [hm] at h
          cases h
          dsimp only
          rw [hcut]
          rfl
      | op text =>
          rw [hm] at h
          cases h
          simp only [Lexer.fill, List.map_append, List.map_cons, List.map_nil, Token.fill]
      | name q text =>
          rw [hm] at h
          cases q with
          | false =>
              cases h
              dsimp only
              rw [← add_fill rfl, hcut]
              rfl
          | true => cases h
      | _ =>
          rw [hm] at h
          cases h

/-! #### The reader -/

/-- A reader with the holes filled of what it has read. -/
def Reader.fill (σ : Nat → List Char) (r : Reader) : Reader :=
  ⟨r.items.map (Item.fill σ), r.words.map (fillWord σ), r.redirects.map (Redirect.fill σ),
    r.pending⟩

theorem begins_fill (r : Reader) : (r.fill σ).words = [] ∧ (r.fill σ).redirects = [] ↔
    r.words = [] ∧ r.redirects = [] :=
  and_congr List.map_eq_nil_iff List.map_eq_nil_iff

theorem flush_fill (r : Reader) : r.flush.fill σ = (r.fill σ).flush := by
  rw [Reader.flush, Reader.flush, ite_congr (propext (begins_fill r)) (fun _ => rfl) fun _ => rfl]
  by_cases h : r.words = [] ∧ r.redirects = []
  · rw [if_pos h, if_pos h]
  · rw [if_neg h, if_neg h]
    simp only [Reader.fill, List.map_append, List.map_cons, List.map_nil, Item.fill]

theorem addWord_fill {r r' : Reader} (h : r.addWord w = some r') :
    (r.fill σ).addWord (fillWord σ w) = some (r'.fill σ) := by
  rw [Reader.addWord] at h ⊢
  rw [ite_congr (propext (begins_fill r)) (fun _ => rfl) fun _ => rfl]
  by_cases hbegin : r.words = [] ∧ r.redirects = []
  · rw [if_pos hbegin] at h ⊢
    cases hhole : hasHole w with
    | true =>
        rw [hhole] at h
        cases h
    | false =>
        rw [hhole] at h
        rw [fillWord_of_not_hasHole hhole, hhole]
        simp only [Bool.false_eq_true, if_false] at h ⊢
        cases hres : reservedOf w with
        | none =>
            rw [hres] at h
            cases h
            simp only [Reader.fill, List.map_cons, List.map_nil, fillWord_of_not_hasHole hhole]
        | some word =>
            rw [hres] at h
            cases h
            simp only [Reader.fill, List.map_append, List.map_cons, List.map_nil, Item.fill]
  · rw [if_neg hbegin] at h ⊢
    cases h
    simp only [Reader.fill, List.map_append, List.map_cons, List.map_nil]

theorem readerStep_fill {r r' : Reader} {a : Token} (h : r.step a = some r') :
    (r.fill σ).step (a.fill σ) = some (r'.fill σ) := by
  have hpending : (r.fill σ).pending = r.pending := rfl
  cases a with
  | word w =>
      simp only [Token.fill, Reader.step, hpending] at h ⊢
      cases hp : r.pending with
      | number digits =>
          rw [hp] at h
          cases h
      | target number op =>
          rw [hp] at h
          cases h
          simp only [Reader.fill, List.map_append, List.map_cons, List.map_nil, Redirect.fill]
      | nothing =>
          rw [hp] at h
          exact addWord_fill h
  | number digits =>
      simp only [Token.fill, Reader.step, hpending] at h ⊢
      cases hp : r.pending with
      | nothing =>
          rw [hp] at h
          cases h
          rfl
      | _ =>
          rw [hp] at h
          cases h
  | op op =>
      simp only [Token.fill, Reader.step, hpending] at h ⊢
      cases hp : r.pending with
      | target number op' =>
          rw [hp] at h
          cases h
      | number digits =>
          simp only [hp] at h ⊢
          split_ifs at h ⊢
          cases h
          rfl
      | nothing =>
          simp only [hp] at h ⊢
          split_ifs at h ⊢
          · cases h
            rfl
          · cases h
            rw [← flush_fill]
            simp only [Reader.fill, List.map_append, List.map_cons, List.map_nil, Item.fill]

theorem foldlM_fill {r r' : Reader} {tokens : List Token}
    (h : tokens.foldlM Reader.step r = some r') :
    (tokens.map (Token.fill σ)).foldlM Reader.step (r.fill σ) = some (r'.fill σ) := by
  induction tokens generalizing r with
  | nil =>
      cases h
      rfl
  | cons a tokens ih =>
      rw [List.foldlM_cons] at h
      obtain ⟨m, hstep, hrun⟩ := Option.bind_eq_some_iff.mp h
      rw [List.map_cons, List.foldlM_cons, readerStep_fill hstep]
      exact ih hrun

theorem readTokens_fill {tokens : List Token} {items : List Item}
    (h : readTokens tokens = some items) :
    readTokens (tokens.map (Token.fill σ)) = some (items.map (Item.fill σ)) := by
  obtain ⟨r, hrun, hend⟩ := Option.bind_eq_some_iff.mp h
  have hfold : (tokens.map (Token.fill σ)).foldlM Reader.step .start = some (r.fill σ) :=
    foldlM_fill hrun
  have hpending : (r.fill σ).pending = r.pending := rfl
  rw [readTokens, hfold, Option.bind_some]
  rw [Reader.finish] at hend ⊢
  rw [hpending]
  cases hp : r.pending with
  | nothing =>
      rw [hp] at hend
      cases hend
      rw [← flush_fill]
      rfl
  | _ =>
      rw [hp] at hend
      cases hend

theorem bodies_fill {bodies : List (List Token)} {items : List (List Item)}
    (h : bodies.mapM readTokens = some items) :
    (bodies.map fun b => b.map (Token.fill σ)).mapM readTokens =
      some (items.map fun b => b.map (Item.fill σ)) := by
  induction bodies generalizing items with
  | nil =>
      cases h
      rfl
  | cons b bodies ih =>
      rw [List.mapM_cons] at h
      obtain ⟨x, hx, h⟩ := Option.bind_eq_some_iff.mp h
      obtain ⟨xs, hxs, h⟩ := Option.bind_eq_some_iff.mp h
      cases h
      rw [List.map_cons, List.mapM_cons, readTokens_fill hx, ih hxs]
      rfl

/-- Literal text in the holes of a template is read as what stands in the words that have the
holes. -/
theorem readScript_fill (hσ : ∀ n, isLiteral (σ n) = true) {s : List Sym} {r : Script}
    (h : readTemplate s = some r) : readScript (fillText σ s) = some (r.fill σ) := by
  obtain ⟨⟨bodies, tokens⟩, hlex, h⟩ := Option.bind_eq_some_iff.mp h
  obtain ⟨l, hrun, hend⟩ := Option.bind_eq_some_iff.mp hlex
  obtain ⟨items, hbodies, h⟩ := Option.bind_eq_some_iff.mp h
  obtain ⟨main, hmain, rfl⟩ := Option.map_eq_some_iff.mp h
  have hfill : Lexer.start.run ((fillText σ s).map .char) = some (l.fill σ) := run_fill hσ s hrun
  rw [readScript, readTemplate, hfill, Option.bind_some, finish_fill hend, Option.bind_some]
  dsimp only
  rw [bodies_fill hbodies, Option.bind_some, readTokens_fill hmain]
  rfl

end Fill

end ShellTemplate
