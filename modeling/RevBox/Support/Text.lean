import Mathlib.Algebra.Group.Int.Defs
import Mathlib.Algebra.GroupWithZero.Nat
import Mathlib.Data.List.DropRight

/-!
# Support — Text

The string operations of the Rust standard library that line-oriented command output and
`/proc` files are read with, on lists of characters.
-/

namespace Text

/-- The instance that membership in a list of texts is decided with. -/
instance lawfulBEq : LawfulBEq (List Char) := List.instLawfulBEq

/-- `char::is_whitespace`: the Unicode `White_Space` property. -/
def isWhitespace (c : Char) : Bool :=
  let n := c.toNat
  (9 ≤ n && n ≤ 13) || n = 0x20 || n = 0x85 || n = 0xA0 || n = 0x1680 ||
    (0x2000 ≤ n && n ≤ 0x200A) || n = 0x2028 || n = 0x2029 || n = 0x202F || n = 0x205F ||
    n = 0x3000

/-- `char::is_ascii_digit`. -/
def isAsciiDigit (c : Char) : Bool := 0x30 ≤ c.toNat && c.toNat ≤ 0x39

/-- `char::is_ascii_alphanumeric`. -/
def isAsciiAlphanumeric (c : Char) : Bool :=
  isAsciiDigit c || (0x41 ≤ c.toNat && c.toNat ≤ 0x5A) || (0x61 ≤ c.toNat && c.toNat ≤ 0x7A)

/-- `str::trim_start`. -/
def trimStart (s : List Char) : List Char := s.dropWhile isWhitespace

/-- `str::trim_end`. -/
def trimEnd (s : List Char) : List Char := (s.reverse.dropWhile isWhitespace).reverse

/-- `str::trim`. -/
def trim (s : List Char) : List Char := trimEnd (trimStart s)

/-- `str::trim_end_matches` of one character. -/
def trimEndMatches (c : Char) (s : List Char) : List Char :=
  (s.reverse.dropWhile fun d => d = c).reverse

/-- A line without the carriage return that ends it, given backwards. -/
def chomp : List Char → List Char
  | '\r' :: line => line.reverse
  | line => line.reverse

/-- `lines` after the characters `line` of the current line, given backwards. -/
def linesFrom (line : List Char) : List Char → List (List Char)
  | [] => if line = [] then [] else [line.reverse]
  | '\n' :: s => chomp line :: linesFrom [] s
  | c :: s => linesFrom (c :: line) s

/-- `str::lines`. -/
def lines (s : List Char) : List (List Char) := linesFrom [] s

/-- `split_whitespace` after the characters `word` of the current word, given backwards. -/
def wordsFrom (word : List Char) : List Char → List (List Char)
  | [] => if word = [] then [] else [word.reverse]
  | c :: s =>
      if isWhitespace c then
        if word = [] then wordsFrom [] s else word.reverse :: wordsFrom [] s
      else wordsFrom (c :: word) s

/-- `str::split_whitespace`. -/
def splitWhitespace (s : List Char) : List (List Char) := wordsFrom [] s

/-- `str::starts_with`. -/
def startsWith (pattern s : List Char) : Bool := pattern.isPrefixOf s

/-- `str::contains`. -/
def contains (pattern : List Char) : List Char → Bool
  | [] => pattern = []
  | c :: s => startsWith pattern (c :: s) || contains pattern s

/-- The value of decimal digits. -/
def digits (s : List Char) : Nat := s.foldl (fun n c => 10 * n + (c.toNat - 0x30)) 0

/-- `str::parse` into an unsigned integer below `bound`: an optional `+`, then digits. -/
def parseUnsigned (bound : Nat) (s : List Char) : Option Nat :=
  let s := match s with
    | '+' :: rest => rest
    | s => s
  if s ≠ [] && s.all isAsciiDigit && decide (digits s < bound) then some (digits s) else none

/-- `from_str_radix`, for a radix up to ten, into an unsigned integer below `bound`. -/
def fromStrRadix (radix bound : Nat) (s : List Char) : Option Nat :=
  let s := match s with
    | '+' :: rest => rest
    | s => s
  let n := Nat.ofDigitChars radix s 0
  if s ≠ [] && s.all (fun c => 0x30 ≤ c.toNat && c.toNat < 0x30 + radix) && decide (n < bound) then
    some n
  else none

/-- `str::parse` into an `i64`, with the text of its error. -/
def parseI64 (s : List Char) : Except String Int :=
  let (negative, ds) := match s with
    | '-' :: rest => (true, rest)
    | '+' :: rest => (false, rest)
    | s => (false, s)
  if s = [] then .error "cannot parse integer from empty string"
  else if ds = [] || !ds.all isAsciiDigit then .error "invalid digit found in string"
  else if negative then
    if digits ds ≤ 2 ^ 63 then .ok (-(digits ds : Int))
    else .error "number too small to fit in target type"
  else if digits ds < 2 ^ 63 then .ok (digits ds)
  else .error "number too large to fit in target type"

/-- `[T]::join` with a separator. -/
def join (separator : Char) (parts : List (List Char)) : List Char :=
  List.intercalate [separator] parts

/-- `str::splitn` by one character. -/
def splitn (c : Char) : Nat → List Char → List (List Char)
  | 0, _ => []
  | 1, s => [s]
  | n + 2, s =>
      match s.dropWhile fun d => d ≠ c with
      | [] => [s]
      | _ :: rest => (s.takeWhile fun d => d ≠ c) :: splitn c (n + 1) rest

/-- `str::find` of one character. -/
def find (c : Char) (s : List Char) : Option Nat := s.idxOf? c

/-- `str::rfind` of one character. -/
def rfind (c : Char) (s : List Char) : Option Nat :=
  (s.reverse.idxOf? c).map fun i => s.length - 1 - i

/-- The escapes of `{:?}` inside a string literal.  A character above ASCII stands for itself. -/
def escapeDebug (c : Char) : String :=
  if c = '\t' then "\\t"
  else if c = '\r' then "\\r"
  else if c = '\n' then "\\n"
  else if c = '"' then "\\\""
  else if c = '\\' then "\\\\"
  else if c.toNat = 0 then "\\0"
  else if c.toNat < 0x20 || c.toNat = 0x7F then
    "\\u\x7b" ++ String.ofList (Nat.toDigits 16 c.toNat) ++ "\x7d"
  else c.toString

/-- `{:?}` of a string. -/
def debugStr (s : String) : String := "\"" ++ String.join (s.toList.map escapeDebug) ++ "\""

/-- A line is as long as the text says, up to its end. -/
theorem linesFrom_append : ∀ {l acc : List Char} (rest : List Char), '\n' ∉ l →
    linesFrom acc (l ++ '\n' :: rest) = chomp (l.reverse ++ acc) :: linesFrom [] rest
  | [], acc, rest, _ => by simp [linesFrom]
  | c :: l, acc, rest, h => by
      have hc : c ≠ '\n' := fun hc => h (hc ▸ List.mem_cons_self)
      have hl : '\n' ∉ l := fun hl => h (List.mem_cons_of_mem _ hl)
      have step : linesFrom acc (c :: (l ++ '\n' :: rest)) = linesFrom (c :: acc) (l ++ '\n' :: rest) := by
        rw [linesFrom]
        exact fun hn => hc hn
      rw [List.cons_append, step, linesFrom_append rest hl]
      simp

theorem chomp_of_not_mem {l : List Char} (h : '\r' ∉ l) : chomp l = l.reverse := by
  unfold chomp
  split
  · exact absurd List.mem_cons_self h
  · rfl

/-- The lines of a text whose every line is ended. -/
theorem lines_flatMap {ls : List (List Char)} (h : ∀ l ∈ ls, '\n' ∉ l ∧ '\r' ∉ l) :
    lines (ls.flatMap fun l => l ++ ['\n']) = ls := by
  induction ls with
  | nil => rfl
  | cons l ls ih =>
      obtain ⟨hn, hr⟩ := h l List.mem_cons_self
      have ih := ih fun l hl => h l (List.mem_cons_of_mem _ hl)
      rw [lines, List.flatMap_cons, List.append_assoc, List.singleton_append,
        linesFrom_append _ hn, List.append_nil, chomp_of_not_mem (by simpa using hr),
        List.reverse_reverse]
      exact congrArg _ ih

/-- A joined text holds all its parts. -/
theorem le_length_join (c : Char) (ls : List (List Char)) :
    (ls.map List.length).sum ≤ (join c ls).length := by
  unfold join
  induction ls with
  | nil => exact Nat.le_refl 0
  | cons l ls ih =>
      cases ls with
      | nil => simp
      | cons l' ls =>
          rw [List.intercalate_cons_cons, List.length_append, List.length_append, List.map_cons,
            List.sum_cons]
          omega

/-- The last place of a character is before a text that does not hold it. -/
theorem rfind_append {c : Char} (s : List Char) {tail : List Char} (h : c ∉ tail) :
    rfind c (s ++ c :: tail) = some s.length := by
  have hidx : ((s ++ c :: tail).reverse).idxOf? c = some tail.length := by
    rw [List.reverse_append, List.reverse_cons, List.append_assoc, List.idxOf?,
      List.findIdx?_append, List.findIdx?_eq_none_iff.mpr fun d hd => ?_]
    · simp [List.findIdx?_cons]
    · have hne : d ≠ c := fun hdc => h (hdc ▸ List.mem_reverse.mp hd)
      simpa using hne
  rw [rfind, hidx, Option.map_some, List.length_append, List.length_cons]
  congr 1
  omega

/-- A blank before the first word is skipped. -/
theorem wordsFrom_blank {b : Char} (hb : isWhitespace b = true) (s : List Char) :
    wordsFrom [] (b :: s) = wordsFrom [] s := by
  simp [wordsFrom, hb]

/-- A word takes the characters up to the next blank. -/
theorem wordsFrom_append {word : List Char} (h : ∀ c ∈ word, isWhitespace c = false) {acc : List Char}
    (hne : word ≠ [] ∨ acc ≠ []) {b : Char} (hb : isWhitespace b = true) (rest : List Char) :
    wordsFrom acc (word ++ b :: rest) = (acc.reverse ++ word) :: wordsFrom [] (b :: rest) := by
  induction word generalizing acc with
  | nil =>
      have hacc : acc ≠ [] := hne.resolve_left fun h => h rfl
      simp [wordsFrom, hb, hacc]
  | cons c word ih =>
      rw [List.cons_append, wordsFrom, if_neg (by simp [h c List.mem_cons_self]),
        ih (fun d hd => h d (List.mem_cons_of_mem _ hd)) (.inr (List.cons_ne_nil _ _))]
      simp

/-- The words of a text where a blank stands before each word and one after the last. -/
theorem wordsFrom_flatMap {b e : Char} (hb : isWhitespace b = true) (he : isWhitespace e = true)
    {words : List (List Char)} (h : ∀ w ∈ words, w ≠ [] ∧ ∀ c ∈ w, isWhitespace c = false)
    (rest : List Char) : wordsFrom [] ((words.flatMap fun w => b :: w) ++ e :: rest) =
      words ++ wordsFrom [] rest := by
  induction words with
  | nil => exact wordsFrom_blank he rest
  | cons w words ih =>
      obtain ⟨hne, hw⟩ := h w List.mem_cons_self
      have ih := ih fun w hw => h w (List.mem_cons_of_mem _ hw)
      have hblank : ∃ c tail, isWhitespace c = true ∧
          (words.flatMap fun w => b :: w) ++ e :: rest = c :: tail := by
        cases words with
        | nil => exact ⟨e, rest, he, rfl⟩
        | cons w' words => exact ⟨b, _, hb, rfl⟩
      obtain ⟨c, tail, hc, htail⟩ := hblank
      rw [List.flatMap_cons, List.append_assoc, List.cons_append, wordsFrom_blank hb, htail,
        wordsFrom_append hw (.inl hne) hc, ← htail, ih]
      rfl

theorem splitWhitespace_flatMap {b e : Char} (hb : isWhitespace b = true)
    (he : isWhitespace e = true) {words : List (List Char)}
    (h : ∀ w ∈ words, w ≠ [] ∧ ∀ c ∈ w, isWhitespace c = false) :
    splitWhitespace ((words.flatMap fun w => b :: w) ++ [e]) = words :=
  (wordsFrom_flatMap hb he h []).trans (List.append_nil words)

/-- A blank parts the words. -/
theorem wordsFrom_parts {b : Char} (hb : isWhitespace b = true) (rest : List Char) :
    ∀ (s acc : List Char), wordsFrom acc (s ++ b :: rest) = wordsFrom acc s ++ wordsFrom [] rest
  | [], acc => by
      have hblank : wordsFrom acc (b :: rest) =
          if acc = [] then wordsFrom [] rest else acc.reverse :: wordsFrom [] rest := if_pos hb
      rw [List.nil_append, hblank, wordsFrom]
      split <;> rfl
  | c :: s, acc => by
      rw [List.cons_append, wordsFrom, wordsFrom]
      split
      · split
        · exact wordsFrom_parts hb rest s []
        · rw [List.cons_append, wordsFrom_parts hb rest s []]
      · exact wordsFrom_parts hb rest s (c :: acc)

theorem splitWhitespace_parts {b : Char} (hb : isWhitespace b = true) (s rest : List Char) :
    splitWhitespace (s ++ b :: rest) = splitWhitespace s ++ splitWhitespace rest :=
  wordsFrom_parts hb rest s []

/-- A decimal number, as `{}` writes it. -/
def decimal (n : Nat) : List Char := Nat.toDigits 10 n

theorem isAsciiDigit_of_mem_decimal {n : Nat} {c : Char} (h : c ∈ decimal n) :
    isAsciiDigit c = true := by
  have hd := Nat.isDigit_of_mem_toDigits (by decide) (by decide) h
  simp only [Char.isDigit, ge_iff_le, Bool.and_eq_true, decide_eq_true_eq, UInt32.le_iff_toNat_le]
    at hd
  simp only [isAsciiDigit, Bool.and_eq_true, decide_eq_true_eq]
  exact hd

theorem decimal_ne_nil (n : Nat) : decimal n ≠ [] := Nat.toDigits_ne_nil

theorem not_whitespace_of_isAsciiDigit {c : Char} (h : isAsciiDigit c = true) :
    isWhitespace c = false := by
  obtain ⟨hl, hu⟩ : 0x30 ≤ c.toNat ∧ c.toNat ≤ 0x39 := by simpa [isAsciiDigit] using h
  have hbounds : ∀ n : Nat, 0x30 ≤ n → n ≤ 0x39 → ¬ (9 ≤ n ∧ n ≤ 13) ∧ n ≠ 0x20 ∧ n < 0x80 := by
    omega
  obtain ⟨h₁, h₂, h₃⟩ := hbounds _ hl hu
  have hne : ∀ m : Nat, 0x80 ≤ m → (decide (c.toNat = m)) = false := fun m hm => by
    simpa using Nat.ne_of_lt (Nat.lt_of_lt_of_le h₃ hm)
  have hgap : decide (0x2000 ≤ c.toNat) = false := by
    simpa using Nat.lt_of_lt_of_le h₃ (by decide : 0x80 ≤ 0x2000)
  simp only [isWhitespace, Bool.or_eq_false_iff, hgap, Bool.false_and, and_true]
  exact ⟨⟨⟨⟨⟨⟨⟨⟨⟨by simpa using h₁, by simpa using h₂⟩, hne _ (by decide)⟩, hne _ (by decide)⟩,
    hne _ (by decide)⟩, hne _ (by decide)⟩, hne _ (by decide)⟩, hne _ (by decide)⟩,
    hne _ (by decide)⟩, hne _ (by decide)⟩

/-- **A number is read as it was written.** -/
theorem parseUnsigned_decimal {bound n : Nat} (h : n < bound) :
    parseUnsigned bound (decimal n) = some n := by
  have hd : digits (decimal n) = n := Nat.ofDigitChars_ten_toDigits
  have hall : (decimal n).all isAsciiDigit = true :=
    List.all_eq_true.mpr fun c hc => isAsciiDigit_of_mem_decimal hc
  unfold parseUnsigned
  split
  · rename_i rest hrest
    have := isAsciiDigit_of_mem_decimal (n := n) (c := '+') (hrest ▸ List.mem_cons_self)
    exact absurd this (by decide)
  · simp [hd, hall, h, decimal_ne_nil]

/-- A number that is too large is not read. -/
theorem parseUnsigned_decimal_ge {bound n : Nat} (h : bound ≤ n) :
    parseUnsigned bound (decimal n) = none := by
  have hd : digits (decimal n) = n := Nat.ofDigitChars_ten_toDigits
  unfold parseUnsigned
  split
  · rename_i rest hrest
    have := isAsciiDigit_of_mem_decimal (n := n) (c := '+') (hrest ▸ List.mem_cons_self)
    exact absurd this (by decide)
  · simp [hd, h]

theorem digit_of_mem_toDigits {radix n : Nat} (hr : 1 < radix) (hr' : radix ≤ 10) {c : Char}
    (h : c ∈ Nat.toDigits radix n) : 0x30 ≤ c.toNat ∧ c.toNat < 0x30 + radix := by
  have digit : ∀ d < radix, 0x30 ≤ d.digitChar.toNat ∧ d.digitChar.toNat < 0x30 + radix := by
    intro d hd
    have hval : ∀ d < 10, d.digitChar.toNat = 0x30 + d := by decide
    rw [hval d (Nat.lt_of_lt_of_le hd hr')]
    omega
  induction n using Nat.strongRecOn with
  | ind n ih =>
      by_cases hlt : n < radix
      · rw [Nat.toDigits_of_lt_base hlt] at h
        rw [List.mem_singleton.mp h]
        exact digit n hlt
      · rw [Nat.toDigits_of_base_le hr (Nat.le_of_not_lt hlt)] at h
        rcases List.mem_append.mp h with h | h
        · exact ih _ (Nat.div_lt_self (by omega) hr) h
        · rw [List.mem_singleton.mp h]
          exact digit _ (Nat.mod_lt _ (by omega))

/-- A number is read as it was written, in another radix. -/
theorem fromStrRadix_toDigits {radix bound n : Nat} (hr : 1 < radix) (hr' : radix ≤ 10)
    (h : n < bound) : fromStrRadix radix bound (Nat.toDigits radix n) = some n := by
  have hd : Nat.ofDigitChars radix (Nat.toDigits radix n) 0 = n :=
    Nat.ofDigitChars_toDigits hr hr'
  have hall : (Nat.toDigits radix n).all (fun c => 0x30 ≤ c.toNat && c.toNat < 0x30 + radix) =
      true := by
    refine List.all_eq_true.mpr fun c hc => ?_
    obtain ⟨hl, hu⟩ := digit_of_mem_toDigits hr hr' hc
    simp [hl, hu]
  unfold fromStrRadix
  split
  · rename_i rest hrest
    have := (digit_of_mem_toDigits (n := n) hr hr' (c := '+') (hrest ▸ List.mem_cons_self)).1
    exact absurd this (by decide)
  · simp only [hd, hall, h, Nat.toDigits_ne_nil, ne_eq, not_false_eq_true, decide_true,
      Bool.and_true, if_true]

theorem splitn_append {c : Char} {l : List Char} (n : Nat) (rest : List Char) (h : c ∉ l) :
    splitn c (n + 2) (l ++ c :: rest) = l :: splitn c (n + 1) rest := by
  have hl : ∀ d ∈ l, decide (d ≠ c) = true := by
    intro d hd
    exact decide_eq_true fun hdc => h (hdc ▸ hd)
  rw [splitn, List.dropWhile_append_of_pos hl, List.takeWhile_append_of_pos hl]
  simp

theorem parseI64_of_digits {s : List Char} (hne : s ≠ [])
    (hd : ∀ c ∈ s, isAsciiDigit c = true) : parseI64 s =
      if digits s < 2 ^ 63 then .ok (digits s : Int)
      else .error "number too large to fit in target type" := by
  have hall : s.all isAsciiDigit = true := List.all_eq_true.mpr hd
  unfold parseI64
  split
  rename_i negative ds hsign
  split at hsign
  · exact absurd (hd '-' List.mem_cons_self) (by decide)
  · exact absurd (hd '+' List.mem_cons_self) (by decide)
  · obtain ⟨rfl, rfl⟩ := Prod.mk.inj hsign
    simp [hne, hall]

/-- A number is read as it was written, unless it is too large. -/
theorem parseI64_decimal (n : Nat) : parseI64 (decimal n) =
    if n < 2 ^ 63 then .ok (n : Int) else .error "number too large to fit in target type" := by
  have hd : digits (decimal n) = n := Nat.ofDigitChars_ten_toDigits
  rw [parseI64_of_digits (decimal_ne_nil n) fun c hc => isAsciiDigit_of_mem_decimal hc, hd]

/-! ### Blanks -/

/-- A text without blanks at either end. -/
theorem trim_eq_self {s : List Char} (hh : ∀ h : s ≠ [], isWhitespace (s.head h) = false)
    (hl : ∀ h : s ≠ [], isWhitespace (s.getLast h) = false) : trim s = s := by
  have hstart : trimStart s = s := by
    cases s with
    | nil => rfl
    | cons c s => exact List.dropWhile_cons_of_neg (by simpa using hh (List.cons_ne_nil c s))
  rw [trim, hstart]
  exact List.rdropWhile_eq_self_iff.mpr fun h => by simp [hl h]

/-- What is left of a text begins with no blank. -/
theorem head_trim {s : List Char} (h : trim s ≠ []) : isWhitespace ((trim s).head h) = false := by
  -- what is cut off the end leaves the first character
  obtain ⟨rest, hrest⟩ := List.rdropWhile_prefix isWhitespace (l := trimStart s)
  have hne : trimStart s ≠ [] := fun hn => h (by rw [trim, hn]; rfl)
  have hhead : (trim s).head h = (trimStart s).head hne := by
    have : (trim s ++ rest).head (by simp [h]) = (trimStart s).head hne := by
      congr 1
    rw [← this, List.head_append_of_ne_nil h]
  rw [hhead]
  exact List.head_dropWhile_not isWhitespace hne

/-- What is left of a text has no blanks at either end. -/
theorem trim_trim (s : List Char) : trim (trim s) = trim s :=
  trim_eq_self head_trim fun h =>
    eq_false_of_ne_true (List.rdropWhile_last_not isWhitespace (trimStart s) h)

/-- A text without any blanks. -/
theorem trim_of_no_blank {s : List Char} (h : ∀ c ∈ s, isWhitespace c = false) : trim s = s :=
  trim_eq_self (fun hne => h _ (List.head_mem hne)) fun hne => h _ (List.getLast_mem hne)

theorem wordsFrom_no_blank : ∀ {s acc w : List Char}, (∀ c ∈ acc, isWhitespace c = false) →
    w ∈ wordsFrom acc s → ∀ c ∈ w, isWhitespace c = false
  | [], acc, w, hacc, hw => by
      unfold wordsFrom at hw
      split at hw
      · cases hw
      · rw [List.mem_singleton.mp hw]
        exact fun c hc => hacc c (List.mem_reverse.mp hc)
  | d :: s, acc, w, hacc, hw => by
      unfold wordsFrom at hw
      split at hw
      · split at hw
        · exact wordsFrom_no_blank (fun c hc => by cases hc) hw
        · rcases List.mem_cons.mp hw with rfl | hw
          · exact fun c hc => hacc c (List.mem_reverse.mp hc)
          · exact wordsFrom_no_blank (fun c hc => by cases hc) hw
      · rename_i hd
        refine wordsFrom_no_blank (fun c hc => ?_) hw
        rcases List.mem_cons.mp hc with rfl | hc
        · simpa using hd
        · exact hacc c hc

/-- A word by itself. -/
theorem splitWhitespace_word {w : List Char} (hne : w ≠ [])
    (h : ∀ c ∈ w, isWhitespace c = false) : splitWhitespace w = [w] := by
  have hparts := splitWhitespace_parts (b := ' ') rfl w []
  have hword : wordsFrom [] (w ++ ' ' :: []) = _ := wordsFrom_append h (.inl hne) rfl []
  rw [splitWhitespace, hword] at hparts
  exact (List.append_cancel_right hparts).symm

/-- A word holds something. -/
theorem wordsFrom_ne_nil : ∀ {s acc w : List Char}, w ∈ wordsFrom acc s → w ≠ []
  | [], acc, w, hw => by
      unfold wordsFrom at hw
      split at hw
      · cases hw
      · rw [List.mem_singleton.mp hw]
        exact fun hnil => ‹acc ≠ []› (List.reverse_eq_nil_iff.mp hnil)
  | d :: s, acc, w, hw => by
      unfold wordsFrom at hw
      split at hw
      · split at hw
        · exact wordsFrom_ne_nil hw
        · rcases List.mem_cons.mp hw with rfl | hw
          · exact fun hnil => ‹acc ≠ []› (List.reverse_eq_nil_iff.mp hnil)
          · exact wordsFrom_ne_nil hw
      · exact wordsFrom_ne_nil hw

theorem splitWhitespace_ne_nil {s w : List Char} (h : w ∈ splitWhitespace s) : w ≠ [] :=
  wordsFrom_ne_nil h

/-- A word holds no blank. -/
theorem splitWhitespace_no_blank {s w : List Char} (h : w ∈ splitWhitespace s) :
    ∀ c ∈ w, isWhitespace c = false :=
  wordsFrom_no_blank (fun c hc => by cases hc) h

/-! ### Lines and joined lines -/

/-- Induction on a list cut at each `c`. -/
theorem cut_induction {α : Type} {P : List α → Prop} (c : α) (last : ∀ s, c ∉ s → P s)
    (cut : ∀ l s, c ∉ l → P s → P (l ++ c :: s)) (s : List α) : P s := by
  induction hn : s.length using Nat.strongRecOn generalizing s with
  | ind n ih =>
      by_cases hc : c ∈ s
      · obtain ⟨l, rest, rfl, hl⟩ := List.eq_append_cons_of_mem hc
        refine cut l rest hl (ih rest.length ?_ rest rfl)
        rw [← hn, List.length_append, List.length_cons]
        omega
      · exact last s hc

/-- The parts of a text have no separator in them. -/
theorem not_mem_of_mem_splitOn (c : Char) (s : List Char) : ∀ part ∈ s.splitOn c, c ∉ part := by
  refine cut_induction (P := fun s => ∀ part ∈ s.splitOn c, c ∉ part) c (fun s hs part hp => ?_)
    (fun l s hl ih part hp => ?_) s
  · rw [List.splitOn_eq_singleton hs] at hp
    rwa [List.mem_singleton.mp hp]
  · rw [List.splitOn_append_cons_self_of_not_mem hl] at hp
    rcases List.mem_cons.mp hp with rfl | hp
    · exact hl
    · exact ih part hp

theorem lines_append {l : List Char} (rest : List Char) (h : '\n' ∉ l) :
    lines (l ++ '\n' :: rest) = chomp l.reverse :: lines rest := by
  rw [lines, linesFrom_append rest h, List.append_nil]
  rfl

/-- The lines up to a line end are apart from what follows. -/
theorem linesFrom_ended (rest : List Char) : ∀ (s acc : List Char),
    linesFrom acc (s ++ '\n' :: rest) = linesFrom acc (s ++ ['\n']) ++ linesFrom [] rest
  | [], _ => rfl
  | c :: s, acc => by
      by_cases hc : c = '\n'
      · subst hc
        exact congrArg (chomp acc :: ·) (linesFrom_ended rest s [])
      · have hcons : ∀ t, linesFrom acc (c :: t) = linesFrom (c :: acc) t := fun t => by
          rw [linesFrom]
          exact fun h => hc h
        rw [List.cons_append, List.cons_append, hcons, hcons, linesFrom_ended rest s (c :: acc)]

theorem lines_ended (s rest : List Char) :
    lines (s ++ '\n' :: rest) = lines (s ++ ['\n']) ++ lines rest := linesFrom_ended rest s []

theorem linesFrom_of_not_mem : ∀ {s acc : List Char}, '\n' ∉ s → s ≠ [] ∨ acc ≠ [] →
    linesFrom acc s = [acc.reverse ++ s]
  | [], acc, _, h => by
      rw [linesFrom, if_neg (h.resolve_left fun h => h rfl), List.append_nil]
  | c :: s, acc, hs, _ => by
      have hc : c ≠ '\n' := fun hc => hs (hc ▸ List.mem_cons_self)
      rw [linesFrom, linesFrom_of_not_mem (fun h => hs (List.mem_cons_of_mem _ h))
        (.inr (List.cons_ne_nil c acc)), List.reverse_cons, List.append_assoc]
      · rfl
      · exact fun h => hc h

/-- A text without line ends is one line, if there is any. -/
theorem lines_of_not_mem {s : List Char} (h : '\n' ∉ s) (hne : s ≠ []) : lines s = [s] :=
  linesFrom_of_not_mem h (.inl hne)

theorem chomp_subset (line : List Char) : ∀ c ∈ chomp line, c ∈ line := by
  intro c hc
  unfold chomp at hc
  split at hc
  · exact List.mem_cons_of_mem _ (List.mem_reverse.mp hc)
  · exact List.mem_reverse.mp hc

/-- A line holds no line end. -/
theorem lines_no_newline (s : List Char) : ∀ l ∈ lines s, '\n' ∉ l := by
  refine cut_induction (P := fun s => ∀ l ∈ lines s, '\n' ∉ l) '\n' (fun s hs l hl => ?_)
    (fun line rest hline ih l hl => ?_) s
  · cases s with
    | nil => cases hl
    | cons c s =>
        rw [lines_of_not_mem hs (List.cons_ne_nil c s)] at hl
        rw [List.mem_singleton.mp hl]
        exact hs
  · rw [lines_append rest hline] at hl
    rcases List.mem_cons.mp hl with rfl | hl
    · exact fun hc => hline (List.mem_reverse.mp (chomp_subset _ _ hc))
    · exact ih l hl

theorem subset_of_mem_lines {l : List Char} (s : List Char) : l ∈ lines s → l ⊆ s := by
  refine cut_induction (P := fun s => l ∈ lines s → l ⊆ s) '\n' (fun s hs hl => ?_)
    (fun line rest hline ih hl => ?_) s
  · by_cases hne : s = []
    · rw [hne] at hl
      cases hl
    · rw [lines_of_not_mem hs hne] at hl
      rw [List.mem_singleton.mp hl]
      exact List.Subset.refl s
  · rw [lines_append rest hline] at hl
    rcases List.mem_cons.mp hl with rfl | hl
    · exact fun c hc => List.mem_append_left _ (List.mem_reverse.mp (chomp_subset _ _ hc))
    · exact fun c hc => List.mem_append_right _ (List.mem_cons_of_mem _ (ih hl hc))

/-- A blank at the end is trimmed. -/
theorem trim_concat {c : Char} (hc : isWhitespace c = true) (l : List Char) :
    trim (l ++ [c]) = trim l := by
  have hend : ∀ t, trimEnd (t ++ [c]) = trimEnd t := fun t => by
    rw [trimEnd, List.reverse_concat, List.dropWhile_cons_of_pos hc, trimEnd]
  have hblank : [c].dropWhile isWhitespace = [] := List.dropWhile_cons_of_pos hc
  rw [trim, trim, trimStart, List.dropWhile_append, hblank]
  split
  · rename_i hempty
    rw [trimStart, List.isEmpty_iff.mp hempty]
  · exact hend _

/-- The carriage return at the end of a line is trimmed. -/
theorem trim_chomp (l : List Char) : trim (chomp l.reverse) = trim l := by
  unfold chomp
  split
  · rename_i line hline
    have hl : l = line.reverse ++ ['\r'] := by rw [← List.reverse_cons, ← hline, List.reverse_reverse]
    rw [hl, trim_concat rfl]
  · rw [List.reverse_reverse]

/-- A carriage return at its end is a blank of the line. -/
theorem trimEnd_chomp (l : List Char) : trimEnd (chomp l.reverse) = trimEnd l := by
  unfold chomp
  split
  · rename_i line hline
    have hl : l = line.reverse ++ ['\r'] := by
      rw [← List.reverse_reverse l, hline, List.reverse_cons]
    have hblank : isWhitespace '\r' = true := rfl
    rw [hl]
    exact (List.rdropWhile_concat_pos isWhitespace _ _ hblank).symm
  · rw [List.reverse_reverse]

/-- What a line end after the text adds to its lines, cut at their ends: an empty one, unless it
ends a line begun before it. -/
def endLine (s : List Char) : List (List Char) :=
  if s = [] ∨ s.getLast? = some '\n' then [[]] else []

theorem endLine_append (l s : List Char) : endLine (l ++ '\n' :: s) = endLine s := by
  cases s with
  | nil => simp [endLine]
  | cons c s => simp [endLine, List.getLast?_append, List.getLast?_cons_cons]

theorem trimmed_lines_append (s rest : List Char) : (lines (s ++ '\n' :: rest)).map trimEnd =
    (lines s).map trimEnd ++ endLine s ++ (lines rest).map trimEnd := by
  refine cut_induction (P := fun s => (lines (s ++ '\n' :: rest)).map trimEnd =
    (lines s).map trimEnd ++ endLine s ++ (lines rest).map trimEnd) '\n' (fun s hs => ?_)
    (fun l s hl ih => ?_) s
  · rw [lines_append rest hs, List.map_cons, trimEnd_chomp]
    cases s with
    | nil => rfl
    | cons c s =>
        have hend : endLine (c :: s) = [] := by
          refine if_neg ?_
          rintro (h | h)
          · cases h
          · exact hs (List.mem_of_getLast? h)
        rw [lines_of_not_mem hs (List.cons_ne_nil c s), hend]
        rfl
  · rw [List.append_assoc, List.cons_append, lines_append _ hl, lines_append _ hl, List.map_cons,
      List.map_cons, ih, endLine_append]
    rfl

theorem lines_eq_nil {s : List Char} : lines s = [] ↔ s = [] := by
  refine ⟨fun h => ?_, fun h => by rw [h]; rfl⟩
  by_cases hn : '\n' ∈ s
  · obtain ⟨l, rest, rfl, hl⟩ := List.eq_append_cons_of_mem hn
    rw [lines_append rest hl] at h
    cases h
  · by_contra hne
    rw [lines_of_not_mem hn hne] at h
    cases h

theorem chomp_eq_nil {l : List Char} (h : chomp l.reverse = []) : l = [] ∨ l = ['\r'] := by
  unfold chomp at h
  split at h
  · rename_i line hline
    rw [List.reverse_eq_nil_iff.mp h] at hline
    exact .inr (List.reverse_eq_iff.mp hline)
  · exact .inl (List.reverse_eq_nil_iff.mp (List.reverse_eq_nil_iff.mp h))

/-- One empty line is a line end. -/
theorem lines_eq_empty {s : List Char} (h : lines s = [[]]) : s = ['\n'] ∨ s = ['\r', '\n'] := by
  by_cases hn : '\n' ∈ s
  · obtain ⟨l, rest, rfl, hl⟩ := List.eq_append_cons_of_mem hn
    rw [lines_append rest hl, List.cons_eq_cons, lines_eq_nil] at h
    obtain ⟨hline, rfl⟩ := h
    rcases chomp_eq_nil hline with rfl | rfl
    · exact .inl rfl
    · exact .inr rfl
  · have hne : s ≠ [] := by
      rintro rfl
      cases h
    rw [lines_of_not_mem hn hne, List.singleton_inj] at h
    exact absurd h hne

/-- A text whose first line is empty begins with a line end. -/
theorem head_of_empty_line {s : List Char} (h : (lines s).head? = some []) :
    ∃ c, s.head? = some c ∧ isWhitespace c = true := by
  by_cases hn : '\n' ∈ s
  · obtain ⟨line, rest, rfl, hl⟩ := List.eq_append_cons_of_mem hn
    rw [lines_append rest hl, List.head?_cons, Option.some.injEq] at h
    rcases chomp_eq_nil h with rfl | rfl
    · exact ⟨'\n', rfl, rfl⟩
    · exact ⟨'\r', rfl, rfl⟩
  · have hne : s ≠ [] := by
      rintro rfl
      cases h
    rw [lines_of_not_mem hn hne, List.head?_cons, Option.some.injEq] at h
    exact absurd h hne

/-- A text without blanks at its ends does not begin with an empty line. -/
theorem head_lines_trim {s l : List Char} (h : (lines (trim s)).head? = some l) : l ≠ [] := by
  rintro rfl
  obtain ⟨c, hc, hblank⟩ := head_of_empty_line h
  have hne : trim s ≠ [] := by
    intro hnil
    rw [hnil] at hc
    cases hc
  rw [List.head?_eq_some_head hne, Option.some.injEq] at hc
  have hhead := head_trim hne
  rw [hc, hblank] at hhead
  cases hhead

/-- The lines after a line end are lines. -/
theorem mem_lines_append {l rest : List Char} (s : List Char) (h : l ∈ lines rest) :
    l ∈ lines (s ++ '\n' :: rest) := by
  refine cut_induction (P := fun s => l ∈ lines (s ++ '\n' :: rest)) '\n' (fun s hs => ?_)
    (fun line s hline ih => ?_) s
  · rw [lines_append rest hs]
    exact List.mem_cons_of_mem _ h
  · rw [List.append_assoc, List.cons_append, lines_append _ hline]
    exact List.mem_cons_of_mem _ ih

/-- **A joined text is known by its lines**, but for no line and one empty line. -/
theorem join_inj {c : Char} {xs ys : List (List Char)} (hx : ∀ l ∈ xs, c ∉ l) (hy : ∀ l ∈ ys, c ∉ l)
    (h : join c xs = join c ys) :
    xs = ys ∨ (xs = [] ∧ ys = [[]]) ∨ (xs = [[]] ∧ ys = []) := by
  unfold join at h
  by_cases hxs : xs = []
  · by_cases hys : ys = []
    · exact .inl (hxs.trans hys.symm)
    · refine .inr (.inl ⟨hxs, ?_⟩)
      rw [← List.splitOn_intercalate c hy hys, ← h, hxs]
      rfl
  · by_cases hys : ys = []
    · refine .inr (.inr ⟨?_, hys⟩)
      rw [← List.splitOn_intercalate c hx hxs, h, hys]
      rfl
    · refine .inl ?_
      rw [← List.splitOn_intercalate c hx hxs, h, List.splitOn_intercalate c hy hys]

/-- A part joined at the end. -/
theorem join_concat (c : Char) {xs : List (List Char)} (h : xs ≠ []) (l : List Char) :
    join c (xs ++ [l]) = join c xs ++ c :: l := by
  unfold join
  induction xs with
  | nil => exact absurd rfl h
  | cons x xs ih =>
      cases xs with
      | nil => simp [List.intercalate_cons_cons]
      | cons y xs =>
          rw [List.cons_append, List.cons_append, List.intercalate_cons_cons,
            List.intercalate_cons_cons, ← List.cons_append, ih (List.cons_ne_nil _ _)]
          simp

theorem mem_join {c d : Char} {ls : List (List Char)} (h : d ∈ join c ls) :
    d = c ∨ ∃ l ∈ ls, d ∈ l := by
  unfold join at h
  induction ls with
  | nil => cases h
  | cons l ls ih =>
      cases ls with
      | nil => exact .inr ⟨l, List.mem_singleton.mpr rfl, by simpa using h⟩
      | cons l' ls =>
          rw [List.intercalate_cons_cons, List.mem_append, List.mem_append] at h
          rcases h with (h | h) | h
          · exact .inr ⟨l, List.mem_cons_self, h⟩
          · exact .inl (List.mem_singleton.mp h)
          · rcases ih h with h | ⟨k, hk, h⟩
            · exact .inl h
            · exact .inr ⟨k, List.mem_cons_of_mem _ hk, h⟩

/-- A joined text is empty only where there is nothing to join. -/
theorem join_eq_nil {c : Char} {ls : List (List Char)} (h : join c ls = []) :
    ls = [] ∨ ls = [[]] := by
  unfold join at h
  cases ls with
  | nil => exact .inl rfl
  | cons l ls =>
      cases ls with
      | nil =>
          rw [List.intercalate_singleton] at h
          exact .inr (congrArg (fun l => [l]) h)
      | cons l' ls =>
          rw [List.intercalate_cons_cons] at h
          simp at h

/-- What the separators at the end of a joined text are cut back to: the empty parts at the end
are gone. -/
theorem trimEndMatches_join {c : Char} {xs : List (List Char)} (h : ∀ l ∈ xs, c ∉ l) :
    trimEndMatches c (join c xs) = join c (xs.rdropWhile fun l => l = []) := by
  induction xs using List.reverseRecOn with
  | nil => rfl
  | append_singleton xs l ih =>
      have hl : c ∉ l := h l (by simp)
      have ih := ih fun l hl => h l (List.mem_append_left _ hl)
      rw [List.rdropWhile_concat]
      by_cases hnil : l = []
      · rw [if_pos (by simpa using hnil), ← ih, hnil]
        by_cases hxs : xs = []
        · rw [hxs]
          rfl
        · rw [join_concat c hxs]
          exact List.rdropWhile_concat_pos _ _ _ (by simp)
      · rw [if_neg (by simpa using hnil)]
        refine List.rdropWhile_eq_self_iff.mpr fun hne => ?_
        have hlast : (join c (xs ++ [l])).getLast hne ∈ l := by
          by_cases hxs : xs = []
          · simp [hxs, join, List.getLast_mem hnil]
          · have hjoin := join_concat c hxs l
            simp only [hjoin]
            rw [List.getLast_append_of_ne_nil _ (List.cons_ne_nil c l), List.getLast_cons hnil]
            exact List.getLast_mem hnil
        intro hc
        rw [decide_eq_true_eq] at hc
        exact hl (hc ▸ hlast)

/-! ### The lines of a trimmed text -/

theorem trimEndMatches_replicate {c : Char} {s : List Char} (h : c ∉ s) (n : Nat) :
    trimEndMatches c (s ++ List.replicate n c) = s := by
  have hkeep : s.reverse.dropWhile (fun d => d = c) = s.reverse := by
    refine List.dropWhile_eq_self_iff.mpr fun hlen => ?_
    have hmem : s.reverse[0] ∈ s := List.mem_reverse.mp (List.getElem_mem hlen)
    exact fun hc => h (of_decide_eq_true hc ▸ hmem)
  rw [trimEndMatches, List.reverse_append, List.dropWhile_append_of_pos (by simp), hkeep,
    List.reverse_reverse]

theorem trimEndMatches_of_not_mem {c : Char} {s : List Char} (h : c ∉ s) :
    trimEndMatches c s = s := by
  have hzero := trimEndMatches_replicate h 0
  rwa [List.replicate_zero, List.append_nil] at hzero

theorem trimEnd_isPrefix (s : List Char) : trimEnd s <+: s := List.rdropWhile_prefix isWhitespace s

theorem trimEnd_nil : trimEnd [] = [] := rfl

/-- Blanks after a text whose last characters are none. -/
theorem trimEnd_append {t : List Char} (s : List Char) (h : trimEnd t ≠ []) :
    trimEnd (s ++ t) = s ++ trimEnd t := by
  induction t using List.reverseRecOn with
  | nil => exact absurd trimEnd_nil h
  | append_singleton t c ih =>
      rw [← List.append_assoc]
      unfold trimEnd at *
      by_cases hc : isWhitespace c = true
      · have h₁ : (t ++ [c]).rdropWhile isWhitespace = t.rdropWhile isWhitespace :=
          List.rdropWhile_concat_pos _ _ _ hc
        have h₂ : (s ++ t ++ [c]).rdropWhile isWhitespace = (s ++ t).rdropWhile isWhitespace :=
          List.rdropWhile_concat_pos _ _ _ hc
        exact h₂.trans ((ih (fun hn => h (h₁.trans hn))).trans (congrArg (s ++ ·) h₁.symm))
      · have h₁ : (t ++ [c]).rdropWhile isWhitespace = t ++ [c] :=
          List.rdropWhile_concat_neg _ _ _ hc
        have h₂ : (s ++ t ++ [c]).rdropWhile isWhitespace = s ++ t ++ [c] :=
          List.rdropWhile_concat_neg _ _ _ hc
        exact h₂.trans ((List.append_assoc s t [c]).trans (congrArg (s ++ ·) h₁.symm))

/-- Only blanks after a text. -/
theorem trimEnd_append_blank {t : List Char} (s : List Char) (h : trimEnd t = []) :
    trimEnd (s ++ t) = trimEnd s := by
  induction t using List.reverseRecOn with
  | nil => rw [List.append_nil]
  | append_singleton t c ih =>
      rw [← List.append_assoc]
      unfold trimEnd at *
      by_cases hc : isWhitespace c = true
      · have h₁ : (t ++ [c]).rdropWhile isWhitespace = t.rdropWhile isWhitespace :=
          List.rdropWhile_concat_pos _ _ _ hc
        exact (List.rdropWhile_concat_pos isWhitespace _ _ hc).trans (ih (h₁.symm.trans h))
      · have h₁ : (t ++ [c]).rdropWhile isWhitespace = t ++ [c] :=
          List.rdropWhile_concat_neg _ _ _ hc
        exact absurd (h₁.symm.trans h) (by simp)

theorem length_lines_of_not_mem {s : List Char} (h : '\n' ∉ s) : (lines s).length ≤ 1 := by
  by_cases hne : s = []
  · rw [hne]
    exact Nat.zero_le 1
  · rw [lines_of_not_mem h hne]
    exact Nat.le_refl 1

/-- The lines of a text whose end is trimmed: the last one is trimmed, and gone with those before
it when it is blank. -/
theorem lines_trimEnd (s : List Char) : ∀ {xs : List (List Char)} {last : List Char},
    lines s = xs ++ [last] →
      (trimEnd last ≠ [] → lines (trimEnd s) = xs ++ [trimEnd last]) ∧
        (trimEnd last = [] → (lines (trimEnd s)).length ≤ xs.length) := by
  refine cut_induction (P := fun s => ∀ {xs : List (List Char)} {last : List Char},
    lines s = xs ++ [last] →
      (trimEnd last ≠ [] → lines (trimEnd s) = xs ++ [trimEnd last]) ∧
        (trimEnd last = [] → (lines (trimEnd s)).length ≤ xs.length))
    '\n' (fun s hs xs last h => ?_) (fun l rest hl ih xs last h => ?_) s
  · have hne : s ≠ [] := by
      rintro rfl
      cases xs <;> cases h
    rw [lines_of_not_mem hs hne] at h
    obtain ⟨rfl, rfl⟩ : xs = [] ∧ s = last := by
      cases xs with
      | nil => exact ⟨rfl, List.singleton_inj.mp h⟩
      | cons x xs => simp at h
    have hmem : '\n' ∉ trimEnd s := fun hm => hs ((trimEnd_isPrefix s).subset hm)
    exact ⟨fun hlast => lines_of_not_mem hmem hlast, fun hlast => by rw [hlast]; exact Nat.le_refl 0⟩
  · rw [lines_append rest hl] at h
    by_cases hrest : rest = []
    · -- the line cut off is the last one
      subst hrest
      obtain ⟨rfl, rfl⟩ : xs = [] ∧ chomp l.reverse = last := by
        cases xs with
        | nil => exact ⟨rfl, List.singleton_inj.mp h⟩
        | cons x xs => simp [lines, linesFrom] at h
      have htrim : trimEnd (l ++ ['\n']) = trimEnd l := trimEnd_append_blank l rfl
      have hmem : '\n' ∉ trimEnd l := fun hm => hl ((trimEnd_isPrefix l).subset hm)
      rw [htrim, trimEnd_chomp]
      exact ⟨fun hlast => lines_of_not_mem hmem hlast,
        fun hlast => by rw [hlast]; exact Nat.le_refl 0⟩
    · obtain ⟨ys, hxs, hys⟩ : ∃ ys, xs = chomp l.reverse :: ys ∧ lines rest = ys ++ [last] := by
        cases xs with
        | nil =>
            rw [List.nil_append, List.cons_eq_cons, lines_eq_nil] at h
            exact absurd h.2 hrest
        | cons x ys =>
            obtain ⟨rfl, hys⟩ := List.cons_eq_cons.mp h
            exact ⟨ys, rfl, hys⟩
      obtain ⟨ihne, ihnil⟩ := ih hys
      subst hxs
      have hcons : ('\n' :: rest : List Char) = ['\n'] ++ rest := rfl
      by_cases htrim : trimEnd rest = []
      · have hall : trimEnd (l ++ '\n' :: rest) = trimEnd l := by
          refine trimEnd_append_blank l ?_
          rw [hcons, trimEnd_append_blank _ htrim]
          rfl
        have hmem : '\n' ∉ trimEnd l := fun hm => hl ((trimEnd_isPrefix l).subset hm)
        rw [hall]
        refine ⟨fun hlast => ?_, fun _ => ?_⟩
        · have := ihne hlast
          rw [htrim] at this
          cases ys <;> cases this
        · exact Nat.le_trans (length_lines_of_not_mem hmem) (Nat.succ_le_succ (Nat.zero_le _))
      · have hall : trimEnd (l ++ '\n' :: rest) = l ++ '\n' :: trimEnd rest := by
          rw [hcons, trimEnd_append, trimEnd_append _ htrim]
          · rfl
          · rw [trimEnd_append _ htrim]
            simp
        rw [hall, lines_append _ hl]
        exact ⟨fun hlast => by rw [ihne hlast]; rfl, fun hlast => Nat.succ_le_succ (ihnil hlast)⟩

theorem length_lines_cons (c : Char) (s : List Char) :
    (lines s).length ≤ (lines (c :: s)).length := by
  by_cases hc : c = '\n'
  · subst hc
    rw [← List.nil_append ('\n' :: s), lines_append s (List.not_mem_nil)]
    exact Nat.le_succ _
  · by_cases hs : '\n' ∈ s
    · obtain ⟨l, rest, rfl, hl⟩ := List.eq_append_cons_of_mem hs
      have hcl : '\n' ∉ c :: l := by
        simpa [hl] using fun h => hc h.symm
      rw [← List.cons_append, lines_append rest hl, lines_append rest hcl]
      exact Nat.le_refl _
    · have hcs : '\n' ∉ c :: s := by
        simpa [hs] using fun h => hc h.symm
      rw [lines_of_not_mem hcs (List.cons_ne_nil c s)]
      exact length_lines_of_not_mem hs

theorem length_lines_trimStart (s : List Char) :
    (lines (trimStart s)).length ≤ (lines s).length := by
  unfold trimStart
  induction s with
  | nil => exact Nat.le_refl 0
  | cons c s ih =>
      rw [List.dropWhile_cons]
      split
      · exact Nat.le_trans ih (length_lines_cons c s)
      · exact Nat.le_refl _

theorem length_lines_trimEnd (s : List Char) : (lines (trimEnd s)).length ≤ (lines s).length := by
  rcases List.eq_nil_or_concat (lines s) with h | ⟨xs, last, h⟩
  · rw [lines_eq_nil.mp h]
    exact Nat.le_refl 0
  · rw [List.concat_eq_append] at h
    obtain ⟨hne, hnil⟩ := lines_trimEnd s h
    rw [h]
    by_cases hlast : trimEnd last = []
    · exact Nat.le_trans (hnil hlast) (by simp)
    · rw [hne hlast]
      simp

/-- A trimmed text has no more lines. -/
theorem length_lines_trim (s : List Char) : (lines (trim s)).length ≤ (lines s).length :=
  Nat.le_trans (length_lines_trimEnd _) (length_lines_trimStart s)

theorem chomp_map {f : Char → Char} (hf : ∀ c, f c = '\r' ↔ c = '\r') (l : List Char) :
    chomp (l.map f) = (chomp l).map f := by
  cases l with
  | nil => rfl
  | cons c l =>
      by_cases hc : c = '\r'
      · have hfc : f c = '\r' := (hf c).mpr hc
        rw [List.map_cons, hfc, hc]
        exact (List.map_reverse (f := f)).symm
      · have hfc : f c ≠ '\r' := fun h => hc ((hf c).mp h)
        unfold chomp
        split
        · rename_i h
          exact absurd (List.cons_eq_cons.mp h).1 hfc
        · split
          · rename_i h
            exact absurd (List.cons_eq_cons.mp h).1 hc
          · exact (List.map_reverse (f := f)).symm

/-- Characters replaced without touching the line ends. -/
theorem lines_map {f : Char → Char} (hn : ∀ c, f c = '\n' ↔ c = '\n')
    (hr : ∀ c, f c = '\r' ↔ c = '\r') (s : List Char) :
    lines (s.map f) = (lines s).map (List.map f) := by
  have hmem : ∀ l : List Char, '\n' ∉ l → '\n' ∉ l.map f := by
    intro l hl h
    obtain ⟨c, hc, hfc⟩ := List.mem_map.mp h
    exact hl ((hn c).mp hfc ▸ hc)
  refine cut_induction (P := fun s => lines (s.map f) = (lines s).map (List.map f)) '\n'
    (fun s hs => ?_) (fun l rest hl ih => ?_) s
  · by_cases hne : s = []
    · rw [hne]
      rfl
    · rw [lines_of_not_mem hs hne, lines_of_not_mem (hmem s hs) (by simpa using hne)]
      rfl
  · rw [List.map_append, List.map_cons, (hn '\n').mpr rfl, lines_append _ (hmem l hl),
      lines_append _ hl, ih, List.map_cons, ← List.map_reverse, chomp_map hr]

/-- The first line begins as the text does, if it is not empty. -/
theorem head_lines {s l : List Char} (h : (lines s).head? = some l) (hne : l ≠ []) :
    l.head? = s.head? := by
  by_cases hn : '\n' ∈ s
  · obtain ⟨line, rest, rfl, hl⟩ := List.eq_append_cons_of_mem hn
    rw [lines_append rest hl, List.head?_cons, Option.some.injEq] at h
    subst h
    cases line with
    | nil => exact absurd rfl hne
    | cons c line =>
        rw [List.reverse_cons] at hne ⊢
        unfold chomp at hne ⊢
        split
        · rename_i l' hl'
          have hrev : c :: line = l'.reverse ++ ['\r'] := by
            rw [← List.reverse_reverse (c :: line), List.reverse_cons, hl', List.reverse_cons]
          rw [hl'] at hne
          cases hl'' : l'.reverse with
          | nil => exact absurd hl'' hne
          | cons d l'' =>
              rw [hl''] at hrev
              rw [List.cons_append, List.head?_cons, List.head?_cons, (List.cons_eq_cons.mp hrev).1]
        · simp
  · by_cases hs : s = []
    · rw [hs] at h
      cases h
    · rw [lines_of_not_mem hn hs, List.head?_cons, Option.some.injEq] at h
      rw [h]

example : lines "a\r\nb\n".toList = ["a".toList, "b".toList] := by decide

example : parseUnsigned (2 ^ 32) "+42".toList = some 42 := by decide

end Text
