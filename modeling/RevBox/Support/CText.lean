import Mathlib.Algebra.Group.Int.Defs
import Mathlib.Algebra.Group.Nat.Defs
import Mathlib.Data.List.TakeWhile

/-!
# Support — CText

Text as C programs keep and scan it: bytes that end before the first zero, read by the conversions
of `sscanf`, and by a reader that fills a buffer up to the end of a line.  White space is that of
the `C` locale.

* `word_append`: a word is read up to the blank behind it.
* `lines_line`: a line that fits into the buffer is read as it is.
-/

namespace CText

abbrev Bytes := List UInt8

/-- The bytes of a text in ASCII. -/
def lit (s : String) : Bytes := s.toList.map fun c => c.val.toUInt8

/-- `isspace`. -/
def isSpace (b : UInt8) : Bool := b = 32 || (9 ≤ b && b ≤ 13)

/-- `isdigit`. -/
def isDigit (b : UInt8) : Bool := 0x30 ≤ b && b ≤ 0x39

/-- A buffer as a string: it ends before its first zero. -/
def cString (buffer : Bytes) : Bytes := buffer.takeWhile fun b => b ≠ 0

/-! ### `sscanf` -/

/-- White space in a format. -/
def skip (s : Bytes) : Bytes := s.dropWhile isSpace

/-- `%ns`: the word, and what is left. -/
def word (n : Nat) (s : Bytes) : Option (Bytes × Bytes) :=
  let w := ((skip s).takeWhile fun b => !isSpace b).take n
  if w = [] then none else some (w, (skip s).drop w.length)

/-- `%n[^\n]`. -/
def upToNewline (n : Nat) (s : Bytes) : Option (Bytes × Bytes) :=
  let t := (s.takeWhile fun b => b ≠ 10).take n
  if t = [] then none else some (t, s.drop t.length)

/-- The number that digits spell. -/
def decimal (digits : Bytes) : Nat := digits.foldl (fun n b => 10 * n + (b.toNat - 0x30)) 0

/-- `%d`: the number saturates at 64 bits and is cut to 32. -/
def int (s : Bytes) : Option Int :=
  let s := skip s
  let (negative, s) := match s with
    | 45 :: s => (true, s)
    | 43 :: s => (false, s)
    | s => (false, s)
  let digits := s.takeWhile isDigit
  if digits = [] then none
  else
    let n : Int := if negative then -decimal digits else decimal digits
    some ((max (-2 ^ 63) (min n (2 ^ 63 - 1))).bmod (2 ^ 32))

/-! ### Lines -/

/-- A line read into a buffer with room for `n` bytes before the final zero, without carriage
returns, and what is left of the stream.  A full buffer ends the line. -/
def readLine : Nat → Bytes → Bytes × Bytes
  | _, [] => ([], [])
  | 0, s => ([], s)
  | n + 1, c :: s =>
      if c = 10 then ([], s)
      else if c = 13 then readLine (n + 1) s
      else (c :: (readLine n s).1, (readLine n s).2)

theorem length_readLine : ∀ {n : Nat} {s : Bytes},
    (readLine n s).2.length + (readLine n s).1.length ≤ s.length
  | _, [] => by simp [readLine]
  | 0, c :: s => by simp [readLine]
  | n + 1, c :: s => by
      have h := @length_readLine (n + 1) s
      have h' := @length_readLine n s
      unfold readLine
      split
      · simp
      split
      · exact Nat.le_succ_of_le h
      · simp only [List.length_cons]
        omega

/-- The lines of a stream, up to the first that is empty or to the end. -/
def lines (n : Nat) (s : Bytes) : List Bytes :=
  if _h : (readLine n s).1 = [] then [] else (readLine n s).1 :: lines n (readLine n s).2
termination_by s.length
decreasing_by
  have := @length_readLine n s
  have := List.length_pos_iff.mpr _h
  omega

variable {n : Nat} {s w rest line : Bytes}

theorem lines_eq (n : Nat) (s : Bytes) : lines n s =
    if (readLine n s).1 = [] then [] else (readLine n s).1 :: lines n (readLine n s).2 := by
  rw [lines]
  split <;> rfl

/-- **A line that fits is read as it is.** -/
theorem readLine_line : ∀ {n : Nat} {line : Bytes} (rest : Bytes), line.length < n →
    (∀ b ∈ line, b ≠ 10 ∧ b ≠ 13) → readLine n (line ++ 10 :: rest) = (line, rest)
  | n + 1, [], rest, _, _ => by simp [readLine]
  | n + 1, b :: line, rest, hn, hb => by
      have hne := hb b List.mem_cons_self
      have ih := readLine_line rest (Nat.lt_of_succ_lt_succ hn)
        fun c hc => hb c (List.mem_cons_of_mem _ hc)
      rw [List.cons_append, readLine, if_neg hne.1, if_neg hne.2, ih]

theorem lines_line (rest : Bytes) (hn : line.length < n) (hb : ∀ b ∈ line, b ≠ 10 ∧ b ≠ 13)
    (hne : line ≠ []) : lines n (line ++ 10 :: rest) = line :: lines n rest := by
  rw [lines_eq, readLine_line rest hn hb, if_neg hne]

theorem lines_nil (n : Nat) : lines n [] = [] := by
  rw [lines_eq, if_pos]
  cases n <;> rfl

/-! ### Words -/

theorem skip_of_head (h : ∀ b ∈ s.head?, isSpace b = false) : skip s = s := by
  cases s with
  | nil => rfl
  | cons b s => exact List.dropWhile_cons_of_neg (by simp [h b rfl])

theorem skip_blank {b : UInt8} (hb : isSpace b = true) (s : Bytes) : skip (b :: s) = skip s :=
  List.dropWhile_cons_of_pos hb

theorem word_blank {b : UInt8} (hb : isSpace b = true) (n : Nat) (s : Bytes) :
    word n (b :: s) = word n s := by
  simp only [word, skip_blank hb]

/-- **A word is read up to the blank behind it.** -/
theorem word_append (hw : ∀ b ∈ w, isSpace b = false) (hne : w ≠ []) (hn : w.length ≤ n)
    (hrest : ∀ b ∈ rest.head?, isSpace b = true) : word n (w ++ rest) = some (w, rest) := by
  have hskip : skip (w ++ rest) = w ++ rest := skip_of_head fun b hb => by
    obtain ⟨c, w', rfl⟩ := List.exists_cons_of_ne_nil hne
    exact hw b (Option.some.inj hb ▸ List.mem_cons_self)
  have htake : (w ++ rest).takeWhile (fun b => !isSpace b) = w := by
    rw [List.takeWhile_append_of_pos fun b hb => by simp [hw b hb]]
    cases rest with
    | nil => exact List.append_nil w
    | cons b rest =>
        rw [List.takeWhile_cons_of_neg (by simp [hrest b rfl]), List.append_nil]
  simp only [word, hskip, htake, List.take_of_length_le hn, if_neg hne, List.drop_left]

/-- A word that is longer than the conversion allows is cut. -/
theorem word_long (hw : ∀ b ∈ w, isSpace b = false) (hn : w.length = n) (h0 : n ≠ 0)
    (rest : Bytes) : word n (w ++ rest) = some (w, rest) := by
  have hne : w ≠ [] := fun h => h0 (by rw [← hn, h]; rfl)
  have hskip : skip (w ++ rest) = w ++ rest := skip_of_head fun c hc => by
    obtain ⟨d, w', rfl⟩ := List.exists_cons_of_ne_nil hne
    exact hw c (Option.some.inj hc ▸ List.mem_cons_self)
  have htake : ((w ++ rest).takeWhile fun b => !isSpace b).take n = w := by
    rw [List.takeWhile_append_of_pos fun c hc => by simp [hw c hc], List.take_left' hn]
  simp only [word, hskip, htake, if_neg hne, List.drop_left]

theorem cString_of_plain (h : ∀ b ∈ s, b ≠ 0) : cString s = s :=
  List.takeWhile_eq_self_iff.mpr fun b hb => decide_eq_true (h b hb)

end CText
