import Mathlib.Data.List.Basic
import Mathlib.Tactic.IntervalCases

/-!
# Support — Utf8

Bytes and characters: the UTF-8 encoding of a text, and `String::from_utf8_lossy`, one byte at a
time.
-/

namespace Utf8

/-- `str::as_bytes`. -/
def encode (s : List Char) : List UInt8 := s.flatMap String.utf8EncodeChar

/-- U+FFFD. -/
def replacement : Char := '\uFFFD'

/-- A character begun: the continuation bytes it still needs, the bounds of the next of them, and
the bits read so far. -/
structure Begun where
  needed : Nat
  low : Nat
  high : Nat
  bits : Nat

/-- A byte between characters. -/
def first (b : Nat) : List Char × Option Begun :=
  if b ≤ 0x7F then ([Char.ofNat b], none)
  else if 0xC2 ≤ b ∧ b ≤ 0xDF then ([], some ⟨1, 0x80, 0xBF, b - 0xC0⟩)
  else if b = 0xE0 then ([], some ⟨2, 0xA0, 0xBF, 0⟩)
  else if b = 0xED then ([], some ⟨2, 0x80, 0x9F, 0xD⟩)
  else if 0xE1 ≤ b ∧ b ≤ 0xEF then ([], some ⟨2, 0x80, 0xBF, b - 0xE0⟩)
  else if b = 0xF0 then ([], some ⟨3, 0x90, 0xBF, 0⟩)
  else if 0xF1 ≤ b ∧ b ≤ 0xF3 then ([], some ⟨3, 0x80, 0xBF, b - 0xF0⟩)
  else if b = 0xF4 then ([], some ⟨3, 0x80, 0x8F, 4⟩)
  else ([replacement], none)

/-- A byte inside a character: where it cannot continue, what was begun is replaced and the byte
is read anew. -/
def more (p : Begun) (b : Nat) : List Char × Option Begun :=
  if p.low ≤ b ∧ b ≤ p.high then
    let bits := 64 * p.bits + (b - 0x80)
    if p.needed = 1 then ([Char.ofNat bits], none)
    else ([], some ⟨p.needed - 1, 0x80, 0xBF, bits⟩)
  else (replacement :: (first b).1, (first b).2)

/-- The text of bytes after what was begun. -/
def lossyFrom : Option Begun → List UInt8 → List Char
  | none, [] => []
  | some _, [] => [replacement]
  | none, b :: bs => (first b.toNat).1 ++ lossyFrom (first b.toNat).2 bs
  | some p, b :: bs => (more p b.toNat).1 ++ lossyFrom (more p b.toNat).2 bs

/-- `String::from_utf8_lossy`. -/
def fromUtf8Lossy (bytes : List UInt8) : List Char := lossyFrom none bytes

/-- An ASCII character. -/
def isAscii (c : Char) : Bool := c.toNat ≤ 0x7F

theorem isAscii_iff {c : Char} : isAscii c ↔ c.toNat ≤ 0x7F := decide_eq_true_iff

theorem utf8EncodeChar_ascii {c : Char} (h : isAscii c) :
    String.utf8EncodeChar c = [c.val.toUInt8] := by
  have hc : c.val ≤ 127 := by
    rw [UInt32.le_iff_toNat_le]
    exact isAscii_iff.mp h
  exact String.utf8EncodeChar_eq_singleton (Char.utf8Size_eq_one_iff.mpr hc)

/-- Text in ASCII, byte by byte. -/
theorem encode_of_ascii {s : List Char} (h : s.all isAscii) :
    encode s = s.map fun c => c.val.toUInt8 := by
  induction s with
  | nil => rfl
  | cons c s ih =>
      obtain ⟨hc, hs⟩ := Bool.and_eq_true_iff.mp h
      have hcons : encode (c :: s) = String.utf8EncodeChar c ++ encode s := List.flatMap_cons
      rw [hcons, utf8EncodeChar_ascii hc, ih hs]
      rfl

theorem first_ascii {c : Char} (h : isAscii c) : first c.val.toUInt8.toNat = ([c], none) := by
  have hc : c.toNat ≤ 0x7F := isAscii_iff.mp h
  have hn : c.val.toUInt8.toNat = c.toNat := by
    rw [UInt32.toNat_toUInt8]
    exact Nat.mod_eq_of_lt (Nat.lt_of_le_of_lt hc (by decide))
  rw [hn, first, if_pos hc, Char.ofNat_toNat]

/-- The first byte of a character of two, of three, and of four bytes. -/
theorem first_two {n : Nat} (h : 2 ≤ n ∧ n ≤ 31) :
    first (n + 0xC0) = ([], some ⟨1, 0x80, 0xBF, n⟩) := by
  rw [first, if_neg (by omega), if_pos (by omega), Nat.add_sub_cancel]

theorem first_three {n : Nat} (h : n ≤ 15) : first (n + 0xE0) =
    ([], some ⟨2, if n = 0 then 0xA0 else 0x80, if n = 0xD then 0x9F else 0xBF, n⟩) := by
  interval_cases n <;> rfl

theorem first_four {n : Nat} (h : n ≤ 4) : first (n + 0xF0) =
    ([], some ⟨3, if n = 0 then 0x90 else 0x80, if n = 4 then 0x8F else 0xBF, n⟩) := by
  interval_cases n <;> rfl

/-- A continuation byte that is not the last, and the last. -/
theorem more_next {needed low high bits n : Nat} (hl : low ≤ n + 0x80) (hh : n + 0x80 ≤ high)
    (hn : needed ≠ 0) : more ⟨needed + 1, low, high, bits⟩ (n + 0x80) =
      ([], some ⟨needed, 0x80, 0xBF, 64 * bits + n⟩) := by
  rw [more, if_pos ⟨hl, hh⟩, Nat.add_sub_cancel]
  exact if_neg fun h => hn (Nat.succ_inj.mp h)

theorem more_last {low high bits n : Nat} (hl : low ≤ n + 0x80) (hh : n + 0x80 ≤ high) :
    more ⟨1, low, high, bits⟩ (n + 0x80) = ([Char.ofNat (64 * bits + n)], none) := by
  rw [more, if_pos ⟨hl, hh⟩, Nat.add_sub_cancel]
  rfl

/-- A byte, wherever it stands. -/
def readByte : Option Begun → Nat → List Char × Option Begun
  | none, b => first b
  | some p, b => more p b

theorem lossyFrom_cons (st : Option Begun) (b : UInt8) (bs : List UInt8) :
    lossyFrom st (b :: bs) = (readByte st b.toNat).1 ++ lossyFrom (readByte st b.toNat).2 bs := by
  cases st <;> rfl

theorem lossyFrom_ofNat (st : Option Begun) {n : Nat} {r : List Char × Option Begun}
    (h : readByte st n = r) (hn : n < 256) (rest : List UInt8) :
    lossyFrom st (UInt8.ofNat n :: rest) = r.1 ++ lossyFrom r.2 rest := by
  have hnat : (UInt8.ofNat n).toNat = n := UInt8.toNat_ofNat_of_lt' hn
  rw [lossyFrom_cons, hnat, h]

/-- **A character is read back** from its bytes, whatever follows. -/
theorem lossyFrom_encodeChar (c : Char) (rest : List UInt8) :
    lossyFrom none (String.utf8EncodeChar c ++ rest) = c :: lossyFrom none rest := by
  have hvalid : c.val.toNat < 0xD800 ∨ 0xDFFF < c.val.toNat ∧ c.val.toNat < 0x110000 := c.valid
  have hchar : ∀ n, n = c.val.toNat → Char.ofNat n = c := fun n hn => hn ▸ Char.ofNat_toNat c
  unfold String.utf8EncodeChar
  simp only
  generalize c.val.toNat = v at hvalid hchar
  split
  · rename_i h
    have hfirst : first v = ([Char.ofNat v], none) := if_pos h
    rw [List.singleton_append, lossyFrom_ofNat none hfirst (by omega), hchar v rfl]
    rfl
  split
  · rename_i h₁ h₂
    have hfirst : first (v / 64 % 32 + 0xC0) = _ := first_two (by omega)
    have hlast : more ⟨1, 0x80, 0xBF, v / 64 % 32⟩ (v % 64 + 0x80) = _ :=
      more_last (by omega) (by omega)
    rw [List.cons_append, lossyFrom_ofNat none hfirst (by omega), List.nil_append,
      List.singleton_append, lossyFrom_ofNat (some _) hlast (by omega), hchar _ (by omega)]
    rfl
  split
  · rename_i h₁ h₂ h₃
    have hfirst : first (v / 4096 % 16 + 0xE0) = _ := first_three (by omega)
    have hnext : more ⟨2, if v / 4096 % 16 = 0 then 0xA0 else 0x80,
        if v / 4096 % 16 = 0xD then 0x9F else 0xBF, v / 4096 % 16⟩ (v / 64 % 64 + 0x80) = _ :=
      more_next (by split <;> omega) (by split <;> omega) Nat.one_ne_zero
    have hlast : more ⟨1, 0x80, 0xBF, 64 * (v / 4096 % 16) + v / 64 % 64⟩ (v % 64 + 0x80) = _ :=
      more_last (by omega) (by omega)
    rw [List.cons_append, lossyFrom_ofNat none hfirst (by omega), List.nil_append,
      List.cons_append, lossyFrom_ofNat (some _) hnext (by omega), List.nil_append,
      List.singleton_append, lossyFrom_ofNat (some _) hlast (by omega), hchar _ (by omega)]
    rfl
  · rename_i h₁ h₂ h₃
    have hfirst : first (v / 262144 % 8 + 0xF0) = _ := first_four (by omega)
    have hnext : more ⟨3, if v / 262144 % 8 = 0 then 0x90 else 0x80,
        if v / 262144 % 8 = 4 then 0x8F else 0xBF, v / 262144 % 8⟩ (v / 4096 % 64 + 0x80) = _ :=
      more_next (by split <;> omega) (by split <;> omega) (by decide)
    have hthird : more ⟨2, 0x80, 0xBF, 64 * (v / 262144 % 8) + v / 4096 % 64⟩
        (v / 64 % 64 + 0x80) = _ := more_next (by omega) (by omega) Nat.one_ne_zero
    have hlast : more ⟨1, 0x80, 0xBF, 64 * (64 * (v / 262144 % 8) + v / 4096 % 64) + v / 64 % 64⟩
        (v % 64 + 0x80) = _ := more_last (by omega) (by omega)
    rw [List.cons_append, lossyFrom_ofNat none hfirst (by omega), List.nil_append,
      List.cons_append, lossyFrom_ofNat (some _) hnext (by omega), List.nil_append,
      List.cons_append, lossyFrom_ofNat (some _) hthird (by omega), List.nil_append,
      List.singleton_append, lossyFrom_ofNat (some _) hlast (by omega), hchar _ (by omega)]
    rfl

/-- Text is read back from its bytes, whatever follows. -/
theorem fromUtf8Lossy_encode_append (s : List Char) (rest : List UInt8) :
    fromUtf8Lossy (encode s ++ rest) = s ++ fromUtf8Lossy rest := by
  induction s with
  | nil => rfl
  | cons c s ih =>
      have hcons : encode (c :: s) = String.utf8EncodeChar c ++ encode s := List.flatMap_cons
      rw [hcons, List.append_assoc, fromUtf8Lossy, lossyFrom_encodeChar, List.cons_append]
      exact congrArg _ ih

/-- Text is read back from its bytes. -/
theorem fromUtf8Lossy_encode (s : List Char) : fromUtf8Lossy (encode s) = s := by
  have happend := fromUtf8Lossy_encode_append s []
  rwa [List.append_nil, fromUtf8Lossy, fromUtf8Lossy, lossyFrom, List.append_nil] at happend

@[simp] theorem encode_nil : encode [] = [] := rfl

theorem length_encode_cons (c : Char) (s : List Char) :
    (encode (c :: s)).length = c.utf8Size + (encode s).length := by
  simp [encode]

/-- A text takes at least a byte a character. -/
theorem length_le_encode (s : List Char) : s.length ≤ (encode s).length := by
  induction s with
  | nil => exact Nat.le_refl 0
  | cons c s ih =>
      rw [length_encode_cons, List.length_cons]
      have := c.utf8Size_pos
      omega

theorem length_encode_ascii {s : List Char} (h : s.all isAscii) : (encode s).length = s.length := by
  induction s with
  | nil => rfl
  | cons c s ih =>
      obtain ⟨hc, hs⟩ : isAscii c ∧ s.all isAscii := by simpa using h
      rw [length_encode_cons, ← String.length_utf8EncodeChar, utf8EncodeChar_ascii hc, ih hs]
      exact Nat.add_comm 1 s.length

theorem encode_append (s t : List Char) : encode (s ++ t) = encode s ++ encode t :=
  List.flatMap_append

/-- A string is known by its bytes. -/
theorem encode_inj {s t : String} (h : encode s.toList = encode t.toList) : s = t := by
  apply String.toByteArray_inj.mp
  rw [← String.utf8Encode_toList, ← String.utf8Encode_toList]
  exact congrArg List.toByteArray h

/-! ### Line ends -/

/-- A character begun the way characters are begun: it will be none of ASCII, and no ASCII byte
continues it. -/
def Begun.Sound (p : Begun) : Prop :=
  0x80 ≤ p.low ∧ (p.needed = 1 ∧ 2 ≤ p.bits ∨ p.needed = 2 ∧ (1 ≤ p.bits ∨ 0xA0 ≤ p.low) ∨
    p.needed = 3 ∧ (1 ≤ p.bits ∨ 0x90 ≤ p.low))

/-- What is known of the characters a byte ends, and of the one it begins or continues. -/
def Read (r : List Char × Option Begun) (P : Char → Prop) : Prop :=
  (∀ c ∈ r.1, P c) ∧ ∀ p, r.2 = some p → p.Sound

/-- A character that is not ASCII, or not a character. -/
def High (c : Char) : Prop := c = replacement ∨ ∃ n, 0x80 ≤ n ∧ c = Char.ofNat n

theorem ofNat_ne_newline {n : Nat} (hn : n ≠ 10) : Char.ofNat n ≠ '\n' := by
  intro h
  have hnat := congrArg Char.toNat h
  by_cases hvalid : n.isValidChar
  · rw [show Char.ofNat n = Char.ofNatAux n hvalid from dif_pos hvalid] at hnat
    exact hn hnat
  · rw [show Char.ofNat n = '\x00' from dif_neg hvalid] at hnat
    cases hnat

theorem High.ne_newline {c : Char} (h : High c) : c ≠ '\n' := by
  rcases h with rfl | ⟨n, hn, rfl⟩
  · decide
  · exact ofNat_ne_newline (by omega)

theorem read_char {P : Char → Prop} {c : Char} (h : P c) : Read ([c], none) P :=
  ⟨fun _ hd => List.mem_singleton.mp hd ▸ h, fun _ hp => by cases hp⟩

theorem read_begun {P : Char → Prop} {p : Begun} (h : p.Sound) : Read ([], some p) P :=
  ⟨fun _ hd => (by cases hd), fun _ hp => Option.some.inj hp ▸ h⟩

/-- What a byte may end: a character above ASCII, or itself. -/
def Ends (b : Nat) (c : Char) : Prop := High c ∨ b ≤ 0x7F ∧ c = Char.ofNat b

/-- A byte between characters. -/
theorem first_read (b : Nat) : Read (first b) (Ends b) := by
  unfold first
  split
  · exact read_char (.inr ⟨‹_›, rfl⟩)
  split
  · exact read_begun ⟨Nat.le_refl _, .inl ⟨rfl, by simp only; omega⟩⟩
  split
  · exact read_begun ⟨by decide, .inr (.inl ⟨rfl, .inr (Nat.le_refl _)⟩)⟩
  split
  · exact read_begun ⟨Nat.le_refl _, .inr (.inl ⟨rfl, .inl (by decide)⟩)⟩
  split
  · exact read_begun ⟨Nat.le_refl _, .inr (.inl ⟨rfl, .inl (by simp only; omega)⟩)⟩
  split
  · exact read_begun ⟨by decide, .inr (.inr ⟨rfl, .inr (Nat.le_refl _)⟩)⟩
  split
  · exact read_begun ⟨Nat.le_refl _, .inr (.inr ⟨rfl, .inl (by simp only; omega)⟩)⟩
  split
  · exact read_begun ⟨Nat.le_refl _, .inr (.inr ⟨rfl, .inl (by decide)⟩)⟩
  · exact read_char (.inl (.inl rfl))

/-- A byte inside a character. -/
theorem more_read {p : Begun} (hp : p.Sound) (b : Nat) : Read (more p b) (Ends b) := by
  obtain ⟨hlow, hneeded⟩ := hp
  unfold more
  split
  · rename_i hb
    dsimp only
    split
    · refine read_char (.inl (.inr ⟨_, ?_, rfl⟩))
      omega
    · refine read_begun ⟨Nat.le_refl _, ?_⟩
      dsimp only
      omega
  · obtain ⟨hchars, hbegun⟩ := first_read b
    refine ⟨fun c hc => ?_, hbegun⟩
    rcases List.mem_cons.mp hc with rfl | hc
    · exact .inl (.inl rfl)
    · exact hchars c hc

/-- What was begun, if anything was, was begun the way characters are. -/
def SoundFrom (st : Option Begun) : Prop := ∀ p, st = some p → p.Sound

theorem soundFrom_none : SoundFrom none := fun _ h => by cases h

theorem Ends.ne_newline {b : UInt8} {c : Char} (h : Ends b.toNat c) (hb : b ≠ 10) : c ≠ '\n' := by
  rcases h with h | ⟨-, rfl⟩
  · exact h.ne_newline
  · exact ofNat_ne_newline fun hn => hb (UInt8.toNat_inj.mp hn)

/-- Bytes without a line end are a text without one. -/
theorem no_newline_lossyFrom : ∀ {bs : List UInt8} {st : Option Begun}, SoundFrom st → 10 ∉ bs →
    '\n' ∉ lossyFrom st bs
  | [], none, _, _ => by simp [lossyFrom]
  | [], some p, _, _ => by
      rw [lossyFrom, List.mem_singleton]
      decide
  | b :: bs, st, hst, h => by
      have hb : b ≠ 10 := fun hb => h (hb ▸ List.mem_cons_self)
      have hbs : 10 ∉ bs := fun hbs => h (List.mem_cons_of_mem _ hbs)
      have key : ∀ r : List Char × Option Begun, Read r (Ends b.toNat) →
          '\n' ∉ r.1 ++ lossyFrom r.2 bs := by
        intro r hr hmem
        rcases List.mem_append.mp hmem with hmem | hmem
        · exact (hr.1 _ hmem).ne_newline hb rfl
        · exact no_newline_lossyFrom hr.2 hbs hmem
      cases st with
      | none => exact key _ (first_read _)
      | some p => exact key _ (more_read (hst p rfl) _)

/-- **A character of ASCII parts the text**, also where the bytes before it are cut off. -/
theorem lossyFrom_append {c : Char} (hc : isAscii c) : ∀ {bs : List UInt8} {st : Option Begun}
    (rest : List UInt8), SoundFrom st →
    lossyFrom st (bs ++ c.val.toUInt8 :: rest) = lossyFrom st bs ++ c :: lossyFrom none rest
  | [], none, rest, _ => by
      rw [List.nil_append, lossyFrom_cons, readByte, first_ascii hc]
      rfl
  | [], some p, rest, hst => by
      obtain ⟨hlow, -⟩ := hst p rfl
      have hsmall : c.val.toUInt8.toNat < 0x80 := by
        rw [UInt32.toNat_toUInt8]
        exact Nat.lt_of_le_of_lt (Nat.mod_le _ _) (Nat.lt_succ_of_le (isAscii_iff.mp hc))
      have hmore : more p c.val.toUInt8.toNat = ([replacement, c], none) := by
        have hout : ¬ (p.low ≤ c.val.toUInt8.toNat ∧ c.val.toUInt8.toNat ≤ p.high) := fun h =>
          absurd (Nat.le_trans hlow h.1) (Nat.not_le.mpr hsmall)
        rw [more, if_neg hout, first_ascii hc]
      rw [List.nil_append, lossyFrom_cons, readByte, hmore]
      rfl
  | b :: bs, none, rest, _ => by
      rw [List.cons_append, lossyFrom, lossyFrom, lossyFrom_append hc rest (first_read _).2,
        List.append_assoc]
  | b :: bs, some p, rest, hst => by
      rw [List.cons_append, lossyFrom, lossyFrom,
        lossyFrom_append hc rest (more_read (hst p rfl) _).2, List.append_assoc]

theorem fromUtf8Lossy_ascii {c : Char} (hc : isAscii c) (bs rest : List UInt8) :
    fromUtf8Lossy (bs ++ c.val.toUInt8 :: rest) = fromUtf8Lossy bs ++ c :: fromUtf8Lossy rest :=
  lossyFrom_append hc rest soundFrom_none

/-- A line end parts the text. -/
theorem fromUtf8Lossy_append (bs rest : List UInt8) : fromUtf8Lossy (bs ++ 10 :: rest) =
    fromUtf8Lossy bs ++ '\n' :: fromUtf8Lossy rest :=
  fromUtf8Lossy_ascii (c := '\n') rfl bs rest

/-- A space parts the text. -/
theorem fromUtf8Lossy_space (bs rest : List UInt8) : fromUtf8Lossy (bs ++ 32 :: rest) =
    fromUtf8Lossy bs ++ ' ' :: fromUtf8Lossy rest :=
  fromUtf8Lossy_ascii (c := ' ') rfl bs rest

theorem no_newline_fromUtf8Lossy {bs : List UInt8} (h : 10 ∉ bs) : '\n' ∉ fromUtf8Lossy bs :=
  no_newline_lossyFrom soundFrom_none h

/-- The bytes a character may take that were read when it was begun. -/
def held : Option Begun → Nat
  | none => 0
  | some p => 4 - p.needed

theorem first_cost (b : Nat) : 1 ≤ 4 * (first b).1.length + held (first b).2 := by
  unfold first
  repeat' split
  all_goals simp [held]

theorem more_cost {p : Begun} (hp : p.Sound) (b : Nat) :
    1 + held (some p) ≤ 4 * (more p b).1.length + held (more p b).2 := by
  obtain ⟨-, hneeded⟩ := hp
  unfold more
  split
  · dsimp only
    split <;> simp only [held, List.length_singleton, List.length_nil] <;> omega
  · simp only [held, List.length_cons]
    omega

/-- A text has a character for every four bytes. -/
theorem length_le_lossyFrom : ∀ {bs : List UInt8} {st : Option Begun}, SoundFrom st →
    bs.length + held st ≤ 4 * (lossyFrom st bs).length
  | [], none, _ => Nat.le_refl 0
  | [], some p, _ => by
      simp only [lossyFrom, held, List.length_nil, List.length_singleton]
      omega
  | b :: bs, none, _ => by
      have hcost := first_cost b.toNat
      have ih := @length_le_lossyFrom bs _ (first_read b.toNat).2
      rw [lossyFrom, List.length_append, List.length_cons]
      simp only [held] at *
      omega
  | b :: bs, some p, hst => by
      have hcost := more_cost (hst p rfl) b.toNat
      have ih := @length_le_lossyFrom bs _ (more_read (hst p rfl) b.toNat).2
      rw [lossyFrom, List.length_append, List.length_cons]
      omega

theorem length_le_fromUtf8Lossy (bs : List UInt8) :
    bs.length ≤ 4 * (fromUtf8Lossy bs).length :=
  length_le_lossyFrom soundFrom_none

/-! ### Valid text -/

/-- `str::from_utf8`. -/
def fromUtf8 (bytes : List UInt8) : Option (List Char) :=
  (String.fromUTF8? bytes.toByteArray).map String.toList

/-- Bytes are read as the text they encode. -/
theorem fromUtf8_eq_some_iff {bytes : List UInt8} {s : List Char} :
    fromUtf8 bytes = some s ↔ bytes = encode s := by
  have hbytes : bytes.toByteArray = s.utf8Encode ↔ bytes = encode s := List.toByteArray_inj
  rw [← hbytes, fromUtf8, String.fromUTF8?]
  by_cases h : bytes.toByteArray.IsValidUTF8
  · rw [dif_pos h, Option.map_some, Option.some.injEq]
    constructor
    · intro heq
      rw [← heq, String.utf8Encode_toList]
      rfl
    · intro heq
      have hs : String.fromUTF8 bytes.toByteArray h = String.ofList s :=
        String.toByteArray_inj.mp (heq.trans String.toByteArray_ofList.symm)
      rw [hs, String.toList_ofList]
  · rw [dif_neg h, Option.map_none]
    exact iff_of_false (Option.some_ne_none s).symm fun heq => h (.intro s heq)

@[simp] theorem fromUtf8_encode (s : List Char) : fromUtf8 (encode s) = some s :=
  fromUtf8_eq_some_iff.mpr rfl

/-! ### Boundaries -/

/-- `str::is_char_boundary`. -/
def Boundary (s : List Char) (k : Nat) : Prop := ∃ a b, s = a ++ b ∧ (encode a).length = k

theorem boundary_zero (s : List Char) : Boundary s 0 := ⟨[], s, rfl, rfl⟩

theorem boundary_length (s : List Char) : Boundary s (encode s).length :=
  ⟨s, [], (List.append_nil s).symm, rfl⟩

theorem encode_inj_list {s t : List Char} (h : encode s = encode t) : s = t := by
  rw [← fromUtf8Lossy_encode s, h, fromUtf8Lossy_encode]

theorem encode_ne_nil {s : List Char} (h : s ≠ []) : encode s ≠ [] := fun hnil => h (by
  rw [← fromUtf8Lossy_encode s, hnil]
  rfl)

/-- What begins a text in bytes begins it. -/
theorem prefix_of_encode {s t : List Char} {z : List UInt8} (h : encode s = encode t ++ z) :
    ∃ b, s = t ++ b ∧ encode b = z := by
  have hs : s = t ++ fromUtf8Lossy z := by
    rw [← fromUtf8Lossy_encode s, h, fromUtf8Lossy_encode_append]
  refine ⟨fromUtf8Lossy z, hs, ?_⟩
  rw [hs, encode_append] at h
  exact List.append_cancel_left h

/-- A text begins with the first byte of a character. -/
theorem first_of_encode {t : List Char} {b : UInt8} {z z' : List UInt8} (ht : t ≠ [])
    (h : encode t ++ z = b :: z') : b.IsUTF8FirstByte := by
  obtain ⟨c, t, rfl⟩ := List.exists_cons_of_ne_nil ht
  have hpos : 0 < (String.utf8EncodeChar c).length := by
    rw [String.length_utf8EncodeChar]
    exact c.utf8Size_pos
  have hfirst : (String.utf8EncodeChar c)[0].IsUTF8FirstByte :=
    UInt8.isUTF8FirstByte_getElem_utf8EncodeChar.mpr rfl
  have hb : (String.utf8EncodeChar c)[0] = b := by
    have hget := congrArg (·[0]?) h
    simp only [encode, List.flatMap_cons, List.append_assoc, List.getElem?_append_left hpos,
      List.getElem?_cons_zero] at hget
    exact (List.getElem?_eq_some_iff.mp hget).2
  exact hb ▸ hfirst

/-- **What stands in a text in bytes stands in it**: its ends are boundaries. -/
theorem middle_of_encode {t : List Char} (ht : t ≠ []) {z : List UInt8} :
    ∀ {s : List Char} {x : List UInt8}, encode s = x ++ (encode t ++ z) →
      ∃ a b, s = a ++ (t ++ b) ∧ encode a = x ∧ encode b = z
  | s, [], h => by
      obtain ⟨b, hs, hb⟩ := prefix_of_encode h
      exact ⟨[], b, hs, rfl, hb⟩
  | [], b :: x, h => by cases h
  | c :: s, b :: x, h => by
      have hcut : String.utf8EncodeChar c ++ encode s = (b :: x) ++ (encode t ++ z) := h
      rcases List.append_eq_append_iff.mp hcut with ⟨x', hx, hs⟩ | ⟨rest, hc, hrest⟩
      · -- the character stands before
        obtain ⟨a, b', hs', ha, hb'⟩ := middle_of_encode ht hs
        refine ⟨c :: a, b', congrArg (c :: ·) hs', ?_, hb'⟩
        rw [hx, ← ha]
        rfl
      · cases rest with
        | nil =>
            have hs : encode s = [] ++ (encode t ++ z) := hrest.symm
            obtain ⟨a, b', hs', ha, hb'⟩ := middle_of_encode ht hs
            refine ⟨c :: a, b', congrArg (c :: ·) hs', ?_, hb'⟩
            rw [List.append_nil] at hc
            rw [← hc]
            exact (congrArg (String.utf8EncodeChar c ++ ·) ha).trans (List.append_nil _)
        | cons r rest =>
            -- a byte within the character begins none
            have hlen : (b :: x).length < (String.utf8EncodeChar c).length := by
              simp only [hc, List.length_append, List.length_cons]
              omega
            have hget : (String.utf8EncodeChar c)[(b :: x).length] = r := by
              simp only [hc, List.getElem_append_right (Nat.le_refl _), Nat.sub_self,
                List.getElem_cons_zero]
            have hfirst := first_of_encode ht hrest
            rw [← hget, UInt8.isUTF8FirstByte_getElem_utf8EncodeChar] at hfirst
            cases hfirst

theorem Boundary.take {s : List Char} {k : Nat} (h : Boundary s k) :
    ∃ a, a <+: s ∧ (encode s).take k = encode a := by
  obtain ⟨a, b, rfl, rfl⟩ := h
  refine ⟨a, List.prefix_append a b, ?_⟩
  rw [encode_append, List.take_left']
  rfl

/-- **A part of a text in bytes is text exactly between boundaries.** -/
theorem slice_iff {s : List Char} {i j : Nat} (hij : i < j) (hj : j ≤ (encode s).length) :
    (∃ t, ((encode s).take j).drop i = encode t) ↔ Boundary s i ∧ Boundary s j := by
  have hlen : ((encode s).take j).length = j := List.length_take_of_le hj
  constructor
  · rintro ⟨t, ht⟩
    have hne : t ≠ [] := by
      rintro rfl
      have hnil := congrArg List.length ht
      rw [List.length_drop, hlen] at hnil
      exact absurd (Nat.sub_eq_zero_iff_le.mp hnil) (Nat.not_le_of_lt hij)
    have hcut : encode s = (encode s).take i ++ (encode t ++ (encode s).drop j) := by
      have hi : ((encode s).take j).take i = (encode s).take i := by
        rw [List.take_take, Nat.min_eq_left (Nat.le_of_lt hij)]
      rw [← ht, ← List.append_assoc, ← hi, List.take_append_drop, List.take_append_drop]
    obtain ⟨a, b, rfl, ha, hb⟩ := middle_of_encode hne hcut
    have hlena : (encode a).length = i := by
      rw [ha, List.length_take_of_le (Nat.le_trans (Nat.le_of_lt hij) hj)]
    refine ⟨⟨a, t ++ b, rfl, hlena⟩, a ++ t, b, (List.append_assoc a t b).symm, ?_⟩
    rw [encode_append, List.length_append, hlena, ← ht, List.length_drop, hlen]
    exact Nat.add_sub_of_le (Nat.le_of_lt hij)
  · rintro ⟨hi, hj'⟩
    obtain ⟨a, -, ha⟩ := hi.take
    obtain ⟨a', -, ha'⟩ := hj'.take
    have hprefix : encode a' = encode a ++ (encode a').drop i := by
      have htake : (encode a').take i = encode a := by
        rw [← ha', List.take_take, Nat.min_eq_left (Nat.le_of_lt hij), ha]
      rw [← htake, List.take_append_drop]
    obtain ⟨t, -, ht⟩ := prefix_of_encode hprefix
    exact ⟨t, by rw [ha', ht]⟩

example : fromUtf8Lossy [0xE4, 0xBD, 0xA0, 0xE1, 0x80, 0x41] = ['你', replacement, 'A'] := by decide

end Utf8
