import RevBox.Support.Text

/-!
# Support — Hex

Hexadecimal numbers as text: written with a fixed number of digits, in either case, and read as
`from_str_radix` reads them.

* `fromStr_fixed`: a number is read as it was written.
-/

namespace Hex

/-- `char::to_digit(16)`. -/
def toDigit (c : Char) : Option Nat :=
  if 0x30 ≤ c.toNat ∧ c.toNat ≤ 0x39 then some (c.toNat - 0x30)
  else if 0x41 ≤ c.toNat ∧ c.toNat ≤ 0x46 then some (c.toNat - 0x37)
  else if 0x61 ≤ c.toNat ∧ c.toNat ≤ 0x66 then some (c.toNat - 0x57)
  else none

/-- `char::is_ascii_hexdigit`. -/
def isDigit (c : Char) : Bool := (toDigit c).isSome

/-- The number that digits stand for, after those that stand for `n`. -/
def valueFrom (n : Nat) : List Char → Option Nat
  | [] => some n
  | c :: s => (toDigit c).bind fun d => valueFrom (16 * n + d) s

/-- `from_str_radix(16)` into an unsigned integer below `bound`. -/
def fromStr (bound : Nat) (s : List Char) : Option Nat :=
  let s := match s with
    | '+' :: rest => rest
    | s => s
  if s = [] then none else (valueFrom 0 s).filter fun n => n < bound

/-- A digit, in upper case or in lower case. -/
def digit (upper : Bool) (n : Nat) : Char :=
  if upper then n.digitChar.toUpper else n.digitChar

/-- The last `w` digits of a number. -/
def fixed (upper : Bool) : Nat → Nat → List Char
  | 0, _ => []
  | w + 1, n => fixed upper w (n / 16) ++ [digit upper (n % 16)]

variable {upper : Bool} {n m w bound : Nat} {c : Char} {s : List Char}

theorem toDigit_digit (upper : Bool) : ∀ n < 16, toDigit (digit upper n) = some n := by
  cases upper <;> decide

theorem length_fixed (upper : Bool) (w n : Nat) : (fixed upper w n).length = w := by
  induction w generalizing n with
  | zero => rfl
  | succ w ih => rw [fixed, List.length_append, ih, List.length_singleton]

theorem mem_fixed (h : c ∈ fixed upper w n) : ∃ d < 16, c = digit upper d := by
  induction w generalizing n with
  | zero => cases h
  | succ w ih =>
      rw [fixed] at h
      rcases List.mem_append.mp h with h | h
      · exact ih h
      · exact ⟨n % 16, Nat.mod_lt _ (by decide), List.mem_singleton.mp h⟩

theorem isDigit_of_mem_fixed (h : c ∈ fixed upper w n) : isDigit c = true := by
  obtain ⟨d, hd, rfl⟩ := mem_fixed h
  rw [isDigit, toDigit_digit upper d hd]
  rfl

theorem toNat_of_isDigit (h : isDigit c = true) : 0x30 ≤ c.toNat ∧ c.toNat ≤ 0x39 ∨
    0x41 ≤ c.toNat ∧ c.toNat ≤ 0x46 ∨ 0x61 ≤ c.toNat ∧ c.toNat ≤ 0x66 := by
  unfold isDigit toDigit at h
  split at h
  · exact .inl ‹_›
  split at h
  · exact .inr (.inl ‹_›)
  split at h
  · exact .inr (.inr ‹_›)
  · cases h

theorem not_whitespace_of_isDigit (h : isDigit c = true) : Text.isWhitespace c = false := by
  have hb := toNat_of_isDigit h
  have hne : ∀ m : Nat, 0x80 ≤ m → decide (c.toNat = m) = false := fun m hm => by
    refine decide_eq_false fun hm' => ?_
    omega
  have hlow : ¬ (9 ≤ c.toNat ∧ c.toNat ≤ 13) ∧ c.toNat ≠ 0x20 := by omega
  have hgap : decide (0x2000 ≤ c.toNat) = false := decide_eq_false fun hm => by omega
  simp only [Text.isWhitespace, Bool.or_eq_false_iff, hgap, Bool.false_and, and_true]
  exact ⟨⟨⟨⟨⟨⟨⟨⟨⟨by simpa using hlow.1, by simpa using hlow.2⟩, hne _ (by decide)⟩,
    hne _ (by decide)⟩, hne _ (by decide)⟩, hne _ (by decide)⟩, hne _ (by decide)⟩,
    hne _ (by decide)⟩, hne _ (by decide)⟩, hne _ (by decide)⟩

theorem valueFrom_append (n : Nat) (s t : List Char) :
    valueFrom n (s ++ t) = (valueFrom n s).bind fun m => valueFrom m t := by
  induction s generalizing n with
  | nil => rfl
  | cons c s ih =>
      rw [List.cons_append, valueFrom, valueFrom, Option.bind_assoc]
      congr 1
      funext d
      exact ih _

theorem valueFrom_fixed (upper : Bool) (w n m : Nat) :
    valueFrom m (fixed upper w n) = some (16 ^ w * m + n % 16 ^ w) := by
  induction w generalizing n with
  | zero => simp [fixed, valueFrom, Nat.mod_one]
  | succ w ih =>
      have hmod : n % 16 ^ (w + 1) = 16 * (n / 16 % 16 ^ w) + n % 16 := by
        rw [Nat.pow_succ, Nat.mul_comm (16 ^ w) 16, Nat.mod_mul, Nat.add_comm]
      rw [fixed, valueFrom_append, ih, Option.bind_some, valueFrom,
        toDigit_digit upper _ (Nat.mod_lt _ (by decide)), Option.bind_some, valueFrom, hmod,
        Nat.pow_succ, Nat.mul_comm (16 ^ w) 16, Nat.mul_add, Nat.mul_assoc, Nat.add_assoc]

/-- **A number is read as it was written.** -/
theorem fromStr_fixed (hw : w ≠ 0) (h : n < 16 ^ w) (hb : n < bound) :
    fromStr bound (fixed upper w n) = some n := by
  have hne : fixed upper w n ≠ [] := by
    rw [← List.length_pos_iff, length_fixed]
    exact Nat.pos_of_ne_zero hw
  have hvalue : valueFrom 0 (fixed upper w n) = some n := by
    rw [valueFrom_fixed, Nat.mul_zero, Nat.zero_add, Nat.mod_eq_of_lt h]
  unfold fromStr
  split
  · rename_i rest hrest
    have hplus := isDigit_of_mem_fixed (hrest ▸ List.mem_cons_self (a := '+') (l := rest))
    cases hplus
  · simp only [hne, if_false, hvalue, Option.filter_some, decide_eq_true_eq, hb, if_true]

/-- A number in its shortest form has some number of digits. -/
theorem toDigits_eq_fixed (n : Nat) :
    ∃ w, w ≠ 0 ∧ n < 16 ^ w ∧ Nat.toDigits 16 n = fixed false w n := by
  induction n using Nat.strongRecOn with
  | ind n ih =>
      by_cases hlt : n < 16
      · refine ⟨1, nofun, hlt, ?_⟩
        rw [Nat.toDigits_of_lt_base hlt, fixed, fixed, Nat.mod_eq_of_lt hlt]
        rfl
      · obtain ⟨w, -, hw, heq⟩ := ih (n / 16) (Nat.div_lt_self (by omega) (by decide))
        refine ⟨w + 1, nofun, ?_, ?_⟩
        · rw [Nat.pow_succ]
          omega
        · rw [Nat.toDigits_of_base_le (by decide) (Nat.le_of_not_lt hlt), heq, fixed]
          rfl

/-- A number in its shortest form is read back. -/
theorem fromStr_toDigits (hb : n < bound) : fromStr bound (Nat.toDigits 16 n) = some n := by
  obtain ⟨w, hw, hn, heq⟩ := toDigits_eq_fixed n
  rw [heq, fromStr_fixed hw hn hb]

end Hex
