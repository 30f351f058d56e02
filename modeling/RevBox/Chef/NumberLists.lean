import RevBox.Chef.Data
import RevBox.Support.Split

/-!
# Chef — NumberLists

Bytes as numbers with a separator between them: `to_radix` and `from_radix` of
`services/chef/ops/encoding.rs`.

* `fromRadix_toRadix`: bytes come back from their numbers.
-/

namespace RevBox.Chef

/-! ### The code -/

/-- A number, as `{:0width}` writes it in a radix. -/
def numeralOf (radix width n : Nat) : List Char :=
  let digits := Nat.toDigits radix n
  List.replicate (width - digits.length) '0' ++ digits

/-- The number of a byte. -/
def radixToken (radix : Nat) (b : UInt8) : List Char :=
  match radix with
  | 2 => numeralOf 2 8 b.toNat
  | 8 => numeralOf 8 3 b.toNat
  | 16 => [hexDigit (b.toNat / 16), hexDigit (b.toNat % 16)]
  | _ => Text.decimal b.toNat

/-- `to_radix`. -/
def toRadix (data : ChefData) (radix : Nat) (separator : List Char) : ChefData :=
  .fromText (Split.join separator (data.bytes.map (radixToken radix)))

/-- The loop of `from_str_radix` for a `u32`, with the text of its error. -/
def parseRadixLoop (radix result : Nat) : List Char → Except String Nat
  | [] => .ok result
  | c :: s =>
      if 0x30 ≤ c.toNat ∧ c.toNat < 0x30 + radix then
        let result := result * radix + (c.toNat - 0x30)
        if result < 2 ^ 32 then parseRadixLoop radix result s
        else .error "number too large to fit in target type"
      else .error "invalid digit found in string"

/-- `u32::from_str_radix`, for a radix up to ten. -/
def parseRadixU32 (radix : Nat) : List Char → Except String Nat
  | [] => .error "cannot parse integer from empty string"
  | ['+'] | ['-'] => .error "invalid digit found in string"
  | '+' :: s => parseRadixLoop radix 0 s
  | s => parseRadixLoop radix 0 s

/-- The loop of `from_radix`. -/
def fromTokens (radix : Nat) (out : List UInt8) : List (List Char) → ChefResult (List UInt8)
  | [] => .ok out
  | token :: tokens =>
      let trimmed := Text.trim token
      if trimmed = [] then fromTokens radix out tokens
      else
        let shown := String.ofList trimmed
        match parseRadixU32 radix trimmed with
        | .error e =>
            .error (fail s!"第 {out.length + 1} 个「{shown}」不是 {radix} 进制字节值：{e}")
        | .ok value =>
            if 255 < value then .error (fail s!"「{shown}」= {value} 超出一个字节（0–255）")
            else fromTokens radix (out ++ [.ofNat value]) tokens

/-- `from_radix`. -/
def fromRadix (data : ChefData) (radix : Nat) (separator : List Char) : ChefResult ChefData :=
  match data.text with
  | .error e => .error e
  | .ok text =>
      let tokens := if separator = ['\\', 's'] ∨ separator = [] then Text.splitWhitespace text
        else Split.split separator text
      (fromTokens radix [] tokens).map ChefData.mk

/-! ### Numbers -/

variable {radix n : Nat} {s separator : List Char}

theorem le_ofDigitChars (hr : 1 ≤ radix) : ∀ (s : List Char) (k : Nat),
    k ≤ Nat.ofDigitChars radix s k
  | [], k => Nat.le_refl k
  | c :: s, k => by
      have hmul : k ≤ radix * k := Nat.le_mul_of_pos_left k hr
      rw [Nat.ofDigitChars_cons]
      exact Nat.le_trans (Nat.le_add_right_of_le hmul) (le_ofDigitChars hr s _)

/-- Digits are read as their number. -/
theorem parseRadixLoop_digits : ∀ {s : List Char} {result : Nat},
    (∀ c ∈ s, 0x30 ≤ c.toNat ∧ c.toNat < 0x30 + radix) → 1 ≤ radix →
      Nat.ofDigitChars radix s result < 2 ^ 32 →
        parseRadixLoop radix result s = .ok (Nat.ofDigitChars radix s result)
  | [], result, _, _, _ => rfl
  | c :: s, result, hs, hr, h => by
      have hnext := le_ofDigitChars hr s (result * radix + (c.toNat - 0x30))
      rw [Nat.ofDigitChars_cons, Nat.mul_comm radix result] at h ⊢
      rw [parseRadixLoop, if_pos (hs c List.mem_cons_self)]
      dsimp only
      rw [if_pos (Nat.lt_of_le_of_lt hnext h)]
      exact parseRadixLoop_digits (fun c hc => hs c (List.mem_cons_of_mem _ hc)) hr h

/-- The digits of a padded number. -/
theorem mem_numeralOf {width : Nat} {c : Char} (hr : 1 < radix) (hr' : radix ≤ 10)
    (h : c ∈ numeralOf radix width n) : 0x30 ≤ c.toNat ∧ c.toNat < 0x30 + radix := by
  rcases List.mem_append.mp h with h | h
  · rw [List.eq_of_mem_replicate h]
    exact ⟨Nat.le_refl _, by show 48 < _; omega⟩
  · exact Text.digit_of_mem_toDigits hr hr' h

theorem decimal_eq (n : Nat) : Text.decimal n = numeralOf 10 0 n := by
  rw [numeralOf, Nat.zero_sub]
  rfl

/-- **A padded number is read back.** -/
theorem parseRadixU32_numeralOf {width : Nat} (hr : 1 < radix) (hr' : radix ≤ 10)
    (h : n < 2 ^ 32) : parseRadixU32 radix (numeralOf radix width n) = .ok n := by
  have hvalue : Nat.ofDigitChars radix (numeralOf radix width n) 0 = n := by
    rw [numeralOf, Nat.ofDigitChars_append, Nat.ofDigitChars_replicate_zero, Nat.mul_zero,
      Nat.ofDigitChars_toDigits hr hr']
  have hdigits : ∀ c ∈ numeralOf radix width n, 0x30 ≤ c.toNat ∧ c.toNat < 0x30 + radix :=
    fun c hc => mem_numeralOf hr hr' hc
  have hloop := parseRadixLoop_digits hdigits (by omega) (by rwa [hvalue])
  rw [hvalue] at hloop
  have hsign : ∀ c ∈ numeralOf radix width n, c ≠ '+' ∧ c ≠ '-' := fun c hc => by
    have := (hdigits c hc).1
    constructor <;> rintro rfl <;> exact absurd this (by decide)
  unfold parseRadixU32
  split
  · rename_i hnil
    exact absurd (List.append_eq_nil_iff.mp hnil).2 Nat.toDigits_ne_nil
  · rename_i hplus
    exact absurd rfl (hsign '+' (hplus ▸ List.mem_cons_self)).1
  · rename_i hminus
    exact absurd rfl (hsign '-' (hminus ▸ List.mem_cons_self)).2
  · rename_i hplus
    exact absurd rfl (hsign '+' (hplus ▸ List.mem_cons_self)).1
  · exact hloop

/-- The radixes of the three operations, and the width that they pad to. -/
theorem radixToken_eq (h : radix = 2 ∨ radix = 8 ∨ radix = 10) (b : UInt8) :
    1 < radix ∧ radix ≤ 10 ∧ ∃ width, radixToken radix b = numeralOf radix width b.toNat := by
  rcases h with rfl | rfl | rfl
  · exact ⟨by decide, by decide, 8, rfl⟩
  · exact ⟨by decide, by decide, 3, rfl⟩
  · exact ⟨by decide, by decide, 0, decimal_eq _⟩

/-- A digit of a token. -/
theorem isAsciiDigit_of_mem_radixToken (h : radix = 2 ∨ radix = 8 ∨ radix = 10) {b : UInt8}
    {c : Char} (hc : c ∈ radixToken radix b) : Text.isAsciiDigit c = true := by
  obtain ⟨hr, hr', width, heq⟩ := radixToken_eq h b
  obtain ⟨hl, hu⟩ := mem_numeralOf hr hr' (heq ▸ hc)
  rw [Text.isAsciiDigit, Bool.and_eq_true, decide_eq_true_eq, decide_eq_true_eq]
  omega

/-- **The tokens of bytes are read back.** -/
theorem fromTokens_radixToken (h : radix = 2 ∨ radix = 8 ∨ radix = 10) :
    ∀ (bytes out : List UInt8), fromTokens radix out (bytes.map (radixToken radix)) =
      .ok (out ++ bytes)
  | [], out => by rw [List.map_nil, fromTokens, List.append_nil]
  | b :: bytes, out => by
      obtain ⟨hr, hr', width, heq⟩ := radixToken_eq h b
      have hb := b.toNat_lt
      have htrim : Text.trim (radixToken radix b) = radixToken radix b :=
        Text.trim_of_no_blank fun c hc =>
          Text.not_whitespace_of_isAsciiDigit (isAsciiDigit_of_mem_radixToken h hc)
      have hne : radixToken radix b ≠ [] := by
        rw [heq]
        exact fun hnil => Nat.toDigits_ne_nil (List.append_eq_nil_iff.mp hnil).2
      have hparse : parseRadixU32 radix (radixToken radix b) = .ok b.toNat := by
        rw [heq]
        exact parseRadixU32_numeralOf hr hr' (by omega)
      rw [List.map_cons, fromTokens]
      dsimp only
      rw [htrim, if_neg hne, hparse]
      dsimp only
      rw [if_neg (by omega), fromTokens_radixToken h bytes, UInt8.ofNat_toNat, List.append_assoc]
      rfl

/-- **Bytes come back** from their numbers, in each radix and with each separator that has no digit
and is not taken for blanks. -/
theorem fromRadix_toRadix (bytes : List UInt8) (hradix : radix = 2 ∨ radix = 8 ∨ radix = 10)
    (hne : separator ≠ []) (hdigit : ∀ c ∈ separator, Text.isAsciiDigit c = false)
    (hblank : separator ≠ ['\\', 's']) :
    fromRadix (toRadix ⟨bytes⟩ radix separator) radix separator = .ok ⟨bytes⟩ := by
  obtain ⟨a, as, rfl⟩ := List.exists_cons_of_ne_nil hne
  have hno : ∀ part ∈ bytes.map (radixToken radix), a ∉ part := by
    intro part hpart hmem
    obtain ⟨b, -, rfl⟩ := List.mem_map.mp hpart
    have ha := hdigit a List.mem_cons_self
    rw [isAsciiDigit_of_mem_radixToken hradix hmem] at ha
    cases ha
  rw [fromRadix, toRadix, text_fromText]
  dsimp only
  rw [if_neg (not_or.mpr ⟨hblank, hne⟩)]
  cases bytes with
  | nil =>
      -- one empty part, which is passed over
      have hsplit : Split.split (a :: as) (Split.join (a :: as) []) = [[]] := by
        rw [Split.split, Split.join]
        exact Split.splitFrom.eq_1 a as []
      rw [List.map_nil, hsplit]
      rfl
  | cons b bytes =>
      have hparts : (b :: bytes).map (radixToken radix) ≠ [] := List.cons_ne_nil _ _
      rw [Split.split_join List.mem_cons_self hno hparts, fromTokens_radixToken hradix]
      rfl

/-- Bytes in octal, with a comma between them. -/
theorem fromRadix_toRadix_comma :
    fromRadix (toRadix ⟨[0, 200]⟩ 8 [',']) 8 [','] = .ok ⟨[0, 200]⟩ :=
  fromRadix_toRadix [0, 200] (.inr (.inl rfl)) nofun (List.forall_mem_singleton.mpr rfl)
    (by decide)

end RevBox.Chef
