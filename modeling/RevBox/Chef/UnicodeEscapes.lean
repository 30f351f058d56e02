import RevBox.Chef.Entities

/-!
# Chef — UnicodeEscapes

The operations `unicodeEscape` and `unicodeUnescape` of `services/chef/ops/encoding.rs`.

* `unicodeUnescape_unicodeEscape`: a text comes back from its escapes.
-/

namespace RevBox.Chef

/-! ### The code -/

/-- `\u{:04x}` of a number of 16 bits. -/
def escapeUnit (n : Nat) : List Char := '\\' :: 'u' :: Hex.fixed false 4 n

/-- A turn of the loop of `unicode_escape`. -/
def escapeUnicode (nonAsciiOnly : Bool) (ch : Char) : List Char :=
  let needsEscape := !Utf8.isAscii ch || ch = '\\' || ch.toNat < 0x20
  if !nonAsciiOnly || needsEscape then
    let cp := ch.toNat
    if 0xFFFF < cp then
      let v := cp - 0x10000
      escapeUnit (0xD800 + v / 0x400) ++ escapeUnit (0xDC00 + v % 0x400)
    else escapeUnit cp
  else [ch]

/-- `unicode_escape`. -/
def unicodeEscape (data : ChefData) (args : Args) : ChefResult ChefData :=
  data.text.map fun text => .fromText (text.flatMap (escapeUnicode (args.boolOf "nonAsciiOnly")))

/-- The hexadecimal digits among the next `width` characters. -/
def hexDigits (width : Nat) (s : List Char) : List Char := (s.take width).filter Hex.isDigit

/-- The character of a surrogate pair whose second half is escaped after the first. -/
def surrogatePair (width value : Nat) (after : List Char) : Option Char :=
  if (0xD800 ≤ value ∧ value < 0xDC00) ∧ width + 2 + width ≤ after.length ∧
      after[width]? = some '\\' ∧ after[width + 1]? = some 'u' then
    match Hex.fromStr (2 ^ 32) (hexDigits width (after.drop (width + 2))) with
    | some low =>
        if 0xDC00 ≤ low ∧ low < 0xE000 then
          charFromU32 (0x10000 + (value - 0xD800) * 0x400 + (low - 0xDC00))
        else none
    | none => none
  else none

/-- The escapes of one character. -/
def simpleEscape (c : Char) : Option Char :=
  if c = 'n' then some '\n'
  else if c = 'r' then some '\r'
  else if c = 't' then some '\t'
  else if c = '0' then some '\x00'
  else if c = '\\' then some '\\'
  else if c = '"' then some '"'
  else if c = '\'' then some '\''
  else none

/-- The number that `width` characters are, if all are digits. -/
def escapeValue (width : Nat) (after : List Char) : Option Nat :=
  let digits := hexDigits width after
  if digits.length = width then Hex.fromStr (2 ^ 32) digits else none

/-- The loop of `unicode_unescape`. -/
def unescapeUnicode : List Char → List Char
  | [] => []
  | c :: rest =>
      if c = '\\' then
        match rest with
        | [] => [c]
        | k :: after =>
            if k = 'u' ∨ k = 'x' then
              let width := if k = 'u' then 4 else 2
              match escapeValue width after with
              | some value =>
                  match surrogatePair width value after with
                  | some ch => ch :: unescapeUnicode (after.drop (width + 2 + width))
                  | none =>
                      match charFromU32 value with
                      | some ch => ch :: unescapeUnicode (after.drop width)
                      | none => c :: unescapeUnicode (k :: after)
              | none => c :: unescapeUnicode (k :: after)
            else
              match simpleEscape k with
              | some ch => ch :: unescapeUnicode after
              | none => c :: k :: unescapeUnicode after
      else c :: unescapeUnicode rest
termination_by s => s.length
decreasing_by
  all_goals simp only [List.length_cons, List.length_drop]; omega

/-- `unicode_unescape`. -/
def unicodeUnescape (data : ChefData) (_args : Args) : ChefResult ChefData :=
  data.text.map fun text => .fromText (unescapeUnicode text)

/-! ### One unit -/

variable {n : Nat}

/-- The digits of a unit are found in front of any text. -/
theorem hexDigits_fixed (n : Nat) (rest : List Char) :
    hexDigits 4 (Hex.fixed false 4 n ++ rest) = Hex.fixed false 4 n := by
  rw [hexDigits, List.take_left' (Hex.length_fixed false 4 n), List.filter_eq_self]
  exact fun c hc => Hex.isDigit_of_mem_fixed hc

/-- The number of a unit is found. -/
theorem escapeValue_fixed (h : n < 2 ^ 16) (rest : List Char) :
    escapeValue 4 (Hex.fixed false 4 n ++ rest) = some n := by
  rw [escapeValue, hexDigits_fixed, if_pos (Hex.length_fixed false 4 n),
    Hex.fromStr_fixed (by decide) h (Nat.lt_trans h (by decide))]

/-- A unit is six characters long. -/
theorem drop_escapeUnit (n : Nat) (rest : List Char) :
    (escapeUnit n ++ rest).drop 6 = rest :=
  List.drop_left' (by simp [escapeUnit, Hex.length_fixed])

/-- A unit that begins an escape. -/
theorem unescapeUnicode_unit (h : n < 2 ^ 16) (rest : List Char) :
    unescapeUnicode (escapeUnit n ++ rest) =
      match surrogatePair 4 n (Hex.fixed false 4 n ++ rest) with
      | some ch => ch :: unescapeUnicode (rest.drop 6)
      | none =>
          match charFromU32 n with
          | some ch => ch :: unescapeUnicode rest
          | none => '\\' :: unescapeUnicode ('u' :: (Hex.fixed false 4 n ++ rest)) := by
  have hlen := Hex.length_fixed false 4 n
  have hfour : (Hex.fixed false 4 n ++ rest).drop 4 = rest := List.drop_left' hlen
  have hten : (Hex.fixed false 4 n ++ rest).drop (4 + 2 + 4) = rest.drop 6 := by
    rw [List.drop_append, hlen, List.drop_eq_nil_of_le (by omega), List.nil_append]
  rw [escapeUnit, List.cons_append, List.cons_append, unescapeUnicode, if_pos rfl]
  dsimp only
  rw [if_pos (.inl rfl), if_pos rfl, escapeValue_fixed h, hfour, hten]

/-- A character of 16 bits is no half of a pair. -/
theorem surrogatePair_none (h : n < 0xD800 ∨ 0xDC00 ≤ n) (after : List Char) :
    surrogatePair 4 n after = none := by
  rw [surrogatePair, if_neg]
  rintro ⟨hn, -⟩
  omega

/-- The second half is read behind the first. -/
theorem hexDigits_second {hi lo : Nat} (rest : List Char) :
    hexDigits 4 ((Hex.fixed false 4 hi ++ (escapeUnit lo ++ rest)).drop (4 + 2)) =
      Hex.fixed false 4 lo := by
  rw [← List.drop_drop, List.drop_left' (Hex.length_fixed false 4 hi), escapeUnit]
  exact hexDigits_fixed lo rest

/-- A first half with an escape behind it. -/
theorem surrogatePair_escapeUnit {hi lo : Nat} (hhi : 0xD800 ≤ hi ∧ hi < 0xDC00)
    (hlo : 0xDC00 ≤ lo ∧ lo < 0xE000) (rest : List Char) :
    surrogatePair 4 hi (Hex.fixed false 4 hi ++ (escapeUnit lo ++ rest)) =
      charFromU32 (0x10000 + (hi - 0xD800) * 0x400 + (lo - 0xDC00)) := by
  have hlen := Hex.length_fixed false 4 hi
  have hlow : Hex.fromStr (2 ^ 32) (Hex.fixed false 4 lo) = some lo :=
    Hex.fromStr_fixed (by decide) (by omega) (by omega)
  rw [surrogatePair, if_pos, hexDigits_second, hlow]
  · simp only [hlo, and_self, if_true]
  · refine ⟨hhi, ?_, ?_, ?_⟩
    · simp only [escapeUnit, List.length_append, List.length_cons, hlen, Hex.length_fixed]
      omega
    · rw [List.getElem?_append_right (by omega), hlen]
      rfl
    · rw [List.getElem?_append_right (by omega), hlen]
      rfl

/-- The two halves of a pair are put together. -/
theorem surrogatePair_units {v : Nat} (hv : v < 2 ^ 20) (rest : List Char) :
    surrogatePair 4 (0xD800 + v / 0x400) (Hex.fixed false 4 (0xD800 + v / 0x400) ++
      (escapeUnit (0xDC00 + v % 0x400) ++ rest)) = charFromU32 (0x10000 + v) := by
  have hsum : 0x10000 + (0xD800 + v / 0x400 - 0xD800) * 0x400 + (0xDC00 + v % 0x400 - 0xDC00) =
      0x10000 + v := by omega
  rw [surrogatePair_escapeUnit (by omega) (by omega), hsum]

/-! ### Texts -/

/-- **A character is read back** from its escape. -/
theorem unescapeUnicode_escape (nonAsciiOnly : Bool) (c : Char) (rest : List Char) :
    unescapeUnicode (escapeUnicode nonAsciiOnly c ++ rest) = c :: unescapeUnicode rest := by
  have hvalid : c.toNat < 0xD800 ∨ 0xDFFF < c.toNat ∧ c.toNat < 0x110000 := c.valid
  unfold escapeUnicode
  dsimp only
  split_ifs with hescape hwide
  · -- two units
    have hv : c.toNat - 0x10000 < 2 ^ 20 := by omega
    have hback : 0x10000 + (c.toNat - 0x10000) = c.toNat := by omega
    rw [List.append_assoc, unescapeUnicode_unit (by omega), surrogatePair_units hv, hback,
      charFromU32_toNat]
    dsimp only
    rw [drop_escapeUnit]
  · rw [unescapeUnicode_unit (by omega), surrogatePair_none (by omega), charFromU32_toNat]
  · have hne : c ≠ '\\' := by
      rintro rfl
      simp at hescape
    rw [List.singleton_append, unescapeUnicode.eq_def]
    dsimp only
    rw [if_neg hne]

/-- **A text comes back** from its escapes, with either option. -/
theorem unicodeUnescape_unicodeEscape (text : List Char) (args args' : Args) :
    (unicodeEscape (.fromText text) args).bind (unicodeUnescape · args') =
      .ok (.fromText text) := by
  have hback : unescapeUnicode (text.flatMap (escapeUnicode (args.boolOf "nonAsciiOnly"))) =
      text := by
    induction text with
    | nil => rw [List.flatMap_nil, unescapeUnicode]
    | cons c text ih => rw [List.flatMap_cons, unescapeUnicode_escape, ih]
  rw [unicodeEscape, text_fromText, Except.map, Except.bind, unicodeUnescape, text_fromText,
    Except.map, hback]

end RevBox.Chef
