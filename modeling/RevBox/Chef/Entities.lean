import RevBox.Chef.Data
import RevBox.Support.Hex

/-!
# Chef — Entities

The operations `htmlEntityEncode` and `htmlEntityDecode` of `services/chef/ops/encoding.rs`.

* `entities_round_trip`: a text comes back from its entities, and a text without entities is left
  as it is.
-/

namespace RevBox.Chef

/-! ### The code -/

/-- `NAMED_ENTITIES`. -/
def namedEntities : List (String × Char) :=
  [("amp", '&'), ("lt", '<'), ("gt", '>'), ("quot", '"'), ("apos", '\''), ("nbsp", '\u00a0'),
    ("copy", '©'), ("reg", '®'), ("trade", '™'), ("hellip", '…'), ("mdash", '—'), ("ndash", '–'),
    ("lsquo", '‘'), ("rsquo", '’'), ("ldquo", '“'), ("rdquo", '”'), ("times", '×'),
    ("divide", '÷'), ("middot", '·'), ("bull", '•'), ("deg", '°'), ("plusmn", '±'),
    ("frac12", '½'), ("laquo", '«'), ("raquo", '»'), ("euro", '€'), ("pound", '£'), ("yen", '¥'),
    ("sect", '§'), ("para", '¶'), ("dagger", '†'), ("permil", '‰'), ("larr", '←'), ("rarr", '→'),
    ("uarr", '↑'), ("darr", '↓'), ("infin", '∞'), ("ne", '≠'), ("le", '≤'), ("ge", '≥'),
    ("alpha", 'α'), ("beta", 'β'), ("gamma", 'γ'), ("delta", 'δ'), ("pi", 'π'), ("sigma", 'σ'),
    ("omega", 'ω'), ("mu", 'μ'), ("lambda", 'λ')]

/-- The entity that `html_entity_encode` has for a character. -/
def namedEntity (ch : Char) : Option (List Char) :=
  if ch = '&' then some "amp".toList
  else if ch = '<' then some "lt".toList
  else if ch = '>' then some "gt".toList
  else if ch = '"' then some "quot".toList
  else if ch = '\'' then some "apos".toList
  else none

/-- The characters that the numeric styles keep. -/
def isPlain (ch : Char) : Bool :=
  Text.isAsciiAlphanumeric ch || ch = ' ' || ch = '\n' || ch = '\t'

/-- `&#..;`. -/
def decimalEntity (ch : Char) : List Char :=
  '&' :: '#' :: (Text.decimal ch.toNat ++ [';'])

/-- `&#x..;`. -/
def hexEntity (ch : Char) : List Char :=
  '&' :: '#' :: 'x' :: (Nat.toDigits 16 ch.toNat ++ [';'])

/-- The entity of a character with a name, and of one that is not ASCII. -/
def namedStyle (ch : Char) : List Char :=
  match namedEntity ch with
  | some entity => '&' :: (entity ++ [';'])
  | none => if Utf8.isAscii ch then [ch] else decimalEntity ch

/-- A turn of the loop of `html_entity_encode`. -/
def entityChar (style : String) (ch : Char) : ChefResult (List Char) :=
  match style with
  | "named" => .ok (namedStyle ch)
  | "decimal" => .ok (if isPlain ch then [ch] else decimalEntity ch)
  | "hex" => .ok (if isPlain ch then [ch] else hexEntity ch)
  | "all-non-ascii" => .ok (namedStyle ch)
  | other => .error (fail s!"未知的实体风格「{other}」")

/-- The loop of `html_entity_encode`. -/
def encodeEntities (style : String) : List Char → ChefResult (List Char)
  | [] => .ok []
  | ch :: text =>
      match entityChar style ch with
      | .error e => .error e
      | .ok out => (encodeEntities style text).map (out ++ ·)

/-- `html_entity_encode`. -/
def htmlEntityEncode (data : ChefData) (args : Args) : ChefResult ChefData :=
  match data.text with
  | .error e => .error e
  | .ok text => (encodeEntities (args.choice "style" "named") text).map .fromText

/-- `char::from_u32`. -/
def charFromU32 (n : Nat) : Option Char := if n.isValidChar then some (Char.ofNat n) else none

/-- `decode_entity`. -/
def decodeEntity (entity : List Char) : Option (List Char) :=
  match entity with
  | '#' :: 'x' :: hex | '#' :: 'X' :: hex =>
      ((Hex.fromStr (2 ^ 32) hex).bind charFromU32).map ([·])
  | '#' :: dec => ((Text.parseUnsigned (2 ^ 32) dec).bind charFromU32).map ([·])
  | entity => (namedEntities.find? fun e => e.1.toList = entity).map fun e => [e.2]

/-- What follows the first `;` of a text. -/
def afterSemicolon (s : List Char) : List Char := (s.dropWhile (· ≠ ';')).tail

theorem length_afterSemicolon (s : List Char) : (afterSemicolon s).length ≤ s.length := by
  rw [afterSemicolon, List.length_tail]
  exact Nat.le_trans (Nat.sub_le _ 1) (List.length_dropWhile_le _ s)

/-- `decode_entities`, and in it what `&` begins: the name up to the first `;`. -/
def decodeEntities : List Char → List Char
  | [] => []
  | c :: rest =>
      if c = '&' then
        match (if ';' ∈ rest then decodeEntity (rest.takeWhile (· ≠ ';')) else none) with
        | some text => text ++ decodeEntities (afterSemicolon rest)
        | none => '&' :: decodeEntities rest
      else c :: decodeEntities rest
termination_by s => s.length
decreasing_by
  · exact Nat.lt_succ_of_le (length_afterSemicolon rest)
  · exact Nat.lt_succ_self _
  · exact Nat.lt_succ_self _

/-- `html_entity_decode`. -/
def htmlEntityDecode (data : ChefData) (_args : Args) : ChefResult ChefData :=
  data.text.map fun text => .fromText (decodeEntities text)

/-! ### One entity -/

variable {c : Char} {style : String}

/-- An entity is read as its text. -/
theorem decodeEntities_entity {name text : List Char} (hname : ';' ∉ name)
    (h : decodeEntity name = some text) (rest : List Char) :
    decodeEntities ('&' :: (name ++ ';' :: rest)) = text ++ decodeEntities rest := by
  have hne : ∀ d ∈ name, (d ≠ ';' : Bool) = true := fun d hd =>
    decide_eq_true fun heq => hname (heq ▸ hd)
  have hstop : (';' ≠ ';' : Bool) = false := by decide
  have htake : (name ++ ';' :: rest).takeWhile (· ≠ ';') = name := by
    rw [List.takeWhile_append_of_pos hne, List.takeWhile_cons_of_neg (by simp), List.append_nil]
  have hafter : afterSemicolon (name ++ ';' :: rest) = rest := by
    rw [afterSemicolon, List.dropWhile_append_of_pos hne, List.dropWhile_cons_of_neg (by simp)]
    rfl
  rw [decodeEntities, if_pos rfl, if_pos (List.mem_append_right _ List.mem_cons_self), htake, h]
  dsimp only
  rw [hafter]

/-- A character that is no `&` is kept. -/
theorem decodeEntities_plain (h : c ≠ '&') (rest : List Char) :
    decodeEntities (c :: rest) = c :: decodeEntities rest := by
  rw [decodeEntities, if_neg h]

theorem charFromU32_toNat (c : Char) : charFromU32 c.toNat = some c := by
  have hvalid : c.toNat.isValidChar := c.valid
  rw [charFromU32, if_pos hvalid, Char.ofNat_toNat]

theorem toNat_lt (c : Char) : c.toNat < 2 ^ 32 := c.val.toNat_lt

/-- A number in decimal is not taken for one in hexadecimal. -/
theorem decodeEntity_number {dec : List Char} (h : ∀ d ∈ dec, Text.isAsciiDigit d = true) :
    decodeEntity ('#' :: dec) =
      ((Text.parseUnsigned (2 ^ 32) dec).bind charFromU32).map ([·]) := by
  unfold decodeEntity
  split
  · rename_i heq
    cases heq
    exact absurd (h 'x' List.mem_cons_self) (by decide)
  · rename_i heq
    cases heq
    exact absurd (h 'X' List.mem_cons_self) (by decide)
  · rename_i heq
    cases heq
    rfl
  · rename_i hno
    exact absurd rfl (hno dec)

/-- The decimal entity of a character is read back. -/
theorem decodeEntities_decimal (c : Char) (rest : List Char) :
    decodeEntities (decimalEntity c ++ rest) = c :: decodeEntities rest := by
  have hdigits : ∀ d ∈ Text.decimal c.toNat, Text.isAsciiDigit d = true :=
    fun d hd => Text.isAsciiDigit_of_mem_decimal hd
  have hno : ';' ∉ '#' :: Text.decimal c.toNat := by
    intro hmem
    rcases List.mem_cons.mp hmem with h | h
    · cases h
    · exact absurd (hdigits _ h) (by decide)
  have hdecode : decodeEntity ('#' :: Text.decimal c.toNat) = some [c] := by
    rw [decodeEntity_number hdigits, Text.parseUnsigned_decimal (toNat_lt c), Option.bind_some,
      charFromU32_toNat]
    rfl
  have h := decodeEntities_entity hno hdecode rest
  rw [decimalEntity, List.cons_append, List.cons_append, List.append_assoc]
  exact h

/-- The hexadecimal entity of a character is read back. -/
theorem decodeEntities_hex (c : Char) (rest : List Char) :
    decodeEntities (hexEntity c ++ rest) = c :: decodeEntities rest := by
  have hdigits : ∀ d ∈ Nat.toDigits 16 c.toNat, Hex.isDigit d = true := by
    obtain ⟨w, -, -, heq⟩ := Hex.toDigits_eq_fixed c.toNat
    rw [heq]
    exact fun d hd => Hex.isDigit_of_mem_fixed hd
  have hno : ';' ∉ '#' :: 'x' :: Nat.toDigits 16 c.toNat := by
    intro hmem
    rcases List.mem_cons.mp hmem with h | hmem
    · cases h
    · rcases List.mem_cons.mp hmem with h | h
      · cases h
      · exact absurd (hdigits _ h) (by decide)
  have hdecode : decodeEntity ('#' :: 'x' :: Nat.toDigits 16 c.toNat) = some [c] := by
    rw [decodeEntity, Hex.fromStr_toDigits (toNat_lt c), Option.bind_some, charFromU32_toNat]
    rfl
  have h := decodeEntities_entity hno hdecode rest
  rw [hexEntity, List.cons_append, List.cons_append, List.cons_append, List.append_assoc]
  exact h

/-- The name of a character is one that is read as it. -/
theorem namedEntity_some {name : List Char} (h : namedEntity c = some name) :
    ';' ∉ name ∧ decodeEntity name = some [c] := by
  unfold namedEntity at h
  split_ifs at h with hamp hlt hgt hquot hapos
  · subst hamp
    cases h
    decide
  · subst hlt
    cases h
    decide
  · subst hgt
    cases h
    decide
  · subst hquot
    cases h
    decide
  · subst hapos
    cases h
    decide

/-- A character of the named styles is read back. -/
theorem decodeEntities_named (c : Char) (rest : List Char) :
    decodeEntities (namedStyle c ++ rest) = c :: decodeEntities rest := by
  unfold namedStyle
  cases hname : namedEntity c with
  | some name =>
      obtain ⟨hno, hdecode⟩ := namedEntity_some hname
      have h := decodeEntities_entity hno hdecode rest
      dsimp only
      rw [List.cons_append, List.append_assoc]
      exact h
  | none =>
      have hamp : c ≠ '&' := by
        rintro rfl
        cases hname
      dsimp only
      split_ifs
      · exact decodeEntities_plain hamp rest
      · exact decodeEntities_decimal c rest

/-- A character that the numeric styles keep begins no entity. -/
theorem ne_of_isPlain (h : isPlain c = true) : c ≠ '&' := by
  rintro rfl
  cases h

/-! ### Texts -/

/-- The styles of `html_entity_encode`. -/
def entityStyles : List String := ["named", "decimal", "hex", "all-non-ascii"]

/-- **A character is read back**, in each style. -/
theorem decodeEntities_char (hstyle : style ∈ entityStyles) (c : Char) : ∃ out,
    entityChar style c = .ok out ∧
      ∀ rest, decodeEntities (out ++ rest) = c :: decodeEntities rest := by
  simp only [entityStyles, List.mem_cons, List.not_mem_nil, or_false] at hstyle
  rcases hstyle with rfl | rfl | rfl | rfl
  · exact ⟨_, rfl, decodeEntities_named c⟩
  · refine ⟨_, rfl, fun rest => ?_⟩
    split_ifs with hplain
    · exact decodeEntities_plain (ne_of_isPlain hplain) rest
    · exact decodeEntities_decimal c rest
  · refine ⟨_, rfl, fun rest => ?_⟩
    split_ifs with hplain
    · exact decodeEntities_plain (ne_of_isPlain hplain) rest
    · exact decodeEntities_hex c rest
  · exact ⟨_, rfl, decodeEntities_named c⟩

/-- The entities of a text are read back. -/
theorem decodeEntities_encodeEntities (hstyle : style ∈ entityStyles) : ∀ text : List Char,
    ∃ out, encodeEntities style text = .ok out ∧ decodeEntities out = text
  | [] => ⟨[], rfl, by rw [decodeEntities]⟩
  | c :: text => by
      obtain ⟨first, hfirst, hread⟩ := decodeEntities_char hstyle c
      obtain ⟨out, hout, hback⟩ := decodeEntities_encodeEntities hstyle text
      refine ⟨first ++ out, ?_, ?_⟩
      · rw [encodeEntities, hfirst, hout]
        rfl
      · rw [hread, hback]

/-- Nothing that is written between an `&` and the `;` after it is an entity. -/
def NoEntity (s : List Char) : Prop :=
  ∀ before rest, s = before ++ '&' :: rest → ';' ∈ rest →
    decodeEntity (rest.takeWhile (· ≠ ';')) = none

/-- A text without entities is left as it is. -/
theorem decodeEntities_of_noEntity : ∀ {s : List Char}, NoEntity s → decodeEntities s = s
  | [], _ => by rw [decodeEntities]
  | c :: rest, h => by
      have hrest : NoEntity rest := fun before rest' heq => h (c :: before) rest' (heq ▸ rfl)
      have ih := decodeEntities_of_noEntity hrest
      by_cases hc : c = '&'
      · subst hc
        have hnone : (if ';' ∈ rest then decodeEntity (rest.takeWhile (· ≠ ';')) else none) =
            none := by
          split_ifs with hmem
          · exact h [] rest rfl hmem
          · rfl
        rw [decodeEntities, if_pos rfl, hnone]
        dsimp only
        rw [ih]
      · rw [decodeEntities_plain hc, ih]

/-- **Entities come back**: a text from its entities in each style, and a text without entities
from itself. -/
theorem entities_round_trip : (∀ (text : List Char) (args args' : Args),
      args.choice "style" "named" ∈ entityStyles →
        (htmlEntityEncode (.fromText text) args).bind (htmlEntityDecode · args') =
          .ok (.fromText text)) ∧
    ∀ s, NoEntity s → decodeEntities s = s := by
  refine ⟨fun text args args' hstyle => ?_, fun s => decodeEntities_of_noEntity⟩
  obtain ⟨out, hout, hback⟩ := decodeEntities_encodeEntities hstyle text
  rw [htmlEntityEncode, text_fromText]
  dsimp only
  rw [hout, Except.map, Except.bind, htmlEntityDecode, text_fromText, Except.map, hback]

/-- A text without ampersands has no entities. -/
theorem noEntity_of_not_mem {s : List Char} (h : '&' ∉ s) : NoEntity s := fun before _ heq _ =>
  absurd (heq ▸ List.mem_append_right before List.mem_cons_self) h

/-- An ampersand and a stray semicolon come back in decimal. -/
theorem entities_round_trip_decimal :
    (htmlEntityEncode (.fromText "a&;".toList) ⟨[("style", "decimal")]⟩).bind
        (htmlEntityDecode · ⟨[]⟩) = .ok (.fromText "a&;".toList) ∧
      decodeEntities "amp;".toList = "amp;".toList :=
  ⟨entities_round_trip.1 "a&;".toList ⟨[("style", "decimal")]⟩ ⟨[]⟩ (by decide),
    entities_round_trip.2 "amp;".toList (noEntity_of_not_mem (by decide))⟩

end RevBox.Chef
