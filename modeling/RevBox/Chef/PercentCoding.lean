import RevBox.Chef.Data

/-!
# Chef — PercentCoding

The operations `urlEncode` and `urlDecode` of `services/chef/ops/encoding.rs`.

* `urlDecode_urlEncode`: a text comes back from its percent coding, whatever the options.
-/

namespace RevBox.Chef

/-! ### The code -/

/-- `is_unreserved`. -/
def isUnreserved (c : Char) : Bool :=
  Text.isAsciiAlphanumeric c || c = '-' || c = '_' || c = '.' || c = '~'

/-- `is_js_unreserved`. -/
def isJsUnreserved (c : Char) : Bool :=
  isUnreserved c || c = '!' || c = '\'' || c = '(' || c = ')' || c = '*' || c = '-'

/-- The characters that `url_encode` keeps. -/
def keeps (component : Bool) (c : Char) : Bool :=
  if component then isJsUnreserved c else isUnreserved c

/-- A byte, as `{:02X}` or `{:02x}` writes it. -/
def escapedByte (uppercase : Bool) (b : UInt8) : List Char :=
  let s := [hexDigit (b.toNat / 16), hexDigit (b.toNat % 16)]
  if uppercase then s.map hexUpper else s

/-- A turn of the loop of `url_encode`. -/
def percentChar (component uppercase : Bool) (ch : Char) : List Char :=
  if keeps component ch then [ch]
  else (String.utf8EncodeChar ch).flatMap fun b => '%' :: escapedByte uppercase b

/-- `url_encode`. -/
def urlEncode (data : ChefData) (args : Args) : ChefResult ChefData :=
  data.text.map fun text =>
    .fromText (text.flatMap (percentChar (args.boolOf "component") (args.boolOf "uppercase")))

/-- The byte of two hexadecimal digits. -/
def percentValue (hi lo : UInt8) : Option UInt8 :=
  match toHexDigit (Char.ofNat hi.toNat), toHexDigit (Char.ofNat lo.toNat) with
  | some h, some l => some (.ofNat (16 * h + l))
  | _, _ => none

/-- The loop of `url_decode`. -/
def percentDecode (plusAsSpace : Bool) : List UInt8 → ChefResult (List UInt8)
  | [] => .ok []
  | b :: rest =>
      if b = 0x25 then
        match rest with
        | [] => .ok [b]
        | [_] => .error (fail "URL 编码在行尾被截断")
        | hi :: lo :: after =>
            match percentValue hi lo with
            | some v => (percentDecode plusAsSpace after).map (v :: ·)
            | none => (percentDecode plusAsSpace (hi :: lo :: after)).map (b :: ·)
      else if b = 0x2b ∧ plusAsSpace then (percentDecode plusAsSpace rest).map (0x20 :: ·)
      else (percentDecode plusAsSpace rest).map (b :: ·)

/-- `url_decode`. -/
def urlDecode (data : ChefData) (args : Args) : ChefResult ChefData :=
  match data.text with
  | .error e => .error e
  | .ok input =>
      match percentDecode (args.boolOf "plusAsSpace") (Utf8.encode input) with
      | .error e => .error e
      | .ok out =>
          if (Utf8.fromUtf8 out).isNone then .error (fail
            "解码后的字节不是合法 UTF-8：这可能是 GBK/Big5 之类编码，用「按字符集解码」再试")
          else .ok ⟨out⟩

/-! ### One character -/

variable {plusAsSpace : Bool} {rest : List UInt8}

/-- The byte of an ASCII character. -/
def asciiByte (c : Char) : UInt8 := c.val.toUInt8

/-- A digit of either case is ASCII, and is read back. -/
theorem escapedByte_digits (uppercase : Bool) (b : UInt8) : ∃ h l,
    escapedByte uppercase b = [h, l] ∧
    Utf8.isAscii h ∧ Utf8.isAscii l ∧ percentValue (asciiByte h) (asciiByte l) = some b := by
  have hall : ∀ (u : Bool) (d : Fin 16),
      Utf8.isAscii (if u then hexUpper (hexDigit d) else hexDigit d) = true ∧
        toHexDigit
          (Char.ofNat (asciiByte (if u then hexUpper (hexDigit d) else hexDigit d)).toNat) =
          some d.val := by decide
  have hb := b.toNat_lt
  obtain ⟨hhi, hhi'⟩ := hall uppercase ⟨b.toNat / 16, by omega⟩
  obtain ⟨hlo, hlo'⟩ := hall uppercase ⟨b.toNat % 16, by omega⟩
  refine ⟨_, _, ?_, hhi, hlo, ?_⟩
  · cases uppercase <;> rfl
  · rw [percentValue, hhi', hlo']
    refine congrArg some (UInt8.toNat_inj.mp ?_)
    rw [UInt8.toNat_ofNat']
    show (16 * (b.toNat / 16) + b.toNat % 16) % 256 = b.toNat
    omega

/-- A coded byte is read back. -/
theorem percentDecode_escapedByte (uppercase : Bool) (b : UInt8) (rest : List UInt8) :
    percentDecode plusAsSpace (Utf8.encode ('%' :: escapedByte uppercase b) ++ rest) =
      (percentDecode plusAsSpace rest).map (b :: ·) := by
  obtain ⟨h, l, heq, hh, hl, hvalue⟩ := escapedByte_digits uppercase b
  have hbytes : Utf8.encode ('%' :: escapedByte uppercase b) =
      [0x25, asciiByte h, asciiByte l] := by
    rw [heq, Utf8.encode_of_ascii (by simp [hh, hl]; decide)]
    rfl
  rw [hbytes, List.cons_append, List.cons_append, List.singleton_append, percentDecode, if_pos rfl,
    hvalue]

/-- The coded bytes of a character are read back. -/
theorem percentDecode_bytes (uppercase : Bool) : ∀ (bytes rest : List UInt8),
    percentDecode plusAsSpace
      (Utf8.encode (bytes.flatMap fun b => '%' :: escapedByte uppercase b) ++ rest) =
        (percentDecode plusAsSpace rest).map (bytes ++ ·)
  | [], rest => by
      rw [List.flatMap_nil, Utf8.encode, List.flatMap_nil, List.nil_append]
      cases percentDecode plusAsSpace rest <;> rfl
  | b :: bytes, rest => by
      rw [List.flatMap_cons, Utf8.encode_append, List.append_assoc, percentDecode_escapedByte,
        percentDecode_bytes uppercase bytes]
      cases percentDecode plusAsSpace rest <;> rfl

/-- A character that is kept is ASCII, and stands for itself. -/
theorem kept_plain {component : Bool} {c : Char} (h : keeps component c = true) :
    Utf8.isAscii c ∧ asciiByte c ≠ 0x25 ∧ asciiByte c ≠ 0x2b := by
  have hclass : Text.isAsciiAlphanumeric c = true ∨
      c ∈ ['-', '_', '.', '~', '!', '\'', '(', ')', '*'] := by
    have hjs : isJsUnreserved c = true := by
      cases component with
      | true => exact h
      | false =>
          have hkeep : isUnreserved c = true := h
          simp [isJsUnreserved, hkeep]
    simp only [isJsUnreserved, isUnreserved, Bool.or_eq_true, decide_eq_true_eq] at hjs
    simp only [List.mem_cons, List.not_mem_nil, or_false]
    tauto
  have hbyte : (asciiByte c).toNat = c.toNat % 256 := UInt32.toNat_toUInt8 c.val
  have hne : ∀ b : UInt8, b.toNat ≠ c.toNat % 256 → asciiByte c ≠ b := fun b hb heq =>
    hb (heq ▸ hbyte)
  rcases hclass with halnum | hmark
  · simp only [Text.isAsciiAlphanumeric, Text.isAsciiDigit, Bool.or_eq_true, Bool.and_eq_true,
      decide_eq_true_eq] at halnum
    refine ⟨Utf8.isAscii_iff.mpr (by omega), hne _ ?_, hne _ ?_⟩
    · show 0x25 ≠ _
      omega
    · show 0x2b ≠ _
      omega
  · have hall : (['-', '_', '.', '~', '!', '\'', '(', ')', '*'].all fun d =>
        decide (Utf8.isAscii d ∧ asciiByte d ≠ 0x25 ∧ asciiByte d ≠ 0x2b)) = true := by decide
    exact of_decide_eq_true (List.all_eq_true.mp hall c hmark)

/-- **A character is read back.** -/
theorem percentDecode_char (component uppercase : Bool) (c : Char) (rest : List UInt8) :
    percentDecode plusAsSpace (Utf8.encode (percentChar component uppercase c) ++ rest) =
      (percentDecode plusAsSpace rest).map (String.utf8EncodeChar c ++ ·) := by
  unfold percentChar
  split_ifs with hkeep
  · obtain ⟨hascii, hpercent, hplus⟩ := kept_plain hkeep
    have hbytes : String.utf8EncodeChar c = [asciiByte c] := Utf8.utf8EncodeChar_ascii hascii
    have htext : Utf8.encode [c] = [asciiByte c] := by
      rw [← hbytes]
      exact List.append_nil _
    rw [htext, hbytes, List.singleton_append, percentDecode.eq_def]
    dsimp only
    rw [if_neg hpercent, if_neg fun h => hplus h.1]
    rfl
  · exact percentDecode_bytes uppercase _ rest

/-! ### Texts -/

/-- The coding of a text is read back. -/
theorem percentDecode_text (component uppercase : Bool) (text : List Char) :
    percentDecode plusAsSpace (Utf8.encode (text.flatMap (percentChar component uppercase))) =
      .ok (Utf8.encode text) := by
  induction text with
  | nil => rfl
  | cons c text ih =>
      rw [List.flatMap_cons, Utf8.encode_append, percentDecode_char, ih]
      rfl

/-- **A text comes back** from its percent coding, with any options on either side. -/
theorem urlDecode_urlEncode (text : List Char) (args args' : Args) :
    (urlEncode (.fromText text) args).bind (urlDecode · args') = .ok (.fromText text) := by
  rw [urlEncode, text_fromText, Except.map, Except.bind, urlDecode, text_fromText]
  dsimp only
  rw [percentDecode_text]
  dsimp only
  rw [Utf8.fromUtf8_encode]
  rfl

end RevBox.Chef
