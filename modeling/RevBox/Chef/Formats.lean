import RevBox.Chef.Data
import RevBox.Support.Base64

/-!
# Chef — Formats

Bytes written in a format and read back from it, as one step of a recipe hands them to the next.

* `hexDecode_hexEncode`, `b64Decode_b64Encode`, `readDecimals`: the notations one by one.
* `read_emit_iff`: exactly which bytes come back in which format.
-/

namespace RevBox.Chef

/-- The formats a step can be given. -/
inductive Format where
  | utf8
  | raw
  | hex
  | base64
  | base64url
  | decimal
  deriving DecidableEq

/-- The name of a format. -/
def Format.asStr : Format → String
  | .utf8 => "utf8"
  | .raw => "raw"
  | .hex => "hex"
  | .base64 => "base64"
  | .base64url => "base64url"
  | .decimal => "decimal"

/-! ### Hexadecimal -/

/-- The two digits of a byte. -/
def hexByte (b : UInt8) : List Char := [hexDigit (b.toNat / 16), hexDigit (b.toNat % 16)]

theorem hexDigit_facts : ∀ n < 16, toHexDigit (hexDigit n) = some n ∧
    Text.isWhitespace (hexDigit n) = false ∧ hexDigit n ≠ 'x' := by
  decide

theorem hexEncode_eq (bytes : List UInt8) : hexEncode bytes false [] = bytes.flatMap hexByte := by
  induction bytes with
  | nil => rfl
  | cons b bytes ih =>
      cases bytes with
      | nil => simp [hexEncode, hexByte]
      | cons c bytes =>
          rw [List.flatMap_cons, ← ih]
          simp [hexEncode, hexByte, List.intercalate_cons_cons]

theorem mem_hexEncode {bytes : List UInt8} {c : Char} (h : c ∈ bytes.flatMap hexByte) :
    ∃ n < 16, c = hexDigit n := by
  obtain ⟨b, -, hc⟩ := List.mem_flatMap.mp h
  have hb := b.toNat_lt
  rcases List.mem_cons.mp hc with rfl | hc
  · exact ⟨_, by omega, rfl⟩
  · exact ⟨_, by omega, List.mem_singleton.mp hc⟩

theorem hexPairs_flatMap (bytes : List UInt8) :
    hexPairs ((bytes.flatMap hexByte).filterMap toHexDigit) = bytes := by
  induction bytes with
  | nil => rfl
  | cons b bytes ih =>
      have hb := b.toNat_lt
      have hhi := (hexDigit_facts (b.toNat / 16) (by omega)).1
      have hlo := (hexDigit_facts (b.toNat % 16) (by omega)).1
      have hbyte : b.toNat / 16 * 16 + b.toNat % 16 = b.toNat := by omega
      rw [List.flatMap_cons, hexByte, List.cons_append, List.cons_append,
        List.filterMap_cons_some hhi, List.filterMap_cons_some hlo, List.nil_append, hexPairs, ih,
        hbyte, UInt8.ofNat_toNat]

theorem length_flatMap_hexByte (bytes : List UInt8) :
    (bytes.flatMap hexByte).length = 2 * bytes.length := by
  induction bytes with
  | nil => rfl
  | cons b bytes ih =>
      rw [List.flatMap_cons, List.length_append, ih, List.length_cons, hexByte]
      simp only [List.length_cons, List.length_nil]
      omega

/-- Hexadecimal text is read back. -/
theorem hexDecode_hexEncode (bytes : List UInt8) :
    hexDecode (hexEncode bytes false []) = .ok bytes := by
  rw [hexEncode_eq]
  have hclean : (bytes.flatMap hexByte).filter (fun c => !Text.isWhitespace c) =
      bytes.flatMap hexByte := by
    refine List.filter_eq_self.mpr fun c hc => ?_
    obtain ⟨n, hn, rfl⟩ := mem_hexEncode hc
    rw [(hexDigit_facts n hn).2.1]
    rfl
  have hfind : (bytes.flatMap hexByte).find? (fun c => (toHexDigit c).isNone) = none := by
    refine List.find?_eq_none.mpr fun c hc => ?_
    obtain ⟨n, hn, rfl⟩ := mem_hexEncode hc
    rw [(hexDigit_facts n hn).1]
    exact Bool.false_ne_true
  have hprefix : ∀ rest, bytes.flatMap hexByte ≠ '0' :: 'x' :: rest := by
    intro rest heq
    obtain ⟨n, hn, hx⟩ := mem_hexEncode (heq ▸ List.mem_cons_of_mem _ List.mem_cons_self)
    exact absurd hx.symm (hexDigit_facts n hn).2.2
  have heven : ¬ (bytes.flatMap hexByte).length % 2 = 1 := by
    rw [length_flatMap_hexByte]
    omega
  unfold hexDecode
  simp only [hclean]
  split
  · rename_i hnil
    have hlen := length_flatMap_hexByte bytes
    rw [hnil, List.length_nil] at hlen
    rw [List.length_eq_zero_iff.mp (by omega : bytes.length = 0)]
  · simp only [hfind, hexPairs_flatMap]

/-! ### Decimal lists -/

theorem trim_decimal (n : Nat) : Text.trim (Text.decimal n) = Text.decimal n :=
  Text.trim_of_no_blank fun _ hc =>
    Text.not_whitespace_of_isAsciiDigit (Text.isAsciiDigit_of_mem_decimal hc)

theorem readDecimal_decimal (b : UInt8) : readDecimal (Text.decimal b.toNat) = .ok b := by
  have hb := b.toNat_lt
  have hparse : Text.parseUnsigned (2 ^ 16) (Text.decimal b.toNat) = some b.toNat :=
    Text.parseUnsigned_decimal (by omega)
  have hlt : decide (b.toNat < 256) = true := decide_eq_true hb
  simp only [readDecimal, trim_decimal, hparse, Option.filter_some, hlt, if_true,
    UInt8.ofNat_toNat]

theorem splitOnP_join {ls : List (List Char)} (hne : ls ≠ [])
    (h : ∀ l ∈ ls, ∀ c ∈ l, isListSeparator c = false) :
    (Text.join ' ' ls).splitOnP isListSeparator = ls := by
  unfold Text.join
  induction ls with
  | nil => exact absurd rfl hne
  | cons l ls ih =>
      have hl := h l List.mem_cons_self
      cases ls with
      | nil =>
          rw [List.intercalate_singleton, List.splitOnP_eq_singleton hl]
      | cons l' ls =>
          have ih := ih (List.cons_ne_nil _ _) fun k hk => h k (List.mem_cons_of_mem _ hk)
          rw [List.intercalate_cons_cons, List.append_assoc, List.singleton_append,
            List.splitOnP_append_cons_of_forall_mem hl ' ' rfl, ih]

/-- A list of decimals is read back. -/
theorem readDecimals (bytes : List UInt8) :
    (((Text.join ' ' (bytes.map fun b => Text.decimal b.toNat)).splitOnP isListSeparator).filter
      fun t => t ≠ []).mapM readDecimal = .ok bytes := by
  have hmap : (bytes.map fun b => Text.decimal b.toNat).mapM readDecimal = .ok bytes := by
    induction bytes with
    | nil => rfl
    | cons b bytes ih =>
        rw [List.map_cons, List.mapM_cons, readDecimal_decimal, ih]
        rfl
  by_cases hnil : bytes = []
  · rw [hnil]
    rfl
  have hsplit : (Text.join ' ' (bytes.map fun b => Text.decimal b.toNat)).splitOnP isListSeparator =
      bytes.map fun b => Text.decimal b.toNat := by
    refine splitOnP_join (by simpa using hnil) fun l hl c hc => ?_
    obtain ⟨b, -, rfl⟩ := List.mem_map.mp hl
    have hblank := Text.not_whitespace_of_isAsciiDigit (Text.isAsciiDigit_of_mem_decimal hc)
    have hdigit := Text.isAsciiDigit_of_mem_decimal hc
    have hne : ∀ d, Text.isAsciiDigit d = false → c ≠ d := fun d hd heq => by
      rw [heq, hd] at hdigit
      cases hdigit
    simp [isListSeparator, hne ' ' rfl, hne ',' rfl, hne '\n' rfl, hne '\t' rfl]
  have hkeep : (bytes.map fun b => Text.decimal b.toNat).filter (fun t => t ≠ []) =
      bytes.map fun b => Text.decimal b.toNat := by
    refine List.filter_eq_self.mpr fun t ht => ?_
    obtain ⟨b, -, rfl⟩ := List.mem_map.mp ht
    simpa using Text.decimal_ne_nil b.toNat
  rw [hsplit, hkeep, hmap]

/-! ### Base64 -/

/-- What is documented of the engines: the padded encoding is the unpadded one and its padding, the
unpadded one is six bits a symbol of the alphabet, and the unpadded decoder reads it. -/
structure Documented (base64 : Engines) (encodeNoPad : Bool → List UInt8 → List Char) : Prop where
  padded : ∀ urlSafe bytes,
    base64.encode urlSafe bytes = encodeNoPad urlSafe bytes ++ Base64.padding bytes.length
  length : ∀ urlSafe bytes, (encodeNoPad urlSafe bytes).length = (8 * bytes.length + 5) / 6
  symbols : ∀ urlSafe bytes, ∀ c ∈ encodeNoPad urlSafe bytes, Base64.InAlphabet urlSafe c
  decode : ∀ urlSafe bytes, base64.decodeNoPad urlSafe (encodeNoPad urlSafe bytes) = .ok bytes

theorem symbol_facts {urlSafe : Bool} : ∀ n < 64, Text.isWhitespace (Base64.symbol urlSafe n) = false ∧
    foldAlphabet urlSafe (Base64.symbol urlSafe n) = Base64.symbol urlSafe n ∧
    Base64.symbol urlSafe n ≠ '=' := by
  cases urlSafe <;> decide

/-- Base64 text is read back. -/
theorem b64Decode_b64Encode {base64 : Engines} {encodeNoPad : Bool → List UInt8 → List Char}
    (h : Documented base64 encodeNoPad) (urlSafe : Bool) (bytes : List UInt8) :
    b64Decode base64 (b64Encode base64 bytes urlSafe true) urlSafe false = .ok bytes := by
  have hsymbol := fun c hc => h.symbols urlSafe bytes c hc
  have hchars : ∀ c ∈ base64.encode urlSafe bytes,
      Text.isWhitespace c = false ∧ foldAlphabet urlSafe c = c := by
    intro c hc
    rw [h.padded, List.mem_append] at hc
    rcases hc with hc | hc
    · obtain ⟨n, hn, rfl⟩ := hsymbol c hc
      exact ⟨(symbol_facts n hn).1, (symbol_facts n hn).2.1⟩
    · rw [List.eq_of_mem_replicate hc]
      cases urlSafe <;> decide
  have hclean : (base64.encode urlSafe bytes).filter (fun c => !Text.isWhitespace c) =
      base64.encode urlSafe bytes :=
    List.filter_eq_self.mpr fun c hc => by rw [(hchars c hc).1]; rfl
  have hfold : (base64.encode urlSafe bytes).map (foldAlphabet urlSafe) =
      base64.encode urlSafe bytes :=
    (List.map_congr_left fun c hc => (hchars c hc).2).trans (List.map_id _)
  have htrim : Text.trimEndMatches '=' (base64.encode urlSafe bytes) = encodeNoPad urlSafe bytes := by
    rw [h.padded, Base64.padding]
    refine Text.trimEndMatches_replicate (fun hmem => ?_) _
    obtain ⟨n, hn, heq⟩ := hsymbol '=' hmem
    exact (symbol_facts n hn).2.2 heq.symm
  have hbody : b64Encode base64 bytes urlSafe true = base64.encode urlSafe bytes := rfl
  rw [hbody]
  unfold b64Decode
  simp only [hclean, hfold, htrim, h.decode]
  split
  · rename_i hnil
    have hlen := congrArg List.length hnil
    rw [h.padded, List.length_append, h.length, List.length_nil] at hlen
    rw [List.length_eq_zero_iff.mp (by omega : bytes.length = 0)]
  · rfl

/-! ### All formats -/

/-- **Bytes written in a format come back from it**, in the formats that write them as they are
exactly when they are UTF-8. -/
theorem read_emit_iff {base64 : Engines} {encodeNoPad : Bool → List UInt8 → List Char}
    (h : Documented base64 encodeNoPad) (format : Format) (bytes : List UInt8) :
    (do readByFormat base64 (← emitByFormat base64 bytes format.asStr) format.asStr) = .ok bytes ↔
      (format = .utf8 ∨ format = .raw → ∃ s, bytes = Utf8.encode s) := by
  have hplain : (ChefData.mk bytes).text.bind (fun _ => .ok bytes) = .ok bytes ↔
      ∃ s, bytes = Utf8.encode s := by
    unfold ChefData.text
    cases hs : Utf8.fromUtf8 bytes with
    | none =>
        refine iff_of_false (fun hne => by cases hne) fun ⟨s, heq⟩ => ?_
        rw [heq, Utf8.fromUtf8_encode] at hs
        cases hs
    | some s => exact iff_of_true rfl ⟨s, Utf8.fromUtf8_eq_some_iff.mp hs⟩
  have hread : ∀ (s : List Char) (decode : List Char → ChefResult (List UInt8)),
      decode s = .ok bytes → ((ChefData.fromText s).text.bind decode = .ok bytes ↔ True) :=
    fun s decode hs => iff_true_intro (by rw [text_fromText]; exact hs)
  cases format with
  | utf8 => exact hplain.trans ⟨fun hs _ => hs, fun hs => hs (.inl rfl)⟩
  | raw => exact hplain.trans ⟨fun hs _ => hs, fun hs => hs (.inr rfl)⟩
  | hex =>
      exact (hread _ hexDecode (hexDecode_hexEncode bytes)).trans
        (iff_of_true trivial (by rintro (h | h) <;> cases h))
  | base64 =>
      exact (hread _ (fun text => b64Decode base64 text false false)
        (b64Decode_b64Encode h false bytes)).trans
          (iff_of_true trivial (by rintro (h | h) <;> cases h))
  | base64url =>
      exact (hread _ (fun text => b64Decode base64 text true false)
        (b64Decode_b64Encode h true bytes)).trans
          (iff_of_true trivial (by rintro (h | h) <;> cases h))
  | decimal =>
      exact (hread _ _ (readDecimals bytes)).trans
        (iff_of_true trivial (by rintro (h | h) <;> cases h))

/-- Engines that do what is documented. -/
def rfc4648 : Engines where
  encode := Base64.encode
  decode urlSafe text :=
    match Base64.decodeNoPad urlSafe (Text.trimEndMatches '=' text) with
    | some bytes =>
        if text = Base64.encode urlSafe bytes then .ok bytes else .error "Invalid padding"
    | none => .error "Invalid input"
  decodeNoPad urlSafe text :=
    match Base64.decodeNoPad urlSafe text with
    | some bytes => .ok bytes
    | none => .error "Invalid input"

theorem rfc4648_documented : Documented rfc4648 Base64.encodeNoPad where
  padded _ _ := rfl
  length urlSafe bytes := by rw [Base64.encodeNoPad, List.length_map, Base64.length_sextets]
  symbols _ _ := Base64.inAlphabet_encodeNoPad
  decode urlSafe bytes := by simp only [rfc4648, Base64.decodeNoPad_encodeNoPad]

/-- Bytes that are no text come back from Base64. -/
theorem bytes_through_base64 :
    (do readByFormat rfc4648 (← emitByFormat rfc4648 [0x80] "base64") "base64") = .ok [0x80] :=
  (read_emit_iff rfc4648_documented .base64 [0x80]).mpr (by rintro (h | h) <;> cases h)

/-- A byte that begins no text does not come back from the format that writes it as it is. -/
theorem bytes_not_through_utf8 :
    (do readByFormat rfc4648 (← emitByFormat rfc4648 [0x80] "utf8") "utf8") = .error (fail
      "当前数据不是合法 UTF-8 文本，这一步需要文本输入（先用上一步把它转成文本）") := by
  have hnone : Utf8.fromUtf8 [0x80] = none := rfl
  have htext : (ChefData.mk [0x80]).text = .error (fail
      "当前数据不是合法 UTF-8 文本，这一步需要文本输入（先用上一步把它转成文本）") := by
    simp only [ChefData.text, hnone]
  have hbind : (do readByFormat rfc4648 (← emitByFormat rfc4648 [0x80] "utf8") "utf8") =
      (ChefData.mk [0x80]).text.bind fun _ => .ok [0x80] := rfl
  rw [hbind, htext]
  rfl

end RevBox.Chef
