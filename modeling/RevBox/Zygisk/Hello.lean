import RevBox.Protocol.Envelope
import RevBox.Zygisk.Fuse

/-!
# Zygisk — Hello

The line after the handshake: what the module has of its `module.prop` and of the locale
(`load_module_meta`, `detect_device_locale`), the `OK` line, and how the Agent reads it
(`parse_pro_hello`).

`fgets` reads a long line in pieces, each of which is looked at as a line.

* `told_iff`: the Agent has the version, the code, the locale and the capabilities of the module
  iff version and locale are one word each, as the module keeps them, and the code fits.
-/

namespace RevBox.Zygisk

open CText

/-! ### The module -/

/-- What `fgets` reads into 256 bytes, piece by piece: after the bytes `piece`, given backwards,
with room for `room` more. -/
def piecesFrom (piece : Bytes) (room : Nat) : Bytes → List Bytes
  | [] => if piece = [] then [] else [piece.reverse]
  | c :: s =>
      if c = 10 ∨ room ≤ 1 then (c :: piece).reverse :: piecesFrom [] 255 s
      else piecesFrom (c :: piece) (room - 1) s

/-- The lines of `module.prop`, as `load_module_meta` sees them. -/
def pieces (text : Bytes) : List Bytes := piecesFrom [] 255 text

/-- `line[strcspn(line, "\r\n")] = '\0'`. -/
def cutLine (line : Bytes) : Bytes := line.takeWhile fun b => b ≠ 0 && b ≠ 13 && b ≠ 10

/-- What a line says for a key. -/
def valueOf (key line : Bytes) : Option Bytes :=
  if key.isPrefixOf (cutLine line) then some ((cutLine line).drop key.length) else none

/-- What the last line with a key says. -/
def lastValue (key : Bytes) (ls : List Bytes) : Option Bytes := (ls.filterMap (valueOf key)).getLast?

/-- `strtol`, of a number that saturates at 64 bits. -/
def strtol (s : Bytes) : Int :=
  let s := skip s
  let (negative, s) := match s with
    | 45 :: s => (true, s)
    | 43 :: s => (false, s)
    | s => (false, s)
  let n : Int := decimal (s.takeWhile CText.isDigit)
  max (-2 ^ 63) (min (if negative then -n else n) (2 ^ 63 - 1))

/-- The version that lines name. -/
def versionIn (ls : List Bytes) : Bytes := (lastValue (lit "version=") ls).getD (lit "?")

/-- The version code that lines name. -/
def codeIn (ls : List Bytes) : Int := ((lastValue (lit "versionCode=") ls).map strtol).getD 0

/-- The properties of the device that name its locale. -/
structure LocaleProps where
  persist : Bytes
  product : Bytes
  persist_le : persist.length ≤ 91
  product_le : product.length ≤ 91

/-- `detect_device_locale`. -/
def detectDeviceLocale (props : LocaleProps) : Bytes :=
  if props.persist ≠ [] then props.persist
  else if props.product ≠ [] then props.product
  else lit "unknown"

theorem mem_cutLine {b : UInt8} {line : Bytes} (h : b ∈ cutLine line) : b ≠ 10 := by
  have hb := List.mem_takeWhile_imp h
  simp only [Bool.and_eq_true, decide_eq_true_eq] at hb
  exact hb.2

theorem not_mem_versionIn (ls : List Bytes) : 10 ∉ versionIn ls := by
  intro hmem
  unfold versionIn lastValue at hmem
  cases hlast : (ls.filterMap (valueOf (lit "version="))).getLast? with
  | none =>
      rw [hlast] at hmem
      revert hmem
      decide
  | some value =>
      rw [hlast] at hmem
      obtain ⟨line, -, hvalue⟩ := List.mem_filterMap.mp (List.mem_of_getLast? hlast)
      rw [valueOf] at hvalue
      split at hvalue
      · cases hvalue
        exact mem_cutLine (List.mem_of_mem_drop hmem) rfl
      · cases hvalue

theorem strtol_bounds (s : Bytes) : -2 ^ 63 ≤ strtol s ∧ strtol s < 2 ^ 63 := by
  simp only [strtol]
  omega

theorem codeIn_bounds (ls : List Bytes) : -2 ^ 63 ≤ codeIn ls ∧ codeIn ls < 2 ^ 63 := by
  rw [codeIn]
  cases lastValue (lit "versionCode=") ls with
  | none => decide
  | some value => exact strtol_bounds value

theorem length_detectDeviceLocale (props : LocaleProps) :
    (detectDeviceLocale props).length ≤ 127 := by
  unfold detectDeviceLocale
  split
  · exact props.persist_le.trans (by decide)
  split
  · exact props.product_le.trans (by decide)
  · decide

theorem detectDeviceLocale_ne_nil (props : LocaleProps) : detectDeviceLocale props ≠ [] := by
  unfold detectDeviceLocale
  split
  · assumption
  split
  · assumption
  · decide

/-- `load_module_meta` and `detect_device_locale`. -/
def loadModuleMeta (text : Bytes) (props : LocaleProps) : ModuleMeta where
  version := (versionIn (pieces text)).take 63
  versionCode := codeIn (pieces text)
  locale := detectDeviceLocale props
  version_le := List.length_take_le 63 _
  version_line := fun h => not_mem_versionIn _ (List.mem_of_mem_take h)
  code_bounds := codeIn_bounds _
  locale_le := length_detectDeviceLocale props

/-! ### The Agent -/

/-- `ProHello`, as the handshake leaves it. -/
structure ProHello where
  version : List Char
  versionCode : Nat
  locale : List Char
  capabilities : List (List Char)

/-- `incompatible`. -/
def incompatible (message reason : String) : AgentError :=
  (AgentError.new .incompatibleVersion message).withDetails (reasonDetails reason)

/-- `parse_pro_hello`. -/
def parseProHello (line : List Char) : Except AgentError ProHello :=
  match Text.splitWhitespace line with
  | [] => .error (incompatible s!"v2 模块握手应答异常: {String.ofList line}" "pro_handshake_shape")
  | ok :: parts =>
      if ok ≠ "OK".toList then
        .error (incompatible s!"v2 模块握手应答异常: {String.ofList line}" "pro_handshake_shape")
      else
        match parts.head?.bind (Text.parseUnsigned (2 ^ 32)) with
        | none => .error (incompatible "v2 握手缺少协议版本" "pro_handshake_proto")
        | some proto =>
            if proto ≠ 2 then
              .error (incompatible s!"v2 模块协议版本不匹配: {proto}" "pro_handshake_version")
            else
              let parts := parts.tail
              .ok {
                version := parts.head?.getD []
                versionCode := (parts[1]?.bind (Text.parseUnsigned (2 ^ 32))).getD 0
                locale := parts[2]?.getD []
                capabilities := parts.drop 3 }

/-- **Told**: the Agent reads from the `OK` line what the lines of `module.prop` say, the locale of
the device and the capabilities of the methods that are not fused. -/
def Told (text : Bytes) (props : LocaleProps) (fused : Command → Bool) : Prop :=
  ∃ hello, parseProHello (Utf8.fromUtf8Lossy
      (statusLine (loadModuleMeta text props) fused (lit "OK"))) = .ok hello ∧
    Utf8.encode hello.version = versionIn (text.splitOn 10) ∧
    (hello.versionCode : Int) = codeIn (text.splitOn 10) ∧
    Utf8.encode hello.locale = detectDeviceLocale props ∧
    hello.capabilities.map Utf8.encode = capabilities fused

/-- The words of bytes. -/
def words (bytes : Bytes) : List (List Char) := Text.splitWhitespace (Utf8.fromUtf8Lossy bytes)

/-- The bytes are one word, of this text. -/
def OneWord (bytes text : Bytes) : Prop := ∃ word, words bytes = [word] ∧ Utf8.encode word = text

/-- A version code, as far as the Agent has room for it. -/
def shownCode (n : Int) : Int := if 0 ≤ n ∧ n < 2 ^ 32 then n else 0

/-- What is one word is told: the version that `fgets` and the buffer leave, which is to be that of
the lines; the code; and the locale. -/
def Plain (text : Bytes) (props : LocaleProps) : Prop :=
  OneWord ((versionIn (pieces text)).take 63) (versionIn (text.splitOn 10)) ∧
    shownCode (codeIn (pieces text)) = codeIn (text.splitOn 10) ∧
    OneWord (detectDeviceLocale props) (detectDeviceLocale props)

/-! ### The words of the line -/

theorem words_space (a b : Bytes) : words (a ++ 32 :: b) = words a ++ words b := by
  rw [words, Utf8.fromUtf8Lossy_space, Text.splitWhitespace_parts rfl]
  rfl

theorem words_newline (a : Bytes) : words (a ++ [10]) = words a := by
  rw [words, Utf8.fromUtf8Lossy_append, Text.splitWhitespace_parts rfl]
  exact List.append_nil _

theorem words_encode {w : List Char} (hne : w ≠ []) (h : ∀ c ∈ w, Text.isWhitespace c = false) :
    words (Utf8.encode w) = [w] := by
  rw [words, Utf8.fromUtf8Lossy_encode, Text.splitWhitespace_word hne h]

/-- A word of the line is one word by itself. -/
theorem words_of_mem {bytes : Bytes} {w : List Char} (hw : w ∈ words bytes) :
    words (Utf8.encode w) = [w] :=
  words_encode (Text.splitWhitespace_ne_nil hw) (Text.splitWhitespace_no_blank hw)

/-- The characters of `intText`. -/
def intChars : Int → List Char
  | .ofNat n => Text.decimal n
  | .negSucc n => '-' :: Text.decimal (n + 1)

theorem isAscii_of_isAsciiDigit {c : Char} (h : Text.isAsciiDigit c = true) :
    Utf8.isAscii c = true := by
  simp only [Text.isAsciiDigit, Bool.and_eq_true, decide_eq_true_eq] at h
  exact Utf8.isAscii_iff.mpr (h.2.trans (by decide))

theorem sizeText_encode (n : Nat) : sizeText n = Utf8.encode (Text.decimal n) := by
  rw [sizeText_eq, Utf8.encode_of_ascii]
  exact List.all_eq_true.mpr fun c hc =>
    isAscii_of_isAsciiDigit (Text.isAsciiDigit_of_mem_decimal hc)

theorem intText_encode : ∀ n : Int, intText n = Utf8.encode (intChars n)
  | .ofNat n => sizeText_encode n
  | .negSucc n => congrArg (45 :: ·) (sizeText_encode (n + 1))

theorem words_intText (n : Int) : words (intText n) = [intChars n] := by
  have hdigit : ∀ m, ∀ c ∈ Text.decimal m, Text.isWhitespace c = false := fun m c hc =>
    Text.not_whitespace_of_isAsciiDigit (Text.isAsciiDigit_of_mem_decimal hc)
  rw [intText_encode]
  cases n with
  | ofNat n => exact words_encode (Text.decimal_ne_nil n) (hdigit n)
  | negSucc n =>
      refine words_encode (List.cons_ne_nil _ _) fun c hc => ?_
      rcases List.mem_cons.mp hc with rfl | hc
      · rfl
      · exact hdigit _ c hc

/-- What the Agent makes of the code. -/
theorem parse_intChars (n : Int) :
    (((Text.parseUnsigned (2 ^ 32) (intChars n)).getD 0 : Nat) : Int) = shownCode n := by
  cases n with
  | ofNat n =>
      have hcast : Int.ofNat n = (n : Int) := rfl
      by_cases hn : n < 2 ^ 32
      · rw [intChars, Text.parseUnsigned_decimal hn, shownCode, hcast, if_pos (by omega)]
        rfl
      · rw [intChars, Text.parseUnsigned_decimal_ge (Nat.le_of_not_lt hn), shownCode, hcast,
          if_neg (by omega)]
        rfl
  | negSucc n =>
      rw [shownCode, if_neg (by omega)]
      rfl

/-- A capability is a word. -/
theorem words_capability {h : Command} {c : Bytes} (hc : h.capability = some c) :
    words c = [Utf8.fromUtf8Lossy c] ∧ Utf8.encode (Utf8.fromUtf8Lossy c) = c := by
  cases h <;> cases hc <;> decide

theorem words_of_mem_capabilities {fused : Command → Bool} {c : Bytes}
    (hc : c ∈ capabilities fused) :
    words c = [Utf8.fromUtf8Lossy c] ∧ Utf8.encode (Utf8.fromUtf8Lossy c) = c := by
  obtain ⟨h, -, hcap⟩ := List.mem_filterMap.mp hc
  exact words_capability hcap

theorem words_tail : ∀ {caps : List Bytes} (a : Bytes),
    (∀ c ∈ caps, words c = [Utf8.fromUtf8Lossy c]) →
    words (a ++ (caps.flatMap (fun c => 32 :: c) ++ [10])) =
      words a ++ caps.map Utf8.fromUtf8Lossy
  | [], a, _ => by
      rw [List.flatMap_nil, List.nil_append, words_newline, List.map_nil, List.append_nil]
  | c :: caps, a, h => by
      have ih : words (c ++ (caps.flatMap (fun c => 32 :: c) ++ [10])) = _ :=
        words_tail c fun c hc => h c (List.mem_cons_of_mem _ hc)
      rw [List.flatMap_cons, List.append_assoc, List.cons_append, words_space, ih,
        h c List.mem_cons_self]
      rfl

/-- **The words of the hello line.** -/
theorem words_hello (m : ModuleMeta) (fused : Command → Bool) :
    words (statusLine m fused (lit "OK")) = "OK".toList :: "2".toList :: (words m.version ++
      intChars m.versionCode :: (words m.locale ++
        (capabilities fused).map Utf8.fromUtf8Lossy)) := by
  have hok : words (lit "OK") = ["OK".toList] := by decide
  have htwo : words (lit "2") = ["2".toList] := by decide
  rw [statusLine_eq m fused (by decide), words_space, words_space, words_space, words_space,
    words_tail _ fun c hc => (words_of_mem_capabilities hc).1, words_intText, hok, htwo]
  rfl

/-- What the Agent reads from the words behind `OK 2`. -/
theorem parseProHello_words {line : List Char} {ws : List (List Char)}
    (h : Text.splitWhitespace line = "OK".toList :: "2".toList :: ws) :
    parseProHello line = .ok {
      version := ws.head?.getD []
      versionCode := (ws[1]?.bind (Text.parseUnsigned (2 ^ 32))).getD 0
      locale := ws[2]?.getD []
      capabilities := ws.drop 3 } := by
  have htwo : Text.parseUnsigned (2 ^ 32) "2".toList = some 2 := by decide
  rw [parseProHello, h]
  simp only [ne_eq, not_true_eq_false, if_false, List.head?_cons, Option.bind_some, htwo,
    List.tail_cons]

/-- The words behind `OK 2` where the third of them is the locale, and as many are behind it as there
are capabilities. -/
theorem one_version {V C : List (List Char)} {k w : List Char} {locale : Bytes}
    (hthird : (V ++ k :: (words locale ++ C))[2]? = some w) (hlocale : words locale = [w])
    (hroom : ((V ++ k :: (words locale ++ C)).drop 3).length = C.length) :
    ∃ v, V ++ k :: (words locale ++ C) = v :: k :: w :: C ∧ V = [v] := by
  obtain ⟨hlt, -⟩ := List.getElem?_eq_some_iff.mp hthird
  rw [List.length_drop] at hroom
  rw [hlocale] at hroom hlt ⊢
  simp only [List.length_append, List.length_cons, List.length_nil] at hroom hlt
  obtain ⟨v, rfl⟩ := List.length_eq_one_iff.mp (by omega : V.length = 1)
  exact ⟨v, rfl, rfl⟩

variable {text : Bytes} {props : LocaleProps} {fused : Command → Bool}

theorem plain_of_told (h : Told text props fused) : Plain text props := by
  have hwords := words_hello (loadModuleMeta text props) fused
  have hparse := parseProHello_words hwords
  obtain ⟨hello, hhello, hversion, hcode, hlocale, hcaps⟩ := h
  rw [hparse] at hhello
  cases hhello
  -- the third word is there, and it is the locale
  cases hthird : (words (loadModuleMeta text props).version ++
      intChars (loadModuleMeta text props).versionCode ::
        (words (loadModuleMeta text props).locale ++
          (capabilities fused).map Utf8.fromUtf8Lossy))[2]? with
  | none =>
      rw [hthird] at hlocale
      exact absurd hlocale.symm (detectDeviceLocale_ne_nil props)
  | some w =>
      rw [hthird] at hlocale
      have hw : w ∈ words (statusLine (loadModuleMeta text props) fused (lit "OK")) := by
        rw [hwords]
        exact List.mem_cons_of_mem _ (List.mem_cons_of_mem _ (List.mem_of_getElem? hthird))
      have hone : words (loadModuleMeta text props).locale = [w] := by
        change words (detectDeviceLocale props) = [w]
        rw [← hlocale]
        exact words_of_mem hw
      have hroom := congrArg List.length hcaps
      rw [List.length_map] at hroom
      rw [← List.length_map (f := Utf8.fromUtf8Lossy)] at hroom
      obtain ⟨v, hws, hv⟩ := one_version hthird hone hroom
      rw [hws] at hversion hcode
      exact ⟨⟨v, hv, hversion⟩, (parse_intChars _).symm.trans hcode, w, hone, hlocale⟩

theorem told_of_plain (h : Plain text props) : Told text props fused := by
  have hwords := words_hello (loadModuleMeta text props) fused
  have hparse := parseProHello_words hwords
  obtain ⟨⟨version, hversion, hveq⟩, hcode, locale, hlocale, hleq⟩ := h
  have hversion' : words (loadModuleMeta text props).version = [version] := hversion
  have hlocale' : words (loadModuleMeta text props).locale = [locale] := hlocale
  rw [hversion', hlocale'] at hparse
  refine ⟨_, hparse, hveq, (parse_intChars _).trans hcode, hleq, ?_⟩
  change ((capabilities fused).map Utf8.fromUtf8Lossy).map Utf8.encode = _
  rw [List.map_map]
  exact List.map_congr_left (fun c hc => (words_of_mem_capabilities hc).2) |>.trans (List.map_id' _)

/-- **The Agent is told what the module is** iff version and locale are one word each, and the code
fits. -/
theorem told_iff (text : Bytes) (props : LocaleProps) (fused : Command → Bool) :
    Told text props fused ↔ Plain text props := ⟨plain_of_told, told_of_plain⟩

/-- A version of two words. -/
def beta : Bytes := lit "version=v2.2 beta\nversionCode=4\n"

/-- A device that speaks Chinese. -/
def chinese : LocaleProps := ⟨lit "zh-CN", [], by decide, by decide⟩

/-- A version of two words: the Agent reads no code, the code as the locale, and the locale as a
capability. -/
theorem beta_untold : ¬ Told beta chinese (fun _ => false) ∧
    ∃ hello, parseProHello (Utf8.fromUtf8Lossy
        (statusLine (loadModuleMeta beta chinese) (fun _ => false) (lit "OK"))) = .ok hello ∧
      hello.versionCode = 0 ∧ hello.locale = "4".toList ∧
      hello.capabilities = ["zh-CN", "list", "manifest", "export", "describe", "handlers"].map
        String.toList := by
  have hversion : words (loadModuleMeta beta chinese).version = ["v2.2".toList, "beta".toList] := by
    decide
  have hlocale : words (loadModuleMeta beta chinese).locale = ["zh-CN".toList] := by decide
  refine ⟨fun htold => ?_, ?_⟩
  · obtain ⟨⟨v, hv, -⟩, -⟩ := plain_of_told htold
    have htwo := hversion.symm.trans hv
    cases htwo
  · have hwords := words_hello (loadModuleMeta beta chinese) fun _ => false
    rw [hversion, hlocale] at hwords
    exact ⟨_, parseProHello_words hwords, by decide, by decide, by decide⟩

end RevBox.Zygisk
