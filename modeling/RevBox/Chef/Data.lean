import RevBox.Support.Text
import RevBox.Support.Utf8

/-!
# Chef — Data

`services/chef/data.rs`: the bytes that flow through a recipe, the arguments of a step, and the
notations bytes are read from and written in.
-/

namespace RevBox.Chef

/-- `ChefError`. -/
structure ChefError where
  message : String
  deriving DecidableEq

/-- `ChefResult`. -/
abbrev ChefResult (α : Type) := Except ChefError α

/-- `fail`. -/
def fail (message : String) : ChefError := ⟨message⟩

theorem ok_bind {α β : Type} (a : α) (f : α → ChefResult β) :
    ((.ok a : ChefResult α) >>= f) = f a := rfl

/-- `ChefData`. -/
structure ChefData where
  bytes : List UInt8
  deriving DecidableEq

namespace ChefData

/-- `from_text`. -/
def fromText (text : List Char) : ChefData := ⟨Utf8.encode text⟩

/-- `text`. -/
def text (data : ChefData) : ChefResult (List Char) :=
  match Utf8.fromUtf8 data.bytes with
  | some text => .ok text
  | none => .error (fail
      "当前数据不是合法 UTF-8 文本，这一步需要文本输入（先用上一步把它转成文本）")

/-- `text_lossy`. -/
def textLossy (data : ChefData) : List Char := Utf8.fromUtf8Lossy data.bytes

/-- `is_utf8`. -/
def isUtf8 (data : ChefData) : Bool := (Utf8.fromUtf8 data.bytes).isSome

/-- `len`. -/
def len (data : ChefData) : Nat := data.bytes.length

end ChefData

/-- A text that a step wrote is text. -/
theorem text_fromText (s : List Char) : (ChefData.fromText s).text = .ok s := by
  simp only [ChefData.text, ChefData.fromText, Utf8.fromUtf8_encode]

theorem fromText_inj {s t : List Char} (h : ChefData.fromText s = .fromText t) : s = t :=
  Except.ok.inj (by rw [← text_fromText s, h, text_fromText])

/-- `Args`: the arguments of a step by their names. -/
structure Args where
  entries : List (String × String)

namespace Args

/-- `insert`. -/
def insert (args : Args) (key value : String) : Args :=
  ⟨(key, value) :: args.entries.filter fun e => e.1 ≠ key⟩

/-- `get`. -/
def get (args : Args) (key : String) : Option String := args.entries.lookup key

/-- `text`. -/
def text (args : Args) (key default : String) : String := (args.get key).getD default

/-- `choice`. -/
def choice (args : Args) (key default : String) : String := (args.get key).getD default

/-- `bool_of`. -/
def boolOf (args : Args) (key : String) : Bool := args.get key = some "true"

/-- `choice_in`. -/
def choiceIn (args : Args) (key default : String) (options : List String) : ChefResult String :=
  let value := args.choice key default
  if value ∈ options then .ok value
  else
    let listed := String.intercalate " / " options
    .error (fail s!"参数 {key} 只接受 {listed}，收到「{value}」")

end Args

/-! ### Hexadecimal -/

/-- A digit of `{:02x}`. -/
def hexDigit (n : Nat) : Char := if n < 10 then Char.ofNat (48 + n) else Char.ofNat (87 + n)

/-- `to_uppercase` of a hexadecimal digit. -/
def hexUpper (c : Char) : Char := if 97 ≤ c.toNat then Char.ofNat (c.toNat - 32) else c

/-- `hex_encode`. -/
def hexEncode (bytes : List UInt8) (upper : Bool) (separator : List Char) : List Char :=
  let mapped := bytes.map fun b =>
    let s := [hexDigit (b.toNat / 16), hexDigit (b.toNat % 16)]
    if upper then s.map hexUpper else s
  List.intercalate separator mapped

/-- `char::to_digit(16)`, which is none for what `is_ascii_hexdigit` is false of. -/
def toHexDigit (c : Char) : Option Nat :=
  let n := c.toNat
  if 48 ≤ n ∧ n ≤ 57 then some (n - 48)
  else if 97 ≤ n ∧ n ≤ 102 then some (n - 87)
  else if 65 ≤ n ∧ n ≤ 70 then some (n - 55)
  else none

/-- `u64::from_str_radix` in radix 16. -/
def parseHexU64 (s : List Char) : Option Nat :=
  let s := match s with
    | '+' :: rest => rest
    | s => s
  if s = [] || s.any fun c => (toHexDigit c).isNone then none
  else
    let n := s.foldl (fun n c => 16 * n + (toHexDigit c).getD 0) 0
    if n < 2 ^ 64 then some n else none

/-- `Args::number`. -/
def Args.number (args : Args) (key : String) (default : Nat) : ChefResult Nat :=
  match args.get key with
  | none => .ok default
  | some raw =>
      if raw = "" then .ok default
      else
        let trimmed := Text.trim raw.toList
        let hex := if Text.startsWith ['0', 'x'] trimmed then parseHexU64 (trimmed.drop 2) else none
        match hex.or (Text.parseUnsigned (2 ^ 64) trimmed) with
        | some n => .ok n
        | none => .error (fail s!"参数 {key} 需要是数字，收到「{raw}」")

/-- A number of the arguments is one of 64 bits. -/
theorem Args.number_lt {args : Args} {key : String} {default n : Nat} (hd : default < 2 ^ 64)
    (h : args.number key default = .ok n) : n < 2 ^ 64 := by
  have hparse {s : List Char} {m : Nat} (hm : Text.parseUnsigned (2 ^ 64) s = some m) :
      m < 2 ^ 64 := by
    unfold Text.parseUnsigned at hm
    simp only [Option.ite_none_right_eq_some, Option.some.injEq, Bool.and_eq_true,
      decide_eq_true_eq] at hm
    omega
  have hhex {s : List Char} {m : Nat} (hm : parseHexU64 s = some m) : m < 2 ^ 64 := by
    unfold parseHexU64 at hm
    simp only [Option.ite_none_left_eq_some, Option.ite_none_right_eq_some, Option.some.injEq]
      at hm
    omega
  unfold Args.number at h
  split at h
  · cases h
    exact hd
  · split_ifs at h with hempty
    · cases h
      exact hd
    · dsimp only at h
      split at h
      · rename_i m hm
        cases h
        rcases Option.or_eq_some_iff.mp hm with hm | ⟨-, hm⟩
        · split_ifs at hm
          exact hhex hm
        · exact hparse hm
      · cases h

/-- The bytes of digits, two a byte. -/
def hexPairs : List Nat → List UInt8
  | hi :: lo :: digits => .ofNat (hi * 16 + lo) :: hexPairs digits
  | _ => []

/-- `hex_decode`. -/
def hexDecode (input : List Char) : ChefResult (List UInt8) :=
  let cleaned := input.filter fun c => !Text.isWhitespace c
  let cleaned := match cleaned with
    | '0' :: 'x' :: rest => rest
    | cleaned => cleaned
  if cleaned = [] then .ok []
  else
    match cleaned.find? fun c => (toHexDigit c).isNone with
    | some bad => .error (fail s!"十六进制里出现了非法字符「{bad}」")
    | none =>
        let padded := if cleaned.length % 2 = 1 then '0' :: cleaned else cleaned
        .ok (hexPairs (padded.filterMap toHexDigit))

/-! ### Base64 -/

/-- What the code uses of the crate `base64`: the encoders `STANDARD` and `URL_SAFE`, the decoders
of the same names, and the decoders `STANDARD_NO_PAD` and `URL_SAFE_NO_PAD`, with the text of their
errors. -/
structure Engines where
  encode : (urlSafe : Bool) → List UInt8 → List Char
  decode : (urlSafe : Bool) → List Char → Except String (List UInt8)
  decodeNoPad : (urlSafe : Bool) → List Char → Except String (List UInt8)

/-- `B64_WRAP_WIDTH`. -/
def b64WrapWidth : Nat := 76

/-- `wrap_b64`. -/
def wrapB64 (body : List Char) : List Char := Text.join '\n' (body.toChunks b64WrapWidth)

/-- `b64_encode`. -/
def b64Encode (base64 : Engines) (bytes : List UInt8) (urlSafe noWrap : Bool) : List Char :=
  let body := base64.encode urlSafe bytes
  if noWrap then body else wrapB64 body

/-- A character as the alphabet of the engine writes it. -/
def foldAlphabet (urlSafe : Bool) (c : Char) : Char :=
  if urlSafe then
    if c = '+' then '-' else if c = '/' then '_' else c
  else if c = '-' then '+' else if c = '_' then '/' else c

/-- `b64_decode`. -/
def b64Decode (base64 : Engines) (input : List Char) (urlSafe strict : Bool) :
    ChefResult (List UInt8) :=
  let cleaned := input.filter fun c => !Text.isWhitespace c
  if cleaned = [] then .ok []
  else
    let decoded :=
      if strict then base64.decode urlSafe cleaned
      else base64.decodeNoPad urlSafe
        (Text.trimEndMatches '=' (cleaned.map (foldAlphabet urlSafe)))
    match decoded with
    | .ok bytes => .ok bytes
    | .error e => .error (fail s!"Base64 解码失败：{e}（非法字符、缺 padding 或长度不对）")

/-! ### Formats -/

/-- The separators of a decimal list. -/
def isListSeparator (c : Char) : Bool := c = ' ' || c = ',' || c = '\n' || c = '\t'

/-- One number of a decimal list. -/
def readDecimal (t : List Char) : ChefResult UInt8 :=
  match (Text.parseUnsigned (2 ^ 16) (Text.trim t)).filter fun v => v < 256 with
  | some v => .ok (.ofNat v)
  | none => .error (fail s!"十进制字节列表里有超过 255 或非法的「{String.ofList t}」")

/-- `read_by_format`. -/
def readByFormat (base64 : Engines) (data : ChefData) (format : String) :
    ChefResult (List UInt8) := do
  let text ← data.text
  match format with
  | "utf8" | "raw" => .ok data.bytes
  | "hex" => hexDecode text
  | "base64" => b64Decode base64 text false false
  | "base64url" => b64Decode base64 text true false
  | "decimal" => ((text.splitOnP isListSeparator).filter fun t => t ≠ []).mapM readDecimal
  | other => .error (fail s!"未知的输入格式「{other}」")

/-- `emit_by_format`. -/
def emitByFormat (base64 : Engines) (bytes : List UInt8) (format : String) :
    ChefResult ChefData :=
  match format with
  | "utf8" | "raw" | "binary" => .ok ⟨bytes⟩
  | "hex" => .ok (.fromText (hexEncode bytes false []))
  | "base64" => .ok (.fromText (b64Encode base64 bytes false true))
  | "base64url" => .ok (.fromText (b64Encode base64 bytes true true))
  | "decimal" =>
      .ok (.fromText (Text.join ' ' (bytes.map fun b => Text.decimal b.toNat)))
  | other => .error (fail s!"未知的输出格式「{other}」")

end RevBox.Chef
