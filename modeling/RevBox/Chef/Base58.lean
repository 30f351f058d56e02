import RevBox.Chef.Formats
import RevBox.Chef.Radix
import RevBox.Support.Results

/-!
# Chef — Base58

The operations Base58 and Base62 of `ops/encoding.rs`: a shipped alphabet and a limit on the input,
around the radix codec.

* `lossless_iff`: what was encoded comes back iff its text is within the limit too, and no digit of
  its number has a symbol that an earlier digit has.
* `ripple_loses`: one byte is lost with the alphabet `ripple`, in which seven symbols stand again.
-/

namespace RevBox.Chef

/-! ### The code -/

/-- A byte string literal. -/
def asciiBytes (s : String) : List UInt8 := s.toList.map fun c => c.val.toUInt8

/-- `BASE58_ALPHABETS`. -/
def base58Alphabets : List (String × List UInt8) :=
  [("bitcoin", asciiBytes "123456789ABCDEFGHJKLMNPQRSTUVWXYZabcdefghijkmnopqrstuvwxyz"),
    ("ripple", asciiBytes "rpshnaf39b2UD567GHJTLKOMICjaEVWQBkclMXY89gzxqesAtuivwdsSnoyfFNPZ"),
    ("flickr", asciiBytes "123456789abcdefghijkmnopqrstuvwxyzABCDEFGHJKLMNPQRSTUVWXYZ")]

/-- `BASE62_ALPHABET`. -/
def base62Alphabet : List UInt8 :=
  asciiBytes "0123456789ABCDEFGHIJKLMNOPQRSTUVWXYZabcdefghijklmnopqrstuvwxyz"

/-- `RADIX_MAX_INPUT`. -/
def radixMaxInput : Nat := 64 * 1024

/-- `radix_guard`. -/
def radixGuard (data : ChefData) (what : String) : ChefResult Unit :=
  let len := data.len
  if radixMaxInput < len then
    .error (fail s!"{what} 是逐位大整数运算，输入上限 {radixMaxInput} 字节（当前 {len} 字节）。先切片或换 Base64")
  else .ok ()

/-- The alphabet that the arguments name. -/
def base58Alphabet (args : Args) : ChefResult (List UInt8) :=
  let name := args.choice "alphabet" "bitcoin"
  match base58Alphabets.lookup name with
  | some alphabet => .ok alphabet
  | none => .error (fail s!"未知的 Base58 字母表「{name}」")

/-- `base58_encode`; `none` where it does not end. -/
def base58Encode (data : ChefData) (args : Args) : Option (ChefResult ChefData) :=
  match radixGuard data "Base58 编码" with
  | .error e => some (.error e)
  | .ok () =>
      match base58Alphabet args with
      | .error e => some (.error e)
      | .ok alphabet => (radixEncode data.bytes alphabet).map fun text => .ok (.fromText text)

/-- `base58_decode`. -/
def base58Decode (data : ChefData) (args : Args) : ChefResult ChefData := do
  let alphabet ← base58Alphabet args
  radixGuard data "Base58 解码"
  let text ← data.text
  let bytes ← radixDecode text alphabet
  return ⟨bytes⟩

/-- `base62_encode`. -/
def base62Encode (data : ChefData) (_args : Args) : Option (ChefResult ChefData) :=
  match radixGuard data "Base62 编码" with
  | .error e => some (.error e)
  | .ok () => (radixEncode data.bytes base62Alphabet).map fun text => .ok (.fromText text)

/-- `base62_decode`. -/
def base62Decode (data : ChefData) (_args : Args) : ChefResult ChefData := do
  radixGuard data "Base62 解码"
  let text ← data.text
  let bytes ← radixDecode text base62Alphabet
  return ⟨bytes⟩

/-! ### The operations -/

/-- The two operations. -/
inductive RadixOp where
  | base58
  | base62

/-- What an operation encodes to. -/
def RadixOp.encode : RadixOp → ChefData → Args → Option (ChefResult ChefData)
  | base58 => base58Encode
  | base62 => base62Encode

/-- What it decodes. -/
def RadixOp.decode : RadixOp → ChefData → Args → ChefResult ChefData
  | base58 => base58Decode
  | base62 => base62Decode

/-- The alphabet that it works with. -/
def RadixOp.alphabet (args : Args) : RadixOp → ChefResult (List UInt8)
  | base58 => base58Alphabet args
  | base62 => .ok base62Alphabet

/-- **Lossless**: what is accepted comes back. -/
def Lossless (op : RadixOp) (args : Args) (data : ChefData) : Prop :=
  ∀ result, op.encode data args = result →
    (∃ e, result = some (.error e)) ∨
      ∃ out, result = some (.ok out) ∧ op.decode out args = .ok data

/-- The zero bytes at the front. -/
def leadingZeros (bytes : List UInt8) : Nat := (bytes.takeWhile fun b => b = 0).length

/-- The text is within the limit: a symbol for each zero byte at the front, and the digits of the
number. -/
def TextFits (radix : Nat) (bytes : List UInt8) : Prop :=
  leadingZeros bytes ≤ radixMaxInput ∧ number bytes < radix ^ (radixMaxInput - leadingZeros bytes)

/-- The digits with a symbol that an earlier digit has. -/
def repeated (alphabet : List UInt8) : List Nat :=
  (List.range alphabet.length).filter fun d => firstDigit alphabet d ≠ d

/-- No digit of the number has the symbol of an earlier one. -/
def Clear (alphabet : List UInt8) (bytes : List UInt8) : Prop :=
  ∀ d ∈ Nat.digits alphabet.length (number bytes), d ∉ repeated alphabet

/-- An alphabet that is shipped: ASCII, and with a zero symbol of its own. -/
structure Shipped (alphabet : List UInt8) : Prop where
  one_lt : 1 < alphabet.length
  le : alphabet.length ≤ 256
  ascii : ∀ a ∈ alphabet, a.toNat ≤ 0x7F
  zero : ∀ d < alphabet.length, firstDigit alphabet d = 0 → d = 0

variable {alphabet : List UInt8} {op : RadixOp} {args : Args} {data out : ChefData}

/-- A shipped alphabet, checked. -/
theorem shipped_of_check (hone : 1 < alphabet.length) (hle : alphabet.length ≤ 256)
    (hascii : (alphabet.all fun a => a.toNat ≤ 0x7F) = true)
    (hzero : ((List.range alphabet.length).all fun d => firstDigit alphabet d ≠ 0 ∨ d = 0) = true) :
    Shipped alphabet where
  one_lt := hone
  le := hle
  ascii a ha := of_decide_eq_true (List.all_eq_true.mp hascii a ha)
  zero d hd h := by
    have hd := of_decide_eq_true (List.all_eq_true.mp hzero d (List.mem_range.mpr hd))
    exact hd.resolve_left fun hne => hne h

theorem shipped_base62 : Shipped base62Alphabet := shipped_of_check (by decide) (by decide) rfl rfl

theorem shipped_base58 {name : String} (h : base58Alphabets.lookup name = some alphabet) :
    Shipped alphabet := by
  simp only [base58Alphabets, List.lookup_cons, List.lookup_nil] at h
  split at h
  · cases h
    exact shipped_of_check (by decide) (by decide) rfl rfl
  split at h
  · cases h
    exact shipped_of_check (by decide) (by decide) rfl rfl
  split at h
  · cases h
    exact shipped_of_check (by decide) (by decide) rfl rfl
  · cases h

theorem shipped_alphabet (h : op.alphabet args = .ok alphabet) : Shipped alphabet := by
  cases op with
  | base58 =>
      simp only [RadixOp.alphabet, base58Alphabet] at h
      split at h
      · rename_i hlookup
        cases h
        exact shipped_base58 hlookup
      · cases h
  | base62 =>
      cases h
      exact shipped_base62

theorem isAscii_symbol (h : Shipped alphabet) (d : Nat) :
    Utf8.isAscii (symbol alphabet d) = true := by
  have hchar : ∀ a : UInt8, a.toNat ≤ 0x7F → Utf8.isAscii (asChar a) = true := fun a ha => by
    rw [Utf8.isAscii_iff, toNat_asChar]
    exact ha
  by_cases hd : d < alphabet.length
  · rw [symbol_eq hd]
    exact hchar _ (h.ascii _ (List.getElem_mem hd))
  · rw [symbol, List.getD_eq_getElem?_getD, List.getElem?_eq_none (Nat.le_of_not_lt hd)]
    rfl

/-! ### What comes back -/

theorem radixGuard_ok {what : String} :
    radixGuard data what = .ok () ↔ data.len ≤ radixMaxInput := by
  simp only [radixGuard]
  split
  · rename_i hlt
    exact ⟨nofun, fun hle => absurd hlt (Nat.not_lt.mpr hle)⟩
  · rename_i hle
    exact ⟨fun _ => Nat.le_of_not_lt hle, fun _ => rfl⟩

theorem clear_iff (bytes : List UInt8) (h : Shipped alphabet) : Clear alphabet bytes ↔
    ∀ d ∈ Nat.digits alphabet.length (number bytes), firstDigit alphabet d = d := by
  refine forall₂_congr fun d hd => ?_
  have hlt := Nat.digits_lt_base h.one_lt hd
  rw [repeated, List.mem_filter, List.mem_range]
  simp [hlt]

/-- The text of some bytes: it is ASCII, how long it is, and when it comes back. -/
theorem exists_text (h : Shipped alphabet) (bytes : List UInt8) : ∃ text,
    radixEncode bytes alphabet = some text ∧ text.all Utf8.isAscii = true ∧
      (text.length ≤ radixMaxInput ↔ TextFits alphabet.length bytes) ∧
      (radixDecode text alphabet = .ok bytes ↔ Clear alphabet bytes) := by
  obtain ⟨zeros, rest, hhead, hbytes⟩ := leading_split 0 bytes
  have htext := radixEncode_eq h.one_lt h.le zeros (noLead_iff.mpr hhead)
  rw [← hbytes] at htext
  refine ⟨_, htext, ?_, ?_, ?_⟩
  · simp only [List.all_append, List.all_map, Bool.and_eq_true, List.all_eq_true]
    refine ⟨fun c hc => ?_, fun d _ => isAscii_symbol h d⟩
    rw [List.eq_of_mem_replicate hc]
    exact isAscii_symbol h 0
  · have hzeros : leadingZeros bytes = zeros := by
      rw [leadingZeros, hbytes, takeWhile_leading zeros hhead, List.length_replicate]
    have hnum : number bytes = number rest := by rw [hbytes, number_zeros]
    rw [TextFits, hzeros, hnum, ← Nat.digits_length_le_iff h.one_lt, List.length_append,
      List.length_replicate, List.length_map, List.length_reverse]
    omega
  · rw [clear_iff bytes h, ← decode_encode_iff h.one_lt h.le h.zero]
    constructor
    · exact fun hdec => ⟨_, htext, hdec⟩
    · rintro ⟨text, henc, hdec⟩
      cases htext.symm.trans henc
      exact hdec

/-- An input above the limit is not accepted, nor one for an alphabet that is not there. -/
theorem encode_refused (h : ¬ data.len ≤ radixMaxInput ∨ ∃ e, op.alphabet args = .error e) :
    ∃ e, op.encode data args = some (.error e) := by
  cases op with
  | base58 =>
      rw [RadixOp.encode, base58Encode]
      split
      · exact ⟨_, rfl⟩
      · rename_i hguard
        obtain ⟨e, he⟩ := h.resolve_left (not_not.mpr (radixGuard_ok.mp hguard))
        exact ⟨e, by rw [show base58Alphabet args = .error e from he]⟩
  | base62 =>
      rw [RadixOp.encode, base62Encode]
      split
      · exact ⟨_, rfl⟩
      · rename_i hguard
        obtain ⟨e, he⟩ := h.resolve_left (not_not.mpr (radixGuard_ok.mp hguard))
        cases he

theorem encode_accepted (hlen : data.len ≤ radixMaxInput) (h : op.alphabet args = .ok alphabet) :
    op.encode data args =
      (radixEncode data.bytes alphabet).map fun text => .ok (.fromText text) := by
  cases op with
  | base58 =>
      rw [RadixOp.encode, base58Encode, radixGuard_ok.mpr hlen,
        show base58Alphabet args = .ok alphabet from h]
  | base62 =>
      cases h
      rw [RadixOp.encode, base62Encode, radixGuard_ok.mpr hlen]

/-- Text is decoded where it is within the limit. -/
theorem decode_fromText {text : List Char} (hascii : text.all Utf8.isAscii = true)
    (h : op.alphabet args = .ok alphabet) : op.decode (.fromText text) args = .ok data ↔
      text.length ≤ radixMaxInput ∧ radixDecode text alphabet = .ok data.bytes := by
  have hlen : (ChefData.fromText text).len = text.length := Utf8.length_encode_ascii hascii
  have key : ∀ what, (do
      radixGuard (.fromText text) what
      let text ← (ChefData.fromText text).text
      let bytes ← radixDecode text alphabet
      return (⟨bytes⟩ : ChefData)) = .ok data ↔
        text.length ≤ radixMaxInput ∧ radixDecode text alphabet = .ok data.bytes := by
    intro what
    have hguard : radixGuard (.fromText text) what = .ok () ↔ _ := radixGuard_ok
    rw [text_fromText, ← hlen, ← hguard]
    simp only [Results.bind_eq_ok_iff]
    constructor
    · rintro ⟨_, hguard, _, htext, bytes, hdec, hdata⟩
      cases htext
      have hbytes := congrArg ChefData.bytes (Except.ok.inj hdata)
      exact ⟨hguard, hdec.trans (congrArg Except.ok hbytes)⟩
    · rintro ⟨hguard, hdec⟩
      exact ⟨(), hguard, text, rfl, data.bytes, hdec, rfl⟩
  cases op with
  | base58 =>
      rw [RadixOp.decode, base58Decode, show base58Alphabet args = .ok alphabet from h]
      exact key "Base58 解码"
  | base62 =>
      cases h
      exact key "Base62 解码"

/-- What comes back has a text within the limit, and is clear. -/
theorem fits_of_lossless (h : Lossless op args data) (halphabet : op.alphabet args = .ok alphabet)
    (hlen : data.len ≤ radixMaxInput) :
    TextFits alphabet.length data.bytes ∧ Clear alphabet data.bytes := by
  obtain ⟨text, htext, hascii, hfits, hclear⟩ :=
    exists_text (shipped_alphabet halphabet) data.bytes
  have henc : op.encode data args = some (.ok (.fromText text)) := by
    rw [encode_accepted hlen halphabet, htext]
    rfl
  rcases h _ henc with ⟨e, he⟩ | ⟨out, hout, hdec⟩
  · cases he
  · cases hout
    obtain ⟨hle, hback⟩ := (decode_fromText hascii halphabet).mp hdec
    exact ⟨hfits.mp hle, hclear.mp hback⟩

/-- **What was encoded comes back** iff its text is within the limit as well, and no digit of its
number has the symbol of an earlier one. -/
theorem lossless_iff (op : RadixOp) (args : Args) (data : ChefData) :
    Lossless op args data ↔ ∀ alphabet, op.alphabet args = .ok alphabet →
      data.len ≤ radixMaxInput →
        TextFits alphabet.length data.bytes ∧ Clear alphabet data.bytes := by
  constructor
  · exact fun h alphabet => fits_of_lossless h
  · intro h result hresult
    by_cases hrefused : ¬ data.len ≤ radixMaxInput ∨ ∃ e, op.alphabet args = .error e
    · obtain ⟨e, he⟩ : ∃ e, op.encode data args = some (.error e) := encode_refused hrefused
      exact .inl ⟨e, hresult.symm.trans he⟩
    · simp only [not_or, not_not, not_exists] at hrefused
      obtain ⟨hlen, halphabet⟩ := hrefused
      cases ha : op.alphabet args with
      | error e => exact absurd ha (halphabet e)
      | ok alphabet =>
          obtain ⟨hfits, hclear⟩ := h alphabet ha hlen
          obtain ⟨text, htext, hascii, hfits', hclear'⟩ :=
            exists_text (shipped_alphabet ha) data.bytes
          refine .inr ⟨.fromText text, ?_, ?_⟩
          · rw [← hresult, encode_accepted hlen ha, htext]
            rfl
          · exact (decode_fromText hascii ha).mpr ⟨hfits'.mpr hfits, hclear'.mpr hclear⟩

example : repeated (asciiBytes "123456789ABCDEFGHJKLMNPQRSTUVWXYZabcdefghijkmnopqrstuvwxyz") = [] :=
  rfl

example : repeated (asciiBytes
    "rpshnaf39b2UD567GHJTLKOMICjaEVWQBkclMXY89gzxqesAtuivwdsSnoyfFNPZ") =
      [27, 36, 40, 46, 54, 56, 59] :=
  rfl

/-- The arguments that name the alphabet `ripple`. -/
def rippleArgs : Args := ⟨[("alphabet", "ripple")]⟩

/-- Zeros up to the limit, with the byte 58 behind them, have a text above the limit. -/
theorem not_lossless_zeros {n : Nat} (hn : n + 1 = radixMaxInput) :
    ¬ Lossless .base58 ⟨[]⟩ ⟨List.replicate n 0 ++ [58]⟩ := by
  intro h
  have hlen : (⟨List.replicate n 0 ++ [58]⟩ : ChefData).len = n + 1 := by
    rw [ChefData.len, List.length_append, List.length_replicate]
    rfl
  obtain ⟨⟨-, hfits⟩, -⟩ := fits_of_lossless h rfl (hlen.trans hn).le
  have hzeros : leadingZeros (List.replicate n 0 ++ [58]) = n := by
    rw [leadingZeros, takeWhile_leading n (by decide), List.length_replicate]
  rw [hzeros, number_zeros, ← hn, Nat.add_sub_cancel_left] at hfits
  exact absurd hfits (by decide)

/-- The byte 27 is written with the second `a` of the alphabet `ripple`, and comes back as 5; and
65535 zeros with the byte 58 behind them are encoded, but their text is not decoded. -/
theorem ripple_loses : ¬ Lossless .base58 rippleArgs ⟨[27]⟩ ∧
    ¬ Lossless .base58 ⟨[]⟩ ⟨List.replicate 65535 0 ++ [58]⟩ := by
  constructor
  · intro h
    rcases h _ rfl with ⟨e, he⟩ | ⟨out, hout, hdec⟩
    · cases he
    · cases hout
      have : base58Decode (.fromText ['a']) rippleArgs = .ok ⟨[5]⟩ := rfl
      cases this.symm.trans hdec
  · exact not_lossless_zeros rfl

end RevBox.Chef
