import RevBox.Chef.Data
import RevBox.Support.Nesting
import RevBox.Support.Varint

/-!
# Chef — Protobuf

The operation `protobufDecode` of `services/chef/ops/format.rs`: fields without their schema.

* `readVarint_ok_iff`: what `read_varint` reads.
* `protobufDecode_eq_none_iff`: when the position after a field overflows.
-/

namespace RevBox.Chef

open Nesting (Piece Scheme)
open Varint (IsVarint)
open Base128 (payload)

/-! ### The code -/

/-- The loop of `read_varint`, over the bytes from the cursor on. -/
def readVarintLoop (result shift cursor : Nat) : List UInt8 → ChefResult (Nat × Nat)
  | [] => .error (fail "protobuf 数据在 varint 中间被截断")
  | byte :: bytes =>
      -- `<<` drops the bits that leave the word
      let result := result ||| (byte.toNat % 128) <<< shift % 2 ^ 64
      if byte.toNat < 128 then .ok (result, cursor + 1)
      else if 64 ≤ shift + 7 then
        .error (fail "protobuf varint 超过 64 位，这段数据大概不是 protobuf")
      else readVarintLoop result (shift + 7) (cursor + 1) bytes

/-- `read_varint`: the number, and the cursor after it. -/
def readVarint (bytes : List UInt8) (cursor : Nat) : ChefResult (Nat × Nat) :=
  readVarintLoop 0 0 cursor (bytes.drop cursor)

/-- `from_le_bytes`. -/
def fromLeBytes (raw : List UInt8) : Nat := Nat.ofDigits 256 (raw.map UInt8.toNat)

/-- What follows the key of a field: its value, or the length of its body. -/
inductive Wire where
  | varint (value : Nat)
  | fixed64 (value : Nat)
  | fixed32 (value : Nat)
  | delimited (len : Nat)
  deriving DecidableEq

/-- The start of a turn of `protobuf_fields`: a field's number, what follows its key, and the
cursor after that. -/
def fieldAt (bytes : List UInt8) (cursor : Nat) : ChefResult (Nat × Wire × Nat) :=
  match readVarint bytes cursor with
  | .error e => .error e
  | .ok (key, cursor) =>
      let field := key / 8
      if field = 0 then
        .error (fail "protobuf 出现了 0 号字段：这段数据大概不是 protobuf wire 格式")
      else
        match key % 8 with
        | 0 => (readVarint bytes cursor).map fun (value, cursor) => (field, .varint value, cursor)
        | 1 =>
            if bytes.length < cursor + 8 then .error (fail "protobuf 的 64 位定长字段被截断")
            else .ok (field, .fixed64 (fromLeBytes ((bytes.drop cursor).take 8)), cursor + 8)
        | 5 =>
            if bytes.length < cursor + 4 then .error (fail "protobuf 的 32 位定长字段被截断")
            else .ok (field, .fixed32 (fromLeBytes ((bytes.drop cursor).take 4)), cursor + 4)
        | 2 => (readVarint bytes cursor).map fun (len, cursor) => (field, .delimited len, cursor)
        | 3 | 4 => .error (fail "这段数据里有已经废弃的 group 编码（wire type 3/4），当前解不了")
        | other => .error (fail s!"未知的 wire type {other}")

/-- `char::is_control`. -/
def isControl (c : Char) : Bool := c.toNat < 0x20 || (0x7F ≤ c.toNat && c.toNat ≤ 0x9F)

/-- `clean_text`. -/
def cleanText (body : List UInt8) : Option (List Char) :=
  (Utf8.fromUtf8 body).filter fun text =>
    text ≠ [] && text.all fun c => !isControl c || c = '\n' || c = '\r' || c = '\t'

/-- `{:?}` of a character in a string; Unicode's tables say which of those above ASCII are not
printed. -/
def debugChar (hidden : Char → Bool) (c : Char) : List Char :=
  if 0x7F < c.toNat ∧ hidden c then "\\u\x7b".toList ++ Nat.toDigits 16 c.toNat ++ ['\x7d']
  else (Text.escapeDebug c).toList

/-- `{:?}` of a string. -/
def debugText (hidden : Char → Bool) (text : List Char) : List Char :=
  '"' :: (text.flatMap (debugChar hidden) ++ ['"'])

/-- `MAX_DEPTH` of `protobuf_fields`. -/
def protobufDepth : Nat := 8

/-- The spaces in front of a line. -/
def linePad (depth : Nat) : List Char := List.replicate (2 * depth) ' '

/-- The end of a turn of `protobuf_fields` for a body: a string, a message, or bytes. -/
def bodyPiece (hidden : Char → Bool) (preferText : Bool) (depth : Nat) (head : List Char)
    (len : Nat) (body : List UInt8) : Piece UInt8 Char :=
  let canNest := depth < protobufDepth ∧ body ≠ []
  let message := head ++ " message(".toList ++ Text.decimal len ++ " 字节)\n".toList
  match cleanText body with
  | some text =>
      if preferText ∨ ¬ canNest then .leaf (head ++ " string ".toList ++ debugText hidden text)
      else .node message body
  | none =>
      if canNest then .node message body
      else .leaf (head ++ " bytes(".toList ++ Text.decimal len ++ "): ".toList ++
        hexEncode body false [' '] ++ ['\n'])

/-- A turn of `protobuf_fields`: what it writes, and the cursor after it.  It has no result where
the position after a body overflows. -/
def protobufTurn (hidden : Char → Bool) (preferText : Bool) (depth : Nat) (bytes : List UInt8)
    (cursor : Nat) : Option (ChefResult (Piece UInt8 Char × Nat)) :=
  match fieldAt bytes cursor with
  | .error e => some (.error e)
  | .ok (field, wire, cursor) =>
      let head := linePad depth ++ Text.decimal field
      match wire with
      | .varint value =>
          some (.ok (.leaf (head ++ " varint ".toList ++ Text.decimal value ++ ['\n']), cursor))
      | .fixed64 value =>
          some (.ok (.leaf (head ++ " fixed64 ".toList ++ Text.decimal value ++ ['\n']), cursor))
      | .fixed32 value =>
          some (.ok (.leaf (head ++ " fixed32 ".toList ++ Text.decimal value ++ ['\n']), cursor))
      | .delimited len =>
          if 2 ^ 64 ≤ cursor + len then none
          else if bytes.length < cursor + len then
            some (.error (fail (s!"protobuf 长度前缀说这里有 {len} 字节，实际只剩 " ++
              s!"{bytes.length - cursor}\n（多半是截断过的包，或字段号对不上）")))
          else
            let body := (bytes.drop cursor).take len
            some (.ok (bodyPiece hidden preferText depth head len body, cursor + len))

/-! ### Varints -/

variable {hidden : Char → Bool} {preferText : Bool} {bytes bs : List UInt8}
  {depth cursor next : Nat}

/-- A digit goes above the number below it. -/
theorem or_shift {result shift p : Nat} (hresult : result < 2 ^ shift) (hshift : shift ≤ 63) :
    result ||| p <<< shift % 2 ^ 64 = (result + p * 2 ^ shift) % 2 ^ 64 := by
  obtain ⟨k, hk⟩ : ∃ k, 64 = shift + k := ⟨64 - shift, by omega⟩
  have hsplit : p * 2 ^ shift % 2 ^ 64 = 2 ^ shift * (p % 2 ^ k) := by
    rw [hk, Nat.pow_add, Nat.mul_comm p, Nat.mul_mod_mul_left]
  have hlow : 2 ^ shift * (p % 2 ^ k) + result < 2 ^ 64 := by
    have hp : p % 2 ^ k + 1 ≤ 2 ^ k := Nat.mod_lt p (Nat.two_pow_pos k)
    have hmul := Nat.mul_le_mul_left (2 ^ shift) hp
    rw [← Nat.pow_add, ← hk, Nat.mul_add] at hmul
    omega
  rw [Nat.shiftLeft_eq, hsplit, Nat.or_comm, ← Nat.two_pow_add_eq_or_of_lt hresult,
    ← Nat.add_mod_mod, hsplit, Nat.add_comm result, Nat.mod_eq_of_lt hlow]

/-- **The loop reads one number**, unless it is too long. -/
theorem readVarintLoop_append (hbs : IsVarint bs) (rest : List UInt8) :
    ∀ (result shift cursor : Nat), result < 2 ^ shift → shift ≤ 63 →
      (shift + 7 * bs.length < 71 → readVarintLoop result shift cursor (bs ++ rest) =
        .ok ((result + Varint.value bs * 2 ^ shift) % 2 ^ 64, cursor + bs.length)) ∧
      (71 ≤ shift + 7 * bs.length →
        ∃ e, readVarintLoop result shift cursor (bs ++ rest) = .error e) := by
  induction hbs with
  | @last b hb =>
      intro result shift cursor hresult hshift
      refine ⟨fun _ => ?_, fun hlong => ?_⟩
      · rw [List.singleton_append, readVarintLoop, if_pos hb, or_shift hresult hshift,
          Varint.value_singleton]
        rfl
      · rw [List.length_singleton] at hlong
        omega
  | @more b bs hb hbs ih =>
      intro result shift cursor hresult hshift
      have hlen := hbs.length_pos
      rw [List.length_cons, List.cons_append, readVarintLoop, if_neg (Nat.not_lt.mpr hb)]
      by_cases hend : 64 ≤ shift + 7
      · rw [if_pos hend]
        exact ⟨fun h => by omega, fun _ => ⟨_, rfl⟩⟩
      · have hp := Varint.payload_lt b
        have hpow : 2 ^ (shift + 7) = 128 * 2 ^ shift := by rw [Nat.pow_add]; omega
        have hword : 2 ^ (shift + 7) ≤ 2 ^ 63 := Nat.pow_le_pow_right (by decide) (by omega)
        have hmul := Nat.mul_le_mul_right (2 ^ shift) (Nat.le_of_lt_succ hp)
        have hnext : result + payload b * 2 ^ shift < 2 ^ (shift + 7) := by omega
        rw [if_neg hend, or_shift hresult hshift, ← payload, Nat.mod_eq_of_lt (by omega)]
        obtain ⟨hok, herr⟩ := ih _ (shift + 7) (cursor + 1) hnext (by omega)
        refine ⟨fun h => ?_, fun h => herr (by omega)⟩
        rw [hok (by omega), Varint.value_cons, hpow]
        have hvalue : result + payload b * 2 ^ shift + Varint.value bs * (128 * 2 ^ shift) =
            result + (payload b + 128 * Varint.value bs) * 2 ^ shift := by ring
        rw [hvalue, Nat.add_right_comm]
        rfl

/-- Bytes that no number starts are refused. -/
theorem readVarintLoop_high : ∀ {bytes : List UInt8} (result shift cursor : Nat),
    (∀ b ∈ bytes, 128 ≤ b.toNat) → ∃ e, readVarintLoop result shift cursor bytes = .error e
  | [], _, _, _, _ => ⟨_, rfl⟩
  | b :: bytes, result, shift, cursor, h => by
      rw [readVarintLoop, if_neg (Nat.not_lt.mpr (h b List.mem_cons_self))]
      split_ifs
      · exact ⟨_, rfl⟩
      · exact readVarintLoop_high _ _ _ fun b' hb' => h b' (List.mem_cons_of_mem _ hb')

/-- **What `read_varint` reads**: a number of at most ten bytes, cut to 64 bits. -/
theorem readVarint_ok_iff {v : Nat} : readVarint bytes cursor = .ok (v, next) ↔
    ∃ bs rest, bytes.drop cursor = bs ++ rest ∧ IsVarint bs ∧ bs.length ≤ 10 ∧
      v = Varint.value bs % 2 ^ 64 ∧ next = cursor + bs.length := by
  rw [readVarint]
  constructor
  · intro h
    rcases Varint.starts_or_high (bytes.drop cursor) with ⟨bs, rest, heq, hbs⟩ | hhigh
    · obtain ⟨hok, herr⟩ := readVarintLoop_append hbs rest 0 0 cursor (by decide) (by decide)
      rw [heq] at h
      by_cases hlen : bs.length ≤ 10
      · rw [hok (by omega), Nat.zero_add, Nat.pow_zero, Nat.mul_one] at h
        cases h
        exact ⟨bs, rest, heq, hbs, hlen, rfl, rfl⟩
      · obtain ⟨e, he⟩ := herr (by omega)
        rw [he] at h
        cases h
    · obtain ⟨e, he⟩ := readVarintLoop_high 0 0 cursor hhigh
      rw [he] at h
      cases h
  · rintro ⟨bs, rest, heq, hbs, hlen, rfl, rfl⟩
    obtain ⟨hok, -⟩ := readVarintLoop_append hbs rest 0 0 cursor (by decide) (by decide)
    rw [heq, hok (by omega), Nat.zero_add, Nat.pow_zero, Nat.mul_one]

/-! ### Fields -/

theorem readVarint_lt {v : Nat} (h : readVarint bytes cursor = .ok (v, next)) : cursor < next := by
  obtain ⟨bs, _, _, hbs, _, _, rfl⟩ := readVarint_ok_iff.mp h
  have := hbs.length_pos
  omega

theorem lt_of_map_readVarint {field field' : Nat} {toWire : Nat → Wire} {wire : Wire}
    (h : ((readVarint bytes cursor).map fun r => (field, toWire r.1, r.2)) =
      .ok (field', wire, next)) : cursor < next := by
  cases hread : readVarint bytes cursor with
  | error e =>
      rw [hread] at h
      cases h
  | ok r =>
      rw [hread] at h
      cases h
      exact readVarint_lt hread

/-- A field goes on. -/
theorem fieldAt_lt {field : Nat} {wire : Wire}
    (h : fieldAt bytes cursor = .ok (field, wire, next)) : cursor < next := by
  unfold fieldAt at h
  split at h
  · cases h
  · rename_i key after hkey
    have hlt := readVarint_lt hkey
    dsimp only at h
    split at h
    · cases h
    · split at h
      · exact Nat.lt_trans hlt (lt_of_map_readVarint h)
      · split_ifs at h
        cases h
        omega
      · split_ifs at h
        cases h
        omega
      · exact Nat.lt_trans hlt (lt_of_map_readVarint h)
      · cases h
      · cases h
      · cases h

/-- A turn goes on. -/
theorem protobufTurn_lt {piece : Piece UInt8 Char}
    (h : protobufTurn hidden preferText depth bytes cursor = some (.ok (piece, next))) :
    cursor < next := by
  unfold protobufTurn at h
  split at h
  · cases h
  · rename_i field wire after hfield
    have hlt := fieldAt_lt hfield
    dsimp only at h
    split at h
    · cases h
      exact hlt
    · cases h
      exact hlt
    · cases h
      exact hlt
    · split_ifs at h
      · cases h
      · cases h
        omega

theorem bodyPiece_depth {head text : List Char} {len : Nat} {body body' : List UInt8}
    (h : bodyPiece hidden preferText depth head len body = .node text body') :
    depth < protobufDepth := by
  unfold bodyPiece at h
  dsimp only at h
  split at h
  · split_ifs at h with hleaf
    exact (not_not.mp fun hno => hleaf (.inr hno)).1
  · split_ifs at h with hnest
    exact hnest.1

/-- A turn goes down above the limit only. -/
theorem protobufTurn_depth {text : List Char} {body : List UInt8}
    (h : protobufTurn hidden preferText depth bytes cursor = some (.ok (.node text body, next))) :
    depth < protobufDepth := by
  unfold protobufTurn at h
  split at h
  · cases h
  · dsimp only at h
    split at h
    · cases h
    · cases h
    · cases h
    · split_ifs at h
      · cases h
      · exact bodyPiece_depth (Prod.mk.inj (Except.ok.inj (Option.some.inj h))).1

/-- `protobuf_fields`. -/
def protobufFields (hidden : Char → Bool) (preferText : Bool) :
    Scheme UInt8 ChefError Char where
  turn := protobufTurn hidden preferText
  limit := protobufDepth
  goes_on := protobufTurn_lt
  goes_down := protobufTurn_depth

/-- A reader of levels as an operation, refused where there is nothing to read; the reader's errors
are named after what it reads. -/
def decodeLevels (F : Scheme UInt8 ChefError Char) (what : String) (data : ChefData) :
    Option (ChefResult ChefData) :=
  if data.bytes = [] then some (.error (fail "没有内容可解析（输入框是空的）"))
  else
    match F.walk 0 data.bytes 0 with
    | none => none
    | some (.error e) => some (.error (fail s!"{what} 解析失败：{e.message}"))
    | some (.ok out) => some (.ok (.fromText out))

/-- `protobuf_decode`. -/
def protobufDecode (hidden : Char → Bool) (data : ChefData) (args : Args) :
    Option (ChefResult ChefData) :=
  decodeLevels (protobufFields hidden (args.boolOf "preferText")) "protobuf" data

/-! ### Overflow -/

/-- The position after a body, at a place that the reader comes to, is past the machine word. -/
def BodyOverflows (bytes : List UInt8) (cursor : Nat) : Prop :=
  ∃ field len after, fieldAt bytes cursor = .ok (field, .delimited len, after) ∧
    2 ^ 64 ≤ after + len

/-- **A turn has no result** iff the position after its body overflows. -/
theorem protobufTurn_eq_none_iff :
    protobufTurn hidden preferText depth bytes cursor = none ↔ BodyOverflows bytes cursor := by
  unfold protobufTurn BodyOverflows
  cases hfield : fieldAt bytes cursor with
  | error e => exact iff_of_false nofun nofun
  | ok r =>
      obtain ⟨field, wire, after⟩ := r
      cases wire with
      | varint value => exact iff_of_false nofun nofun
      | fixed64 value => exact iff_of_false nofun nofun
      | fixed32 value => exact iff_of_false nofun nofun
      | delimited len =>
          dsimp only
          by_cases hover : 2 ^ 64 ≤ after + len
          · rw [if_pos hover]
            exact iff_of_true rfl ⟨_, _, _, rfl, hover⟩
          · rw [if_neg hover]
            refine iff_of_false (fun h => ?_) fun ⟨_, _, _, heq, h⟩ => ?_
            · split_ifs at h
            · cases heq
              exact hover h

/-- The reading of a message comes to a body whose end overflows. -/
def ProtobufOverflows (hidden : Char → Bool) (preferText : Bool) (bytes : List UInt8) : Prop :=
  ∃ depth level cursor, (protobufFields hidden preferText).Comes 0 bytes 0 depth level cursor ∧
    BodyOverflows level cursor

/-- A reader of levels has no result iff it comes to a turn without one. -/
theorem decodeLevels_eq_none_iff {F : Scheme UInt8 ChefError Char} {what : String} :
    decodeLevels F what ⟨bytes⟩ = none ↔ F.GoesWrong 0 bytes 0 := by
  rw [← Scheme.walk_eq_none_iff]
  unfold decodeLevels
  by_cases hnil : bytes = []
  · rw [if_pos hnil, hnil, Scheme.walk_done (Nat.le_refl 0)]
    exact iff_of_false nofun nofun
  · rw [if_neg hnil]
    split
    · rename_i h
      exact iff_of_true rfl h
    · rename_i h
      rw [h]
      exact iff_of_false nofun nofun
    · rename_i h
      rw [h]
      exact iff_of_false nofun nofun

/-- **When the position after a field overflows.** -/
theorem protobufDecode_eq_none_iff {args : Args} : protobufDecode hidden ⟨bytes⟩ args = none ↔
    ProtobufOverflows hidden (args.boolOf "preferText") bytes :=
  decodeLevels_eq_none_iff.trans <| exists_congr fun _ => exists_congr fun _ =>
    exists_congr fun _ => and_congr_right' protobufTurn_eq_none_iff

end RevBox.Chef
