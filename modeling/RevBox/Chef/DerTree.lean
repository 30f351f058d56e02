import RevBox.Chef.Der
import RevBox.Chef.Protobuf

/-!
# Chef — DerTree

`der_tree` and `der_decode` of `services/chef/ops/format.rs`: the elements of a DER text, level by
level.

* `derDecode_eq_none_iff`: when the position after an element overflows.
-/

namespace RevBox.Chef

open Nesting (Piece Scheme)
open Varint (IsVarint)

/-! ### The code -/

/-- `tag_name`. -/
def tagName (tag : UInt8) : String :=
  if tag.toNat / 64 ≠ 0 then "context tag"
  else
    match tag.toNat % 32 with
    | 0x01 => "BOOLEAN"
    | 0x02 => "INTEGER"
    | 0x03 => "BIT STRING"
    | 0x04 => "OCTET STRING"
    | 0x05 => "NULL"
    | 0x06 => "OBJECT IDENTIFIER"
    | 0x0c => "UTF8String"
    | 0x10 => "SEQUENCE"
    | 0x11 => "SET"
    | 0x13 => "PrintableString"
    | 0x14 => "T61String"
    | 0x16 => "IA5String"
    | 0x17 => "UTCTime"
    | 0x18 => "GeneralizedTime"
    | _ => "tag"

/-- `leaf_value`. -/
def leafValue (tag : UInt8) (content : List UInt8) : Option (List Char) :=
  match tag.toNat % 32 with
  | 0x02 => some (hexEncode content false [])
  | 0x06 => dottedOid content
  | 0x0c | 0x13 | 0x16 | 0x17 | 0x18 => Utf8.fromUtf8 content
  | _ => none

/-- The bit of a tag whose content is elements again. -/
def isConstructed (tag : UInt8) : Bool := tag.toNat / 32 % 2 = 1

/-- `der_line`. -/
def derLine (tag : UInt8) (length : Nat) (content : List UInt8) (depth : Nat) : List Char :=
  let pad := List.replicate (2 * depth) ' '
  let classPrefix := match tag.toNat / 64 with
    | 0 => ""
    | 1 => "[APPLICATION] "
    | 2 => "[CONTEXT] "
    | _ => "[PRIVATE] "
  let line := pad ++ classPrefix.toList ++ (tagName tag).toList ++ " (".toList ++
    Text.decimal length ++ " 字节)".toList
  let shown := if isConstructed tag then none else leafValue tag content
  line ++ (shown.elim [] fun value => " = ".toList ++ value) ++ ['\n']

/-- The start of a turn of `der_tree`: the tag, the length of the content, and the position after
both. -/
def elementAt (bytes : List UInt8) (consumed : Nat) : ChefResult (UInt8 × Nat × Nat) :=
  match bytes.drop consumed with
  | first :: length :: rest =>
      if length.toNat < 128 then .ok (first, length.toNat, consumed + 2)
      else
        let count := length.toNat % 128
        if count = 0 ∨ 8 < count ∨ bytes.length < consumed + 2 + count then
          .error (fail "ASN.1 长度字段不合法")
        else
          let value := (rest.take count).foldl
            (fun value byte => value * 256 % 2 ^ 64 + byte.toNat) 0
          .ok (first, value, consumed + 2 + count)
  | _ => .error (fail "ASN.1 数据在长度字段之前就结束了")

/-- `MAX_DEPTH` of `der_tree`. -/
def derDepth : Nat := 12

/-- A turn of `der_tree`.  It has no result where the position after a content overflows; the level
below is refused as a whole where it is too deep. -/
def derTurn (depth : Nat) (bytes : List UInt8) (consumed : Nat) :
    Option (ChefResult (Piece UInt8 Char × Nat)) :=
  match elementAt bytes consumed with
  | .error e => some (.error e)
  | .ok (first, contentLen, consumed) =>
      if 2 ^ 64 ≤ consumed + contentLen then none
      else if bytes.length < consumed + contentLen then
        some (.error (fail
          s!"ASN.1 说这段有 {contentLen} 字节，实际只剩 {bytes.length - consumed}"))
      else
        let inner := (bytes.drop consumed).take contentLen
        let line := derLine first contentLen inner depth
        if isConstructed first then
          if derDepth < depth + 1 then some (.error (fail "ASN.1 嵌套超过 12 层，先怀疑这不是 DER"))
          else some (.ok (.node line inner, consumed + contentLen))
        else some (.ok (.leaf line, consumed + contentLen))

variable {bytes : List UInt8} {depth consumed next : Nat}

/-- An element goes on. -/
theorem elementAt_lt {first : UInt8} {contentLen : Nat}
    (h : elementAt bytes consumed = .ok (first, contentLen, next)) : consumed < next := by
  unfold elementAt at h
  split at h
  · split at h
    · cases h
      omega
    · dsimp only at h
      split at h
      · cases h
      · cases h
        omega
  · cases h

/-- A turn goes on. -/
theorem derTurn_lt {piece : Piece UInt8 Char}
    (h : derTurn depth bytes consumed = some (.ok (piece, next))) : consumed < next := by
  unfold derTurn at h
  split at h
  · cases h
  · rename_i first contentLen after helement
    have hlt := elementAt_lt helement
    dsimp only at h
    split_ifs at h <;> cases h <;> exact Nat.lt_of_lt_of_le hlt (Nat.le_add_right after contentLen)

/-- A turn goes down above the limit only. -/
theorem derTurn_depth {line : List Char} {inner : List UInt8}
    (h : derTurn depth bytes consumed = some (.ok (.node line inner, next))) :
    depth < derDepth := by
  unfold derTurn at h
  split at h
  · cases h
  · dsimp only at h
    split_ifs at h with _ _ _ hdeep
    · cases h
    · cases h
    · exact Nat.le_of_not_lt hdeep
    · cases h

/-- `der_tree`. -/
def derTree : Scheme UInt8 ChefError Char where
  turn := derTurn
  limit := derDepth
  goes_on := derTurn_lt
  goes_down := derTurn_depth

/-- `der_decode`. -/
def derDecode (data : ChefData) (_args : Args) : Option (ChefResult ChefData) :=
  decodeLevels derTree "DER" data

/-! ### Overflow -/

/-- The position after a content is past the machine word. -/
def ContentOverflows (bytes : List UInt8) (consumed : Nat) : Prop :=
  ∃ first contentLen after, elementAt bytes consumed = .ok (first, contentLen, after) ∧
    2 ^ 64 ≤ after + contentLen

/-- **A turn has no result** iff the position after its content overflows. -/
theorem derTurn_eq_none_iff : derTurn depth bytes consumed = none ↔
    ContentOverflows bytes consumed := by
  unfold derTurn ContentOverflows
  cases elementAt bytes consumed with
  | error e => exact iff_of_false nofun nofun
  | ok r =>
      obtain ⟨first, contentLen, after⟩ := r
      dsimp only
      by_cases hover : 2 ^ 64 ≤ after + contentLen
      · rw [if_pos hover]
        exact iff_of_true rfl ⟨_, _, _, rfl, hover⟩
      · rw [if_neg hover]
        refine iff_of_false (fun h => ?_) fun ⟨_, _, _, heq, h⟩ => ?_
        · split_ifs at h
        · cases heq
          exact hover h

/-- The reading of elements comes to one whose end overflows. -/
def DerOverflows (bytes : List UInt8) : Prop :=
  ∃ depth level consumed, derTree.Comes 0 bytes 0 depth level consumed ∧
    ContentOverflows level consumed

/-- **When the position after an element overflows.** -/
theorem derDecode_eq_none_iff (args : Args) :
    derDecode ⟨bytes⟩ args = none ↔ DerOverflows bytes :=
  decodeLevels_eq_none_iff.trans <| exists_congr fun _ => exists_congr fun _ =>
    exists_congr fun _ => and_congr_right' derTurn_eq_none_iff

/-! ### Both readers -/

/-- `read_varint` reads a number of at most ten bytes and 64 bits, and no other. -/
def ReadsVarint (bytes : List UInt8) (cursor : Nat) : Prop :=
  ∀ v next, readVarint bytes cursor = .ok (v, next) ↔
    ∃ bs rest, bytes.drop cursor = bs ++ rest ∧ IsVarint bs ∧ bs.length ≤ 10 ∧
      Varint.value bs = v ∧ v < 2 ^ 64 ∧ next = cursor + bs.length

/-- Nine bytes that go on, and a tenth that ends the number with more than its lowest bit. -/
def TenthByteSpills (bytes : List UInt8) (cursor : Nat) : Prop :=
  ∃ bs last rest, bytes.drop cursor = bs ++ last :: rest ∧ bs.length = 9 ∧
    (∀ b ∈ bs, 128 ≤ b.toNat) ∧ 2 ≤ last.toNat ∧ last.toNat < 128

/-- **When a varint is read as the number it is.** -/
theorem readsVarint_iff {cursor : Nat} :
    ReadsVarint bytes cursor ↔ ¬ TenthByteSpills bytes cursor := by
  have hpow : (128 : Nat) ^ 9 = 2 ^ 63 := by decide
  constructor
  · rintro hreads ⟨bs, last, rest, heq, hlen, hhigh, hlow, hlast⟩
    have hvarint : IsVarint (bs ++ [last]) := (Varint.isVarint_concat_iff _).mpr ⟨hhigh, hlast⟩
    have hten : (bs ++ [last]).length = 10 := by rw [List.length_append, hlen]; rfl
    have hdrop : bytes.drop cursor = (bs ++ [last]) ++ rest := by rw [heq, List.append_assoc]; rfl
    obtain ⟨bs', rest', hdrop', hvarint', -, hvalue, hlt, -⟩ :=
      (hreads _ _).mp (readVarint_ok_iff.mpr ⟨_, _, hdrop, hvarint, Nat.le_of_eq hten, rfl, rfl⟩)
    obtain ⟨rfl, -⟩ := hvarint.append_inj hvarint' (hdrop.symm.trans hdrop')
    -- the number keeps its digits only where it has 64 bits
    rw [← hvalue, Varint.value_concat, hlen, hpow, Base128.payload] at hlt
    omega
  · intro hno v next
    rw [readVarint_ok_iff]
    have hword : ∀ bs rest, bytes.drop cursor = bs ++ rest → IsVarint bs → bs.length ≤ 10 →
        Varint.value bs < 2 ^ 64 := by
      intro bs rest heq hbs hlen
      by_cases hten : bs.length = 10
      · obtain ⟨init, last, rfl⟩ : ∃ init last, bs = init ++ [last] :=
          ⟨_, _, (List.dropLast_concat_getLast (List.ne_nil_of_length_pos hbs.length_pos)).symm⟩
        obtain ⟨hhigh, hlast⟩ := (Varint.isVarint_concat_iff _).mp hbs
        have hnine : init.length = 9 := by
          rw [List.length_append, List.length_singleton] at hten
          omega
        have hbit : last.toNat < 2 := Nat.lt_of_not_le fun hlow =>
          hno ⟨init, last, rest, by rw [heq, List.append_assoc]; rfl, hnine, hhigh, hlow, hlast⟩
        have hinit := Varint.value_lt init
        rw [hnine, hpow] at hinit
        rw [Varint.value_concat, hnine, hpow, Base128.payload]
        omega
      · have hshort := Nat.pow_le_pow_right (n := 128) (by decide)
          (Nat.le_of_lt_succ (Nat.lt_of_le_of_ne hlen hten))
        have := Varint.value_lt bs
        omega
    constructor
    · rintro ⟨bs, rest, heq, hbs, hlen, rfl, rfl⟩
      have hlt := hword bs rest heq hbs hlen
      rw [Nat.mod_eq_of_lt hlt]
      exact ⟨bs, rest, heq, hbs, hlen, rfl, hlt, rfl⟩
    · rintro ⟨bs, rest, heq, hbs, hlen, rfl, hlt, rfl⟩
      exact ⟨bs, rest, heq, hbs, hlen, (Nat.mod_eq_of_lt hlt).symm, rfl⟩

/-- The binary readers stay within the machine word, and read varints as the numbers they are. -/
structure LengthsHold (hidden : Char → Bool) (bytes : List UInt8) (args : Args) : Prop where
  protobuf : protobufDecode hidden ⟨bytes⟩ args ≠ none
  der : derDecode ⟨bytes⟩ args ≠ none
  varints : ∀ cursor, ReadsVarint bytes cursor

/-- **When the length arithmetic holds**: no reader comes to a length that leads past the machine
word, and no varint has a tenth byte of more than one bit. -/
theorem lengthsHold_iff (hidden : Char → Bool) (bytes : List UInt8) (args : Args) :
    LengthsHold hidden bytes args ↔
      ¬ ProtobufOverflows hidden (args.boolOf "preferText") bytes ∧ ¬ DerOverflows bytes ∧
        ∀ cursor, ¬ TenthByteSpills bytes cursor := by
  rw [← protobufDecode_eq_none_iff, ← derDecode_eq_none_iff args]
  simp only [← readsVarint_iff]
  exact ⟨fun h => ⟨h.protobuf, h.der, h.varints⟩, fun h => ⟨h.1, h.2.1, h.2.2⟩⟩

/-- **Past the word**: a body of a field and a content of an element of 2^64 - 1 bytes, and a varint
of 2^64 that is read as 0. -/
theorem lengths_overflow :
    protobufDecode (fun _ => false) ⟨0x0a :: List.replicate 9 0xff ++ [1]⟩ ⟨[]⟩ = none ∧
    derDecode ⟨0x04 :: 0x88 :: List.replicate 8 0xff⟩ ⟨[]⟩ = none ∧
    readVarint (List.replicate 9 0x80 ++ [2]) 0 = .ok (0, 10) ∧
    ¬ LengthsHold (fun _ => false) (0x0a :: List.replicate 9 0xff ++ [1]) ⟨[]⟩ ∧
    ¬ LengthsHold (fun _ => false) (0x04 :: 0x88 :: List.replicate 8 0xff) ⟨[]⟩ ∧
    ¬ LengthsHold (fun _ => false) (List.replicate 9 0x80 ++ [2]) ⟨[]⟩ := by
  have hfield : fieldAt (0x0a :: List.replicate 9 0xff ++ [1]) 0 =
      .ok (1, .delimited (2 ^ 64 - 1), 11) := by decide
  have helement : elementAt (0x04 :: 0x88 :: List.replicate 8 0xff) 0 =
      .ok (0x04, 2 ^ 64 - 1, 10) := by decide
  have hproto :
      protobufDecode (fun _ => false) ⟨0x0a :: List.replicate 9 0xff ++ [1]⟩ ⟨[]⟩ = none :=
    protobufDecode_eq_none_iff.mpr ⟨_, _, _, .here (by decide), _, _, _, hfield, by decide⟩
  have hder : derDecode ⟨0x04 :: 0x88 :: List.replicate 8 0xff⟩ ⟨[]⟩ = none :=
    (derDecode_eq_none_iff ⟨[]⟩).mpr ⟨_, _, _, .here (by decide), _, _, _, helement, by decide⟩
  have hvarint : readVarint (List.replicate 9 0x80 ++ [2]) 0 = .ok (0, 10) := by decide
  have hspills : TenthByteSpills (List.replicate 9 0x80 ++ [2]) 0 :=
    ⟨List.replicate 9 0x80, 2, [], rfl, rfl,
      fun b hb => by rw [List.eq_of_mem_replicate hb]; decide, by decide, by decide⟩
  exact ⟨hproto, hder, hvarint, fun h => h.protobuf hproto, fun h => h.der hder,
    fun h => readsVarint_iff.mp (h.varints 0) hspills⟩

end RevBox.Chef
