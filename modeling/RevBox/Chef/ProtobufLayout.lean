import RevBox.Chef.Protobuf
import RevBox.Support.Hex
import RevBox.Support.OwnLines
import RevBox.Support.Records

/-!
# Chef — ProtobufLayout

What `protobufDecode` writes of a message: of each field a line, and below it the lines of what is
nested in it.

* `showsFields_iff`: when each field of a message has its own line.
-/

namespace RevBox.Chef

open Nesting (Piece Scheme)
open Varint (IsVarint)

/-! ### Messages -/

/-- The value of a field; a body is any bytes. -/
inductive ProtoValue where
  | varint (value : UInt64)
  | fixed64 (value : UInt64)
  | delimited (body : List UInt8)
  | fixed32 (value : UInt32)

namespace ProtoValue

/-- The wire type. -/
def wireType : ProtoValue → Nat
  | .varint _ => 0
  | .fixed64 _ => 1
  | .delimited _ => 2
  | .fixed32 _ => 5

/-- The bytes behind the key, up to the body of a value that has one. -/
def start : ProtoValue → List UInt8
  | .varint value => Varint.encode value.toNat
  | .fixed64 value => Records.toLeBytes 8 value.toNat
  | .delimited body => Varint.encode body.length
  | .fixed32 value => Records.toLeBytes 4 value.toNat

/-- The body. -/
def body : ProtoValue → List UInt8
  | .delimited body => body
  | _ => []

/-- What is read behind the key. -/
def wire : ProtoValue → Wire
  | .varint value => .varint value.toNat
  | .fixed64 value => .fixed64 value.toNat
  | .delimited body => .delimited body.length
  | .fixed32 value => .fixed32 value.toNat

end ProtoValue

/-- A field, whose key is a number of 64 bits. -/
structure ProtoField where
  number : Nat
  value : ProtoValue
  pos : 1 ≤ number
  fits : 8 * number + 7 < 2 ^ 64

namespace ProtoField

/-- The key, and what stands behind it up to a body. -/
def start (f : ProtoField) : List UInt8 :=
  Varint.encode (8 * f.number + f.value.wireType) ++ f.value.start

/-- The bytes of a field. -/
def encode (f : ProtoField) : List UInt8 := f.start ++ f.value.body

/-- What a turn writes of a field. -/
def piece (hidden : Char → Bool) (preferText : Bool) (depth : Nat) (f : ProtoField) :
    Piece UInt8 Char :=
  let head := linePad depth ++ Text.decimal f.number
  match f.value with
  | .varint value =>
      .leaf (head ++ " varint ".toList ++ Text.decimal value.toNat ++ ['\n'])
  | .fixed64 value =>
      .leaf (head ++ " fixed64 ".toList ++ Text.decimal value.toNat ++ ['\n'])
  | .fixed32 value =>
      .leaf (head ++ " fixed32 ".toList ++ Text.decimal value.toNat ++ ['\n'])
  | .delimited body => bodyPiece hidden preferText depth head body.length body

end ProtoField

/-- A message, as long as a slice may be. -/
structure ProtoMessage where
  fields : List ProtoField
  fits : (fields.flatMap ProtoField.encode).length < 2 ^ 63

/-- The bytes of a message. -/
def ProtoMessage.encode (m : ProtoMessage) : List UInt8 := m.fields.flatMap ProtoField.encode

/-- The message is decoded, and each of its fields, in order, has a line of its own. -/
def ShowsFields (hidden : Char → Bool) (m : ProtoMessage) (args : Args) : Prop :=
  ∃ out, protobufDecode hidden ⟨m.encode⟩ args = some (.ok (.fromText out)) ∧
    Text.OwnLines (m.fields.map ProtoField.number) out

/-- The body of a field at the top is shown as a string. -/
def ShownAsString (preferText : Bool) (body : List UInt8) : Prop :=
  preferText = true ∧ cleanText body ≠ none

/-- The bytes from a place of a level on end in a string: the last thing that is read of them is
written without a line end. -/
inductive EndsInString (hidden : Char → Bool) (preferText : Bool) :
    Nat → List UInt8 → Nat → Prop where
  | string {depth level cursor text next} (hc : cursor < level.length)
      (h : protobufTurn hidden preferText depth level cursor = some (.ok (.leaf text, next)))
      (last : level.length ≤ next) (noLineEnd : '\n' ∉ text) :
      EndsInString hidden preferText depth level cursor
  | inside {depth level cursor text body next} (hc : cursor < level.length)
      (h : protobufTurn hidden preferText depth level cursor =
        some (.ok (.node text body, next)))
      (last : level.length ≤ next) (inside : EndsInString hidden preferText (depth + 1) body 0) :
      EndsInString hidden preferText depth level cursor
  | later {depth level cursor piece next} (hc : cursor < level.length)
      (h : protobufTurn hidden preferText depth level cursor = some (.ok (piece, next)))
      (later : EndsInString hidden preferText depth level next) :
      EndsInString hidden preferText depth level cursor

/-- **There is a field; no body is shown as a string, every body that is read as a message is one**,
and none but that of the last field ends in a string. -/
structure Layable (hidden : Char → Bool) (preferText : Bool) (fields : List ProtoField) : Prop where
  nonempty : fields ≠ []
  strings : ∀ f ∈ fields, ∀ body, f.value = .delimited body → ¬ ShownAsString preferText body
  messages : ∀ f ∈ fields, ∀ body, f.value = .delimited body →
    (protobufFields hidden preferText).Accepts 1 body 0
  ends : ∀ f ∈ fields.dropLast, ∀ body, f.value = .delimited body →
    ¬ EndsInString hidden preferText 1 body 0

/-! ### Fields are read -/

variable {hidden : Char → Bool} {preferText : Bool} {depth cursor next n : Nat}
  {level front rest : List UInt8} {f : ProtoField}

theorem fromLeBytes_eq (raw : List UInt8) : fromLeBytes raw = Records.fromLeBytes raw := by
  induction raw with
  | nil => rfl
  | cons b raw ih =>
      rw [fromLeBytes, List.map_cons, Nat.ofDigits_cons]
      exact congrArg (b.toNat + 256 * ·) ih

theorem readVarint_encode (h : n < 2 ^ 64) (front rest : List UInt8) :
    readVarint (front ++ (Varint.encode n ++ rest)) front.length =
      .ok (n, front.length + (Varint.encode n).length) := by
  refine readVarint_ok_iff.mpr ⟨Varint.encode n, rest, List.drop_left, Varint.isVarint_encode n,
    Varint.length_encode_le (k := 9) (Nat.lt_trans h (by decide)), ?_, rfl⟩
  rw [Varint.value_encode, Nat.mod_eq_of_lt h]

/-- A number of fixed width is read. -/
theorem fixed_read {w : Nat} (h : n < 256 ^ w) (front rest : List UInt8) :
    ¬ (front ++ (Records.toLeBytes w n ++ rest)).length < front.length + w ∧
      fromLeBytes (((front ++ (Records.toLeBytes w n ++ rest)).drop front.length).take w) = n ∧
      front.length + w = (front ++ Records.toLeBytes w n).length := by
  have hlength := Records.length_toLeBytes w n
  refine ⟨?_, ?_, ?_⟩
  · rw [List.length_append, List.length_append, hlength]
    omega
  · rw [List.drop_left, List.take_left' hlength, fromLeBytes_eq, Records.fromLeBytes_toLeBytes h]
  · rw [List.length_append, hlength]

/-- **A field is read**, up to its body. -/
theorem fieldAt_encode (f : ProtoField) (front rest : List UInt8)
    (hbody : f.value.body.length < 2 ^ 64) :
    fieldAt (front ++ (f.start ++ rest)) front.length =
      .ok (f.number, f.value.wire, (front ++ f.start).length) := by
  have hpos := f.pos
  have hfits := f.fits
  have hwire : f.value.wireType < 8 := by cases f.value <;> simp [ProtoValue.wireType]
  have hkey := readVarint_encode (n := 8 * f.number + f.value.wireType) (by omega) front
    (f.value.start ++ rest)
  have hnumber : (8 * f.number + f.value.wireType) / 8 = f.number := by omega
  have htype : (8 * f.number + f.value.wireType) % 8 = f.value.wireType := by omega
  unfold ProtoField.start
  rw [List.append_assoc, fieldAt, hkey]
  dsimp only
  rw [hnumber, if_neg (Nat.ne_of_gt hpos), htype]
  -- what follows stands behind the key
  generalize Varint.encode (8 * f.number + f.value.wireType) = key
  rw [← List.length_append, ← List.append_assoc, ← List.append_assoc front key f.value.start]
  generalize front ++ key = front
  cases hvalue : f.value with
  | varint value =>
      have hread := readVarint_encode value.toNat_lt front rest
      simp only [ProtoValue.wireType, ProtoValue.start, ProtoValue.wire, hread, Except.map,
        List.length_append]
  | fixed64 value =>
      obtain ⟨hlen, hread, hnext⟩ := fixed_read (w := 8) value.toNat_lt front rest
      refine (if_neg hlen).trans ?_
      exact congrArg₂ (fun v next => Except.ok (f.number, Wire.fixed64 v, next)) hread hnext
  | delimited body =>
      rw [hvalue] at hbody
      have hread := readVarint_encode hbody front rest
      simp only [ProtoValue.wireType, ProtoValue.start, ProtoValue.wire, ProtoValue.body] at hread ⊢
      simp only [hread, Except.map, List.length_append]
  | fixed32 value =>
      obtain ⟨hlen, hread, hnext⟩ := fixed_read (w := 4) value.toNat_lt front rest
      refine (if_neg hlen).trans ?_
      exact congrArg₂ (fun v next => Except.ok (f.number, Wire.fixed32 v, next)) hread hnext

theorem ProtoField.encode_ne_nil (f : ProtoField) : f.encode ≠ [] := by
  have hkey := (Varint.isVarint_encode (8 * f.number + f.value.wireType)).length_pos
  rw [ProtoField.encode, ProtoField.start, List.append_assoc]
  exact List.append_ne_nil_of_left_ne_nil (List.ne_nil_of_length_pos hkey) _

/-- **A turn takes a field.** -/
theorem protobufTurn_encode (hidden : Char → Bool) (preferText : Bool) (depth : Nat)
    (f : ProtoField) (front rest : List UInt8)
    (hlen : (front ++ (f.encode ++ rest)).length < 2 ^ 64) :
    protobufTurn hidden preferText depth (front ++ (f.encode ++ rest)) front.length =
      some (.ok (f.piece hidden preferText depth, (front ++ f.encode).length)) := by
  have hparts : front ++ (f.encode ++ rest) = front ++ (f.start ++ (f.value.body ++ rest)) := by
    rw [ProtoField.encode, List.append_assoc]
  have hsum : (front ++ f.encode).length = (front ++ f.start).length + f.value.body.length := by
    simp only [ProtoField.encode, List.length_append, Nat.add_assoc]
  have htotal : (front ++ (f.encode ++ rest)).length =
      (front ++ f.encode).length + rest.length := by
    simp only [List.length_append, Nat.add_assoc]
  have hfield := fieldAt_encode f front (f.value.body ++ rest) (by omega)
  have hdrop : (front ++ (f.start ++ (f.value.body ++ rest))).drop (front ++ f.start).length =
      f.value.body ++ rest := by
    rw [← List.append_assoc front]
    exact List.drop_left
  unfold protobufTurn
  rw [hparts, hfield, hsum]
  rw [hparts] at htotal hlen
  unfold ProtoField.piece
  cases hvalue : f.value with
  | varint value => rfl
  | fixed64 value => rfl
  | fixed32 value => rfl
  | delimited body =>
      rw [hvalue] at hdrop hsum htotal hlen
      refine (if_neg ?_).trans ((if_neg ?_).trans ?_)
      · show ¬ 2 ^ 64 ≤ (front ++ f.start).length + (ProtoValue.delimited body).body.length
        omega
      · show ¬ _ < (front ++ f.start).length + (ProtoValue.delimited body).body.length
        omega
      · rw [hdrop]
        exact congrArg (fun body' => some (Except.ok
          (bodyPiece hidden preferText depth (linePad depth ++ Text.decimal f.number) body.length
            body', (front ++ f.start).length + body.length))) List.take_left

/-! ### Lines -/

/-- A piece is one line behind its head; one that goes down ends its line. -/
def Lined (head : List Char) : Piece UInt8 Char → Prop
  | .leaf text => ∃ first, '\n' ∉ first ∧
      (text = head ++ ' ' :: first ∨ text = head ++ ' ' :: (first ++ ['\n']))
  | .node text _ => ∃ first, '\n' ∉ first ∧ text = head ++ ' ' :: (first ++ ['\n'])

theorem decimal_no_newline (n : Nat) : '\n' ∉ Text.decimal n := fun hmem => by
  cases Text.isAsciiDigit_of_mem_decimal hmem

theorem toDigits_no_newline (n : Nat) : '\n' ∉ Nat.toDigits 16 n := by
  obtain ⟨w, -, -, heq⟩ := Hex.toDigits_eq_fixed n
  rw [heq]
  intro hmem
  cases Hex.isDigit_of_mem_fixed hmem

theorem hexEncode_no_newline (bytes : List UInt8) : '\n' ∉ hexEncode bytes false [' '] := by
  have hdigit : ∀ n < 16, hexDigit n ≠ '\n' := by decide
  intro hmem
  rcases Text.mem_join (c := ' ') hmem with hspace | ⟨l, hl, hmem⟩
  · cases hspace
  · obtain ⟨b, -, rfl⟩ := List.mem_map.mp hl
    have hb := b.toNat_lt
    rcases List.mem_cons.mp hmem with heq | hmem
    · exact hdigit _ (by omega) heq.symm
    · exact hdigit _ (Nat.mod_lt _ (by decide)) (List.mem_singleton.mp hmem).symm

theorem escapeDebug_no_newline (c : Char) : '\n' ∉ (Text.escapeDebug c).toList := by
  unfold Text.escapeDebug
  split_ifs with _ _ hnewline
  · decide
  · decide
  · decide
  · decide
  · decide
  · decide
  · simp [toDigits_no_newline]
  · intro hmem
    rw [Char.toString, String.toList_singleton] at hmem
    exact hnewline (List.mem_singleton.mp hmem).symm

theorem debugText_no_newline (text : List Char) : '\n' ∉ debugText hidden text := by
  have hchar : ∀ c, '\n' ∉ debugChar hidden c := by
    intro c
    unfold debugChar
    split_ifs
    · simp [toDigits_no_newline]
    · exact escapeDebug_no_newline c
  simp [debugText, hchar]

theorem bodyPiece_lined {head : List Char} {len : Nat} {body : List UInt8} :
    Lined head (bodyPiece hidden preferText depth head len body) := by
  have hmessage : ∃ first, '\n' ∉ first ∧ head ++ " message(".toList ++ Text.decimal len ++
      " 字节)\n".toList = head ++ ' ' :: (first ++ ['\n']) :=
    ⟨"message(".toList ++ Text.decimal len ++ " 字节)".toList,
      by simp [decimal_no_newline], by simp⟩
  unfold bodyPiece
  dsimp only
  split
  · rename_i text _
    split_ifs
    · exact ⟨"string ".toList ++ debugText hidden text, by simp [debugText_no_newline],
        .inl (by simp)⟩
    · exact hmessage
  · split_ifs
    · exact hmessage
    · exact ⟨"bytes(".toList ++ Text.decimal len ++ "): ".toList ++ hexEncode body false [' '],
        by simp [decimal_no_newline, hexEncode_no_newline], .inr (by simp)⟩

/-- A number's line. -/
theorem number_lined (head what : List Char) (value : Nat) (hwhat : '\n' ∉ what) :
    Lined head (.leaf (head ++ ' ' :: (what ++ [' ']) ++ Text.decimal value ++ ['\n'])) :=
  ⟨what ++ ' ' :: Text.decimal value, by simp [decimal_no_newline, hwhat], .inr (by simp)⟩

/-- **Every turn writes a line.** -/
theorem protobufTurn_lined {bytes : List UInt8} {piece : Piece UInt8 Char}
    (h : protobufTurn hidden preferText depth bytes cursor = some (.ok (piece, next))) :
    ∃ field, Lined (linePad depth ++ Text.decimal field) piece := by
  unfold protobufTurn at h
  split at h
  · cases h
  · rename_i field wire after _
    refine ⟨field, ?_⟩
    dsimp only at h
    split at h
    · cases h
      exact number_lined _ "varint".toList _ (by decide)
    · cases h
      exact number_lined _ "fixed64".toList _ (by decide)
    · cases h
      exact number_lined _ "fixed32".toList _ (by decide)
    · split_ifs at h
      · cases h
      · cases h
        exact bodyPiece_lined

/-! ### What is nested -/

/-- Whether the last line of a piece is open. -/
def PieceEnds (hidden : Char → Bool) (preferText : Bool) (depth : Nat) :
    Piece UInt8 Char → Prop
  | .leaf text => '\n' ∉ text
  | .node _ body => EndsInString hidden preferText (depth + 1) body 0

theorem endsInString_iff {piece : Piece UInt8 Char} (hc : cursor < level.length)
    (h : protobufTurn hidden preferText depth level cursor = some (.ok (piece, next))) :
    EndsInString hidden preferText depth level cursor ↔
      (level.length ≤ next ∧ PieceEnds hidden preferText depth piece) ∨
        EndsInString hidden preferText depth level next := by
  constructor
  · intro hends
    cases hends with
    | string _ h' hlast hopen =>
        rw [h] at h'
        cases h'
        exact .inl ⟨hlast, hopen⟩
    | inside _ h' hlast hinside =>
        rw [h] at h'
        cases h'
        exact .inl ⟨hlast, hinside⟩
    | later _ h' hlater =>
        rw [h] at h'
        cases h'
        exact .inr hlater
  · rintro (⟨hlast, hends⟩ | hlater)
    · cases piece with
      | leaf text => exact .string hc h hlast hends
      | node text body => exact .inside hc h hlast hends
    · exact .later hc h hlater

theorem endsInString_done (hc : level.length ≤ cursor) :
    ¬ EndsInString hidden preferText depth level cursor := by
  intro h
  cases h <;> exact absurd hc (Nat.not_le.mpr ‹_›)

theorem linePad_no_newline (depth n : Nat) : '\n' ∉ linePad depth ++ Text.decimal n := by
  simp [linePad, decimal_no_newline]

/-- What is written below the top: its lines are indented, and something stands behind the last line
end where the bytes end in a string. -/
structure Nested (hidden : Char → Bool) (preferText : Bool) (depth : Nat) (level : List UInt8)
    (cursor : Nat) (out : List Char) : Prop where
  indented : Text.Indented true out
  empty : out = [] ↔ level.length ≤ cursor
  closed : Text.Closed out ↔ ¬ EndsInString hidden preferText depth level cursor

/-- What is written of a piece goes in front of what is written later. -/
theorem Nested.turn {piece : Piece UInt8 Char} {t later : List Char} (hc : cursor < level.length)
    (h : protobufTurn hidden preferText depth level cursor = some (.ok (piece, next)))
    (hne : t ≠ []) (hindented : Text.Indented true t)
    (hclosed : Text.Closed t ↔ ¬ PieceEnds hidden preferText depth piece)
    (hlater : Nested hidden preferText depth level next later) :
    Nested hidden preferText depth level cursor (t ++ later) where
  indented := hindented.append hlater.indented
  empty := iff_of_false (List.append_ne_nil_of_left_ne_nil hne _) (Nat.not_le.mpr hc)
  closed := by
    rw [endsInString_iff hc h]
    by_cases hlast : level.length ≤ next
    · rw [hlater.empty.mpr hlast, List.append_nil, hclosed, and_iff_right hlast,
        or_iff_left (endsInString_done hlast)]
    · have hsome : later ≠ [] := fun hnil => hlast (hlater.empty.mp hnil)
      rw [Text.closed_append hsome, hlater.closed, or_iff_right fun hand => hlast hand.1]

/-- **What is nested is indented.** -/
theorem walk_nested (hidden : Char → Bool) (preferText : Bool) (depth : Nat) (level : List UInt8)
    (cursor : Nat) (out : List Char)
    (h : (protobufFields hidden preferText).walk depth level cursor = some (.ok out)) :
    0 < depth → Nested hidden preferText depth level cursor out := by
  have hpad : ∀ {depth n}, 0 < depth → ∃ pad, linePad depth ++ Text.decimal n = ' ' :: pad ∧
      '\n' ∉ pad := by
    intro depth n hdepth
    have hno := linePad_no_newline depth n
    obtain ⟨k, rfl⟩ := Nat.exists_eq_add_one.mpr hdepth
    have hcons : linePad (k + 1) = ' ' :: ' ' :: linePad k := rfl
    rw [hcons] at hno ⊢
    exact ⟨_, rfl, List.not_mem_of_not_mem_cons hno⟩
  refine Scheme.walk_induction (F := protobufFields hidden preferText)
    (P := fun depth level cursor out => 0 < depth →
      Nested hidden preferText depth level cursor out) ?_ ?_ ?_ depth level cursor out h
  · intro depth level cursor hc _
    exact ⟨trivial, iff_of_true rfl hc, iff_of_true rfl (endsInString_done hc)⟩
  · intro depth level cursor text next out hc hturn ih hdepth
    obtain ⟨field, first, hfirst, htext⟩ := protobufTurn_lined hturn
    obtain ⟨pad, hpad, hno⟩ := hpad (n := field) hdepth
    rw [hpad] at htext
    have hline : '\n' ∉ pad ++ ' ' :: first := by simp [hno, hfirst]
    rcases htext with rfl | rfl
    · have hmem : '\n' ∉ ' ' :: pad ++ ' ' :: first := by simpa using hline
      refine Nested.turn hc hturn nofun ⟨fun _ => rfl, Text.indented_line hline⟩ ?_ (ih hdepth)
      exact iff_of_false (Text.not_closed_line hmem nofun) fun hends => hends hmem
    · have hshape : ' ' :: pad ++ ' ' :: (first ++ ['\n']) =
          (' ' :: (pad ++ ' ' :: first)) ++ '\n' :: [] := by simp
      rw [hshape]
      refine Nested.turn hc hturn nofun
        ⟨fun _ => rfl, Text.indented_line_append hline trivial⟩ ?_ (ih hdepth)
      exact iff_of_true ((Text.closed_line_append _ _).mpr rfl) fun hends => hends (by simp)
  · intro depth level cursor text body next inner out hc hturn hinner ih hdepth
    obtain ⟨field, first, hfirst, rfl⟩ := protobufTurn_lined hturn
    obtain ⟨pad, hpad, hno⟩ := hpad (n := field) hdepth
    have hline : '\n' ∉ pad ++ ' ' :: first := by simp [hno, hfirst]
    have hshape : linePad depth ++ Text.decimal field ++ ' ' :: (first ++ ['\n']) ++ inner =
        (' ' :: (pad ++ ' ' :: first)) ++ '\n' :: inner := by simp [hpad]
    have hnested := hinner (Nat.succ_pos depth)
    rw [hshape]
    refine Nested.turn hc hturn nofun
      ⟨fun _ => rfl, Text.indented_line_append hline hnested.indented⟩ ?_ (ih hdepth)
    rw [Text.closed_line_append, hnested.closed]
    rfl

/-! ### What is written of a message -/

/-- A body that is shown with its line ended. -/
def Ended (preferText : Bool) (f : ProtoField) : Prop :=
  ∀ body, f.value = .delimited body → ¬ ShownAsString preferText body

/-- What a body at the top is shown as. -/
theorem bodyPiece_cases (hidden : Char → Bool) (preferText : Bool) (head : List Char) (len : Nat)
    (body : List UInt8) :
    (ShownAsString preferText body ∧ ∃ first, '\n' ∉ first ∧
      bodyPiece hidden preferText 0 head len body = .leaf (head ++ ' ' :: first)) ∨
    (¬ ShownAsString preferText body ∧ ∃ first, '\n' ∉ first ∧
      bodyPiece hidden preferText 0 head len body = .node (head ++ ' ' :: (first ++ ['\n'])) body) ∨
    (¬ ShownAsString preferText body ∧ body = [] ∧ ∃ first, '\n' ∉ first ∧
      bodyPiece hidden preferText 0 head len body = .leaf (head ++ ' ' :: (first ++ ['\n']))) := by
  have hmessage : ∃ first, '\n' ∉ first ∧ head ++ " message(".toList ++ Text.decimal len ++
      " 字节)\n".toList = head ++ ' ' :: (first ++ ['\n']) :=
    ⟨"message(".toList ++ Text.decimal len ++ " 字节)".toList,
      by simp [decimal_no_newline], by simp⟩
  obtain ⟨first, hfirst, hmessage⟩ := hmessage
  unfold ShownAsString bodyPiece
  dsimp only
  rw [hmessage]
  cases htext : cleanText body with
  | some text =>
      have hne : body ≠ [] := fun hnil => by
        rw [hnil] at htext
        cases htext
      cases preferText with
      | true =>
          refine .inl ⟨⟨rfl, nofun⟩, "string ".toList ++ debugText hidden text,
            by simp [debugText_no_newline], ?_⟩
          simp
      | false =>
          exact .inr (.inl ⟨nofun, first, hfirst, if_neg (by simp [hne, protobufDepth])⟩)
  | none =>
      by_cases hnil : body = []
      · refine .inr (.inr ⟨fun h => h.2 rfl, hnil,
          "bytes(".toList ++ Text.decimal len ++ "): ".toList ++ hexEncode body false [' '],
          by simp [decimal_no_newline, hexEncode_no_newline], ?_⟩)
        simp [hnil]
      · refine .inr (.inl ⟨fun h => h.2 rfl, first, hfirst, ?_⟩)
        exact if_pos ⟨by decide, hnil⟩

/-- What a field at the top is shown as. -/
theorem piece_cases (hidden : Char → Bool) (preferText : Bool) (f : ProtoField) :
    (¬ Ended preferText f ∧ ∃ first, '\n' ∉ first ∧
      f.piece hidden preferText 0 = .leaf (Text.decimal f.number ++ ' ' :: first)) ∨
    (Ended preferText f ∧ ∃ body, f.value = .delimited body ∧ ∃ first, '\n' ∉ first ∧
      f.piece hidden preferText 0 =
        .node (Text.decimal f.number ++ ' ' :: (first ++ ['\n'])) body) ∨
    (Ended preferText f ∧ (∀ body, f.value = .delimited body → body = []) ∧
      ∃ first, '\n' ∉ first ∧
        f.piece hidden preferText 0 =
          .leaf (Text.decimal f.number ++ ' ' :: (first ++ ['\n']))) := by
  have hnumber : ∀ (what : List Char) (value : Nat), '\n' ∉ what → ∃ first, '\n' ∉ first ∧
      (.leaf (Text.decimal f.number ++ ' ' :: what ++ Text.decimal value ++ ['\n']) :
        Piece UInt8 Char) = .leaf (Text.decimal f.number ++ ' ' :: (first ++ ['\n'])) :=
    fun what value hwhat =>
      ⟨what ++ Text.decimal value, by simp [hwhat, decimal_no_newline], by simp⟩
  unfold ProtoField.piece Ended
  cases f.value with
  | varint value => exact .inr (.inr ⟨nofun, nofun, hnumber "varint ".toList _ (by decide)⟩)
  | fixed64 value => exact .inr (.inr ⟨nofun, nofun, hnumber "fixed64 ".toList _ (by decide)⟩)
  | fixed32 value => exact .inr (.inr ⟨nofun, nofun, hnumber "fixed32 ".toList _ (by decide)⟩)
  | delimited body =>
      have hended : (∀ body', ProtoValue.delimited body = .delimited body' →
          ¬ ShownAsString preferText body') ↔ ¬ ShownAsString preferText body :=
        ⟨fun h => h body rfl, fun h body' heq => ProtoValue.delimited.inj heq ▸ h⟩
      rw [hended]
      rcases bodyPiece_cases hidden preferText (Text.decimal f.number) body.length body with
        ⟨hshown, hpiece⟩ | ⟨hshown, hpiece⟩ | ⟨hshown, rfl, hpiece⟩
      · exact .inl ⟨not_not.mpr hshown, hpiece⟩
      · exact .inr (.inl ⟨hshown, body, rfl, hpiece⟩)
      · refine .inr (.inr ⟨hshown, fun body' heq => ?_, hpiece⟩)
        exact (ProtoValue.delimited.inj heq).symm

/-- A line that is ended, with lines below it. -/
theorem entryOf_below (n : Nat) {first below : List Char} (hfirst : '\n' ∉ first)
    (hbelow : Text.Indented true below) :
    Text.EntryOf n (Text.decimal n ++ ' ' :: (first ++ '\n' :: below)) ∧
      '\n' ∈ Text.decimal n ++ ' ' :: (first ++ '\n' :: below) ∧
      ((Text.decimal n ++ ' ' :: (first ++ '\n' :: below)).getLast? = some '\n' ↔
        Text.Closed below) := by
  refine ⟨⟨first, below, hfirst, hbelow, .inr rfl⟩, by simp, ?_⟩
  rw [← List.cons_append, ← List.append_assoc,
    List.getLast?_append_of_ne_nil _ (List.cons_ne_nil _ _), Text.Closed]

/-- **What is written of a field** at the top, where anything is. -/
theorem written_field {t : List Char}
    (h : (protobufFields hidden preferText).written 0 (f.piece hidden preferText 0) =
      some (.ok t)) :
    Text.EntryOf f.number t ∧ ('\n' ∈ t ↔ Ended preferText f) ∧
      (Ended preferText f → (t.getLast? = some '\n' ↔
        ∀ body, f.value = .delimited body → ¬ EndsInString hidden preferText 1 body 0)) := by
  rcases piece_cases hidden preferText f with
    ⟨hended, first, hfirst, hpiece⟩ | ⟨hended, body, hvalue, first, hfirst, hpiece⟩ |
      ⟨hended, hempty, first, hfirst, hpiece⟩
  · rw [hpiece] at h
    cases h
    refine ⟨⟨first, [], hfirst, trivial, .inl rfl⟩, iff_of_false ?_ hended, (absurd · hended)⟩
    simp [decimal_no_newline, hfirst]
  · rw [hpiece] at h
    obtain ⟨inner, hinner, rfl⟩ := Scheme.written_node_iff.mp h
    have hnested := walk_nested hidden preferText 1 body 0 inner hinner Nat.one_pos
    obtain ⟨hentry, hmem, hlast⟩ := entryOf_below f.number hfirst hnested.indented
    have hshape : Text.decimal f.number ++ ' ' :: (first ++ ['\n']) ++ inner =
        Text.decimal f.number ++ ' ' :: (first ++ '\n' :: inner) := by simp
    rw [hshape, hlast, hnested.closed]
    refine ⟨hentry, iff_of_true hmem hended, fun _ => ⟨fun hopen body' hbody' => ?_, fun hopen =>
      hopen body hvalue⟩⟩
    rw [hvalue] at hbody'
    cases hbody'
    exact hopen
  · rw [hpiece] at h
    cases h
    have hbelow : Text.Indented true [] := trivial
    obtain ⟨hentry, hmem, hlast⟩ := entryOf_below f.number hfirst hbelow
    refine ⟨hentry, iff_of_true hmem hended, fun _ => iff_of_true (hlast.mpr rfl) ?_⟩
    intro body hvalue
    rw [hempty body hvalue]
    exact endsInString_done (Nat.le_refl 0)

/-- A field is written iff its body is a message where it is read as one. -/
theorem written_isSome_iff (hended : Ended preferText f) :
    (∃ t, (protobufFields hidden preferText).written 0 (f.piece hidden preferText 0) =
      some (.ok t)) ↔
    ∀ body, f.value = .delimited body → (protobufFields hidden preferText).Accepts 1 body 0 := by
  rcases piece_cases hidden preferText f with
    ⟨hopen, -⟩ | ⟨-, body, hvalue, first, -, hpiece⟩ | ⟨-, hempty, first, -, hpiece⟩
  · exact absurd hended hopen
  · have haccepts : (∀ body', f.value = .delimited body' →
        (protobufFields hidden preferText).Accepts 1 body' 0) ↔
          (protobufFields hidden preferText).Accepts 1 body 0 := by
      rw [hvalue]
      exact ⟨fun h => h body rfl, fun h body' heq => ProtoValue.delimited.inj heq ▸ h⟩
    rw [hpiece, haccepts, ← Scheme.walk_ok_iff]
    constructor
    · rintro ⟨t, ht⟩
      obtain ⟨inner, hinner, -⟩ := Scheme.written_node_iff.mp ht
      exact ⟨inner, hinner⟩
    · rintro ⟨inner, hinner⟩
      exact ⟨_, Scheme.written_node_iff.mpr ⟨inner, hinner, rfl⟩⟩
  · rw [hpiece]
    refine iff_of_true ⟨_, rfl⟩ fun body hvalue => ?_
    rw [hempty body hvalue]
    exact .done (Nat.le_refl 0)

/-- What a field comes to. -/
def Writes (hidden : Char → Bool) (preferText : Bool) (f : ProtoField) (t : List Char) : Prop :=
  (protobufFields hidden preferText).written 0 (f.piece hidden preferText 0) = some (.ok t)

/-- **Fields in a row** are written in a row. -/
theorem walk_fields (hidden : Char → Bool) (preferText : Bool) :
    ∀ (fields : List ProtoField) (front : List UInt8) (out : List Char),
    (front ++ fields.flatMap ProtoField.encode).length < 2 ^ 64 →
      ((protobufFields hidden preferText).walk 0 (front ++ fields.flatMap ProtoField.encode)
        front.length = some (.ok out) ↔
      ∃ ts, List.Forall₂ (Writes hidden preferText) fields ts ∧ out = ts.flatten)
  | [], front, out, _ => by
      rw [List.flatMap_nil, List.append_nil, Scheme.walk_done (Nat.le_refl _)]
      constructor
      · intro h
        cases h
        exact ⟨[], .nil, rfl⟩
      · rintro ⟨ts, hts, rfl⟩
        cases hts
        rfl
  | f :: fields, front, out, hlen => by
      have hparts : front ++ (f :: fields).flatMap ProtoField.encode =
          front ++ f.encode ++ fields.flatMap ProtoField.encode := by
        rw [List.flatMap_cons, List.append_assoc]
      have hcursor : front.length < (front ++ (f :: fields).flatMap ProtoField.encode).length := by
        have hpos := List.length_pos_of_ne_nil f.encode_ne_nil
        rw [List.flatMap_cons, List.length_append, List.length_append]
        omega
      have hturn := protobufTurn_encode hidden preferText 0 f front
        (fields.flatMap ProtoField.encode) hlen
      have hnext := walk_fields hidden preferText fields (front ++ f.encode)
      rw [Scheme.walk_turn_iff (F := protobufFields hidden preferText) hcursor hturn, hparts]
      constructor
      · rintro ⟨t, later, ht, hlater, rfl⟩
        obtain ⟨ts, hts, rfl⟩ := (hnext later (hparts ▸ hlen)).mp hlater
        exact ⟨t :: ts, .cons ht hts, rfl⟩
      · rintro ⟨ts, hts, rfl⟩
        cases hts with
        | @cons _ t _ ts ht hts =>
            exact ⟨t, ts.flatten, ht, (hnext _ (hparts ▸ hlen)).mpr ⟨ts, hts, rfl⟩, rfl⟩

/-- What the operation makes of a message. -/
theorem protobufDecode_message (m : ProtoMessage) (args : Args) (out : List Char) :
    protobufDecode hidden ⟨m.encode⟩ args = some (.ok (.fromText out)) ↔
      m.fields ≠ [] ∧ ∃ ts,
        List.Forall₂ (Writes hidden (args.boolOf "preferText")) m.fields ts ∧ out = ts.flatten := by
  have hwalk := walk_fields hidden (args.boolOf "preferText") m.fields [] out
    (Nat.lt_trans m.fits (by decide))
  rw [List.nil_append] at hwalk
  have hnil : m.encode = [] ↔ m.fields = [] := by
    rw [ProtoMessage.encode, List.flatMap_eq_nil_iff, List.eq_nil_iff_forall_not_mem]
    exact forall₂_congr fun f _ => iff_of_false f.encode_ne_nil not_false
  rw [← hwalk, protobufDecode, decodeLevels]
  by_cases hempty : m.encode = []
  · rw [if_pos hempty]
    exact iff_of_false nofun fun h => h.1 (hnil.mp hempty)
  · rw [if_neg hempty, and_iff_right (hnil.not.mp hempty)]
    show _ ↔ (protobufFields hidden (args.boolOf "preferText")).walk 0 m.encode 0 = some (.ok out)
    match (protobufFields hidden (args.boolOf "preferText")).walk 0 m.encode 0 with
    | none => exact iff_of_false nofun nofun
    | some (.error e) => exact iff_of_false nofun nofun
    | some (.ok out') =>
        constructor
        · intro h
          rw [fromText_inj (Except.ok.inj (Option.some.inj h))]
        · intro h
          cases h
          rfl

theorem entries_of_writes {fields : List ProtoField} {ts : List (List Char)}
    (h : List.Forall₂ (Writes hidden preferText) fields ts) :
    List.Forall₂ Text.EntryOf (fields.map ProtoField.number) ts :=
  List.forall₂_map_left_iff.mpr (h.imp fun _ _ hft => (written_field hft).1)

/-- The texts of fields are parted iff each field has its line ended, and none but the last ends in
a string. -/
theorem parted_iff {fields : List ProtoField} {ts : List (List Char)}
    (h : List.Forall₂ (Writes hidden preferText) fields ts) :
    Text.Parted ts ↔ (∀ f ∈ fields, Ended preferText f) ∧ ∀ f ∈ fields.dropLast, ∀ body,
      f.value = .delimited body → ¬ EndsInString hidden preferText 1 body 0 := by
  rw [Text.Parted, ← Text.forall_iff h fun f t hft => (written_field hft).2.1.symm]
  refine and_congr_right fun hended => ?_
  have hboth := (List.forall₂_and_left fields ts).mpr ⟨hended, h⟩
  exact (Text.forall_iff (Text.forall₂_dropLast hboth) fun f t hft =>
    ((written_field hft.2).2.2 hft.1).symm).symm

/-- **When each field of a message has its own line.** -/
theorem showsFields_iff (hidden : Char → Bool) (m : ProtoMessage) (args : Args) :
    ShowsFields hidden m args ↔ Layable hidden (args.boolOf "preferText") m.fields := by
  unfold ShowsFields
  constructor
  · rintro ⟨out, hout, hown⟩
    obtain ⟨hne, ts, hts, rfl⟩ := (protobufDecode_message m args out).mp hout
    obtain ⟨hended, hends⟩ := (parted_iff hts).mp
      ((Text.ownLines_flatten_iff (entries_of_writes hts)).mp hown)
    refine ⟨hne, hended, fun f hf => ?_, hends⟩
    have hwritten := Text.forall_right
      (P := fun f => ∃ t, Writes hidden (args.boolOf "preferText") f t) hts.flip
      fun t _ ht => ⟨t, ht⟩
    exact (written_isSome_iff (hended f hf)).mp (hwritten f hf)
  · rintro ⟨hne, hstrings, hmessages, hends⟩
    obtain ⟨ts, hts⟩ := Text.exists_forall₂ (R := Writes hidden (args.boolOf "preferText"))
      fun f hf => (written_isSome_iff (hstrings f hf)).mpr (hmessages f hf)
    refine ⟨ts.flatten, (protobufDecode_message m args _).mpr ⟨hne, ts, hts, rfl⟩, ?_⟩
    exact (Text.ownLines_flatten_iff (entries_of_writes hts)).mpr
      ((parted_iff hts).mpr ⟨hstrings, hends⟩)

/-- A field with one letter. -/
def letterField : ProtoField where
  number := 1
  value := .delimited [0x61]
  pos := by decide
  fits := by decide

/-- The message of that field alone. -/
def letterMessage : ProtoMessage where
  fields := [letterField]
  fits := by
    simp [letterField, ProtoField.encode, ProtoField.start, ProtoValue.wireType, ProtoValue.start,
      ProtoValue.body, Varint.encode]

/-- A string is left without its line end. -/
theorem showsFields_string :
    ¬ ShowsFields (fun _ => false) letterMessage ⟨[("preferText", "true")]⟩ := by
  rintro ⟨out, hout, hown⟩
  obtain ⟨-, ts, hts, rfl⟩ := (protobufDecode_message _ _ out).mp hout
  have hparted := (Text.ownLines_flatten_iff (entries_of_writes hts)).mp hown
  refine ((parted_iff hts).mp hparted).1 letterField List.mem_cons_self [0x61] rfl ⟨?_, ?_⟩
  · decide
  · decide

end RevBox.Chef
