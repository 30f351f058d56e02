import RevBox.Protocol.Envelope
import RevBox.Support.Utf8
import Mathlib.Tactic.SplitIfs

/-!
# Protocol — Json

`serde_json::to_vec`: the compact text of a value and of a response, and how long it is.

* `size_field`: an object is longer than each of its fields.
* `size_renderStr`: a string is longer as JSON than as text.
-/

namespace RevBox.Json

/-- A lower-case hexadecimal digit. -/
def hexDigit (n : Nat) : Char := Char.ofNat (if n < 10 then 0x30 + n else 0x57 + n)

/-- How a character stands in a JSON string. -/
def escapeChar (c : Char) : List Char :=
  if c = '"' then ['\\', '"']
  else if c = '\\' then ['\\', '\\']
  else if c.toNat = 0x08 then ['\\', 'b']
  else if c.toNat = 0x0C then ['\\', 'f']
  else if c = '\n' then ['\\', 'n']
  else if c = '\r' then ['\\', 'r']
  else if c = '\t' then ['\\', 't']
  else if c.toNat < 0x20 then
    ['\\', 'u', '0', '0', hexDigit (c.toNat / 16), hexDigit (c.toNat % 16)]
  else [c]

/-- A string literal. -/
def renderStr (s : String) : List Char := '"' :: (s.toList.flatMap escapeChar ++ ['"'])

/-- A number. -/
def renderNumber : Number → List Char
  | .int n => (toString n).toList
  | .float text => text.toList

mutual

/-- The text of a value. -/
def render : Value → List Char
  | .null => "null".toList
  | .bool true => "true".toList
  | .bool false => "false".toList
  | .number n => renderNumber n
  | .string s => renderStr s
  | .array xs => '[' :: (renderItems xs ++ [']'])
  | .object fields => '\x7b' :: (renderFields fields ++ ['\x7d'])

/-- The items of an array. -/
def renderItems : List Value → List Char
  | [] => []
  | [v] => render v
  | v :: vs => render v ++ ',' :: renderItems vs

/-- The fields of an object. -/
def renderFields : List (String × Value) → List Char
  | [] => []
  | [(k, v)] => renderStr k ++ ':' :: render v
  | (k, v) :: fields => renderStr k ++ ':' :: (render v ++ ',' :: renderFields fields)

end

/-- The fields of an `AgentError`, in the order `serde` writes them. -/
def errorFields (e : AgentError) : List (String × Value) :=
  [("code", .string e.code.asStr), ("message", .string e.message)] ++
    match e.details with
    | some details => [("details", details)]
    | none => []

/-- The fields of a `ResponseEnvelope`, in the order `serde` writes them. -/
def responseFields (r : ResponseEnvelope) : List (String × Value) :=
  ("request_id", .string r.requestId) :: match r.payload with
    | .success result => [("result", result)]
    | .failure error => [("error", .object (errorFields error))]

/-- `serde_json::to_vec` of a response. -/
def toVec (r : ResponseEnvelope) : List UInt8 := Utf8.encode (render (.object (responseFields r)))

/-- The bytes of a value's text. -/
def size (v : Value) : Nat := (Utf8.encode (render v)).length

/-! ### How long the text is -/

theorem escapeChar_ne_nil (c : Char) : escapeChar c ≠ [] := by
  unfold escapeChar
  split_ifs <;> simp

/-- What is not ASCII stands for itself. -/
theorem escapeChar_of_not_ascii {c : Char} (h : ¬ Utf8.isAscii c) : escapeChar c = [c] := by
  have hn : ¬ c.toNat ≤ 0x7F := fun hc => h (Utf8.isAscii_iff.mpr hc)
  have hne : ∀ d : Char, Utf8.isAscii d → c ≠ d := fun d hd hcd => h (hcd ▸ hd)
  unfold escapeChar
  rw [if_neg (hne _ (by decide)), if_neg (hne _ (by decide)), if_neg (by omega),
    if_neg (by omega), if_neg (hne _ (by decide)), if_neg (hne _ (by decide)),
    if_neg (hne _ (by decide)), if_neg (by omega)]

theorem utf8Size_le_escapeChar (c : Char) :
    c.utf8Size ≤ (Utf8.encode (escapeChar c)).length := by
  by_cases h : Utf8.isAscii c
  · have h₁ : (String.utf8EncodeChar c).length = 1 := by rw [Utf8.utf8EncodeChar_ascii h]; rfl
    rw [← String.length_utf8EncodeChar, h₁]
    exact Nat.le_trans (List.length_pos_of_ne_nil (escapeChar_ne_nil c)) (Utf8.length_le_encode _)
  · simp [escapeChar_of_not_ascii h, Utf8.encode]

theorem size_escaped (s : List Char) :
    (Utf8.encode s).length ≤ (Utf8.encode (s.flatMap escapeChar)).length := by
  induction s with
  | nil => exact Nat.le_refl _
  | cons c s ih =>
      rw [Utf8.length_encode_cons, List.flatMap_cons, Utf8.encode_append, List.length_append]
      exact Nat.add_le_add (utf8Size_le_escapeChar c) ih

/-- A string is longer as JSON than as text. -/
theorem size_renderStr (s : String) :
    (Utf8.encode s.toList).length ≤ (Utf8.encode (renderStr s)).length := by
  rw [renderStr, Utf8.length_encode_cons, Utf8.encode_append, List.length_append]
  have := size_escaped s.toList
  omega

/-- A field is shorter than the fields it is one of. -/
theorem size_le_renderFields {k : String} {v : Value} {fields : List (String × Value)}
    (h : (k, v) ∈ fields) : size v ≤ (Utf8.encode (renderFields fields)).length := by
  induction fields with
  | nil => cases h
  | cons f fields ih =>
      obtain ⟨k', v'⟩ := f
      have hsplit : size v' ≤ (Utf8.encode (renderFields ((k', v') :: fields))).length ∧
          (Utf8.encode (renderFields fields)).length ≤
            (Utf8.encode (renderFields ((k', v') :: fields))).length := by
        cases fields with
        | nil =>
            simp [renderFields, size, Utf8.encode_append, Utf8.length_encode_cons]
            omega
        | cons f fields =>
            simp [renderFields, size, Utf8.encode_append, Utf8.length_encode_cons]; omega
      rcases List.mem_cons.mp h with h | h
      · cases h
        exact hsplit.1
      · exact Nat.le_trans (ih h) hsplit.2

/-- An object is longer than each of its fields. -/
theorem size_field {k : String} {v : Value} {fields : List (String × Value)}
    (h : (k, v) ∈ fields) : size v ≤ size (.object fields) := by
  have := size_le_renderFields h
  simp only [size, render, Utf8.length_encode_cons, Utf8.encode_append, List.length_append] at *
  omega

/-- A response is longer than its result. -/
theorem size_le_toVec (requestId : String) (result : Value) :
    size result ≤ (toVec (.success requestId result)).length :=
  size_field (k := "result") (by simp [responseFields, ResponseEnvelope.success])

example : render (.ofFields [("ok", .bool true), ("n", .array [.nat 1, .string "a\n"])]) =
    "\x7b\"n\":[1,\"a\\n\"],\"ok\":true\x7d".toList := by decide

end RevBox.Json
