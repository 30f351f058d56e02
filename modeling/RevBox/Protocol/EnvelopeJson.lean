import RevBox.Protocol.Envelope
import RevBox.Support.Results

/-!
# Protocol — EnvelopeJson

How `serde` writes a `ResponseEnvelope` as a JSON value (`to_value`) and reads one back
(`from_value`).  A derived reader of a struct takes an object, or an array of the fields in order.

* `fromValue_toValue`: what comes back of a response.
* `round_trip_exactly`: which responses come back as they were.
-/

namespace RevBox

open Results

/-! ### Writing -/

/-- `AgentError`, as it is derived. -/
def AgentError.toValue (e : AgentError) : Value :=
  .ofFields ([("code", .string e.code.asStr), ("message", .string e.message)] ++
    match e.details with
    | some details => [("details", details)]
    | none => [])

/-- `ResponsePayload`: untagged, and flattened into the response. -/
def ResponsePayload.fields : ResponsePayload → List (String × Value)
  | .success result => [("result", result)]
  | .failure error => [("error", error.toValue)]

/-- `ResponseEnvelope`, as it is derived. -/
def ResponseEnvelope.toValue (r : ResponseEnvelope) : Value :=
  .ofFields (("request_id", .string r.requestId) :: r.payload.fields)

/-! ### Reading -/

/-- Why a value is not what it is read as. -/
inductive DecodeError where
  | missingField (name : String)
  | invalidType (expected : String)
  | invalidLength
  | custom (text : String)
  deriving DecidableEq

/-- `String::deserialize`. -/
def readString : Value → Except DecodeError String
  | .string s => .ok s
  | _ => .error (.invalidType "a string")

/-- `ErrorCode::deserialize`, of a string. -/
def ErrorCode.ofStr (code : String) : ErrorCode :=
  match code with
  | "invalid_request" => .invalidRequest
  | "unsupported_method" => .unsupportedMethod
  | "permission_denied" => .permissionDenied
  | "not_found" => .notFound
  | "precondition_failed" => .preconditionFailed
  | "busy" => .busy
  | "deadline_exceeded" => .deadlineExceeded
  | "cancelled" => .cancelled
  | "transport_lost" => .transportLost
  | "incompatible_version" => .incompatibleVersion
  | "provider_unavailable" => .providerUnavailable
  | "internal" => .internal
  | _ => .unknown code

/-- `Option<Value>::deserialize`. -/
def readOption : Value → Option Value
  | .null => none
  | v => some v

/-- A field that must be there. -/
def requireField (name : String) : Option Value → Except DecodeError Value
  | some v => .ok v
  | none => .error (.missingField name)

/-- `AgentError::deserialize`, as it is derived. -/
def AgentError.fromValue (v : Value) : Except DecodeError AgentError :=
  match v with
  | .object _ => do
      let code ← requireField "code" (v.get? "code") >>= readString
      let message ← requireField "message" (v.get? "message") >>= readString
      .ok ⟨.ofStr code, message, (v.get? "details").bind readOption⟩
  | .array (code :: message :: rest) => do
      let code ← readString code
      let message ← readString message
      match rest with
      | [] => .ok ⟨.ofStr code, message, none⟩
      | [details] => .ok ⟨.ofStr code, message, readOption details⟩
      | _ => .error .invalidLength
  | .array _ => .error .invalidLength
  | _ => .error (.invalidType "struct AgentError")

/-- `ResponseEnvelope::deserialize`. -/
def ResponseEnvelope.fromValue (v : Value) : Except DecodeError ResponseEnvelope :=
  match v with
  | .object _ => do
      let requestId ← requireField "request_id" (v.get? "request_id") >>= readString
      match v.get? "result", v.get? "error" with
      | some result, none => .ok ⟨requestId, .success result⟩
      | none, some error => do
          let error ← AgentError.fromValue error
          .ok ⟨requestId, .failure error⟩
      | some _, some _ => .error (.custom "response must not contain both result and error")
      | none, none =>
          .error (.custom "response must contain exactly one of result or error")
  | _ => .error (.invalidType "a map")

/-! ### What comes back -/

/-- The code that comes back: a name that is known is that code. -/
def ErrorCode.known (code : ErrorCode) : ErrorCode := .ofStr code.asStr

/-- The error that comes back: details of `null` are none. -/
def AgentError.known (e : AgentError) : AgentError :=
  ⟨e.code.known, e.message, e.details.bind readOption⟩

/-- The response that comes back. -/
def ResponseEnvelope.known (r : ResponseEnvelope) : ResponseEnvelope :=
  match r.payload with
  | .success _ => r
  | .failure error => ⟨r.requestId, .failure error.known⟩

theorem get?_nil (key : String) : (Value.object []).get? key = none := rfl

/-- What stands in an object built from fields, later ones first. -/
theorem get?_ofFields (fields : List (String × Value)) (key : String) :
    (Value.ofFields fields).get? key =
      (fields.reverse.find? fun f => f.1 = key).map Prod.snd := by
  have hfold : ∀ fields m : List (String × Value), (Value.object (fields.foldl
      (fun m f => Value.insertField f.1 f.2 m) m)).get? key =
        ((fields.reverse.find? fun f => f.1 = key).map Prod.snd).or ((Value.object m).get? key) := by
    intro fields
    induction fields with
    | nil => exact fun m => rfl
    | cons f fields ih =>
        intro m
        rw [List.foldl_cons, ih, Value.get?_insertField, List.reverse_cons, List.find?_append]
        cases fields.reverse.find? fun f => f.1 = key with
        | some g => rfl
        | none =>
            by_cases hf : f.1 = key
            · simp [hf]
            · simp [hf]
  rw [Value.ofFields, hfold, get?_nil, Option.or_none]

theorem AgentError.fromValue_toValue (e : AgentError) :
    AgentError.fromValue e.toValue = .ok e.known := by
  have hcode : e.toValue.get? "code" = some (.string e.code.asStr) := by
    rw [toValue, get?_ofFields]
    cases e.details
    all_goals rfl
  have hmessage : e.toValue.get? "message" = some (.string e.message) := by
    rw [toValue, get?_ofFields]
    cases e.details
    all_goals rfl
  have hdetails : e.toValue.get? "details" = e.details := by
    rw [toValue, get?_ofFields]
    cases e.details
    all_goals rfl
  obtain ⟨fields, hfields⟩ : ∃ fields, e.toValue = .object fields := ⟨_, rfl⟩
  rw [hfields] at hcode hmessage hdetails ⊢
  rw [fromValue, hcode, hmessage, hdetails]
  rfl

/-- **What comes back of a response.** -/
theorem ResponseEnvelope.fromValue_toValue (r : ResponseEnvelope) :
    fromValue r.toValue = .ok r.known := by
  have hid : r.toValue.get? "request_id" = some (.string r.requestId) := by
    rw [toValue, get?_ofFields]
    cases r.payload
    all_goals rfl
  have hfields : (r.toValue.get? "result", r.toValue.get? "error") = match r.payload with
      | .success result => (some result, none)
      | .failure error => (none, some error.toValue) := by
    rw [toValue, get?_ofFields, get?_ofFields]
    cases r.payload
    all_goals rfl
  obtain ⟨fields, hobject⟩ : ∃ fields, r.toValue = .object fields := ⟨_, rfl⟩
  obtain ⟨requestId, payload⟩ := r
  rw [hobject] at hid hfields ⊢
  rw [fromValue, hid]
  cases payload with
  | success result =>
      obtain ⟨hresult, herror⟩ := Prod.mk.inj hfields
      rw [hresult, herror]
      rfl
  | failure error =>
      obtain ⟨hresult, herror⟩ := Prod.mk.inj hfields
      rw [hresult, herror]
      show (AgentError.fromValue error.toValue >>= _) = _
      rw [AgentError.fromValue_toValue]
      rfl

/-! ### What comes back as it was -/

/-- The code is not a known one under another constructor. -/
def ErrorCode.Canonical (code : ErrorCode) : Prop := ∀ name, code = .unknown name →
  name ∉ ["invalid_request", "unsupported_method", "permission_denied", "not_found",
    "precondition_failed", "busy", "deadline_exceeded", "cancelled", "transport_lost",
    "incompatible_version", "provider_unavailable", "internal"]

theorem ErrorCode.ofStr_eq_unknown_iff (name : String) :
    ofStr name = .unknown name ↔ (unknown name).Canonical := by
  constructor
  · rintro h name' ⟨⟩ hmem
    simp only [List.mem_cons, List.not_mem_nil, or_false] at hmem
    rcases hmem with rfl | rfl | rfl | rfl | rfl | rfl | rfl | rfl | rfl | rfl | rfl | rfl
    all_goals cases h
  · intro h
    have hnot := h name rfl
    unfold ofStr
    split
    case h_13 => rfl
    all_goals exact absurd (by decide) hnot

/-- **Which codes come back as they were.** -/
theorem ErrorCode.known_eq_iff (code : ErrorCode) : code.known = code ↔ code.Canonical := by
  cases code with
  | unknown name => exact ofStr_eq_unknown_iff name
  | _ => exact iff_of_true rfl nofun

/-- The code is canonical, and details that are there are not `null`. -/
def AgentError.Canonical (e : AgentError) : Prop :=
  e.code.Canonical ∧ e.details ≠ some .null

theorem AgentError.known_eq_iff (e : AgentError) : e.known = e ↔ e.Canonical := by
  obtain ⟨code, message, details⟩ := e
  have hdetails : details.bind readOption = details ↔ details ≠ some .null := by
    rcases details with _ | _ | _ | _ | _ | _ | _
    all_goals simp [readOption]
  rw [known, mk.injEq, ErrorCode.known_eq_iff, hdetails]
  exact ⟨fun h => ⟨h.1, h.2.2⟩, fun h => ⟨h.1, rfl, h.2⟩⟩

/-- A success, or a failure with a canonical error. -/
def ResponseEnvelope.Canonical (r : ResponseEnvelope) : Prop :=
  ∀ error, r.payload = .failure error → error.Canonical

theorem ResponseEnvelope.known_eq_iff (r : ResponseEnvelope) : r.known = r ↔ r.Canonical := by
  obtain ⟨requestId, result | error⟩ := r
  · exact iff_of_true rfl nofun
  · simp [known, Canonical, AgentError.known_eq_iff]

/-- **Whatever is read as a response has exactly one of `result` and `error`.** -/
theorem ResponseEnvelope.one_of_fromValue {v : Value} {r : ResponseEnvelope}
    (h : fromValue v = .ok r) :
    (v.get? "result").isSome = !(v.get? "error").isSome := by
  cases v with
  | object fields =>
      obtain ⟨requestId, -, h⟩ := bind_eq_ok_iff.mp h
      split at h
      · next hresult herror => rw [hresult, herror]; rfl
      · next hresult herror => rw [hresult, herror]; rfl
      · cases h
      · cases h
  | _ => cases h

end RevBox
