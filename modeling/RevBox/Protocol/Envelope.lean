import RevBox.Protocol.Value

/-!
# Protocol — Envelope

The request and response envelopes of the Desktop-Agent protocol, its error type and its two
constants.
-/

namespace RevBox

/-- `PROTOCOL_VERSION`. -/
def protocolVersion : Nat := 1

/-- `MAX_FRAME_SIZE`: the largest JSON payload of one length-prefixed frame, in bytes. -/
def maxFrameSize : Nat := 8 * 1024 * 1024

/-- `ErrorCode`. -/
inductive ErrorCode where
  | invalidRequest
  | unsupportedMethod
  | permissionDenied
  | notFound
  | preconditionFailed
  | busy
  | deadlineExceeded
  | cancelled
  | transportLost
  | incompatibleVersion
  | providerUnavailable
  | internal
  | unknown (code : String)
  deriving DecidableEq, Repr

/-- `ErrorCode::as_str`. -/
def ErrorCode.asStr : ErrorCode → String
  | .invalidRequest => "invalid_request"
  | .unsupportedMethod => "unsupported_method"
  | .permissionDenied => "permission_denied"
  | .notFound => "not_found"
  | .preconditionFailed => "precondition_failed"
  | .busy => "busy"
  | .deadlineExceeded => "deadline_exceeded"
  | .cancelled => "cancelled"
  | .transportLost => "transport_lost"
  | .incompatibleVersion => "incompatible_version"
  | .providerUnavailable => "provider_unavailable"
  | .internal => "internal"
  | .unknown code => code

/-- `AgentError`. -/
structure AgentError where
  code : ErrorCode
  message : String
  details : Option Value := none
  deriving Repr

/-- `AgentError::new`. -/
def AgentError.new (code : ErrorCode) (message : String) : AgentError := { code, message }

/-- `AgentError::with_details`. -/
def AgentError.withDetails (e : AgentError) (details : Value) : AgentError :=
  { e with details := some details }

/-- `json!({ "reason": reason })`, the details most refusals carry. -/
def reasonDetails (reason : String) : Value := .ofFields [("reason", .string reason)]

/-- `RequestEnvelope`. -/
structure RequestEnvelope where
  requestId : String
  method : String
  params : Value
  timeoutMs : Nat
  protocolVersion : Nat
  deriving Repr

/-- `ResponsePayload`. -/
inductive ResponsePayload where
  | success (result : Value)
  | failure (error : AgentError)
  deriving Repr

/-- `ResponseEnvelope`. -/
structure ResponseEnvelope where
  requestId : String
  payload : ResponsePayload
  deriving Repr

/-- `ResponseEnvelope::success`. -/
def ResponseEnvelope.success (requestId : String) (result : Value) : ResponseEnvelope :=
  { requestId, payload := .success result }

/-- `ResponseEnvelope::failure`. -/
def ResponseEnvelope.failure (requestId : String) (error : AgentError) : ResponseEnvelope :=
  { requestId, payload := .failure error }

end RevBox
