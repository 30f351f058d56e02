import RevBox.Protocol.Json

/-!
# Protocol — Frame

The encoder of `frame.rs`: a frame is the length of its JSON text as four bytes, big-endian, and
the text.  `encodeJson_ok_iff` says which responses can be sent at all.
-/

namespace RevBox.Frame

/-- The part of `FrameError` that encoding can answer with. -/
inductive FrameError where
  | tooLarge (size max : Nat)
  deriving DecidableEq, Repr

/-- `validate_size`. -/
def validateSize (size : Nat) : Except FrameError Unit :=
  if size > maxFrameSize then .error (.tooLarge size maxFrameSize) else .ok ()

/-- `u32::to_be_bytes`. -/
def toBeBytes (n : Nat) : List UInt8 :=
  [.ofNat (n / 2 ^ 24), .ofNat (n / 2 ^ 16), .ofNat (n / 2 ^ 8), .ofNat n]

/-- `encode_frame`. -/
def encodeFrame (payload : List UInt8) : Except FrameError (List UInt8) := do
  validateSize payload.length
  if payload.length < 2 ^ 32 then .ok (toBeBytes payload.length ++ payload)
  else .error (.tooLarge payload.length maxFrameSize)

/-- `encode_json` of a response. -/
def encodeJson (response : ResponseEnvelope) : Except FrameError (List UInt8) :=
  encodeFrame (Json.toVec response)

/-- The response's text is within `MAX_FRAME_SIZE`. -/
def Fits (response : ResponseEnvelope) : Prop := (Json.toVec response).length ≤ maxFrameSize

instance (response : ResponseEnvelope) : Decidable (Fits response) :=
  inferInstanceAs (Decidable (_ ≤ _))

/-- A response within the limit becomes a frame; any other is refused. -/
theorem encodeJson_eq (response : ResponseEnvelope) :
    encodeJson response = if Fits response then
      .ok (toBeBytes (Json.toVec response).length ++ Json.toVec response)
    else .error (.tooLarge (Json.toVec response).length maxFrameSize) := by
  unfold encodeJson encodeFrame validateSize
  by_cases h : Fits response
  · have hlt : (Json.toVec response).length < 2 ^ 32 := Nat.lt_of_le_of_lt h (by decide)
    rw [if_neg (Nat.not_lt.mpr h), if_pos h]
    exact if_pos hlt
  · rw [if_pos (Nat.not_le.mp h), if_neg h]
    rfl

theorem encodeJson_ok_iff {response : ResponseEnvelope} :
    (encodeJson response).isOk ↔ Fits response := by
  rw [encodeJson_eq]
  by_cases h : Fits response
  · simp [h, Except.isOk, Except.toBool]
  · simp [h, Except.isOk, Except.toBool]

end RevBox.Frame
