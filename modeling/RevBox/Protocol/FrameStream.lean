import RevBox.Protocol.Frame
import RevBox.Support.ByteStream

/-!
# Protocol — FrameStream

Frames on a stream: `read_frame` and `write_frame` of `frame.rs`, and the two `read_message` that
read frames on their own, in `server.rs` of the Agent and in `agent_transport.rs` of the Desktop.

* `framing`: what is written frame by frame is read frame by frame, and what the readers refuse.
-/

namespace RevBox.Frame

open ByteStream

/-- `FrameError` of reading: what encoding can answer with, or an error of the stream. -/
inductive ReadError where
  | frame (error : FrameError)
  | io (error : IoError)
  deriving DecidableEq

/-- `u32::from_be_bytes`. -/
def fromBeBytes : List UInt8 → Nat
  | [a, b, c, d] => a.toNat * 2 ^ 24 + b.toNat * 2 ^ 16 + c.toNat * 2 ^ 8 + d.toNat
  | _ => 0

/-- The rest of `read_frame`, behind its length prefix. -/
def readPayload (length : Nat) (reader : Reader) : Except ReadError (List UInt8) × Reader :=
  match validateSize length with
  | .error e => (.error (.frame e), reader)
  | .ok () =>
      match readExact length reader with
      | (.error e, reader) => (.error (.io e), reader)
      | (.ok payload, reader) => (.ok payload, reader)

/-- `read_frame`. -/
def readFrame (reader : Reader) : Except ReadError (List UInt8) × Reader :=
  match readExact 4 reader with
  | (.error e, reader) => (.error (.io e), reader)
  | (.ok lengthPrefix, reader) => readPayload (fromBeBytes lengthPrefix) reader

/-- `write_frame`, to a writer that takes all bytes: the bytes written so far, and its answer. -/
def writeFrame (written payload : List UInt8) : Except FrameError Unit × List UInt8 :=
  match validateSize payload.length with
  | .error e => (.error e, written)
  | .ok () =>
      if payload.length < 2 ^ 32 then (.ok (), written ++ toBeBytes payload.length ++ payload)
      else (.error (.tooLarge payload.length maxFrameSize), written)

/-- `read_message` of the Agent, which decodes payloads with `fromSlice`. -/
def agentReadMessage {T : Type} (fromSlice : List UInt8 → Except String T) (reader : Reader) :
    Except IoError T × Reader :=
  match readExact 4 reader with
  | (.error e, reader) => (.error e, reader)
  | (.ok lengthPrefix, reader) =>
      let length := fromBeBytes lengthPrefix
      if length > maxFrameSize then
        (.error ⟨.invalidData, "frame exceeds protocol limit"⟩, reader)
      else
        match readExact length reader with
        | (.error e, reader) => (.error e, reader)
        | (.ok payload, reader) =>
            (match fromSlice payload with
              | .ok value => .ok value
              | .error e => .error ⟨.invalidData, e⟩, reader)

/-- `AgentTransportError`. -/
inductive AgentTransportError where
  | closed
  | io (text : String)
  | frameTooLarge (size max : Nat)
  | invalidFrame (text : String)
  deriving DecidableEq

/-- `map_io_error`. -/
def mapIoError (error : IoError) : AgentTransportError :=
  if error.kind = .unexpectedEof ∨ error.kind = .brokenPipe ∨ error.kind = .connectionReset then
    .closed
  else .io error.text

/-- `read_message` of the Desktop. -/
def desktopReadMessage {T : Type} (fromSlice : List UInt8 → Except String T) (reader : Reader) :
    Except AgentTransportError T × Reader :=
  match readExact 4 reader with
  | (.error e, reader) => (.error (mapIoError e), reader)
  | (.ok lengthPrefix, reader) =>
      let length := fromBeBytes lengthPrefix
      if length > maxFrameSize then (.error (.frameTooLarge length maxFrameSize), reader)
      else
        match readExact length reader with
        | (.error e, reader) => (.error (mapIoError e), reader)
        | (.ok payload, reader) =>
            (match fromSlice payload with
              | .ok value => .ok value
              | .error e => .error (.invalidFrame e), reader)

/-! ### One frame -/

theorem bytes_of_nat {n : Nat} (h : n < 4294967296) : n / 16777216 % 256 * 16777216 +
    n / 65536 % 256 * 65536 + n / 256 % 256 * 256 + n % 256 = n := by
  omega

theorem fromBeBytes_toBeBytes {n : Nat} (h : n < 2 ^ 32) : fromBeBytes (toBeBytes n) = n := by
  have hbytes : fromBeBytes (toBeBytes n) = (UInt8.ofNat (n / 2 ^ 24)).toNat * 2 ^ 24 +
      (UInt8.ofNat (n / 2 ^ 16)).toNat * 2 ^ 16 + (UInt8.ofNat (n / 2 ^ 8)).toNat * 2 ^ 8 +
      (UInt8.ofNat n).toNat := rfl
  rw [hbytes]
  simp only [UInt8.toNat_ofNat', Nat.reducePow]
  exact bytes_of_nat h

theorem encodeFrame_eq_ok {payload frame : List UInt8} : encodeFrame payload = .ok frame ↔
    payload.length ≤ maxFrameSize ∧ frame = toBeBytes payload.length ++ payload := by
  have hbound : maxFrameSize < 2 ^ 32 := by decide
  unfold encodeFrame validateSize
  by_cases h : payload.length ≤ maxFrameSize
  · have hlt : payload.length < 2 ^ 32 := Nat.lt_of_le_of_lt h hbound
    rw [if_neg (Nat.not_lt.mpr h)]
    simp only [bind, Except.bind, if_pos hlt, Except.ok.injEq, h, true_and]
    exact eq_comm
  · rw [if_pos (Nat.not_le.mp h)]
    simp [bind, Except.bind, h]

theorem validateSize_of_le {size : Nat} (h : size ≤ maxFrameSize) : validateSize size = .ok () :=
  if_neg (Nat.not_lt.mpr h)

theorem readFrame_eq {reader reader' : Reader} {lengthPrefix : List UInt8}
    (h : readExact 4 reader = (.ok lengthPrefix, reader')) :
    readFrame reader = readPayload (fromBeBytes lengthPrefix) reader' := by
  rw [readFrame, h]

theorem readPayload_eq {length : Nat} (h : length ≤ maxFrameSize) (reader : Reader) :
    readPayload length reader = ((readExact length reader).1.mapError .io,
      (readExact length reader).2) := by
  rw [readPayload, validateSize_of_le h]
  rcases readExact length reader with ⟨e | payload, reader'⟩
  · rfl
  · rfl

/-- **A frame is read back**, whatever follows it. -/
theorem readFrame_frame {reader : Reader} {payload frame rest : List UInt8}
    (hframe : encodeFrame payload = .ok frame) (h : reader.bytes = frame ++ rest) :
    ∃ reader', readFrame reader = (.ok payload, reader') ∧ reader'.bytes = rest ∧
      reader'.fault = reader.fault := by
  obtain ⟨hle, rfl⟩ := encodeFrame_eq_ok.mp hframe
  have hbound : maxFrameSize < 2 ^ 32 := by decide
  rw [List.append_assoc] at h
  obtain ⟨r₁, hprefix, hbytes, hfault⟩ := readExact_ok h
  obtain ⟨r₂, hpayload, hrest, hfault'⟩ := readExact_ok hbytes
  refine ⟨r₂, ?_, hrest, hfault'.trans hfault⟩
  have hlen : (toBeBytes payload.length).length = 4 := rfl
  rw [hlen] at hprefix
  have hlength := fromBeBytes_toBeBytes (Nat.lt_of_le_of_lt hle hbound)
  rw [readFrame_eq hprefix, hlength, readPayload_eq hle, hpayload]
  rfl

/-- A frame that is cut off is an error of the stream. -/
theorem readFrame_cut {reader : Reader} {payload frame : List UInt8}
    (hframe : encodeFrame payload = .ok frame) (h : reader.bytes <+: frame)
    (hne : reader.bytes ≠ frame) :
    ∃ reader', readFrame reader = (.error (.io reader.atEnd), reader') := by
  obtain ⟨hle, rfl⟩ := encodeFrame_eq_ok.mp hframe
  have hbound : maxFrameSize < 2 ^ 32 := by decide
  have hlen : (toBeBytes payload.length).length = 4 := rfl
  obtain ⟨missing, hmissing⟩ := h
  by_cases hshort : reader.bytes.length < 4
  · obtain ⟨r₁, hprefix, -, -⟩ := readExact_short hshort
    exact ⟨r₁, by simp only [readFrame, hprefix]⟩
  · -- the length is whole: the payload is cut off
    have htake : reader.bytes.take 4 = toBeBytes payload.length := by
      rw [← List.take_append_of_le_length (Nat.not_lt.mp hshort), hmissing, ← hlen, List.take_left]
    have hsplit : reader.bytes = toBeBytes payload.length ++ reader.bytes.drop 4 := by
      rw [← htake, List.take_append_drop]
    have hcut : (reader.bytes.drop 4).length < payload.length := by
      have hlength := congrArg List.length hmissing
      rw [List.length_append, List.length_append, hlen] at hlength
      have hpos : 0 < missing.length := by
        refine List.length_pos_iff.mpr fun hnil => hne ?_
        rw [← hmissing, hnil, List.append_nil]
      rw [List.length_drop]
      omega
    obtain ⟨r₁, hprefix, hbytes, hfault⟩ := readExact_ok hsplit
    rw [hlen] at hprefix
    obtain ⟨r₂, hpayload, -, -⟩ := readExact_short (hbytes ▸ hcut)
    have hend : r₁.atEnd = reader.atEnd := congrArg (Option.getD · earlyEof) hfault
    have hlength := fromBeBytes_toBeBytes (Nat.lt_of_le_of_lt hle hbound)
    refine ⟨r₂, ?_⟩
    rw [readFrame_eq hprefix, hlength, readPayload_eq hle, hpayload, hend]
    rfl

/-- A length that is too large is refused once it is read. -/
theorem readFrame_tooLarge {reader : Reader} {lengthPrefix rest : List UInt8}
    (hlen : lengthPrefix.length = 4) (hlarge : maxFrameSize < fromBeBytes lengthPrefix)
    (h : reader.bytes = lengthPrefix ++ rest) :
    ∃ reader', readFrame reader = (.error (.frame (.tooLarge (fromBeBytes lengthPrefix) maxFrameSize)),
      reader') ∧ reader'.bytes = rest := by
  obtain ⟨r₁, hprefix, hbytes, -⟩ := readExact_ok h
  rw [hlen] at hprefix
  have hrefused : validateSize (fromBeBytes lengthPrefix) =
      .error (.tooLarge (fromBeBytes lengthPrefix) maxFrameSize) := if_pos hlarge
  refine ⟨r₁, ?_, hbytes⟩
  rw [readFrame_eq hprefix, readPayload, hrefused]

/-! ### Many frames -/

/-- Frames read one after the other, up to the first error. -/
def readFrames : Nat → Reader → Except ReadError (List (List UInt8)) × Reader
  | 0, reader => (.ok [], reader)
  | n + 1, reader =>
      match readFrame reader with
      | (.error e, reader) => (.error e, reader)
      | (.ok payload, reader) =>
          match readFrames n reader with
          | (.error e, reader) => (.error e, reader)
          | (.ok payloads, reader) => (.ok (payload :: payloads), reader)

/-- **Frames are read back in order**, and the reader stands where they end. -/
theorem readFrames_frames {payloads frames : List (List UInt8)}
    (h : List.Forall₂ (fun payload frame => encodeFrame payload = .ok frame) payloads frames)
    (rest : List UInt8) : ∀ reader : Reader, reader.bytes = frames.flatten ++ rest →
      ∃ reader', readFrames payloads.length reader = (.ok payloads, reader') ∧
        reader'.bytes = rest := by
  induction h with
  | nil => exact fun reader hbytes => ⟨reader, rfl, hbytes⟩
  | cons hframe _ ih =>
      intro reader hbytes
      rw [List.flatten_cons, List.append_assoc] at hbytes
      obtain ⟨r₁, hread, hbytes₁, -⟩ := readFrame_frame hframe hbytes
      obtain ⟨r₂, hreads, hbytes₂⟩ := ih r₁ hbytes₁
      exact ⟨r₂, by simp only [List.length_cons, readFrames, hread, hreads], hbytes₂⟩

theorem encodeFrames {payloads : List (List UInt8)}
    (h : ∀ payload ∈ payloads, payload.length ≤ maxFrameSize) : ∃ frames,
      payloads.mapM encodeFrame = .ok frames ∧
        List.Forall₂ (fun payload frame => encodeFrame payload = .ok frame) payloads frames := by
  induction payloads with
  | nil => exact ⟨[], rfl, .nil⟩
  | cons payload payloads ih =>
      obtain ⟨frames, hframes, hall⟩ := ih fun p hp => h p (List.mem_cons_of_mem _ hp)
      have hframe := encodeFrame_eq_ok.mpr ⟨h payload List.mem_cons_self, rfl⟩
      refine ⟨_ :: frames, ?_, .cons hframe hall⟩
      rw [List.mapM_cons, hframe, hframes]
      rfl

/-- The writer writes what the encoder returns, and nothing where the encoder refuses. -/
theorem writeFrame_eq (written payload : List UInt8) : writeFrame written payload =
    match encodeFrame payload with
    | .ok frame => (.ok (), written ++ frame)
    | .error e => (.error e, written) := by
  unfold writeFrame encodeFrame
  cases validateSize payload.length with
  | error e => rfl
  | ok _ =>
      simp only [bind, Except.bind]
      split
      · simp only [List.append_assoc]
      · rfl

/-! ### The readers of messages -/

/-- What a reader of messages makes of what is read of a frame. -/
def messageOf {T E : Type} (fromSlice : List UInt8 → Except String T) (ofIo : IoError → E)
    (tooLarge : Nat → E) (invalid : String → E) : Except ReadError (List UInt8) → Except E T
  | .error (.io e) => .error (ofIo e)
  | .error (.frame (.tooLarge size _)) => .error (tooLarge size)
  | .ok payload =>
      match fromSlice payload with
      | .ok value => .ok value
      | .error e => .error (invalid e)

variable {T : Type} (fromSlice : List UInt8 → Except String T)

theorem agentReadMessage_eq (reader : Reader) : agentReadMessage fromSlice reader =
    (messageOf fromSlice id (fun _ => ⟨.invalidData, "frame exceeds protocol limit"⟩)
      (fun e => ⟨.invalidData, e⟩) (readFrame reader).1, (readFrame reader).2) := by
  unfold agentReadMessage readFrame readPayload validateSize
  rcases readExact 4 reader with ⟨e | lengthPrefix, r₁⟩
  · rfl
  · dsimp only
    split
    · rfl
    · dsimp only
      rcases readExact (fromBeBytes lengthPrefix) r₁ with ⟨e | payload, r₂⟩
      · rfl
      · rfl

theorem desktopReadMessage_eq (reader : Reader) : desktopReadMessage fromSlice reader =
    (messageOf fromSlice mapIoError (fun size => .frameTooLarge size maxFrameSize) .invalidFrame
      (readFrame reader).1, (readFrame reader).2) := by
  unfold desktopReadMessage readFrame readPayload validateSize
  rcases readExact 4 reader with ⟨e | lengthPrefix, r₁⟩
  · rfl
  · dsimp only
    split
    · rfl
    · dsimp only
      rcases readExact (fromBeBytes lengthPrefix) r₁ with ⟨e | payload, r₂⟩
      · rfl
      · rfl

/-- The readers of messages take what `read_frame` takes and `fromSlice` decodes, and leave the
stream where `read_frame` leaves it. -/
structure SameFrames {T : Type} (fromSlice : List UInt8 → Except String T) (reader : Reader) :
    Prop where
  agent : ∀ value, (agentReadMessage fromSlice reader).1 = .ok value ↔
    ∃ payload, (readFrame reader).1 = .ok payload ∧ fromSlice payload = .ok value
  desktop : ∀ value, (desktopReadMessage fromSlice reader).1 = .ok value ↔
    ∃ payload, (readFrame reader).1 = .ok payload ∧ fromSlice payload = .ok value
  agentLeaves : (agentReadMessage fromSlice reader).2 = (readFrame reader).2
  desktopLeaves : (desktopReadMessage fromSlice reader).2 = (readFrame reader).2

theorem messageOf_eq_ok {E : Type} {ofIo : IoError → E} {tooLarge : Nat → E} {invalid : String → E}
    {read : Except ReadError (List UInt8)} {value : T} :
    messageOf fromSlice ofIo tooLarge invalid read = .ok value ↔
      ∃ payload, read = .ok payload ∧ fromSlice payload = .ok value := by
  rcases read with (⟨⟨size, max⟩⟩ | e) | payload
  · exact iff_of_false (fun h => by cases h) (by rintro ⟨_, h, _⟩; cases h)
  · exact iff_of_false (fun h => by cases h) (by rintro ⟨_, h, _⟩; cases h)
  · simp only [messageOf, Except.ok.injEq, exists_eq_left']
    split
    · rename_i v hv
      rw [hv, Except.ok.injEq, Except.ok.injEq]
    · rename_i e he
      rw [he]
      exact iff_of_false (fun h => by cases h) (fun h => by cases h)

theorem sameFrames (reader : Reader) : SameFrames fromSlice reader where
  agent value := by
    rw [agentReadMessage_eq]
    exact messageOf_eq_ok fromSlice
  desktop value := by
    rw [desktopReadMessage_eq]
    exact messageOf_eq_ok fromSlice
  agentLeaves := by rw [agentReadMessage_eq]
  desktopLeaves := by rw [desktopReadMessage_eq]

/-- **Frames are a prefix code on streams**: they are read back in order, the writer and the encoder
write the same, what is cut off is an error of the stream, a length that is too large is refused
once it is read, and the readers of messages read the same frames. -/
theorem framing :
    (∀ payloads : List (List UInt8), (∀ payload ∈ payloads, payload.length ≤ maxFrameSize) →
      ∃ frames, payloads.mapM encodeFrame = .ok frames ∧ ∀ (rest : List UInt8) (reader : Reader),
        reader.bytes = frames.flatten ++ rest → ∃ reader',
          readFrames payloads.length reader = (.ok payloads, reader') ∧ reader'.bytes = rest) ∧
    (∀ payload : List UInt8, payload.length ≤ maxFrameSize → ∃ frame,
      encodeFrame payload = .ok frame ∧
      (∀ written, writeFrame written payload = (.ok (), written ++ frame)) ∧
      ∀ reader : Reader, reader.bytes <+: frame → reader.bytes ≠ frame →
        (readFrame reader).1 = .error (.io reader.atEnd)) ∧
    (∀ (lengthPrefix rest : List UInt8) (reader : Reader), lengthPrefix.length = 4 →
      maxFrameSize < fromBeBytes lengthPrefix → reader.bytes = lengthPrefix ++ rest → ∃ reader',
        readFrame reader = (.error (.frame (.tooLarge (fromBeBytes lengthPrefix) maxFrameSize)),
          reader') ∧ reader'.bytes = rest) ∧
    ∀ (T : Type) (fromSlice : List UInt8 → Except String T) (reader : Reader),
      SameFrames fromSlice reader := by
  refine ⟨fun payloads hfit => ?_, fun payload hle => ?_, fun lengthPrefix rest reader hlen hlarge h => ?_,
    fun T fromSlice reader => sameFrames fromSlice reader⟩
  · obtain ⟨frames, hframes, hall⟩ := encodeFrames hfit
    exact ⟨frames, hframes, fun rest reader h => readFrames_frames hall rest reader h⟩
  · have hframe := encodeFrame_eq_ok.mpr ⟨hle, rfl⟩
    refine ⟨_, hframe, fun written => ?_, fun reader hcut hne => ?_⟩
    · rw [writeFrame_eq, hframe]
    · obtain ⟨reader', hread⟩ := readFrame_cut hframe hcut hne
      rw [hread]
  · exact readFrame_tooLarge hlen hlarge h

/-- Two frames, and a byte after them, in two pieces. -/
theorem two_frames_read : ∃ frames, [[1], [2, 3]].mapM encodeFrame = .ok frames ∧
    ∀ (rest : List UInt8) (reader : Reader), reader.bytes = frames.flatten ++ rest → ∃ reader',
      readFrames 2 reader = (.ok [[1], [2, 3]], reader') ∧ reader'.bytes = rest :=
  framing.1 [[1], [2, 3]] (by decide)

/-- A frame that holds no JSON is read, but its message is not. -/
theorem no_json_not_accepted : ∃ frame, encodeFrame [0x68, 0x69] = .ok frame ∧
    (readFrame ⟨[frame], none⟩).1 = .ok [0x68, 0x69] ∧
    (agentReadMessage (fun _ => (.error "expected value at line 1 column 1" : Except String Unit))
      ⟨[frame], none⟩).1 =
        .error ⟨.invalidData, "expected value at line 1 column 1"⟩ := by
  refine ⟨[0, 0, 0, 2, 0x68, 0x69], by decide, ?_, ?_⟩
  · decide
  · decide

end RevBox.Frame
