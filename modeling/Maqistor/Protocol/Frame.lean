import Maqistor.Protocol.Cbor

/-! Frames on the wire: a length of four bytes and a CBOR body. What serde makes of a body is taken
as a parameter. -/

namespace Maqistor

open Bytes

/-- `serde_cbor::to_vec` and `serde_cbor::from_slice` on frames, with the text of an error. -/
structure Codec where
  toVec : WireFrame → Except String (List UInt8)
  fromSlice : List UInt8 → Except String WireFrame

/-- The codec that writes what serde_cbor writes, with the frames that a body spells given by a
table. -/
def Codec.cbor (frames : List WireFrame) : Codec where
  toVec frame := .ok (Cbor.ofFrame frame).encode
  fromSlice body :=
    match frames.find? fun frame => (Cbor.ofFrame frame).encode = body with
    | some frame => .ok frame
    | none => .error "invalid CBOR"

variable (codec : Codec)

def encodeFrame (frame : WireFrame) : Except ProtocolError (List UInt8) :=
  if frame.protocolVersion ≠ protocolVersion then
    .error (.unsupportedVersion frame.protocolVersion)
  else
    match codec.toVec frame with
    | .error message => .error (.malformed message)
    | .ok body =>
      if maxFrameBytes < body.length then .error .frameTooLarge
      else .ok (beBytes 4 body.length ++ body)

def decodeFrame (bytes : List UInt8) : Except ProtocolError WireFrame :=
  if bytes.length < 4 then .error (.io ⟨.unexpectedEof, "missing frame length"⟩)
  else
    let len := beNat (bytes.take 4)
    if maxFrameBytes < len then .error .frameTooLarge
    else if bytes.length ≠ len + 4 then .error (.io ⟨.invalidData, "frame length mismatch"⟩)
    else
      match codec.fromSlice (bytes.drop 4) with
      | .error message => .error (.malformed message)
      | .ok frame =>
        if frame.protocolVersion ≠ protocolVersion then
          .error (.unsupportedVersion frame.protocolVersion)
        else .ok frame

/-- `encode_frame` accepts the message. -/
def Encodes (message : WorkerMessage) : Prop := (encodeFrame codec (.v1 message)).isOk = true

instance (message : WorkerMessage) : Decidable (Encodes codec message) :=
  inferInstanceAs (Decidable (_ = _))

variable {codec}

theorem encodeFrame_ok {frame : WireFrame} {bytes : List UInt8}
    (h : encodeFrame codec frame = .ok bytes) : ∃ body, codec.toVec frame = .ok body ∧
      body.length ≤ maxFrameBytes ∧ bytes = beBytes 4 body.length ++ body ∧
      frame.protocolVersion = protocolVersion := by
  unfold encodeFrame at h
  split at h
  · cases h
  · next hversion =>
    split at h
    · cases h
    · next body hbody =>
      split at h
      · cases h
      · next hlength =>
        exact ⟨body, hbody, by omega, (Except.ok.inj h).symm, not_not.mp hversion⟩

/-- A body over the limit is refused. -/
theorem not_encodes_cbor {frames : List WireFrame} {message : WorkerMessage}
    (h : maxFrameBytes < (Cbor.ofFrame (.v1 message)).encode.length) :
    ¬ Encodes (Codec.cbor frames) message := by
  have hversion : ¬((.v1 message : WireFrame).protocolVersion ≠ protocolVersion) :=
    fun hne => hne rfl
  rw [Encodes, encodeFrame, if_neg hversion]
  simp only [Codec.cbor, if_pos h]
  exact Bool.false_ne_true

/-- The frames that `decode_frame` makes of a length and a body that fits it. -/
theorem decodeFrame_length {body : List UInt8} (hlength : body.length ≤ maxFrameBytes)
    {frame : WireFrame} : decodeFrame codec (beBytes 4 body.length ++ body) = .ok frame ↔
      codec.fromSlice body = .ok frame ∧ frame.protocolVersion = protocolVersion := by
  have hlen : beNat ((beBytes 4 body.length ++ body).take 4) = body.length := by
    rw [List.take_left' (length_beBytes _ _), beNat_beBytes_of_lt]
    simp only [maxFrameBytes] at hlength
    omega
  have hdrop : (beBytes 4 body.length ++ body).drop 4 = body :=
    List.drop_left' (length_beBytes _ _)
  have hshort : ¬(beBytes 4 body.length ++ body).length < 4 := by simp
  have hfits : ¬(beBytes 4 body.length ++ body).length ≠ body.length + 4 := by
    simp [Nat.add_comm]
  simp only [decodeFrame, if_neg hshort, hlen, if_neg (Nat.not_lt.mpr hlength), if_neg hfits, hdrop]
  cases hbody : codec.fromSlice body with
  | error message => simp
  | ok other =>
    by_cases hversion : other.protocolVersion = protocolVersion
    · simp only [hversion, ne_eq, not_true_eq_false, ↓reduceIte, Except.ok.injEq]
      exact ⟨fun h => ⟨h, h ▸ hversion⟩, fun h => h.1⟩
    · simp only [ne_eq, hversion, not_false_eq_true, ↓reduceIte, reduceCtorEq, Except.ok.injEq,
        false_iff, not_and]
      rintro rfl
      exact hversion

end Maqistor
