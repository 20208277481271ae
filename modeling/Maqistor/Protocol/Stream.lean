import Maqistor.Protocol.Readers

/-! A stream of frames: what the readers make of the encodings of several frames, one after
another. -/

namespace Maqistor

open Bytes

variable {ε : Type}

/-- A reader called again and again, each time on the bytes that the last call left. -/
def readFrames (read : List UInt8 → Except ε (WireFrame × List UInt8)) :
    Nat → List UInt8 → Except ε (List WireFrame × List UInt8)
  | 0, stream => .ok ([], stream)
  | count + 1, stream => do
    let (frame, stream) ← read stream
    let (frames, stream) ← readFrames read count stream
    return (frame :: frames, stream)

/-- The codec reads back what it writes for a frame. -/
def Codec.ReadsBack (codec : Codec) (frame : WireFrame) : Prop :=
  ∀ body, codec.toVec frame = .ok body → codec.fromSlice body = .ok frame

variable {codec : Codec} {frame : WireFrame} {bytes : List UInt8}

/-- An encoding in front of other bytes is a frame for a reader. -/
theorem startsWithFrame_of_encodes (hback : codec.ReadsBack frame)
    (h : encodeFrame codec frame = .ok bytes) (rest : List UInt8) :
    StartsWithFrame codec (bytes ++ rest) frame rest := by
  obtain ⟨body, hbody, hlength, rfl, hversion⟩ := encodeFrame_ok h
  exact ⟨body, hlength, rfl, hback body hbody, hversion⟩

/-- A reader that returns every frame its stream starts with reads a list of encodings back, and
leaves what comes after them. -/
theorem readFrames_encoded {read : List UInt8 → Except ε (WireFrame × List UInt8)}
    (hread : ∀ stream frame rest, StartsWithFrame codec stream frame rest →
      read stream = .ok (frame, rest))
    {frames : List WireFrame} {encodings : List (List UInt8)}
    (hback : ∀ frame ∈ frames, codec.ReadsBack frame)
    (h : List.Forall₂ (fun frame bytes => encodeFrame codec frame = .ok bytes) frames encodings)
    (rest : List UInt8) :
    readFrames read frames.length (encodings.flatten ++ rest) = .ok (frames, rest) := by
  induction h with
  | nil => rfl
  | @cons frame bytes frames encodings hframe _ ih =>
    have hfirst := hread _ _ _ (startsWithFrame_of_encodes (hback frame List.mem_cons_self) hframe
      (encodings.flatten ++ rest))
    have hothers := ih fun other hother => hback other (List.mem_cons_of_mem _ hother)
    simp only [List.length_cons, List.flatten_cons, List.append_assoc, readFrames, hfirst, bind,
      Except.bind, hothers, pure, Except.pure]

/-- What `decode_frame` accepts declares its own length, within the limit, and version 1. -/
theorem decodeFrame_ok (h : decodeFrame codec bytes = .ok frame) :
    4 ≤ bytes.length ∧ beNat (bytes.take 4) = (bytes.drop 4).length ∧
      beNat (bytes.take 4) ≤ maxFrameBytes ∧ codec.fromSlice (bytes.drop 4) = .ok frame ∧
      frame.protocolVersion = protocolVersion := by
  unfold decodeFrame at h
  split at h
  · cases h
  · next hshort =>
    dsimp only at h
    split at h
    · cases h
    · next hsize =>
      split at h
      · cases h
      · next hlength =>
        split at h
        · cases h
        · next decoded hbody =>
          split at h
          · cases h
          · next hversion =>
            obtain rfl := Except.ok.inj h
            rw [not_not] at hlength hversion
            refine ⟨by omega, ?_, by omega, hbody, hversion⟩
            rw [List.length_drop]
            omega

/-- The length field tells how long a complete frame is. -/
theorem length_of_encodes (h : encodeFrame codec frame = .ok bytes) :
    4 ≤ bytes.length ∧ bytes.length = 4 + beNat (bytes.take 4) := by
  obtain ⟨body, -, hlength, rfl, -⟩ := encodeFrame_ok h
  have hfield : beNat ((beBytes 4 body.length ++ body).take 4) = body.length := by
    rw [List.take_left' (length_beBytes _ _), beNat_beBytes_of_lt]
    simp only [maxFrameBytes] at hlength
    omega
  rw [hfield, List.length_append, length_beBytes]
  omega

/-- Frames that `encode_frame` accepts are read back from the concatenation of their encodings by
both asynchronous readers, in order and down to the last byte; what `decode_frame` accepts has the
length that it declares, within the limit, and version 1; and no encoding starts with another
one. -/
theorem stream_round_trip (codec : Codec) :
    (∀ frames encodings, (∀ frame ∈ frames, codec.ReadsBack frame) →
      frames.mapM (encodeFrame codec) = .ok encodings →
      readFrames (Dispatcher.readFrame codec) frames.length encodings.flatten = .ok (frames, []) ∧
      readFrames (Sdk.readAsyncFrame codec) frames.length encodings.flatten = .ok (frames, [])) ∧
    (∀ bytes frame, decodeFrame codec bytes = .ok frame →
      4 ≤ bytes.length ∧ beNat (bytes.take 4) = (bytes.drop 4).length ∧
        (bytes.drop 4).length ≤ maxFrameBytes ∧ frame.protocolVersion = protocolVersion) ∧
    ∀ frame other bytes bytes', encodeFrame codec frame = .ok bytes →
      encodeFrame codec other = .ok bytes' → bytes <+: bytes' → bytes = bytes' := by
  refine ⟨fun frames encodings hback h => ?_, fun bytes frame h => ?_, ?_⟩
  · have hitems := Outcome.mapM_ok h
    have hdispatcher := readFrames_encoded (fun _ _ _ => Dispatcher.readFrame_ok_iff.mpr) hback
      hitems []
    have hsdk := readFrames_encoded (fun _ _ _ => Sdk.readAsyncFrame_ok_iff.mpr) hback hitems []
    rw [List.append_nil] at hdispatcher hsdk
    exact ⟨hdispatcher, hsdk⟩
  · obtain ⟨hshort, hlength, hsize, -, hversion⟩ := decodeFrame_ok h
    exact ⟨hshort, hlength, hlength ▸ hsize, hversion⟩
  · rintro frame other bytes bytes' h h' ⟨rest, rfl⟩
    obtain ⟨hshort, hlength⟩ := length_of_encodes h
    obtain ⟨-, hlength'⟩ := length_of_encodes h'
    -- both have the same length field
    rw [List.take_append_of_le_length hshort, ← hlength, List.length_append] at hlength'
    have hnil : rest = [] := List.eq_nil_of_length_eq_zero (by omega)
    rw [hnil, List.append_nil]

/-- The frames of a short session. -/
def sessionFrames : List WireFrame :=
  [.v1 (.register 7 "mail" 0 2), .v1 .heartbeat, .v1 (.jobResult 1 "a0" (.succeeded [7]) 0 2)]

def sessionEncodings : List (List UInt8) :=
  sessionFrames.map fun frame =>
    beBytes 4 (Cbor.ofFrame frame).encode.length ++ (Cbor.ofFrame frame).encode

theorem stream_round_trip_session :
    sessionFrames.mapM (encodeFrame (Codec.cbor sessionFrames)) = .ok sessionEncodings ∧
      readFrames (Dispatcher.readFrame (Codec.cbor sessionFrames)) sessionFrames.length
        sessionEncodings.flatten = .ok (sessionFrames, []) ∧
      readFrames (Sdk.readAsyncFrame (Codec.cbor sessionFrames)) sessionFrames.length
        sessionEncodings.flatten = .ok (sessionFrames, []) := by
  have hback : ∀ frame ∈ sessionFrames, (Codec.cbor sessionFrames).ReadsBack frame := by
    intro frame hframe body hbody
    obtain rfl := Except.ok.inj hbody
    revert frame
    decide +kernel
  have hencodings : sessionFrames.mapM (encodeFrame (Codec.cbor sessionFrames)) =
      .ok sessionEncodings := by decide +kernel
  exact ⟨hencodings, (stream_round_trip (Codec.cbor sessionFrames)).1 _ _ hback hencodings⟩

end Maqistor
