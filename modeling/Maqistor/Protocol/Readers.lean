import Maqistor.Lib.Outcome
import Maqistor.Protocol.Frame

/-! The three readers of a frame: of the protocol crate, of the dispatcher and of the worker SDK,
each on the bytes that a stream still has. -/

namespace Maqistor

open Bytes

/-- `read_exact`: the bytes read and those left; the text of the error differs between the
blocking reader and the asynchronous one. -/
def readExact (eof : String) (n : Nat) (stream : List UInt8) :
    Except IoError (List UInt8 × List UInt8) :=
  if stream.length < n then .error ⟨.unexpectedEof, eof⟩
  else .ok (stream.take n, stream.drop n)

variable (codec : Codec)

namespace Protocol

def readExact := Maqistor.readExact "failed to fill whole buffer"

/-- `read_frame` of the protocol crate, where `usize` has eight bytes. -/
def readFrame (stream : List UInt8) : Except ProtocolError (WireFrame × List UInt8) :=
  match readExact 4 stream with
  | .error error => .error (.io error)
  | .ok (field, stream) =>
    let len := beNat field
    if maxFrameBytes < len then .error .frameTooLarge
    else
      match readExact len stream with
      | .error error => .error (.io error)
      | .ok (body, stream) =>
        (decodeFrame codec (beBytes 8 len ++ body)).map fun frame => (frame, stream)

end Protocol

/-- What the dispatcher wraps in an `anyhow::Error`. -/
inductive Anyhow where
  | message (text : String)
  | io (error : IoError)
  | protocol (error : ProtocolError)
deriving DecidableEq, Repr

namespace Dispatcher

def readExact := Maqistor.readExact "early eof"

/-- `read_frame` of the dispatcher. -/
def readFrame (stream : List UInt8) : Except Anyhow (WireFrame × List UInt8) :=
  match readExact 4 stream with
  | .error error => .error (.io error)
  | .ok (len, stream) =>
    let size := beNat len
    if ¬size ≤ maxFrameBytes then .error (.message "oversized worker frame")
    else
      match readExact size stream with
      | .error error => .error (.io error)
      | .ok (body, stream) =>
        match decodeFrame codec (len ++ body) with
        | .error error => .error (.protocol error)
        | .ok frame => .ok (frame, stream)

end Dispatcher

namespace Sdk

def readExact := Maqistor.readExact "early eof"

/-- `read_async_frame` of the worker SDK. -/
def readAsyncFrame (stream : List UInt8) : Except ProtocolError (WireFrame × List UInt8) :=
  match readExact 4 stream with
  | .error error => .error (.io error)
  | .ok (length, stream) =>
    let size := beNat length
    if maxFrameBytes < size then .error .frameTooLarge
    else
      match readExact size stream with
      | .error error => .error (.io error)
      | .ok (body, stream) =>
        (decodeFrame codec (length ++ body)).map fun frame => (frame, stream)

end Sdk

/-- A stream that starts with a complete frame of version 1. -/
def StartsWithFrame (stream : List UInt8) (frame : WireFrame) (rest : List UInt8) : Prop :=
  ∃ body, body.length ≤ maxFrameBytes ∧ stream = beBytes 4 body.length ++ body ++ rest ∧
    codec.fromSlice body = .ok frame ∧ frame.protocolVersion = protocolVersion

/-- All three readers return the same frame and leave the same bytes, or all fail. -/
def ReadersAgree (stream : List UInt8) : Prop :=
  (∃ frame rest, Protocol.readFrame codec stream = .ok (frame, rest) ∧
    Dispatcher.readFrame codec stream = .ok (frame, rest) ∧
    Sdk.readAsyncFrame codec stream = .ok (frame, rest)) ∨
  (∃ error, Protocol.readFrame codec stream = .error error) ∧
    (∃ error, Dispatcher.readFrame codec stream = .error error) ∧
    ∃ error, Sdk.readAsyncFrame codec stream = .error error

variable {codec} {stream rest : List UInt8} {frame : WireFrame}

theorem readExact_eq_ok {eof : String} {n : Nat} {first : List UInt8} :
    readExact eof n stream = .ok (first, rest) ↔ stream = first ++ rest ∧ first.length = n := by
  unfold readExact
  constructor
  · intro h
    split at h
    · cases h
    · next hlength =>
      obtain ⟨rfl, rfl⟩ := Prod.mk.inj (Except.ok.inj h)
      exact ⟨(List.take_append_drop n stream).symm, by rw [List.length_take]; omega⟩
  · rintro ⟨rfl, rfl⟩
    have hlong : ¬(first ++ rest).length < first.length := by simp
    rw [if_neg hlong, List.take_left, List.drop_left]

/-- A length field and a body of that length, as every reader cuts them off. -/
theorem cut_ok {eof : String} {field body after : List UInt8}
    (hfield : readExact eof 4 stream = .ok (field, after)) (hsize : beNat field ≤ maxFrameBytes)
    (hbody : readExact eof (beNat field) after = .ok (body, rest)) :
    body.length ≤ maxFrameBytes ∧ stream = beBytes 4 body.length ++ body ++ rest ∧
      field = beBytes 4 body.length ∧ beNat field = body.length := by
  obtain ⟨rfl, hfour⟩ := readExact_eq_ok.mp hfield
  obtain ⟨rfl, hlength⟩ := readExact_eq_ok.mp hbody
  have hbytes : field = beBytes 4 body.length := by rw [hlength, ← hfour, beBytes_beNat]
  refine ⟨by omega, ?_, hbytes, hlength.symm⟩
  rw [← hbytes, List.append_assoc]

theorem cut_append (eof : String) (rest : List UInt8) {body : List UInt8}
    (hlength : body.length ≤ maxFrameBytes) :
    readExact eof 4 (beBytes 4 body.length ++ body ++ rest) =
        .ok (beBytes 4 body.length, body ++ rest) ∧
      beNat (beBytes 4 body.length) = body.length ∧
      readExact eof body.length (body ++ rest) = .ok (body, rest) := by
  refine ⟨readExact_eq_ok.mpr ⟨List.append_assoc .., length_beBytes _ _⟩, beNat_beBytes_of_lt ?_,
    readExact_eq_ok.mpr ⟨rfl, rfl⟩⟩
  simp only [maxFrameBytes] at hlength
  omega

theorem Sdk.readAsyncFrame_ok_iff : Sdk.readAsyncFrame codec stream = .ok (frame, rest) ↔
    StartsWithFrame codec stream frame rest := by
  constructor
  · intro h
    unfold readAsyncFrame at h
    split at h
    · cases h
    · next length after hfield =>
      dsimp only at h
      split at h
      · cases h
      · next hsize =>
        split at h
        · cases h
        · next body after' hbody =>
          obtain ⟨hlength, hstream, rfl, -⟩ := cut_ok hfield (Nat.le_of_not_lt hsize) hbody
          cases hdecode : decodeFrame codec (beBytes 4 body.length ++ body) with
          | error error => simp [hdecode, Except.map] at h
          | ok decoded =>
            simp only [hdecode, Except.map, Except.ok.injEq, Prod.mk.injEq] at h
            obtain ⟨rfl, rfl⟩ := h
            exact ⟨body, hlength, hstream, (decodeFrame_length hlength).mp hdecode⟩
  · rintro ⟨body, hlength, rfl, hframe⟩
    obtain ⟨hfield, hsize, hbody⟩ := cut_append "early eof" rest hlength
    simp only [readAsyncFrame, readExact, hfield, hsize, if_neg (Nat.not_lt.mpr hlength), hbody,
      (decodeFrame_length hlength).mpr hframe, Except.map]

theorem Dispatcher.readFrame_ok_iff : Dispatcher.readFrame codec stream = .ok (frame, rest) ↔
    StartsWithFrame codec stream frame rest := by
  constructor
  · intro h
    unfold readFrame at h
    split at h
    · cases h
    · next len after hfield =>
      dsimp only at h
      split at h
      · cases h
      · next hsize =>
        split at h
        · cases h
        · next body after' hbody =>
          obtain ⟨hlength, hstream, rfl, -⟩ := cut_ok hfield (not_not.mp hsize) hbody
          split at h
          · cases h
          · next decoded hdecode =>
            obtain ⟨rfl, rfl⟩ := Prod.mk.inj (Except.ok.inj h)
            exact ⟨body, hlength, hstream, (decodeFrame_length hlength).mp hdecode⟩
  · rintro ⟨body, hlength, rfl, hframe⟩
    obtain ⟨hfield, hsize, hbody⟩ := cut_append "early eof" rest hlength
    simp only [readFrame, readExact, hfield, hsize, not_not.mpr hlength, if_false, hbody,
      (decodeFrame_length hlength).mpr hframe]

/-- A buffer that starts with a length of eight bytes declares a body that is not there. -/
theorem decodeFrame_usize {body : List UInt8} (hlength : body.length ≤ maxFrameBytes) :
    decodeFrame codec (beBytes 8 body.length ++ body) =
      .error (.io ⟨.invalidData, "frame length mismatch"⟩) := by
  have hhigh : body.length / 256 ^ 4 = 0 := by
    simp only [maxFrameBytes] at hlength
    omega
  have hbytes : beBytes 8 body.length ++ body =
      beBytes 4 0 ++ (beBytes 4 body.length ++ body) := by
    rw [beBytes_add 4 4, hhigh, List.append_assoc]
  have hlen : beNat ((beBytes 8 body.length ++ body).take 4) = 0 := by
    rw [hbytes, List.take_left' (length_beBytes _ _), beNat_beBytes]
    rfl
  have hshort : ¬(beBytes 8 body.length ++ body).length < 4 := by
    rw [List.length_append, length_beBytes]
    omega
  have hmismatch : (beBytes 8 body.length ++ body).length ≠ 0 + 4 := by
    rw [List.length_append, length_beBytes]
    omega
  simp only [decodeFrame, if_neg hshort, hlen, if_neg (Nat.not_lt_zero maxFrameBytes),
    if_pos hmismatch]

/-- The protocol crate's reader fails on every stream. -/
theorem Protocol.readFrame_error (codec : Codec) (stream : List UInt8) :
    ∃ error, Protocol.readFrame codec stream = .error error := by
  unfold readFrame
  split
  · exact ⟨_, rfl⟩
  · next len after hfield =>
    dsimp only
    split
    · exact ⟨_, rfl⟩
    · next hsize =>
      split
      · exact ⟨_, rfl⟩
      · next body after' hbody =>
        obtain ⟨hlength, -, -, hlen⟩ := cut_ok hfield (Nat.le_of_not_lt hsize) hbody
        rw [hlen, decodeFrame_usize hlength]
        exact ⟨_, rfl⟩

/-- The readers agree exactly on the streams that do not start with a frame: the protocol crate's
reader never returns one. -/
theorem readers_agree_iff (codec : Codec) (stream : List UInt8) :
    (ReadersAgree codec stream ↔ ¬∃ frame rest, StartsWithFrame codec stream frame rest) ∧
      ∀ frame rest, Protocol.readFrame codec stream ≠ .ok (frame, rest) := by
  obtain ⟨error, herror⟩ := Protocol.readFrame_error codec stream
  refine ⟨⟨?_, fun hnone => Or.inr ⟨⟨error, herror⟩, ?_, ?_⟩⟩, fun frame rest => by simp [herror]⟩
  · rintro (⟨frame, rest, hframe, -⟩ | ⟨-, ⟨error', herror'⟩, -⟩)
    · simp [herror] at hframe
    · rintro ⟨frame, rest, hstarts⟩
      simp [Dispatcher.readFrame_ok_iff.mpr hstarts] at herror'
  · rcases hread : Dispatcher.readFrame codec stream with error' | ⟨frame, rest⟩
    · exact ⟨error', rfl⟩
    · exact absurd ⟨frame, rest, Dispatcher.readFrame_ok_iff.mp hread⟩ hnone
  · rcases hread : Sdk.readAsyncFrame codec stream with error' | ⟨frame, rest⟩
    · exact ⟨error', rfl⟩
    · exact absurd ⟨frame, rest, Sdk.readAsyncFrame_ok_iff.mp hread⟩ hnone

/-- What `write_frame` writes for a heartbeat. -/
def heartbeatBytes : List UInt8 := beBytes 4 43 ++ (Cbor.ofFrame (.v1 .heartbeat)).encode

theorem readers_disagree_heartbeat :
    encodeFrame (Codec.cbor [.v1 .heartbeat]) (.v1 .heartbeat) = .ok heartbeatBytes ∧
      Dispatcher.readFrame (Codec.cbor [.v1 .heartbeat]) heartbeatBytes =
        .ok (.v1 .heartbeat, []) ∧
      Protocol.readFrame (Codec.cbor [.v1 .heartbeat]) heartbeatBytes =
        .error (.io ⟨.invalidData, "frame length mismatch"⟩) ∧
      ¬ReadersAgree (Codec.cbor [.v1 .heartbeat]) heartbeatBytes := by
  have hdispatcher : Dispatcher.readFrame (Codec.cbor [.v1 .heartbeat]) heartbeatBytes =
      .ok (.v1 .heartbeat, []) := by decide +kernel
  have hprotocol : Protocol.readFrame (Codec.cbor [.v1 .heartbeat]) heartbeatBytes =
      .error (.io ⟨.invalidData, "frame length mismatch"⟩) := by decide +kernel
  refine ⟨by decide +kernel, hdispatcher, hprotocol, ?_⟩
  rintro (⟨frame, rest, hframe, -⟩ | ⟨-, ⟨error, herror⟩, -⟩)
  · simp [hprotocol] at hframe
  · simp [hdispatcher] at herror

end Maqistor
