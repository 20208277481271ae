import Maqistor.Lib.Bytes
import Maqistor.Protocol.Message

/-! The CBOR data items that serde makes of a frame, and their bytes as `serde_cbor::to_vec` writes
them: a struct is a map from its field names, an internally tagged variant has its tag first, a
`serde_bytes` field and a `Uuid` are byte strings. -/

namespace Maqistor

open Bytes

/-- A CBOR data item, of the kinds that frames and their schema use. -/
inductive Cbor where
  | unsigned (n : Nat)
  /-- The integer `-1 - n`. -/
  | negative (n : Nat)
  | bytes (payload : List UInt8)
  | text (string : String)
  | array (items : List Cbor)
  | map (entries : List (String × Cbor))

namespace Cbor

/-- The initial byte of an item with its argument, in the shortest form. -/
def head (major : Nat) (n : Nat) : List UInt8 :=
  if n < 24 then [UInt8.ofNat (major * 32 + n)]
  else if n < 256 then UInt8.ofNat (major * 32 + 24) :: beBytes 1 n
  else if n < 65536 then UInt8.ofNat (major * 32 + 25) :: beBytes 2 n
  else if n < 4294967296 then UInt8.ofNat (major * 32 + 26) :: beBytes 4 n
  else UInt8.ofNat (major * 32 + 27) :: beBytes 8 n

def textBytes (string : String) : List UInt8 :=
  head 3 string.utf8ByteSize ++ string.toUTF8.toList

mutual

/-- The bytes of an item. -/
def encode : Cbor → List UInt8
  | .unsigned n => head 0 n
  | .negative n => head 1 n
  | .bytes payload => head 2 payload.length ++ payload
  | .text string => textBytes string
  | .array items => head 4 items.length ++ encodeItems items
  | .map entries => head 5 entries.length ++ encodeEntries entries

def encodeItems : List Cbor → List UInt8
  | [] => []
  | item :: rest => encode item ++ encodeItems rest

def encodeEntries : List (String × Cbor) → List UInt8
  | [] => []
  | (key, value) :: rest => textBytes key ++ encode value ++ encodeEntries rest

end

def ofInt (n : Int) : Cbor :=
  if 0 ≤ n then .unsigned n.toNat else .negative (-1 - n).toNat

def ofUuid (id : Uuid) : Cbor := .bytes (beBytes 16 id.toNat)

def ofJobResult : JobResult → Cbor
  | .succeeded payload => .map [("status", .text "succeeded"), ("payload", .bytes payload)]
  | .failed message => .map [("status", .text "failed"), ("message", .text message)]

def ofMessage : WorkerMessage → Cbor
  | .register instanceId queueName runningJobs freeSlots =>
    .map [("type", .text "register"), ("instance_id", ofUuid instanceId),
      ("queue_name", .text queueName), ("running_jobs", .unsigned runningJobs.toNat),
      ("free_slots", .unsigned freeSlots.toNat)]
  | .jobDispatch jobId dispatchId executionCount payload =>
    .map [("type", .text "job_dispatch"), ("job_id", ofInt jobId),
      ("dispatch_id", .text dispatchId), ("execution_count", .unsigned executionCount.toNat),
      ("payload", .bytes payload)]
  | .jobResult jobId dispatchId result runningJobs freeSlots =>
    .map [("type", .text "job_result"), ("job_id", ofInt jobId),
      ("dispatch_id", .text dispatchId), ("result", ofJobResult result),
      ("running_jobs", .unsigned runningJobs.toNat), ("free_slots", .unsigned freeSlots.toNat)]
  | .drain => .map [("type", .text "drain")]
  | .draining => .map [("type", .text "draining")]
  | .heartbeat => .map [("type", .text "heartbeat")]
  | .registered queueName => .map [("type", .text "registered"), ("queue_name", .text queueName)]
  | .error code message =>
    .map [("type", .text "error"), ("code", .text code), ("message", .text message)]

def ofFrame (frame : WireFrame) : Cbor :=
  .map [("protocol_version", .unsigned frame.protocolVersion.toNat),
    ("payload", ofMessage frame.payload)]

/-- A map is at least as long as each value in it. -/
theorem length_encodeEntries_le {entries : List (String × Cbor)} {entry : String × Cbor}
    (h : entry ∈ entries) : (encode entry.2).length ≤ (encodeEntries entries).length := by
  induction entries with
  | nil => cases h
  | cons first rest ih =>
    obtain ⟨key, value⟩ := first
    rw [encodeEntries, List.length_append, List.length_append]
    rcases List.mem_cons.mp h with rfl | hrest
    · dsimp only
      omega
    · have := ih hrest
      omega

theorem length_encode_map_le {entries : List (String × Cbor)} (entry : String × Cbor)
    (h : entry ∈ entries) : (encode entry.2).length ≤ (encode (.map entries)).length := by
  have := length_encodeEntries_le h
  rw [encode, List.length_append]
  omega

theorem length_bytes_le (payload : List UInt8) : payload.length ≤ (encode (.bytes payload)).length := by
  rw [encode, List.length_append]
  omega

theorem length_message_le (message : WorkerMessage) (version : UInt16) :
    (encode (ofMessage message)).length ≤ (encode (ofFrame ⟨version, message⟩)).length := by
  rw [ofFrame]
  apply length_encode_map_le ("payload", ofMessage message)
  simp

/-- A frame is at least as long as the payload of the job it dispatches. -/
theorem length_payload_le (jobId : Int) (dispatchId : String) (executionCount : UInt32)
    (payload : List UInt8) (version : UInt16) : payload.length ≤
      (encode (ofFrame ⟨version, .jobDispatch jobId dispatchId executionCount payload⟩)).length := by
  have hmessage : (encode (.bytes payload)).length ≤
      (encode (ofMessage (.jobDispatch jobId dispatchId executionCount payload))).length := by
    rw [ofMessage]
    apply length_encode_map_le ("payload", .bytes payload)
    simp
  exact (length_bytes_le payload).trans (hmessage.trans (length_message_le _ version))

/-- A frame is at least as long as the result that it reports. -/
theorem length_result_le (jobId : Int) (dispatchId : String) (payload : List UInt8)
    (runningJobs freeSlots : UInt32) (version : UInt16) : payload.length ≤
      (encode (ofFrame ⟨version, .jobResult jobId dispatchId (.succeeded payload) runningJobs
        freeSlots⟩)).length := by
  have hresult : (encode (.bytes payload)).length ≤
      (encode (ofJobResult (.succeeded payload))).length := by
    rw [ofJobResult]
    apply length_encode_map_le ("payload", .bytes payload)
    simp
  have hmessage : (encode (ofJobResult (.succeeded payload))).length ≤
      (encode (ofMessage
        (.jobResult jobId dispatchId (.succeeded payload) runningJobs freeSlots))).length := by
    rw [ofMessage]
    apply length_encode_map_le ("result", ofJobResult (.succeeded payload))
    simp
  exact (length_bytes_le payload).trans
    (hresult.trans (hmessage.trans (length_message_le _ version)))

end Cbor

end Maqistor
