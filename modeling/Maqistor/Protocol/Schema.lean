import Maqistor.Protocol.Frame

/-! The published schema of the protocol, `worker-protocol-v1.cddl`, and the frames that match
it. -/

namespace Maqistor

/-- The types of CDDL that the schema uses. -/
inductive Cddl where
  /-- A literal number. -/
  | number (n : Nat)
  /-- A literal text. -/
  | literal (string : String)
  | tstr
  /-- `tstr .size n`. -/
  | tstrOfSize (n : Nat)
  | uint
  /-- `uint .le n`. -/
  | uintUpTo (n : Nat)
  | int
  /-- `[* item]`. -/
  | arrayOf (item : Cddl)
  /-- A map with exactly these members. -/
  | map (members : List (String × Cddl))
  /-- One type or another. -/
  | choice (alternatives : List Cddl)

namespace Cddl

/-- The value of a key. -/
def valueOf (key : String) (entries : List (String × Cbor)) : Option Cbor :=
  (entries.find? fun entry => entry.1 = key).map Prod.snd

mutual

/-- An item matches a type. -/
def accepts : Cddl → Cbor → Bool
  | .number n, .unsigned m => m == n
  | .literal string, .text other => other == string
  | .tstr, .text _ => true
  | .tstrOfSize n, .text string => string.utf8ByteSize == n
  | .uint, .unsigned _ => true
  | .uintUpTo n, .unsigned m => decide (m ≤ n)
  | .int, .unsigned _ => true
  | .int, .negative _ => true
  | .arrayOf item, .array items => items.all fun other => accepts item other
  | .map members, .map entries =>
    entries.length == members.length && acceptsMembers members entries
  | .choice alternatives, item => acceptsAny alternatives item
  | _, _ => false

/-- Every member is there, with a value of its type. -/
def acceptsMembers : List (String × Cddl) → List (String × Cbor) → Bool
  | [], _ => true
  | (key, type) :: rest, entries =>
    (match valueOf key entries with
      | none => false
      | some value => accepts type value) && acceptsMembers rest entries

def acceptsAny : List Cddl → Cbor → Bool
  | [], _ => false
  | type :: rest, item => accepts type item || acceptsAny rest item

end

/-! ### The rules of `worker-protocol-v1.cddl` -/

def protocolVersion : Cddl := .number 1

def uuid : Cddl := .tstrOfSize 36

def byteArray : Cddl := .arrayOf (.uintUpTo 255)

def register : Cddl :=
  .map [("type", .literal "register"), ("instance_id", uuid), ("queue_name", .tstr),
    ("running_jobs", .uint), ("free_slots", .uint)]

def registered : Cddl := .map [("type", .literal "registered"), ("queue_name", .tstr)]

def jobDispatch : Cddl :=
  .map [("type", .literal "job_dispatch"), ("job_id", .int), ("dispatch_id", .tstr),
    ("execution_count", .uint), ("payload", byteArray)]

def succeeded : Cddl := .map [("status", .literal "succeeded"), ("payload", byteArray)]

def failed : Cddl := .map [("status", .literal "failed"), ("message", .tstr)]

def jobResultPayload : Cddl := .choice [succeeded, failed]

def jobResult : Cddl :=
  .map [("type", .literal "job_result"), ("job_id", .int), ("dispatch_id", .tstr),
    ("result", jobResultPayload), ("running_jobs", .uint), ("free_slots", .uint)]

def drain : Cddl := .map [("type", .literal "drain")]

def draining : Cddl := .map [("type", .literal "draining")]

def heartbeat : Cddl := .map [("type", .literal "heartbeat")]

def error : Cddl := .map [("type", .literal "error"), ("code", .tstr), ("message", .tstr)]

def workerMessage : Cddl :=
  .choice [register, registered, jobDispatch, jobResult, drain, draining, heartbeat, error]

def workerFrame : Cddl :=
  .map [("protocol_version", protocolVersion), ("payload", workerMessage)]

end Cddl

/-- The message carries neither an instance id nor the bytes of a job. -/
def WorkerMessage.plain : WorkerMessage → Bool
  | .register _ _ _ _ | .jobDispatch _ _ _ _ | .jobResult _ _ (.succeeded _) _ _ => false
  | .jobResult _ _ (.failed _) _ _ | .drain | .draining | .heartbeat | .registered _
  | .error _ _ => true

/-- The frame of a message matches the schema's `worker-frame`. -/
def ConformsToSchema (message : WorkerMessage) : Prop :=
  Cddl.workerFrame.accepts (Cbor.ofFrame (.v1 message)) = true

instance (message : WorkerMessage) : Decidable (ConformsToSchema message) :=
  inferInstanceAs (Decidable (_ = _))

namespace Cddl

/-- Every 64-bit integer is an `int`. -/
@[simp] theorem accepts_ofInt (n : Int) : int.accepts (Cbor.ofInt n) = true := by
  unfold Cbor.ofInt
  split <;> rfl

/-- serde writes an instance id as bytes, not as the text that the schema has. -/
@[simp] theorem accepts_ofUuid (id : Uuid) : uuid.accepts (Cbor.ofUuid id) = false := rfl

/-- Bytes are not an array of numbers. -/
@[simp] theorem accepts_bytes (payload : List UInt8) : byteArray.accepts (.bytes payload) = false :=
  rfl

/-- A map that starts with another tag than the type's. -/
theorem accepts_tag_ne {key tag other : String} (h : other ≠ tag) (members : List (String × Cddl))
    (entries : List (String × Cbor)) :
    (map ((key, .literal tag) :: members)).accepts (.map ((key, .text other) :: entries)) = false := by
  simp [accepts, acceptsMembers, valueOf, h]

@[simp] theorem accepts_succeeded (payload : List UInt8) :
    jobResultPayload.accepts (Cbor.ofJobResult (.succeeded payload)) = false := by
  have hfailed : failed.accepts (Cbor.ofJobResult (.succeeded payload)) = false :=
    accepts_tag_ne (by decide) _ _
  have hsucceeded : succeeded.accepts (Cbor.ofJobResult (.succeeded payload)) = false := by
    simp [succeeded, Cbor.ofJobResult, accepts, acceptsMembers, valueOf]
  simp [jobResultPayload, accepts, acceptsAny, hsucceeded, hfailed]

@[simp] theorem accepts_failed (message : String) :
    jobResultPayload.accepts (Cbor.ofJobResult (.failed message)) = true := by
  have hfailed : failed.accepts (Cbor.ofJobResult (.failed message)) = true := by
    simp [failed, Cbor.ofJobResult, accepts, acceptsMembers, valueOf]
  simp [jobResultPayload, accepts, acceptsAny, hfailed]

/-- A frame of version 1 matches if its message does. -/
theorem accepts_frame (message : WorkerMessage) :
    workerFrame.accepts (Cbor.ofFrame (.v1 message)) =
      workerMessage.accepts (Cbor.ofMessage message) := by
  simp [workerFrame, Cbor.ofFrame, accepts, acceptsMembers, valueOf, protocolVersion,
    ProtocolFrame.v1, Maqistor.protocolVersion]

/-- Only the rule with the message's own tag can accept it, and it does unless the message has an
instance id or bytes. -/
theorem accepts_message (message : WorkerMessage) :
    workerMessage.accepts (Cbor.ofMessage message) = message.plain := by
  simp only [workerMessage, accepts, acceptsAny, register, registered, jobDispatch, jobResult, drain,
    draining, heartbeat, error]
  cases message with
  | jobResult jobId dispatchId result runningJobs freeSlots =>
    cases result <;>
      simp [Cbor.ofMessage, accepts_tag_ne, accepts, acceptsMembers, valueOf, WorkerMessage.plain]
  | _ => simp [Cbor.ofMessage, accepts_tag_ne, accepts, acceptsMembers, valueOf, WorkerMessage.plain]

end Cddl

/-- A frame matches the published schema if and only if its message carries no instance id and no
payload. -/
theorem conforms_to_schema_iff (message : WorkerMessage) :
    ConformsToSchema message ↔ message.plain = true := by
  rw [ConformsToSchema, Cddl.accepts_frame, Cddl.accepts_message]

/-- The registration of a worker with the instance id 7. -/
def registerSeven : WorkerMessage := .register 7 "mail" 0 2

/-- `encode_frame` writes the registration, and the schema does not allow what it writes. -/
theorem register_breaks_schema :
    encodeFrame (Codec.cbor []) (.v1 registerSeven) =
      .ok (Bytes.beBytes 4 113 ++ (Cbor.ofFrame (.v1 registerSeven)).encode) ∧
    ¬ConformsToSchema registerSeven := by
  refine ⟨by decide +kernel, ?_⟩
  decide

end Maqistor
