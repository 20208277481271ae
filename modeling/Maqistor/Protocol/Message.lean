import Mathlib.Data.Nat.Notation

/-! The messages of the worker protocol and the errors of its frames. -/

namespace Maqistor

abbrev Uuid := BitVec 128

/-- `PROTOCOL_VERSION`. -/
def protocolVersion : UInt16 := 1

/-- `MAX_FRAME_BYTES`. -/
def maxFrameBytes : Nat := 1024 * 1024

structure ProtocolFrame (T : Type) where
  protocolVersion : UInt16
  payload : T
deriving DecidableEq, Repr

def ProtocolFrame.v1 {T : Type} (payload : T) : ProtocolFrame T :=
  { protocolVersion := Maqistor.protocolVersion, payload := payload }

inductive JobResult where
  | succeeded (payload : List UInt8)
  | failed (message : String)
deriving DecidableEq, Repr

inductive WorkerMessage where
  | register (instanceId : Uuid) (queueName : String) (runningJobs freeSlots : UInt32)
  | jobDispatch (jobId : Int) (dispatchId : String) (executionCount : UInt32)
      (payload : List UInt8)
  | jobResult (jobId : Int) (dispatchId : String) (result : JobResult)
      (runningJobs freeSlots : UInt32)
  /-- Stop assigning new jobs to this worker while it completes accepted work. -/
  | drain
  /-- The server has stopped assigning new jobs to this worker. -/
  | draining
  | heartbeat
  | registered (queueName : String)
  | error (code message : String)
deriving DecidableEq, Repr

/-- The ids of a dispatched job. -/
def WorkerMessage.dispatchIds : WorkerMessage → Option (Int × String)
  | .jobDispatch jobId dispatchId _ _ => some (jobId, dispatchId)
  | _ => none

/-- The ids of a job that has a result. -/
def WorkerMessage.resultIds : WorkerMessage → Option (Int × String)
  | .jobResult jobId dispatchId _ _ _ => some (jobId, dispatchId)
  | _ => none

abbrev WireFrame := ProtocolFrame WorkerMessage

/-- The failures of a reader that the protocol tells apart. -/
inductive IoErrorKind where
  | unexpectedEof
  | invalidData
deriving DecidableEq, Repr

structure IoError where
  kind : IoErrorKind
  message : String
deriving DecidableEq, Repr

inductive ProtocolError where
  | unsupportedVersion (version : UInt16)
  | frameTooLarge
  | malformed (message : String)
  | io (error : IoError)
deriving DecidableEq, Repr

end Maqistor
