import Maqistor.Dispatcher.Registry
import Maqistor.Lib.Runs
import Maqistor.Protocol.Frame
import Maqistor.Types

/-! The dispatcher as a whole: one handler and one writer task for each connection, the registry
they share, and the engine's calls on it. A step is what happens between two `await` points or
inside one lock section, so any interleaving of the tasks is a run. -/

namespace Maqistor

/-- A frame in an outbound channel, with the number of the channel for its acknowledgement. -/
structure OutboundFrame where
  message : WorkerMessage
  ack : Nat
deriving DecidableEq, Repr

/-- Where `handle_worker` stands. -/
inductive Handler where
  /-- It reads the first frame. -/
  | accepted
  /-- It writes the error for an unknown queue. -/
  | refusing
  /-- The registration is valid and the writer task runs; the registry is not locked yet. -/
  | registering (instanceId : Uuid) (queueName : String) (runningJobs freeSlots : UInt32)
  /-- The worker is in the registry, and nothing has been sent. -/
  | inserted (instanceId : Uuid) (queueName : String)
  /-- It waits until `Registered` is written. -/
  | announcing (instanceId : Uuid) (queueName : String) (ack : Nat)
  /-- It reads frames. -/
  | serving (instanceId : Uuid)
  /-- The loop has ended and the worker is not removed yet. -/
  | leaving (instanceId : Uuid)
  | returned
deriving DecidableEq, Repr

/-- A connection: its handler, whether its writer task has a receiver, the channel between them, and
what the channel was given and what was written so far. -/
structure Connection where
  handler : Handler
  writing : Bool
  channel : List OutboundFrame
  sent : List OutboundFrame
  written : List WorkerMessage
deriving DecidableEq, Repr

/-- `DispatchError::Internal`. -/
structure DispatchError where
  message : String
deriving DecidableEq, Repr

/-- The error of a dispatch whose frame was not written. -/
def DispatchError.writeFailed : DispatchError := ⟨"worker dispatch write failed"⟩

/-- A dispatch that waits for its acknowledgement. -/
structure DispatchCall where
  workerId : Uuid
  dispatchId : String
  message : WorkerMessage
  connection : Nat
  ack : Nat
deriving DecidableEq, Repr

/-- The tasks' shared state, the engine's permits and calls, and the history: the instance ids that
were inserted, the dispatch ids that were used, and for each connection the dispatches that were
queued, answered and cleaned up after a failure, with the results of the calls. -/
structure Server where
  workers : WorkerRegistry
  connections : List Connection
  acks : List (Option Bool)
  permits : List ReservedDispatch
  calls : List DispatchCall
  enrolled : List Uuid
  issued : List String
  queued : List (Nat × String)
  answered : List (Nat × String)
  failed : List (Nat × String)
  results : List (DispatchCall × Except DispatchError Unit)

/-- What a read of the next frame gives; a timeout, a malformed frame and a closed connection all
end the read with an error. -/
inductive Input where
  | frame (message : WorkerMessage)
  | failed
deriving DecidableEq, Repr

inductive Server.Action where
  | connect
  | read (connection : Nat) (input : Input)
  | register (connection : Nat)
  | announce (connection : Nat)
  | acknowledge (connection : Nat)
  | remove (connection : Nat)
  | write (connection : Nat) (accepted : Bool)
  | reserve (choice : Table.Choice) (queues : List QueueReservation)
  | release (permit : Nat)
  | dispatch (permit : Nat) (job : Job)
  | resume (call : Nat)

/-- What the registry broadcasts to the engine. -/
inductive WorkerEvent where
  | registered (queueName : String)
  | result (queueName : String) (jobId : Int) (dispatchId : String) (outcome : JobOutcome)
deriving DecidableEq, Repr

def JobResult.outcome : JobResult → JobOutcome
  | .succeeded payload => .succeeded payload
  | .failed message => .failed message

namespace Server

def initial : Server :=
  { workers := ∅, connections := [], acks := [], permits := [], calls := [], enrolled := []
    issued := [], queued := [], answered := [], failed := [], results := [] }

/-- The frame that answers a registration for an unknown queue. -/
def unknownQueue : WorkerMessage :=
  .error "unknown_queue" "registration contains an unknown queue"

/-- `outbound.send`: whether the frame entered the channel. The number of its acknowledgement is the
next one; a frame that the channel refuses takes its sender with it. -/
def send (server : Server) (connection : Nat) (message : WorkerMessage) : Server × Bool :=
  match server.connections[connection]? with
  | none => ({ server with acks := server.acks ++ [some false] }, false)
  | some conn =>
    if conn.writing then
      let frame := { message := message, ack := server.acks.length }
      ({ server with
        connections := server.connections.set connection
          { conn with channel := conn.channel ++ [frame], sent := conn.sent ++ [frame] }
        acks := server.acks ++ [none] }, true)
    else ({ server with acks := server.acks ++ [some false] }, false)

/-- The handler of a connection moves on. -/
def setHandler (server : Server) (connection : Nat) (handler : Handler) : Server :=
  { server with
    connections := server.connections.modify connection fun conn =>
      { conn with handler := handler } }

/-- The first frame of a connection. -/
def readFirst (allowed : List String) (server : Server) (connection : Nat) : Input → Server
  | .frame (.register instanceId queueName runningJobs freeSlots) =>
    if queueName = "" ∨ queueName ∉ allowed then server.setHandler connection .refusing
    else
      { server with
        connections := server.connections.modify connection fun conn =>
          { conn with
            handler := .registering instanceId queueName runningJobs freeSlots
            writing := true } }
  | _ => server.setHandler connection .returned

/-- A result frame: the dispatch is answered if it was queued on this connection. -/
def recordResult (server : Server) (connection : Nat) (instanceId : Uuid) (state : WorkerState)
    (dispatchId : String) (runningJobs freeSlots : UInt32) : Server :=
  { server with
    workers := server.workers.insert instanceId
      (state.recordWorkerResult dispatchId runningJobs freeSlots)
    answered := if (connection, dispatchId) ∈ server.queued then
        (connection, dispatchId) :: server.answered
      else server.answered }

/-- A frame in the loop of `handle_worker`. -/
def readNext (server : Server) (connection : Nat) (instanceId : Uuid) :
    Input → Server × Option WorkerEvent
  | .failed => (server.setHandler connection (.leaving instanceId), none)
  | .frame message =>
    match server.workers.lookup instanceId with
    | none => (server.setHandler connection (.leaving instanceId), none)
    | some state =>
      match message with
      | .jobResult jobId dispatchId result runningJobs freeSlots =>
        (server.recordResult connection instanceId state dispatchId runningJobs freeSlots,
          some (.result state.queueName jobId dispatchId result.outcome))
      | .drain =>
        let server := { server with workers := server.workers.insert instanceId state.beginDrain }
        let (server, queued) := server.send state.outbound .draining
        (if queued then server else server.setHandler connection (.leaving instanceId), none)
      | .heartbeat => (server, none)
      | _ => (server.setHandler connection (.leaving instanceId), none)

/-- The lock section of a registration. -/
def enroll (server : Server) (connection : Nat) (instanceId : Uuid) (queueName : String)
    (runningJobs freeSlots : UInt32) : Server :=
  if instanceId ∈ server.workers then server.setHandler connection .returned
  else
    { server.setHandler connection (.inserted instanceId queueName) with
      workers := server.workers.insert instanceId
        (.registered queueName runningJobs freeSlots connection)
      enrolled := instanceId :: server.enrolled }

/-- The send of `Registered`; its failure ends the handler. -/
def announce (server : Server) (connection : Nat) (instanceId : Uuid) (queueName : String) :
    Server :=
  let ack := server.acks.length
  let (server, queued) := server.send connection (.registered queueName)
  server.setHandler connection
    (if queued then .announcing instanceId queueName ack else .returned)

/-- The writer task takes the next frame. A frame that cannot be encoded or written ends the task,
and the frames behind it are dropped with their acknowledgements. -/
def writeNext (codec : Codec) (server : Server) (connection : Nat) (conn : Connection)
    (frame : OutboundFrame) (rest : List OutboundFrame) (accepted : Bool) : Server :=
  if accepted ∧ (encodeFrame codec (.v1 frame.message)).isOk then
    { server with
      connections := server.connections.set connection
        { conn with channel := rest, written := conn.written ++ [frame.message] }
      acks := server.acks.set frame.ack (some true) }
  else
    { server with
      connections := server.connections.set connection { conn with channel := [], writing := false }
      acks := (frame :: rest).foldl (fun acks frame => acks.set frame.ack (some false))
        server.acks }

/-- The handler writes the error for an unknown queue itself. -/
def writeRefusal (codec : Codec) (server : Server) (connection : Nat) (conn : Connection)
    (accepted : Bool) : Server :=
  { server with
    connections := server.connections.set connection
      { conn with
        handler := .returned
        written := if accepted ∧ (encodeFrame codec (.v1 unknownQueue)).isOk then
            conn.written ++ [unknownQueue]
          else conn.written } }

/-- `release_permit`. -/
def releasePermit (server : Server) (workerId : Uuid) : Server :=
  match server.workers.lookup workerId with
  | none => server
  | some worker => { server with workers := server.workers.insert workerId worker.releaseSlot }

/-- `release_dispatched`. -/
def releaseDispatched (server : Server) (workerId : Uuid) (dispatchId : String) : Server :=
  match server.workers.lookup workerId with
  | none => server
  | some worker =>
    { server with
      workers := server.workers.insert workerId
        { worker with inFlightDispatches := worker.inFlightDispatches.erase dispatchId } }

/-- The frame of a dispatch. -/
def dispatchMessage (job : Job) (dispatchId : String) : WorkerMessage :=
  .jobDispatch job.id dispatchId (UInt32.ofNat job.executionCount.toNat) job.payload

/-- `dispatch` up to the end of its lock section, for a job with a dispatch id; only a call that got
as far as the channel waits for an acknowledgement. -/
def dispatchLocked (server : Server) (permit : ReservedDispatch) (job : Job)
    (dispatchId : String) : Server :=
  let call : DispatchCall :=
    { workerId := permit.workerId, dispatchId := dispatchId
      message := dispatchMessage job dispatchId, connection := permit.connection
      ack := server.acks.length }
  let fail := fun (server : Server) (message : String) =>
    { server with results := server.results ++ [(call, .error ⟨message⟩)] }
  match server.workers.lookup permit.workerId with
  | none => fail server "reserved worker disappeared"
  | some worker =>
    if worker.draining then
      fail { server with
        workers := server.workers.insert permit.workerId worker.releaseSlot } "worker is draining"
    else if dispatchId ∈ worker.inFlightDispatches then
      fail { server with
        workers := server.workers.insert permit.workerId worker.releaseSlot }
        "duplicate worker dispatch id"
    else
      let inFlight := insert dispatchId worker.inFlightDispatches
      let (server, queued) := server.send worker.outbound call.message
      { server with
        workers := server.workers.insert permit.workerId
          { worker.releaseSlot with
            inFlightDispatches := if queued then inFlight else inFlight.erase dispatchId }
        calls := server.calls ++ [{ call with connection := worker.outbound }]
        queued := if queued then (worker.outbound, dispatchId) :: server.queued
          else server.queued }

/-- `dispatch` with a permit that is used up. -/
def dispatch (server : Server) (permit : ReservedDispatch) (job : Job) : Server :=
  match job.dispatchId with
  | none => server
  | some dispatchId =>
    { server with issued := dispatchId :: server.issued }.dispatchLocked permit job dispatchId

/-- What `dispatch` returns once its acknowledgement is there. -/
def outcome (wrote : Bool) : Except DispatchError Unit :=
  if wrote then .ok () else .error .writeFailed

/-- The rest of `dispatch` once its acknowledgement is there. -/
def finish (server : Server) (call : DispatchCall) (wrote : Bool) : Server :=
  if wrote then { server with results := server.results ++ [(call, outcome wrote)] }
  else
    { server.releaseDispatched call.workerId call.dispatchId with
      failed := (call.connection, call.dispatchId) :: server.failed
      results := server.results ++ [(call, outcome wrote)] }

def step (codec : Codec) (allowed : List String) (server : Server) :
    Action → Option (Server × Option WorkerEvent)
  | .connect =>
    some ({ server with
      connections := server.connections ++
        [{ handler := .accepted, writing := false, channel := [], sent := [], written := [] }] },
      none)
  | .read connection input => do
    let conn ← server.connections[connection]?
    match conn.handler with
    | .accepted => some (server.readFirst allowed connection input, none)
    | .serving instanceId => some (server.readNext connection instanceId input)
    | _ => none
  | .register connection => do
    let conn ← server.connections[connection]?
    match conn.handler with
    | .registering instanceId queueName runningJobs freeSlots =>
      some (server.enroll connection instanceId queueName runningJobs freeSlots, none)
    | _ => none
  | .announce connection => do
    let conn ← server.connections[connection]?
    match conn.handler with
    | .inserted instanceId queueName =>
      some (server.announce connection instanceId queueName, none)
    | _ => none
  | .acknowledge connection => do
    let conn ← server.connections[connection]?
    match conn.handler with
    | .announcing instanceId queueName ack =>
      match server.acks[ack]? with
      | some (some true) =>
        some (server.setHandler connection (.serving instanceId), some (.registered queueName))
      | some (some false) => some (server.setHandler connection .returned, none)
      | _ => none
    | _ => none
  | .remove connection => do
    let conn ← server.connections[connection]?
    match conn.handler with
    | .leaving instanceId =>
      some ({ server.setHandler connection .returned with
        workers := server.workers.erase instanceId }, none)
    | _ => none
  | .write connection accepted => do
    let conn ← server.connections[connection]?
    match conn.handler, conn.writing, conn.channel with
    | .refusing, _, _ => some (server.writeRefusal codec connection conn accepted, none)
    | _, true, frame :: rest =>
      some (server.writeNext codec connection conn frame rest accepted, none)
    | _, _, _ => none
  | .reserve choice queues =>
    let (workers, reserved) := Maqistor.reserve choice queues server.workers
    some ({ server with workers := workers, permits := server.permits ++ reserved }, none)
  | .release permit => do
    let held ← server.permits[permit]?
    some ({ server with permits := server.permits.eraseIdx permit }.releasePermit held.workerId,
      none)
  | .dispatch permit job => do
    let held ← server.permits[permit]?
    some ({ server with permits := server.permits.eraseIdx permit }.dispatch held job, none)
  | .resume call => do
    let waiting ← server.calls[call]?
    match server.acks[waiting.ack]? with
    | some (some wrote) =>
      some ({ server with calls := server.calls.eraseIdx call }.finish waiting wrote, none)
    | _ => none

/-! ### The transitions -/

/-- What a step can be: one constructor for each handler that acts, with what it found. -/
inductive Transition (codec : Codec) (allowed : List String) (server : Server) :
    Action → Server → Option WorkerEvent → Prop
  | connect : Transition codec allowed server .connect
      { server with
        connections := server.connections ++
          [{ handler := .accepted, writing := false, channel := [], sent := [], written := [] }] }
      none
  | readFirst {c : Nat} {conn : Connection} {input : Input}
      (hconn : server.connections[c]? = some conn) (hhandler : conn.handler = .accepted) :
      Transition codec allowed server (.read c input) (server.readFirst allowed c input) none
  | readNext {c : Nat} {conn : Connection} {instanceId : Uuid} {input : Input}
      (hconn : server.connections[c]? = some conn) (hhandler : conn.handler = .serving instanceId) :
      Transition codec allowed server (.read c input) (server.readNext c instanceId input).1
        (server.readNext c instanceId input).2
  | enroll {c : Nat} {conn : Connection} {instanceId : Uuid} {queueName : String}
      {runningJobs freeSlots : UInt32} (hconn : server.connections[c]? = some conn)
      (hhandler : conn.handler = .registering instanceId queueName runningJobs freeSlots) :
      Transition codec allowed server (.register c)
        (server.enroll c instanceId queueName runningJobs freeSlots) none
  | announce {c : Nat} {conn : Connection} {instanceId : Uuid} {queueName : String}
      (hconn : server.connections[c]? = some conn)
      (hhandler : conn.handler = .inserted instanceId queueName) :
      Transition codec allowed server (.announce c) (server.announce c instanceId queueName) none
  | acknowledge {c : Nat} {conn : Connection} {instanceId : Uuid} {queueName : String} {ack : Nat}
      (hconn : server.connections[c]? = some conn)
      (hhandler : conn.handler = .announcing instanceId queueName ack)
      (hack : server.acks[ack]? = some (some true)) :
      Transition codec allowed server (.acknowledge c) (server.setHandler c (.serving instanceId))
        (some (.registered queueName))
  | abandon {c : Nat} {conn : Connection} {instanceId : Uuid} {queueName : String} {ack : Nat}
      (hconn : server.connections[c]? = some conn)
      (hhandler : conn.handler = .announcing instanceId queueName ack)
      (hack : server.acks[ack]? = some (some false)) :
      Transition codec allowed server (.acknowledge c) (server.setHandler c .returned) none
  | remove {c : Nat} {conn : Connection} {instanceId : Uuid}
      (hconn : server.connections[c]? = some conn) (hhandler : conn.handler = .leaving instanceId) :
      Transition codec allowed server (.remove c)
        { server.setHandler c .returned with workers := server.workers.erase instanceId } none
  | writeRefusal {c : Nat} {conn : Connection} {accepted : Bool}
      (hconn : server.connections[c]? = some conn) (hhandler : conn.handler = .refusing) :
      Transition codec allowed server (.write c accepted)
        (server.writeRefusal codec c conn accepted) none
  | writeNext {c : Nat} {conn : Connection} {accepted : Bool} {frame : OutboundFrame}
      {rest : List OutboundFrame} (hconn : server.connections[c]? = some conn)
      (hwriting : conn.writing = true) (hchannel : conn.channel = frame :: rest) :
      Transition codec allowed server (.write c accepted)
        (server.writeNext codec c conn frame rest accepted) none
  | reserve {choice : Table.Choice} {queues : List QueueReservation} :
      Transition codec allowed server (.reserve choice queues)
        { server with
          workers := (Maqistor.reserve choice queues server.workers).1
          permits := server.permits ++ (Maqistor.reserve choice queues server.workers).2 } none
  | release {i : Nat} {permit : ReservedDispatch} (hpermit : server.permits[i]? = some permit) :
      Transition codec allowed server (.release i)
        ({ server with permits := server.permits.eraseIdx i }.releasePermit permit.workerId) none
  | dispatch {i : Nat} {permit : ReservedDispatch} {job : Job}
      (hpermit : server.permits[i]? = some permit) :
      Transition codec allowed server (.dispatch i job)
        ({ server with permits := server.permits.eraseIdx i }.dispatch permit job) none
  | resume {i : Nat} {call : DispatchCall} {wrote : Bool} (hcall : server.calls[i]? = some call)
      (hack : server.acks[call.ack]? = some (some wrote)) :
      Transition codec allowed server (.resume i)
        ({ server with calls := server.calls.eraseIdx i }.finish call wrote) none

theorem step_transition {codec : Codec} {allowed : List String} {server server' : Server}
    {action : Action} {event : Option WorkerEvent}
    (h : server.step codec allowed action = some (server', event)) :
    Transition codec allowed server action server' event := by
  cases action with
  | connect =>
    obtain ⟨rfl, rfl⟩ := Prod.mk.inj (Option.some.inj h)
    exact .connect
  | read c input =>
    obtain ⟨conn, hconn, h⟩ := Option.bind_eq_some_iff.mp h
    split at h
    · next hhandler =>
      obtain ⟨rfl, rfl⟩ := Prod.mk.inj (Option.some.inj h)
      exact .readFirst hconn hhandler
    · next instanceId hhandler =>
      have heq := Option.some.inj h
      rw [show server' = _ from (congrArg Prod.fst heq).symm,
        show event = _ from (congrArg Prod.snd heq).symm]
      exact .readNext hconn hhandler
    · cases h
  | register c =>
    obtain ⟨conn, hconn, h⟩ := Option.bind_eq_some_iff.mp h
    split at h
    · next hhandler =>
      obtain ⟨rfl, rfl⟩ := Prod.mk.inj (Option.some.inj h)
      exact .enroll hconn hhandler
    · cases h
  | announce c =>
    obtain ⟨conn, hconn, h⟩ := Option.bind_eq_some_iff.mp h
    split at h
    · next hhandler =>
      obtain ⟨rfl, rfl⟩ := Prod.mk.inj (Option.some.inj h)
      exact .announce hconn hhandler
    · cases h
  | acknowledge c =>
    obtain ⟨conn, hconn, h⟩ := Option.bind_eq_some_iff.mp h
    split at h
    · next hhandler =>
      split at h
      · next hack =>
        obtain ⟨rfl, rfl⟩ := Prod.mk.inj (Option.some.inj h)
        exact .acknowledge hconn hhandler hack
      · next hack =>
        obtain ⟨rfl, rfl⟩ := Prod.mk.inj (Option.some.inj h)
        exact .abandon hconn hhandler hack
      · cases h
    · cases h
  | remove c =>
    obtain ⟨conn, hconn, h⟩ := Option.bind_eq_some_iff.mp h
    split at h
    · next hhandler =>
      obtain ⟨rfl, rfl⟩ := Prod.mk.inj (Option.some.inj h)
      exact .remove hconn hhandler
    · cases h
  | write c accepted =>
    obtain ⟨conn, hconn, h⟩ := Option.bind_eq_some_iff.mp h
    split at h
    · next hhandler =>
      obtain ⟨rfl, rfl⟩ := Prod.mk.inj (Option.some.inj h)
      exact .writeRefusal hconn hhandler
    · next hwriting hchannel _ =>
      obtain ⟨rfl, rfl⟩ := Prod.mk.inj (Option.some.inj h)
      exact .writeNext hconn hwriting hchannel
    · cases h
  | reserve choice queues =>
    obtain ⟨rfl, rfl⟩ := Prod.mk.inj (Option.some.inj h)
    exact .reserve
  | release i =>
    obtain ⟨permit, hpermit, h⟩ := Option.bind_eq_some_iff.mp h
    obtain ⟨rfl, rfl⟩ := Prod.mk.inj (Option.some.inj h)
    exact .release hpermit
  | dispatch i job =>
    obtain ⟨permit, hpermit, h⟩ := Option.bind_eq_some_iff.mp h
    obtain ⟨rfl, rfl⟩ := Prod.mk.inj (Option.some.inj h)
    exact .dispatch hpermit
  | resume i =>
    obtain ⟨call, hcall, h⟩ := Option.bind_eq_some_iff.mp h
    split at h
    · next wrote hack =>
      obtain ⟨rfl, rfl⟩ := Prod.mk.inj (Option.some.inj h)
      exact .resume hcall hack
    · cases h

/-! ### A frame in the loop -/

/-- The server with a worker that has begun to drain. -/
def markDraining (server : Server) (instanceId : Uuid) (state : WorkerState) : Server :=
  { server with workers := server.workers.insert instanceId state.beginDrain }

/-- What a read in the loop of `handle_worker` can do. -/
inductive ReadStep (server : Server) (c : Nat) (instanceId : Uuid) : Input → Server → Prop
  | leave {input : Input} :
      ReadStep server c instanceId input (server.setHandler c (.leaving instanceId))
  | heartbeat : ReadStep server c instanceId (.frame .heartbeat) server
  | result {state : WorkerState} {jobId : Int} {dispatchId : String} {result : JobResult}
      {runningJobs freeSlots : UInt32} (hstate : server.workers.lookup instanceId = some state) :
      ReadStep server c instanceId
        (.frame (.jobResult jobId dispatchId result runningJobs freeSlots))
        (server.recordResult c instanceId state dispatchId runningJobs freeSlots)
  | drain {state : WorkerState} (hstate : server.workers.lookup instanceId = some state)
      (hqueued : ((server.markDraining instanceId state).send state.outbound .draining).2 = true) :
      ReadStep server c instanceId (.frame .drain)
        ((server.markDraining instanceId state).send state.outbound .draining).1
  | stopped {state : WorkerState} (hstate : server.workers.lookup instanceId = some state)
      (hqueued : ((server.markDraining instanceId state).send state.outbound .draining).2 = false) :
      ReadStep server c instanceId (.frame .drain)
        (((server.markDraining instanceId state).send state.outbound .draining).1.setHandler c
          (.leaving instanceId))

theorem readNext_step (server : Server) (c : Nat) (instanceId : Uuid) (input : Input) :
    ReadStep server c instanceId input (server.readNext c instanceId input).1 := by
  unfold readNext
  split
  · exact .leave
  · split
    · exact .leave
    · next state hstate =>
      split
      · exact .result hstate
      · dsimp only
        split
        · next hqueued => exact .drain hstate hqueued
        · next hqueued => exact .stopped hstate (Bool.eq_false_iff.mpr hqueued)
      · exact .heartbeat
      · exact .leave

end Server

end Maqistor
