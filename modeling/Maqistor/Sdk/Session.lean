import Maqistor.Dispatcher.Registry
import Maqistor.Lib.Runs
import Maqistor.Protocol.Frame

/-! A session of the worker SDK: the select loop of `serve`, the job tasks it spawns, the writer
task and the heartbeats. A step is what one task does between two `await` points. The branches of
the select are polled in order, but one can become ready right after it was polled, so any ready
branch may be the next to complete. -/

namespace Maqistor.Sdk

/-- What a session is started with. `parse` is `serde_json::from_slice` for the payload type. -/
structure Config (P : Type) where
  instanceId : Uuid
  queueName : String
  concurrency : UInt32
  nonzero : 0 < concurrency.toNat
  parse : List UInt8 → Except String P

inductive SessionState where
  | serving
  | awaitingDrain
  | draining
deriving DecidableEq, Repr

/-- The errors that `serve` returns. -/
inductive WorkerRunError where
  | stopped
  | configuration (message : String)
  | remote (code message : String)
  | protocol (error : ProtocolError)
deriving DecidableEq, Repr

/-- The error of a frame that `serve` does not expect. -/
def WorkerRunError.unexpectedFrame : WorkerRunError := .configuration "unexpected worker frame"

/-- A frame in the outbound channel, with the number of the channel for its acknowledgement. -/
structure OutboundFrame where
  payload : WorkerMessage
  written : Option Nat
deriving DecidableEq, Repr

/-- Where `execute_job` stands. -/
inductive Phase (P : Type) where
  | spawned
  /-- It waits for a slot. -/
  | acquiring (payload : P)
  /-- The handler runs, and the job holds a slot. -/
  | handling (payload : P)
  /-- The handler has returned, and the slot is not dropped yet. -/
  | releasing (result : Except String (List UInt8))
  /-- In `report`, before it reads the available permits. -/
  | reporting (result : Except String (List UInt8))
  /-- In `report`, with the permits it read, before the result is sent. -/
  | sending (result : Except String (List UInt8)) (freeSlots : UInt32)
  /-- It waits until its result is written. -/
  | awaiting
  | finished (result : Except WorkerRunError Unit)
  | panicked
  /-- `join_next` has returned it. -/
  | joined

/-- A task of the `JoinSet`; `ack` is the acknowledgement that its result was sent with. -/
structure JobTask (P : Type) where
  jobId : Int
  dispatchId : String
  executionCount : UInt32
  payload : List UInt8
  phase : Phase P
  ack : Option Nat

/-- Where `serve` stands. -/
inductive Serve where
  | selecting
  /-- It waits until `Drain` is written. -/
  | announcing (ack : Nat)
  | returned (result : Except WorkerRunError Unit)
deriving DecidableEq

/-- The state that the tasks of a session share, with the frames that were sent and written and the
messages that `serve` has read. -/
structure Session (P : Type) where
  state : SessionState
  serve : Serve
  jobs : List (JobTask P)
  permits : Nat
  writing : Bool
  channel : List OutboundFrame
  acks : List (Option Bool)
  sent : List OutboundFrame
  written : List WorkerMessage
  received : List WorkerMessage

inductive JobTask.Action where
  | parse
  | acquire
  | complete (result : Except String (List UInt8))
  | panic
  | release
  | snapshot
  | report
  | resume

inductive Session.Action where
  /-- The shutdown signal. -/
  | shutdown
  | drainWritten
  | writerStopped
  | join (job : Nat)
  | receive (input : Except ProtocolError WorkerMessage)
  | job (job : Nat) (action : JobTask.Action)
  | heartbeat
  | write (accepted : Bool)

variable {P : Type}

def Config.register (config : Config P) : WorkerMessage :=
  .register config.instanceId config.queueName 0 config.concurrency

/-- The worker of the concrete runs: it has two slots, and a payload is valid unless it is empty. -/
def mailConfig : Config (List UInt8) :=
  { instanceId := 7, queueName := "mail", concurrency := 2, nonzero := by decide
    parse := fun payload =>
      if payload = [] then .error "EOF while parsing a value at line 1 column 0" else .ok payload }

def reportResult : Except String (List UInt8) → JobResult
  | .ok payload => .succeeded payload
  | .error message => .failed message

namespace JobTask

/-- The task that `serve` spawns for a dispatch. -/
def spawn (jobId : Int) (dispatchId : String) (executionCount : UInt32) (payload : List UInt8) :
    JobTask P :=
  { jobId := jobId, dispatchId := dispatchId, executionCount := executionCount, payload := payload
    phase := .spawned, ack := none }

def isJoined (task : JobTask P) : Bool :=
  match task.phase with
  | .joined => true
  | _ => false

/-- The frame that `report` sends. -/
def resultFrame (config : Config P) (task : JobTask P) (result : Except String (List UInt8))
    (freeSlots : UInt32) : WorkerMessage :=
  .jobResult task.jobId task.dispatchId (reportResult result)
    (saturatingSub32 config.concurrency freeSlots) freeSlots

end JobTask

namespace Session

/-- A session after `run_until` has written `Register`. -/
def initial (config : Config P) : Session P :=
  { state := .serving, serve := .selecting, jobs := [], permits := config.concurrency.toNat
    writing := true, channel := [], acks := [], sent := [], written := [config.register]
    received := [] }

def returned (session : Session P) : Bool :=
  match session.serve with
  | .returned _ => true
  | _ => false

/-- The first half of `send_and_wait`: the number of the acknowledgement, unless the channel is
closed. -/
def send (session : Session P) (payload : WorkerMessage) : Session P × Option Nat :=
  if session.writing then
    let frame := { payload := payload, written := some session.acks.length }
    ({ session with
      channel := session.channel ++ [frame]
      sent := session.sent ++ [frame]
      acks := session.acks ++ [none] }, some session.acks.length)
  else (session, none)

def sendUnacknowledged (session : Session P) (payload : WorkerMessage) : Session P :=
  if session.writing then
    let frame := { payload := payload, written := none }
    { session with channel := session.channel ++ [frame], sent := session.sent ++ [frame] }
  else session

/-- `serve` returns; the job tasks are aborted with the `JoinSet`. -/
def fail (session : Session P) (error : WorkerRunError) : Session P :=
  { session with serve := .returned (.error error) }

/-- The head of the loop. -/
def loop (session : Session P) : Session P :=
  { session with
    serve := if session.state = .draining ∧ session.jobs.all JobTask.isJoined then .returned (.ok ())
      else .selecting }

def setJob (session : Session P) (job : Nat) (task : JobTask P) : Session P :=
  { session with jobs := session.jobs.set job task }

/-- The shutdown branch, up to its `await`. -/
def shutdown (session : Session P) : Session P :=
  match session.send .drain with
  | (session, none) => session.fail .stopped
  | (session, some ack) => { session with serve := .announcing ack }

/-- A message in the loop of `serve`. -/
def handle (config : Config P) (session : Session P) : WorkerMessage → Session P
  | .registered queueName =>
    if queueName = config.queueName then session.loop else session.fail .unexpectedFrame
  | .jobDispatch jobId dispatchId executionCount payload =>
    if session.state = .draining then session.fail .unexpectedFrame
    else
      { session with
        jobs := session.jobs ++ [JobTask.spawn jobId dispatchId executionCount payload] }.loop
  | .draining =>
    if session.state = .awaitingDrain then { session with state := .draining }.loop
    else session.fail .unexpectedFrame
  | .error code message => session.fail (.remote code message)
  | .heartbeat => session.loop
  | .register _ _ _ _ | .jobResult _ _ _ _ _ | .drain => session.fail .unexpectedFrame

/-- What `join_next` gives for a task that has ended. -/
def joinTask (session : Session P) (job : Nat) (task : JobTask P) : Option (Session P) :=
  match task.phase with
  | .finished (.ok ()) => some (session.setJob job { task with phase := .joined }).loop
  | .finished (.error error) =>
    some ((session.setJob job { task with phase := .joined }).fail error)
  | .panicked => some ((session.setJob job { task with phase := .joined }).fail .stopped)
  | _ => none

/-- A step of `execute_job`. -/
def stepJob (config : Config P) (session : Session P) (job : Nat) (task : JobTask P) :
    JobTask.Action → Option (Session P)
  | .parse =>
    match task.phase with
    | .spawned =>
      some (session.setJob job { task with
        phase := match config.parse task.payload with
          | .ok payload => .acquiring payload
          | .error message => .reporting (.error ("invalid job payload: " ++ message)) })
    | _ => none
  | .acquire =>
    match task.phase with
    | .acquiring payload =>
      if session.permits = 0 then none
      else
        some { session.setJob job { task with phase := .handling payload } with
          permits := session.permits - 1 }
    | _ => none
  | .complete result =>
    match task.phase with
    | .handling _ => some (session.setJob job { task with phase := .releasing result })
    | _ => none
  | .panic =>
    match task.phase with
    | .handling _ =>
      some { session.setJob job { task with phase := .panicked } with
        permits := session.permits + 1 }
    | _ => none
  | .release =>
    match task.phase with
    | .releasing result =>
      some { session.setJob job { task with phase := .reporting result } with
        permits := session.permits + 1 }
    | _ => none
  | .snapshot =>
    match task.phase with
    | .reporting result =>
      some (session.setJob job
        { task with phase := .sending result (UInt32.ofNat session.permits) })
    | _ => none
  | .report =>
    match task.phase with
    | .sending result freeSlots =>
      match session.send (task.resultFrame config result freeSlots) with
      | (session, some ack) =>
        some (session.setJob job { task with phase := .awaiting, ack := some ack })
      | (session, none) =>
        some (session.setJob job { task with phase := .finished (.error .stopped) })
    | _ => none
  | .resume =>
    match task.phase with
    | .awaiting =>
      match task.ack.bind fun ack => session.acks[ack]? with
      | some (some true) => some (session.setJob job { task with phase := .finished (.ok ()) })
      | some (some false) =>
        some (session.setJob job { task with phase := .finished (.error .stopped) })
      | _ => none
    | _ => none

def setAck (acks : List (Option Bool)) (result : Bool) (frame : OutboundFrame) :
    List (Option Bool) :=
  match frame.written with
  | none => acks
  | some ack => acks.set ack (some result)

/-- `writer_loop` takes the next frame. A frame that cannot be encoded or written ends it, and the
frames behind it are dropped with their acknowledgements. -/
def writeNext (codec : Codec) (session : Session P) (frame : OutboundFrame)
    (rest : List OutboundFrame) (accepted : Bool) : Session P :=
  if accepted ∧ Encodes codec frame.payload then
    { session with
      channel := rest
      written := session.written ++ [frame.payload]
      acks := setAck session.acks true frame }
  else
    { session with
      channel := []
      writing := false
      acks := (frame :: rest).foldl (fun acks frame => setAck acks false frame) session.acks }

def step (config : Config P) (codec : Codec) (session : Session P) :
    Action → Option (Session P × Unit)
  | .shutdown =>
    match session.serve with
    | .selecting => if session.state = .serving then some (session.shutdown, ()) else none
    | _ => none
  | .drainWritten =>
    match session.serve with
    | .announcing ack =>
      match session.acks[ack]? with
      | some (some true) => some ({ session with state := .awaitingDrain }.loop, ())
      | some (some false) => some (session.fail .stopped, ())
      | _ => none
    | _ => none
  | .writerStopped =>
    match session.serve with
    | .selecting => if session.writing then none else some (session.fail .stopped, ())
    | _ => none
  | .join job => do
    let task ← session.jobs[job]?
    match session.serve with
    | .selecting => (session.joinTask job task).map (·, ())
    | _ => none
  | .receive input =>
    match session.serve with
    | .selecting =>
      match input with
      | .ok message =>
        some ({ session with received := session.received ++ [message] }.handle config message, ())
      | .error error => some (session.fail (.protocol error), ())
    | _ => none
  | .job job action => do
    let task ← session.jobs[job]?
    if session.returned then none else (session.stepJob config job task action).map (·, ())
  | .heartbeat =>
    if session.returned then none else some (session.sendUnacknowledged .heartbeat, ())
  | .write accepted =>
    -- a session that failed aborts its writer
    match session.serve, session.writing, session.channel with
    | .returned (.error _), _, _ => none
    | _, true, frame :: rest => some (session.writeNext codec frame rest accepted, ())
    | _, _, _ => none

section Frames

variable (session : Session P) (payload : WorkerMessage)

@[simp] theorem send_received : (session.send payload).1.received = session.received := by
  unfold send
  split <;> rfl

@[simp] theorem send_serve : (session.send payload).1.serve = session.serve := by
  unfold send
  split <;> rfl

theorem handle_received (config : Config P) :
    (session.handle config payload).received = session.received := by
  unfold handle
  split <;> first | rfl | (split <;> rfl)

end Frames

/-! ### The transitions -/

/-- What a step of `execute_job` can be. -/
inductive JobStep (config : Config P) (session : Session P) (job : Nat) (task : JobTask P) :
    JobTask.Action → Session P → Prop
  | parsed {payload : P} (hphase : task.phase = .spawned)
      (hparse : config.parse task.payload = .ok payload) :
      JobStep config session job task .parse
        (session.setJob job { task with phase := .acquiring payload })
  | invalid {message : String} (hphase : task.phase = .spawned)
      (hparse : config.parse task.payload = .error message) :
      JobStep config session job task .parse (session.setJob job
        { task with phase := .reporting (.error ("invalid job payload: " ++ message)) })
  | acquire {payload : P} (hphase : task.phase = .acquiring payload) (hfree : session.permits ≠ 0) :
      JobStep config session job task .acquire
        { session.setJob job { task with phase := .handling payload } with
          permits := session.permits - 1 }
  | complete {payload : P} {result : Except String (List UInt8)}
      (hphase : task.phase = .handling payload) :
      JobStep config session job task (.complete result)
        (session.setJob job { task with phase := .releasing result })
  | panic {payload : P} (hphase : task.phase = .handling payload) :
      JobStep config session job task .panic
        { session.setJob job { task with phase := .panicked } with permits := session.permits + 1 }
  | release {result : Except String (List UInt8)} (hphase : task.phase = .releasing result) :
      JobStep config session job task .release
        { session.setJob job { task with phase := .reporting result } with
          permits := session.permits + 1 }
  | snapshot {result : Except String (List UInt8)} (hphase : task.phase = .reporting result) :
      JobStep config session job task .snapshot (session.setJob job
        { task with phase := .sending result (UInt32.ofNat session.permits) })
  | report {result : Except String (List UInt8)} {freeSlots : UInt32}
      (hphase : task.phase = .sending result freeSlots) (hwriting : session.writing = true) :
      JobStep config session job task .report
        ((session.send (task.resultFrame config result freeSlots)).1.setJob job
          { task with phase := .awaiting, ack := some session.acks.length })
  | unreported {result : Except String (List UInt8)} {freeSlots : UInt32}
      (hphase : task.phase = .sending result freeSlots) (hwriting : session.writing = false) :
      JobStep config session job task .report
        (session.setJob job { task with phase := .finished (.error .stopped) })
  | resume {ack : Nat} {wrote : Bool} (hphase : task.phase = .awaiting) (htask : task.ack = some ack)
      (hack : session.acks[ack]? = some (some wrote)) :
      JobStep config session job task .resume (session.setJob job
        { task with phase := .finished (if wrote then .ok () else .error .stopped) })

theorem stepJob_cases {config : Config P} {session session' : Session P} {job : Nat}
    {task : JobTask P} {action : JobTask.Action}
    (h : session.stepJob config job task action = some session') :
    JobStep config session job task action session' := by
  cases action with
  | parse =>
    simp only [stepJob] at h
    split at h
    · next hphase =>
      cases hparse : config.parse task.payload with
      | ok payload =>
        simp only [hparse, Option.some.injEq] at h
        subst h
        exact .parsed hphase hparse
      | error message =>
        simp only [hparse, Option.some.injEq] at h
        subst h
        exact .invalid hphase hparse
    · cases h
  | acquire =>
    simp only [stepJob] at h
    split at h
    · next hphase =>
      split at h
      · cases h
      · next hfree =>
        cases h
        exact .acquire hphase hfree
    · cases h
  | complete result =>
    simp only [stepJob] at h
    split at h
    · next hphase =>
      cases h
      exact .complete hphase
    · cases h
  | panic =>
    simp only [stepJob] at h
    split at h
    · next hphase =>
      cases h
      exact .panic hphase
    · cases h
  | release =>
    simp only [stepJob] at h
    split at h
    · next hphase =>
      cases h
      exact .release hphase
    · cases h
  | snapshot =>
    simp only [stepJob] at h
    split at h
    · next hphase =>
      cases h
      exact .snapshot hphase
    · cases h
  | report =>
    simp only [stepJob] at h
    split at h
    · next result freeSlots hphase =>
      cases hwriting : session.writing with
      | true =>
        have hsend : session.send (task.resultFrame config result freeSlots) =
            ((session.send (task.resultFrame config result freeSlots)).1,
              some session.acks.length) := by
          simp [send, hwriting]
        rw [hsend] at h
        cases h
        exact .report hphase hwriting
      | false =>
        simp only [send, hwriting, Bool.false_eq_true, ↓reduceIte, Option.some.injEq] at h
        cases h
        exact .unreported hphase hwriting
    · cases h
  | resume =>
    simp only [stepJob] at h
    split at h
    · next hphase =>
      cases hack : task.ack with
      | none => simp [hack] at h
      | some ack =>
        have hbind : (task.ack.bind fun ack => session.acks[ack]?) = session.acks[ack]? := by
          simp [hack]
        rw [hbind] at h
        split at h
        · next hwritten =>
          cases h
          exact .resume hphase hack hwritten
        · next hdropped =>
          cases h
          exact .resume hphase hack hdropped
        · cases h
    · cases h

/-- What a step of a session can be. -/
inductive Transition (config : Config P) (codec : Codec) (session : Session P) :
    Action → Session P → Prop
  | shutdown (hserve : session.serve = .selecting) (hstate : session.state = .serving)
      (hwriting : session.writing = true) :
      Transition config codec session .shutdown
        { (session.send .drain).1 with serve := .announcing session.acks.length }
  | unsent (hserve : session.serve = .selecting) (hwriting : session.writing = false) :
      Transition config codec session .shutdown (session.fail .stopped)
  | drained {ack : Nat} (hserve : session.serve = .announcing ack)
      (hack : session.acks[ack]? = some (some true)) :
      Transition config codec session .drainWritten { session with state := .awaitingDrain }.loop
  | undrained {ack : Nat} (hserve : session.serve = .announcing ack)
      (hack : session.acks[ack]? = some (some false)) :
      Transition config codec session .drainWritten (session.fail .stopped)
  | writerStopped (hserve : session.serve = .selecting) (hwriting : session.writing = false) :
      Transition config codec session .writerStopped (session.fail .stopped)
  | join {job : Nat} {task : JobTask P} (hserve : session.serve = .selecting)
      (htask : session.jobs[job]? = some task) (hphase : task.phase = .finished (.ok ())) :
      Transition config codec session (.join job)
        (session.setJob job { task with phase := .joined }).loop
  | joinError {job : Nat} {task : JobTask P} {error : WorkerRunError}
      (hserve : session.serve = .selecting) (htask : session.jobs[job]? = some task)
      (hphase : task.phase = .finished (.error error) ∨ task.phase = .panicked) :
      Transition config codec session (.join job)
        ((session.setJob job { task with phase := .joined }).fail error)
  | receive {message : WorkerMessage} (hserve : session.serve = .selecting) :
      Transition config codec session (.receive (.ok message))
        ({ session with received := session.received ++ [message] }.handle config message)
  | broken {error : ProtocolError} (hserve : session.serve = .selecting) :
      Transition config codec session (.receive (.error error)) (session.fail (.protocol error))
  | job {job : Nat} {task : JobTask P} {action : JobTask.Action} {session' : Session P}
      (htask : session.jobs[job]? = some task) (hlive : session.returned = false)
      (hstep : JobStep config session job task action session') :
      Transition config codec session (.job job action) session'
  | heartbeat (hlive : session.returned = false) :
      Transition config codec session .heartbeat (session.sendUnacknowledged .heartbeat)
  | write {frame : OutboundFrame} {rest : List OutboundFrame} {accepted : Bool}
      (hserve : ∀ error, session.serve ≠ .returned (.error error))
      (hwriting : session.writing = true) (hchannel : session.channel = frame :: rest) :
      Transition config codec session (.write accepted)
        (session.writeNext codec frame rest accepted)

theorem step_transition {config : Config P} {codec : Codec} {session session' : Session P}
    {action : Action} {event : Unit} (h : session.step config codec action = some (session', event)) :
    Transition config codec session action session' := by
  cases action with
  | shutdown =>
    simp only [step] at h
    split at h
    · next hserve =>
      split at h
      · next hstate =>
        cases hwriting : session.writing with
        | true =>
          have hshutdown : session.shutdown =
              { (session.send .drain).1 with serve := .announcing session.acks.length } := by
            simp [Session.shutdown, send, hwriting]
          rw [hshutdown] at h
          cases h
          exact .shutdown hserve hstate hwriting
        | false =>
          have hshutdown : session.shutdown = session.fail .stopped := by
            simp [Session.shutdown, send, hwriting]
          rw [hshutdown] at h
          cases h
          exact .unsent hserve hwriting
      · cases h
    · cases h
  | drainWritten =>
    simp only [step] at h
    split at h
    · next hserve =>
      split at h
      · next hack =>
        cases h
        exact .drained hserve hack
      · next hack =>
        cases h
        exact .undrained hserve hack
      · cases h
    · cases h
  | writerStopped =>
    simp only [step] at h
    split at h
    · next hserve =>
      split at h
      · cases h
      · next hwriting =>
        cases h
        exact .writerStopped hserve (Bool.eq_false_iff.mpr hwriting)
    · cases h
  | join job =>
    obtain ⟨task, htask, h⟩ := Option.bind_eq_some_iff.mp h
    split at h
    · next hserve =>
      obtain ⟨joined, hjoined, heq⟩ := Option.map_eq_some_iff.mp h
      obtain ⟨rfl, -⟩ := Prod.mk.inj heq
      unfold joinTask at hjoined
      split at hjoined
      · next hphase =>
        cases hjoined
        exact .join hserve htask hphase
      · next error hphase =>
        cases hjoined
        exact .joinError hserve htask (Or.inl hphase)
      · next hphase =>
        cases hjoined
        exact .joinError hserve htask (Or.inr hphase)
      · cases hjoined
    · cases h
  | receive input =>
    simp only [step] at h
    split at h
    · next hserve =>
      split at h
      · cases h
        exact .receive hserve
      · cases h
        exact .broken hserve
    · cases h
  | job job action =>
    obtain ⟨task, htask, h⟩ := Option.bind_eq_some_iff.mp h
    split at h
    · cases h
    · next hlive =>
      obtain ⟨after, hafter, heq⟩ := Option.map_eq_some_iff.mp h
      obtain ⟨rfl, -⟩ := Prod.mk.inj heq
      exact .job htask (Bool.eq_false_iff.mpr hlive) (stepJob_cases hafter)
  | heartbeat =>
    simp only [step] at h
    split at h
    · cases h
    · next hlive =>
      cases h
      exact .heartbeat (Bool.eq_false_iff.mpr hlive)
  | write accepted =>
    simp only [step] at h
    split at h
    · cases h
    · next hwriting hchannel hserve =>
      cases h
      exact .write (fun error heq => hserve error heq) hwriting hchannel
    · cases h

section Transition

variable {config : Config P} {codec : Codec} {session session' : Session P} {action : Action}

theorem JobStep.received {job : Nat} {task : JobTask P} {action : JobTask.Action}
    (h : JobStep config session job task action session') :
    session'.received = session.received := by
  cases h with
  | report => exact send_received _ _
  | _ => rfl

/-- Only the read brings messages to `serve`. -/
theorem Transition.received (h : Transition config codec session action session')
    (hread : ∀ message, action ≠ .receive (.ok message)) :
    session'.received = session.received := by
  cases h with
  | receive => exact absurd rfl (hread _)
  | job _ _ hstep => exact hstep.received
  | shutdown => exact send_received _ _
  | heartbeat =>
    unfold sendUnacknowledged
    split <;> rfl
  | write =>
    unfold writeNext
    split <;> rfl
  | unsent | drained | undrained | writerStopped | join | joinError | broken => rfl

theorem Transition.read {message : WorkerMessage}
    (h : Transition config codec session (.receive (.ok message)) session') :
    session.serve = .selecting ∧
      session' = { session with received := session.received ++ [message] }.handle config message := by
  cases h with
  | receive hserve => exact ⟨hserve, rfl⟩

/-- What a step sends: nothing, a heartbeat, `Drain` at the shutdown, or the result of a job with
the slots that it read before. -/
inductive SentStep (config : Config P) (session session' : Session P) : Action → Prop
  | same {action : Action} (hsent : session'.sent = session.sent) :
      SentStep config session session' action
  | heartbeat {action : Action} (hsent : session'.sent = session.sent ++ [⟨.heartbeat, none⟩]) :
      SentStep config session session' action
  | drain (hsent : session'.sent = session.sent ++ [⟨.drain, some session.acks.length⟩]) :
      SentStep config session session' .shutdown
  | result {job : Nat} {task : JobTask P} {result : Except String (List UInt8)} {freeSlots : UInt32}
      (htask : session.jobs[job]? = some task) (hphase : task.phase = .sending result freeSlots)
      (hsent : session'.sent = session.sent ++
        [⟨task.resultFrame config result freeSlots, some session.acks.length⟩]) :
      SentStep config session session' (.job job .report)

theorem handle_sent (config : Config P) (session : Session P) (message : WorkerMessage) :
    (session.handle config message).sent = session.sent := by
  unfold handle
  split <;> first | rfl | (split <;> rfl)

theorem Transition.sent (h : Transition config codec session action session') :
    SentStep config session session' action := by
  cases h with
  | shutdown hserve hstate hwriting =>
    exact .drain (by simp [send, hwriting])
  | heartbeat =>
    unfold sendUnacknowledged
    split
    · exact .heartbeat rfl
    · exact .same rfl
  | job htask hlive hstep =>
    cases hstep with
    | report hphase hwriting => exact .result htask hphase (by simp [send, hwriting, setJob])
    | _ => exact .same rfl
  | receive => exact .same (handle_sent _ _ _)
  | write =>
    unfold writeNext
    split <;> exact .same rfl
  | unsent | drained | undrained | writerStopped | join | joinError | broken => exact .same rfl

/-- What was written stays written. -/
theorem Transition.written_grows (h : Transition config codec session action session') :
    session.written <+: session'.written := by
  cases h with
  | write =>
    unfold writeNext
    split
    · exact List.prefix_append _ _
    · exact List.prefix_refl _
  | shutdown =>
    unfold send
    split <;> exact List.prefix_refl _
  | heartbeat =>
    unfold sendUnacknowledged
    split <;> exact List.prefix_refl _
  | receive =>
    unfold handle
    split <;> first | exact List.prefix_refl _ | (split <;> exact List.prefix_refl _)
  | job _ _ hstep =>
    cases hstep with
    | report =>
      unfold send
      split <;> exact List.prefix_refl _
    | _ => exact List.prefix_refl _
  | unsent | drained | undrained | writerStopped | join | joinError | broken =>
    exact List.prefix_refl _

/-- A session that has returned only writes. -/
theorem Transition.of_returned (h : Transition config codec session action session')
    (hreturned : session.returned = true) :
    session'.serve = session.serve ∧ session'.received = session.received := by
  cases h with
  | write =>
    unfold writeNext
    split <;> exact ⟨rfl, rfl⟩
  | job _ hlive => simp [hreturned] at hlive
  | heartbeat hlive => simp [hreturned] at hlive
  | shutdown hserve | unsent hserve | drained hserve | undrained hserve | writerStopped hserve
  | join hserve | joinError hserve | receive hserve | broken hserve =>
    simp [Session.returned, hserve] at hreturned

end Transition

end Session

end Maqistor.Sdk
