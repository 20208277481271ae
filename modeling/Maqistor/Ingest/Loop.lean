import Maqistor.Ingest.Conn
import Maqistor.Lib.WriterCalls

/-! The ingest writer: what its loop runs on the connection, and the loop itself with its lanes
`meta`, `claim` and `ingest`. -/

namespace Maqistor

namespace IngestConn

inductive Request where
  | upsertQueue (queue : JobQueue)
  | enqueue (job : AcceptedJob)
  | claimBatch (queueName : String) (limit : Nat)
  | repend (jobId : Int) (dispatchId : String)
  | cleanupExpiredRecords (cutoff : Int)
  | vacuum
deriving DecidableEq, Repr

inductive Response where
  | queue (queue : JobQueue)
  | accepted (job : AcceptedJob)
  | claimed (rows : List IngestClaimed)
  | repended
  | deleted (rows : Nat)
  | vacuumed
deriving DecidableEq, Repr

/-- The job of an enqueue request. -/
def Request.job? : Request → Option AcceptedJob
  | .enqueue job => some job
  | _ => none

end IngestConn

/-- The connection with the queue names that the loop holds. -/
structure IngestWriter where
  conn : IngestConn
  queueNames : List String
deriving DecidableEq, Repr

namespace IngestWriter

open IngestConn

/-- What a call takes from outside: the clock and the choices of SQL, the dispatch ids it draws,
and the error with which the database refuses it, if it does. -/
structure Turn where
  env : Env
  newDispatchId : Nat → String
  fault : Option StoreError

/-- `enqueue_batch`; a job of an unknown queue is answered before the transaction begins. -/
def enqueueBatch (turn : Turn) (batch : List AcceptedJob) (writer : IngestWriter) :
    IngestWriter × List (Except StoreError AcceptedJob) :=
  match turn.fault with
  | none =>
    let (conn, replies) := writer.conn.enqueueBatch batch writer.queueNames
    ({ writer with conn := conn }, replies)
  | some error =>
    (writer, enqueueReplies writer.queueNames batch
      ((batch.filter fun job => job.queueName ∈ writer.queueNames).map fun _ => .error error))

/-- `claim_batch`; an unknown queue is refused before the transaction begins. -/
def claimBatch (turn : Turn) (queueName : String) (limit : Nat) (writer : IngestWriter) :
    IngestWriter × Except StoreError (List IngestClaimed) :=
  match turn.fault with
  | none =>
    let (conn, result) := writer.conn.claimBatch turn.env turn.newDispatchId queueName limit
      writer.queueNames
    ({ writer with conn := conn }, result)
  | some error =>
    (writer, .error (if queueName ∈ writer.queueNames then error else .queueNotFound queueName))

/-- `upsert_queue`, with the name that `handle` adds to the known ones. -/
def upsertQueue (turn : Turn) (queue : JobQueue) (writer : IngestWriter) :
    IngestWriter × Except StoreError JobQueue :=
  match turn.fault with
  | none =>
    match writer.conn.upsertQueue turn.env queue with
    | (conn, .error error) => ({ writer with conn := conn }, .error error)
    | (conn, .ok reply) => (⟨conn, writer.queueNames.insert queue.name⟩, .ok reply)
  | some error => (writer, .error error)

/-- A statement that only the database itself can refuse. -/
def perform (turn : Turn) (conn : IngestConn) (response : Response) (writer : IngestWriter) :
    IngestWriter × Except StoreError Response :=
  match turn.fault with
  | none => ({ writer with conn := conn }, .ok response)
  | some error => (writer, .error error)

/-- `handle`: one request on its own. `VACUUM` rebuilds the file and keeps the rows. -/
def handle (turn : Turn) (writer : IngestWriter) :
    Request → IngestWriter × Except StoreError Response
  | .upsertQueue queue =>
    let (writer, result) := writer.upsertQueue turn queue
    (writer, result.map .queue)
  | .enqueue job =>
    let (writer, replies) := writer.enqueueBatch turn [job]
    (writer, (replies.headD (.ok job)).map .accepted)
  | .claimBatch queueName limit =>
    let (writer, result) := writer.claimBatch turn queueName limit
    (writer, result.map .claimed)
  | .repend jobId dispatchId =>
    writer.perform turn (writer.conn.repend turn.env jobId dispatchId) .repended
  | .cleanupExpiredRecords cutoff =>
    let (conn, deleted) := writer.conn.cleanupExpiredRecords cutoff
    writer.perform turn conn (.deleted deleted)
  | .vacuum => writer.perform turn writer.conn .vacuumed

/-- The queue that `IngestQueues::push` puts a request into. -/
def lane : Request → WriterLoop.Lane
  | .enqueue _ => .batched
  | .claimBatch _ _ => .single
  | .upsertQueue _ | .repend _ _ | .cleanupExpiredRecords _ | .vacuum => .first

/-- The requests that end an open batch in `run_ingest_turn`. -/
def preempts : Request → Bool
  | .claimBatch _ _ | .upsertQueue _ | .repend _ _ => true
  | _ => false

/-- The claims go before the enqueues. -/
def select (claim ingest : List Request) : Option WriterLoop.Lane :=
  if claim ≠ [] then some .single
  else if ingest ≠ [] then some .batched
  else none

/-- `ingest_writer_loop`: after the loop it empties every queue. -/
def loop : WriterLoop.Spec Request IngestWriter (Except StoreError Response) Turn where
  lane := lane
  preempts := preempts
  handle := handle
  batch turn writer requests :=
    let (writer, replies) := writer.enqueueBatch turn (requests.filterMap Request.job?)
    (writer, replies.map fun reply => reply.map .accepted)
  select _ claim ingest := select claim ingest
  drainsSingle _ := true

@[simp] theorem length_enqueueReplies (queueNames : List String) (batch : List AcceptedJob)
    (inserted : List (Except StoreError AcceptedJob)) :
    (enqueueReplies queueNames batch inserted).length = batch.length := by
  induction batch generalizing inserted with
  | nil => rfl
  | cons job rest ih =>
    rw [enqueueReplies]
    split <;> simp [ih]

/-- A batch answers every one of its jobs, whatever the database does. -/
theorem length_enqueueBatch (turn : Turn) (batch : List AcceptedJob) (writer : IngestWriter) :
    (writer.enqueueBatch turn batch).2.length = batch.length := by
  unfold enqueueBatch
  split
  · simp only [IngestConn.enqueueBatch]
    split <;> simp
  · simp

theorem length_jobs {requests : List Request}
    (h : ∀ request ∈ requests, loop.lane request = .batched) :
    (requests.filterMap Request.job?).length = requests.length := by
  rw [List.length_filterMap_eq_countP, List.countP_eq_length]
  intro request hrequest
  have hlane := h request hrequest
  cases request <;> first | rfl | cases hlane

theorem loop_sound : loop.Sound fun _ => True := by
  constructor
  · intro turn writer batch hbatch
    simp only [loop, List.length_map]
    rw [length_enqueueBatch, length_jobs hbatch]
  · intro turn claim ingest _ hqueued
    simp only [loop, select]
    split
    · next hclaim => exact Or.inl ⟨rfl, hclaim⟩
    · next hclaim =>
      have hingest := hqueued.resolve_left hclaim
      exact Or.inr ⟨if_pos hingest, hingest⟩
  · rfl

/-! ### What a call executes -/

/-- The error of a request that the database refuses; an unknown queue is noticed before. -/
def refusal (error : StoreError) (writer : IngestWriter) : Request → StoreError
  | .enqueue job => if job.queueName ∈ writer.queueNames then error else .queueNotFound job.queueName
  | .claimBatch queueName _ =>
    if queueName ∈ writer.queueNames then error else .queueNotFound queueName
  | _ => error

/-- What one call executes on the connection, and its replies: the operation that the requests ask
for, or nothing when the database refuses it. -/
inductive Executes (turn : Turn) (writer : IngestWriter) :
    List Request → IngestWriter → List (Except StoreError Response) → Prop
  | queueKept {queue row conn} : turn.fault = none →
      writer.conn.upsertQueue turn.env queue = (conn, .ok row) →
      Executes turn writer [.upsertQueue queue] ⟨conn, writer.queueNames.insert queue.name⟩
        [.ok (.queue row)]
  | queueFailed {queue error conn} : turn.fault = none →
      writer.conn.upsertQueue turn.env queue = (conn, .error error) →
      Executes turn writer [.upsertQueue queue] ⟨conn, writer.queueNames⟩ [.error error]
  | enqueued {jobs results conn} : turn.fault = none →
      writer.conn.enqueueBatch jobs writer.queueNames = (conn, results) →
      Executes turn writer (jobs.map .enqueue) ⟨conn, writer.queueNames⟩
        (results.map (Except.map .accepted))
  | claimed {queueName limit result conn} : turn.fault = none →
      writer.conn.claimBatch turn.env turn.newDispatchId queueName limit writer.queueNames =
        (conn, result) →
      Executes turn writer [.claimBatch queueName limit] ⟨conn, writer.queueNames⟩
        [result.map .claimed]
  | repended {jobId dispatchId} : turn.fault = none →
      Executes turn writer [.repend jobId dispatchId]
        ⟨writer.conn.repend turn.env jobId dispatchId, writer.queueNames⟩ [.ok .repended]
  | cleaned {cutoff deleted conn} : turn.fault = none →
      writer.conn.cleanupExpiredRecords cutoff = (conn, deleted) →
      Executes turn writer [.cleanupExpiredRecords cutoff] ⟨conn, writer.queueNames⟩
        [.ok (.deleted deleted)]
  | vacuumed : turn.fault = none → Executes turn writer [.vacuum] writer [.ok .vacuumed]
  | refused {requests error} : turn.fault = some error →
      Executes turn writer requests writer
        (requests.map fun request => .error (writer.refusal error request))

theorem enqueueReplies_refused (writer : IngestWriter) (error : StoreError) (jobs : List AcceptedJob) :
    (enqueueReplies writer.queueNames jobs
        ((jobs.filter fun job => job.queueName ∈ writer.queueNames).map fun _ => .error error)).map
        (Except.map Response.accepted) =
      (jobs.map Request.enqueue).map fun request => .error (writer.refusal error request) := by
  induction jobs with
  | nil => rfl
  | cons job rest ih =>
    rw [enqueueReplies, List.map_cons, List.map_cons, ← ih]
    by_cases hknown : job.queueName ∈ writer.queueNames <;> simp [hknown, refusal, Except.map]

theorem eq_enqueues {requests : List Request}
    (h : ∀ request ∈ requests, loop.lane request = .batched) :
    requests = (requests.filterMap Request.job?).map .enqueue := by
  induction requests with
  | nil => rfl
  | cons request rest ih =>
    have hlane := h request List.mem_cons_self
    rw [List.forall_mem_cons] at h
    cases request with
    | enqueue job => simpa [Request.job?] using ih h.2
    | _ => cases hlane

theorem loop_performs : loop.Performs Executes := by
  constructor
  · intro turn writer request hlane
    rcases hfault : turn.fault with _ | error
    · cases request with
      | upsertQueue queue =>
        rcases hupsert : writer.conn.upsertQueue turn.env queue with ⟨conn, error | row⟩
        · simpa [loop, handle, upsertQueue, hfault, hupsert, Except.map] using
            Executes.queueFailed hfault hupsert
        · simpa [loop, handle, upsertQueue, hfault, hupsert, Except.map] using
            Executes.queueKept hfault hupsert
      | enqueue job => exact absurd rfl hlane
      | claimBatch queueName limit =>
        simp only [loop, handle, claimBatch, hfault]
        exact .claimed hfault rfl
      | repend jobId dispatchId =>
        simp only [loop, handle, perform, hfault]
        exact .repended hfault
      | cleanupExpiredRecords cutoff =>
        simp only [loop, handle, perform, hfault]
        exact .cleaned hfault rfl
      | vacuum =>
        simp only [loop, handle, perform, hfault]
        exact .vacuumed hfault
    · have hrefused : Executes turn writer [request] writer [.error (writer.refusal error request)] :=
        .refused hfault
      cases request with
      | enqueue job => exact absurd rfl hlane
      | _ => simpa [loop, handle, perform, upsertQueue, claimBatch, hfault, refusal, Except.map] using hrefused
  · intro turn writer requests hrequests
    have heq := eq_enqueues hrequests
    generalize hjobs : requests.filterMap Request.job? = jobs at heq
    subst heq
    simp only [loop, hjobs]
    rcases hfault : turn.fault with _ | error
    · simp only [enqueueBatch, hfault]
      exact .enqueued hfault rfl
    · simp only [enqueueBatch, hfault]
      rw [enqueueReplies_refused]
      exact Executes.refused hfault

end IngestWriter

end Maqistor
