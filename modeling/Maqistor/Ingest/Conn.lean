import Maqistor.Types
import Mathlib.Data.List.Sort

/-! The ingest database and the writer's calls on it, as `IngestConn` runs them. The writer keeps
the known queue names in memory and passes them to the calls that check them. -/

namespace Maqistor

/-- A row taken by `claim_batch`. -/
structure IngestClaimed where
  id : Int
  name : String
  payload : List UInt8
  timeoutSecs : UInt64
  dispatchId : String
  createdAt : Int
deriving DecidableEq, Repr

/-- A row that `claim_batch` is about to take. -/
structure PendingClaim where
  id : Int
  name : String
  payload : List UInt8
  createdAt : Int
  timeoutSecs : UInt64
deriving DecidableEq, Repr

structure IngestConn where
  jobQueues : List JobQueue
  acceptedJobs : List AcceptedJob
deriving DecidableEq, Repr

namespace IngestConn

def queueNames (conn : IngestConn) : List String := conn.jobQueues.map JobQueue.name

/-- `SELECT .. FROM accepted_jobs WHERE id = ?1`. -/
def acceptedRow (conn : IngestConn) (jobId : Int) : Except StoreError AcceptedJob :=
  match Table.lookup AcceptedJob.id jobId conn.acceptedJobs with
  | none => .error (.notFound jobId)
  | some row => .ok row

def upsertQueue (env : Env) (queue : JobQueue) (conn : IngestConn) :
    IngestConn × Except StoreError JobQueue :=
  match upsertQueueRow env.now queue conn.jobQueues with
  | .error error => (conn, .error error)
  | .ok (queues, reply) => ({ conn with jobQueues := queues }, .ok reply)

/-! ### `enqueue_batch` -/

/-- The row that `INSERT INTO accepted_jobs` makes of a job: it starts without a dispatch id. -/
def acceptedOf (rows : List AcceptedJob) (job : AcceptedJob) : AcceptedJob :=
  { job with id := Table.nextRowid (rows.map AcceptedJob.id), dispatchId := none }

/-- The rows of one `INSERT`, in `VALUES` order; `queue_name` refers to a queue. -/
def insertJobs (queues : List JobQueue) : List AcceptedJob → List AcceptedJob →
    Except StoreError (List AcceptedJob)
  | [], rows => .ok rows
  | job :: rest, rows =>
    if job.queueName ∈ queues.map JobQueue.name then
      insertJobs queues rest (rows ++ [acceptedOf rows job])
    else .error foreignKeyViolation

/-- `last_insert_rowid`: the id of the row appended last. -/
def lastInsertRowid (rows : List AcceptedJob) : Int := (rows.getLast?.map AcceptedJob.id).getD 0

/-- One statement of `enqueue_batch`, with the jobs that have their ids so far. -/
def enqueueChunk (queues : List JobQueue) (state : List AcceptedJob × List AcceptedJob)
    (chunk : List AcceptedJob) : Except StoreError (List AcceptedJob × List AcceptedJob) := do
  let rows ← insertJobs queues chunk state.1
  let firstId := lastInsertRowid rows - chunk.length + 1
  return (rows, state.2 ++ chunk.zipIdx.map fun item =>
    { item.1 with id := firstId + (item.2 : Int) })

/-- The replies of a batch, in its order: a job of an unknown queue was never inserted. -/
def enqueueReplies (queueNames : List String) :
    List AcceptedJob → List (Except StoreError AcceptedJob) →
    List (Except StoreError AcceptedJob)
  | [], _ => []
  | job :: rest, inserted =>
    if job.queueName ∈ queueNames then
      (inserted.headD (.ok job)) :: enqueueReplies queueNames rest inserted.tail
    else .error (.queueNotFound job.queueName) :: enqueueReplies queueNames rest inserted

def enqueueBatch (batch : List AcceptedJob) (queueNames : List String) (conn : IngestConn) :
    IngestConn × List (Except StoreError AcceptedJob) :=
  let toInsert := batch.filter fun job => job.queueName ∈ queueNames
  match (Table.chunks rowsPerStatement toInsert).foldlM (enqueueChunk conn.jobQueues)
      (conn.acceptedJobs, []) with
  | .error error =>
    (conn, enqueueReplies queueNames batch (toInsert.map fun _ => .error error))
  | .ok (rows, jobs) =>
    ({ conn with acceptedJobs := rows }, enqueueReplies queueNames batch (jobs.map .ok))

/-! ### `claim_batch` -/

/-- `ORDER BY created_at ASC, id ASC`. -/
def claimOrder (a b : AcceptedJob) : Prop :=
  a.createdAt < b.createdAt ∨ a.createdAt = b.createdAt ∧ a.id ≤ b.id

instance : DecidableRel claimOrder := fun _ _ => inferInstanceAs (Decidable (_ ∨ _))

def pendingClaim (row : AcceptedJob) (queue : JobQueue) : PendingClaim :=
  { id := row.id, name := row.queueName, payload := row.payload, createdAt := row.createdAt,
    timeoutSecs := queue.timeoutSecs }

/-- The first unclaimed rows of a queue, joined with the queue. -/
def pendingClaims (queueName : String) (limit : Nat) (conn : IngestConn) : List PendingClaim :=
  (((conn.acceptedJobs.filter fun row => row.queueName = queueName ∧ row.dispatchId = none
    ).insertionSort claimOrder).filterMap fun row =>
      (Table.lookup JobQueue.name row.queueName conn.jobQueues).map (pendingClaim row)).take limit

/-- `SET dispatch_id = v.dispatch_id, updated_at = v.updated_at`. -/
def marked (now : Int) (row : AcceptedJob) (dispatchId : String) : AcceptedJob :=
  { row with dispatchId := some dispatchId, updatedAt := now }

def toClaimed (item : PendingClaim × String) : IngestClaimed :=
  { id := item.1.id, name := item.1.name, payload := item.1.payload,
    timeoutSecs := item.1.timeoutSecs, dispatchId := item.2, createdAt := item.1.createdAt }

/-- One statement of `claim_batch`: the rows it updated, by id, are the claimed ones. -/
def claimChunk (env : Env) (state : List AcceptedJob × List IngestClaimed)
    (chunk : List (PendingClaim × String)) : List AcceptedJob × List IngestClaimed :=
  let (rows, returned) := Table.updateFrom env.choice
    (fun row (item : PendingClaim × String) => marked env.now row item.2)
    (fun row item => row.id = item.1.id ∧ row.dispatchId = none) chunk state.1
  (rows, state.2 ++ chunk.filterMap fun item =>
    ((Table.lookup AcceptedJob.id item.1.id returned).bind AcceptedJob.dispatchId).map
      fun dispatchId => toClaimed (item.1, dispatchId))

/-- `limit.clamp(1, MAX_CLAIM_BATCH_SIZE)`. -/
def clampLimit (limit : Nat) : Nat := min (max limit 1) maxClaimBatchSize

/-- `claim_batch`; `newDispatchId i` is the id drawn for the `i`-th row. -/
def claimBatch (env : Env) (newDispatchId : Nat → String) (queueName : String) (limit : Nat)
    (queueNames : List String) (conn : IngestConn) :
    IngestConn × Except StoreError (List IngestClaimed) :=
  if queueName ∈ queueNames then
    let pending := pendingClaims queueName (clampLimit limit) conn
    let items := pending.zipIdx.map fun item => (item.1, newDispatchId item.2)
    let (rows, claimed) := (Table.chunks rowsPerStatement items).foldl (claimChunk env)
      (conn.acceptedJobs, [])
    ({ conn with acceptedJobs := rows }, .ok claimed)
  else (conn, .error (.queueNotFound queueName))

/-! ### The other calls -/

/-- `SET dispatch_id = NULL, updated_at = v.updated_at`. -/
def released (now : Int) (row : AcceptedJob) : AcceptedJob :=
  { row with dispatchId := none, updatedAt := now }

/-- `repend_batch`: each statement commits on its own, and none of them can fail half way. -/
def rependBatch (env : Env) (pairs : List (Int × String)) (conn : IngestConn) : IngestConn :=
  { conn with
    acceptedJobs := (Table.chunks rowsPerStatement pairs).foldl (fun rows chunk =>
      (Table.updateFrom env.choice (fun row _ => released env.now row)
        (fun row (pair : Int × String) => row.id = pair.1 ∧ row.dispatchId = some pair.2)
        chunk rows).1) conn.acceptedJobs }

def repend (env : Env) (jobId : Int) (dispatchId : String) (conn : IngestConn) : IngestConn :=
  conn.rependBatch env [(jobId, dispatchId)]

def cleanupExpiredRecords (cutoff : Int) (conn : IngestConn) : IngestConn × Nat :=
  ({ conn with acceptedJobs := conn.acceptedJobs.filter fun row => !(row.createdAt < cutoff) },
    (conn.acceptedJobs.filter fun row => row.createdAt < cutoff).length)

end IngestConn

end Maqistor
