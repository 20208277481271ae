import Maqistor.Types

/-! The results database and the writer's calls on it, as `ResultsConn` runs them: each call is one
transaction, so a call that fails leaves the tables as they were. -/

namespace Maqistor

structure DispatchInsert where
  jobId : Int
  queueName : String
  dispatchId : String
  leaseExpiresAt : Int
deriving DecidableEq, Repr

structure DispatchedExecution where
  jobId : Int
  executionCount : Int
  dispatchId : String
  leaseExpiresAt : Int
  updatedAt : Int
deriving DecidableEq, Repr

inductive CompletionDisposition where
  | ignored
  | completed
  | repend
deriving DecidableEq, Repr

structure RecoveredStale where
  jobId : Int
  dispatchId : String
  shouldRepend : Bool
deriving DecidableEq, Repr

/-- A completion request; its reply is the disposition at its place in the batch. -/
structure PendingCompletion where
  jobId : Int
  dispatchId : String
  outcome : JobOutcome
deriving DecidableEq, Repr

/-- The key by which the store recognises an attempt. -/
def PendingCompletion.key (request : PendingCompletion) : Int × String :=
  (request.jobId, request.dispatchId)

def Execution.key (row : Execution) : Int × String := (row.jobId, row.dispatchId)

structure ResultsConn where
  executionQueues : List JobQueue
  executions : List Execution
deriving DecidableEq, Repr

namespace ResultsConn

/-- The execution of a job: `job_id` is a unique column. -/
def execution (conn : ResultsConn) (jobId : Int) : Option Execution :=
  Table.lookup Execution.jobId jobId conn.executions

/-- `SELECT .. FROM executions WHERE job_id = ?1` by `row_to_execution`. -/
def readExecution (conn : ResultsConn) (jobId : Int) : Except StoreError (Option Execution) :=
  match conn.execution jobId with
  | none => .ok none
  | some row => do
    let _ ← rowCount row.executionCount
    return some row

theorem readExecution_of_lookup {conn : ResultsConn} {jobId : Int} {row : Execution}
    (h : Table.lookup Execution.jobId jobId conn.executions = some row)
    (hcount : FitsU32 row.executionCount) : conn.readExecution jobId = .ok (some row) := by
  rw [readExecution, execution, h]
  simp only [rowCount_of_fits hcount]
  rfl

def upsertQueue (env : Env) (queue : JobQueue) (conn : ResultsConn) :
    ResultsConn × Except StoreError JobQueue :=
  match upsertQueueRow env.now queue conn.executionQueues with
  | .error error => (conn, .error error)
  | .ok (queues, reply) => ({ conn with executionQueues := queues }, .ok reply)

/-! ### `dispatch_batch` -/

/-- The insert arm of the dispatch upsert. -/
def inserted (now : Int) (row : DispatchInsert) (executions : List Execution) : Execution :=
  { id := Table.nextRowid (executions.map Execution.id), jobId := row.jobId,
    queueName := row.queueName, status := .running, executionCount := 1,
    leaseExpiresAt := some row.leaseExpiresAt, dispatchId := row.dispatchId,
    resultPayload := none, resultError := none, createdAt := now, updatedAt := now }

/-- The conflict arm of the dispatch upsert. -/
def redispatched (now : Int) (row : DispatchInsert) (current : Execution) : Execution :=
  { current with
    status := .running, executionCount := current.executionCount + 1,
    dispatchId := row.dispatchId, leaseExpiresAt := some row.leaseExpiresAt,
    resultPayload := none, resultError := none, updatedAt := now }

/-- One row of the upsert: the table after it and the row it returns. The `WHERE` of the conflict
arm skips a row that is neither failed nor pending; `dispatch_id` is unique and `queue_name` refers
to a queue. -/
def upsertExecution (now : Int) (queues : List JobQueue) (row : DispatchInsert)
    (executions : List Execution) : Except StoreError (List Execution × Option Execution) :=
  match Table.lookup Execution.jobId row.jobId executions with
  | some current =>
    if current.status = .failed ∨ current.status = .pending then
      if executions.any fun other => other.jobId ≠ row.jobId ∧ other.dispatchId = row.dispatchId
      then .error uniqueViolation
      else .ok (executions.map fun other =>
          if other.jobId = row.jobId then redispatched now row other else other,
        some (redispatched now row current))
    else .ok (executions, none)
  | none =>
    if executions.any fun other => other.dispatchId = row.dispatchId then .error uniqueViolation
    else if row.queueName ∈ queues.map JobQueue.name then
      .ok (executions ++ [inserted now row executions], some (inserted now row executions))
    else .error foreignKeyViolation

/-- The rows of one `INSERT .. ON CONFLICT(job_id) DO UPDATE .. RETURNING`, in `VALUES` order. -/
def upsertExecutions (now : Int) (queues : List JobQueue) :
    List DispatchInsert → List Execution → Except StoreError (List Execution × List Execution)
  | [], executions => .ok (executions, [])
  | row :: rest, executions => do
    let (executions, first) ← upsertExecution now queues row executions
    let (executions, returned) ← upsertExecutions now queues rest executions
    return (executions, first.toList ++ returned)

/-- `lease_by_id`: the last row of the chunk for a job gives the lease. -/
def leaseById (chunk : List DispatchInsert) (jobId : Int) : Int :=
  ((Table.lookup DispatchInsert.jobId jobId chunk.reverse).map (·.leaseExpiresAt)).getD 0

/-- The entry that a returned row leaves in `by_job`. -/
def toDispatched (chunk : List DispatchInsert) (row : Execution) :
    Except StoreError DispatchedExecution := do
  let count ← u32TryFrom row.executionCount
  return { jobId := row.jobId, executionCount := count, dispatchId := row.dispatchId,
           leaseExpiresAt := leaseById chunk row.jobId, updatedAt := row.updatedAt }

/-- `by_job.insert`. -/
def insertByJob (byJob : List DispatchedExecution) (entry : DispatchedExecution) :
    List DispatchedExecution :=
  entry :: byJob.filter fun other => other.jobId ≠ entry.jobId

/-- One statement of `dispatch_batch`, with `by_job` threaded through. -/
def dispatchChunk (env : Env) (queues : List JobQueue)
    (state : List Execution × List DispatchedExecution) (chunk : List DispatchInsert) :
    Except StoreError (List Execution × List DispatchedExecution) := do
  let (executions, returned) ← upsertExecutions env.now queues chunk state.1
  let entries ← (env.choice.order returned).mapM (toDispatched chunk)
  return (executions, entries.foldl insertByJob state.2)

def dispatchMissing (jobId : Int) : StoreError :=
  .internal (.text ("dispatch did not produce an execution for job " ++ toString jobId))

/-- The answer of `dispatch_batch`: one entry of `by_job` for each row. -/
def collectDispatched : List DispatchInsert → List DispatchedExecution →
    Except StoreError (List DispatchedExecution)
  | [], _ => .ok []
  | row :: rest, byJob =>
    match Table.lookup DispatchedExecution.jobId row.jobId byJob with
    | none => .error (dispatchMissing row.jobId)
    | some entry => do
      let out ← collectDispatched rest (byJob.filter fun other => other.jobId ≠ row.jobId)
      return entry :: out

/-- `dispatch_batch`. A missing execution is noticed only after the commit. -/
def dispatchBatch (env : Env) (rows : List DispatchInsert) (conn : ResultsConn) :
    ResultsConn × Except StoreError (List DispatchedExecution) :=
  match (Table.chunks rowsPerStatement rows).foldlM (dispatchChunk env conn.executionQueues)
      (conn.executions, []) with
  | .error error => (conn, .error error)
  | .ok (executions, byJob) =>
    ({ conn with executions := executions }, collectDispatched rows byJob)

/-! ### `complete_batch` -/

/-- `SET status = 'completed', ..` with the payload of a success. -/
def setCompleted (now : Int) (payload : List UInt8) (row : Execution) : Execution :=
  { row with
    status := .completed, leaseExpiresAt := none, resultPayload := some payload,
    resultError := none, updatedAt := now }

/-- `SET status = 'failed', ..` with the message of a failure: the payload is not assigned. -/
def setFailed (now : Int) (message : String) (row : Execution) : Execution :=
  { row with
    status := .failed, leaseExpiresAt := none, resultError := some message, updatedAt := now }

/-- The row after an outcome, by the `SET` of its partition. -/
def finished (now : Int) (row : Execution) : JobOutcome → Execution
  | .succeeded payload => setCompleted now payload row
  | .failed message => setFailed now message row

/-- A request with its place in the batch. -/
abbrev Entry := PendingCompletion × Nat

/-- `executions.job_id = v.job_id AND executions.dispatch_id = v.dispatch_id AND
executions.status = 'running'`. -/
def fences (row : Execution) (key : Int × String) : Bool :=
  row.key = key ∧ row.status = .running

/-- `success_idx`, cut into statements. -/
def successChunks (batch : List PendingCompletion) : List (List Entry) :=
  Table.chunks rowsPerStatement (batch.zipIdx.filter fun entry => entry.1.outcome.isSuccess)

/-- `fail_idx`, cut into statements. -/
def failChunks (batch : List PendingCompletion) : List (List Entry) :=
  Table.chunks rowsPerStatement (batch.zipIdx.filter fun entry => !entry.1.outcome.isSuccess)

/-- The `UPDATE .. FROM` of one chunk, of either partition. -/
def completeStatement (env : Env) (chunk : List Entry) (executions : List Execution) :
    List Execution × List Execution :=
  Table.updateFrom env.choice (fun row (entry : Entry) => finished env.now row entry.1.outcome)
    (fun row entry => fences row entry.1.key) chunk executions

/-- One success statement, and the dispositions read off the set of updated keys. -/
def completeSuccess (env : Env) (state : List Execution × List CompletionDisposition)
    (chunk : List Entry) : List Execution × List CompletionDisposition :=
  let (executions, returned) := completeStatement env chunk state.1
  let updated := returned.map Execution.key
  (executions, chunk.foldl (fun dispositions entry =>
    if entry.1.key ∈ updated then dispositions.set entry.2 .completed
    else dispositions) state.2)

/-- `SELECT max_retries FROM execution_queues WHERE name = ?1`. -/
def maxRetries (queues : List JobQueue) (name : String) : Except StoreError Int :=
  match Table.lookup JobQueue.name name queues with
  | none => .error noRows
  | some queue => .ok queue.maxRetries.toNat

/-- The disposition of a failure, from the updated rows and their queues' limits. -/
def failDisposition (byKey : List (Execution × Int)) (key : Int × String) :
    CompletionDisposition :=
  match byKey.find? fun entry => entry.1.key = key with
  | none => .ignored
  | some (row, limit) => if row.executionCount ≤ limit then .repend else .completed

/-- One failure statement: every updated row's queue must have a limit. -/
def completeFailure (env : Env) (queues : List JobQueue)
    (state : List Execution × List CompletionDisposition) (chunk : List Entry) :
    Except StoreError (List Execution × List CompletionDisposition) := do
  let (executions, returned) := completeStatement env chunk state.1
  let byKey ← returned.mapM fun row => do
    let limit ← maxRetries queues row.queueName
    return (row, limit)
  return (executions, chunk.foldl (fun dispositions entry =>
    dispositions.set entry.2 (failDisposition byKey entry.1.key)) state.2)

/-- `complete_batch`: all successes, then all failures, in one transaction. -/
def completeBatch (env : Env) (batch : List PendingCompletion) (conn : ResultsConn) :
    ResultsConn × Except StoreError (List CompletionDisposition) :=
  let start := (conn.executions, List.replicate batch.length CompletionDisposition.ignored)
  let succeeded := (successChunks batch).foldl (completeSuccess env) start
  match (failChunks batch).foldlM (completeFailure env conn.executionQueues) succeeded with
  | .error error => (conn, .error error)
  | .ok (executions, dispositions) =>
    ({ conn with executions := executions }, .ok dispositions)

/-! ### The other calls -/

def abandon (env : Env) (jobId : Int) (dispatchId : String) (conn : ResultsConn) : ResultsConn :=
  { conn with
    executions := conn.executions.map fun row =>
      if fences row (jobId, dispatchId) then setFailed env.now "abandoned" row else row }

/-- `lease_expires_at IS NOT NULL AND lease_expires_at < ?1`, of a running row. -/
def leaseExpired (now : Int) (row : Execution) : Bool :=
  row.status = .running ∧ row.leaseExpiresAt.any (· < now)

/-- The rows that `recover_stale` selects, joined with their queues. -/
def selectStale (choice : Table.Choice) (now : Int) (conn : ResultsConn) :
    Except StoreError (List (Execution × JobQueue)) :=
  (choice.order ((conn.executions.filter (leaseExpired now)).filterMap fun row =>
    (Table.lookup JobQueue.name row.queueName conn.executionQueues).map fun queue =>
      (row, queue))).mapM fun item => do
    let _ ← rowCount item.1.executionCount
    return item

/-- `limits.get(&id)`. -/
def staleLimit (stale : List (Execution × JobQueue)) (id : Int) : Int :=
  ((Table.lookup (fun item => item.1.id) id stale).map
    fun item => (item.2.maxRetries.toNat : Int)).getD 0

/-- One statement of `recover_stale`, keyed by the execution's id alone. -/
def recoverChunk (choice : Table.Choice) (now : Int) (stale : List (Execution × JobQueue))
    (state : List Execution × List RecoveredStale) (chunk : List (Execution × JobQueue)) :
    Except StoreError (List Execution × List RecoveredStale) := do
  let (executions, returned) := Table.updateFrom choice
    (fun row _ => setFailed now "lease expired" row)
    (fun row item => row.id = item.1.id ∧ row.status = .running) chunk state.1
  let items ← returned.mapM fun row => do
    let count ← u32TryFrom row.executionCount
    return { jobId := row.jobId, dispatchId := row.dispatchId,
             shouldRepend := count ≤ staleLimit stale row.id : RecoveredStale }
  return (executions, state.2 ++ items)

def recoverStale (choice : Table.Choice) (now : Int) (conn : ResultsConn) :
    ResultsConn × Except StoreError (List RecoveredStale) :=
  match selectStale choice now conn with
  | .error error => (conn, .error error)
  | .ok stale =>
    match (Table.chunks rowsPerStatement stale).foldlM (recoverChunk choice now stale)
        (conn.executions, []) with
    | .error error => (conn, .error error)
    | .ok (executions, recovered) => ({ conn with executions := executions }, .ok recovered)

def cleanupExpiredRecords (cutoff : Int) (conn : ResultsConn) : ResultsConn × Nat :=
  ({ conn with executions := conn.executions.filter fun row => !(row.updatedAt < cutoff) },
    (conn.executions.filter fun row => row.updatedAt < cutoff).length)

/-! ### `handle` -/

inductive Request where
  | upsertQueue (queue : JobQueue)
  | dispatch (rows : List DispatchInsert)
  | complete (pending : PendingCompletion)
  | abandon (jobId : Int) (dispatchId : String)
  | recoverStale (now : Int)
  | cleanupExpiredRecords (cutoff : Int)
  | vacuum
deriving DecidableEq, Repr

inductive Response where
  | queue (result : Except StoreError JobQueue)
  | dispatched (result : Except StoreError (List DispatchedExecution))
  | disposition (result : Except StoreError CompletionDisposition)
  | abandoned
  | recovered (result : Except StoreError (List RecoveredStale))
  | deleted (rows : Nat)
  | vacuumed

/-- The reply to a batch of one. -/
def singleReply : Except StoreError (List CompletionDisposition) →
    Except StoreError CompletionDisposition
  | .error error => .error error
  | .ok dispositions => .ok (dispositions.headD .ignored)

/-- `handle`: one request on its own. `VACUUM` rebuilds the file and keeps the rows. -/
def handle (env : Env) (conn : ResultsConn) : Request → ResultsConn × Response
  | .upsertQueue queue =>
    let (conn, result) := conn.upsertQueue env queue
    (conn, .queue result)
  | .dispatch rows =>
    let (conn, result) := conn.dispatchBatch env rows
    (conn, .dispatched result)
  | .complete pending =>
    let (conn, result) := conn.completeBatch env [pending]
    (conn, .disposition (singleReply result))
  | .abandon jobId dispatchId => (conn.abandon env jobId dispatchId, .abandoned)
  | .recoverStale now =>
    let (conn, result) := conn.recoverStale env.choice now
    (conn, .recovered result)
  | .cleanupExpiredRecords cutoff =>
    let (conn, deleted) := conn.cleanupExpiredRecords cutoff
    (conn, .deleted deleted)
  | .vacuum => (conn, .vacuumed)

end ResultsConn

end Maqistor
