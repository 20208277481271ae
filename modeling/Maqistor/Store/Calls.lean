import Maqistor.Ingest.Conn
import Maqistor.Results.Conn

/-! The calls of `SqliteStore`. A call awaits one commit or read of one database after another, so
it is cut at its `await` points: a stage is what a call in flight does next. -/

namespace Maqistor

/-- The two databases, and the queue names that the ingest writer holds in memory. -/
structure Store where
  ingest : IngestConn
  queueNames : List String
  results : ResultsConn
deriving DecidableEq, Repr

/-- What a call answers. -/
inductive Reply where
  | queue (result : Except StoreError JobQueue)
  | accepted (result : Except StoreError AcceptedJob)
  | claimed (result : Except StoreError (List Job))
  | completed (result : Except StoreError (Option Job))
  | workerResult (result : Except StoreError Bool)
  | released (result : Except StoreError Bool)
  | recovered (result : Except StoreError (List Job))
  | job (result : Except StoreError Job)
  | deleted (result : Except StoreError Nat)
deriving DecidableEq

/-- The two calls that submit a completion. -/
inductive Submitter where
  | complete
  | completeWorkerResult
deriving DecidableEq, Repr

/-- The two calls that read a composed job. -/
inductive Reader where
  | getJob
  | complete
deriving DecidableEq, Repr

/-- What a call in flight does next. -/
inductive Stage where
  | upsertResults (queue : JobQueue)
  | dispatch (claimed : List IngestClaimed) (claimedAt : Int)
  | undoClaim (row : IngestClaimed) (rest : List IngestClaimed) (error : StoreError)
  | rependCompleted (submitter : Submitter) (jobId : Int) (dispatchId : String)
  | readAccepted (jobId : Int)
  | readExecution (reader : Reader) (accepted : AcceptedJob)
  | rependStale (item : RecoveredStale) (rest : List RecoveredStale) (jobs : List Job)
  | readStaleAccepted (item : RecoveredStale) (rest : List RecoveredStale) (jobs : List Job)
  | readStaleExecution (accepted : AcceptedJob) (rest : List RecoveredStale) (jobs : List Job)
  | abandon (jobId : Int) (dispatchId : String)
  | rependReleased (jobId : Int) (dispatchId : String)
  | cleanupResults (cutoff : Int) (deleted : Nat)
deriving DecidableEq, Repr

inductive Progress where
  | wait (stage : Stage)
  | done (reply : Reply)
deriving DecidableEq

/-- The rows that a call has claimed and not yet dispatched. -/
def Stage.awaiting : Stage → List IngestClaimed
  | .dispatch claimed _ => claimed
  | _ => []

def Progress.awaiting : Progress → List IngestClaimed
  | .wait stage => stage.awaiting
  | .done _ => []

namespace Store

/-- `job_from_claimed`. -/
def jobFromClaimed (claimed : IngestClaimed) (dispatched : DispatchedExecution) : Job :=
  { id := claimed.id, name := claimed.name, status := .running, payload := claimed.payload,
    executionCount := dispatched.executionCount,
    leaseExpiresAt := some dispatched.leaseExpiresAt, dispatchId := some dispatched.dispatchId,
    resultPayload := none, resultError := none, createdAt := claimed.createdAt,
    updatedAt := dispatched.updatedAt }

/-- The cast of a timeout to `i64` wraps. -/
def asI64 (n : UInt64) : Int :=
  if n.toNat < 9223372036854775808 then n.toNat else (n.toNat : Int) - 18446744073709551616

/-- `dispatch_rows` of `claim_batch_inner`. -/
def dispatchRow (claimedAt : Int) (row : IngestClaimed) : DispatchInsert :=
  { jobId := row.id, queueName := row.name, dispatchId := row.dispatchId,
    leaseExpiresAt := saturatingAdd claimedAt (saturatingMul (asI64 row.timeoutSecs) 1000) }

/-- The rest of the loop that repends claimed rows after a failed dispatch. -/
def undoClaims (error : StoreError) : List IngestClaimed → Progress
  | [] => .done (.claimed (.error error))
  | row :: rest => .wait (.undoClaim row rest error)

/-- The rest of the loop of `recover_stale_leases`. -/
def recoverItems (jobs : List Job) : List RecoveredStale → Progress
  | [] => .done (.recovered (.ok jobs))
  | item :: rest =>
    if item.shouldRepend then .wait (.rependStale item rest jobs)
    else .wait (.readStaleAccepted item rest jobs)

def composedReply (result : Except StoreError Job) : Reader → Reply
  | .getJob => .job result
  | .complete => .completed (result.map some)

/-- What `complete` and `complete_worker_result` do with the disposition. -/
def afterCompletion (request : PendingCompletion) (submitter : Submitter)
    (result : Except StoreError CompletionDisposition) : Progress :=
  match submitter, result with
  | .complete, .error error => .done (.completed (.error error))
  | .complete, .ok .ignored => .done (.completed (.ok none))
  | .complete, .ok .completed => .wait (.readAccepted request.jobId)
  | .completeWorkerResult, .error error => .done (.workerResult (.error error))
  | .completeWorkerResult, .ok .ignored => .done (.workerResult (.ok false))
  | .completeWorkerResult, .ok .completed => .done (.workerResult (.ok false))
  | submitter, .ok .repend =>
    .wait (.rependCompleted submitter request.jobId request.dispatchId)

/-! ### First steps -/

def upsertQueue (env : Env) (queue : JobQueue) (store : Store) : Store × Progress :=
  match store.ingest.upsertQueue env queue with
  | (ingest, .error error) => ({ store with ingest := ingest }, .done (.queue (.error error)))
  | (ingest, .ok reply) =>
    ({ store with ingest := ingest, queueNames := store.queueNames.insert queue.name },
      .wait (.upsertResults reply))

/-- The enqueue requests that the writer has grouped into one commit. -/
def enqueueBatch (batch : List AcceptedJob) (store : Store) : Store × List Progress :=
  let (ingest, replies) := store.ingest.enqueueBatch batch store.queueNames
  ({ store with ingest := ingest }, replies.map fun reply => .done (.accepted reply))

def claimBatch (env : Env) (newDispatchId : Nat → String) (claimedAt : Int) (queueName : String)
    (limit : Nat) (store : Store) : Store × Progress :=
  match store.ingest.claimBatch env newDispatchId queueName limit store.queueNames with
  | (ingest, .error error) => ({ store with ingest := ingest }, .done (.claimed (.error error)))
  | (ingest, .ok []) => ({ store with ingest := ingest }, .done (.claimed (.ok [])))
  | (ingest, .ok claimed) =>
    ({ store with ingest := ingest }, .wait (.dispatch claimed claimedAt))

/-- The completions that the writer has grouped into one commit. -/
def completeBatch (env : Env) (batch : List (PendingCompletion × Submitter)) (store : Store) :
    Store × List Progress :=
  match store.results.completeBatch env (batch.map Prod.fst) with
  | (results, .error error) =>
    ({ store with results := results },
      batch.map fun item => afterCompletion item.1 item.2 (.error error))
  | (results, .ok dispositions) =>
    ({ store with results := results },
      (batch.zip dispositions).map fun item => afterCompletion item.1.1 item.1.2 (.ok item.2))

def releaseClaim (jobId : Int) (dispatchId : String) (store : Store) : Progress :=
  match store.ingest.acceptedRow jobId with
  | .error error => .done (.released (.error error))
  | .ok accepted =>
    if accepted.dispatchId = some dispatchId then .wait (.abandon jobId dispatchId)
    else .done (.released (.ok false))

def recoverStaleLeases (choice : Table.Choice) (now : Int) (store : Store) : Store × Progress :=
  match store.results.recoverStale choice now with
  | (results, .error error) => ({ store with results := results }, .done (.recovered (.error error)))
  | (results, .ok recovered) => ({ store with results := results }, recoverItems [] recovered)

def cleanupIngest (cutoff : Int) (store : Store) : Store × Progress :=
  let (ingest, deleted) := store.ingest.cleanupExpiredRecords cutoff
  ({ store with ingest := ingest }, .wait (.cleanupResults cutoff deleted))

def composedJob (reader : Reader) (jobId : Int) (store : Store) : Progress :=
  match store.ingest.acceptedRow jobId with
  | .error error => .done (composedReply (.error error) reader)
  | .ok accepted => .wait (.readExecution reader accepted)

/-! ### Later steps -/

def repend (env : Env) (jobId : Int) (dispatchId : String) (store : Store) : Store :=
  { store with ingest := store.ingest.repend env jobId dispatchId }

def dispatch (env : Env) (claimed : List IngestClaimed) (claimedAt : Int) (store : Store) :
    Store × Progress :=
  match store.results.dispatchBatch env (claimed.map (dispatchRow claimedAt)) with
  | (results, .error error) => ({ store with results := results }, undoClaims error claimed)
  | (results, .ok dispatched) =>
    ({ store with results := results },
      .done (.claimed (.ok (List.zipWith jobFromClaimed claimed dispatched))))

/-- The next step of a call in flight. -/
def advance (env : Env) (store : Store) : Stage → Store × Progress
  | .upsertResults queue =>
    match store.results.upsertQueue env queue with
    | (results, .error error) => ({ store with results := results }, .done (.queue (.error error)))
    | (results, .ok _) => ({ store with results := results }, .done (.queue (.ok queue)))
  | .dispatch claimed claimedAt => store.dispatch env claimed claimedAt
  | .undoClaim row rest error =>
    (store.repend env row.id row.dispatchId, undoClaims error rest)
  | .rependCompleted .complete jobId dispatchId =>
    (store.repend env jobId dispatchId, .wait (.readAccepted jobId))
  | .rependCompleted .completeWorkerResult jobId dispatchId =>
    (store.repend env jobId dispatchId, .done (.workerResult (.ok true)))
  | .readAccepted jobId => (store, store.composedJob .complete jobId)
  | .readExecution reader accepted =>
    (store, .done (composedReply ((store.results.readExecution accepted.id).map
      (Job.fromAccepted accepted)) reader))
  | .rependStale item rest jobs =>
    (store.repend env item.jobId item.dispatchId, .wait (.readStaleAccepted item rest jobs))
  | .readStaleAccepted item rest jobs =>
    match store.ingest.acceptedRow item.jobId with
    | .error error => (store, .done (.recovered (.error error)))
    | .ok accepted => (store, .wait (.readStaleExecution accepted rest jobs))
  | .readStaleExecution accepted rest jobs =>
    match store.results.readExecution accepted.id with
    | .error error => (store, .done (.recovered (.error error)))
    | .ok execution => (store, recoverItems (jobs ++ [Job.fromAccepted accepted execution]) rest)
  | .abandon jobId dispatchId =>
    ({ store with results := store.results.abandon env jobId dispatchId },
      .wait (.rependReleased jobId dispatchId))
  | .rependReleased jobId dispatchId =>
    (store.repend env jobId dispatchId, .done (.released (.ok true)))
  | .cleanupResults cutoff deleted =>
    let (results, more) := store.results.cleanupExpiredRecords cutoff
    ({ store with results := results }, .done (.deleted (.ok (deleted + more))))

/-- The next step of a call in flight when its database reports an error and commits nothing. Only
the loop after a failed dispatch goes on. -/
def faulted (error : StoreError) : Stage → Progress
  | .upsertResults _ => .done (.queue (.error error))
  | .dispatch claimed _ => undoClaims error claimed
  | .undoClaim _ rest first => undoClaims first rest
  | .rependCompleted .complete _ _ => .done (.completed (.error error))
  | .rependCompleted .completeWorkerResult _ _ => .done (.workerResult (.error error))
  | .readAccepted _ => .done (.completed (.error error))
  | .readExecution reader _ => .done (composedReply (.error error) reader)
  | .rependStale _ _ _ => .done (.recovered (.error error))
  | .readStaleAccepted _ _ _ => .done (.recovered (.error error))
  | .readStaleExecution _ _ _ => .done (.recovered (.error error))
  | .abandon _ _ => .done (.released (.error error))
  | .rependReleased _ _ => .done (.released (.error error))
  | .cleanupResults _ _ => .done (.deleted (.error error))

/-- `cleanup_expired_records` with nothing in between its two commits. -/
def cleanupExpiredRecords (cutoff : Int) (store : Store) : Store × Nat :=
  let (ingest, accepted) := store.ingest.cleanupExpiredRecords cutoff
  let (results, executions) := store.results.cleanupExpiredRecords cutoff
  ({ store with ingest := ingest, results := results }, accepted + executions)

/-! ### `heal_orphan_claims` -/

/-- The claims that `heal_orphan_claims` looks at. -/
def claims (choice : Table.Choice) (store : Store) : List (Int × String) :=
  choice.order (store.ingest.acceptedJobs.filterMap fun row =>
    row.dispatchId.map fun dispatchId => (row.id, dispatchId))

/-- One round of its loop: a claim whose dispatch id no execution carries is taken back, by the
same update as a repend. -/
def healOrphan (env : Env) (key : Int × String) (store : Store) : Store :=
  if store.results.executions.any fun row => row.dispatchId = key.2 then store
  else store.repend env key.1 key.2

end Store

end Maqistor
