import Maqistor.Results.Batching
import Maqistor.Store.Alone

/-! The two ways to complete a job. `complete_worker_result` answers from the disposition alone; the
default that the trait gives for it calls `complete`, which reads the job back from both databases
and looks at its status. -/

namespace Maqistor

open ResultsConn IngestConn

namespace Store

/-- `results.complete(..)` for one request, and what its caller does with the disposition. -/
def submit (env : Env) (request : PendingCompletion) (submitter : Submitter) (store : Store) :
    Store × Progress :=
  let (results, result) := store.results.completeBatch env [request]
  ({ store with results := results }, afterCompletion request submitter (singleReply result))

/-- The default `complete_worker_result` of the trait, from what `complete` replies. -/
def defaultWorkerResult : Reply → Reply
  | .completed (.error error) => .workerResult (.error error)
  | .completed (.ok none) => .workerResult (.ok false)
  | .completed (.ok (some job)) => .workerResult (.ok (job.status = .pending))
  | reply => reply

/-- The same databases up to `updated_at`. -/
structure SameTables (first second : Store) : Prop where
  queueNames : first.queueNames = second.queueNames
  jobQueues : first.ingest.jobQueues = second.ingest.jobQueues
  accepted : first.ingest.acceptedJobs.map AcceptedJob.untimed =
    second.ingest.acceptedJobs.map AcceptedJob.untimed
  executionQueues : first.results.executionQueues = second.results.executionQueues
  executions : first.results.executions.map untimed = second.results.executions.map untimed

section

variable {store : Store} {request : PendingCompletion}

theorem completeBatch_single (env : Env) (request : PendingCompletion) {conn : ResultsConn}
    (hvalid : Valid conn.executionQueues conn.executions) :
    conn.completeBatch env [request] =
      ({ conn with executions := conn.executions.map (batchRow env [request]) },
        .ok [dispose conn.executionQueues conn.executions request]) := by
  have hkeys : ([request].map PendingCompletion.key).Nodup := List.nodup_singleton _
  obtain ⟨dispositions, heq, hlength, hperm⟩ :=
    batchResponses_perm env hvalid.jobs hvalid.queues hkeys
  obtain ⟨disposition, rfl⟩ := List.length_eq_one_iff.mp hlength
  have hsame : (request, Response.disposition (.ok disposition)) = conn.answered request := by
    simpa [batchResponses] using hperm
  have hdisposition : disposition = dispose conn.executionQueues conn.executions request := by
    simpa [answered] using hsame
  rw [heq, hdisposition]

theorem submit_eq (env : Env) (submitter : Submitter) (h : store.WellFormed) :
    store.submit env request submitter =
      ({ store with results := { store.results with
          executions := store.results.executions.map (batchRow env [request]) } },
        afterCompletion request submitter
          (.ok (dispose store.results.executionQueues store.results.executions request))) := by
  rw [submit, completeBatch_single env request h.valid]
  rfl

/-- The two reads of `complete`. -/
theorem alone_readAccepted {envs : Stage → Env} {accepted : AcceptedJob}
    {execution : Option Execution} {jobId : Int}
    (haccepted : store.ingest.acceptedRow jobId = .ok accepted)
    (hexecution : store.results.readExecution accepted.id = .ok execution) :
    alone envs (store, .wait (.readAccepted jobId)) =
      (store, .done (.completed (.ok (some (Job.fromAccepted accepted execution))))) := by
  rw [alone_wait, advance, composedJob, haccepted]
  simp only
  rw [alone_wait, advance, hexecution, alone_done]
  rfl

/-- The store after a completion: the rows of the results, and the repend that a retry calls for. -/
def completed (env rependEnv : Env) (request : PendingCompletion) (store : Store) : Store :=
  let completed := { store with results := { store.results with
    executions := store.results.executions.map (batchRow env [request]) } }
  if dispose store.results.executionQueues store.results.executions request = .repend then
    completed.repend rependEnv request.jobId request.dispatchId
  else completed

/-- `complete_worker_result` on its own. -/
theorem alone_completeWorkerResult (env : Env) (request : PendingCompletion) (envs : Stage → Env)
    (h : store.WellFormed) :
    ∃ rependEnv, alone envs (store.submit env request .completeWorkerResult) =
      (store.completed env rependEnv request, .done (.workerResult (.ok
        (dispose store.results.executionQueues store.results.executions request = .repend)))) := by
  rw [submit_eq env .completeWorkerResult h]
  unfold completed
  cases hdispose : dispose store.results.executionQueues store.results.executions request with
  | ignored => exact ⟨env, alone_done _ _⟩
  | completed => exact ⟨env, alone_done _ _⟩
  | repend =>
    refine ⟨envs (.rependCompleted .completeWorkerResult request.jobId request.dispatchId), ?_⟩
    rw [afterCompletion, alone_wait, advance, alone_done]
    rfl

theorem alone_complete_ignored (env : Env) (envs : Stage → Env) (h : store.WellFormed)
    (hdispose : dispose store.results.executionQueues store.results.executions request = .ignored) :
    alone envs (store.submit env request .complete) =
      (store.completed env env request, .done (.completed (.ok none))) := by
  rw [submit_eq env .complete h, completed, hdispose]
  exact alone_done _ _

/-- `complete` on its own goes on to read the job, whatever the disposition but `Ignored`. -/
theorem alone_complete (env : Env) (envs : Stage → Env) (h : store.WellFormed)
    (hdispose : dispose store.results.executionQueues store.results.executions request ≠ .ignored) :
    ∃ rependEnv, alone envs (store.submit env request .complete) =
      alone envs (store.completed env rependEnv request, .wait (.readAccepted request.jobId)) := by
  rw [submit_eq env .complete h]
  unfold completed
  cases hcase : dispose store.results.executionQueues store.results.executions request with
  | ignored => exact absurd hcase hdispose
  | completed => exact ⟨env, rfl⟩
  | repend =>
    refine ⟨envs (.rependCompleted .complete request.jobId request.dispatchId), ?_⟩
    rw [afterCompletion, alone_wait, advance]
    rfl

/-! ### The rows -/

theorem untimed_batchRow (env env' : Env) (request : PendingCompletion) (row : Execution) :
    untimed (batchRow env [request] row) = untimed (batchRow env' [request] row) :=
  @untimed_planRow [(env, [request])] [(env', [request])] (List.Perm.refl _)
    (List.nodup_singleton _) row

theorem untimed_rependRow (now now' : Int) (key : Int × String) (row : AcceptedJob) :
    (rependRow now key row).untimed = (rependRow now' key row).untimed := by
  unfold rependRow
  split <;> rfl

/-- What a completion leaves does not depend on the clock. -/
theorem completed_same (env rependEnv env' rependEnv' : Env) (request : PendingCompletion)
    (store : Store) : SameTables (store.completed env rependEnv request)
      (store.completed env' rependEnv' request) := by
  have hexecutions : (store.results.executions.map (batchRow env [request])).map untimed =
      (store.results.executions.map (batchRow env' [request])).map untimed := by
    rw [List.map_map, List.map_map]
    exact List.map_congr_left fun row _ => untimed_batchRow env env' request row
  unfold completed
  split
  · rw [repend_eq, repend_eq]
    refine ⟨rfl, rfl, ?_, rfl, hexecutions⟩
    rw [List.map_map, List.map_map]
    exact List.map_congr_left fun row _ =>
      untimed_rependRow rependEnv.now rependEnv'.now (request.jobId, request.dispatchId) row
  · exact ⟨rfl, rfl, rfl, rfl, hexecutions⟩

/-- Every running execution under a dispatch id belongs to an accepted job that is claimed under
it. -/
def Backed (store : Store) (dispatchId : String) : Prop :=
  ∀ row ∈ store.results.executions, row.dispatchId = dispatchId → row.status = .running →
    ∃ accepted ∈ store.ingest.acceptedJobs, accepted.id = row.jobId ∧
      accepted.dispatchId = some dispatchId

/-- The counts that the column can hold. -/
def CountsFit (store : Store) : Prop :=
  ∀ row ∈ store.results.executions, FitsU32 row.executionCount

variable {row : Execution} {accepted : AcceptedJob}

/-- `complete` finds the row that its own statement finished. -/
theorem readExecution_completed (env rependEnv : Env) (h : store.WellFormed)
    (hrow : row ∈ store.results.executions) (hfences : fences row request.key = true)
    (hcount : FitsU32 row.executionCount) :
    (store.completed env rependEnv request).results.readExecution request.jobId =
      .ok (some (finished env.now row request.outcome)) := by
  have hresults : (store.completed env rependEnv request).results = { store.results with
      executions := store.results.executions.map (batchRow env [request]) } := by
    unfold completed
    split
    · rw [repend_eq]
    · rfl
  have hjob : row.jobId = request.jobId := congrArg Prod.fst (fences_iff.mp hfences).1
  have hlookup : Table.lookup Execution.jobId request.jobId store.results.executions = some row :=
    hjob ▸ Table.lookup_of_mem h.valid.jobs hrow
  have hkeeps : ∀ row, (batchRow env [request] row).jobId = row.jobId :=
    (Writer.finishes_batchRow env [request]).keeps Execution.jobId fun _ _ _ => finished_jobId _ _ _
  have hfinished : batchRow env [request] row = finished env.now row request.outcome := by
    rcases batchRow_cases env [request] row with ⟨hnone, -⟩ | ⟨other, hother, -, heq⟩
    · rw [hnone request (List.mem_singleton_self _)] at hfences
      cases hfences
    · rw [heq, List.mem_singleton.mp hother]
  rw [hresults]
  apply readExecution_of_lookup
  · rw [Table.lookup_map hkeeps, hlookup, Option.map_some, hfinished]
  · rwa [finished_executionCount]

theorem acceptedRow_completed (env rependEnv : Env) (h : store.WellFormed)
    (haccepted : accepted ∈ store.ingest.acceptedJobs) (hid : accepted.id = request.jobId)
    (hclaimed : accepted.dispatchId = some request.dispatchId) :
    (store.completed env rependEnv request).ingest.acceptedRow request.jobId =
      .ok (if dispose store.results.executionQueues store.results.executions request = .repend then
        released rependEnv.now accepted else accepted) := by
  have hlookup : Table.lookup AcceptedJob.id request.jobId store.ingest.acceptedJobs =
      some accepted := hid ▸ Table.lookup_of_mem h.ids haccepted
  unfold completed
  split
  · rw [repend_eq, acceptedRow, Table.lookup_map (rependRow_id _ _), hlookup, Option.map_some,
      rependRow, if_pos ⟨hid, hclaimed⟩]
  · rw [acceptedRow, hlookup]

/-- A job that `complete` reads back is pending exactly when its failure calls for a retry. -/
theorem status_completed {rependEnv : Env} {now : Int} (h : store.WellFormed)
    (hrow : row ∈ store.results.executions) (hfences : fences row request.key = true)
    (hclaimed : accepted.dispatchId = some request.dispatchId) :
    (Job.fromAccepted
      (if dispose store.results.executionQueues store.results.executions request = .repend then
        released rependEnv.now accepted else accepted)
      (some (finished now row request.outcome))).status = .pending ↔
    dispose store.results.executionQueues store.results.executions request = .repend := by
  have hstatus : (finished now row request.outcome).status ≠ .pending := by
    cases request.outcome <;> simp [finished, setCompleted, setFailed]
  by_cases hrepend :
      dispose store.results.executionQueues store.results.executions request = .repend
  · have hfailed : (finished now row request.outcome).status = .failed := by
      rw [dispose_of_fences h.valid.jobs hrow hfences] at hrepend
      cases houtcome : request.outcome with
      | succeeded payload => simp [houtcome, JobOutcome.isSuccess] at hrepend
      | failed message => rfl
    simp [hrepend, Job.fromAccepted, hfailed, released]
  · simp only [hrepend, if_false, iff_false, Job.fromAccepted, hclaimed, reduceCtorEq, and_false]
    exact hstatus

/-- In a store whose running executions under the dispatch id belong to jobs claimed under it, the
lightweight completion answers what the trait's default would, and leaves the same tables. -/
theorem worker_result_agrees (hformed : store.WellFormed) (hcounts : store.CountsFit)
    (hbacked : store.Backed request.dispatchId) (env env' : Env) (envs envs' : Stage → Env) :
    let light := alone envs (store.submit env request .completeWorkerResult)
    let full := alone envs' (store.submit env' request .complete)
    (∃ pending reply, light.2 = .done (.workerResult (.ok pending)) ∧ full.2 = .done reply ∧
      defaultWorkerResult reply = .workerResult (.ok pending)) ∧ SameTables light.1 full.1 := by
  obtain ⟨rependEnv, hlight⟩ := alone_completeWorkerResult env request envs hformed
  by_cases hignored :
      dispose store.results.executionQueues store.results.executions request = .ignored
  · have hfull := alone_complete_ignored env' envs' hformed hignored
    simp only [hlight, hfull]
    refine ⟨⟨_, _, rfl, rfl, ?_⟩, completed_same _ _ _ _ _ _⟩
    simp [defaultWorkerResult, hignored]
  · obtain ⟨rependEnv', hfull⟩ := alone_complete env' envs' hformed hignored
    obtain ⟨row, hrow, hfences⟩ : ∃ row ∈ store.results.executions, fences row request.key = true := by
      have hrunning : running store.results.executions request.key = true := by
        simpa [dispose_eq_ignored] using hignored
      simpa [running] using hrunning
    obtain ⟨hkey, hstatus⟩ := fences_iff.mp hfences
    obtain ⟨accepted, haccepted, hid, hclaimed⟩ :=
      hbacked row hrow (congrArg Prod.snd hkey) hstatus
    have hjob : accepted.id = request.jobId := hid.trans (congrArg Prod.fst hkey)
    have hfound := acceptedRow_completed env' rependEnv' hformed haccepted hjob hclaimed
    have hread := readExecution_completed env' rependEnv' hformed hrow hfences (hcounts row hrow)
    have hsame : (if dispose store.results.executionQueues store.results.executions request = .repend
        then released rependEnv'.now accepted else accepted).id = request.jobId := by
      split <;> exact hjob
    rw [alone_readAccepted hfound (hsame ▸ hread)] at hfull
    simp only [hlight, hfull]
    refine ⟨⟨_, _, rfl, rfl, ?_⟩, completed_same _ _ _ _ _ _⟩
    rw [defaultWorkerResult]
    congr 2
    exact decide_eq_decide.mpr (status_completed hformed hrow hfences hclaimed)

end

/-- A claimed job of the queue `mail` whose attempt is running. -/
def runningMail : Store :=
  { ingest := { jobQueues := [mailQueue], acceptedJobs := [⟨1, "mail", [], some "a", 0, 5⟩] }
    queueNames := ["mail"]
    results := { executionQueues := [mailQueue],
                 executions := [⟨1, 1, "mail", .running, 1, some 35000, "a", none, none, 5, 5⟩] } }

theorem worker_result_agrees_retry :
    let request : PendingCompletion := ⟨1, "a", .failed "no"⟩
    let light := alone (fun _ => .atTime 8) (runningMail.submit (.atTime 7) request .completeWorkerResult)
    let full := alone (fun _ => .atTime 10) (runningMail.submit (.atTime 9) request .complete)
    light.2 = .done (.workerResult (.ok true)) ∧
    (∃ pending reply, light.2 = .done (.workerResult (.ok pending)) ∧ full.2 = .done reply ∧
      defaultWorkerResult reply = .workerResult (.ok pending)) ∧ SameTables light.1 full.1 := by
  refine ⟨by decide, worker_result_agrees ⟨by decide, ⟨by decide, by decide, by decide, by decide⟩⟩
    ?_ ?_ (.atTime 7) (.atTime 9) (fun _ => .atTime 8) fun _ => .atTime 10⟩
  · unfold CountsFit
    decide
  · unfold Backed
    decide

end Store

end Maqistor
