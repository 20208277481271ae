import Maqistor.Store.Calls
import Maqistor.Ingest.Claim
import Maqistor.Ingest.Enqueue
import Maqistor.Results.Writer

/-! What each step of a call does to the two databases, one statement for each store function. -/

namespace Maqistor

open ResultsConn IngestConn

namespace Store

theorem upsertQueue_cases (env : Env) (queue : JobQueue) (store : Store) :
    (∃ error, store.upsertQueue env queue = (store, .done (.queue (.error error)))) ∨
    ∃ queues names reply, store.upsertQueue env queue =
        ({ store with ingest := { store.ingest with jobQueues := queues }, queueNames := names },
          .wait (.upsertResults reply)) ∧
      reply.name = queue.name ∧ reply.maxRetries = queue.maxRetries := by
  unfold upsertQueue IngestConn.upsertQueue
  cases h : upsertQueueRow env.now queue store.ingest.jobQueues with
  | error error => exact Or.inl ⟨error, rfl⟩
  | ok result => exact Or.inr ⟨result.1, _, result.2, rfl, (upsertQueueRow_limits h).1⟩

theorem enqueueBatch_cases (batch : List AcceptedJob) (store : Store) :
    ∃ jobs, ∃ replies : List (Except StoreError AcceptedJob), store.enqueueBatch batch =
        ({ store with ingest := { store.ingest with acceptedJobs := store.ingest.acceptedJobs ++
            (numbered (nextId store.ingest.acceptedJobs) jobs).map unclaimed } },
          replies.map fun reply => .done (.accepted reply)) ∧
      ∀ job, .ok job ∈ replies → job ∈ numbered (nextId store.ingest.acceptedJobs) jobs := by
  unfold enqueueBatch
  rcases IngestConn.enqueueBatch_cases batch store.queueNames store.ingest with
    ⟨heq, hnone⟩ | ⟨jobs, heq, hjobs⟩
  · refine ⟨[], _, Prod.ext ?_ rfl, fun job hjob => absurd hjob (hnone job)⟩
    simp [heq]
  · exact ⟨jobs, _, Prod.ext (by simp only [heq]) rfl, hjobs⟩

/-- A claim ends at once with nothing taken, or waits for the dispatch of the rows it marked. -/
theorem claimBatch_cases (env : Env) (newDispatchId : Nat → String) (claimedAt : Int)
    (queueName : String) (limit : Nat) {store : Store}
    (hids : (store.ingest.acceptedJobs.map AcceptedJob.id).Nodup) :
    (∃ result, store.claimBatch env newDispatchId claimedAt queueName limit =
      (store, .done (.claimed result)) ∧ (result = .ok [] ∨ ∃ error, result = .error error)) ∨
    ∃ claimed, claimed ≠ [] ∧
      store.claimBatch env newDispatchId claimedAt queueName limit =
        ({ store with ingest := { store.ingest with
            acceptedJobs := store.ingest.acceptedJobs.map (claimedRow env.now claimed) } },
          .wait (.dispatch claimed claimedAt)) ∧
      Claimed store.ingest.acceptedJobs queueName claimed := by
  unfold claimBatch
  rcases IngestConn.claimBatch_cases env newDispatchId queueName limit store.queueNames hids with
    heq | ⟨claimed, heq, hclaimed⟩
  · exact Or.inl ⟨_, by rw [heq], Or.inr ⟨_, rfl⟩⟩
  · cases claimed with
    | nil =>
      refine Or.inl ⟨_, ?_, Or.inl rfl⟩
      rw [heq, show claimedRow env.now [] = id from rfl, List.map_id]
    | cons entry rest => exact Or.inr ⟨entry :: rest, by simp, by rw [heq], hclaimed⟩

theorem completeBatch_eq (env : Env) (batch : List (PendingCompletion × Submitter)) {store : Store}
    (hvalid : Valid store.results.executionQueues store.results.executions) :
    ∃ dispositions, store.completeBatch env batch =
        ({ store with results := { store.results with
            executions := store.results.executions.map (batchRow env (batch.map Prod.fst)) } },
          (batch.zip dispositions).map fun item => afterCompletion item.1.1 item.1.2 (.ok item.2)) ∧
      ((batch.map Prod.fst).zip dispositions).Perm
        ((answers env store.results.executionQueues (statements (batch.map Prod.fst))
          store.results.executions).map fun answer => (answer.1.1, answer.2)) ∧
      dispositions.length = batch.length := by
  obtain ⟨dispositions, heq, hlength, hperm⟩ :=
    completeBatch_replies env (batch.map Prod.fst) hvalid.jobs hvalid.queues
  refine ⟨dispositions, ?_, hperm, by simpa using hlength⟩
  rw [completeBatch, heq]

theorem recoverStaleLeases_cases (choice : Table.Choice) (now : Int) {store : Store}
    (hvalid : Valid store.results.executionQueues store.results.executions) :
    (∃ error, store.recoverStaleLeases choice now =
      (store, .done (.recovered (.error error)))) ∨
    ∃ recovered, store.recoverStaleLeases choice now =
        ({ store with results := { store.results with
            executions := store.results.executions.map (recoverRow now) } },
          recoverItems [] recovered) ∧
      ∀ report, report ∈ recovered ↔ ∃ row ∈ store.results.executions,
        leaseExpired now row = true ∧
          report = recoveredItem store.results.executionQueues row := by
  unfold recoverStaleLeases
  rcases recoverStale_cases choice now hvalid with ⟨error, heq⟩ | ⟨recovered, heq, hreports⟩
  · exact Or.inl ⟨error, by rw [heq]⟩
  · exact Or.inr ⟨recovered, by rw [heq], hreports⟩

theorem repend_eq (env : Env) (jobId : Int) (dispatchId : String) (store : Store) :
    store.repend env jobId dispatchId =
      { store with ingest := { store.ingest with
          acceptedJobs := store.ingest.acceptedJobs.map
            (rependRow env.now (jobId, dispatchId)) } } := by
  rw [repend, IngestConn.repend_eq]

theorem forall₂_zipWith {α β γ : Type} {R : α → β → Prop} {S : α → γ → Prop} {f : α → β → γ}
    {as : List α} {bs : List β} (h : List.Forall₂ R as bs) (hf : ∀ a b, R a b → S a (f a b)) :
    List.Forall₂ S as (List.zipWith f as bs) := by
  induction h with
  | nil => exact List.Forall₂.nil
  | cons hab _ ih => exact List.Forall₂.cons (hf _ _ hab) ih

/-- The jobs that a dispatch returns describe the attempts it started. -/
def Returned (executions : List Execution) (claimed : IngestClaimed) (job : Job) : Prop :=
  job.id = claimed.id ∧ ∃ attempt, Table.lookup Execution.jobId claimed.id executions =
    some attempt ∧ job.executionCount = attempt.executionCount ∧
    job.dispatchId = some attempt.dispatchId

/-- `dispatch_batch` on rows for distinct available jobs: it rolls back, or starts an attempt for
each row and answers all of them. -/
theorem dispatchBatch_answers (env : Env) {claimed : List IngestClaimed} (claimedAt : Int)
    {conn : ResultsConn} (hids : (claimed.map IngestClaimed.id).Nodup)
    (havailable : ∀ entry ∈ claimed,
      Available (Table.lookup Execution.jobId entry.id conn.executions)) :
    (∃ error, conn.dispatchBatch env (claimed.map (dispatchRow claimedAt)) =
      (conn, .error error) ∧ RollsBack error) ∨
    ∃ executions returned out,
      conn.dispatchBatch env (claimed.map (dispatchRow claimedAt)) =
        ({ conn with executions := executions }, .ok out) ∧
      DispatchSpec env.now (claimed.map (dispatchRow claimedAt)) conn.executions executions
        returned ∧ (∀ attempt ∈ returned, attempt.executionCount < 4294967296) ∧
      (Valid conn.executionQueues conn.executions → Valid conn.executionQueues executions) ∧
      List.Forall₂ (Returned executions) claimed (List.zipWith jobFromClaimed claimed out) := by
  rcases dispatchBatch_cases env (claimed.map (dispatchRow claimedAt)) conn with
    hrollback | ⟨executions, returned, byJob, heq, hspec, hby, hvalid⟩
  · exact Or.inl hrollback
  · have hrowIds : ((claimed.map (dispatchRow claimedAt)).map DispatchInsert.jobId).Nodup := by
      rw [List.map_map]
      exact hids
    obtain ⟨out, hout, hall⟩ := collectDispatched_ok hrowIds fun row hrow => by
      obtain ⟨entry, hentry, rfl⟩ := List.mem_map.mp hrow
      obtain ⟨_, -, -, attempt, hlookup, hreturned, -⟩ :=
        hspec.started entry.id (List.mem_map_of_mem hrow) (havailable entry hentry)
      have hjob : attempt.jobId = entry.id := Table.key_of_lookup hlookup
      exact hjob ▸ hby.complete attempt hreturned
    refine Or.inr ⟨executions, returned, out, by rw [heq, hout], hspec,
      fun attempt hattempt => hspec.fits hby hattempt, hvalid, ?_⟩
    rw [List.forall₂_map_left_iff] at hall
    apply forall₂_zipWith hall
    intro entry dispatched hlookup
    obtain ⟨attempt, hattempt, hjob, hdescribes⟩ := hby.sound hlookup
    have hafter := (hspec.returns attempt hattempt).2.2
    rw [hjob] at hafter
    exact ⟨rfl, attempt, hafter, hdescribes.executionCount, congrArg some hdescribes.dispatchId⟩

/-- A dispatch fails and changes nothing, or starts an attempt for each claimed row. -/
theorem dispatch_cases (env : Env) {claimed : List IngestClaimed} (claimedAt : Int) {store : Store}
    (hids : (claimed.map IngestClaimed.id).Nodup)
    (havailable : ∀ entry ∈ claimed,
      Available (Table.lookup Execution.jobId entry.id store.results.executions)) :
    (∃ error, store.dispatch env claimed claimedAt = (store, undoClaims error claimed)) ∨
    ∃ executions returned jobs,
      store.dispatch env claimed claimedAt =
        ({ store with results := { store.results with executions := executions } },
          .done (.claimed (.ok jobs))) ∧
      DispatchSpec env.now (claimed.map (dispatchRow claimedAt)) store.results.executions executions
        returned ∧ (∀ attempt ∈ returned, attempt.executionCount < 4294967296) ∧
      (Valid store.results.executionQueues store.results.executions →
        Valid store.results.executionQueues executions) ∧
      List.Forall₂ (Returned executions) claimed jobs := by
  unfold dispatch
  rcases dispatchBatch_answers env claimedAt hids havailable with
    ⟨error, heq, -⟩ | ⟨executions, returned, out, heq, hrest⟩
  · exact Or.inl ⟨error, by rw [heq]⟩
  · exact Or.inr ⟨executions, returned, _, by rw [heq], hrest⟩

end Store

end Maqistor
