import Maqistor.Store.Claiming
import Mathlib.Data.Prod.Lex

/-! Claims are exact and first in, first out: a claim hands out the first claimable jobs of its
queue in the order of their creation, each under a new dispatch id that both databases hold, and a
job that is claimable again has kept its place. -/

namespace Maqistor

open ResultsConn IngestConn

namespace IngestConn

/-- The claimable jobs of a queue. -/
def claimable (queueName : String) (conn : IngestConn) : List AcceptedJob :=
  conn.acceptedJobs.filter fun row => row.queueName = queueName ∧ row.dispatchId = none

/-- The place of a job among those of its queue. -/
def place (row : AcceptedJob) : Lex (Int × Int) := toLex (row.createdAt, row.id)

theorem claimOrder_iff (a b : AcceptedJob) : claimOrder a b ↔ place a ≤ place b := by
  rw [claimOrder, place, place, Prod.Lex.toLex_le_toLex]

instance : Std.Total claimOrder :=
  ⟨fun a b => by
    rw [claimOrder_iff, claimOrder_iff]
    exact le_total _ _⟩

instance : IsTrans AcceptedJob claimOrder :=
  ⟨fun a b c => by
    rw [claimOrder_iff, claimOrder_iff, claimOrder_iff]
    exact le_trans⟩

/-- The claimable jobs of a queue in the order in which they are claimed. -/
def ordered (queueName : String) (conn : IngestConn) : List AcceptedJob :=
  (conn.claimable queueName).insertionSort claimOrder

section Order

variable {queueName : String} {conn : IngestConn}

theorem ordered_perm (queueName : String) (conn : IngestConn) :
    (conn.ordered queueName).Perm (conn.claimable queueName) :=
  List.perm_insertionSort _ _

theorem ordered_pairwise (queueName : String) (conn : IngestConn) :
    (conn.ordered queueName).Pairwise claimOrder :=
  List.pairwise_insertionSort _ _

theorem mem_claimable {row : AcceptedJob} : row ∈ conn.claimable queueName ↔
    row ∈ conn.acceptedJobs ∧ row.queueName = queueName ∧ row.dispatchId = none := by
  rw [claimable, List.mem_filter, decide_eq_true_eq]

/-- Lists in the order of claims with the same places are in the same order. -/
theorem places_eq_of_perm {as bs : List AcceptedJob} (has : as.Pairwise claimOrder)
    (hbs : bs.Pairwise claimOrder) (hperm : (as.map place).Perm (bs.map place)) :
    as.map place = bs.map place := by
  refine List.Perm.eq_of_pairwise (fun _ _ _ _ => le_antisymm) ?_ ?_ hperm
  · exact List.pairwise_map.mpr (has.imp fun {a b} h => (claimOrder_iff a b).mp h)
  · exact List.pairwise_map.mpr (hbs.imp fun {a b} h => (claimOrder_iff a b).mp h)

theorem ids_eq_of_places {as bs : List AcceptedJob} (h : as.map place = bs.map place) :
    as.map AcceptedJob.id = bs.map AcceptedJob.id := by
  have hids := congrArg (List.map fun place => (ofLex place).2) h
  rw [List.map_map, List.map_map] at hids
  exact hids

theorem ordered_ids_nodup (queueName : String)
    (hids : (conn.acceptedJobs.map AcceptedJob.id).Nodup) :
    ((conn.ordered queueName).map AcceptedJob.id).Nodup :=
  ((ordered_perm queueName conn).map AcceptedJob.id).symm.nodup
    (hids.sublist (List.filter_sublist.map AcceptedJob.id))

theorem places_nodup {rows : List AcceptedJob} (hids : (rows.map AcceptedJob.id).Nodup) :
    (rows.map place).Nodup := by
  refine List.Nodup.of_map (fun place => (ofLex place).2) ?_
  rw [List.map_map]
  exact hids

/-- The rows that a claim takes, when the queue is found. -/
theorem pendingClaims_eq {queue : JobQueue}
    (hqueue : Table.lookup JobQueue.name queueName conn.jobQueues = some queue) (limit : Nat) :
    pendingClaims queueName limit conn =
      ((conn.ordered queueName).take limit).map fun row => pendingClaim row queue := by
  rw [pendingClaims, List.map_take, ← List.filterMap_eq_map]
  congr 1
  refine List.filterMap_congr fun row hrow => ?_
  have hname := (mem_claimable.mp ((List.mem_insertionSort _).mp hrow)).2.1
  rw [hname, hqueue]
  rfl

end Order

end IngestConn

namespace Store

/-- A queue that the store serves: the writer and both databases know it, and its timeout is one
that the column holds. -/
structure Serves (queue : JobQueue) (store : Store) : Prop where
  known : queue.name ∈ store.queueNames
  ingest : Table.lookup JobQueue.name queue.name store.ingest.jobQueues = some queue
  results : queue.name ∈ store.results.executionQueues.map JobQueue.name
  timeout : queue.timeoutSecs.toNat < 9223372036854775808

/-- A claimable job has no execution, or one that failed with a count below the largest one. -/
def Retriable (queueName : String) (store : Store) : Prop :=
  ∀ row ∈ store.ingest.claimable queueName, ∀ execution, store.results.execution row.id = some execution →
    execution.status = .failed ∧ 0 ≤ execution.executionCount ∧ execution.executionCount < 4294967295

/-- The lease of a claim. -/
def leaseOf (claimedAt : Int) (queue : JobQueue) : Int :=
  saturatingAdd claimedAt (saturatingMul queue.timeoutSecs.toNat 1000)

/-- The dispatch of a claimable job. -/
def dispatchOf (claimedAt : Int) (queue : JobQueue) (row : AcceptedJob) (dispatchId : String) :
    DispatchInsert :=
  { jobId := row.id, queueName := row.queueName, dispatchId := dispatchId
    leaseExpiresAt := leaseOf claimedAt queue }

/-- A claimable job that has been handed out under an id that is new: what the caller gets, and what
the two databases hold for it. -/
structure Handed (queue : JobQueue) (claimedAt markedAt dispatchedAt : Int) (before after : Store)
    (row : AcceptedJob) (job : Job) (dispatchId : String) : Prop where
  unclaimed : ∀ other ∈ before.ingest.acceptedJobs, other.dispatchId ≠ some dispatchId
  undispatched : ∀ other ∈ before.results.executions, other.dispatchId ≠ dispatchId
  job : job =
    { id := row.id, name := row.queueName, status := .running, payload := row.payload
      executionCount := attempts (before.results.execution row.id) + 1
      leaseExpiresAt := some (leaseOf claimedAt queue), dispatchId := some dispatchId
      resultPayload := none, resultError := none, createdAt := row.createdAt
      updatedAt := dispatchedAt }
  accepted : Table.lookup AcceptedJob.id row.id after.ingest.acceptedJobs =
    some { row with dispatchId := some dispatchId, updatedAt := markedAt }
  execution : ∃ attempt, after.results.execution row.id = some attempt ∧
    IsDispatch dispatchedAt (dispatchOf claimedAt queue row dispatchId)
      (before.results.execution row.id) attempt

/-- Nothing has happened to the jobs other than some. -/
structure KeepsOthers (jobs : List Job) (before after : Store) : Prop where
  accepted : ∀ id ∉ jobs.map Job.id, Table.lookup AcceptedJob.id id after.ingest.acceptedJobs =
    Table.lookup AcceptedJob.id id before.ingest.acceptedJobs
  executions : ∀ id ∉ jobs.map Job.id, after.results.execution id = before.results.execution id
  jobQueues : after.ingest.jobQueues = before.ingest.jobQueues
  queueNames : after.queueNames = before.queueNames
  executionQueues : after.results.executionQueues = before.results.executionQueues

section Claim

variable {store : Store} {queue : JobQueue} {env : Env} {envs : Stage → Env}
  {newDispatchId : Nat → String} {claimedAt : Int} {limit : Nat}

theorem Serves.asI64_timeout (h : store.Serves queue) :
    asI64 queue.timeoutSecs = queue.timeoutSecs.toNat := by
  rw [asI64, if_pos h.timeout]

theorem clampLimit_pos (h : 0 < limit) : clampLimit limit = min limit maxClaimBatchSize := by
  rw [clampLimit, Nat.max_eq_left h]

theorem Serves.takes (h : store.Serves queue) (hlimit : 0 < limit) :
    store.takes queue.name limit =
      ((store.ingest.ordered queue.name).take (min limit maxClaimBatchSize)).map
        fun row => pendingClaim row queue := by
  rw [Store.takes, if_pos h.known, pendingClaims_eq h.ingest, clampLimit_pos hlimit]

theorem Retriable.available (h : store.Retriable queue.name) {row : AcceptedJob}
    (hrow : row ∈ store.ingest.claimable queue.name) :
    Available (store.results.execution row.id) :=
  fun execution hexecution => Or.inl (h row hrow execution hexecution).1

theorem Retriable.attempts_nonneg (h : store.Retriable queue.name) {row : AcceptedJob}
    (hrow : row ∈ store.ingest.claimable queue.name) :
    0 ≤ attempts (store.results.execution row.id) := by
  cases hexecution : store.results.execution row.id with
  | none => exact Int.le_refl 0
  | some execution => exact (h row hrow execution hexecution).2.1

theorem Retriable.startable (h : store.Retriable queue.name) (hserves : store.Serves queue)
    {row : AcceptedJob} (hrow : row ∈ store.ingest.claimable queue.name) :
    Startable store.results.executionQueues row.queueName (store.results.execution row.id) := by
  refine ⟨fun _ => (mem_claimable.mp hrow).2.1 ▸ hserves.results, ?_⟩
  cases hexecution : store.results.execution row.id with
  | none => exact ⟨by decide, by decide⟩
  | some execution =>
    obtain ⟨-, hpos, hless⟩ := h row hrow execution hexecution
    have hattempts : attempts (some execution) = execution.executionCount := rfl
    rw [hattempts]
    exact ⟨by omega, by omega⟩

/-- The store after both commits of a claim. -/
def afterDispatch (now : Int) (claimed : List IngestClaimed) (executions : List Execution)
    (store : Store) : Store :=
  { store.afterMarking now claimed with
    results := { store.results with executions := executions } }

/-- The jobs that a claim takes are claimable. -/
theorem takes_claimable (hserves : store.Serves queue) {limit : Nat} {job : PendingClaim}
    (hjob : job ∈ store.takes queue.name limit) :
    ∃ row ∈ store.ingest.claimable queue.name, row.id = job.id ∧ row.queueName = job.name := by
  rw [takes, if_pos hserves.known] at hjob
  obtain ⟨row, hrow, hid, hfree, hname, hqueue⟩ := mem_pendingClaims hjob
  exact ⟨row, mem_claimable.mpr ⟨hrow, hname.trans hqueue, hfree⟩, hid, hname⟩

theorem Retriable.available_taken (hretriable : store.Retriable queue.name)
    (hserves : store.Serves queue) (newDispatchId : Nat → String) (claimedAt : Int) (limit : Nat) :
    ∀ row ∈ (taken newDispatchId (store.takes queue.name limit)).map (dispatchRow claimedAt),
      Available (Table.lookup Execution.jobId row.jobId store.results.executions) := by
  refine (@forall_dispatchRow newDispatchId claimedAt
    (fun id _ => Available (store.results.execution id)) _).mpr fun job hjob => ?_
  obtain ⟨row, hrow, hid, -⟩ := takes_claimable hserves hjob
  exact hid ▸ hretriable.available hrow

theorem Retriable.startable_taken (hretriable : store.Retriable queue.name)
    (hserves : store.Serves queue) (newDispatchId : Nat → String) (claimedAt : Int) (limit : Nat) :
    AllStartable store.results.executionQueues
      ((taken newDispatchId (store.takes queue.name limit)).map (dispatchRow claimedAt))
      store.results.executions := by
  refine (@forall_dispatchRow newDispatchId claimedAt
    (fun id name => Available (store.results.execution id) →
      Startable store.results.executionQueues name (store.results.execution id)) _).mpr
    fun job hjob _ => ?_
  obtain ⟨row, hrow, hid, hname⟩ := takes_claimable hserves hjob
  rw [← hid, ← hname]
  exact hretriable.startable hserves hrow

/-- A claim of jobs that can all be started commits, and answers with the entries of `by_job`. -/
theorem alone_claimBatch_commits (h : store.WellFormed) (hserves : store.Serves queue)
    (hretriable : store.Retriable queue.name) (hfresh : store.FreshIds newDispatchId) (env : Env)
    (envs : Stage → Env) (claimedAt : Int) (limit : Nat) :
    ∃ claimed dispatchedAt executions returned byJob out,
      claimed = taken newDispatchId (store.takes queue.name limit) ∧
      alone envs (store.claimBatch env newDispatchId claimedAt queue.name limit) =
        (store.afterDispatch env.now claimed executions,
          .done (.claimed (.ok (List.zipWith jobFromClaimed claimed out)))) ∧
      Committed dispatchedAt (claimed.map (dispatchRow claimedAt)) store.results.executions executions
        returned byJob ∧
      Valid store.results.executionQueues executions ∧
      List.Forall₂ (fun entry answer =>
        Table.lookup DispatchedExecution.jobId entry.id byJob = some answer) claimed out := by
  have hclaimed := takes_claimed newDispatchId queue.name limit h
  rcases claimBatch_takes env newDispatchId claimedAt queue.name limit h with
    ⟨result, hnil, hresult, hclaim⟩ | ⟨-, -, hclaim⟩
  · refine ⟨_, 0, store.results.executions, [], [], [], rfl, ?_, ?_, h.valid, ?_⟩
    · rw [hclaim, alone_done, hresult hserves.known, hnil, afterDispatch, afterMarking,
        show taken newDispatchId [] = [] from rfl, show claimedRow env.now [] = id from rfl, List.map_id]
      rfl
    · rw [hnil]
      exact Committed.nil 0 _
    · rw [hnil]
      exact .nil
  · have hids : ((store.takes queue.name limit).map PendingClaim.id).Nodup := by
      rw [← taken_ids newDispatchId]
      exact hclaimed.ids
    obtain ⟨executions, returned, byJob, hdispatch, hcommitted, hvalid⟩ := dispatchBatch_commits
      (freshRows_taken hfresh claimedAt hids) h.valid
      (hretriable.startable_taken hserves newDispatchId claimedAt limit)
    obtain ⟨out, hout, hanswers⟩ := collectDispatched_ok
      (freshRows_taken hfresh claimedAt hids).jobs
      fun row hrow => hcommitted.entry hrow
        (hretriable.available_taken hserves newDispatchId claimedAt limit row hrow)
    refine ⟨_, _, executions, returned, byJob, out, rfl, ?_, hcommitted, hvalid, ?_⟩
    · rw [hclaim, alone_wait, advance, dispatch, afterMarking, hdispatch, hout, alone_done]
      rfl
    · rwa [List.forall₂_map_left_iff] at hanswers

/-- The job that is made of a claim and of the answer to its dispatch. -/
theorem handed_of_answered (h : store.WellFormed) (hserves : store.Serves queue)
    (hretriable : store.Retriable queue.name) (hfresh : store.FreshIds newDispatchId)
    {claimed : List IngestClaimed} {dispatchedAt : Int} {executions returned : List Execution}
    {byJob : List DispatchedExecution}
    (hcommitted : Committed dispatchedAt (claimed.map (dispatchRow claimedAt))
      store.results.executions executions returned byJob)
    (hids : (claimed.map IngestClaimed.id).Nodup) {row : AcceptedJob}
    (hrow : row ∈ store.ingest.claimable queue.name) {i : Nat}
    (hlookup : Table.lookup IngestClaimed.id row.id claimed =
      some (toClaimed (pendingClaim row queue, newDispatchId i))) {answer : DispatchedExecution}
    (hanswer : Table.lookup DispatchedExecution.jobId row.id byJob = some answer) (now : Int) :
    Handed queue claimedAt now dispatchedAt store (store.afterDispatch now claimed executions) row
      (jobFromClaimed (toClaimed (pendingClaim row queue, newDispatchId i)) answer)
      (newDispatchId i) := by
  have hdispatched : dispatchRow claimedAt (toClaimed (pendingClaim row queue, newDispatchId i)) =
      dispatchOf claimedAt queue row (newDispatchId i) := by
    simp only [dispatchRow, dispatchOf, leaseOf, toClaimed, pendingClaim, hserves.asI64_timeout]
  have hmem : dispatchOf claimedAt queue row (newDispatchId i) ∈
      claimed.map (dispatchRow claimedAt) := by
    rw [← hdispatched]
    exact List.mem_map_of_mem (Table.mem_of_lookup hlookup)
  obtain ⟨attempt, hattempt, hdispatch, rfl⟩ := hcommitted.answered
    (by rwa [dispatchRow_jobIds]) hmem (hretriable.available hrow) hanswer
  obtain ⟨hstored, -, hfree⟩ := mem_claimable.mp hrow
  refine ⟨fun other hother => hfresh.accepted i other hother,
    fun other hother => hfresh.executions i other hother, ?_, ?_, attempt, hattempt, hdispatch⟩
  · have hcount : attempt.executionCount = attempts (store.results.execution row.id) + 1 :=
      hdispatch.executionCount
    rw [jobFromClaimed, ← hcount]
    rfl
  · have hmarked : claimedRow now claimed row = marked now row (newDispatchId i) := by
      rw [claimedRow, hlookup]
      exact if_pos hfree
    rw [afterDispatch, afterMarking, Table.lookup_map (claimedRow_id now claimed),
      Table.lookup_of_mem h.ids hstored, Option.map_some, hmarked]
    rfl

/-- A claim with its dispatch touches no others. -/
theorem keepsOthers_afterDispatch {claimed : List IngestClaimed} {dispatchedAt : Int}
    {executions returned : List Execution} {byJob : List DispatchedExecution}
    (hcommitted : Committed dispatchedAt (claimed.map (dispatchRow claimedAt))
      store.results.executions executions returned byJob) {jobs : List Job}
    (hjobs : jobs.map Job.id = claimed.map IngestClaimed.id) (now : Int) :
    KeepsOthers jobs store (store.afterDispatch now claimed executions) := by
  refine ⟨fun id hid => ?_, fun id hid => ?_, rfl, rfl, rfl⟩
  · rw [afterDispatch, afterMarking, Table.lookup_map (claimedRow_id now claimed)]
    cases hlookup : Table.lookup AcceptedJob.id id store.ingest.acceptedJobs with
    | none => rfl
    | some row =>
      rcases claimedRow_cases now claimed row with ⟨heq, -⟩ | ⟨entry, hentry, -, -⟩
      · rw [Option.map_some, heq]
      · rw [Table.key_of_lookup hlookup] at hentry
        refine absurd ?_ hid
        rw [hjobs, ← Table.key_of_lookup hentry]
        exact List.mem_map_of_mem (Table.mem_of_lookup hentry)
  · refine hcommitted.spec.other id ?_
    rwa [dispatchRow_jobIds, ← hjobs]

/-- A claim hands out the first jobs of its queue, and touches no others. -/
theorem claim_hands_out (h : store.WellFormed) (hserves : store.Serves queue)
    (hretriable : store.Retriable queue.name) (hfresh : store.FreshIds newDispatchId)
    (hlimit : 0 < limit) (env : Env) (envs : Stage → Env) (claimedAt : Int) :
    ∃ jobs store' dispatchedAt,
      alone envs (store.claimBatch env newDispatchId claimedAt queue.name limit) =
        (store', .done (.claimed (.ok jobs))) ∧
      List.Forall₂ (fun row job => ∃ dispatchId,
        Handed queue claimedAt env.now dispatchedAt store store' row job dispatchId)
        ((store.ingest.ordered queue.name).take (min limit maxClaimBatchSize)) jobs ∧
      (jobs.map Job.dispatchId).Nodup ∧ KeepsOthers jobs store store' ∧ store'.WellFormed := by
  obtain ⟨claimed, dispatchedAt, executions, returned, byJob, out, rfl, hrun, hcommitted, hvalid,
    hanswers⟩ := alone_claimBatch_commits h hserves hretriable hfresh env envs claimedAt limit
  have hclaimed := takes_claimed newDispatchId queue.name limit h
  have hpending : ((store.takes queue.name limit).map PendingClaim.id).Nodup := by
    rw [← taken_ids newDispatchId]
    exact hclaimed.ids
  have hjobs : (((taken newDispatchId (store.takes queue.name limit)).map
      (dispatchRow claimedAt)).map DispatchInsert.jobId).Nodup := by
    rw [dispatchRow_jobIds]
    exact hclaimed.ids
  -- every job is made of a claim and of the entry under its id
  have hzipped := forall₂_zipWith (f := jobFromClaimed) (S := fun entry job => ∃ answer,
    Table.lookup DispatchedExecution.jobId entry.id byJob = some answer ∧
      job = jobFromClaimed entry answer) hanswers fun entry answer hanswer => ⟨answer, hanswer, rfl⟩
  have hhanded := Lists.forall₂_comp (taken_forall₂ newDispatchId hpending) hzipped
  rw [hserves.takes hlimit, List.forall₂_map_left_iff, ← hserves.takes hlimit] at hhanded
  refine ⟨_, _, dispatchedAt, hrun, ?_, ?_, ?_, ?_⟩
  · refine (Lists.forall₂_mem hhanded).imp ?_
    rintro row job ⟨hrow, -, entry, ⟨⟨i, rfl⟩, hlookup⟩, answer, hanswer, rfl⟩
    exact ⟨newDispatchId i, handed_of_answered h hserves hretriable hfresh hcommitted hclaimed.ids
      ((ordered_perm _ _).mem_iff.mp (List.mem_of_mem_take hrow)) hlookup hanswer env.now⟩
  · have hdispatchIds : (List.zipWith jobFromClaimed (taken newDispatchId (store.takes queue.name limit))
        out).map Job.dispatchId = (taken newDispatchId (store.takes queue.name limit)).map
          (some ∘ IngestClaimed.dispatchId) := by
      refine (Lists.map_eq_of_forall₂ (Lists.forall₂_mem hzipped) ?_).symm
      rintro entry job ⟨hentry, -, answer, hanswer, rfl⟩
      obtain ⟨row, hrow, hid, hfree, hname, hqueue⟩ := hclaimed.free entry hentry
      have havailable := hretriable.available
        (mem_claimable.mpr ⟨hrow, hname.trans hqueue, hfree⟩)
      rw [hid] at havailable
      obtain ⟨attempt, -, -, rfl⟩ := hcommitted.answered hjobs
        (List.mem_map_of_mem hentry) havailable hanswer
      rfl
    rw [hdispatchIds, ← List.map_map, taken_dispatchIds]
    exact (List.nodup_range.map hfresh.distinct).map (Option.some_injective _)
  · refine keepsOthers_afterDispatch hcommitted ?_ env.now
    refine (Lists.map_eq_of_forall₂ hzipped ?_).symm
    rintro entry job ⟨answer, -, rfl⟩
    rfl
  · refine ⟨?_, hvalid⟩
    exact (h.map_accepted (claimedRow_id env.now _)).ids

end Claim

/-! ### Jobs that are claimable again -/

/-- Some claimed jobs have been repended after their attempts failed, and nothing else has
happened. -/
structure Repended (released : List Job) (before after : Store) : Prop where
  accepted : ∀ job ∈ released, ∃ row updatedAt,
    Table.lookup AcceptedJob.id job.id before.ingest.acceptedJobs = some row ∧
    Table.lookup AcceptedJob.id job.id after.ingest.acceptedJobs =
      some { row with dispatchId := none, updatedAt := updatedAt }
  executions : ∀ job ∈ released, ∃ attempt, after.results.execution job.id = some attempt ∧
    attempt.status = .failed ∧ attempt.executionCount = job.executionCount
  others : KeepsOthers released before after
  wellFormed : after.WellFormed

section Again

variable {store store' store'' : Store} {queue : JobQueue} {claimedAt markedAt dispatchedAt : Int}
  {first : List AcceptedJob} {jobs released : List Job}

theorem handed_ids (hhanded : List.Forall₂ (fun row job => ∃ dispatchId,
    Handed queue claimedAt markedAt dispatchedAt store store' row job dispatchId) first jobs) :
    jobs.map Job.id = first.map AcceptedJob.id := by
  refine (Lists.map_eq_of_forall₂ hhanded ?_).symm
  rintro row job ⟨dispatchId, hjob⟩
  rw [hjob.job]

theorem exists_handed (hhanded : List.Forall₂ (fun row job => ∃ dispatchId,
    Handed queue claimedAt markedAt dispatchedAt store store' row job dispatchId) first jobs)
    {job : Job} (hjob : job ∈ jobs) : ∃ row ∈ first, ∃ dispatchId,
      Handed queue claimedAt markedAt dispatchedAt store store' row job dispatchId := by
  induction hhanded with
  | nil => cases hjob
  | @cons row other rows others hfirst _ ih =>
    rcases List.mem_cons.mp hjob with rfl | hrest
    · exact ⟨row, List.mem_cons_self, hfirst⟩
    · obtain ⟨found, hfound, hhanded⟩ := ih hrest
      exact ⟨found, List.mem_cons_of_mem _ hfound, hhanded⟩

/-- The row of a job that has been repended is the one that was claimed. -/
theorem Repended.row (hrepended : Repended released store' store'') {row : AcceptedJob} {job : Job}
    {dispatchId : String}
    (hhanded : Handed queue claimedAt markedAt dispatchedAt store store' row job dispatchId)
    (hfree : row.dispatchId = none) (hjob : job ∈ released) :
    ∃ updatedAt, Table.lookup AcceptedJob.id row.id store''.ingest.acceptedJobs =
      some { row with updatedAt := updatedAt } := by
  obtain ⟨marked, updatedAt, hmarked, hrow⟩ := hrepended.accepted job hjob
  have hid : job.id = row.id := by rw [hhanded.job]
  rw [hid, hhanded.accepted] at hmarked
  rw [hid, ← Option.some.inj hmarked] at hrow
  refine ⟨updatedAt, hrow.trans ?_⟩
  rw [← hfree]

/-- The claimable jobs after some of the jobs that a claim handed out have been repended: these, and
the ones that it did not take. -/
theorem Repended.claimable_cases (hfirst : ∀ row ∈ first, row ∈ store.ingest.claimable queue.name)
    (hhanded : List.Forall₂ (fun row job => ∃ dispatchId,
      Handed queue claimedAt markedAt dispatchedAt store store' row job dispatchId) first jobs)
    (hothers : KeepsOthers jobs store store') (hsub : released ⊆ jobs)
    (hrepended : Repended released store' store'') {row : AcceptedJob}
    (hrow : row ∈ store''.ingest.claimable queue.name) :
    (∃ job ∈ released, ∃ source ∈ first, ∃ dispatchId,
      Handed queue claimedAt markedAt dispatchedAt store store' source job dispatchId ∧
      ∃ updatedAt, row = { source with updatedAt := updatedAt }) ∨
    row.id ∉ jobs.map Job.id ∧ row ∈ store.ingest.claimable queue.name := by
  obtain ⟨hmem, hqueue, hfree⟩ := mem_claimable.mp hrow
  have hlookup := Table.lookup_of_mem hrepended.wellFormed.ids hmem
  by_cases hid : row.id ∈ released.map Job.id
  · obtain ⟨job, hjob, hsame⟩ := List.mem_map.mp hid
    obtain ⟨source, hsource, dispatchId, hsourceHanded⟩ := exists_handed hhanded (hsub hjob)
    obtain ⟨updatedAt, hfound⟩ := hrepended.row hsourceHanded
      (mem_claimable.mp (hfirst source hsource)).2.2 hjob
    refine Or.inl ⟨job, hjob, source, hsource, dispatchId, hsourceHanded, updatedAt, ?_⟩
    have hsourceId : source.id = row.id := by rw [← hsame, hsourceHanded.job]
    rw [← hsourceId, hfound] at hlookup
    exact (Option.some.inj hlookup).symm
  · rw [hrepended.others.accepted row.id hid] at hlookup
    have hnot : row.id ∉ jobs.map Job.id := by
      intro htaken
      obtain ⟨job, hjob, hsame⟩ := List.mem_map.mp htaken
      obtain ⟨source, -, dispatchId, hsourceHanded⟩ := exists_handed hhanded hjob
      have hmarked := hsourceHanded.accepted
      rw [← show job.id = source.id by rw [hsourceHanded.job], hsame, hlookup] at hmarked
      rw [Option.some.inj hmarked] at hfree
      cases hfree
    rw [hothers.accepted row.id hnot] at hlookup
    exact Or.inr ⟨hnot, mem_claimable.mpr ⟨Table.mem_of_lookup hlookup, hqueue, hfree⟩⟩

/-- A job that has been repended, or that the claim did not take, has its place. -/
theorem Repended.claimable_of (h : store.WellFormed)
    (hfirst : ∀ row ∈ first, row ∈ store.ingest.claimable queue.name)
    (hhanded : List.Forall₂ (fun row job => ∃ dispatchId,
      Handed queue claimedAt markedAt dispatchedAt store store' row job dispatchId) first jobs)
    (hothers : KeepsOthers jobs store store') (hsub : released ⊆ jobs)
    (hrepended : Repended released store' store'') {row : AcceptedJob}
    (hrow : row ∈ store.ingest.claimable queue.name)
    (hkept : row.id ∈ released.map Job.id ∨ row.id ∉ jobs.map Job.id) :
    ∃ row' ∈ store''.ingest.claimable queue.name, place row' = place row := by
  obtain ⟨hmem, hqueue, hfree⟩ := mem_claimable.mp hrow
  rcases hkept with hid | hid
  · obtain ⟨job, hjob, hsame⟩ := List.mem_map.mp hid
    obtain ⟨source, hsource, dispatchId, hsourceHanded⟩ := exists_handed hhanded (hsub hjob)
    have hsourceId : source.id = row.id := by rw [← hsame, hsourceHanded.job]
    obtain rfl := List.inj_on_of_nodup_map h.ids (mem_claimable.mp (hfirst source hsource)).1 hmem
      hsourceId
    obtain ⟨updatedAt, hfound⟩ := hrepended.row hsourceHanded hfree hjob
    exact ⟨_, mem_claimable.mpr ⟨Table.mem_of_lookup hfound, hqueue, hfree⟩, rfl⟩
  · have hnot : row.id ∉ released.map Job.id := fun hreleased =>
      hid (List.map_subset _ hsub hreleased)
    have hlookup := Table.lookup_of_mem h.ids hmem
    rw [← hothers.accepted row.id hid, ← hrepended.others.accepted row.id hnot] at hlookup
    exact ⟨row, mem_claimable.mpr ⟨Table.mem_of_lookup hlookup, hqueue, hfree⟩, rfl⟩

theorem Serves.of_keeps (h : store.Serves queue) (hothers : KeepsOthers jobs store store') :
    store'.Serves queue := by
  refine ⟨?_, ?_, ?_, h.timeout⟩
  · rw [hothers.queueNames]
    exact h.known
  · rw [hothers.jobQueues]
    exact h.ingest
  · rw [hothers.executionQueues]
    exact h.results

/-- The jobs that have been repended can be claimed again. -/
theorem Repended.retriable (hretriable : store.Retriable queue.name)
    (hfirst : ∀ row ∈ first, row ∈ store.ingest.claimable queue.name)
    (hhanded : List.Forall₂ (fun row job => ∃ dispatchId,
      Handed queue claimedAt markedAt dispatchedAt store store' row job dispatchId) first jobs)
    (hothers : KeepsOthers jobs store store') (hsub : released ⊆ jobs)
    (hcounts : ∀ job ∈ released, job.executionCount < 4294967295)
    (hrepended : Repended released store' store'') : store''.Retriable queue.name := by
  intro row hrow execution hexecution
  rcases hrepended.claimable_cases hfirst hhanded hothers hsub hrow with
    ⟨job, hjob, source, hsource, dispatchId, hsourceHanded, updatedAt, rfl⟩ | ⟨hid, hclaimable⟩
  · obtain ⟨attempt, hattempt, hfailed, hcount⟩ := hrepended.executions job hjob
    have hjobId : job.id = source.id := by rw [hsourceHanded.job]
    rw [hjobId, hexecution] at hattempt
    obtain rfl := Option.some.inj hattempt
    have hpositive : 0 ≤ job.executionCount := by
      rw [hsourceHanded.job]
      have hstart := (Retriable.attempts_nonneg hretriable (hfirst source hsource))
      dsimp only
      omega
    rw [hcount]
    exact ⟨hfailed, hpositive, hcounts job hjob⟩
  · have hnot : row.id ∉ released.map Job.id := fun hreleased =>
      hid (List.map_subset _ hsub hreleased)
    rw [hrepended.others.executions row.id hnot, hothers.executions row.id hid] at hexecution
    exact hretriable row hclaimable execution hexecution

/-- The order of the claimable jobs once some have been repended: that of before the claim, without
the ones that it holds still. -/
theorem Repended.ordered_places (h : store.WellFormed) {later : List AcceptedJob}
    (hordered : store.ingest.ordered queue.name = first ++ later)
    (hhanded : List.Forall₂ (fun row job => ∃ dispatchId,
      Handed queue claimedAt markedAt dispatchedAt store store' row job dispatchId) first jobs)
    (hothers : KeepsOthers jobs store store') (hsub : released ⊆ jobs)
    (hrepended : Repended released store' store'') :
    (store''.ingest.ordered queue.name).map place =
      ((first.filter fun row => row.id ∈ released.map Job.id) ++ later).map place := by
  have hids := handed_ids hhanded
  have hclaimable : ∀ row, row ∈ first ++ later ↔ row ∈ store.ingest.claimable queue.name := by
    intro row
    rw [← hordered]
    exact (ordered_perm _ _).mem_iff
  have hfirst : ∀ row ∈ first, row ∈ store.ingest.claimable queue.name := fun row hrow =>
    (hclaimable row).mp (List.mem_append_left _ hrow)
  have hsublist : ((first.filter fun row => row.id ∈ released.map Job.id) ++ later).Sublist
      (store.ingest.ordered queue.name) := by
    rw [hordered]
    exact List.filter_sublist.append_right later
  have hdisjoint : ∀ row ∈ later, row.id ∉ jobs.map Job.id := by
    have hnodup := ordered_ids_nodup queue.name h.ids
    rw [hordered, List.map_append, List.nodup_append] at hnodup
    intro row hrow hmem
    rw [hids] at hmem
    exact hnodup.2.2 _ hmem _ (List.mem_map_of_mem hrow) rfl
  refine places_eq_of_perm (ordered_pairwise _ _) ((ordered_pairwise _ _).sublist hsublist) ?_
  refine (List.perm_ext_iff_of_nodup (places_nodup (ordered_ids_nodup _ hrepended.wellFormed.ids))
    (places_nodup ((ordered_ids_nodup _ h.ids).sublist (hsublist.map _)))).mpr fun spot => ?_
  rw [List.mem_map, List.mem_map]
  constructor
  · rintro ⟨row, hrow, rfl⟩
    rcases hrepended.claimable_cases hfirst hhanded hothers hsub ((ordered_perm _ _).mem_iff.mp hrow)
      with ⟨job, hjob, source, hsource, dispatchId, hsourceHanded, updatedAt, rfl⟩ | ⟨hid, hkept⟩
    · refine ⟨source, List.mem_append_left _ (List.mem_filter.mpr ⟨hsource, ?_⟩), rfl⟩
      rw [decide_eq_true_eq, ← show job.id = source.id by rw [hsourceHanded.job]]
      exact List.mem_map_of_mem hjob
    · refine ⟨row, List.mem_append_right _ ?_, rfl⟩
      rcases List.mem_append.mp ((hclaimable row).mpr hkept) with htaken | hlater
      · exact absurd (hids ▸ List.mem_map_of_mem htaken) hid
      · exact hlater
  · rintro ⟨row, hrow, rfl⟩
    have hkept : row ∈ store.ingest.claimable queue.name ∧
        (row.id ∈ released.map Job.id ∨ row.id ∉ jobs.map Job.id) := by
      rcases List.mem_append.mp hrow with hrow | hlater
      · obtain ⟨hrow, hreleased⟩ := List.mem_filter.mp hrow
        exact ⟨hfirst row hrow, Or.inl (of_decide_eq_true hreleased)⟩
      · exact ⟨(hclaimable row).mp (List.mem_append_right _ hlater), Or.inr (hdisjoint row hlater)⟩
    obtain ⟨row', hrow', hplace⟩ := hrepended.claimable_of h hfirst hhanded hothers hsub hkept.1 hkept.2
    exact ⟨row', (ordered_perm _ _).mem_iff.mpr hrow', hplace⟩

/-! ### Releases -/

/-- A job as a claim has left it: its row is claimed by the attempt that runs. -/
structure Held (store : Store) (job : Job) (dispatchId : String) : Prop where
  token : job.dispatchId = some dispatchId
  accepted : ∃ row, Table.lookup AcceptedJob.id job.id store.ingest.acceptedJobs = some row ∧
    row.dispatchId = some dispatchId
  execution : ∃ attempt, store.results.execution job.id = some attempt ∧
    attempt.dispatchId = dispatchId ∧ attempt.status = .running ∧
    attempt.executionCount = job.executionCount

/-- `release_claim` of one job after another. -/
def releaseAll (envs : Job → Stage → Env) : List Job → Store → Store
  | [], store => store
  | job :: rest, store =>
    releaseAll envs rest
      (alone (envs job) (store, store.releaseClaim job.id (job.dispatchId.getD ""))).1

theorem Repended.nil (h : store.WellFormed) : Repended [] store store := by
  refine ⟨?_, ?_, ⟨fun _ _ => rfl, fun _ _ => rfl, rfl, rfl, rfl⟩, h⟩
  · simp
  · simp

theorem Repended.cons {job : Job} (hjob : job.id ∉ released.map Job.id)
    (hone : Repended [job] store store') (hrest : Repended released store' store'') :
    Repended (job :: released) store store'' := by
  have hother : ∀ {other : Job}, other ∈ released → other.id ∉ [job].map Job.id := by
    intro other hmem hsame
    rw [List.map_singleton, List.mem_singleton] at hsame
    exact hjob (hsame ▸ List.mem_map_of_mem hmem)
  refine ⟨fun other hmem => ?_, fun other hmem => ?_, ⟨fun id hid => ?_, fun id hid => ?_, ?_, ?_, ?_⟩,
    hrest.wellFormed⟩
  · rcases List.mem_cons.mp hmem with rfl | hmem
    · rw [hrest.others.accepted other.id hjob]
      exact hone.accepted other List.mem_cons_self
    · rw [← hone.others.accepted other.id (hother hmem)]
      exact hrest.accepted other hmem
  · rcases List.mem_cons.mp hmem with rfl | hmem
    · rw [hrest.others.executions other.id hjob]
      exact hone.executions other List.mem_cons_self
    · exact hrest.executions other hmem
  · rw [List.map_cons, List.mem_cons, not_or] at hid
    rw [hrest.others.accepted id hid.2, hone.others.accepted id (by simpa using hid.1)]
  · rw [List.map_cons, List.mem_cons, not_or] at hid
    rw [hrest.others.executions id hid.2, hone.others.executions id (by simpa using hid.1)]
  · rw [hrest.others.jobQueues, hone.others.jobQueues]
  · rw [hrest.others.queueNames, hone.others.queueNames]
  · rw [hrest.others.executionQueues, hone.others.executionQueues]

/-- The store after a release. -/
def afterRelease (now now' : Int) (key : Int × String) (store : Store) : Store :=
  { store with
    ingest := { store.ingest with
      acceptedJobs := store.ingest.acceptedJobs.map (rependRow now' key) }
    results := { store.results with
      executions := store.results.executions.map (abandonRow now key) } }

theorem Held.alone_releaseClaim {job : Job} {dispatchId : String} (h : store.Held job dispatchId)
    (envs : Stage → Env) : ∃ now now',
      (alone envs (store, store.releaseClaim job.id (job.dispatchId.getD ""))).1 =
        store.afterRelease now now' (job.id, dispatchId) := by
  obtain ⟨row, hrow, hclaim⟩ := h.accepted
  have hwait : store.releaseClaim job.id (job.dispatchId.getD "") =
      .wait (.abandon job.id dispatchId) := by
    rw [releaseClaim, acceptedRow, hrow, h.token]
    exact if_pos hclaim
  refine ⟨(envs (.abandon job.id dispatchId)).now, (envs (.rependReleased job.id dispatchId)).now, ?_⟩
  rw [hwait, alone_wait, advance, alone_wait, advance, alone_done, repend_eq]
  rfl

theorem abandonRow_jobId (now : Int) (key : Int × String) (row : Execution) :
    (abandonRow now key row).jobId = row.jobId :=
  (Writer.finishes_abandonRow now key).keeps Execution.jobId (fun _ _ _ => finished_jobId _ _ _) row

/-- A release repends the job that it is for. -/
theorem Held.repended {job : Job} {dispatchId : String} (hheld : store.Held job dispatchId)
    (h : store.WellFormed) (envs : Stage → Env) :
    Repended [job] store
      (alone envs (store, store.releaseClaim job.id (job.dispatchId.getD ""))).1 := by
  obtain ⟨now, now', hend⟩ := hheld.alone_releaseClaim envs
  obtain ⟨row, hrow, hclaim⟩ := hheld.accepted
  obtain ⟨attempt, hattempt, hdispatch, hrunning, hcount⟩ := hheld.execution
  have hjobId : attempt.jobId = job.id := Table.key_of_lookup hattempt
  have hfences : fences attempt (job.id, dispatchId) = true :=
    fences_iff.mpr ⟨Prod.ext hjobId hdispatch, hrunning⟩
  rw [hend]
  refine ⟨fun other hother => ?_, fun other hother => ?_, ⟨fun id hid => ?_, fun id hid => ?_, rfl, rfl,
    rfl⟩, ?_⟩
  · obtain rfl := List.mem_singleton.mp hother
    refine ⟨row, now', hrow, ?_⟩
    have hreleased : rependRow now' (other.id, dispatchId) row = released now' row :=
      if_pos ⟨Table.key_of_lookup hrow, hclaim⟩
    rw [afterRelease, Table.lookup_map (rependRow_id now' (other.id, dispatchId)), hrow,
      Option.map_some, hreleased]
    rfl
  · obtain rfl := List.mem_singleton.mp hother
    refine ⟨finished now attempt (.failed "abandoned"), ?_, rfl, hcount⟩
    have habandoned : abandonRow now (other.id, dispatchId) attempt =
        finished now attempt (.failed "abandoned") := if_pos hfences
    rw [afterRelease, ResultsConn.execution, Table.lookup_map (abandonRow_jobId now (other.id, dispatchId)),
      show Table.lookup Execution.jobId other.id store.results.executions = some attempt from hattempt,
      Option.map_some, habandoned]
  · have hne : id ≠ job.id := by simpa using hid
    rw [afterRelease, Table.lookup_map (rependRow_id now' (job.id, dispatchId))]
    cases hlookup : Table.lookup AcceptedJob.id id store.ingest.acceptedJobs with
    | none => rfl
    | some other =>
      have hother : ¬(other.id = job.id ∧ other.dispatchId = some dispatchId) := fun hsame =>
        hne ((Table.key_of_lookup hlookup).symm.trans hsame.1)
      rw [Option.map_some, rependRow, if_neg hother]
  · have hne : id ≠ job.id := by simpa using hid
    rw [afterRelease, ResultsConn.execution, ResultsConn.execution,
      Table.lookup_map (abandonRow_jobId now (job.id, dispatchId))]
    cases hlookup : Table.lookup Execution.jobId id store.results.executions with
    | none => rfl
    | some other =>
      have hother : ¬fences other (job.id, dispatchId) = true := fun hsame =>
        hne ((Table.key_of_lookup hlookup).symm.trans (congrArg Prod.fst (fences_iff.mp hsame).1))
      rw [Option.map_some, abandonRow, if_neg hother]
  · exact (h.finish (Writer.finishes_abandonRow now (job.id, dispatchId))).map_accepted
      (rependRow_id now' (job.id, dispatchId))

theorem Held.of_keeps {job : Job} {dispatchId : String} (h : store.Held job dispatchId)
    (hothers : KeepsOthers jobs store store') (hjob : job.id ∉ jobs.map Job.id) :
    store'.Held job dispatchId := by
  refine ⟨h.token, ?_, ?_⟩
  · rw [hothers.accepted job.id hjob]
    exact h.accepted
  · rw [hothers.executions job.id hjob]
    exact h.execution

/-- Releases, one after another, repend the jobs that they are for. -/
theorem repended_releaseAll (h : store.WellFormed) (hids : (released.map Job.id).Nodup)
    (hheld : ∀ job ∈ released, ∃ dispatchId, store.Held job dispatchId)
    (envs : Job → Stage → Env) : Repended released store (store.releaseAll envs released) := by
  induction released generalizing store with
  | nil => exact Repended.nil h
  | cons job rest ih =>
    rw [List.map_cons, List.nodup_cons] at hids
    obtain ⟨dispatchId, hjob⟩ := hheld job List.mem_cons_self
    have hone := hjob.repended h (envs job)
    refine Repended.cons hids.1 hone (ih hone.wellFormed hids.2 fun other hother => ?_)
    obtain ⟨otherId, hotherHeld⟩ := hheld other (List.mem_cons_of_mem _ hother)
    refine ⟨otherId, hotherHeld.of_keeps hone.others fun hsame => hids.1 ?_⟩
    rw [List.map_singleton, List.mem_singleton] at hsame
    exact hsame ▸ List.mem_map_of_mem hother

theorem Handed.held {row : AcceptedJob} {job : Job} {dispatchId : String}
    (h : Handed queue claimedAt markedAt dispatchedAt store store' row job dispatchId) :
    store'.Held job dispatchId := by
  have hid : job.id = row.id := by rw [h.job]
  obtain ⟨attempt, hattempt, hdispatch⟩ := h.execution
  refine ⟨by rw [h.job], ?_, attempt, hid ▸ hattempt, hdispatch.dispatchId, hdispatch.status, ?_⟩
  · rw [hid]
    exact ⟨_, h.accepted, rfl⟩
  · rw [hdispatch.executionCount, h.job]

/-- Claims are exact and first in, first out: a claim hands out the first jobs of its queue, in
their order, and touches no others. Any of these jobs that are repended, as a release does it, are
handed out again before the jobs that come later, in the same order. -/
theorem claims_first_in_first_out {newDispatchId : Nat → String} {limit : Nat} (h : store.WellFormed)
    (hserves : store.Serves queue) (hretriable : store.Retriable queue.name)
    (hfresh : store.FreshIds newDispatchId) (hlimit : 0 < limit) (env : Env) (envs : Stage → Env)
    (claimedAt : Int) :
    ∃ first later jobs store' dispatchedAt,
      (first ++ later).Perm (store.ingest.claimable queue.name) ∧
      (first ++ later).Pairwise claimOrder ∧
      first.length = min (min limit maxClaimBatchSize) (store.ingest.claimable queue.name).length ∧
      alone envs (store.claimBatch env newDispatchId claimedAt queue.name limit) =
        (store', .done (.claimed (.ok jobs))) ∧
      List.Forall₂ (fun row job => ∃ dispatchId,
        Handed queue claimedAt env.now dispatchedAt store store' row job dispatchId) first jobs ∧
      (jobs.map Job.dispatchId).Nodup ∧ KeepsOthers jobs store store' ∧
      ∀ released, released.Subperm jobs →
        (∀ releaseEnvs, Repended released store' (store'.releaseAll releaseEnvs released)) ∧
        ∀ store'', Repended released store' store'' →
          (∀ job ∈ released, job.executionCount < 4294967295) →
          ∀ newDispatchId', store''.FreshIds newDispatchId' → ∀ limit' > 0, ∀ env' envs' claimedAt',
            ∃ jobs' final,
              alone envs' (store''.claimBatch env' newDispatchId' claimedAt' queue.name limit') =
                (final, .done (.claimed (.ok jobs'))) ∧
              jobs'.map Job.id =
                (((first.filter fun row => row.id ∈ released.map Job.id) ++ later).map
                  AcceptedJob.id).take (min limit' maxClaimBatchSize) := by
  obtain ⟨jobs, store', dispatchedAt, hrun, hhanded, hdistinct, hothers, hformed⟩ :=
    claim_hands_out h hserves hretriable hfresh hlimit env envs claimedAt
  have hordered := (List.take_append_drop (min limit maxClaimBatchSize)
    (store.ingest.ordered queue.name)).symm
  have hfirst : ∀ row ∈ (store.ingest.ordered queue.name).take (min limit maxClaimBatchSize),
      row ∈ store.ingest.claimable queue.name := fun row hrow =>
    (ordered_perm _ _).mem_iff.mp (List.mem_of_mem_take hrow)
  refine ⟨_, (store.ingest.ordered queue.name).drop (min limit maxClaimBatchSize), jobs, store',
    dispatchedAt, ?_, ?_, ?_, hrun, hhanded, hdistinct, hothers, ?_⟩
  · rw [← hordered]
    exact ordered_perm _ _
  · rw [← hordered]
    exact ordered_pairwise _ _
  · rw [List.length_take, (ordered_perm _ _).length_eq]
  · intro released hreleased
    refine ⟨fun releaseEnvs => ?_, ?_⟩
    · have hids : (jobs.map Job.id).Nodup := by
        rw [handed_ids hhanded]
        exact (ordered_ids_nodup queue.name h.ids).sublist ((List.take_sublist _ _).map _)
      obtain ⟨sub, hperm, hsub⟩ := hreleased
      have hnodup := (hperm.map Job.id).nodup (hids.sublist (hsub.map Job.id))
      refine repended_releaseAll hformed hnodup (fun job hjob => ?_) releaseEnvs
      obtain ⟨row, -, dispatchId, hjobHanded⟩ := exists_handed hhanded
        (hsub.subset (hperm.mem_iff.mpr hjob))
      exact ⟨dispatchId, hjobHanded.held⟩
    · intro store'' hrepended hcounts newDispatchId' hfresh' limit' hlimit' env' envs' claimedAt'
      obtain ⟨jobs', final, _, hrun', hhanded', -⟩ := claim_hands_out hrepended.wellFormed
        ((hserves.of_keeps hothers).of_keeps hrepended.others)
        (hrepended.retriable hretriable hfirst hhanded hothers hreleased.subset hcounts) hfresh' hlimit'
        env' envs' claimedAt'
      refine ⟨jobs', final, hrun', ?_⟩
      rw [handed_ids hhanded', List.map_take,
        ids_eq_of_places (hrepended.ordered_places h hordered hhanded hothers hreleased.subset)]

end Again

/-- Two free jobs, the first of which has failed once: a claim of both hands out both. -/
theorem claims_first_in_first_out_both : ∃ jobs store',
    alone (fun _ => Env.atTime 9)
      ((attemptedMail .failed).claimBatch (Env.atTime 8) countedId 8 "mail" 2) =
      (store', .done (.claimed (.ok jobs))) ∧ jobs.length = 2 := by
  have hserves : (attemptedMail .failed).Serves mailQueue :=
    ⟨by decide, by decide, by decide, by decide⟩
  have hretriable : (attemptedMail .failed).Retriable mailQueue.name := by
    intro row hrow execution hexecution
    obtain rfl : execution = ⟨1, 1, "mail", .failed, 1, some 35, "a", none, none, 5, 5⟩ :=
      List.mem_singleton.mp (Table.mem_of_lookup hexecution)
    exact ⟨rfl, by decide, by decide⟩
  obtain ⟨first, later, jobs, store', dispatchedAt, -, -, hlength, hrun, hhanded, -⟩ :=
    claims_first_in_first_out (attemptedMail_wellFormed .failed) hserves hretriable
      (attemptedMail_freshIds .failed) (Nat.succ_pos 1) (Env.atTime 8) (fun _ => Env.atTime 9) 8
  refine ⟨jobs, store', hrun, ?_⟩
  rw [← hhanded.length_eq, hlength]
  decide

end Store

end Maqistor
