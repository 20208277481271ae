import Maqistor.Store.Steps

/-! What a step can do to the tables, in a store without `release_claim`, and which claims it
answers. -/

namespace Maqistor

open ResultsConn IngestConn

variable {pinned : String → Option UInt32}

def Action.isRelease : Action → Bool
  | .releaseClaim _ _ => true
  | _ => false

/-- A step of `cleanup_expired_records`. -/
def cleans (sys : System) : Action → Bool
  | .cleanupExpiredRecords _ => true
  | .resume _ i =>
    match sys.pool[i]? with
    | some (_, .cleanupResults _ _) => true
    | _ => false
  | _ => false

/-- No call returns claimed jobs. -/
def NoClaim (replied : Replied) : Prop :=
  ∀ id jobs, (id, Reply.claimed (.ok jobs)) ∈ replied → jobs = []

/-- A rewrite of the accepted jobs that keeps the rows in their places, and marks them with new
dispatch ids only. -/
structure Rewrites (issued : List (Int × String)) (f : AcceptedJob → AcceptedJob) : Prop where
  id : ∀ row, (f row).id = row.id
  queueName : ∀ row, (f row).queueName = row.queueName
  marks : ∀ row dispatchId, (f row).dispatchId = some dispatchId →
    row.dispatchId = some dispatchId ∨ dispatchId ∉ issued.map Prod.snd

/-- The five things that a step can do. -/
inductive Effect (sys sys' : System) (action : Action) (replied : Replied) : Prop
  | rewrite (f : AcceptedJob → AcceptedJob) (hf : Rewrites sys.issued f)
      (haccepted : sys'.store.ingest.acceptedJobs = sys.store.ingest.acceptedJobs.map f)
      (hexecutions : sys'.store.results.executions = sys.store.results.executions)
      (hawaiting : ∀ entry ∈ collect Stage.awaiting sys'.pool,
        entry ∈ collect Stage.awaiting sys.pool ∨
          ∃ row ∈ sys.store.ingest.acceptedJobs, row.id = entry.id ∧ row.dispatchId = none)
      (hreplied : NoClaim replied)
  | enqueue (jobs : List AcceptedJob)
      (haccepted : sys'.store.ingest.acceptedJobs = sys.store.ingest.acceptedJobs ++
        (numbered (nextId sys.store.ingest.acceptedJobs) jobs).map unclaimed)
      (hexecutions : sys'.store.results.executions = sys.store.results.executions)
      (hawaiting : collect Stage.awaiting sys'.pool ⊆ collect Stage.awaiting sys.pool)
      (hreplied : NoClaim replied)
  | finish (f : Execution → Execution) (hf : Writer.Finishes f)
      (haccepted : sys'.store.ingest.acceptedJobs = sys.store.ingest.acceptedJobs)
      (hexecutions : sys'.store.results.executions = sys.store.results.executions.map f)
      (hdue : ∀ row ∈ sys.store.results.executions, row.status = .running →
        (f row).status = .failed →
        row.executionCount ≤ limitOf sys.store.results.executionQueues row.queueName →
        row.key ∈ collect Stage.retries sys'.pool)
      (hawaiting : collect Stage.awaiting sys'.pool ⊆ collect Stage.awaiting sys.pool)
      (hreplied : NoClaim replied)
  | dispatch (now claimedAt : Int) (id : Nat) (claimed : List IngestClaimed)
      (returned : List Execution) (jobs : List Job)
      (haccepted : sys'.store.ingest.acceptedJobs = sys.store.ingest.acceptedJobs)
      (hspec : DispatchSpec now (claimed.map (Store.dispatchRow claimedAt))
        sys.store.results.executions sys'.store.results.executions returned)
      (hjobs : List.Forall₂ (Store.Returned sys'.store.results.executions) claimed jobs)
      (hawaiting : (collect Stage.awaiting sys.pool).Perm
        (claimed ++ collect Stage.awaiting sys'.pool))
      (hreplied : replied = [(id, .claimed (.ok jobs))])
  | cleanup (p : AcceptedJob → Bool) (q : Execution → Bool) (hcleans : cleans sys action = true)
      (haccepted : sys'.store.ingest.acceptedJobs = sys.store.ingest.acceptedJobs.filter p)
      (hkept : ∀ job, (∀ cutoff, action = .cleanupExpiredRecords cutoff → ¬job.createdAt < cutoff) →
        p job = true)
      (hexecutions : sys'.store.results.executions = sys.store.results.executions.filter q)
      (hawaiting : collect Stage.awaiting sys'.pool ⊆ collect Stage.awaiting sys.pool)
      (hreplied : NoClaim replied)

theorem rewrites_id (issued : List (Int × String)) : Rewrites issued id :=
  ⟨fun _ => rfl, fun _ => rfl, fun _ _ hsame => Or.inl hsame⟩

theorem rewrites_repend (issued : List (Int × String)) (now : Int) (key : Int × String) :
    Rewrites issued (rependRow now key) := by
  refine ⟨rependRow_id now key, rependRow_queueName now key, fun row dispatchId hmarked => ?_⟩
  rcases rependRow_cases now key row with ⟨heq, -⟩ | ⟨-, -, heq⟩
  · rw [heq] at hmarked
    exact Or.inl hmarked
  · rw [heq] at hmarked
    cases hmarked

theorem rewrites_claim {issued : List (Int × String)} (now : Int) {claimed : List IngestClaimed}
    (hfresh : System.FreshIds issued claimed) : Rewrites issued (claimedRow now claimed) := by
  refine ⟨claimedRow_id now claimed, claimedRow_queueName now claimed,
    fun row dispatchId hmarked => ?_⟩
  rcases claimedRow_cases now claimed row with ⟨heq, -⟩ | ⟨entry, hentry, -, heq⟩
  · rw [heq] at hmarked
    exact Or.inl hmarked
  · rw [heq] at hmarked
    obtain rfl := Option.some.inj hmarked
    exact Or.inr (hfresh.2 entry (Table.mem_of_lookup hentry))

/-- The tables stay and nothing new awaits its dispatch. -/
theorem Effect.still {sys sys' : System} {action : Action} {replied : Replied}
    (haccepted : sys'.store.ingest.acceptedJobs = sys.store.ingest.acceptedJobs)
    (hexecutions : sys'.store.results.executions = sys.store.results.executions)
    (hawaiting : collect Stage.awaiting sys'.pool ⊆ collect Stage.awaiting sys.pool)
    (hreplied : NoClaim replied) : Effect sys sys' action replied :=
  .rewrite id (rewrites_id _) (by rw [haccepted, List.map_id]) hexecutions
    (fun _ hentry => Or.inl (hawaiting hentry)) hreplied

/-- A progress that neither awaits a dispatch nor returns claimed jobs. -/
def Progress.Silent (progress : Progress) : Prop :=
  progress.collect Stage.awaiting = [] ∧
    ∀ jobs, progress = .done (.claimed (.ok jobs)) → jobs = []

theorem ended_noClaim {items : List (Progress × Nat)} (h : ∀ item ∈ items, item.1.Silent) :
    NoClaim (System.ended items) := by
  intro id jobs hmem
  obtain ⟨item, hitem, hreply⟩ := List.mem_filterMap.mp hmem
  split at hreply
  · cases hreply
  · next reply hdone =>
    rw [Option.some.injEq, Prod.mk.injEq] at hreply
    exact (h item hitem).2 jobs (hdone.trans (congrArg _ hreply.2))

theorem enter_silent {sys : System} {store : Store} {progress : List Progress}
    (h : ∀ item ∈ progress, item.Silent) :
    collect Stage.awaiting (sys.enter store progress).1.pool ⊆ collect Stage.awaiting sys.pool ∧
      NoClaim (sys.enter store progress).2 := by
  refine ⟨?_, ended_noClaim fun item hitem => h item.1 (List.fst_mem_of_mem_zipIdx hitem)⟩
  rw [collect_enter, flatMap_nil fun item hitem => (h item hitem).1]
  exact List.Subset.refl _

theorem proceed_silent {sys : System} {i id : Nat} {stage : Stage} (store : Store)
    {progress : Progress} (hentry : sys.pool[i]? = some (id, stage)) (h : progress.Silent) :
    collect Stage.awaiting (sys.proceed i id store progress).1.pool ⊆
        collect Stage.awaiting sys.pool ∧
      NoClaim (sys.proceed i id store progress).2 := by
  refine ⟨?_, ended_noClaim fun item hitem => List.mem_singleton.mp hitem ▸ h⟩
  rw [collect_proceed, h.1]
  intro entry hmem
  exact (mem_collect_iff Stage.awaiting hentry).mpr (Or.inr hmem)

theorem silent_done {reply : Reply} (h : ∀ jobs, reply = .claimed (.ok jobs) → jobs = []) :
    (Progress.done reply).Silent :=
  ⟨rfl, fun jobs heq => h jobs (Progress.done.inj heq)⟩

theorem silent_wait {stage : Stage} (h : stage.awaiting = []) : (Progress.wait stage).Silent :=
  ⟨h, fun _ heq => by cases heq⟩

theorem undoClaims_silent (error : StoreError) (claimed : List IngestClaimed) :
    (Store.undoClaims error claimed).Silent := by
  cases claimed with
  | nil => exact silent_done (by simp)
  | cons row rest => exact silent_wait rfl

theorem recoverItems_silent (jobs : List Job) (items : List RecoveredStale) :
    (Store.recoverItems jobs items).Silent := by
  cases items with
  | nil => exact silent_done (by simp)
  | cons item rest =>
    rw [Store.recoverItems]
    split <;> exact silent_wait rfl

theorem composedJob_silent (reader : Reader) (jobId : Int) (store : Store) :
    (store.composedJob reader jobId).Silent := by
  unfold Store.composedJob
  split
  · cases reader <;> exact silent_done (by simp [Store.composedReply])
  · exact silent_wait rfl

theorem afterCompletion_silent (request : PendingCompletion) (submitter : Submitter)
    (disposition : CompletionDisposition) :
    (Store.afterCompletion request submitter (.ok disposition)).Silent := by
  cases submitter <;> cases disposition <;>
    first | exact silent_wait rfl | exact silent_done (by simp)

theorem faulted_silent (error : StoreError) (stage : Stage) :
    (Store.faulted error stage).Silent := by
  cases stage with
  | dispatch claimed claimedAt => exact undoClaims_silent _ _
  | undoClaim row rest first => exact undoClaims_silent _ _
  | rependCompleted submitter jobId dispatchId =>
    cases submitter <;> exact silent_done (by simp)
  | readExecution reader accepted =>
    cases reader <;> exact silent_done (by simp [Store.composedReply])
  | _ => exact silent_done (by simp)

/-! ### Retries -/

/-- An attempt that a batch fails with retries left is owed its repend. -/
theorem completed_retries {env : Env} {batch : List (PendingCompletion × Submitter)}
    {conn : ResultsConn} {dispositions : List CompletionDisposition}
    (hperm : ((batch.map Prod.fst).zip dispositions).Perm
      ((answers env conn.executionQueues (statements (batch.map Prod.fst)) conn.executions).map
        fun answer => (answer.1.1, answer.2)))
    (hjobs : (conn.executions.map Execution.jobId).Nodup) {row : Execution}
    (hrow : row ∈ conn.executions) (hrunning : row.status = .running)
    (hfailed : (batchRow env (batch.map Prod.fst) row).status = .failed)
    (hle : row.executionCount ≤ limitOf conn.executionQueues row.queueName) :
    row.key ∈ ((batch.zip dispositions).map fun item =>
      Store.afterCompletion item.1.1 item.1.2 (.ok item.2)).flatMap
        (Progress.collect Stage.retries) := by
  obtain ⟨request, hrequest, hkey⟩ := completeBatch_failed hperm hjobs hrow hrunning hfailed hle
  rw [List.zip_map_left] at hrequest
  obtain ⟨item, hitem, heq⟩ := List.mem_map.mp hrequest
  obtain ⟨rfl, hrepend⟩ := Prod.mk.inj heq
  refine List.mem_flatMap.mpr ⟨_, List.mem_map_of_mem hitem, ?_⟩
  exact mem_afterCompletion_retries_iff.mpr ⟨hrepend, hkey.symm⟩

/-- An attempt whose lease a recovery ends with retries left is owed its repend. -/
theorem recovered_retries {queues : List JobQueue} {executions : List Execution}
    {recovered : List RecoveredStale} {now : Int}
    (hreports : ∀ report, report ∈ recovered ↔ ∃ row ∈ executions,
      leaseExpired now row = true ∧ report = recoveredItem queues row)
    {row : Execution} (hrow : row ∈ executions) (hrunning : row.status = .running)
    (hfailed : (recoverRow now row).status = .failed)
    (hle : row.executionCount ≤ limitOf queues row.queueName) :
    row.key ∈ (Store.recoverItems [] recovered).collect Stage.retries := by
  rw [recoverItems_retries]
  unfold recoverRow at hfailed
  split at hfailed
  · next hexpired =>
    refine List.mem_map.mpr ⟨recoveredItem queues row, List.mem_filter.mpr ⟨?_, ?_⟩, rfl⟩
    · exact (hreports _).mpr ⟨row, hrow, hexpired, rfl⟩
    · simpa [recoveredItem] using hle
  · rw [hrunning] at hfailed
    cases hfailed

/-! ### Later steps -/

section Later

variable {sys : System} {i id : Nat} {stage : Stage}

theorem effect_repend {env : Env} (key : Int × String) {progress : Progress} {action : Action}
    (hentry : sys.pool[i]? = some (id, stage)) (h : progress.Silent) :
    Effect sys (sys.proceed i id (sys.store.repend env key.1 key.2) progress).1 action
      (sys.proceed i id (sys.store.repend env key.1 key.2) progress).2 := by
  have hsilent := proceed_silent (sys.store.repend env key.1 key.2) hentry h
  refine .rewrite (rependRow env.now key) (rewrites_repend _ env.now key) ?_ rfl
    (fun entry hmem => Or.inl (hsilent.1 hmem)) hsilent.2
  simp only [System.proceed, Store.repend_eq]

theorem effect_read {progress : Progress} {action : Action}
    (hentry : sys.pool[i]? = some (id, stage)) (h : progress.Silent) :
    Effect sys (sys.proceed i id sys.store progress).1 action
      (sys.proceed i id sys.store progress).2 := by
  have hsilent := proceed_silent sys.store hentry h
  exact .still rfl rfl hsilent.1 hsilent.2

theorem effect_dispatch (h : Consistent pinned sys.snapshot) {claimed : List IngestClaimed}
    {claimedAt : Int} (hentry : sys.pool[i]? = some (id, .dispatch claimed claimedAt)) (env : Env)
    {action : Action} :
    Effect sys (sys.proceed i id (sys.store.dispatch env claimed claimedAt).1
        (sys.store.dispatch env claimed claimedAt).2).1 action
      (sys.proceed i id (sys.store.dispatch env claimed claimedAt).1
        (sys.store.dispatch env claimed claimedAt).2).2 := by
  obtain ⟨hids, havailable⟩ := (h.resume hentry).dispatch_ready
  rcases Store.dispatch_cases env claimedAt hids havailable with
    ⟨error, heq⟩ | ⟨executions, returned, jobs, heq, hspec, -, -, hjobs⟩
  · rw [heq]
    exact effect_read hentry (undoClaims_silent error claimed)
  · rw [heq]
    refine .dispatch env.now claimedAt id claimed returned jobs rfl hspec hjobs ?_ rfl
    exact collect_perm Stage.awaiting (Lists.perm_eraseIdx hentry)

theorem effect_resume (h : Consistent pinned sys.snapshot)
    (hentry : sys.pool[i]? = some (id, stage)) (env : Env) :
    Effect sys (sys.proceed i id (sys.store.advance env stage).1
        (sys.store.advance env stage).2).1 (.resume env i)
      (sys.proceed i id (sys.store.advance env stage).1 (sys.store.advance env stage).2).2 := by
  cases stage with
  | upsertResults queue =>
    simp only [Store.advance, ResultsConn.upsertQueue]
    cases upsertQueueRow env.now queue sys.store.results.executionQueues with
    | error error => exact effect_read hentry (silent_done (by simp))
    | ok result =>
      have hdone : (Progress.done (.queue (.ok queue))).Silent := silent_done (by simp)
      have hsilent := proceed_silent { sys.store with results :=
        { sys.store.results with executionQueues := result.1 } } hentry hdone
      exact .still rfl rfl hsilent.1 hsilent.2
  | dispatch claimed claimedAt => exact effect_dispatch h hentry env
  | undoClaim row rest error => exact effect_repend row.key hentry (undoClaims_silent _ _)
  | rependCompleted submitter jobId dispatchId =>
    cases submitter with
    | complete => exact effect_repend (jobId, dispatchId) hentry (silent_wait rfl)
    | completeWorkerResult =>
      exact effect_repend (jobId, dispatchId) hentry (silent_done (by simp))
  | readAccepted jobId => exact effect_read hentry (composedJob_silent _ _ _)
  | readExecution reader accepted =>
    refine effect_read hentry (silent_done ?_)
    cases reader <;> simp [Store.composedReply]
  | rependStale item rest jobs => exact effect_repend item.key hentry (silent_wait rfl)
  | readStaleAccepted item rest jobs =>
    simp only [Store.advance]
    cases sys.store.ingest.acceptedRow item.jobId with
    | error error => exact effect_read hentry (silent_done (by simp))
    | ok accepted => exact effect_read hentry (silent_wait rfl)
  | readStaleExecution accepted rest jobs =>
    simp only [Store.advance]
    cases sys.store.results.readExecution accepted.id with
    | error error => exact effect_read hentry (silent_done (by simp))
    | ok execution => exact effect_read hentry (recoverItems_silent _ _)
  | abandon jobId dispatchId => cases (h.resume hentry).calm
  | rependReleased jobId dispatchId => cases (h.resume hentry).calm
  | cleanupResults cutoff deleted =>
    have hdone : (sys.store.advance env (.cleanupResults cutoff deleted)).2.Silent :=
      silent_done (by simp)
    have hsilent := proceed_silent (sys.store.advance env (.cleanupResults cutoff deleted)).1 hentry
      hdone
    refine .cleanup (fun _ => true) (fun row => !(row.updatedAt < cutoff : Bool)) ?_ ?_
      (fun _ _ => rfl) rfl hsilent.1 hsilent.2
    · simp [cleans, hentry]
    · exact (List.filter_eq_self.mpr fun _ _ => rfl).symm

end Later

/-! ### First steps -/

section First

variable {sys sys' : System} {replied : Replied}

theorem silent_singleton {progress : Progress} (h : progress.Silent) :
    ∀ item ∈ [progress], item.Silent :=
  fun _ hitem => List.mem_singleton.mp hitem ▸ h

theorem effect_enter {progress : Progress} {action : Action} (h : progress.Silent) :
    Effect sys (sys.enter sys.store [progress]).1 action (sys.enter sys.store [progress]).2 := by
  have hsilent := silent_singleton h
  exact .still rfl rfl (enter_silent hsilent).1 (enter_silent hsilent).2

theorem effect_upsertQueue {env : Env} {queue : JobQueue}
    (hstep : sys.serve (.upsertQueue env queue) = some (sys', replied)) :
    Effect sys sys' (.upsertQueue env queue) replied := by
  rcases Store.upsertQueue_cases env queue sys.store with
    ⟨error, heq⟩ | ⟨queues, names, reply, heq, -⟩
  · simp only [System.serve, heq] at hstep
    obtain ⟨rfl, rfl⟩ := eq_of_some_eq hstep
    exact effect_enter (silent_done (by simp))
  · simp only [System.serve, heq] at hstep
    obtain ⟨rfl, rfl⟩ := eq_of_some_eq hstep
    have hwait : (Progress.wait (.upsertResults reply)).Silent := silent_wait rfl
    have hsilent := silent_singleton hwait
    exact .still rfl rfl (enter_silent hsilent).1 (enter_silent hsilent).2

theorem effect_enqueue {batch : List AcceptedJob}
    (hstep : sys.serve (.enqueue batch) = some (sys', replied)) :
    Effect sys sys' (.enqueue batch) replied := by
  obtain ⟨jobs, replies, heq, -⟩ := Store.enqueueBatch_cases batch sys.store
  simp only [System.serve, heq] at hstep
  obtain ⟨rfl, rfl⟩ := eq_of_some_eq hstep
  have hsilent : ∀ item ∈ replies.map fun reply => Progress.done (.accepted reply),
      item.Silent := by
    intro item hitem
    obtain ⟨reply, -, rfl⟩ := List.mem_map.mp hitem
    exact silent_done (by simp)
  exact .enqueue jobs rfl rfl (enter_silent hsilent).1 (enter_silent hsilent).2

theorem effect_claimBatch {env : Env} {newDispatchId : Nat → String} {claimedAt : Int}
    {queueName : String} {limit : Nat} (h : Consistent pinned sys.snapshot)
    (hstep : sys.serve (.claimBatch env newDispatchId claimedAt queueName limit) =
      some (sys', replied)) :
    Effect sys sys' (.claimBatch env newDispatchId claimedAt queueName limit) replied := by
  rcases Store.claimBatch_cases env newDispatchId claimedAt queueName limit h.ids with
    ⟨result, heq, hresult⟩ | ⟨claimed, -, heq, hclaimed⟩
  · simp only [System.serve, heq] at hstep
    split at hstep
    · obtain ⟨rfl, rfl⟩ := eq_of_some_eq hstep
      refine effect_enter (silent_done fun jobs hjobs => ?_)
      rcases hresult with rfl | ⟨error, rfl⟩
      · simpa using hjobs.symm
      · simp at hjobs
    · cases hstep
  · simp only [System.serve, heq] at hstep
    split at hstep
    · next hfresh =>
      obtain ⟨rfl, rfl⟩ := eq_of_some_eq hstep
      refine .rewrite (claimedRow env.now claimed) (rewrites_claim env.now hfresh) rfl rfl ?_ ?_
      · intro entry hentry
        rw [collect_enter, List.flatMap_singleton, List.mem_append] at hentry
        rcases hentry with hentry | hentry
        · obtain ⟨row, hrow, hid, hfree, -⟩ := hclaimed.free entry hentry
          exact Or.inr ⟨row, hrow, hid, hfree⟩
        · exact Or.inl hentry
      · intro id jobs hmem
        cases hmem
    · cases hstep

theorem effect_complete {env : Env} {batch : List (PendingCompletion × Submitter)}
    (h : Consistent pinned sys.snapshot)
    (hstep : sys.serve (.complete env batch) = some (sys', replied)) :
    Effect sys sys' (.complete env batch) replied := by
  obtain ⟨dispositions, heq, hperm, -⟩ := Store.completeBatch_eq env batch h.valid
  simp only [System.serve, heq] at hstep
  obtain ⟨rfl, rfl⟩ := eq_of_some_eq hstep
  have hsilent : ∀ item ∈ (batch.zip dispositions).map fun item =>
      Store.afterCompletion item.1.1 item.1.2 (.ok item.2), item.Silent := by
    intro item hitem
    obtain ⟨pair, -, rfl⟩ := List.mem_map.mp hitem
    exact afterCompletion_silent _ _ _
  refine .finish _ (Writer.finishes_batchRow env (batch.map Prod.fst)) rfl rfl ?_
    (enter_silent hsilent).1 (enter_silent hsilent).2
  intro row hrow hrunning hfailed hle
  rw [collect_enter]
  exact List.mem_append_left _
    (completed_retries hperm h.valid.jobs hrow hrunning hfailed hle)

theorem effect_recoverStaleLeases {choice : Table.Choice} {now : Int}
    (h : Consistent pinned sys.snapshot)
    (hstep : sys.serve (.recoverStaleLeases choice now) = some (sys', replied)) :
    Effect sys sys' (.recoverStaleLeases choice now) replied := by
  rcases Store.recoverStaleLeases_cases choice now h.valid with
    ⟨error, heq⟩ | ⟨recovered, heq, hreports⟩
  · simp only [System.serve, heq] at hstep
    obtain ⟨rfl, rfl⟩ := eq_of_some_eq hstep
    exact effect_enter (silent_done (by simp))
  · simp only [System.serve, heq] at hstep
    obtain ⟨rfl, rfl⟩ := eq_of_some_eq hstep
    have hsilent := silent_singleton (recoverItems_silent [] recovered)
    refine .finish _ (Writer.finishes_recoverRow now) rfl rfl ?_ (enter_silent hsilent).1
      (enter_silent hsilent).2
    intro row hrow hrunning hfailed hle
    rw [collect_enter, List.flatMap_singleton]
    exact List.mem_append_left _ (recovered_retries hreports hrow hrunning hfailed hle)

theorem serve_effect {action : Action} (h : Consistent pinned sys.snapshot)
    (hok : action.isRelease = false) (hstep : sys.serve action = some (sys', replied)) :
    Effect sys sys' action replied := by
  cases action with
  | upsertQueue env queue => exact effect_upsertQueue hstep
  | enqueue batch => exact effect_enqueue hstep
  | claimBatch env newDispatchId claimedAt queueName limit => exact effect_claimBatch h hstep
  | complete env batch => exact effect_complete h hstep
  | releaseClaim jobId dispatchId => cases hok
  | recoverStaleLeases choice now => exact effect_recoverStaleLeases h hstep
  | cleanupExpiredRecords cutoff =>
    obtain ⟨rfl, rfl⟩ := eq_of_some_eq hstep
    have hsilent : ∀ item ∈ [(sys.store.cleanupIngest cutoff).2], item.Silent :=
      silent_singleton (silent_wait rfl)
    refine .cleanup (fun row => !(row.createdAt < cutoff : Bool)) (fun _ => true) rfl rfl ?_ ?_
      (enter_silent hsilent).1 (enter_silent hsilent).2
    · intro job hnew
      simpa using hnew cutoff rfl
    · exact (List.filter_eq_self.mpr fun _ _ => rfl).symm
  | getJob jobId =>
    obtain ⟨rfl, rfl⟩ := eq_of_some_eq hstep
    exact effect_enter (composedJob_silent .getJob jobId sys.store)
  | resume env i =>
    obtain ⟨id, stage, hentry, rfl, rfl⟩ := serve_resume hstep
    exact effect_resume h hentry env
  | fault error i =>
    obtain ⟨id, stage, hentry, rfl, rfl⟩ := serve_fault hstep
    exact effect_read hentry (faulted_silent error stage)
  | crash =>
    obtain ⟨rfl, rfl⟩ := eq_of_some_eq hstep
    exact .still rfl rfl (List.nil_subset _) (by simp [NoClaim])
  | reopen choice => cases hstep
  | heal env => cases hstep

end First

/-- The inversion of a step: it has one of the effects. -/
theorem step_effect {sys sys' : System} {action : Action} {replied : Replied}
    (h : Sound pinned sys) (hok : action.isRelease = false)
    (hstep : sys.step action = some (sys', replied)) : Effect sys sys' action replied := by
  rcases step_cases hstep with ⟨-, hserve⟩ | ⟨-, rfl, names, phase, rfl⟩ |
    ⟨env, key, rest, -, rfl, rfl⟩
  · exact serve_effect h.consistent hok hserve
  · exact .still rfl rfl (List.Subset.refl _) (by simp [NoClaim])
  · unfold Store.healOrphan
    split
    · exact .still rfl rfl (List.Subset.refl _) (by simp [NoClaim])
    · refine .rewrite (rependRow env.now key) (rewrites_repend _ env.now key) ?_ rfl
        (fun _ hentry => Or.inl hentry) (by simp [NoClaim])
      simp only [Store.repend_eq]

end Maqistor
