import Maqistor.Store.Consistent
import Maqistor.Store.Specs

/-! Every step of the store keeps it consistent: each action is one of the commits, together with
what it changes in the calls in flight. -/

namespace Maqistor

open ResultsConn IngestConn

variable {pinned : String → Option UInt32}

/-! ### Calls in flight -/

/-- The snapshot of a store with one call's next stage before the others. -/
def snapshotWith (store : Store) (progress : List Progress) (pool : List (Nat × Stage))
    (issued : List (Int × String)) : Snapshot :=
  { accepted := store.ingest.acceptedJobs, executions := store.results.executions
    queues := store.results.executionQueues
    awaiting := progress.flatMap (Progress.collect Stage.awaiting) ++ collect Stage.awaiting pool
    owed := progress.flatMap (Progress.collect Stage.owed) ++ collect Stage.owed pool
    upserts := progress.flatMap (Progress.collect Stage.upserts) ++ collect Stage.upserts pool
    releases := progress.flatMap (Progress.collect Stage.releases) ++ collect Stage.releases pool
    issued := issued }

theorem snapshot_enter (sys : System) (store : Store) (progress : List Progress) :
    (sys.enter store progress).1.snapshot = snapshotWith store progress sys.pool sys.issued := by
  simp only [System.snapshot, snapshot, collect_enter]
  rfl

theorem snapshot_proceed (sys : System) (i id : Nat) (store : Store) (progress : Progress) :
    (sys.proceed i id store progress).1.snapshot =
      snapshotWith store [progress] (sys.pool.eraseIdx i) sys.issued := by
  simp only [System.snapshot, snapshot, collect_proceed, snapshotWith, List.flatMap_singleton]
  rfl

/-- A call in flight, taken out of the pool, with what it has under way. -/
theorem Consistent.resume {sys : System} (h : Consistent pinned sys.snapshot) {i id : Nat}
    {stage : Stage} (hentry : sys.pool[i]? = some (id, stage)) :
    Consistent pinned
      (snapshotWith sys.store [.wait stage] (sys.pool.eraseIdx i) sys.issued) := by
  have hperm : ∀ {α : Type} (f : Stage → List α), (collect f sys.pool).Perm
      ([Progress.wait stage].flatMap (Progress.collect f) ++ collect f (sys.pool.eraseIdx i)) := by
    intro α f
    rw [List.flatMap_singleton]
    exact collect_perm f (Lists.perm_eraseIdx hentry)
  apply h.mono
  · exact ((hperm Stage.awaiting).map _).nodup h.distinct
  · exact (hperm Stage.awaiting).symm.subset
  · exact fun key hkey => (hperm Stage.owed).symm.subset hkey
  · exact (hperm Stage.upserts).symm.subset
  · refine List.Perm.eq_nil ((hperm Stage.releases).symm.trans ?_)
    rw [show collect Stage.releases sys.pool = [] from h.calm]

/-- A progress that has nothing under way but repends. -/
structure Progress.Plain (progress : Progress) : Prop where
  awaiting : progress.collect Stage.awaiting = []
  upserts : progress.collect Stage.upserts = []
  releases : progress.collect Stage.releases = []

/-- New stages that are plain, and whose repends are due. -/
theorem Consistent.with_plain {s : Snapshot} (h : Consistent pinned s) {store : Store}
    {progress : List Progress} {pool : List (Nat × Stage)}
    (hstore : s.accepted = store.ingest.acceptedJobs ∧ s.executions = store.results.executions ∧
      s.queues = store.results.executionQueues)
    (hplain : ∀ item ∈ progress, item.Plain)
    (hawaiting : s.awaiting = collect Stage.awaiting pool)
    (howed : ∀ key, key ∈ progress.flatMap (Progress.collect Stage.owed) ∨
      key ∈ collect Stage.owed pool → key ∈ s.owed)
    (hupserts : collect Stage.upserts pool ⊆ s.upserts)
    (hreleases : collect Stage.releases pool = []) :
    Consistent pinned (snapshotWith store progress pool s.issued) := by
  have hawaitingNil := flatMap_nil fun item hitem => (hplain item hitem).awaiting
  have hupsertsNil := flatMap_nil fun item hitem => (hplain item hitem).upserts
  have hreleasesNil := flatMap_nil fun item hitem => (hplain item hitem).releases
  obtain ⟨haccepted, hexecutions, hqueues⟩ := hstore
  rw [snapshotWith, hawaitingNil, hupsertsNil, hreleasesNil, ← haccepted, ← hexecutions, ← hqueues,
    List.nil_append, List.nil_append, List.nil_append, hreleases, ← hawaiting]
  refine h.mono h.distinct (List.Subset.refl _) ?_ hupserts rfl
  exact fun key hkey => howed key (List.mem_append.mp hkey)

/-! ### What the stages have under way -/

theorem plain_done (reply : Reply) : (Progress.done reply).Plain := ⟨rfl, rfl, rfl⟩

theorem undoClaims_plain (error : StoreError) (claimed : List IngestClaimed) :
    (Store.undoClaims error claimed).Plain := by
  cases claimed <;> exact ⟨rfl, rfl, rfl⟩

theorem undoClaims_owed (error : StoreError) (claimed : List IngestClaimed) :
    (Store.undoClaims error claimed).collect Stage.owed = claimed.map IngestClaimed.key := by
  cases claimed <;> rfl

theorem recoverItems_plain (jobs : List Job) (items : List RecoveredStale) :
    (Store.recoverItems jobs items).Plain := by
  cases items with
  | nil => exact plain_done _
  | cons item rest =>
    rw [Store.recoverItems]
    split <;> exact ⟨rfl, rfl, rfl⟩

theorem recoverItems_retries (jobs : List Job) (items : List RecoveredStale) :
    (Store.recoverItems jobs items).collect Stage.retries =
      (items.filter (·.shouldRepend)).map RecoveredStale.key := by
  cases items with
  | nil => rfl
  | cons item rest =>
    rw [Store.recoverItems, List.filter_cons]
    split <;> rfl

theorem recoverItems_owed (jobs : List Job) (items : List RecoveredStale) :
    (Store.recoverItems jobs items).collect Stage.owed =
      (Store.recoverItems jobs items).collect Stage.retries := by
  cases items with
  | nil => rfl
  | cons item rest =>
    rw [Store.recoverItems]
    split <;> exact List.append_nil _

theorem composedJob_plain (reader : Reader) (jobId : Int) (store : Store) :
    (store.composedJob reader jobId).Plain := by
  unfold Store.composedJob
  split <;> exact ⟨rfl, rfl, rfl⟩

theorem composedJob_owed (reader : Reader) (jobId : Int) (store : Store) :
    (store.composedJob reader jobId).collect Stage.owed = [] := by
  unfold Store.composedJob
  split <;> rfl

theorem afterCompletion_plain (request : PendingCompletion) (submitter : Submitter)
    (disposition : CompletionDisposition) :
    (Store.afterCompletion request submitter (.ok disposition)).Plain := by
  cases submitter <;> cases disposition <;> exact ⟨rfl, rfl, rfl⟩

theorem afterCompletion_owed (request : PendingCompletion) (submitter : Submitter)
    (disposition : CompletionDisposition) :
    (Store.afterCompletion request submitter (.ok disposition)).collect Stage.owed =
      (Store.afterCompletion request submitter (.ok disposition)).collect Stage.retries := by
  cases submitter <;> cases disposition <;> rfl

theorem mem_afterCompletion_retries_iff {request : PendingCompletion} {submitter : Submitter}
    {disposition : CompletionDisposition} {key : Int × String} :
    key ∈ (Store.afterCompletion request submitter (.ok disposition)).collect Stage.retries ↔
      disposition = .repend ∧ key = request.key := by
  cases submitter <;> cases disposition <;>
    simp [Store.afterCompletion, Progress.collect, Stage.retries, PendingCompletion.key]

/-- An attempt that a commit fails with a retry left. -/
def FailsAgain (conn : ResultsConn) (f : Execution → Execution) (key : Int × String) : Prop :=
  ∃ row ∈ conn.executions, row.key = key ∧ row.status = .running ∧
    row.executionCount ≤ limitOf conn.executionQueues row.queueName ∧
    ∃ now message, f row = finished now row (.failed message)

theorem completed_failsAgain {env : Env} {batch : List (PendingCompletion × Submitter)}
    {conn : ResultsConn} {dispositions : List CompletionDisposition}
    (hperm : ((batch.map Prod.fst).zip dispositions).Perm
      ((answers env conn.executionQueues (statements (batch.map Prod.fst)) conn.executions).map
        fun answer => (answer.1.1, answer.2))) {key : Int × String}
    (hkey : key ∈ ((batch.zip dispositions).map fun item =>
      Store.afterCompletion item.1.1 item.1.2 (.ok item.2)).flatMap
        (Progress.collect Stage.retries)) :
    FailsAgain conn (batchRow env (batch.map Prod.fst)) key := by
  obtain ⟨progress, hprogress, hkey⟩ := List.mem_flatMap.mp hkey
  obtain ⟨item, hitem, rfl⟩ := List.mem_map.mp hprogress
  obtain ⟨hrepend, rfl⟩ := mem_afterCompletion_retries_iff.mp hkey
  have hreply : (item.1.1, CompletionDisposition.repend) ∈
      (batch.map Prod.fst).zip dispositions := by
    rw [← hrepend, List.zip_map_left]
    exact List.mem_map.mpr ⟨item, hitem, rfl⟩
  obtain ⟨row, hrow, hfences, hle, message, hafter⟩ := completeBatch_repend hperm hreply
  obtain ⟨hrowKey, hrunning⟩ := fences_iff.mp hfences
  exact ⟨row, hrow, hrowKey, hrunning, hle, env.now, message, hafter⟩

theorem recovered_failsAgain {conn : ResultsConn} {recovered : List RecoveredStale} {now : Int}
    (hreports : ∀ report, report ∈ recovered ↔ ∃ row ∈ conn.executions,
      leaseExpired now row = true ∧ report = recoveredItem conn.executionQueues row)
    {key : Int × String}
    (hkey : key ∈ (Store.recoverItems [] recovered).collect Stage.retries) :
    FailsAgain conn (recoverRow now) key := by
  rw [recoverItems_retries] at hkey
  obtain ⟨item, hitem, rfl⟩ := List.mem_map.mp hkey
  rw [List.mem_filter] at hitem
  obtain ⟨row, hrow, hexpired, rfl⟩ := (hreports item).mp hitem.1
  refine ⟨row, hrow, rfl, leaseExpired_running hexpired, ?_, now, "lease expired", if_pos hexpired⟩
  simpa [recoveredItem] using hitem.2

/-! ### First steps -/

section First

variable {sys : System}

theorem Consistent.enter_plain (h : Consistent pinned sys.snapshot) {progress : Progress}
    (hplain : progress.Plain) (howed : progress.collect Stage.owed = []) :
    Consistent pinned (sys.enter sys.store [progress]).1.snapshot := by
  rw [snapshot_enter]
  refine h.with_plain ⟨rfl, rfl, rfl⟩ (by simpa using hplain) rfl ?_ (List.Subset.refl _) h.calm
  rintro key (hkey | hkey)
  · rw [List.flatMap_singleton, howed] at hkey
    cases hkey
  · exact hkey

theorem Consistent.enter_upsertQueue (h : Consistent pinned sys.snapshot) (env : Env)
    {queue : JobQueue}
    (hpinned : ∀ limit, pinned queue.name = some limit → queue.maxRetries = limit) :
    Consistent pinned (sys.enter (sys.store.upsertQueue env queue).1
      [(sys.store.upsertQueue env queue).2]).1.snapshot := by
  rcases Store.upsertQueue_cases env queue sys.store with
    ⟨error, heq⟩ | ⟨queues, names, reply, heq, hname, hlimit⟩
  · rw [heq]
    exact h.enter_plain (plain_done _) rfl
  · rw [heq, snapshot_enter]
    refine h.upsert sys.store.results.executionQueues (reply :: collect Stage.upserts sys.pool)
      (fun _ hname => hname) ?_
    intro other hother limit hother'
    rcases List.mem_append.mp hother with hold | hnew
    · exact h.limits other (List.mem_append_left _ hold) limit hother'
    · rcases List.mem_cons.mp hnew with rfl | hnew
      · rw [hlimit]
        exact hpinned limit (hname ▸ hother')
      · exact h.limits other (List.mem_append_right _ hnew) limit hother'

/-- No execution lies above the accepted rows. -/
def Covered (sys : System) : Prop :=
  ∀ row ∈ sys.store.results.executions, ∃ job ∈ sys.store.ingest.acceptedJobs, row.jobId ≤ job.id

theorem Consistent.enter_enqueueBatch (h : Consistent pinned sys.snapshot) (hcovered : Covered sys)
    (batch : List AcceptedJob) :
    Consistent pinned (sys.enter (sys.store.enqueueBatch batch).1
      (sys.store.enqueueBatch batch).2).1.snapshot := by
  obtain ⟨jobs, replies, heq, -⟩ := Store.enqueueBatch_cases batch sys.store
  rw [heq, snapshot_enter]
  have hids : ((numbered (nextId sys.store.ingest.acceptedJobs) jobs).map unclaimed).map
      AcceptedJob.id = (numbered (nextId sys.store.ingest.acceptedJobs) jobs).map
        AcceptedJob.id := by
    rw [List.map_map]
    rfl
  have henqueue := h.enqueue hcovered
    ((numbered (nextId sys.store.ingest.acceptedJobs) jobs).map unclaimed)
    (hids ▸ numbered_ids_nodup _ _) ?free ?above
  case free =>
    intro job hjob
    obtain ⟨_, -, rfl⟩ := List.mem_map.mp hjob
    rfl
  case above =>
    intro row hrow job hjob
    obtain ⟨accepted, haccepted, rfl⟩ := List.mem_map.mp hjob
    have hlt : row.id < nextId sys.store.ingest.acceptedJobs :=
      Table.lt_nextRowid (List.mem_map_of_mem hrow)
    have hle := le_of_mem_numbered haccepted
    exact Int.lt_of_lt_of_le hlt hle
  refine henqueue.with_plain ⟨rfl, rfl, rfl⟩ ?_ rfl ?_ (List.Subset.refl _) h.calm
  · intro item hitem
    obtain ⟨reply, -, rfl⟩ := List.mem_map.mp hitem
    exact plain_done _
  · rintro key (hkey | hkey)
    · obtain ⟨item, hitem, hkey⟩ := List.mem_flatMap.mp hkey
      obtain ⟨reply, -, rfl⟩ := List.mem_map.mp hitem
      cases hkey
    · exact hkey

theorem Consistent.enter_claimBatch (h : Consistent pinned sys.snapshot) {env : Env}
    {newDispatchId : Nat → String} {claimedAt : Int} {queueName : String} {limit : Nat}
    (hfresh : System.FreshIds sys.issued
      (sys.store.claimBatch env newDispatchId claimedAt queueName limit).2.awaiting) :
    Consistent pinned (snapshotWith
      (sys.store.claimBatch env newDispatchId claimedAt queueName limit).1
      [(sys.store.claimBatch env newDispatchId claimedAt queueName limit).2] sys.pool
      ((sys.store.claimBatch env newDispatchId claimedAt queueName limit).2.awaiting.map
        IngestClaimed.key ++ sys.issued)) := by
  rcases Store.claimBatch_cases env newDispatchId claimedAt queueName limit h.ids with
    ⟨result, heq, -⟩ | ⟨claimed, -, heq, hclaimed⟩
  · rw [heq]
    exact snapshot_enter sys sys.store [.done (.claimed result)] ▸ h.enter_plain (plain_done _) rfl
  · rw [heq] at hfresh ⊢
    have hclaim := h.claim env.now hclaimed hfresh
    simp only [snapshotWith, List.flatMap_singleton]
    exact hclaim

theorem Consistent.again_finished (h : Consistent pinned sys.snapshot) {row : Execution}
    (hle : row.executionCount ≤ limitOf sys.store.results.executionQueues row.queueName)
    (now : Int) (message : String) : Again pinned (finished now row (.failed message)) := by
  refine ⟨rfl, fun limit hlimit => ?_⟩
  rw [finished_queueName] at hlimit
  rw [finished_executionCount]
  apply Int.le_trans hle
  unfold limitOf
  cases hlookup : Table.lookup JobQueue.name row.queueName sys.store.results.executionQueues with
  | none => exact Int.natCast_nonneg _
  | some queue =>
    have hname : queue.name = row.queueName := Table.key_of_lookup hlookup
    have := h.limits queue (List.mem_append_left _ (Table.mem_of_lookup hlookup)) limit
      (hname ▸ hlimit)
    simp [this]

/-- New calls after a commit that finishes attempts and makes some repends due. -/
theorem Consistent.enter_finish (h : Consistent pinned sys.snapshot) {f : Execution → Execution}
    (hf : Writer.Finishes f) {progress : List Progress} (hplain : ∀ item ∈ progress, item.Plain)
    (howed : ∀ item ∈ progress, item.collect Stage.owed = item.collect Stage.retries)
    (hdue : ∀ key ∈ progress.flatMap (Progress.collect Stage.retries),
      FailsAgain sys.store.results f key) :
    Consistent pinned (sys.enter { sys.store with results := { sys.store.results with
      executions := sys.store.results.executions.map f } } progress).1.snapshot := by
  rw [snapshot_enter]
  have hfinish := h.finish hf (progress.flatMap (Progress.collect Stage.retries)) ?due
  case due =>
    intro key hkey
    obtain ⟨row, hrow, hrowKey, hrunning, hle, now, message, hafter⟩ := hdue key hkey
    exact ⟨row, hrow, hrowKey, hrunning, hafter ▸ h.again_finished hle now message⟩
  refine hfinish.with_plain ⟨rfl, rfl, rfl⟩ hplain rfl ?_ (List.Subset.refl _) h.calm
  rintro key (hkey | hkey)
  · obtain ⟨item, hitem, hkey⟩ := List.mem_flatMap.mp hkey
    rw [howed item hitem] at hkey
    exact List.mem_append_left _ (List.mem_flatMap.mpr ⟨item, hitem, hkey⟩)
  · exact List.mem_append_right _ hkey

theorem Consistent.enter_completeBatch (h : Consistent pinned sys.snapshot) (env : Env)
    (batch : List (PendingCompletion × Submitter)) :
    Consistent pinned (sys.enter (sys.store.completeBatch env batch).1
      (sys.store.completeBatch env batch).2).1.snapshot := by
  obtain ⟨dispositions, heq, hperm, -⟩ := Store.completeBatch_eq env batch h.valid
  rw [heq]
  refine h.enter_finish (Writer.finishes_batchRow env (batch.map Prod.fst)) ?_ ?_
    fun key hkey => completed_failsAgain hperm hkey
  · intro progress hprogress
    obtain ⟨item, -, rfl⟩ := List.mem_map.mp hprogress
    exact afterCompletion_plain _ _ _
  · intro progress hprogress
    obtain ⟨item, -, rfl⟩ := List.mem_map.mp hprogress
    exact afterCompletion_owed _ _ _

theorem Consistent.enter_recoverStaleLeases (h : Consistent pinned sys.snapshot)
    (choice : Table.Choice) (now : Int) :
    Consistent pinned (sys.enter (sys.store.recoverStaleLeases choice now).1
      [(sys.store.recoverStaleLeases choice now).2]).1.snapshot := by
  rcases Store.recoverStaleLeases_cases choice now h.valid with
    ⟨error, heq⟩ | ⟨recovered, heq, hreports⟩
  · rw [heq]
    exact h.enter_plain (plain_done _) rfl
  · rw [heq]
    refine h.enter_finish (Writer.finishes_recoverRow now) ?_ ?_ fun key hkey => ?_
    · intro progress hprogress
      rw [List.mem_singleton.mp hprogress]
      exact recoverItems_plain _ _
    · intro progress hprogress
      rw [List.mem_singleton.mp hprogress]
      exact recoverItems_owed _ _
    · rw [List.flatMap_singleton] at hkey
      exact recovered_failsAgain hreports hkey

/-- The ingest half of a cleanup leaves a row with that number or a higher one. -/
def KeepsAbove (cutoff : Int) (sys : System) (n : Int) : Prop :=
  ∃ job ∈ sys.store.ingest.acceptedJobs, ¬job.createdAt < cutoff ∧ n ≤ job.id

theorem Consistent.enter_cleanupIngest (h : Consistent pinned sys.snapshot) {cutoff : Int}
    (hkeeps : ∀ claimed ∈ collect Stage.awaiting sys.pool, KeepsAbove cutoff sys claimed.id) :
    Consistent pinned (sys.enter (sys.store.cleanupIngest cutoff).1
      [(sys.store.cleanupIngest cutoff).2]).1.snapshot := by
  have hkept : ∀ {n : Int}, KeepsAbove cutoff sys n →
      ∃ job ∈ sys.store.ingest.acceptedJobs.filter fun row => !(row.createdAt < cutoff : Bool),
        n ≤ job.id := by
    rintro n ⟨job, hjob, hnew, hle⟩
    exact ⟨job, List.mem_filter.mpr ⟨hjob, by simpa using hnew⟩, hle⟩
  rw [snapshot_enter]
  refine (h.remove_accepted fun claimed hclaimed => hkept (hkeeps claimed hclaimed)).with_plain
    ⟨rfl, rfl, rfl⟩ ?_ rfl ?_ (List.Subset.refl _) h.calm
  · intro progress hprogress
    rw [List.mem_singleton.mp hprogress]
    exact ⟨rfl, rfl, rfl⟩
  · rintro key (hkey | hkey)
    · cases hkey
    · exact hkey

end First

/-! ### Later steps -/

section Later

variable {store : Store} {stage : Stage} {rest : List (Nat × Stage)} {issued : List (Int × String)}

/-- A call goes on with less to do. -/
theorem Consistent.go_on
    (h : Consistent pinned (snapshotWith store [.wait stage] rest issued))
    (hstage : stage.awaiting = []) {progress : Progress} (hplain : progress.Plain)
    (howed : progress.collect Stage.owed ⊆ stage.owed) :
    Consistent pinned (snapshotWith store [progress] rest issued) := by
  have hcalm := List.append_eq_nil_iff.mp h.calm
  refine h.with_plain ⟨rfl, rfl, rfl⟩ (by simpa using hplain) ?_ ?_
    (List.subset_append_right _ _) hcalm.2
  · simp only [snapshotWith, List.flatMap_singleton, Progress.collect, hstage, List.nil_append]
  · intro key hkey
    simp only [snapshotWith, List.flatMap_singleton, Progress.collect, List.mem_append] at hkey ⊢
    exact hkey.imp (fun hkey => howed hkey) id

theorem Consistent.repend_owed
    (h : Consistent pinned (snapshotWith store [.wait stage] rest issued)) (env : Env)
    (key : Int × String) (hkey : key ∈ stage.owed) :
    Consistent pinned (snapshotWith (store.repend env key.1 key.2) [.wait stage] rest issued) := by
  have howed : key ∈ (snapshotWith store [.wait stage] rest issued).owed := by
    refine List.mem_append_left _ ?_
    rw [List.flatMap_singleton]
    exact hkey
  rw [Store.repend_eq]
  exact h.repend env.now (h.owes key howed).2

theorem Consistent.advance_upsertResults {queue : JobQueue}
    (h : Consistent pinned (snapshotWith store [.wait (.upsertResults queue)] rest issued))
    (env : Env) :
    Consistent pinned (snapshotWith (store.advance env (.upsertResults queue)).1
      [(store.advance env (.upsertResults queue)).2] rest issued) := by
  simp only [Store.advance, ResultsConn.upsertQueue]
  cases hupsert : upsertQueueRow env.now queue store.results.executionQueues with
  | error error => exact h.go_on rfl (plain_done _) (List.nil_subset _)
  | ok result =>
    refine h.upsert result.1 (collect Stage.upserts rest) ?_ ?_
    · exact fun name hname => (upsertQueueRow_names hupsert name).mpr (Or.inr hname)
    · intro other hother limit hlimit
      have hwritten := h.limits queue (by simp [snapshotWith, Progress.collect, Stage.upserts])
      rcases List.mem_append.mp hother with hother | hother
      · rcases (upsertQueueRow_limits hupsert).2 other hother with hold | ⟨hname, hmax⟩
        · exact h.limits other (List.mem_append_left _ hold) limit hlimit
        · rw [hmax]
          exact hwritten limit (hname ▸ hlimit)
      · refine h.limits other (List.mem_append_right _ ?_) limit hlimit
        exact List.mem_append_right _ hother

/-- The rows of a dispatch stage: distinct jobs, all available. -/
theorem Consistent.dispatch_ready {claimed : List IngestClaimed} {claimedAt : Int}
    (h : Consistent pinned (snapshotWith store [.wait (.dispatch claimed claimedAt)] rest issued)) :
    (claimed.map IngestClaimed.id).Nodup ∧ ∀ entry ∈ claimed,
      Available (Table.lookup Execution.jobId entry.id store.results.executions) := by
  have hawaiting : (snapshotWith store [.wait (.dispatch claimed claimedAt)] rest issued).awaiting =
      claimed ++ collect Stage.awaiting rest := by
    simp [snapshotWith, Progress.collect, Stage.awaiting]
  have hdistinct := h.distinct
  rw [hawaiting, List.map_append, List.nodup_append] at hdistinct
  refine ⟨hdistinct.1, fun entry hentry => h.available (hawaiting ▸ ?_)⟩
  exact List.mem_append_left _ hentry

theorem Consistent.advance_dispatch {claimed : List IngestClaimed} {claimedAt : Int}
    (h : Consistent pinned (snapshotWith store [.wait (.dispatch claimed claimedAt)] rest issued))
    (env : Env) :
    Consistent pinned (snapshotWith (store.dispatch env claimed claimedAt).1
      [(store.dispatch env claimed claimedAt).2] rest issued) := by
  have hawaiting : (snapshotWith store [.wait (.dispatch claimed claimedAt)] rest issued).awaiting =
      claimed ++ collect Stage.awaiting rest := by
    simp [snapshotWith, Progress.collect, Stage.awaiting]
  obtain ⟨hids, havailable⟩ := h.dispatch_ready
  rcases Store.dispatch_cases env claimedAt hids havailable with
    ⟨error, heq⟩ | ⟨executions, returned, jobs, heq, hspec, hfits, hvalid, -⟩
  · rw [heq]
    refine (h.undo hawaiting).with_plain ⟨rfl, rfl, rfl⟩ ?_ rfl ?_ (List.Subset.refl _) h.calm
    · intro progress hprogress
      rw [List.mem_singleton.mp hprogress]
      exact undoClaims_plain _ _
    · intro key hkey
      rw [List.flatMap_singleton, undoClaims_owed] at hkey
      exact List.mem_append.mpr hkey
  · rw [heq]
    exact h.dispatch hawaiting hspec hfits (hvalid h.valid)

/-- Every later step of a call keeps the store consistent. -/
theorem Consistent.advance (h : Consistent pinned (snapshotWith store [.wait stage] rest issued))
    (env : Env) :
    Consistent pinned (snapshotWith (store.advance env stage).1 [(store.advance env stage).2] rest
      issued) := by
  cases stage with
  | upsertResults queue => exact h.advance_upsertResults env
  | dispatch claimed claimedAt => exact h.advance_dispatch env
  | undoClaim row others error =>
    have hrepend := h.repend_owed env row.key (by simp [Stage.owed, Stage.undos])
    refine hrepend.go_on rfl (undoClaims_plain _ _) ?_
    rw [Store.advance, undoClaims_owed]
    exact List.subset_cons_self _ _
  | rependCompleted submitter jobId dispatchId =>
    have hrepend := h.repend_owed env (jobId, dispatchId)
      (by simp [Stage.owed, Stage.retries])
    cases submitter with
    | complete => exact hrepend.go_on rfl ⟨rfl, rfl, rfl⟩ (List.nil_subset _)
    | completeWorkerResult => exact hrepend.go_on rfl (plain_done _) (List.nil_subset _)
  | readAccepted jobId =>
    refine h.go_on rfl (composedJob_plain _ _ _) ?_
    rw [Store.advance, composedJob_owed]
    exact List.nil_subset _
  | readExecution reader accepted => exact h.go_on rfl (plain_done _) (List.nil_subset _)
  | rependStale item others jobs =>
    have hrepend := h.repend_owed env item.key (by simp [Stage.owed, Stage.retries])
    refine hrepend.go_on rfl ⟨rfl, rfl, rfl⟩ ?_
    intro key hkey
    simp only [Store.advance, Progress.collect, Stage.owed, Stage.retries, Stage.undos,
      List.append_nil] at hkey ⊢
    exact List.mem_cons_of_mem _ hkey
  | readStaleAccepted item others jobs =>
    simp only [Store.advance]
    cases store.ingest.acceptedRow item.jobId with
    | error error => exact h.go_on rfl (plain_done _) (List.nil_subset _)
    | ok accepted => exact h.go_on rfl ⟨rfl, rfl, rfl⟩ (List.Subset.refl _)
  | readStaleExecution accepted others jobs =>
    simp only [Store.advance]
    cases store.results.readExecution accepted.id with
    | error error => exact h.go_on rfl (plain_done _) (List.nil_subset _)
    | ok execution =>
      refine h.go_on rfl (recoverItems_plain _ _) ?_
      rw [recoverItems_owed, recoverItems_retries]
      exact List.subset_append_left _ _
  | abandon jobId dispatchId => cases h.calm
  | rependReleased jobId dispatchId => cases h.calm
  | cleanupResults cutoff deleted =>
    have hremove := h.remove_executions fun row => !(row.updatedAt < cutoff : Bool)
    exact hremove.with_plain ⟨rfl, rfl, rfl⟩
      (fun item hitem => List.mem_singleton.mp hitem ▸ plain_done _) rfl
      (fun key hkey => hkey.elim (fun hkey => by cases hkey) id) (List.Subset.refl _) h.calm

/-- A database that reports an error leaves the calls with less to do. -/
theorem Consistent.faulted (h : Consistent pinned (snapshotWith store [.wait stage] rest issued))
    (error : StoreError) :
    Consistent pinned (snapshotWith store [Store.faulted error stage] rest issued) := by
  cases stage with
  | dispatch claimed claimedAt =>
    have hawaiting : (snapshotWith store [.wait (.dispatch claimed claimedAt)] rest
        issued).awaiting = claimed ++ collect Stage.awaiting rest := by
      simp [snapshotWith, Progress.collect, Stage.awaiting]
    refine (h.undo hawaiting).with_plain ⟨rfl, rfl, rfl⟩ ?_ rfl ?_ (List.Subset.refl _) h.calm
    · intro progress hprogress
      rw [List.mem_singleton.mp hprogress]
      exact undoClaims_plain _ _
    · intro key hkey
      rw [List.flatMap_singleton, Store.faulted, undoClaims_owed] at hkey
      exact List.mem_append.mpr hkey
  | undoClaim row others first =>
    refine h.go_on rfl (undoClaims_plain _ _) ?_
    rw [Store.faulted, undoClaims_owed]
    exact List.subset_cons_self _ _
  | rependCompleted submitter jobId dispatchId =>
    cases submitter with
    | complete => exact h.go_on rfl (plain_done _) (List.nil_subset _)
    | completeWorkerResult => exact h.go_on rfl (plain_done _) (List.nil_subset _)
  | abandon jobId dispatchId => cases h.calm
  | rependReleased jobId dispatchId => cases h.calm
  | _ => exact h.go_on rfl (plain_done _) (List.nil_subset _)

end Later

/-! ### Runs -/

/-- The actions that keep a store consistent: no `release_claim`, no new limit for a pinned queue,
no new job while an execution lies above the accepted rows, and no cleanup that takes the last row
above a claim in flight. -/
def Careful (pinned : String → Option UInt32) (sys : System) : Action → Prop
  | .upsertQueue _ queue => ∀ limit, pinned queue.name = some limit → queue.maxRetries = limit
  | .releaseClaim _ _ => False
  | .enqueue _ => Covered sys
  | .cleanupExpiredRecords cutoff =>
    ∀ claimed ∈ collect Stage.awaiting sys.pool, KeepsAbove cutoff sys claimed.id
  | _ => True

/-- A store that is not open has no call in flight. -/
def Idle (sys : System) : Prop := sys.phase ≠ .serving → sys.pool = []

theorem serve_consistent {sys sys' : System} {action : Action} {replied : Replied}
    (h : Consistent pinned sys.snapshot) (hok : Careful pinned sys action)
    (hstep : sys.serve action = some (sys', replied)) : Consistent pinned sys'.snapshot := by
  cases action with
  | upsertQueue env queue =>
    obtain ⟨rfl, -⟩ := eq_of_some_eq hstep
    exact h.enter_upsertQueue env hok
  | enqueue batch =>
    obtain ⟨rfl, -⟩ := eq_of_some_eq hstep
    exact h.enter_enqueueBatch hok batch
  | claimBatch env newDispatchId claimedAt queueName limit =>
    simp only [System.serve] at hstep
    split at hstep
    · next hfresh =>
      obtain ⟨rfl, -⟩ := eq_of_some_eq hstep
      have hclaim := h.enter_claimBatch hfresh
      rw [System.snapshot, snapshot, collect_enter, collect_enter, collect_enter, collect_enter]
      exact hclaim
    · cases hstep
  | complete env batch =>
    obtain ⟨rfl, -⟩ := eq_of_some_eq hstep
    exact h.enter_completeBatch env batch
  | releaseClaim jobId dispatchId => exact hok.elim
  | recoverStaleLeases choice now =>
    obtain ⟨rfl, -⟩ := eq_of_some_eq hstep
    exact h.enter_recoverStaleLeases choice now
  | cleanupExpiredRecords cutoff =>
    obtain ⟨rfl, -⟩ := eq_of_some_eq hstep
    exact h.enter_cleanupIngest hok
  | getJob jobId =>
    obtain ⟨rfl, -⟩ := eq_of_some_eq hstep
    exact h.enter_plain (composedJob_plain _ _ _) (composedJob_owed _ _ _)
  | resume env i =>
    obtain ⟨id, stage, hentry, rfl, -⟩ := serve_resume hstep
    rw [snapshot_proceed]
    exact (h.resume hentry).advance env
  | fault error i =>
    obtain ⟨id, stage, hentry, rfl, -⟩ := serve_fault hstep
    rw [snapshot_proceed]
    exact (h.resume hentry).faulted error
  | crash =>
    obtain ⟨rfl, -⟩ := eq_of_some_eq hstep
    exact h.mono List.nodup_nil (List.nil_subset _) (by simp [collect]) (List.nil_subset _) rfl
  | reopen choice => cases hstep
  | heal env => cases hstep

/-- What every reachable state without `release_claim` has. -/
structure Sound (pinned : String → Option UInt32) (sys : System) : Prop where
  consistent : Consistent pinned sys.snapshot
  idle : Idle sys

theorem initial_sound : Sound pinned System.initial := by
  refine ⟨?_, fun h => absurd rfl h⟩
  constructor <;> simp [System.initial, System.snapshot, snapshot, collect]
  exact ⟨List.nodup_nil, List.nodup_nil, List.nodup_nil, by simp⟩

/-- A claim that no execution carries may be taken back while no call is in flight. -/
theorem Consistent.heal {sys : System} (h : Consistent pinned sys.snapshot) (hpool : sys.pool = [])
    (env : Env) (key : Int × String) :
    Consistent pinned (snapshot (sys.store.healOrphan env key) sys.pool sys.issued) := by
  unfold Store.healOrphan
  split
  · exact h
  · next hnone =>
    rw [Store.repend_eq]
    refine h.repend env.now ⟨?_, fun row hrow hkey => absurd ?_ hnone⟩
    · simp [System.snapshot, snapshot, hpool, collect]
    · have hdispatch : row.dispatchId = key.2 := congrArg Prod.snd hkey
      exact List.any_eq_true.mpr ⟨row, hrow, by simp [hdispatch]⟩

/-- A step serves a call, moves a closed store towards open, or heals one claim. -/
theorem step_cases {sys sys' : System} {action : Action} {replied : Replied}
    (hstep : sys.step action = some (sys', replied)) :
    (sys.phase = .serving ∧ sys.serve action = some (sys', replied)) ∨
    (sys.phase ≠ .serving ∧ replied = [] ∧ ∃ names phase, sys' = { sys with
      store := { sys.store with queueNames := names }, phase := phase }) ∨
    ∃ env key rest, sys.phase = .healing (key :: rest) ∧ replied = [] ∧
      sys' = { sys with store := sys.store.healOrphan env key, phase := .healing rest } := by
  unfold System.step at hstep
  split at hstep
  · next hphase => exact Or.inl ⟨hphase, hstep⟩
  · next choice hphase =>
    obtain ⟨rfl, rfl⟩ := eq_of_some_eq hstep
    exact Or.inr (Or.inl ⟨by simp [hphase], rfl, _, _, rfl⟩)
  · next hphase =>
    obtain ⟨rfl, rfl⟩ := eq_of_some_eq hstep
    exact Or.inr (Or.inl ⟨by simp [hphase], rfl, _, _, rfl⟩)
  · next key rest env hphase =>
    obtain ⟨rfl, rfl⟩ := eq_of_some_eq hstep
    exact Or.inr (Or.inr ⟨env, key, rest, hphase, rfl, rfl⟩)
  · next hphase =>
    obtain ⟨rfl, rfl⟩ := eq_of_some_eq hstep
    exact Or.inr (Or.inl ⟨by simp [hphase], rfl, _, _, rfl⟩)
  · next orphans hphase =>
    obtain ⟨rfl, rfl⟩ := eq_of_some_eq hstep
    exact Or.inr (Or.inl ⟨by simp [hphase], rfl, _, _, rfl⟩)
  · cases hstep

theorem serve_phase {sys sys' : System} {action : Action} {replied : Replied}
    (hphase : sys.phase = .serving) (hstep : sys.serve action = some (sys', replied)) :
    sys'.phase = .serving ∨ sys'.pool = [] := by
  cases serve_moves hphase hstep with
  | crash _ => exact Or.inr rfl
  | close hclosed => exact absurd hphase hclosed
  | reopen _ hclosed => cases hphase.symm.trans hclosed
  | heal _ hhealing => cases hphase.symm.trans hhealing
  | opened _ hhealing => cases hphase.symm.trans hhealing
  | _ => exact Or.inl hphase

theorem step_sound {sys sys' : System} {action : Action} {replied : Replied}
    (h : Sound pinned sys) (hok : Careful pinned sys action)
    (hstep : sys.step action = some (sys', replied)) : Sound pinned sys' := by
  rcases step_cases hstep with ⟨hphase, hserve⟩ | ⟨hphase, -, names, phase, rfl⟩ |
    ⟨env, key, rest, hphase, -, rfl⟩
  · refine ⟨serve_consistent h.consistent hok hserve, fun hclosed => ?_⟩
    exact (serve_phase hphase hserve).resolve_left hclosed
  · exact ⟨h.consistent, fun _ => h.idle hphase⟩
  · have hpool : sys.pool = [] := h.idle (by simp [hphase])
    exact ⟨h.consistent.heal hpool env key, fun _ => hpool⟩

end Maqistor
