import Maqistor.Store.Moves
import Maqistor.Store.Specs

/-! What a step can do to the accepted rows, whatever calls are in flight: releases and cleanups are
among the actions here. -/

namespace Maqistor

open ResultsConn IngestConn

/-- What the enqueue of a job fixes. -/
structure JobContent where
  id : Int
  queueName : String
  payload : List UInt8
  createdAt : Int
deriving DecidableEq, Repr

def AcceptedJob.content (row : AcceptedJob) : JobContent :=
  ⟨row.id, row.queueName, row.payload, row.createdAt⟩

def Job.content (job : Job) : JobContent := ⟨job.id, job.name, job.payload, job.createdAt⟩

def IngestClaimed.content (claimed : IngestClaimed) : JobContent :=
  ⟨claimed.id, claimed.name, claimed.payload, claimed.createdAt⟩

@[simp] theorem fromAccepted_content (accepted : AcceptedJob) (execution : Option Execution) :
    (Job.fromAccepted accepted execution).content = accepted.content := by
  cases execution <;> rfl

@[simp] theorem jobFromClaimed_content (claimed : IngestClaimed) (dispatched : DispatchedExecution) :
    (Store.jobFromClaimed claimed dispatched).content = claimed.content := rfl

/-- The two ways in which a row that stays can change: a free one is marked, a marked one is
freed. -/
inductive RowMove : AcceptedJob → AcceptedJob → Prop
  | same (row : AcceptedJob) : RowMove row row
  | claim {row : AcceptedJob} (now : Int) (dispatchId : String) (hfree : row.dispatchId = none) :
      RowMove row (marked now row dispatchId)
  | repend {row : AcceptedJob} (now : Int) {dispatchId : String}
      (hmarked : row.dispatchId = some dispatchId) : RowMove row (released now row)

theorem RowMove.content {row row' : AcceptedJob} (h : RowMove row row') :
    row'.content = row.content := by
  cases h <;> rfl

theorem rowMove_claimedRow (now : Int) (claimed : List IngestClaimed) (row : AcceptedJob) :
    RowMove row (claimedRow now claimed row) := by
  rcases claimedRow_cases now claimed row with ⟨heq, -⟩ | ⟨entry, -, hfree, heq⟩
  · rw [heq]
    exact .same row
  · rw [heq]
    exact .claim now _ hfree

theorem rowMove_rependRow (now : Int) (key : Int × String) (row : AcceptedJob) :
    RowMove row (rependRow now key row) := by
  rcases rependRow_cases now key row with ⟨heq, -⟩ | ⟨-, hmarked, heq⟩
  · rw [heq]
    exact .same row
  · rw [heq]
    exact .repend now hmarked

/-- What a step does to the accepted rows. -/
inductive RowsMove (action : Action) (rows : List AcceptedJob) : List AcceptedJob → Prop
  | each (f : AcceptedJob → AcceptedJob) (hf : ∀ row, RowMove row (f row)) :
      RowsMove action rows (rows.map f)
  | enqueue (jobs : List AcceptedJob) :
      RowsMove action rows (rows ++ (numbered (nextId rows) jobs).map unclaimed)
  | cleanup (cutoff : Int) (hcutoff : action = .cleanupExpiredRecords cutoff) :
      RowsMove action rows (rows.filter fun row => !(row.createdAt < cutoff))

namespace RowsMove

variable {action : Action} {rows rows' : List AcceptedJob}

theorem stay (h : rows' = rows) : RowsMove action rows rows' := by
  have hmove : RowsMove action rows (rows.map id) := .each id fun row => .same row
  rw [List.map_id] at hmove
  rwa [h]

theorem of_repend (env : Env) (jobId : Int) (dispatchId : String) (store : Store) :
    RowsMove action store.ingest.acceptedJobs
      (store.repend env jobId dispatchId).ingest.acceptedJobs := by
  rw [Store.repend_eq]
  exact .each _ (rowMove_rependRow env.now (jobId, dispatchId))

theorem ids (h : RowsMove action rows rows') (hids : (rows.map AcceptedJob.id).Nodup) :
    (rows'.map AcceptedJob.id).Nodup := by
  cases h with
  | each f hf =>
    rw [List.map_map]
    refine (List.map_congr_left fun row _ => ?_) ▸ hids
    exact (congrArg JobContent.id (hf row).content).symm
  | enqueue jobs =>
    have hnew : ((numbered (nextId rows) jobs).map unclaimed).map AcceptedJob.id =
        (numbered (nextId rows) jobs).map AcceptedJob.id := by
      rw [List.map_map]
      rfl
    rw [List.map_append, hnew]
    refine List.nodup_append.mpr ⟨hids, numbered_ids_nodup _ _, fun id hid other hother hsame => ?_⟩
    have hlt : id < nextId rows := Table.lt_nextRowid hid
    obtain ⟨job, hjob, rfl⟩ := List.mem_map.mp hother
    have := le_of_mem_numbered hjob
    omega
  | cleanup cutoff hcutoff => exact hids.sublist (List.filter_sublist.map _)

/-- A job stays with its content, unless a cleanup finds it expired. -/
theorem keeps (h : RowsMove action rows rows') {content : JobContent}
    (hcontent : content ∈ rows.map AcceptedJob.content)
    (hkept : ∀ cutoff, action = .cleanupExpiredRecords cutoff → cutoff ≤ content.createdAt) :
    content ∈ rows'.map AcceptedJob.content := by
  obtain ⟨row, hrow, rfl⟩ := List.mem_map.mp hcontent
  cases h with
  | each f hf =>
    exact List.mem_map.mpr ⟨f row, List.mem_map_of_mem hrow, (hf row).content⟩
  | enqueue jobs => exact List.mem_map_of_mem (List.mem_append_left _ hrow)
  | cleanup cutoff hcutoff =>
    have hle : cutoff ≤ row.createdAt := hkept cutoff hcutoff
    refine List.mem_map_of_mem (List.mem_filter.mpr ⟨hrow, ?_⟩)
    rw [Bool.not_eq_true', decide_eq_false_iff_not]
    omega

end RowsMove

section Step

variable {sys sys' : System} {action : Action} {replied : Replied}

theorem start_rows {store store' : Store} {progress : List Progress}
    (hids : (store.ingest.acceptedJobs.map AcceptedJob.id).Nodup)
    (h : store.start action = some (store', progress)) :
    RowsMove action store.ingest.acceptedJobs store'.ingest.acceptedJobs := by
  cases action with
  | upsertQueue env queue =>
    obtain ⟨rfl, -⟩ := eq_of_some_eq h
    refine .stay ?_
    rcases Store.upsertQueue_cases env queue store with ⟨error, heq⟩ | ⟨queues, names, reply, heq, -⟩
    all_goals rw [heq]
  | enqueue batch =>
    obtain ⟨rfl, -⟩ := eq_of_some_eq h
    obtain ⟨jobs, replies, heq, -⟩ := Store.enqueueBatch_cases batch store
    rw [heq]
    exact .enqueue jobs
  | claimBatch env newDispatchId claimedAt queueName limit =>
    obtain ⟨rfl, -⟩ := eq_of_some_eq h
    rcases Store.claimBatch_cases env newDispatchId claimedAt queueName limit hids with
      ⟨result, heq, -⟩ | ⟨claimed, -, heq, -⟩
    · rw [heq]
      exact .stay rfl
    · rw [heq]
      exact .each _ (rowMove_claimedRow env.now claimed)
  | complete env batch =>
    obtain ⟨rfl, -⟩ := eq_of_some_eq h
    refine .stay ?_
    unfold Store.completeBatch
    split <;> rfl
  | releaseClaim jobId dispatchId =>
    obtain ⟨rfl, -⟩ := eq_of_some_eq h
    exact .stay rfl
  | recoverStaleLeases choice now =>
    obtain ⟨rfl, -⟩ := eq_of_some_eq h
    refine .stay ?_
    unfold Store.recoverStaleLeases
    split <;> rfl
  | cleanupExpiredRecords cutoff =>
    obtain ⟨rfl, -⟩ := eq_of_some_eq h
    exact .cleanup cutoff rfl
  | getJob jobId =>
    obtain ⟨rfl, -⟩ := eq_of_some_eq h
    exact .stay rfl
  | _ => cases h

theorem advance_rows (env : Env) (store : Store) (stage : Stage) :
    RowsMove action store.ingest.acceptedJobs (store.advance env stage).1.ingest.acceptedJobs := by
  cases stage with
  | upsertResults queue =>
    refine .stay ?_
    simp only [Store.advance]
    split <;> rfl
  | dispatch claimed claimedAt =>
    refine .stay ?_
    simp only [Store.advance, Store.dispatch]
    split <;> rfl
  | undoClaim row rest error => exact .of_repend env row.id row.dispatchId store
  | rependCompleted submitter jobId dispatchId =>
    cases submitter <;> exact .of_repend env jobId dispatchId store
  | rependStale item rest jobs => exact .of_repend env item.jobId item.dispatchId store
  | rependReleased jobId dispatchId => exact .of_repend env jobId dispatchId store
  | readStaleAccepted item rest jobs =>
    refine .stay ?_
    simp only [Store.advance]
    split <;> rfl
  | readStaleExecution accepted rest jobs =>
    refine .stay ?_
    simp only [Store.advance]
    split <;> rfl
  | _ => exact .stay rfl

/-- The inversion of a step on the accepted rows. -/
theorem step_rows (hids : (sys.store.ingest.acceptedJobs.map AcceptedJob.id).Nodup)
    (hstep : sys.step action = some (sys', replied)) :
    RowsMove action sys.store.ingest.acceptedJobs sys'.store.ingest.acceptedJobs := by
  cases step_moves hstep with
  | start issued hphase hstart => exact start_rows hids hstart
  | resume env hphase hentry => exact advance_rows env sys.store _
  | fault error hphase hentry => exact .stay rfl
  | crash hphase => exact .stay rfl
  | close hphase => exact .stay rfl
  | reopen choice hphase => exact .stay rfl
  | @heal key rest env hphase =>
    simp only [Store.healOrphan]
    split
    · exact .stay rfl
    · exact .of_repend env key.1 key.2 sys.store
  | opened env hphase => exact .stay rfl

theorem step_ids (hstep : sys.step action = some (sys', replied))
    (hids : (sys.store.ingest.acceptedJobs.map AcceptedJob.id).Nodup) :
    (sys'.store.ingest.acceptedJobs.map AcceptedJob.id).Nodup :=
  (step_rows hids hstep).ids hids

/-- The ids of the accepted rows are distinct in every run. -/
theorem run_ids {admits : System → Action → Prop} {events : List Replied}
    (h : System.Run admits System.initial events sys) :
    (sys.store.ingest.acceptedJobs.map AcceptedJob.id).Nodup :=
  h.invariant (fun sys => (sys.store.ingest.acceptedJobs.map AcceptedJob.id).Nodup) List.nodup_nil
    fun hids _ hstep => step_ids hstep hids

end Step

end Maqistor
