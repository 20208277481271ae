import Maqistor.Store.Moves
import Maqistor.Store.Specs

/-! What the schemas of the two databases guarantee in every run, whatever calls are made: ids of
accepted jobs are distinct, and the executions keep their unique columns and known queues. -/

namespace Maqistor

open ResultsConn IngestConn

structure Store.WellFormed (store : Store) : Prop where
  ids : (store.ingest.acceptedJobs.map AcceptedJob.id).Nodup
  valid : Valid store.results.executionQueues store.results.executions

namespace Store.WellFormed

variable {store : Store}

theorem map_accepted (h : store.WellFormed) {f : AcceptedJob → AcceptedJob}
    (hid : ∀ row, (f row).id = row.id) :
    Store.WellFormed { store with ingest := { store.ingest with
      acceptedJobs := store.ingest.acceptedJobs.map f } } := by
  refine ⟨?_, h.valid⟩
  rw [List.map_map, show AcceptedJob.id ∘ f = AcceptedJob.id from funext hid]
  exact h.ids

theorem repend (h : store.WellFormed) (env : Env) (jobId : Int) (dispatchId : String) :
    (store.repend env jobId dispatchId).WellFormed := by
  rw [Store.repend_eq]
  exact h.map_accepted (rependRow_id env.now (jobId, dispatchId))

theorem finish (h : store.WellFormed) {f : Execution → Execution} (hf : Writer.Finishes f) :
    Store.WellFormed { store with results := { store.results with
      executions := store.results.executions.map f } } :=
  ⟨h.ids, hf.valid h.valid⟩

theorem enqueueBatch (h : store.WellFormed) (batch : List AcceptedJob) :
    (store.enqueueBatch batch).1.WellFormed := by
  obtain ⟨jobs, replies, heq, -⟩ := Store.enqueueBatch_cases batch store
  rw [heq]
  refine ⟨?_, h.valid⟩
  rw [List.map_append, List.map_map, List.nodup_append]
  refine ⟨h.ids, numbered_ids_nodup _ _, ?_⟩
  rintro a ha b hb rfl
  obtain ⟨job, hjob, hsame⟩ := List.mem_map.mp hb
  have hlt : a < nextId store.ingest.acceptedJobs := Table.lt_nextRowid ha
  have hle := le_of_mem_numbered hjob
  have hid : job.id = a := hsame
  omega

theorem start (h : store.WellFormed) {store' : Store} {action : Action} {progress : List Progress}
    (hstart : store.start action = some (store', progress)) : store'.WellFormed := by
  cases action with
  | upsertQueue env queue =>
    obtain ⟨rfl, -⟩ := eq_of_some_eq hstart
    rcases Store.upsertQueue_cases env queue store with ⟨error, heq⟩ | ⟨queues, names, _, heq, -⟩
    · rw [heq]
      exact h
    · rw [heq]
      exact ⟨h.ids, h.valid⟩
  | enqueue batch =>
    obtain ⟨rfl, -⟩ := eq_of_some_eq hstart
    exact h.enqueueBatch batch
  | claimBatch env newDispatchId claimedAt queueName limit =>
    obtain ⟨rfl, -⟩ := eq_of_some_eq hstart
    rcases Store.claimBatch_cases env newDispatchId claimedAt queueName limit h.ids with
      ⟨result, heq, -⟩ | ⟨claimed, -, heq, -⟩
    · rw [heq]
      exact h
    · rw [heq]
      exact h.map_accepted (claimedRow_id env.now claimed)
  | complete env batch =>
    obtain ⟨rfl, -⟩ := eq_of_some_eq hstart
    obtain ⟨dispositions, heq, -⟩ := Store.completeBatch_eq env batch h.valid
    rw [heq]
    exact h.finish (Writer.finishes_batchRow env (batch.map Prod.fst))
  | releaseClaim jobId dispatchId =>
    obtain ⟨rfl, -⟩ := eq_of_some_eq hstart
    exact h
  | recoverStaleLeases choice now =>
    obtain ⟨rfl, -⟩ := eq_of_some_eq hstart
    rcases Store.recoverStaleLeases_cases choice now h.valid with
      ⟨error, heq⟩ | ⟨recovered, heq, -⟩
    · rw [heq]
      exact h
    · rw [heq]
      exact h.finish (Writer.finishes_recoverRow now)
  | cleanupExpiredRecords cutoff =>
    obtain ⟨rfl, -⟩ := eq_of_some_eq hstart
    exact ⟨h.ids.sublist (List.filter_sublist.map _), h.valid⟩
  | getJob jobId =>
    obtain ⟨rfl, -⟩ := eq_of_some_eq hstart
    exact h
  | _ => cases hstart

theorem dispatch (h : store.WellFormed) (env : Env) (claimed : List IngestClaimed)
    (claimedAt : Int) : (store.dispatch env claimed claimedAt).1.WellFormed := by
  unfold Store.dispatch
  rcases dispatchBatch_cases env (claimed.map (Store.dispatchRow claimedAt)) store.results with
    ⟨error, heq, -⟩ | ⟨executions, returned, byJob, heq, -, -, hvalid⟩
  · rw [heq]
    exact ⟨h.ids, h.valid⟩
  · rw [heq]
    split
    · next hsame =>
      obtain ⟨rfl, -⟩ := Prod.mk.inj hsame
      exact ⟨h.ids, hvalid h.valid⟩
    · next hsame =>
      obtain ⟨rfl, -⟩ := Prod.mk.inj hsame
      exact ⟨h.ids, hvalid h.valid⟩

theorem advance (h : store.WellFormed) (env : Env) (stage : Stage) :
    (store.advance env stage).1.WellFormed := by
  cases stage with
  | upsertResults queue =>
    simp only [Store.advance, ResultsConn.upsertQueue]
    cases hupsert : upsertQueueRow env.now queue store.results.executionQueues with
    | error error => exact ⟨h.ids, h.valid⟩
    | ok result =>
      refine ⟨h.ids, h.valid.mono fun name hname => ?_⟩
      exact (upsertQueueRow_names hupsert name).mpr (Or.inr hname)
  | dispatch claimed claimedAt => exact h.dispatch env claimed claimedAt
  | undoClaim row rest error => exact h.repend env row.id row.dispatchId
  | rependCompleted submitter jobId dispatchId =>
    cases submitter <;> exact h.repend env jobId dispatchId
  | rependStale item rest jobs => exact h.repend env item.jobId item.dispatchId
  | readStaleAccepted item rest jobs =>
    simp only [Store.advance]
    split <;> exact h
  | readStaleExecution accepted rest jobs =>
    simp only [Store.advance]
    split <;> exact h
  | abandon jobId dispatchId => exact h.finish (Writer.finishes_abandonRow env.now _)
  | rependReleased jobId dispatchId => exact h.repend env jobId dispatchId
  | cleanupResults cutoff deleted =>
    exact ⟨h.ids, h.valid.filter _⟩
  | _ => exact h

theorem healOrphan (h : store.WellFormed) (env : Env) (key : Int × String) :
    (store.healOrphan env key).WellFormed := by
  unfold Store.healOrphan
  split
  · exact h
  · exact h.repend env key.1 key.2

end Store.WellFormed

theorem step_wellFormed {sys sys' : System} {action : Action} {replied : Replied}
    (h : sys.store.WellFormed) (hstep : sys.step action = some (sys', replied)) :
    sys'.store.WellFormed := by
  cases step_moves hstep with
  | start issued hphase hstart => exact h.start hstart
  | resume env hphase hentry => exact h.advance env _
  | reopen choice hphase => exact ⟨h.ids, h.valid⟩
  | heal env hphase => exact h.healOrphan env _
  | _ => exact h

theorem run_wellFormed {admits : System → Action → Prop} {sys sys' : System}
    {events : List Replied} (h : System.Run admits sys events sys')
    (hstart : sys.store.WellFormed) : sys'.store.WellFormed :=
  h.invariant (fun sys => sys.store.WellFormed) hstart fun hformed _ hstep =>
    step_wellFormed hformed hstep

theorem initial_wellFormed : System.initial.store.WellFormed := by
  constructor
  · exact List.nodup_nil
  · constructor <;> simp [System.initial]

end Maqistor
