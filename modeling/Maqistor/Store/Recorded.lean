import Maqistor.Store.Schema

/-! What a finished attempt records, in any run at all: the outcome of a completion that was
submitted for its job and dispatch id, or that the store has given it up. -/

namespace Maqistor

open ResultsConn IngestConn

/-- The outcome that an attempt records. -/
def Execution.outcome? (row : Execution) : Option JobOutcome :=
  match row.status with
  | .completed => row.resultPayload.map .succeeded
  | .failed => row.resultError.map .failed
  | _ => none

/-- An attempt runs, or records one of the completions that were submitted for it, or was given
up. -/
inductive RecordedBy (submitted : List PendingCompletion) (row : Execution) : Prop
  | running (hstatus : row.status = .running)
  | completion (request : PendingCompletion) (hsubmitted : request ∈ submitted)
      (hkey : request.key = row.key) (houtcome : row.outcome? = some request.outcome)
  | givenUp (message : String) (hmessage : message = "abandoned" ∨ message = "lease expired")
      (houtcome : row.outcome? = some (.failed message))

/-- Every attempt of a store records what was submitted for it. -/
def Store.Records (submitted : List PendingCompletion) (store : Store) : Prop :=
  ∀ row ∈ store.results.executions, RecordedBy submitted row

/-- The completions that an action submits. -/
def Action.submitted : Action → List PendingCompletion
  | .complete _ batch => batch.map Prod.fst
  | _ => []

section Rows

variable {submitted more : List PendingCompletion} {row : Execution}

theorem finished_outcome (now : Int) (row : Execution) (outcome : JobOutcome) :
    (finished now row outcome).outcome? = some outcome := by
  cases outcome <;> rfl

theorem RecordedBy.mono (h : RecordedBy submitted row) (hsub : submitted ⊆ more) : RecordedBy more row := by
  cases h with
  | running hstatus => exact .running hstatus
  | completion request hsubmitted hkey houtcome =>
    exact .completion request (hsub hsubmitted) hkey houtcome
  | givenUp message hmessage houtcome => exact .givenUp message hmessage houtcome

theorem RecordedBy.batchRow (h : RecordedBy submitted row) (env : Env) (batch : List PendingCompletion) :
    RecordedBy (submitted ++ batch) (ResultsConn.batchRow env batch row) := by
  rcases batchRow_cases env batch row with ⟨-, heq⟩ | ⟨request, hrequest, hfences, heq⟩
  · rw [heq]
    exact h.mono (List.subset_append_left _ _)
  · rw [heq]
    refine .completion request (List.mem_append_right _ hrequest) ?_ (finished_outcome _ _ _)
    rw [← (fences_iff.mp hfences).1]
    cases request.outcome <;> rfl

theorem RecordedBy.recoverRow (h : RecordedBy submitted row) (now : Int) :
    RecordedBy submitted (ResultsConn.recoverRow now row) := by
  unfold ResultsConn.recoverRow
  split
  · exact .givenUp _ (Or.inr rfl) (finished_outcome _ _ _)
  · exact h

theorem RecordedBy.abandonRow (h : RecordedBy submitted row) (now : Int) (key : Int × String) :
    RecordedBy submitted (ResultsConn.abandonRow now key row) := by
  unfold ResultsConn.abandonRow
  split
  · exact .givenUp _ (Or.inl rfl) (finished_outcome _ _ _)
  · exact h

end Rows

namespace Store.Records

variable {submitted : List PendingCompletion} {store : Store}

theorem mono {more : List PendingCompletion} (h : store.Records submitted) (hsub : submitted ⊆ more) :
    store.Records more :=
  fun row hrow => (h row hrow).mono hsub

theorem map (h : store.Records submitted) {more : List PendingCompletion} {f : Execution → Execution}
    (hf : ∀ row, RecordedBy submitted row → RecordedBy more (f row)) :
    ∀ row ∈ store.results.executions.map f, RecordedBy more row := by
  intro row hrow
  obtain ⟨old, hold, rfl⟩ := List.mem_map.mp hrow
  exact hf old (h old hold)

/-- An attempt that a dispatch starts is running. -/
theorem dispatched (h : store.Records submitted) {now : Int} {rows : List DispatchInsert}
    {after returned : List Execution} (hspec : DispatchSpec now rows store.results.executions after returned)
    (hjobs : (after.map Execution.jobId).Nodup) : ∀ row ∈ after, RecordedBy submitted row := by
  intro row hrow
  have hlookup := Table.lookup_of_mem hjobs hrow
  have hold : Table.lookup Execution.jobId row.jobId after =
      Table.lookup Execution.jobId row.jobId store.results.executions → RecordedBy submitted row :=
    fun hsame => h row (Table.mem_of_lookup (hsame.symm.trans hlookup))
  by_cases hnamed : row.jobId ∈ rows.map DispatchInsert.jobId
  · by_cases havailable : Available (Table.lookup Execution.jobId row.jobId store.results.executions)
    · obtain ⟨source, -, -, attempt, hattempt, -, hdispatch⟩ := hspec.started _ hnamed havailable
      obtain rfl := Option.some.inj (hlookup.symm.trans hattempt)
      exact .running hdispatch.status
    · exact hold (hspec.busy _ havailable)
  · exact hold (hspec.other _ hnamed)

theorem dispatch (h : store.Records submitted) (hformed : store.WellFormed) (env : Env)
    (claimed : List IngestClaimed) (claimedAt : Int) :
    (store.dispatch env claimed claimedAt).1.Records submitted := by
  unfold Store.dispatch
  rcases dispatchBatch_cases env (claimed.map (Store.dispatchRow claimedAt)) store.results with
    ⟨error, heq, -⟩ | ⟨executions, returned, byJob, heq, hspec, -, hvalid⟩
  · rw [heq]
    exact h
  · have hrows := h.dispatched hspec (hvalid hformed.valid).jobs
    rw [heq]
    split
    · next hsame =>
      obtain ⟨rfl, -⟩ := Prod.mk.inj hsame
      exact hrows
    · next hsame =>
      obtain ⟨rfl, -⟩ := Prod.mk.inj hsame
      exact hrows

theorem start (h : store.Records submitted) (hformed : store.WellFormed) {store' : Store}
    {action : Action} {progress : List Progress} (hstart : store.start action = some (store', progress)) :
    store'.Records (submitted ++ action.submitted) := by
  cases action with
  | upsertQueue env queue =>
    obtain ⟨rfl, -⟩ := eq_of_some_eq hstart
    rcases Store.upsertQueue_cases env queue store with ⟨error, heq⟩ | ⟨queues, names, _, heq, -⟩ <;>
      rw [heq] <;> exact h.mono (List.subset_append_left _ _)
  | enqueue batch =>
    obtain ⟨rfl, -⟩ := eq_of_some_eq hstart
    obtain ⟨jobs, replies, heq, -⟩ := Store.enqueueBatch_cases batch store
    rw [heq]
    exact h.mono (List.subset_append_left _ _)
  | claimBatch env newDispatchId claimedAt queueName limit =>
    obtain ⟨rfl, -⟩ := eq_of_some_eq hstart
    rcases Store.claimBatch_cases env newDispatchId claimedAt queueName limit hformed.ids with
      ⟨result, heq, -⟩ | ⟨claimed, -, heq, -⟩ <;>
      rw [heq] <;> exact h.mono (List.subset_append_left _ _)
  | complete env batch =>
    obtain ⟨rfl, -⟩ := eq_of_some_eq hstart
    obtain ⟨dispositions, heq, -⟩ := Store.completeBatch_eq env batch hformed.valid
    rw [heq]
    exact h.map fun row hrow => hrow.batchRow env (batch.map Prod.fst)
  | recoverStaleLeases choice now =>
    obtain ⟨rfl, -⟩ := eq_of_some_eq hstart
    rcases Store.recoverStaleLeases_cases choice now hformed.valid with
      ⟨error, heq⟩ | ⟨recovered, heq, -⟩
    · rw [heq]
      exact h.mono (List.subset_append_left _ _)
    · rw [heq]
      exact h.map fun row hrow => (hrow.recoverRow now).mono (List.subset_append_left _ _)
  | releaseClaim | cleanupExpiredRecords | getJob =>
    obtain ⟨rfl, -⟩ := eq_of_some_eq hstart
    exact h.mono (List.subset_append_left _ _)
  | _ => cases hstart

theorem advance (h : store.Records submitted) (hformed : store.WellFormed) (env : Env) (stage : Stage) :
    (store.advance env stage).1.Records submitted := by
  cases stage with
  | upsertResults queue =>
    simp only [Store.advance, ResultsConn.upsertQueue]
    cases upsertQueueRow env.now queue store.results.executionQueues with
    | error error => exact h
    | ok result => exact h
  | dispatch claimed claimedAt => exact h.dispatch hformed env claimed claimedAt
  | rependCompleted submitter jobId dispatchId => cases submitter <;> exact h
  | readStaleAccepted item rest jobs =>
    simp only [Store.advance]
    split <;> exact h
  | readStaleExecution accepted rest jobs =>
    simp only [Store.advance]
    split <;> exact h
  | abandon jobId dispatchId => exact h.map fun row hrow => hrow.abandonRow env.now (jobId, dispatchId)
  | cleanupResults cutoff deleted => exact fun row hrow => h row (List.mem_of_mem_filter hrow)
  | _ => exact h

end Store.Records

theorem step_records {submitted : List PendingCompletion} {sys sys' : System} {action : Action}
    {replied : Replied} (h : sys.store.Records submitted) (hformed : sys.store.WellFormed)
    (hstep : sys.step action = some (sys', replied)) :
    sys'.store.Records (submitted ++ action.submitted) := by
  cases step_moves hstep with
  | start issued hphase hstart => exact h.start hformed hstart
  | resume env hphase hentry => exact (h.advance hformed env _).mono (List.subset_append_left _ _)
  | heal env hphase =>
    refine Store.Records.mono ?_ (List.subset_append_left _ _)
    unfold Store.healOrphan
    split <;> exact h
  | _ => exact h.mono (List.subset_append_left _ _)

end Maqistor
