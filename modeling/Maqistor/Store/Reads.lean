import Maqistor.Store.Moves

/-! The calls that read: the recoveries that go through leases, and the `get_job`s that are between
their two reads. -/

namespace Maqistor

/-- The recovered leases that a call still has to go through. -/
def Stage.stale : Stage → List RecoveredStale
  | .rependStale item rest _ => item :: rest
  | .readStaleAccepted item rest _ => item :: rest
  | .readStaleExecution _ rest _ => rest
  | _ => []

/-- The accepted row that a `get_job` has read. -/
def Stage.reading : Stage → List AcceptedJob
  | .readExecution .getJob accepted => [accepted]
  | _ => []

/-- The job that a `get_job` reports. -/
def Progress.reported : Progress → List Job
  | .done (.job (.ok job)) => [job]
  | _ => []

/-- A progress of a call that neither goes through leases nor is a `get_job`. -/
structure Progress.Quiet (progress : Progress) : Prop where
  stale : progress.collect Stage.stale = []
  reading : progress.collect Stage.reading = []
  reported : progress.reported = []

theorem undoClaims_quiet (error : StoreError) (claimed : List IngestClaimed) :
    (Store.undoClaims error claimed).Quiet := by
  cases claimed <;> exact ⟨rfl, rfl, rfl⟩

theorem afterCompletion_quiet (request : PendingCompletion) (submitter : Submitter)
    (result : Except StoreError CompletionDisposition) :
    (Store.afterCompletion request submitter result).Quiet := by
  rcases result with error | disposition
  · cases submitter <;> exact ⟨rfl, rfl, rfl⟩
  · cases submitter <;> cases disposition <;> exact ⟨rfl, rfl, rfl⟩

theorem recoverItems_stale (jobs : List Job) (items : List RecoveredStale) :
    (Store.recoverItems jobs items).collect Stage.stale = items := by
  cases items with
  | nil => rfl
  | cons item rest =>
    rw [Store.recoverItems]
    split <;> rfl

theorem recoverItems_reading (jobs : List Job) (items : List RecoveredStale) :
    (Store.recoverItems jobs items).collect Stage.reading = [] ∧
      (Store.recoverItems jobs items).reported = [] := by
  cases items with
  | nil => exact ⟨rfl, rfl⟩
  | cons item rest =>
    rw [Store.recoverItems]
    split <;> exact ⟨rfl, rfl⟩

theorem composedJob_stale (reader : Reader) (jobId : Int) (store : Store) :
    (store.composedJob reader jobId).collect Stage.stale = [] := by
  unfold Store.composedJob
  split <;> rfl

theorem composedJob_complete_quiet (jobId : Int) (store : Store) :
    (store.composedJob .complete jobId).Quiet := by
  unfold Store.composedJob
  split <;> exact ⟨rfl, rfl, rfl⟩

/-- The first step of a call is quiet unless the call is a `get_job` or a recovery. -/
theorem start_cases {store store' : Store} {action : Action} {progress : List Progress}
    (h : store.start action = some (store', progress)) {first : Progress}
    (hfirst : first ∈ progress) :
    first.Quiet ∨ (∃ jobId, store' = store ∧ first = store.composedJob .getJob jobId) ∨
      ∃ choice now, store' = (store.recoverStaleLeases choice now).1 ∧
        first = (store.recoverStaleLeases choice now).2 := by
  cases action with
  | upsertQueue env queue =>
    obtain ⟨-, rfl⟩ := eq_of_some_eq h
    obtain rfl := List.mem_singleton.mp hfirst
    left
    unfold Store.upsertQueue
    split <;> exact ⟨rfl, rfl, rfl⟩
  | enqueue batch =>
    obtain ⟨-, rfl⟩ := eq_of_some_eq h
    obtain ⟨reply, -, rfl⟩ := List.mem_map.mp hfirst
    exact Or.inl ⟨rfl, rfl, rfl⟩
  | claimBatch env newDispatchId claimedAt queueName limit =>
    obtain ⟨-, rfl⟩ := eq_of_some_eq h
    obtain rfl := List.mem_singleton.mp hfirst
    left
    unfold Store.claimBatch
    split <;> exact ⟨rfl, rfl, rfl⟩
  | complete env batch =>
    obtain ⟨-, rfl⟩ := eq_of_some_eq h
    unfold Store.completeBatch at hfirst
    split at hfirst
    all_goals
      obtain ⟨pair, -, rfl⟩ := List.mem_map.mp hfirst
      exact Or.inl (afterCompletion_quiet _ _ _)
  | releaseClaim jobId dispatchId =>
    obtain ⟨-, rfl⟩ := eq_of_some_eq h
    obtain rfl := List.mem_singleton.mp hfirst
    left
    unfold Store.releaseClaim
    split
    · exact ⟨rfl, rfl, rfl⟩
    · split <;> exact ⟨rfl, rfl, rfl⟩
  | recoverStaleLeases choice now =>
    obtain ⟨hstore, rfl⟩ := eq_of_some_eq h
    obtain rfl := List.mem_singleton.mp hfirst
    exact Or.inr (Or.inr ⟨choice, now, hstore, rfl⟩)
  | cleanupExpiredRecords cutoff =>
    obtain ⟨-, rfl⟩ := eq_of_some_eq h
    obtain rfl := List.mem_singleton.mp hfirst
    exact Or.inl ⟨rfl, rfl, rfl⟩
  | getJob jobId =>
    obtain ⟨hstore, rfl⟩ := eq_of_some_eq h
    obtain rfl := List.mem_singleton.mp hfirst
    exact Or.inr (Or.inl ⟨jobId, hstore, rfl⟩)
  | _ => cases h

theorem faulted_quiet (error : StoreError) (stage : Stage) : (Store.faulted error stage).Quiet := by
  cases stage with
  | dispatch claimed claimedAt => exact undoClaims_quiet _ _
  | undoClaim row rest first => exact undoClaims_quiet _ _
  | rependCompleted submitter jobId dispatchId => cases submitter <;> exact ⟨rfl, rfl, rfl⟩
  | readExecution reader accepted => cases reader <;> exact ⟨rfl, rfl, rfl⟩
  | _ => exact ⟨rfl, rfl, rfl⟩

/-- No call becomes a `get_job` on its way, and only a `get_job` reports a job, composed of the row
that it has read and the execution that it reads. -/
theorem advance_reading (env : Env) (store : Store) (stage : Stage) :
    (store.advance env stage).2.collect Stage.reading = [] ∧
      ∀ job ∈ (store.advance env stage).2.reported, ∃ accepted execution,
        stage = .readExecution .getJob accepted ∧
        store.results.readExecution accepted.id = .ok execution ∧
        job = Job.fromAccepted accepted execution := by
  have hquiet : ∀ {progress : Progress}, progress.collect Stage.reading = [] →
      progress.reported = [] → progress.collect Stage.reading = [] ∧
        ∀ job ∈ progress.reported, ∃ accepted execution,
          stage = .readExecution .getJob accepted ∧
          store.results.readExecution accepted.id = .ok execution ∧
          job = Job.fromAccepted accepted execution := by
    intro progress hreading hreported
    refine ⟨hreading, fun job hjob => ?_⟩
    rw [hreported] at hjob
    cases hjob
  cases stage with
  | upsertResults queue =>
    simp only [Store.advance]
    split <;> exact hquiet rfl rfl
  | dispatch claimed claimedAt =>
    rw [Store.advance, Store.dispatch]
    split
    · exact hquiet (undoClaims_quiet _ _).reading (undoClaims_quiet _ _).reported
    · exact hquiet rfl rfl
  | undoClaim row rest error =>
    exact hquiet (undoClaims_quiet _ _).reading (undoClaims_quiet _ _).reported
  | rependCompleted submitter jobId dispatchId => cases submitter <;> exact hquiet rfl rfl
  | readAccepted jobId =>
    exact hquiet (composedJob_complete_quiet _ _).reading (composedJob_complete_quiet _ _).reported
  | readExecution reader accepted =>
    cases reader with
    | complete => exact hquiet rfl rfl
    | getJob =>
      refine ⟨rfl, fun job hjob => ?_⟩
      cases hread : store.results.readExecution accepted.id with
      | error error =>
        simp only [Store.advance, hread] at hjob
        cases hjob
      | ok execution =>
        simp only [Store.advance, hread] at hjob
        exact ⟨accepted, execution, rfl, hread, List.mem_singleton.mp hjob⟩
  | readStaleAccepted item rest jobs =>
    simp only [Store.advance]
    split <;> exact hquiet rfl rfl
  | readStaleExecution accepted rest jobs =>
    simp only [Store.advance]
    split
    · exact hquiet rfl rfl
    · exact hquiet (recoverItems_reading _ _).1 (recoverItems_reading _ _).2
  | _ => exact hquiet rfl rfl

theorem recoverStaleLeases_reading (choice : Table.Choice) (now : Int) (store : Store) :
    (store.recoverStaleLeases choice now).2.collect Stage.reading = [] ∧
      (store.recoverStaleLeases choice now).2.reported = [] := by
  unfold Store.recoverStaleLeases
  split
  · exact ⟨rfl, rfl⟩
  · exact recoverItems_reading _ _

theorem composedJob_reported (reader : Reader) (jobId : Int) (store : Store) :
    (store.composedJob reader jobId).reported = [] := by
  unfold Store.composedJob
  split
  · cases reader <;> rfl
  · rfl

theorem composedJob_reading {reader : Reader} {jobId : Int} {store : Store} {accepted : AcceptedJob}
    (h : accepted ∈ (store.composedJob reader jobId).collect Stage.reading) :
    accepted ∈ store.ingest.acceptedJobs := by
  unfold Store.composedJob at h
  split at h
  · cases h
  · next row hrow =>
    cases reader with
    | complete => cases h
    | getJob =>
      obtain rfl := List.mem_singleton.mp h
      unfold IngestConn.acceptedRow at hrow
      split at hrow
      · cases hrow
      · next hlookup =>
        obtain rfl := Except.ok.inj hrow
        exact Table.mem_of_lookup hlookup

/-- A step that reports a job is the second read of a `get_job`. -/
theorem step_reported {sys sys' : System} {action : Action} {replied : Replied}
    (hstep : sys.step action = some (sys', replied)) {id : Nat} {job : Job}
    (h : (id, Reply.job (.ok job)) ∈ replied) :
    ∃ env i accepted execution, action = .resume env i ∧
      sys.pool[i]? = some (id, .readExecution .getJob accepted) ∧
      sys.store.results.readExecution accepted.id = .ok execution ∧
      job = Job.fromAccepted accepted execution ∧ sys'.store = sys.store := by
  cases step_moves hstep with
  | start issued hphase hstart =>
    obtain ⟨hdone, -⟩ := mem_enter_replied h
    have hreported : job ∈ (Progress.done (.job (.ok job))).reported := List.mem_singleton_self _
    rcases start_cases hstart hdone with hquiet | ⟨jobId, -, heq⟩ | ⟨choice, now, -, heq⟩
    · rw [hquiet.reported] at hreported
      cases hreported
    · rw [heq, composedJob_reported] at hreported
      cases hreported
    · rw [heq, (recoverStaleLeases_reading choice now _).2] at hreported
      cases hreported
  | @resume i _ stage env hphase hentry =>
    obtain ⟨rfl, hdone⟩ := mem_proceed_replied h
    obtain ⟨accepted, execution, rfl, hread, rfl⟩ :=
      (advance_reading env sys.store stage).2 job (hdone ▸ List.mem_singleton_self _)
    exact ⟨env, i, accepted, execution, rfl, hentry, hread, rfl, rfl⟩
  | @fault i _ stage error hphase hentry =>
    obtain ⟨-, hdone⟩ := mem_proceed_replied h
    have hreported := (faulted_quiet error stage).reported
    rw [hdone] at hreported
    cases hreported
  | _ => cases h

/-- A `get_job` between its two reads was there before, or has just read an accepted row. -/
theorem step_reading {sys sys' : System} {action : Action} {replied : Replied}
    (hstep : sys.step action = some (sys', replied)) {id : Nat} {accepted : AcceptedJob}
    (h : (id, Stage.readExecution .getJob accepted) ∈ sys'.pool) :
    (id, Stage.readExecution .getJob accepted) ∈ sys.pool ∨
      sys.nextCall ≤ id ∧ accepted ∈ sys.store.ingest.acceptedJobs := by
  have hreading : accepted ∈
      (Progress.wait (.readExecution .getJob accepted)).collect Stage.reading :=
    List.mem_singleton_self _
  cases step_moves hstep with
  | @start _ store _ issued hphase hstart =>
    rcases mem_enter_pool store h with hold | ⟨hwait, hle, -⟩
    · exact Or.inl hold
    · right
      refine ⟨hle, ?_⟩
      rcases start_cases hstart hwait with hquiet | ⟨jobId, -, heq⟩ | ⟨choice, now, -, heq⟩
      · rw [hquiet.reading] at hreading
        cases hreading
      · rw [heq] at hreading
        exact composedJob_reading hreading
      · rw [heq, (recoverStaleLeases_reading choice now _).1] at hreading
        cases hreading
  | resume env hphase hentry =>
    rcases mem_proceed_pool h with hold | ⟨-, hwait⟩
    · exact Or.inl hold
    · rw [← hwait, (advance_reading env _ _).1] at hreading
      cases hreading
  | fault error hphase hentry =>
    rcases mem_proceed_pool h with hold | ⟨-, hwait⟩
    · exact Or.inl hold
    · rw [← hwait, (faulted_quiet error _).reading] at hreading
      cases hreading
  | crash hphase => cases h
  | _ => exact Or.inl h

end Maqistor
