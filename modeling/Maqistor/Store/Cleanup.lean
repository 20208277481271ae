import Maqistor.Store.Schema

/-! What `cleanup_expired_records` removes: its two deletes look at `created_at` and at `updated_at`
alone, not at how far a job has come. -/

namespace Maqistor

open ResultsConn IngestConn

namespace Store

/-- A job that has ended: its attempt has completed, or failed with no retry left, and the accepted
row is still marked with it. -/
def terminal (store : Store) (jobId : Int) : Prop :=
  ∃ row ∈ store.results.executions, row.jobId = jobId ∧
    (row.status = .completed ∨ row.status = .failed ∧
      limitOf store.results.executionQueues row.queueName < row.executionCount) ∧
    ∀ job ∈ store.ingest.acceptedJobs, job.id = jobId → job.dispatchId = some row.dispatchId

instance (store : Store) (jobId : Int) : Decidable (store.terminal jobId) :=
  inferInstanceAs (Decidable (∃ row ∈ store.results.executions, _))

/-- A job that is claimable, or claimed under a dispatch id that no execution of it has, or
running. -/
def live (store : Store) (job : AcceptedJob) : Prop :=
  (∀ row ∈ store.results.executions, row.jobId = job.id →
    job.dispatchId ≠ some row.dispatchId) ∨
  ∃ row ∈ store.results.executions, row.jobId = job.id ∧ row.status = .running

end Store

/-- A cleanup removes rows of jobs that have ended, and no others; in particular a live job keeps
its accepted row and its execution. -/
structure PurgesTerminal (cutoff : Int) (store : Store) : Prop where
  accepted : ∀ job ∈ store.ingest.acceptedJobs,
    job ∉ (store.cleanupExpiredRecords cutoff).1.ingest.acceptedJobs → store.terminal job.id
  executions : ∀ row ∈ store.results.executions,
    row ∉ (store.cleanupExpiredRecords cutoff).1.results.executions → store.terminal row.jobId
  live : ∀ job ∈ store.ingest.acceptedJobs, store.live job →
    job ∈ (store.cleanupExpiredRecords cutoff).1.ingest.acceptedJobs ∧
      ∀ row ∈ store.results.executions, row.jobId = job.id →
        row ∈ (store.cleanupExpiredRecords cutoff).1.results.executions

/-- The two steps of the call, one after the other. -/
theorem cleanup_steps (env : Env) (cutoff : Int) (store : Store) :
    ∃ deleted, (store.cleanupIngest cutoff).2 = .wait (.cleanupResults cutoff deleted) ∧
      (store.cleanupIngest cutoff).1.advance env (.cleanupResults cutoff deleted) =
        ((store.cleanupExpiredRecords cutoff).1,
          .done (.deleted (.ok (store.cleanupExpiredRecords cutoff).2))) :=
  ⟨_, rfl, rfl⟩

theorem Store.WellFormed.not_terminal {store : Store} (h : store.WellFormed) {job : AcceptedJob}
    (hjob : job ∈ store.ingest.acceptedJobs) (hlive : store.live job) :
    ¬store.terminal job.id := by
  rintro ⟨row, hrow, hid, hended, hmarked⟩
  rcases hlive with hother | ⟨running, hmem, hjobId, hstatus⟩
  · exact hother row hrow hid (hmarked job hjob rfl)
  · obtain rfl := List.inj_on_of_nodup_map h.valid.jobs hrow hmem (hid.trans hjobId.symm)
    rcases hended with hcompleted | ⟨hfailed, -⟩
    · simp [hstatus] at hcompleted
    · simp [hstatus] at hfailed

theorem mem_filter_old {α : Type} {time : α → Int} {cutoff : Int} {x : α} {xs : List α}
    (h : x ∈ xs) : x ∈ xs.filter (fun x => !(time x < cutoff : Bool)) ↔ ¬time x < cutoff := by
  simp [h]

/-- In every reachable state, a cleanup removes only rows of jobs that have ended if and only if
every accepted row from before the cutoff, and every execution last changed before it, is of such a
job. -/
theorem cleanup_purges_terminal_iff {admits : System → Action → Prop} {sys : System}
    {events : List Replied} (h : System.Run admits System.initial events sys) (cutoff : Int) :
    PurgesTerminal cutoff sys.store ↔
      (∀ job ∈ sys.store.ingest.acceptedJobs, job.createdAt < cutoff →
        sys.store.terminal job.id) ∧
      ∀ row ∈ sys.store.results.executions, row.updatedAt < cutoff →
        sys.store.terminal row.jobId := by
  have hformed := run_wellFormed h initial_wellFormed
  have haccepted : ∀ job ∈ sys.store.ingest.acceptedJobs,
      job ∈ (sys.store.cleanupExpiredRecords cutoff).1.ingest.acceptedJobs ↔
        ¬job.createdAt < cutoff :=
    fun job hjob => mem_filter_old hjob
  have hexecutions : ∀ row ∈ sys.store.results.executions,
      row ∈ (sys.store.cleanupExpiredRecords cutoff).1.results.executions ↔
        ¬row.updatedAt < cutoff :=
    fun row hrow => mem_filter_old hrow
  constructor
  · intro hpurges
    refine ⟨fun job hjob hold => hpurges.accepted job hjob ?_,
      fun row hrow hold => hpurges.executions row hrow ?_⟩
    · rw [haccepted job hjob, not_not]
      exact hold
    · rw [hexecutions row hrow, not_not]
      exact hold
  · rintro ⟨hjobs, hrows⟩
    refine ⟨fun job hjob hgone => hjobs job hjob ?_, fun row hrow hgone => hrows row hrow ?_,
      fun job hjob hlive => ⟨?_, fun row hrow hid => ?_⟩⟩
    · rwa [haccepted job hjob, not_not] at hgone
    · rwa [hexecutions row hrow, not_not] at hgone
    · rw [haccepted job hjob]
      exact fun hold => hformed.not_terminal hjob hlive (hjobs job hjob hold)
    · rw [hexecutions row hrow]
      exact fun hold => hformed.not_terminal hjob hlive (hid ▸ hrows row hrow hold)

/-- A job that has completed, and a new one. -/
def completedAndNew : System where
  store := mailStore [⟨1, "mail", [1], some "a0", 0, 1⟩, ⟨2, "mail", [2], none, 60, 60⟩]
    [⟨1, 1, "mail", .completed, 1, none, "a0", some [7], none, 1, 2⟩]
  phase := .serving
  pool := []
  nextCall := 5
  issued := [(1, "a0")]

theorem cleanup_purges_terminal_iff_completed :
    Runs.Reachable System.step (fun _ _ => True) System.initial completedAndNew ∧
      PurgesTerminal 50 completedAndNew.store := by
  obtain ⟨events, hrun⟩ :
      Runs.Reachable System.step (fun _ _ => True) System.initial completedAndNew :=
    .of_exec (mailActions [⟨0, "mail", [1], none, 0, 0⟩] ++ [mailClaim "a" 1 1,
      .resume (.atTime 1) 0,
      .complete (.atTime 2) [(⟨1, "a0", .succeeded [7]⟩, .completeWorkerResult)],
      .enqueue [⟨0, "mail", [2], none, 60, 60⟩]]) (by decide)
  exact ⟨⟨events, hrun⟩, (cleanup_purges_terminal_iff hrun 50).mpr (by decide)⟩

/-- A job that nobody has claimed yet. -/
def unclaimedMail : System where
  store := mailStore [⟨1, "mail", [1], none, 0, 0⟩] []
  phase := .serving
  pool := []
  nextCall := 2
  issued := []

theorem cleanup_purges_unclaimed :
    ¬∀ (sys : System) (events : List Replied) (cutoff : Int),
      System.Run (fun _ _ => True) System.initial events sys → PurgesTerminal cutoff sys.store := by
  intro h
  obtain ⟨events, hrun⟩ :
      Runs.Reachable System.step (fun _ _ => True) System.initial unclaimedMail :=
    .of_exec (mailActions [⟨0, "mail", [1], none, 0, 0⟩]) (by decide)
  have hkept := ((h unclaimedMail events 50 hrun).live _ (List.mem_singleton_self _)
    (Or.inl fun row hrow => by cases hrow)).1
  revert hkept
  decide

end Maqistor
