import Maqistor.Store.Retries

/-! The state after a crash and the reopening: every accepted job may be claimed, runs under the
dispatch id it is marked with, or has ended for good. -/

namespace Maqistor

open ResultsConn IngestConn

/-- While the claims are gone through, one that is not looked at yet may lack an execution. -/
def Healing (sys : System) : Prop :=
  ∀ orphans, sys.phase = .healing orphans → ∀ job ∈ sys.store.ingest.acceptedJobs,
    ∀ dispatchId, job.dispatchId = some dispatchId → (job.id, dispatchId) ∈ orphans ∨
      ∃ row ∈ sys.store.results.executions, row.dispatchId = dispatchId

theorem mem_claims {choice : Table.Choice} {store : Store} {job : AcceptedJob} {dispatchId : String}
    (hjob : job ∈ store.ingest.acceptedJobs) (hdispatch : job.dispatchId = some dispatchId) :
    (job.id, dispatchId) ∈ store.claims choice := by
  refine (Table.Choice.mem_order choice).mpr (List.mem_filterMap.mpr ⟨job, hjob, ?_⟩)
  rw [hdispatch]
  rfl

/-- One round leaves a claim that an execution carries, and takes any other one back. -/
theorem healOrphan_cases (env : Env) (key : Int × String) (store : Store) :
    (∃ row ∈ store.results.executions, row.dispatchId = key.2) ∧
        store.healOrphan env key = store ∨
      store.healOrphan env key = store.repend env key.1 key.2 := by
  unfold Store.healOrphan
  split
  · next hany =>
    obtain ⟨row, hrow, hdispatch⟩ := List.any_eq_true.mp hany
    exact Or.inl ⟨⟨row, hrow, by simpa using hdispatch⟩, rfl⟩
  · exact Or.inr rfl

theorem step_healing {sys sys' : System} {action : Action} {replied : Replied}
    (hstep : sys.step action = some (sys', replied)) (h : Healing sys) : Healing sys' := by
  cases step_moves hstep with
  | start issued hphase hstart => exact fun orphans horphans => by cases hphase.symm.trans horphans
  | resume env hphase hentry => exact fun orphans horphans => by cases hphase.symm.trans horphans
  | fault error hphase hentry => exact fun orphans horphans => by cases hphase.symm.trans horphans
  | crash hphase => exact fun orphans horphans => by cases horphans
  | close hphase => exact fun orphans horphans => by cases horphans
  | opened env hphase => exact fun orphans horphans => by cases horphans
  | reopen choice hphase =>
    intro orphans horphans job hjob dispatchId hdispatch
    obtain rfl := Phase.healing.inj horphans
    exact Or.inl (mem_claims hjob hdispatch)
  | @heal key rest env hphase =>
    intro orphans horphans job hjob dispatchId hdispatch
    obtain rfl := Phase.healing.inj horphans
    have hbefore : ∀ {job : AcceptedJob}, job ∈ sys.store.ingest.acceptedJobs →
        job.dispatchId = some dispatchId → (job.id, dispatchId) = key ∨
          (job.id, dispatchId) ∈ rest ∨
          ∃ row ∈ sys.store.results.executions, row.dispatchId = dispatchId := by
      intro job hjob hdispatch
      rcases h _ hphase job hjob dispatchId hdispatch with horphan | hexecution
      · exact (List.mem_cons.mp horphan).imp_right Or.inl
      · exact Or.inr (Or.inr hexecution)
    rcases healOrphan_cases env key sys.store with ⟨hexecution, heq⟩ | heq
    · simp only [heq] at hjob ⊢
      rcases hbefore hjob hdispatch with rfl | hrest
      · exact Or.inr hexecution
      · exact hrest
    · simp only [heq] at hjob ⊢
      have hother : (job.id, dispatchId) ≠ key := by
        rintro rfl
        exact Store.not_carries_repend env _ sys.store ⟨job, hjob, rfl, hdispatch⟩
      rw [Store.repend_eq] at hjob
      obtain ⟨row, hrow, rfl⟩ := List.mem_map.mp hjob
      rcases rependRow_cases env.now (key.1, key.2) row with ⟨hsame, -⟩ | ⟨-, -, hfreed⟩
      · rw [hsame] at hdispatch hother ⊢
        exact (hbefore hrow hdispatch).resolve_left hother
      · rw [hfreed] at hdispatch
        cases hdispatch

/-- Actions under constant limits, without releases and cleanups, that give up no retry which is
still needed. -/
def Steady (limits : String → UInt32) (sys : System) (action : Action) : Prop :=
  Lasting (always limits) sys action ∧ KeepsRetries sys action

instance (limits : String → UInt32) (sys : System) (action : Action) :
    Decidable (Steady limits sys action) :=
  inferInstanceAs (Decidable (_ ∧ _))

theorem steady_owing {limits : String → UInt32} {sys : System} {events : List Replied}
    (h : System.Run (Steady limits) System.initial events sys) :
    Sound (always limits) sys ∧ Owing limits sys ∧ Healing sys := by
  have hall := h.invariant (fun sys => Sound (always limits) sys ∧ Accounted sys ∧
    Recovering sys ∧ Owing limits sys ∧ Healing sys) ?start ?step
  case start =>
    refine ⟨initial_sound, initial_accounted, ?_, ?_, ?_⟩
    · simp [Recovering, System.initial, collect]
    · simp [Owing, System.initial]
    · simp [Healing, System.initial]
  case step =>
    rintro sys sys' action replied ⟨hsound, haccounted, hrecovering, howing, hhealing⟩ hok hstep
    exact ⟨step_sound hsound (hok.1.careful haccounted) hstep, step_accounted hsound hok.1 hstep haccounted,
      step_recovering hsound haccounted hok.1 hstep hrecovering,
      step_owing hsound haccounted hrecovering hok.1 hok.2 hstep howing, step_healing hstep hhealing⟩
  exact ⟨hall.1, hall.2.2.2.1, hall.2.2.2.2⟩

/-- What a job may be after a reopening: claimable, running with a lease under the dispatch id of
its accepted row, completed, or failed with no retry left. -/
def Kept (limits : String → UInt32) (store : Store) (job : AcceptedJob) : Prop :=
  job.dispatchId = none ∨ ∃ row ∈ store.results.executions, row.jobId = job.id ∧
    (row.status = .running ∧ row.leaseExpiresAt.isSome ∧ job.dispatchId = some row.dispatchId ∨
      row.status = .completed ∨
      row.status = .failed ∧ ((limits job.queueName).toNat : Int) < row.executionCount)

instance (limits : String → UInt32) (store : Store) (job : AcceptedJob) :
    Decidable (Kept limits store job) :=
  inferInstanceAs (Decidable (_ ∨ ∃ row ∈ store.results.executions, _))

theorem Consistent.same_job {pinned : String → Option UInt32} {s : Snapshot}
    (h : Consistent pinned s) {job : AcceptedJob} (hjob : job ∈ s.accepted) {row : Execution}
    (hrow : row ∈ s.executions) (hdispatch : job.dispatchId = some row.dispatchId) :
    row.jobId = job.id := by
  have hkeys := List.inj_on_of_nodup_map h.ledger (h.executed row hrow)
    (h.claims job hjob row.dispatchId hdispatch) rfl
  exact congrArg Prod.fst hkeys

theorem Consistent.again_of_budget {limits : String → UInt32} {s : Snapshot}
    (h : Consistent (always limits) s) {job : AcceptedJob} (hjob : job ∈ s.accepted)
    {row : Execution} (hrow : row ∈ s.executions) (hid : row.jobId = job.id)
    (hfailed : row.status = .failed) (hle : row.executionCount ≤ (limits job.queueName).toNat) :
    Again (always limits) row := by
  refine ⟨hfailed, fun limit hlimit => ?_⟩
  obtain rfl := Option.some.inj hlimit
  rwa [h.named row hrow job hjob hid.symm]

/-- With no call in flight, a failed attempt with retries left is not what a job is marked with. -/
theorem Owing.unmarked {limits : String → UInt32} {sys : System} (h : Owing limits sys)
    (hpool : sys.pool = []) {job : AcceptedJob} (hjob : job ∈ sys.store.ingest.acceptedJobs)
    {row : Execution} (hrow : row ∈ sys.store.results.executions) (hid : row.jobId = job.id)
    (hagain : Again (always limits) row) : job.dispatchId ≠ some row.dispatchId := by
  intro hdispatch
  have howed := h row hrow hagain ⟨job, hjob, hid.symm, hdispatch⟩
  rw [hpool] at howed
  cases howed

/-- After the last orphan, a marked job has the execution that it is marked with. -/
theorem Healing.carried {pinned : String → Option UInt32} {sys : System} (h : Healing sys)
    (hphase : sys.phase = .healing []) (hconsistent : Consistent pinned sys.snapshot)
    {job : AcceptedJob} (hjob : job ∈ sys.store.ingest.acceptedJobs)
    (hmarked : job.dispatchId ≠ none) :
    ∃ row ∈ sys.store.results.executions, row.jobId = job.id ∧
      job.dispatchId = some row.dispatchId := by
  obtain ⟨dispatchId, hdispatch⟩ := Option.ne_none_iff_exists'.mp hmarked
  rcases h _ hphase job hjob dispatchId hdispatch with horphan | ⟨row, hrow, rfl⟩
  · cases horphan
  · exact ⟨row, hrow, hconsistent.same_job hjob hrow hdispatch, hdispatch⟩

/-- The store of a healed system, in a run that gave up no retry still needed: every accepted job is
kept, and a failed attempt with retries left is claimable again. -/
theorem crash_keeps_jobs {limits : String → UInt32} {sys sys' : System} {events : List Replied}
    {env : Env} {replied : Replied} (h : System.Run (Steady limits) System.initial events sys)
    (hheal : sys.step (.heal env) = some (sys', replied)) (hopen : sys'.phase = .serving) :
    ∀ job ∈ sys'.store.ingest.acceptedJobs, Kept limits sys'.store job ∧
      ∀ row ∈ sys'.store.results.executions, row.jobId = job.id → row.status = .failed →
        row.executionCount ≤ (limits job.queueName).toNat → job.dispatchId = none := by
  obtain ⟨hsound, howing, hhealing⟩ := steady_owing h
  have hconsistent := hsound.consistent
  cases step_moves hheal with
  | start issued hphase hstart => cases hstart
  | heal _ hphase => cases hopen
  | opened _ hphase =>
    have hpool : sys.pool = [] := hsound.idle (by simp [hphase])
    intro job hjob
    refine ⟨?_, fun row hrow hid hfailed hle => ?_⟩
    · by_cases hmarked : job.dispatchId = none
      · exact Or.inl hmarked
      · obtain ⟨row, hrow, hid, hdispatch⟩ := hhealing.carried hphase hconsistent hjob hmarked
        refine Or.inr ⟨row, hrow, hid, ?_⟩
        cases hstatus : row.status with
        | pending => exact absurd hstatus (hconsistent.started row hrow)
        | running => exact Or.inl ⟨rfl, hconsistent.leased row hrow hstatus, hdispatch⟩
        | completed => exact Or.inr (Or.inl rfl)
        | failed =>
          refine Or.inr (Or.inr ⟨rfl, Int.not_le.mp fun hle => ?_⟩)
          have hagain := hconsistent.again_of_budget hjob hrow hid hstatus hle
          exact howing.unmarked hpool hjob hrow hid hagain hdispatch
    · by_contra hmarked
      obtain ⟨other, hother, hotherId, hdispatch⟩ :=
        hhealing.carried hphase hconsistent hjob hmarked
      obtain rfl := hconsistent.execution_eq hrow hother (hid.trans hotherId.symm)
      have hagain := hconsistent.again_of_budget hjob hrow hid hfailed hle
      exact howing.unmarked hpool hjob hrow hid hagain hdispatch

/-- A job that failed once and another one, both claimed and not dispatched at the crash; the claims
have been gone through. -/
def healedClaims : System where
  store := mailStore [⟨1, "mail", [1], none, 0, 4⟩, ⟨2, "mail", [2], none, 0, 4⟩]
    [⟨1, 1, "mail", .failed, 1, none, "a0", none, some "no", 1, 2⟩]
  phase := .healing []
  pool := []
  nextCall := 6
  issued := [(1, "b0"), (2, "b1"), (1, "a0")]

theorem crash_keeps_jobs_claimed :
    Runs.Reachable System.step (Steady fun _ => 2) System.initial healedClaims ∧
      healedClaims.step (.heal (.atTime 5)) =
        some ({ healedClaims with phase := .serving }, []) ∧
      Kept (fun _ => 2) healedClaims.store ⟨1, "mail", [1], none, 0, 4⟩ := by
  obtain ⟨events, hrun⟩ :
      Runs.Reachable System.step (Steady fun _ => 2) System.initial healedClaims :=
    .of_exec (mailActions [⟨0, "mail", [1], none, 0, 0⟩, ⟨0, "mail", [2], none, 0, 0⟩] ++
      [mailClaim "a" 1 1, .resume (.atTime 1) 0,
        .complete (.atTime 2) [(⟨1, "a0", .failed "no"⟩, .completeWorkerResult)],
        .resume (.atTime 2) 0, mailClaim "b" 3 2, .crash, .reopen Table.Choice.first,
        .heal (.atTime 4), .heal (.atTime 4)]) (by decide)
  have hheal : healedClaims.step (.heal (.atTime 5)) =
      some ({ healedClaims with phase := .serving }, []) := rfl
  exact ⟨⟨events, hrun⟩, hheal, (crash_keeps_jobs hrun hheal rfl _ List.mem_cons_self).1⟩

/-- A failed attempt with retries left, whose repend the crash took away: its job stays marked. -/
def lostRetry : System where
  store := mailStore [⟨1, "mail", [1], some "a0", 0, 1⟩]
    [⟨1, 1, "mail", .failed, 1, none, "a0", none, some "no", 1, 2⟩]
  phase := .healing []
  pool := []
  nextCall := 4
  issued := [(1, "a0")]

theorem crash_loses_retry :
    ¬∀ (sys sys' : System) (events : List Replied) (env : Env) (replied : Replied),
      System.Run (Lasting (always fun _ => 2)) System.initial events sys →
      sys.step (.heal env) = some (sys', replied) → sys'.phase = .serving →
      ∀ job ∈ sys'.store.ingest.acceptedJobs, Kept (fun _ => 2) sys'.store job ∧
        ∀ row ∈ sys'.store.results.executions, row.jobId = job.id → row.status = .failed →
          row.executionCount ≤ 2 → job.dispatchId = none := by
  intro h
  obtain ⟨events, hrun⟩ :
      Runs.Reachable System.step (Lasting (always fun _ => 2)) System.initial lostRetry :=
    .of_exec (mailActions [⟨0, "mail", [1], none, 0, 0⟩] ++
      [mailClaim "a" 1 1, .resume (.atTime 1) 0,
        .complete (.atTime 2) [(⟨1, "a0", .failed "no"⟩, .completeWorkerResult)],
        .crash, .reopen Table.Choice.first, .heal (.atTime 4)]) (by decide)
  have hkept := (h lostRetry { lostRetry with phase := .serving } events (.atTime 5) [] hrun rfl rfl
    _ (List.mem_singleton_self _)).1
  revert hkept
  decide

end Maqistor
