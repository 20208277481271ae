import Maqistor.Store.Agreement

/-! The retry budget: each dispatch raises a job's `execution_count` by one, nothing else does, and
an attempt that leaves no other one is the job's last. -/

namespace Maqistor

open ResultsConn IngestConn

/-- The jobs that the claims ending in a step return. -/
def claimedJobs (replied : Replied) : List Job :=
  replied.flatMap fun reply =>
    match reply.2 with
    | .claimed (.ok jobs) => jobs
    | _ => []

/-- A claim that ends in the step returns the job. -/
def returns (jobId : Int) (replied : Replied) : Bool :=
  (claimedJobs replied).any (·.id = jobId)

/-- The `execution_count` of a job, zero before its first dispatch. -/
def Store.attempts (jobId : Int) (store : Store) : Int :=
  ResultsConn.attempts (Table.lookup Execution.jobId jobId store.results.executions)

theorem NoClaim.claimedJobs_eq {replied : Replied} (h : NoClaim replied) :
    claimedJobs replied = [] := by
  apply flatMap_nil
  intro reply hreply
  split
  · next jobs heq => exact h reply.1 jobs (heq ▸ hreply)
  · rfl

theorem NoClaim.returns_eq {replied : Replied} (h : NoClaim replied) (jobId : Int) :
    returns jobId replied = false := by
  rw [returns, h.claimedJobs_eq, List.any_nil]

theorem returns_claimed {executions : List Execution} {claimed : List IngestClaimed}
    {jobs : List Job} (h : List.Forall₂ (Store.Returned executions) claimed jobs) (id : Nat)
    (jobId : Int) :
    returns jobId [(id, .claimed (.ok jobs))] = true ↔ jobId ∈ claimed.map IngestClaimed.id := by
  have hids : jobs.map Job.id = claimed.map IngestClaimed.id := by
    induction h with
    | nil => rfl
    | cons hjob _ ih => rw [List.map_cons, List.map_cons, ih, hjob.1]
  rw [← hids]
  simp [returns, claimedJobs]

variable {pinned : String → Option UInt32} {sys sys' : System} {action : Action}
  {replied : Replied}

/-- Each dispatch raises a job's count by one and returns the job; no other step changes it. -/
theorem step_attempts (hsound : Sound pinned sys) (hok : Lasting pinned sys action)
    (hstep : sys.step action = some (sys', replied)) (jobId : Int) :
    sys'.store.attempts jobId =
      sys.store.attempts jobId + if returns jobId replied then 1 else 0 := by
  have hsame : sys'.store.results.executions = sys.store.results.executions →
      NoClaim replied → sys'.store.attempts jobId =
        sys.store.attempts jobId + if returns jobId replied then 1 else 0 := by
    intro hexecutions hreplied
    simp [Store.attempts, hexecutions, hreplied.returns_eq]
  cases step_effect hsound hok.1 hstep with
  | rewrite f hf haccepted hexecutions hawaiting hreplied => exact hsame hexecutions hreplied
  | enqueue jobs haccepted hexecutions hawaiting hreplied => exact hsame hexecutions hreplied
  | finish f hf haccepted hexecutions hdue hawaiting hreplied =>
    have hcount := hf.keeps Execution.executionCount fun _ _ _ => finished_executionCount _ _ _
    have hlookup : Table.lookup Execution.jobId jobId sys'.store.results.executions =
        (Table.lookup Execution.jobId jobId sys.store.results.executions).map f := by
      rw [hexecutions]
      exact Table.lookup_map (hf.keeps Execution.jobId fun _ _ _ => finished_jobId _ _ _)
    rw [hreplied.returns_eq, Store.attempts, Store.attempts, hlookup]
    simp [ResultsConn.attempts, Option.map_map, Function.comp_def, hcount]
  | dispatch now claimedAt id claimed returned jobs haccepted hspec hjobs hawaiting hreplied =>
    have hids : (claimed.map (Store.dispatchRow claimedAt)).map DispatchInsert.jobId =
        claimed.map IngestClaimed.id := by
      rw [List.map_map]
      rfl
    rw [Store.attempts, Store.attempts, hreplied]
    by_cases hmem : jobId ∈ claimed.map IngestClaimed.id
    · rw [if_pos ((returns_claimed hjobs id jobId).mpr hmem)]
      obtain ⟨entry, hentry, rfl⟩ := List.mem_map.mp hmem
      have havailable := hsound.consistent.available
        (hawaiting.mem_iff.mpr (List.mem_append_left _ hentry))
      obtain ⟨_, -, -, attempt, hattempt, -, hdispatch⟩ :=
        hspec.started entry.id (hids ▸ hmem) havailable
      rw [hattempt]
      exact hdispatch.executionCount
    · rw [if_neg (mt (returns_claimed hjobs id jobId).mp hmem), hspec.other jobId (hids ▸ hmem),
        Int.add_zero]
  | cleanup p q hcleans => exact absurd hcleans (by simp [hok.2.1])

/-- An attempt that has ended and leaves its job no other one. -/
def Settled (pinned : String → Option UInt32) (row : Execution) : Prop :=
  row.status ≠ .running ∧ ¬Again pinned row

theorem step_settled (hsound : Sound pinned sys) (hok : Lasting pinned sys action)
    (hstep : sys.step action = some (sys', replied)) {row : Execution}
    (hrow : row ∈ sys.store.results.executions) (hsettled : Settled pinned row) :
    row ∈ sys'.store.results.executions ∧ returns row.jobId replied = false := by
  cases step_effect hsound hok.1 hstep with
  | rewrite f hf haccepted hexecutions hawaiting hreplied =>
    exact ⟨hexecutions ▸ hrow, hreplied.returns_eq _⟩
  | enqueue jobs haccepted hexecutions hawaiting hreplied =>
    exact ⟨hexecutions ▸ hrow, hreplied.returns_eq _⟩
  | finish f hf haccepted hexecutions hdue hawaiting hreplied =>
    rcases hf row with heq | ⟨hrunning, -⟩
    · exact ⟨hexecutions ▸ List.mem_map.mpr ⟨row, hrow, heq⟩, hreplied.returns_eq _⟩
    · exact absurd hrunning hsettled.1
  | dispatch now claimedAt id claimed returned jobs haccepted hspec hjobs hawaiting hreplied =>
    -- The job is not among the claimed ones: an attempt of theirs could be repeated.
    have hother : row.jobId ∉ claimed.map IngestClaimed.id := by
      intro hmem
      obtain ⟨entry, hentry, hid⟩ := List.mem_map.mp hmem
      have hawaits := hsound.consistent.awaits entry
        (hawaiting.mem_iff.mpr (List.mem_append_left _ hentry))
      exact hsettled.2 (hawaits.executions row hrow hid.symm).1
    have hnamed : row.jobId ∉ (claimed.map (Store.dispatchRow claimedAt)).map
        DispatchInsert.jobId := by
      rw [List.map_map]
      exact hother
    have hlookup := (hspec.other row.jobId hnamed).trans
      (Table.lookup_of_mem hsound.consistent.valid.jobs hrow)
    refine ⟨Table.mem_of_lookup hlookup, ?_⟩
    rw [hreplied]
    exact Bool.eq_false_iff.mpr (mt (returns_claimed hjobs id row.jobId).mp hother)
  | cleanup p q hcleans => exact absurd hcleans (by simp [hok.2.1])

/-- A settled attempt stays as it is, and its job is never claimed again. -/
theorem run_settled {events : List Replied} (h : System.Run (Lasting pinned) sys events sys')
    (hsound : Sound pinned sys) (haccounted : Accounted sys) {row : Execution}
    (hrow : row ∈ sys.store.results.executions) (hsettled : Settled pinned row) :
    (Sound pinned sys' ∧ Accounted sys' ∧ row ∈ sys'.store.results.executions) ∧
      ∀ replied ∈ events, returns row.jobId replied = false := by
  refine h.events
    (fun sys => Sound pinned sys ∧ Accounted sys ∧ row ∈ sys.store.results.executions) _
    ⟨hsound, haccounted, hrow⟩ ?_
  rintro sys sys' action replied ⟨hsound, haccounted, hrow⟩ hok hstep
  obtain ⟨hkept, hnone⟩ := step_settled hsound hok hstep hrow hsettled
  exact ⟨⟨step_sound hsound (hok.careful haccounted) hstep,
    step_accounted hsound hok hstep haccounted, hkept⟩, hnone⟩

/-- The limit of one queue is pinned. -/
def limitOn (name : String) (limit : UInt32) (other : String) : Option UInt32 :=
  if other = name then some limit else none

/-- An attempt that ended as completed, or failed with no retry left. -/
def Exhausted (limit : UInt32) (row : Execution) : Prop :=
  row.status = .completed ∨ row.status = .failed ∧ (limit.toNat : Int) < row.executionCount

instance (limit : UInt32) (row : Execution) : Decidable (Exhausted limit row) :=
  inferInstanceAs (Decidable (_ ∨ _))

theorem Exhausted.settled {limit : UInt32} {row : Execution} (h : Exhausted limit row)
    (hpinned : pinned row.queueName = some limit) : Settled pinned row := by
  rcases h with hcompleted | ⟨hfailed, hlt⟩
  · exact ⟨by simp [hcompleted], fun hagain => by simp [hagain.1] at hcompleted⟩
  · exact ⟨by simp [hfailed], fun hagain => absurd (hagain.2 limit hpinned) (Int.not_le.mpr hlt)⟩

/-- In every run without releases and cleanups, for a queue whose limit stays the same: the count of
a job is at most one above the limit, a step raises it by one when a claim returns the job and keeps
it otherwise, and no claim returns a job after its last attempt has ended. -/
theorem retry_budget {name : String} {limit : UInt32} {events : List Replied}
    (h : System.Run (Lasting (limitOn name limit)) System.initial events sys) :
    ∀ job ∈ sys.store.ingest.acceptedJobs, job.queueName = name →
      sys.store.attempts job.id ≤ limit.toNat + 1 ∧
      (∀ action sys' replied, Lasting (limitOn name limit) sys action →
        sys.step action = some (sys', replied) → sys'.store.attempts job.id =
          sys.store.attempts job.id + if returns job.id replied then 1 else 0) ∧
      ∀ row ∈ sys.store.results.executions, row.jobId = job.id → Exhausted limit row →
        ∀ more sys', System.Run (Lasting (limitOn name limit)) sys more sys' →
          ∀ replied ∈ more, returns job.id replied = false := by
  have hsound := lasting_sound h
  have hpinned : ∀ row ∈ sys.store.results.executions, ∀ job ∈ sys.store.ingest.acceptedJobs,
      row.jobId = job.id → job.queueName = name →
        limitOn name limit row.queueName = some limit := by
    intro row hrow job hjob hid hname
    have hnamed := hsound.consistent.named row hrow job hjob hid.symm
    rw [hnamed, hname, limitOn, if_pos rfl]
  intro job hjob hname
  refine ⟨?_, fun action sys' replied hok hstep => step_attempts hsound hok hstep job.id, ?_⟩
  · unfold Store.attempts
    cases hlookup : Table.lookup Execution.jobId job.id sys.store.results.executions with
    | none =>
      simp only [ResultsConn.attempts, Option.map_none, Option.getD_none]
      omega
    | some row =>
      have hrow := Table.mem_of_lookup hlookup
      have hlimit := hpinned row hrow job hjob (Table.key_of_lookup hlookup) hname
      exact (hsound.consistent.counted row hrow).2.2 limit hlimit
  · intro row hrow hid hexhausted more sys' hmore
    rw [← hid]
    exact (run_settled hmore hsound (lasting_accounted h) hrow
      (hexhausted.settled (hpinned row hrow job hjob hid hname))).2

/-- One attempt of the first job that a worker reports as failed, with the repend. -/
def failedAttempt (name : String) (now : Int) : List Action :=
  [mailClaim name now 1, .resume (.atTime now) 0,
    .complete (.atTime now) [(⟨1, name ++ "0", .failed "no"⟩, .completeWorkerResult)],
    .resume (.atTime now) 0]

/-- Two attempts have failed and the lease of the third has expired. -/
def thirdFailure : System where
  store := mailStore [⟨1, "mail", [1], some "c0", 0, 3⟩]
    [⟨1, 1, "mail", .failed, 3, none, "c0", none, some "lease expired", 1, 40000⟩]
  phase := .serving
  pool := [(7, .readStaleAccepted ⟨1, "c0", false⟩ [] [])]
  nextCall := 8
  issued := [(1, "c0"), (1, "b0"), (1, "a0")]

theorem retry_budget_third_failure :
    Runs.Reachable System.step (Lasting (limitOn "mail" 2)) System.initial thirdFailure ∧
      thirdFailure.store.attempts 1 ≤ 3 ∧
      ∃ sys' replied, thirdFailure.step (mailClaim "d" 50000 5) = some (sys', replied) ∧
        sys'.store.attempts 1 = thirdFailure.store.attempts 1 + 0 ∧
        returns 1 replied = false := by
  obtain ⟨events, hrun⟩ :
      Runs.Reachable System.step (Lasting (limitOn "mail" 2)) System.initial thirdFailure :=
    .of_exec (mailActions [⟨0, "mail", [1], none, 0, 0⟩] ++ failedAttempt "a" 1 ++
      failedAttempt "b" 2 ++ [mailClaim "c" 3 1, .resume (.atTime 3) 0,
        .recoverStaleLeases Table.Choice.first 40000]) (by decide)
  have hstep : thirdFailure.step (mailClaim "d" 50000 5) =
      some ({ thirdFailure with nextCall := 9 }, [(8, .claimed (.ok []))]) := by decide
  have hok : Lasting (limitOn "mail" 2) thirdFailure (mailClaim "d" 50000 5) := by decide
  obtain ⟨hcount, hraise, hlast⟩ := retry_budget hrun _ (List.mem_singleton_self _) rfl
  exact ⟨⟨events, hrun⟩, hcount, _, _, hstep, hraise _ _ _ hok hstep,
    hlast _ (List.mem_singleton_self _) rfl (by decide) _ _ (Runs.Run.one hok hstep) _
      (List.mem_singleton_self _)⟩

end Maqistor
