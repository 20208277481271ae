import Maqistor.Store.Budget
import Maqistor.Store.Retries

/-! What callers of `get_job` see of a job that has ended. The two reads of a `get_job` are not
synchronised with the writers, so a failed attempt may be read before its repend. -/

namespace Maqistor

open ResultsConn IngestConn

/-- A failed attempt with retries left. -/
def Retryable (limits : String → UInt32) (row : Execution) : Prop :=
  row.status = .failed ∧ row.executionCount ≤ (limits row.queueName).toNat

instance (limits : String → UInt32) (row : Execution) : Decidable (Retryable limits row) :=
  inferInstanceAs (Decidable (_ ∧ _))

/-- The row that a `get_job` has read when the action is its second read. -/
def rereads (sys : System) : Action → List AcceptedJob
  | .resume _ i =>
    match sys.pool[i]? with
    | some (_, stage) => stage.reading
    | none => []
  | _ => []

/-- No `get_job` that saw its job claimed reads a failed attempt with retries left. -/
def ReadsSettled (limits : String → UInt32) (sys : System) (action : Action) : Prop :=
  ∀ accepted ∈ rereads sys action, accepted.dispatchId = none ∨
    ∀ row ∈ sys.store.results.executions, row.jobId = accepted.id → ¬Retryable limits row

instance (limits : String → UInt32) (sys : System) (action : Action) :
    Decidable (ReadsSettled limits sys action) :=
  inferInstanceAs (Decidable (∀ accepted ∈ rereads sys action, _))

def Observed (limits : String → UInt32) (sys : System) (action : Action) : Prop :=
  Lasting (always limits) sys action ∧ ReadsSettled limits sys action

instance (limits : String → UInt32) (sys : System) (action : Action) :
    Decidable (Observed limits sys action) :=
  inferInstanceAs (Decidable (_ ∧ _))

variable {limits : String → UInt32} {sys sys' : System} {action : Action} {replied : Replied}

theorem again_always {row : Execution} : Again (always limits) row ↔ Retryable limits row := by
  simp [Again, Retryable, always]

/-- Calls in flight have numbers that were given out. -/
def Numbered (sys : System) : Prop := ∀ entry ∈ sys.pool, entry.1 < sys.nextCall

theorem step_numbered (hstep : sys.step action = some (sys', replied)) (h : Numbered sys) :
    Numbered sys' := by
  intro entry hentry
  cases step_moves hstep with
  | @start _ store progress issued hphase hstart =>
    rcases mem_enter_pool store hentry with hold | ⟨-, -, hlt⟩
    · exact Nat.lt_of_lt_of_le (h entry hold) (Nat.le_add_right _ _)
    · exact hlt
  | resume env hphase hcall =>
    rcases mem_proceed_pool hentry with hold | ⟨hid, -⟩
    · exact h entry hold
    · rw [hid]
      exact h _ (List.mem_of_getElem? hcall)
  | fault error hphase hcall =>
    rcases mem_proceed_pool hentry with hold | ⟨hid, -⟩
    · exact h entry hold
    · rw [hid]
      exact h _ (List.mem_of_getElem? hcall)
  | crash hphase => cases hentry
  | _ => exact h entry hentry

theorem fromAccepted_id (accepted : AcceptedJob) (execution : Option Execution) :
    (Job.fromAccepted accepted execution).id = accepted.id := by
  cases execution <;> rfl

theorem fromAccepted_status {accepted : AcceptedJob} (hmarked : accepted.dispatchId ≠ none)
    (row : Execution) : (Job.fromAccepted accepted (some row)).status = row.status := by
  simp [Job.fromAccepted, hmarked]

/-- A job that is reported as completed or failed is read off an attempt that is settled. -/
theorem reported_settled (hsound : Sound (always limits) sys) (hok : Observed limits sys action)
    (hstep : sys.step action = some (sys', replied)) {id : Nat} {job : Job}
    (hreport : (id, Reply.job (.ok job)) ∈ replied)
    (hterminal : job.status = .completed ∨ job.status = .failed) :
    sys'.store = sys.store ∧ ∃ row ∈ sys.store.results.executions, row.jobId = job.id ∧
      row.status = job.status ∧ Settled (always limits) row := by
  obtain ⟨env, i, accepted, execution, rfl, hcall, hread, rfl, hstore⟩ :=
    step_reported hstep hreport
  refine ⟨hstore, ?_⟩
  rw [hsound.consistent.readExecution rfl, Except.ok.injEq] at hread
  cases execution with
  | none => simp [Job.fromAccepted] at hterminal
  | some row =>
    have hrow := Table.mem_of_lookup hread
    have hid : row.jobId = accepted.id := Table.key_of_lookup hread
    refine ⟨row, hrow, hid, ?_⟩
    have hsettled := hok.2 accepted (by simp [rereads, hcall, Stage.reading])
    by_cases hpending : row.status = .failed ∧ accepted.dispatchId = none
    · simp [Job.fromAccepted, hpending] at hterminal
    · have hstatus : (Job.fromAccepted accepted (some row)).status = row.status := by
        simp only [Job.fromAccepted, if_neg hpending]
      rw [hstatus] at hterminal ⊢
      refine ⟨rfl, fun hrunning => by simp [hrunning] at hterminal, fun hagain => ?_⟩
      rcases hsettled with hfree | hsettled
      · exact hpending ⟨hagain.1, hfree⟩
      · exact hsettled row hrow hid (again_always.mp hagain)

/-- What a later `get_job` relies on: the settled attempt, and the marks in the rows that it and
others have read since. -/
structure Watched (start : Nat) (row : Execution) (sys : System) : Prop where
  kept : row ∈ sys.store.results.executions
  marked : ∀ id accepted, (id, Stage.readExecution .getJob accepted) ∈ sys.pool → start ≤ id →
    accepted.id = row.jobId → accepted.dispatchId ≠ none

theorem step_watched (hsound : Sound (always limits) sys) (hok : Lasting (always limits) sys action)
    (hstep : sys.step action = some (sys', replied)) {start : Nat} {row : Execution}
    (hsettled : Settled (always limits) row) (h : Watched start row sys) :
    Watched start row sys' := by
  refine ⟨(step_settled hsound hok hstep h.kept hsettled).1, ?_⟩
  intro id accepted hentry hle hid
  rcases step_reading hstep hentry with hold | ⟨-, haccepted⟩
  · exact h.marked id accepted hold hle hid
  · simp [hsound.consistent.held row h.kept hsettled.2 accepted haccepted hid]

/-- The second read of a later `get_job` reports the settled status. -/
theorem Watched.reports (hsound : Sound (always limits) sys) {start : Nat} {row : Execution}
    (h : Watched start row sys) {id : Nat} {accepted : AcceptedJob}
    (hentry : (id, Stage.readExecution .getJob accepted) ∈ sys.pool) (hle : start ≤ id)
    (hid : accepted.id = row.jobId) :
    sys.store.results.readExecution accepted.id = .ok (some row) ∧
      (Job.fromAccepted accepted (some row)).status = row.status := by
  refine ⟨?_, fromAccepted_status (h.marked id accepted hentry hle hid) row⟩
  rw [hsound.consistent.readExecution rfl, hid]
  exact congrArg _ (Table.lookup_of_mem hsound.consistent.valid.jobs h.kept)

theorem observed_sound {events : List Replied}
    (h : System.Run (Observed limits) System.initial events sys) :
    Sound (always limits) sys ∧ Accounted sys ∧ Numbered sys :=
  lasting_invariant (h.mono fun _ _ hok => hok.1) initial_sound initial_accounted Numbered
    (by simp [Numbered, System.initial]) fun _ _ hnumbered _ hstep => step_numbered hstep hnumbered

/-- In a run whose reads meet the condition, once a `get_job` has reported a job as completed or
failed: no later claim returns the job, every later `get_job` of it reports the same status, and
none of them fails on its own. -/
theorem terminal_status_stable {sys'' : System} {events more : List Replied}
    (h : System.Run (Observed limits) System.initial events sys) (hok : Observed limits sys action)
    (hstep : sys.step action = some (sys', replied)) {id : Nat} {job : Job}
    (hreport : (id, Reply.job (.ok job)) ∈ replied)
    (hterminal : job.status = .completed ∨ job.status = .failed)
    (hmore : System.Run (Observed limits) sys' more sys'') :
    (∀ later ∈ more, returns job.id later = false ∧ ∀ id' job',
      (id', Reply.job (.ok job')) ∈ later → sys'.nextCall ≤ id' → job'.id = job.id →
        job'.status = job.status) ∧
    (∃ accepted, sys''.store.composedJob .getJob job.id = .wait (.readExecution .getJob accepted)) ∧
    ∀ id' accepted, (id', Stage.readExecution .getJob accepted) ∈ sys''.pool →
      sys'.nextCall ≤ id' → accepted.id = job.id → ∀ env, ∃ job', job'.status = job.status ∧
        sys''.store.advance env (.readExecution .getJob accepted) =
          (sys''.store, .done (.job (.ok job'))) := by
  obtain ⟨hsound, haccounted, hnumbered⟩ := observed_sound h
  obtain ⟨hstore, row, hrow, hid, hstatus, hsettled⟩ :=
    reported_settled hsound hok hstep hreport hterminal
  rw [← hid, ← hstatus]
  have hwatched : Watched sys'.nextCall row sys' := by
    refine ⟨hstore ▸ hrow, fun n accepted hentry hle => ?_⟩
    exact absurd (step_numbered hstep hnumbered _ hentry) (Nat.not_lt.mpr hle)
  have hall := hmore.events
    (fun sys => Sound (always limits) sys ∧ Accounted sys ∧ Watched sys'.nextCall row sys)
    (fun later => returns row.jobId later = false ∧ ∀ id' job',
      (id', Reply.job (.ok job')) ∈ later → sys'.nextCall ≤ id' → job'.id = row.jobId →
        job'.status = row.status)
    ⟨step_sound hsound (hok.1.careful haccounted) hstep, step_accounted hsound hok.1 hstep haccounted,
      hwatched⟩ ?step
  case step =>
    rintro sys sys₁ action replied ⟨hsound, haccounted, hwatched⟩ hok hstep
    refine ⟨⟨step_sound hsound (hok.1.careful haccounted) hstep, step_accounted hsound hok.1 hstep haccounted,
      step_watched hsound hok.1 hstep hsettled hwatched⟩,
      (step_settled hsound hok.1 hstep hwatched.kept hsettled).2, ?_⟩
    intro id' job' hreport hle hid'
    obtain ⟨env, i, accepted, execution, -, hcall, hread, rfl, -⟩ := step_reported hstep hreport
    rw [fromAccepted_id] at hid'
    obtain ⟨hread', hsame⟩ := hwatched.reports hsound (List.mem_of_getElem? hcall) hle hid'
    rw [hread', Except.ok.injEq] at hread
    rw [← hread, hsame]
  obtain ⟨⟨hsound'', haccounted'', hwatched''⟩, hevents⟩ := hall
  refine ⟨hevents, ?_, fun id' accepted hentry hle hid' env => ?_⟩
  · obtain ⟨accepted, haccepted⟩ :=
      acceptedRow_of_known (haccounted''.executions row hwatched''.kept)
    exact ⟨accepted, by rw [Store.composedJob, haccepted]⟩
  · obtain ⟨hread, hsame⟩ := hwatched''.reports hsound'' hentry hle hid'
    refine ⟨_, hsame, ?_⟩
    rw [Store.advance, hread]
    rfl

/-- A `get_job` between its reads of a job that has completed. -/
def readCompleted : System where
  store := mailStore [⟨1, "mail", [1], some "a0", 0, 1⟩]
    [⟨1, 1, "mail", .completed, 1, none, "a0", some [7], none, 1, 2⟩]
  phase := .serving
  pool := [(4, .readExecution .getJob ⟨1, "mail", [1], some "a0", 0, 1⟩)]
  nextCall := 5
  issued := [(1, "a0")]

def completedJob : Job :=
  ⟨1, "mail", .completed, [1], 1, none, some "a0", some [7], none, 0, 2⟩

theorem terminal_status_stable_completed :
    Runs.Reachable System.step (Observed fun _ => 2) System.initial readCompleted ∧
      readCompleted.step (.resume (.atTime 3) 0) =
        some ({ readCompleted with pool := [] }, [(4, .job (.ok completedJob))]) ∧
      returns 1 [(5, .claimed (.ok []))] = false := by
  obtain ⟨events, hrun⟩ :
      Runs.Reachable System.step (Observed fun _ => 2) System.initial readCompleted :=
    .of_exec (mailActions [⟨0, "mail", [1], none, 0, 0⟩] ++
      [mailClaim "a" 1 1, .resume (.atTime 1) 0,
        .complete (.atTime 2) [(⟨1, "a0", .succeeded [7]⟩, .completeWorkerResult)],
        .getJob 1]) (by decide)
  have hstep : readCompleted.step (.resume (.atTime 3) 0) =
      some ({ readCompleted with pool := [] }, [(4, .job (.ok completedJob))]) := by decide
  have hclaim : Runs.Run System.step (Observed fun _ => 2) { readCompleted with pool := [] }
      [[(5, .claimed (.ok []))]] { readCompleted with pool := [], nextCall := 6 } :=
    .of_exec (show Runs.exec System.step (Observed fun _ => 2) { readCompleted with pool := [] }
      [mailClaim "b" 4 1] = _ by decide)
  have hstable := terminal_status_stable hrun (by decide) hstep (List.mem_singleton_self _)
    (Or.inl rfl) hclaim
  exact ⟨⟨events, hrun⟩, hstep, (hstable.1 _ (List.mem_singleton_self _)).1⟩

/-- A `get_job` between its reads of a job whose failed attempt is not repended yet. -/
def readBeforeRepend : System where
  store := mailStore [⟨1, "mail", [1], some "a0", 0, 1⟩]
    [⟨1, 1, "mail", .failed, 1, none, "a0", none, some "no", 1, 2⟩]
  phase := .serving
  pool := [(4, .readExecution .getJob ⟨1, "mail", [1], some "a0", 0, 1⟩),
    (3, .rependCompleted .completeWorkerResult 1 "a0")]
  nextCall := 5
  issued := [(1, "a0")]

/-- The failed job is read as pending once its attempt is repended. -/
theorem failed_status_unstable :
    ¬∀ (sys sys' sys'' : System) (action : Action) (replied : Replied)
        (events more : List Replied) (id : Nat) (job : Job),
      System.Run (Lasting (always fun _ => 2)) System.initial events sys →
      Lasting (always fun _ => 2) sys action → sys.step action = some (sys', replied) →
      (id, Reply.job (.ok job)) ∈ replied → job.status = .completed ∨ job.status = .failed →
      System.Run (Lasting (always fun _ => 2)) sys' more sys'' →
      ∀ later ∈ more, returns job.id later = false ∧ ∀ id' job',
        (id', Reply.job (.ok job')) ∈ later → sys'.nextCall ≤ id' → job'.id = job.id →
          job'.status = job.status := by
  intro h
  obtain ⟨events, hrun⟩ :
      Runs.Reachable System.step (Lasting (always fun _ => 2)) System.initial readBeforeRepend :=
    .of_exec (mailActions [⟨0, "mail", [1], none, 0, 0⟩] ++
      [mailClaim "a" 1 1, .resume (.atTime 1) 0,
        .complete (.atTime 2) [(⟨1, "a0", .failed "no"⟩, .completeWorkerResult)],
        .getJob 1]) (by decide)
  have hstep : readBeforeRepend.step (.resume (.atTime 3) 0) =
      some ({ readBeforeRepend with pool := [(3, .rependCompleted .completeWorkerResult 1 "a0")] },
        [(4, .job (.ok ⟨1, "mail", .failed, [1], 1, none, some "a0", none, some "no", 0, 2⟩))]) := by
    decide
  have hmore : Runs.Run System.step (Lasting (always fun _ => 2))
      { readBeforeRepend with pool := [(3, .rependCompleted .completeWorkerResult 1 "a0")] }
      [[(3, .workerResult (.ok true))], [],
        [(5, .job (.ok ⟨1, "mail", .pending, [1], 1, none, some "a0", none, some "no", 0, 2⟩))]]
      { readBeforeRepend with
        store := mailStore [⟨1, "mail", [1], none, 0, 4⟩]
          [⟨1, 1, "mail", .failed, 1, none, "a0", none, some "no", 1, 2⟩]
        pool := [], nextCall := 6 } :=
    .of_exec (show Runs.exec System.step (Lasting (always fun _ => 2)) _
      [.resume (.atTime 4) 0, .getJob 1, .resume (.atTime 5) 0] = _ by decide)
  have hsame := (h _ _ _ _ _ _ _ _ _ hrun (by decide) hstep (List.mem_singleton_self _)
    (Or.inr rfl) hmore _ (List.mem_cons_of_mem _ (List.mem_cons_of_mem _
      (List.mem_singleton_self _)))).2 5 _ (List.mem_singleton_self _) (by decide) rfl
  cases hsame

end Maqistor
