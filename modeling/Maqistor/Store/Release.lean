import Maqistor.Store.Retries
import Maqistor.Store.Schema

/-! `release_claim` against the calls that end attempts. It reads the accepted row, abandons the
attempt and repends the job in three steps, and does not look at what the abandon has found. -/

namespace Maqistor

open ResultsConn IngestConn

/-- The stages of `complete`, `complete_worker_result` and `recover_stale_leases`. -/
def Stage.ends : Stage → Bool
  | .rependCompleted _ _ _ => true
  | .readAccepted _ => true
  | .readExecution .complete _ => true
  | .rependStale _ _ _ => true
  | .readStaleAccepted _ _ _ => true
  | .readStaleExecution _ _ _ => true
  | _ => false

def ending (sys : System) : Action → Bool
  | .complete _ _ => true
  | .recoverStaleLeases _ _ => true
  | .resume _ i =>
    match sys.pool[i]? with
    | some (_, stage) => stage.ends
    | none => false
  | _ => false

/-- A step of `complete`, `complete_worker_result` or `recover_stale_leases`. -/
def Ends (sys : System) (action : Action) : Prop := ending sys action = true

instance (sys : System) (action : Action) : Decidable (Ends sys action) :=
  inferInstanceAs (Decidable (_ = _))

/-- The attempt has ended with no retry left. -/
structure Finished (conn : ResultsConn) (key : Int × String) (row : Execution) : Prop where
  mem : row ∈ conn.executions
  key : row.key = key
  ended : row.status = .completed ∨ row.status = .failed ∧
    limitOf conn.executionQueues row.queueName < row.executionCount

/-- The job is marked with the attempt and no call owes its repend, or the attempt has failed with a
retry left. -/
def Unspent (key : Int × String) (sys : System) : Prop :=
  sys.store.carries key ∧ key ∉ collect Stage.retries sys.pool ∨
    ∃ row ∈ sys.store.results.executions, row.key = key ∧ row.status = .failed ∧
      row.executionCount ≤ limitOf sys.store.results.executionQueues row.queueName

variable {sys sys' : System} {action : Action} {replied : Replied}

theorem advance_retries_subset {stage : Stage} (hends : stage.ends = true) (env : Env)
    (store : Store) :
    (store.advance env stage).2.collect Stage.retries ⊆ stage.retries := by
  cases stage with
  | rependCompleted submitter jobId dispatchId =>
    cases submitter <;> exact List.nil_subset _
  | readAccepted jobId =>
    simp only [Store.advance, Store.composedJob]
    split <;> exact List.nil_subset _
  | readExecution reader accepted => exact List.nil_subset _
  | rependStale item rest jobs => exact List.subset_cons_self _ _
  | readStaleAccepted item rest jobs =>
    simp only [Store.advance]
    split
    · exact List.nil_subset _
    · exact List.Subset.refl _
  | readStaleExecution accepted rest jobs =>
    simp only [Store.advance]
    split
    · exact List.nil_subset _
    · rw [recoverItems_retries]
      exact List.Subset.refl _
  | _ => cases hends

/-- A repend of another attempt leaves the mark. -/
theorem Store.carries_repend {store : Store} {key other : Int × String} (env : Env)
    (h : store.carries key) (hne : other ≠ key) :
    (store.repend env other.1 other.2).carries key := by
  rw [Store.repend_eq]
  obtain ⟨job, hjob, hid, hdispatch⟩ := h
  refine ⟨_, List.mem_map_of_mem hjob, ?_⟩
  rcases rependRow_cases env.now (other.1, other.2) job with ⟨heq, -⟩ | ⟨hother, hsame, -⟩
  · rw [heq]
    exact ⟨hid, hdispatch⟩
  · refine absurd (Prod.ext (hother.symm.trans hid) ?_) hne
    exact Option.some.inj (hsame.symm.trans hdispatch)

/-- The later steps of these calls: reads, and repends that they owe. -/
theorem advance_ends {stage : Stage} (hends : stage.ends = true) (env : Env) (store : Store) :
    (store.advance env stage).1.results = store.results ∧
      ∀ key, key ∉ stage.retries → store.carries key →
        (store.advance env stage).1.carries key := by
  have hread : store.results = store.results ∧
      ∀ key, key ∉ stage.retries → store.carries key → store.carries key :=
    ⟨rfl, fun _ _ hcarries => hcarries⟩
  cases stage with
  | rependCompleted submitter jobId dispatchId =>
    have hne : ∀ key, key ∉ [(jobId, dispatchId)] → (jobId, dispatchId) ≠ key := by
      rintro _ hkey rfl
      exact hkey List.mem_cons_self
    cases submitter
    all_goals
      refine ⟨rfl, fun key hkey hcarries => ?_⟩
      have hcarried := Store.carries_repend env hcarries (hne key hkey)
      exact hcarried
  | rependStale item rest jobs =>
    refine ⟨rfl, fun key hkey hcarries => ?_⟩
    have hne : item.key ≠ key := by
      rintro rfl
      exact hkey List.mem_cons_self
    have hcarried := Store.carries_repend env hcarries hne
    exact hcarried
  | readStaleAccepted item rest jobs =>
    simp only [Store.advance]
    split <;> exact hread
  | readStaleExecution accepted rest jobs =>
    simp only [Store.advance]
    split <;> exact hread
  | readAccepted jobId => exact hread
  | readExecution reader accepted => exact hread
  | _ => cases hends

/-- A rewrite that finishes rows keeps the ones that do not run. -/
theorem Writer.Finishes.mem_of_not_running {f : Execution → Execution} (hf : Writer.Finishes f)
    {executions : List Execution} {row : Execution} (hrow : row ∈ executions)
    (h : row.status ≠ .running) : row ∈ executions.map f := by
  rcases hf row with heq | ⟨hrunning, -⟩
  · exact List.mem_map.mpr ⟨row, hrow, heq⟩
  · exact absurd hrunning h

/-- New calls after a commit that finishes attempts and makes some repends due. -/
theorem Unspent.finish {key : Int × String} (h : Unspent key sys) {f : Execution → Execution}
    (hf : Writer.Finishes f) {progress : List Progress} (issued : List (Int × String))
    (hdue : key ∈ progress.flatMap (Progress.collect Stage.retries) →
      FailsAgain sys.store.results f key) :
    Unspent key { (sys.enter { sys.store with results := { sys.store.results with
      executions := sys.store.results.executions.map f } } progress).1 with issued := issued } := by
  rcases h with ⟨hcarries, hnone⟩ | ⟨row, hrow, hkey, hfailed, hle⟩
  · by_cases hnew : key ∈ progress.flatMap (Progress.collect Stage.retries)
    · obtain ⟨row, hrow, hkey, -, hle, now, message, hafter⟩ := hdue hnew
      refine Or.inr ⟨f row, List.mem_map_of_mem hrow, ?_, hafter ▸ rfl, ?_⟩
      · rw [hf.keeps Execution.key fun _ _ _ => finished_key _ _ _]
        exact hkey
      · rw [hf.keeps Execution.executionCount fun _ _ _ => finished_executionCount _ _ _,
          hf.keeps Execution.queueName fun _ _ _ => finished_queueName _ _ _]
        exact hle
    · refine Or.inl ⟨hcarries, fun hmem => ?_⟩
      rw [collect_enter, List.mem_append] at hmem
      exact hmem.elim hnew hnone
  · exact Or.inr ⟨row, hf.mem_of_not_running hrow (by simp [hfailed]), hkey, hfailed, hle⟩

/-- A call that goes on: it drops retries of its own at most, and repends no other attempt. -/
theorem Unspent.resume {key : Int × String} (h : Unspent key sys) {i id : Nat} {stage : Stage}
    (hentry : sys.pool[i]? = some (id, stage)) (hends : stage.ends = true) (env : Env) :
    Unspent key (sys.proceed i id (sys.store.advance env stage).1
      (sys.store.advance env stage).2).1 := by
  obtain ⟨hresults, hmarks⟩ := advance_ends hends env sys.store
  rcases h with ⟨hcarries, hnone⟩ | hfailed
  · have howed := fun {other} => mem_collect_iff Stage.retries hentry (x := other)
    refine Or.inl ⟨hmarks key (fun hmem => hnone ?_) hcarries, fun hmem => hnone ?_⟩
    · exact howed.mpr (Or.inl hmem)
    · rw [collect_proceed, List.mem_append] at hmem
      refine howed.mpr (hmem.imp_left fun hmem => ?_)
      exact advance_retries_subset hends env sys.store hmem
  · right
    simp only [System.proceed, hresults]
    exact hfailed

/-- One step of these calls: running attempts may end, the limits stay, and a job marked with an
attempt keeps the mark unless the attempt fails with a retry left. -/
theorem ends_step (hformed : sys.store.WellFormed) (hends : Ends sys action)
    (hstep : sys.step action = some (sys', replied)) :
    sys'.store.results.executionQueues = sys.store.results.executionQueues ∧
      (∀ row ∈ sys.store.results.executions, row.status ≠ .running →
        row ∈ sys'.store.results.executions) ∧
      ∀ key, Unspent key sys → Unspent key sys' := by
  cases step_moves hstep with
  | start issued hphase hstart =>
    cases action with
    | complete env batch =>
      obtain ⟨dispositions, heq, hperm, -⟩ := Store.completeBatch_eq env batch hformed.valid
      rw [Store.start, heq] at hstart
      obtain ⟨rfl, rfl⟩ := eq_of_some_eq hstart
      have hf := Writer.finishes_batchRow env (batch.map Prod.fst)
      exact ⟨rfl, fun row hrow hended => hf.mem_of_not_running hrow hended,
        fun key hunspent => hunspent.finish hf issued (completed_failsAgain hperm)⟩
    | recoverStaleLeases choice now =>
      rcases Store.recoverStaleLeases_cases choice now hformed.valid with
        ⟨error, heq⟩ | ⟨recovered, heq, hreports⟩
      · rw [Store.start, heq] at hstart
        obtain ⟨rfl, rfl⟩ := eq_of_some_eq hstart
        exact ⟨rfl, fun row hrow _ => hrow, fun key hunspent => hunspent⟩
      · rw [Store.start, heq] at hstart
        obtain ⟨rfl, rfl⟩ := eq_of_some_eq hstart
        have hf := Writer.finishes_recoverRow now
        refine ⟨rfl, fun row hrow hended => hf.mem_of_not_running hrow hended,
          fun key hunspent => hunspent.finish hf issued fun hkey => ?_⟩
        rw [List.flatMap_singleton] at hkey
        exact recovered_failsAgain hreports hkey
    | resume env i => cases hstart
    | _ => cases hends
  | @resume i id stage env hphase hentry =>
    have hstage : stage.ends = true := by simpa only [Ends, ending, hentry] using hends
    obtain ⟨hresults, -⟩ := advance_ends hstage env sys.store
    refine ⟨?_, fun row hrow _ => ?_, fun key hunspent => hunspent.resume hentry hstage env⟩
    · simp only [System.proceed, hresults]
    · simp only [System.proceed, hresults]
      exact hrow
  | _ => cases hends

theorem ends_run {events : List Replied} (h : System.Run Ends sys events sys')
    (hformed : sys.store.WellFormed) :
    sys'.store.WellFormed ∧
      sys'.store.results.executionQueues = sys.store.results.executionQueues ∧
      (∀ row ∈ sys.store.results.executions, row.status ≠ .running →
        row ∈ sys'.store.results.executions) ∧
      ∀ key, Unspent key sys → Unspent key sys' := by
  induction h with
  | refl => exact ⟨hformed, rfl, fun _ hrow _ => hrow, fun _ hunspent => hunspent⟩
  | step _ hends hstep ih =>
    obtain ⟨hformed', hqueues, hrows, hunspent⟩ := ih
    obtain ⟨hqueues', hrows', hunspent'⟩ := ends_step hformed' hends hstep
    exact ⟨step_wellFormed hformed' hstep, hqueues'.trans hqueues,
      fun row hrow hended => hrows' row (hrows row hrow hended) hended,
      fun key hkey => hunspent' key (hunspent key hkey)⟩

theorem Finished.not_running {conn : ResultsConn} {key : Int × String} {row : Execution}
    (h : Finished conn key row) : row.status ≠ .running := by
  rcases h.ended with hstatus | ⟨hstatus, -⟩ <;> simp [hstatus]

/-- The job of a finished attempt keeps the mark, and nobody owes a repend. -/
theorem Unspent.marked {key : Int × String} (h : Unspent key sys)
    (hformed : sys.store.WellFormed) {row : Execution}
    (hfinished : Finished sys.store.results key row) :
    sys.store.carries key ∧ key ∉ collect Stage.retries sys.pool := by
  rcases h with hmarked | ⟨other, hother, hkey, hfailed, hle⟩
  · exact hmarked
  · have hjob : other.jobId = row.jobId := congrArg Prod.fst (hkey.trans hfinished.key.symm)
    obtain rfl := List.inj_on_of_nodup_map hformed.valid.jobs hother hfinished.mem hjob
    rcases hfinished.ended with hcompleted | ⟨-, hlt⟩
    · simp [hcompleted] at hfailed
    · exact absurd hle (Int.not_le.mpr hlt)

/-- The read of `release_claim` goes on only when the job is marked with the attempt. -/
theorem releaseClaim_carries {store : Store} {jobId : Int} {dispatchId : String}
    (h : store.releaseClaim jobId dispatchId = .wait (.abandon jobId dispatchId)) :
    store.carries (jobId, dispatchId) := by
  unfold Store.releaseClaim at h
  split at h
  · cases h
  · next accepted haccepted =>
    split at h
    · next hsame =>
      unfold IngestConn.acceptedRow at haccepted
      split at haccepted
      · cases haccepted
      · next hlookup =>
        obtain rfl := Except.ok.inj haccepted
        exact ⟨_, Table.mem_of_lookup hlookup, Table.key_of_lookup hlookup, hsame⟩
    · cases h

/-- The abandon of an attempt that has finished changes nothing that matters here. -/
theorem abandon_step {i id : Nat} {env : Env} (key : Int × String)
    (hformed : sys.store.WellFormed) (hentry : sys.pool[i]? = some (id, .abandon key.1 key.2))
    (hstep : sys.step (.resume env i) = some (sys', replied)) {row : Execution}
    (hfinished : Finished sys.store.results key row) (h : Unspent key sys) :
    Finished sys'.store.results key row ∧ Unspent key sys' := by
  obtain ⟨hcarries, hnone⟩ := h.marked hformed hfinished
  cases step_moves hstep with
  | start issued hphase hstart => cases hstart
  | resume _ hphase hcall =>
    obtain ⟨rfl, rfl⟩ := Prod.mk.inj (Option.some.inj (hentry.symm.trans hcall))
    have hmem := (Writer.finishes_abandonRow env.now key).mem_of_not_running hfinished.mem
      hfinished.not_running
    refine ⟨⟨hmem, hfinished.key, hfinished.ended⟩, Or.inl ⟨hcarries, fun hmem => hnone ?_⟩⟩
    rw [collect_proceed] at hmem
    exact (mem_collect_iff Stage.retries hentry).mpr (Or.inr hmem)

/-- The repend of `release_claim`. -/
theorem released_step {i id : Nat} {env : Env} (key : Int × String)
    (hentry : sys.pool[i]? = some (id, .rependReleased key.1 key.2))
    (hstep : sys.step (.resume env i) = some (sys', replied)) :
    sys'.store = sys.store.repend env key.1 key.2 := by
  cases step_moves hstep with
  | start issued hphase hstart => cases hstart
  | resume _ hphase hcall =>
    obtain ⟨rfl, rfl⟩ := Prod.mk.inj (Option.some.inj (hentry.symm.trans hcall))
    rfl

/-- The accepted row of a job has the same `dispatch_id` in two stores. -/
def SameMark (jobId : Int) (store store' : Store) : Prop :=
  ∀ job ∈ store.ingest.acceptedJobs, job.id = jobId →
    ∃ job' ∈ store'.ingest.acceptedJobs, job'.id = jobId ∧ job'.dispatchId = job.dispatchId

theorem sameMark_repend_iff (env : Env) (key : Int × String) (store : Store) :
    SameMark key.1 store (store.repend env key.1 key.2) ↔ ¬store.carries key := by
  constructor
  · rintro hsame ⟨job, hjob, hid, hdispatch⟩
    obtain ⟨job', hjob', hid', hdispatch'⟩ := hsame job hjob hid
    exact Store.not_carries_repend env key store ⟨job', hjob', hid', hdispatch'.trans hdispatch⟩
  · intro hfree job hjob hid
    rw [Store.repend_eq]
    refine ⟨_, List.mem_map_of_mem hjob, (rependRow_id _ _ _).trans hid, ?_⟩
    rcases rependRow_cases env.now (key.1, key.2) job with ⟨heq, -⟩ | ⟨-, hsame, -⟩
    · rw [heq]
    · exact absurd ⟨job, hjob, hid, hsame⟩ hfree

/-- A repend frees the job that is marked with the attempt. -/
theorem repend_frees {store : Store} (hformed : store.WellFormed) {key : Int × String}
    (h : store.carries key) (env : Env) :
    ∀ job ∈ (store.repend env key.1 key.2).ingest.acceptedJobs, job.id = key.1 →
      job.dispatchId = none := by
  rw [Store.repend_eq]
  intro job' hjob' hid'
  obtain ⟨job, hjob, rfl⟩ := List.mem_map.mp hjob'
  obtain ⟨other, hother, hid, hdispatch⟩ := h
  rw [rependRow_id] at hid'
  obtain rfl := List.inj_on_of_nodup_map hformed.ids hjob hother (hid'.trans hid.symm)
  rw [rependRow, if_pos ⟨hid, hdispatch⟩]
  rfl

/-- `release_claim` of an attempt that has finished when its abandon runs, among steps of
`complete`, `complete_worker_result` and `recover_stale_leases`: it leaves the `dispatch_id` of the
accepted row as it is if and only if the row no longer carries the attempt before its repend. Unless
a call owed that repend already at its read, the row does carry it, and the job becomes
claimable. -/
theorem release_leaves_mark_iff {admits : System → Action → Prop}
    {start read ready abandoned due released : System}
    {events before after : List Replied} {replied₁ replied₂ replied₃ : Replied} {env₁ env₂ : Env}
    {i₁ i₂ : Nat} {jobId : Int} {dispatchId : String}
    (h : System.Run admits System.initial events start)
    (hread : start.step (.releaseClaim jobId dispatchId) = some (read, replied₁))
    (hpasses : start.store.releaseClaim jobId dispatchId = .wait (.abandon jobId dispatchId))
    (hbefore : System.Run Ends read before ready)
    (habandon : ready.pool[i₁]? = some (start.nextCall, .abandon jobId dispatchId))
    (habandoned : ready.step (.resume env₁ i₁) = some (abandoned, replied₂))
    (hfinished : ∃ row, Finished ready.store.results (jobId, dispatchId) row)
    (hafter : System.Run Ends abandoned after due)
    (hrepend : due.pool[i₂]? = some (start.nextCall, .rependReleased jobId dispatchId))
    (hreleased : due.step (.resume env₂ i₂) = some (released, replied₃)) :
    (SameMark jobId due.store released.store ↔ ¬due.store.carries (jobId, dispatchId)) ∧
      ((jobId, dispatchId) ∉ collect Stage.retries read.pool →
        due.store.carries (jobId, dispatchId) ∧
          ∀ job ∈ released.store.ingest.acceptedJobs, job.id = jobId → job.dispatchId = none) := by
  have hreleasedStore : released.store = due.store.repend env₂ jobId dispatchId :=
    released_step (jobId, dispatchId) hrepend hreleased
  rw [hreleasedStore]
  refine ⟨sameMark_repend_iff env₂ (jobId, dispatchId) due.store, fun hnone => ?_⟩
  have hformed := step_wellFormed (run_wellFormed h initial_wellFormed) hread
  have hcarries : read.store.carries (jobId, dispatchId) := by
    cases step_moves hread with
    | start issued hphase hstart =>
      obtain ⟨rfl, -⟩ := eq_of_some_eq hstart
      exact releaseClaim_carries hpasses
  obtain ⟨row, hfinished⟩ := hfinished
  obtain ⟨hformed₁, -, -, hunspent₁⟩ := ends_run hbefore hformed
  obtain ⟨hfinished₂, hunspent₂⟩ := abandon_step (jobId, dispatchId) hformed₁ habandon
    habandoned hfinished (hunspent₁ _ (Or.inl ⟨hcarries, hnone⟩))
  obtain ⟨hformed₃, hqueues, hrows, hunspent₃⟩ :=
    ends_run hafter (step_wellFormed hformed₁ habandoned)
  have hfinished₃ : Finished due.store.results (jobId, dispatchId) row :=
    ⟨hrows row hfinished₂.mem hfinished₂.not_running, hfinished₂.key, hqueues ▸ hfinished₂.ended⟩
  obtain ⟨hmarked, -⟩ := (hunspent₃ _ hunspent₂).marked hformed₃ hfinished₃
  exact ⟨hmarked, repend_frees hformed₃ hmarked env₂⟩

/-- A job that has completed and that `release_claim` is given. -/
def completedMail : System where
  store := mailStore [⟨1, "mail", [1], some "a0", 0, 1⟩]
    [⟨1, 1, "mail", .completed, 1, none, "a0", some [7], none, 1, 2⟩]
  phase := .serving
  pool := []
  nextCall := 4
  issued := [(1, "a0")]

/-- The same after the read and after the abandon of the call. -/
def completedMailReleasing (stage : Stage) : System :=
  { completedMail with pool := [(4, stage)], nextCall := 5 }

/-- The same after the repend: the job may be claimed again. -/
def completedMailReleased : System :=
  { completedMail with
    store := mailStore [⟨1, "mail", [1], none, 0, 5⟩]
      [⟨1, 1, "mail", .completed, 1, none, "a0", some [7], none, 1, 2⟩]
    nextCall := 5 }

def completedMailActions : List Action :=
  mailActions [⟨0, "mail", [1], none, 0, 0⟩] ++ [mailClaim "a" 1 1, .resume (.atTime 1) 0,
    .complete (.atTime 2) [(⟨1, "a0", .succeeded [7]⟩, .completeWorkerResult)]]

theorem completedMail_reachable :
    Runs.Reachable System.step (fun _ _ => True) System.initial completedMail :=
  .of_exec completedMailActions (by decide)

theorem completedMail_read : completedMail.step (.releaseClaim 1 "a0") =
    some (completedMailReleasing (.abandon 1 "a0"), []) := by decide

theorem completedMail_abandon :
    (completedMailReleasing (.abandon 1 "a0")).step (.resume (.atTime 4) 0) =
      some (completedMailReleasing (.rependReleased 1 "a0"), []) := by decide

theorem completedMail_repend :
    (completedMailReleasing (.rependReleased 1 "a0")).step (.resume (.atTime 5) 0) =
      some (completedMailReleased, [(4, .released (.ok true))]) := by decide

theorem release_leaves_mark_iff_completed :
    Runs.Reachable System.step (fun _ _ => True) System.initial completedMail ∧
      (SameMark 1 (completedMailReleasing (.rependReleased 1 "a0")).store
          completedMailReleased.store ↔
        ¬(completedMailReleasing (.rependReleased 1 "a0")).store.carries (1, "a0")) ∧
      ∀ job ∈ completedMailReleased.store.ingest.acceptedJobs, job.id = 1 →
        job.dispatchId = none := by
  obtain ⟨events, hrun⟩ := completedMail_reachable
  have hreleased := release_leaves_mark_iff hrun completedMail_read (by decide) (Runs.Run.refl _) rfl
    completedMail_abandon ⟨_, List.mem_singleton_self _, rfl, Or.inl rfl⟩ (Runs.Run.refl _) rfl
    completedMail_repend
  exact ⟨⟨events, hrun⟩, hreleased.1, (hreleased.2 (by decide)).2⟩

theorem release_resurrects_completed :
    ¬∀ (start read ready abandoned due released : System) (events before after : List Replied)
        (replied₁ replied₂ replied₃ : Replied) (env₁ env₂ : Env) (i₁ i₂ : Nat) (jobId : Int)
        (dispatchId : String),
      System.Run (fun _ _ => True) System.initial events start →
      start.step (.releaseClaim jobId dispatchId) = some (read, replied₁) →
      start.store.releaseClaim jobId dispatchId = .wait (.abandon jobId dispatchId) →
      System.Run Ends read before ready →
      ready.pool[i₁]? = some (start.nextCall, .abandon jobId dispatchId) →
      ready.step (.resume env₁ i₁) = some (abandoned, replied₂) →
      (∃ row, Finished ready.store.results (jobId, dispatchId) row) →
      System.Run Ends abandoned after due →
      due.pool[i₂]? = some (start.nextCall, .rependReleased jobId dispatchId) →
      due.step (.resume env₂ i₂) = some (released, replied₃) →
      SameMark jobId due.store released.store := by
  intro h
  obtain ⟨events, hrun⟩ := completedMail_reachable
  obtain ⟨job, hjob, -, hdispatch⟩ := h _ _ _ _ _ _ _ _ _ _ _ _ _ _ _ _ _ _ hrun
    completedMail_read (by decide) (Runs.Run.refl _) rfl completedMail_abandon
    ⟨_, List.mem_singleton_self _, rfl, Or.inl rfl⟩ (Runs.Run.refl _) rfl completedMail_repend _
    (List.mem_singleton_self _) rfl
  obtain rfl := List.mem_singleton.mp hjob
  cases hdispatch

end Maqistor
