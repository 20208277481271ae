import Maqistor.Store.Agreement
import Maqistor.Store.Reads

/-! Retries that calls in flight owe: a failed attempt with retries left whose job is still marked
with it stays with some call, until a crash or a reported error takes the call away. -/

namespace Maqistor

open ResultsConn IngestConn

/-- Some accepted job is marked with the attempt. -/
def Store.carries (store : Store) (key : Int × String) : Prop :=
  ∃ job ∈ store.ingest.acceptedJobs, job.id = key.1 ∧ job.dispatchId = some key.2

instance (store : Store) (key : Int × String) : Decidable (store.carries key) :=
  inferInstanceAs (Decidable (∃ job ∈ store.ingest.acceptedJobs, _))

theorem Store.not_carries_repend (env : Env) (key : Int × String) (store : Store) :
    ¬(store.repend env key.1 key.2).carries key := by
  rw [Store.repend_eq]
  rintro ⟨job', hjob', hid, hdispatch⟩
  obtain ⟨job, -, rfl⟩ := List.mem_map.mp hjob'
  rcases rependRow_cases env.now key job with ⟨heq, hother⟩ | ⟨-, -, heq⟩
  · rw [heq] at hid hdispatch
    exact hother ⟨hid, hdispatch⟩
  · rw [heq] at hdispatch
    cases hdispatch

/-- The retries that calls give up: all of them in a crash, and those of one call when its database
reports an error. -/
def dropped (sys : System) : Action → List (Int × String)
  | .crash => collect Stage.retries sys.pool
  | .fault _ i =>
    match sys.pool[i]? with
    | some (_, stage) => stage.retries
    | none => []
  | _ => []

/-- Nothing is given up that an accepted job is still marked with. -/
def KeepsRetries (sys : System) (action : Action) : Prop :=
  ∀ key ∈ dropped sys action, ¬sys.store.carries key

instance (sys : System) (action : Action) : Decidable (KeepsRetries sys action) :=
  inferInstanceAs (Decidable (∀ key ∈ dropped sys action, _))

variable {pinned : String → Option UInt32} {sys sys' : System} {action : Action}
  {replied : Replied}

/-! ### The loop of `recover_stale_leases` reads on -/

theorem acceptedRow_of_known {store : Store} {jobId : Int}
    (h : ∃ job ∈ store.ingest.acceptedJobs, job.id = jobId) :
    ∃ accepted, store.ingest.acceptedRow jobId = .ok accepted := by
  unfold IngestConn.acceptedRow
  cases hlookup : Table.lookup AcceptedJob.id jobId store.ingest.acceptedJobs with
  | none =>
    obtain ⟨job, hjob, hid⟩ := h
    exact absurd hid (Table.lookup_eq_none.mp hlookup job hjob)
  | some row => exact ⟨row, rfl⟩

theorem readExecution_of_fits {conn : ResultsConn} {jobId : Int}
    (h : ∀ row ∈ conn.executions, 1 ≤ row.executionCount ∧ row.executionCount < 4294967296) :
    conn.readExecution jobId = .ok (Table.lookup Execution.jobId jobId conn.executions) := by
  cases hlookup : Table.lookup Execution.jobId jobId conn.executions with
  | none => rw [ResultsConn.readExecution, ResultsConn.execution, hlookup]
  | some row =>
    obtain ⟨hpos, hfits⟩ := h row (Table.mem_of_lookup hlookup)
    have hcount : FitsU32 row.executionCount := ⟨by omega, hfits⟩
    exact ResultsConn.readExecution_of_lookup hlookup hcount

theorem Consistent.readExecution {s : Snapshot} {conn : ResultsConn} (h : Consistent pinned s)
    (hconn : s.executions = conn.executions) (jobId : Int) :
    conn.readExecution jobId = .ok (Table.lookup Execution.jobId jobId conn.executions) :=
  readExecution_of_fits fun row hrow =>
    ⟨(h.counted row (hconn ▸ hrow)).1, (h.counted row (hconn ▸ hrow)).2.1⟩

/-- The jobs of the leases that calls go through are accepted. -/
def Recovering (sys : System) : Prop :=
  ∀ item ∈ collect Stage.stale sys.pool, ∃ job ∈ sys.store.ingest.acceptedJobs,
    job.id = item.jobId

/-- New calls go through leases of executions only. -/
theorem start_stale {store store' : Store} {progress : List Progress}
    (hvalid : Valid store.results.executionQueues store.results.executions)
    (h : store.start action = some (store', progress)) {item : RecoveredStale}
    (hitem : item ∈ progress.flatMap (Progress.collect Stage.stale)) :
    ∃ row ∈ store.results.executions, row.jobId = item.jobId := by
  obtain ⟨first, hfirst, hitem⟩ := List.mem_flatMap.mp hitem
  rcases start_cases h hfirst with hquiet | ⟨jobId, -, rfl⟩ | ⟨choice, now, -, rfl⟩
  · rw [hquiet.stale] at hitem
    cases hitem
  · rw [composedJob_stale] at hitem
    cases hitem
  · rcases Store.recoverStaleLeases_cases choice now hvalid with
      ⟨error, heq⟩ | ⟨recovered, heq, hreports⟩
    · rw [heq] at hitem
      cases hitem
    · rw [heq, recoverItems_stale] at hitem
      obtain ⟨row, hrow, -, rfl⟩ := (hreports item).mp hitem
      exact ⟨row, hrow, rfl⟩

theorem advance_stale (env : Env) (store : Store) (stage : Stage) :
    (store.advance env stage).2.collect Stage.stale ⊆ stage.stale := by
  have hnone : ∀ {progress : Progress}, progress.collect Stage.stale = [] →
      progress.collect Stage.stale ⊆ stage.stale :=
    fun h => h ▸ List.nil_subset _
  cases stage with
  | upsertResults queue =>
    apply hnone
    simp only [Store.advance]
    split <;> rfl
  | dispatch claimed claimedAt =>
    apply hnone
    rw [Store.advance, Store.dispatch]
    split
    · exact (undoClaims_quiet _ _).stale
    · rfl
  | undoClaim row rest error => exact hnone (undoClaims_quiet _ _).stale
  | rependCompleted submitter jobId dispatchId => cases submitter <;> exact hnone rfl
  | readAccepted jobId => exact hnone (composedJob_stale _ _ _)
  | readStaleAccepted item rest jobs =>
    simp only [Store.advance]
    split
    · exact hnone rfl
    · exact List.subset_cons_self _ _
  | readStaleExecution accepted rest jobs =>
    simp only [Store.advance]
    split
    · exact hnone rfl
    · rw [recoverItems_stale]
      exact List.Subset.refl _
  | rependStale item rest jobs => exact List.Subset.refl _
  | _ => exact hnone rfl

theorem step_recovering (hsound : Sound pinned sys) (haccounted : Accounted sys)
    (hok : Lasting pinned sys action) (hstep : sys.step action = some (sys', replied))
    (h : Recovering sys) : Recovering sys' := by
  intro item hitem
  apply step_accepted hsound hok hstep
  have hpool : ∀ {i id : Nat} {stage : Stage} (store : Store) {progress : Progress},
      sys.pool[i]? = some (id, stage) → progress.collect Stage.stale ⊆ stage.stale →
      item ∈ collect Stage.stale (sys.proceed i id store progress).1.pool →
      item ∈ collect Stage.stale sys.pool := by
    intro i id stage store progress hentry hsub hmem
    rw [collect_proceed, List.mem_append] at hmem
    exact (mem_collect_iff Stage.stale hentry).mpr (hmem.imp_left fun hmem => hsub hmem)
  cases step_moves hstep with
  | start issued hphase hstart =>
    rw [collect_enter, List.mem_append] at hitem
    rcases hitem with hnew | hold
    · obtain ⟨row, hrow, hid⟩ := start_stale hsound.consistent.valid hstart hnew
      exact hid ▸ haccounted.executions row hrow
    · exact h item hold
  | resume env hphase hentry => exact h item (hpool _ hentry (advance_stale _ _ _) hitem)
  | fault error hphase hentry =>
    exact h item (hpool _ hentry ((faulted_quiet error _).stale ▸ List.nil_subset _) hitem)
  | crash hphase => cases hitem
  | _ => exact h item hitem

/-! ### A retry is carried out or stays owed -/

theorem advance_retries (hsound : Sound pinned sys) (hrecovering : Recovering sys) {i id : Nat}
    {stage : Stage} (hentry : sys.pool[i]? = some (id, stage)) (env : Env) {key : Int × String}
    (hkey : key ∈ stage.retries) :
    key ∈ (sys.store.advance env stage).2.collect Stage.retries ∨
      ¬(sys.store.advance env stage).1.carries key := by
  cases stage with
  | rependCompleted submitter jobId dispatchId =>
    obtain rfl := List.mem_singleton.mp hkey
    right
    cases submitter <;> exact Store.not_carries_repend env (jobId, dispatchId) _
  | rependStale item rest jobs =>
    rcases List.mem_cons.mp hkey with rfl | hkey
    · exact Or.inr (Store.not_carries_repend env item.key _)
    · exact Or.inl hkey
  | readStaleAccepted item rest jobs =>
    have hitem : item ∈ collect Stage.stale sys.pool :=
      (mem_collect_iff Stage.stale hentry).mpr (Or.inl List.mem_cons_self)
    obtain ⟨accepted, haccepted⟩ := acceptedRow_of_known (hrecovering item hitem)
    simp only [Store.advance, haccepted]
    exact Or.inl hkey
  | readStaleExecution accepted rest jobs =>
    simp only [Store.advance, hsound.consistent.readExecution rfl]
    rw [recoverItems_retries]
    exact Or.inl hkey
  | _ => cases hkey

/-- A retry that is owed stays owed, or is given up, or no job is marked with it any more. -/
theorem step_retries (hsound : Sound pinned sys) (hrecovering : Recovering sys)
    (hstep : sys.step action = some (sys', replied)) {key : Int × String}
    (hkey : key ∈ collect Stage.retries sys.pool) :
    key ∈ collect Stage.retries sys'.pool ∨ key ∈ dropped sys action ∨
      ¬sys'.store.carries key := by
  cases step_moves hstep with
  | start issued hphase hstart =>
    left
    rw [collect_enter]
    exact List.mem_append_right _ hkey
  | resume env hphase hentry =>
    rw [collect_proceed, List.mem_append]
    rcases (mem_collect_iff Stage.retries hentry).mp hkey with hkey | hkey
    · exact (advance_retries hsound hrecovering hentry env hkey).imp Or.inl Or.inr
    · exact Or.inl (Or.inr hkey)
  | fault error hphase hentry =>
    rw [collect_proceed, List.mem_append]
    rcases (mem_collect_iff Stage.retries hentry).mp hkey with hkey | hkey
    · right
      left
      simpa only [dropped, hentry] using hkey
    · exact Or.inl (Or.inr hkey)
  | crash hphase => exact Or.inr (Or.inl hkey)
  | _ => exact Or.inl hkey

/-- All limits are pinned. -/
def always (limits : String → UInt32) (name : String) : Option UInt32 := some (limits name)

/-- A failed attempt with retries left whose job is marked with it is owed its repend. -/
def Owing (limits : String → UInt32) (sys : System) : Prop :=
  ∀ row ∈ sys.store.results.executions, Again (always limits) row → sys.store.carries row.key →
    row.key ∈ collect Stage.retries sys.pool

variable {limits : String → UInt32}

theorem Consistent.limitOf_eq {s : Snapshot} (h : Consistent (always limits) s) {row : Execution}
    (hrow : row ∈ s.executions) : limitOf s.queues row.queueName = (limits row.queueName).toNat := by
  unfold limitOf
  cases hlookup : Table.lookup JobQueue.name row.queueName s.queues with
  | none =>
    obtain ⟨queue, hqueue, hname⟩ := List.mem_map.mp (h.valid.queues row hrow)
    exact absurd hname (Table.lookup_eq_none.mp hlookup queue hqueue)
  | some queue =>
    have hname : queue.name = row.queueName := Table.key_of_lookup hlookup
    have hlimit := h.limits queue (List.mem_append_left _ (Table.mem_of_lookup hlookup))
      (limits queue.name) rfl
    simp [hlimit, hname]

theorem step_owing (hsound : Sound (always limits) sys) (haccounted : Accounted sys)
    (hrecovering : Recovering sys) (hok : Lasting (always limits) sys action)
    (hkeeps : KeepsRetries sys action) (hstep : sys.step action = some (sys', replied))
    (h : Owing limits sys) : Owing limits sys' := by
  have hsound' := step_sound hsound (hok.careful haccounted) hstep
  -- What was owed before the step for an attempt that the job keeps.
  have hold : ∀ row ∈ sys.store.results.executions, Again (always limits) row →
      sys.store.carries row.key → sys'.store.carries row.key →
      row.key ∈ collect Stage.retries sys'.pool := by
    intro row hrow hagain hcarries hcarries'
    rcases step_retries hsound hrecovering hstep (h row hrow hagain hcarries) with
      howed | hdropped | hfree
    · exact howed
    · exact absurd hcarries (hkeeps _ hdropped)
    · exact absurd hcarries' hfree
  intro row hrow hagain hcarries
  cases step_effect hsound hok.1 hstep with
  | rewrite f hf haccepted hexecutions =>
    rw [hexecutions] at hrow
    refine hold row hrow hagain ?_ hcarries
    obtain ⟨job', hjob', hid, hdispatch⟩ := hcarries
    obtain ⟨job, hjob, rfl⟩ := List.mem_map.mp (haccepted ▸ hjob')
    rcases hf.marks job _ hdispatch with hsame | hnew
    · exact ⟨job, hjob, (hf.id job).symm.trans hid, hsame⟩
    · exact absurd (List.mem_map_of_mem (hsound.consistent.executed row hrow)) hnew
  | enqueue jobs haccepted hexecutions =>
    rw [hexecutions] at hrow
    refine hold row hrow hagain ?_ hcarries
    obtain ⟨job, hjob, hid, hdispatch⟩ := hcarries
    rw [haccepted, List.mem_append] at hjob
    rcases hjob with hjob | hjob
    · exact ⟨job, hjob, hid, hdispatch⟩
    · obtain ⟨_, -, rfl⟩ := List.mem_map.mp hjob
      cases hdispatch
  | finish f hf haccepted hexecutions hdue =>
    obtain ⟨before, hbefore, rfl⟩ := List.mem_map.mp (hexecutions ▸ hrow)
    have hcarriesBefore : sys.store.carries (f before).key := by
      rwa [Store.carries, ← haccepted]
    rcases hf before with hsame | ⟨hrunning, now, outcome, hfinished⟩
    · rw [hsame] at hagain hcarries hcarriesBefore ⊢
      exact hold before hbefore hagain hcarriesBefore hcarries
    · rw [hf.keeps Execution.key fun _ _ _ => finished_key _ _ _]
      apply hdue before hbefore hrunning hagain.1
      have hle := hagain.2 (limits (f before).queueName) rfl
      rw [hf.keeps Execution.executionCount fun _ _ _ => finished_executionCount _ _ _,
        hf.keeps Execution.queueName fun _ _ _ => finished_queueName _ _ _] at hle
      exact hsound.consistent.limitOf_eq hbefore ▸ hle
  | dispatch now claimedAt id claimed returned jobs haccepted hspec =>
    have hcarriesBefore : sys.store.carries row.key := by
      rwa [Store.carries, ← haccepted]
    rcases hspec.row_cases hsound'.consistent.valid.jobs hrow with hbefore | ⟨-, _, -, -, hdispatch⟩
    · exact hold row (Table.mem_of_lookup hbefore) hagain hcarriesBefore hcarries
    · exact absurd hdispatch.status hagain.not_running
  | cleanup p q hcleans => exact absurd hcleans (by simp [hok.2.1])

end Maqistor
