import Maqistor.Store.Effects

/-! The two databases agree in every reachable state: a job that may be claimed has no attempt that
is running or done, and a running attempt belongs to the job that is marked with its dispatch id. -/

namespace Maqistor

open ResultsConn IngestConn

/-- The queue that an action writes. -/
def Action.upserted : Action → Option JobQueue
  | .upsertQueue _ queue => some queue
  | _ => none

/-- An action other than a release and a cleanup, that keeps the pinned limits. -/
def Lasting (pinned : String → Option UInt32) (sys : System) (action : Action) : Prop :=
  action.isRelease = false ∧ cleans sys action = false ∧
    ∀ queue ∈ action.upserted, ∀ limit ∈ pinned queue.name, queue.maxRetries = limit

instance (pinned : String → Option UInt32) (sys : System) (action : Action) :
    Decidable (Lasting pinned sys action) :=
  -- `UInt32` is finite, and an instance that enumerates it would be found for the limits.
  haveI : ∀ queue : JobQueue, Decidable (∀ limit ∈ pinned queue.name, queue.maxRetries = limit) :=
    fun queue => Option.decidableForallMem (pinned queue.name)
  inferInstanceAs (Decidable (_ ∧ _ ∧ _))

variable {pinned : String → Option UInt32}

/-- Every execution, and every claim in flight, is for an accepted job. -/
structure Accounted (sys : System) : Prop where
  executions : ∀ row ∈ sys.store.results.executions,
    ∃ job ∈ sys.store.ingest.acceptedJobs, job.id = row.jobId
  awaiting : ∀ entry ∈ collect Stage.awaiting sys.pool,
    ∃ job ∈ sys.store.ingest.acceptedJobs, job.id = entry.id

theorem Accounted.covered {sys : System} (h : Accounted sys) : Covered sys := by
  intro row hrow
  obtain ⟨job, hjob, hid⟩ := h.executions row hrow
  exact ⟨job, hjob, hid.ge⟩

theorem Lasting.careful {sys : System} {action : Action} (h : Lasting pinned sys action)
    (haccounted : Accounted sys) : Careful pinned sys action := by
  cases action with
  | upsertQueue env queue => exact fun limit hlimit => h.2.2 queue rfl limit hlimit
  | enqueue batch => exact haccounted.covered
  | releaseClaim jobId dispatchId => cases h.1
  | cleanupExpiredRecords cutoff => cases h.2.1
  | _ => trivial

/-- Accepted jobs stay. -/
theorem step_accepted {sys sys' : System} {action : Action} {replied : Replied}
    (hsound : Sound pinned sys) (hok : Lasting pinned sys action)
    (hstep : sys.step action = some (sys', replied)) {n : Int}
    (h : ∃ job ∈ sys.store.ingest.acceptedJobs, job.id = n) :
    ∃ job ∈ sys'.store.ingest.acceptedJobs, job.id = n := by
  obtain ⟨job, hjob, hid⟩ := h
  cases step_effect hsound hok.1 hstep with
  | rewrite f hf haccepted =>
    exact ⟨f job, haccepted ▸ List.mem_map_of_mem hjob, (hf.id job).trans hid⟩
  | enqueue jobs haccepted => exact ⟨job, haccepted ▸ List.mem_append_left _ hjob, hid⟩
  | finish f hf haccepted => exact ⟨job, haccepted ▸ hjob, hid⟩
  | dispatch now claimedAt id claimed returned jobs haccepted =>
    exact ⟨job, haccepted ▸ hjob, hid⟩
  | cleanup p q hcleans => exact absurd hcleans (by simp [hok.2.1])

theorem step_accounted {sys sys' : System} {action : Action} {replied : Replied}
    (hsound : Sound pinned sys) (hok : Lasting pinned sys action)
    (hstep : sys.step action = some (sys', replied)) (h : Accounted sys) : Accounted sys' := by
  have hsound' := step_sound hsound (hok.careful h) hstep
  have hkept := fun {n : Int} => step_accepted hsound hok hstep (n := n)
  cases step_effect hsound hok.1 hstep with
  | rewrite f hf haccepted hexecutions hawaiting hreplied =>
    refine ⟨fun row hrow => hkept (h.executions row (hexecutions ▸ hrow)), fun entry hentry => ?_⟩
    rcases hawaiting entry hentry with hold | ⟨job, hjob, hid, -⟩
    · exact hkept (h.awaiting entry hold)
    · exact hkept ⟨job, hjob, hid⟩
  | enqueue jobs haccepted hexecutions hawaiting hreplied =>
    exact ⟨fun row hrow => hkept (h.executions row (hexecutions ▸ hrow)),
      fun entry hentry => hkept (h.awaiting entry (hawaiting hentry))⟩
  | finish f hf haccepted hexecutions hdue hawaiting hreplied =>
    refine ⟨fun row' hrow' => ?_, fun entry hentry => hkept (h.awaiting entry (hawaiting hentry))⟩
    obtain ⟨row, hrow, rfl⟩ := List.mem_map.mp (hexecutions ▸ hrow')
    rw [hf.keeps Execution.jobId fun _ _ _ => finished_jobId _ _ _]
    exact hkept (h.executions row hrow)
  | dispatch now claimedAt id claimed returned jobs haccepted hspec hjobs hawaiting hreplied =>
    refine ⟨fun row hrow => hkept ?_, fun entry hentry => hkept (h.awaiting entry ?_)⟩
    · rcases hspec.row_cases hsound'.consistent.valid.jobs hrow with
        hold | ⟨-, insert, hinsert, hjob, -⟩
      · exact h.executions row (Table.mem_of_lookup hold)
      · obtain ⟨entry, hentry, rfl⟩ := List.mem_map.mp hinsert
        rw [← hjob]
        exact h.awaiting entry (hawaiting.mem_iff.mpr (List.mem_append_left _ hentry))
    · exact hawaiting.mem_iff.mpr (List.mem_append_right _ hentry)
  | cleanup p q hcleans => exact absurd hcleans (by simp [hok.2.1])

theorem initial_accounted : Accounted System.initial := by
  constructor <;> simp [System.initial, collect]

/-- Properties of runs without releases and cleanups, in states that are sound and accounted. -/
theorem lasting_invariant {sys sys' : System} {events : List Replied}
    (h : System.Run (Lasting pinned) sys events sys') (hsound : Sound pinned sys)
    (haccounted : Accounted sys) (P : System → Prop) (hstart : P sys)
    (hkeep : ∀ {sys sys' action replied}, Sound pinned sys → Accounted sys → P sys →
      Lasting pinned sys action → sys.step action = some (sys', replied) → P sys') :
    Sound pinned sys' ∧ Accounted sys' ∧ P sys' := by
  refine h.invariant (fun sys => Sound pinned sys ∧ Accounted sys ∧ P sys)
    ⟨hsound, haccounted, hstart⟩ ?_
  rintro sys sys' action replied ⟨hsound, haccounted, hP⟩ hok hstep
  exact ⟨step_sound hsound (hok.careful haccounted) hstep,
    step_accounted hsound hok hstep haccounted, hkeep hsound haccounted hP hok hstep⟩

theorem lasting_sound {sys : System} {events : List Replied}
    (h : System.Run (Lasting pinned) System.initial events sys) : Sound pinned sys :=
  (lasting_invariant h initial_sound initial_accounted (fun _ => True) trivial
    fun _ _ _ _ _ => trivial).1

theorem lasting_accounted {sys : System} {events : List Replied}
    (h : System.Run (Lasting pinned) System.initial events sys) : Accounted sys :=
  (lasting_invariant h initial_sound initial_accounted (fun _ => True) trivial
    fun _ _ _ _ _ => trivial).2.1

/-- No limit is pinned. -/
def unpinned (_ : String) : Option UInt32 := none

/-- In every run without releases and cleanups: a free job has no execution or a failed one, a
running execution belongs to the job marked with its dispatch id, and no dispatch finds an
execution missing. -/
theorem databases_agree {sys : System} {events : List Replied}
    (h : System.Run (Lasting unpinned) System.initial events sys) :
    (∀ job ∈ sys.store.ingest.acceptedJobs, job.dispatchId = none →
      ∀ row ∈ sys.store.results.executions, row.jobId = job.id → row.status = .failed) ∧
    (∀ row ∈ sys.store.results.executions, row.status = .running →
      ∃ job ∈ sys.store.ingest.acceptedJobs, job.id = row.jobId ∧
        job.dispatchId = some row.dispatchId) ∧
    (∀ id claimed claimedAt, (id, Stage.dispatch claimed claimedAt) ∈ sys.pool → ∀ env jobId,
      (sys.store.results.dispatchBatch env (claimed.map (Store.dispatchRow claimedAt))).2 ≠
        .error (dispatchMissing jobId)) := by
  have hconsistent := (lasting_sound h).consistent
  refine ⟨fun job hjob hfree row hrow hid => ?_, fun row hrow hrunning => ?_, ?_⟩
  · exact (hconsistent.again_of_free hjob hfree hrow hid.symm).1
  · obtain ⟨job, hjob, hid⟩ := (lasting_accounted h).executions row hrow
    exact ⟨job, hjob, hid, hconsistent.held row hrow (not_again_of_running hrunning) job hjob hid⟩
  · intro id claimed claimedAt hentry env jobId hmissing
    obtain ⟨i, hlt, hi⟩ := List.getElem_of_mem hentry
    obtain ⟨hids, havailable⟩ :=
      (hconsistent.resume (List.getElem?_eq_some_iff.mpr ⟨hlt, hi⟩)).dispatch_ready
    rcases Store.dispatchBatch_answers env claimedAt hids havailable with
      ⟨error, heq, hrollback⟩ | ⟨executions, returned, out, heq, -⟩
    · rw [heq] at hmissing
      exact hrollback.ne_dispatchMissing jobId (Except.error.inj hmissing)
    · rw [heq] at hmissing
      cases hmissing

/-- A job with a running attempt, and another one that awaits its dispatch. -/
def twoClaims : System where
  store := mailStore [⟨1, "mail", [1], some "a0", 0, 1⟩, ⟨2, "mail", [2], some "b0", 0, 3⟩]
    [⟨1, 1, "mail", .running, 1, some 30001, "a0", none, none, 2, 2⟩]
  phase := .serving
  pool := [(4, .dispatch [⟨2, "mail", [2], 30, "b0", 0⟩] 3)]
  nextCall := 5
  issued := [(2, "b0"), (1, "a0")]

theorem databases_agree_two_claims :
    Runs.Reachable System.step (Lasting unpinned) System.initial twoClaims ∧
      (∃ job ∈ twoClaims.store.ingest.acceptedJobs, job.id = 1 ∧ job.dispatchId = some "a0") ∧
      (twoClaims.store.results.dispatchBatch (.atTime 4)
        ([⟨2, "mail", [2], 30, "b0", 0⟩].map (Store.dispatchRow 3))).2 ≠
          .error (dispatchMissing 2) := by
  have hreachable : Runs.Reachable System.step (Lasting unpinned) System.initial twoClaims :=
    .of_exec (mailActions [⟨0, "mail", [1], none, 0, 0⟩, ⟨0, "mail", [2], none, 0, 0⟩] ++
      [mailClaim "a" 1 1, .resume (.atTime 2) 0, mailClaim "b" 3 1]) (by decide)
  obtain ⟨events, hrun⟩ := hreachable
  obtain ⟨-, hrunning, hdispatch⟩ := databases_agree hrun
  exact ⟨⟨events, hrun⟩, hrunning _ (List.mem_singleton_self _) rfl,
    hdispatch 4 _ 3 (List.mem_singleton_self _) (.atTime 4) 2⟩

end Maqistor
