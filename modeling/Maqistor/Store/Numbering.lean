import Maqistor.Store.Observers

/-! The numbers of new jobs. The ingest database numbers a row one above the largest id present, so
an id can come back after a cleanup; it meets no execution of an earlier job as long as the cleanup
leaves an accepted row at or above every execution that it does not delete as well, and nothing
comes between its two deletes that finds the others. -/

namespace Maqistor

open ResultsConn IngestConn

/-- No release. -/
def Unreleased (_ : System) (action : Action) : Prop := action.isRelease = false

instance (sys : System) (action : Action) : Decidable (Unreleased sys action) :=
  inferInstanceAs (Decidable (_ = _))

/-- An attempt that has ended and that one of the cutoffs takes. -/
def Doomed (cutoffs : List Int) (row : Execution) : Prop :=
  row.status ≠ .running ∧ ∃ cutoff ∈ cutoffs, row.updatedAt < cutoff

/-- What the cleanups in flight are still to delete does not lie above the accepted rows. -/
def DoomedCovered (sys : System) : Prop :=
  ∀ row ∈ sys.store.results.executions, Doomed (collect Stage.cutoffs sys.pool) row →
    ∃ job ∈ sys.store.ingest.acceptedJobs, row.jobId ≤ job.id

/-- The ingest half of a cleanup leaves a row that no claim in flight lies above, and no execution
but those that this cleanup, or one in flight, deletes. -/
def KeepsLast (cutoff : Int) (sys : System) : Prop :=
  (∀ row ∈ sys.store.results.executions,
    Doomed (cutoff :: collect Stage.cutoffs sys.pool) row ∨ KeepsAbove cutoff sys row.jobId) ∧
  ∀ claimed ∈ collect Stage.awaiting sys.pool, KeepsAbove cutoff sys claimed.id

/-- The cutoff of a cleanup. -/
def Action.cutoff : Action → Option Int
  | .cleanupExpiredRecords cutoff => some cutoff
  | _ => none

/-- The actions that an unfinished cleanup is in the way of: an enqueue, which numbers jobs, and a
crash or a failing delete, which leave it unfinished. -/
def Action.meetsCleanup (sys : System) : Action → Bool
  | .enqueue _ | .crash => true
  | .fault _ i => sys.pool[i]?.any fun entry => !entry.2.cutoffs.isEmpty
  | _ => false

/-- No release, no cleanup that takes the last row above what it leaves, and no such action while an
execution that is still to be deleted lies above the accepted rows. -/
def KeepsNumbers (sys : System) (action : Action) : Prop :=
  Unreleased sys action ∧ (∀ cutoff ∈ action.cutoff, KeepsLast cutoff sys) ∧
    (action.meetsCleanup sys = true → DoomedCovered sys)

section Decide

instance (cutoffs : List Int) (row : Execution) : Decidable (Doomed cutoffs row) :=
  inferInstanceAs (Decidable (_ ∧ ∃ cutoff ∈ _, _))

instance (cutoff : Int) (sys : System) (n : Int) : Decidable (KeepsAbove cutoff sys n) :=
  inferInstanceAs (Decidable (∃ job ∈ _, _))

instance (sys : System) : Decidable (DoomedCovered sys) :=
  inferInstanceAs (Decidable (∀ row ∈ _, _ → ∃ job ∈ _, _))

instance (cutoff : Int) (sys : System) : Decidable (KeepsLast cutoff sys) :=
  inferInstanceAs (Decidable ((∀ row ∈ _, _ ∨ _) ∧ ∀ claimed ∈ _, _))

instance (sys : System) (action : Action) : Decidable (KeepsNumbers sys action) :=
  inferInstanceAs (Decidable (_ ∧ (∀ cutoff ∈ action.cutoff, _) ∧ (_ → _)))

end Decide

variable {sys sys' : System} {action : Action} {replied : Replied}

/-- Every execution lies at or below an accepted row, but those that the cleanups in flight
delete. -/
def Bounded (sys : System) : Prop :=
  ∀ row ∈ sys.store.results.executions,
    (∃ job ∈ sys.store.ingest.acceptedJobs, row.jobId ≤ job.id) ∨
      Doomed (collect Stage.cutoffs sys.pool) row

theorem Bounded.covered (h : Bounded sys) (hdoomed : DoomedCovered sys) : Covered sys :=
  fun row hrow => (h row hrow).elim id (hdoomed row hrow)

theorem KeepsNumbers.careful (h : KeepsNumbers sys action) (hbounded : Bounded sys) :
    Careful unpinned sys action := by
  cases action with
  | upsertQueue env queue => exact fun limit hlimit => by cases hlimit
  | enqueue batch => exact hbounded.covered (h.2.2 rfl)
  | releaseClaim jobId dispatchId => cases h.1
  | cleanupExpiredRecords cutoff => exact (h.2.1 cutoff rfl).2
  | _ => trivial

theorem Doomed.mono {cutoffs more : List Int} {row : Execution} (h : Doomed cutoffs row)
    (hsubset : cutoffs ⊆ more) : Doomed more row :=
  let ⟨hended, cutoff, hcutoff, hlt⟩ := h
  ⟨hended, cutoff, hsubset hcutoff, hlt⟩

/-- A step that starts a call keeps the cutoffs of the others. -/
theorem cutoffs_enter (sys : System) (store : Store) (progress : List Progress) :
    collect Stage.cutoffs sys.pool ⊆ collect Stage.cutoffs (sys.enter store progress).1.pool := by
  rw [collect_enter]
  exact List.subset_append_right _ _

/-- What a cleanup in flight is to delete, and a step has left there, is still to be deleted, or it
does not lie above the accepted rows. -/
theorem step_doomed (hok : KeepsNumbers sys action) (hstep : sys.step action = some (sys', replied))
    {row : Execution} (hrow : row ∈ sys.store.results.executions)
    (hrow' : row ∈ sys'.store.results.executions)
    (h : Doomed (collect Stage.cutoffs sys.pool) row) :
    (∃ job ∈ sys.store.ingest.acceptedJobs, row.jobId ≤ job.id) ∨
      Doomed (collect Stage.cutoffs sys'.pool) row := by
  cases step_moves hstep with
  | @start action store progress issued hphase hstart =>
    exact Or.inr (h.mono (cutoffs_enter sys store progress))
  | @resume i id stage env hphase hentry =>
    obtain ⟨hended, cutoff, hcutoff, hlt⟩ := h
    rw [collect_proceed]
    rcases (mem_collect_iff Stage.cutoffs hentry).mp hcutoff with hmem | hmem
    · cases stage with
      | cleanupResults taken deleted =>
        obtain rfl := List.mem_singleton.mp hmem
        have hleft := (List.mem_filter.mp hrow').2
        simp only [Bool.not_eq_true', decide_eq_false_iff_not] at hleft
        exact absurd hlt hleft
      | _ => cases hmem
    · exact Or.inr ⟨hended, cutoff, List.mem_append_right _ hmem, hlt⟩
  | @fault i id stage error hphase hentry =>
    obtain ⟨hended, cutoff, hcutoff, hlt⟩ := h
    rw [collect_proceed]
    rcases (mem_collect_iff Stage.cutoffs hentry).mp hcutoff with hmem | hmem
    · have hmeets : (Action.fault error i).meetsCleanup sys = true := by
        simp [Action.meetsCleanup, hentry, List.ne_nil_of_mem hmem]
      exact Or.inl (hok.2.2 hmeets row hrow ⟨hended, cutoff, hcutoff, hlt⟩)
    · exact Or.inr ⟨hended, cutoff, List.mem_append_right _ hmem, hlt⟩
  | crash hphase => exact Or.inl (hok.2.2 rfl row hrow h)
  | close hphase => exact Or.inr h
  | reopen choice hphase => exact Or.inr h
  | heal env hphase => exact Or.inr h
  | opened env hphase => exact Or.inr h

/-- A cleanup has its cutoff in flight after its first delete. -/
theorem cutoffs_cleanup {cutoff : Int}
    (hstep : sys.step (.cleanupExpiredRecords cutoff) = some (sys', replied)) :
    cutoff :: collect Stage.cutoffs sys.pool ⊆ collect Stage.cutoffs sys'.pool := by
  cases step_moves hstep with
  | start issued hphase hstart =>
    obtain ⟨rfl, rfl⟩ := eq_of_some_eq hstart.symm
    rw [collect_enter]
    exact List.Subset.refl _

/-- The executions that an unfinished cleanup leaves above the accepted rows are those it
deletes. -/
theorem step_bounded (hsound : Sound unpinned sys) (hok : KeepsNumbers sys action)
    (hstep : sys.step action = some (sys', replied)) (h : Bounded sys) : Bounded sys' := by
  -- A row that the step leaves alone keeps what it has, as long as accepted rows stay.
  have hold : (∀ n : Int, (∃ job ∈ sys.store.ingest.acceptedJobs, n ≤ job.id) →
      ∃ job ∈ sys'.store.ingest.acceptedJobs, n ≤ job.id) →
      ∀ row ∈ sys.store.results.executions, row ∈ sys'.store.results.executions →
        (∃ job ∈ sys'.store.ingest.acceptedJobs, row.jobId ≤ job.id) ∨
          Doomed (collect Stage.cutoffs sys'.pool) row := by
    intro hkept row hrow hrow'
    rcases h row hrow with hcovered | hdoomed
    · exact Or.inl (hkept _ hcovered)
    · exact (step_doomed hok hstep hrow hrow' hdoomed).imp_left (hkept _)
  intro row hrow
  cases step_effect hsound hok.1 hstep with
  | rewrite f hf haccepted hexecutions =>
    refine hold ?_ row (hexecutions ▸ hrow) hrow
    rintro n ⟨job, hjob, hle⟩
    exact ⟨f job, haccepted ▸ List.mem_map_of_mem hjob, by rw [hf.id]; exact hle⟩
  | enqueue jobs haccepted hexecutions =>
    refine hold ?_ row (hexecutions ▸ hrow) hrow
    rintro n ⟨job, hjob, hle⟩
    exact ⟨job, haccepted ▸ List.mem_append_left _ hjob, hle⟩
  | finish f hf haccepted hexecutions =>
    obtain ⟨before, hbefore, rfl⟩ := List.mem_map.mp (hexecutions ▸ hrow)
    rw [hf.keeps Execution.jobId fun _ _ _ => finished_jobId _ _ _, haccepted]
    rcases h before hbefore with hcovered | hdoomed
    · exact Or.inl hcovered
    · -- It has ended, so the commit leaves it as it is.
      have hsame : f before = before := (hf before).resolve_right fun hran => hdoomed.1 hran.1
      rw [hsame] at hrow ⊢
      exact step_doomed hok hstep hbefore hrow hdoomed
  | dispatch now claimedAt id claimed returned jobs haccepted hspec hjobs hawaiting hreplied =>
    have hjobs' := (step_sound hsound (hok.careful h) hstep).consistent.valid.jobs
    rcases hspec.row_cases hjobs' hrow with hfound | ⟨-, insert, hinsert, hid, -⟩
    · exact hold (fun n hcovered => haccepted ▸ hcovered) row (Table.mem_of_lookup hfound) hrow
    · obtain ⟨entry, hentry, rfl⟩ := List.mem_map.mp hinsert
      rw [← hid, haccepted]
      exact Or.inl (hsound.consistent.awaits entry
        (hawaiting.mem_iff.mpr (List.mem_append_left _ hentry))).bounded
  | cleanup p q hcleans haccepted hkept hexecutions =>
    have hbefore : row ∈ sys.store.results.executions :=
      (List.mem_filter.mp (hexecutions ▸ hrow)).1
    by_cases hfirst : ∃ cutoff, action = .cleanupExpiredRecords cutoff
    · obtain ⟨cutoff, rfl⟩ := hfirst
      rcases (hok.2.1 cutoff rfl).1 row hbefore with hdoomed | ⟨job, hjob, hnew, hle⟩
      · exact Or.inr (hdoomed.mono (cutoffs_cleanup hstep))
      · refine Or.inl ⟨job, haccepted ▸ List.mem_filter.mpr ⟨hjob, hkept job ?_⟩, hle⟩
        rintro other heq
        obtain rfl := Action.cleanupExpiredRecords.inj heq
        exact hnew
    · refine hold ?_ row hbefore hrow
      rintro n ⟨job, hjob, hle⟩
      refine ⟨job, haccepted ▸ List.mem_filter.mpr ⟨hjob, hkept job ?_⟩, hle⟩
      exact fun cutoff heq => absurd ⟨cutoff, heq⟩ hfirst

/-- What a run that keeps the numbers reaches. -/
theorem run_bounded {events : List Replied}
    (h : System.Run KeepsNumbers System.initial events sys) : Sound unpinned sys ∧ Bounded sys := by
  refine h.invariant (fun sys => Sound unpinned sys ∧ Bounded sys)
    ⟨initial_sound, by simp [Bounded, System.initial]⟩ ?_
  rintro sys sys' action replied ⟨hsound, hbounded⟩ hok hstep
  exact ⟨step_sound hsound (hok.careful hbounded) hstep, step_bounded hsound hok hstep hbounded⟩

/-- No attempt of the job is recorded. -/
def Unexecuted (jobId : Int) (sys : System) : Prop :=
  ∀ row ∈ sys.store.results.executions, row.jobId ≠ jobId

/-- A job gets its first execution in a step that returns it to a claim. -/
theorem step_unexecuted (hsound : Sound unpinned sys) (hbounded : Bounded sys)
    (hok : KeepsNumbers sys action) (hstep : sys.step action = some (sys', replied)) {jobId : Int}
    (hreturns : returns jobId replied = false) (h : Unexecuted jobId sys) :
    Unexecuted jobId sys' := by
  intro row hrow
  have hsound' := step_sound hsound (hok.careful hbounded) hstep
  cases step_effect hsound hok.1 hstep with
  | rewrite f hf haccepted hexecutions => exact h row (hexecutions ▸ hrow)
  | enqueue jobs haccepted hexecutions => exact h row (hexecutions ▸ hrow)
  | finish f hf haccepted hexecutions =>
    obtain ⟨before, hbefore, rfl⟩ := List.mem_map.mp (hexecutions ▸ hrow)
    rw [hf.keeps Execution.jobId fun _ _ _ => finished_jobId _ _ _]
    exact h before hbefore
  | dispatch now claimedAt id claimed returned jobs haccepted hspec hjobs hawaiting hreplied =>
    rcases hspec.row_cases hsound'.consistent.valid.jobs hrow with
      hold | ⟨-, insert, hinsert, hid, -⟩
    · exact h row (Table.mem_of_lookup hold)
    · rintro rfl
      obtain ⟨entry, hentry, rfl⟩ := List.mem_map.mp hinsert
      rw [hreplied, Bool.eq_false_iff] at hreturns
      exact hreturns ((returns_claimed hjobs id row.jobId).mpr
        (List.mem_map.mpr ⟨entry, hentry, hid⟩))
  | cleanup p q hcleans haccepted hkept hexecutions =>
    exact h row (List.mem_filter.mp (hexecutions ▸ hrow)).1

/-- A `get_job` of a job without executions. -/
theorem reported_unexecuted (hsound : Sound unpinned sys)
    (hstep : sys.step action = some (sys', replied)) {jobId : Int} (h : Unexecuted jobId sys)
    {id : Nat} {job : Job} (hreport : (id, Reply.job (.ok job)) ∈ replied) (hid : job.id = jobId) :
    job.status = .pending ∧ job.executionCount = 0 ∧ job.resultPayload = none ∧
      job.resultError = none := by
  obtain ⟨env, i, accepted, execution, -, -, hread, rfl, -⟩ := step_reported hstep hreport
  rw [fromAccepted_id] at hid
  have hnone : Table.lookup Execution.jobId accepted.id sys.store.results.executions = none :=
    Table.lookup_eq_none.mpr fun row hrow => hid ▸ h row hrow
  rw [hsound.consistent.readExecution rfl, hnone, Except.ok.injEq] at hread
  rw [← hread]
  exact ⟨rfl, rfl, rfl, rfl⟩

theorem forall₂_mem_right {α β : Type} {R : α → β → Prop} {as : List α} {bs : List β}
    (h : List.Forall₂ R as bs) {b : β} (hb : b ∈ bs) : ∃ a ∈ as, R a b := by
  induction h with
  | nil => cases hb
  | cons hab _ ih =>
    rcases List.mem_cons.mp hb with rfl | hb
    · exact ⟨_, List.mem_cons_self, hab⟩
    · obtain ⟨a, ha, hR⟩ := ih hb
      exact ⟨a, List.mem_cons_of_mem _ ha, hR⟩

/-- The first claim of a job without executions. -/
theorem claimed_unexecuted (hsound : Sound unpinned sys) (hok : KeepsNumbers sys action)
    (hstep : sys.step action = some (sys', replied)) {jobId : Int} (h : Unexecuted jobId sys)
    {job : Job} (hjob : job ∈ claimedJobs replied) (hid : job.id = jobId) :
    job.executionCount = 1 := by
  have hsilent : ¬NoClaim replied := by
    intro hnone
    rw [hnone.claimedJobs_eq] at hjob
    cases hjob
  cases step_effect hsound hok.1 hstep with
  | rewrite f hf haccepted hexecutions hawaiting hreplied => exact absurd hreplied hsilent
  | enqueue jobs haccepted hexecutions hawaiting hreplied => exact absurd hreplied hsilent
  | finish f hf haccepted hexecutions hdue hawaiting hreplied => exact absurd hreplied hsilent
  | cleanup p q hcleans haccepted hkept hexecutions hawaiting hreplied =>
    exact absurd hreplied hsilent
  | dispatch now claimedAt id claimed returned jobs haccepted hspec hjobs hawaiting hreplied =>
    have hmem : job ∈ jobs := by simpa [hreplied, claimedJobs] using hjob
    obtain ⟨entry, hentry, hentryId, attempt, hattempt, hcount, -⟩ := forall₂_mem_right hjobs hmem
    have hnone : Table.lookup Execution.jobId entry.id sys.store.results.executions = none :=
      Table.lookup_eq_none.mpr fun row hrow => hentryId ▸ hid ▸ h row hrow
    obtain ⟨_, -, -, other, hother, -, hdispatch⟩ := hspec.started entry.id
      (List.mem_map_of_mem (List.mem_map_of_mem hentry)) (hnone ▸ by simp [Available])
    rw [hattempt, Option.some.injEq] at hother
    rw [hcount, hother, hdispatch.executionCount, hnone]
    rfl

/-- An enqueue numbers its jobs above every execution and every claim in flight. -/
theorem enqueued_above (hsound : Sound unpinned sys) (hcovered : Covered sys)
    {batch : List AcceptedJob}
    (hstep : sys.step (.enqueue batch) = some (sys', replied)) {id : Nat} {job : AcceptedJob}
    (haccepted : (id, Reply.accepted (.ok job)) ∈ replied) :
    Unexecuted job.id sys' ∧ ∀ entry ∈ collect Stage.awaiting sys'.pool, entry.id ≠ job.id := by
  have habove : ∀ {n : Int}, (∃ row ∈ sys.store.ingest.acceptedJobs, n ≤ row.id) →
      nextId sys.store.ingest.acceptedJobs ≤ job.id → n ≠ job.id := by
    rintro n ⟨row, hrow, hle⟩ hnext rfl
    have hlt : row.id < nextId sys.store.ingest.acceptedJobs :=
      Table.lt_nextRowid (List.mem_map_of_mem hrow)
    omega
  obtain ⟨jobs, replies, heq, hreplies⟩ := Store.enqueueBatch_cases batch sys.store
  cases step_moves hstep with
  | start issued hphase hstart =>
    rw [Store.start, heq] at hstart
    obtain ⟨rfl, rfl⟩ := eq_of_some_eq hstart
    obtain ⟨hdone, -⟩ := mem_enter_replied haccepted
    obtain ⟨reply, hreply, hsame⟩ := List.mem_map.mp hdone
    obtain rfl := Reply.accepted.inj (Progress.done.inj hsame)
    have hnext := le_of_mem_numbered (hreplies job hreply)
    refine ⟨fun row hrow => habove (hcovered row hrow) hnext, ?_⟩
    intro entry hentry
    rw [collect_enter, flatMap_nil fun item hitem => ?_] at hentry
    · exact habove (hsound.consistent.awaits entry hentry).bounded hnext
    · obtain ⟨_, -, rfl⟩ := List.mem_map.mp hitem
      rfl

/-- In a run whose steps meet the condition, the id that an enqueue returns has no execution and no
claim in flight. Until a claim returns it, it stays without execution and `get_job` reports it
pending, with no attempt and no result; its first claim reports one attempt. -/
theorem new_job_has_no_execution {events : List Replied} {batch : List AcceptedJob}
    (h : System.Run KeepsNumbers System.initial events sys)
    (hok : KeepsNumbers sys (.enqueue batch))
    (hstep : sys.step (.enqueue batch) = some (sys', replied)) {id : Nat} {job : AcceptedJob}
    (haccepted : (id, Reply.accepted (.ok job)) ∈ replied) :
    Unexecuted job.id sys' ∧ (∀ entry ∈ collect Stage.awaiting sys'.pool, entry.id ≠ job.id) ∧
      ∀ more sys'', System.Run KeepsNumbers sys' more sys'' →
        (∀ later ∈ more, returns job.id later = false) →
        Unexecuted job.id sys'' ∧
        (∀ later ∈ more, ∀ id' job', (id', Reply.job (.ok job')) ∈ later → job'.id = job.id →
          job'.status = .pending ∧ job'.executionCount = 0 ∧ job'.resultPayload = none ∧
            job'.resultError = none) ∧
        ∀ action sys₁ later, KeepsNumbers sys'' action → sys''.step action = some (sys₁, later) →
          ∀ job' ∈ claimedJobs later, job'.id = job.id → job'.executionCount = 1 := by
  obtain ⟨hsound, hbounded⟩ := run_bounded h
  obtain ⟨hunexecuted, hawaiting⟩ := enqueued_above hsound (hbounded.covered (hok.2.2 rfl)) hstep haccepted
  refine ⟨hunexecuted, hawaiting, fun more sys'' hmore => ?_⟩
  have hrun : (∀ later ∈ more, returns job.id later = false) →
      (Sound unpinned sys'' ∧ Bounded sys'' ∧ Unexecuted job.id sys'') ∧
        ∀ later ∈ more, ∀ id' job', (id', Reply.job (.ok job')) ∈ later → job'.id = job.id →
          job'.status = .pending ∧ job'.executionCount = 0 ∧ job'.resultPayload = none ∧
            job'.resultError = none := by
    induction hmore with
    | refl =>
      exact fun _ => ⟨⟨step_sound hsound (hok.careful hbounded) hstep,
        step_bounded hsound hok hstep hbounded, hunexecuted⟩, by simp⟩
    | @step middle last before action later hbefore hok hlast ih =>
      intro hreturns
      obtain ⟨⟨hsound, hbounded, hunexecuted⟩, hreports⟩ :=
        ih fun other hother => hreturns other (List.mem_append_left _ hother)
      have hreturn := hreturns later (List.mem_append_right _ (List.mem_singleton_self _))
      refine ⟨⟨step_sound hsound (hok.careful hbounded) hlast,
        step_bounded hsound hok hlast hbounded,
        step_unexecuted hsound hbounded hok hlast hreturn hunexecuted⟩, fun other hother => ?_⟩
      rcases List.mem_append.mp hother with hother | hother
      · exact hreports other hother
      · rw [List.mem_singleton.mp hother]
        exact fun id' job' hreport hid =>
          reported_unexecuted hsound hlast hunexecuted hreport hid
  intro hreturns
  obtain ⟨⟨hsound'', -, hunexecuted''⟩, hreports⟩ := hrun hreturns
  exact ⟨hunexecuted'', hreports, fun action sys₁ later hok hlast job' hjob' hid =>
    claimed_unexecuted hsound'' hok hlast hunexecuted'' hjob' hid⟩

/-- The only job has completed and both its rows are purged. -/
def drained : System where
  store := mailStore [] []
  phase := .serving
  pool := []
  nextCall := 5
  issued := [(1, "a0")]

/-- The next job gets the number of the purged one, and none of what was recorded for it. -/
theorem new_job_has_no_execution_drained :
    Runs.Reachable System.step KeepsNumbers System.initial drained ∧
      ∃ sys' replied, drained.step (.enqueue [⟨0, "mail", [3], none, 110, 110⟩]) =
          some (sys', replied) ∧
        (5, Reply.accepted (.ok ⟨1, "mail", [3], none, 110, 110⟩)) ∈ replied ∧
        Unexecuted 1 sys' := by
  obtain ⟨events, hrun⟩ : Runs.Reachable System.step KeepsNumbers System.initial drained :=
    .of_exec (mailActions [⟨0, "mail", [1], none, 0, 0⟩] ++
      [mailClaim "a" 1 1, .resume (.atTime 1) 0,
        .complete (.atTime 10) [(⟨1, "a0", .succeeded [7]⟩, .completeWorkerResult)],
        .cleanupExpiredRecords 50, .resume (.atTime 100) 0]) (by decide)
  have hstep : drained.step (.enqueue [⟨0, "mail", [3], none, 110, 110⟩]) =
      some ({ drained with
        store := mailStore [⟨1, "mail", [3], none, 110, 110⟩] []
        nextCall := 6 }, [(5, .accepted (.ok ⟨1, "mail", [3], none, 110, 110⟩))]) := by decide
  exact ⟨⟨events, hrun⟩, _, _, hstep, List.mem_singleton_self _,
    (new_job_has_no_execution hrun (by decide) hstep (List.mem_singleton_self _)).1⟩

/-- The only job has completed and its accepted row is purged; its execution is younger than the
cutoff. -/
def purgedOnly : System where
  store := mailStore [] [⟨1, 1, "mail", .completed, 1, none, "a0", some [7], none, 1, 100⟩]
  phase := .serving
  pool := []
  nextCall := 5
  issued := [(1, "a0")]

theorem new_job_inherits_execution :
    ¬∀ (sys sys' : System) (events : List Replied) (batch : List AcceptedJob) (replied : Replied)
        (id : Nat) (job : AcceptedJob),
      System.Run Unreleased System.initial events sys →
      sys.step (.enqueue batch) = some (sys', replied) →
      (id, Reply.accepted (.ok job)) ∈ replied → Unexecuted job.id sys' := by
  intro h
  obtain ⟨events, hrun⟩ : Runs.Reachable System.step Unreleased System.initial purgedOnly :=
    .of_exec (mailActions [⟨0, "mail", [1], none, 0, 0⟩] ++
      [mailClaim "a" 1 1, .resume (.atTime 1) 0,
        .complete (.atTime 100) [(⟨1, "a0", .succeeded [7]⟩, .completeWorkerResult)],
        .cleanupExpiredRecords 50, .resume (.atTime 101) 0]) (by decide)
  have hstep : purgedOnly.step (.enqueue [⟨0, "mail", [3], none, 110, 110⟩]) =
      some ({ purgedOnly with
        store := mailStore [⟨1, "mail", [3], none, 110, 110⟩]
          [⟨1, 1, "mail", .completed, 1, none, "a0", some [7], none, 1, 100⟩]
        nextCall := 6 }, [(5, .accepted (.ok ⟨1, "mail", [3], none, 110, 110⟩))]) := by decide
  exact h _ _ _ _ _ _ _ hrun hstep (List.mem_singleton_self _) _ (List.mem_singleton_self _) rfl

end Maqistor
