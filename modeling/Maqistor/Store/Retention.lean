import Maqistor.Store.Crash
import Maqistor.Store.Schema

/-! A cleanup and the times in the two databases. The first delete looks at `created_at` of the
accepted rows and the second at `updated_at` of the executions. In a run along one clock, every time
that an attempt carries is at or after the creation of the row marked with it, and at or after the
cutoffs whose second delete is still to come. So a row that survives a cleanup keeps its attempt. -/

namespace Maqistor

open ResultsConn IngestConn

/-! ### Runs along a clock -/

/-- The clock readings of a step at a time. A job is stamped before it is enqueued, `claimed_at` is
read after the claim has committed, and the `now` of a recovery before the call. -/
def Action.ReadsClock (time : Int) : Action → Prop
  | .upsertQueue env _ => env.now = time
  | .enqueue batch => ∀ job ∈ batch, job.createdAt ≤ time
  | .claimBatch env _ claimedAt _ _ =>
    env.now = time ∧ time ≤ claimedAt ∧ claimedAt < 9223372036854775808
  | .complete env _ => env.now = time
  | .recoverStaleLeases _ now => now ≤ time
  | .cleanupExpiredRecords cutoff => cutoff ≤ time
  | .resume env _ => env.now = time
  | .heal env => env.now = time
  | _ => True

instance (time : Int) (action : Action) : Decidable (action.ReadsClock time) :=
  match action with
  | .upsertQueue _ _ | .complete _ _ | .resume _ _ | .heal _ => inferInstanceAs (Decidable (_ = _))
  | .enqueue batch => inferInstanceAs (Decidable (∀ job ∈ batch, _))
  | .claimBatch _ _ _ _ _ => inferInstanceAs (Decidable (_ ∧ _ ∧ _))
  | .recoverStaleLeases _ _ | .cleanupExpiredRecords _ => inferInstanceAs (Decidable (_ ≤ _))
  | .releaseClaim _ _ | .getJob _ | .fault _ _ | .crash | .reopen _ => isTrue trivial

/-- The engine claims from one task, so no other claim awaits its dispatch. -/
def ClaimsAlone (sys : System) : Action → Prop
  | .claimBatch _ _ _ _ _ => collect Stage.awaiting sys.pool = []
  | _ => True

instance (sys : System) (action : Action) : Decidable (ClaimsAlone sys action) :=
  match action with
  | .claimBatch _ _ _ _ _ => inferInstanceAs (Decidable (_ = _))
  | .upsertQueue _ _ | .enqueue _ | .complete _ _ | .releaseClaim _ _ | .recoverStaleLeases _ _
  | .cleanupExpiredRecords _ | .getJob _ | .resume _ _ | .fault _ _ | .crash | .reopen _
  | .heal _ => isTrue trivial

/-- A store with the time of its last step. -/
abbrev Clocked := System × Int

namespace Clocked

/-- A step of the store at a time that is not before the last one. -/
def step (state : Clocked) (action : Action × Int) : Option (Clocked × Replied) :=
  if state.2 ≤ action.2 then
    (state.1.step action.1).map fun result => ((result.1, action.2), result.2)
  else none

def Admits (state : Clocked) (action : Action × Int) : Prop :=
  action.1.ReadsClock action.2 ∧ ClaimsAlone state.1 action.1

instance (state : Clocked) (action : Action × Int) : Decidable (Admits state action) :=
  inferInstanceAs (Decidable (_ ∧ _))

abbrev Run : Clocked → List Replied → Clocked → Prop := Runs.Run step Admits

theorem step_cases {state state' : Clocked} {action : Action × Int} {replied : Replied}
    (h : step state action = some (state', replied)) :
    state.2 ≤ action.2 ∧ state'.2 = action.2 ∧
      state.1.step action.1 = some (state'.1, replied) := by
  unfold step at h
  split at h
  · next hle =>
    obtain ⟨⟨sys, reply⟩, hstep, heq⟩ := Option.map_eq_some_iff.mp h
    obtain ⟨rfl, rfl⟩ := Prod.mk.inj heq
    exact ⟨hle, rfl, hstep⟩
  · cases h

end Clocked

/-! ### The times of the attempts -/

namespace Stage

/-- The rows that a call has claimed and not yet dispatched, with the time of the claim. -/
def dispatching : Stage → List (IngestClaimed × Int)
  | .dispatch claimed claimedAt => claimed.map fun entry => (entry, claimedAt)
  | _ => []

end Stage

structure Timeline where
  accepted : List AcceptedJob
  executions : List Execution
  queues : List JobQueue
  dispatching : List (IngestClaimed × Int)
  cutoffs : List Int
  issued : List (Int × String)
  clock : Int

def timeline (store : Store) (pool : List (Nat × Stage)) (issued : List (Int × String))
    (clock : Int) : Timeline :=
  { accepted := store.ingest.acceptedJobs, executions := store.results.executions
    queues := store.ingest.jobQueues, dispatching := collect Stage.dispatching pool
    cutoffs := collect Stage.cutoffs pool, issued := issued, clock := clock }

def System.timeline (sys : System) (clock : Int) : Timeline :=
  Maqistor.timeline sys.store sys.pool sys.issued clock

/-- A time that an execution carries. -/
def Execution.Carries (row : Execution) (time : Int) : Prop :=
  time = row.updatedAt ∨ row.leaseExpiresAt = some time

/-- A time that an attempt carries, in its execution or in the call that is to dispatch it. -/
def Carried (s : Timeline) (dispatchId : String) (time : Int) : Prop :=
  (∃ row ∈ s.executions, row.dispatchId = dispatchId ∧ row.Carries time) ∨
    ∃ item ∈ s.dispatching, item.1.dispatchId = dispatchId ∧ time = item.2

/-- A row that a call is to dispatch: a row with its id that is marked is marked by it. -/
structure Held (accepted : List AcceptedJob) (issued : List (Int × String))
    (item : IngestClaimed × Int) : Prop where
  issued : item.1.key ∈ issued
  timeout : item.1.timeoutSecs.toNat < 9223372036854775808
  time : item.2 < 9223372036854775808
  accepted : ∀ job ∈ accepted, job.id = item.1.id → ∀ dispatchId,
    job.dispatchId = some dispatchId → dispatchId = item.1.dispatchId

structure Retained (s : Timeline) : Prop where
  ledger : (s.issued.map Prod.snd).Nodup
  marks : ∀ job ∈ s.accepted, ∀ dispatchId, job.dispatchId = some dispatchId →
    (job.id, dispatchId) ∈ s.issued
  executed : ∀ row ∈ s.executions, row.key ∈ s.issued
  queues : ∀ queue ∈ s.queues, queue.timeoutSecs.toNat < 9223372036854775808
  held : ∀ item ∈ s.dispatching, Held s.accepted s.issued item
  created : ∀ job ∈ s.accepted, job.createdAt ≤ s.clock
  cut : ∀ cutoff ∈ s.cutoffs, cutoff ≤ s.clock
  later : ∀ job ∈ s.accepted, ∀ dispatchId, job.dispatchId = some dispatchId →
    ∀ time, Carried s dispatchId time → job.createdAt ≤ time ∧ ∀ cutoff ∈ s.cutoffs, cutoff ≤ time

/-- An attempt has its execution, or no row is marked with it any more. -/
def Recorded (s : Timeline) (key : Int × String) : Prop :=
  (∃ row ∈ s.executions, row.key = key) ∨ ∀ job ∈ s.accepted, job.dispatchId ≠ some key.2

/-- What the store may become: the times are in order again, and the attempts that were recorded
still are. -/
structure Follows (s s' : Timeline) : Prop where
  retained : Retained s'
  recorded : ∀ key ∈ s.issued, Recorded s key → Recorded s' key
  issued : s.issued ⊆ s'.issued

variable {s s' s'' : Timeline}

theorem Retained.refl (h : Retained s) : Follows s s :=
  ⟨h, fun _ _ hrecorded => hrecorded, List.Subset.refl _⟩

theorem Follows.trans (h : Follows s s') (h' : Follows s' s'') : Follows s s'' :=
  { retained := h'.retained
    recorded := fun key hkey hrecorded =>
      h'.recorded key (h.issued hkey) (h.recorded key hkey hrecorded)
    issued := fun _ hkey => h'.issued (h.issued hkey) }

/-- A dispatch id belongs to one job. -/
theorem Retained.same_job (h : Retained s) {job : AcceptedJob} (hjob : job ∈ s.accepted)
    {key : Int × String} (hkey : key ∈ s.issued) (hmarked : job.dispatchId = some key.2) :
    job.id = key.1 := by
  have hkeys := List.inj_on_of_nodup_map h.ledger (h.marks job hjob key.2 hmarked) hkey rfl
  exact congrArg Prod.fst hkeys

/-! ### The commits -/

/-- Time passes, and calls end or go on with less to do. -/
theorem Retained.pass (h : Retained s) {dispatching : List (IngestClaimed × Int)}
    {cutoffs : List Int} {clock : Int} (hdispatching : dispatching ⊆ s.dispatching)
    (hcutoffs : cutoffs ⊆ s.cutoffs) (hclock : s.clock ≤ clock) :
    Follows s { s with dispatching := dispatching, cutoffs := cutoffs, clock := clock } := by
  refine ⟨?_, fun _ _ hrecorded => hrecorded, List.Subset.refl _⟩
  refine { h with
    held := fun item hitem => h.held item (hdispatching hitem)
    created := fun job hjob => (h.created job hjob).trans hclock
    cut := fun cutoff hcutoff => (h.cut cutoff (hcutoffs hcutoff)).trans hclock, later := ?later }
  case later =>
    intro job hjob dispatchId hmarked time hcarried
    have hbefore : Carried s dispatchId time :=
      hcarried.imp_right fun ⟨item, hitem, hrest⟩ => ⟨item, hdispatching hitem, hrest⟩
    obtain ⟨hcreated, hcut⟩ := h.later job hjob dispatchId hmarked time hbefore
    exact ⟨hcreated, fun cutoff hcutoff => hcut cutoff (hcutoffs hcutoff)⟩

/-- Accepted rows may go, lose their marks, or come in without one. -/
theorem Retained.accept (h : Retained s) {accepted : List AcceptedJob}
    (hcreated : ∀ job ∈ accepted, job.createdAt ≤ s.clock)
    (hmarked : ∀ job ∈ accepted, ∀ dispatchId, job.dispatchId = some dispatchId →
      ∃ before ∈ s.accepted, before.id = job.id ∧ before.createdAt = job.createdAt ∧
        before.dispatchId = some dispatchId) :
    Follows s { s with accepted := accepted } := by
  refine ⟨?_, ?recorded, List.Subset.refl _⟩
  case recorded =>
    intro key hkey hrecorded
    refine hrecorded.imp_right fun hnone job hjob hmark => ?_
    obtain ⟨before, hbefore, -, -, hsame⟩ := hmarked job hjob key.2 hmark
    exact hnone before hbefore hsame
  refine { h with marks := ?marks, held := ?held, created := hcreated, later := ?later }
  case marks =>
    intro job hjob dispatchId hmark
    obtain ⟨before, hbefore, hid, -, hsame⟩ := hmarked job hjob dispatchId hmark
    rw [← hid]
    exact h.marks before hbefore dispatchId hsame
  case held =>
    intro item hitem
    have hold := h.held item hitem
    refine ⟨hold.issued, hold.timeout, hold.time, fun job hjob hid dispatchId hmark => ?_⟩
    obtain ⟨before, hbefore, hbeforeId, -, hsame⟩ := hmarked job hjob dispatchId hmark
    exact hold.accepted before hbefore (hbeforeId.trans hid) dispatchId hsame
  case later =>
    intro job hjob dispatchId hmark time hcarried
    obtain ⟨before, hbefore, -, hsameTime, hsame⟩ := hmarked job hjob dispatchId hmark
    rw [← hsameTime]
    exact h.later before hbefore dispatchId hsame time hcarried

theorem Retained.repend (h : Retained s) (now : Int) (key : Int × String) :
    Follows s { s with accepted := s.accepted.map (rependRow now key) } := by
  apply h.accept
  · intro job hjob
    obtain ⟨before, hbefore, rfl⟩ := List.mem_map.mp hjob
    rcases rependRow_cases now key before with ⟨heq, -⟩ | ⟨-, -, heq⟩
    · rw [heq]
      exact h.created before hbefore
    · rw [heq]
      exact h.created before hbefore
  · intro job hjob dispatchId hmark
    obtain ⟨before, hbefore, rfl⟩ := List.mem_map.mp hjob
    rcases rependRow_cases now key before with ⟨heq, -⟩ | ⟨-, -, heq⟩
    · rw [heq] at hmark ⊢
      exact ⟨before, hbefore, rfl, rfl, hmark⟩
    · rw [heq] at hmark
      cases hmark

/-- The first delete of a cleanup: the rows it leaves were created at the cutoff or after it. -/
theorem Retained.cleanup_accepted (h : Retained s) {cutoff : Int} (hcutoff : cutoff ≤ s.clock) :
    Follows s { s with
      accepted := s.accepted.filter fun row => !(row.createdAt < cutoff : Bool)
      cutoffs := cutoff :: s.cutoffs } := by
  have hrows : ∀ job ∈ s.accepted.filter fun row => !(row.createdAt < cutoff : Bool),
      job ∈ s.accepted ∧ cutoff ≤ job.createdAt := by
    intro job hjob
    obtain ⟨hmem, hnew⟩ := List.mem_filter.mp hjob
    exact ⟨hmem, by simpa using hnew⟩
  have hremoved := h.accept (fun job hjob => h.created job (hrows job hjob).1)
    (fun job hjob dispatchId hmark => ⟨job, (hrows job hjob).1, rfl, rfl, hmark⟩)
  refine ⟨?_, hremoved.recorded, List.Subset.refl _⟩
  refine { hremoved.retained with cut := ?cut, later := ?later }
  case cut =>
    intro other hother
    rcases List.mem_cons.mp hother with rfl | hother
    · exact hcutoff
    · exact h.cut other hother
  case later =>
    intro job hjob dispatchId hmark time hcarried
    obtain ⟨hcreated, hcut⟩ := h.later job (hrows job hjob).1 dispatchId hmark time hcarried
    refine ⟨hcreated, fun other hother => ?_⟩
    rcases List.mem_cons.mp hother with rfl | hother
    · exact (hrows job hjob).2.trans hcreated
    · exact hcut other hother

/-- Executions may be rewritten when their times do not go back, and removed when no row is marked
with them. -/
theorem Retained.execute (h : Retained s) {executions : List Execution}
    (hissued : ∀ row ∈ executions, row.key ∈ s.issued)
    (htimes : ∀ row ∈ executions, ∀ time, row.Carries time →
      s.clock ≤ time ∨ ∃ earlier, earlier ≤ time ∧ Carried s row.dispatchId earlier)
    (hkept : ∀ row ∈ s.executions, (∃ job ∈ s.accepted, job.dispatchId = some row.dispatchId) →
      ∃ row' ∈ executions, row'.key = row.key) :
    Follows s { s with executions := executions } := by
  refine ⟨?_, ?recorded, List.Subset.refl _⟩
  case recorded =>
    intro key hkey hrecorded
    rcases hrecorded with ⟨row, hrow, rfl⟩ | hnone
    · by_cases hmarked : ∃ job ∈ s.accepted, job.dispatchId = some row.dispatchId
      · exact Or.inl (hkept row hrow hmarked)
      · exact Or.inr fun job hjob hmark => hmarked ⟨job, hjob, hmark⟩
    · exact Or.inr hnone
  refine { h with executed := hissued, later := ?later }
  case later =>
    intro job hjob dispatchId hmark time hcarried
    -- The time is new, and then not before the clock, or one from before has been moved up.
    have hold : s.clock ≤ time ∨ ∃ earlier, earlier ≤ time ∧ Carried s dispatchId earlier := by
      rcases hcarried with ⟨row, hrow, rfl, htime⟩ | hitem
      · exact htimes row hrow time htime
      · exact Or.inr ⟨time, Int.le_refl _, Or.inr hitem⟩
    rcases hold with hclock | ⟨earlier, hle, hearlier⟩
    · exact ⟨(h.created job hjob).trans hclock, fun cutoff hcutoff =>
        (h.cut cutoff hcutoff).trans hclock⟩
    · obtain ⟨hcreated, hcut⟩ := h.later job hjob dispatchId hmark earlier hearlier
      exact ⟨hcreated.trans hle, fun cutoff hcutoff => (hcut cutoff hcutoff).trans hle⟩

/-- Attempts end: at the time of the step, or at a time after their lease. -/
theorem Retained.finish (h : Retained s) {f : Execution → Execution}
    (hf : ∀ row, f row = row ∨ ∃ now outcome, f row = finished now row outcome ∧
      (s.clock ≤ now ∨ ∃ lease, row.leaseExpiresAt = some lease ∧ lease ≤ now)) :
    Follows s { s with executions := s.executions.map f } := by
  have hkey : ∀ row, (f row).key = row.key := by
    intro row
    rcases hf row with heq | ⟨now, outcome, heq, -⟩
    · rw [heq]
    · rw [heq, finished_key]
  apply h.execute
  · intro row' hrow'
    obtain ⟨row, hrow, rfl⟩ := List.mem_map.mp hrow'
    rw [hkey]
    exact h.executed row hrow
  · intro row' hrow' time htime
    obtain ⟨row, hrow, rfl⟩ := List.mem_map.mp hrow'
    rcases hf row with heq | ⟨now, outcome, heq, hnow⟩
    · rw [heq] at htime ⊢
      exact Or.inr ⟨time, Int.le_refl _, Or.inl ⟨row, hrow, rfl, htime⟩⟩
    · rw [heq] at htime ⊢
      simp only [Execution.Carries, finished_updatedAt, finished_leaseExpiresAt, reduceCtorEq,
        or_false] at htime
      subst htime
      refine hnow.imp_right fun ⟨lease, hlease, hle⟩ => ⟨lease, hle, Or.inl ⟨row, hrow, ?_⟩⟩
      exact ⟨(finished_dispatchId _ _ _).symm, Or.inr hlease⟩
  · intro row hrow _
    exact ⟨f row, List.mem_map_of_mem hrow, hkey row⟩

/-- No cutoff whose second delete is to come is after the last change of a marked attempt. -/
theorem Retained.marked_updatedAt (h : Retained s) {cutoff : Int} (hcutoff : cutoff ∈ s.cutoffs)
    {job : AcceptedJob} (hjob : job ∈ s.accepted) {row : Execution} (hrow : row ∈ s.executions)
    (hmarked : job.dispatchId = some row.dispatchId) : cutoff ≤ row.updatedAt :=
  (h.later job hjob row.dispatchId hmarked row.updatedAt
    (Or.inl ⟨row, hrow, rfl, Or.inl rfl⟩)).2 cutoff hcutoff

/-- The second delete of a cleanup: a row that is left keeps its attempt. -/
theorem Retained.cleanup_executions (h : Retained s) {cutoff : Int} (hcutoff : cutoff ∈ s.cutoffs) :
    Follows s { s with
      executions := s.executions.filter fun row => !(row.updatedAt < cutoff : Bool) } := by
  have hmem : ∀ {row}, row ∈ s.executions.filter (fun row => !(row.updatedAt < cutoff : Bool)) →
      row ∈ s.executions := fun hrow => (List.mem_filter.mp hrow).1
  apply h.execute
  · exact fun row hrow => h.executed row (hmem hrow)
  · intro row hrow time htime
    exact Or.inr ⟨time, Int.le_refl _, Or.inl ⟨row, hmem hrow, rfl, htime⟩⟩
  · rintro row hrow ⟨job, hjob, hmarked⟩
    have hle := h.marked_updatedAt hcutoff hjob hrow hmarked
    exact ⟨row, List.mem_filter.mpr ⟨hrow, by simpa using hle⟩, rfl⟩

/-- A lease ends at the time of its claim or later. -/
theorem le_dispatchRow_lease {claimedAt : Int} {entry : IngestClaimed}
    (htimeout : entry.timeoutSecs.toNat < 9223372036854775808)
    (htime : claimedAt < 9223372036854775808) :
    claimedAt ≤ (Store.dispatchRow claimedAt entry).leaseExpiresAt := by
  simp only [Store.dispatchRow, Store.asI64, if_pos htimeout, saturatingAdd, saturatingMul]
  omega

/-- A dispatch starts attempts for claimed rows. One that ended before and goes with it has no row
that is marked with it. -/
theorem Retained.dispatch (h : Retained s) {claimed : List IngestClaimed} {claimedAt : Int}
    (hdispatching : ∀ entry ∈ claimed, (entry, claimedAt) ∈ s.dispatching)
    {executions returned : List Execution}
    (hspec : DispatchSpec s.clock (claimed.map (Store.dispatchRow claimedAt)) s.executions executions
      returned) (hbefore : (s.executions.map Execution.jobId).Nodup)
    (hafter : (executions.map Execution.jobId).Nodup) :
    Follows s { s with executions := executions } := by
  have hcases : ∀ row ∈ executions, row ∈ s.executions ∨ ∃ entry ∈ claimed, ∃ before,
      IsDispatch s.clock (Store.dispatchRow claimedAt entry) before row := by
    intro row hrow
    rcases hspec.row_cases hafter hrow with hold | ⟨-, insert, hinsert, -, hdispatch⟩
    · exact Or.inl (Table.mem_of_lookup hold)
    · obtain ⟨entry, hentry, rfl⟩ := List.mem_map.mp hinsert
      exact Or.inr ⟨entry, hentry, _, hdispatch⟩
  apply h.execute
  · intro row hrow
    rcases hcases row hrow with hold | ⟨entry, hentry, before, hdispatch⟩
    · exact h.executed row hold
    · rw [hdispatch.key]
      exact (h.held _ (hdispatching entry hentry)).issued
  · intro row hrow time htime
    rcases hcases row hrow with hold | ⟨entry, hentry, before, hdispatch⟩
    · exact Or.inr ⟨time, Int.le_refl _, Or.inl ⟨row, hold, rfl, htime⟩⟩
    · rcases htime with rfl | hlease
      · exact Or.inl (Int.le_of_eq hdispatch.updatedAt.symm)
      · rw [hdispatch.leaseExpiresAt, Option.some.injEq] at hlease
        have hheld := h.held _ (hdispatching entry hentry)
        refine Or.inr ⟨claimedAt, hlease ▸ le_dispatchRow_lease hheld.timeout hheld.time, Or.inr ?_⟩
        exact ⟨_, hdispatching entry hentry, hdispatch.dispatchId.symm, rfl⟩
  · rintro row hrow ⟨job, hjob, hmarked⟩
    have hlookup := Table.lookup_of_mem hbefore hrow
    have hsame : Table.lookup Execution.jobId row.jobId executions =
        Table.lookup Execution.jobId row.jobId s.executions → ∃ row' ∈ executions,
          row'.key = row.key :=
      fun heq => ⟨row, Table.mem_of_lookup (heq.trans hlookup), rfl⟩
    by_cases hnamed : row.jobId ∈ (claimed.map (Store.dispatchRow claimedAt)).map
        DispatchInsert.jobId
    · by_cases havailable : Available (Table.lookup Execution.jobId row.jobId s.executions)
      · -- The new attempt is of the row that is marked with the old one, so they are the same.
        obtain ⟨insert, hinsert, hinsertId, attempt, hattempt, -, hdispatch⟩ :=
          hspec.started _ hnamed havailable
        obtain ⟨entry, hentry, rfl⟩ := List.mem_map.mp hinsert
        have hid : job.id = row.jobId := h.same_job hjob (h.executed row hrow) hmarked
        have hentryId : entry.id = row.jobId := hinsertId
        have hdispatchId := (h.held _ (hdispatching entry hentry)).accepted job hjob
          (hid.trans hentryId.symm) _ hmarked
        refine ⟨attempt, Table.mem_of_lookup hattempt, ?_⟩
        rw [hdispatch.key]
        exact Prod.ext hentryId hdispatchId.symm
      · exact hsame (hspec.busy _ havailable)
    · exact hsame (hspec.other _ hnamed)

theorem Retained.upsert (h : Retained s) {queues : List JobQueue}
    (hqueues : ∀ queue ∈ queues, queue.timeoutSecs.toNat < 9223372036854775808) :
    Follows s { s with queues := queues } := by
  exact ⟨{ h with queues := hqueues }, fun _ _ hrecorded => hrecorded, List.Subset.refl _⟩

/-- A row after a claim is as before, or carries a dispatch id that the claim has drawn for it. -/
theorem mem_map_claimedRow {now : Int} {claimed : List IngestClaimed} {accepted : List AcceptedJob}
    {job : AcceptedJob} (hjob : job ∈ accepted.map (claimedRow now claimed)) :
    ∃ before ∈ accepted, before.id = job.id ∧ before.createdAt = job.createdAt ∧
      ∀ dispatchId, job.dispatchId = some dispatchId → before.dispatchId = some dispatchId ∨
        ∃ entry ∈ claimed, entry.key = (job.id, dispatchId) := by
  obtain ⟨before, hbefore, rfl⟩ := List.mem_map.mp hjob
  refine ⟨before, hbefore, (claimedRow_id now claimed before).symm, ?_⟩
  rcases claimedRow_cases now claimed before with ⟨heq, -⟩ | ⟨entry, hentry, -, heq⟩
  · rw [heq]
    exact ⟨rfl, fun _ hmark => Or.inl hmark⟩
  · rw [heq]
    refine ⟨rfl, fun dispatchId hmark => Or.inr ⟨entry, Table.mem_of_lookup hentry, ?_⟩⟩
    have hid : entry.id = before.id := Table.key_of_lookup hentry
    exact Prod.ext hid (Option.some.inj hmark)

/-- A claim; no other one awaits its dispatch. -/
theorem Retained.claim (h : Retained s) (hids : (s.accepted.map AcceptedJob.id).Nodup) (now : Int)
    {queueName : String} {claimed : List IngestClaimed} {claimedAt : Int}
    (hclaimed : Claimed s.accepted queueName claimed) (hfresh : System.FreshIds s.issued claimed)
    (htimeouts : ∀ entry ∈ claimed, entry.timeoutSecs.toNat < 9223372036854775808)
    (hclock : s.clock ≤ claimedAt) (htime : claimedAt < 9223372036854775808) :
    Follows s { s with
      accepted := s.accepted.map (claimedRow now claimed)
      dispatching := claimed.map fun entry => (entry, claimedAt)
      issued := claimed.map IngestClaimed.key ++ s.issued } := by
  have hissued : ∀ {key}, key ∈ s.issued → key ∈ claimed.map IngestClaimed.key ++ s.issued :=
    fun hkey => List.mem_append_right _ hkey
  -- An attempt of the ledger is not one of the new ones.
  have hold : ∀ {job : AcceptedJob} {dispatchId : String},
      job ∈ s.accepted.map (claimedRow now claimed) → job.dispatchId = some dispatchId →
      dispatchId ∈ s.issued.map Prod.snd → ∃ before ∈ s.accepted,
        before.createdAt = job.createdAt ∧ before.dispatchId = some dispatchId := by
    intro job dispatchId hjob hmark hmem
    obtain ⟨before, hbefore, -, hcreated, hcases⟩ := mem_map_claimedRow hjob
    rcases hcases dispatchId hmark with hsame | ⟨entry, hentry, hkey⟩
    · exact ⟨before, hbefore, hcreated, hsame⟩
    · have hdispatch : entry.dispatchId = dispatchId := congrArg Prod.snd hkey
      exact absurd (hdispatch ▸ hmem) (hfresh.2 entry hentry)
  refine ⟨?_, ?recorded, fun _ hkey => hissued hkey⟩
  case recorded =>
    intro key hkey hrecorded
    refine hrecorded.imp_right fun hnone job hjob hmark => ?_
    obtain ⟨before, hbefore, -, hsame⟩ := hold hjob hmark (List.mem_map_of_mem hkey)
    exact hnone before hbefore hsame
  refine { h with
    ledger := hfresh.ledger h.ledger, marks := ?marks
    executed := fun row hrow => hissued (h.executed row hrow)
    held := ?held, created := ?created, later := ?later }
  case marks =>
    intro job hjob dispatchId hmark
    obtain ⟨before, hbefore, hid, -, hcases⟩ := mem_map_claimedRow hjob
    rcases hcases dispatchId hmark with hsame | ⟨entry, hentry, hkey⟩
    · rw [← hid]
      exact hissued (h.marks before hbefore dispatchId hsame)
    · rw [← hkey]
      exact List.mem_append_left _ (List.mem_map_of_mem hentry)
  case held =>
    intro item hitem
    obtain ⟨entry, hentry, rfl⟩ := List.mem_map.mp hitem
    refine ⟨List.mem_append_left _ (List.mem_map_of_mem hentry), htimeouts entry hentry, htime,
      fun job hjob hid dispatchId hmark => ?_⟩
    obtain ⟨before, hbefore, hbeforeId, -, hcases⟩ := mem_map_claimedRow hjob
    rcases hcases dispatchId hmark with hsame | ⟨other, hother, hkey⟩
    · -- The row was free before the claim.
      obtain ⟨row, hrow, hrowId, hfree, -⟩ := hclaimed.free entry hentry
      obtain rfl := List.inj_on_of_nodup_map hids hbefore hrow
        (hbeforeId.trans (hid.trans hrowId.symm))
      rw [hfree] at hsame
      cases hsame
    · obtain rfl := List.inj_on_of_nodup_map hclaimed.ids hother hentry
        ((congrArg Prod.fst hkey).trans hid)
      exact (congrArg Prod.snd hkey).symm
  case created =>
    intro job hjob
    obtain ⟨before, hbefore, -, hcreated, -⟩ := mem_map_claimedRow hjob
    rw [← hcreated]
    exact h.created before hbefore
  case later =>
    intro job hjob dispatchId hmark time hcarried
    rcases hcarried with ⟨row, hrow, rfl, hcarries⟩ | ⟨item, hitem, -, rfl⟩
    · obtain ⟨before, hbefore, hcreated, hsame⟩ := hold hjob hmark
        (List.mem_map_of_mem (h.executed row hrow))
      rw [← hcreated]
      exact h.later before hbefore _ hsame time (Or.inl ⟨row, hrow, rfl, hcarries⟩)
    · obtain ⟨entry, -, rfl⟩ := List.mem_map.mp hitem
      obtain ⟨before, hbefore, -, hcreated, -⟩ := mem_map_claimedRow hjob
      rw [← hcreated]
      exact ⟨(h.created before hbefore).trans hclock,
        fun cutoff hcutoff => (h.cut cutoff hcutoff).trans hclock⟩

/-! ### Steps -/

/-- A progress that neither awaits a dispatch nor has a delete to do. -/
def Progress.Timeless (progress : Progress) : Prop :=
  progress.collect Stage.dispatching = [] ∧ progress.collect Stage.cutoffs = []

theorem undoClaims_timeless (error : StoreError) (claimed : List IngestClaimed) :
    (Store.undoClaims error claimed).Timeless := by
  cases claimed <;> exact ⟨rfl, rfl⟩

theorem recoverItems_timeless (jobs : List Job) (items : List RecoveredStale) :
    (Store.recoverItems jobs items).Timeless := by
  cases items with
  | nil => exact ⟨rfl, rfl⟩
  | cons item rest =>
    rw [Store.recoverItems]
    split <;> exact ⟨rfl, rfl⟩

theorem composedJob_timeless (reader : Reader) (jobId : Int) (store : Store) :
    (store.composedJob reader jobId).Timeless := by
  unfold Store.composedJob
  split <;> exact ⟨rfl, rfl⟩

theorem releaseClaim_timeless (jobId : Int) (dispatchId : String) (store : Store) :
    (store.releaseClaim jobId dispatchId).Timeless := by
  unfold Store.releaseClaim
  split
  · exact ⟨rfl, rfl⟩
  · split <;> exact ⟨rfl, rfl⟩

theorem afterCompletion_timeless (request : PendingCompletion) (submitter : Submitter)
    (disposition : CompletionDisposition) :
    (Store.afterCompletion request submitter (.ok disposition)).Timeless := by
  cases submitter <;> cases disposition <;> exact ⟨rfl, rfl⟩

theorem faulted_timeless (error : StoreError) (stage : Stage) :
    (Store.faulted error stage).Timeless := by
  cases stage with
  | dispatch claimed claimedAt => exact undoClaims_timeless error claimed
  | undoClaim row rest first => exact undoClaims_timeless first rest
  | rependCompleted submitter jobId dispatchId => cases submitter <;> exact ⟨rfl, rfl⟩
  | _ => exact ⟨rfl, rfl⟩

theorem timeline_enter (sys : System) (store : Store) (progress : List Progress) (clock : Int) :
    (sys.enter store progress).1.timeline clock =
      { timeline store sys.pool sys.issued clock with
        dispatching := progress.flatMap (Progress.collect Stage.dispatching) ++
          collect Stage.dispatching sys.pool
        cutoffs := progress.flatMap (Progress.collect Stage.cutoffs) ++
          collect Stage.cutoffs sys.pool } := by
  simp only [System.timeline, timeline, collect_enter]
  rfl

theorem timeline_proceed (sys : System) (i id : Nat) (store : Store) (progress : Progress)
    (clock : Int) :
    (sys.proceed i id store progress).1.timeline clock =
      { timeline store sys.pool sys.issued clock with
        dispatching := progress.collect Stage.dispatching ++
          collect Stage.dispatching (sys.pool.eraseIdx i)
        cutoffs := progress.collect Stage.cutoffs ++
          collect Stage.cutoffs (sys.pool.eraseIdx i) } := by
  simp only [System.timeline, timeline, collect_proceed]
  rfl

section Steps

variable {sys : System} {store : Store} {clock : Int}

/-- A commit, and new calls that go on without a time. -/
theorem Follows.enter (h : Follows s (timeline store sys.pool sys.issued clock))
    {progress : List Progress} (htimeless : ∀ item ∈ progress, item.Timeless) :
    Follows s ((sys.enter store progress).1.timeline clock) := by
  rw [timeline_enter, flatMap_nil fun item hitem => (htimeless item hitem).1,
    flatMap_nil fun item hitem => (htimeless item hitem).2]
  exact h

/-- A commit, and a call in flight that goes on without a time. -/
theorem Follows.proceed (h : Follows s (timeline store sys.pool sys.issued clock)) {i id : Nat}
    {progress : Progress} (htimeless : progress.Timeless) :
    Follows s ((sys.proceed i id store progress).1.timeline clock) := by
  have hsubset : ∀ {α : Type} (f : Stage → List α),
      collect f (sys.pool.eraseIdx i) ⊆ collect f sys.pool := by
    intro α f x hx
    obtain ⟨entry, hentry, hx⟩ := List.mem_flatMap.mp hx
    exact List.mem_flatMap.mpr ⟨entry, List.mem_of_mem_eraseIdx hentry, hx⟩
  have hpass := h.retained.pass (hsubset Stage.dispatching) (hsubset Stage.cutoffs)
    (Int.le_refl clock)
  rw [timeline_proceed, htimeless.1, htimeless.2]
  exact h.trans hpass

theorem timeless_singleton {progress : Progress} (h : progress.Timeless) :
    ∀ item ∈ [progress], item.Timeless := by
  simpa using h

theorem Retained.enter_upsertQueue (h : Retained (sys.timeline clock)) (env : Env)
    (queue : JobQueue) :
    Follows (sys.timeline clock) ((sys.enter (sys.store.upsertQueue env queue).1
      [(sys.store.upsertQueue env queue).2]).1.timeline clock) := by
  unfold Store.upsertQueue IngestConn.upsertQueue
  cases hupsert : upsertQueueRow env.now queue sys.store.ingest.jobQueues with
  | error error => exact h.refl.enter (timeless_singleton ⟨rfl, rfl⟩)
  | ok result =>
    have hqueues := h.upsert fun other hother =>
      (upsertQueueRow_timeouts hupsert other hother).elim (h.queues other) id
    exact hqueues.enter (timeless_singleton ⟨rfl, rfl⟩)

theorem Retained.enter_enqueueBatch (h : Retained (sys.timeline clock)) {batch : List AcceptedJob}
    (hbatch : ∀ job ∈ batch, job.createdAt ≤ clock) :
    Follows (sys.timeline clock) ((sys.enter (sys.store.enqueueBatch batch).1
      (sys.store.enqueueBatch batch).2).1.timeline clock) := by
  have hcommit : Follows (sys.timeline clock)
      (timeline (sys.store.enqueueBatch batch).1 sys.pool sys.issued clock) := by
    simp only [Store.enqueueBatch, timeline, enqueueBatch_jobQueues]
    apply h.accept
    · intro row hrow
      rcases mem_enqueueBatch hrow with hold | ⟨-, job, hjob, hcreated⟩
      · exact h.created row hold
      · rw [hcreated]
        exact hbatch job hjob
    · intro row hrow dispatchId hmark
      rcases mem_enqueueBatch hrow with hold | ⟨hfree, -⟩
      · exact ⟨row, hold, rfl, rfl, hmark⟩
      · rw [hfree] at hmark
        cases hmark
  refine hcommit.enter fun item hitem => ?_
  obtain ⟨reply, -, rfl⟩ := List.mem_map.mp hitem
  exact ⟨rfl, rfl⟩

/-- The timeouts of the rows that a claim takes are those of the queues. -/
theorem Store.claimBatch_timeouts {env : Env} {newDispatchId : Nat → String} {claimedAt : Int}
    {queueName : String} {limit : Nat} {store store' : Store} {claimed : List IngestClaimed}
    {claimTime : Int}
    (h : store.claimBatch env newDispatchId claimedAt queueName limit =
      (store', .wait (.dispatch claimed claimTime))) {entry : IngestClaimed}
    (hentry : entry ∈ claimed) :
    ∃ queue ∈ store.ingest.jobQueues, entry.timeoutSecs = queue.timeoutSecs := by
  unfold Store.claimBatch at h
  split at h
  · simp at h
  · simp at h
  · next hclaim =>
    simp only [Prod.mk.injEq, Progress.wait.injEq, Stage.dispatch.injEq] at h
    obtain ⟨-, rfl, -⟩ := h
    exact IngestConn.claimBatch_timeouts hclaim hentry

theorem dispatching_eq_nil {pool : List (Nat × Stage)} (h : collect Stage.awaiting pool = []) :
    collect Stage.dispatching pool = [] := by
  apply flatMap_nil
  intro entry hentry
  have hnone := List.flatMap_eq_nil_iff.mp h entry hentry
  cases hstage : entry.2 with
  | dispatch claimed claimedAt =>
    rw [hstage] at hnone
    have hclaimed : claimed = [] := hnone
    rw [hclaimed]
    rfl
  | _ => rfl

theorem Retained.serve_claimBatch (h : Retained (sys.timeline clock)) (hformed : sys.store.WellFormed)
    {env : Env} {newDispatchId : Nat → String} {claimedAt : Int} {queueName : String} {limit : Nat}
    (hclock : clock ≤ claimedAt) (htime : claimedAt < 9223372036854775808)
    (halone : collect Stage.awaiting sys.pool = []) {sys' : System} {replied : Replied}
    (hstep : sys.serve (.claimBatch env newDispatchId claimedAt queueName limit) =
      some (sys', replied)) :
    Follows (sys.timeline clock) (sys'.timeline clock) := by
  simp only [System.serve] at hstep
  split at hstep
  · next hfresh =>
    obtain ⟨rfl, -⟩ := eq_of_some_eq hstep
    rcases Store.claimBatch_cases env newDispatchId claimedAt queueName limit hformed.ids with
      ⟨result, heq, -⟩ | ⟨claimed, -, heq, hclaimed⟩
    · rw [heq]
      exact h.refl.enter (timeless_singleton ⟨rfl, rfl⟩)
    · have htimeouts : ∀ entry ∈ claimed, entry.timeoutSecs.toNat < 9223372036854775808 := by
        intro entry hentry
        obtain ⟨queue, hqueue, hsame⟩ := Store.claimBatch_timeouts heq hentry
        rw [hsame]
        exact h.queues queue hqueue
      rw [heq] at hfresh ⊢
      have hclaim := h.claim hformed.ids env.now hclaimed hfresh htimeouts hclock htime
      have henter : Follows (sys.timeline clock)
          { (sys.enter { sys.store with ingest := { sys.store.ingest with
              acceptedJobs := sys.store.ingest.acceptedJobs.map (claimedRow env.now claimed) } }
              [.wait (.dispatch claimed claimedAt)]).1.timeline clock with
            issued := claimed.map IngestClaimed.key ++ sys.issued } := by
        rw [timeline_enter, dispatching_eq_nil halone, List.append_nil, List.flatMap_singleton]
        exact hclaim
      exact henter
  · cases hstep

theorem Retained.enter_completeBatch (h : Retained (sys.timeline clock))
    (hformed : sys.store.WellFormed) {env : Env} (hnow : env.now = clock)
    (batch : List (PendingCompletion × Submitter)) :
    Follows (sys.timeline clock) ((sys.enter (sys.store.completeBatch env batch).1
      (sys.store.completeBatch env batch).2).1.timeline clock) := by
  obtain ⟨dispositions, heq, -⟩ := Store.completeBatch_eq env batch hformed.valid
  rw [heq]
  have hfinish := h.finish (f := batchRow env (batch.map Prod.fst)) fun row => by
    rcases batchRow_cases env (batch.map Prod.fst) row with ⟨-, hsame⟩ | ⟨request, -, -, hsame⟩
    · exact Or.inl hsame
    · exact Or.inr ⟨env.now, request.outcome, hsame, Or.inl (Int.le_of_eq hnow.symm)⟩
  refine hfinish.enter fun item hitem => ?_
  obtain ⟨answered, -, rfl⟩ := List.mem_map.mp hitem
  exact afterCompletion_timeless _ _ _

theorem Retained.enter_recoverStaleLeases (h : Retained (sys.timeline clock))
    (hformed : sys.store.WellFormed) (choice : Table.Choice) (now : Int) :
    Follows (sys.timeline clock) ((sys.enter (sys.store.recoverStaleLeases choice now).1
      [(sys.store.recoverStaleLeases choice now).2]).1.timeline clock) := by
  rcases Store.recoverStaleLeases_cases choice now hformed.valid with
    ⟨error, heq⟩ | ⟨recovered, heq, -⟩
  · rw [heq]
    exact h.refl.enter (timeless_singleton ⟨rfl, rfl⟩)
  · rw [heq]
    have hfinish := h.finish (f := recoverRow now) fun row => by
      rcases recoverRow_cases now row with ⟨-, hsame⟩ | ⟨-, hexpired, hsame⟩
      · exact Or.inl hsame
      · obtain ⟨lease, hlease, hlt⟩ := leaseExpired_lease hexpired
        exact Or.inr ⟨now, _, hsame, Or.inr ⟨lease, hlease, Int.le_of_lt hlt⟩⟩
    exact hfinish.enter (timeless_singleton (recoverItems_timeless [] recovered))

theorem Retained.enter_cleanupIngest (h : Retained (sys.timeline clock)) {cutoff : Int}
    (hcutoff : cutoff ≤ clock) :
    Follows (sys.timeline clock) ((sys.enter (sys.store.cleanupIngest cutoff).1
      [(sys.store.cleanupIngest cutoff).2]).1.timeline clock) := by
  rw [timeline_enter]
  exact h.cleanup_accepted hcutoff

theorem Retained.proceed_dispatch (h : Retained (sys.timeline clock))
    (hformed : sys.store.WellFormed) {env : Env} (hnow : env.now = clock) {i id : Nat}
    {claimed : List IngestClaimed} {claimedAt : Int}
    (hentry : sys.pool[i]? = some (id, .dispatch claimed claimedAt)) :
    Follows (sys.timeline clock) ((sys.proceed i id (sys.store.dispatch env claimed claimedAt).1
      (sys.store.dispatch env claimed claimedAt).2).1.timeline clock) := by
  have hdispatching : ∀ entry ∈ claimed, (entry, claimedAt) ∈ (sys.timeline clock).dispatching := by
    intro entry hmem
    exact (mem_collect_iff Stage.dispatching hentry).mpr (Or.inl (List.mem_map_of_mem hmem))
  unfold Store.dispatch
  rcases dispatchBatch_cases env (claimed.map (Store.dispatchRow claimedAt)) sys.store.results with
    ⟨error, heq, -⟩ | ⟨executions, returned, byJob, heq, hspec, -, hvalid⟩
  · rw [heq]
    exact h.refl.proceed (undoClaims_timeless error claimed)
  · rw [heq]
    rw [hnow] at hspec
    have hdispatch := h.dispatch hdispatching hspec hformed.valid.jobs (hvalid hformed.valid).jobs
    cases collectDispatched (claimed.map (Store.dispatchRow claimedAt)) byJob with
    | error error => exact hdispatch.proceed (undoClaims_timeless error claimed)
    | ok out => exact hdispatch.proceed ⟨rfl, rfl⟩

/-- A call in flight that repends a row and goes on. -/
theorem Retained.proceed_repend (h : Retained (sys.timeline clock)) (env : Env) (jobId : Int)
    (dispatchId : String) {i id : Nat} {progress : Progress} (htimeless : progress.Timeless) :
    Follows (sys.timeline clock) ((sys.proceed i id (sys.store.repend env jobId dispatchId)
      progress).1.timeline clock) := by
  have hrepend := h.repend env.now (jobId, dispatchId)
  rw [Store.repend_eq]
  exact hrepend.proceed htimeless

/-- Every later step of a call. -/
theorem Retained.proceed_advance (h : Retained (sys.timeline clock))
    (hformed : sys.store.WellFormed) {env : Env} (hnow : env.now = clock) {i id : Nat}
    {stage : Stage} (hentry : sys.pool[i]? = some (id, stage)) :
    Follows (sys.timeline clock) ((sys.proceed i id (sys.store.advance env stage).1
      (sys.store.advance env stage).2).1.timeline clock) := by
  cases stage with
  | upsertResults queue =>
    simp only [Store.advance, ResultsConn.upsertQueue]
    cases upsertQueueRow env.now queue sys.store.results.executionQueues with
    | error error => exact h.refl.proceed ⟨rfl, rfl⟩
    | ok result => exact h.refl.proceed ⟨rfl, rfl⟩
  | dispatch claimed claimedAt => exact h.proceed_dispatch hformed hnow hentry
  | undoClaim row rest error => exact h.proceed_repend env _ _ (undoClaims_timeless error rest)
  | rependCompleted submitter jobId dispatchId =>
    cases submitter <;> exact h.proceed_repend env jobId dispatchId ⟨rfl, rfl⟩
  | readAccepted jobId => exact h.refl.proceed (composedJob_timeless _ _ _)
  | readExecution reader accepted => exact h.refl.proceed ⟨rfl, rfl⟩
  | rependStale item rest jobs => exact h.proceed_repend env _ _ ⟨rfl, rfl⟩
  | readStaleAccepted item rest jobs =>
    simp only [Store.advance]
    cases sys.store.ingest.acceptedRow item.jobId with
    | error error => exact h.refl.proceed ⟨rfl, rfl⟩
    | ok accepted => exact h.refl.proceed ⟨rfl, rfl⟩
  | readStaleExecution accepted rest jobs =>
    simp only [Store.advance]
    cases sys.store.results.readExecution accepted.id with
    | error error => exact h.refl.proceed ⟨rfl, rfl⟩
    | ok execution => exact h.refl.proceed (recoverItems_timeless _ _)
  | abandon jobId dispatchId =>
    have hfinish := h.finish (f := abandonRow env.now (jobId, dispatchId)) fun row => by
      rcases abandonRow_cases env.now (jobId, dispatchId) row with ⟨-, hsame⟩ | ⟨-, hsame⟩
      · exact Or.inl hsame
      · exact Or.inr ⟨env.now, _, hsame, Or.inl (Int.le_of_eq hnow.symm)⟩
    exact hfinish.proceed ⟨rfl, rfl⟩
  | rependReleased jobId dispatchId => exact h.proceed_repend env jobId dispatchId ⟨rfl, rfl⟩
  | cleanupResults cutoff deleted =>
    have hcutoff : cutoff ∈ (sys.timeline clock).cutoffs :=
      (mem_collect_iff Stage.cutoffs hentry).mpr (Or.inl (List.mem_singleton_self _))
    exact (h.cleanup_executions hcutoff).proceed ⟨rfl, rfl⟩

theorem Retained.serve (h : Retained (sys.timeline clock)) (hformed : sys.store.WellFormed)
    {action : Action} (hreads : action.ReadsClock clock) (halone : ClaimsAlone sys action)
    {sys' : System} {replied : Replied} (hstep : sys.serve action = some (sys', replied)) :
    Follows (sys.timeline clock) (sys'.timeline clock) := by
  cases action with
  | upsertQueue env queue =>
    obtain ⟨rfl, -⟩ := eq_of_some_eq hstep
    exact h.enter_upsertQueue env queue
  | enqueue batch =>
    obtain ⟨rfl, -⟩ := eq_of_some_eq hstep
    exact h.enter_enqueueBatch hreads
  | claimBatch env newDispatchId claimedAt queueName limit =>
    exact h.serve_claimBatch hformed hreads.2.1 hreads.2.2 halone hstep
  | complete env batch =>
    obtain ⟨rfl, -⟩ := eq_of_some_eq hstep
    exact h.enter_completeBatch hformed hreads batch
  | releaseClaim jobId dispatchId =>
    obtain ⟨rfl, -⟩ := eq_of_some_eq hstep
    exact h.refl.enter (timeless_singleton (releaseClaim_timeless _ _ _))
  | recoverStaleLeases choice now =>
    obtain ⟨rfl, -⟩ := eq_of_some_eq hstep
    exact h.enter_recoverStaleLeases hformed choice now
  | cleanupExpiredRecords cutoff =>
    obtain ⟨rfl, -⟩ := eq_of_some_eq hstep
    exact h.enter_cleanupIngest hreads
  | getJob jobId =>
    obtain ⟨rfl, -⟩ := eq_of_some_eq hstep
    exact h.refl.enter (timeless_singleton (composedJob_timeless _ _ _))
  | resume env i =>
    obtain ⟨id, stage, hentry, rfl, -⟩ := serve_resume hstep
    exact h.proceed_advance hformed hreads hentry
  | fault error i =>
    obtain ⟨id, stage, -, rfl, -⟩ := serve_fault hstep
    exact h.refl.proceed (faulted_timeless error stage)
  | crash =>
    obtain ⟨rfl, -⟩ := eq_of_some_eq hstep
    exact h.pass (List.nil_subset _) (List.nil_subset _) (Int.le_refl _)
  | reopen choice => cases hstep
  | heal env => cases hstep

end Steps

/-- Every step at its time keeps the times in order and the recorded attempts recorded. -/
theorem Clocked.step_follows {state state' : Clocked} {action : Action × Int} {replied : Replied}
    (h : Retained (state.1.timeline state.2)) (hformed : state.1.store.WellFormed)
    (hok : Admits state action) (hstep : step state action = some (state', replied)) :
    Follows (state.1.timeline state.2) (state'.1.timeline state'.2) := by
  obtain ⟨hclock, htime, hstep⟩ := step_cases hstep
  have hpass : Follows (state.1.timeline state.2) (state.1.timeline action.2) :=
    h.pass (List.Subset.refl _) (List.Subset.refl _) hclock
  rw [htime]
  refine hpass.trans ?_
  rcases Maqistor.step_cases hstep with ⟨-, hserve⟩ | ⟨-, -, names, phase, hsys⟩ |
    ⟨env, key, rest, -, -, hsys⟩
  · exact hpass.retained.serve hformed hok.1 hok.2 hserve
  · rw [hsys]
    exact hpass.retained.refl
  · rw [hsys]
    rcases healOrphan_cases env key state.1.store with ⟨-, heq⟩ | heq
    · rw [heq]
      exact hpass.retained.refl
    · rw [heq, Store.repend_eq]
      exact hpass.retained.repend env.now key

theorem initial_retained (clock : Int) : Retained (System.initial.timeline clock) := by
  constructor <;> simp [System.initial, System.timeline, timeline, collect]

/-! ### Runs -/

theorem Clocked.run_retained {start : Int} {state : Clocked} {events : List Replied}
    (h : Run (System.initial, start) events state) :
    state.1.store.WellFormed ∧ Retained (state.1.timeline state.2) := by
  refine h.invariant (fun state => state.1.store.WellFormed ∧ Retained (state.1.timeline state.2))
    ⟨initial_wellFormed, initial_retained start⟩ ?_
  rintro state state' action replied ⟨hformed, hretained⟩ hok hstep
  exact ⟨step_wellFormed hformed (step_cases hstep).2.2,
    (step_follows hretained hformed hok hstep).retained⟩

/-- What a run has recorded stays recorded as it goes on. -/
theorem Clocked.run_recorded {state state' : Clocked} {events : List Replied}
    (h : Run state events state') (hformed : state.1.store.WellFormed)
    (hretained : Retained (state.1.timeline state.2)) {attempt : Execution}
    (hattempt : attempt ∈ state.1.store.results.executions) :
    Retained (state'.1.timeline state'.2) ∧ Recorded (state'.1.timeline state'.2) attempt.key := by
  have hall := h.invariant (fun state => state.1.store.WellFormed ∧
    Retained (state.1.timeline state.2) ∧ attempt.key ∈ state.1.issued ∧
    Recorded (state.1.timeline state.2) attempt.key) ?start ?step
  case start =>
    exact ⟨hformed, hretained, hretained.executed attempt hattempt, Or.inl ⟨attempt, hattempt, rfl⟩⟩
  case step =>
    rintro state state' action replied ⟨hformed, hretained, hissued, hrecorded⟩ hok hstep
    have hfollows := step_follows hretained hformed hok hstep
    exact ⟨step_wellFormed hformed (step_cases hstep).2.2, hfollows.retained,
      hfollows.issued hissued, hfollows.recorded _ hissued hrecorded⟩
  exact ⟨hall.2.1, hall.2.2.2⟩

/-- `heal_orphan_claims` leaves a row whose attempt has an execution as it is. -/
theorem heal_keeps_marked {sys sys' : System} {env : Env} {replied : Replied}
    (hstep : sys.step (.heal env) = some (sys', replied)) {job : AcceptedJob}
    (hjob : job ∈ sys.store.ingest.acceptedJobs) {row : Execution}
    (hrow : row ∈ sys.store.results.executions) (hmarked : job.dispatchId = some row.dispatchId) :
    job ∈ sys'.store.ingest.acceptedJobs := by
  cases step_moves hstep with
  | start issued hphase hstart => cases hstart
  | opened env hphase => exact hjob
  | @heal key rest env hphase =>
    unfold Store.healOrphan
    split
    · exact hjob
    · next hnone =>
      rw [Store.repend_eq]
      refine List.mem_map.mpr ⟨job, hjob, ?_⟩
      rcases rependRow_cases env.now key job with ⟨heq, -⟩ | ⟨-, hsame, -⟩
      · exact heq
      · rw [hmarked, Option.some.injEq] at hsame
        exact absurd (List.any_eq_true.mpr ⟨row, hrow, by simp [hsame]⟩) hnone

/-- Along one clock, whatever a run does after an attempt has been recorded, cleanups cut in two and
crashes included: a row that is still marked with the attempt has its execution, the second delete
of a cleanup leaves that execution, and a round of `heal_orphan_claims` leaves the row. -/
theorem cleanup_retains_attempts {start clock clock' : Int} {sys sys' : System}
    {events more : List Replied}
    (hrun : Clocked.Run (System.initial, start) events (sys, clock)) {attempt : Execution}
    (hattempt : attempt ∈ sys.store.results.executions)
    (hmore : Clocked.Run (sys, clock) more (sys', clock')) {job : AcceptedJob}
    (hjob : job ∈ sys'.store.ingest.acceptedJobs)
    (hmarked : job.dispatchId = some attempt.dispatchId) :
    (∃ row ∈ sys'.store.results.executions, row.key = attempt.key) ∧
    (∀ i id cutoff deleted env sys'' replied,
      sys'.pool[i]? = some (id, .cleanupResults cutoff deleted) →
      sys'.step (.resume env i) = some (sys'', replied) →
      ∀ row ∈ sys'.store.results.executions, row.key = attempt.key →
        row ∈ sys''.store.results.executions) ∧
    ∀ env sys'' replied, sys'.step (.heal env) = some (sys'', replied) →
      job ∈ sys''.store.ingest.acceptedJobs := by
  obtain ⟨hformed, hretained⟩ := Clocked.run_retained hrun
  obtain ⟨hretained', hrecorded⟩ := Clocked.run_recorded hmore hformed hretained hattempt
  obtain ⟨row, hrow, hkey⟩ := hrecorded.resolve_right fun hnone => hnone job hjob hmarked
  refine ⟨⟨row, hrow, hkey⟩, ?_, ?_⟩
  · intro i id cutoff deleted env sys'' replied hentry hstep other hother hotherKey
    have hcutoff : cutoff ∈ (sys'.timeline clock').cutoffs :=
      (mem_collect_iff Stage.cutoffs hentry).mpr (Or.inl (List.mem_singleton_self _))
    have hdispatch : other.dispatchId = attempt.dispatchId := congrArg Prod.snd hotherKey
    have hle := hretained'.marked_updatedAt hcutoff hjob hother (hdispatch ▸ hmarked)
    cases step_moves hstep with
    | start issued hphase hstart => cases hstart
    | resume env hphase hfound =>
      obtain ⟨rfl, rfl⟩ := Prod.mk.inj (Option.some.inj (hfound.symm.trans hentry))
      exact List.mem_filter.mpr ⟨hother, by simpa using hle⟩
  · intro env sys'' replied hstep
    have hdispatch : row.dispatchId = attempt.dispatchId := congrArg Prod.snd hkey
    exact heal_keeps_marked hstep hjob hrow (hdispatch ▸ hmarked)

/-- A job that has completed, and a newer one that is running. -/
def completedAndRunning : System where
  store := mailStore [⟨1, "mail", [1], some "a0", 1, 2⟩, ⟨2, "mail", [2], some "b0", 5, 7⟩]
    [⟨1, 1, "mail", .completed, 1, none, "a0", some [7], none, 2, 3⟩,
      ⟨2, 2, "mail", .running, 1, some 30007, "b0", none, none, 8, 8⟩]
  phase := .serving
  pool := []
  nextCall := 6
  issued := [(2, "b0"), (1, "a0")]

/-- After a cleanup and a crash: the newer job, which has completed between the two deletes. -/
def cleanedAndReopened : System where
  store := mailStore [⟨2, "mail", [2], some "b0", 5, 7⟩]
    [⟨2, 2, "mail", .completed, 1, none, "b0", some [8], none, 8, 11⟩]
  phase := .healing [(2, "b0")]
  pool := []
  nextCall := 8
  issued := [(2, "b0"), (1, "a0")]

theorem cleanup_retains_attempts_reopened :
    Runs.Reachable Clocked.step Clocked.Admits (System.initial, 0) (completedAndRunning, 8) ∧
      Runs.Reachable Clocked.step Clocked.Admits (completedAndRunning, 8)
        (cleanedAndReopened, 13) ∧
      (∃ row ∈ cleanedAndReopened.store.results.executions, row.key = (2, "b0")) ∧
      ∀ env sys' replied, cleanedAndReopened.step (.heal env) = some (sys', replied) →
        ⟨2, "mail", [2], some "b0", 5, 7⟩ ∈ sys'.store.ingest.acceptedJobs := by
  obtain ⟨events, hrun⟩ : Runs.Reachable Clocked.step Clocked.Admits (System.initial, 0)
      (completedAndRunning, 8) :=
    .of_exec [(.upsertQueue (.atTime 0) mailQueue, 0), (.resume (.atTime 0) 0, 0),
      (.enqueue [⟨0, "mail", [1], none, 1, 1⟩], 1), (mailClaim "a" 2 1, 2),
      (.resume (.atTime 2) 0, 2),
      (.complete (.atTime 3) [(⟨1, "a0", .succeeded [7]⟩, .completeWorkerResult)], 3),
      (.enqueue [⟨0, "mail", [2], none, 5, 5⟩], 6), (mailClaim "b" 7 1, 7),
      (.resume (.atTime 8) 0, 8)] (by decide)
  obtain ⟨more, hmore⟩ : Runs.Reachable Clocked.step Clocked.Admits (completedAndRunning, 8)
      (cleanedAndReopened, 13) :=
    .of_exec [(.cleanupExpiredRecords 5, 10),
      (.complete (.atTime 11) [(⟨2, "b0", .succeeded [8]⟩, .completeWorkerResult)], 11),
      (.resume (.atTime 12) 0, 12), (.crash, 13), (.reopen Table.Choice.first, 13)] (by decide)
  obtain ⟨hkept, -, hhealed⟩ := cleanup_retains_attempts hrun
    (List.mem_cons_of_mem _ (List.mem_singleton_self _)) hmore (List.mem_singleton_self _) rfl
  exact ⟨⟨events, hrun⟩, ⟨more, hmore⟩, hkept, hhealed⟩

end Maqistor
