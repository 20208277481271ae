import Maqistor.Results.Dispatch

/-! When `dispatch_batch` commits. For rows of distinct jobs under new dispatch ids it rolls back
exactly when a job that it could dispatch cannot be started; a job that runs already or is done does
not stop the commit, and is only noticed when the answer is put together. -/

namespace Maqistor.ResultsConn

/-- What the insert or the update of an available job needs: a queue to refer to, and a count that
fits. -/
structure Startable (queues : List JobQueue) (queueName : String) (execution : Option Execution) :
    Prop where
  queue : execution = none → queueName ∈ queues.map JobQueue.name
  count : FitsU32 (attempts execution + 1)

/-- Rows that a dispatch can be given: distinct jobs, and dispatch ids that are new. -/
structure FreshRows (rows : List DispatchInsert) (executions : List Execution) : Prop where
  jobs : (rows.map DispatchInsert.jobId).Nodup
  dispatches : (rows.map DispatchInsert.dispatchId).Nodup
  unused : ∀ row ∈ rows, ∀ other ∈ executions, other.dispatchId ≠ row.dispatchId

section Commit

variable {env : Env} {now : Int} {queues : List JobQueue} {rows rows' : List DispatchInsert}
  {executions executions' returned : List Execution} {row : DispatchInsert}

/-- The rows that are still to come, after some have been dispatched. -/
theorem FreshRows.rest (h : FreshRows (rows ++ rows') executions)
    (hspec : DispatchSpec now rows executions executions' returned)
    (hjobs : (executions'.map Execution.jobId).Nodup) : FreshRows rows' executions' := by
  have hdispatches := h.dispatches
  rw [List.map_append, List.nodup_append] at hdispatches
  refine ⟨?_, hdispatches.2.1, fun row hrow other hother => ?_⟩
  · have := h.jobs
    rw [List.map_append] at this
    exact this.of_append_right
  · rcases hspec.row_cases hjobs hother with hbefore | ⟨-, source, hsource, -, hdispatch⟩
    · exact h.unused row (List.mem_append_right _ hrow) other (Table.mem_of_lookup hbefore)
    · rw [hdispatch.dispatchId]
      exact hdispatches.2.2 _ (List.mem_map_of_mem hsource) _ (List.mem_map_of_mem hrow)

/-- Dispatching some jobs leaves the executions of the others. -/
theorem FreshRows.lookup_rest (h : FreshRows (rows ++ rows') executions)
    (hspec : DispatchSpec now rows executions executions' returned) (hrow : row ∈ rows') :
    Table.lookup Execution.jobId row.jobId executions' =
      Table.lookup Execution.jobId row.jobId executions := by
  have hjobs := h.jobs
  rw [List.map_append, List.nodup_append] at hjobs
  exact hspec.other row.jobId fun hmem => hjobs.2.2 _ hmem _ (List.mem_map_of_mem hrow) rfl

theorem upsertExecution_ok (hunused : ∀ other ∈ executions, other.dispatchId ≠ row.dispatchId)
    (hqueue : Table.lookup Execution.jobId row.jobId executions = none →
      row.queueName ∈ queues.map JobQueue.name) :
    ∃ result, upsertExecution now queues row executions = .ok result := by
  unfold upsertExecution
  cases hlookup : Table.lookup Execution.jobId row.jobId executions with
  | none =>
    have hany : (executions.any fun other => other.dispatchId = row.dispatchId) = false := by
      simpa using hunused
    simp [hany, hqueue hlookup]
  | some current =>
    have hany : (executions.any fun other =>
        other.jobId ≠ row.jobId ∧ other.dispatchId = row.dispatchId) = false := by
      simp only [List.any_eq_false, decide_eq_true_eq, not_and]
      exact fun other hother _ => hunused other hother
    simp only [hany]
    split
    · exact ⟨_, rfl⟩
    · exact ⟨_, rfl⟩

/-- Every available job among some rows can be started. -/
def AllStartable (queues : List JobQueue) (rows : List DispatchInsert) (executions : List Execution) :
    Prop :=
  ∀ row ∈ rows, Available (Table.lookup Execution.jobId row.jobId executions) →
    Startable queues row.queueName (Table.lookup Execution.jobId row.jobId executions)

theorem AllStartable.rest (h : AllStartable queues (rows ++ rows') executions)
    (hfresh : FreshRows (rows ++ rows') executions)
    (hspec : DispatchSpec now rows executions executions' returned) :
    AllStartable queues rows' executions' := by
  intro row hrow havailable
  rw [hfresh.lookup_rest hspec hrow] at havailable ⊢
  exact h row (List.mem_append_right _ hrow) havailable

theorem upsertExecutions_ok (hfresh : FreshRows rows executions) (hvalid : Valid queues executions)
    (hstart : AllStartable queues rows executions) :
    ∃ result, upsertExecutions now queues rows executions = .ok result := by
  induction rows generalizing executions with
  | nil => exact ⟨_, rfl⟩
  | cons row rows ih =>
    obtain ⟨⟨middle, first⟩, hfirst⟩ := @upsertExecution_ok now queues executions row
      (hfresh.unused row List.mem_cons_self) fun hnone => by
        have hrow := hstart row List.mem_cons_self
        rw [hnone] at hrow
        exact (hrow (by simp [Available])).queue rfl
    have hspec := upsertExecution_spec hfirst
    have hmiddle := upsertExecution_valid hfirst hvalid
    obtain ⟨⟨final, rest⟩, hrest⟩ := ih (hfresh.rest hspec hmiddle.jobs) hmiddle
      (hstart.rest hfresh hspec)
    refine ⟨(final, first.toList ++ rest), ?_⟩
    rw [upsertExecutions, hfirst]
    simp only [bind, Except.bind, hrest]
    rfl

/-- The counts that a statement returns are those that the jobs can be started with. -/
theorem DispatchSpec.returned_fits (hspec : DispatchSpec now rows executions executions' returned)
    (hstart : AllStartable queues rows executions) {attempt : Execution} (h : attempt ∈ returned) :
    FitsU32 attempt.executionCount := by
  obtain ⟨hmem, havailable, hlookup⟩ := hspec.returns attempt h
  obtain ⟨row, hrow, hjob, found, hfound, -, hdispatch⟩ := hspec.started _ hmem havailable
  obtain rfl : attempt = found := Option.some.inj (hlookup.symm.trans hfound)
  rw [hdispatch.executionCount]
  rw [← hjob] at havailable ⊢
  exact (hstart row hrow havailable).count

theorem dispatchChunk_commits {state : List Execution × List DispatchedExecution}
    (hfresh : FreshRows rows state.1) (hvalid : Valid queues state.1)
    (hstart : AllStartable queues rows state.1) :
    ∃ state', dispatchChunk env queues state rows = .ok state' := by
  obtain ⟨⟨executions, returned⟩, hupsert⟩ := @upsertExecutions_ok env.now queues rows _ hfresh hvalid
    hstart
  have hspec := (upsertExecutions_spec hupsert).1
  have hentries : ∀ attempt ∈ env.choice.order returned, toDispatched rows attempt =
      .ok { jobId := attempt.jobId, executionCount := attempt.executionCount
            dispatchId := attempt.dispatchId, leaseExpiresAt := leaseById rows attempt.jobId
            updatedAt := attempt.updatedAt } := by
    intro attempt hattempt
    have hfits := hspec.returned_fits hstart (env.choice.mem_order.mp hattempt)
    simp only [toDispatched, u32TryFrom_of_fits hfits]
    rfl
  rw [dispatchChunk, hupsert]
  simp only [bind, Except.bind, Outcome.mapM_of_ok hentries]
  exact ⟨_, rfl⟩

/-- Rows of distinct jobs under new ids commit when every available job can be started. -/
theorem foldlM_dispatchChunk_commits (chunks : List (List DispatchInsert))
    {state : List Execution × List DispatchedExecution} (hfresh : FreshRows chunks.flatten state.1)
    (hvalid : Valid queues state.1) (hstart : AllStartable queues chunks.flatten state.1) :
    ∃ state', chunks.foldlM (dispatchChunk env queues) state = .ok state' := by
  induction chunks generalizing state with
  | nil => exact ⟨state, rfl⟩
  | cons chunk chunks ih =>
    rw [List.flatten_cons] at hfresh hstart
    have hfirst : FreshRows chunk state.1 := by
      refine ⟨?_, ?_, fun row hrow => hfresh.unused row (List.mem_append_left _ hrow)⟩
      · have := hfresh.jobs
        rw [List.map_append] at this
        exact this.of_append_left
      · have := hfresh.dispatches
        rw [List.map_append] at this
        exact this.of_append_left
    obtain ⟨middle, hmiddle⟩ := @dispatchChunk_commits env queues chunk state hfirst hvalid
      fun row hrow => hstart row (List.mem_append_left _ hrow)
    obtain ⟨returned, hspec, hkeep, -⟩ := dispatchChunk_ok hmiddle
    obtain ⟨state', hstate'⟩ := ih (hfresh.rest hspec (hkeep hvalid).jobs) (hkeep hvalid)
      (hstart.rest hfresh hspec)
    refine ⟨state', ?_⟩
    rw [List.foldlM_cons, hmiddle]
    exact hstate'

/-! ### The entries of `by_job` -/

/-- An entry of `by_job`: its count has been converted, and its lease is that of a row for its
job. -/
structure Entered (rows : List DispatchInsert) (entry : DispatchedExecution) : Prop where
  count : 0 ≤ entry.executionCount
  lease : ∃ row ∈ rows, row.jobId = entry.jobId ∧ entry.leaseExpiresAt = row.leaseExpiresAt

theorem Entered.mono {entry : DispatchedExecution} (h : Entered rows entry)
    (hsub : ∀ row ∈ rows, row ∈ rows') : Entered rows' entry := by
  obtain ⟨row, hrow, hrest⟩ := h.lease
  exact ⟨h.count, row, hsub row hrow, hrest⟩

theorem leaseById_mem {jobId : Int} (h : jobId ∈ rows.map DispatchInsert.jobId) :
    ∃ row ∈ rows, row.jobId = jobId ∧ leaseById rows jobId = row.leaseExpiresAt := by
  unfold leaseById
  cases hlookup : Table.lookup DispatchInsert.jobId jobId rows.reverse with
  | none =>
    obtain ⟨row, hrow, hjob⟩ := List.mem_map.mp h
    exact absurd hjob (Table.lookup_eq_none.mp hlookup row (List.mem_reverse.mpr hrow))
  | some row =>
    exact ⟨row, List.mem_reverse.mp (Table.mem_of_lookup hlookup), Table.key_of_lookup hlookup, rfl⟩

theorem mem_foldl_insertByJob {entries byJob : List DispatchedExecution} {entry : DispatchedExecution}
    (h : entry ∈ entries.foldl insertByJob byJob) : entry ∈ byJob ∨ entry ∈ entries := by
  induction entries generalizing byJob with
  | nil => exact Or.inl h
  | cons first entries ih =>
    rcases ih h with hinserted | hrest
    · rcases List.mem_cons.mp hinserted with rfl | hkept
      · exact Or.inr List.mem_cons_self
      · exact Or.inl (List.mem_filter.mp hkept).1
    · exact Or.inr (List.mem_cons_of_mem _ hrest)

theorem dispatchChunk_entered {state state' : List Execution × List DispatchedExecution}
    (h : dispatchChunk env queues state rows = .ok state') {entry : DispatchedExecution}
    (hentry : entry ∈ state'.2) : entry ∈ state.2 ∨ Entered rows entry := by
  rw [dispatchChunk, Outcome.bind_eq_ok] at h
  obtain ⟨⟨executions, returned⟩, hupsert, h⟩ := h
  obtain ⟨entries, hentries, rfl⟩ := Outcome.map_eq_ok.mp h
  rcases mem_foldl_insertByJob hentry with hold | hnew
  · exact Or.inl hold
  · obtain ⟨attempt, hattempt, hentered⟩ := Outcome.exists_of_mapM_ok hentries hnew
    have hreturns := (upsertExecutions_spec hupsert).1.returns attempt
      (env.choice.mem_order.mp hattempt)
    obtain ⟨count, hcount, rfl⟩ := Outcome.map_eq_ok.mp hentered
    obtain ⟨hfits, rfl⟩ := u32TryFrom_eq_ok.mp hcount
    obtain ⟨row, hrow, hjob, hlease⟩ := leaseById_mem hreturns.1
    exact Or.inr ⟨hfits.1, row, hrow, hjob, hlease⟩

theorem foldlM_dispatchChunk_entered (chunks : List (List DispatchInsert))
    {state state' : List Execution × List DispatchedExecution}
    (h : chunks.foldlM (dispatchChunk env queues) state = .ok state') {entry : DispatchedExecution}
    (hentry : entry ∈ state'.2) : entry ∈ state.2 ∨ Entered chunks.flatten entry := by
  induction chunks generalizing state with
  | nil =>
    obtain rfl := Except.ok.inj h
    exact Or.inl hentry
  | cons chunk chunks ih =>
    rw [List.foldlM_cons, Outcome.bind_eq_ok] at h
    obtain ⟨middle, hfirst, hrest⟩ := h
    rcases ih hrest with hmiddle | hentered
    · rcases dispatchChunk_entered hfirst hmiddle with hold | hentered
      · exact Or.inl hold
      · exact Or.inr (hentered.mono fun row hrow => List.mem_append_left _ hrow)
    · exact Or.inr (hentered.mono fun row hrow => List.mem_append_right _ hrow)

/-! ### The whole batch -/

/-- What a committed dispatch leaves: the attempts in the table, and `by_job` for the answer. -/
structure Committed (now : Int) (rows : List DispatchInsert) (before after returned : List Execution)
    (byJob : List DispatchedExecution) : Prop where
  spec : DispatchSpec now rows before after returned
  keyed : ByJob byJob returned
  entered : ∀ entry ∈ byJob, Entered rows entry

theorem Committed.nil (now : Int) (executions : List Execution) :
    Committed now [] executions executions [] [] := by
  refine ⟨DispatchSpec.nil now executions, ?_, by simp⟩
  constructor <;> simp

variable {conn : ResultsConn}

theorem dispatchBatch_committed (env : Env) (rows : List DispatchInsert) (conn : ResultsConn) :
    (∃ error, dispatchBatch env rows conn = (conn, .error error) ∧
      ∀ state, (Table.chunks rowsPerStatement rows).foldlM (dispatchChunk env conn.executionQueues)
        (conn.executions, []) ≠ .ok state) ∨
    ∃ executions returned byJob,
      dispatchBatch env rows conn =
        ({ conn with executions := executions }, collectDispatched rows byJob) ∧
      Committed env.now rows conn.executions executions returned byJob ∧
      (Valid conn.executionQueues conn.executions → Valid conn.executionQueues executions) := by
  unfold dispatchBatch
  cases h : (Table.chunks rowsPerStatement rows).foldlM (dispatchChunk env conn.executionQueues)
      (conn.executions, []) with
  | error error => exact Or.inl ⟨error, rfl, fun state => by simp⟩
  | ok state =>
    obtain ⟨returned, hspec, hvalid, hby⟩ := foldlM_dispatchChunk_ok h
    rw [Table.chunks_flatten rowsPerStatement_pos] at hspec
    have hkeyed := hby [] (Committed.nil env.now []).keyed
    refine Or.inr ⟨state.1, returned, state.2, rfl, ⟨hspec, hkeyed, ?_⟩, hvalid⟩
    intro entry hentry
    rcases foldlM_dispatchChunk_entered _ h hentry with hnone | hentered
    · cases hnone
    · rwa [Table.chunks_flatten rowsPerStatement_pos] at hentered

/-- A dispatch of distinct jobs commits when every available one can be started. -/
theorem dispatchBatch_commits (hfresh : FreshRows rows conn.executions)
    (hvalid : Valid conn.executionQueues conn.executions)
    (hstart : AllStartable conn.executionQueues rows conn.executions) :
    ∃ executions returned byJob,
      dispatchBatch env rows conn =
        ({ conn with executions := executions }, collectDispatched rows byJob) ∧
      Committed env.now rows conn.executions executions returned byJob ∧
      Valid conn.executionQueues executions := by
  rcases dispatchBatch_committed env rows conn with
    ⟨error, -, hnever⟩ | ⟨executions, returned, byJob, heq, hcommitted, hkeep⟩
  · have hflat := Table.chunks_flatten rowsPerStatement_pos rows
    obtain ⟨state, hstate⟩ := @foldlM_dispatchChunk_commits env conn.executionQueues
      (Table.chunks rowsPerStatement rows) (conn.executions, []) (by rwa [hflat]) hvalid
      (by rwa [hflat])
    exact absurd hstate (hnever state)
  · exact ⟨executions, returned, byJob, heq, hcommitted, hkeep hvalid⟩

/-- A job that a committed dispatch found available has its entry in `by_job`. -/
theorem Committed.entry {after : List Execution} {byJob : List DispatchedExecution}
    (h : Committed now rows executions after returned byJob) (hrow : row ∈ rows)
    (havailable : Available (Table.lookup Execution.jobId row.jobId executions)) :
    ∃ entry, Table.lookup DispatchedExecution.jobId row.jobId byJob = some entry := by
  obtain ⟨-, -, -, attempt, hattempt, hreturned, -⟩ :=
    h.spec.started row.jobId (List.mem_map_of_mem hrow) havailable
  rw [← Table.key_of_lookup hattempt]
  exact h.keyed.complete attempt hreturned

/-- What a committed dispatch holds and answers for a job that it found available. -/
theorem Committed.answered {after : List Execution} {byJob : List DispatchedExecution}
    (h : Committed now rows executions after returned byJob)
    (hjobs : (rows.map DispatchInsert.jobId).Nodup) (hrow : row ∈ rows)
    (havailable : Available (Table.lookup Execution.jobId row.jobId executions))
    {entry : DispatchedExecution}
    (hentry : Table.lookup DispatchedExecution.jobId row.jobId byJob = some entry) :
    ∃ attempt, Table.lookup Execution.jobId row.jobId after = some attempt ∧
      IsDispatch now row (Table.lookup Execution.jobId row.jobId executions) attempt ∧
      entry = { jobId := row.jobId, executionCount := attempt.executionCount
                dispatchId := row.dispatchId, leaseExpiresAt := row.leaseExpiresAt
                updatedAt := now } := by
  obtain ⟨source, hsource, hjob, attempt, hattempt, -, hdispatch⟩ :=
    h.spec.started row.jobId (List.mem_map_of_mem hrow) havailable
  obtain rfl : source = row := List.inj_on_of_nodup_map hjobs hsource hrow hjob
  obtain ⟨other, hother, hsame, hdescribes⟩ := h.keyed.sound hentry
  have hlookup := (h.spec.returns other hother).2.2
  rw [hsame, hattempt] at hlookup
  obtain rfl := Option.some.inj hlookup
  obtain ⟨leased, hleased, hleasedJob, hlease⟩ := (h.entered entry (Table.mem_of_lookup hentry)).lease
  rw [Table.key_of_lookup hentry] at hleasedJob
  obtain rfl : leased = source := List.inj_on_of_nodup_map hjobs hleased hsource hleasedJob
  refine ⟨attempt, hattempt, hdispatch, ?_⟩
  rw [← hdescribes.executionCount, ← hdispatch.dispatchId, ← hdescribes.dispatchId, ← hlease,
    ← hdispatch.updatedAt, ← hdescribes.updatedAt, ← Table.key_of_lookup hentry]

/-- A job that a committed dispatch named and found available could be started. -/
theorem Committed.startable {after : List Execution} {byJob : List DispatchedExecution}
    (h : Committed now rows executions after returned byJob)
    (hjobs : (rows.map DispatchInsert.jobId).Nodup) (hvalid : Valid queues after) :
    AllStartable queues rows executions := by
  intro row hrow havailable
  obtain ⟨source, hsource, hjob, attempt, hattempt, hreturned, hdispatch⟩ :=
    h.spec.started row.jobId (List.mem_map_of_mem hrow) havailable
  obtain rfl : source = row := List.inj_on_of_nodup_map hjobs hsource hrow hjob
  obtain ⟨entry, hentry⟩ := h.keyed.complete attempt hreturned
  obtain ⟨other, hother, hsame, hdescribes⟩ := h.keyed.sound hentry
  have hlookup := (h.spec.returns other hother).2.2
  rw [hsame, (h.spec.returns attempt hreturned).2.2] at hlookup
  obtain rfl := Option.some.inj hlookup
  refine ⟨fun hnone => ?_, ?_⟩
  · have hqueue := hvalid.queues attempt (Table.mem_of_lookup hattempt)
    rwa [hdispatch.queueName, hnone] at hqueue
  · rw [← hdispatch.executionCount]
    refine ⟨?_, hdescribes.fits⟩
    rw [← hdescribes.executionCount]
    exact (h.entered entry (Table.mem_of_lookup hentry)).count

/-- A dispatch of distinct jobs rolls back when an available one cannot be started. -/
theorem dispatchBatch_rollback (env : Env) (hjobs : (rows.map DispatchInsert.jobId).Nodup)
    (hvalid : Valid conn.executionQueues conn.executions)
    (hnot : ¬AllStartable conn.executionQueues rows conn.executions) :
    ∃ error, dispatchBatch env rows conn = (conn, .error error) := by
  rcases dispatchBatch_committed env rows conn with
    ⟨error, heq, -⟩ | ⟨executions, returned, byJob, -, hcommitted, hkeep⟩
  · exact ⟨error, heq⟩
  · exact absurd (hcommitted.startable hjobs (hkeep hvalid)) hnot

/-- A row without an entry in `by_job` makes the answer an error. -/
theorem collectDispatched_error {byJob : List DispatchedExecution} (hrow : row ∈ rows)
    (hnone : Table.lookup DispatchedExecution.jobId row.jobId byJob = none) :
    ∃ error, collectDispatched rows byJob = .error error := by
  induction rows generalizing byJob with
  | nil => cases hrow
  | cons first rows ih =>
    rw [collectDispatched]
    cases hfirst : Table.lookup DispatchedExecution.jobId first.jobId byJob with
    | none => exact ⟨_, rfl⟩
    | some entry =>
      rcases List.mem_cons.mp hrow with rfl | hrest
      · rw [hnone] at hfirst
        cases hfirst
      · have hnone' : Table.lookup DispatchedExecution.jobId row.jobId
            (byJob.filter fun other => other.jobId ≠ first.jobId) = none := by
          rw [Table.lookup_eq_none] at hnone ⊢
          exact fun other hother => hnone other (List.mem_filter.mp hother).1
        obtain ⟨error, herror⟩ := ih hrest hnone'
        refine ⟨error, ?_⟩
        simp only [herror]
        rfl

/-! ### Jobs that are not available -/

theorem upsertExecutions_busy
    (hbusy : ∀ row ∈ rows, ¬Available (Table.lookup Execution.jobId row.jobId executions)) :
    upsertExecutions now queues rows executions = .ok (executions, []) := by
  induction rows with
  | nil => rfl
  | cons row rows ih =>
    have hfirst : upsertExecution now queues row executions = .ok (executions, none) := by
      have hrow := hbusy row List.mem_cons_self
      unfold upsertExecution
      cases hlookup : Table.lookup Execution.jobId row.jobId executions with
      | none =>
        rw [hlookup] at hrow
        exact absurd (by simp [Available]) hrow
      | some current =>
        rw [hlookup] at hrow
        refine if_neg fun hstatus => hrow fun found hfound => ?_
        rwa [Option.some.inj hfound] at hstatus
    rw [upsertExecutions, hfirst]
    simp only [bind, Except.bind, ih fun other hother => hbusy other (List.mem_cons_of_mem _ hother)]
    rfl

theorem foldlM_dispatchChunk_busy (chunks : List (List DispatchInsert))
    (byJob : List DispatchedExecution) (hbusy : ∀ row ∈ chunks.flatten,
      ¬Available (Table.lookup Execution.jobId row.jobId executions)) :
    chunks.foldlM (dispatchChunk env queues) (executions, byJob) = .ok (executions, byJob) := by
  induction chunks with
  | nil => rfl
  | cons chunk chunks ih =>
    have hchunk : dispatchChunk env queues (executions, byJob) chunk = .ok (executions, byJob) := by
      have hnone : env.choice.order ([] : List Execution) = [] :=
        List.Perm.eq_nil (env.choice.order_perm [])
      rw [dispatchChunk, upsertExecutions_busy fun row hrow =>
        hbusy row (List.mem_append_left _ hrow)]
      simp only [bind, Except.bind, hnone, List.mapM_nil]
      rfl
    rw [List.foldlM_cons, hchunk]
    exact ih fun row hrow => hbusy row (List.mem_append_right _ hrow)

/-- A dispatch of jobs that all run or are done changes nothing. -/
theorem dispatchBatch_busy (env : Env)
    (hbusy : ∀ row ∈ rows, ¬Available (Table.lookup Execution.jobId row.jobId conn.executions)) :
    (dispatchBatch env rows conn).1 = conn := by
  rw [dispatchBatch, foldlM_dispatchChunk_busy]
  rwa [Table.chunks_flatten rowsPerStatement_pos]

/-! ### Batches that mix both -/

/-- A job that is not available together with one that is, all of which can be started. -/
structure Mixed (queues : List JobQueue) (rows : List DispatchInsert) (executions : List Execution) :
    Prop where
  busy : ∃ row ∈ rows, ¬Available (Table.lookup Execution.jobId row.jobId executions)
  available : ∃ row ∈ rows, Available (Table.lookup Execution.jobId row.jobId executions)
  startable : AllStartable queues rows executions

/-- A mixed batch is committed and then answered with an error. -/
theorem Mixed.strands (env : Env) (h : Mixed conn.executionQueues rows conn.executions)
    (hfresh : FreshRows rows conn.executions)
    (hvalid : Valid conn.executionQueues conn.executions) :
    ∃ executions error,
      dispatchBatch env rows conn = ({ conn with executions := executions }, .error error) ∧
      executions ≠ conn.executions := by
  obtain ⟨executions, returned, byJob, heq, hcommitted, -⟩ :=
    @dispatchBatch_commits env rows conn hfresh hvalid h.startable
  obtain ⟨busy, hbusy, hrunning⟩ := h.busy
  obtain ⟨row, hrow, havailable⟩ := h.available
  have hnone : Table.lookup DispatchedExecution.jobId busy.jobId byJob = none := by
    cases hlookup : Table.lookup DispatchedExecution.jobId busy.jobId byJob with
    | none => rfl
    | some entry =>
      obtain ⟨attempt, hattempt, hjob, -⟩ := hcommitted.keyed.sound hlookup
      exact absurd (hjob ▸ (hcommitted.spec.returns attempt hattempt).2.1) hrunning
  obtain ⟨error, herror⟩ := collectDispatched_error hbusy hnone
  refine ⟨executions, error, by rw [heq, herror], fun hsame => ?_⟩
  obtain ⟨source, -, -, attempt, hattempt, -, hdispatch⟩ :=
    hcommitted.spec.started row.jobId (List.mem_map_of_mem hrow) havailable
  rw [hsame] at hattempt
  rw [hattempt] at havailable
  exact not_available_of_running hdispatch.status havailable

/-- A batch that is not mixed changes nothing when it is answered with an error. -/
theorem dispatchBatch_error_keeps {conn' : ResultsConn} {error : StoreError}
    (hjobs : (rows.map DispatchInsert.jobId).Nodup)
    (hvalid : Valid conn.executionQueues conn.executions)
    (hmixed : ¬Mixed conn.executionQueues rows conn.executions)
    (h : dispatchBatch env rows conn = (conn', .error error)) : conn' = conn := by
  by_cases hstart : AllStartable conn.executionQueues rows conn.executions
  · by_cases hbusy : ∀ row ∈ rows, ¬Available (Table.lookup Execution.jobId row.jobId conn.executions)
    · rw [← dispatchBatch_busy env hbusy, h]
    · -- every job of the batch is available, so a commit answers all of them
      have hall : ∀ row ∈ rows, Available (Table.lookup Execution.jobId row.jobId conn.executions) := by
        intro row hrow
        by_contra hrunning
        push Not at hbusy
        exact hmixed ⟨⟨row, hrow, hrunning⟩, hbusy, hstart⟩
      rcases dispatchBatch_committed env rows conn with
        ⟨other, heq, -⟩ | ⟨executions, returned, byJob, heq, hcommitted, -⟩
      · rw [h] at heq
        exact (Prod.mk.inj heq).1
      · obtain ⟨out, hout, -⟩ := collectDispatched_ok hjobs fun row hrow =>
          hcommitted.entry hrow (hall row hrow)
        rw [heq, hout] at h
        cases (Prod.mk.inj h).2
  · obtain ⟨other, heq⟩ := dispatchBatch_rollback env hjobs hvalid hstart
    rw [h] at heq
    exact (Prod.mk.inj heq).1

end Commit

end Maqistor.ResultsConn
