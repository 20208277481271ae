import Maqistor.Results.Complete

/-! What `dispatch_batch` does to the table: it starts an attempt for each job that has no
execution or a failed one, counts it once and leaves every other job alone. -/

namespace Maqistor.ResultsConn

/-- The columns that the schema makes unique, and the reference to the queues. -/
structure Valid (queues : List JobQueue) (executions : List Execution) : Prop where
  ids : (executions.map Execution.id).Nodup
  jobs : (executions.map Execution.jobId).Nodup
  dispatches : (executions.map Execution.dispatchId).Nodup
  queues : ∀ row ∈ executions, row.queueName ∈ queues.map JobQueue.name

theorem Valid.mono {queues queues' : List JobQueue} {executions : List Execution}
    (h : Valid queues executions)
    (hnames : ∀ name ∈ queues.map JobQueue.name, name ∈ queues'.map JobQueue.name) :
    Valid queues' executions :=
  ⟨h.ids, h.jobs, h.dispatches, fun row hrow => hnames _ (h.queues row hrow)⟩

theorem Valid.filter {queues : List JobQueue} {executions : List Execution}
    (h : Valid queues executions) (p : Execution → Bool) :
    Valid queues (executions.filter p) := by
  have hsub : (executions.filter p).Sublist executions := List.filter_sublist
  exact ⟨h.ids.sublist (hsub.map _), h.jobs.sublist (hsub.map _), h.dispatches.sublist (hsub.map _),
    fun row hrow => h.queues row (hsub.subset hrow)⟩

/-- The attempts so far. -/
def attempts (execution : Option Execution) : Int :=
  (execution.map (·.executionCount)).getD 0

/-- A job that the upsert's `WHERE` lets through: no execution, or one that has failed. -/
def Available (execution : Option Execution) : Prop :=
  ∀ row, execution = some row → row.status = .failed ∨ row.status = .pending

instance (execution : Option Execution) : Decidable (Available execution) :=
  match execution with
  | none => .isTrue (by simp [Available])
  | some row => decidable_of_iff (row.status = .failed ∨ row.status = .pending) (by simp [Available])

/-- `after` is the attempt that dispatching `row` starts for a job whose execution was `before`. -/
structure IsDispatch (now : Int) (row : DispatchInsert) (before : Option Execution)
    (after : Execution) : Prop where
  jobId : after.jobId = row.jobId
  queueName : after.queueName = (before.map (·.queueName)).getD row.queueName
  status : after.status = .running
  executionCount : after.executionCount = attempts before + 1
  leaseExpiresAt : after.leaseExpiresAt = some row.leaseExpiresAt
  dispatchId : after.dispatchId = row.dispatchId
  resultPayload : after.resultPayload = none
  resultError : after.resultError = none
  createdAt : after.createdAt = (before.map (·.createdAt)).getD now
  updatedAt : after.updatedAt = now

theorem isDispatch_inserted (now : Int) (row : DispatchInsert) (executions : List Execution) :
    IsDispatch now row none (inserted now row executions) := by
  constructor <;> rfl

theorem isDispatch_redispatched (now : Int) {row : DispatchInsert} {current : Execution}
    (h : current.jobId = row.jobId) :
    IsDispatch now row (some current) (redispatched now row current) := by
  constructor <;> first | exact h | rfl

theorem redispatched_jobId (now : Int) (row : DispatchInsert) (other : Execution) :
    (if other.jobId = row.jobId then redispatched now row other else other).jobId =
      other.jobId := by
  split <;> rfl

section

variable {now : Int} {queues : List JobQueue} {row : DispatchInsert}
  {executions executions' : List Execution} {returned : Option Execution}

/-- The three ways in which one row of the upsert can go through. -/
theorem upsertExecution_cases
    (h : upsertExecution now queues row executions = .ok (executions', returned)) :
    (∃ current, Table.lookup Execution.jobId row.jobId executions = some current ∧
      ¬(current.status = .failed ∨ current.status = .pending) ∧ executions' = executions ∧
      returned = none) ∨
    (∃ current, Table.lookup Execution.jobId row.jobId executions = some current ∧
      (current.status = .failed ∨ current.status = .pending) ∧
      (∀ other ∈ executions, other.jobId ≠ row.jobId → other.dispatchId ≠ row.dispatchId) ∧
      executions' = executions.map (fun other =>
        if other.jobId = row.jobId then redispatched now row other else other) ∧
      returned = some (redispatched now row current)) ∨
    (Table.lookup Execution.jobId row.jobId executions = none ∧
      (∀ other ∈ executions, other.dispatchId ≠ row.dispatchId) ∧
      row.queueName ∈ queues.map JobQueue.name ∧
      executions' = executions ++ [inserted now row executions] ∧
      returned = some (inserted now row executions)) := by
  unfold upsertExecution at h
  split at h
  · next current hcurrent =>
    split at h
    · next hstatus =>
      split at h
      · cases h
      · next hunique =>
        simp only [Except.ok.injEq, Prod.mk.injEq] at h
        refine Or.inr (Or.inl ⟨current, hcurrent, hstatus, ?_, h.1.symm, h.2.symm⟩)
        simpa using hunique
    · next hstatus =>
      simp only [Except.ok.injEq, Prod.mk.injEq] at h
      exact Or.inl ⟨current, hcurrent, hstatus, h.1.symm, h.2.symm⟩
  · next hnone =>
    split at h
    · cases h
    · next hunique =>
      split at h
      · next hqueue =>
        simp only [Except.ok.injEq, Prod.mk.injEq] at h
        refine Or.inr (Or.inr ⟨hnone, ?_, hqueue, h.1.symm, h.2.symm⟩)
        simpa using hunique
      · cases h

theorem upsertExecution_other
    (h : upsertExecution now queues row executions = .ok (executions', returned)) {jobId : Int}
    (hne : jobId ≠ row.jobId) :
    Table.lookup Execution.jobId jobId executions' =
      Table.lookup Execution.jobId jobId executions := by
  rcases upsertExecution_cases h with
    ⟨current, -, -, rfl, -⟩ | ⟨current, hcurrent, -, -, rfl, -⟩ | ⟨hnone, -, -, rfl, -⟩
  · rfl
  · rw [Table.lookup_map (redispatched_jobId now row)]
    cases hlookup : Table.lookup Execution.jobId jobId executions with
    | none => rfl
    | some other => simp [Table.key_of_lookup hlookup, hne]
  · rw [Table.lookup_append, Table.lookup_cons, if_neg (fun h => hne h.symm)]
    simp

/-- An available job is dispatched and returned; any other job's row stays as it is. -/
theorem upsertExecution_same
    (h : upsertExecution now queues row executions = .ok (executions', returned)) :
    (Available (Table.lookup Execution.jobId row.jobId executions) ∧
      ∃ after, Table.lookup Execution.jobId row.jobId executions' = some after ∧
        IsDispatch now row (Table.lookup Execution.jobId row.jobId executions) after ∧
        returned = some after) ∨
    (¬Available (Table.lookup Execution.jobId row.jobId executions) ∧ executions' = executions ∧
      returned = none) := by
  rcases upsertExecution_cases h with
    ⟨current, hcurrent, hstatus, rfl, rfl⟩ | ⟨current, hcurrent, hstatus, -, rfl, rfl⟩ |
    ⟨hnone, -, -, rfl, rfl⟩
  · exact Or.inr ⟨fun havailable => hstatus (havailable current hcurrent), rfl, rfl⟩
  · refine Or.inl ⟨?_, redispatched now row current, ?_, ?_, rfl⟩
    · rw [hcurrent]
      rintro other ⟨⟩
      exact hstatus
    · rw [Table.lookup_map (redispatched_jobId now row), hcurrent, Option.map_some,
        if_pos (Table.key_of_lookup hcurrent)]
    · rw [hcurrent]
      exact isDispatch_redispatched now (Table.key_of_lookup hcurrent)
  · refine Or.inl ⟨?_, inserted now row executions, ?_, ?_, rfl⟩
    · simp [hnone, Available]
    · rw [Table.lookup_append, hnone, Option.none_or, Table.lookup_cons]
      exact if_pos rfl
    · rw [hnone]
      exact isDispatch_inserted now row executions

/-- Only the row of this job changes its dispatch id, to one that no other row has. -/
theorem Valid.redispatch (h : Valid queues executions)
    (hunique : ∀ other ∈ executions, other.jobId ≠ row.jobId →
      other.dispatchId ≠ row.dispatchId) :
    Valid queues (executions.map fun other =>
      if other.jobId = row.jobId then redispatched now row other else other) := by
  have hcolumn : ∀ {γ : Type} (column : Execution → γ),
      (∀ other, column (redispatched now row other) = column other) →
      (executions.map fun other =>
        if other.jobId = row.jobId then redispatched now row other else other).map column =
        executions.map column := by
    intro γ column hcolumn
    rw [List.map_map]
    apply List.map_congr_left
    intro other _
    simp only [Function.comp_apply]
    split
    · exact hcolumn other
    · rfl
  constructor
  · rw [hcolumn Execution.id fun _ => rfl]
    exact h.ids
  · rw [hcolumn Execution.jobId fun _ => rfl]
    exact h.jobs
  · have hpairs := (List.pairwise_map.mp h.jobs).and (List.pairwise_map.mp h.dispatches)
    rw [List.map_map]
    refine List.pairwise_map.mpr (hpairs.imp_of_mem ?_)
    rintro a b ha hb ⟨hjob, hdispatch⟩
    simp only [Function.comp_apply]
    split
    · next haj =>
      rw [if_neg (fun hbj => hjob (haj.trans hbj.symm))]
      exact fun heq => hunique b hb (fun hbj => hjob (haj.trans hbj.symm)) heq.symm
    · next haj =>
      split
      · exact fun heq => hunique a ha haj heq
      · exact hdispatch
  · intro other hother
    obtain ⟨before, hbefore, rfl⟩ := List.mem_map.mp hother
    split
    · exact h.queues before hbefore
    · exact h.queues before hbefore

theorem Valid.insert (h : Valid queues executions)
    (hnone : Table.lookup Execution.jobId row.jobId executions = none)
    (hunique : ∀ other ∈ executions, other.dispatchId ≠ row.dispatchId)
    (hqueue : row.queueName ∈ queues.map JobQueue.name) :
    Valid queues (executions ++ [inserted now row executions]) := by
  have hfresh : ∀ {γ : Type} (column : Execution → γ), (executions.map column).Nodup →
      (∀ other ∈ executions, column other ≠ column (inserted now row executions)) →
      ((executions ++ [inserted now row executions]).map column).Nodup := by
    intro γ column hnodup hne
    rw [List.map_append, List.nodup_append]
    refine ⟨hnodup, List.nodup_singleton _, ?_⟩
    intro a ha b hb
    obtain ⟨other, hother, rfl⟩ := List.mem_map.mp ha
    rw [List.mem_singleton.mp hb]
    exact hne other hother
  constructor
  · apply hfresh Execution.id h.ids
    intro other hother heq
    have hmem : other.id ∈ executions.map Execution.id := List.mem_map_of_mem hother
    rw [heq] at hmem
    exact Table.nextRowid_notMem _ hmem
  · exact hfresh Execution.jobId h.jobs (Table.lookup_eq_none.mp hnone)
  · exact hfresh Execution.dispatchId h.dispatches hunique
  · intro other hother
    rcases List.mem_append.mp hother with hother | hother
    · exact h.queues other hother
    · rw [List.mem_singleton.mp hother]
      exact hqueue

theorem upsertExecution_valid
    (h : upsertExecution now queues row executions = .ok (executions', returned))
    (hvalid : Valid queues executions) : Valid queues executions' := by
  rcases upsertExecution_cases h with
    ⟨current, -, -, rfl, -⟩ | ⟨current, -, -, hunique, rfl, -⟩ | ⟨hnone, hunique, hqueue, rfl, -⟩
  · exact hvalid
  · exact hvalid.redispatch hunique
  · exact hvalid.insert hnone hunique hqueue

end

/-- What the rows of some dispatch statements do: jobs that are not named or not available keep
their execution, and each named available job gets one attempt, which is returned. -/
structure DispatchSpec (now : Int) (rows : List DispatchInsert)
    (before after returned : List Execution) : Prop where
  other : ∀ jobId, jobId ∉ rows.map DispatchInsert.jobId →
    Table.lookup Execution.jobId jobId after = Table.lookup Execution.jobId jobId before
  busy : ∀ jobId, ¬Available (Table.lookup Execution.jobId jobId before) →
    Table.lookup Execution.jobId jobId after = Table.lookup Execution.jobId jobId before
  started : ∀ jobId ∈ rows.map DispatchInsert.jobId,
    Available (Table.lookup Execution.jobId jobId before) →
    ∃ row ∈ rows, row.jobId = jobId ∧ ∃ attempt,
      Table.lookup Execution.jobId jobId after = some attempt ∧ attempt ∈ returned ∧
      IsDispatch now row (Table.lookup Execution.jobId jobId before) attempt
  returns : ∀ attempt ∈ returned, attempt.jobId ∈ rows.map DispatchInsert.jobId ∧
    Available (Table.lookup Execution.jobId attempt.jobId before) ∧
    Table.lookup Execution.jobId attempt.jobId after = some attempt

theorem DispatchSpec.nil (now : Int) (executions : List Execution) :
    DispatchSpec now [] executions executions [] := by
  constructor <;> simp

theorem not_available_of_running {row : Execution} (h : row.status = .running) :
    ¬Available (some row) := by
  intro havailable
  have := havailable row rfl
  simp [h] at this

/-- Statements that run one after another: a job that the first ones start is running, so the later
ones leave it alone. -/
theorem DispatchSpec.append {now : Int} {rows rows' : List DispatchInsert}
    {before middle after returned returned' : List Execution}
    (h : DispatchSpec now rows before middle returned)
    (h' : DispatchSpec now rows' middle after returned') :
    DispatchSpec now (rows ++ rows') before after (returned ++ returned') := by
  have hkept : ∀ jobId ∈ rows.map DispatchInsert.jobId,
      Available (Table.lookup Execution.jobId jobId before) →
      Table.lookup Execution.jobId jobId after = Table.lookup Execution.jobId jobId middle := by
    intro jobId hmem havailable
    obtain ⟨row, -, -, attempt, hattempt, -, hdispatch⟩ := h.started jobId hmem havailable
    exact h'.busy jobId (hattempt ▸ not_available_of_running hdispatch.status)
  constructor
  · intro jobId hmem
    rw [List.map_append, List.mem_append, not_or] at hmem
    rw [h'.other jobId hmem.2, h.other jobId hmem.1]
  · intro jobId hbusy
    have hmiddle := h.busy jobId hbusy
    rw [h'.busy jobId (hmiddle ▸ hbusy), hmiddle]
  · intro jobId hmem havailable
    by_cases hfirst : jobId ∈ rows.map DispatchInsert.jobId
    · obtain ⟨row, hrow, hjob, attempt, hattempt, hreturned, hdispatch⟩ :=
        h.started jobId hfirst havailable
      refine ⟨row, List.mem_append_left _ hrow, hjob, attempt, ?_,
        List.mem_append_left _ hreturned, hdispatch⟩
      rw [hkept jobId hfirst havailable, hattempt]
    · have hsecond : jobId ∈ rows'.map DispatchInsert.jobId := by
        rw [List.map_append, List.mem_append] at hmem
        exact hmem.resolve_left hfirst
      have hsame := h.other jobId hfirst
      obtain ⟨row, hrow, hjob, attempt, hattempt, hreturned, hdispatch⟩ :=
        h'.started jobId hsecond (hsame ▸ havailable)
      exact ⟨row, List.mem_append_right _ hrow, hjob, attempt, hattempt,
        List.mem_append_right _ hreturned, hsame ▸ hdispatch⟩
  · intro attempt hattempt
    rw [List.map_append, List.mem_append]
    rcases List.mem_append.mp hattempt with hattempt | hattempt
    · obtain ⟨hmem, havailable, hlookup⟩ := h.returns attempt hattempt
      exact ⟨Or.inl hmem, havailable, by rw [hkept _ hmem havailable, hlookup]⟩
    · obtain ⟨hmem, havailable, hlookup⟩ := h'.returns attempt hattempt
      refine ⟨Or.inr hmem, ?_, hlookup⟩
      by_contra hbusy
      rw [h.busy _ hbusy] at havailable
      exact hbusy havailable

/-- A row after some dispatch statements is one from before, or the attempt of one of the rows. -/
theorem DispatchSpec.row_cases {now : Int} {rows : List DispatchInsert}
    {before after returned : List Execution} (h : DispatchSpec now rows before after returned)
    (hjobs : (after.map Execution.jobId).Nodup) {row' : Execution} (hrow' : row' ∈ after) :
    Table.lookup Execution.jobId row'.jobId before = some row' ∨
      Available (Table.lookup Execution.jobId row'.jobId before) ∧ ∃ row ∈ rows,
        row.jobId = row'.jobId ∧
        IsDispatch now row (Table.lookup Execution.jobId row'.jobId before) row' := by
  have hlookup := Table.lookup_of_mem hjobs hrow'
  by_cases hmem : row'.jobId ∈ rows.map DispatchInsert.jobId
  · by_cases havailable : Available (Table.lookup Execution.jobId row'.jobId before)
    · obtain ⟨row, hrow, hjob, attempt, hattempt, -, hdispatch⟩ :=
        h.started _ hmem havailable
      rw [hlookup] at hattempt
      obtain rfl := Option.some.inj hattempt
      exact Or.inr ⟨havailable, row, hrow, hjob, hdispatch⟩
    · rw [← h.busy _ havailable]
      exact Or.inl hlookup
  · rw [← h.other _ hmem]
    exact Or.inl hlookup

theorem upsertExecution_spec {now : Int} {queues : List JobQueue} {row : DispatchInsert}
    {executions executions' : List Execution} {returned : Option Execution}
    (h : upsertExecution now queues row executions = .ok (executions', returned)) :
    DispatchSpec now [row] executions executions' returned.toList := by
  constructor
  · intro jobId hmem
    exact upsertExecution_other h (by simpa using hmem)
  · intro jobId hbusy
    by_cases hjob : jobId = row.jobId
    · subst hjob
      rcases upsertExecution_same h with ⟨havailable, -⟩ | ⟨-, rfl, -⟩
      · exact absurd havailable hbusy
      · rfl
    · exact upsertExecution_other h hjob
  · intro jobId hmem havailable
    obtain rfl : jobId = row.jobId := by simpa using hmem
    rcases upsertExecution_same h with ⟨-, attempt, hattempt, hdispatch, rfl⟩ | ⟨hbusy, -⟩
    · exact ⟨row, List.mem_singleton_self row, rfl, attempt, hattempt, by simp, hdispatch⟩
    · exact absurd havailable hbusy
  · intro attempt hattempt
    rcases upsertExecution_same h with ⟨havailable, after, hafter, hdispatch, rfl⟩ | ⟨-, -, rfl⟩
    · obtain rfl : attempt = after := by simpa using hattempt
      rw [hdispatch.jobId]
      exact ⟨by simp, havailable, hafter⟩
    · simp at hattempt

theorem upsertExecutions_spec {now : Int} {queues : List JobQueue} {rows : List DispatchInsert}
    {executions executions' returned : List Execution}
    (h : upsertExecutions now queues rows executions = .ok (executions', returned)) :
    DispatchSpec now rows executions executions' returned ∧
      (Valid queues executions → Valid queues executions') := by
  induction rows generalizing executions returned with
  | nil =>
    simp only [upsertExecutions, Except.ok.injEq, Prod.mk.injEq] at h
    obtain ⟨rfl, rfl⟩ := h
    exact ⟨DispatchSpec.nil now executions, id⟩
  | cons row rows ih =>
    rw [upsertExecutions, Outcome.bind_eq_ok] at h
    obtain ⟨⟨middle, first⟩, hfirst, h⟩ := h
    rw [Outcome.map_eq_ok] at h
    obtain ⟨⟨final, rest⟩, hrest, heq⟩ := h
    simp only [Prod.mk.injEq] at heq
    obtain ⟨rfl, rfl⟩ := heq
    obtain ⟨hspec, hvalid⟩ := ih hrest
    exact ⟨(upsertExecution_spec hfirst).append hspec,
      fun h => hvalid (upsertExecution_valid hfirst h)⟩

/-! ### The answer -/

/-- The entry of `by_job` for a returned attempt, whose count has been checked. -/
structure Describes (entry : DispatchedExecution) (attempt : Execution) : Prop where
  jobId : entry.jobId = attempt.jobId
  fits : attempt.executionCount < 4294967296
  executionCount : entry.executionCount = attempt.executionCount
  dispatchId : entry.dispatchId = attempt.dispatchId
  updatedAt : entry.updatedAt = attempt.updatedAt

/-- `by_job` holds one entry for each returned attempt's job, and no other. -/
structure ByJob (byJob : List DispatchedExecution) (returned : List Execution) : Prop where
  sound : ∀ {jobId entry}, Table.lookup DispatchedExecution.jobId jobId byJob = some entry →
    ∃ attempt ∈ returned, attempt.jobId = jobId ∧ Describes entry attempt
  complete : ∀ attempt ∈ returned,
    ∃ entry, Table.lookup DispatchedExecution.jobId attempt.jobId byJob = some entry

theorem toDispatched_ok {chunk : List DispatchInsert} {attempt : Execution}
    {entry : DispatchedExecution} (h : toDispatched chunk attempt = .ok entry) :
    Describes entry attempt := by
  unfold toDispatched at h
  obtain ⟨count, hcount, rfl⟩ := Outcome.map_eq_ok.mp h
  obtain ⟨hfits, rfl⟩ := u32TryFrom_eq_ok.mp hcount
  exact ⟨rfl, hfits.2, rfl, rfl, rfl⟩

theorem lookup_insertByJob (byJob : List DispatchedExecution) (entry : DispatchedExecution)
    (jobId : Int) : Table.lookup DispatchedExecution.jobId jobId (insertByJob byJob entry) =
      if entry.jobId = jobId then some entry
      else Table.lookup DispatchedExecution.jobId jobId byJob := by
  rw [insertByJob, Table.lookup_cons]
  split
  · rfl
  · next hne =>
    apply Table.lookup_filter_of_keeps
    intro other hother
    simpa [hother] using Ne.symm hne

theorem ByJob.insert {byJob : List DispatchedExecution} {returned : List Execution}
    {entry : DispatchedExecution} {attempt : Execution} (h : ByJob byJob returned)
    (hentry : Describes entry attempt) :
    ByJob (insertByJob byJob entry) (returned ++ [attempt]) := by
  constructor
  · intro jobId found hfound
    rw [lookup_insertByJob] at hfound
    split at hfound
    · next hjob =>
      obtain rfl := Option.some.inj hfound
      exact ⟨attempt, by simp, hentry.jobId.symm.trans hjob, hentry⟩
    · obtain ⟨other, hother, hjob, hdescribes⟩ := h.sound hfound
      exact ⟨other, List.mem_append_left _ hother, hjob, hdescribes⟩
  · intro other hother
    rw [lookup_insertByJob]
    split
    · exact ⟨entry, rfl⟩
    · next hne =>
      rcases List.mem_append.mp hother with hother | hother
      · exact h.complete other hother
      · rw [List.mem_singleton.mp hother] at hne
        exact absurd hentry.jobId hne

theorem ByJob.insertAll {byJob : List DispatchedExecution} {returned attempts : List Execution}
    {entries : List DispatchedExecution} (h : ByJob byJob returned)
    (hentries : List.Forall₂ (fun attempt entry => Describes entry attempt) attempts entries) :
    ByJob (entries.foldl insertByJob byJob) (returned ++ attempts) := by
  induction hentries generalizing byJob returned with
  | nil => simpa using h
  | @cons attempt entry attempts entries hentry _ ih =>
    rw [List.foldl_cons, List.append_cons]
    exact ih (h.insert hentry)

theorem ByJob.congr {byJob : List DispatchedExecution} {returned returned' : List Execution}
    (h : ByJob byJob returned) (hmem : ∀ attempt, attempt ∈ returned ↔ attempt ∈ returned') :
    ByJob byJob returned' := by
  constructor
  · intro jobId entry hentry
    obtain ⟨attempt, hattempt, hrest⟩ := h.sound hentry
    exact ⟨attempt, (hmem attempt).mp hattempt, hrest⟩
  · intro attempt hattempt
    exact h.complete attempt ((hmem attempt).mpr hattempt)

theorem dispatchChunk_ok {env : Env} {queues : List JobQueue} {chunk : List DispatchInsert}
    {state state' : List Execution × List DispatchedExecution}
    (h : dispatchChunk env queues state chunk = .ok state') :
    ∃ returned, DispatchSpec env.now chunk state.1 state'.1 returned ∧
      (Valid queues state.1 → Valid queues state'.1) ∧
      ∀ earlier, ByJob state.2 earlier → ByJob state'.2 (earlier ++ returned) := by
  rw [dispatchChunk, Outcome.bind_eq_ok] at h
  obtain ⟨⟨executions, returned⟩, hupsert, h⟩ := h
  obtain ⟨entries, hentries, rfl⟩ := Outcome.map_eq_ok.mp h
  obtain ⟨hspec, hvalid⟩ := upsertExecutions_spec hupsert
  refine ⟨returned, hspec, hvalid, fun earlier hearlier => ?_⟩
  have hall := (Outcome.mapM_ok hentries).imp fun _ _ hentry => toDispatched_ok hentry
  exact (hearlier.insertAll hall).congr fun attempt => by simp

theorem foldlM_dispatchChunk_ok {env : Env} {queues : List JobQueue}
    {chunks : List (List DispatchInsert)}
    {state state' : List Execution × List DispatchedExecution}
    (h : chunks.foldlM (dispatchChunk env queues) state = .ok state') :
    ∃ returned, DispatchSpec env.now chunks.flatten state.1 state'.1 returned ∧
      (Valid queues state.1 → Valid queues state'.1) ∧
      ∀ earlier, ByJob state.2 earlier → ByJob state'.2 (earlier ++ returned) := by
  induction chunks generalizing state with
  | nil =>
    obtain rfl := Except.ok.inj h
    exact ⟨[], DispatchSpec.nil _ _, id, fun earlier h => by simpa using h⟩
  | cons chunk chunks ih =>
    rw [List.foldlM_cons, Outcome.bind_eq_ok] at h
    obtain ⟨middle, hfirst, hrest⟩ := h
    obtain ⟨returned, hspec, hvalid, hby⟩ := dispatchChunk_ok hfirst
    obtain ⟨returned', hspec', hvalid', hby'⟩ := ih hrest
    refine ⟨returned ++ returned', hspec.append hspec', fun h => hvalid' (hvalid h), ?_⟩
    intro earlier hearlier
    rw [← List.append_assoc]
    exact hby' _ (hby _ hearlier)

/-- The failures that roll a dispatch back. -/
def RollsBack (error : StoreError) : Prop :=
  error = uniqueViolation ∨ error = foreignKeyViolation ∨ error = outOfRange

theorem RollsBack.ne_dispatchMissing {error : StoreError} (h : RollsBack error) (jobId : Int) :
    error ≠ dispatchMissing jobId := by
  -- The texts differ in their first character.
  have hhead : ∀ {message : ErrorText}, StoreError.internal message = dispatchMissing jobId →
      (message.render "").toList.head? = some 'd' := by
    intro message heq
    simp only [dispatchMissing, StoreError.internal.injEq] at heq
    simp [heq]
  rcases h with rfl | rfl | rfl <;> intro heq <;> simpa using hhead heq

theorem upsertExecutions_error {now : Int} {queues : List JobQueue} {rows : List DispatchInsert}
    {executions : List Execution} {error : StoreError}
    (h : upsertExecutions now queues rows executions = .error error) : RollsBack error := by
  induction rows generalizing executions with
  | nil => cases h
  | cons row rows ih =>
    rw [upsertExecutions, Outcome.bind_eq_error] at h
    rcases h with h | ⟨⟨middle, first⟩, -, h⟩
    · unfold upsertExecution at h
      split at h
      · split at h
        · split at h
          · exact Or.inl (Except.error.inj h).symm
          · cases h
        · cases h
      · split at h
        · exact Or.inl (Except.error.inj h).symm
        · split at h
          · cases h
          · exact Or.inr (Or.inl (Except.error.inj h).symm)
    · exact ih (Outcome.map_eq_error.mp h)

theorem dispatchChunk_error {env : Env} {queues : List JobQueue} {chunk : List DispatchInsert}
    {state : List Execution × List DispatchedExecution} {error : StoreError}
    (h : dispatchChunk env queues state chunk = .error error) : RollsBack error := by
  rw [dispatchChunk, Outcome.bind_eq_error] at h
  rcases h with h | ⟨⟨executions, returned⟩, -, h⟩
  · exact upsertExecutions_error h
  · obtain ⟨attempt, -, hattempt⟩ := Outcome.mapM_error (Outcome.map_eq_error.mp h)
    rw [toDispatched, Outcome.map_eq_error, u32TryFrom] at hattempt
    split at hattempt
    · cases hattempt
    · exact Or.inr (Or.inr (Except.error.inj hattempt).symm)

/-- `dispatch_batch` fails and changes nothing, or commits and answers from `by_job`. -/
theorem dispatchBatch_cases (env : Env) (rows : List DispatchInsert) (conn : ResultsConn) :
    (∃ error, dispatchBatch env rows conn = (conn, .error error) ∧ RollsBack error) ∨
    ∃ executions returned byJob,
      dispatchBatch env rows conn =
        ({ conn with executions := executions }, collectDispatched rows byJob) ∧
      DispatchSpec env.now rows conn.executions executions returned ∧ ByJob byJob returned ∧
      (Valid conn.executionQueues conn.executions → Valid conn.executionQueues executions) := by
  unfold dispatchBatch
  cases h : (Table.chunks rowsPerStatement rows).foldlM (dispatchChunk env conn.executionQueues)
      (conn.executions, []) with
  | error error =>
    obtain ⟨state, chunk, -, hchunk⟩ := Outcome.foldlM_error h
    exact Or.inl ⟨error, rfl, dispatchChunk_error hchunk⟩
  | ok state =>
    obtain ⟨returned, hspec, hvalid, hby⟩ := foldlM_dispatchChunk_ok h
    rw [Table.chunks_flatten rowsPerStatement_pos] at hspec
    refine Or.inr ⟨state.1, returned, state.2, rfl, hspec, ?_, hvalid⟩
    have hempty : ByJob [] [] := by constructor <;> simp
    simpa using hby [] hempty

/-- The counts of the attempts of a committed dispatch are in the range of `u32`. -/
theorem DispatchSpec.fits {now : Int} {rows : List DispatchInsert}
    {before after returned : List Execution} {byJob : List DispatchedExecution}
    (h : DispatchSpec now rows before after returned) (hby : ByJob byJob returned)
    {attempt : Execution} (hattempt : attempt ∈ returned) :
    attempt.executionCount < 4294967296 := by
  obtain ⟨entry, hentry⟩ := hby.complete attempt hattempt
  obtain ⟨other, hother, hjob, hdescribes⟩ := hby.sound hentry
  have hsame := (h.returns other hother).2.2
  rw [hjob, (h.returns attempt hattempt).2.2, Option.some.injEq] at hsame
  exact hsame ▸ hdescribes.fits

/-- Rows for distinct jobs, each with an entry in `by_job`, are answered in their order. -/
theorem collectDispatched_ok {rows : List DispatchInsert} {byJob : List DispatchedExecution}
    (hjobs : (rows.map DispatchInsert.jobId).Nodup)
    (hentries : ∀ row ∈ rows,
      ∃ entry, Table.lookup DispatchedExecution.jobId row.jobId byJob = some entry) :
    ∃ out, collectDispatched rows byJob = .ok out ∧ List.Forall₂ (fun row entry =>
      Table.lookup DispatchedExecution.jobId row.jobId byJob = some entry) rows out := by
  induction rows generalizing byJob with
  | nil => exact ⟨[], rfl, List.Forall₂.nil⟩
  | cons row rows ih =>
    rw [List.map_cons, List.nodup_cons] at hjobs
    obtain ⟨entry, hentry⟩ := hentries row List.mem_cons_self
    have hrest : ∀ other ∈ rows, Table.lookup DispatchedExecution.jobId other.jobId
        (byJob.filter fun entry => entry.jobId ≠ row.jobId) =
          Table.lookup DispatchedExecution.jobId other.jobId byJob := by
      intro other hother
      apply Table.lookup_filter_of_keeps
      intro entry hentry
      have hne : other.jobId ≠ row.jobId := fun heq => hjobs.1 (heq ▸ List.mem_map_of_mem hother)
      simpa [hentry] using hne
    obtain ⟨out, hout, hall⟩ := ih hjobs.2 fun other hother => by
      rw [hrest other hother]
      exact hentries other (List.mem_cons_of_mem _ hother)
    refine ⟨entry :: out, ?_, List.Forall₂.cons hentry ?_⟩
    · rw [collectDispatched, hentry]
      simp only [hout]
      rfl
    · refine List.forall₂_iff_zip.mpr ⟨hall.length_eq, fun {other found} hmem => ?_⟩
      have := (List.forall₂_iff_zip.mp hall).2 hmem
      rwa [hrest other (List.of_mem_zip hmem).1] at this

end Maqistor.ResultsConn
