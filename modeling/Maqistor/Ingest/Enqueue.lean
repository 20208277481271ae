import Maqistor.Ingest.Conn
import Maqistor.Lib.Outcome

/-! What `enqueue_batch` does: it appends the jobs of known queues under consecutive new ids, free
to be claimed, and answers each of them with its id. -/

namespace Maqistor.IngestConn

/-- Jobs numbered from a first id on. -/
def numbered (first : Int) (jobs : List AcceptedJob) : List AcceptedJob :=
  jobs.zipIdx.map fun item => { item.1 with id := first + (item.2 : Int) }

/-- The row of a job that nobody has claimed. -/
def unclaimed (job : AcceptedJob) : AcceptedJob := { job with dispatchId := none }

/-- The id of the next accepted job. -/
def nextId (rows : List AcceptedJob) : Int := Table.nextRowid (rows.map AcceptedJob.id)

@[simp] theorem numbered_nil (first : Int) : numbered first [] = [] := rfl

theorem numbered_cons (first : Int) (job : AcceptedJob) (jobs : List AcceptedJob) :
    numbered first (job :: jobs) = { job with id := first } :: numbered (first + 1) jobs := by
  simp only [numbered, List.zipIdx_cons, List.map_cons, Int.natCast_zero, Int.add_zero]
  congr 1
  rw [List.zipIdx_eq_map_add, List.map_map]
  apply List.map_congr_left
  intro item _
  simp only [Function.comp_apply, AcceptedJob.mk.injEq, and_true]
  omega

theorem numbered_append (first : Int) (jobs more : List AcceptedJob) :
    numbered first (jobs ++ more) =
      numbered first jobs ++ numbered (first + jobs.length) more := by
  induction jobs generalizing first with
  | nil => simp
  | cons job jobs ih =>
    have hfirst : first + 1 + (jobs.length : Int) = first + ((job :: jobs).length : Int) := by
      rw [List.length_cons]
      omega
    rw [List.cons_append, numbered_cons, numbered_cons, ih, hfirst, List.cons_append]

@[simp] theorem length_numbered (first : Int) (jobs : List AcceptedJob) :
    (numbered first jobs).length = jobs.length := by
  simp [numbered]

theorem le_of_mem_numbered {first : Int} {jobs : List AcceptedJob} {job : AcceptedJob}
    (h : job ∈ numbered first jobs) : first ≤ job.id := by
  obtain ⟨item, -, rfl⟩ := List.mem_map.mp h
  exact Int.le_add_of_nonneg_right (Int.natCast_nonneg _)

theorem numbered_ids_nodup (first : Int) (jobs : List AcceptedJob) :
    ((numbered first jobs).map AcceptedJob.id).Nodup := by
  induction jobs generalizing first with
  | nil => exact List.nodup_nil
  | cons job jobs ih =>
    rw [numbered_cons, List.map_cons, List.nodup_cons]
    refine ⟨fun hmem => ?_, ih (first + 1)⟩
    obtain ⟨other, hother, hid⟩ := List.mem_map.mp hmem
    have := le_of_mem_numbered hother
    dsimp only at hid
    omega

theorem nextId_append_unclaimed (rows jobs : List AcceptedJob) :
    nextId (rows ++ (numbered (nextId rows) jobs).map unclaimed) = nextId rows + jobs.length := by
  induction jobs generalizing rows with
  | nil => simp
  | cons job jobs ih =>
    have hnext : nextId (rows ++ [unclaimed { job with id := nextId rows }]) = nextId rows + 1 := by
      rw [nextId, List.map_append]
      exact Table.nextRowid_append _
    have hrest := ih (rows ++ [unclaimed { job with id := nextId rows }])
    rw [hnext] at hrest
    rw [numbered_cons, List.map_cons, List.append_cons, hrest, List.length_cons]
    omega

theorem insertJobs_ok {queues : List JobQueue} {jobs rows rows' : List AcceptedJob}
    (h : insertJobs queues jobs rows = .ok rows') :
    rows' = rows ++ (numbered (nextId rows) jobs).map unclaimed := by
  induction jobs generalizing rows with
  | nil => simpa using (Except.ok.inj h).symm
  | cons job jobs ih =>
    rw [insertJobs] at h
    split at h
    · have hrest := ih h
      have hnext : nextId (rows ++ [acceptedOf rows job]) = nextId rows + 1 := by
        rw [nextId, List.map_append]
        exact Table.nextRowid_append _
      rw [hrest, hnext, numbered_cons, List.map_cons, List.append_assoc]
      rfl
    · cases h

theorem lastInsertRowid_append (rows : List AcceptedJob) {jobs : List AcceptedJob}
    (hne : jobs ≠ []) :
    lastInsertRowid (rows ++ (numbered (nextId rows) jobs).map unclaimed) =
      nextId rows + jobs.length - 1 := by
  obtain ⟨init, last, rfl⟩ : ∃ init last, jobs = init ++ [last] :=
    ⟨_, _, (List.dropLast_append_getLast hne).symm⟩
  rw [numbered_append, numbered_cons, numbered_nil, List.map_append, ← List.append_assoc,
    lastInsertRowid]
  simp [unclaimed]
  omega

theorem foldlM_enqueueChunk {queues : List JobQueue} {chunks : List (List AcceptedJob)}
    {state state' : List AcceptedJob × List AcceptedJob} (hne : ∀ chunk ∈ chunks, chunk ≠ [])
    (h : chunks.foldlM (enqueueChunk queues) state = .ok state') :
    state' = (state.1 ++ (numbered (nextId state.1) chunks.flatten).map unclaimed,
      state.2 ++ numbered (nextId state.1) chunks.flatten) := by
  induction chunks generalizing state with
  | nil => simpa using (Except.ok.inj h).symm
  | cons chunk chunks ih =>
    rw [List.foldlM_cons, Outcome.bind_eq_ok] at h
    obtain ⟨middle, hchunk, hrest⟩ := h
    obtain ⟨rows, hrows, rfl⟩ := Outcome.map_eq_ok.mp hchunk
    obtain rfl := insertJobs_ok hrows
    have hfirst : nextId state.1 + (chunk.length : Int) - 1 - chunk.length + 1 = nextId state.1 := by
      omega
    rw [ih (fun other hother => hne other (List.mem_cons_of_mem _ hother)) hrest]
    dsimp only
    rw [nextId_append_unclaimed, lastInsertRowid_append _ (hne chunk List.mem_cons_self), hfirst,
      List.flatten_cons, numbered_append, List.map_append, List.append_assoc]
    refine Prod.ext rfl ?_
    dsimp only
    rw [List.append_assoc]
    rfl

theorem mem_enqueueReplies {queueNames : List String} {batch : List AcceptedJob}
    {inserted : List (Except StoreError AcceptedJob)} {job : AcceptedJob}
    (hlength : (batch.filter fun job => job.queueName ∈ queueNames).length ≤ inserted.length)
    (h : .ok job ∈ enqueueReplies queueNames batch inserted) : .ok job ∈ inserted := by
  induction batch generalizing inserted with
  | nil => cases h
  | cons head batch ih =>
    rw [enqueueReplies] at h
    by_cases hknown : head.queueName ∈ queueNames
    · simp only [hknown, List.filter_cons, decide_true, if_true, List.length_cons] at hlength
      cases inserted with
      | nil => simp at hlength
      | cons first inserted =>
        rw [if_pos hknown, List.headD_cons, List.tail_cons, List.mem_cons] at h
        rcases h with h | h
        · exact h ▸ List.mem_cons_self
        · exact List.mem_cons_of_mem _ (ih (Nat.le_of_succ_le_succ hlength) h)
    · simp only [hknown, List.filter_cons, decide_false, Bool.false_eq_true, if_false] at hlength
      rw [if_neg hknown, List.mem_cons] at h
      rcases h with h | h
      · cases h
      · exact ih hlength h

/-- `enqueue_batch` inserts nothing and accepts no job, or appends the jobs of known queues under
new ids and answers them. -/
theorem enqueueBatch_cases (batch : List AcceptedJob) (queueNames : List String)
    (conn : IngestConn) :
    ((enqueueBatch batch queueNames conn).1 = conn ∧
      ∀ job, .ok job ∉ (enqueueBatch batch queueNames conn).2) ∨
    ∃ jobs, (enqueueBatch batch queueNames conn).1 =
        { conn with acceptedJobs := conn.acceptedJobs ++
          (numbered (nextId conn.acceptedJobs) jobs).map unclaimed } ∧
      ∀ job, .ok job ∈ (enqueueBatch batch queueNames conn).2 →
        job ∈ numbered (nextId conn.acceptedJobs) jobs := by
  unfold enqueueBatch
  dsimp only
  cases hfold : (Table.chunks rowsPerStatement (batch.filter fun job =>
      job.queueName ∈ queueNames)).foldlM (enqueueChunk conn.jobQueues) (conn.acceptedJobs, []) with
  | error error =>
    refine Or.inl ⟨rfl, fun job hjob => ?_⟩
    obtain ⟨_, -, heq⟩ := List.mem_map.mp (mem_enqueueReplies (by simp) hjob)
    cases heq
  | ok state =>
    have hstate := foldlM_enqueueChunk (fun chunk => Table.chunks_ne_nil rowsPerStatement_pos) hfold
    rw [Table.chunks_flatten rowsPerStatement_pos] at hstate
    subst hstate
    refine Or.inr ⟨_, rfl, fun job hjob => ?_⟩
    obtain ⟨found, hfound, heq⟩ := List.mem_map.mp (mem_enqueueReplies (by simp) hjob)
    rw [Except.ok.injEq] at heq
    simpa [heq] using hfound

/-- A row after `enqueue_batch` is an old one, or the free row of a job of the batch. -/
theorem mem_enqueueBatch {batch : List AcceptedJob} {queueNames : List String} {conn : IngestConn}
    {row : AcceptedJob} (h : row ∈ (enqueueBatch batch queueNames conn).1.acceptedJobs) :
    row ∈ conn.acceptedJobs ∨
      row.dispatchId = none ∧ ∃ job ∈ batch, row.createdAt = job.createdAt := by
  unfold enqueueBatch at h
  dsimp only at h
  cases hfold : (Table.chunks rowsPerStatement (batch.filter fun job =>
      job.queueName ∈ queueNames)).foldlM (enqueueChunk conn.jobQueues) (conn.acceptedJobs, []) with
  | error error =>
    rw [hfold] at h
    exact Or.inl h
  | ok state =>
    have hstate := foldlM_enqueueChunk (fun chunk => Table.chunks_ne_nil rowsPerStatement_pos) hfold
    rw [Table.chunks_flatten rowsPerStatement_pos] at hstate
    rw [hfold, hstate] at h
    rcases List.mem_append.mp h with hold | hnew
    · exact Or.inl hold
    · obtain ⟨numberedJob, hnumbered, rfl⟩ := List.mem_map.mp hnew
      obtain ⟨item, hitem, rfl⟩ := List.mem_map.mp hnumbered
      have hjob := List.fst_mem_of_mem_zipIdx hitem
      exact Or.inr ⟨rfl, item.1, (List.mem_filter.mp hjob).1, rfl⟩

theorem enqueueBatch_jobQueues (batch : List AcceptedJob) (queueNames : List String)
    (conn : IngestConn) : (enqueueBatch batch queueNames conn).1.jobQueues = conn.jobQueues := by
  unfold enqueueBatch
  dsimp only
  split <;> rfl

end Maqistor.IngestConn
