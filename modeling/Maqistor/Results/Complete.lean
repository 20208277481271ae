import Maqistor.Results.Conn
import Maqistor.Lib.Scatter
import Maqistor.Lib.Outcome

/-! What `complete_batch` does, read off one statement at a time: every row is finished at most
once, by a request that carries its job and dispatch id, and every request is answered from the
rows that run under its key when its own statement starts. -/

namespace Maqistor.ResultsConn

/-- Some row runs under the key. -/
def running (executions : List Execution) (key : Int × String) : Bool :=
  executions.any fun row => fences row key

/-- The retry limit of a queue, 0 for an unknown one. -/
def limitOf (queues : List JobQueue) (name : String) : Int :=
  ((Table.lookup JobQueue.name name queues).map fun queue => (queue.maxRetries.toNat : Int)).getD 0

/-- The answer to a request whose statement starts on `executions`. -/
def dispose (queues : List JobQueue) (executions : List Execution) (request : PendingCompletion) :
    CompletionDisposition :=
  match executions.find? fun row => fences row request.key with
  | none => .ignored
  | some row =>
    if request.outcome.isSuccess then .completed
    else if row.executionCount ≤ limitOf queues row.queueName then .repend else .completed

/-- The statements of a batch, in the order in which they run. -/
def statements (batch : List PendingCompletion) : List (List Entry) :=
  successChunks batch ++ failChunks batch

/-- A row after one statement. -/
def statementRow (env : Env) (chunk : List Entry) (row : Execution) : Execution :=
  Table.rowAfter env.choice (fun row entry => finished env.now row entry.1.outcome)
    (fun row entry => fences row entry.1.key) chunk row

/-- A row after the whole batch. -/
def batchRow (env : Env) (batch : List PendingCompletion) (row : Execution) : Execution :=
  (statements batch).foldl (fun row chunk => statementRow env chunk row) row

/-- The requests of some statements with their answers. -/
def answers (env : Env) (queues : List JobQueue) :
    List (List Entry) → List Execution → List (Entry × CompletionDisposition)
  | [], _ => []
  | chunk :: rest, executions =>
    chunk.map (fun entry => (entry, dispose queues executions entry.1)) ++
      answers env queues rest (executions.map (statementRow env chunk))

theorem fences_iff {row : Execution} {key : Int × String} :
    fences row key = true ↔ row.key = key ∧ row.status = .running := by
  simp [fences]

theorem running_iff {executions : List Execution} {key : Int × String} :
    running executions key = true ↔ ∃ row ∈ executions, row.key = key ∧ row.status = .running := by
  simp [running, fences_iff]

/-! ### Rows -/

@[simp] theorem finished_id (now : Int) (row : Execution) (outcome : JobOutcome) :
    (finished now row outcome).id = row.id := by cases outcome <;> rfl

@[simp] theorem finished_jobId (now : Int) (row : Execution) (outcome : JobOutcome) :
    (finished now row outcome).jobId = row.jobId := by cases outcome <;> rfl

@[simp] theorem finished_queueName (now : Int) (row : Execution) (outcome : JobOutcome) :
    (finished now row outcome).queueName = row.queueName := by cases outcome <;> rfl

@[simp] theorem finished_dispatchId (now : Int) (row : Execution) (outcome : JobOutcome) :
    (finished now row outcome).dispatchId = row.dispatchId := by cases outcome <;> rfl

@[simp] theorem finished_executionCount (now : Int) (row : Execution) (outcome : JobOutcome) :
    (finished now row outcome).executionCount = row.executionCount := by cases outcome <;> rfl

@[simp] theorem finished_key (now : Int) (row : Execution) (outcome : JobOutcome) :
    (finished now row outcome).key = row.key := by cases outcome <;> rfl

@[simp] theorem finished_updatedAt (now : Int) (row : Execution) (outcome : JobOutcome) :
    (finished now row outcome).updatedAt = now := by cases outcome <;> rfl

@[simp] theorem finished_leaseExpiresAt (now : Int) (row : Execution) (outcome : JobOutcome) :
    (finished now row outcome).leaseExpiresAt = none := by cases outcome <;> rfl

theorem finished_status (now : Int) (row : Execution) (outcome : JobOutcome) :
    (finished now row outcome).status = if outcome.isSuccess then .completed else .failed := by
  cases outcome <;> rfl

theorem finished_not_running (now : Int) (row : Execution) (outcome : JobOutcome) :
    (finished now row outcome).status ≠ .running := by
  cases outcome <;> simp [finished, setCompleted, setFailed]

theorem fences_finished (now : Int) (row : Execution) (outcome : JobOutcome) (key : Int × String) :
    fences (finished now row outcome) key = false := by
  simp [fences, finished_not_running]

/-- A statement leaves a row alone, or finishes it with the outcome of a request for it. -/
theorem statementRow_cases (env : Env) (chunk : List Entry) (row : Execution) :
    ((∀ entry ∈ chunk, fences row entry.1.key = false) ∧ statementRow env chunk row = row) ∨
      ∃ entry ∈ chunk, fences row entry.1.key = true ∧
        statementRow env chunk row = finished env.now row entry.1.outcome :=
  Table.rowAfter_cases env.choice (fun row (entry : Entry) => finished env.now row entry.1.outcome)
    (fun row entry => fences row entry.1.key) chunk row

/-- A column that no outcome assigns is kept by a statement. -/
theorem statementRow_keeps {γ : Type} {env : Env} (column : Execution → γ)
    (h : ∀ row outcome, column (finished env.now row outcome) = column row) (chunk : List Entry)
    (row : Execution) : column (statementRow env chunk row) = column row :=
  Table.rowAfter_keeps fun row entry => h row entry.1.outcome

theorem mem_successChunks {batch : List PendingCompletion} {entry : Entry} :
    entry ∈ (successChunks batch).flatten ↔
      entry ∈ batch.zipIdx ∧ entry.1.outcome.isSuccess = true := by
  rw [successChunks, Table.chunks_flatten rowsPerStatement_pos, List.mem_filter]

theorem mem_failChunks {batch : List PendingCompletion} {entry : Entry} :
    entry ∈ (failChunks batch).flatten ↔
      entry ∈ batch.zipIdx ∧ entry.1.outcome.isSuccess = false := by
  rw [failChunks, Table.chunks_flatten rowsPerStatement_pos, List.mem_filter, Bool.not_eq_true']

theorem statements_perm (batch : List PendingCompletion) :
    (statements batch).flatten.Perm batch.zipIdx := by
  rw [statements, List.flatten_append, successChunks, failChunks,
    Table.chunks_flatten rowsPerStatement_pos, Table.chunks_flatten rowsPerStatement_pos]
  exact List.filter_append_perm _ _

theorem mem_statements {batch : List PendingCompletion} {request : PendingCompletion} :
    (∃ entry ∈ (statements batch).flatten, entry.1 = request) ↔ request ∈ batch := by
  have h : ∀ entry, entry ∈ (statements batch).flatten ↔ entry ∈ batch.zipIdx :=
    fun _ => (statements_perm batch).mem_iff
  simp only [h]
  constructor
  · rintro ⟨entry, hentry, rfl⟩
    exact List.fst_mem_of_mem_zipIdx hentry
  · intro hmem
    obtain ⟨i, hi, rfl⟩ := List.getElem_of_mem hmem
    exact ⟨(batch[i], i), List.mem_zipIdx_iff_getElem?.mpr (by simp [hi]), rfl⟩

/-- Every row is left alone or finished once, by a request of the batch for its own key. -/
theorem batchRow_cases (env : Env) (batch : List PendingCompletion) (row : Execution) :
    ((∀ request ∈ batch, fences row request.key = false) ∧ batchRow env batch row = row) ∨
      ∃ request ∈ batch, fences row request.key = true ∧
        batchRow env batch row = finished env.now row request.outcome := by
  have hstop : ∀ (row : Execution) (entry other : Entry), fences row entry.1.key = true →
      fences (finished env.now row entry.1.outcome) other.1.key = false :=
    fun row entry other _ => fences_finished _ _ _ _
  rcases Table.foldl_rowAfter_cases env.choice hstop (statements batch) row with
    ⟨hnone, he⟩ | ⟨entry, hentry, hc, he⟩
  · refine Or.inl ⟨fun request hrequest => ?_, he⟩
    obtain ⟨entry, hentry, rfl⟩ := mem_statements.mpr hrequest
    exact hnone entry hentry
  · exact Or.inr ⟨entry.1, mem_statements.mp ⟨entry, hentry, rfl⟩, hc, he⟩

/-! ### Answers -/

theorem maxRetries_of_mem {queues : List JobQueue} {name : String}
    (h : name ∈ queues.map JobQueue.name) : maxRetries queues name = .ok (limitOf queues name) := by
  unfold maxRetries limitOf
  cases hq : Table.lookup JobQueue.name name queues with
  | none =>
    obtain ⟨queue, hqueue, rfl⟩ := List.mem_map.mp h
    exact absurd rfl (Table.lookup_eq_none.mp hq queue hqueue)
  | some queue => rfl

theorem mem_returned {env : Env} {chunk : List Entry} {executions : List Execution}
    {row' : Execution} (h : row' ∈ (completeStatement env chunk executions).2) :
    ∃ row ∈ executions, ∃ entry ∈ chunk, fences row entry.1.key = true ∧
      row' = finished env.now row entry.1.outcome := by
  obtain ⟨row, hrow, hupdated⟩ := Table.mem_updateFrom_returned.mp h
  obtain ⟨entry, hentry, hfences, he⟩ := Table.updatedRow_eq_some hupdated
  exact ⟨row, hrow, entry, hentry, hfences, he⟩

/-- A row that runs under the key of some request is among the returned ones. -/
theorem returned_of_fences (env : Env) {chunk : List Entry} {executions : List Execution}
    {row : Execution} {entry : Entry} (hrow : row ∈ executions) (hentry : entry ∈ chunk)
    (h : fences row entry.1.key = true) :
    ∃ outcome, finished env.now row outcome ∈ (completeStatement env chunk executions).2 := by
  have hsome : (Table.updatedRow env.choice
      (fun row (entry : Entry) => finished env.now row entry.1.outcome)
      (fun row entry => fences row entry.1.key) chunk row).isSome :=
    Table.updatedRow_isSome.mpr ⟨entry, hentry, h⟩
  obtain ⟨row', hrow'⟩ := Option.isSome_iff_exists.mp hsome
  obtain ⟨other, -, -, rfl⟩ := Table.updatedRow_eq_some hrow'
  exact ⟨other.1.outcome, Table.mem_updateFrom_returned.mpr ⟨row, hrow, hrow'⟩⟩

/-- The updated keys of a statement are, among its own, those that run before it. -/
theorem key_mem_returned {env : Env} {chunk : List Entry} {executions : List Execution}
    {entry : Entry} (hentry : entry ∈ chunk) :
    entry.1.key ∈ (completeStatement env chunk executions).2.map Execution.key ↔
      running executions entry.1.key = true := by
  rw [running, List.any_eq_true, List.mem_map]
  constructor
  · rintro ⟨row', hrow', hkey⟩
    obtain ⟨row, hrow, other, -, hfences, rfl⟩ := mem_returned hrow'
    rw [finished_key] at hkey
    exact ⟨row, hrow, fences_iff.mpr ⟨hkey, (fences_iff.mp hfences).2⟩⟩
  · rintro ⟨row, hrow, hfences⟩
    obtain ⟨outcome, hmem⟩ := returned_of_fences env hrow hentry hfences
    exact ⟨_, hmem, by rw [finished_key]; exact (fences_iff.mp hfences).1⟩

theorem find_fences {executions : List Execution} {key : Int × String} {row : Execution}
    (h : (executions.find? fun row => fences row key) = some row) :
    row ∈ executions ∧ fences row key = true :=
  ⟨List.mem_of_find?_eq_some h, by simpa using List.find?_some h⟩

theorem dispose_eq_ignored {queues : List JobQueue} {executions : List Execution}
    {request : PendingCompletion} :
    dispose queues executions request = .ignored ↔ running executions request.key = false := by
  unfold dispose running
  cases h : executions.find? fun row => fences row request.key with
  | none =>
    simp only [true_iff, List.any_eq_false]
    intro row hrow
    exact List.find?_eq_none.mp h row hrow
  | some row =>
    have hany : (executions.any fun row => fences row request.key) = true :=
      List.any_eq_true.mpr ⟨row, find_fences h⟩
    simp only [hany, Bool.true_eq_false, iff_false]
    split
    · simp
    · split <;> simp

/-- Rows of distinct jobs are told apart by their keys. -/
theorem eq_of_key {executions : List Execution} (hjobs : (executions.map Execution.jobId).Nodup)
    {row other : Execution} (hrow : row ∈ executions) (hother : other ∈ executions)
    (hkey : row.key = other.key) : row = other :=
  List.inj_on_of_nodup_map hjobs hrow hother (congrArg Prod.fst hkey)

/-- The answer to a request whose row is the only one of its job. -/
theorem dispose_of_fences {queues : List JobQueue} {executions : List Execution} {row : Execution}
    {request : PendingCompletion} (hjobs : (executions.map Execution.jobId).Nodup)
    (hrow : row ∈ executions) (h : fences row request.key = true) :
    dispose queues executions request =
      if request.outcome.isSuccess then .completed
      else if row.executionCount ≤ limitOf queues row.queueName then .repend else .completed := by
  unfold dispose
  cases hfind : executions.find? fun row => fences row request.key with
  | none => exact absurd h (List.find?_eq_none.mp hfind row hrow)
  | some other =>
    obtain ⟨hmem, hother⟩ := find_fences hfind
    have hkey : other.key = row.key := (fences_iff.mp hother).1.trans (fences_iff.mp h).1.symm
    rw [eq_of_key hjobs hmem hrow hkey]

/-- A success statement answers from its updated keys. -/
theorem dispose_of_success {env : Env} {queues : List JobQueue} {executions : List Execution}
    {chunk : List Entry} {entry : Entry} (hentry : entry ∈ chunk)
    (hsuccess : entry.1.outcome.isSuccess = true) :
    dispose queues executions entry.1 =
      if entry.1.key ∈ (completeStatement env chunk executions).2.map Execution.key
      then .completed else .ignored := by
  by_cases hrun : running executions entry.1.key = true
  · rw [if_pos ((key_mem_returned hentry).mpr hrun)]
    have hne : dispose queues executions entry.1 ≠ .ignored := by
      simp [dispose_eq_ignored, hrun]
    unfold dispose at hne ⊢
    split at hne
    · exact absurd rfl hne
    · simp [hsuccess]
  · rw [if_neg (mt (key_mem_returned hentry).mp hrun)]
    exact dispose_eq_ignored.mpr (by simpa using hrun)

theorem completeSuccess_eq {env : Env} {queues : List JobQueue} {executions : List Execution}
    {dispositions : List CompletionDisposition} {chunk : List Entry}
    (hindex : (chunk.map Prod.snd).Nodup)
    (hignored : ∀ entry ∈ chunk, dispositions[entry.2]? = some .ignored)
    (hsuccess : ∀ entry ∈ chunk, entry.1.outcome.isSuccess = true) :
    completeSuccess env (executions, dispositions) chunk =
      (executions.map (statementRow env chunk),
        Scatter.scatter (chunk.map fun entry => (entry.2, dispose queues executions entry.1))
          dispositions) := by
  have hdispose : ∀ entry ∈ chunk, dispose queues executions entry.1 =
      if entry.1.key ∈ (completeStatement env chunk executions).2.map Execution.key
      then .completed else .ignored :=
    fun entry hentry => dispose_of_success hentry (hsuccess entry hentry)
  unfold completeSuccess
  refine Prod.ext rfl ?_
  dsimp only
  generalize (completeStatement env chunk executions).2.map Execution.key = updated at hdispose ⊢
  -- An entry that was not updated writes the default, which already stands at its place.
  induction chunk generalizing dispositions with
  | nil => rfl
  | cons entry rest ih =>
    rw [List.map_cons, List.nodup_cons] at hindex
    have hwrite : (if entry.1.key ∈ updated then dispositions.set entry.2 .completed
        else dispositions) = dispositions.set entry.2 (dispose queues executions entry.1) := by
      rw [hdispose entry List.mem_cons_self]
      split
      · rfl
      · exact (Scatter.set_eq_self (hignored entry List.mem_cons_self)).symm
    rw [List.foldl_cons, hwrite, List.map_cons, Scatter.scatter_cons]
    refine ih hindex.2 (fun other hother => ?_) (fun other hother => hsuccess other ?_)
      fun other hother => hdispose other ?_
    · have hne : entry.2 ≠ other.2 := by
        intro heq
        exact hindex.1 (heq ▸ List.mem_map_of_mem hother)
      rw [List.getElem?_set_ne hne]
      exact hignored other (List.mem_cons_of_mem _ hother)
    · exact List.mem_cons_of_mem _ hother
    · exact List.mem_cons_of_mem _ hother

/-- A failure statement answers from its returned rows: the first one with the key is the finished
version of the only row with it. -/
theorem failDisposition_eq {env : Env} {queues : List JobQueue} {executions : List Execution}
    {chunk : List Entry} (hjobs : (executions.map Execution.jobId).Nodup) {entry : Entry}
    (hentry : entry ∈ chunk) (hfailure : entry.1.outcome.isSuccess = false) :
    failDisposition ((completeStatement env chunk executions).2.map
        fun row => (row, limitOf queues row.queueName)) entry.1.key =
      dispose queues executions entry.1 := by
  unfold failDisposition
  cases hfind : ((completeStatement env chunk executions).2.map
      fun row => (row, limitOf queues row.queueName)).find?
        fun item => item.1.key = entry.1.key with
  | none =>
    have hidle : ¬running executions entry.1.key = true := by
      intro hrun
      obtain ⟨row', hrow', hkey⟩ := List.mem_map.mp ((key_mem_returned hentry).mpr hrun)
      have := List.find?_eq_none.mp hfind _ (List.mem_map_of_mem hrow')
      simp [hkey] at this
    exact (dispose_eq_ignored.mpr (by simpa using hidle)).symm
  | some item =>
    have hkey := List.find?_some hfind
    obtain ⟨row', hrow', rfl⟩ := List.mem_map.mp (List.mem_of_find?_eq_some hfind)
    obtain ⟨row, hrow, request, -, hfences, rfl⟩ := mem_returned hrow'
    simp only [finished_key, decide_eq_true_eq] at hkey
    have hrun : fences row entry.1.key = true :=
      fences_iff.mpr ⟨hkey, (fences_iff.mp hfences).2⟩
    rw [dispose_of_fences hjobs hrow hrun, hfailure]
    simp

theorem completeFailure_eq {env : Env} {queues : List JobQueue} {executions : List Execution}
    {dispositions : List CompletionDisposition} {chunk : List Entry}
    (hjobs : (executions.map Execution.jobId).Nodup)
    (hqueues : ∀ row ∈ executions, row.queueName ∈ queues.map JobQueue.name)
    (hfailure : ∀ entry ∈ chunk, entry.1.outcome.isSuccess = false) :
    completeFailure env queues (executions, dispositions) chunk =
      .ok (executions.map (statementRow env chunk),
        Scatter.scatter (chunk.map fun entry => (entry.2, dispose queues executions entry.1))
          dispositions) := by
  have hlimits : (completeStatement env chunk executions).2.mapM (fun row => do
      let limit ← maxRetries queues row.queueName
      return (row, limit)) = .ok ((completeStatement env chunk executions).2.map
        fun row => (row, limitOf queues row.queueName)) := by
    apply Outcome.mapM_of_ok
    intro row' hrow'
    obtain ⟨row, hrow, entry, -, -, rfl⟩ := mem_returned hrow'
    rw [maxRetries_of_mem (by rw [finished_queueName]; exact hqueues row hrow)]
    rfl
  unfold completeFailure
  dsimp only
  rw [hlimits]
  simp only [bind, Except.bind, pure, Except.pure, Except.ok.injEq]
  refine Prod.ext rfl ?_
  rw [Scatter.scatter, List.foldl_map]
  exact List.foldl_ext _ _ _ fun dispositions entry hentry => by
    rw [failDisposition_eq hjobs hentry (hfailure entry hentry)]

theorem statementRow_jobId (env : Env) (chunk : List Entry) (row : Execution) :
    (statementRow env chunk row).jobId = row.jobId :=
  statementRow_keeps Execution.jobId (fun row outcome => finished_jobId _ row outcome) chunk row

theorem statementRow_queueName (env : Env) (chunk : List Entry) (row : Execution) :
    (statementRow env chunk row).queueName = row.queueName :=
  statementRow_keeps Execution.queueName (fun row outcome => finished_queueName _ row outcome)
    chunk row

theorem map_statementRow_jobId (env : Env) (chunk : List Entry) (executions : List Execution) :
    (executions.map (statementRow env chunk)).map Execution.jobId =
      executions.map Execution.jobId := by
  rw [List.map_map]
  exact List.map_congr_left fun row _ => statementRow_jobId env chunk row

/-- The table after the first statements of a batch. -/
def tableAfter (env : Env) (chunks : List (List Entry)) (executions : List Execution) :
    List Execution :=
  chunks.foldl (fun executions chunk => executions.map (statementRow env chunk)) executions

theorem answers_append (env : Env) (queues : List JobQueue) (first second : List (List Entry))
    (executions : List Execution) :
    answers env queues (first ++ second) executions = answers env queues first executions ++
      answers env queues second (tableAfter env first executions) := by
  induction first generalizing executions with
  | nil => rfl
  | cons chunk first ih =>
    rw [List.cons_append, answers, answers, ih, List.append_assoc]
    rfl

theorem answers_entries (env : Env) (queues : List JobQueue) (chunks : List (List Entry))
    (executions : List Execution) :
    (answers env queues chunks executions).map Prod.fst = chunks.flatten := by
  induction chunks generalizing executions with
  | nil => rfl
  | cons chunk chunks ih =>
    rw [answers, List.map_append, ih, List.map_map, List.flatten_cons]
    congr 1
    exact List.map_id' chunk

/-- The answers as writes into the vector of dispositions. -/
def writes (env : Env) (queues : List JobQueue) (chunks : List (List Entry))
    (executions : List Execution) : List (Nat × CompletionDisposition) :=
  (answers env queues chunks executions).map fun answer => (answer.1.2, answer.2)

theorem writes_cons (env : Env) (queues : List JobQueue) (chunk : List Entry)
    (chunks : List (List Entry)) (executions : List Execution) :
    writes env queues (chunk :: chunks) executions =
      (chunk.map fun entry => (entry.2, dispose queues executions entry.1)) ++
        writes env queues chunks (executions.map (statementRow env chunk)) := by
  simp [writes, answers, Function.comp_def]

theorem foldl_completeSuccess {env : Env} (queues : List JobQueue) (chunks : List (List Entry))
    (executions : List Execution) (dispositions : List CompletionDisposition)
    (hindex : (chunks.flatten.map Prod.snd).Nodup)
    (hignored : ∀ entry ∈ chunks.flatten, dispositions[entry.2]? = some .ignored)
    (hsuccess : ∀ entry ∈ chunks.flatten, entry.1.outcome.isSuccess = true) :
    chunks.foldl (completeSuccess env) (executions, dispositions) =
      (tableAfter env chunks executions,
        Scatter.scatter (writes env queues chunks executions) dispositions) := by
  induction chunks generalizing executions dispositions with
  | nil => rfl
  | cons chunk chunks ih =>
    rw [List.flatten_cons, List.map_append, List.nodup_append] at hindex
    simp only [List.flatten_cons, List.mem_append] at hignored hsuccess
    obtain ⟨hchunk, hrest, hdisjoint⟩ := hindex
    rw [List.foldl_cons, completeSuccess_eq hchunk (fun entry h => hignored entry (Or.inl h))
      (fun entry h => hsuccess entry (Or.inl h)), writes_cons, Scatter.scatter_append]
    refine ih _ _ hrest (fun entry hentry => ?_) fun entry h => hsuccess entry (Or.inr h)
    rw [Scatter.scatter_getElem?_of_notMem]
    · exact hignored entry (Or.inr hentry)
    · rw [List.map_map]
      intro hmem
      exact hdisjoint _ hmem _ (List.mem_map_of_mem hentry) rfl

theorem foldlM_completeFailure {env : Env} {queues : List JobQueue} (chunks : List (List Entry))
    (executions : List Execution) (dispositions : List CompletionDisposition)
    (hjobs : (executions.map Execution.jobId).Nodup)
    (hqueues : ∀ row ∈ executions, row.queueName ∈ queues.map JobQueue.name)
    (hfailure : ∀ entry ∈ chunks.flatten, entry.1.outcome.isSuccess = false) :
    chunks.foldlM (completeFailure env queues) (executions, dispositions) =
      .ok (tableAfter env chunks executions,
        Scatter.scatter (writes env queues chunks executions) dispositions) := by
  induction chunks generalizing executions dispositions with
  | nil => rfl
  | cons chunk chunks ih =>
    simp only [List.flatten_cons, List.mem_append] at hfailure
    rw [List.foldlM_cons, completeFailure_eq hjobs hqueues fun entry h => hfailure entry (Or.inl h),
      writes_cons, Scatter.scatter_append]
    refine ih _ _ (by rw [map_statementRow_jobId]; exact hjobs) (fun row' hrow' => ?_)
      fun entry h => hfailure entry (Or.inr h)
    obtain ⟨row, hrow, rfl⟩ := List.mem_map.mp hrow'
    rw [statementRow_queueName]
    exact hqueues row hrow

theorem tableAfter_eq (env : Env) (chunks : List (List Entry)) (executions : List Execution) :
    tableAfter env chunks executions =
      executions.map fun row => chunks.foldl (fun row chunk => statementRow env chunk row) row :=
  Table.foldl_map_rows _ _ _

theorem foldl_statementRow_keeps {γ : Type} {env : Env} (column : Execution → γ)
    (h : ∀ row outcome, column (finished env.now row outcome) = column row)
    (chunks : List (List Entry)) (row : Execution) :
    column (chunks.foldl (fun row chunk => statementRow env chunk row) row) = column row := by
  induction chunks generalizing row with
  | nil => rfl
  | cons chunk chunks ih =>
    rw [List.foldl_cons, ih]
    exact statementRow_keeps column h chunk row

theorem tableAfter_jobs (env : Env) (chunks : List (List Entry)) (executions : List Execution) :
    (tableAfter env chunks executions).map Execution.jobId = executions.map Execution.jobId := by
  rw [tableAfter_eq, List.map_map]
  exact List.map_congr_left fun row _ =>
    foldl_statementRow_keeps Execution.jobId (fun _ _ => finished_jobId _ _ _) chunks row

theorem tableAfter_queues {env : Env} {chunks : List (List Entry)} {executions : List Execution}
    {names : List String} (h : ∀ row ∈ executions, row.queueName ∈ names) :
    ∀ row ∈ tableAfter env chunks executions, row.queueName ∈ names := by
  intro row' hrow'
  rw [tableAfter_eq] at hrow'
  obtain ⟨row, hrow, rfl⟩ := List.mem_map.mp hrow'
  rw [foldl_statementRow_keeps Execution.queueName (fun _ _ => finished_queueName _ _ _)]
  exact h row hrow

/-- `complete_batch` on a table whose jobs are distinct and whose queues are known: it succeeds,
rewrites each row by `batchRow` and answers each request by `answers`. -/
theorem completeBatch_eq (env : Env) (batch : List PendingCompletion) {conn : ResultsConn}
    (hjobs : (conn.executions.map Execution.jobId).Nodup)
    (hqueues : ∀ row ∈ conn.executions, row.queueName ∈ conn.executionQueues.map JobQueue.name) :
    completeBatch env batch conn =
      ({ conn with executions := conn.executions.map (batchRow env batch) },
        .ok (Scatter.scatter (writes env conn.executionQueues (statements batch) conn.executions)
          (List.replicate batch.length .ignored))) := by
  have hindex : ((statements batch).flatten.map Prod.snd).Nodup := by
    apply ((statements_perm batch).map Prod.snd).symm.nodup
    rw [List.zipIdx_map_snd]
    exact List.nodup_range'
  rw [statements, List.flatten_append, List.map_append, List.nodup_append] at hindex
  have hignored : ∀ entry ∈ (successChunks batch).flatten,
      (List.replicate batch.length CompletionDisposition.ignored)[entry.2]? = some .ignored := by
    intro entry hentry
    obtain ⟨hlt, -⟩ := List.getElem?_eq_some_iff.mp
      (List.mem_zipIdx_iff_getElem?.mp (mem_successChunks.mp hentry).1)
    simp [hlt]
  unfold completeBatch
  dsimp only
  rw [foldl_completeSuccess conn.executionQueues _ _ _ hindex.1 hignored
      (fun entry h => (mem_successChunks.mp h).2),
    foldlM_completeFailure _ _ _ (by rw [tableAfter_jobs]; exact hjobs) (tableAfter_queues hqueues)
      (fun entry h => (mem_failChunks.mp h).2)]
  apply Prod.ext
  · simp only [tableAfter, ← List.foldl_append]
    congr 1
    exact tableAfter_eq env (statements batch) conn.executions
  · simp only [writes, statements, answers_append, List.map_append, Scatter.scatter_append]

/-! ### Retries -/

theorem foldl_statementRow_of_not_running {env : Env} (chunks : List (List Entry))
    {row : Execution} (h : row.status ≠ .running) :
    chunks.foldl (fun row chunk => statementRow env chunk row) row = row := by
  induction chunks with
  | nil => rfl
  | cons chunk chunks ih =>
    rw [List.foldl_cons]
    rcases statementRow_cases env chunk row with ⟨-, heq⟩ | ⟨entry, -, hfences, -⟩
    · rw [heq, ih]
    · exact absurd (fences_iff.mp hfences).2 h

theorem dispose_eq_repend {queues : List JobQueue} {executions : List Execution}
    {request : PendingCompletion} (h : dispose queues executions request = .repend) :
    request.outcome.isSuccess = false ∧ ∃ row ∈ executions, fences row request.key = true ∧
      row.executionCount ≤ limitOf queues row.queueName := by
  unfold dispose at h
  split at h
  · cases h
  · next row hfind =>
    obtain ⟨hrow, hfences⟩ := find_fences hfind
    split at h
    · cases h
    · next hfailed =>
      split at h
      · next hle => exact ⟨by simpa using hfailed, row, hrow, hfences, hle⟩
      · cases h

/-- A request that is told to repend stands for a row that ran, failed, and has retries left. -/
theorem answers_repend {env : Env} {queues : List JobQueue} {chunks : List (List Entry)}
    {executions : List Execution}
    (hkind : ∀ chunk ∈ chunks, ∀ entry ∈ chunk, ∀ other ∈ chunk,
      entry.1.outcome.isSuccess = other.1.outcome.isSuccess)
    {answer : Entry × CompletionDisposition} (hanswer : answer ∈ answers env queues chunks executions)
    (hrepend : answer.2 = .repend) :
    ∃ row ∈ executions, fences row answer.1.1.key = true ∧
      row.executionCount ≤ limitOf queues row.queueName ∧ ∃ message,
      chunks.foldl (fun row chunk => statementRow env chunk row) row =
        finished env.now row (.failed message) := by
  induction chunks generalizing executions with
  | nil => cases hanswer
  | cons chunk chunks ih =>
    rw [answers, List.mem_append] at hanswer
    rcases hanswer with hanswer | hanswer
    · obtain ⟨entry, hentry, rfl⟩ := List.mem_map.mp hanswer
      obtain ⟨hfailed, row, hrow, hfences, hle⟩ := dispose_eq_repend hrepend
      refine ⟨row, hrow, hfences, hle, ?_⟩
      rw [List.foldl_cons]
      rcases statementRow_cases env chunk row with ⟨hnone, -⟩ | ⟨other, hother, -, heq⟩
      · rw [hnone entry hentry] at hfences
        cases hfences
      · -- Another request of the same statement may have been picked, but it failed as well.
        rw [heq, foldl_statementRow_of_not_running _ (finished_not_running env.now row _)]
        have hsame := hkind chunk List.mem_cons_self entry hentry other hother
        rw [hfailed] at hsame
        cases houtcome : other.1.outcome with
        | succeeded payload =>
          rw [houtcome] at hsame
          cases hsame
        | failed message => exact ⟨message, rfl⟩
    · obtain ⟨row', hrow', hfences, hle, message, heq⟩ :=
        ih (fun other hother => hkind other (List.mem_cons_of_mem _ hother)) hanswer
      obtain ⟨row, hrow, rfl⟩ := List.mem_map.mp hrow'
      have hsame : statementRow env chunk row = row := by
        rcases statementRow_cases env chunk row with ⟨-, hsame⟩ | ⟨_, -, -, hdone⟩
        · exact hsame
        · rw [hdone] at hfences
          rw [fences_finished] at hfences
          cases hfences
      rw [hsame] at hfences hle heq
      exact ⟨row, hrow, hfences, hle, message, by rw [List.foldl_cons, hsame]; exact heq⟩

/-- A row that some statement fails with retries left has a request that is told to repend. -/
theorem answers_of_failed {env : Env} {queues : List JobQueue} {chunks : List (List Entry)}
    {executions : List Execution} (hjobs : (executions.map Execution.jobId).Nodup)
    {row : Execution} (hrow : row ∈ executions) (hrunning : row.status = .running)
    (hfailed : (chunks.foldl (fun row chunk => statementRow env chunk row) row).status = .failed)
    (hle : row.executionCount ≤ limitOf queues row.queueName) :
    ∃ answer ∈ answers env queues chunks executions, answer.1.1.key = row.key ∧
      answer.2 = .repend := by
  induction chunks generalizing executions with
  | nil =>
    rw [List.foldl_nil, hrunning] at hfailed
    cases hfailed
  | cons chunk chunks ih =>
    rw [List.foldl_cons] at hfailed
    rcases statementRow_cases env chunk row with ⟨-, hsame⟩ | ⟨entry, hentry, hfences, hdone⟩
    · rw [hsame] at hfailed
      obtain ⟨answer, hanswer, hrest⟩ := ih (by rw [map_statementRow_jobId]; exact hjobs)
        (List.mem_map.mpr ⟨row, hrow, hsame⟩) hfailed
      exact ⟨answer, List.mem_append_right _ hanswer, hrest⟩
    · rw [hdone, foldl_statementRow_of_not_running _ (finished_not_running env.now row _),
        finished_status] at hfailed
      refine ⟨_, List.mem_append_left _ (List.mem_map_of_mem hentry),
        (fences_iff.mp hfences).1.symm, ?_⟩
      rw [dispose_of_fences hjobs hrow hfences]
      split at hfailed
      · cases hfailed
      · next houtcome => rw [if_neg houtcome, if_pos hle]

theorem statements_kind (batch : List PendingCompletion) : ∀ chunk ∈ statements batch,
    ∀ entry ∈ chunk, ∀ other ∈ chunk,
      entry.1.outcome.isSuccess = other.1.outcome.isSuccess := by
  intro chunk hchunk entry hentry other hother
  rw [statements, List.mem_append] at hchunk
  rcases hchunk with hchunk | hchunk
  · have hsuccess : ∀ item ∈ chunk, item.1.outcome.isSuccess = true := fun item hitem =>
      (mem_successChunks.mp (List.mem_flatten.mpr ⟨chunk, hchunk, hitem⟩)).2
    rw [hsuccess entry hentry, hsuccess other hother]
  · have hfailed : ∀ item ∈ chunk, item.1.outcome.isSuccess = false := fun item hitem =>
      (mem_failChunks.mp (List.mem_flatten.mpr ⟨chunk, hchunk, hitem⟩)).2
    rw [hfailed entry hentry, hfailed other hother]

/-- The replies of a batch: each request with its answer, in some order. -/
theorem completeBatch_replies (env : Env) (batch : List PendingCompletion) {conn : ResultsConn}
    (hjobs : (conn.executions.map Execution.jobId).Nodup)
    (hqueues : ∀ row ∈ conn.executions, row.queueName ∈ conn.executionQueues.map JobQueue.name) :
    ∃ dispositions, completeBatch env batch conn =
        ({ conn with executions := conn.executions.map (batchRow env batch) },
          .ok dispositions) ∧
      dispositions.length = batch.length ∧
      (batch.zip dispositions).Perm
        ((answers env conn.executionQueues (statements batch) conn.executions).map
          fun answer => (answer.1.1, answer.2)) := by
  refine ⟨_, completeBatch_eq env batch hjobs hqueues, by simp, ?_⟩
  apply Scatter.zip_scatter_perm CompletionDisposition.ignored
  rw [answers_entries]
  exact statements_perm batch

theorem completeBatch_repend {env : Env} {batch : List PendingCompletion} {conn : ResultsConn}
    {dispositions : List CompletionDisposition}
    (hperm : (batch.zip dispositions).Perm
      ((answers env conn.executionQueues (statements batch) conn.executions).map
        fun answer => (answer.1.1, answer.2))) {request : PendingCompletion}
    (h : (request, CompletionDisposition.repend) ∈ batch.zip dispositions) :
    ∃ row ∈ conn.executions, fences row request.key = true ∧
      row.executionCount ≤ limitOf conn.executionQueues row.queueName ∧
      ∃ message, batchRow env batch row = finished env.now row (.failed message) := by
  obtain ⟨answer, hanswer, heq⟩ := List.mem_map.mp (hperm.mem_iff.mp h)
  obtain ⟨rfl, hrepend⟩ := Prod.mk.inj heq
  exact answers_repend (statements_kind batch) hanswer hrepend

theorem completeBatch_failed {env : Env} {batch : List PendingCompletion} {conn : ResultsConn}
    {dispositions : List CompletionDisposition}
    (hperm : (batch.zip dispositions).Perm
      ((answers env conn.executionQueues (statements batch) conn.executions).map
        fun answer => (answer.1.1, answer.2)))
    (hjobs : (conn.executions.map Execution.jobId).Nodup) {row : Execution}
    (hrow : row ∈ conn.executions) (hrunning : row.status = .running)
    (hfailed : (batchRow env batch row).status = .failed)
    (hle : row.executionCount ≤ limitOf conn.executionQueues row.queueName) :
    ∃ request, (request, CompletionDisposition.repend) ∈ batch.zip dispositions ∧
      request.key = row.key := by
  obtain ⟨answer, hanswer, hkey, hrepend⟩ := answers_of_failed hjobs hrow hrunning hfailed hle
  refine ⟨answer.1.1, hperm.mem_iff.mpr (List.mem_map.mpr ⟨answer, hanswer, ?_⟩), hkey⟩
  rw [hrepend]

end Maqistor.ResultsConn
