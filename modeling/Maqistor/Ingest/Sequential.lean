import Maqistor.Ingest.Enqueue
import Maqistor.Lib.Lists

/-! A batch of enqueue requests against the same requests one at a time. The ids of a batch are
computed from `last_insert_rowid` for each statement; they are the ones that single inserts would
give. -/

namespace Maqistor.IngestConn

/-- One request on its own: a statement that inserts one row. -/
def enqueue (queueNames : List String) (job : AcceptedJob) (conn : IngestConn) :
    IngestConn × Except StoreError AcceptedJob :=
  if job.queueName ∈ queueNames then
    match insertJobs conn.jobQueues [job] conn.acceptedJobs with
    | .error error => (conn, .error error)
    | .ok rows => ({ conn with acceptedJobs := rows }, .ok { job with id := lastInsertRowid rows })
  else (conn, .error (.queueNotFound job.queueName))

/-- The requests one at a time, in their order. -/
def enqueueEach (queueNames : List String) : List AcceptedJob → IngestConn →
    IngestConn × List (Except StoreError AcceptedJob)
  | [], conn => (conn, [])
  | job :: rest, conn =>
    let (conn, reply) := conn.enqueue queueNames job
    let (conn, replies) := conn.enqueueEach queueNames rest
    (conn, reply :: replies)

/-- The requests of a batch that are inserted. -/
def toInsert (queueNames : List String) (batch : List AcceptedJob) : List AcceptedJob :=
  batch.filter fun job => job.queueName ∈ queueNames

/-- What the transaction of a batch comes to; its database may report an error of its own. -/
def enqueueResult (fault : Option StoreError) (batch : List AcceptedJob) (queueNames : List String)
    (conn : IngestConn) : Except StoreError (List AcceptedJob × List AcceptedJob) :=
  match fault with
  | some error => .error error
  | none => (Table.chunks rowsPerStatement (toInsert queueNames batch)).foldlM
      (enqueueChunk conn.jobQueues) (conn.acceptedJobs, [])

/-- `enqueue_batch`, whose database may report an error of its own. -/
def enqueueBatchOr (fault : Option StoreError) (batch : List AcceptedJob) (queueNames : List String)
    (conn : IngestConn) : IngestConn × List (Except StoreError AcceptedJob) :=
  match fault with
  | some error =>
    (conn, enqueueReplies queueNames batch ((toInsert queueNames batch).map fun _ => .error error))
  | none => conn.enqueueBatch batch queueNames

section Sequential

variable {queueNames : List String} {batch : List AcceptedJob} {conn : IngestConn}
  {queues : List JobQueue}

theorem toInsert_known {job : AcceptedJob} (h : job.queueName ∈ queueNames) :
    toInsert queueNames (job :: batch) = job :: toInsert queueNames batch :=
  List.filter_cons_of_pos (decide_eq_true h)

theorem toInsert_unknown {job : AcceptedJob} (h : job.queueName ∉ queueNames) :
    toInsert queueNames (job :: batch) = toInsert queueNames batch :=
  List.filter_cons_of_neg (by simpa using h)

/-! ### The queues that the rows refer to -/

theorem insertJobs_queues {jobs rows rows' : List AcceptedJob}
    (h : insertJobs queues jobs rows = .ok rows') :
    ∀ job ∈ jobs, job.queueName ∈ queues.map JobQueue.name := by
  induction jobs generalizing rows with
  | nil => simp
  | cons job jobs ih =>
    rw [insertJobs] at h
    split at h
    · next hqueue => exact List.forall_mem_cons.mpr ⟨hqueue, ih h⟩
    · cases h

theorem foldlM_enqueueChunk_queues {chunks : List (List AcceptedJob)}
    {state state' : List AcceptedJob × List AcceptedJob}
    (h : chunks.foldlM (enqueueChunk queues) state = .ok state') :
    ∀ job ∈ chunks.flatten, job.queueName ∈ queues.map JobQueue.name := by
  induction chunks generalizing state with
  | nil => simp
  | cons chunk chunks ih =>
    rw [List.foldlM_cons, Outcome.bind_eq_ok] at h
    obtain ⟨middle, hchunk, hrest⟩ := h
    obtain ⟨rows, hrows, -⟩ := Outcome.map_eq_ok.mp hchunk
    rw [List.flatten_cons]
    exact List.forall_mem_append.mpr ⟨insertJobs_queues hrows, ih hrest⟩

/-! ### One at a time -/

/-- A single insert takes the next id. -/
theorem enqueue_known {job : AcceptedJob} (hknown : job.queueName ∈ queueNames)
    (hqueue : job.queueName ∈ conn.jobQueues.map JobQueue.name) :
    conn.enqueue queueNames job =
      ({ conn with acceptedJobs := conn.acceptedJobs ++
          [unclaimed { job with id := nextId conn.acceptedJobs }] },
        .ok { job with id := nextId conn.acceptedJobs }) := by
  have hlast : lastInsertRowid (conn.acceptedJobs ++ [acceptedOf conn.acceptedJobs job]) =
      nextId conn.acceptedJobs := by
    simp [lastInsertRowid, acceptedOf, nextId]
  rw [enqueue, if_pos hknown, insertJobs, if_pos hqueue, insertJobs]
  dsimp only
  rw [hlast]
  rfl

/-- Single inserts number the jobs of known queues from the next id on. -/
theorem enqueueEach_eq (hqueues : ∀ job ∈ toInsert queueNames batch,
    job.queueName ∈ conn.jobQueues.map JobQueue.name) :
    conn.enqueueEach queueNames batch =
      ({ conn with acceptedJobs := conn.acceptedJobs ++
          (numbered (nextId conn.acceptedJobs) (toInsert queueNames batch)).map unclaimed },
        enqueueReplies queueNames batch
          ((numbered (nextId conn.acceptedJobs) (toInsert queueNames batch)).map .ok)) := by
  induction batch generalizing conn with
  | nil => simp [enqueueEach, toInsert, enqueueReplies]
  | cons job rest ih =>
    by_cases hknown : job.queueName ∈ queueNames
    · rw [toInsert_known hknown] at hqueues ⊢
      obtain ⟨hqueue, hqueues⟩ := List.forall_mem_cons.mp hqueues
      have hnext : nextId (conn.acceptedJobs ++
          [unclaimed { job with id := nextId conn.acceptedJobs }]) = nextId conn.acceptedJobs + 1 := by
        rw [nextId, List.map_append]
        exact Table.nextRowid_append _
      have hrest := @ih { conn with acceptedJobs := conn.acceptedJobs ++
        [unclaimed { job with id := nextId conn.acceptedJobs }] } hqueues
      dsimp only at hrest
      rw [hnext] at hrest
      rw [enqueueEach, enqueue_known hknown hqueue]
      dsimp only
      rw [hrest, numbered_cons, List.map_cons, List.map_cons, enqueueReplies, if_pos hknown,
        List.headD_cons, List.tail_cons, List.append_assoc]
      rfl
    · rw [toInsert_unknown hknown] at hqueues ⊢
      rw [enqueueEach, enqueue, if_neg hknown, enqueueReplies, if_neg hknown]
      dsimp only
      rw [ih hqueues]

/-! ### The replies -/

/-- The ids that a batch was answered with. -/
def acceptedIds (replies : List (Except StoreError AcceptedJob)) : List Int :=
  replies.filterMap fun reply => reply.toOption.map AcceptedJob.id

/-- The reply to a request for a known queue is that of its insert, and the others are refused. -/
theorem enqueueReplies_forall₂ {α : Type} {R : AcceptedJob → α → Prop}
    {f : α → Except StoreError AcceptedJob} {answers : List α}
    (h : List.Forall₂ R (toInsert queueNames batch) answers) :
    List.Forall₂ (fun job reply =>
      (job.queueName ∈ queueNames → ∃ answer ∈ answers, R job answer ∧ reply = f answer) ∧
      (job.queueName ∉ queueNames → reply = .error (.queueNotFound job.queueName)))
      batch (enqueueReplies queueNames batch (answers.map f)) := by
  induction batch generalizing answers with
  | nil => exact .nil
  | cons job rest ih =>
    rw [enqueueReplies]
    by_cases hknown : job.queueName ∈ queueNames
    · rw [toInsert_known hknown] at h
      rw [if_pos hknown]
      cases h with
      | @cons _ answer _ answers hfirst hrest =>
        refine .cons ⟨fun _ => ⟨answer, List.mem_cons_self, hfirst, rfl⟩,
          fun hunknown => absurd hknown hunknown⟩ ?_
        refine (ih hrest).imp fun other reply hother => ⟨fun hqueue => ?_, hother.2⟩
        obtain ⟨found, hfound, hsame⟩ := hother.1 hqueue
        exact ⟨found, List.mem_cons_of_mem _ hfound, hsame⟩
    · rw [toInsert_unknown hknown] at h
      rw [if_neg hknown]
      exact .cons ⟨fun hqueue => absurd hqueue hknown, fun _ => rfl⟩ (ih h)

theorem acceptedIds_enqueueReplies {jobs : List AcceptedJob}
    (hlength : (toInsert queueNames batch).length = jobs.length) :
    acceptedIds (enqueueReplies queueNames batch (jobs.map .ok)) = jobs.map AcceptedJob.id := by
  induction batch generalizing jobs with
  | nil =>
    obtain rfl := List.eq_nil_of_length_eq_zero hlength.symm
    rfl
  | cons job rest ih =>
    rw [enqueueReplies]
    by_cases hknown : job.queueName ∈ queueNames
    · rw [toInsert_known hknown] at hlength
      obtain ⟨first, jobs, rfl⟩ := List.exists_cons_of_length_eq_add_one hlength.symm
      rw [if_pos hknown, List.map_cons, List.headD_cons, List.tail_cons, List.map_cons,
        ← ih (Nat.succ.inj hlength)]
      rfl
    · rw [toInsert_unknown hknown] at hlength
      rw [if_neg hknown, ← ih hlength]
      rfl

/-! ### Numbered jobs -/

theorem numbered_forall₂ (first : Int) (jobs : List AcceptedJob) :
    List.Forall₂ (fun job numbered => numbered = { job with id := numbered.id }) jobs
      (numbered first jobs) := by
  induction jobs generalizing first with
  | nil => exact .nil
  | cons job jobs ih =>
    rw [numbered_cons]
    exact .cons rfl (ih (first + 1))

theorem numbered_increasing (first : Int) (jobs : List AcceptedJob) :
    ((numbered first jobs).map AcceptedJob.id).Pairwise (· < ·) := by
  induction jobs generalizing first with
  | nil => exact .nil
  | cons job jobs ih =>
    rw [numbered_cons, List.map_cons]
    refine .cons (fun id hid => ?_) (ih (first + 1))
    obtain ⟨other, hother, rfl⟩ := List.mem_map.mp hid
    have hle := le_of_mem_numbered hother
    dsimp only
    omega

/-- A numbered job is stored under its id. -/
theorem lookup_numbered {rows jobs : List AcceptedJob} {job : AcceptedJob}
    (h : job ∈ numbered (nextId rows) jobs) :
    Table.lookup AcceptedJob.id job.id
      (rows ++ (numbered (nextId rows) jobs).map unclaimed) = some (unclaimed job) := by
  have hold : Table.lookup AcceptedJob.id job.id rows = none := by
    refine Table.lookup_eq_none.mpr fun row hrow hsame => ?_
    have hless : row.id < nextId rows := Table.lt_nextRowid (List.mem_map_of_mem hrow)
    have hle := le_of_mem_numbered h
    omega
  have hids : (((numbered (nextId rows) jobs).map unclaimed).map AcceptedJob.id).Nodup := by
    rw [List.map_map]
    exact numbered_ids_nodup (nextId rows) jobs
  rw [Table.lookup_append, hold, Option.none_or]
  exact Table.lookup_of_mem hids (List.mem_map_of_mem h)

/-! ### A batch -/

/-- How a committed batch answers a request: with a new id, under which the request is stored. -/
def AnsweredIn (rows rows' : List AcceptedJob) (queueNames : List String) (job : AcceptedJob)
    (reply : Except StoreError AcceptedJob) : Prop :=
  (job.queueName ∈ queueNames → ∃ id, reply = .ok { job with id := id } ∧
    Table.lookup AcceptedJob.id id rows' = some { job with id := id, dispatchId := none } ∧
    ∀ row ∈ rows, row.id < id) ∧
  (job.queueName ∉ queueNames → reply = .error (.queueNotFound job.queueName))

theorem enqueueBatchOr_of_ok {fault : Option StoreError}
    {state : List AcceptedJob × List AcceptedJob}
    (h : conn.enqueueResult fault batch queueNames = .ok state) :
    (∀ job ∈ toInsert queueNames batch, job.queueName ∈ conn.jobQueues.map JobQueue.name) ∧
    conn.enqueueBatchOr fault batch queueNames =
      ({ conn with acceptedJobs := conn.acceptedJobs ++
          (numbered (nextId conn.acceptedJobs) (toInsert queueNames batch)).map unclaimed },
        enqueueReplies queueNames batch
          ((numbered (nextId conn.acceptedJobs) (toInsert queueNames batch)).map .ok)) := by
  cases fault with
  | some error => cases h
  | none =>
    have hflatten := Table.chunks_flatten rowsPerStatement_pos (toInsert queueNames batch)
    have hqueues := foldlM_enqueueChunk_queues h
    have hstate := foldlM_enqueueChunk (fun chunk => Table.chunks_ne_nil rowsPerStatement_pos) h
    rw [hflatten] at hqueues hstate
    refine ⟨hqueues, ?_⟩
    rw [enqueueBatchOr, enqueueBatch, show (Table.chunks rowsPerStatement (batch.filter fun job => job.queueName ∈ queueNames)).foldlM
      (enqueueChunk conn.jobQueues) (conn.acceptedJobs, []) = .ok state from h, hstate]
    rfl

theorem enqueueBatchOr_of_error {fault : Option StoreError} {error : StoreError}
    (h : conn.enqueueResult fault batch queueNames = .error error) :
    conn.enqueueBatchOr fault batch queueNames =
      (conn, enqueueReplies queueNames batch
        ((toInsert queueNames batch).map fun _ => .error error)) := by
  cases fault with
  | some fault =>
    obtain rfl := Except.error.inj h
    rfl
  | none =>
    rw [enqueueBatchOr, enqueueBatch, show (Table.chunks rowsPerStatement (batch.filter fun job => job.queueName ∈ queueNames)).foldlM
      (enqueueChunk conn.jobQueues) (conn.acceptedJobs, []) = .error error from h]
    rfl

/-- A batch that commits is the same as its requests one at a time: the same table and the same
replies, each request under a new id of its own, in increasing order. A batch that fails adds no
row, and answers every request that it would have inserted with the error. -/
theorem batched_enqueue_sequential (fault : Option StoreError) (batch : List AcceptedJob)
    (queueNames : List String) (conn : IngestConn) :
    let batched := conn.enqueueBatchOr fault batch queueNames
    (∀ state, conn.enqueueResult fault batch queueNames = .ok state →
      batched = conn.enqueueEach queueNames batch ∧
      List.Forall₂ (AnsweredIn conn.acceptedJobs batched.1.acceptedJobs queueNames) batch batched.2 ∧
      (acceptedIds batched.2).Pairwise (· < ·) ∧
      ∃ added, batched.1.acceptedJobs = conn.acceptedJobs ++ added ∧
        added.map AcceptedJob.id = acceptedIds batched.2) ∧
    (∀ error, conn.enqueueResult fault batch queueNames = .error error →
      batched.1 = conn ∧
      List.Forall₂ (fun job reply =>
        (job.queueName ∈ queueNames → reply = .error error) ∧
        (job.queueName ∉ queueNames → reply = .error (.queueNotFound job.queueName)))
        batch batched.2) := by
  intro batched
  refine ⟨fun state hstate => ?_, fun error herror => ?_⟩
  · obtain ⟨hqueues, heq⟩ := enqueueBatchOr_of_ok hstate
    have hnumbered := numbered_forall₂ (nextId conn.acceptedJobs) (toInsert queueNames batch)
    have hids := @acceptedIds_enqueueReplies queueNames batch
      (numbered (nextId conn.acceptedJobs) (toInsert queueNames batch)) (by simp)
    refine ⟨heq.trans (enqueueEach_eq hqueues).symm, ?_, ?_, ?_⟩
    · rw [show batched = _ from heq]
      refine (@enqueueReplies_forall₂ _ _ _ _ Except.ok _ hnumbered).imp fun job reply hreply =>
        ⟨fun hknown => ?_, hreply.2⟩
      obtain ⟨answer, hanswer, hsame, rfl⟩ := hreply.1 hknown
      refine ⟨answer.id, by rw [← hsame], ?_, fun row hrow => ?_⟩
      · rw [lookup_numbered hanswer, unclaimed, hsame]
      · have hless : row.id < nextId conn.acceptedJobs := Table.lt_nextRowid (List.mem_map_of_mem hrow)
        have hle := le_of_mem_numbered hanswer
        omega
    · rw [show batched = _ from heq, hids]
      exact numbered_increasing _ _
    · rw [show batched = _ from heq]
      refine ⟨_, rfl, ?_⟩
      rw [hids, List.map_map]
      rfl
  · have heq : batched = _ := enqueueBatchOr_of_error herror
    rw [heq]
    have hsame : List.Forall₂ (fun _ _ => True) (toInsert queueNames batch)
        (toInsert queueNames batch) := List.forall₂_same.mpr fun _ _ => trivial
    refine ⟨rfl, (@enqueueReplies_forall₂ _ _ _ _ (fun _ => .error error) _ hsame).imp ?_⟩
    intro job reply hreply
    refine ⟨fun hknown => ?_, hreply.2⟩
    obtain ⟨-, -, -, hanswer⟩ := hreply.1 hknown
    exact hanswer

end Sequential

/-- The second request is for a queue that nobody has made: the others are stored under the next
ids. -/
theorem batched_enqueue_sequential_mixed :
    let conn : IngestConn := ⟨[mailQueue], [⟨7, "mail", [], none, 0, 0⟩]⟩
    let batch := [⟨0, "mail", [1], none, 3, 3⟩, ⟨0, "bulk", [2], none, 4, 4⟩, ⟨0, "mail", [3], none, 5, 5⟩]
    (∃ state, conn.enqueueResult none batch ["mail"] = .ok state) ∧
    conn.enqueueEach ["mail"] batch =
      (⟨[mailQueue], [⟨7, "mail", [], none, 0, 0⟩, ⟨8, "mail", [1], none, 3, 3⟩,
        ⟨9, "mail", [3], none, 5, 5⟩]⟩, [.ok ⟨8, "mail", [1], none, 3, 3⟩,
        .error (.queueNotFound "bulk"), .ok ⟨9, "mail", [3], none, 5, 5⟩]) ∧
    conn.enqueueBatchOr none batch ["mail"] = conn.enqueueEach ["mail"] batch := by
  intro conn batch
  have hok : conn.enqueueResult none batch ["mail"] =
      .ok ([⟨7, "mail", [], none, 0, 0⟩, ⟨8, "mail", [1], none, 3, 3⟩, ⟨9, "mail", [3], none, 5, 5⟩],
        [⟨8, "mail", [1], none, 3, 3⟩, ⟨9, "mail", [3], none, 5, 5⟩]) := by decide
  exact ⟨⟨_, hok⟩, by decide, ((batched_enqueue_sequential none batch ["mail"] conn).1 _ hok).1⟩

/-! ### The parameters of a statement -/

/-- A value that a statement is given. -/
inductive SqlValue where
  | text (value : String)
  | blob (value : List UInt8)
  | integer (value : Int)
deriving DecidableEq, Repr

/-- The values of a row, in the order of `JOBS_INSERT_COLUMNS`. -/
def jobValues (job : AcceptedJob) : List SqlValue :=
  [.text job.queueName, .blob job.payload, .integer job.createdAt, .integer job.updatedAt]

/-- The numbers in the text that `values_placeholders` makes, row by row. -/
def valuesPlaceholders (rows cols : Nat) : List (List Nat) :=
  (List.range rows).map fun row =>
    (List.range cols).map fun col => row * cols + (col + 1)

/-- The rows that a statement inserts: the parameter `?n` is the `n`-th of its values. -/
def boundRows (rows cols : Nat) (values : List SqlValue) : List (List (Option SqlValue)) :=
  (valuesPlaceholders rows cols).map fun row => row.map fun n => values[n - 1]?

theorem boundRows_succ (rows : Nat) {first rest : List SqlValue} :
    boundRows (rows + 1) first.length (first ++ rest) =
      first.map some :: boundRows rows first.length rest := by
  rw [boundRows, boundRows, valuesPlaceholders, valuesPlaceholders, List.range_succ_eq_map,
    List.map_cons, List.map_cons]
  congr 1
  · refine List.ext_getElem (by simp) fun i hi hi' => ?_
    have hlt : i < first.length := by simpa using hi'
    simp [List.getElem?_append_left hlt, List.getElem?_eq_getElem hlt]
  · rw [List.map_map, List.map_map, List.map_map]
    refine List.map_congr_left fun row _ => ?_
    simp only [Function.comp_apply, List.map_map, Nat.succ_eq_add_one]
    refine List.map_congr_left fun col _ => ?_
    have hbeyond : (row + 1) * first.length + (col + 1) - 1 =
        row * first.length + (col + 1) - 1 + first.length := by
      rw [Nat.add_mul]
      omega
    simp only [Function.comp_apply]
    rw [hbeyond, List.getElem?_append_right (by omega), Nat.add_sub_cancel]

/-- The placeholders of a statement give each row the values of its own request. -/
theorem boundRows_jobValues (jobs : List AcceptedJob) :
    boundRows jobs.length 4 (jobs.flatMap jobValues) =
      jobs.map fun job => (jobValues job).map some := by
  induction jobs with
  | nil => rfl
  | cons job jobs ih =>
    rw [List.map_cons, ← ih]
    exact boundRows_succ jobs.length

end Maqistor.IngestConn
