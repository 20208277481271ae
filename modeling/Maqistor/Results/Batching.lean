import Maqistor.Results.Fence

/-! Batches of completions with distinct keys. Each request is answered from the table as it is
before the first of them and finishes its own row, so the batches, the order of the requests in
them and the statements they are cut into leave no trace but the update times. -/

namespace Maqistor.ResultsConn

/-- The replies to the requests of a batch. -/
def batchResponses (batch : List PendingCompletion) :
    Except StoreError (List CompletionDisposition) → List (PendingCompletion × Response)
  | .error error => batch.map fun request => (request, .disposition (.error error))
  | .ok dispositions =>
    (batch.zip dispositions).map fun reply => (reply.1, .disposition (.ok reply.2))

/-- Batches completed one after another, each at its own time. -/
def completeBatches : List (Env × List PendingCompletion) → ResultsConn →
    ResultsConn × List (PendingCompletion × Response)
  | [], conn => (conn, [])
  | (env, batch) :: rest, conn =>
    let (conn, result) := conn.completeBatch env batch
    let (conn, responses) := completeBatches rest conn
    (conn, batchResponses batch result ++ responses)

/-- Requests completed one at a time by `handle`. -/
def completeEach : List (Env × PendingCompletion) → ResultsConn →
    ResultsConn × List (PendingCompletion × Response)
  | [], conn => (conn, [])
  | (env, pending) :: rest, conn =>
    let (conn, response) := conn.handle env (.complete pending)
    let (conn, responses) := completeEach rest conn
    (conn, (pending, response) :: responses)

/-- A row without its update time. -/
def untimed (row : Execution) : Execution := { row with updatedAt := 0 }

/-- The same tables up to `updated_at`, and the same reply to each request. -/
structure Indistinguishable (first second : ResultsConn × List (PendingCompletion × Response)) :
    Prop where
  queues : first.1.executionQueues = second.1.executionQueues
  executions : first.1.executions.map untimed = second.1.executions.map untimed
  replies : first.2.Perm second.2

/-- A rewrite that leaves the rows of a request alone, and starts none for it, does not change its
answer. -/
theorem dispose_map {queues : List JobQueue} {executions : List Execution}
    {request : PendingCompletion} {f : Execution → Execution}
    (hsame : ∀ row, fences row request.key = true → f row = row)
    (hnone : ∀ row, fences row request.key = false → fences (f row) request.key = false) :
    dispose queues (executions.map f) request = dispose queues executions request := by
  have hfind : ((executions.map f).find? fun row => fences row request.key) =
      executions.find? fun row => fences row request.key := by
    induction executions with
    | nil => rfl
    | cons row executions ih =>
      rw [List.map_cons, List.find?_cons, List.find?_cons]
      cases h : fences row request.key with
      | true => rw [hsame row h, h]
      | false => rw [hnone row h, ih]
  unfold dispose
  rw [hfind]

/-- Requests for other keys do not change the answer to a request. -/
theorem dispose_of_other_keys {queues : List JobQueue} {executions : List Execution}
    {request : PendingCompletion} {f : Execution → Execution} (others : List PendingCompletion)
    (now : Int) (hkeys : ∀ other ∈ others, other.key ≠ request.key)
    (hf : ∀ row, f row = row ∨ ∃ other ∈ others, fences row other.key = true ∧
      f row = finished now row other.outcome) :
    dispose queues (executions.map f) request = dispose queues executions request := by
  refine dispose_map (fun row hfences => ?_) fun row hfences => ?_
  · rcases hf row with heq | ⟨other, hother, hfences', -⟩
    · exact heq
    · have hsame := (fences_iff.mp hfences').1.symm.trans (fences_iff.mp hfences).1
      exact absurd hsame (hkeys other hother)
  · rcases hf row with heq | ⟨other, -, -, heq⟩
    · rwa [heq]
    · rw [heq]
      exact fences_finished now row other.outcome _

/-- Statements for distinct keys answer every request from the table that the first one meets. -/
theorem answers_of_distinct (env : Env) (queues : List JobQueue) (chunks : List (List Entry))
    (executions : List Execution) (hkeys : (chunks.flatten.map fun entry => entry.1.key).Nodup) :
    answers env queues chunks executions =
      chunks.flatten.map fun entry => (entry, dispose queues executions entry.1) := by
  induction chunks generalizing executions with
  | nil => rfl
  | cons chunk chunks ih =>
    rw [List.flatten_cons, List.map_append, List.nodup_append] at hkeys
    obtain ⟨-, hrest, hdisjoint⟩ := hkeys
    rw [answers, List.flatten_cons, List.map_append, ih _ hrest]
    congr 1
    apply List.map_congr_left
    intro entry hentry
    refine congrArg (entry, ·) (dispose_of_other_keys (chunk.map Prod.fst) env.now
      (fun other hother => ?_) fun row => ?_)
    · obtain ⟨first, hfirst, rfl⟩ := List.mem_map.mp hother
      exact hdisjoint _ (List.mem_map_of_mem hfirst) _
        (List.mem_map.mpr ⟨entry, hentry, rfl⟩)
    · rcases statementRow_cases env chunk row with ⟨-, heq⟩ | ⟨first, hfirst, hfences, heq⟩
      · exact Or.inl heq
      · exact Or.inr ⟨first.1, List.mem_map_of_mem hfirst, hfences, heq⟩

/-- The reply to a request that starts from the given table. -/
def answered (conn : ResultsConn) (request : PendingCompletion) : PendingCompletion × Response :=
  (request, .disposition (.ok (dispose conn.executionQueues conn.executions request)))

theorem batchResponses_perm (env : Env) {batch : List PendingCompletion} {conn : ResultsConn}
    (hjobs : (conn.executions.map Execution.jobId).Nodup)
    (hqueues : ∀ row ∈ conn.executions, row.queueName ∈ conn.executionQueues.map JobQueue.name)
    (hkeys : (batch.map PendingCompletion.key).Nodup) :
    ∃ dispositions, conn.completeBatch env batch =
        ({ conn with executions := conn.executions.map (batchRow env batch) },
          .ok dispositions) ∧
      dispositions.length = batch.length ∧
      (batchResponses batch (.ok dispositions)).Perm (batch.map conn.answered) := by
  obtain ⟨dispositions, heq, hlength, hperm⟩ := completeBatch_replies env batch hjobs hqueues
  refine ⟨dispositions, heq, hlength, ?_⟩
  have hstatements := statements_perm batch
  have hbatch : batch.zipIdx.map (fun entry => entry.1.key) = batch.map PendingCompletion.key := by
    rw [← List.zipIdx_map_fst 0 batch, List.map_map, List.zipIdx_map_fst]
    rfl
  have hdistinct : ((statements batch).flatten.map fun entry => entry.1.key).Nodup := by
    apply (hstatements.map _).symm.nodup
    rw [hbatch]
    exact hkeys
  rw [answers_of_distinct env _ _ _ hdistinct, List.map_map] at hperm
  have hreplies := (hperm.map fun reply : PendingCompletion × CompletionDisposition =>
    (reply.1, Response.disposition (.ok reply.2))).trans ((hstatements.map _).map _)
  refine hreplies.trans (List.Perm.of_eq ?_)
  rw [List.map_map]
  conv_rhs => rw [← List.zipIdx_map_fst 0 batch, List.map_map]
  rfl

/-- A row after several batches. -/
def planRow (plan : List (Env × List PendingCompletion)) (row : Execution) : Execution :=
  plan.foldl (fun row item => batchRow item.1 item.2 row) row

/-- All requests of a plan. -/
def requests (plan : List (Env × List PendingCompletion)) : List PendingCompletion :=
  (plan.map Prod.snd).flatten

/-- Every row is left alone by the whole plan, or finished once by a request for its key. -/
theorem planRow_cases (plan : List (Env × List PendingCompletion)) (row : Execution) :
    ((∀ request ∈ requests plan, fences row request.key = false) ∧ planRow plan row = row) ∨
      ∃ request ∈ requests plan, fences row request.key = true ∧
        ∃ now, planRow plan row = finished now row request.outcome := by
  induction plan generalizing row with
  | nil => exact Or.inl ⟨by simp [requests], rfl⟩
  | cons item plan ih =>
    simp only [requests, List.map_cons, List.flatten_cons, List.mem_append]
    rw [planRow, List.foldl_cons]
    rcases batchRow_cases item.1 item.2 row with ⟨hnone, heq⟩ | ⟨request, hmem, hfences, heq⟩
    · rw [heq]
      rcases ih row with ⟨hrest, hrow⟩ | ⟨request, hmem, hfences, hrow⟩
      · exact Or.inl ⟨fun request h => h.elim (hnone request) (hrest request), hrow⟩
      · exact Or.inr ⟨request, Or.inr hmem, hfences, hrow⟩
    · rw [heq]
      refine Or.inr ⟨request, Or.inl hmem, hfences, item.1.now, ?_⟩
      rcases ih (finished item.1.now row request.outcome) with ⟨-, hrow⟩ | ⟨other, -, hfences', -⟩
      · exact hrow
      · rw [fences_finished] at hfences'
        cases hfences'

theorem map_batchRow_valid (env : Env) (batch : List PendingCompletion) {conn : ResultsConn}
    (hjobs : (conn.executions.map Execution.jobId).Nodup)
    (hqueues : ∀ row ∈ conn.executions, row.queueName ∈ conn.executionQueues.map JobQueue.name) :
    ((conn.executions.map (batchRow env batch)).map Execution.jobId).Nodup ∧
      ∀ row ∈ conn.executions.map (batchRow env batch),
        row.queueName ∈ conn.executionQueues.map JobQueue.name := by
  have hfinishes := Writer.finishes_batchRow env batch
  constructor
  · rw [hfinishes.map_keeps Execution.jobId fun _ _ _ => finished_jobId _ _ _]
    exact hjobs
  · intro row' hrow'
    obtain ⟨row, hrow, rfl⟩ := List.mem_map.mp hrow'
    rw [hfinishes.keeps Execution.queueName fun _ _ _ => finished_queueName _ _ _]
    exact hqueues row hrow

/-- Batches whose keys are all distinct: the table and the replies in closed form. -/
theorem completeBatches_eq (plan : List (Env × List PendingCompletion)) {conn : ResultsConn}
    (hjobs : (conn.executions.map Execution.jobId).Nodup)
    (hqueues : ∀ row ∈ conn.executions, row.queueName ∈ conn.executionQueues.map JobQueue.name)
    (hkeys : ((requests plan).map PendingCompletion.key).Nodup) :
    (completeBatches plan conn).1 =
        { conn with executions := conn.executions.map (planRow plan) } ∧
      (completeBatches plan conn).2.Perm ((requests plan).map conn.answered) := by
  induction plan generalizing conn with
  | nil =>
    refine ⟨?_, List.Perm.refl _⟩
    rw [show planRow [] = id from rfl, List.map_id]
    rfl
  | cons item plan ih =>
    obtain ⟨env, batch⟩ := item
    rw [requests, List.map_cons, List.flatten_cons] at hkeys ⊢
    rw [List.map_append, List.nodup_append] at hkeys
    obtain ⟨hbatch, hrest, hdisjoint⟩ := hkeys
    obtain ⟨dispositions, heq, -, hperm⟩ := batchResponses_perm env hjobs hqueues hbatch
    obtain ⟨hjobs', hqueues'⟩ := map_batchRow_valid env batch hjobs hqueues
    obtain ⟨htable, hreplies⟩ := @ih { conn with
      executions := conn.executions.map (batchRow env batch) } hjobs' hqueues' hrest
    rw [completeBatches, heq]
    dsimp only
    refine ⟨?_, ?_⟩
    · rw [htable, List.map_map]
      rfl
    · rw [List.map_append]
      refine hperm.append (hreplies.trans (List.Perm.of_eq ?_))
      apply List.map_congr_left
      intro request hrequest
      rw [answered, answered, dispose_of_other_keys batch env.now]
      · intro other hother
        exact hdisjoint _ (List.mem_map_of_mem hother) _ (List.mem_map_of_mem hrequest)
      · intro row
        rcases batchRow_cases env batch row with ⟨-, heq⟩ | hfinished
        · exact Or.inl heq
        · exact Or.inr hfinished

theorem completeEach_eq (order : List (Env × PendingCompletion)) {conn : ResultsConn}
    (hjobs : (conn.executions.map Execution.jobId).Nodup)
    (hqueues : ∀ row ∈ conn.executions, row.queueName ∈ conn.executionQueues.map JobQueue.name) :
    completeEach order conn =
      completeBatches (order.map fun item => (item.1, [item.2])) conn := by
  induction order generalizing conn with
  | nil => rfl
  | cons item order ih =>
    obtain ⟨env, pending⟩ := item
    obtain ⟨dispositions, heq, hlength, -⟩ := completeBatch_replies env [pending] hjobs hqueues
    obtain ⟨hjobs', hqueues'⟩ := map_batchRow_valid env [pending] hjobs hqueues
    obtain ⟨disposition, rfl⟩ := List.length_eq_one_iff.mp hlength
    simp only [completeEach, handle, List.map_cons, completeBatches, heq]
    rw [@ih { conn with
      executions := conn.executions.map (batchRow env [pending]) } hjobs' hqueues']
    rfl

/-- Plans for the same requests, all with distinct keys, give the same rows up to the time. -/
theorem untimed_planRow {plan plan' : List (Env × List PendingCompletion)}
    (hperm : (requests plan).Perm (requests plan'))
    (hkeys : ((requests plan).map PendingCompletion.key).Nodup) (row : Execution) :
    untimed (planRow plan row) = untimed (planRow plan' row) := by
  rcases planRow_cases plan row with ⟨hnone, heq⟩ | ⟨request, hmem, hfences, now, heq⟩
  · rcases planRow_cases plan' row with ⟨-, heq'⟩ | ⟨other, hmem', hfences', -⟩
    · rw [heq, heq']
    · rw [hnone other (hperm.mem_iff.mpr hmem')] at hfences'
      cases hfences'
  · rcases planRow_cases plan' row with ⟨hnone, -⟩ | ⟨other, hmem', hfences', now', heq'⟩
    · rw [hnone request (hperm.mem_iff.mp hmem)] at hfences
      cases hfences
    · have hsame : request = other := by
        apply List.inj_on_of_nodup_map hkeys hmem (hperm.mem_iff.mpr hmem')
        exact (fences_iff.mp hfences).1.symm.trans (fences_iff.mp hfences').1
      rw [heq, heq', hsame]
      cases other.outcome <;> rfl

theorem indistinguishable_plans {plan plan' : List (Env × List PendingCompletion)}
    {conn : ResultsConn} (hjobs : (conn.executions.map Execution.jobId).Nodup)
    (hqueues : ∀ row ∈ conn.executions, row.queueName ∈ conn.executionQueues.map JobQueue.name)
    (hkeys : ((requests plan).map PendingCompletion.key).Nodup)
    (hperm : (requests plan).Perm (requests plan')) :
    Indistinguishable (completeBatches plan conn) (completeBatches plan' conn) := by
  obtain ⟨htable, hreplies⟩ := completeBatches_eq plan hjobs hqueues hkeys
  obtain ⟨htable', hreplies'⟩ :=
    completeBatches_eq plan' hjobs hqueues ((hperm.map _).nodup hkeys)
  constructor
  · rw [htable, htable']
  · rw [htable, htable', List.map_map, List.map_map]
    exact List.map_congr_left fun row _ => untimed_planRow hperm hkeys row
  · exact hreplies.trans ((hperm.map _).trans hreplies'.symm)

/-- `complete_batch` on requests with distinct keys cannot be told from any other way of completing
them: one at a time in any order, or in any batches. -/
theorem batching_invisible {conn : ResultsConn} {requested : List PendingCompletion}
    (hjobs : (conn.executions.map Execution.jobId).Nodup)
    (hqueues : ∀ row ∈ conn.executions, row.queueName ∈ conn.executionQueues.map JobQueue.name)
    (hkeys : (requested.map PendingCompletion.key).Nodup) (env : Env) :
    ∃ conn' dispositions, conn.completeBatch env requested = (conn', .ok dispositions) ∧
      dispositions.length = requested.length ∧
      (∀ order : List (Env × PendingCompletion), (order.map Prod.snd).Perm requested →
        Indistinguishable (conn', (requested.zip dispositions).map fun reply =>
          (reply.1, .disposition (.ok reply.2))) (completeEach order conn)) ∧
      (∀ plan : List (Env × List PendingCompletion), (plan.map Prod.snd).flatten.Perm requested →
        Indistinguishable (conn', (requested.zip dispositions).map fun reply =>
          (reply.1, .disposition (.ok reply.2))) (completeBatches plan conn)) := by
  obtain ⟨dispositions, heq, hlength, -⟩ := completeBatch_replies env requested hjobs hqueues
  have hone : completeBatches [(env, requested)] conn =
      ({ conn with executions := conn.executions.map (batchRow env requested) },
        (requested.zip dispositions).map fun reply => (reply.1, .disposition (.ok reply.2))) := by
    simp only [completeBatches, heq, batchResponses, List.append_nil]
  have hself : requests [(env, requested)] = requested := by simp [requests]
  have hplan : ∀ plan : List (Env × List PendingCompletion), (requests plan).Perm requested →
      Indistinguishable (completeBatches [(env, requested)] conn) (completeBatches plan conn) := by
    intro plan hperm
    exact indistinguishable_plans hjobs hqueues (by rw [hself]; exact hkeys)
      (by rw [hself]; exact hperm.symm)
  refine ⟨_, dispositions, heq, hlength, fun order horder => ?_, fun plan hperm => ?_⟩
  · rw [← hone, completeEach_eq order hjobs hqueues]
    apply hplan _
    have hsingle : requests (order.map fun item => (item.1, [item.2])) = order.map Prod.snd := by
      clear horder
      induction order with
      | nil => rfl
      | cons item order ih => simpa [requests] using ih
    rw [hsingle]
    exact horder
  · rw [← hone]
    exact hplan plan hperm

/-- A failure of the current attempt and a success of a stale one, for one job. -/
theorem batching_invisible_stale_success :
    let conn : ResultsConn :=
      ⟨[mailQueue], [⟨1, 7, "mail", .running, 2, some 30, "e", none, none, 0, 0⟩]⟩
    let requested : List PendingCompletion := [⟨7, "e", .failed "x"⟩, ⟨7, "d", .succeeded [1]⟩]
    ∃ conn' dispositions,
      conn.completeBatch (.atTime 5) requested = (conn', .ok dispositions) ∧
      Indistinguishable (conn', (requested.zip dispositions).map fun reply =>
          (reply.1, .disposition (.ok reply.2)))
        (completeEach [(.atTime 8, ⟨7, "d", .succeeded [1]⟩), (.atTime 9, ⟨7, "e", .failed "x"⟩)]
          conn) := by
  intro conn requested
  obtain ⟨conn', dispositions, heq, -, horder, -⟩ :=
    @batching_invisible conn requested (by decide) (by decide) (by decide) (.atTime 5)
  exact ⟨conn', dispositions, heq, horder _ (List.Perm.swap _ _ _)⟩

end Maqistor.ResultsConn
